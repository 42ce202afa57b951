/-
CashStratum/Reconnect.lean

The redirect of an upstream pool (`generator.c`), and where the connection goes after it
(`extract_sockaddr` of `libckpool.c`).  `client.reconnect` names a url and a port; the proxy
stores `url:port` if the host of the url is that of the pool or a subdomain of it.

The host that is checked is what precedes the last colon, and the host that is connected to ends
at the first one, after the first `//` and without brackets.  What the two make of a url with one
colon at most and neither slash nor bracket is the same (`urlHost_eq_urlAddress`), so that the
check holds for the connection; otherwise the connection goes where the url says by the rules of
`extract_sockaddr`, and to the port that the url begins its own port with (`moved_iff`).
-/
import CashStratum.CText

namespace CashStratum

/-! ### Where a connection goes -/

/-- `url_begin` of `extract_sockaddr` -/
def urlBegin (url : Bytes) : Bytes :=
  match strstrFrom [47, 47] url with
  | some found => found.drop 2
  | none => url

/-- There is a bracket, and the first closing one is after the first opening one. -/
def bracketed (begin : Bytes) : Bool :=
  match strstrFrom [91] begin, strstrFrom [93] begin with
  | some ipv6Begin, some ipv6End => ipv6End.length < ipv6Begin.length
  | _, _ => false

/-- `url_end` of `extract_sockaddr` -/
def urlEnd (begin : Bytes) : Option Bytes :=
  if bracketed begin then (strstrFrom [93] begin).bind (strstrFrom [58]) else strstrFrom [58] begin

/-- `url_len` of `extract_sockaddr`, before the brackets are taken off. -/
def urlLen (begin : Bytes) : Nat := begin.length - ((urlEnd begin).getD []).length

/-- `url_address` of `extract_sockaddr` -/
def urlAddress (begin : Bytes) : Bytes :=
  if bracketed begin then (begin.drop 1).take (urlLen begin - 2) else begin.take (urlLen begin)

/-- `extract_sockaddr`: the host and the port that are connected to. -/
def extractSockaddr (url : Bytes) : Option (Bytes × Bytes) :=
  let begin := urlBegin url
  match (urlEnd begin).map (·.drop 1) with
  | some [] => none
  | portStart =>
    if urlAddress begin = [] then none
    else
      some (urlAddress begin,
        match portStart with
        | some field => (field.take 5).takeWhile (· ≠ 47)
        | none => [56, 48])

/-! ### The request -/

/-- A parameter of a request, as far as it is read: an integer that JSON can hold is one of 64
bits, signed or not. -/
inductive JsonVal
  | str (s : Bytes)
  | int (v : Int) (h : -2 ^ 63 ≤ v ∧ v < 2 ^ 64)
  | other

/-- `yyjson_get_str(yyjson_arr_get(val, i))`, as C reads it. -/
def getStr (val : List JsonVal) (i : Nat) : Option Bytes :=
  match val[i]? with
  | some (.str s) => some (cstr s)
  | _ => none

/-- `yyjson_get_sint(yyjson_arr_get(val, i))`, stored in an `int`. -/
def getSint (val : List JsonVal) (i : Nat) : Int :=
  match val[i]? with
  | some (.int v _) => toInt32 v
  | _ => 0

/-- `url_host`, with its buffer of 256 bytes. -/
def urlHost (url : Bytes) : Option Bytes :=
  if url = [] then none
  else
    let len := url.length - ((strrchr 58 url).getD []).length
    if len = 0 ∨ 256 ≤ len then none else some (url.take len)

/-- `reconnect_host_allowed` -/
def reconnectHostAllowed (poolUrl newHost : Bytes) : Bool :=
  match urlHost poolUrl with
  | none => false
  | some poolHost =>
    if 46 ∉ poolHost then false
    else if strcasecmp poolHost newHost then true
    else
      poolHost.length + 1 < newHost.length ∧
        newHost[newHost.length - poolHost.length - 1]? = some 46 ∧
          strcasecmp (newHost.drop (newHost.length - poolHost.length)) poolHost

/-- What `parse_reconnect` reads and changes of a proxy. -/
structure ReconnectProxy where
  url : Bytes
  /-- `proxy->parent == proxy` -/
  isParent : Bool

/-- How `parse_reconnect` ends. -/
inductive ReconnectOutcome
  /-- It returns false. -/
  | denied
  /-- A subproxy is marked dead, and recycled. -/
  | recycled
  /-- The proxy reconnects to the url it has. -/
  | same
  /-- The proxy reconnects to a new url. -/
  | moved (url : Bytes)
deriving DecidableEq

/-- `proxy->url` afterwards. -/
def ReconnectOutcome.url (old : Bytes) : ReconnectOutcome → Bytes
  | .moved url => url
  | _ => old

/-- `new_port`: an integer, or a string that an invalid entry has instead. -/
def reconnectPort (val : List JsonVal) : Int :=
  if getSint val 1 ≠ 0 then getSint val 1
  else
    match getStr val 1 with
    | some port => ((scanInt port).map fun v => toInt32 (clampLong v)).getD 0
    | none => 0

/-- `parse_reconnect`, where `reconnect` says whether redirects are followed. -/
def parseReconnect (reconnect : Bool) (proxy : ReconnectProxy) (val : List JsonVal) :
    ReconnectOutcome :=
  if !reconnect then .denied
  else
    match getStr val 0 with
    | some newUrl =>
      if newUrl ≠ [] ∧ reconnectPort val ≠ 0 then
        match urlHost newUrl with
        | none => .denied
        | some newHost =>
          if !reconnectHostAllowed proxy.url newHost then .denied
          else if !proxy.isParent then .recycled
          else .moved (newUrl ++ 58 :: formatInt (reconnectPort val))
      else if proxy.isParent then .same else .recycled
    | none => if proxy.isParent then .same else .recycled

/-! ### What a redirect asks for, and where it leads -/

/-- The port that is asked for: the number, or the one that the string spells. -/
def requestedPort (val : List JsonVal) : Option Int :=
  match val[1]? with
  | some (JsonVal.int v _) => some v
  | some (JsonVal.str s) => scanInt (cstr s)
  | _ => none

/-- The host is that of the pool, or ends with a dot and that of the pool, ignoring case. -/
def InDomain (pool host : Bytes) : Prop :=
  host.map tolower = pool.map tolower ∨ 46 :: pool.map tolower <:+ host.map tolower

instance (pool host : Bytes) : Decidable (InDomain pool host) :=
  inferInstanceAs (Decidable (_ ∨ _))

/-- A connection to the url goes to a host of the pool, at the port that was asked for. -/
def Follows (pool : Bytes) (val : List JsonVal) (url : Bytes) : Prop :=
  ∃ host port, extractSockaddr url = some (host, port) ∧ InDomain pool host ∧
    ∃ v ∈ requestedPort val, port = formatInt v

/-- The port has five bytes at most, and is what the port of the url, if it has one of its own,
begins with: up to a slash, or up to the fifth byte. -/
def PortFits (port : Bytes) (tail : Option Bytes) : Prop :=
  port.length ≤ 5 ∧ ∀ field ∈ tail.map (·.drop 1),
    (port.length = 5 ∧ port <+: field) ∨ (port.length < 5 ∧ port ++ [47] <+: field)

/-- What the url names up to its first colon, after a `//` and without brackets, is a host of the
pool, and the port that is asked for fits it. -/
def Names (pool : Bytes) (val : List JsonVal) : Prop :=
  ∃ newUrl ∈ getStr val 0, InDomain pool (urlAddress (urlBegin newUrl)) ∧
    ∃ v ∈ requestedPort val, PortFits (formatInt v) (urlEnd (urlBegin newUrl))

/-- Neither a slash nor a bracket, and one colon at most. -/
def PlainUrl (url : Bytes) : Prop :=
  47 ∉ url ∧ 91 ∉ url ∧ ∀ host port, url = host ++ 58 :: port → 58 ∉ host → 58 ∉ port

/-! ### The port that is appended -/

/-- What is appended to a url: a colon and a number. -/
theorem not_mem_colon_formatInt (v : Int) {c : UInt8} (hc : c ∈ [47, 91, 93]) :
    c ∉ 58 :: formatInt v := by
  have hother : c ≠ 58 ∧ c ≠ 45 ∧ ¬ (48 ≤ c ∧ c ≤ 57) := by
    simp only [List.mem_cons, List.not_mem_nil, or_false] at hc
    rcases hc with rfl | rfl | rfl <;> decide
  obtain ⟨hcolon, hsign, hdigit⟩ := hother
  rw [List.mem_cons, not_or]
  exact ⟨hcolon, not_mem_formatInt hsign hdigit⟩

theorem urlBegin_append (url : Bytes) (v : Int) :
    urlBegin (url ++ 58 :: formatInt v) = urlBegin url ++ 58 :: formatInt v := by
  have hseam : ∀ c ∈ ([47, 47] : Bytes), c ∉ 58 :: formatInt v := by
    intro c hc
    have hslash : c = 47 := by simpa using hc
    exact not_mem_colon_formatInt v (hslash ▸ List.mem_cons_self)
  unfold urlBegin
  rw [strstrFrom_append_of_not_mem (List.cons_ne_nil _ _) hseam]
  cases hfound : strstrFrom [47, 47] url with
  | none => rfl
  | some found =>
    have hlen : 2 ≤ found.length := ( strstrFrom_prefix hfound).length_le
    exact List.drop_append_of_le_length hlen

theorem bracketed_append (begin : Bytes) (v : Int) :
    bracketed (begin ++ 58 :: formatInt v) = bracketed begin := by
  have hseam : ∀ c ∈ ([91, 93] : Bytes), ∀ d ∈ [c], d ∉ 58 :: formatInt v := by
    intro c hc d hd
    rw [List.mem_singleton] at hd
    subst hd
    exact not_mem_colon_formatInt v (List.mem_cons_of_mem 47 hc)
  unfold bracketed
  rw [strstrFrom_append_of_not_mem (List.cons_ne_nil _ _) (hseam 91 (by decide)),
    strstrFrom_append_of_not_mem (List.cons_ne_nil _ _) (hseam 93 (by decide))]
  cases strstrFrom [91] begin with
  | none => rfl
  | some b =>
    cases strstrFrom [93] begin with
    | none => rfl
    | some e => simp

/-- The url ends at its own colon, or at the one that is appended. -/
theorem urlEnd_append (begin : Bytes) (v : Int) :
    urlEnd (begin ++ 58 :: formatInt v) =
      some ((urlEnd begin).getD [] ++ 58 :: formatInt v) := by
  unfold urlEnd
  rw [bracketed_append]
  cases hb : bracketed begin with
  | false => exact strstrFrom_append_cons 58 begin (formatInt v)
  | true =>
    have hseam : ∀ d ∈ ([93] : Bytes), d ∉ 58 :: formatInt v := by
      intro d hd
      rw [List.mem_singleton.mp hd]
      exact not_mem_colon_formatInt v (by decide)
    rw [if_pos rfl, if_pos rfl, strstrFrom_append_of_not_mem (List.cons_ne_nil _ _) hseam]
    unfold bracketed at hb
    cases hfound : strstrFrom [93] begin with
    | none =>
      rw [hfound] at hb
      cases hopen : strstrFrom [91] begin <;> rw [hopen] at hb <;> cases hb
    | some e => exact strstrFrom_append_cons 58 e (formatInt v)

theorem urlLen_append (begin : Bytes) (v : Int) :
    urlLen (begin ++ 58 :: formatInt v) = urlLen begin := by
  rw [urlLen, urlEnd_append, urlLen, Option.getD_some, List.length_append, List.length_append,
    Nat.add_sub_add_right]

/-- **The host does not depend on the port that is appended.** -/
theorem urlAddress_append (begin : Bytes) (v : Int) :
    urlAddress (begin ++ 58 :: formatInt v) = urlAddress begin := by
  have hlen : urlLen begin ≤ begin.length := Nat.sub_le _ _
  unfold urlAddress
  rw [bracketed_append, urlLen_append]
  split
  · by_cases hnil : begin = []
    · subst hnil
      have hzero : urlLen [] - 2 = 0 := rfl
      rw [hzero, List.take_zero, List.take_zero]
    · have hone : 1 ≤ begin.length := List.length_pos_of_ne_nil hnil
      rw [List.drop_append_of_le_length hone, List.take_append_of_le_length]
      rw [List.length_drop]
      omega
  · exact List.take_append_of_le_length hlen

/-- **Where a connection to `url:port` goes.** -/
theorem extractSockaddr_append (url : Bytes) (v : Int) :
    extractSockaddr (url ++ 58 :: formatInt v) =
      if urlAddress (urlBegin url) = [] then none
      else
        some (urlAddress (urlBegin url),
          ((((urlEnd (urlBegin url)).getD [] ++ 58 :: formatInt v).drop 1).take 5).takeWhile
            (· ≠ 47)) := by
  unfold extractSockaddr
  rw [urlBegin_append]
  dsimp only
  rw [urlEnd_append, urlAddress_append, Option.map_some]
  split
  · next hnil =>
    have hdrop : ((urlEnd (urlBegin url)).getD [] ++ 58 :: formatInt v).drop 1 = [] :=
      Option.some.inj hnil
    rw [List.drop_eq_nil_iff, List.length_append, List.length_cons] at hdrop
    have hpos := List.length_pos_of_ne_nil (formatInt_ne_nil v)
    omega
  · next hfield =>
    rfl

/-! ### A redirect that is taken -/

variable {reconnect : Bool} {proxy : ReconnectProxy} {val : List JsonVal} {url : Bytes}

/-- What `parse_reconnect` has found when it stores a new url. -/
theorem moved_cases (h : parseReconnect reconnect proxy val = .moved url) :
    ∃ newUrl newHost, getStr val 0 = some newUrl ∧ reconnectPort val ≠ 0 ∧
      urlHost newUrl = some newHost ∧ reconnectHostAllowed proxy.url newHost = true ∧
        url = newUrl ++ 58 :: formatInt (reconnectPort val) := by
  unfold parseReconnect at h
  split at h
  · cases h
  split at h
  next newUrl hget =>
    split at h
    · next hnew =>
      split at h
      · cases h
      · next newHost hhost =>
        split at h
        · cases h
        · next hallowed =>
          split at h
          · cases h
          · cases h
            exact ⟨newUrl, newHost, hget, hnew.2, hhost, by simpa using hallowed, rfl⟩
    · split at h <;> cases h
  · split at h <;> cases h

/-- A port of five bytes at most is stored as it was asked for. -/
theorem reconnectPort_eq (hport : reconnectPort val ≠ 0) {v : Int}
    (hv : requestedPort val = some v) (hlen : (formatInt v).length ≤ 5) :
    reconnectPort val = v := by
  obtain ⟨hint, hlong⟩ := toInt32_of_length hlen
  unfold requestedPort at hv
  unfold reconnectPort getSint getStr at hport ⊢
  split at hv
  · next w _ hget =>
    cases hv
    rw [hget] at hport ⊢
    dsimp only at hport ⊢
    by_cases hzero : toInt32 v ≠ 0
    · rw [if_pos hzero, hint]
    · rw [if_neg hzero] at hport
      exact absurd rfl hport
  · next s hget =>
    rw [hget]
    dsimp only
    rw [hv, Option.map_some, Option.getD_some, hlong, hint]
    exact if_neg (by decide)
  · cases hv

/-- The colon at which a url ends. -/
theorem urlEnd_head {begin tail : Bytes} (h : urlEnd begin = some tail) :
    tail = 58 :: tail.drop 1 := by
  have hpre : ([58] : Bytes) <+: tail := by
    unfold urlEnd at h
    split at h
    · obtain ⟨e, -, he⟩ := Option.bind_eq_some_iff.mp h
      exact strstrFrom_prefix he
    · exact strstrFrom_prefix h
  obtain ⟨rest, hrest⟩ := hpre
  rw [← hrest]
  rfl

/-- The port field of `url:port`. -/
theorem portField_eq_iff {port : Bytes} (hslash : 47 ∉ port) (hcolon : 58 ∉ port)
    (begin : Bytes) (v : Int) :
    ((((urlEnd begin).getD [] ++ 58 :: formatInt v).drop 1).take 5).takeWhile (· ≠ 47) = port ↔
      match urlEnd begin with
      | none => (formatInt v).take 5 = port
      | some tail => (port.length = 5 ∧ port <+: tail.drop 1) ∨
          (port.length < 5 ∧ port ++ [47] <+: tail.drop 1) := by
  cases htail : urlEnd begin with
  | none =>
    have hnone : ∀ c ∈ (formatInt v).take 5, (decide (c ≠ 47)) = true := by
      intro c hc
      have hmem : c ∈ formatInt v := List.mem_of_mem_take hc
      simp only [decide_eq_true_eq]
      rintro rfl
      exact not_mem_formatInt (by decide) (by decide) hmem
    simp only [Option.getD_none, List.nil_append, List.drop_succ_cons, List.drop_zero]
    rw [List.takeWhile_eq_self_iff.mpr hnone]
  | some tail =>
    have hdrop : (tail ++ 58 :: formatInt v).drop 1 = tail.drop 1 ++ 58 :: formatInt v := by
      rw [urlEnd_head htail]
      rfl
    rw [Option.getD_some, hdrop]
    exact takeWhile_take_eq_iff hslash hcolon _ _ 5

theorem not_inDomain_nil {pool : Bytes} (hpool : pool ≠ []) : ¬ InDomain pool [] := by
  rintro (heq | hsuf)
  · exact hpool (List.map_eq_nil_iff.mp heq.symm)
  · have hlen := hsuf.length_le
    simp at hlen

/-- **A redirect leads where it should exactly if the url names a host of the pool as a connection
reads it, and the port fits.** -/
theorem moved_iff {pool : Bytes} (hpool : pool ≠ [])
    (h : parseReconnect reconnect proxy val = .moved url) :
    Follows pool val url ↔ Names pool val := by
  obtain ⟨newUrl, newHost, hget, hport, -, -, rfl⟩ := moved_cases h
  have hslash : ∀ v, 47 ∉ formatInt v := fun v => not_mem_formatInt (by decide) (by decide)
  have hcolon : ∀ v, 58 ∉ formatInt v := fun v => not_mem_formatInt (by decide) (by decide)
  constructor
  · rintro ⟨host, port, hextract, hdomain, v, hv, rfl⟩
    rw [extractSockaddr_append] at hextract
    split at hextract
    · cases hextract
    · simp only [Option.some.injEq, Prod.mk.injEq] at hextract
      obtain ⟨rfl, hfield⟩ := hextract
      rw [portField_eq_iff (hslash v) (hcolon v)] at hfield
      refine ⟨newUrl, hget, hdomain, v, hv, ?_⟩
      cases htail : urlEnd (urlBegin newUrl) with
      | none =>
        rw [htail] at hfield
        refine ⟨?_, fun field hmem => by cases hmem⟩
        rw [← hfield, List.length_take]
        exact Nat.min_le_left _ _
      | some tail =>
        rw [htail] at hfield
        refine ⟨hfield.elim (fun h => h.1.le) fun h => h.1.le, fun field hmem => ?_⟩
        cases hmem
        exact hfield
  · rintro ⟨newUrl', hget', hdomain, v, hv, hlen, hfits⟩
    obtain rfl : newUrl = newUrl' := Option.some.inj (hget.symm.trans hget')
    refine ⟨_, formatInt v, ?_, hdomain, v, hv, rfl⟩
    have hne : urlAddress (urlBegin newUrl) ≠ [] := by
      intro hnil
      rw [hnil] at hdomain
      exact not_inDomain_nil hpool hdomain
    rw [extractSockaddr_append, if_neg hne, reconnectPort_eq hport hv hlen]
    congr 2
    rw [portField_eq_iff (hslash v) (hcolon v)]
    cases htail : urlEnd (urlBegin newUrl) with
    | none => exact List.take_of_length_le hlen
    | some tail => exact hfits _ (by rw [htail]; rfl)

/-! ### The check -/

/-- **Of a plain url the check and the connection read the same host.** -/
theorem urlHost_eq_urlAddress {url host : Bytes} (hplain : PlainUrl url)
    (h : urlHost url = some host) : urlAddress (urlBegin url) = host := by
  obtain ⟨hslash, hbracket, hone⟩ := hplain
  have hbegin : urlBegin url = url := by
    unfold urlBegin
    rw [strstrFrom_eq_none (List.cons_ne_nil _ _)]
    intro c hc
    rw [show c = 47 by simpa using hc]
    exact hslash
  have hopen : bracketed url = false := by
    unfold bracketed
    rw [strstrFrom_eq_none (List.cons_ne_nil _ _)]
    intro c hc
    rw [List.mem_singleton.mp hc]
    exact hbracket
  have hsame : (strstrFrom [58] url).getD [] = (strrchr 58 url).getD [] := by
    by_cases hmem : 58 ∈ url
    · obtain ⟨a, b, rfl, ha⟩ := List.eq_append_cons_of_mem hmem
      have hnone : strstrFrom [58] a = none := by
        apply strstrFrom_eq_none (List.cons_ne_nil _ _)
        intro c hc
        rw [List.mem_singleton.mp hc]
        exact ha
      rw [strrchr_append_cons (hone a b rfl ha), strstrFrom_append_cons, hnone]
      rfl
    · have hnone : strstrFrom [58] url = none := by
        apply strstrFrom_eq_none (List.cons_ne_nil _ _)
        intro c hc
        rw [List.mem_singleton.mp hc]
        exact hmem
      rw [hnone, strrchr_eq_none hmem]
  have hlen : urlLen url = url.length - ((strrchr 58 url).getD []).length := by
    unfold urlLen urlEnd
    rw [hopen, ← hsame]
    rfl
  unfold urlHost at h
  split at h
  · cases h
  dsimp only at h
  split at h
  · cases h
  · rw [hbegin, urlAddress, hopen, hlen]
    exact Option.some.inj h

/-- What the check allows is the host of the pool, or ends with a dot and that host. -/
theorem inDomain_of_allowed {poolUrl newHost : Bytes}
    (h : reconnectHostAllowed poolUrl newHost = true) :
    ∃ poolHost, urlHost poolUrl = some poolHost ∧ InDomain poolHost newHost := by
  unfold reconnectHostAllowed at h
  split at h
  · cases h
  · next poolHost hhost =>
    refine ⟨poolHost, hhost, ?_⟩
    split at h
    · cases h
    split at h
    · next hsame =>
      left
      simpa [strcasecmp] using (of_decide_eq_true hsame).symm
    · right
      obtain ⟨hlen, hdot, htail⟩ := of_decide_eq_true h
      have htail' : (newHost.drop (newHost.length - poolHost.length)).map tolower =
          poolHost.map tolower := of_decide_eq_true htail
      have hdrop : newHost.drop (newHost.length - poolHost.length - 1) =
          46 :: newHost.drop (newHost.length - poolHost.length) := by
        obtain ⟨hlt, hget⟩ := List.getElem?_eq_some_iff.mp hdot
        rw [List.drop_eq_getElem_cons hlt, hget]
        congr 2
        omega
      rw [← htail']
      have hsuf : 46 :: newHost.drop (newHost.length - poolHost.length) <:+ newHost :=
        hdrop ▸ List.drop_suffix _ _
      exact hsuf.map tolower

/-- What the connection reads of a plain pool and a plain url is what was checked. -/
theorem inDomain_of_plain (h : parseReconnect reconnect proxy val = .moved url)
    (hpool : PlainUrl proxy.url) {newUrl : Bytes} (hget : getStr val 0 = some newUrl)
    (hplain : PlainUrl newUrl) :
    InDomain (urlAddress (urlBegin proxy.url)) (urlAddress (urlBegin newUrl)) := by
  obtain ⟨newUrl', newHost, hget', -, hhost, hallowed, -⟩ := moved_cases h
  obtain rfl : newUrl = newUrl' := Option.some.inj (hget.symm.trans hget')
  obtain ⟨poolHost, hpoolHost, hdomain⟩ := inDomain_of_allowed hallowed
  rw [urlHost_eq_urlAddress hpool hpoolHost, urlHost_eq_urlAddress hplain hhost]
  exact hdomain

theorem extractSockaddr_host {url host port : Bytes}
    (h : extractSockaddr url = some (host, port)) :
    host = urlAddress (urlBegin url) ∧ host ≠ [] := by
  unfold extractSockaddr at h
  dsimp only at h
  split at h
  · cases h
  · split at h
    · cases h
    · next hne =>
      cases h
      exact ⟨rfl, hne⟩

/-- **A redirect that is taken** leads to a host of the pool and the port that was asked for
exactly if its url names such a host as a connection reads it, which a plain url of a plain pool
does, and its port fits; and only a redirect that is taken changes the url. -/
theorem reconnect_follows_iff {pool port : Bytes}
    (hpool : extractSockaddr proxy.url = some (pool, port)) :
    (∀ url, parseReconnect reconnect proxy val = .moved url →
      (Follows pool val url ↔ Names pool val) ∧
        (PlainUrl proxy.url → ∀ newUrl ∈ getStr val 0, PlainUrl newUrl →
          InDomain pool (urlAddress (urlBegin newUrl)))) ∧
      ((∀ url, parseReconnect reconnect proxy val ≠ .moved url) →
        (parseReconnect reconnect proxy val).url proxy.url = proxy.url) := by
  obtain ⟨rfl, hne⟩ := extractSockaddr_host hpool
  refine ⟨fun url h => ⟨moved_iff hne h, fun hplain newUrl hget => ?_⟩, fun hnot => ?_⟩
  · exact inDomain_of_plain h hplain hget
  · cases hout : parseReconnect reconnect proxy val with
    | moved url => exact absurd hout (hnot url)
    | denied => rfl
    | recycled => rfl
    | same => rfl

/-- The pool of the examples, `pool.com:3333`. -/
def examplePoolUrl : Bytes := [112, 111, 111, 108, 46, 99, 111, 109, 58, 51, 51, 51, 51]

/-- A redirect to `eu.pool.com` at port 4444 is followed. -/
theorem reconnect_to_subdomain :
    Follows [112, 111, 111, 108, 46, 99, 111, 109]
      [.str [101, 117, 46, 112, 111, 111, 108, 46, 99, 111, 109], .int 4444 (by decide)]
      [101, 117, 46, 112, 111, 111, 108, 46, 99, 111, 109, 58, 52, 52, 52, 52] := by
  have hpool : extractSockaddr (ReconnectProxy.mk examplePoolUrl true).url =
      some ([112, 111, 111, 108, 46, 99, 111, 109], [51, 51, 51, 51]) := by decide
  refine ((@reconnect_follows_iff true _ _ _ _ hpool).1 _ (by decide)).1.mpr ?_
  refine ⟨[101, 117, 46, 112, 111, 111, 108, 46, 99, 111, 109], by decide, by decide, 4444,
    by decide, by decide, fun field hfield => ?_⟩
  have hnone : urlEnd (urlBegin [101, 117, 46, 112, 111, 111, 108, 46, 99, 111, 109]) = none := by
    decide
  rw [hnone] at hfield
  cases hfield

/-- `evil.com:80/.pool.com:1` is allowed, because what precedes its last colon ends with
`.pool.com`; and the connection goes to `evil.com` at port 80. -/
theorem redirect_leaves_pool :
    ¬ ∀ (proxy : ReconnectProxy) (val : List JsonVal) (pool port url : Bytes),
      extractSockaddr proxy.url = some (pool, port) → 46 ∈ pool →
        parseReconnect true proxy val = .moved url → Follows pool val url := by
  intro hall
  obtain ⟨host, port, hextract, hdomain, -⟩ := hall ⟨examplePoolUrl, true⟩
    [.str [101, 118, 105, 108, 46, 99, 111, 109, 58, 56, 48, 47, 46, 112, 111, 111, 108, 46, 99,
      111, 109, 58, 49], .int 3333 (by decide)]
    [112, 111, 111, 108, 46, 99, 111, 109] [51, 51, 51, 51] _ (by decide) (by decide) rfl
  have hevil : extractSockaddr ([101, 118, 105, 108, 46, 99, 111, 109, 58, 56, 48, 47, 46, 112, 111,
      111, 108, 46, 99, 111, 109, 58, 49] ++ 58 :: formatInt 3333) =
        some ([101, 118, 105, 108, 46, 99, 111, 109], [56, 48]) := by decide
  cases hextract.symm.trans hevil
  revert hdomain
  decide

end CashStratum
