/-
CashStratum/ApiQueries.lean

The queries of the API by user and by worker (`getuser`, `userclients`, `user_clientinfo`,
`getworker`, `workerclients` and `worker_clientinfo` of `stratifier.c`).

The handlers look users and workers up with the functions of the authorisation, which make what
they do not find, and they do not canonicalise the name before.  A query leaves the accounts
alone exactly if it finds what it asks for or is refused (`sameAccounts_iff`), and two spellings
of a CashAddr have an entry each (`userKey_eq_iff`): the one under which its clients are, and one
that the query makes.
-/
import CashStratum.InstanceInvariant
import CashStratum.Stratifier
import CashStratum.UserFiles

namespace CashStratum

/-! ### The queries -/

/-- The document of a query: no JSON, without the key (or with something else than a string
there), or with a string. -/
inductive ApiArg where
  | unparsed
  | missing
  | str (s : Bytes)

/-- What a query asks about the clients that it finds. -/
inductive ClientList where
  /-- their ids -/
  | ids
  /-- `clientinfo` of each -/
  | infos

inductive ApiQuery where
  | getuser (user : ApiArg)
  /-- `userclients` and `user_clientinfo` -/
  | userclients (list : ClientList) (user : ApiArg)
  | getworker (worker : ApiArg)
  /-- `workerclients` and `worker_clientinfo` -/
  | workerclients (list : ClientList) (worker : ApiArg)

/-- What is sent back: an error, or what the handler reads of the user entry with a key. -/
inductive ApiReply where
  /-- `yyjson_encode_errormsg` -/
  | unparsed
  | errormsg (text : String)
  | userinfo (entry : Bytes) (workers : Int)
  | workerinfo (entry workername : Bytes)
  | clients (entry name : Bytes) (list : ClientList) (found : List Nat)

/-- The user entry that a reply is about. -/
def ApiReply.entry : ApiReply → Option Bytes
  | .userinfo entry _ => some entry
  | .workerinfo entry _ => some entry
  | .clients entry _ _ _ => some entry
  | .unparsed => none
  | .errormsg _ => none

/-- The name in a document, or the reply that refuses it; `key` is `user` or `worker`. -/
def ApiArg.name (arg : ApiArg) (key : String) : Except ApiReply Bytes :=
  match arg with
  | .unparsed => .error .unparsed
  | .missing => .error (.errormsg ("Failed to find " ++ key ++ " key"))
  | .str s =>
    if cstr s = [] then .error (.errormsg ("Zero length " ++ key ++ " key")) else .ok (cstr s)

/-- The name that a query looks a user up by: a user name as it is, a worker name up to its first
separator. -/
def ApiQuery.lookup : ApiQuery → Except ApiReply Bytes
  | .getuser arg => arg.name "user"
  | .userclients _ arg => arg.name "user"
  | .getworker arg => (arg.name "worker").map fun w => (strsep w).1
  | .workerclients _ arg => (arg.name "worker").map fun w => (strsep w).1

/-- The name in a query. -/
def ApiQuery.name : ApiQuery → Except ApiReply Bytes
  | .getuser arg => arg.name "user"
  | .userclients _ arg => arg.name "user"
  | .getworker arg => arg.name "worker"
  | .workerclients _ arg => arg.name "worker"

namespace InstanceData

variable (c : InstanceConf) (s : InstanceData)

/-- `get_user` -/
def getUser (username : Bytes) : InstanceData × Bytes :=
  match s.getCreateUser c username false with
  | (t, some (u, _)) => (t, u)
  | (t, none) => (t, userKey username)

/-- The clients of a user, in the order of its list. -/
def clientsOf (u : Bytes) (list : ClientList) (keep : ClientInstance → Bool) : List Nat :=
  let found := (s.user u).clients.filter fun p => keep (s.inst p)
  match list with
  | .ids => found.map fun p => (s.inst p).id
  | .infos => found

/-- What the handler of a query does and sends. -/
def apiQuery : ApiQuery → InstanceData × ApiReply
  | .getuser arg =>
    match arg.name "user" with
    | .error e => (s, e)
    | .ok username =>
      let (t, u) := s.getUser c username
      (t, .userinfo u (t.user u).workers)
  | .userclients list arg =>
    match arg.name "user" with
    | .error e => (s, e)
    | .ok username =>
      let (t, u) := s.getUser c username
      (t, .clients u username list (t.clientsOf u list fun _ => true))
  | .getworker arg =>
    match arg.name "worker" with
    | .error e => (s, e)
    | .ok workername =>
      let (t, u) := s.getUser c (strsep workername).1
      (t.getWorker u workername, .workerinfo u workername)
  | .workerclients list arg =>
    match arg.name "worker" with
    | .error e => (s, e)
    | .ok workername =>
      let (t, u) := s.getUser c (strsep workername).1
      (t, .clients u workername list
        (t.clientsOf u list fun client => client.workername = some workername))

/-! ### What a query leaves -/

/-- The set of users, their workers and everything else in their accounts are the same. -/
def SameAccounts (s t : InstanceData) : Prop := t.usernames = s.usernames ∧ t.user = s.user

/-- What the query asks for is there: the user, and for `getworker` the worker. -/
def Finds (q : ApiQuery) : Prop :=
  match q.lookup with
  | .error _ => True
  | .ok username => userKey username ∈ s.usernames ∧
    match q with
    | .getworker _ => ∀ w, q.name = .ok w → w ∈ (s.user (userKey username)).workerInstances
    | _ => True

variable {c s}

theorem getUser_snd (username : Bytes) : (s.getUser c username).2 = userKey username := by
  rw [getUser, getCreateUser]
  by_cases hmem : userKey username ∈ s.usernames
  · simp only [hmem, if_true]
  · simp only [hmem, if_false, Bool.false_eq_true, false_and]

theorem getUser_of_mem {username : Bytes} (h : userKey username ∈ s.usernames) :
    (s.getUser c username).1 = s := by
  rw [getUser, getCreateUser]
  simp only [h, if_true]

theorem getUser_of_not_mem {username : Bytes} (h : userKey username ∉ s.usernames) :
    (s.getUser c username).1.usernames = s.usernames ++ [userKey username] := by
  rw [getUser, getCreateUser]
  simp only [h, if_false, Bool.false_eq_true, false_and]

/-- **A lookup leaves the accounts alone if it finds its user**, and only then. -/
theorem getUser_same_iff (username : Bytes) :
    SameAccounts s (s.getUser c username).1 ↔ userKey username ∈ s.usernames := by
  refine ⟨fun h => ?_, fun h => ?_⟩
  · by_contra hmem
    have hlen := congrArg List.length h.1
    rw [getUser_of_not_mem hmem, List.length_append, List.length_singleton] at hlen
    omega
  · rw [getUser_of_mem h]
    exact ⟨rfl, rfl⟩

theorem getWorker_usernames (u w : Bytes) : (s.getWorker u w).usernames = s.usernames := by
  rw [getWorker]
  split <;> rfl

theorem getWorker_same_iff (u w : Bytes) :
    SameAccounts s (s.getWorker u w) ↔ w ∈ (s.user u).workerInstances := by
  refine ⟨fun h => ?_, fun h => ?_⟩
  · by_contra hmem
    have huser := congrFun h.2 u
    rw [getWorker, if_neg hmem, modifyUser_user, if_pos rfl] at huser
    have hlen := congrArg (fun user => user.workerInstances.length) huser
    simp only [List.length_append, List.length_singleton] at hlen
    omega
  · rw [getWorker, if_pos h]
    exact ⟨rfl, rfl⟩

theorem getWorker_after_getUser_iff (username w : Bytes) :
    SameAccounts s ((s.getUser c username).1.getWorker (s.getUser c username).2 w) ↔
      userKey username ∈ s.usernames ∧ w ∈ (s.user (userKey username)).workerInstances := by
  by_cases hmem : userKey username ∈ s.usernames
  · rw [getUser_of_mem hmem, getUser_snd, getWorker_same_iff]
    exact (and_iff_right hmem).symm
  · refine iff_of_false (fun h => ?_) fun h => hmem h.1
    apply hmem
    rw [← getUser_same_iff (c := c)]
    have husernames := h.1
    rw [getWorker_usernames] at husernames
    have hlen := congrArg List.length husernames
    rw [getUser_of_not_mem hmem, List.length_append, List.length_singleton] at hlen
    omega

/-- **A query leaves the accounts alone if it finds what it asks for**, and only then. -/
theorem sameAccounts_iff (q : ApiQuery) : SameAccounts s (s.apiQuery c q).1 ↔ s.Finds q := by
  cases q with
  | getuser arg | userclients list arg =>
    rw [apiQuery, Finds, ApiQuery.lookup]
    cases arg.name "user" with
    | error e => exact iff_of_true ⟨rfl, rfl⟩ trivial
    | ok username => exact (getUser_same_iff username).trans (and_iff_left trivial).symm
  | getworker arg =>
    rw [apiQuery, Finds, ApiQuery.lookup, ApiQuery.name]
    cases arg.name "worker" with
    | error e => exact iff_of_true ⟨rfl, rfl⟩ trivial
    | ok w =>
      refine (getWorker_after_getUser_iff (strsep w).1 w).trans (and_congr_right fun _ => ?_)
      refine ⟨fun hmem w' hw' => ?_, fun h => h w rfl⟩
      obtain rfl := Except.ok.inj hw'
      exact hmem
  | workerclients list arg =>
    rw [apiQuery, Finds, ApiQuery.lookup]
    cases arg.name "worker" with
    | error e => exact iff_of_true ⟨rfl, rfl⟩ trivial
    | ok w => exact (getUser_same_iff (strsep w).1).trans (and_iff_left trivial).symm

/-! ### The entry that a query is about -/

theorem apiQuery_entry {q : ApiQuery} {username : Bytes} (h : q.lookup = .ok username) :
    (s.apiQuery c q).2.entry = some (userKey username) := by
  cases q with
  | getuser arg | userclients list arg =>
    rw [ApiQuery.lookup] at h
    rw [apiQuery, h, ← getUser_snd (c := c) (s := s)]
    rfl
  | getworker arg | workerclients list arg =>
    rw [ApiQuery.lookup] at h
    cases hname : arg.name "worker" with
    | error e => rw [hname] at h; cases h
    | ok w =>
      rw [hname] at h
      rw [apiQuery, hname, ← Except.ok.inj h, ← getUser_snd (c := c) (s := s)]
      rfl

/-- A name without a separator is looked up as it is. -/
theorem lookup_of_plain {q : ApiQuery} {m : Bytes} (h : q.name = .ok m)
    (hplain : m.any isSeparator = false) : q.lookup = .ok m ∧ (strsep m).1 = m := by
  have htoken : (strsep m).1 = m := by
    rw [strsep, List.takeWhile_eq_self_iff]
    intro b hb
    rw [Bool.not_eq_true', Bool.eq_false_iff]
    intro hsep
    exact absurd (List.any_eq_true.mpr ⟨b, hb, hsep⟩) (Bool.eq_false_iff.mp hplain)
  refine ⟨?_, htoken⟩
  cases q with
  | getuser arg => exact h
  | userclients list arg => exact h
  | getworker arg | workerclients list arg =>
    rw [ApiQuery.name] at h
    rw [ApiQuery.lookup, h]
    exact congrArg Except.ok htoken

theorem userKey_eq_take (username : Bytes) : userKey username = username.take 127 := by
  rw [userKey]
  split
  · rfl
  · rw [List.take_of_length_le (by omega)]

/-- What a spelling of a CashAddr has the key of is another spelling of it. -/
theorem spells_of_canonicalise {chain : Chain} {u v payload : Bytes}
    (h : SpellsAddress chain u payload)
    (hcanon : canonicaliseUsername chain u = canonicaliseUsername chain v) :
    ∃ payload', SpellsAddress chain v payload' := by
  by_contra hno
  have hkey := h.key
  rw [← h.canonicalise, hcanon, canonicaliseUsername_copy (not_exists.mp hno)] at hkey
  have hlen := hkey.length.2
  rw [List.length_take] at hlen
  rw [List.take_of_length_le (by omega)] at hkey
  exact hno ⟨payload, hkey⟩

/-- **Two spellings of an account are looked up under one key only if they are one spelling**, or
names that are no address. -/
theorem userKey_eq_iff {chain : Chain} {u v : Bytes}
    (hcanon : canonicaliseUsername chain u = canonicaliseUsername chain v) :
    userKey u = userKey v ↔ u = v ∨ ∀ payload, ¬ SpellsAddress chain u payload := by
  by_cases hspell : ∃ payload, SpellsAddress chain u payload
  · obtain ⟨payload, hu⟩ := hspell
    obtain ⟨payload', hv⟩ := spells_of_canonicalise hu hcanon
    have hulen := hu.length.2
    have hvlen := hv.length.2
    rw [userKey, userKey, if_neg (by omega), if_neg (by omega)]
    exact (or_iff_left fun hno => hno payload hu).symm
  · refine iff_of_true ?_ (Or.inr (not_exists.mp hspell))
    have hv : ∀ payload, ¬ SpellsAddress chain v payload := by
      intro payload hv
      exact hspell (spells_of_canonicalise hv hcanon.symm)
    rw [canonicaliseUsername_copy (not_exists.mp hspell), canonicaliseUsername_copy hv] at hcanon
    have hcut := congrArg (List.take 127) hcanon
    rw [List.take_take, List.take_take] at hcut
    rw [userKey_eq_take, userKey_eq_take]
    exact hcut

end InstanceData

open InstanceData

/-- **Exactly when the queries by name keep the accounts and agree on them.**  A query leaves the
accounts alone if it is refused or finds what it asks for.  Two queries whose names are spellings
of one account report on the same entry if what they look up has the same first 127 bytes; of
names without a separator that is so if the names are the same or no CashAddr. -/
theorem queries_by_name (c : InstanceConf) :
    (∀ (s : InstanceData) (q : ApiQuery),
      SameAccounts s (s.apiQuery c q).1 ↔ s.Finds q) ∧
    ∀ (s t : InstanceData) (q r : ApiQuery) (m n u v : Bytes),
      q.name = .ok m → r.name = .ok n → q.lookup = .ok u → r.lookup = .ok v →
      canonicaliseUsername c.chain (strsep m).1 = canonicaliseUsername c.chain (strsep n).1 →
      ((s.apiQuery c q).2.entry = (t.apiQuery c r).2.entry ↔ u.take 127 = v.take 127) ∧
      (m.any isSeparator = false → n.any isSeparator = false →
        ((s.apiQuery c q).2.entry = (t.apiQuery c r).2.entry ↔
          m = n ∨ ∀ payload, ¬ SpellsAddress c.chain m payload)) := by
  refine ⟨fun s q => sameAccounts_iff q, ?_⟩
  intro s t q r m n u v hm hn hu hv hcanon
  have hentries : (s.apiQuery c q).2.entry = (t.apiQuery c r).2.entry ↔ userKey u = userKey v := by
    rw [apiQuery_entry hu, apiQuery_entry hv, Option.some_inj]
  refine ⟨?_, fun hplain hplain' => ?_⟩
  · rw [hentries, userKey_eq_take, userKey_eq_take]
  · obtain ⟨hlookup, htoken⟩ := lookup_of_plain hm hplain
    obtain ⟨hlookup', htoken'⟩ := lookup_of_plain hn hplain'
    obtain rfl := Except.ok.inj (hlookup.symm.trans hu)
    obtain rfl := Except.ok.inj (hlookup'.symm.trans hv)
    rw [htoken, htoken'] at hcanon
    rw [hentries, userKey_eq_iff hcanon]

/-- A pool with one user, who has authorised with the bare spelling of a CashAddr. -/
def zeroMiner : InstanceData :=
  run (InstanceData.step exampleConf) (InstanceData.start noUsers 5)
    (connect 1 0 0 ++ subscribe 0 :: authorise 0 (zeroAddress ++ [46, 114]))

/-- The queries for the same two spellings: with the prefix the user is found, bare another user
is made. -/
theorem bare_and_prefixed :
    ((zeroMiner.apiQuery exampleConf (.getuser (.str zeroAddress))).2.entry =
        (zeroMiner.apiQuery exampleConf (.getuser (.str zeroKey))).2.entry ↔
      zeroAddress.take 127 = zeroKey.take 127) ∧
    (zeroAddress.any isSeparator = false → zeroKey.any isSeparator = false →
      ((zeroMiner.apiQuery exampleConf (.getuser (.str zeroAddress))).2.entry =
          (zeroMiner.apiQuery exampleConf (.getuser (.str zeroKey))).2.entry ↔
        zeroAddress = zeroKey ∨
          ∀ payload, ¬ SpellsAddress exampleConf.chain zeroAddress payload)) := by
  apply (queries_by_name exampleConf).2
  · rfl
  · rfl
  · rfl
  · rfl
  · decide +kernel

/-- The query for the bare spelling makes a user, and reports on it; the query for the spelling
with the prefix reports on the one that is there. -/
theorem bareQuery_makes_user :
    zeroMiner.usernames = [zeroKey] ∧
    ¬ SameAccounts zeroMiner (zeroMiner.apiQuery exampleConf (.getuser (.str zeroAddress))).1 ∧
    canonicaliseUsername exampleConf.chain (strsep zeroAddress).1 =
      canonicaliseUsername exampleConf.chain (strsep zeroKey).1 ∧
    (zeroMiner.apiQuery exampleConf (.getuser (.str zeroAddress))).2.entry ≠
      (zeroMiner.apiQuery exampleConf (.getuser (.str zeroKey))).2.entry := by
  have hlookup : ¬ zeroMiner.Finds (.getuser (.str zeroAddress)) := by
    intro h
    have hmem : userKey zeroAddress ∈ zeroMiner.usernames := h.1
    revert hmem
    decide +kernel
  refine ⟨by decide +kernel, fun h => hlookup ((sameAccounts_iff _).mp h), by decide +kernel, ?_⟩
  decide +kernel

end CashStratum
