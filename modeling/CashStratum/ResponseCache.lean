/-
CashStratum/ResponseCache.lean

The response cache of the API (`responseCache`) and the keys of the handlers that share it.

A key is made of words and of what the caller passed, joined by colons, which the caller may pass
as well.  A lookup takes what another request stored under the same key (`CacheAsk.takes`), so it
must be an answer to what is asked now.  It is, unless the two requests clash (`CacheAsk.Clash`):
a `/grep` pattern ends like the tail of another key, or a `/shares` cursor and user are cut apart
at different colons.  Neither `/find-block` nor `/coinbase` has such requests.
-/
import CashStratum.ApiNames
import CashStratum.CoinbaseFlights
import CashStratum.PoolLine
import Mathlib.Data.Finset.Basic

namespace CashStratum

/-! ### What is asked -/

/-- `MaxLines` -/
def maxLines : Nat := 1000

/-- The effective parameters of a `/grep` request that is not refused. -/
structure GrepAsk where
  pattern : Bytes
  ignoreCase : Bool
  numLines : Nat
  pattern_ne : pattern ≠ []
  one_le_numLines : 1 ≤ numLines
  numLines_le : numLines ≤ maxLines

theorem one_le_numLines (lines : Bytes) :
    1 ≤ (match parseInt64 lines with
      | none => 500
      | some n => if n > 0 then min n.toNat maxLines else 500) := by
  split
  · decide
  · split
    · exact le_min (by omega) (by decide)
    · decide

theorem numLines_le (lines : Bytes) :
    (match parseInt64 lines with
      | none => 500
      | some n => if n > 0 then min n.toNat maxLines else 500) ≤ maxLines := by
  split
  · decide
  · split
    · exact min_le_right _ _
    · decide

/-- The query of `handleGrep`: a missing pattern is refused. -/
def grepAsk (pattern ignoreCase lines : Bytes) : Option GrepAsk :=
  if h : pattern = [] then none
  else
    let numLines :=
      match parseInt64 lines with
      | none => 500
      | some n => if n > 0 then min n.toNat maxLines else 500
    some {
      pattern := pattern
      ignoreCase := ignoreCase = ascii "true" ∨ ignoreCase = ascii "1"
      numLines := numLines
      pattern_ne := h
      one_le_numLines := one_le_numLines lines
      numLines_le := numLines_le lines }

/-- `filepath.Base` -/
def pathBase (path : Bytes) : Bytes :=
  if path = [] then [46]
  else
    let base := (path.rdropWhile (· = 47)).rtakeWhile (· ≠ 47)
    if base = [] then [47] else base

/-- The effective parameters of a `/shares` request, but that the cursor is not decoded yet. -/
structure SharesAsk where
  since : Bytes
  userFilter : Bytes
  limit : Nat
  one_le_limit : 1 ≤ limit
  limit_le : limit ≤ maxLines

/-- The query of `handleShares`. -/
def sharesAsk (since user limit : Bytes) : SharesAsk where
  since := since
  userFilter := if user = [] then [] else pathBase user
  limit := min (max ((parseInt64 limit).getD maxLines).toNat 1) maxLines
  one_le_limit := le_min (le_max_right _ _) (by decide)
  limit_le := min_le_right _ _

/-- The query of `handleFindBlock`: the height, if it is numeric. -/
def findBlockAsk (height : Bytes) : Option Bytes :=
  if height = [] then none else (parseInt64 height).map fun _ => height

/-- `parseCandidateHeight`; the outer `none` is the error. -/
def parseCandidateHeight (raw : Bytes) : Option (Option Nat) :=
  if raw = [] then some none
  else if raw.all isDigit then
    match scanNat raw with
    | none => none
    | some height => if height < 2 ^ 31 ∧ height ≠ 0 then some (some height) else none
  else none

/-- The query of `handleCoinbase`. -/
def coinbaseAsk (user candidateHeight : Bytes) : Option (Bytes × Option Nat) :=
  (parseCandidateHeight candidateHeight).map fun height =>
    (if user = [] then ascii "anonymous" else user, height)

/-- A request that looks into the cache. -/
inductive CacheAsk
  | grep (g : GrepAsk)
  | shares (s : SharesAsk)
  | findBlock (height : Bytes)
  | coinbase (username : Bytes) (candidateHeight : Option Nat)

/-- The query of a request, as it comes to its handler. -/
inductive CacheQuery
  | grep (pattern ignoreCase lines : Bytes)
  | shares (since user limit : Bytes)
  | findBlock (height : Bytes)
  | coinbase (user candidateHeight : Bytes)

/-- What its handler looks for, if it does not refuse the request. -/
def CacheQuery.ask : CacheQuery → Option CacheAsk
  | .grep pattern ignoreCase lines => (grepAsk pattern ignoreCase lines).map .grep
  | .shares since user limit => some (.shares (sharesAsk since user limit))
  | .findBlock height => (findBlockAsk height).map .findBlock
  | .coinbase user candidateHeight =>
    (coinbaseAsk user candidateHeight).map fun r => .coinbase r.1 r.2

/-! ### Cursors -/

/-- The value of a letter of the standard alphabet. -/
def base64Value (c : UInt8) : Option Nat :=
  if 65 ≤ c ∧ c ≤ 90 then some (c.toNat - 65)
  else if 97 ≤ c ∧ c ≤ 122 then some (c.toNat - 71)
  else if 48 ≤ c ∧ c ≤ 57 then some (c.toNat + 4)
  else if c = 43 then some 62
  else if c = 47 then some 63
  else none

/-- Groups of four letters; the last may be padded. -/
def base64Groups : Bytes → Option Bytes
  | [] => some []
  | [a, b, 61, 61] => do
      let n := (← base64Value a) * 64 + (← base64Value b)
      return [UInt8.ofNat (n / 16)]
  | [a, b, c, 61] => do
      let n := ((← base64Value a) * 64 + (← base64Value b)) * 64 + (← base64Value c)
      return [UInt8.ofNat (n / 1024), UInt8.ofNat (n / 4)]
  | a :: b :: c :: d :: rest => do
      let n := (((← base64Value a) * 64 + (← base64Value b)) * 64 + (← base64Value c)) * 64 +
        (← base64Value d)
      return UInt8.ofNat (n / 65536) :: UInt8.ofNat (n / 256) :: UInt8.ofNat n ::
        (← base64Groups rest)
  | _ => none

/-- `base64.StdEncoding.DecodeString`, which passes over line ends. -/
def base64Decode (s : Bytes) : Option Bytes := base64Groups (s.filter fun c => c ≠ 10 ∧ c ≠ 13)

/-- `strings.Cut` at a bar: what is in front, and what is behind if there is one. -/
def cutBar (s : Bytes) : Bytes × Option Bytes :=
  (s.takeWhile (· ≠ 124), (s.dropWhile (· ≠ 124)).tail?)

/-- `heightDirPattern` -/
def isHeightDir (s : Bytes) : Bool :=
  s.length = 8 ∧ s.all fun c => isDigit c || 97 ≤ c && c ≤ 102

/-- `decodeCursor`: the directory, the file and the offset. -/
def decodeCursor (s : Bytes) : Option (Bytes × Bytes × Int) := do
  let raw ← base64Decode s
  let (dir, rest) := cutBar raw
  let (file, offset) := cutBar (← rest)
  if isHeightDir dir then
    let offset ← parseInt64 (← offset)
    if offset < 0 then none else some (dir, file, offset)
  else none

/-! ### Keys -/

/-- `%t` -/
def printBool (b : Bool) : Bytes := if b then ascii "true" else ascii "false"

/-- What the longer key of `/grep` has behind the pattern. -/
def GrepAsk.suffix (g : GrepAsk) : Bytes :=
  58 :: (printBool g.ignoreCase ++ 58 :: printNat g.numLines)

/-- The parameters besides the pattern are the defaults. -/
def GrepAsk.plain (g : GrepAsk) : Bool := !(g.ignoreCase || g.numLines ≠ 500)

def GrepAsk.cacheKey (g : GrepAsk) : Bytes :=
  ascii "grep:" ++ (if g.plain then g.pattern else g.pattern ++ g.suffix)

def SharesAsk.cacheKey (s : SharesAsk) : Bytes :=
  ascii "shares:" ++ (s.since ++ 58 :: (s.userFilter ++ 58 :: printNat s.limit))

def findBlockCacheKey (height : Bytes) : Bytes := ascii "block:" ++ height

/-- `coinbaseLegacyCacheKey` -/
def coinbaseLegacyCacheKey (username : Bytes) : Bytes := ascii "coinbase:" ++ username

/-- `coinbaseCandidateCacheKey` -/
def coinbaseCandidateCacheKey (username : Bytes) : Bytes :=
  ascii "coinbase-candidate:" ++ (printNat username.length ++ 58 :: username)

/-- The key under which a request looks. -/
def CacheAsk.cacheKey : CacheAsk → Bytes
  | .grep g => g.cacheKey
  | .shares s => s.cacheKey
  | .findBlock height => findBlockCacheKey height
  | .coinbase username none => coinbaseLegacyCacheKey username
  | .coinbase username (some _) => coinbaseCandidateCacheKey username

/-! ### Answers -/

/-- The filter of `/shares`: the names whose records are taken, or all. -/
def SharesAsk.userFilterSet (s : SharesAsk) : Option (Finset Bytes) :=
  if s.userFilter = [] then none else some (cashaddrSpellings s.userFilter).toFinset

/-- A cached response, as what it is the answer to; a coinbase proof is for the height that its
job had. -/
inductive CacheAnswer
  | grep (pattern : Bytes) (ignoreCase : Bool) (numLines : Nat)
  | shares (cursor : Option (Bytes × Bytes × Int)) (users : Option (Finset Bytes)) (limit : Nat)
  | findBlock (height : Bytes)
  | coinbase (username : Bytes) (blockHeight : Option Int)

namespace CacheAsk

/-- The response is an answer to what is asked. -/
def Answered (q : CacheAsk) (a : CacheAnswer) : Prop :=
  match q with
  | .grep g => a = .grep g.pattern g.ignoreCase g.numLines
  | .shares s => a = .shares (decodeCursor s.since) s.userFilterSet s.limit
  | .findBlock height => a = .findBlock height
  | .coinbase username none => ∃ blockHeight, a = .coinbase username blockHeight
  | .coinbase username (some height) => a = .coinbase username (some (height : Int))

/-- A response that the handler may compute and cache.  The job of a coinbase proof may be for
another height than the one that was named. -/
def Computes (q : CacheAsk) (a : CacheAnswer) : Prop :=
  match q with
  | .coinbase username _ => ∃ blockHeight, a = .coinbase username blockHeight
  | q => q.Answered a

/-- The keys under which the handler puts a response (`cacheCoinbaseProof` for `/coinbase`). -/
def stores (q : CacheAsk) (a : CacheAnswer) : List Bytes :=
  match a with
  | .coinbase username none => [coinbaseLegacyCacheKey username]
  | .coinbase username (some _) =>
    [coinbaseLegacyCacheKey username, coinbaseCandidateCacheKey username]
  | _ => [q.cacheKey]

/-- What a handler takes of what it finds: `/shares` and `/coinbase` look at its type, and a
request with a candidate height at the height (`cachedCoinbaseProof`). -/
def takes (q : CacheAsk) (a : CacheAnswer) : Bool :=
  match q, a with
  | .grep _, _ => true
  | .findBlock _, _ => true
  | .shares _, .shares _ _ _ => true
  | .coinbase _ none, .coinbase _ _ => true
  | .coinbase _ (some height), .coinbase _ blockHeight => blockHeight = some (height : Int)
  | _, _ => false

/-- What the first request has cached answers the second, wherever the second finds it and takes
it. -/
def ServesOnly (q q' : CacheAsk) : Prop :=
  ∀ a, q.Computes a → q'.cacheKey ∈ q.stores a → q'.takes a → q'.Answered a

end CacheAsk

/-- The longer key of one is the shorter key of the other. -/
def GrepAsk.Clash (g g' : GrepAsk) : Prop :=
  (g.plain ∧ ¬ g'.plain ∧ g.pattern = g'.pattern ++ g'.suffix) ∨
    (¬ g.plain ∧ g'.plain ∧ g'.pattern = g.pattern ++ g.suffix)

/-- With the same limit, cursor and user are cut apart at different colons of one text. -/
def SharesAsk.Clash (s s' : SharesAsk) : Prop :=
  s.limit = s'.limit ∧ ∃ between,
    (s'.since = s.since ++ 58 :: between ∧ s.userFilter = between ++ 58 :: s'.userFilter) ∨
      (s.since = s'.since ++ 58 :: between ∧ s'.userFilter = between ++ 58 :: s.userFilter)

def CacheAsk.Clash : CacheAsk → CacheAsk → Prop
  | .grep g, .grep g' => g.Clash g'
  | .shares s, .shares s' => s.Clash s'
  | _, _ => False

/-! ### Keys apart -/

/-- Texts that end in different words behind their last colon are different. -/
theorem append_colon_inj {a b x y : Bytes} (hx : 58 ∉ x) (hy : 58 ∉ y)
    (h : a ++ 58 :: x = b ++ 58 :: y) : a = b ∧ x = y := by
  have hrev := congrArg List.reverse h
  simp only [List.reverse_append, List.reverse_cons, List.append_assoc, List.singleton_append]
    at hrev
  have htake : ∀ (u v : Bytes), 58 ∉ u → (u.reverse ++ 58 :: v).takeWhile (· ≠ 58) = u.reverse := by
    intro u v hu
    rw [List.takeWhile_append_of_pos]
    · rw [List.takeWhile_cons_of_neg (by decide), List.append_nil]
    · intro c hc
      refine decide_eq_true ?_
      rintro rfl
      exact hu (List.mem_reverse.mp hc)
  have hxy : x = y := by
    have hwhile := congrArg (List.takeWhile (· ≠ 58)) hrev
    rw [htake x _ hx, htake y _ hy] at hwhile
    exact List.reverse_injective hwhile
  subst hxy
  exact ⟨List.append_cancel_right h, rfl⟩

theorem colon_not_mem_printNat (n : Nat) : 58 ∉ printNat n := by
  intro h
  have hdigit := isDigit_of_mem_printNat h
  exact absurd hdigit (by decide)

theorem colon_not_mem_printBool (b : Bool) : 58 ∉ printBool b := by
  cases b <;> decide

theorem printBool_inj {a b : Bool} (h : printBool a = printBool b) : a = b := by
  have hwords : printBool true ≠ printBool false := by decide
  cases a with
  | true =>
    cases b with
    | true => rfl
    | false => exact absurd h hwords
  | false =>
    cases b with
    | true => exact absurd h.symm hwords
    | false => rfl

/-- A pattern with what is behind it in the longer key can be read back. -/
theorem GrepAsk.suffix_inj {g g' : GrepAsk} (h : g.pattern ++ g.suffix = g'.pattern ++ g'.suffix) :
    g.pattern = g'.pattern ∧ g.ignoreCase = g'.ignoreCase ∧ g.numLines = g'.numLines := by
  have hlast : (g.pattern ++ 58 :: printBool g.ignoreCase) ++ 58 :: printNat g.numLines =
      (g'.pattern ++ 58 :: printBool g'.ignoreCase) ++ 58 :: printNat g'.numLines := by
    simpa only [GrepAsk.suffix, List.append_assoc, List.cons_append] using h
  obtain ⟨hfront, hnum⟩ :=
    append_colon_inj (colon_not_mem_printNat _) (colon_not_mem_printNat _) hlast
  obtain ⟨hpattern, hbool⟩ :=
    append_colon_inj (colon_not_mem_printBool _) (colon_not_mem_printBool _) hfront
  exact ⟨hpattern, printBool_inj hbool, printNat_inj hnum⟩

theorem GrepAsk.plain_iff (g : GrepAsk) :
    g.plain = true ↔ g.ignoreCase = false ∧ g.numLines = 500 := by
  rw [GrepAsk.plain, Bool.not_eq_true', Bool.or_eq_false_iff, decide_eq_false_iff_not, not_not]

/-- With one key two `/grep` requests have the same parameters, or they clash. -/
theorem GrepAsk.cacheKey_eq_iff (g g' : GrepAsk) :
    g.cacheKey = g'.cacheKey ↔
      (g.pattern = g'.pattern ∧ g.ignoreCase = g'.ignoreCase ∧ g.numLines = g'.numLines) ∨
        g.Clash g' := by
  unfold GrepAsk.cacheKey GrepAsk.Clash
  rw [List.append_cancel_left_eq]
  constructor
  · intro h
    by_cases hplain : g.plain = true
    · by_cases hplain' : g'.plain = true
      · rw [if_pos hplain, if_pos hplain'] at h
        rw [GrepAsk.plain_iff] at hplain hplain'
        exact Or.inl ⟨h, hplain.1.trans hplain'.1.symm, hplain.2.trans hplain'.2.symm⟩
      · rw [if_pos hplain, if_neg hplain'] at h
        exact Or.inr (Or.inl ⟨hplain, hplain', h⟩)
    · by_cases hplain' : g'.plain = true
      · rw [if_neg hplain, if_pos hplain'] at h
        exact Or.inr (Or.inr ⟨hplain, hplain', h.symm⟩)
      · rw [if_neg hplain, if_neg hplain'] at h
        exact Or.inl (GrepAsk.suffix_inj h)
  · rintro (⟨hpattern, hcase, hnum⟩ | ⟨hplain, hplain', h⟩ | ⟨hplain, hplain', h⟩)
    · have hsuffix : g.suffix = g'.suffix := by rw [GrepAsk.suffix, hcase, hnum, GrepAsk.suffix]
      have hplain : g.plain = g'.plain := by rw [GrepAsk.plain, hcase, hnum, GrepAsk.plain]
      rw [hplain, hsuffix, hpattern]
    · rw [if_pos hplain, if_neg hplain', h]
    · rw [if_neg hplain, if_pos hplain', h]

theorem GrepAsk.Clash.pattern_ne {g g' : GrepAsk} (h : g.Clash g') : g.pattern ≠ g'.pattern := by
  have hlong : ∀ (p : Bytes) (g : GrepAsk), p ≠ p ++ g.suffix := by
    intro p g heq
    have hlength := congrArg List.length heq
    rw [List.length_append, GrepAsk.suffix, List.length_cons] at hlength
    omega
  intro heq
  rcases h with ⟨-, -, h⟩ | ⟨-, -, h⟩
  · rw [heq] at h
    exact hlong _ g' h
  · rw [← heq] at h
    exact hlong _ g h

/-- With one key two `/shares` requests have the same parameters, or they clash. -/
theorem SharesAsk.cacheKey_eq_iff (s s' : SharesAsk) :
    s.cacheKey = s'.cacheKey ↔
      (s.since = s'.since ∧ s.userFilter = s'.userFilter ∧ s.limit = s'.limit) ∨ s.Clash s' := by
  have hlast : ∀ s : SharesAsk, s.since ++ 58 :: (s.userFilter ++ 58 :: printNat s.limit) =
      (s.since ++ 58 :: s.userFilter) ++ 58 :: printNat s.limit := by
    intro s
    rw [List.append_assoc, List.cons_append]
  unfold SharesAsk.cacheKey SharesAsk.Clash
  rw [List.append_cancel_left_eq, hlast, hlast]
  constructor
  · intro h
    obtain ⟨hfront, hlimit⟩ :=
      append_colon_inj (colon_not_mem_printNat _) (colon_not_mem_printNat _) h
    -- one cursor begins the other; what is behind it begins with the colon
    rcases List.append_eq_append_iff.mp hfront with ⟨m, hsince, huser⟩ | ⟨m, hsince, huser⟩
    · rcases m with - | ⟨c, between⟩
      · rw [List.append_nil] at hsince
        exact Or.inl ⟨hsince.symm, (List.cons.inj huser).2, printNat_inj hlimit⟩
      · obtain ⟨rfl, hrest⟩ := List.cons.inj huser
        exact Or.inr ⟨printNat_inj hlimit, between, Or.inl ⟨hsince, hrest⟩⟩
    · rcases m with - | ⟨c, between⟩
      · rw [List.append_nil] at hsince
        exact Or.inl ⟨hsince, (List.cons.inj huser).2.symm, printNat_inj hlimit⟩
      · obtain ⟨rfl, hrest⟩ := List.cons.inj huser
        exact Or.inr ⟨printNat_inj hlimit, between, Or.inr ⟨hsince, hrest⟩⟩
  · rintro (⟨hsince, huser, hlimit⟩ |
      ⟨hlimit, between, ⟨hsince, huser⟩ | ⟨hsince, huser⟩⟩)
    · rw [hsince, huser, hlimit]
    · rw [hsince, huser, hlimit]
      simp only [List.append_assoc, List.cons_append]
    · rw [hsince, huser, hlimit]
      simp only [List.append_assoc, List.cons_append]

/-- A longer name does not have the spellings of a shorter one. -/
theorem cashaddrSpellings_ne {u v : Bytes} (hlen : v.length < u.length) :
    (cashaddrSpellings u).toFinset ≠ (cashaddrSpellings v).toFinset := by
  intro h
  have hmem : ∀ w, w ∈ cashaddrSpellings u ↔ w ∈ cashaddrSpellings v := by
    intro w
    rw [← List.mem_toFinset, h, List.mem_toFinset]
  cases hv : cashaddrPrefixes.find? (·.isPrefixOf v) with
  | some p =>
    -- nothing among the spellings of the shorter name is as long
    have hself := (hmem u).mp (mem_cashaddrSpellings_self u)
    rw [cashaddrSpellings, hv] at hself
    rcases List.mem_cons.mp hself with rfl | hself
    · omega
    · rw [List.mem_singleton.mp hself, List.length_drop] at hlen
      omega
  | none =>
    have hall : ∀ p ∈ cashaddrPrefixes, p ++ v ∈ cashaddrSpellings u := by
      intro p hp
      rw [hmem, cashaddrSpellings_of_none hv]
      exact List.mem_cons_of_mem v (List.mem_map.mpr ⟨p, hp, rfl⟩)
    have hshort : v ∈ cashaddrSpellings u := (hmem v).mpr (mem_cashaddrSpellings_self v)
    cases hu : cashaddrPrefixes.find? (·.isPrefixOf u) with
    | none =>
      rw [cashaddrSpellings_of_none hu] at hshort
      rcases List.mem_cons.mp hshort with rfl | hshort
      · omega
      · obtain ⟨p, -, rfl⟩ := List.mem_map.mp hshort
        rw [List.length_append] at hlen
        omega
    | some p =>
      -- two spellings have no room for three lengths
      have htwo : ∀ w ∈ cashaddrSpellings u,
          w.length = u.length ∨ w.length = u.length - p.length := by
        intro w hw
        rw [cashaddrSpellings, hu] at hw
        rcases List.mem_cons.mp hw with rfl | hw
        · exact Or.inl rfl
        · rw [List.mem_singleton.mp hw, List.length_drop]
          exact Or.inr rfl
      have h0 := htwo v hshort
      have h1 := htwo _ (hall (bitcoincash.chars ++ [58]) (by decide))
      have h2 := htwo _ (hall (bchtest.chars ++ [58]) (by decide))
      have hbitcoincash : (bitcoincash.chars ++ [58]).length = 12 := by decide
      have hbchtest : (bchtest.chars ++ [58]).length = 8 := by decide
      rw [List.length_append, hbitcoincash] at h1
      rw [List.length_append, hbchtest] at h2
      omega

theorem SharesAsk.Clash.userFilterSet_ne {s s' : SharesAsk} (h : s.Clash s') :
    s.userFilterSet ≠ s'.userFilterSet := by
  have hne : ∀ s s' : SharesAsk, (∃ between, s.userFilter = between ++ 58 :: s'.userFilter) →
      s.userFilterSet ≠ s'.userFilterSet := by
    rintro s s' ⟨between, huser⟩ heq
    have hlen : s'.userFilter.length < s.userFilter.length := by
      rw [huser, List.length_append, List.length_cons]
      omega
    have hlong : s.userFilter ≠ [] := by
      intro hnil
      rw [hnil] at hlen
      cases hlen
    unfold SharesAsk.userFilterSet at heq
    rw [if_neg hlong] at heq
    by_cases hshort : s'.userFilter = []
    · rw [if_pos hshort] at heq
      cases heq
    · rw [if_neg hshort] at heq
      exact cashaddrSpellings_ne hlen (Option.some.inj heq)
  obtain ⟨-, between, ⟨-, huser⟩ | ⟨-, huser⟩⟩ := h
  · exact hne s s' ⟨between, huser⟩
  · exact (hne s' s ⟨between, huser⟩).symm

theorem coinbaseCandidateCacheKey_inj {u v : Bytes}
    (h : coinbaseCandidateCacheKey u = coinbaseCandidateCacheKey v) : u = v := by
  have hrest := List.append_cancel_left h
  have hlength := congrArg List.length hrest
  have hcut := congrArg (List.takeWhile isDigit) hrest
  have htake : ∀ (n : Nat) (x : Bytes), (printNat n ++ 58 :: x).takeWhile isDigit = printNat n := by
    intro n x
    rw [List.takeWhile_append_of_pos fun c hc => isDigit_of_mem_printNat hc,
      List.takeWhile_cons_of_neg (by decide), List.append_nil]
  rw [htake, htake] at hcut
  rw [hcut] at hrest
  exact (List.cons.inj (List.append_cancel_left hrest)).2

/-- The families of keys. -/
inductive KeyFamily
  | grep
  | shares
  | findBlock
  | legacy
  | candidate
deriving DecidableEq

/-- The word in front of the keys of a family. -/
def KeyFamily.word : KeyFamily → Bytes
  | .grep => ascii "grep:"
  | .shares => ascii "shares:"
  | .findBlock => ascii "block:"
  | .legacy => ascii "coinbase:"
  | .candidate => ascii "coinbase-candidate:"

theorem KeyFamily.not_prefix (f f' : KeyFamily) (h : f ≠ f') : ¬ f.word <+: f'.word := by
  cases f <;> cases f' <;> first | exact absurd rfl h | decide

namespace CacheAsk

/-- The family of the key under which a request looks. -/
def family : CacheAsk → KeyFamily
  | .grep _ => .grep
  | .shares _ => .shares
  | .findBlock _ => .findBlock
  | .coinbase _ none => .legacy
  | .coinbase _ (some _) => .candidate

theorem word_prefix_cacheKey (q : CacheAsk) : q.family.word <+: q.cacheKey := by
  cases q with
  | grep g => exact List.prefix_append _ _
  | shares s => exact List.prefix_append _ _
  | findBlock height => exact List.prefix_append _ _
  | coinbase username candidateHeight =>
    cases candidateHeight with
    | none => exact List.prefix_append _ _
    | some height => exact List.prefix_append _ _

/-- No key is in two families. -/
theorem family_eq {q q' : CacheAsk} (h : q.cacheKey = q'.cacheKey) : q.family = q'.family := by
  by_contra hne
  have hpre := q.word_prefix_cacheKey
  rw [h] at hpre
  rcases List.prefix_or_prefix_of_prefix hpre q'.word_prefix_cacheKey with hword | hword
  · exact KeyFamily.not_prefix _ _ hne hword
  · exact KeyFamily.not_prefix _ _ (Ne.symm hne) hword

/-! ### Requests that share the cache -/

/-- A coinbase proof answers whoever takes it from under a key of its username. -/
theorem answered_coinbase {q' : CacheAsk} {username : Bytes} {blockHeight : Option Int}
    (hkey : q'.cacheKey ∈ [coinbaseLegacyCacheKey username, coinbaseCandidateCacheKey username])
    (htakes : q'.takes (.coinbase username blockHeight)) :
    q'.Answered (.coinbase username blockHeight) := by
  have hkey' : q'.cacheKey = cacheKey (.coinbase username none) ∨
      q'.cacheKey = cacheKey (.coinbase username (some 0)) := by
    rcases List.mem_cons.mp hkey with h | h
    · exact Or.inl h
    · exact Or.inr (List.mem_singleton.mp h)
  cases q' with
  | coinbase username' candidateHeight =>
    cases candidateHeight with
    | none =>
      rcases hkey' with h | h
      · obtain rfl : username' = username := List.append_cancel_left h
        exact ⟨blockHeight, rfl⟩
      · cases family_eq h
    | some height =>
      rcases hkey' with h | h
      · cases family_eq h
      · obtain rfl := coinbaseCandidateCacheKey_inj h
        -- the proof is taken for its height only
        have hheight : blockHeight = some (height : Int) := of_decide_eq_true htakes
        rw [hheight]
        rfl
  | _ =>
    rcases hkey' with h | h
    · cases family_eq h
    · cases family_eq h

/-- An answer under one's own key alone is not found by a request of another family. -/
theorem servesOnly_of_family_ne {q q' : CacheAsk}
    (hstores : ∀ a, q.Computes a → q.stores a = [q.cacheKey]) (hne : q'.family ≠ q.family) :
    q.ServesOnly q' := by
  intro a ha hkey _
  rw [hstores a ha] at hkey
  exact absurd (family_eq (List.mem_singleton.mp hkey)) hne

/-- **What one request has cached answers the other exactly if the two do not clash.** -/
theorem servesOnly_iff (q q' : CacheAsk) : q.ServesOnly q' ↔ ¬ q.Clash q' := by
  cases q with
  | grep g =>
    cases q' with
    | grep g' =>
      constructor
      · intro hserves hclash
        have hkey : g'.cacheKey = g.cacheKey :=
          ((GrepAsk.cacheKey_eq_iff g g').mpr (Or.inr hclash)).symm
        have ha := hserves (.grep g.pattern g.ignoreCase g.numLines) rfl
          (List.mem_singleton.mpr hkey) rfl
        exact hclash.pattern_ne (CacheAnswer.grep.inj ha).1
      · rintro hclash a rfl hkey -
        have hkey' : g'.cacheKey = g.cacheKey := List.mem_singleton.mp hkey
        rcases (GrepAsk.cacheKey_eq_iff g g').mp hkey'.symm with ⟨hp, hi, hn⟩ | hclash'
        · show CacheAnswer.grep g.pattern g.ignoreCase g.numLines = _
          rw [hp, hi, hn]
        · exact absurd hclash' hclash
    | coinbase username candidateHeight =>
      refine iff_of_true (servesOnly_of_family_ne (by rintro a rfl; rfl) ?_) id
      cases candidateHeight <;> nofun
    | _ => exact iff_of_true (servesOnly_of_family_ne (by rintro a rfl; rfl) nofun) id
  | shares s =>
    cases q' with
    | shares s' =>
      constructor
      · intro hserves hclash
        have hkey : s'.cacheKey = s.cacheKey :=
          ((SharesAsk.cacheKey_eq_iff s s').mpr (Or.inr hclash)).symm
        have ha := hserves (.shares (decodeCursor s.since) s.userFilterSet s.limit) rfl
          (List.mem_singleton.mpr hkey) rfl
        exact hclash.userFilterSet_ne (CacheAnswer.shares.inj ha).2.1
      · rintro hclash a rfl hkey -
        have hkey' : s'.cacheKey = s.cacheKey := List.mem_singleton.mp hkey
        rcases (SharesAsk.cacheKey_eq_iff s s').mp hkey'.symm with ⟨hs, hu, hl⟩ | hclash'
        · show CacheAnswer.shares (decodeCursor s.since) s.userFilterSet s.limit = _
          rw [SharesAsk.userFilterSet, hs, hu, hl]
          rfl
        · exact absurd hclash' hclash
    | coinbase username candidateHeight =>
      refine iff_of_true (servesOnly_of_family_ne (by rintro a rfl; rfl) ?_) id
      cases candidateHeight <;> nofun
    | _ => exact iff_of_true (servesOnly_of_family_ne (by rintro a rfl; rfl) nofun) id
  | findBlock height =>
    cases q' with
    | findBlock height' =>
      refine iff_of_true ?_ id
      rintro a rfl hkey -
      have hkey' : findBlockCacheKey height' = findBlockCacheKey height :=
        List.mem_singleton.mp hkey
      rw [List.append_cancel_left hkey']
      rfl
    | coinbase username candidateHeight =>
      refine iff_of_true (servesOnly_of_family_ne (by rintro a rfl; rfl) ?_) id
      cases candidateHeight <;> nofun
    | _ => exact iff_of_true (servesOnly_of_family_ne (by rintro a rfl; rfl) nofun) id
  | coinbase username candidateHeight =>
    have hserves : (CacheAsk.coinbase username candidateHeight).ServesOnly q' := by
      rintro a ⟨blockHeight, rfl⟩ hkey htakes
      refine answered_coinbase ?_ htakes
      cases blockHeight with
      | none => exact List.mem_cons.mpr (Or.inl (List.mem_singleton.mp hkey))
      | some height => exact hkey
    exact iff_of_true hserves id

end CacheAsk

/-! ### Runs of the cache -/

/-- What the handlers do to the cache: they look, they store what they have computed, and the
cache forgets. -/
inductive CacheEvent
  | look (q : CacheAsk)
  | store (q : CacheAsk) (a : CacheAnswer)
  | forget (key : Bytes)

section Keys

local instance lawfulBEq_keys : LawfulBEq Bytes := inferInstance

/-- What the cache holds after an event. -/
def cacheStep (cache : Bytes → Option CacheAnswer) : CacheEvent → Bytes → Option CacheAnswer
  | .look _ => cache
  | .store q a => fun key => if key ∈ q.stores a then some a else cache key
  | .forget key => Function.update cache key none

end Keys

/-- A look that takes what is there takes an answer to its request. -/
def Rightly (cache : Bytes → Option CacheAnswer) : CacheEvent → Prop
  | .look q => ∀ a, cache q.cacheKey = some a → q.takes a → q.Answered a
  | _ => True

/-- What is in the cache has been computed for a request of the run. -/
def Computed (asked : CacheAsk → Prop) (cache : Bytes → Option CacheAnswer) : Prop :=
  ∀ key a, cache key = some a → ∃ q, asked q ∧ q.Computes a ∧ key ∈ q.stores a

/-- An event of a run in which what is stored was computed, for a request of a given kind. -/
def CacheEvent.By (asked : CacheAsk → Prop) : CacheEvent → Prop
  | .look q => asked q
  | .store q a => asked q ∧ q.Computes a
  | .forget _ => True

theorem Computed.step {asked : CacheAsk → Prop} {cache : Bytes → Option CacheAnswer}
    (h : Computed asked cache) {e : CacheEvent} (he : e.By asked) :
    Computed asked (cacheStep cache e) := by
  cases e with
  | look q => exact h
  | store q a =>
    intro key b hb
    by_cases hkey : key ∈ q.stores a
    · have hb' : some a = some b := by
        rw [← hb]
        exact (if_pos hkey).symm
      rw [← Option.some.inj hb']
      exact ⟨q, he.1, he.2, hkey⟩
    · have hb' : cache key = some b := by
        rw [← hb]
        exact (if_neg hkey).symm
      exact h key b hb'
  | forget key =>
    intro key' a ha
    by_cases hkey : key' = key
    · subst hkey
      have hnone : Function.update cache key' none key' = none := Function.update_self _ _ _
      cases hnone.symm.trans ha
    · have hkept : cacheStep cache (.forget key) key' = cache key' := by
        rw [cacheStep, Function.update_of_ne hkey]
      exact h key' a (hkept.symm.trans ha)

/-- In a run of requests of which no two clash every look is answered rightly. -/
theorem rightly_run {asked : CacheAsk → Prop} (hclash : ∀ q q', asked q → asked q' → ¬ q.Clash q')
    {events : List CacheEvent} (hby : ∀ e ∈ events, e.By asked) :
    Along cacheStep Rightly (fun _ => none) events := by
  refine along_of_invariant (I := Computed asked) (fun cache e he h => h.step he) ?_
    (along_of_forall hby _) ?_
  · intro cache e he h
    cases e with
    | look q =>
      intro a ha htakes
      obtain ⟨q', hq', hcomputes, hkey⟩ := h q.cacheKey a ha
      exact (q'.servesOnly_iff q).mpr (hclash q' q hq' he) a hcomputes hkey htakes
    | store q a => trivial
    | forget key => trivial
  · intro key a ha
    cases ha

/-- **A cached answer is an answer to the request that takes it exactly if that request does not
clash with the one that stored it**; so in a run of any requests of which no two clash every
cached answer is right.  And whatever the order of its callers, the flight group returns to a
caller only results of a fetch for its own username and its own candidate height. -/
theorem cached_answers_iff (ρ : Type*) :
    (∀ q q' : CacheAsk, q.ServesOnly q' ↔ ¬ q.Clash q') ∧
    (∀ (asked : CacheAsk → Prop) (events : List CacheEvent),
      (∀ q q', asked q → asked q' → ¬ q.Clash q') → (∀ e ∈ events, e.By asked) →
        Along cacheStep Rightly (fun _ => none) events) ∧
    ∀ (events : List (FlightEvent ρ)) (i : Nat) (caller : FlightCaller ρ) (k : Nat) (result : ρ),
      (run FlightWorld.step FlightWorld.init events).callers[i]? = some caller →
      caller.phase = .returned k result →
      ∃ call, (run FlightWorld.step FlightWorld.init events).calls[k]? = some call ∧
        call.username = caller.username ∧ call.candidateHeight = caller.candidateHeight ∧
        call.result = some (some result) := by
  refine ⟨CacheAsk.servesOnly_iff, ?_, ?_⟩
  · intro asked events hclash hby
    exact rightly_run hclash hby
  · intro events i caller k result hcaller hphase
    have hok := (FlightWorld.attributed_run events).ok i caller hcaller
    rw [FlightCaller.Ok, hphase] at hok
    obtain ⟨call, hcall, hfor, hresult⟩ := hok
    exact ⟨call, hcall, hfor.1, hfor.2, hresult⟩

/-- A search for `x` in any case, and one for the tail of its key, have one key. -/
theorem grep_key_shared :
    ¬ ∀ r r' : CacheQuery, ∀ q ∈ r.ask, ∀ q' ∈ r'.ask, q.ServesOnly q' := by
  intro h
  have hserves := h (.grep (ascii "x") (ascii "true") []) (.grep (ascii "x:true:500") [] []) _ rfl
    _ rfl
  refine (CacheAsk.servesOnly_iff _ _).mp hserves (Or.inr ⟨by decide, by decide, ?_⟩)
  decide

end CashStratum
