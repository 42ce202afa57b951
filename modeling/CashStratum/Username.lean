/-
CashStratum/Username.lean

Usernames (`stratifier.c`): how a worker name becomes the key of a user entry.

`canonicalise_username` gives every spelling of a CashAddr one key, prefix and
payload in lower case, and copies any other name into its buffer.  Three paths
look a user up by worker name, each with its own way of cutting the name;
`generate_user` and `generate_remote_user` fall back to what stands behind the
first separator when nothing stands in front of it, `user_by_workername` does
not.  Outside proxy mode, where names are not addresses.

`canonical_key_laws` collects what holds of the keys.
-/
import CashStratum.Address

namespace CashStratum

/-! ### The key of a name -/

/-- `CANON_USERNAME_SIZE` -/
def canonUsernameSize : Nat := 11 + 1 + 127 + 1

/-- `snprintf(out, outlen, "%s", s)` -/
def snprintf (outlen : Nat) (s : Bytes) : Bytes := s.take (outlen - 1)

/-- `canonicalise_username(in, out, CANON_USERNAME_SIZE)`. -/
def canonicaliseUsername (chain : Chain) (input : Bytes) : Bytes :=
  if (generatorCheckaddr chain input).isSome ∧ (58 ∈ input ∨ input.length = 42) then
    let out :=
      if 58 ∈ input then snprintf canonUsernameSize input
      else snprintf canonUsernameSize (chain.cashaddrPrefix.chars ++ 58 :: input)
    out.map tolower
  else snprintf canonUsernameSize input

/-- The key `__get_create_user` looks a username up by: the 127 characters that
fit in `username`. -/
def userKey (username : Bytes) : Bytes := if username.length ≥ 128 then username.take 127 else username

/-! ### The name of a worker name -/

/-- The separators of a worker name, `.` and `_`. -/
def isSeparator (c : UInt8) : Bool := c == 46 || c == 95

/-- `strsep(&name, "._")`: the token, and what the pointer is left at. -/
def strsep (name : Bytes) : Bytes × Option Bytes :=
  (name.takeWhile fun c => !isSeparator c, (name.dropWhile fun c => !isSeparator c).tail?)

/-- The username of `generate_user`, cut to 127 characters; `none` when the
pointer it takes the length of is null, which is for the empty worker name. -/
def generateUsername (workername : Bytes) : Option Bytes :=
  let username := if (strsep workername).1 = [] then (strsep workername).2 else some (strsep workername).1
  username.map fun u => u.take 127

/-- The user `generate_user` looks up. -/
def generateUserKey (chain : Chain) (workername : Bytes) : Option Bytes :=
  (generateUsername workername).map fun u => userKey (canonicaliseUsername chain u)

/-- The user `user_by_workername` looks up. -/
def userByWorkernameKey (chain : Chain) (workername : Bytes) : Bytes :=
  userKey (canonicaliseUsername chain (strsep workername).1)

/-- The user `generate_remote_user` looks up, if it does not refuse the name: the
username becomes a file name, so it must not be empty, hold a `/` or start with
a `.`. -/
def generateRemoteUserKey (chain : Chain) (workername : Bytes) : Option Bytes := do
  let username ← if (strsep workername).1 = [] then (strsep workername).2 else some (strsep workername).1
  if username = [] ∨ 47 ∈ username ∨ username.head? = some 46 then none
  else some (userKey (canonicaliseUsername chain (username.take 127)))

/-! ### Address-shaped names -/

/-- `looks_like_address`: the name looks like an attempted address of the chain,
whether or not it is one. -/
def looksLikeAddress (chain : Chain) (username : Bytes) : Bool :=
  let lower := username.map tolower
  if username = [] then false
  else if (bitcoincash.chars ++ [58]).isPrefixOf lower ∨ (bchtest.chars ++ [58]).isPrefixOf lower ∨
      (bchreg.chars ++ [58]).isPrefixOf lower then true
  else if username.length = 42 ∧ lower.all (· ∈ charset) then true
  else
    let c := username.headD 0
    (c = 49 ∨ c = 51 ∨ (chain ≠ .main ∧ (c = 109 ∨ c = 110 ∨ c = 50))) ∧
      25 ≤ username.length ∧ username.length ≤ 36 ∧ username.all (· ∈ b58Alphabet)

/-! ### Canonical names -/

variable {chain : Chain} {u v payload : Bytes}

theorem snprintf_of_lt {s : Bytes} (h : s.length < canonUsernameSize) :
    snprintf canonUsernameSize s = s :=
  List.take_of_length_le (by omega)

theorem generatorCheckaddr_isSome (chain : Chain) (u : Bytes) :
    (generatorCheckaddr chain u).isSome =
      (classifyAddress u chain.cashaddrPrefix.chars).isSome := by
  simp [generatorCheckaddr]

/-- The classification of a spelling of a CashAddr. -/
theorem SpellsAddress.classify (h : SpellsAddress chain u payload) :
    ∃ r, ∀ w, Spells w chain.cashaddrPrefix payload →
      classifyAddress w chain.cashaddrPrefix.chars = some r := by
  obtain ⟨isP2sh, size, hash, hsize, hhash, hpayload, -⟩ := h
  refine ⟨(cashaddrKind isP2sh, hash), fun w hw => ?_⟩
  rw [hpayload] at hw
  exact (classifyAddress_eq_some_iff _ _ _ _).mpr
    (Or.inl ⟨hhash, isP2sh, rfl, size, hsize, hw⟩)

theorem SpellsAddress.spells (h : SpellsAddress chain u payload) :
    Spells u chain.cashaddrPrefix payload := by
  obtain ⟨_, _, _, _, _, _, hspell⟩ := h
  exact hspell

/-- **Every spelling of a CashAddr has the key of its prefix and payload.** -/
theorem SpellsAddress.canonicalise (h : SpellsAddress chain u payload) :
    canonicaliseUsername chain u = chain.cashaddrPrefix.chars ++ 58 :: payload := by
  obtain ⟨hlen, hlower⟩ := h.lower
  obtain ⟨r, hr⟩ := h.classify
  have hvalid : (generatorCheckaddr chain u).isSome := by
    rw [generatorCheckaddr_isSome, hr u h.spells]
    rfl
  have hpre := length_cashaddrPrefix_le chain
  rcases h.map_tolower with ⟨hcolon, hlow⟩ | ⟨hcolon, hlow⟩
  · have hulen : u.length = chain.cashaddrPrefix.chars.length + 43 := by
      rw [← List.length_map (f := tolower), hlow, List.length_append, List.length_cons, hlen]
    rw [canonicaliseUsername, if_pos ⟨hvalid, Or.inl hcolon⟩]
    dsimp only
    rw [if_pos hcolon, snprintf_of_lt (by rw [canonUsernameSize]; omega), hlow]
  · have hulen : u.length = 42 := by
      rw [← List.length_map (f := tolower), hlow, hlen]
    have hfull : (chain.cashaddrPrefix.chars ++ 58 :: u).length < canonUsernameSize := by
      rw [List.length_append, List.length_cons, hulen, canonUsernameSize]
      omega
    rw [canonicaliseUsername, if_pos ⟨hvalid, Or.inr hulen⟩]
    dsimp only
    rw [if_neg hcolon, snprintf_of_lt hfull, List.map_append, List.map_cons,
      chain.cashaddrPrefix.map_tolower, hlow]
    rfl

/-- Any other name is copied into the buffer. -/
theorem canonicaliseUsername_copy (h : ∀ payload, ¬SpellsAddress chain u payload) :
    canonicaliseUsername chain u = u.take 139 := by
  have hcopy : ¬((generatorCheckaddr chain u).isSome ∧ (58 ∈ u ∨ u.length = 42)) := by
    rintro ⟨hvalid, hshape⟩
    rw [generatorCheckaddr_isSome] at hvalid
    obtain ⟨⟨type, hash⟩, hr⟩ := Option.isSome_iff_exists.mp hvalid
    rcases (classifyAddress_eq_some_iff _ _ _ _).mp hr with ⟨hhash, t, -, size, hsize, hspell⟩ | ⟨hno, hlegacy⟩
    · exact h _ ⟨t, size, hash, hsize, hhash, rfl, hspell⟩
    · -- a legacy address has neither a colon nor 42 characters
      have hcolon := (classifyLegacy_chars hlegacy).1
      rcases hshape with hmem | hlen
      · exact hcolon hmem
      · rw [addrIsCashaddrShaped, if_neg hcolon, decide_eq_false_iff_not] at hno
        exact hno hlen
  rw [canonicaliseUsername, if_neg hcopy]
  rfl

/-- A name is a spelling of a CashAddr, a legacy address, or no address. -/
theorem spells_or_legacy_or_none (chain : Chain) (u : Bytes) :
    (∃ payload, SpellsAddress chain u payload) ∨
      ((∀ payload, ¬SpellsAddress chain u payload) ∧
        ((u.length ≤ 100 ∧ (classifyAddress u chain.cashaddrPrefix.chars).isSome) ∨
          classifyAddress u chain.cashaddrPrefix.chars = none)) := by
  by_cases h : ∃ payload, SpellsAddress chain u payload
  · exact Or.inl h
  · refine Or.inr ⟨not_exists.mp h, ?_⟩
    rcases hr : classifyAddress u chain.cashaddrPrefix.chars with - | ⟨type, hash⟩
    · exact Or.inr rfl
    · rcases (classifyAddress_eq_some_iff _ _ _ _).mp hr with ⟨hhash, t, -, size, hsize, hspell⟩ | ⟨-, hlegacy⟩
      · exact absurd ⟨_, t, size, hash, hsize, hhash, rfl, hspell⟩ h
      · exact Or.inl ⟨(classifyLegacy_chars hlegacy).2, rfl⟩

theorem SpellsAddress.length (h : SpellsAddress chain u payload) :
    42 ≤ u.length ∧ u.length ≤ 54 := by
  have hpre := length_cashaddrPrefix_le chain
  obtain ⟨hlen, -⟩ := h.lower
  rcases h.map_tolower with ⟨-, hlow⟩ | ⟨-, hlow⟩
  · have := congrArg List.length hlow
    rw [List.length_map, List.length_append, List.length_cons, hlen] at this
    omega
  · have := congrArg List.length hlow
    rw [List.length_map, hlen] at this
    omega

/-- The key of a CashAddr is one of its spellings. -/
theorem SpellsAddress.key (h : SpellsAddress chain u payload) :
    SpellsAddress chain (chain.cashaddrPrefix.chars ++ 58 :: payload) payload := by
  obtain ⟨isP2sh, size, hash, hsize, hhash, hpayload, -⟩ := h
  exact ⟨isP2sh, size, hash, hsize, hhash, hpayload, Or.inl rfl⟩

/-- A name of more than 100 characters is no address. -/
theorem classifyAddress_of_length (h : 100 < u.length) :
    (∀ payload, ¬SpellsAddress chain u payload) ∧
      classifyAddress u chain.cashaddrPrefix.chars = none := by
  rcases spells_or_legacy_or_none chain u with ⟨payload, hspell⟩ | ⟨hno, hlegacy | hnone⟩
  · have := hspell.length
    omega
  · omega
  · exact ⟨hno, hnone⟩

/-- **The key is classified as the name is.** -/
theorem classifyAddress_canonicalise (chain : Chain) (u : Bytes) :
    classifyAddress (canonicaliseUsername chain u) chain.cashaddrPrefix.chars =
      classifyAddress u chain.cashaddrPrefix.chars := by
  by_cases hspell : ∃ payload, SpellsAddress chain u payload
  · obtain ⟨payload, hspell⟩ := hspell
    obtain ⟨r, hr⟩ := hspell.classify
    rw [hspell.canonicalise, hr _ hspell.key.spells, hr u hspell.spells]
  · rw [canonicaliseUsername_copy (not_exists.mp hspell)]
    by_cases hlen : u.length ≤ 139
    · rw [List.take_of_length_le hlen]
    · have hcut : 100 < (u.take 139).length := by
        rw [List.length_take]
        omega
      rw [(classifyAddress_of_length hcut).2,
        (classifyAddress_of_length (u := u) (by omega)).2]

theorem canonicaliseUsername_idem (chain : Chain) (u : Bytes) :
    canonicaliseUsername chain (canonicaliseUsername chain u) = canonicaliseUsername chain u := by
  by_cases hspell : ∃ payload, SpellsAddress chain u payload
  · obtain ⟨payload, hspell⟩ := hspell
    rw [hspell.canonicalise, hspell.key.canonicalise]
  · rw [canonicaliseUsername_copy (not_exists.mp hspell)]
    by_cases hlen : u.length ≤ 139
    · rw [List.take_of_length_le hlen, canonicaliseUsername_copy (not_exists.mp hspell),
        List.take_of_length_le hlen]
    · have hcut : 100 < (u.take 139).length := by
        rw [List.length_take]
        omega
      rw [canonicaliseUsername_copy (classifyAddress_of_length hcut).1, List.take_take]
      rfl

/-! ### The three paths -/

/-- Cutting a name to 127 characters and canonicalising it commute: only a name
that is no address is that long. -/
theorem userKey_canonicalise_take (chain : Chain) (u : Bytes) :
    userKey (canonicaliseUsername chain (u.take 127)) =
      userKey (canonicaliseUsername chain u) := by
  by_cases hlen : u.length ≤ 127
  · rw [List.take_of_length_le hlen]
  · have hcut : (u.take 127).length = 127 := by
      rw [List.length_take]
      omega
    have hcopy : canonicaliseUsername chain (u.take 127) = _ :=
      canonicaliseUsername_copy (classifyAddress_of_length (by omega)).1
    have hcopy' : canonicaliseUsername chain u = _ :=
      canonicaliseUsername_copy (classifyAddress_of_length (by omega)).1
    have hlong : (u.take 139).length ≥ 128 := by
      rw [List.length_take]
      omega
    rw [hcopy, hcopy', List.take_of_length_le (by omega), userKey, userKey, if_neg (by omega),
      if_pos hlong, List.take_take]
    rfl

/-- **Where something stands in front of the first separator, `generate_user`
and `user_by_workername` find one entry, and so does `generate_remote_user` if
it does not refuse the name.** -/
theorem user_paths_agree (chain : Chain) {workername : Bytes} (h : (strsep workername).1 ≠ []) :
    generateUserKey chain workername = some (userByWorkernameKey chain workername) ∧
      ∀ key, generateRemoteUserKey chain workername = some key →
        key = userByWorkernameKey chain workername := by
  constructor
  · rw [generateUserKey, generateUsername, if_neg h]
    show some (userKey (canonicaliseUsername chain ((strsep workername).1.take 127))) = _
    rw [userKey_canonicalise_take, userByWorkernameKey]
  · intro key hkey
    rw [generateRemoteUserKey, if_neg h] at hkey
    obtain ⟨u, hu, hkey⟩ := Option.bind_eq_some_iff.mp hkey
    obtain rfl := Option.some.inj hu
    rw [ite_eq_iff] at hkey
    obtain ⟨-, hkey⟩ | ⟨-, hkey⟩ := hkey
    · cases hkey
    · rw [userKey_canonicalise_take] at hkey
      exact (Option.some.inj hkey).symm

theorem charsetChar_mem_charset : ∀ v < 32, charsetChar (UInt8.ofNat v) ∈ charset := by decide

/-- A spelling holds neither a `/` nor a `.`. -/
theorem SpellsAddress.not_mem (h : SpellsAddress chain u payload) : 47 ∉ u ∧ 46 ∉ u := by
  have hpayload : ∀ c ∈ payload, c ∈ charset := by
    obtain ⟨isP2sh, size, hash, -, -, hpayload, -⟩ := h
    intro c hc
    rw [hpayload] at hc
    obtain ⟨d, hd, rfl⟩ := List.mem_map.mp hc
    have hmem := charsetChar_mem_charset d.toNat (completedSymbols_lt _ _ _ d hd)
    rwa [UInt8.ofNat_toNat] at hmem
  have hpre : ∀ c ∈ chain.cashaddrPrefix.chars, 97 ≤ c :=
    fun c hc => (chain.cashaddrPrefix.lower c hc).1
  have hout : ∀ c : UInt8, tolower c = c → ¬97 ≤ c → c ≠ 58 → c ∉ charset → c ∉ u := by
    intro c hlow hsmall hcolon hcharset hmem
    have hin : c ∈ u.map tolower := List.mem_map.mpr ⟨c, hmem, hlow⟩
    rcases h.map_tolower with ⟨-, heq⟩ | ⟨-, heq⟩
    · rw [heq, List.mem_append, List.mem_cons] at hin
      rcases hin with hin | hin | hin
      · exact hsmall (hpre c hin)
      · exact hcolon hin
      · exact hcharset (hpayload c hin)
    · rw [heq] at hin
      exact hcharset (hpayload c hin)
  exact ⟨hout 47 rfl (by decide) (by decide) (by decide),
    hout 46 rfl (by decide) (by decide) (by decide)⟩

/-- **A worker name that starts with a spelling of a CashAddr is looked up under
the key of that CashAddr, on all three paths.** -/
theorem SpellsAddress.paths {workername : Bytes}
    (h : SpellsAddress chain (strsep workername).1 payload) :
    generateUserKey chain workername = some (chain.cashaddrPrefix.chars ++ 58 :: payload) ∧
      userByWorkernameKey chain workername = chain.cashaddrPrefix.chars ++ 58 :: payload ∧
      generateRemoteUserKey chain workername =
        some (chain.cashaddrPrefix.chars ++ 58 :: payload) := by
  have hlen := h.length
  have hkeylen := h.key.length
  have hne : (strsep workername).1 ≠ [] := List.ne_nil_of_length_pos (by omega)
  have hkey : userByWorkernameKey chain workername = chain.cashaddrPrefix.chars ++ 58 :: payload := by
    rw [userByWorkernameKey, h.canonicalise, userKey, if_neg (by omega)]
  have hok : ¬((strsep workername).1 = [] ∨ 47 ∈ (strsep workername).1 ∨
      (strsep workername).1.head? = some 46) := by
    rintro (hnil | hslash | hdot)
    · exact hne hnil
    · exact h.not_mem.1 hslash
    · exact h.not_mem.2 (List.mem_of_mem_head? hdot)
  refine ⟨?_, hkey, ?_⟩
  · rw [(user_paths_agree chain hne).1, hkey]
  · rw [generateRemoteUserKey, if_neg hne]
    show (if _ then none else _) = _
    rw [if_neg hok, userKey_canonicalise_take, ← hkey, userByWorkernameKey]

/-- **The laws of user keys.**  Canonicalising is idempotent and keeps the
classification, so names with different scripts have different keys; the
spellings of a CashAddr share a key; a name that is no address is copied up to
139 characters; and the three paths look up one entry, wherever something stands
in front of the first separator and the remote path does not refuse the name. -/
theorem canonical_key_laws (chain : Chain) :
    (∀ u, canonicaliseUsername chain (canonicaliseUsername chain u) =
      canonicaliseUsername chain u) ∧
    (∀ u, classifyAddress (canonicaliseUsername chain u) chain.cashaddrPrefix.chars =
        classifyAddress u chain.cashaddrPrefix.chars ∧
      addressToTxn chain (canonicaliseUsername chain u) = addressToTxn chain u) ∧
    (∀ u v payload, SpellsAddress chain u payload → SpellsAddress chain v payload →
      canonicaliseUsername chain u = canonicaliseUsername chain v) ∧
    (∀ u v, canonicaliseUsername chain u = canonicaliseUsername chain v →
      addressToTxn chain u = addressToTxn chain v) ∧
    (∀ u, classifyAddress u chain.cashaddrPrefix.chars = none →
      canonicaliseUsername chain u = u.take 139) ∧
    (∀ workername, (strsep workername).1 ≠ [] →
      generateUserKey chain workername = some (userByWorkernameKey chain workername) ∧
        ∀ key, generateRemoteUserKey chain workername = some key →
          key = userByWorkernameKey chain workername) ∧
    (∀ w w' payload, SpellsAddress chain (strsep w).1 payload →
      SpellsAddress chain (strsep w').1 payload →
      generateUserKey chain w = generateUserKey chain w' ∧
        generateUserKey chain w = some (userByWorkernameKey chain w') ∧
        generateUserKey chain w = generateRemoteUserKey chain w') := by
  have hscript : ∀ u, addressToTxn chain (canonicaliseUsername chain u) = addressToTxn chain u := by
    intro u
    rw [addressToTxn, classifyAddress_canonicalise, addressToTxn]
  refine ⟨canonicaliseUsername_idem chain,
    fun u => ⟨classifyAddress_canonicalise chain u, hscript u⟩, ?_, ?_, ?_,
    fun _ => user_paths_agree chain, ?_⟩
  · intro u v payload hu hv
    rw [hu.canonicalise, hv.canonicalise]
  · intro u v h
    rw [← hscript u, h, hscript v]
  · intro u hnone
    apply canonicaliseUsername_copy
    intro payload hspell
    obtain ⟨r, hr⟩ := hspell.classify
    rw [hr u hspell.spells] at hnone
    cases hnone
  · intro w w' payload hw hw'
    rw [hw.paths.1, hw'.paths.1, hw'.paths.2.1, hw'.paths.2.2]
    exact ⟨rfl, rfl, rfl⟩

/-- A name of 140 characters is no address and does not fit in the buffer, and
".rig" has different users on the different paths. -/
theorem long_name_is_cut :
    (classifyAddress (List.replicate 140 97) bitcoincash.chars = none ∧
      canonicaliseUsername .main (List.replicate 140 97) ≠ List.replicate 140 97) ∧
      generateUserKey .main [46, 114, 105, 103] ≠ some (userByWorkernameKey .main [46, 114, 105, 103]) := by
  decide +kernel

end CashStratum
