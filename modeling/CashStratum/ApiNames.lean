/-
CashStratum/ApiNames.lean

How the API names a user (`ckpool_api_server.go`), next to how the pool does.

`canonicalAuthUser` repeats the pool's canonicalisation without the checksum: a
name that looks like a CashAddr is put in lower case, and gets the prefix of the
pool when it has none.  `nameAgrees_iff` says for which names that is the user
key of the pool: the addresses, and of the other names those it returns as they
are, if they are short enough for the key.  `cashaddrSpellings` compares prefixes
letter by letter, so it knows the lower-case spellings of an address alone
(`key_mem_spellings_iff`).
-/
import CashStratum.GoCashaddr
import CashStratum.Username

namespace CashStratum

/-! ### ckpool_api_server.go -/

/-- `cashaddrPrefixes` -/
def cashaddrPrefixes : List Bytes :=
  [bitcoincash.chars ++ [58], bchtest.chars ++ [58], bchreg.chars ++ [58]]

/-- `strings.HasPrefix`, for one of the known prefixes. -/
def hasCashaddrPrefix (s : Bytes) : Bool := cashaddrPrefixes.any (·.isPrefixOf s)

/-- `looksLikeCashAddr` -/
def looksLikeCashAddr (token : Bytes) : Bool :=
  let lower := stringsToLower token
  if hasCashaddrPrefix lower then true
  else if 58 ∈ token ∨ token.length ≠ 42 then false
  else (runes lower).all (· ∈ runes charset)

/-- `canonicalAuthUser`, with the prefix of the pool. -/
def canonicalAuthUser (cashaddrPrefix username : Bytes) : Bytes :=
  let token := username.takeWhile fun c => !isSeparator c
  if !looksLikeCashAddr token then token
  else
    let token := stringsToLower token
    if hasCashaddrPrefix token then token else cashaddrPrefix ++ 58 :: token

/-- `cashaddrSpellings` -/
def cashaddrSpellings (query : Bytes) : List Bytes :=
  match cashaddrPrefixes.find? (·.isPrefixOf query) with
  | some p => [query, query.drop p.length]
  | none => query :: cashaddrPrefixes.map (· ++ query)

/-! ### Addresses -/

variable {chain : Chain} {u payload : Bytes}

/-- A known prefix ends in a colon. -/
theorem colon_mem_of_hasCashaddrPrefix {s : Bytes} (h : hasCashaddrPrefix s) : 58 ∈ s := by
  obtain ⟨p, hp, hpre⟩ := List.any_eq_true.mp h
  have hcolon : ∀ p ∈ cashaddrPrefixes, 58 ∈ p := by decide
  exact (List.isPrefixOf_iff_prefix.mp hpre).subset (hcolon p hp)

theorem mem_cashaddrPrefixes (chain : Chain) :
    chain.cashaddrPrefix.chars ++ [58] ∈ cashaddrPrefixes := by
  cases chain <;> decide

theorem hasCashaddrPrefix_address (chain : Chain) (payload : Bytes) :
    hasCashaddrPrefix (chain.cashaddrPrefix.chars ++ 58 :: payload) := by
  refine List.any_eq_true.mpr ⟨chain.cashaddrPrefix.chars ++ [58], ?_, ?_⟩
  · exact mem_cashaddrPrefixes chain
  · exact List.isPrefixOf_iff_prefix.mpr ⟨payload, by simp⟩

theorem SpellsAddress.payload_mem (h : SpellsAddress chain u payload) :
    ∀ c ∈ payload, c ∈ charset := by
  obtain ⟨isP2sh, size, hash, -, -, hpayload, -⟩ := h
  intro c hc
  rw [hpayload] at hc
  obtain ⟨d, hd, rfl⟩ := List.mem_map.mp hc
  have hmem := charsetChar_mem_charset d.toNat (completedSymbols_lt _ _ _ d hd)
  rwa [UInt8.ofNat_toNat] at hmem

set_option maxRecDepth 20000 in
theorem addressChar_table : ∀ n < 256,
    (97 ≤ tolower (UInt8.ofNat n) ∧ tolower (UInt8.ofNat n) ≤ 122 ∨ tolower (UInt8.ofNat n) = 58 ∨
      tolower (UInt8.ofNat n) ∈ charset) →
    (UInt8.ofNat n).toNat < 128 ∧ isSeparator (UInt8.ofNat n) = false := by
  decide

/-- The characters of a spelling are in ASCII, and no separators. -/
theorem SpellsAddress.chars (h : SpellsAddress chain u payload) :
    IsAscii u ∧ ∀ c ∈ u, isSeparator c = false := by
  have hchar : ∀ c ∈ u, c.toNat < 128 ∧ isSeparator c = false := by
    intro c hc
    have htable := addressChar_table c.toNat c.toNat_lt
    rw [UInt8.ofNat_toNat] at htable
    apply htable
    have hmem : tolower c ∈ u.map tolower := List.mem_map_of_mem hc
    rcases h.map_tolower with ⟨-, hlow⟩ | ⟨-, hlow⟩
    · rw [hlow, List.mem_append, List.mem_cons] at hmem
      rcases hmem with hpre | hcolon | hpayload
      · exact Or.inl (chain.cashaddrPrefix.lower _ hpre)
      · exact Or.inr (Or.inl hcolon)
      · exact Or.inr (Or.inr (h.payload_mem _ hpayload))
    · rw [hlow] at hmem
      exact Or.inr (Or.inr (h.payload_mem _ hmem))
  exact ⟨fun c hc => (hchar c hc).1, fun c hc => (hchar c hc).2⟩

theorem SpellsAddress.stringsToLower (h : SpellsAddress chain u payload) :
    stringsToLower u = u.map tolower := Cashaddr.stringsToLower_of_isAscii h.chars.1

/-- The token of a name without a separator is the name. -/
theorem strsep_of_noSeparator (h : ∀ c ∈ u, isSeparator c = false) : (strsep u).1 = u := by
  rw [strsep, List.takeWhile_eq_self_iff]
  intro c hc
  rw [h c hc]
  rfl

set_option maxRecDepth 20000 in
theorem isAscii_charset : IsAscii charset := by
  rw [IsAscii]
  decide

theorem runes_charset_mem {c : UInt8} (h : c ∈ charset) : Char.ofNat c.toNat ∈ runes charset := by
  rw [runes_of_isAscii isAscii_charset]
  exact List.mem_map_of_mem (f := fun b : UInt8 => Char.ofNat b.toNat) h

/-- **A spelling of an address gets its key.** -/
theorem SpellsAddress.canonicalAuthUser (h : SpellsAddress chain (strsep u).1 payload) :
    canonicalAuthUser chain.cashaddrPrefix.chars u =
      chain.cashaddrPrefix.chars ++ 58 :: payload := by
  have htoken : (u.takeWhile fun c => !isSeparator c) = (strsep u).1 := rfl
  rw [CashStratum.canonicalAuthUser, htoken]
  generalize (strsep u).1 = t at h
  dsimp only
  obtain ⟨hlen, hplain⟩ := h.lower
  rcases h.map_tolower with ⟨-, hlow⟩ | ⟨hcolon, hlow⟩
  · have hpre : hasCashaddrPrefix (CashStratum.stringsToLower t) := by
      rw [h.stringsToLower, hlow]
      exact hasCashaddrPrefix_address chain payload
    have hlooks : looksLikeCashAddr t = true := by
      rw [looksLikeCashAddr, if_pos hpre]
    rw [hlooks, if_neg (by decide), if_pos hpre, h.stringsToLower, hlow]
  · have hno : ¬hasCashaddrPrefix (CashStratum.stringsToLower t) = true := by
      intro hpre
      have hmem := colon_mem_of_hasCashaddrPrefix hpre
      rw [h.stringsToLower, hlow] at hmem
      exact (hplain 58 hmem).1 rfl
    have hascii : IsAscii payload := fun c hc => isAscii_charset c (h.payload_mem c hc)
    have hlooks : looksLikeCashAddr t = true := by
      have hshape : ¬(58 ∈ t ∨ t.length ≠ 42) := by
        rw [not_or, not_not]
        refine ⟨hcolon, ?_⟩
        rw [← hlen, ← hlow, List.length_map]
      rw [looksLikeCashAddr, if_neg hno, if_neg hshape, h.stringsToLower, hlow,
        runes_of_isAscii hascii]
      rw [List.all_eq_true]
      intro c hc
      obtain ⟨b, hb, rfl⟩ := List.mem_map.mp hc
      exact decide_eq_true (runes_charset_mem (h.payload_mem b hb))
    rw [hlooks, if_neg (by decide), if_neg hno, h.stringsToLower, hlow]

/-! ### User keys -/

/-- The names whose user key the API finds: the addresses, and of the names that
fit a key those that do not look like one, or start with a known prefix and are
in lower case. -/
def NameAgrees (chain : Chain) (token : Bytes) : Prop :=
  (∃ payload, SpellsAddress chain token payload) ∨
    token.length ≤ 127 ∧ (looksLikeCashAddr token = false ∨
      hasCashaddrPrefix token ∧ stringsToLower token = token)

/-- The key of a name that is no address is its first 127 characters. -/
theorem userKey_copy {t : Bytes} (h : ∀ payload, ¬SpellsAddress chain t payload) :
    userKey (canonicaliseUsername chain t) = t.take 127 := by
  rw [← userKey_canonicalise_take, userKey]
  have hcopy : canonicaliseUsername chain (t.take 127) = t.take 127 := by
    by_cases hlen : t.length ≤ 127
    · rw [List.take_of_length_le hlen, canonicaliseUsername_copy h,
        List.take_of_length_le (by omega)]
    · have hcut : (t.take 127).length = 127 := by
        rw [List.length_take]
        omega
      rw [canonicaliseUsername_copy (classifyAddress_of_length (by omega)).1,
        List.take_of_length_le (by omega)]
  have hlen : (t.take 127).length ≤ 127 := List.length_take_le _ _
  rw [hcopy, if_neg (by omega)]

/-- Only a name in lower case that fits is the key of its lower case. -/
theorem stringsToLower_eq_take_iff (t : Bytes) :
    stringsToLower t = t.take 127 ↔ t.length ≤ 127 ∧ stringsToLower t = t := by
  constructor
  · intro h
    have hrest : t.drop 127 = [] := by
      apply @eq_of_lower_append (t.take 127)
      rw [List.take_append_drop, h]
    have hlen := List.drop_eq_nil_iff.mp hrest
    exact ⟨hlen, h.trans (List.take_of_length_le hlen)⟩
  · rintro ⟨hlen, h⟩
    rw [h, List.take_of_length_le hlen]

/-- **Exactly when the API names the user as the pool does.** -/
theorem nameAgrees_iff (chain : Chain) (u : Bytes) :
    canonicalAuthUser chain.cashaddrPrefix.chars u = userByWorkernameKey chain u ↔
      NameAgrees chain (strsep u).1 := by
  by_cases hspell : ∃ payload, SpellsAddress chain (strsep u).1 payload
  · obtain ⟨payload, h⟩ := hspell
    exact iff_of_true (h.canonicalAuthUser.trans h.paths.2.1.symm) (Or.inl ⟨payload, h⟩)
  · have hkey : userByWorkernameKey chain u = (strsep u).1.take 127 :=
      userKey_copy (not_exists.mp hspell)
    have htoken : (u.takeWhile fun c => !isSeparator c) = (strsep u).1 := rfl
    rw [hkey, NameAgrees, or_iff_right hspell, canonicalAuthUser, htoken]
    generalize (strsep u).1 = t
    dsimp only
    cases hlooks : looksLikeCashAddr t with
    | false =>
      rw [if_pos (by decide)]
      simp only [true_or, and_true]
      constructor
      · intro heq
        rw [heq]
        exact List.length_take_le _ _
      · intro hlen
        rw [List.take_of_length_le hlen]
    | true =>
      rw [if_neg (by decide)]
      simp only [Bool.true_eq_false, false_or]
      by_cases hpre : hasCashaddrPrefix (stringsToLower t) = true
      · rw [if_pos hpre, stringsToLower_eq_take_iff]
        constructor
        · rintro ⟨hlen, hlower⟩
          exact ⟨hlen, hlower ▸ hpre, hlower⟩
        · rintro ⟨hlen, -, hlower⟩
          exact ⟨hlen, hlower⟩
      · rw [if_neg hpre]
        -- the key has a colon, the name has none
        have hcolon : 58 ∉ t := by
          intro hmem
          rw [looksLikeCashAddr, if_neg hpre, if_pos (Or.inl hmem)] at hlooks
          cases hlooks
        constructor
        · intro heq
          have hmem : 58 ∈ t.take 127 := by
            rw [← heq]
            exact List.mem_append_right _ List.mem_cons_self
          exact absurd (List.mem_of_mem_take hmem) hcolon
        · rintro ⟨-, hknown, -⟩
          exact absurd (colon_mem_of_hasCashaddrPrefix hknown) hcolon

/-! ### Spellings -/

theorem isSeparator_b58_table : ∀ v < 58, isSeparator (b58Char (UInt8.ofNat v)) = false := by
  decide

/-- An accepted name has no separator. -/
theorem noSeparator_of_accepted (h : (classifyAddress u chain.cashaddrPrefix.chars).isSome) :
    ∀ c ∈ u, isSeparator c = false := by
  obtain ⟨⟨type, hash⟩, hr⟩ := Option.isSome_iff_exists.mp h
  rcases (classifyAddress_eq_some_iff _ _ _ _).mp hr with
    ⟨hhash, isP2sh, -, size, hsize, hspell⟩ | ⟨-, hlegacy⟩
  · have hu : SpellsAddress chain u _ := ⟨isP2sh, size, hash, hsize, hhash, rfl, hspell⟩
    exact hu.chars.2
  · obtain ⟨-, -, isP2sh, k, -, rfl⟩ := (classifyLegacy_eq_some_iff _ _ _ _).mp hlegacy
    rw [spellBase58_eq_map]
    intro c hc
    obtain ⟨d, hd, rfl⟩ := List.mem_map.mp hc
    have hno := isSeparator_b58_table d.toNat (spellDigits_lt _ _ d hd)
    rwa [UInt8.ofNat_toNat] at hno

theorem mem_cashaddrSpellings_self (u : Bytes) : u ∈ cashaddrSpellings u := by
  rw [cashaddrSpellings]
  split <;> exact List.mem_cons_self

theorem cashaddrSpellings_of_none (h : cashaddrPrefixes.find? (·.isPrefixOf u) = none) :
    cashaddrSpellings u = u :: cashaddrPrefixes.map (· ++ u) := by
  rw [cashaddrSpellings, h]

/-- A spelling in capitals starts with no known prefix. -/
theorem not_hasCashaddrPrefix_capitals (x : Bytes) :
    cashaddrPrefixes.find? (·.isPrefixOf (x.map toupper)) = none := by
  rw [List.find?_eq_none]
  intro p hp hpre
  have hhead : ∀ p ∈ cashaddrPrefixes, ∃ c ∈ p, 97 ≤ c ∧ c ≤ 122 := by decide
  obtain ⟨c, hc, hletter⟩ := hhead p hp
  obtain ⟨b, -, rfl⟩ := List.mem_map.mp ((List.isPrefixOf_iff_prefix.mp hpre).subset hc)
  exact toupper_not_lower b hletter

/-- A spelling in capitals whose key is among its spellings has the letters of
the key. -/
theorem subset_of_mem_spellings {x key : Bytes}
    (h : key ∈ cashaddrSpellings (x.map toupper)) : x.map toupper ⊆ key := by
  rw [cashaddrSpellings_of_none (not_hasCashaddrPrefix_capitals x), List.mem_cons] at h
  rcases h with rfl | h
  · exact List.Subset.refl _
  · obtain ⟨p, -, rfl⟩ := List.mem_map.mp h
    exact List.subset_append_right _ _

/-- The key of a CashAddr is in lower case. -/
theorem SpellsAddress.key_lower (h : SpellsAddress chain u payload) :
    ∀ c ∈ chain.cashaddrPrefix.chars ++ 58 :: payload, ¬(65 ≤ c ∧ c ≤ 90) := by
  intro c hc
  rcases List.mem_append.mp hc with hc | hc
  · exact chain.cashaddrPrefix.not_upper c hc
  · rcases List.mem_cons.mp hc with rfl | hc
    · decide
    · exact (h.lower.2 c hc).2

/-- **Which spellings the API finds**: the key of an accepted name is among its
spellings unless the name is a CashAddr in capitals. -/
theorem key_mem_spellings_iff (h : (classifyAddress u chain.cashaddrPrefix.chars).isSome) :
    userByWorkernameKey chain u ∈ cashaddrSpellings u ↔
      ∀ payload, SpellsAddress chain u payload → u.map tolower = u := by
  have htoken : (strsep u).1 = u := strsep_of_noSeparator (noSeparator_of_accepted h)
  by_cases hspell : ∃ payload, SpellsAddress chain u payload
  · obtain ⟨payload, hu⟩ := hspell
    have hkey : userByWorkernameKey chain u = chain.cashaddrPrefix.chars ++ 58 :: payload := by
      rw [← htoken] at hu
      exact hu.paths.2.1
    rw [hkey]
    constructor
    · intro hmem _ _
      have hsubset : u ⊆ chain.cashaddrPrefix.chars ++ 58 :: payload := by
        rcases hu.spells with heq | heq | heq | heq
        · rw [heq]
          exact List.Subset.refl _
        · rw [heq] at hmem ⊢
          exact subset_of_mem_spellings hmem
        · rw [heq]
          exact fun c hc => List.mem_append_right _ (List.mem_cons_of_mem 58 hc)
        · rw [heq] at hmem ⊢
          exact subset_of_mem_spellings hmem
      conv_rhs => rw [← List.map_id u]
      exact List.map_congr_left fun c hc => tolower_of_not_upper (hu.key_lower c (hsubset hc))
    · intro hlower
      have hsame := hlower payload hu
      rcases hu.map_tolower with ⟨-, hlow⟩ | ⟨hcolon, hlow⟩
      · rw [← hlow, hsame]
        exact mem_cashaddrSpellings_self u
      · have hnone : cashaddrPrefixes.find? (·.isPrefixOf u) = none := by
          rw [List.find?_eq_none]
          intro p hp hpre
          exact hcolon (colon_mem_of_hasCashaddrPrefix (List.any_eq_true.mpr ⟨p, hp, hpre⟩))
        rw [cashaddrSpellings_of_none hnone, ← hlow, hsame]
        refine List.mem_cons_of_mem _ (List.mem_map.mpr ⟨_, mem_cashaddrPrefixes chain, ?_⟩)
        rw [List.append_assoc]
        rfl
  · rw [userByWorkernameKey, htoken, userKey_copy (not_exists.mp hspell)]
    refine iff_of_true ?_ fun payload hu => absurd ⟨payload, hu⟩ hspell
    have hlen : u.length ≤ 100 := by
      by_contra hlong
      rw [(classifyAddress_of_length (not_le.mp hlong)).2] at h
      cases h
    rw [List.take_of_length_le (by omega)]
    exact mem_cashaddrSpellings_self u

/-! ### Names and spellings -/

/-- The API and the pool name the user of `u` alike; and if `u` is an address to
the pool, the API finds its user among the spellings of `u`. -/
def FindsUser (chain : Chain) (u : Bytes) : Prop :=
  canonicalAuthUser chain.cashaddrPrefix.chars u = userByWorkernameKey chain u ∧
    ((classifyAddress u chain.cashaddrPrefix.chars).isSome →
      userByWorkernameKey chain u ∈ cashaddrSpellings u)

/-- **Exactly when the API finds the user of a name.** -/
theorem findsUser_iff (chain : Chain) (u : Bytes) :
    FindsUser chain u ↔ NameAgrees chain (strsep u).1 ∧
      ∀ payload, SpellsAddress chain u payload → u.map tolower = u := by
  rw [FindsUser, nameAgrees_iff]
  refine and_congr_right fun _ => ?_
  constructor
  · intro h payload hu
    obtain ⟨r, hr⟩ := hu.classify
    have hsome : (classifyAddress u chain.cashaddrPrefix.chars).isSome := by
      rw [hr u hu.spells]
      rfl
    exact (key_mem_spellings_iff hsome).mp (h hsome) payload hu
  · intro h hsome
    exact (key_mem_spellings_iff hsome).mpr h

example : canonicalAuthUser bitcoincash.chars (List.replicate 42 113) =
    bitcoincash.chars ++ 58 :: List.replicate 42 113 := by
  decide +kernel

/-- 42 characters of the alphabet that are no address get a prefix, and the pool
has no user of that name. -/
theorem mistyped_address_not_found : ¬∀ chain u, FindsUser chain u := by
  intro hall
  have hkey := (hall .main (List.replicate 42 113)).1
  revert hkey
  decide +kernel

end CashStratum
