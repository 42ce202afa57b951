/-
CashStratum/Address.lean

Classification of an address string, either format, and the output script of an
address (`libckpool.c`, `cashaddr_simple.c`).

The network is the chain bitcoind reports, which fixes the CashAddr prefix and
the version bytes of legacy addresses.  A string is taken for a CashAddr by its
shape alone, a known prefix or 42 characters; any other string is decoded as a
legacy address.
-/
import CashStratum.Base58

namespace CashStratum

/-! ### Networks -/

/-- The "bchtest" prefix of the test networks. -/
def bchtest : NetworkPrefix where
  chars := [98, 99, 104, 116, 101, 115, 116]
  lower := by decide +kernel
  length_le := by decide

/-- The "bchreg" prefix of regtest. -/
def bchreg : NetworkPrefix where
  chars := [98, 99, 104, 114, 101, 103]
  lower := by decide +kernel
  length_le := by decide

/-- The chains `detect_cashaddr_prefix` tells apart; another answer of bitcoind
leaves the server unused. -/
inductive Chain where
  | main
  | test
  | regtest
  deriving DecidableEq, Repr

/-- `bch_get_cashaddr_prefix()` once the chain is known. -/
def Chain.cashaddrPrefix : Chain → NetworkPrefix
  | .main => bitcoincash
  | .test => bchtest
  | .regtest => bchreg

/-! ### Classification -/

/-- `bch_addr_is_cashaddr_shaped`. -/
def addrIsCashaddrShaped (addr : Bytes) : Bool :=
  if 58 ∈ addr then
    let pre := (addr.takeWhile (· ≠ 58)).map tolower
    pre = bitcoincash.chars ∨ pre = bchtest.chars ∨ pre = bchreg.chars
  else addr.length = 42

/-- The type of a CashAddr. -/
def cashaddrKind (isP2sh : Bool) : BchAddrType := if isP2sh then .cashaddrP2sh else .cashaddrP2pkh

/-- `bch_classify_address`: type and `hash160` of an address. -/
def classifyAddress (addr cashaddrPrefix : Bytes) : Option (BchAddrType × Bytes) :=
  if addrIsCashaddrShaped addr then
    (cashaddrDecodeChecked addr cashaddrPrefix).map fun r => (cashaddrKind r.1, r.2)
  else classifyLegacy addr cashaddrPrefix

/-- The type is one of the two P2SH types: `script` of `validate_address`. -/
def BchAddrType.isScript : BchAddrType → Bool
  | .cashaddrP2pkh => false
  | .cashaddrP2sh => true
  | .legacyP2pkh => false
  | .legacyP2sh => true

/-- `hash160_to_p2pkh_script`. -/
def hash160ToP2pkhScript (hash160 : Bytes) : Bytes := [0x76, 0xa9, 0x14] ++ hash160 ++ [0x88, 0xac]

/-- `hash160_to_p2sh_script`. -/
def hash160ToP2shScript (hash160 : Bytes) : Bytes := [0xa9, 0x14] ++ hash160 ++ [0x87]

/-- `address_to_txn`, that is `bch_address_to_script` with the active prefix: the
output script of an address, `none` for the length 0. -/
def addressToTxn (chain : Chain) (addr : Bytes) : Option Bytes :=
  (classifyAddress addr chain.cashaddrPrefix.chars).map fun r =>
    if r.1.isScript then hash160ToP2shScript r.2 else hash160ToP2pkhScript r.2

/-- `generator_checkaddr`, which is `validate_address` once a server was found:
whether the address is one, and `script`. -/
def generatorCheckaddr (chain : Chain) (addr : Bytes) : Option Bool :=
  (classifyAddress addr chain.cashaddrPrefix.chars).map fun r => r.1.isScript

/-! ### Shape and decoders -/

variable {chain : Chain} {s payload : Bytes}

theorem length_cashaddrPrefix_le (chain : Chain) : chain.cashaddrPrefix.chars.length ≤ 11 := by
  cases chain <;> decide

theorem cashaddrPrefix_known (chain : Chain) :
    chain.cashaddrPrefix.chars = bitcoincash.chars ∨ chain.cashaddrPrefix.chars = bchtest.chars ∨
      chain.cashaddrPrefix.chars = bchreg.chars := by
  cases chain
  · exact Or.inl rfl
  · exact Or.inr (Or.inl rfl)
  · exact Or.inr (Or.inr rfl)

theorem length_encodePayload (p : NetworkPrefix) (isP2sh : Bool) (size : Nat) (hash : Bytes) :
    (encodePayload p isP2sh size hash).length = 42 := by
  simp [encodePayload, payloadSymbols, checksumSymbols]

/-- `s` spells the address of a script on the chain: with or without its prefix,
in one case. -/
def SpellsAddress (chain : Chain) (s payload : Bytes) : Prop :=
  ∃ (isP2sh : Bool) (size : Nat) (hash : Bytes), size < 8 ∧ hash.length = 20 ∧
    payload = encodePayload chain.cashaddrPrefix isP2sh size hash ∧
    Spells s chain.cashaddrPrefix payload

theorem SpellsAddress.lower (h : SpellsAddress chain s payload) :
    payload.length = 42 ∧ ∀ c ∈ payload, c ≠ 58 ∧ ¬(65 ≤ c ∧ c ≤ 90) := by
  obtain ⟨isP2sh, size, hash, -, -, hpayload, -⟩ := h
  rw [hpayload]
  exact ⟨length_encodePayload _ _ _ _, encodePayload_lower _ _ _ _⟩

/-- The lower-case form of a spelling: prefix, colon and payload, or the payload
alone; a colon tells which. -/
theorem SpellsAddress.map_tolower (h : SpellsAddress chain s payload) :
    (58 ∈ s ∧ s.map tolower = chain.cashaddrPrefix.chars ++ 58 :: payload) ∨
      (58 ∉ s ∧ s.map tolower = payload) := by
  obtain ⟨-, hlower⟩ := h.lower
  obtain ⟨isP2sh, size, hash, -, -, -, hspell⟩ := h
  have hcolon : 58 ∈ s ↔ 58 ∈ s.map tolower := by
    rw [List.mem_map]
    constructor
    · intro hmem
      exact ⟨58, hmem, rfl⟩
    · rintro ⟨c, hc, hlow⟩
      rwa [(tolower_eq_colon_iff c).mp hlow] at hc
  obtain ⟨-, hcase⟩ := (spells_iff _ _ _ fun c hc => (hlower c hc).2).mp hspell
  rcases hcase with hcase | hcase
  · left
    exact ⟨hcolon.mpr (by rw [hcase]; simp), hcase⟩
  · right
    refine ⟨fun hmem => ?_, hcase⟩
    rw [hcolon, hcase] at hmem
    exact (hlower 58 hmem).1 rfl

/-- Lower case does not move the colon. -/
theorem takeWhile_colon_map_tolower (s : Bytes) :
    (s.takeWhile (· ≠ 58)).map tolower = (s.map tolower).takeWhile (· ≠ 58) := by
  induction s with
  | nil => rfl
  | cons c s ih =>
    by_cases hc : c = 58
    · subst hc
      rfl
    · have hlow : tolower c ≠ 58 := mt (tolower_eq_colon_iff c).mp hc
      simp only [ne_eq, decide_not] at ih
      simp [hc, hlow, ih]

/-- A spelling of an address has the shape of a CashAddr. -/
theorem SpellsAddress.shaped (h : SpellsAddress chain s payload) : addrIsCashaddrShaped s := by
  obtain ⟨hlen, -⟩ := h.lower
  rcases h.map_tolower with ⟨hcolon, hlow⟩ | ⟨hcolon, hlow⟩
  · have hpre : (s.takeWhile (· ≠ 58)).map tolower = chain.cashaddrPrefix.chars := by
      rw [takeWhile_colon_map_tolower, hlow]
      have hno : ∀ c ∈ chain.cashaddrPrefix.chars, decide (c ≠ 58) = true := by
        intro c hc
        rw [decide_eq_true_eq]
        rintro rfl
        exact chain.cashaddrPrefix.colon_not_mem hc
      rw [List.takeWhile_append_of_pos hno]
      simp
    rw [addrIsCashaddrShaped, if_pos hcolon]
    simp only [hpre, decide_eq_true_eq]
    exact cashaddrPrefix_known chain
  · have hlen' : s.length = 42 := by
      rw [← hlen, ← hlow, List.length_map]
    rw [addrIsCashaddrShaped, if_neg hcolon]
    exact decide_eq_true hlen'

/-- **What is classified as an address**: the spellings of a CashAddr of the
chain, and the legacy addresses of any shape but that of a CashAddr. -/
theorem classifyAddress_eq_some_iff (chain : Chain) (s : Bytes) (type : BchAddrType)
    (hash : Bytes) :
    classifyAddress s chain.cashaddrPrefix.chars = some (type, hash) ↔
      (hash.length = 20 ∧ ∃ isP2sh, type = cashaddrKind isP2sh ∧ ∃ size < 8,
        Spells s chain.cashaddrPrefix (encodePayload chain.cashaddrPrefix isP2sh size hash)) ∨
      (addrIsCashaddrShaped s = false ∧
        classifyLegacy s chain.cashaddrPrefix.chars = some (type, hash)) := by
  have hshaped : ∀ isP2sh size, size < 8 → hash.length = 20 →
      Spells s chain.cashaddrPrefix (encodePayload chain.cashaddrPrefix isP2sh size hash) →
      addrIsCashaddrShaped s = true := by
    intro isP2sh size hsize hhash hspell
    have h : SpellsAddress chain s (encodePayload chain.cashaddrPrefix isP2sh size hash) :=
      ⟨isP2sh, size, hash, hsize, hhash, rfl, hspell⟩
    exact h.shaped
  rw [classifyAddress]
  by_cases h : addrIsCashaddrShaped s = true
  · rw [if_pos h, Option.map_eq_some_iff]
    constructor
    · rintro ⟨⟨isP2sh, hash'⟩, hdecode, heq⟩
      obtain ⟨rfl, rfl⟩ := Prod.mk.inj heq
      obtain ⟨hhash, size, hsize, hspell⟩ := (cashaddrDecodeChecked_eq_some_iff _ _ _ _).mp hdecode
      exact Or.inl ⟨hhash, isP2sh, rfl, size, hsize, hspell⟩
    · rintro (⟨hhash, isP2sh, rfl, size, hsize, hspell⟩ | ⟨hno, -⟩)
      · exact ⟨(isP2sh, hash), (cashaddrDecodeChecked_eq_some_iff _ _ _ _).mpr
          ⟨hhash, size, hsize, hspell⟩, rfl⟩
      · rw [h] at hno
        cases hno
  · rw [if_neg h]
    constructor
    · intro hlegacy
      exact Or.inr ⟨by simpa using h, hlegacy⟩
    · rintro (⟨hhash, isP2sh, -, size, hsize, hspell⟩ | ⟨-, hlegacy⟩)
      · exact absurd (hshaped isP2sh size hsize hhash hspell) h
      · exact hlegacy

theorem b58Char_ne_colon_table : ∀ v < 58, b58Char (UInt8.ofNat v) ≠ 58 := by
  decide

/-- A legacy address has no colon and at most 100 characters. -/
theorem classifyLegacy_chars {pre : Bytes} {r : BchAddrType × Bytes}
    (h : classifyLegacy s pre = some r) : 58 ∉ s ∧ s.length ≤ 100 := by
  obtain ⟨type, hash⟩ := r
  obtain ⟨hok, -, isP2sh, k, -, rfl⟩ := (classifyLegacy_eq_some_iff _ _ _ _).mp h
  refine ⟨?_, hok.2⟩
  rw [spellBase58_eq_map]
  intro hmem
  obtain ⟨d, hd, hchar⟩ := List.mem_map.mp hmem
  have hne := b58Char_ne_colon_table d.toNat (spellDigits_lt _ _ d hd)
  rw [UInt8.ofNat_toNat] at hne
  exact hne hchar

end CashStratum
