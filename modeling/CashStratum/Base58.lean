/-
CashStratum/Base58.lean

Legacy addresses: the Base58Check decoder of `libckpool.c`, the classification
of a legacy address, and the encoding they invert.

The decoder multiplies a 25-byte big-endian buffer by 58 for every character
and adds the character's value.  So it computes the base 58 numeral of the
string and refuses values of 25 bytes or more (`b58decodeStrict_eq_some_iff`).
What it does not look at is how many '1' characters the string starts with: a
leading '1' adds nothing to the value.  `classifyLegacy_eq_some_iff` says which
strings are accepted for a script, `classify_legacy_exact_iff` that the decoder
is right on a string precisely when the string does not spell an address with
another number of leading '1' characters than the address has.
-/
import CashStratum.CashAddr
import CashStratum.Sha2

namespace CashStratum

/-! ### The alphabet -/

/-- `bch_b58_alphabet` and `b58_charset`,
"123456789ABCDEFGHJKLMNPQRSTUVWXYZabcdefghijkmnopqrstuvwxyz". -/
def b58Alphabet : Bytes :=
  [49, 50, 51, 52, 53, 54, 55, 56, 57,
   65, 66, 67, 68, 69, 70, 71, 72, 74, 75, 76, 77, 78, 80, 81, 82, 83, 84, 85, 86, 87, 88, 89, 90,
   97, 98, 99, 100, 101, 102, 103, 104, 105, 106, 107, 109, 110, 111, 112, 113, 114, 115, 116, 117,
   118, 119, 120, 121, 122]

/-- `strchr(bch_b58_alphabet, c) - bch_b58_alphabet`. -/
def b58Value (c : UInt8) : Option UInt8 := (b58Alphabet.idxOf? c).map UInt8.ofNat

/-- The character of a digit. -/
def b58Char (v : UInt8) : UInt8 := b58Alphabet.getD v.toNat 0

/-! ### The decoder -/

/-- The inner loop of `bch_b58decode_strict`, which runs from the last byte to
the first: the new bytes and the carry out of the first one. -/
def mulAdd58 (carry : Nat) : Bytes → Bytes × Nat
  | [] => ([], carry)
  | byte :: rest =>
    let (rest, carry) := mulAdd58 carry rest
    let sum := carry + 58 * byte.toNat
    (UInt8.ofNat (sum % 256) :: rest, sum / 256)

/-- One turn of the loop over the characters. -/
def pushBase58 (out25 : Bytes) (c : UInt8) : Option Bytes := do
  let value ← b58Value c
  let (out25, carry) := mulAdd58 value.toNat out25
  -- overflow: doesn't fit in 25 bytes
  if carry ≠ 0 then none else some out25

/-- `bch_b58decode_strict`. -/
def b58decodeStrict (s : Bytes) : Option Bytes :=
  if s.length = 0 ∨ s.length > 100 then none
  else s.foldlM pushBase58 (List.replicate 25 0)

/-- `bch_addr_type_t`; `BCH_ADDR_INVALID` is `none` of an option. -/
inductive BchAddrType where
  | cashaddrP2pkh
  | cashaddrP2sh
  | legacyP2pkh
  | legacyP2sh
  deriving DecidableEq, Repr

/-- `!strcasecmp(cashaddr_prefix, "bitcoincash")`. -/
def isMainnet (cashaddrPrefix : Bytes) : Bool := cashaddrPrefix.map tolower = bitcoincash.chars

/-- The four checksum bytes of the 21 bytes in front of them. -/
def base58Checksum (data : Bytes) : Bytes := (genHash data).bytes.take 4

/-- The address type of a version byte. -/
def legacyType (mainnet : Bool) (version : UInt8) : Option BchAddrType :=
  if (mainnet ∧ version = 0x00) ∨ (¬mainnet ∧ version = 0x6f) then some .legacyP2pkh
  else if (mainnet ∧ version = 0x05) ∨ (¬mainnet ∧ version = 0xc4) then some .legacyP2sh
  else none

/-- `bch_classify_legacy`. -/
def classifyLegacy (addr cashaddrPrefix : Bytes) : Option (BchAddrType × Bytes) := do
  let decoded ← b58decodeStrict addr
  if base58Checksum (decoded.take 21) ≠ decoded.drop 21 then none
  else do
    let type ← legacyType (isMainnet cashaddrPrefix) (decoded.getD 0 0)
    some (type, (decoded.drop 1).take 20)

/-! ### The encoding -/

/-- A payload in base 58 behind `k` '1' characters. -/
def spellBase58 (k : Nat) (payload : Bytes) : Bytes :=
  List.replicate k 49 ++
    (significant (digits 58 (2 * payload.length) (numeral 256 payload))).map b58Char

/-- The Base58 encoding: one '1' for every zero byte in front. -/
def base58Encode (payload : Bytes) : Bytes := spellBase58 (leadingZeros payload) payload

/-- Version byte, hash and checksum. -/
def checkPayload (version : UInt8) (hash : Bytes) : Bytes :=
  version :: hash ++ base58Checksum (version :: hash)

/-! ### Digits of the alphabet -/

set_option maxRecDepth 20000 in
theorem b58Char_b58Value {c v : UInt8} (h : b58Value c = some v) :
    v.toNat < 58 ∧ c = b58Char v :=
  forall_byte_some (P := fun c v => v.toNat < 58 ∧ c = b58Char v) (by decide) h

theorem b58Char_table : ∀ v < 58, b58Value (b58Char (UInt8.ofNat v)) = some (UInt8.ofNat v) := by
  decide

theorem b58Value_eq_some_iff (c v : UInt8) : b58Value c = some v ↔ v.toNat < 58 ∧ c = b58Char v := by
  constructor
  · intro h
    exact b58Char_b58Value h
  · rintro ⟨hv, rfl⟩
    have htable := b58Char_table v.toNat hv
    simpa only [UInt8.ofNat_toNat] using htable

theorem mapM_b58Value_eq_some_iff (s ds : Bytes) :
    s.mapM b58Value = some ds ↔ (∀ d ∈ ds, d.toNat < 58) ∧ s = ds.map b58Char := by
  simpa only [List.map_id'] using mapM_eq_some_iff_map b58Value_eq_some_iff s ds

/-! ### The decoder computes the numeral -/

theorem length_mulAdd58 (carry : Nat) (bs : Bytes) : (mulAdd58 carry bs).1.length = bs.length := by
  induction bs with
  | nil => rfl
  | cons byte rest ih => simp [mulAdd58, ih]

theorem numeral_cons (b : Nat) (d : UInt8) (ds : Bytes) :
    numeral b (d :: ds) = d.toNat * b ^ ds.length + numeral b ds := by
  have h := numeral_append (b := b) [d] ds
  simpa [numeral] using h

/-- One pass over the buffer multiplies its value by 58 and adds the carry
going in; the carry coming out is what no longer fits. -/
theorem mulAdd58_value (carry : Nat) (bs : Bytes) :
    numeral 256 (mulAdd58 carry bs).1 + (mulAdd58 carry bs).2 * 256 ^ bs.length =
      numeral 256 bs * 58 + carry := by
  induction bs with
  | nil => simp [mulAdd58]
  | cons byte rest ih =>
    rw [mulAdd58, numeral_cons, numeral_cons]
    dsimp only
    rcases hstep : mulAdd58 carry rest with ⟨out, c⟩
    rw [hstep] at ih
    have hlen : out.length = rest.length := by
      have h := length_mulAdd58 carry rest
      rwa [hstep] at h
    have hbyte : (UInt8.ofNat ((c + 58 * byte.toNat) % 256)).toNat = (c + 58 * byte.toNat) % 256 := by
      rw [UInt8.toNat_ofNat']
      omega
    have hdiv := Nat.mod_add_div (c + 58 * byte.toNat) 256
    rw [hbyte, hlen, List.length_cons, pow_succ]
    dsimp only at ih ⊢
    generalize (c + 58 * byte.toNat) % 256 = low at hdiv ⊢
    generalize (c + 58 * byte.toNat) / 256 = high at hdiv ⊢
    calc low * 256 ^ rest.length + numeral 256 out + high * (256 ^ rest.length * 256)
        = (low + 256 * high) * 256 ^ rest.length + numeral 256 out := by ring
      _ = (c + 58 * byte.toNat) * 256 ^ rest.length + numeral 256 out := by rw [hdiv]
      _ = (numeral 256 out + c * 256 ^ rest.length) + 58 * byte.toNat * 256 ^ rest.length := by ring
      _ = (numeral 256 rest * 58 + carry) + 58 * byte.toNat * 256 ^ rest.length := by rw [ih]
      _ = (byte.toNat * 256 ^ rest.length + numeral 256 rest) * 58 + carry := by ring

theorem toNat_lt_256 (ds : Bytes) : ∀ d ∈ ds, d.toNat < 256 := fun d _ => d.toNat_lt

/-- The buffer after one more character, in terms of values. -/
theorem pushBase58_eq_some_iff {w n : Nat} (hn : n < 256 ^ w) (c : UInt8) (out : Bytes) :
    pushBase58 (digits 256 w n) c = some out ↔
      ∃ v, b58Value c = some v ∧ n * 58 + v.toNat < 256 ^ w ∧
        out = digits 256 w (n * 58 + v.toNat) := by
  rcases hv : b58Value c with - | v
  · simp [pushBase58, hv]
  · rcases hstep : mulAdd58 v.toNat (digits 256 w n) with ⟨bs, carry⟩
    have hvalue := mulAdd58_value v.toNat (digits 256 w n)
    have hlen := length_mulAdd58 v.toNat (digits 256 w n)
    rw [hstep, length_digits] at hlen
    rw [hstep, length_digits, numeral_digits (by omega) (by omega), Nat.mod_eq_of_lt hn] at hvalue
    dsimp only at hvalue hlen
    have hlt := numeral_lt bs (toNat_lt_256 bs)
    rw [hlen] at hlt
    have hpush : pushBase58 (digits 256 w n) c = if carry ≠ 0 then none else some bs := by
      simp [pushBase58, hv, hstep]
    rw [hpush]
    by_cases hcarry : carry = 0
    · subst hcarry
      have hbs : bs = digits 256 w (n * 58 + v.toNat) := by
        rw [← hvalue, Nat.zero_mul, Nat.add_zero, ← hlen,
          digits_numeral (by omega) bs (toNat_lt_256 bs)]
      have hfits : n * 58 + v.toNat < 256 ^ w := by omega
      simp [← hbs, hfits, eq_comm]
    · have hover : ¬(n * 58 + v.toNat < 256 ^ w) := by
        rw [← hvalue]
        have : 256 ^ w ≤ carry * 256 ^ w := Nat.le_mul_of_pos_left _ (Nat.pos_of_ne_zero hcarry)
        omega
      simp [hcarry, hover]

/-- What the loop has after the characters `s`. -/
theorem foldlM_pushBase58_eq_some_iff {w n : Nat} (hn : n < 256 ^ w) (s out : Bytes) :
    s.foldlM pushBase58 (digits 256 w n) = some out ↔
      ∃ ds, s.mapM b58Value = some ds ∧ n * 58 ^ ds.length + numeral 58 ds < 256 ^ w ∧
        out = digits 256 w (n * 58 ^ ds.length + numeral 58 ds) := by
  induction s generalizing n with
  | nil => simp [hn, eq_comm]
  | cons c s ih =>
    rw [List.foldlM_cons, List.mapM_cons]
    constructor
    · intro h
      obtain ⟨mid, hmid, h⟩ := Option.bind_eq_some_iff.mp h
      obtain ⟨v, hv, hfits, rfl⟩ := (pushBase58_eq_some_iff hn c mid).mp hmid
      obtain ⟨ds, hds, hlt, hout⟩ := (ih hfits).mp h
      have hvalue : n * 58 ^ (v :: ds).length + numeral 58 (v :: ds) =
          (n * 58 + v.toNat) * 58 ^ ds.length + numeral 58 ds := by
        rw [numeral_cons, List.length_cons, pow_succ]
        ring
      exact ⟨v :: ds, by simp [hv, hds], hvalue ▸ hlt, hvalue ▸ hout⟩
    · rintro ⟨ds, hds, hlt, hout⟩
      obtain ⟨v, hv, hds⟩ := Option.bind_eq_some_iff.mp hds
      obtain ⟨vs, hvs, hds⟩ := Option.bind_eq_some_iff.mp hds
      obtain rfl : v :: vs = ds := Option.some.inj hds
      have hvalue : n * 58 ^ (v :: vs).length + numeral 58 (v :: vs) =
          (n * 58 + v.toNat) * 58 ^ vs.length + numeral 58 vs := by
        rw [numeral_cons, List.length_cons, pow_succ]
        ring
      -- the value only grows, so it fits now if it fits in the end
      have hgrow : n * 58 + v.toNat ≤ (n * 58 + v.toNat) * 58 ^ vs.length :=
        Nat.le_mul_of_pos_right _ (by positivity)
      rw [hvalue] at hlt hout
      have hfit : n * 58 + v.toNat < 256 ^ w := by omega
      have hpush := (pushBase58_eq_some_iff hn c _).mpr ⟨v, hv, hfit, rfl⟩
      exact Option.bind_eq_some_iff.mpr ⟨_, hpush, (ih hfit).mpr ⟨vs, hvs, hlt, hout⟩⟩

/-! ### What the decoder accepts -/

theorem digits_zero (b w : Nat) : digits b w 0 = List.replicate w 0 := by
  induction w with
  | zero => rfl
  | succ w ih => simp [digits, ih, List.replicate_succ']

/-- The digits of `spellBase58 k payload`. -/
def spellDigits (k : Nat) (payload : Bytes) : Bytes :=
  List.replicate k 0 ++ significant (digits 58 (2 * payload.length) (numeral 256 payload))

theorem spellBase58_eq_map (k : Nat) (payload : Bytes) :
    spellBase58 k payload = (spellDigits k payload).map b58Char := by
  rw [spellBase58, spellDigits, List.map_append, List.map_replicate]
  rfl

theorem spellDigits_lt (k : Nat) (payload : Bytes) : ∀ d ∈ spellDigits k payload, d.toNat < 58 := by
  intro d hd
  rcases List.mem_append.mp hd with hd | hd
  · rw [List.eq_of_mem_replicate hd]
    decide
  · exact digits_lt (by omega) (by omega) _ _ d (List.dropWhile_sublist _ |>.subset hd)

theorem numeral_lt_pow58 (payload : Bytes) : numeral 256 payload < 58 ^ (2 * payload.length) := by
  apply lt_of_lt_of_le (numeral_lt payload (toNat_lt_256 payload))
  rw [pow_mul]
  exact Nat.pow_le_pow_left (by norm_num) _

theorem numeral_spellDigits (k : Nat) (payload : Bytes) :
    numeral 58 (spellDigits k payload) = numeral 256 payload := by
  rw [spellDigits, numeral_replicate_zero_append, numeral_significant,
    numeral_digits (by omega) (by omega), Nat.mod_eq_of_lt (numeral_lt_pow58 payload)]

/-- A string of the alphabet is a spelling of the bytes of its value. -/
theorem eq_spellDigits {ds payload : Bytes} (hds : ∀ d ∈ ds, d.toNat < 58)
    (h : numeral 58 ds = numeral 256 payload) : ds = spellDigits (leadingZeros ds) payload := by
  have hlt : ∀ d ∈ digits 58 (2 * payload.length) (numeral 256 payload), d.toNat < 58 :=
    digits_lt (by omega) (by omega) _ _
  have hvalue : numeral 58 (digits 58 (2 * payload.length) (numeral 256 payload)) = numeral 58 ds := by
    rw [numeral_digits (by omega) (by omega), Nat.mod_eq_of_lt (numeral_lt_pow58 payload), h]
  rw [spellDigits, significant_eq_of_numeral_eq (by omega) hlt hds hvalue,
    replicate_append_significant]

/-- What the loop reads into a buffer of any width. -/
theorem foldlM_pushBase58_zero_iff (w : Nat) (s out : Bytes) :
    s.foldlM pushBase58 (List.replicate w 0) = some out ↔
      out.length = w ∧ ∃ k, s = spellBase58 k out := by
  rw [← digits_zero 256 w, foldlM_pushBase58_eq_some_iff (by positivity)]
  simp only [Nat.zero_mul, Nat.zero_add]
  constructor
  · rintro ⟨ds, hds, hlt, rfl⟩
    obtain ⟨hsmall, rfl⟩ := (mapM_b58Value_eq_some_iff s ds).mp hds
    refine ⟨length_digits w _, leadingZeros ds, ?_⟩
    rw [spellBase58_eq_map, ← eq_spellDigits hsmall]
    rw [numeral_digits (by omega) (by omega), Nat.mod_eq_of_lt hlt]
  · rintro ⟨rfl, k, rfl⟩
    have hvalue := numeral_spellDigits k out
    have hlt := numeral_lt out (toNat_lt_256 out)
    refine ⟨spellDigits k out, ?_, by rwa [hvalue], ?_⟩
    · exact (mapM_b58Value_eq_some_iff _ _).mpr ⟨spellDigits_lt k out, spellBase58_eq_map k out⟩
    · rw [hvalue, digits_numeral (by omega) out (toNat_lt_256 out)]

/-- **What the strict decoder accepts**: the strings of 1 to 100 characters
that spell 25 bytes with any number of '1' characters in front. -/
theorem b58decodeStrict_eq_some_iff (s out : Bytes) :
    b58decodeStrict s = some out ↔
      (s ≠ [] ∧ s.length ≤ 100) ∧ out.length = 25 ∧ ∃ k, s = spellBase58 k out := by
  have hlen : (s.length = 0 ∨ s.length > 100) ↔ ¬(s ≠ [] ∧ s.length ≤ 100) := by
    rw [not_and_or, not_not, not_le, List.length_eq_zero_iff]
  by_cases h : s.length = 0 ∨ s.length > 100
  · rw [b58decodeStrict, if_pos h]
    constructor
    · intro hnone
      cases hnone
    · intro hok
      exact absurd hok.1 (hlen.mp h)
  · rw [b58decodeStrict, if_neg h, foldlM_pushBase58_zero_iff]
    have hok := not_not.mp fun hno => h (hlen.mpr hno)
    simp only [hok, true_and, ne_eq, not_false_eq_true]

/-- Spellings of 25 bytes are told apart by what they spell and by the number
of '1' characters. -/
theorem spellBase58_inj {k k' : Nat} {payload payload' : Bytes} (hlen : payload.length = 25)
    (hlen' : payload'.length = 25) (h : spellBase58 k payload = spellBase58 k' payload') :
    k = k' ∧ payload = payload' := by
  rw [spellBase58_eq_map, spellBase58_eq_map] at h
  have hread := (mapM_b58Value_eq_some_iff ((spellDigits k payload).map b58Char) _).mpr
    ⟨spellDigits_lt k payload, rfl⟩
  rw [h, (mapM_b58Value_eq_some_iff _ _).mpr ⟨spellDigits_lt k' payload', rfl⟩] at hread
  have hdigits : spellDigits k' payload' = spellDigits k payload := Option.some.inj hread
  constructor
  · have hzeros := congrArg leadingZeros hdigits
    rw [spellDigits, spellDigits, leadingZeros_replicate_append,
      leadingZeros_replicate_append] at hzeros
    exact hzeros.symm
  · have hvalue := congrArg (numeral 58) hdigits
    rw [numeral_spellDigits, numeral_spellDigits] at hvalue
    exact numeral_injOn (by omega) (toNat_lt_256 payload) (toNat_lt_256 payload')
      (hlen.trans hlen'.symm) hvalue.symm

/-! ### Legacy classification -/

/-- The version byte of a legacy type. -/
def legacyVersion (mainnet isP2sh : Bool) : UInt8 :=
  match mainnet, isP2sh with
  | true, false => 0x00
  | true, true => 0x05
  | false, false => 0x6f
  | false, true => 0xc4

/-- The type of a legacy address. -/
def legacyKind (isP2sh : Bool) : BchAddrType := if isP2sh then .legacyP2sh else .legacyP2pkh

theorem legacyType_eq_some_iff (mainnet : Bool) (version : UInt8) (type : BchAddrType) :
    legacyType mainnet version = some type ↔
      ∃ isP2sh, version = legacyVersion mainnet isP2sh ∧ type = legacyKind isP2sh := by
  have hp2pkh : ((mainnet = true ∧ version = 0x00) ∨ (¬mainnet = true ∧ version = 0x6f)) ↔
      version = legacyVersion mainnet false := by
    cases mainnet <;> simp [legacyVersion]
  have hp2sh : ((mainnet = true ∧ version = 0x05) ∨ (¬mainnet = true ∧ version = 0xc4)) ↔
      version = legacyVersion mainnet true := by
    cases mainnet <;> simp [legacyVersion]
  have hne : legacyVersion mainnet false ≠ legacyVersion mainnet true := by
    cases mainnet <;> decide
  rw [legacyType, Bool.exists_bool]
  by_cases h : version = legacyVersion mainnet false
  · rw [if_pos (hp2pkh.mpr h)]
    simp [h, hne, legacyKind, eq_comm]
  · rw [if_neg (mt hp2pkh.mp h)]
    by_cases h' : version = legacyVersion mainnet true
    · rw [if_pos (hp2sh.mpr h')]
      simp [h', hne.symm, legacyKind, eq_comm]
    · rw [if_neg (mt hp2sh.mp h')]
      simp [h, h']

theorem length_base58Checksum (data : Bytes) : (base58Checksum data).length = 4 := by
  simp [base58Checksum]

theorem length_checkPayload (version : UInt8) {hash : Bytes} (h : hash.length = 20) :
    (checkPayload version hash).length = 25 := by
  simp [checkPayload, h, length_base58Checksum]

/-- A payload of 25 bytes with a good checksum is a version byte and a hash. -/
theorem eq_checkPayload_iff {decoded : Bytes} (hlen : decoded.length = 25) (version : UInt8)
    (hash : Bytes) :
    (hash.length = 20 ∧ decoded = checkPayload version hash) ↔
      base58Checksum (decoded.take 21) = decoded.drop 21 ∧ decoded.getD 0 0 = version ∧
        (decoded.drop 1).take 20 = hash := by
  constructor
  · rintro ⟨hhash, rfl⟩
    have htake : (checkPayload version hash).take 21 = version :: hash :=
      List.take_left' (by simp [hhash])
    have hdrop : (checkPayload version hash).drop 21 = base58Checksum (version :: hash) :=
      List.drop_left' (by simp [hhash])
    refine ⟨by rw [htake, hdrop], rfl, ?_⟩
    exact List.take_left' hhash
  · rintro ⟨hsum, rfl, rfl⟩
    rcases decoded with - | ⟨version, rest⟩
    · simp at hlen
    · have hhead : (version :: rest).take 21 = version :: rest.take 20 := rfl
      have hrest : rest.length = 24 := by simpa using hlen
      refine ⟨by simp [hrest], ?_⟩
      show version :: rest = version :: rest.take 20 ++ base58Checksum (version :: rest.take 20)
      rw [← hhead, hsum, List.take_append_drop]

/-- The stages of the classification. -/
theorem classifyLegacy_eq_some_stages (s pre : Bytes) (type : BchAddrType) (hash : Bytes) :
    classifyLegacy s pre = some (type, hash) ↔
      ∃ decoded, b58decodeStrict s = some decoded ∧
        base58Checksum (decoded.take 21) = decoded.drop 21 ∧
        legacyType (isMainnet pre) (decoded.getD 0 0) = some type ∧
        (decoded.drop 1).take 20 = hash := by
  rw [classifyLegacy, Option.bind_eq_bind, Option.bind_eq_some_iff]
  refine exists_congr fun decoded => and_congr_right fun _ => ?_
  by_cases hsum : base58Checksum (decoded.take 21) = decoded.drop 21
  · rw [if_neg (not_not.mpr hsum), Option.bind_eq_bind, Option.bind_eq_some_iff]
    simp only [Option.some.injEq, Prod.mk.injEq, hsum, true_and]
    constructor
    · rintro ⟨type', htype, rfl, hrest⟩
      exact ⟨htype, hrest⟩
    · rintro ⟨htype, hrest⟩
      exact ⟨type, htype, rfl, hrest⟩
  · rw [if_pos hsum]
    simp [hsum]

/-- **What is accepted as a legacy address**: the strings of at most 100
characters that spell version byte, hash and checksum of a script, with any
number of '1' characters in front. -/
theorem classifyLegacy_eq_some_iff (s pre : Bytes) (type : BchAddrType) (hash : Bytes) :
    classifyLegacy s pre = some (type, hash) ↔
      (s ≠ [] ∧ s.length ≤ 100) ∧ hash.length = 20 ∧
        ∃ isP2sh k, type = legacyKind isP2sh ∧
          s = spellBase58 k (checkPayload (legacyVersion (isMainnet pre) isP2sh) hash) := by
  rw [classifyLegacy_eq_some_stages]
  constructor
  · rintro ⟨decoded, hdecoded, hsum, htype, hrest⟩
    obtain ⟨hok, hlen, k, rfl⟩ := (b58decodeStrict_eq_some_iff s decoded).mp hdecoded
    obtain ⟨isP2sh, hversion, hkind⟩ := (legacyType_eq_some_iff _ _ _).mp htype
    obtain ⟨hhash, hpayload⟩ := (eq_checkPayload_iff hlen _ _).mpr ⟨hsum, hversion, hrest⟩
    exact ⟨hok, hhash, isP2sh, k, hkind, by rw [← hpayload]⟩
  · rintro ⟨hok, hhash, isP2sh, k, rfl, rfl⟩
    have hlen := length_checkPayload (legacyVersion (isMainnet pre) isP2sh) hhash
    obtain ⟨hsum, hversion, hrest⟩ := (eq_checkPayload_iff hlen _ _).mp ⟨hhash, rfl⟩
    have hdecoded := (b58decodeStrict_eq_some_iff _ _).mpr ⟨hok, hlen, k, rfl⟩
    have htype := (legacyType_eq_some_iff (isMainnet pre) _ _).mpr ⟨isP2sh, rfl, rfl⟩
    exact ⟨_, hdecoded, hsum, hversion ▸ htype, hrest⟩

/-! ### The decoder and the canonical encoding -/

/-- `s` is the canonical Base58Check encoding of a script on the network of
`pre`. -/
def IsCanonicalLegacy (pre s : Bytes) : Prop :=
  ∃ isP2sh, ∃ hash : Bytes, hash.length = 20 ∧
    s = base58Encode (checkPayload (legacyVersion (isMainnet pre) isP2sh) hash)

/-- The decoder is right on a string: it accepts the string exactly when it is
a canonical encoding. -/
def LegacyExact (pre s : Bytes) : Prop :=
  (classifyLegacy s pre).isSome ↔ IsCanonicalLegacy pre s

/-- The string, of at most 100 characters, is an address with the wrong number
of '1' characters in front: not one for every zero byte of its payload. -/
def MisspellsZeros (pre s : Bytes) : Prop :=
  (s ≠ [] ∧ s.length ≤ 100) ∧ ∃ isP2sh, ∃ hash : Bytes, ∃ k, hash.length = 20 ∧
    k ≠ leadingZeros (checkPayload (legacyVersion (isMainnet pre) isP2sh) hash) ∧
    s = spellBase58 k (checkPayload (legacyVersion (isMainnet pre) isP2sh) hash)

theorem length_base58Encode_le (payload : Bytes) :
    (base58Encode payload).length ≤ 3 * payload.length := by
  have hzeros : leadingZeros payload ≤ payload.length :=
    (List.takeWhile_sublist _).length_le
  have hdigits := (List.dropWhile_sublist (fun d : UInt8 => d == 0)
    (l := digits 58 (2 * payload.length) (numeral 256 payload))).length_le
  rw [length_digits] at hdigits
  simp only [base58Encode, spellBase58, significant, List.length_append, List.length_replicate,
    List.length_map]
  omega

theorem base58Encode_ne_nil {payload : Bytes} (h : payload ≠ []) : base58Encode payload ≠ [] := by
  intro hnil
  rw [base58Encode, spellBase58_eq_map, List.map_eq_nil_iff] at hnil
  have hzeros : leadingZeros payload = 0 := by
    have := congrArg leadingZeros hnil
    rwa [spellDigits, leadingZeros_replicate_append] at this
  have hvalue : numeral 256 payload = 0 := by
    rw [← numeral_spellDigits (leadingZeros payload), hnil, numeral_nil]
  -- a payload of value zero is all zeros, so it does start with one
  have hall : payload = List.replicate payload.length 0 := by
    conv_lhs => rw [← digits_numeral (by omega) payload (toNat_lt_256 payload), hvalue, digits_zero]
  have hlen := leadingZeros_replicate_append payload.length []
  rw [significant, List.dropWhile_nil, List.append_nil, ← hall, hzeros] at hlen
  exact h (List.length_eq_zero_iff.mp hlen.symm)

/-- A canonical encoding is accepted, for the script it encodes. -/
theorem classifyLegacy_base58Encode (pre : Bytes) (isP2sh : Bool) {hash : Bytes}
    (hhash : hash.length = 20) :
    classifyLegacy (base58Encode (checkPayload (legacyVersion (isMainnet pre) isP2sh) hash)) pre =
      some (legacyKind isP2sh, hash) := by
  have hlen := length_checkPayload (legacyVersion (isMainnet pre) isP2sh) hhash
  have hle := length_base58Encode_le (checkPayload (legacyVersion (isMainnet pre) isP2sh) hash)
  have hne : base58Encode (checkPayload (legacyVersion (isMainnet pre) isP2sh) hash) ≠ [] :=
    base58Encode_ne_nil (List.ne_nil_of_length_pos (by omega))
  exact (classifyLegacy_eq_some_iff _ _ _ _).mpr
    ⟨⟨hne, by omega⟩, hhash, isP2sh, _, rfl, rfl⟩

/-- **Exactly when the classification is exact.**  It is right on a string if
and only if the string is not an address with the wrong number of '1'
characters in front; and two such strings accepted for the same script are the
same string. -/
theorem classify_legacy_exact_iff (pre : Bytes) :
    (∀ s, LegacyExact pre s ↔ ¬MisspellsZeros pre s) ∧
      ∀ s s' r, ¬MisspellsZeros pre s → ¬MisspellsZeros pre s' →
        classifyLegacy s pre = some r → classifyLegacy s' pre = some r → s = s' := by
  have hcanonical : ∀ s type hash, ¬MisspellsZeros pre s →
      classifyLegacy s pre = some (type, hash) → hash.length = 20 ∧
        ∃ isP2sh, type = legacyKind isP2sh ∧
          s = base58Encode (checkPayload (legacyVersion (isMainnet pre) isP2sh) hash) := by
    intro s type hash hs h
    obtain ⟨hok, hhash, isP2sh, k, hkind, hspell⟩ := (classifyLegacy_eq_some_iff _ _ _ _).mp h
    by_cases hk : k = leadingZeros (checkPayload (legacyVersion (isMainnet pre) isP2sh) hash)
    · subst hk
      exact ⟨hhash, isP2sh, hkind, hspell⟩
    · exact absurd ⟨hok, isP2sh, hash, k, hhash, hk, hspell⟩ hs
  refine ⟨fun s => ⟨?_, ?_⟩, ?_⟩
  · rintro hexact ⟨hok, isP2sh, hash, k, hhash, hk, hspell⟩
    have haccept := (classifyLegacy_eq_some_iff s pre _ hash).mpr
      ⟨hok, hhash, isP2sh, k, rfl, hspell⟩
    obtain ⟨isP2sh', hash', hhash', hencode⟩ := hexact.mp (by rw [haccept]; rfl)
    obtain ⟨hzeros, hpayload⟩ := spellBase58_inj (length_checkPayload _ hhash)
      (length_checkPayload _ hhash') (hspell.symm.trans hencode)
    exact hk (hpayload ▸ hzeros)
  · intro hs
    constructor
    · intro h
      obtain ⟨⟨type, hash⟩, h⟩ := Option.isSome_iff_exists.mp h
      obtain ⟨hhash, isP2sh, -, hspell⟩ := hcanonical s type hash hs h
      exact ⟨isP2sh, hash, hhash, hspell⟩
    · rintro ⟨isP2sh, hash, hhash, rfl⟩
      rw [classifyLegacy_base58Encode pre isP2sh hhash]
      rfl
  · rintro s s' ⟨type, hash⟩ hs hs' h h'
    obtain ⟨-, isP2sh, hkind, hspell⟩ := hcanonical s type hash hs h
    obtain ⟨-, isP2sh', hkind', hspell'⟩ := hcanonical s' type hash hs' h'
    have hsame : isP2sh = isP2sh' := by
      cases isP2sh <;> cases isP2sh' <;> simp_all [legacyKind]
    rw [hspell, hspell', hsame]

/-- "11111111111111111111114oLvT2": the mainnet P2PKH address of the zero hash,
which starts with 21 '1' characters, and one '1' more. -/
def misspeltAddress : Bytes := List.replicate 22 49 ++ [52, 111, 76, 118, 84, 50]

/-- The decoder takes `misspeltAddress` for the address of the zero hash, which
has another encoding, accepted as well. -/
theorem misspeltAddress_not_exact :
    ¬LegacyExact bitcoincash.chars misspeltAddress ∧
      ∃ s, s ≠ misspeltAddress ∧ (classifyLegacy s bitcoincash.chars).isSome ∧
        classifyLegacy s bitcoincash.chars = classifyLegacy misspeltAddress bitcoincash.chars := by
  have haccept : classifyLegacy misspeltAddress bitcoincash.chars =
      some (.legacyP2pkh, List.replicate 20 0) := by
    decide +kernel
  have hshorter : classifyLegacy (misspeltAddress.drop 1) bitcoincash.chars =
      some (.legacyP2pkh, List.replicate 20 0) := by
    decide +kernel
  have hspell : misspeltAddress = spellBase58 22 (checkPayload 0 (List.replicate 20 0)) := by
    decide +kernel
  have hzeros : leadingZeros (checkPayload 0 (List.replicate 20 0)) = 21 := by
    decide +kernel
  refine ⟨?_, misspeltAddress.drop 1, by decide, by rw [hshorter]; rfl, hshorter.trans haccept.symm⟩
  intro hexact
  obtain ⟨isP2sh, hash, hhash, hencode⟩ := hexact.mp (by rw [haccept]; rfl)
  obtain ⟨hk, hpayload⟩ := spellBase58_inj (length_checkPayload _ (by decide))
    (length_checkPayload _ hhash) (hspell.symm.trans hencode)
  rw [← hpayload, hzeros] at hk
  omega

end CashStratum
