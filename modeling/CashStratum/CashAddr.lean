/-
CashStratum/CashAddr.lean

The CashAddr decoder of `cashaddr_simple.c`, and the encoding it decodes.

The first part is the decoder as the source runs it: case check, prefix,
alphabet, the 40-bit checksum `polymod`, the 5-to-8 bit regrouping with its
32-bit accumulator, and the version byte.  The second part is the encoding, in
its own terms: the payload is the numeral of version byte and hash written in
base 32 with two padding bits, followed by the eight checksum symbols.

Three facts connect the two.  `polymod` is linear over exclusive or, so exactly
one choice of eight symbols completes a payload (`polymod_eq_one_iff`); the
accumulator always holds the low 32 bits of the numeral read so far, so the
regrouping is division (`pushSymbols_eq`); and up to case the alphabet is a
bijection (`mapM_charsetValue_eq_some_iff`).  The decoder turns out to ignore
the three size bits of the version byte: `cashaddrDecodeChecked_eq_some_iff`
says what it accepts, and `decodes_exactly_iff` that it is right on a string
precisely when the string does not spell an address with size bits set.
-/
import CashStratum.Numeral
import Mathlib.Data.List.TakeWhile
import Mathlib.Data.Nat.Bitwise
import Mathlib.Tactic.IntervalCases

namespace CashStratum

/-! ### Characters -/

/-- `tolower`, in the C locale. -/
def tolower (c : UInt8) : UInt8 := if 65 ≤ c ∧ c ≤ 90 then c + 32 else c

/-- `toupper`, in the C locale. -/
def toupper (c : UInt8) : UInt8 := if 97 ≤ c ∧ c ≤ 122 then c - 32 else c

/-- `CHARSET_REV`. -/
def charsetRev : List Int :=
  [-1, -1, -1, -1, -1, -1, -1, -1, -1, -1, -1, -1, -1, -1, -1, -1,
   -1, -1, -1, -1, -1, -1, -1, -1, -1, -1, -1, -1, -1, -1, -1, -1,
   -1, -1, -1, -1, -1, -1, -1, -1, -1, -1, -1, -1, -1, -1, -1, -1,
   15, -1, 10, 17, 21, 20, 26, 30,  7,  5, -1, -1, -1, -1, -1, -1,
   -1, -1, -1, -1, -1, -1, -1, -1, -1, -1, -1, -1, -1, -1, -1, -1,
   -1, -1, -1, -1, -1, -1, -1, -1, -1, -1, -1, -1, -1, -1, -1, -1,
   -1, 29, -1, 24, 13, 25,  9,  8, 23, -1, 18, 22, 31, 27, 19, -1,
    1,  0,  3, 16, 11, 28, 12, 14,  6,  4,  2, -1, -1, -1, -1, -1]

/-- The symbol of one payload character: bytes from 0x80 on are rejected before
the table is indexed. -/
def charsetValue (c : UInt8) : Option UInt8 :=
  if c &&& 0x80 ≠ 0 then none
  else
    let value := charsetRev.getD (tolower c).toNat (-1)
    if value < 0 then none else some (UInt8.ofNat value.toNat)

/-- `case_is_consistent`. -/
def caseIsConsistent (s : Bytes) : Bool :=
  let hasLower := s.any fun c => 97 ≤ c ∧ c ≤ 122
  let hasUpper := s.any fun c => 65 ≤ c ∧ c ≤ 90
  !(hasLower && hasUpper)

/-! ### The checksum -/

/-- One turn of the loop of `polymod`. -/
def polymodStep (c : Nat) (value : UInt8) : Nat :=
  let c0 := (c >>> 35) % 256
  let c := ((c &&& 0x07ffffffff) <<< 5) ^^^ value.toNat
  let c := if c0 &&& 0x01 ≠ 0 then c ^^^ 0x98f2bc8e61 else c
  let c := if c0 &&& 0x02 ≠ 0 then c ^^^ 0x79b76d99e2 else c
  let c := if c0 &&& 0x04 ≠ 0 then c ^^^ 0xf33e5fb3c4 else c
  let c := if c0 &&& 0x08 ≠ 0 then c ^^^ 0xae2eabe2a8 else c
  if c0 &&& 0x10 ≠ 0 then c ^^^ 0x1e4f43e470 else c

/-- `polymod`: the values stay below `2 ^ 40` (`polymod_lt`), so the `uint64_t`
of the source never wraps. -/
def polymod (values : Bytes) : Nat := values.foldl polymodStep 1

/-! ### Regrouping -/

/-- The variables of `convert_bits_5to8`. -/
structure BitBuffer where
  acc : UInt32
  bits : Nat
  out : Bytes

/-- `while (bits >= 8)` -/
def drainBits (acc : UInt32) (bits : Nat) (out : Bytes) : Nat × Bytes :=
  if 8 ≤ bits then
    drainBits acc (bits - 8) (out ++ [((acc >>> UInt32.ofNat (bits - 8)) &&& 0xff).toUInt8])
  else (bits, out)
termination_by bits
decreasing_by omega

/-- One turn of the loop over the input. -/
def pushSymbol (s : BitBuffer) (value : UInt8) : Option BitBuffer :=
  if value ≥ 32 then none
  else
    let acc := (s.acc <<< 5) ||| value.toUInt32
    let (bits, out) := drainBits acc (s.bits + 5) s.out
    some { acc, bits, out }

/-- `convert_bits_5to8`. -/
def convertBits5to8 (data : Bytes) : Option Bytes := do
  let s ← data.foldlM pushSymbol { acc := 0, bits := 0, out := [] }
  if s.bits ≥ 5 ∨ (s.bits > 0 ∧ (s.acc <<< UInt32.ofNat (8 - s.bits)) &&& 0xff ≠ 0) then none
  else some s.out

/-! ### The decoder -/

/-- The part behind the separator, if the prefix in front of it is the expected
one; the whole string when there is no separator. -/
def findPayload (addr expectedPrefix : Bytes) : Option Bytes :=
  match addr.dropWhile (· ≠ 58) with
  | [] => some addr
  | _ :: payload =>
    let pre := addr.takeWhile (· ≠ 58)
    if pre.length ≠ expectedPrefix.length ∨
        pre.map tolower ≠ expectedPrefix.map tolower then none
    else some payload

/-- What `cashaddr_decode_checked` does with the version byte and the hash. -/
def readVersion (decoded : Bytes) : Option (Bool × Bytes) :=
  let version := decoded.getD 0 0
  if version &&& 0x80 ≠ 0 then none
  else
    let type := (version >>> 3) &&& 0x0f
    if type ≠ 0 ∧ type ≠ 1 then none else some (type == 1, (decoded.drop 1).take 20)

/-- The decoder behind the prefix. -/
def decodePayload (expectedPrefix payload : Bytes) : Option (Bool × Bytes) :=
  if payload.length < 14 ∨ payload.length > 112 then none
  else do
    let data ← payload.mapM charsetValue
    if data.length < 9 then none
    else if expectedPrefix.length + 1 + data.length > 1 + 20 + 112 then none
    else if polymod (expectedPrefix.map (· &&& 0x1f) ++ [0] ++ data) ≠ 1 then none
    else do
      let decoded ← convertBits5to8 (data.take (data.length - 8))
      if decoded.length < 21 then none
      else if decoded.length ≠ 21 then none
      else readVersion decoded

/-- `cashaddr_decode_checked`: `is_p2sh` and `hash160` of an accepted address. -/
def cashaddrDecodeChecked (addr expectedPrefix : Bytes) : Option (Bool × Bytes) :=
  if ¬caseIsConsistent addr then none
  else do
    let payload ← findPayload addr expectedPrefix
    decodePayload expectedPrefix payload

/-! ### The encoding -/

/-- The 32 characters of the alphabet, "qpzry9x8gf2tvdw0s3jn54khce6mua7l". -/
def charset : Bytes :=
  [113, 112, 122, 114, 121, 57, 120, 56, 103, 102, 50, 116, 118, 100, 119, 48,
   115, 51, 106, 110, 53, 52, 107, 104, 99, 101, 54, 109, 117, 97, 55, 108]

/-- The character of a symbol. -/
def charsetChar (v : UInt8) : UInt8 := charset.getD v.toNat 0

/-- A network prefix, such as "bitcoincash", "bchtest" or "bchreg": lower-case
letters, at most 20 of them. -/
structure NetworkPrefix where
  chars : Bytes
  lower : ∀ c ∈ chars, 97 ≤ c ∧ c ≤ 122
  length_le : chars.length ≤ 20

/-- The version byte: type in bits 3 to 6, hash size in bits 0 to 2. -/
def versionByte (isP2sh : Bool) (size : Nat) : UInt8 :=
  UInt8.ofNat ((if isP2sh then 8 else 0) + size)

/-- Version byte and hash in 34 symbols; the last two bits are padding. -/
def payloadSymbols (version : UInt8) (hash : Bytes) : Bytes :=
  digits 32 34 (numeral 256 (version :: hash) * 4)

/-- What the checksum covers in front of the payload. -/
def expandPrefix (pre : Bytes) : Bytes := pre.map (· &&& 0x1f) ++ [0]

/-- The eight symbols that complete a payload. -/
def checksumSymbols (pre data : Bytes) : Bytes :=
  digits 32 8 (polymod (expandPrefix pre ++ data ++ List.replicate 8 0) ^^^ 1)

/-- The payload of the address of a script, with the given size bits. -/
def encodePayload (p : NetworkPrefix) (isP2sh : Bool) (size : Nat) (hash : Bytes) : Bytes :=
  let data := payloadSymbols (versionByte isP2sh size) hash
  (data ++ checksumSymbols p.chars data).map charsetChar

/-- The four spellings of an address: with or without its prefix, all lower or
all upper case. -/
def Spells (s : Bytes) (p : NetworkPrefix) (payload : Bytes) : Prop :=
  s = p.chars ++ 58 :: payload ∨ s = (p.chars ++ 58 :: payload).map toupper ∨
    s = payload ∨ s = payload.map toupper

/-! ### The checksum is linear -/

/-- The value a tap adds for the five bits shifted out. -/
@[grind =] def polymodTap (k gen c : Nat) : Nat := if (c >>> 35).testBit k then gen else 0

/-- The part of a step that does not depend on the value read. -/
def polymodShift (c : Nat) : Nat :=
  ((c &&& 0x07ffffffff) <<< 5) ^^^ polymodTap 0 0x98f2bc8e61 c ^^^ polymodTap 1 0x79b76d99e2 c ^^^
    polymodTap 2 0xf33e5fb3c4 c ^^^ polymodTap 3 0xae2eabe2a8 c ^^^ polymodTap 4 0x1e4f43e470 c

theorem and_two_pow_ne_zero_iff (n k : Nat) (hk : k < 8) :
    (n % 256) &&& 2 ^ k ≠ 0 ↔ n.testBit k := by
  have hbit : (n % 2 ^ 8).testBit k = n.testBit k := by
    rw [Nat.testBit_mod_two_pow]
    simp [hk]
  rw [Nat.and_two_pow, show (256 : Nat) = 2 ^ 8 from rfl, hbit]
  cases n.testBit k <;> simp

theorem polymodStep_eq (c : Nat) (value : UInt8) :
    polymodStep c value = polymodShift c ^^^ value.toNat := by
  have htap : ∀ k gen x : Nat, k < 8 →
      (if (c >>> 35) % 256 &&& 2 ^ k ≠ 0 then x ^^^ gen else x) = x ^^^ polymodTap k gen c := by
    intro k gen x hk
    simp only [polymodTap, and_two_pow_ne_zero_iff _ k hk]
    split <;> simp
  have h0 := htap 0 0x98f2bc8e61
  have h1 := htap 1 0x79b76d99e2
  have h2 := htap 2 0xf33e5fb3c4
  have h3 := htap 3 0xae2eabe2a8
  have h4 := htap 4 0x1e4f43e470
  simp only [show (2 : Nat) ^ 0 = 0x01 from rfl, show (2 : Nat) ^ 1 = 0x02 from rfl,
    show (2 : Nat) ^ 2 = 0x04 from rfl, show (2 : Nat) ^ 3 = 0x08 from rfl,
    show (2 : Nat) ^ 4 = 0x10 from rfl] at h0 h1 h2 h3 h4
  simp only [polymodStep, h0 _ (by omega), h1 _ (by omega), h2 _ (by omega), h3 _ (by omega),
    h4 _ (by omega), polymodShift]
  ac_rfl

theorem polymodTap_xor (k gen a b : Nat) :
    polymodTap k gen (a ^^^ b) = polymodTap k gen a ^^^ polymodTap k gen b := by
  simp only [polymodTap, Nat.shiftRight_xor_distrib, Nat.testBit_xor]
  cases (a >>> 35).testBit k <;> cases (b >>> 35).testBit k <;> simp

theorem polymodShift_xor (a b : Nat) :
    polymodShift (a ^^^ b) = polymodShift a ^^^ polymodShift b := by
  simp only [polymodShift, polymodTap_xor, Nat.and_xor_distrib_right, Nat.shiftLeft_xor_distrib]
  ac_rfl

/-- Below `2 ^ 35` nothing is shifted out. -/
theorem polymodShift_of_lt {a : Nat} (h : a < 2 ^ 35) : polymodShift a = a <<< 5 := by
  have hlow : a &&& 0x07ffffffff = a := Nat.and_two_pow_sub_one_of_lt_two_pow h
  have hhigh : a >>> 35 = 0 := by rw [Nat.shiftRight_eq_div_pow, Nat.div_eq_of_lt h]
  simp [polymodShift, polymodTap, hlow, hhigh]

theorem polymodShift_lt (c : Nat) : polymodShift c < 2 ^ 40 := by
  have htap : ∀ k gen : Nat, gen < 2 ^ 40 → polymodTap k gen c < 2 ^ 40 := by
    intro k gen hgen
    rw [polymodTap]
    split
    · exact hgen
    · decide
  have hlow : (c &&& 0x07ffffffff) <<< 5 < 2 ^ 40 := by
    have : c &&& 0x07ffffffff < 2 ^ 35 := Nat.and_lt_two_pow c (by decide)
    rw [Nat.shiftLeft_eq]
    omega
  refine Nat.xor_lt_two_pow (Nat.xor_lt_two_pow (Nat.xor_lt_two_pow (Nat.xor_lt_two_pow
    (Nat.xor_lt_two_pow hlow ?_) ?_) ?_) ?_) ?_
  all_goals exact htap _ _ (by decide)

/-- The state never leaves 40 bits. -/
theorem foldl_polymodStep_lt {c : Nat} (hc : c < 2 ^ 40) (xs : Bytes) :
    xs.foldl polymodStep c < 2 ^ 40 := by
  induction xs using List.reverseRecOn with
  | nil => exact hc
  | append_singleton xs d ih =>
    rw [List.foldl_append, List.foldl_cons, List.foldl_nil, polymodStep_eq]
    exact Nat.xor_lt_two_pow (polymodShift_lt _) (d.toNat_lt.trans (by decide))

theorem polymod_lt (values : Bytes) : polymod values < 2 ^ 40 :=
  foldl_polymodStep_lt (by decide) values

/-- A symbol shifted in at the low end. -/
theorem mul_32_add_eq_xor {n d : Nat} (hd : d < 32) : n * 32 + d = (n <<< 5) ^^^ d := by
  apply Nat.eq_of_testBit_eq
  intro i
  rw [Nat.testBit_xor, Nat.testBit_shiftLeft, Nat.mul_comm n 32, show (32 : Nat) = 2 ^ 5 from rfl,
    Nat.testBit_two_pow_mul_add n hd]
  by_cases hi : i < 5
  · simp [hi, Nat.not_le.mpr hi]
  · have hz : d.testBit i = false := by
      apply Nat.testBit_lt_two_pow
      calc d < 2 ^ 5 := hd
        _ ≤ 2 ^ i := Nat.pow_le_pow_right (by omega) (by omega)
    simp [hi, hz, Nat.not_lt.mp hi]

/-- **Linearity.**  Up to eight symbols read after a state add their numeral to
what as many zeros would give. -/
theorem foldl_polymodStep_symbols (c : Nat) (xs : Bytes) (hlen : xs.length ≤ 8)
    (hxs : ∀ d ∈ xs, d.toNat < 32) :
    xs.foldl polymodStep c =
      (List.replicate xs.length 0).foldl polymodStep c ^^^ numeral 32 xs := by
  induction xs using List.reverseRecOn with
  | nil => simp
  | append_singleton xs d ih =>
    have hd : d.toNat < 32 := hxs d (by simp)
    have hxs' : ∀ e ∈ xs, e.toNat < 32 := fun e he => hxs e (by simp [he])
    rw [List.length_append, List.length_singleton] at hlen
    have hsmall : numeral 32 xs < 2 ^ 35 := by
      calc numeral 32 xs < 32 ^ xs.length := numeral_lt xs hxs'
        _ ≤ 32 ^ 7 := Nat.pow_le_pow_right (by omega) (by omega)
        _ = 2 ^ 35 := by norm_num
    rw [List.length_append, List.length_singleton, List.replicate_succ', List.foldl_append,
      List.foldl_append, List.foldl_cons, List.foldl_nil, List.foldl_cons, List.foldl_nil,
      ih (by omega) hxs', polymodStep_eq, polymodStep_eq, polymodShift_xor,
      polymodShift_of_lt hsmall, numeral_append_singleton, mul_32_add_eq_xor hd]
    have hzero : (0 : UInt8).toNat = 0 := rfl
    rw [hzero, Nat.xor_zero, Nat.xor_assoc]

/-- **Exactly one checksum fits.** -/
theorem polymod_eq_one_iff (covered chk : Bytes) (hlen : chk.length = 8)
    (hchk : ∀ d ∈ chk, d.toNat < 32) :
    polymod (covered ++ chk) = 1 ↔
      chk = digits 32 8 (polymod (covered ++ List.replicate 8 0) ^^^ 1) := by
  set r := polymod (covered ++ List.replicate 8 0) with hr
  have hsplit : polymod (covered ++ chk) = r ^^^ numeral 32 chk := by
    rw [hr, polymod, polymod, List.foldl_append, List.foldl_append,
      foldl_polymodStep_symbols _ chk (by omega) hchk, hlen]
  have hbound : r ^^^ 1 < 32 ^ 8 := by
    have : r ^^^ 1 < 2 ^ 40 := Nat.xor_lt_two_pow (polymod_lt _) (by decide)
    exact this.trans_le (by norm_num)
  rw [hsplit]
  constructor
  · intro h
    have hnum : numeral 32 chk = r ^^^ 1 := by
      rw [← h, ← Nat.xor_assoc, Nat.xor_self, Nat.zero_xor]
    rw [← hnum, ← hlen]
    exact (digits_numeral (by omega) chk hchk).symm
  · intro h
    rw [h, numeral_digits (by omega) (by omega), Nat.mod_eq_of_lt hbound, ← Nat.xor_assoc,
      Nat.xor_self, Nat.zero_xor]

/-! ### Regrouping is division -/

theorem drainBits_of_lt {acc : UInt32} {bits : Nat} (h : bits < 8) (out : Bytes) :
    drainBits acc bits out = (bits, out) := by
  rw [drainBits, if_neg (by omega)]

theorem drainBits_of_le {acc : UInt32} {bits : Nat} (h : 8 ≤ bits) (h' : bits < 16) (out : Bytes) :
    drainBits acc bits out =
      (bits - 8, out ++ [((acc >>> UInt32.ofNat (bits - 8)) &&& 0xff).toUInt8]) := by
  rw [drainBits, if_pos h, drainBits_of_lt (by omega)]

/-- The byte taken out of the accumulator. -/
theorem accByte_eq (n k : Nat) (hk : k < 8) :
    ((UInt32.ofNat n >>> UInt32.ofNat k) &&& 0xff).toUInt8 = UInt8.ofNat (n / 2 ^ k % 256) := by
  apply UInt8.toNat_inj.mp
  have hk' : k % 2 ^ 32 % 32 = k := by omega
  rw [UInt32.toNat_toUInt8, UInt32.toNat_and, UInt32.toNat_shiftRight, UInt32.toNat_ofNat',
    UInt32.toNat_ofNat', UInt8.toNat_ofNat', hk', Nat.shiftRight_eq_div_pow]
  have hand : ∀ x : Nat, x &&& UInt32.toNat 255 = x % 256 := fun x =>
    Nat.and_two_pow_sub_one_eq_mod x 8
  rw [hand]
  interval_cases k <;> omega

/-- Shifting a symbol into the accumulator. -/
theorem accPush_eq (n : Nat) {d : UInt8} (hd : d.toNat < 32) :
    (UInt32.ofNat n <<< 5) ||| d.toUInt32 = UInt32.ofNat (n * 32 + d.toNat) := by
  apply UInt32.toNat_inj.mp
  have hshift : (UInt32.ofNat n <<< 5).toNat = (n % 2 ^ 27) <<< 5 := by
    rw [UInt32.toNat_shiftLeft, UInt32.toNat_ofNat', Nat.shiftLeft_eq, Nat.shiftLeft_eq]
    have h5 : UInt32.toNat 5 % 32 = 5 := rfl
    rw [h5]
    omega
  rw [UInt32.toNat_or, hshift, UInt8.toNat_toUInt32, ← Nat.shiftLeft_add_eq_or_of_lt hd,
    UInt32.toNat_ofNat', Nat.shiftLeft_eq]
  omega

/-- **The state of the regrouping.**  After `n` symbols the accumulator holds
the low bits of their numeral, `5 n % 8` of them not yet written, and the bytes
written are the digits of the rest. -/
theorem pushSymbols_eq (data : Bytes) (h : ∀ d ∈ data, d.toNat < 32) :
    data.foldlM pushSymbol { acc := 0, bits := 0, out := [] } =
      some { acc := UInt32.ofNat (numeral 32 data)
             bits := 5 * data.length % 8
             out := digits 256 (5 * data.length / 8)
               (numeral 32 data / 2 ^ (5 * data.length % 8)) } := by
  induction data using List.reverseRecOn with
  | nil => rfl
  | append_singleton data d ih =>
    have hd : d.toNat < 32 := h d (by simp)
    have hsmall : ¬d ≥ 32 := by
      rw [ge_iff_le, UInt8.le_iff_toNat_le]
      exact Nat.not_le.mpr hd
    rw [List.foldlM_append, ih fun e he => h e (by simp [he])]
    simp only [List.foldlM_cons, List.foldlM_nil, Option.bind_eq_bind, Option.bind_some,
      pushSymbol, if_neg hsmall, accPush_eq _ hd, List.length_append, List.length_singleton,
      numeral_append_singleton, Option.pure_def]
    set n := numeral 32 data
    set l := data.length
    have hmod : 5 * l % 8 < 8 := Nat.mod_lt _ (by omega)
    have hdrop : (n * 32 + d.toNat) / 2 ^ (5 * l % 8 + 5) = n / 2 ^ (5 * l % 8) := by
      rw [pow_add, Nat.mul_comm _ (2 ^ 5), ← Nat.div_div_eq_div_mul]
      congr 1
      omega
    by_cases hfull : 8 ≤ 5 * l % 8 + 5
    · have hbits : 5 * (l + 1) % 8 = 5 * l % 8 + 5 - 8 := by omega
      have hlen : 5 * (l + 1) / 8 = 5 * l / 8 + 1 := by omega
      have hbyte : (n * 32 + d.toNat) / 2 ^ (5 * l % 8 + 5 - 8) / 256 = n / 2 ^ (5 * l % 8) := by
        rw [Nat.div_div_eq_div_mul, show (256 : Nat) = 2 ^ 8 from rfl, ← pow_add,
          Nat.sub_add_cancel hfull, hdrop]
      rw [drainBits_of_le hfull (by omega), hbits, hlen, digits, hbyte, accByte_eq _ _ (by omega)]
    · have hbits : 5 * (l + 1) % 8 = 5 * l % 8 + 5 := by omega
      have hlen : 5 * (l + 1) / 8 = 5 * l / 8 := by omega
      rw [drainBits_of_lt (by omega), hbits, hlen, hdrop]

/-- The padding check of `convert_bits_5to8` reads the bits left over. -/
theorem accPadding_eq_zero_iff (n k : Nat) (hk : 0 < k) (hk' : k < 5) :
    (UInt32.ofNat n <<< UInt32.ofNat (8 - k)) &&& 0xff = 0 ↔ n % 2 ^ k = 0 := by
  have hand : ∀ x : Nat, x &&& UInt32.toNat 255 = x % 256 := fun x =>
    Nat.and_two_pow_sub_one_eq_mod x 8
  have hshift : (8 - k) % 2 ^ 32 % 32 = 8 - k := by omega
  rw [← UInt32.toNat_inj, UInt32.toNat_and, UInt32.toNat_shiftLeft, UInt32.toNat_ofNat',
    UInt32.toNat_ofNat', hand, hshift, Nat.shiftLeft_eq]
  have hz : (0 : UInt32).toNat = 0 := rfl
  rw [hz]
  interval_cases k <;> omega

/-- **Regrouping divides.**  The bytes are the numeral without its last
`5 n % 8` bits, which must be fewer than five and all zero. -/
theorem convertBits5to8_eq_some_iff (data out : Bytes) (h : ∀ d ∈ data, d.toNat < 32) :
    convertBits5to8 data = some out ↔
      5 * data.length % 8 < 5 ∧ numeral 32 data % 2 ^ (5 * data.length % 8) = 0 ∧
        out = digits 256 (5 * data.length / 8)
          (numeral 32 data / 2 ^ (5 * data.length % 8)) := by
  rw [convertBits5to8, pushSymbols_eq data h]
  simp only [Option.bind_eq_bind, Option.bind_some]
  set k := 5 * data.length % 8
  by_cases hk5 : 5 ≤ k
  · rw [if_pos (Or.inl hk5)]
    simp [Nat.not_lt.mpr hk5]
  · by_cases hk0 : k = 0
    · rw [if_neg (by omega)]
      simp [hk0, Nat.mod_one, eq_comm]
    · have hpad := accPadding_eq_zero_iff (numeral 32 data) k (by omega) (by omega)
      by_cases hz : numeral 32 data % 2 ^ k = 0
      · have hacc := hpad.mpr hz
        rw [if_neg (by simp [hacc]; omega)]
        simp [hz, eq_comm]
        omega
      · have hacc : (UInt32.ofNat (numeral 32 data) <<< UInt32.ofNat (8 - k)) &&& 0xff ≠ 0 :=
          fun e => hz (hpad.mp e)
        rw [if_pos (Or.inr ⟨by omega, hacc⟩)]
        simp [hz]

/-! ### The alphabet -/

/-- A fact about every byte is a fact about 256 numbers. -/
theorem forall_byte {P : UInt8 → Prop} (h : ∀ n < 256, P (UInt8.ofNat n)) (c : UInt8) : P c := by
  have := h c.toNat c.toNat_lt
  simpa using this

/-- A fact about every value of a partial function on bytes, checked one byte
at a time. -/
theorem forall_byte_some {f : UInt8 → Option UInt8} {P : UInt8 → UInt8 → Prop}
    [∀ c v, Decidable (P c v)]
    (h : ∀ n < 256, (f (UInt8.ofNat n)).all (fun v => decide (P (UInt8.ofNat n) v)) = true)
    {c v : UInt8} (hc : f c = some v) : P c v := by
  have hall := forall_byte (P := fun c => (f c).all (fun v => decide (P c v)) = true) h c
  rw [hc] at hall
  exact of_decide_eq_true hall

set_option maxRecDepth 20000 in
theorem charsetValue_tolower_table : ∀ n < 256,
    charsetValue (tolower (UInt8.ofNat n)) = charsetValue (UInt8.ofNat n) := by
  decide

set_option maxRecDepth 20000 in
theorem charsetChar_charsetValue {c v : UInt8} (h : charsetValue c = some v) :
    v.toNat < 32 ∧ tolower c = charsetChar v :=
  forall_byte_some (P := fun c v => v.toNat < 32 ∧ tolower c = charsetChar v)
    (by decide) h

theorem charsetChar_lower_table : ∀ v < 32,
    charsetChar (UInt8.ofNat v) ≠ 58 ∧ ¬(65 ≤ charsetChar (UInt8.ofNat v) ∧
      charsetChar (UInt8.ofNat v) ≤ 90) ∧
      charsetValue (charsetChar (UInt8.ofNat v)) = some (UInt8.ofNat v) := by
  decide

theorem charsetChar_lower {v : UInt8} (hv : v.toNat < 32) :
    charsetChar v ≠ 58 ∧ ¬(65 ≤ charsetChar v ∧ charsetChar v ≤ 90) ∧
      charsetValue (charsetChar v) = some v := by
  have h := charsetChar_lower_table v.toNat hv
  simpa only [UInt8.ofNat_toNat] using h

theorem charsetValue_eq_some_iff (c v : UInt8) :
    charsetValue c = some v ↔ v.toNat < 32 ∧ tolower c = charsetChar v := by
  constructor
  · intro h
    exact charsetChar_charsetValue h
  · rintro ⟨hv, hc⟩
    rw [← forall_byte (P := fun c => charsetValue (tolower c) = charsetValue c)
      charsetValue_tolower_table c, hc]
    exact (charsetChar_lower hv).2.2

/-- The symbols of a payload are its characters, up to case. -/
theorem mapM_charsetValue_eq_some_iff (payload data : Bytes) :
    payload.mapM charsetValue = some data ↔
      (∀ d ∈ data, d.toNat < 32) ∧ payload.map tolower = data.map charsetChar :=
  mapM_eq_some_iff_map charsetValue_eq_some_iff payload data

theorem map_charsetChar_injOn {xs ys : Bytes} (hx : ∀ d ∈ xs, d.toNat < 32)
    (hy : ∀ d ∈ ys, d.toNat < 32) (h : xs.map charsetChar = ys.map charsetChar) : xs = ys := by
  have hback : ∀ zs : Bytes, (∀ d ∈ zs, d.toNat < 32) →
      (zs.map charsetChar).map charsetValue = zs.map some := by
    intro zs hz
    rw [List.map_map]
    exact List.map_congr_left fun d hd => (charsetChar_lower (hz d hd)).2.2
  have := congrArg (List.map charsetValue) h
  rw [hback xs hx, hback ys hy] at this
  exact List.map_injective_iff.mpr (Option.some_injective UInt8) this

/-! ### Case and prefix -/

theorem tolower_of_not_upper {c : UInt8} (h : ¬(65 ≤ c ∧ c ≤ 90)) : tolower c = c := by
  rw [tolower, if_neg h]

set_option maxRecDepth 20000 in
theorem case_table : ∀ n < 256,
    (¬(97 ≤ UInt8.ofNat n ∧ UInt8.ofNat n ≤ 122) →
      toupper (tolower (UInt8.ofNat n)) = UInt8.ofNat n) ∧
    (¬(65 ≤ UInt8.ofNat n ∧ UInt8.ofNat n ≤ 90) →
      tolower (toupper (UInt8.ofNat n)) = UInt8.ofNat n) ∧
    ¬(97 ≤ toupper (UInt8.ofNat n) ∧ toupper (UInt8.ofNat n) ≤ 122) ∧
    (tolower (UInt8.ofNat n) = 58 ↔ UInt8.ofNat n = 58) := by
  decide

theorem toupper_tolower {c : UInt8} (h : ¬(97 ≤ c ∧ c ≤ 122)) : toupper (tolower c) = c :=
  (forall_byte (P := fun c => (¬(97 ≤ c ∧ c ≤ 122) → toupper (tolower c) = c))
    (fun n hn => (case_table n hn).1) c) h

theorem tolower_toupper {c : UInt8} (h : ¬(65 ≤ c ∧ c ≤ 90)) : tolower (toupper c) = c :=
  (forall_byte (P := fun c => (¬(65 ≤ c ∧ c ≤ 90) → tolower (toupper c) = c))
    (fun n hn => (case_table n hn).2.1) c) h

theorem toupper_not_lower (c : UInt8) : ¬(97 ≤ toupper c ∧ toupper c ≤ 122) :=
  forall_byte (P := fun c => ¬(97 ≤ toupper c ∧ toupper c ≤ 122))
    (fun n hn => (case_table n hn).2.2.1) c

theorem tolower_eq_colon_iff (c : UInt8) : tolower c = 58 ↔ c = 58 :=
  forall_byte (P := fun c => tolower c = 58 ↔ c = 58) (fun n hn => (case_table n hn).2.2.2) c

theorem caseIsConsistent_iff (s : Bytes) :
    caseIsConsistent s ↔ (∀ c ∈ s, ¬(97 ≤ c ∧ c ≤ 122)) ∨ ∀ c ∈ s, ¬(65 ≤ c ∧ c ≤ 90) := by
  simp only [caseIsConsistent, Bool.not_eq_true', Bool.and_eq_false_iff, List.any_eq_false,
    decide_eq_true_eq]

/-- A string of one case with a given lower-case form is that form, or its
upper-case form. -/
theorem caseIsConsistent_and_lower_iff {s x : Bytes} (hx : ∀ c ∈ x, ¬(65 ≤ c ∧ c ≤ 90)) :
    (caseIsConsistent s ∧ s.map tolower = x) ↔ s = x ∨ s = x.map toupper := by
  rw [caseIsConsistent_iff]
  constructor
  · rintro ⟨hlower | hupper, rfl⟩
    · right
      rw [List.map_map]
      conv_lhs => rw [← List.map_id s]
      exact List.map_congr_left fun c hc => (toupper_tolower (hlower c hc)).symm
    · left
      conv_lhs => rw [← List.map_id s]
      exact List.map_congr_left fun c hc => (tolower_of_not_upper (hupper c hc)).symm
  · rintro (rfl | rfl)
    · refine ⟨Or.inr hx, ?_⟩
      conv_rhs => rw [← List.map_id s]
      exact List.map_congr_left fun c hc => tolower_of_not_upper (hx c hc)
    · refine ⟨Or.inl ?_, ?_⟩
      · intro c hc
        obtain ⟨d, -, rfl⟩ := List.mem_map.mp hc
        exact toupper_not_lower d
      · rw [List.map_map]
        conv_rhs => rw [← List.map_id x]
        exact List.map_congr_left fun c hc => tolower_toupper (hx c hc)

theorem NetworkPrefix.not_upper (p : NetworkPrefix) : ∀ c ∈ p.chars, ¬(65 ≤ c ∧ c ≤ 90) := by
  intro c hc h
  have h97 := (p.lower c hc).1
  rw [UInt8.le_iff_toNat_le] at h97
  have h90 := UInt8.le_iff_toNat_le.mp h.2
  exact absurd (h97.trans h90) (by decide)

theorem NetworkPrefix.colon_not_mem (p : NetworkPrefix) : 58 ∉ p.chars := by
  intro h
  exact absurd (p.lower 58 h).1 (by decide)

theorem NetworkPrefix.map_tolower (p : NetworkPrefix) : p.chars.map tolower = p.chars := by
  conv_rhs => rw [← List.map_id p.chars]
  exact List.map_congr_left fun c hc => tolower_of_not_upper (p.not_upper c hc)

/-- The payload of a string is the string itself, or what stands behind a
spelling of the prefix and a colon. -/
theorem findPayload_eq_some_iff (p : NetworkPrefix) (s payload : Bytes) :
    findPayload s p.chars = some payload ↔
      (58 ∉ s ∧ payload = s) ∨ ∃ pre : Bytes, pre.map tolower = p.chars ∧ s = pre ++ 58 :: payload := by
  have hsplit := List.takeWhile_append_dropWhile (p := fun c : UInt8 => decide (c ≠ 58)) (l := s)
  have htake : ∀ c ∈ s.takeWhile (fun c => decide (c ≠ 58)), c ≠ 58 := fun c hc => by
    simpa using List.mem_takeWhile_imp hc
  rw [findPayload]
  rcases hdrop : s.dropWhile (fun c => decide (c ≠ 58)) with - | ⟨c, rest⟩
  · rw [hdrop, List.append_nil] at hsplit
    have hno : 58 ∉ s := fun h => htake 58 (by rw [hsplit]; exact h) rfl
    simp only [Option.some.injEq]
    constructor
    · rintro rfl
      exact Or.inl ⟨hno, rfl⟩
    · rintro (⟨-, rfl⟩ | ⟨pre, -, rfl⟩)
      · rfl
      · exact absurd (by simp) hno
  · have hc : c = 58 := by
      have hhead := List.head?_dropWhile_not (fun c : UInt8 => decide (c ≠ 58)) s
      rw [hdrop] at hhead
      simpa using hhead
    subst hc
    rw [hdrop] at hsplit
    have hmem : 58 ∈ s := by rw [← hsplit]; simp
    simp only [p.map_tolower]
    constructor
    · intro h
      split_ifs at h with hpre
      rw [not_or, not_not, not_not] at hpre
      rw [Option.some.injEq] at h
      exact Or.inr ⟨_, hpre.2, by rw [← h, hsplit]⟩
    · rintro (⟨hno, -⟩ | ⟨pre, hpre, hs⟩)
      · exact absurd hmem hno
      · have hpre58 : ∀ c ∈ pre, decide (c ≠ 58) = true := by
          intro c hc
          have : tolower c ∈ p.chars := by rw [← hpre]; exact List.mem_map_of_mem hc
          rw [decide_eq_true_eq]
          rintro rfl
          exact p.colon_not_mem this
        have htw : s.takeWhile (fun c => decide (c ≠ 58)) = pre := by
          rw [hs, List.takeWhile_append_of_pos hpre58]
          simp
        have hrest : rest = payload := by
          rw [htw, hs] at hsplit
          simpa using hsplit
        rw [htw, if_neg (by rw [hpre, ← hpre]; simp), hrest]

/-! ### What the decoder accepts -/

theorem numeral_version_lt {version : UInt8} {hash : Bytes} (h : hash.length = 20) :
    numeral 256 (version :: hash) * 4 < 32 ^ 34 := by
  have hlt := numeral_lt (b := 256) (version :: hash) fun d _ => d.toNat_lt
  rw [List.length_cons, h] at hlt
  have h168 : (256 : Nat) ^ (20 + 1) * 4 = 32 ^ 34 := by norm_num
  omega

theorem payloadSymbols_lt (version : UInt8) (hash : Bytes) :
    ∀ d ∈ payloadSymbols version hash, d.toNat < 32 :=
  digits_lt (by omega) (by omega) 34 _

@[simp] theorem length_payloadSymbols (version : UInt8) (hash : Bytes) :
    (payloadSymbols version hash).length = 34 := length_digits 34 _

theorem checksumSymbols_lt (pre data : Bytes) : ∀ d ∈ checksumSymbols pre data, d.toNat < 32 :=
  digits_lt (by omega) (by omega) 8 _

@[simp] theorem length_checksumSymbols (pre data : Bytes) :
    (checksumSymbols pre data).length = 8 := length_digits 8 _

theorem numeral_payloadSymbols (version : UInt8) {hash : Bytes} (h : hash.length = 20) :
    numeral 32 (payloadSymbols version hash) = numeral 256 (version :: hash) * 4 := by
  rw [payloadSymbols, numeral_digits (by omega) (by omega), Nat.mod_eq_of_lt (numeral_version_lt h)]

theorem completedSymbols_lt (pre : Bytes) (version : UInt8) (hash : Bytes) :
    ∀ d ∈ payloadSymbols version hash ++ checksumSymbols pre (payloadSymbols version hash),
      d.toNat < 32 := by
  intro d hd
  rcases List.mem_append.mp hd with hd | hd
  · exact payloadSymbols_lt version hash d hd
  · exact checksumSymbols_lt pre _ d hd

/-- Thirty-four symbols regroup to a version byte and a hash exactly when they
are its payload symbols; no other number of symbols gives 21 bytes. -/
theorem convertBits5to8_eq_version_iff (data : Bytes) (version : UInt8) (hash : Bytes)
    (h : ∀ d ∈ data, d.toNat < 32) (hhash : hash.length = 20) :
    convertBits5to8 data = some (version :: hash) ↔ data = payloadSymbols version hash := by
  rw [convertBits5to8_eq_some_iff data _ h]
  constructor
  · rintro ⟨h5, hpad, hout⟩
    have hlen := congrArg List.length hout
    rw [List.length_cons, hhash, length_digits] at hlen
    have h34 : data.length = 34 := by omega
    rw [h34] at hpad hout
    have hbound : numeral 32 data / 4 < 256 ^ 21 := by
      have hlt := numeral_lt data h
      rw [h34] at hlt
      have h168 : (32 : Nat) ^ 34 = 256 ^ 21 * 4 := by norm_num
      omega
    have hnum := congrArg (numeral 256) hout
    rw [show 5 * 34 / 8 = 21 from rfl, show (2 : Nat) ^ (5 * 34 % 8) = 4 from rfl,
      numeral_digits (by omega) (by omega), Nat.mod_eq_of_lt hbound] at hnum
    rw [show (2 : Nat) ^ (5 * 34 % 8) = 4 from rfl] at hpad
    rw [payloadSymbols, hnum, Nat.div_mul_cancel (Nat.dvd_of_mod_eq_zero hpad), ← h34]
    exact (digits_numeral (by omega) data h).symm
  · intro hdata
    have hval : numeral 32 data = numeral 256 (version :: hash) * 4 := by
      rw [hdata, numeral_payloadSymbols version hhash]
    have hlen : data.length = 34 := by rw [hdata, length_payloadSymbols]
    rw [hlen, hval]
    refine ⟨by omega, Nat.mul_mod_left _ 4, ?_⟩
    rw [show (2 : Nat) ^ (5 * 34 % 8) = 4 from rfl, Nat.mul_div_cancel _ (by omega)]
    have hdig := digits_numeral (b := 256) (by omega) (version :: hash) fun d _ => d.toNat_lt
    rw [List.length_cons, hhash] at hdig
    exact hdig.symm

set_option maxRecDepth 20000 in
theorem versionByte_table : ∀ n < 256,
    (UInt8.ofNat n &&& 0x80 = 0 →
      ((UInt8.ofNat n >>> 3) &&& 0x0f = 0 → UInt8.ofNat n = versionByte false (n % 8)) ∧
      ((UInt8.ofNat n >>> 3) &&& 0x0f = 1 → UInt8.ofNat n = versionByte true (n % 8))) := by
  decide

theorem versionByte_fields : ∀ isP2sh : Bool, ∀ size < 8,
    versionByte isP2sh size &&& 0x80 = 0 ∧
      ((versionByte isP2sh size >>> 3) &&& 0x0f) = (if isP2sh then 1 else 0) ∧
      (versionByte isP2sh size).toNat = (if isP2sh then 8 else 0) + size := by
  decide

/-- The version byte is accepted with every value of its size bits. -/
theorem readVersion_eq_some_iff {decoded : Bytes} (hlen : decoded.length = 21) (isP2sh : Bool)
    (hash : Bytes) :
    readVersion decoded = some (isP2sh, hash) ↔
      hash.length = 20 ∧ ∃ size < 8, decoded = versionByte isP2sh size :: hash := by
  obtain ⟨version, rest, rfl⟩ : ∃ version rest, decoded = version :: rest := by
    rcases decoded with - | ⟨version, rest⟩
    · simp at hlen
    · exact ⟨version, rest, rfl⟩
  have hrest : rest.length = 20 := by simpa using hlen
  have htake : rest.take 20 = rest := List.take_of_length_le hrest.le
  simp only [readVersion, List.getD_cons_zero, List.drop_one, List.tail_cons, htake]
  constructor
  · intro h
    split_ifs at h with h80 htype
    have htable := versionByte_table version.toNat version.toNat_lt
    rw [UInt8.ofNat_toNat] at htable
    simp only [Option.some.injEq, Prod.mk.injEq] at h
    obtain ⟨rfl, rfl⟩ := h
    refine ⟨hrest, version.toNat % 8, Nat.mod_lt _ (by omega), ?_⟩
    have h80' : version &&& 0x80 = 0 := not_not.mp h80
    rw [not_and_or, not_not, not_not] at htype
    rcases htype with h0 | h1
    · rw [h0]
      exact congrArg (· :: rest) ((htable h80').1 h0)
    · rw [h1]
      exact congrArg (· :: rest) ((htable h80').2 h1)
  · rintro ⟨-, size, hsize, hcons⟩
    rw [List.cons.injEq] at hcons
    obtain ⟨rfl, rfl⟩ := hcons
    obtain ⟨h80, htype, -⟩ := versionByte_fields isP2sh size hsize
    rw [if_neg (not_not.mpr h80), htype]
    cases isP2sh <;> simp

/-- **The decoder behind the prefix** accepts exactly the addresses of a 20-byte
hash, with any size bits. -/
theorem decodePayload_eq_some_iff (p : NetworkPrefix) (payload : Bytes) (isP2sh : Bool)
    (hash : Bytes) :
    decodePayload p.chars payload = some (isP2sh, hash) ↔
      hash.length = 20 ∧ ∃ size < 8, payload.map tolower = encodePayload p isP2sh size hash := by
  have hbefore := p.length_le
  constructor
  · intro h
    simp only [decodePayload, Option.bind_eq_bind] at h
    split_ifs at h with hlen
    obtain ⟨data, hdata, h⟩ := Option.bind_eq_some_iff.mp h
    split_ifs at h with h9 hbuf hsum
    obtain ⟨decoded, hconv, h⟩ := Option.bind_eq_some_iff.mp h
    split_ifs at h with h21 h21'
    obtain ⟨hlt, hlower⟩ := (mapM_charsetValue_eq_some_iff payload data).mp hdata
    obtain ⟨hhash, size, hsize, rfl⟩ := (readVersion_eq_some_iff (by omega) isP2sh hash).mp h
    have hbody : ∀ d ∈ data.take (data.length - 8), d.toNat < 32 := fun d hd =>
      hlt d (List.mem_of_mem_take hd)
    have hchk : ∀ d ∈ data.drop (data.length - 8), d.toNat < 32 := fun d hd =>
      hlt d (List.mem_of_mem_drop hd)
    have htake := (convertBits5to8_eq_version_iff _ _ _ hbody hhash).mp hconv
    have hdrop : data.drop (data.length - 8) =
        checksumSymbols p.chars (data.take (data.length - 8)) := by
      refine (polymod_eq_one_iff _ _ (by rw [List.length_drop]; omega) hchk).mp ?_
      rw [expandPrefix, List.append_assoc _ _ (data.drop _), List.take_append_drop]
      exact not_not.mp hsum
    refine ⟨hhash, size, hsize, ?_⟩
    rw [hlower, encodePayload, ← htake, ← hdrop, List.take_append_drop]
  · rintro ⟨hhash, size, hsize, hlower⟩
    set version := versionByte isP2sh size with hversion
    set body := payloadSymbols version hash with hbody
    set data := body ++ checksumSymbols p.chars body with hdata
    have hlt : ∀ d ∈ data, d.toNat < 32 := completedSymbols_lt p.chars version hash
    have hdlen : data.length = 42 := by simp [hdata, hbody]
    have hplen : payload.length = 42 := by
      have := congrArg List.length hlower
      rwa [List.length_map, encodePayload, List.length_map, ← hversion, ← hbody, ← hdata,
        hdlen] at this
    have hmap := (mapM_charsetValue_eq_some_iff payload data).mpr ⟨hlt, hlower⟩
    have hsum : polymod (p.chars.map (· &&& 0x1f) ++ [0] ++ data) = 1 := by
      rw [hdata, ← List.append_assoc]
      exact (polymod_eq_one_iff _ _ (length_checksumSymbols _ _) (checksumSymbols_lt _ _)).mpr rfl
    have htake : data.take (data.length - 8) = body := by
      have : data.length - 8 = body.length := by rw [hdlen, hbody, length_payloadSymbols]
      rw [this, hdata, List.take_left]
    have hconv : convertBits5to8 (data.take (data.length - 8)) = some (version :: hash) := by
      rw [htake]
      exact (convertBits5to8_eq_version_iff body version hash (payloadSymbols_lt _ _) hhash).mpr rfl
    have hread : readVersion (version :: hash) = some (isP2sh, hash) :=
      (readVersion_eq_some_iff (by simp [hhash]) isP2sh hash).mpr ⟨hhash, size, hsize, rfl⟩
    rw [decodePayload, if_neg (by omega), hmap]
    simp only [Option.bind_eq_bind, Option.bind_some]
    rw [if_neg (by omega), if_neg (by omega), if_neg (not_not.mpr hsum), hconv, Option.bind_some,
      if_neg (by simp [hhash]), if_neg (by simp [hhash]), hread]

theorem encodePayload_lower (p : NetworkPrefix) (isP2sh : Bool) (size : Nat) (hash : Bytes) :
    ∀ c ∈ encodePayload p isP2sh size hash, c ≠ 58 ∧ ¬(65 ≤ c ∧ c ≤ 90) := by
  intro c hc
  obtain ⟨d, hd, rfl⟩ := List.mem_map.mp hc
  have hlt : d.toNat < 32 := completedSymbols_lt p.chars (versionByte isP2sh size) hash d hd
  exact ⟨(charsetChar_lower hlt).1, (charsetChar_lower hlt).2.1⟩

/-- A string spells a payload when it has one case and its lower-case form is
the payload, with or without the prefix. -/
theorem spells_iff (p : NetworkPrefix) (s payload : Bytes)
    (hpayload : ∀ c ∈ payload, ¬(65 ≤ c ∧ c ≤ 90)) :
    Spells s p payload ↔
      caseIsConsistent s ∧
        (s.map tolower = p.chars ++ 58 :: payload ∨ s.map tolower = payload) := by
  have hfull : ∀ c ∈ p.chars ++ 58 :: payload, ¬(65 ≤ c ∧ c ≤ 90) := by
    intro c hc
    rcases List.mem_append.mp hc with hc | hc
    · exact p.not_upper c hc
    · rcases List.mem_cons.mp hc with rfl | hc
      · decide
      · exact hpayload c hc
  rw [and_or_left, caseIsConsistent_and_lower_iff hfull, caseIsConsistent_and_lower_iff hpayload,
    or_assoc, Spells]

theorem cashaddrDecodeChecked_eq_some_stages (s expectedPrefix : Bytes) (r : Bool × Bytes) :
    cashaddrDecodeChecked s expectedPrefix = some r ↔
      caseIsConsistent s ∧ ∃ payload, findPayload s expectedPrefix = some payload ∧
        decodePayload expectedPrefix payload = some r := by
  rw [cashaddrDecodeChecked]
  split_ifs with hcase
  · simp only [Option.bind_eq_bind, Option.bind_eq_some_iff, hcase, true_and]
  · simp [hcase]

/-- **What `cashaddr_decode_checked` accepts**: the four spellings of the
addresses of a 20-byte hash, the size bits of the version byte being anything. -/
theorem cashaddrDecodeChecked_eq_some_iff (p : NetworkPrefix) (s : Bytes) (isP2sh : Bool)
    (hash : Bytes) :
    cashaddrDecodeChecked s p.chars = some (isP2sh, hash) ↔
      hash.length = 20 ∧ ∃ size < 8, Spells s p (encodePayload p isP2sh size hash) := by
  have hspell := fun size =>
    spells_iff p s _ fun c hc => (encodePayload_lower p isP2sh size hash c hc).2
  rw [cashaddrDecodeChecked_eq_some_stages]
  simp only [decodePayload_eq_some_iff, hspell]
  constructor
  · rintro ⟨hcase, payload, hfind, hhash, size, hsize, hlower⟩
    refine ⟨hhash, size, hsize, hcase, ?_⟩
    rcases (findPayload_eq_some_iff p s payload).mp hfind with ⟨-, hs⟩ | ⟨pre, hpre, hs⟩
    · right
      rw [← hs, hlower]
    · left
      rw [hs, List.map_append, List.map_cons, hpre, hlower]
      rfl
  · rintro ⟨hhash, size, hsize, hcase, hfull | hbare⟩
    · obtain ⟨pre, rest, rfl, hpre, hrest⟩ := List.map_eq_append_iff.mp hfull
      obtain ⟨c, payload, rfl, hc, hpayload⟩ := List.map_eq_cons_iff.mp hrest
      rw [tolower_eq_colon_iff] at hc
      subst hc
      exact ⟨hcase, payload, (findPayload_eq_some_iff p _ payload).mpr (Or.inr ⟨pre, hpre, rfl⟩),
        hhash, size, hsize, hpayload⟩
    · have hno : 58 ∉ s := by
        intro h
        have hmem : tolower 58 ∈ encodePayload p isP2sh size hash := by
          rw [← hbare]
          exact List.mem_map_of_mem h
        exact (encodePayload_lower p isP2sh size hash _ hmem).1 rfl
      exact ⟨hcase, s, (findPayload_eq_some_iff p s s).mpr (Or.inl ⟨hno, rfl⟩),
        hhash, size, hsize, hbare⟩

/-! ### Exactness -/

/-- The characters of a payload determine its data symbols. -/
theorem payloadSymbols_of_map_eq {pre : Bytes} {v v' : UInt8} {hash hash' : Bytes}
    (h : (payloadSymbols v hash ++ checksumSymbols pre (payloadSymbols v hash)).map charsetChar =
      (payloadSymbols v' hash' ++ checksumSymbols pre (payloadSymbols v' hash')).map charsetChar) :
    payloadSymbols v hash = payloadSymbols v' hash' := by
  have happ := map_charsetChar_injOn (completedSymbols_lt pre v hash)
    (completedSymbols_lt pre v' hash') h
  have hlen : (payloadSymbols v hash).length = (payloadSymbols v' hash').length := by
    rw [length_payloadSymbols, length_payloadSymbols]
  exact (List.append_inj happ hlen).1

theorem payloadSymbols_inj {v v' : UInt8} {hash hash' : Bytes} (hhash : hash.length = 20)
    (hhash' : hash'.length = 20) (h : payloadSymbols v hash = payloadSymbols v' hash') :
    v = v' ∧ hash = hash' := by
  have hnum := congrArg (numeral 32) h
  rw [numeral_payloadSymbols _ hhash, numeral_payloadSymbols _ hhash'] at hnum
  have hcons := numeral_injOn (b := 256) (by decide) (fun d _ => d.toNat_lt)
    (fun d _ => d.toNat_lt) (by rw [List.length_cons, List.length_cons, hhash, hhash'])
    (Nat.eq_of_mul_eq_mul_right (by decide) hnum)
  rwa [List.cons.injEq] at hcons

theorem versionByte_inj {t t' : Bool} {size size' : Nat} (hsize : size < 8) (hsize' : size' < 8)
    (h : versionByte t size = versionByte t' size') : t = t' ∧ size = size' := by
  have hbyte := congrArg UInt8.toNat h
  rw [(versionByte_fields t size hsize).2.2, (versionByte_fields t' size' hsize').2.2] at hbyte
  cases t <;> cases t' <;> simp at hbyte ⊢ <;> omega

/-- The payload determines type, size bits and hash. -/
theorem encodePayload_inj {p : NetworkPrefix} {t t' : Bool} {size size' : Nat} {hash hash' : Bytes}
    (hsize : size < 8) (hsize' : size' < 8) (hhash : hash.length = 20) (hhash' : hash'.length = 20)
    (h : encodePayload p t size hash = encodePayload p t' size' hash') :
    t = t' ∧ size = size' ∧ hash = hash' := by
  have hdata : payloadSymbols (versionByte t size) hash = payloadSymbols (versionByte t' size') hash' :=
    @payloadSymbols_of_map_eq p.chars _ _ _ _ h
  obtain ⟨hversion, hhashes⟩ := payloadSymbols_inj hhash hhash' hdata
  obtain ⟨ht, hs⟩ := versionByte_inj hsize hsize' hversion
  exact ⟨ht, hs, hhashes⟩

/-- A string spells one payload at most. -/
theorem Spells.unique {p : NetworkPrefix} {s x y : Bytes} (hx : ∀ c ∈ x, c ≠ 58 ∧ ¬(65 ≤ c ∧ c ≤ 90))
    (hy : ∀ c ∈ y, c ≠ 58 ∧ ¬(65 ≤ c ∧ c ≤ 90)) (h : Spells s p x) (h' : Spells s p y) : x = y := by
  obtain ⟨-, h⟩ := (spells_iff p s x fun c hc => (hx c hc).2).mp h
  obtain ⟨-, h'⟩ := (spells_iff p s y fun c hc => (hy c hc).2).mp h'
  have hcolon : ∀ z : Bytes, (∀ c ∈ z, c ≠ 58 ∧ ¬(65 ≤ c ∧ c ≤ 90)) →
      ∀ w : Bytes, p.chars ++ 58 :: w ≠ z := by
    rintro z hz w rfl
    exact (hz 58 (by simp)).1 rfl
  rcases h with h | h <;> rcases h' with h' | h'
  · simpa using h.symm.trans h'
  · exact absurd (h.symm.trans h') (hcolon y hy x)
  · exact absurd (h'.symm.trans h) (hcolon x hx y)
  · exact h.symm.trans h'

/-- The decoder is right on a string: it accepts the string exactly as the
address of a 20-byte hash (size bits zero), and returns its type and hash. -/
def DecodesExactly (p : NetworkPrefix) (s : Bytes) : Prop :=
  ∀ (isP2sh : Bool) (hash : Bytes),
    cashaddrDecodeChecked s p.chars = some (isP2sh, hash) ↔
      hash.length = 20 ∧ Spells s p (encodePayload p isP2sh 0 hash)

/-- The string is an otherwise well-formed address whose version byte has a
size bit set. -/
def HasSizeBits (p : NetworkPrefix) (s : Bytes) : Prop :=
  ∃ (isP2sh : Bool) (size : Nat) (hash : Bytes), 0 < size ∧ size < 8 ∧ hash.length = 20 ∧
    Spells s p (encodePayload p isP2sh size hash)

/-- **Exactly when the decoder is exact.**  It is right on a string if and only
if the string is not an address with size bits set; and two such strings
accepted for the same script spell the same payload. -/
theorem decodes_exactly_iff (p : NetworkPrefix) :
    (∀ s, DecodesExactly p s ↔ ¬HasSizeBits p s) ∧
      ∀ s s' r, ¬HasSizeBits p s → ¬HasSizeBits p s' →
        cashaddrDecodeChecked s p.chars = some r → cashaddrDecodeChecked s' p.chars = some r →
          ∃ payload, Spells s p payload ∧ Spells s' p payload := by
  have hzero : ∀ s, ¬HasSizeBits p s → DecodesExactly p s := by
    intro s hs isP2sh hash
    rw [cashaddrDecodeChecked_eq_some_iff]
    constructor
    · rintro ⟨hhash, size, hsize, hspell⟩
      rcases Nat.eq_zero_or_pos size with rfl | hpos
      · exact ⟨hhash, hspell⟩
      · exact absurd ⟨isP2sh, size, hash, hpos, hsize, hhash, hspell⟩ hs
    · rintro ⟨hhash, hspell⟩
      exact ⟨hhash, 0, by omega, hspell⟩
  refine ⟨fun s => ⟨?_, hzero s⟩, ?_⟩
  · rintro hexact ⟨isP2sh, size, hash, hpos, hsize, hhash, hspell⟩
    have haccept := (cashaddrDecodeChecked_eq_some_iff p s isP2sh hash).mpr
      ⟨hhash, size, hsize, hspell⟩
    obtain ⟨-, hspell0⟩ := (hexact isP2sh hash).mp haccept
    have heq := hspell.unique (encodePayload_lower _ _ _ _) (encodePayload_lower _ _ _ _) hspell0
    have := (encodePayload_inj hsize (by omega) hhash hhash heq).2.1
    omega
  · rintro s s' ⟨isP2sh, hash⟩ hs hs' hr hr'
    exact ⟨_, ((hzero s hs isP2sh hash).mp hr).2, ((hzero s' hs' isP2sh hash).mp hr').2⟩

/-- The mainnet prefix, "bitcoincash". -/
def bitcoincash : NetworkPrefix where
  chars := [98, 105, 116, 99, 111, 105, 110, 99, 97, 115, 104]
  lower := by decide +kernel
  length_le := by decide

/-- "qyqqqqqqqqqqqqqqqqqqqqqqqqqqqqqqqqx2jnhvj3": version byte 1 and the zero
hash, correctly checksummed for mainnet. -/
def sizeBitAddress : Bytes :=
  [113, 121] ++ List.replicate 32 113 ++ [120, 50, 106, 110, 104, 118, 106, 51]

/-- The decoder takes `sizeBitAddress` for a P2PKH address of the zero hash,
which has another encoding. -/
theorem sizeBitAddress_not_exact : ¬DecodesExactly bitcoincash sizeBitAddress := by
  intro hexact
  have hspell : Spells sizeBitAddress bitcoincash
      (encodePayload bitcoincash false 1 (List.replicate 20 0)) :=
    Or.inr (Or.inr (Or.inl (by decide +kernel)))
  have haccept := (cashaddrDecodeChecked_eq_some_iff bitcoincash sizeBitAddress false
    (List.replicate 20 0)).mpr ⟨by decide, 1, by omega, hspell⟩
  have hzero := ((hexact false (List.replicate 20 0)).mp haccept).2
  have hno : ¬Spells sizeBitAddress bitcoincash
      (encodePayload bitcoincash false 0 (List.replicate 20 0)) := by
    rw [Spells]
    decide
  exact hno hzero

end CashStratum
