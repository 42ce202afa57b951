/-
CashStratum/LibCkpool.lean

The byte-order and text helpers of `libckpool.c` and `libckpool.h` that work
passes through on its way to a header: hex in and out, the 32-bit word flips,
and `ser_number`.  A C string is the list of its characters.

The flips are maps over four-byte words, so they distribute over concatenation
of word-aligned parts (`flipWords_append`) and undo themselves.
-/
import CashStratum.ByteString
import Mathlib.Data.Nat.Bitwise
import Mathlib.Tactic.IntervalCases

namespace CashStratum

/-! ### Hex -/

/-- An entry of `hex2bin_tbl`, `none` for -1. -/
@[grind =] def hexNibble (c : UInt8) : Option UInt8 :=
  if 48 ≤ c ∧ c ≤ 57 then some (c - 48)
  else if 65 ≤ c ∧ c ≤ 70 then some (c - 55)
  else if 97 ≤ c ∧ c ≤ 102 then some (c - 87)
  else none

/-- `hex2bin(p, hexstr, len)`: the bytes, when the string is exactly `len` pairs
of hex digits. -/
@[grind =] def hex2bin : Bytes → Nat → Option Bytes
  | [], 0 => some []
  | c1 :: c2 :: hexstr, len + 1 => do
      let nibble1 ← hexNibble c1
      let nibble2 ← hexNibble c2
      let rest ← hex2bin hexstr len
      some (((nibble1 <<< 4) ||| nibble2) :: rest)
  | _, _ => none

/-- The table `hex` of `__bin2hex`. -/
def hexDigit (n : UInt8) : UInt8 := if n < 10 then 48 + n else 87 + n

/-- `__bin2hex`. -/
@[grind =] def bin2hex : Bytes → Bytes
  | [] => []
  | b :: p => hexDigit (b >>> 4) :: hexDigit (b &&& 0xF) :: bin2hex p

/-- `%08x` of a 32-bit value. -/
def fmt08x (v : UInt32) : Bytes := bin2hex (beBytes 4 v.toNat)

@[simp] theorem length_bin2hex (p : Bytes) : (bin2hex p).length = 2 * p.length := by
  induction p with
  | nil => rfl
  | cons b p ih =>
    simp only [bin2hex, List.length_cons, ih]
    omega

set_option maxRecDepth 20000 in
theorem hexNibble_table : ∀ n < 256,
    hexNibble (hexDigit (UInt8.ofNat n >>> 4)) = some (UInt8.ofNat n >>> 4) ∧
      hexNibble (hexDigit (UInt8.ofNat n &&& 0xF)) = some (UInt8.ofNat n &&& 0xF) ∧
      ((UInt8.ofNat n >>> 4) <<< 4) ||| (UInt8.ofNat n &&& 0xF) = UInt8.ofNat n := by
  decide

/-- What is written in hex is read back. -/
theorem hex2bin_bin2hex (p : Bytes) : hex2bin (bin2hex p) p.length = some p := by
  induction p with
  | nil => rfl
  | cons b p ih =>
    have h := hexNibble_table b.toNat b.toNat_lt
    rw [UInt8.ofNat_toNat] at h
    simp only [bin2hex, List.length_cons, hex2bin, h.1, h.2.1, ih, Option.bind_eq_bind,
      Option.bind_some, h.2.2]

theorem bin2hex_append (p q : Bytes) : bin2hex (p ++ q) = bin2hex p ++ bin2hex q := by
  induction p with
  | nil => rfl
  | cons b p ih => simp only [List.cons_append, bin2hex, ih]

/-- A string of hex decodes piece by piece. -/
theorem hex2bin_append {s t x y : Bytes} {m n : Nat} (hs : hex2bin s m = some x)
    (ht : hex2bin t n = some y) : hex2bin (s ++ t) (m + n) = some (x ++ y) := by
  induction s, m using hex2bin.induct generalizing x with
  | case1 =>
    obtain rfl : [] = x := Option.some.inj hs
    simpa using ht
  | case2 c1 c2 s m ih =>
    simp only [hex2bin, Option.bind_eq_bind, Option.bind_eq_some_iff] at hs
    obtain ⟨n1, h1, n2, h2, rest, hrest, hx⟩ := hs
    obtain rfl := Option.some.inj hx
    have hm : m + 1 + n = (m + n) + 1 := by omega
    simp only [List.cons_append, hm, hex2bin, h1, h2, ih hrest, Option.bind_eq_bind,
      Option.bind_some]
  | case3 s m h1 h2 =>
    rw [hex2bin] at hs
    · cases hs
    · exact h1
    · exact h2

theorem hex2bin_length {s x : Bytes} {n : Nat} (h : hex2bin s n = some x) :
    x.length = n ∧ s.length = 2 * n := by
  induction s, n using hex2bin.induct generalizing x with
  | case1 =>
    obtain rfl : [] = x := Option.some.inj h
    simp
  | case2 c1 c2 s m ih =>
    simp only [hex2bin, Option.bind_eq_bind, Option.bind_eq_some_iff] at h
    obtain ⟨n1, -, n2, -, rest, hrest, hx⟩ := h
    obtain rfl := Option.some.inj hx
    obtain ⟨hl, hl'⟩ := ih hrest
    simp only [List.length_cons]
    omega
  | case3 s m h1 h2 =>
    rw [hex2bin] at h
    · cases h
    · exact h1
    · exact h2

theorem hex2bin_fmt08x (v : UInt32) : hex2bin (fmt08x v) 4 = some (beBytes 4 v.toNat) := by
  have h := hex2bin_bin2hex (beBytes 4 v.toNat)
  rwa [length_beBytes] at h

/-! ### Word flips -/

/-- Every four-byte word with its bytes reversed: `flip_32` on eight words,
`flip_80` on twenty. -/
@[grind =] def flipWords : Bytes → Bytes
  | a :: b :: c :: d :: p => d :: c :: b :: a :: flipWords p
  | _ => []

/-- `flip_32`. -/
def flip32 (src : Bytes) : Bytes := flipWords (src.take 32)

/-- `flip_80`. -/
def flip80 (src : Bytes) : Bytes := flipWords (src.take 80)

/-- The words of a buffer, last one first. -/
@[grind =] def reverseWords : Bytes → Bytes
  | a :: b :: c :: d :: p => reverseWords p ++ [a, b, c, d]
  | _ => []

/-- `swap_256`. -/
def swap256 (src : Bytes) : Bytes := reverseWords (src.take 32)

theorem word_length {p : Bytes} (h : p.length % 4 = 0) (a b c d : UInt8) :
    (a :: b :: c :: d :: p).length % 4 = 0 := by
  simp only [List.length_cons]
  omega

/-- Induction over the words of a word-aligned buffer. -/
theorem wordInduction {motive : (p : Bytes) → p.length % 4 = 0 → Prop} (nil : motive [] rfl)
    (word : ∀ (a b c d : UInt8) (p : Bytes) (h : p.length % 4 = 0), motive p h →
      motive (a :: b :: c :: d :: p) (word_length h a b c d))
    (p : Bytes) (h : p.length % 4 = 0) : motive p h := by
  induction p using flipWords.induct with
  | case1 a b c d p ih =>
    have hp : p.length % 4 = 0 := by
      simp only [List.length_cons] at h
      omega
    exact word a b c d p hp (ih hp)
  | case2 p hp =>
    rcases p with - | ⟨a, - | ⟨b, - | ⟨c, - | ⟨d, p⟩⟩⟩⟩
    · exact nil
    · simp at h
    · simp at h
    · simp at h
    · exact absurd rfl (hp a b c d p)

theorem flipWords_append (p q : Bytes) (h : p.length % 4 = 0) :
    flipWords (p ++ q) = flipWords p ++ flipWords q := by
  induction p, h using wordInduction with
  | nil => rfl
  | word a b c d p _ ih => simp only [List.cons_append, flipWords, ih]

theorem length_flipWords (p : Bytes) (h : p.length % 4 = 0) : (flipWords p).length = p.length := by
  induction p, h using wordInduction with
  | nil => rfl
  | word a b c d p _ ih => simp only [flipWords, List.length_cons, ih]

theorem flipWords_flipWords (p : Bytes) (h : p.length % 4 = 0) : flipWords (flipWords p) = p := by
  induction p, h using wordInduction with
  | nil => rfl
  | word a b c d p _ ih => simp only [flipWords, ih]

/-- One word is reversed. -/
theorem flipWords_word {p : Bytes} (h : p.length = 4) : flipWords p = p.reverse := by
  rcases p with - | ⟨a, - | ⟨b, - | ⟨c, - | ⟨d, p⟩⟩⟩⟩
  · simp at h
  · simp at h
  · simp at h
  · simp at h
  · obtain rfl : p = [] := by simpa using h
    rfl

theorem flip32_of_length {src : Bytes} (h : src.length = 32) : flip32 src = flipWords src := by
  rw [flip32, List.take_of_length_le h.le]

theorem flip80_of_length {src : Bytes} (h : src.length = 80) : flip80 src = flipWords src := by
  rw [flip80, List.take_of_length_le h.le]

theorem length_reverseWords (p : Bytes) (h : p.length % 4 = 0) :
    (reverseWords p).length = p.length := by
  induction p, h using wordInduction with
  | nil => rfl
  | word a b c d p _ ih =>
    simp only [reverseWords, List.length_append, List.length_cons, List.length_nil, ih]

/-- Reversing the words, then the bytes of each, reverses the buffer. -/
theorem flipWords_reverseWords (p : Bytes) (h : p.length % 4 = 0) :
    flipWords (reverseWords p) = p.reverse := by
  induction p, h using wordInduction with
  | nil => rfl
  | word a b c d p hp ih =>
    rw [reverseWords, flipWords_append _ _ (by rw [length_reverseWords p hp]; exact hp), ih]
    simp [flipWords]

/-! ### Numbers in a scriptSig -/

/-- `ser_number`: a length byte, then so many little-endian bytes of an
`int32_t`. -/
def serNumber (val : Int) : Bytes :=
  let len := if val < 0x80 then 1 else if val < 0x8000 then 2 else if val < 0x800000 then 3 else 4
  UInt8.ofNat len :: (leBytes 4 (val % 2 ^ 32).toNat).take len

/-- The push of a byte string of at most 75 bytes. -/
def pushData (data : Bytes) : Bytes := UInt8.ofNat data.length :: data

/-- `push` is the shortest push of the positive number `n`: the fewest bytes
that leave the sign bit clear. -/
def IsMinimalPush (push : Bytes) (n : Nat) : Prop :=
  ∃ k, push = pushData (leBytes k n) ∧ n < 2 ^ (8 * k - 1) ∧
    ∀ j, 0 < j → j < k → 2 ^ (8 * j - 1) ≤ n

theorem take_leBytes {k w : Nat} (h : k ≤ w) (n : Nat) : (leBytes w n).take k = leBytes k n := by
  induction k generalizing w n with
  | zero => simp [leBytes]
  | succ k ih =>
    obtain ⟨w, rfl⟩ : ∃ w', w = w' + 1 := ⟨w - 1, by omega⟩
    rw [leBytes, leBytes, List.take_succ_cons, ih (by omega)]

/-- The bytes `ser_number` counts. -/
def serNumberLen (val : Int) : Nat :=
  if val < 0x80 then 1 else if val < 0x8000 then 2 else if val < 0x800000 then 3 else 4

theorem serNumberLen_pos (val : Int) : 1 ≤ serNumberLen val ∧ serNumberLen val ≤ 4 := by
  unfold serNumberLen
  split_ifs <;> omega

/-- `ser_number` writes one push. -/
theorem serNumber_eq_pushData (val : Int) :
    serNumber val = pushData (leBytes (serNumberLen val) (val % 2 ^ 32).toNat) := by
  have h := serNumberLen_pos val
  have htake := take_leBytes h.2 (val % 2 ^ 32).toNat
  rw [pushData, length_leBytes, ← htake]
  rfl

theorem length_serNumber (val : Int) : (serNumber val).length = 1 + serNumberLen val := by
  rw [serNumber_eq_pushData, pushData, List.length_cons, length_leBytes, Nat.add_comm]

/-- For a non-negative `int32_t` it is the shortest push. -/
theorem serNumber_isMinimalPush (n : Nat) (h : n < 2 ^ 31) : IsMinimalPush (serNumber n) n := by
  have hmod : ((n : Int) % 2 ^ 32).toNat = n := by omega
  refine ⟨serNumberLen n, ?_, ?_, ?_⟩
  · rw [serNumber_eq_pushData, hmod]
  · unfold serNumberLen
    split_ifs <;> omega
  · intro j hj hjk
    have hj4 : j < 4 := hjk.trans_le (serNumberLen_pos n).2
    unfold serNumberLen at hjk
    interval_cases j <;> split_ifs at hjk <;> omega

end CashStratum
