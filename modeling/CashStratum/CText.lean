/-
CashStratum/CText.lean

Texts as the C library reads and writes them: `strstr` and `strrchr`, which give the rest of the
text from where they have found something, integers in `%d`, and `strcasecmp` with what it makes
of the end of a text.  Hex digits are read as the number of their bytes (`hexNatFrom_eq`).

A needle none of whose bytes are in a text is found in what is before it or not at all
(`strstrFrom_append_of_not_mem`); a byte is found in what is before it first
(`strstrFrom_append_cons`).  A text of at most five bytes is that of a number which fits 32 bits
(`toInt32_of_length`), and a field that is cut at five bytes and at a slash reads what it begins
with (`takeWhile_take_eq_iff`).
-/
import CashStratum.CashAddr
import CashStratum.LibCkpool
import Mathlib.Data.Nat.Digits.Defs

namespace CashStratum

/-! ### Search -/

/-- `strstr` -/
@[grind =] def strstrFrom (needle : Bytes) : Bytes → Option Bytes
  | [] => if needle = [] then some [] else none
  | c :: text => if needle <+: c :: text then some (c :: text) else strstrFrom needle text

/-- `strrchr` -/
@[grind =] def strrchr (c : UInt8) : Bytes → Option Bytes
  | [] => none
  | d :: text =>
    match strrchr c text with
    | some found => some found
    | none => if d = c then some (d :: text) else none

/-- What begins in one text and ends in the next has a byte of the next. -/
theorem prefix_append_iff {needle r : Bytes} (h : ∀ c ∈ needle, c ∉ r) (l : Bytes) :
    needle <+: l ++ r ↔ needle <+: l := by
  constructor
  · intro hpre
    obtain hl | ⟨t, ht⟩ := List.prefix_or_prefix_of_prefix hpre (List.prefix_append l r)
    · exact hl
    · cases t with
      | nil =>
        rw [List.append_nil] at ht
        exact ht ▸ List.prefix_rfl
      | cons c t =>
        have hc : c ∈ needle := by
          rw [← ht]
          exact List.mem_append_right l List.mem_cons_self
        have hr : c :: t <+: r := by
          rw [← ht, List.prefix_append_right_inj] at hpre
          exact hpre
        exact absurd (hr.subset List.mem_cons_self) (h c hc)
  · exact fun hpre => hpre.trans (List.prefix_append l r)

theorem strstrFrom_eq_none {needle r : Bytes} (hne : needle ≠ []) (h : ∀ c ∈ needle, c ∉ r) :
    strstrFrom needle r = none := by
  induction r with
  | nil => rw [strstrFrom, if_neg hne]
  | cons c r ih =>
    have hpre : ¬ needle <+: c :: r := by
      intro hpre
      cases needle with
      | nil => exact hne rfl
      | cons d needle =>
        exact h d List.mem_cons_self (hpre.subset List.mem_cons_self)
    rw [strstrFrom, if_neg hpre]
    exact ih fun d hd hmem => h d hd (List.mem_cons_of_mem c hmem)

/-- **Nothing is found across the seam.** -/
theorem strstrFrom_append_of_not_mem {needle r : Bytes} (hne : needle ≠ [])
    (h : ∀ c ∈ needle, c ∉ r) (l : Bytes) :
    strstrFrom needle (l ++ r) = (strstrFrom needle l).map (· ++ r) := by
  induction l with
  | nil => rw [List.nil_append, strstrFrom_eq_none hne h, strstrFrom, if_neg hne, Option.map_none]
  | cons c l ih =>
    have hseam : needle <+: c :: (l ++ r) ↔ needle <+: c :: l := prefix_append_iff h (c :: l)
    rw [List.cons_append, strstrFrom, strstrFrom]
    by_cases hpre : needle <+: c :: l
    · rw [if_pos hpre, if_pos (hseam.mpr hpre)]
      rfl
    · rw [if_neg hpre, if_neg (mt hseam.mp hpre)]
      exact ih

/-- **The first of two.** -/
theorem strstrFrom_append_cons (c : UInt8) (l r : Bytes) :
    strstrFrom [c] (l ++ c :: r) = some ((strstrFrom [c] l).getD [] ++ c :: r) := by
  induction l with
  | nil => simp [strstrFrom]
  | cons d l ih =>
    rw [List.cons_append, strstrFrom, strstrFrom]
    by_cases hd : c = d
    · simp [hd]
    · simp [hd, ih]

theorem strstrFrom_prefix {needle text found : Bytes} (h : strstrFrom needle text = some found) :
    needle <+: found := by
  induction text with
  | nil =>
    rw [strstrFrom] at h
    split at h
    · next hnil =>
      rw [hnil]
      exact List.nil_prefix
    · cases h
  | cons c text ih =>
    rw [strstrFrom] at h
    split at h
    · next hpre =>
      cases h
      exact hpre
    · exact ih h

theorem strrchr_append_cons {c : UInt8} {r : Bytes} (h : c ∉ r) (l : Bytes) :
    strrchr c (l ++ c :: r) = some (c :: r) := by
  have hnone : strrchr c r = none := by
    induction r with
    | nil => rfl
    | cons d r ih =>
      rw [List.mem_cons, not_or] at h
      rw [strrchr, ih h.2]
      exact if_neg (Ne.symm h.1)
  induction l with
  | nil => rw [List.nil_append, strrchr, hnone]; exact if_pos rfl
  | cons d l ih => rw [List.cons_append, strrchr, ih]

theorem strrchr_eq_none {c : UInt8} {l : Bytes} (h : c ∉ l) : strrchr c l = none := by
  induction l with
  | nil => rfl
  | cons d l ih =>
    rw [List.mem_cons, not_or] at h
    rw [strrchr, ih h.2]
    exact if_neg (Ne.symm h.1)

/-! ### Integers -/

/-- What is left of an integer in an `int`. -/
def toInt32 (v : Int) : Int := v.bmod (2 ^ 32)

/-- The digits of a number. -/
@[grind =] def formatNat (n : Nat) : Bytes :=
  if n = 0 then [48] else (Nat.digits 10 n).reverse.map fun d => UInt8.ofNat (48 + d)

/-- `%d` -/
def formatInt (v : Int) : Bytes := if v < 0 then 45 :: formatNat v.natAbs else formatNat v.natAbs

/-- What follows the white space. -/
def skipSpace (text : Bytes) : Bytes := text.dropWhile fun c => c = 32 ∨ 9 ≤ c ∧ c ≤ 13

/-- The value of the digits that a text begins with, if it begins with one. -/
def scanNat (text : Bytes) : Option Nat :=
  match text.takeWhile fun c => 48 ≤ c ∧ c ≤ 57 with
  | [] => none
  | digits => some (digits.foldl (fun n c => 10 * n + (c.toNat - 48)) 0)

/-- The integer that `sscanf` finds for `%d`, before it is stored. -/
def scanInt (text : Bytes) : Option Int :=
  match skipSpace text with
  | 45 :: rest => (scanNat rest).map fun n => -(n : Int)
  | 43 :: rest => (scanNat rest).map Int.ofNat
  | rest => (scanNat rest).map Int.ofNat

/-- `strtol` ends at the bounds of a `long`. -/
def clampLong (v : Int) : Int := max (-2 ^ 63) (min v (2 ^ 63 - 1))

theorem formatNat_digit {n : Nat} {c : UInt8} (h : c ∈ formatNat n) : 48 ≤ c ∧ c ≤ 57 := by
  unfold formatNat at h
  split at h
  · rw [List.mem_singleton] at h
    subst h
    decide
  · obtain ⟨d, hd, rfl⟩ := List.mem_map.mp h
    have hlt : d < 10 := Nat.digits_lt_base (by decide) (List.mem_reverse.mp hd)
    interval_cases d <;> decide

/-- The text of an integer has no other bytes than digits and the sign. -/
theorem formatInt_digit {v : Int} {c : UInt8} (h : c ∈ formatInt v) :
    c = 45 ∨ 48 ≤ c ∧ c ≤ 57 := by
  unfold formatInt at h
  split at h
  · exact (List.mem_cons.mp h).imp id formatNat_digit
  · exact Or.inr (formatNat_digit h)

theorem not_mem_formatInt {v : Int} {c : UInt8} (hsign : c ≠ 45) (hdigit : ¬ (48 ≤ c ∧ c ≤ 57)) :
    c ∉ formatInt v := by
  intro hmem
  exact (formatInt_digit hmem).elim hsign hdigit

theorem formatNat_ne_nil (n : Nat) : formatNat n ≠ [] := by
  unfold formatNat
  split
  · exact List.cons_ne_nil _ _
  · next hn =>
    simpa [Nat.digits_ne_nil_iff_ne_zero] using hn

theorem formatInt_ne_nil (v : Int) : formatInt v ≠ [] := by
  unfold formatInt
  split
  · exact List.cons_ne_nil _ _
  · exact formatNat_ne_nil _

/-- The digits of a number have its value. -/
theorem foldl_formatNat (n : Nat) :
    (formatNat n).foldl (fun n c => 10 * n + (c.toNat - 48)) 0 = n := by
  unfold formatNat
  split
  · next hn =>
    rw [hn]
    rfl
  · have hdigit : ∀ d ∈ Nat.digits 10 n, (UInt8.ofNat (48 + d)).toNat - 48 = d := by
      intro d hd
      have hlt : d < 10 := Nat.digits_lt_base (by decide) hd
      rw [UInt8.toNat_ofNat_of_lt' (by simp [UInt8.size]; omega)]
      omega
    rw [List.foldl_map, List.foldl_reverse]
    conv_rhs => rw [← Nat.ofDigits_digits 10 n, Nat.ofDigits_eq_foldr]
    refine List.foldr_ext _ _ _ fun d hd v => ?_
    rw [hdigit d hd]
    exact Nat.add_comm _ _

theorem scanNat_formatNat (n : Nat) : scanNat (formatNat n) = some n := by
  have hall : (formatNat n).takeWhile (fun c => 48 ≤ c ∧ c ≤ 57) = formatNat n := by
    rw [List.takeWhile_eq_self_iff]
    intro c hc
    exact decide_eq_true (formatNat_digit hc)
  have hvalue := foldl_formatNat n
  rw [scanNat, hall]
  cases hdigits : formatNat n with
  | nil => exact absurd hdigits (formatNat_ne_nil n)
  | cons c rest =>
    rw [hdigits] at hvalue
    exact congrArg some hvalue

theorem lt_of_length_formatNat {n k : Nat} (h : (formatNat n).length ≤ k) : n < 10 ^ k := by
  unfold formatNat at h
  split at h
  · next hn =>
    rw [hn]
    exact Nat.pow_pos (by decide)
  · rw [List.length_map, List.length_reverse] at h
    exact (Nat.lt_base_pow_length_digits (by decide)).trans_le
      (Nat.pow_le_pow_right (by decide) h)

/-- **A short text is that of an integer which is stored as it is.** -/
theorem toInt32_of_length {v : Int} (h : (formatInt v).length ≤ 5) :
    toInt32 v = v ∧ clampLong v = v := by
  have hlen : (formatNat v.natAbs).length ≤ 5 := by
    unfold formatInt at h
    split at h
    · exact (Nat.le_succ _).trans h
    · exact h
  have hlt : v.natAbs < 10 ^ 5 := lt_of_length_formatNat hlen
  have hbound : v < 100000 ∧ -100000 < v := by
    have hpow : (10 : Nat) ^ 5 = 100000 := by decide
    omega
  constructor
  · unfold toInt32
    rw [Int.bmod_eq_of_le] <;> omega
  · unfold clampLong
    omega

/-! ### Fields -/

/-- A field that is cut at `n` bytes and at a slash, when something else follows it. -/
theorem takeWhile_take_eq_iff {p : Bytes} (hslash : 47 ∉ p) (hcolon : 58 ∉ p) (field f : Bytes)
    (n : Nat) : ((field ++ 58 :: f).take n).takeWhile (· ≠ 47) = p ↔
      (p.length = n ∧ p <+: field) ∨ (p.length < n ∧ p ++ [47] <+: field) := by
  induction p generalizing field n with
  | nil =>
    cases n with
    | zero => simp
    | succ n =>
      cases field with
      | nil => simp
      | cons c field =>
        by_cases hc : c = 47
        · simp [hc]
        · simp [hc, Ne.symm hc]
  | cons a p ih =>
    rw [List.mem_cons, not_or] at hslash hcolon
    cases n with
    | zero => simp
    | succ n =>
      cases field with
      | nil =>
        simp only [List.nil_append, List.take_succ_cons, List.cons_append, List.prefix_nil,
          List.cons_ne_nil, and_false, or_false, iff_false]
        rw [List.takeWhile_cons_of_pos (by decide)]
        intro heq
        exact hcolon.1 (List.cons.inj heq).1
      | cons c field =>
        rw [List.cons_append, List.take_succ_cons]
        by_cases hc : c = 47
        · have hne : a ≠ 47 := Ne.symm hslash.1
          simp [hc, hne]
        · rw [List.takeWhile_cons_of_pos (by simpa using hc), List.cons_append,
            List.cons_prefix_cons, List.cons_prefix_cons, List.cons_eq_cons,
            ih hslash.2 hcolon.2]
          simp only [List.length_cons, Nat.add_right_cancel_iff, Nat.add_lt_add_iff_right]
          constructor
          · rintro ⟨rfl, h | h⟩
            · exact Or.inl ⟨h.1, rfl, h.2⟩
            · exact Or.inr ⟨h.1, rfl, h.2⟩
          · rintro (⟨h, rfl, h'⟩ | ⟨h, rfl, h'⟩)
            · exact ⟨rfl, Or.inl ⟨h, h'⟩⟩
            · exact ⟨rfl, Or.inr ⟨h, h'⟩⟩

/-! ### Hex -/

/-- The number that the hex digits at the start of a text spell, behind `acc`. -/
def hexNatFrom (acc : Nat) : Bytes → Nat
  | [] => acc
  | c :: text =>
    match hexNibble c with
    | some digit => hexNatFrom (acc * 16 + digit.toNat) text
    | none => acc

/-- `strtoul` to the base 16, and `sscanf` with `%x`, of a text that starts with a digit, in 32
bits. -/
def strtoulHex (text : Bytes) : UInt32 := UInt32.ofNat (min (hexNatFrom 0 text) (2 ^ 64 - 1))

theorem leNat_append (a b : Bytes) : leNat (a ++ b) = leNat a + 256 ^ a.length * leNat b := by
  induction a with
  | nil => simp [leNat]
  | cons c a ih =>
    rw [List.cons_append, leNat, ih, leNat, List.length_cons, pow_succ]
    ring

theorem beNat_cons (b : UInt8) (bs : Bytes) :
    beNat (b :: bs) = b.toNat * 256 ^ bs.length + beNat bs := by
  simp only [beNat, List.reverse_cons, leNat_append, leNat, List.length_reverse]
  ring

set_option maxRecDepth 20000 in
theorem hexNibble_lt {c n : UInt8} (h : hexNibble c = some n) : n.toNat < 16 := by
  exact forall_byte_some (P := fun _ n => n.toNat < 16) (by decide) h

/-- Two digits, as they are put together. -/
theorem toNat_nibbles {m n : UInt8} (hm : m.toNat < 16) (hn : n.toNat < 16) :
    (m <<< 4 ||| n).toNat = m.toNat * 16 + n.toNat := by
  have hall : ∀ m < 16, ∀ n < 16,
      (UInt8.ofNat m <<< 4 ||| UInt8.ofNat n).toNat = m * 16 + n := by decide
  have h := hall m.toNat hm n.toNat hn
  rwa [UInt8.ofNat_toNat, UInt8.ofNat_toNat] at h

/-- Hex digits spell the number of their bytes. -/
theorem hexNatFrom_eq {s x : Bytes} {n : Nat} (h : hex2bin s n = some x) (acc : Nat) :
    hexNatFrom acc s = acc * 256 ^ n + beNat x := by
  induction s, n using hex2bin.induct generalizing x acc with
  | case1 =>
    obtain rfl : [] = x := Option.some.inj h
    simp [hexNatFrom, beNat, leNat]
  | case2 c1 c2 s m ih =>
    simp only [hex2bin, Option.bind_eq_bind, Option.bind_eq_some_iff] at h
    obtain ⟨n1, h1, n2, h2, rest, hrest, hx⟩ := h
    obtain rfl := Option.some.inj hx
    have hbyte := toNat_nibbles (hexNibble_lt h1) (hexNibble_lt h2)
    simp only [hexNatFrom, h1, h2]
    rw [ih hrest, beNat_cons, hbyte, (hex2bin_length hrest).1, pow_succ]
    ring
  | case3 s m h1 h2 =>
    rw [hex2bin] at h
    · cases h
    · exact h1
    · exact h2

/-- Eight digits are a 32-bit number. -/
theorem strtoulHex_eq {s : Bytes} {v : UInt32} (h : hex2bin s 4 = some (beBytes 4 v.toNat)) :
    strtoulHex s = v := by
  have hv : v.toNat < 256 ^ 4 := v.toNat_lt
  have hnat : hexNatFrom 0 s = v.toNat := by
    rw [hexNatFrom_eq h, beNat_beBytes, Nat.mod_eq_of_lt hv]
    omega
  have hmin : min (hexNatFrom 0 s) (2 ^ 64 - 1) = v.toNat := by
    rw [hnat]
    omega
  rw [strtoulHex, hmin, UInt32.ofNat_toNat]

@[simp] theorem strtoulHex_fmt08x (v : UInt32) : strtoulHex (fmt08x v) = v :=
  strtoulHex_eq (hex2bin_fmt08x v)

/-! ### Case -/

/-- `!strcasecmp(s, t)` -/
def strcasecmp (s t : Bytes) : Bool := s.map tolower = t.map tolower

end CashStratum
