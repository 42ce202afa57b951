/-
CashStratum/Numeral.lean

Positional numerals, most significant digit first, with digits kept in octets:
`numeral b ds` is the value of the digits `ds` in base `b`, and `digits b w n`
are the low `w` digits of `n`.  On digit strings of a fixed width the two are
inverse, so regrouping a string from one base to another is arithmetic on the
value; on digit strings of any width the value fixes the digits from the first
nonzero one on (`significant_eq_of_numeral_eq`).

A digit array that grows has its least significant digit first.  Multiplying it and
adding a carry (`mulAddDigits`) does so to its value, and puts no zero on top.
-/
import CashStratum.ByteString
import Mathlib.Data.List.Induction
import Mathlib.Data.List.TakeWhile
import Mathlib.Tactic.Linarith

namespace CashStratum

/-- The value of a digit string in base `b`. -/
@[grind =] def numeral (b : Nat) (ds : Bytes) : Nat := ds.foldl (fun n d => n * b + d.toNat) 0

/-- The low `w` digits of `n` in base `b`. -/
@[grind =] def digits (b : Nat) : Nat → Nat → Bytes
  | 0, _ => []
  | w + 1, n => digits b w (n / b) ++ [UInt8.ofNat (n % b)]

variable {b : Nat}

@[simp] theorem numeral_nil : numeral b [] = 0 := rfl

theorem numeral_append_singleton (ds : Bytes) (d : UInt8) :
    numeral b (ds ++ [d]) = numeral b ds * b + d.toNat := by
  simp [numeral]

@[simp] theorem length_digits (w n : Nat) : (digits b w n).length = w := by
  induction w generalizing n with
  | zero => rfl
  | succ w ih => simp [digits, ih]

theorem digits_lt (hb : b ≤ 256) (hpos : 0 < b) (w n : Nat) :
    ∀ d ∈ digits b w n, d.toNat < b := by
  induction w generalizing n with
  | zero => simp [digits]
  | succ w ih =>
    intro d hd
    rw [digits, List.mem_append, List.mem_singleton] at hd
    rcases hd with hd | rfl
    · exact ih (n / b) d hd
    · have hlt := Nat.mod_lt n hpos
      rw [UInt8.toNat_ofNat']
      omega

theorem numeral_lt (ds : Bytes) (h : ∀ d ∈ ds, d.toNat < b) : numeral b ds < b ^ ds.length := by
  induction ds using List.reverseRecOn with
  | nil => simp
  | append_singleton ds d ih =>
    have hd : d.toNat < b := h d (by simp)
    have hds := ih fun e he => h e (by simp [he])
    rw [numeral_append_singleton, List.length_append, List.length_singleton, pow_succ]
    nlinarith

/-- Reading the digits of a number gives it back, up to what the width cuts
off. -/
theorem numeral_digits (hb : b ≤ 256) (hpos : 0 < b) (w n : Nat) :
    numeral b (digits b w n) = n % b ^ w := by
  induction w generalizing n with
  | zero => simp [digits, Nat.mod_one]
  | succ w ih =>
    have hd : (UInt8.ofNat (n % b)).toNat = n % b := by
      have hlt := Nat.mod_lt n hpos
      rw [UInt8.toNat_ofNat']
      omega
    rw [digits, numeral_append_singleton, ih, hd, pow_succ, Nat.mul_comm (b ^ w) b, Nat.mod_mul]
    ring

/-- A digit string is the digits of its value. -/
theorem digits_numeral (hpos : 0 < b) (ds : Bytes) (h : ∀ d ∈ ds, d.toNat < b) :
    digits b ds.length (numeral b ds) = ds := by
  induction ds using List.reverseRecOn with
  | nil => rfl
  | append_singleton ds d ih =>
    have hd : d.toNat < b := h d (by simp)
    have hdiv : (numeral b ds * b + d.toNat) / b = numeral b ds := by
      rw [Nat.add_comm, Nat.add_mul_div_right _ _ hpos, Nat.div_eq_of_lt hd, Nat.zero_add]
    have hmod : (numeral b ds * b + d.toNat) % b = d.toNat := by
      rw [Nat.add_comm, Nat.add_mul_mod_self_right, Nat.mod_eq_of_lt hd]
    have hbyte : UInt8.ofNat d.toNat = d := by simp
    rw [List.length_append, List.length_singleton, numeral_append_singleton, digits, hdiv, hmod,
      hbyte, ih fun e he => h e (by simp [he])]

/-- Two digit strings of one length and value are the same string. -/
theorem numeral_injOn (hpos : 0 < b) {xs ys : Bytes} (hx : ∀ d ∈ xs, d.toNat < b)
    (hy : ∀ d ∈ ys, d.toNat < b) (hlen : xs.length = ys.length)
    (h : numeral b xs = numeral b ys) : xs = ys := by
  rw [← digits_numeral hpos xs hx, ← digits_numeral hpos ys hy, hlen, h]

theorem numeral_append (xs ys : Bytes) :
    numeral b (xs ++ ys) = numeral b xs * b ^ ys.length + numeral b ys := by
  induction ys using List.reverseRecOn with
  | nil => simp
  | append_singleton ys d ih =>
    rw [← List.append_assoc, numeral_append_singleton, ih, numeral_append_singleton,
      List.length_append, List.length_singleton, pow_succ]
    ring

/-! ### Leading zeros -/

/-- The digits from the first nonzero one on. -/
def significant (ds : Bytes) : Bytes := ds.dropWhile (· == 0)

/-- How many zeros a digit string starts with. -/
def leadingZeros (ds : Bytes) : Nat := (ds.takeWhile (· == 0)).length

theorem numeral_replicate_zero_append (k : Nat) (ds : Bytes) :
    numeral b (List.replicate k 0 ++ ds) = numeral b ds := by
  have hzero : numeral b (List.replicate k 0) = 0 := by
    induction k with
    | zero => rfl
    | succ k ih => simp [List.replicate_succ', numeral_append_singleton, ih]
  rw [numeral_append, hzero, Nat.zero_mul, Nat.zero_add]

theorem replicate_append_significant (ds : Bytes) :
    List.replicate (leadingZeros ds) 0 ++ significant ds = ds := by
  have htake : ds.takeWhile (· == 0) = List.replicate (leadingZeros ds) 0 :=
    List.eq_replicate_iff.mpr ⟨rfl, fun d hd => by simpa using List.mem_takeWhile_imp hd⟩
  rw [significant, ← htake]
  exact List.takeWhile_append_dropWhile

theorem numeral_significant (ds : Bytes) : numeral b (significant ds) = numeral b ds := by
  conv_rhs => rw [← replicate_append_significant ds]
  exact (numeral_replicate_zero_append _ _).symm

theorem significant_replicate_append (k : Nat) (ds : Bytes) :
    significant (List.replicate k 0 ++ ds) = significant ds := by
  induction k with
  | zero => rfl
  | succ k ih => simp [significant, List.replicate_succ]

theorem leadingZeros_replicate_append (k : Nat) (ds : Bytes) :
    leadingZeros (List.replicate k 0 ++ significant ds) = k := by
  induction k with
  | zero =>
    have hhead := List.head?_dropWhile_not (fun d : UInt8 => d == 0) ds
    rcases hs : significant ds with - | ⟨d, rest⟩
    · simp [leadingZeros]
    · rw [significant] at hs
      rw [hs] at hhead
      simp_all [leadingZeros]
  | succ k ih => simpa [leadingZeros, List.replicate_succ] using ih

/-- The value determines the digits from the first nonzero one on. -/
theorem significant_eq_of_numeral_eq (hpos : 0 < b) {xs ys : Bytes} (hx : ∀ d ∈ xs, d.toNat < b)
    (hy : ∀ d ∈ ys, d.toNat < b) (h : numeral b xs = numeral b ys) :
    significant xs = significant ys := by
  have hpad : ∀ k : Nat, ∀ zs : Bytes, (∀ d ∈ zs, d.toNat < b) →
      ∀ d ∈ List.replicate k 0 ++ zs, d.toNat < b := by
    intro k zs hz d hd
    rcases List.mem_append.mp hd with hd | hd
    · rw [List.eq_of_mem_replicate hd]
      exact hpos
    · exact hz d hd
  have heq : List.replicate (ys.length - xs.length) 0 ++ xs =
      List.replicate (xs.length - ys.length) 0 ++ ys := by
    apply numeral_injOn hpos (hpad _ xs hx) (hpad _ ys hy)
    · simp only [List.length_append, List.length_replicate]
      omega
    · rw [numeral_replicate_zero_append, numeral_replicate_zero_append, h]
  rw [← significant_replicate_append (ys.length - xs.length) xs, heq, significant_replicate_append]

/-! ### Arrays that grow -/

/-- What is left of a carry, in new digits.  `fuel` is at least the carry. -/
def carryDigits (b : Nat) : Nat → Nat → Bytes
  | 0, _ => []
  | fuel + 1, carry =>
    if carry = 0 then [] else UInt8.ofNat (carry % b) :: carryDigits b fuel (carry / b)

/-- One pass over a digit array, least significant digit first: multiply by `m`, add the carry,
and grow as long as a carry is left. -/
def mulAddDigits (b m : Nat) : Nat → Bytes → Bytes
  | carry, [] => carryDigits b carry carry
  | carry, d :: ds =>
    UInt8.ofNat ((carry + d.toNat * m) % b) :: mulAddDigits b m ((carry + d.toNat * m) / b) ds

theorem numeral_reverse_cons (d : UInt8) (ds : Bytes) :
    numeral b (d :: ds).reverse = numeral b ds.reverse * b + d.toNat := by
  rw [List.reverse_cons, numeral_append_singleton]

section Grow

variable (hb : b ≤ 256) (hone : 1 < b)

include hb hone

theorem toNat_ofNat_mod (n : Nat) : (UInt8.ofNat (n % b)).toNat = n % b := by
  have hlt := Nat.mod_lt n (Nat.zero_lt_of_lt hone)
  rw [UInt8.toNat_ofNat']
  omega

theorem mod_eq_zero_of_digit {n : Nat} (h : UInt8.ofNat (n % b) = 0) : n % b = 0 := by
  rw [← toNat_ofNat_mod hb hone n, h]
  rfl

theorem numeral_carryDigits {fuel carry : Nat} (h : carry ≤ fuel) :
    numeral b (carryDigits b fuel carry).reverse = carry := by
  induction fuel generalizing carry with
  | zero =>
    rw [Nat.le_zero.mp h]
    rfl
  | succ fuel ih =>
    rw [carryDigits]
    split_ifs with hzero
    · rw [hzero]
      rfl
    · have hless := Nat.div_lt_self (Nat.pos_of_ne_zero hzero) hone
      rw [numeral_reverse_cons, ih (by omega), toNat_ofNat_mod hb hone]
      exact Nat.div_add_mod' carry b

theorem carryDigits_lt (fuel carry : Nat) : ∀ d ∈ carryDigits b fuel carry, d.toNat < b := by
  induction fuel generalizing carry with
  | zero =>
    intro d hd
    cases hd
  | succ fuel ih =>
    intro d hd
    rw [carryDigits] at hd
    split_ifs at hd
    · cases hd
    · rcases List.mem_cons.mp hd with rfl | hd
      · rw [toNat_ofNat_mod hb hone]
        exact Nat.mod_lt _ (Nat.zero_lt_of_lt hone)
      · exact ih _ d hd

/-- A carry leaves no zero on top. -/
theorem getLast?_carryDigits {fuel carry : Nat} (h : carry ≤ fuel) :
    (carryDigits b fuel carry).getLast? ≠ some 0 := by
  induction fuel generalizing carry with
  | zero => exact fun hlast => by cases hlast
  | succ fuel ih =>
    rw [carryDigits]
    split_ifs with hzero
    · exact fun hlast => by cases hlast
    · have hless := Nat.div_lt_self (Nat.pos_of_ne_zero hzero) hone
      have hrest : (carryDigits b fuel (carry / b)).getLast? ≠ some 0 := ih (by omega)
      rcases hdigits : carryDigits b fuel (carry / b) with - | ⟨e, es⟩
      · -- nothing is left, so the digit is the carry itself
        have hquot : numeral b (carryDigits b fuel (carry / b)).reverse = carry / b :=
          numeral_carryDigits hb hone (by omega)
        rw [hdigits] at hquot
        have hmod := Nat.div_add_mod' carry b
        rw [← show numeral b [] = carry / b from hquot, numeral_nil] at hmod
        intro hlast
        have hdigit := mod_eq_zero_of_digit hb hone (Option.some.inj hlast)
        omega
      · rwa [hdigits] at hrest

/-- **A pass multiplies the value and adds the carry.** -/
theorem numeral_mulAddDigits (m carry : Nat) (ds : Bytes) :
    numeral b (mulAddDigits b m carry ds).reverse = numeral b ds.reverse * m + carry := by
  induction ds generalizing carry with
  | nil =>
    rw [mulAddDigits, numeral_carryDigits hb hone le_rfl]
    simp
  | cons d ds ih =>
    have hsum := Nat.div_add_mod' (carry + d.toNat * m) b
    rw [mulAddDigits, numeral_reverse_cons, ih, toNat_ofNat_mod hb hone, numeral_reverse_cons]
    calc (numeral b ds.reverse * m + (carry + d.toNat * m) / b) * b + (carry + d.toNat * m) % b
        = numeral b ds.reverse * m * b +
            ((carry + d.toNat * m) / b * b + (carry + d.toNat * m) % b) := by ring
      _ = numeral b ds.reverse * m * b + (carry + d.toNat * m) := by rw [hsum]
      _ = (numeral b ds.reverse * b + d.toNat) * m + carry := by ring

theorem mulAddDigits_lt (m carry : Nat) (ds : Bytes) :
    ∀ d ∈ mulAddDigits b m carry ds, d.toNat < b := by
  induction ds generalizing carry with
  | nil => exact carryDigits_lt hb hone carry carry
  | cons e ds ih =>
    intro d hd
    rcases List.mem_cons.mp hd with rfl | hd
    · rw [toNat_ofNat_mod hb hone]
      exact Nat.mod_lt _ (Nat.zero_lt_of_lt hone)
    · exact ih _ d hd

/-- A pass over one digit has no zero on top, unless nothing is carried into a zero. -/
theorem getLast?_mulAddDigits_one {m carry : Nat} (hm : 0 < m) {d : UInt8}
    (h : carry ≠ 0 ∨ d ≠ 0) : (mulAddDigits b m carry [d]).getLast? ≠ some 0 := by
  have hrest := getLast?_carryDigits hb hone (le_refl ((carry + d.toNat * m) / b))
  have hquot := numeral_carryDigits hb hone (le_refl ((carry + d.toNat * m) / b))
  rw [mulAddDigits, mulAddDigits]
  rcases hdigits : carryDigits b ((carry + d.toNat * m) / b) ((carry + d.toNat * m) / b) with
    - | ⟨e, es⟩
  · rw [hdigits] at hquot
    have hsum := Nat.div_add_mod' (carry + d.toNat * m) b
    rw [← show numeral b [] = (carry + d.toNat * m) / b from hquot, numeral_nil] at hsum
    have hpos : 0 < carry + d.toNat * m := by
      rcases h with hcarry | hd
      · omega
      · have hd' : 0 < d.toNat := Nat.pos_of_ne_zero fun hz => hd (UInt8.toNat_inj.mp hz)
        have := Nat.mul_pos hd' hm
        omega
    intro hlast
    have hdigit := mod_eq_zero_of_digit hb hone (Option.some.inj hlast)
    omega
  · rwa [hdigits] at hrest

/-- A pass puts no zero on top. -/
theorem getLast?_mulAddDigits {m : Nat} (hm : 0 < m) (carry : Nat) {ds : Bytes}
    (h : ds.getLast? ≠ some 0) : (mulAddDigits b m carry ds).getLast? ≠ some 0 := by
  induction ds generalizing carry with
  | nil => exact getLast?_carryDigits hb hone le_rfl
  | cons d ds ih =>
    rcases ds with - | ⟨e, es⟩
    · refine getLast?_mulAddDigits_one hb hone hm (Or.inr fun hd => h ?_)
      rw [hd]
      rfl
    · have hrest := ih ((carry + d.toNat * m) / b) h
      rw [mulAddDigits]
      rcases hdigits : mulAddDigits b m ((carry + d.toNat * m) / b) (e :: es) with - | ⟨f, fs⟩
      · cases hdigits
      · rwa [hdigits] at hrest

end Grow

/-! ### Digits that are spelt -/

/-- Where a character is read as the digit that it spells, so is a string. -/
theorem mapM_eq_some_iff_map {α β γ : Type} {f : α → Option β} {P : β → Prop} {key : α → γ}
    {spell : β → γ} (h : ∀ c v, f c = some v ↔ P v ∧ key c = spell v) (s : List α) (ds : List β) :
    s.mapM f = some ds ↔ (∀ d ∈ ds, P d) ∧ s.map key = ds.map spell := by
  induction s generalizing ds with
  | nil => cases ds <;> simp
  | cons c s ih =>
    rw [List.mapM_cons]
    constructor
    · intro hs
      obtain ⟨v, hv, hs⟩ := Option.bind_eq_some_iff.mp hs
      obtain ⟨vs, hvs, hs⟩ := Option.bind_eq_some_iff.mp hs
      obtain rfl : v :: vs = ds := Option.some.inj hs
      obtain ⟨hd, hc⟩ := (h c v).mp hv
      obtain ⟨hds, hcs⟩ := (ih vs).mp hvs
      exact ⟨List.forall_mem_cons.mpr ⟨hd, hds⟩, by rw [List.map_cons, List.map_cons, hc, hcs]⟩
    · rintro ⟨hall, hmap⟩
      cases ds with
      | nil => cases hmap
      | cons v vs =>
        obtain ⟨hc, hrest⟩ := List.cons.inj hmap
        obtain ⟨hd, hds⟩ := List.forall_mem_cons.mp hall
        rw [(h c v).mpr ⟨hd, hc⟩, (ih vs).mpr ⟨hds, hrest⟩]
        rfl

end CashStratum
