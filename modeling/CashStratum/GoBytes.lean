/-
CashStratum/GoBytes.lean

What a Go function does with a byte slice.

Indices are `int`s of 64 bits, which wrap; an index or a bound out of range is a panic.  A reader
that walks a slice by positions is stated by what is left of the slice there: `b.drop n` is the
rest at position `n`, and each step takes a piece from its front.
-/
import CashStratum.ByteReader

namespace CashStratum

/-! ### Integers -/

/-- What a sum of `int`s is. -/
@[grind =] def goInt (x : Int) : Int := (x + 2 ^ 63) % 2 ^ 64 - 2 ^ 63

theorem goInt_of_range {x : Int} (hlow : -2 ^ 63 ≤ x) (hhigh : x < 2 ^ 63) : goInt x = x := by
  unfold goInt
  omega

theorem goInt_natCast {n : Nat} (h : n < 2 ^ 63) : goInt n = n :=
  goInt_of_range (by omega) (by omega)

theorem goInt_add_natCast {m n : Nat} (h : m + n < 2 ^ 63) :
    goInt ((m : Int) + n) = (m + n : Nat) := by
  rw [← Nat.cast_add]
  exact goInt_natCast h

/-! ### Calls -/

/-- How a call ends that returns no value. -/
inductive GoFail
  | panic
  | error (text : String)
deriving DecidableEq

/-- A call that returns, be it an error. -/
def Returns {α : Type*} (x : Except GoFail α) : Prop := x ≠ .error .panic

theorem ok_bind {α β : Type} (a : α) (f : α → Except GoFail β) : (Except.ok a >>= f) = f a := rfl

theorem bind_eq_ok {α β : Type} {x : Except GoFail α} {f : α → Except GoFail β} {b : β} :
    (x >>= f) = .ok b ↔ ∃ a, x = .ok a ∧ f a = .ok b := by
  constructor
  · intro h
    cases hx : x with
    | error e =>
      rw [hx] at h
      cases h
    | ok a =>
      rw [hx] at h
      exact ⟨a, rfl, h⟩
  · rintro ⟨a, rfl, h⟩
    exact h

theorem Returns.of_ok {α : Type*} (a : α) : Returns (.ok a : Except GoFail α) := by
  intro h
  cases h

theorem Returns.of_error {α : Type*} (text : String) :
    Returns (.error (.error text) : Except GoFail α) := by
  intro h
  cases h

theorem Returns.bind {α β : Type} {x : Except GoFail α} {f : α → Except GoFail β}
    (hx : Returns x) (hf : ∀ a, x = .ok a → Returns (f a)) : Returns (x >>= f) := by
  intro h
  cases hxa : x with
  | error e =>
    rw [hxa] at h
    have he : e = .panic := Except.error.inj h
    exact hx (by rw [hxa, he])
  | ok a =>
    rw [hxa] at h
    exact hf a hxa h

/-! ### Slices -/

/-- `b[i]` -/
@[grind =] def goIndex (b : Bytes) (i : Int) : Except GoFail UInt8 :=
  if 0 ≤ i ∧ i < b.length then .ok (b.getD i.toNat 0) else .error .panic

/-- `b[i:j]` -/
@[grind =] def goSlice (b : Bytes) (i j : Int) : Except GoFail Bytes :=
  if 0 ≤ i ∧ i ≤ j ∧ j ≤ b.length then .ok ((b.drop i.toNat).take (j - i).toNat)
  else .error .panic

/-- The bytes `b[i]`, `b[i+1]`, … shifted and or-ed to a number. -/
@[grind =] def goLe (b : Bytes) (i : Int) : Nat → Except GoFail Nat
  | 0 => .ok 0
  | w + 1 => do
      let low ← goIndex b i
      let high ← goLe b (i + 1) w
      return low.toNat + 256 * high

/-- A byte slice; the allocator of the runtime has no longer ones. -/
structure GoSlice where
  bytes : Bytes
  length_le : bytes.length ≤ 2 ^ 48

theorem length_eq_of_drop {b p : Bytes} {n : Nat} (h : b.drop n = p) (hn : n ≤ b.length) :
    b.length = n + p.length := by
  have hlen := congrArg List.length h
  rw [List.length_drop] at hlen
  omega

/-- Past a piece the rest is what followed the piece. -/
theorem drop_add_of_drop {b a q : Bytes} {n : Nat} (h : b.drop n = a ++ q) :
    b.drop (n + a.length) = q := by
  rw [← List.drop_drop, h, List.drop_left]

theorem lt_of_drop_cons {b q : Bytes} {n : Nat} {v : UInt8} (h : b.drop n = v :: q) :
    n < b.length := by
  by_contra hn
  rw [List.drop_eq_nil_of_le (Nat.le_of_not_lt hn)] at h
  cases h

theorem drop_succ_of_drop {b q : Bytes} {n : Nat} {v : UInt8} (h : b.drop n = v :: q) :
    b.drop (n + 1) = q :=
  drop_add_of_drop (a := [v]) h

theorem goIndex_eq {b q : Bytes} {n : Nat} {v : UInt8} (h : b.drop n = v :: q) :
    goIndex b n = .ok v := by
  have hn : n < b.length := lt_of_drop_cons h
  have hv : b[n]? = some v := by
    rw [← List.head?_drop, h]
    rfl
  rw [goIndex, if_pos ⟨Int.natCast_nonneg n, Int.ofNat_lt.mpr hn⟩, Int.toNat_natCast,
    List.getD_eq_getElem?_getD, hv]
  rfl

theorem goSlice_eq {b a q : Bytes} {n : Nat} (hn : n ≤ b.length) (h : b.drop n = a ++ q) :
    goSlice b n (n + a.length : Nat) = .ok a := by
  have hlen := length_eq_of_drop h hn
  rw [List.length_append] at hlen
  have hwidth : (((n + a.length : Nat) : Int) - (n : Int)).toNat = a.length := by omega
  rw [goSlice, if_pos ⟨by omega, by omega, by omega⟩, hwidth, Int.toNat_natCast, h, List.take_left]

theorem goSlice_front (a q : Bytes) : goSlice (a ++ q) 0 a.length = .ok a := by
  have hslice := goSlice_eq (b := a ++ q) (n := 0) (a := a) (q := q) (Nat.zero_le _) List.drop_zero
  rwa [Nat.zero_add] at hslice

theorem goLe_eq {b : Bytes} {a q : Bytes} {n : Nat} (h : b.drop n = a ++ q) :
    goLe b n a.length = .ok (leNat a) := by
  induction a generalizing n with
  | nil => rfl
  | cons v a ih =>
    have hnext : b.drop (n + 1) = a ++ q := drop_succ_of_drop h
    have hrest : goLe b ((n : Int) + 1) a.length = .ok (leNat a) := ih hnext
    rw [List.length_cons, goLe, goIndex_eq h, ok_bind, hrest]
    rfl

end CashStratum
