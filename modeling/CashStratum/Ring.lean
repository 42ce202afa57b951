/-
CashStratum/Ring.lean

Rings: `n` slots that are written one after the other, from the first again behind the last.
`pos` is the slot that comes next.

What a ring holds is read from `pos` backwards (`newestFirst`).  A write puts its value in front
and drops the last one (`newestFirst_write`), so that a ring which was written a list of values
holds the last `n` of them, whatever they overwrote.
-/
import Mathlib

namespace CashStratum.Ring

variable {α β : Type*} {n : Nat} [NeZero n]

/-- The slots from the one before `pos` backwards: what was written last comes first. -/
@[grind =] def newestFirst (slots : Fin n → α) (pos : Fin n) : List α :=
  List.ofFn fun j : Fin n => slots (pos - 1 - j)

@[simp] theorem length_newestFirst (slots : Fin n → α) (pos : Fin n) :
    (newestFirst slots pos).length = n := by
  simp [newestFirst]

theorem getElem_newestFirst (slots : Fin n → α) (pos : Fin n) {j : Nat}
    (h : j < (newestFirst slots pos).length) :
    (newestFirst slots pos)[j] = slots (pos - 1 - ⟨j, by simpa using h⟩) := by
  simp [newestFirst]

/-- Every slot is read once. -/
theorem mem_newestFirst {slots : Fin n → α} {pos : Fin n} {x : α} :
    x ∈ newestFirst slots pos ↔ ∃ i, slots i = x := by
  rw [newestFirst, List.mem_ofFn]
  constructor
  · rintro ⟨j, rfl⟩
    exact ⟨_, rfl⟩
  · rintro ⟨i, rfl⟩
    exact ⟨pos - 1 - i, by simp⟩

/-- A change of every slot. -/
theorem newestFirst_map (f : α → β) (slots : Fin n → α) (pos : Fin n) :
    newestFirst (fun i => f (slots i)) pos = (newestFirst slots pos).map f := by
  simp [newestFirst, List.map_ofFn, Function.comp_def]

theorem newestFirst_const (x : α) (pos : Fin n) :
    newestFirst (fun _ => x) pos = List.replicate n x := by
  simp [newestFirst, List.ofFn_const]

/-- **A write** puts its value in front, in place of the oldest one. -/
theorem newestFirst_write (slots : Fin n → α) (pos : Fin n) (x : α) :
    newestFirst (Function.update slots pos x) (pos + 1) =
      (x :: newestFirst slots pos).take n := by
  apply List.ext_getElem
  · simp
  · intro j h₁ h₂
    have hj : j < n := by simpa using h₁
    rw [getElem_newestFirst, List.getElem_take]
    rcases j with - | j
    · -- the slot that was written
      have hzero : (⟨0, hj⟩ : Fin n) = 0 := rfl
      simp [hzero]
    · -- any other slot, one step further back
      have hsucc : (⟨j + 1, hj⟩ : Fin n) = ⟨j, by omega⟩ + 1 := by
        apply Fin.ext
        rw [Fin.val_add_one_of_lt' hj]
      have hback : pos + 1 - 1 - (⟨j + 1, hj⟩ : Fin n) = pos - 1 - ⟨j, by omega⟩ := by
        rw [hsucc, add_sub_cancel_right, ← sub_sub, sub_right_comm]
      have hne : pos + 1 - 1 - (⟨j + 1, hj⟩ : Fin n) ≠ pos := by
        rw [add_sub_cancel_right, ne_eq, sub_eq_self]
        intro hzero
        have := congrArg Fin.val hzero
        simp at this
      rw [Function.update_of_ne hne, hback, List.getElem_cons_succ, getElem_newestFirst]

/-- What a ring holds of a history, one write later. -/
theorem take_cons_take (x : α) (history : List α) (k : Nat) :
    (x :: history.take k).take k = (x :: history).take k := by
  cases k with
  | zero => rfl
  | succ k => simp [List.take_take]

end CashStratum.Ring
