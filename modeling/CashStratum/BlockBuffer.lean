/-
CashStratum/BlockBuffer.lean

Folds that take a list by blocks of `n`, and a buffer for what does not fill a block.

`absorb f n k` folds the first `k` blocks of a list.  Whoever takes a list piece by piece holds a
state and a buffer; `Buffered` says which.  A piece that does not fill the buffer is kept
(`Buffered.keep`), another one fills it, gives its own blocks and leaves its rest
(`Buffered.flush`).  Neither the state nor the buffer depends on the pieces (`Buffered.eq`).
-/
import Mathlib.Data.List.TakeDrop
import Mathlib.Tactic.Ring

namespace CashStratum

section Absorb

variable {α σ : Type*} (f : σ → List α → σ) (n : Nat)

/-- The first `k` blocks of `n`, one after the other. -/
@[grind =] def absorb : Nat → σ → List α → σ
  | 0, s, _ => s
  | k + 1, s, l => absorb k (f s (l.take n)) (l.drop n)

theorem absorb_add (j k : Nat) (s : σ) (l : List α) :
    absorb f n (j + k) s l = absorb f n k (absorb f n j s l) (l.drop (j * n)) := by
  induction j generalizing s l with
  | zero => rw [Nat.zero_add, Nat.zero_mul, List.drop_zero, absorb]
  | succ j ih =>
    rw [Nat.succ_add, absorb, absorb, ih, List.drop_drop, Nat.succ_mul, Nat.add_comm n]

/-- What stands behind the blocks is not looked at. -/
theorem absorb_append {k : Nat} {l : List α} (h : k * n ≤ l.length) (s : σ) (l' : List α) :
    absorb f n k s (l ++ l') = absorb f n k s l := by
  induction k generalizing s l with
  | zero => rfl
  | succ k ih =>
    have hn : n ≤ l.length := (Nat.le_mul_of_pos_left n k.succ_pos).trans h
    have hrest : k * n ≤ (l.drop n).length := by
      rw [List.length_drop]
      rw [Nat.succ_mul] at h
      omega
    rw [absorb, absorb, List.take_append_of_le_length hn, List.drop_append_of_le_length hn,
      ih hrest]

/-- `s` has absorbed the whole blocks of `l`, from `init` on, and `block` is the rest. -/
structure Buffered (init s : σ) (block l : List α) : Prop where
  short : block.length < n
  split : ∃ k whole, l = whole ++ block ∧ whole.length = k * n ∧ s = absorb f n k init whole

variable {f n} {init s s' : σ} {block block' l : List α}

theorem Buffered.nil (hn : 0 < n) : Buffered f n init init [] [] :=
  ⟨hn, 0, [], rfl, (Nat.zero_mul n).symm, rfl⟩

theorem Buffered.keep (h : Buffered f n init s block l) {piece : List α}
    (hshort : block.length + piece.length < n) :
    Buffered f n init s (block ++ piece) (l ++ piece) := by
  obtain ⟨k, whole, rfl, hwhole, hs⟩ := h.split
  exact ⟨by rwa [List.length_append], k, whole, List.append_assoc _ _ _, hwhole, hs⟩

/-- The buffer is filled; `k` are the blocks of what is left of the piece. -/
theorem Buffered.flush (h : Buffered f n init s block l) {piece rest : List α} {k : Nat}
    (hfull : n ≤ block.length + piece.length) (hrest : rest = piece.drop (n - block.length))
    (hk : k = rest.length / n) :
    Buffered f n init (absorb f n k (absorb f n 1 s (block ++ piece.take (n - block.length))) rest)
      (rest.drop (k * n)) (l ++ piece) := by
  obtain ⟨j, whole, rfl, hwhole, rfl⟩ := h.split
  have hshort := h.short
  have hn : 0 < n := Nat.zero_lt_of_lt hshort
  have hkn : k * n ≤ rest.length := hk ▸ Nat.div_mul_le_self _ _
  generalize hfilled : block ++ piece.take (n - block.length) = filled
  have hlen : filled.length = n := by
    rw [← hfilled, List.length_append, List.length_take]
    omega
  have hstart : absorb f n j init (whole ++ filled ++ rest.take (k * n)) =
      absorb f n j init whole := by
    rw [List.append_assoc]
    exact absorb_append f n hwhole.ge _ _
  have hdrop : (whole ++ filled ++ rest.take (k * n)).drop (j * n) =
      filled ++ rest.take (k * n) := by
    rw [List.append_assoc]
    exact List.drop_left' hwhole
  have hblocks : ∀ s : σ, absorb f n k s (rest.take (k * n)) = absorb f n k s rest := by
    intro s
    conv_rhs => rw [← List.take_append_drop (k * n) rest]
    refine (absorb_append f n ?_ s _).symm
    rw [List.length_take, Nat.min_eq_left hkn]
  refine ⟨?_, j + (1 + k), whole ++ filled ++ rest.take (k * n), ?_, ?_, ?_⟩
  · have hmod := Nat.mod_lt rest.length hn
    have hdiv := Nat.div_add_mod' rest.length n
    rw [List.length_drop, hk]
    omega
  · have hpiece : piece = piece.take (n - block.length) ++ rest := by
      rw [hrest, List.take_append_drop]
    rw [List.append_assoc (whole ++ filled), List.take_append_drop, ← hfilled]
    conv_lhs => rw [hpiece]
    simp only [List.append_assoc]
  · rw [List.length_append, List.length_append, hwhole, hlen, List.length_take,
      Nat.min_eq_left hkn]
    ring
  · have hone : 1 * n = filled.length := by rw [Nat.one_mul, hlen]
    rw [absorb_add, hstart, hdrop, absorb_add, absorb_append f n hone.le, List.drop_left' hone.symm,
      hblocks]

/-- **The pieces do not matter.** -/
theorem Buffered.eq (h : Buffered f n init s block l) :
    s = absorb f n (l.length / n) init l ∧ block = l.drop (l.length / n * n) := by
  obtain ⟨k, whole, rfl, hwhole, rfl⟩ := h.split
  have hshort := h.short
  have hk : (whole ++ block).length / n = k := by
    rw [List.length_append, hwhole, Nat.mul_comm, Nat.mul_add_div (Nat.zero_lt_of_lt hshort),
      Nat.div_eq_of_lt hshort, Nat.add_zero]
  rw [hk, absorb_append f n hwhole.ge]
  exact ⟨rfl, (List.drop_left' hwhole).symm⟩

end Absorb

end CashStratum
