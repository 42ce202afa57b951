/-
CashStratum/FloatOrder.lean

The order of the floating-point numbers above zero.  It is not an order on all numbers, for a
NaN is beside it and zero has two signs; above zero the comparisons are those of a linear order,
the one of exponent and mantissa (`rank`).
-/
import Mathlib

namespace CashStratum

/-- The place of a number above zero among such numbers. -/
def rank (a : Float) : WithTop (ℤ ×ₗ ℕ) :=
  match a.toModel.unpack with
  | .finite .positive m e _ => ((toLex (e, m) : ℤ ×ₗ ℕ) : WithTop (ℤ ×ₗ ℕ))
  | _ => ⊤

theorem unpack_of_pos {a : Float} (h : 0 < a) :
    a.toModel.unpack = .infinity .positive ∨
      ∃ m e hm, a.toModel.unpack = .finite .positive m e hm := by
  have hlt : Float.Model.UnpackedFloat.lt (Float.toModel 0).unpack a.toModel.unpack = true :=
    of_decide_eq_true h
  have hzero : (Float.toModel 0).unpack = .zero .positive := by rfl
  rw [hzero] at hlt
  cases hu : a.toModel.unpack with
  | notANumber => rw [hu] at hlt; cases hlt
  | zero s => rw [hu] at hlt; cases hlt
  | infinity s =>
    cases s with
    | positive => exact Or.inl rfl
    | negative => rw [hu] at hlt; cases hlt
  | finite s m e hm =>
    cases s with
    | positive => exact Or.inr ⟨m, e, hm, rfl⟩
    | negative => rw [hu] at hlt; cases hlt

theorem rank_of_infinity {a : Float} (h : a.toModel.unpack = .infinity .positive) :
    rank a = ⊤ := by
  rw [rank, h]

theorem rank_of_finite {a : Float} {m : Nat} {e : Int} {hm : 0 < m}
    (h : a.toModel.unpack = .finite .positive m e hm) :
    rank a = ((toLex (e, m) : ℤ ×ₗ ℕ) : WithTop (ℤ ×ₗ ℕ)) := by
  rw [rank, h]

theorem compare_lex (e f : ℤ) (m n : ℕ) :
    (compare e f).then (compare m n) = compare (toLex (e, m)) (toLex (f, n)) := by
  rcases lt_trichotomy e f with hlt | rfl | hgt
  · rw [compare_lt_iff_lt.mpr hlt]
    exact (compare_lt_iff_lt.mpr (Prod.Lex.toLex_lt_toLex.mpr (Or.inl hlt))).symm
  · rw [compare_eq_iff_eq.mpr rfl]
    rcases lt_trichotomy m n with hlt | rfl | hgt
    · have hlex : toLex (e, m) < toLex (e, n) :=
        Prod.Lex.toLex_lt_toLex.mpr (Or.inr ⟨rfl, hlt⟩)
      rw [compare_lt_iff_lt.mpr hlt]
      exact (compare_lt_iff_lt.mpr hlex).symm
    · rw [compare_eq_iff_eq.mpr rfl]
      exact (compare_eq_iff_eq.mpr rfl).symm
    · have hlex : toLex (e, n) < toLex (e, m) :=
        Prod.Lex.toLex_lt_toLex.mpr (Or.inr ⟨rfl, hgt⟩)
      rw [compare_gt_iff_gt.mpr hgt]
      exact (compare_gt_iff_gt.mpr hlex).symm
  · rw [compare_gt_iff_gt.mpr hgt]
    exact (compare_gt_iff_gt.mpr (Prod.Lex.toLex_lt_toLex.mpr (Or.inl hgt))).symm

theorem compare_coe (x y : ℤ ×ₗ ℕ) :
    compare (x : WithTop (ℤ ×ₗ ℕ)) (y : WithTop (ℤ ×ₗ ℕ)) = compare x y := by
  rcases lt_trichotomy x y with hlt | rfl | hgt
  · rw [compare_lt_iff_lt.mpr hlt, compare_lt_iff_lt.mpr (WithTop.coe_lt_coe.mpr hlt)]
  · rw [compare_eq_iff_eq.mpr rfl, compare_eq_iff_eq.mpr rfl]
  · rw [compare_gt_iff_gt.mpr hgt, compare_gt_iff_gt.mpr (WithTop.coe_lt_coe.mpr hgt)]

/-- Two numbers above zero compare as their places do. -/
theorem compare_of_pos {a b : Float} (ha : 0 < a) (hb : 0 < b) :
    a.toModel.unpack.compare b.toModel.unpack = some (compare (rank a) (rank b)) := by
  rcases unpack_of_pos ha with hu | ⟨m, e, hm, hu⟩ <;>
    rcases unpack_of_pos hb with hv | ⟨n, f, hn, hv⟩
  · rw [rank_of_infinity hu, rank_of_infinity hv, hu, hv, compare_eq_iff_eq.mpr rfl]
    rfl
  · rw [rank_of_infinity hu, rank_of_finite hv, hu, hv,
      compare_gt_iff_gt.mpr (WithTop.coe_lt_top (toLex (f, n)))]
    rfl
  · rw [rank_of_finite hu, rank_of_infinity hv, hu, hv,
      compare_lt_iff_lt.mpr (WithTop.coe_lt_top (toLex (e, m)))]
    rfl
  · rw [rank_of_finite hu, rank_of_finite hv, hu, hv, compare_coe, ← compare_lex]
    rfl

theorem lt_iff_rank {a b : Float} (ha : 0 < a) (hb : 0 < b) : a < b ↔ rank a < rank b := by
  have hlt : a < b ↔ (a.toModel.unpack.compare b.toModel.unpack == some .lt) = true :=
    ⟨fun h => of_decide_eq_true h, fun h => decide_eq_true h⟩
  rw [hlt, compare_of_pos ha hb, beq_iff_eq, Option.some_inj, compare_lt_iff_lt]

theorem beq_iff_rank {a b : Float} (ha : 0 < a) (hb : 0 < b) :
    (a == b) = true ↔ rank a = rank b := by
  have hbeq : (a == b) = (a.toModel.unpack.compare b.toModel.unpack == some .eq) := rfl
  rw [hbeq, compare_of_pos ha hb, beq_iff_eq, Option.some_inj, compare_eq_iff_eq]

end CashStratum
