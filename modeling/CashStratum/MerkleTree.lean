/-
CashStratum/MerkleTree.lean

Merkle trees over an arbitrary node operation `op : α → α → α`, with an odd
level completed by pairing its last node with itself.

`layer op` is one level up, `root op` climbs until one node is left.  A *branch*
is what is needed to recompute the root when the first leaf changes: `branch op`
takes the leaves after the first one and returns their siblings along the
leftmost path, bottom up.  `root_eq_foldl_branch` says that folding the branch
over the first leaf gives the root; since `branch` never sees the first leaf,
it does not depend on it.
-/
import Mathlib.Algebra.Group.Nat.Defs
import Mathlib.Data.List.Basic

namespace CashStratum.MerkleTree

variable {α : Type*} (op : α → α → α)

/-! ### Levels -/

/-- One level up: neighbours are joined, an odd last node is joined with
itself. -/
@[grind =] def layer : List α → List α
  | [] => []
  | [a] => [op a a]
  | a :: b :: l => op a b :: layer l

@[simp] theorem layer_nil : layer op [] = [] := rfl

@[simp] theorem layer_singleton (a : α) : layer op [a] = [op a a] := rfl

@[simp] theorem layer_cons_cons (a b : α) (l : List α) :
    layer op (a :: b :: l) = op a b :: layer op l := rfl

theorem length_layer (l : List α) : (layer op l).length = (l.length + 1) / 2 := by
  induction l using layer.induct with
  | case1 => simp
  | case2 a => simp
  | case3 a b l ih =>
    simp only [layer_cons_cons, List.length_cons, ih]
    omega

/-- Node `i` of the next level joins nodes `2 i` and `2 i + 1`, or node `2 i`
with itself when it is the last one. -/
theorem getElem?_layer (l : List α) (i : Nat) :
    (layer op l)[i]? = (l[2 * i]?).map fun a => op a ((l[2 * i + 1]?).getD a) := by
  induction l using layer.induct generalizing i with
  | case1 => simp
  | case2 a =>
    cases i with
    | zero => simp
    | succ i => simp [Nat.mul_add]
  | case3 a b l ih =>
    cases i with
    | zero => simp
    | succ i => simp [Nat.mul_add, ih]

/-! ### The root and the leftmost branch -/

/-- The root of a non-empty list of leaves (`none` for the empty list). -/
@[grind =] def root : List α → Option α
  | [] => none
  | [a] => some a
  | a :: b :: l => root (layer op (a :: b :: l))
termination_by l => l.length
decreasing_by
  rw [length_layer]
  simp only [List.length_cons]
  omega

theorem root_singleton (a : α) : root op [a] = some a := by
  rw [root]

theorem root_cons_cons (a b : α) (l : List α) :
    root op (a :: b :: l) = root op (op a b :: layer op l) := by
  rw [root, layer_cons_cons]

/-- The siblings of the leftmost path, bottom up, from the leaves after the
first one. -/
@[grind =] def branch : List α → List α
  | [] => []
  | b :: l => b :: branch (layer op l)
termination_by l => l.length
decreasing_by
  rw [length_layer]
  simp only [List.length_cons]
  omega

@[simp] theorem branch_nil : branch op [] = [] := by
  rw [branch]

theorem branch_cons (b : α) (l : List α) :
    branch op (b :: l) = b :: branch op (layer op l) := by
  rw [branch]

/-- **Folding the branch gives the root.**  The induction is on the leaves after
the first: one step of the fold joins the first leaf with its sibling, and what
is left of the branch is the branch of the next level. -/
theorem root_eq_foldl_branch (c : α) (l : List α) :
    root op (c :: l) = some ((branch op l).foldl op c) := by
  induction l using branch.induct op generalizing c with
  | case1 => rw [root_singleton, branch_nil, List.foldl_nil]
  | case2 b l ih => rw [root_cons_cons, ih, branch_cons, List.foldl_cons]

/-! ### Depth -/

/-- How many levels lie above `n` leaves. -/
def depth (n : Nat) : Nat :=
  if 1 < n then depth ((n + 1) / 2) + 1 else 0
termination_by n
decreasing_by omega

theorem depth_of_le_one {n : Nat} (h : n ≤ 1) : depth n = 0 := by
  rw [depth, if_neg (by omega)]

theorem depth_of_one_lt {n : Nat} (h : 1 < n) : depth n = depth ((n + 1) / 2) + 1 := by
  conv_lhs => rw [depth]
  rw [if_pos h]

/-- A tree of depth `d` has at most `2 ^ d` leaves. -/
theorem le_two_pow_depth (n : Nat) : n ≤ 2 ^ depth n := by
  induction n using depth.induct with
  | case1 n h ih =>
    rw [depth_of_one_lt h, Nat.pow_succ]
    omega
  | case2 n h =>
    rw [depth_of_le_one (by omega)]
    omega

end CashStratum.MerkleTree
