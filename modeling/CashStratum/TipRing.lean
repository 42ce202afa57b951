/-
CashStratum/TipRing.lean

The tips that the declaration client remembers (`sv2_bridge.c`): the last eight prevhashes that
its node built a template on, in a ring.  A tip of the upstream pool is the newest of them, an
older one, or one that the node never had (`sv2TipRelation`).

A push of the hash that is newest already is dropped, so the history that the ring holds the end
of is the list of pushes without repeats (`tip_ring_holds_history`).  A hash that comes back after
another one is a new entry: its place counts, not that it was there before.
-/
import CashStratum.Ring
import CashStratum.Run
import CashStratum.Sha2
import Mathlib.Data.List.Destutter

namespace CashStratum

open Function

/-! ### The ring -/

/-- `SV2_TIP_RING` -/
abbrev sv2TipRingLen : Nat := 8

/-- What a push records. -/
structure Tip where
  hash : Hash256
  nbits : UInt32
  ntime : UInt32

/-- `struct sv2_tip_ring` -/
structure Sv2TipRing where
  hash : Fin sv2TipRingLen → Hash256
  nbits : Fin sv2TipRingLen → UInt32
  ntime : Fin sv2TipRingLen → UInt32
  count : Nat
  newest : Fin sv2TipRingLen

/-- A ring as it begins, all zero. -/
def Sv2TipRing.empty : Sv2TipRing where
  hash := fun _ => .zero
  nbits := fun _ => 0
  ntime := fun _ => 0
  count := 0
  newest := 0

/-- `sv2_tip_push` -/
def sv2TipPush (r : Sv2TipRing) (tip : Tip) : Sv2TipRing :=
  -- a fee-bump template on the same tip refreshes nothing
  if r.count ≠ 0 ∧ r.hash r.newest = tip.hash then r
  else
    let newest := if r.count ≠ 0 then r.newest + 1 else 0
    { hash := update r.hash newest tip.hash
      nbits := update r.nbits newest tip.nbits
      ntime := update r.ntime newest tip.ntime
      count := if r.count < sv2TipRingLen then r.count + 1 else r.count
      newest }

/-- `enum sv2_tip_rel` -/
inductive Sv2TipRel where
  | noLocal
  | same
  | behind
  | ahead
  deriving DecidableEq, Repr

/-- `sv2_tip_relation` -/
def sv2TipRelation (r : Sv2TipRing) (poolPrev : Hash256) : Sv2TipRel :=
  if r.count = 0 then .noLocal
  else if r.hash r.newest = poolPrev then .same
  -- anything older that was recorded is a tip that the node has left
  else if (List.range' 1 (r.count - 1)).any
      fun i => r.hash (r.newest - Fin.ofNat sv2TipRingLen i) = poolPrev then .behind
  else .ahead

/-! ### What it holds -/

namespace Sv2TipRing

/-- The tip in a slot. -/
def tip (r : Sv2TipRing) (i : Fin sv2TipRingLen) : Tip := ⟨r.hash i, r.nbits i, r.ntime i⟩

/-- The tips in the ring, the newest first. -/
def tips (r : Sv2TipRing) : List Tip := (Ring.newestFirst r.tip (r.newest + 1)).take r.count

end Sv2TipRing

/-- The pushes without those that repeat the hash before them, the newest first. -/
def tipHistory (pushes : List Tip) : List Tip :=
  (pushes.destutter fun a b => a.hash ≠ b.hash).reverse

/-! ### Histories -/

section Destutter

variable {α : Type*} {R : α → α → Prop} [DecidableRel R]

/-- One more element is kept if it may follow the last one that was. -/
theorem destutter'_concat (a x : α) (l : List α) :
    (l ++ [x]).destutter' R a =
      if R ((l.destutter' R a).getLast (l.destutter'_ne_nil R)) x then l.destutter' R a ++ [x]
      else l.destutter' R a := by
  induction l generalizing a with
  | nil =>
    rw [List.nil_append, List.destutter'_singleton]
    rfl
  | cons b l ih =>
    rw [List.cons_append]
    by_cases hab : R a b
    · simp only [List.destutter'_cons_pos _ hab, ih b,
        List.getLast_cons (l.destutter'_ne_nil R (a := b))]
      split_ifs <;> simp
    · simp only [List.destutter'_cons_neg _ hab, ih a]

theorem destutter_concat (x : α) (l : List α) :
    (l ++ [x]).destutter R =
      if ∀ last ∈ (l.destutter R).getLast?, R last x then l.destutter R ++ [x]
      else l.destutter R := by
  cases l with
  | nil => simp
  | cons a l =>
    rw [List.cons_append, List.destutter_cons', List.destutter_cons', destutter'_concat]
    simp [List.getLast?_eq_some_getLast (l.destutter'_ne_nil R (a := a))]

end Destutter

/-- The history after one more push. -/
theorem tipHistory_concat (pushes : List Tip) (tip : Tip) :
    tipHistory (pushes ++ [tip]) =
      if ∃ newest ∈ (tipHistory pushes).head?, newest.hash = tip.hash then tipHistory pushes
      else tip :: tipHistory pushes := by
  rw [tipHistory, tipHistory, destutter_concat, List.head?_reverse]
  by_cases hrepeat : ∀ last ∈ (pushes.destutter fun a b => a.hash ≠ b.hash).getLast?,
      last.hash ≠ tip.hash
  · rw [if_pos hrepeat, if_neg (by simpa using hrepeat)]
    simp
  · rw [if_neg hrepeat, if_pos (by simpa using hrepeat)]

/-! ### A push -/

namespace Sv2TipRing

/-- The ring holds the end of a history. -/
structure Holds (r : Sv2TipRing) (history : List Tip) : Prop where
  count : r.count = min history.length sv2TipRingLen
  tips : r.tips = history.take sv2TipRingLen

theorem holds_empty : Holds .empty [] where
  count := rfl
  tips := by simp [Sv2TipRing.tips, Sv2TipRing.empty]

variable {r : Sv2TipRing} {history : List Tip}

/-- The slot `newest` is the first of the tips. -/
theorem head?_tips (hcount : r.count ≠ 0) : r.tips.head? = some (r.tip r.newest) := by
  obtain ⟨k, hk⟩ := Nat.exists_eq_succ_of_ne_zero hcount
  simp [tips, hk, Ring.newestFirst, List.ofFn_succ]

theorem Holds.count_eq_zero_iff (h : r.Holds history) : r.count = 0 ↔ history = [] := by
  rw [h.count, ← List.length_eq_zero_iff]
  show min history.length 8 = 0 ↔ _
  omega

theorem Holds.head? (h : r.Holds history) (hcount : r.count ≠ 0) :
    history.head? = some (r.tip r.newest) := by
  rw [← head?_tips hcount, h.tips]
  cases history <;> simp

/-- The tips behind a write in the next slot. -/
theorem tips_write (hcount : r.count ≤ sv2TipRingLen) (pos : Fin sv2TipRingLen) (tip : Tip)
    (hpos : r.count ≠ 0 → pos = r.newest + 1) :
    (Ring.newestFirst (update r.tip pos tip) (pos + 1)).take
        (if r.count < sv2TipRingLen then r.count + 1 else r.count) =
      (tip :: r.tips).take sv2TipRingLen := by
  rw [Ring.newestFirst_write, List.take_take]
  by_cases hzero : r.count = 0
  · simp [tips, hzero]
  · rw [hpos hzero, tips]
    split_ifs with hroom
    · rw [Nat.min_eq_left hroom, List.take_succ_cons]
      refine (List.take_of_length_le ?_).symm
      simp
      omega
    · rw [Nat.min_eq_left hcount, le_antisymm hcount (not_lt.mp hroom), Ring.take_cons_take]

/-- **A push** is written behind the newest tip, or repeats it. -/
theorem Holds.push (h : r.Holds history) (tip : Tip) :
    (sv2TipPush r tip).Holds
      (if ∃ newest ∈ history.head?, newest.hash = tip.hash then history else tip :: history) := by
  have hle : r.count ≤ sv2TipRingLen := by
    rw [h.count]
    exact Nat.min_le_right _ _
  have hrepeat : (r.count ≠ 0 ∧ r.hash r.newest = tip.hash) ↔
      ∃ newest ∈ history.head?, newest.hash = tip.hash := by
    by_cases hcount : r.count = 0
    · simp [hcount, h.count_eq_zero_iff.mp hcount]
    · rw [h.head? hcount]
      simp [hcount, Sv2TipRing.tip]
  rw [sv2TipPush]
  by_cases hsame : r.count ≠ 0 ∧ r.hash r.newest = tip.hash
  · rw [if_pos hsame, if_pos (hrepeat.mp hsame)]
    exact h
  · rw [if_neg hsame, if_neg (mt hrepeat.mpr hsame)]
    refine ⟨?_, ?_⟩
    · show (if r.count < sv2TipRingLen then r.count + 1 else r.count) = _
      rw [h.count, List.length_cons]
      split_ifs <;> omega
    · -- the three arrays are written in the same place
      have htip : ∀ pos : Fin sv2TipRingLen,
          (fun i => (⟨update r.hash pos tip.hash i, update r.nbits pos tip.nbits i,
            update r.ntime pos tip.ntime i⟩ : Tip)) = update r.tip pos tip := by
        intro pos
        funext i
        by_cases hi : i = pos
        · subst hi
          simp
        · simp [update_of_ne hi, Sv2TipRing.tip]
      show (Ring.newestFirst (fun i => (⟨update r.hash _ tip.hash i,
        update r.nbits _ tip.nbits i, update r.ntime _ tip.ntime i⟩ : Tip))
          _).take _ = _
      rw [htip, tips_write hle _ tip, h.tips, Ring.take_cons_take]
      intro hcount
      rw [if_pos hcount]

/-! ### Relations -/

/-- The hashes in the ring, as `sv2_tip_relation` goes back through them. -/
theorem map_hash_tips (hle : r.count ≤ sv2TipRingLen) :
    r.tips.map Tip.hash =
      (List.range r.count).map fun i => r.hash (r.newest - Fin.ofNat sv2TipRingLen i) := by
  apply List.ext_getElem
  · simp [tips, hle]
  · intro i h₁ h₂
    have hi : i < r.count := by simpa using h₂
    have hlast : Fin.ofNat sv2TipRingLen i = ⟨i, by omega⟩ :=
      Fin.ext (Nat.mod_eq_of_lt (by omega))
    rw [List.getElem_map, List.getElem_map, List.getElem_range, hlast]
    simp [tips, Ring.getElem_newestFirst, tip]

/-- **The relation** of a prevhash to the tips in the ring. -/
theorem relation_eq (hle : r.count ≤ sv2TipRingLen) (poolPrev : Hash256) :
    sv2TipRelation r poolPrev =
      match r.tips.map Tip.hash with
      | [] => .noLocal
      | newest :: older =>
        if newest = poolPrev then .same else if poolPrev ∈ older then .behind else .ahead := by
  rw [map_hash_tips hle, sv2TipRelation]
  rcases hcount : r.count with - | k
  · rfl
  · have hfirst : Fin.ofNat sv2TipRingLen 0 = 0 := rfl
    have holder : ((List.range' 1 k).any fun i =>
        decide (r.hash (r.newest - Fin.ofNat sv2TipRingLen i) = poolPrev)) = true ↔
          poolPrev ∈ (List.range' 1 k).map fun i => r.hash (r.newest - Fin.ofNat sv2TipRingLen i) := by
      simp
    rw [List.range_eq_range', List.range'_succ, List.map_cons, hfirst, sub_zero]
    simp only [Nat.add_sub_cancel, holder, if_neg (Nat.succ_ne_zero k)]

end Sv2TipRing

/-! ### Runs -/

/-- The ring after any pushes. -/
theorem holds_run (pushes : List Tip) :
    (run sv2TipPush .empty pushes).Holds (tipHistory pushes) := by
  induction pushes using List.reverseRecOn with
  | nil => exact Sv2TipRing.holds_empty
  | append_singleton pushes tip ih =>
    rw [run_append, tipHistory_concat]
    exact ih.push tip

/-- **The tip ring.**  It holds the last eight pushes of the history without repeats, and a
prevhash is no tip at all before the first push, the newest entry, an older one and not the
newest, or none of them. -/
theorem tip_ring_holds_history (pushes : List Tip) (poolPrev : Hash256) :
    let r := run sv2TipPush .empty pushes
    let held := (tipHistory pushes).take sv2TipRingLen
    r.tips = held ∧
      (sv2TipRelation r poolPrev = .noLocal ↔ pushes = []) ∧
      (sv2TipRelation r poolPrev = .same ↔ held.head?.map Tip.hash = some poolPrev) ∧
      (sv2TipRelation r poolPrev = .behind ↔
        held.head?.map Tip.hash ≠ some poolPrev ∧ ∃ tip ∈ held.tail, tip.hash = poolPrev) ∧
      (sv2TipRelation r poolPrev = .ahead ↔
        pushes ≠ [] ∧ ∀ tip ∈ held, tip.hash ≠ poolPrev) := by
  intro r held
  have hholds := holds_run pushes
  have htips : r.tips = held := hholds.tips
  have hle : r.count ≤ sv2TipRingLen := by
    rw [hholds.count]
    exact Nat.min_le_right _ _
  have hempty : held = [] ↔ pushes = [] := by
    simp [held, tipHistory, List.destutter_eq_nil]
  refine ⟨htips, ?_⟩
  rw [Sv2TipRing.relation_eq hle, htips]
  rcases held with - | ⟨newest, older⟩
  · simp [hempty.mp rfl]
  · have hpushed : pushes ≠ [] := mt hempty.mpr (List.cons_ne_nil _ _)
    -- the newest entry decides first
    by_cases hsame : newest.hash = poolPrev
    · simp [hpushed, hsame]
    · by_cases hbehind : ∃ tip ∈ older, tip.hash = poolPrev
      · simp [hpushed, hsame, hbehind]
      · have holder : ∀ tip ∈ older, tip.hash ≠ poolPrev := fun tip hmem heq =>
          hbehind ⟨tip, hmem, heq⟩
        simpa [hpushed, hsame, hbehind] using holder

/-- Before the first push a prevhash is not ahead. -/
theorem no_push_not_ahead : sv2TipRelation (run sv2TipPush .empty []) .zero ≠ .ahead := by
  decide

end CashStratum
