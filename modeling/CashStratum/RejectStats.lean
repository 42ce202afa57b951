/-
CashStratum/RejectStats.lean

The counters of rejected shares that a user and a worker have (`stratifier.c`).

Rejected difficulty is credited one share at a time, cut to an integer, and saturates.
`Tallies` says what the counters are of a list of credits: their number, overall and by
class, and their sum up to `INT64_MAX`.  The decaying rates beside the counters are left
out.
-/
import CashStratum.PoolRounds
import Mathlib.Algebra.Order.BigOperators.Group.List

namespace CashStratum

namespace Rejects

/-- `enum reject_bucket` -/
inductive RejectBucket
  | stale
  | duplicate
  | lowdiff
  | ntime
  | badjob
  | malformed
  | worker
deriving DecidableEq

/-- Every class is always reported. -/
def RejectBucket.all : List RejectBucket :=
  [.stale, .duplicate, .lowdiff, .ntime, .badjob, .malformed, .worker]

/-- `reject_stats_t` -/
structure RejectStats where
  rejected : Int := 0
  count : Nat := 0
  buckets : RejectBucket → Nat := fun _ => 0
  lastReject : Int := 0
  lastReason : Option String := none

namespace RejectStats

/-- `add_reject` -/
def addReject (rs : RejectStats) (diff : ℚ) (bucket : RejectBucket) (reason : String)
    (now : Int) : RejectStats where
  rejected := addRejectDiff rs.rejected diff
  count := rs.count + 1
  buckets := Function.update rs.buckets bucket (rs.buckets bucket + 1)
  lastReject := now
  lastReason := some reason

/-- The sum of the classes. -/
def bucketSum (rs : RejectStats) : Nat := (RejectBucket.all.map rs.buckets).sum

end RejectStats

/-! ### Saturation -/

/-- What a credit adds: a difficulty that is not positive adds nothing. -/
def creditedAmount (diff : ℚ) : Int := max 0 (truncate diff)

/-- The saturating sum of difficulties. -/
def saturatingSum (diffs : List ℚ) : Int := min int64Max (diffs.map creditedAmount).sum

theorem sum_creditedAmount_nonneg (diffs : List ℚ) : 0 ≤ (diffs.map creditedAmount).sum := by
  apply List.sum_nonneg
  intro d hd
  obtain ⟨d', -, rfl⟩ := List.mem_map.mp hd
  exact le_max_left 0 _

theorem saturatingSum_nonneg (diffs : List ℚ) : 0 ≤ saturatingSum diffs :=
  le_min (by decide) (sum_creditedAmount_nonneg diffs)

theorem saturatingSum_le (diffs : List ℚ) : saturatingSum diffs ≤ int64Max := min_le_left _ _

theorem saturatingSum_le_append (diffs more : List ℚ) :
    saturatingSum diffs ≤ saturatingSum (diffs ++ more) := by
  apply min_le_min_left
  rw [List.map_append, List.sum_append]
  linarith [sum_creditedAmount_nonneg more]

theorem truncate_nonpos {diff : ℚ} (h : diff ≤ 0) : truncate diff ≤ 0 := by
  rw [truncate]
  split_ifs with hzero
  · rw [le_antisymm h hzero, Int.floor_zero]
  · exact Int.ceil_nonpos.mpr h

theorem addRejects_eq {total : Int} (h : 0 ≤ total) (hmax : total ≤ int64Max) (diff : Int) :
    addRejects total diff = min int64Max (total + max 0 diff) := by
  rw [addRejects, if_neg (not_lt.mpr h)]
  split_ifs <;> omega

/-- **Credits add up.**  `add_reject_diff` goes from the sum of the credits so far to the
sum with one more. -/
theorem addRejectDiff_saturatingSum (diffs : List ℚ) (diff : ℚ) :
    addRejectDiff (saturatingSum diffs) diff = saturatingSum (diffs ++ [diff]) := by
  have hsum := sum_creditedAmount_nonneg diffs
  have hnonneg := saturatingSum_nonneg diffs
  have hmax := saturatingSum_le diffs
  have hlimit : int64Max = 2 ^ 63 - 1 := rfl
  have hnow : saturatingSum diffs = min int64Max (diffs.map creditedAmount).sum := rfl
  have hnext : saturatingSum (diffs ++ [diff]) =
      min int64Max ((diffs.map creditedAmount).sum + creditedAmount diff) := by
    simp [saturatingSum]
  rw [hnext, addRejectDiff]
  by_cases hpos : 0 < diff
  · rw [if_neg (not_not.mpr hpos)]
    by_cases hlarge : diff ≥ 2 ^ 63
    · have hle : 2 ^ 63 ≤ truncate diff := by
        rw [truncate, if_pos hpos.le]
        exact Int.le_floor.mpr (by exact_mod_cast hlarge)
      have hamount : 2 ^ 63 ≤ creditedAmount diff := hle.trans (le_max_right 0 _)
      rw [if_pos hlarge]
      omega
    · rw [if_neg hlarge, addRejects_eq hnonneg hmax, ← creditedAmount]
      have hamount : 0 ≤ creditedAmount diff := le_max_left 0 _
      omega
  · have hzero : creditedAmount diff = 0 := max_eq_left (truncate_nonpos (not_lt.mp hpos))
    rw [if_pos hpos, addRejects_eq hnonneg hmax, hzero]
    omega

/-! ### The counters -/

namespace RejectStats

theorem bucketSum_addReject (rs : RejectStats) (diff : ℚ) (bucket : RejectBucket)
    (reason : String) (now : Int) :
    (rs.addReject diff bucket reason now).bucketSum = rs.bucketSum + 1 := by
  cases bucket <;> simp [bucketSum, addReject, RejectBucket.all, Function.update] <;> omega

/-- The counters are those of these credits. -/
structure Tallies (rs : RejectStats) (diffs : List ℚ) : Prop where
  count : rs.count = diffs.length
  buckets : rs.bucketSum = rs.count
  rejected : rs.rejected = saturatingSum diffs

theorem tallies_start : Tallies {} [] := ⟨rfl, rfl, rfl⟩

theorem Tallies.addReject {rs : RejectStats} {diffs : List ℚ} (h : rs.Tallies diffs) (diff : ℚ)
    (bucket : RejectBucket) (reason : String) (now : Int) :
    (rs.addReject diff bucket reason now).Tallies (diffs ++ [diff]) where
  count := by
    rw [List.length_append, ← h.count]
    rfl
  buckets := by
    rw [bucketSum_addReject, h.buckets]
    rfl
  rejected := by
    rw [← addRejectDiff_saturatingSum, ← h.rejected]
    rfl

end RejectStats

end Rejects

end CashStratum
