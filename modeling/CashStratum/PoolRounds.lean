/-
CashStratum/PoolRounds.lean

The shares of a round (`stratifier.c`).  An accepted share is added to the unaccounted
counters of `pool_stats`, under `uastats_lock`; the thread of `statsupdate` takes these
away, lets go of that lock, and adds them to the accounted ones under `stats_lock`; and
a solve reads the unaccounted difficulty, reports the sum of both as the shares of the
round, and zeroes the accounted counters, each under a lock of its own.  So a machine
of three threads, whose steps are the pieces between two locks: any number of solves may
be under way at once.

The totals are `int64_t` and doubles in the source, and no total here comes near the
ends of these types; the decaying rates next to them are left out.
-/
import CashStratum.Difficulty
import CashStratum.Run
import Mathlib.Algebra.BigOperators.Group.List.Basic

namespace CashStratum

/-! ### The counters -/

/-- The share counters of `pool_stats`. -/
structure ShareStats where
  unaccountedShares : Int := 0
  accountedShares : Int := 0
  unaccountedDiffShares : Int := 0
  accountedDiffShares : Int := 0
  unaccountedRejects : Int := 0
  accountedRejects : Int := 0
deriving DecidableEq, Repr

/-- `INT64_MAX` -/
def int64Max : Int := 2 ^ 63 - 1

/-- `add_rejects` -/
def addRejects (total diff : Int) : Int :=
  let total := if total < 0 then 0 else total
  if diff ≤ 0 then total
  else if diff > int64Max - total then int64Max
  else total + diff

/-- `add_reject_diff` -/
def addRejectDiff (total : Int) (diff : ℚ) : Int :=
  if ¬0 < diff then addRejects total 0
  else if diff ≥ 2 ^ 63 then int64Max
  else addRejects total (truncate diff)

/-- What a client's rejects are credited at. -/
structure RejectCap where
  maxAcceptedDiff : ℚ
  startDiff : Int
deriving DecidableEq, Repr

/-- `credited_reject_diff` -/
def RejectCap.creditedRejectDiff (client : RejectCap) (diff : ℚ) : ℚ :=
  if client.maxAcceptedDiff > 0 then min diff client.maxAcceptedDiff else client.startDiff

namespace ShareStats

variable (stats : ShareStats)

/-- `unaccounted_shares++`, and `+=` of a double to the difficulty of the shares. -/
def addShare (diff : ℚ) : ShareStats :=
  { stats with
    unaccountedShares := stats.unaccountedShares + 1
    unaccountedDiffShares := truncate (stats.unaccountedDiffShares + diff) }

/-- `account_client_share` -/
def accountClientShare (client : RejectCap) (diff : ℚ) (valid : Bool) : ShareStats × RejectCap :=
  if valid then
    (stats.addShare diff,
      if diff > client.maxAcceptedDiff then { client with maxAcceptedDiff := diff } else client)
  else
    ({ stats with unaccountedRejects :=
        addRejectDiff stats.unaccountedRejects (client.creditedRejectDiff diff) }, client)

/-- `reset_pool_bestshares` -/
def resetPoolBestshares : ShareStats :=
  { stats with accountedDiffShares := 0, accountedShares := 0, accountedRejects := 0 }

end ShareStats

/-! ### The threads -/

/-- The unaccounted counters `statsupdate` holds between its two locks. -/
structure Moving where
  unaccountedShares : Int
  unaccountedDiffShares : Int
  unaccountedRejects : Int
deriving DecidableEq, Repr

/-- Where a solve is: with `uadiff` read by `block_share_summary`, or done with it. -/
inductive Solving
  | summary (uadiff : Int)
  | reset
deriving DecidableEq, Repr

/-- The line of `block_share_summary`: `sdiff` shares, and `bdiff` in percent. -/
structure Summary where
  sdiff : Int
  bdiff : ℚ
deriving DecidableEq, Repr

/-- The pool's counters, the network difficulty of its workbase, and its threads. -/
structure RoundState where
  stats : ShareStats
  clients : Nat → RejectCap
  currentWorkbase : Option ℚ
  moving : Option Moving
  solves : List (Nat × Solving)
  reports : List Summary

/-- What can happen. -/
inductive RoundEvent
  /-- `add_submit`: a share of a client at its difficulty. -/
  | addSubmit (client : Nat) (diff : Int) (valid : Bool)
  /-- `parse_remote_share` -/
  | remoteShare (diff : ℚ)
  /-- `add_base` -/
  | addBase (networkDiff : ℚ)
  /-- `statsupdate` takes the unaccounted counters. -/
  | statsTake
  /-- `statsupdate` adds them to the accounted ones. -/
  | statsAdd
  /-- A solve enters `block_share_summary`. -/
  | solve (thread : Nat)
  /-- It reports the round. -/
  | report (thread : Nat)
  /-- Its `reset_pool_bestshares`. -/
  | reset (thread : Nat)
deriving DecidableEq, Repr

namespace RoundState

variable (s : RoundState)

/-- The solve of a thread. -/
def solving (thread : Nat) : Option Solving :=
  (s.solves.find? fun entry => entry.1 = thread).map Prod.snd

/-- `add_submit` -/
def addSubmit (client : Nat) (diff : Int) (valid : Bool) : RoundState :=
  let (stats, cap) := s.stats.accountClientShare (s.clients client) diff valid
  { s with stats := stats, clients := Function.update s.clients client cap }

/-- `parse_remote_share` -/
def remoteShare (diff : ℚ) : RoundState :=
  if diff < 1 then s else { s with stats := s.stats.addShare diff }

/-- `statsupdate` up to the first unlock. -/
def statsTake : RoundState :=
  match s.moving with
  | some _ => s
  | none =>
    { s with
      stats := { s.stats with
        unaccountedShares := 0, unaccountedDiffShares := 0, unaccountedRejects := 0 }
      moving := some
        { unaccountedShares := s.stats.unaccountedShares
          unaccountedDiffShares := s.stats.unaccountedDiffShares
          unaccountedRejects := s.stats.unaccountedRejects } }

/-- `statsupdate` under `stats_lock`. -/
def statsAdd : RoundState :=
  match s.moving with
  | none => s
  | some moved =>
    { s with
      stats := { s.stats with
        accountedShares := s.stats.accountedShares + moved.unaccountedShares
        accountedDiffShares := s.stats.accountedDiffShares + moved.unaccountedDiffShares
        accountedRejects := addRejects s.stats.accountedRejects moved.unaccountedRejects }
      moving := none }

/-- `block_share_summary` up to the first unlock.  It returns at once when there is no
workbase, or none with a difficulty. -/
def solve (thread : Nat) : RoundState :=
  match s.solving thread with
  | some _ => s
  | none =>
    let next :=
      match s.currentWorkbase with
      | none => Solving.reset
      | some networkDiff =>
        if networkDiff = 0 then .reset else .summary s.stats.unaccountedDiffShares
    { s with solves := (thread, next) :: s.solves }

/-- The rest of `block_share_summary`. -/
def report (thread : Nat) : RoundState :=
  match s.solving thread with
  | some (.summary uadiff) =>
    let sdiff := s.stats.accountedDiffShares + uadiff
    { s with
      solves := (thread, .reset) :: s.solves.filter fun entry => entry.1 ≠ thread
      reports := s.reports ++ [{ sdiff, bdiff := sdiff / s.currentWorkbase.getD 0 * 100 }] }
  | _ => s

/-- `reset_pool_bestshares` at the end of a solve. -/
def reset (thread : Nat) : RoundState :=
  match s.solving thread with
  | some .reset =>
    { s with
      stats := s.stats.resetPoolBestshares
      solves := s.solves.filter fun entry => entry.1 ≠ thread }
  | _ => s

/-- One step. -/
def step : RoundEvent → RoundState
  | .addSubmit client diff valid => s.addSubmit client diff valid
  | .remoteShare diff => s.remoteShare diff
  | .addBase networkDiff => { s with currentWorkbase := some networkDiff }
  | .statsTake => s.statsTake
  | .statsAdd => s.statsAdd
  | .solve thread => s.solve thread
  | .report thread => s.report thread
  | .reset thread => s.reset thread

/-- The difficulty the status thread holds. -/
def movingDiff : Int := (s.moving.map Moving.unaccountedDiffShares).getD 0

/-- All difficulty the pool holds since the last reset. -/
def heldDiff : Int :=
  s.stats.accountedDiffShares + s.movingDiff + s.stats.unaccountedDiffShares

end RoundState

/-! ### Rounds -/

/-- The difficulties of the accepted shares, by round: those of the rounds that were
solved, and those since.  A round ends where its solve begins. -/
structure Rounds where
  solved : List (List ℚ)
  current : List ℚ
deriving DecidableEq, Repr

/-- A share is accepted. -/
def Rounds.accept (r : Rounds) (diff : ℚ) : Rounds := { r with current := r.current ++ [diff] }

/-- The rounds after an event. -/
def Rounds.next (r : Rounds) : RoundEvent → Rounds
  | .addSubmit _ diff valid => if valid then r.accept diff else r
  | .remoteShare diff => if diff < 1 then r else r.accept diff
  | .solve _ => { solved := r.solved ++ [r.current], current := [] }
  | _ => r

namespace RoundState

/-- **Every share is counted once**: when no solve is under way, the reports are of the
solved rounds, each with the difficulty of its shares, and the pool holds the
difficulty of the shares since. -/
def Exact (s : RoundState) (r : Rounds) : Prop :=
  s.solves = [] →
    s.reports.map (fun line => (line.sdiff : ℚ)) = r.solved.map List.sum ∧
      (s.heldDiff : ℚ) = r.current.sum

/-- What has to hold when a step is taken.  A solve begins when all difficulty is
accounted, with a workbase to report against and no other solve under way; the status
thread adds no difficulty during a solve; and a trusted server sends whole
difficulties. -/
def Sound (s : RoundState) : RoundEvent → Prop
  | .remoteShare diff => diff.den = 1
  | .solve _ =>
    s.solves = [] ∧ s.stats.unaccountedDiffShares = 0 ∧ s.movingDiff = 0 ∧
      s.currentWorkbase.getD 0 ≠ 0
  | .statsAdd => s.solves = [] ∨ s.movingDiff = 0
  | _ => True

instance : ∀ (s : RoundState) (e : RoundEvent), Decidable (s.Sound e)
  | _, .remoteShare _ => inferInstanceAs (Decidable (_ = _))
  | _, .solve _ => inferInstanceAs (Decidable (_ ∧ _))
  | _, .statsAdd => inferInstanceAs (Decidable (_ ∨ _))
  | _, .addSubmit .. => isTrue trivial
  | _, .addBase _ => isTrue trivial
  | _, .statsTake => isTrue trivial
  | _, .report _ => isTrue trivial
  | _, .reset _ => isTrue trivial

/-- The difficulty that is not accounted yet. -/
def pendingDiff (s : RoundState) : Int := s.movingDiff + s.stats.unaccountedDiffShares

/-- The invariant, by where the one solve is. -/
inductive Phase (s : RoundState) (r : Rounds) : Prop
  | between
      (hsolves : s.solves = [])
      (hreports : s.reports.map (fun line => (line.sdiff : ℚ)) = r.solved.map List.sum)
      (hheld : (s.stats.accountedDiffShares + s.pendingDiff : ℚ) = r.current.sum)
  | summary (thread : Nat) (solved : List (List ℚ)) (round : List ℚ)
      (hsolves : s.solves = [(thread, .summary 0)])
      (hsolved : r.solved = solved ++ [round])
      (hreports : s.reports.map (fun line => (line.sdiff : ℚ)) = solved.map List.sum)
      (haccounted : (s.stats.accountedDiffShares : ℚ) = round.sum)
      (hpending : (s.pendingDiff : ℚ) = r.current.sum)
  | reset (thread : Nat)
      (hsolves : s.solves = [(thread, .reset)])
      (hreports : s.reports.map (fun line => (line.sdiff : ℚ)) = r.solved.map List.sum)
      (hpending : (s.pendingDiff : ℚ) = r.current.sum)

/-! ### What a step does to the difficulty -/

/-- A step that reports and accounts nothing, with so much difficulty more to account. -/
structure Grows (s s' : RoundState) (diff : Int) : Prop where
  solves : s'.solves = s.solves
  reports : s'.reports = s.reports
  accounted : s'.stats.accountedDiffShares = s.stats.accountedDiffShares
  pending : s'.pendingDiff = s.pendingDiff + diff

variable {s s' : RoundState} {r : Rounds}

theorem Phase.grow (h : Phase s r) {diff : Int} (hgrow : Grows s s' diff) {current : List ℚ}
    (hsum : current.sum = r.current.sum + diff) : Phase s' { r with current } := by
  have hpending : (s'.pendingDiff : ℚ) = s.pendingDiff + diff := by
    rw [hgrow.pending]
    push_cast
    rfl
  cases h with
  | between hsolves hreports hheld =>
    refine .between (hgrow.solves.trans hsolves) (hgrow.reports ▸ hreports) ?_
    show (s'.stats.accountedDiffShares + s'.pendingDiff : ℚ) = current.sum
    rw [hgrow.accounted, hpending, hsum, ← hheld]
    ring
  | summary thread solved round hsolves hsolved hreports haccounted hpend =>
    refine .summary thread solved round (hgrow.solves.trans hsolves) hsolved
      (hgrow.reports ▸ hreports) (hgrow.accounted ▸ haccounted) ?_
    show (s'.pendingDiff : ℚ) = current.sum
    rw [hpending, hsum, hpend]
  | reset thread hsolves hreports hpend =>
    refine .reset thread (hgrow.solves.trans hsolves) (hgrow.reports ▸ hreports) ?_
    show (s'.pendingDiff : ℚ) = current.sum
    rw [hpending, hsum, hpend]

/-- A step that leaves all difficulty where it is. -/
theorem Phase.quiet (h : Phase s r) (hgrow : Grows s s' 0) : Phase s' r :=
  h.grow hgrow (by simp)

theorem Phase.accept (h : Phase s r) {diff : Int} (hgrow : Grows s s' diff) :
    Phase s' (r.accept diff) :=
  h.grow hgrow (by simp)

theorem truncate_intCast (n : Int) : truncate n = n := by
  rw [truncate]
  split_ifs
  · exact Int.floor_intCast n
  · exact Int.ceil_intCast n

/-- A whole difficulty is added as it is. -/
theorem addShare_unaccounted (stats : ShareStats) (diff : Int) :
    (stats.addShare diff).unaccountedDiffShares = stats.unaccountedDiffShares + diff := by
  show truncate ((stats.unaccountedDiffShares : ℚ) + (diff : ℚ)) = _
  rw [← Int.cast_add, truncate_intCast]

theorem Grows.addShare (s : RoundState) (diff : Int) :
    Grows s { s with stats := s.stats.addShare diff } diff where
  solves := rfl
  reports := rfl
  accounted := rfl
  pending := by
    show s.movingDiff + (s.stats.addShare diff).unaccountedDiffShares = _
    rw [addShare_unaccounted, pendingDiff]
    ring

theorem Phase.addSubmit (h : Phase s r) (client : Nat) (diff : Int) (valid : Bool) :
    Phase (s.step (.addSubmit client diff valid)) (r.next (.addSubmit client diff valid)) := by
  cases valid with
  | true =>
    have hgrow := Grows.addShare s diff
    exact h.accept { hgrow with }
  | false => exact h.quiet ⟨rfl, rfl, rfl, (Int.add_zero _).symm⟩

theorem Phase.remoteShare (h : Phase s r) {diff : ℚ} (hwhole : diff.den = 1) :
    Phase (s.step (.remoteShare diff)) (r.next (.remoteShare diff)) := by
  show Phase (s.remoteShare diff) (if diff < 1 then r else r.accept diff)
  rw [RoundState.remoteShare]
  split_ifs with hone
  · exact h
  · obtain ⟨n, rfl⟩ : ∃ n : Int, (n : ℚ) = diff := ⟨diff.num, Rat.den_eq_one_iff diff |>.mp hwhole⟩
    exact h.accept (Grows.addShare s n)

theorem Grows.statsTake (s : RoundState) : Grows s s.statsTake 0 := by
  rw [RoundState.statsTake]
  cases hmoving : s.moving with
  | some moved => exact ⟨rfl, rfl, rfl, (Int.add_zero _).symm⟩
  | none =>
    refine ⟨rfl, rfl, rfl, ?_⟩
    rw [pendingDiff, pendingDiff, movingDiff, movingDiff, hmoving]
    show s.stats.unaccountedDiffShares + 0 = 0 + s.stats.unaccountedDiffShares + 0
    ring

/-- Adding what was taken accounts it. -/
theorem statsAdd_spec (s : RoundState) :
    s.statsAdd.solves = s.solves ∧ s.statsAdd.reports = s.reports ∧
      s.statsAdd.stats.accountedDiffShares = s.stats.accountedDiffShares + s.movingDiff ∧
      s.statsAdd.pendingDiff = s.pendingDiff - s.movingDiff := by
  rw [statsAdd]
  cases hmoving : s.moving with
  | none =>
    have hdiff : s.movingDiff = 0 := by
      rw [movingDiff, hmoving]
      rfl
    rw [hdiff]
    exact ⟨rfl, rfl, (Int.add_zero _).symm, (Int.sub_zero _).symm⟩
  | some moved =>
    have hdiff : s.movingDiff = moved.unaccountedDiffShares := by
      rw [movingDiff, hmoving]
      rfl
    refine ⟨rfl, rfl, by rw [hdiff], ?_⟩
    rw [pendingDiff, pendingDiff, hdiff]
    show 0 + s.stats.unaccountedDiffShares = _
    ring

theorem Phase.statsAdd (h : Phase s r) (hsound : s.solves = [] ∨ s.movingDiff = 0) :
    Phase s.statsAdd r := by
  obtain ⟨hsolves', hreports', haccounted, hpending⟩ := statsAdd_spec s
  by_cases hdiff : s.movingDiff = 0
  · rw [hdiff] at haccounted hpending
    exact h.quiet ⟨hsolves', hreports', haccounted.trans (Int.add_zero _),
      hpending.trans ((Int.sub_zero _).trans (Int.add_zero _).symm)⟩
  · have hidle := hsound.resolve_right hdiff
    cases h with
    | between hsolves hreports hheld =>
      refine .between (hsolves'.trans hsolves) (hreports' ▸ hreports) ?_
      rw [haccounted, hpending, ← hheld]
      push_cast
      ring
    | summary thread solved round hsolves =>
      rw [hidle] at hsolves
      cases hsolves
    | reset thread hsolves =>
      rw [hidle] at hsolves
      cases hsolves

/-! ### A solve -/

theorem Phase.solve (h : Phase s r) (thread : Nat) (hsound : s.Sound (.solve thread)) :
    Phase (s.step (.solve thread)) (r.next (.solve thread)) := by
  obtain ⟨hidle, hunaccounted, hmoving, hbase⟩ := hsound
  have hpending : s.pendingDiff = 0 := by
    rw [pendingDiff, hmoving, hunaccounted]
    rfl
  have hstep : s.solve thread = { s with solves := [(thread, .summary 0)] } := by
    have hfree : s.solving thread = none := by
      rw [solving, hidle]
      rfl
    rw [RoundState.solve, hfree]
    cases hcur : s.currentWorkbase with
    | none =>
      rw [hcur] at hbase
      exact absurd rfl hbase
    | some networkDiff =>
      rw [hcur] at hbase
      have hne : networkDiff ≠ 0 := hbase
      dsimp only
      rw [if_neg hne, hidle, hunaccounted]
  show Phase (s.solve thread) _
  rw [hstep]
  cases h with
  | between hsolves hreports hheld =>
    refine .summary thread r.solved r.current rfl rfl hreports ?_ ?_
    · rw [← hheld, hpending, Int.cast_zero, add_zero]
    · show ((s.pendingDiff : Int) : ℚ) = ([] : List ℚ).sum
      rw [hpending, Int.cast_zero, List.sum_nil]
  | summary other solved round hsolves =>
    rw [hidle] at hsolves
    cases hsolves
  | reset other hsolves =>
    rw [hidle] at hsolves
    cases hsolves

/-- The threads that are not the one that solves do nothing. -/
theorem solving_single {thread other : Nat} {at' : Solving} (h : s.solves = [(thread, at')]) :
    s.solving other = if thread = other then some at' else none := by
  rw [solving, h, List.find?_singleton]
  by_cases heq : thread = other
  · rw [if_pos heq, if_pos (decide_eq_true heq)]
    rfl
  · rw [if_neg heq, if_neg (by simpa using heq)]
    rfl

theorem solving_nil {thread : Nat} (h : s.solves = []) : s.solving thread = none := by
  rw [solving, h]
  rfl

theorem Phase.report (h : Phase s r) (thread : Nat) : Phase (s.report thread) r := by
  rw [RoundState.report]
  cases h with
  | between hsolves hreports hheld =>
    rw [solving_nil hsolves]
    exact .between hsolves hreports hheld
  | reset other hsolves hreports hpending =>
    rw [solving_single hsolves]
    by_cases heq : other = thread
    · rw [if_pos heq]
      exact .reset other hsolves hreports hpending
    · rw [if_neg heq]
      exact .reset other hsolves hreports hpending
  | summary other solved round hsolves hsolved hreports haccounted hpending =>
    rw [solving_single hsolves]
    by_cases heq : other = thread
    · subst heq
      rw [if_pos rfl]
      refine .reset other ?_ ?_ hpending
      · show (other, Solving.reset) :: List.filter _ s.solves = _
        rw [hsolves]
        simp
      · show List.map _ (s.reports ++ [_]) = _
        rw [hsolved, List.map_append, List.map_append, hreports]
        simp [haccounted]
    · rw [if_neg heq]
      exact .summary other solved round hsolves hsolved hreports haccounted hpending

theorem Phase.resetStep (h : Phase s r) (thread : Nat) : Phase (s.reset thread) r := by
  rw [RoundState.reset]
  cases h with
  | between hsolves hreports hheld =>
    rw [solving_nil hsolves]
    exact .between hsolves hreports hheld
  | summary other solved round hsolves hsolved hreports haccounted hpending =>
    rw [solving_single hsolves]
    by_cases heq : other = thread
    · rw [if_pos heq]
      exact .summary other solved round hsolves hsolved hreports haccounted hpending
    · rw [if_neg heq]
      exact .summary other solved round hsolves hsolved hreports haccounted hpending
  | reset other hsolves hreports hpending =>
    rw [solving_single hsolves]
    by_cases heq : other = thread
    · subst heq
      rw [if_pos rfl]
      refine .between ?_ hreports ?_
      · show List.filter _ s.solves = []
        rw [hsolves]
        simp
      · show (((0 : Int) : ℚ) + (s.pendingDiff : ℚ)) = _
        rw [Int.cast_zero, zero_add, hpending]
    · rw [if_neg heq]
      exact .reset other hsolves hreports hpending

/-- **One step.** -/
theorem Phase.step (h : Phase s r) (e : RoundEvent) (hsound : s.Sound e) :
    Phase (s.step e) (r.next e) := by
  cases e with
  | addSubmit client diff valid => exact h.addSubmit client diff valid
  | remoteShare diff => exact h.remoteShare hsound
  | addBase networkDiff => exact h.quiet ⟨rfl, rfl, rfl, (Int.add_zero _).symm⟩
  | statsTake => exact h.quiet (Grows.statsTake s)
  | statsAdd => exact h.statsAdd hsound
  | solve thread => exact h.solve thread hsound
  | report thread => exact h.report thread
  | reset thread => exact h.resetStep thread

theorem Phase.exact (h : Phase s r) : s.Exact r := by
  intro hidle
  cases h with
  | between hsolves hreports hheld =>
    refine ⟨hreports, ?_⟩
    rw [← hheld, heldDiff, pendingDiff]
    push_cast
    ring
  | summary thread solved round hsolves =>
    rw [hidle] at hsolves
    cases hsolves
  | reset thread hsolves =>
    rw [hidle] at hsolves
    cases hsolves

/-- **The shares of every round.**  From a start with nothing reported, and along a run
whose steps are all sound, each solved round was reported with the difficulty of
exactly its own shares, and the pool holds the difficulty of the shares since the last
solve; what was restored at the start belongs to the first round. -/
theorem rounds_exact (s : RoundState) (hidle : s.solves = []) (hnew : s.reports = [])
    (events : List RoundEvent) (hsound : Along step Sound s events) :
    (run step s events).Exact (run Rounds.next ⟨[], [(s.heldDiff : ℚ)]⟩ events) := by
  have hstart : Phase s ⟨[], [(s.heldDiff : ℚ)]⟩ := by
    refine .between hidle (by rw [hnew]; rfl) ?_
    rw [List.sum_singleton, heldDiff, pendingDiff]
    push_cast
    ring
  exact (run_simulates (fun _ _ e he h => h.step e he) hsound hstart).exact

/-- The pool before its first share. -/
def exampleRounds : RoundState where
  stats := {}
  clients _ := { maxAcceptedDiff := 0, startDiff := 42 }
  currentWorkbase := none
  moving := none
  solves := []
  reports := []

/-- Two shares, the second in the middle of the solve that reports the first. -/
def exampleSolve : List RoundEvent :=
  [.addBase 100, .addSubmit 0 5 true, .statsTake, .statsAdd, .solve 1, .addSubmit 0 7 true,
    .report 1, .reset 1]

example : (run step exampleRounds exampleSolve).reports.map Summary.sdiff = [5] := by
  decide +kernel

theorem rounds_exact_example :
    (run step exampleRounds exampleSolve).Exact (run Rounds.next ⟨[], [0]⟩ exampleSolve) :=
  rounds_exact exampleRounds rfl rfl exampleSolve (by decide)

/-- **A share that is not accounted when its round is solved is reported again**: two
solves, one share of difficulty 5, and both report 5. -/
theorem share_counted_twice :
    let events : List RoundEvent :=
      [.addBase 100, .addSubmit 0 5 true, .solve 1, .report 1, .reset 1,
        .statsTake, .statsAdd, .solve 1, .report 1, .reset 1]
    let s := run step exampleRounds events
    let r := run Rounds.next ⟨[], [0]⟩ events
    s.reports.map Summary.sdiff = [5, 5] ∧ r = ⟨[[0, 5], []], []⟩ ∧ ¬s.Exact r := by
  refine ⟨by decide +kernel, by decide +kernel, fun hexact => ?_⟩
  exact absurd (hexact (by decide +kernel)).1 (by decide +kernel)

/-- **One solve, with nothing in between**, is exact when everything was accounted, and
only then. -/
theorem solve_exact_iff (hidle : s.solves = []) (hexact : s.Exact r) (thread : Nat)
    (hbase : s.currentWorkbase.getD 0 ≠ 0) :
    (run step s [.solve thread, .report thread, .reset thread]).Exact
        (run Rounds.next r [.solve thread, .report thread, .reset thread]) ↔
      s.movingDiff = 0 ∧ s.stats.unaccountedDiffShares = 0 := by
  obtain ⟨hreports, hheld⟩ := hexact hidle
  set sdiff := s.stats.accountedDiffShares + s.stats.unaccountedDiffShares with hsdiff
  have hrun : run step s [.solve thread, .report thread, .reset thread] =
      { s with
        stats := s.stats.resetPoolBestshares
        reports := s.reports ++ [⟨sdiff, sdiff / s.currentWorkbase.getD 0 * 100⟩] } := by
    show ((s.solve thread).report thread).reset thread = _
    have hsolve : s.solve thread =
        { s with solves := [(thread, .summary s.stats.unaccountedDiffShares)] } := by
      rw [RoundState.solve, solving_nil hidle]
      cases hcur : s.currentWorkbase with
      | none =>
        rw [hcur] at hbase
        exact absurd rfl hbase
      | some networkDiff =>
        rw [hcur] at hbase
        have hne : networkDiff ≠ 0 := hbase
        dsimp only
        rw [if_neg hne, hidle]
    rw [hsolve, RoundState.report, solving_single rfl, if_pos rfl]
    simp [RoundState.reset, solving, hidle, hsdiff]
  have hround : run Rounds.next r [.solve thread, .report thread, .reset thread] =
      ⟨r.solved ++ [r.current], []⟩ := rfl
  rw [hrun, hround]
  -- what the solve reports, and what it leaves
  have hlines : ((s.reports ++ [(⟨sdiff, sdiff / s.currentWorkbase.getD 0 * 100⟩ : Summary)]).map
      (fun line => (line.sdiff : ℚ)) = (r.solved ++ [r.current]).map List.sum) ↔
        s.movingDiff = 0 := by
    rw [List.map_append, List.map_append, hreports, List.append_cancel_left_eq]
    show [(sdiff : ℚ)] = [r.current.sum] ↔ s.movingDiff = 0
    rw [List.singleton_inj, ← hheld, Int.cast_inj, hsdiff, heldDiff]
    omega
  have hleft : ((0 + s.movingDiff + s.stats.unaccountedDiffShares : Int) : ℚ) =
      ([] : List ℚ).sum ↔ s.movingDiff + s.stats.unaccountedDiffShares = 0 := by
    rw [List.sum_nil, Int.cast_eq_zero, zero_add]
  constructor
  · intro h
    obtain ⟨hreported, hzero⟩ := h hidle
    have hmoving := hlines.mp hreported
    have hpending := hleft.mp hzero
    rw [hmoving, zero_add] at hpending
    exact ⟨hmoving, hpending⟩
  · rintro ⟨hmoving, hunaccounted⟩ -
    refine ⟨hlines.mpr hmoving, hleft.mpr ?_⟩
    rw [hmoving, hunaccounted, zero_add]

end RoundState

end CashStratum
