/-
CashStratum/Deliver.lean

The delivery of events to the webhook (`notifier/deliver.go`): a queue of 64 events, the event
in flight outside of it, and the file that holds both for the next process.

`Notifier` keeps beside the deliverer what became of each event that was accepted, and each
drop for lack of room; no code reads these.  `Accounted` is that nothing is lost in silence.
A delivery that a shutdown breaks off puts its event back at the front of the queue, and when
the queue is full `finishInflight` cuts the newest event off its end and counts nothing; that is
the one step after which the account is wrong (`step_accounted_iff`), so a run is accounted for
exactly if it has no such step (`accounted_iff`).

The file holds the events themselves; their JSON is left out, and so is the wake-up channel.
-/
import CashStratum.Run
import Mathlib.Data.List.Count
import Mathlib.Data.List.Perm.Basic
import Mathlib.Tactic.ByCases

namespace CashStratum.Deliver

/-! ### One delivery -/

/-- What an attempt meets: a shutdown in the wait before it, the status of the reply if there
is one, and a shutdown by the time it returns. -/
structure Attempt where
  cancelledWaiting : Bool := false
  reply : Option Nat
  cancelled : Bool := false

/-- What becomes of an event. -/
inductive Outcome where
  | sent
  | refused
  | dropped
  | logged
  | aborted
  deriving DecidableEq

/-- The retry loop of `deliverWithRetry`, from an attempt on. -/
def attemptLoop (attempts : Nat → Attempt) : Nat → List Nat → Outcome
  | _, [] => .logged
  | i, delay :: delays =>
    if delay > 0 ∧ (attempts i).cancelledWaiting then .aborted
    else
      match (attempts i).reply with
      | none =>
        if (attempts i).cancelled then .aborted
        else if delays = [] then .dropped
        else attemptLoop attempts (i + 1) delays
      | some status =>
        if 200 ≤ status ∧ status < 300 then .sent
        else if 400 ≤ status ∧ status < 500 then .refused
        else if delays = [] then .dropped
        else attemptLoop attempts (i + 1) delays

/-- The notifier's settings, and which events have a JSON body with an envelope. -/
structure Conf (E : Type*) where
  dryRun : Bool
  retryDelays : List Nat
  marshals : E → Bool

variable {E : Type*} (c : Conf E)

/-- `deliverWithRetry`; it returns false for `aborted` and true for the others. -/
def deliverWithRetry (attempts : Nat → Attempt) (event : E) : Outcome :=
  if c.marshals event = false then .dropped
  else if c.dryRun then .logged
  else attemptLoop attempts 0 (0 :: c.retryDelays)

theorem attemptLoop_ne_logged (attempts : Nat → Attempt) (i : Nat) (delays : List Nat)
    (h : delays ≠ []) : attemptLoop attempts i delays ≠ .logged := by
  induction delays generalizing i with
  | nil => exact absurd rfl h
  | cons delay delays ih =>
    have hnext : (if delays = [] then Outcome.dropped else attemptLoop attempts (i + 1) delays) ≠
        .logged := by
      split_ifs with hlast
      · simp
      · exact ih (i + 1) hlast
    rw [attemptLoop]
    generalize (if delays = [] then Outcome.dropped else attemptLoop attempts (i + 1) delays) =
      next at hnext ⊢
    by_cases hwait : delay > 0 ∧ (attempts i).cancelledWaiting = true
    · rw [if_pos hwait]
      simp
    rw [if_neg hwait]
    cases (attempts i).reply with
    | none =>
      dsimp only
      by_cases hcancelled : (attempts i).cancelled = true
      · rw [if_pos hcancelled]
        simp
      · rwa [if_neg hcancelled]
    | some status =>
      dsimp only
      by_cases hsent : 200 ≤ status ∧ status < 300
      · rw [if_pos hsent]
        simp
      rw [if_neg hsent]
      by_cases hrefused : 400 ≤ status ∧ status < 500
      · rw [if_pos hrefused]
        simp
      · rwa [if_neg hrefused]

/-- Outside a dry run, an event is never only logged. -/
theorem deliverWithRetry_ne_logged {c : Conf E} (h : c.dryRun = false)
    (attempts : Nat → Attempt) (event : E) : deliverWithRetry c attempts event ≠ .logged := by
  rw [deliverWithRetry, h]
  split_ifs
  · simp
  · contradiction
  · exact attemptLoop_ne_logged attempts 0 _ (List.cons_ne_nil _ _)

/-! ### The queue -/

/-- `deliverQueueCapacity` -/
def deliverQueueCapacity : Nat := 64

/-- The state of a process; `pathSet` is whether it has its queue file. -/
structure Deliverer (E : Type*) where
  queue : List E := []
  inflight : Option E := none
  pathSet : Bool := false
  eventsSent : Nat := 0
  eventsDropped : Nat := 0

/-- A drop for lack of room: the events that waited, those dropped and those kept. -/
structure Shed (E : Type*) where
  waiting : List E
  dropped : List E
  kept : List E

/-- The process with its file, and what became of the events of all processes so far. -/
structure Notifier (E : Type*) where
  d : Deliverer E := {}
  file : List E := []
  accepted : List E := []
  sent : List E := []
  refused : List E := []
  dropped : List E := []
  sentBefore : Nat := 0
  droppedBefore : Nat := 0
  sheds : List (Shed E) := []

/-- What may happen. -/
inductive Event (E : Type*) where
  | enqueue (event : E)
  | dequeue
  | deliver (attempts : Nat → Attempt)
  | setQueuePath
  /-- The process stops and a new one starts. -/
  | restart

namespace Notifier

variable (s : Notifier E)

/-- `persistLocked` -/
def persistLocked : Notifier E :=
  if s.d.pathSet then { s with file := s.d.inflight.toList ++ s.d.queue } else s

/-- `Enqueue` -/
def enqueue (event : E) : Notifier E :=
  let queue := s.d.queue
  let s := { s with accepted := s.accepted ++ [event] }
  if queue.length ≥ deliverQueueCapacity then
    persistLocked { s with
      d := { s.d with
        queue := queue.drop 1 ++ [event]
        eventsDropped := s.d.eventsDropped + 1 }
      dropped := s.dropped ++ queue.take 1
      sheds := s.sheds ++ [⟨queue ++ [event], queue.take 1, queue.drop 1 ++ [event]⟩] }
  else persistLocked { s with d := { s.d with queue := queue ++ [event] } }

/-- `dequeue`, which `Run` calls when nothing is in flight. -/
def dequeue : Notifier E :=
  match s.d.inflight, s.d.queue with
  | none, item :: queue => { s with d := { s.d with queue, inflight := some item } }
  | _, _ => s

/-- `finishInflight(true)` -/
def finishCompleted : Notifier E :=
  persistLocked { s with d := { s.d with inflight := none } }

/-- `finishInflight(false)` -/
def finishAborted : Notifier E :=
  let requeued := s.d.inflight.toList ++ s.d.queue
  if requeued.length > deliverQueueCapacity then
    persistLocked { s with
      d := { s.d with queue := requeued.take deliverQueueCapacity, inflight := none }
      sheds := s.sheds ++ [⟨requeued, requeued.drop deliverQueueCapacity,
        requeued.take deliverQueueCapacity⟩] }
  else persistLocked { s with d := { s.d with queue := requeued, inflight := none } }

/-- The delivery of the event in flight, and its end. -/
def deliver (attempts : Nat → Attempt) : Notifier E :=
  match s.d.inflight with
  | none => s
  | some event =>
    match deliverWithRetry c attempts event with
    | .sent =>
      finishCompleted { s with
        d := { s.d with eventsSent := s.d.eventsSent + 1 }
        sent := s.sent ++ [event] }
    | .refused => finishCompleted { s with refused := s.refused ++ [event] }
    | .dropped =>
      finishCompleted { s with
        d := { s.d with eventsDropped := s.d.eventsDropped + 1 }
        dropped := s.dropped ++ [event] }
    | .logged => s.finishCompleted
    | .aborted => s.finishAborted

/-- `SetQueuePath`, once in a process. -/
def setQueuePath : Notifier E :=
  if s.d.pathSet then s
  else
    let merged := s.file ++ s.d.queue
    let excess := merged.length - deliverQueueCapacity
    let d := { s.d with pathSet := true }
    if s.file ≠ [] then
      if merged.length > deliverQueueCapacity then
        persistLocked { s with
          d := { d with
            queue := merged.drop excess
            eventsDropped := s.d.eventsDropped + excess }
          dropped := s.dropped ++ merged.take excess
          sheds := s.sheds ++ [⟨merged, merged.take excess, merged.drop excess⟩] }
      else persistLocked { s with d := { d with queue := merged } }
    else if s.d.queue ≠ [] ∨ s.d.inflight.isSome then persistLocked { s with d }
    else { s with d }

/-- A new process; the one before it had its file. -/
def restart : Notifier E :=
  if s.d.pathSet then
    { s with
      d := {}
      sentBefore := s.sentBefore + s.d.eventsSent
      droppedBefore := s.droppedBefore + s.d.eventsDropped }
  else s

def step : Event E → Notifier E
  | .enqueue event => s.enqueue event
  | .dequeue => s.dequeue
  | .deliver attempts => s.deliver c attempts
  | .setQueuePath => s.setQueuePath
  | .restart => s.restart

/-! ### The account -/

/-- The events that are still to be delivered: in flight, in the queue, and before the file is
loaded in the file. -/
def pending : List E :=
  (if s.d.pathSet then [] else s.file) ++ (s.d.inflight.toList ++ s.d.queue)

end Notifier

/-- Nothing is lost in silence. -/
structure Accounted (s : Notifier E) : Prop where
  accepted : s.accepted.Perm (s.sent ++ s.refused ++ s.dropped ++ s.pending)
  sent : s.sent.length = s.sentBefore + s.d.eventsSent
  dropped : s.dropped.length = s.droppedBefore + s.d.eventsDropped
  persisted : s.d.pathSet = true → s.file = s.d.inflight.toList ++ s.d.queue
  oldest : ∀ shed ∈ s.sheds, shed.waiting = shed.dropped ++ shed.kept

/-- The queue has no more than its room. -/
def Bounded (s : Notifier E) : Prop := s.d.queue.length ≤ deliverQueueCapacity

/-- When a shutdown breaks a delivery off, there is room in the queue. -/
def Roomy (s : Notifier E) : Event E → Prop
  | .deliver attempts => ∀ event ∈ s.d.inflight,
      deliverWithRetry c attempts event = .aborted → s.d.queue.length < deliverQueueCapacity
  | _ => True

/-! ### The steps -/

variable {c} {s : Notifier E}

/-- Lists that hold the same, by counting. -/
theorem perm_of_count [DecidableEq E] {a b a' b' : List E} (h : a.Perm b)
    (hcount : ∀ e, a'.count e + b.count e = b'.count e + a.count e) : a'.Perm b' := by
  apply List.perm_iff_count.mpr
  intro e
  have hab := List.perm_iff_count.mp h e
  have := hcount e
  omega

theorem pending_persistLocked (s : Notifier E) : s.persistLocked.pending = s.pending := by
  rw [Notifier.persistLocked]
  split_ifs with h
  · rw [Notifier.pending, Notifier.pending, if_pos h, if_pos h]
  · rfl

/-- Writing the file makes it right. -/
theorem Accounted.of_persistLocked
    (haccepted : s.accepted.Perm (s.sent ++ s.refused ++ s.dropped ++ s.pending))
    (hsent : s.sent.length = s.sentBefore + s.d.eventsSent)
    (hdropped : s.dropped.length = s.droppedBefore + s.d.eventsDropped)
    (holdest : ∀ shed ∈ s.sheds, shed.waiting = shed.dropped ++ shed.kept) :
    Accounted s.persistLocked := by
  have hpending := pending_persistLocked s
  rw [Notifier.persistLocked] at hpending ⊢
  split_ifs at hpending ⊢ with h
  · exact ⟨hpending.symm ▸ haccepted, hsent, hdropped, fun _ => rfl, holdest⟩
  · exact ⟨haccepted, hsent, hdropped, fun hset => absurd hset h, holdest⟩

/-- One more drop from the front. -/
theorem oldest_append {sheds : List (Shed E)}
    (h : ∀ shed ∈ sheds, shed.waiting = shed.dropped ++ shed.kept) {shed : Shed E}
    (hshed : shed.waiting = shed.dropped ++ shed.kept) :
    ∀ shed' ∈ sheds ++ [shed], shed'.waiting = shed'.dropped ++ shed'.kept := by
  intro shed' hmem
  obtain hmem | hmem := List.mem_append.mp hmem
  · exact h shed' hmem
  · rw [List.mem_singleton.mp hmem]
    exact hshed

theorem Accounted.enqueue (h : Accounted s) (event : E) : Accounted (s.enqueue event) := by
  classical
  rw [Notifier.enqueue]
  dsimp only
  split_ifs with hfull
  · have hsplit : s.d.queue.take 1 ++ s.d.queue.drop 1 = s.d.queue := List.take_append_drop 1 _
    have hlen : (s.d.queue.take 1).length = 1 := by
      rw [List.length_take]
      have : 1 ≤ deliverQueueCapacity := by decide
      omega
    refine Accounted.of_persistLocked ?_ h.sent ?_ (oldest_append h.oldest ?_)
    · refine perm_of_count h.accepted fun e => ?_
      have hcount := congrArg (List.count e) hsplit
      simp only [Notifier.pending, List.count_append] at hcount ⊢
      omega
    · show (s.dropped ++ s.d.queue.take 1).length = s.droppedBefore + (s.d.eventsDropped + 1)
      rw [List.length_append, hlen, h.dropped, Nat.add_assoc]
    · show s.d.queue ++ [event] = s.d.queue.take 1 ++ (s.d.queue.drop 1 ++ [event])
      rw [← List.append_assoc, hsplit]
  · refine Accounted.of_persistLocked ?_ h.sent h.dropped h.oldest
    refine perm_of_count h.accepted fun e => ?_
    simp only [Notifier.pending, List.count_append]
    omega

theorem Accounted.dequeue (h : Accounted s) : Accounted s.dequeue := by
  rw [Notifier.dequeue]
  split
  next hinflight hqueue =>
    refine ⟨?_, h.sent, h.dropped, ?_, h.oldest⟩
    · have haccepted := h.accepted
      rw [Notifier.pending, hinflight, hqueue] at haccepted
      exact haccepted
    · intro hset
      have hfile := h.persisted hset
      rw [hinflight, hqueue] at hfile
      exact hfile
  next => exact h

theorem Accounted.setQueuePath (h : Accounted s) : Accounted s.setQueuePath := by
  classical
  rw [Notifier.setQueuePath]
  by_cases hset : s.d.pathSet = true
  · rw [if_pos hset]
    exact h
  rw [if_neg hset]
  have hpending : s.pending = s.file ++ (s.d.inflight.toList ++ s.d.queue) := by
    rw [Notifier.pending, if_neg hset]
  have haccepted := h.accepted
  rw [hpending] at haccepted
  dsimp only
  by_cases hfile : s.file = []
  · rw [if_neg (not_not.mpr hfile)]
    rw [hfile, List.nil_append] at haccepted
    split_ifs with hany
    · exact Accounted.of_persistLocked haccepted h.sent h.dropped h.oldest
    · refine ⟨haccepted, h.sent, h.dropped, fun _ => ?_, h.oldest⟩
      rw [not_or, not_not] at hany
      show s.file = s.d.inflight.toList ++ s.d.queue
      rw [hfile, hany.1, Option.not_isSome_iff_eq_none.mp hany.2]
      rfl
  · rw [if_pos hfile]
    split_ifs with hfull
    · have hsplit := List.take_append_drop
        ((s.file ++ s.d.queue).length - deliverQueueCapacity) (s.file ++ s.d.queue)
      refine Accounted.of_persistLocked ?_ h.sent ?_ (oldest_append h.oldest hsplit.symm)
      · refine perm_of_count haccepted fun e => ?_
        have hcount := congrArg (List.count e) hsplit
        simp only [Notifier.pending, List.count_append, if_true, List.count_nil] at hcount ⊢
        omega
      · show (s.dropped ++ List.take _ _).length = _
        rw [List.length_append, h.dropped, Nat.add_assoc, List.length_take]
        show _ = s.droppedBefore + (s.d.eventsDropped + _)
        omega
    · refine Accounted.of_persistLocked ?_ h.sent h.dropped h.oldest
      refine perm_of_count haccepted fun e => ?_
      simp only [Notifier.pending, List.count_append, if_true, List.count_nil]
      omega

theorem Accounted.restart (h : Accounted s) : Accounted s.restart := by
  rw [Notifier.restart]
  split_ifs with hset
  · refine ⟨?_, h.sent, h.dropped, fun hnew => ?_, h.oldest⟩
    · have haccepted := h.accepted
      rw [Notifier.pending, if_pos hset, List.nil_append, ← h.persisted hset] at haccepted
      show s.accepted.Perm (s.sent ++ s.refused ++ s.dropped ++ (s.file ++ ([] ++ [])))
      rw [List.append_nil, List.append_nil]
      exact haccepted
    · cases hnew
  · exact h

/-- The event in flight is accounted for elsewhere. -/
theorem Accounted.finishCompleted
    (haccepted : s.accepted.Perm (s.sent ++ s.refused ++ s.dropped ++
      ((if s.d.pathSet then [] else s.file) ++ s.d.queue)))
    (hsent : s.sent.length = s.sentBefore + s.d.eventsSent)
    (hdropped : s.dropped.length = s.droppedBefore + s.d.eventsDropped)
    (holdest : ∀ shed ∈ s.sheds, shed.waiting = shed.dropped ++ shed.kept) :
    Accounted s.finishCompleted :=
  Accounted.of_persistLocked haccepted hsent hdropped holdest

/-- A delivery that is broken off is accounted for exactly if there is room for its event. -/
theorem Accounted.finishAborted_iff (h : Accounted s) (hbounded : Bounded s) {event : E}
    (hinflight : s.d.inflight = some event) :
    Accounted s.finishAborted ↔ s.d.queue.length < deliverQueueCapacity := by
  classical
  have hlen : (s.d.inflight.toList ++ s.d.queue).length = 1 + s.d.queue.length := by
    rw [hinflight, List.length_append]
    rfl
  rw [Notifier.finishAborted]
  dsimp only
  rw [hlen]
  have hbounded : s.d.queue.length ≤ deliverQueueCapacity := hbounded
  split_ifs with hfull
  · refine iff_of_false (fun hcut => ?_) (by omega)
    -- one event less than were accepted
    have hbefore := h.accepted.length_eq
    have hafter := hcut.accepted.length_eq
    rw [pending_persistLocked] at hafter
    have hpending : s.pending.length = (if s.d.pathSet then [] else s.file).length +
        (1 + s.d.queue.length) := by
      rw [Notifier.pending, List.length_append, hlen]
    have hkept : ((s.d.inflight.toList ++ s.d.queue).take deliverQueueCapacity).length =
        deliverQueueCapacity := by
      rw [List.length_take, hlen]
      omega
    have hsame : ∀ t : Notifier E, t.persistLocked.accepted = t.accepted ∧
        t.persistLocked.sent = t.sent ∧ t.persistLocked.refused = t.refused ∧
        t.persistLocked.dropped = t.dropped := by
      intro t
      rw [Notifier.persistLocked]
      split_ifs <;> exact ⟨rfl, rfl, rfl, rfl⟩
    simp only [hsame, Notifier.pending, List.length_append, Option.toList_none, List.length_nil,
      hkept] at hafter
    rw [List.length_append, hpending] at hbefore
    simp only [List.length_append] at hbefore
    omega
  · refine iff_of_true ?_ (by omega)
    exact Accounted.of_persistLocked h.accepted h.sent h.dropped h.oldest

theorem Accounted.deliver_iff (hdry : c.dryRun = false) (h : Accounted s) (hbounded : Bounded s)
    (attempts : Nat → Attempt) :
    Accounted (s.deliver c attempts) ↔ Roomy c s (.deliver attempts) := by
  classical
  rw [Notifier.deliver, Roomy]
  cases hinflight : s.d.inflight with
  | none => exact iff_of_true h fun event hevent => by cases hevent
  | some event =>
    have haccepted := h.accepted
    rw [Notifier.pending, hinflight] at haccepted
    dsimp only
    have hroomy : deliverWithRetry c attempts event ≠ .aborted →
        ∀ event' ∈ some event, deliverWithRetry c attempts event' = .aborted →
          s.d.queue.length < deliverQueueCapacity := by
      rintro hne _ ⟨⟩ habort
      exact absurd habort hne
    cases houtcome : deliverWithRetry c attempts event with
    | sent =>
      refine iff_of_true (Accounted.finishCompleted ?_ ?_ h.dropped h.oldest)
        (hroomy (by rw [houtcome]; simp))
      · refine perm_of_count haccepted fun e => ?_
        simp only [List.count_append, Option.toList_some]
        omega
      · show (s.sent ++ [event]).length = s.sentBefore + (s.d.eventsSent + 1)
        rw [List.length_append, h.sent, List.length_singleton, Nat.add_assoc]
    | refused =>
      refine iff_of_true (Accounted.finishCompleted ?_ h.sent h.dropped h.oldest)
        (hroomy (by rw [houtcome]; simp))
      refine perm_of_count haccepted fun e => ?_
      simp only [List.count_append, Option.toList_some]
      omega
    | dropped =>
      refine iff_of_true (Accounted.finishCompleted ?_ h.sent ?_ h.oldest)
        (hroomy (by rw [houtcome]; simp))
      · refine perm_of_count haccepted fun e => ?_
        simp only [List.count_append, Option.toList_some]
        omega
      · show (s.dropped ++ [event]).length = s.droppedBefore + (s.d.eventsDropped + 1)
        rw [List.length_append, h.dropped, List.length_singleton, Nat.add_assoc]
    | logged => exact absurd houtcome (deliverWithRetry_ne_logged hdry attempts event)
    | aborted =>
      show Accounted s.finishAborted ↔ _
      rw [h.finishAborted_iff hbounded hinflight]
      constructor
      · rintro hroom _ ⟨⟩ _
        exact hroom
      · intro hall
        exact hall event rfl houtcome

/-- **One step**: it is accounted for exactly if no delivery is broken off before a full queue. -/
theorem step_accounted_iff (hdry : c.dryRun = false) (e : Event E) (hbounded : Bounded s)
    (h : Accounted s) : Accounted (s.step c e) ↔ Roomy c s e := by
  cases e with
  | enqueue event => exact iff_of_true (h.enqueue event) trivial
  | dequeue => exact iff_of_true h.dequeue trivial
  | deliver attempts => exact h.deliver_iff hdry hbounded attempts
  | setQueuePath => exact iff_of_true h.setQueuePath trivial
  | restart => exact iff_of_true h.restart trivial

theorem bounded_persistLocked : Bounded s.persistLocked ↔ Bounded s := by
  rw [Notifier.persistLocked]
  split_ifs <;> rfl

theorem Bounded.step (h : Bounded s) (e : Event E) : Bounded (s.step c e) := by
  have hcap : s.d.queue.length ≤ deliverQueueCapacity := h
  have hone : 1 ≤ deliverQueueCapacity := by decide
  cases e with
  | enqueue event =>
    show Bounded (s.enqueue event)
    rw [Notifier.enqueue]
    dsimp only
    split_ifs with hfull
    · rw [bounded_persistLocked]
      show (s.d.queue.drop 1 ++ [event]).length ≤ _
      rw [List.length_append, List.length_drop, List.length_singleton]
      omega
    · rw [bounded_persistLocked]
      show (s.d.queue ++ [event]).length ≤ _
      rw [List.length_append, List.length_singleton]
      omega
  | dequeue =>
    show Bounded s.dequeue
    rw [Notifier.dequeue]
    split
    next hqueue =>
      rw [hqueue] at hcap
      exact Nat.le_of_succ_le hcap
    next => exact h
  | deliver attempts =>
    have hcompleted : ∀ t : Notifier E, Bounded t → Bounded t.finishCompleted :=
      fun t ht => bounded_persistLocked.mpr ht
    show Bounded (s.deliver c attempts)
    rw [Notifier.deliver]
    split
    · exact h
    split
    · exact hcompleted _ h
    · exact hcompleted _ h
    · exact hcompleted _ h
    · exact hcompleted _ h
    · rw [Notifier.finishAborted]
      dsimp only
      split_ifs with hfull
      · rw [bounded_persistLocked]
        exact List.length_take_le _ _
      · rw [bounded_persistLocked]
        exact Nat.not_lt.mp hfull
  | setQueuePath =>
    show Bounded s.setQueuePath
    rw [Notifier.setQueuePath]
    dsimp only
    split_ifs with _ _ hfull
    · exact h
    · rw [bounded_persistLocked]
      show (List.drop _ _).length ≤ _
      rw [List.length_drop]
      omega
    · rw [bounded_persistLocked]
      exact Nat.not_lt.mp hfull
    · rw [bounded_persistLocked]
      exact h
    · exact h
  | restart =>
    show Bounded s.restart
    rw [Notifier.restart]
    split_ifs
    · exact Nat.zero_le _
    · exact h

/-! ### Runs -/

/-- A first process, and what is in the file before it. -/
def Notifier.start (file : List E) : Notifier E := { file, accepted := file }

theorem accounted_start (file : List E) : Accounted (Notifier.start file) := by
  refine ⟨?_, rfl, rfl, ?_, ?_⟩
  · show file.Perm (file ++ ([] ++ []))
    rw [List.append_nil, List.append_nil]
  · intro hset
    cases hset
  · intro shed hshed
    cases hshed

/-- **No event is lost in silence**, over any number of processes, exactly as long as no shutdown
breaks a delivery off before a full queue. -/
theorem accounted_iff (c : Conf E) (hdry : c.dryRun = false) (file : List E)
    (events : List (Event E)) :
    (∀ before, before <+: events →
        Accounted (run (Notifier.step c) (Notifier.start file) before)) ↔
      Along (Notifier.step c) (Roomy c) (Notifier.start file) events :=
  run_always_iff (I := Bounded) (Q := fun _ => True) (fun _ e _ h => Bounded.step h e)
    (fun _ e _ hbounded h => step_accounted_iff hdry e hbounded h) (fun _ _ => trivial)
    (Nat.zero_le _) (accounted_start file)

/-- Retries after one second and four. -/
def twoRetries : Conf Nat := ⟨false, [1, 4], fun _ => true⟩

theorem accounted_iff_twoRetries :
    (∀ before, before <+: [Event.setQueuePath, .enqueue 7, .dequeue, .restart] →
        Accounted (run (Notifier.step twoRetries) (Notifier.start []) before)) ↔
      Along (Notifier.step twoRetries) (Roomy twoRetries) (Notifier.start [])
        [.setQueuePath, .enqueue 7, .dequeue, .restart] :=
  accounted_iff twoRetries rfl [] _

/-- A shutdown while the first event is in flight and 64 others fill the queue. -/
def fullQueueShutdown : List (Event Nat) :=
  [.setQueuePath, .enqueue 0, .dequeue] ++ (List.range 64).map (fun i => .enqueue (i + 1)) ++
    [.deliver fun _ => { reply := none, cancelled := true }]

/-- The newest event is gone, and not counted. -/
theorem newest_lost_at_shutdown :
    ¬ ∀ (c : Conf Nat) (file : List Nat) (events : List (Event Nat)), c.dryRun = false →
        Accounted (run (Notifier.step c) (Notifier.start file) events) := by
  intro hall
  have h := (hall twoRetries [] fullQueueShutdown rfl).accepted.length_eq
  revert h
  decide +kernel

end CashStratum.Deliver
