/-
CashStratum/Sv2Batch.lean

The SubmitShares.Success messages of an SV2 channel (`sv2_strat.c`).

Accepted shares are collected in the channel and reported together: a flush takes what has
been collected under the lock and sends it after the lock is released.  Every thread that
works on a channel holds a reference to it, and whoever drops the last one flushes the
channel and frees it.  A task is one piece of work on the channel, a step is one critical
section of a task, or the sending of one message; tasks interleave in any order.

`noted`, `taken` and `sent` record the shares, the messages in the order in which flushes
took them, and the messages in the order in which they were sent.  No share is lost or
reported twice in any interleaving (`Balanced`), but messages of two flushes can overtake
each other between the lock and the send.
-/
import CashStratum.Difficulty
import CashStratum.Run
import Mathlib.Data.List.Perm.Basic

namespace CashStratum

/-! ### State -/

/-- `struct sv2_submit_shares_success` -/
structure SubmitSharesSuccess where
  channelId : UInt32
  lastSequenceNumber : UInt32
  newSubmitsAcceptedCount : UInt32
  newSharesSum : UInt64
deriving DecidableEq, Repr

/-- An accepted share, as `note_share_success` is told of it. -/
structure NotedShare where
  sequenceNumber : UInt32
  shareDiff : UInt64
deriving DecidableEq, Repr

/-- What a share counts. -/
def NotedShare.credited (x : NotedShare) : UInt64 := if x.shareDiff = 0 then 1 else x.shareDiff

/-- Where a task is.  `closing` says that it dropped the last reference, otherwise it holds
one; `n` is the number of messages taken before the one that is being sent. -/
inductive BatchTask
  /-- The worker that accepted a share. -/
  | noting (x : NotedShare)
  | flushing (closing : Bool)
  | sending (msg : SubmitSharesSuccess) (n : Nat) (closing : Bool)
  /-- `channel_put` -/
  | putting
  | freeing
  | done
deriving DecidableEq, Repr

/-- The fields of `struct sv2_channel` that batches need, and the tasks. -/
structure BatchState where
  channelId : UInt32
  batchCount : UInt32 := 0
  batchLastSeq : UInt32 := 0
  batchSharesSum : UInt64 := 0
  batchStart : Tv := ⟨0, 0⟩
  refs : Nat
  hashed : Bool
  freed : Bool := false
  tasks : List BatchTask
  noted : List NotedShare := []
  taken : List SubmitSharesSuccess := []
  sent : List SubmitSharesSuccess := []

/-- What can happen. -/
inductive BatchEvent
  /-- A worker takes up a share that will be accepted. -/
  | share (x : NotedShare)
  /-- A worker takes up a share that will be refused. -/
  | error
  /-- New work comes in. -/
  | pushJob
  /-- A handler looks the channel up for something else. -/
  | look
  /-- The channel leaves the table, as its miner closes it or is dropped. -/
  | close
  /-- A task goes on. -/
  | go (k : Nat) (now : Tv)

namespace BatchState

/-- The channel is in the table, and the handler that opened it pushes its first job. -/
def start (channelId : UInt32) : BatchState where
  channelId
  refs := 2
  hashed := true
  tasks := [.flushing false]

def setTask (s : BatchState) (k : Nat) (t : BatchTask) : BatchState :=
  { s with tasks := s.tasks.set k t }

/-- `channel_find_ref`, and the task that holds the reference. -/
def findRef (s : BatchState) (t : BatchTask) : BatchState :=
  if s.hashed then { s with refs := s.refs + 1, tasks := s.tasks ++ [t] } else s

/-- `channel_unref_locked`: what the task does next. -/
def unref (s : BatchState) : BatchTask := if 1 < s.refs then .done else .flushing true

/-- `sv2_strat_handle_frame` on a CloseChannel, and what a drop does to each channel. -/
def close (s : BatchState) : BatchState :=
  if s.hashed then { s with hashed := false, refs := s.refs - 1, tasks := s.tasks ++ [s.unref] }
  else s

/-- `note_share_success` -/
def note (s : BatchState) (k : Nat) (x : NotedShare) (now : Tv) : BatchState :=
  let batchStart := if s.batchCount = 0 then now else s.batchStart
  let batchCount := s.batchCount + 1
  let age := (now.sec - batchStart.sec) * 1000000 + (now.usec - batchStart.usec)
  setTask { s with
    batchStart
    batchCount
    batchLastSeq :=
      if s.batchLastSeq < x.sequenceNumber then x.sequenceNumber else s.batchLastSeq
    batchSharesSum := s.batchSharesSum + x.credited
    noted := s.noted ++ [x] } k
    (if 10 ≤ batchCount ∨ 1000000 ≤ age then .flushing false else .putting)

/-- The message of the batch. -/
def batch (s : BatchState) : SubmitSharesSuccess where
  channelId := s.channelId
  lastSequenceNumber := s.batchLastSeq
  newSubmitsAcceptedCount := s.batchCount
  newSharesSum := s.batchSharesSum

/-- What comes after a flush. -/
def afterFlush (closing : Bool) : BatchTask := if closing then .freeing else .putting

/-- `flush_success_batch`, up to the unlock. -/
def flush (s : BatchState) (k : Nat) (closing : Bool) : BatchState :=
  if s.batchCount = 0 then s.setTask k (afterFlush closing)
  else
    setTask { s with
      batchCount := 0
      batchSharesSum := 0
      batchStart := ⟨0, 0⟩
      taken := s.taken ++ [s.batch] } k (.sending s.batch s.taken.length closing)

/-- The `queue_frame` of a flush. -/
def send (s : BatchState) (k : Nat) (msg : SubmitSharesSuccess) (closing : Bool) : BatchState :=
  setTask { s with sent := s.sent ++ [msg] } k (afterFlush closing)

/-- A task goes on. -/
def go (s : BatchState) (k : Nat) (now : Tv) : BatchTask → BatchState
  | .noting x => s.note k x now
  | .flushing closing => s.flush k closing
  | .sending msg _ closing => s.send k msg closing
  | .putting => setTask { s with refs := s.refs - 1 } k s.unref
  | .freeing => setTask { s with freed := true } k .done
  | .done => s

end BatchState

/-- One step. -/
def batchStep (s : BatchState) : BatchEvent → BatchState
  | .share x => s.findRef (.noting x)
  | .error => s.findRef (.flushing false)
  | .pushJob => s.findRef (.flushing false)
  | .look => s.findRef .putting
  | .close => s.close
  | .go k now =>
    match s.tasks[k]? with
    | none => s
    | some t => s.go k now t

/-! ### What has been counted -/

/-- The shares that messages count. -/
def counted (msgs : List SubmitSharesSuccess) : Nat :=
  (msgs.map fun msg => msg.newSubmitsAcceptedCount.toNat).sum

/-- The difficulty that messages count. -/
def summed (msgs : List SubmitSharesSuccess) : Nat :=
  (msgs.map fun msg => msg.newSharesSum.toNat).sum

/-- The difficulty of shares. -/
def creditedSum (shares : List NotedShare) : Nat :=
  (shares.map fun x => x.credited.toNat).sum

/-- The highest sequence number. -/
def highestSeq (shares : List NotedShare) : UInt32 :=
  shares.foldl (fun last x => if last < x.sequenceNumber then x.sequenceNumber else last) 0

/-- The message a task is about to send. -/
def BatchTask.carries : BatchTask → Option SubmitSharesSuccess
  | .sending msg _ _ => some msg
  | _ => none

/-- The messages that flushes took out of the channel and have not sent. -/
def BatchState.inFlight (s : BatchState) : List SubmitSharesSuccess :=
  s.tasks.filterMap BatchTask.carries

/-- A task goes on as it should: a share does not overflow the batch, and a message is sent
when all that were taken before it have been. -/
def BatchTask.Fits (s : BatchState) : BatchTask → Prop
  | .noting x => s.batchCount.toNat + 1 < 2 ^ 32 ∧
      s.batchSharesSum.toNat + x.credited.toNat < 2 ^ 64
  | .sending _ n _ => n = s.sent.length
  | _ => True

instance (s : BatchState) : DecidablePred (BatchTask.Fits s)
  | .noting x => inferInstanceAs (Decidable (s.batchCount.toNat + 1 < 2 ^ 32 ∧
      s.batchSharesSum.toNat + x.credited.toNat < 2 ^ 64))
  | .sending _ n _ => inferInstanceAs (Decidable (n = s.sent.length))
  | .flushing _ => isTrue trivial
  | .putting => isTrue trivial
  | .freeing => isTrue trivial
  | .done => isTrue trivial

/-- Batches do not overflow, and messages do not overtake each other. -/
def BatchFits (s : BatchState) : BatchEvent → Prop
  | .go k _ => ∀ t ∈ s.tasks[k]?, t.Fits s
  | _ => True

instance (s : BatchState) : DecidablePred (BatchFits s)
  | .go k _ => inferInstanceAs (Decidable (∀ t ∈ s.tasks[k]?, t.Fits s))
  | .share _ => isTrue trivial
  | .error => isTrue trivial
  | .pushJob => isTrue trivial
  | .look => isTrue trivial
  | .close => isTrue trivial

/-! ### Tasks -/

/-- One element of a list, and what is around it. -/
theorem exists_perm_of_getElem? {α : Type*} {l : List α} {k : Nat} {a : α} (h : l[k]? = some a) :
    ∃ rest, l.Perm (a :: rest) ∧ ∀ b, (l.set k b).Perm (b :: rest) := by
  obtain ⟨hlt, rfl⟩ := List.getElem?_eq_some_iff.mp h
  exact ⟨l.eraseIdx k, (List.getElem_cons_eraseIdx_perm hlt).symm,
    fun b => List.set_perm_cons_eraseIdx hlt b⟩

theorem countP_set_of_getElem? {α : Type*} {l : List α} {k : Nat} {a : α} (h : l[k]? = some a)
    (p : α → Bool) (b : α) :
    (l.set k b).countP p + (p a).toNat = l.countP p + (p b).toNat := by
  obtain ⟨rest, hl, hset⟩ := exists_perm_of_getElem? h
  rw [hl.countP_eq, (hset b).countP_eq, List.countP_cons, List.countP_cons]
  cases p a <;> cases p b <;> simp

namespace BatchTask

/-- The task holds a reference. -/
def holds : BatchTask → Bool
  | noting _ => true
  | flushing closing => !closing
  | sending _ _ closing => !closing
  | putting => true
  | freeing => false
  | done => false

/-- The task dropped the last reference. -/
def closes : BatchTask → Bool
  | flushing closing => closing
  | sending _ _ closing => closing
  | freeing => true
  | _ => false

/-- The task has taken the last batch. -/
def emptied : BatchTask → Bool
  | sending _ _ closing => closing
  | freeing => true
  | _ => false

theorem closes_of_emptied {t : BatchTask} (h : t.emptied = true) : t.closes = true := by
  cases t with
  | sending msg n closing => exact h
  | freeing => rfl
  | _ => cases h

end BatchTask

namespace BatchState

/-- References are held by the table and by tasks, and when the last is gone one task is
left that empties the batch and frees the channel. -/
structure Guarded (s : BatchState) : Prop where
  refs : s.refs = s.hashed.toNat + s.tasks.countP BatchTask.holds
  closing : s.tasks.countP BatchTask.closes + s.freed.toNat = if s.refs = 0 then 1 else 0
  emptied : (s.freed = true ∨ ∃ t ∈ s.tasks, t.emptied = true) → s.batchCount = 0

/-- Every share that was noted is in a message or in the batch, once. -/
structure Balanced (s : BatchState) : Prop where
  count : counted s.taken + s.batchCount.toNat = s.noted.length
  sum : summed s.taken + s.batchSharesSum.toNat = creditedSum s.noted
  empty : s.batchCount = 0 → s.batchSharesSum = 0
  last : s.batchLastSeq = highestSeq s.noted
  covers : ∀ n msg, s.taken[n]? = some msg →
    msg.lastSequenceNumber = highestSeq (s.noted.take (counted (s.taken.take (n + 1))))
  delivered : (s.sent ++ s.inFlight).Perm s.taken
  index : ∀ msg n closing, .sending msg n closing ∈ s.tasks → s.taken[n]? = some msg

variable {s s' : BatchState} {k : Nat} {a b : BatchTask}

/-- While there is a reference, no task closes the channel. -/
theorem Guarded.open_of_refs (h : s.Guarded) (hrefs : s.refs ≠ 0) :
    s.freed = false ∧ ∀ t ∈ s.tasks, t.closes = false := by
  have hclosing := h.closing
  rw [if_neg hrefs] at hclosing
  obtain ⟨hnone, hfreed⟩ := Nat.add_eq_zero_iff.mp hclosing
  refine ⟨?_, fun t ht => Bool.eq_false_iff.mpr (List.countP_eq_zero.mp hnone t ht)⟩
  cases hf : s.freed with
  | false => rfl
  | true =>
    rw [hf] at hfreed
    cases hfreed

theorem Guarded.refs_ne_zero (h : s.Guarded) (hk : s.tasks[k]? = some a) (ha : a.holds = true) :
    s.refs ≠ 0 := by
  have hpos : 0 < s.tasks.countP BatchTask.holds :=
    List.countP_pos_iff.mpr ⟨a, List.mem_of_getElem? hk, ha⟩
  have hrefs := h.refs
  omega

/-- One task moves, with the references it holds. -/
theorem Guarded.move (h : s.Guarded) (hk : s.tasks[k]? = some a) (htasks : s'.tasks = s.tasks)
    (hhashed : s'.hashed = s.hashed) (hrefs : s'.refs + a.holds.toNat = s.refs + b.holds.toNat)
    (hclosing : b.closes.toNat + s'.freed.toNat + (if s.refs = 0 then 1 else 0) =
      a.closes.toNat + s.freed.toNat + if s'.refs = 0 then 1 else 0)
    (hemptied : (s'.freed = true ∨ b.emptied = true ∨ ∃ t ∈ s.tasks, t.emptied = true) →
      s'.batchCount = 0) : (s'.setTask k b).Guarded where
  refs := by
    show s'.refs = s'.hashed.toNat + (s'.tasks.set k b).countP BatchTask.holds
    have hcount := countP_set_of_getElem? hk BatchTask.holds b
    have hold := h.refs
    rw [htasks, hhashed]
    omega
  closing := by
    show (s'.tasks.set k b).countP BatchTask.closes + s'.freed.toNat = if s'.refs = 0 then 1 else 0
    have hcount := countP_set_of_getElem? hk BatchTask.closes b
    have hold := h.closing
    rw [htasks]
    omega
  emptied := by
    intro hclosed
    refine hemptied ?_
    rcases hclosed with hfreed | ⟨t, ht, hclosed⟩
    · exact Or.inl hfreed
    · change t ∈ s'.tasks.set k b at ht
      rw [htasks] at ht
      rcases List.mem_or_eq_of_mem_set ht with hold | rfl
      · exact Or.inr (Or.inr ⟨t, hold, hclosed⟩)
      · exact Or.inr (Or.inl hclosed)

/-- A task moves that neither drops a reference nor frees the channel. -/
theorem Guarded.move_same (h : s.Guarded) (hk : s.tasks[k]? = some a)
    (htasks : s'.tasks = s.tasks) (hhashed : s'.hashed = s.hashed) (hrefs : s'.refs = s.refs)
    (hfreed : s'.freed = s.freed) (hholds : b.holds = a.holds) (hcloses : b.closes = a.closes)
    (hemptied : (s.freed = true ∨ b.emptied = true ∨ ∃ t ∈ s.tasks, t.emptied = true) →
      s'.batchCount = 0) : (s'.setTask k b).Guarded := by
  refine h.move hk htasks hhashed ?_ ?_ ?_
  · rw [hrefs, hholds]
  · rw [hrefs, hfreed, hcloses]
  · rw [hfreed]
    exact hemptied

theorem Guarded.findRef (h : s.Guarded) {t : BatchTask} (hholds : t.holds = true)
    (hcloses : t.closes = false) : (s.findRef t).Guarded := by
  rw [BatchState.findRef]
  split_ifs with hhashed
  · have hrefs := h.refs
    rw [hhashed] at hrefs
    have hne : s.refs ≠ 0 := by
      rw [hrefs, Bool.toNat_true]
      omega
    obtain ⟨hfreed, hopen⟩ := h.open_of_refs hne
    have hclosing := h.closing
    rw [if_neg hne] at hclosing
    refine ⟨?_, ?_, ?_⟩
    · show s.refs + 1 = s.hashed.toNat + (s.tasks ++ [t]).countP BatchTask.holds
      rw [List.countP_append, List.countP_singleton, if_pos hholds, hhashed]
      omega
    · show (s.tasks ++ [t]).countP BatchTask.closes + s.freed.toNat =
        if s.refs + 1 = 0 then 1 else 0
      rw [List.countP_append, List.countP_singleton, if_neg (by rw [hcloses]; exact Bool.false_ne_true),
        if_neg (Nat.succ_ne_zero _)]
      omega
    · rintro (hfree | ⟨t', ht', hemptied⟩)
      · rw [hfreed] at hfree
        cases hfree
      · have hclosed := BatchTask.closes_of_emptied hemptied
        rcases List.mem_append.mp ht' with hold | hnew
        · rw [hopen t' hold] at hclosed
          cases hclosed
        · rw [List.mem_singleton.mp hnew, hcloses] at hclosed
          cases hclosed
  · exact h

theorem Guarded.close (h : s.Guarded) : s.close.Guarded := by
  rw [BatchState.close]
  split_ifs with hhashed
  · have hrefs := h.refs
    rw [hhashed, Bool.toNat_true] at hrefs
    have hne : s.refs ≠ 0 := by omega
    obtain ⟨hfreed, hopen⟩ := h.open_of_refs hne
    have hclosing := h.closing
    rw [if_neg hne] at hclosing
    rw [unref]
    refine ⟨?_, ?_, ?_⟩
    · show s.refs - 1 = false.toNat + (s.tasks ++ [_]).countP BatchTask.holds
      rw [List.countP_append, List.countP_singleton]
      split_ifs <;> simp_all [BatchTask.holds]
    · show (s.tasks ++ [_]).countP BatchTask.closes + s.freed.toNat =
        if s.refs - 1 = 0 then 1 else 0
      rw [List.countP_append, List.countP_singleton]
      by_cases hlast : 1 < s.refs
      · rw [if_pos hlast, if_neg (show ¬ s.refs - 1 = 0 by omega)]
        exact hclosing
      · rw [if_neg hlast, if_pos (show s.refs - 1 = 0 by omega)]
        show s.tasks.countP BatchTask.closes + 1 + s.freed.toNat = 1
        omega
    · rintro (hfree | ⟨t, ht, hemptied⟩)
      · rw [hfreed] at hfree
        cases hfree
      · rcases List.mem_append.mp ht with hold | hnew
        · have hclosed := BatchTask.closes_of_emptied hemptied
          rw [hopen t hold] at hclosed
          cases hclosed
        · rw [List.mem_singleton.mp hnew] at hemptied
          split_ifs at hemptied <;> cases hemptied
  · exact h

/-- **The references**, in any interleaving. -/
theorem Guarded.step (h : s.Guarded) (e : BatchEvent) : (batchStep s e).Guarded := by
  cases e with
  | share x | error | pushJob | look => exact h.findRef rfl rfl
  | close => exact h.close
  | go k now =>
    rw [batchStep]
    cases hk : s.tasks[k]? with
    | none => exact h
    | some t =>
      have hmem := List.mem_of_getElem? hk
      cases t with
      | noting x =>
        -- it holds a reference, so the batch is open
        obtain ⟨hfreed, hopen⟩ := h.open_of_refs (h.refs_ne_zero hk rfl)
        apply h.move_same hk <;> try rfl
        · split_ifs <;> rfl
        · split_ifs <;> rfl
        · rintro (hfree | hnew | ⟨t, ht, hemptied⟩)
          · rw [hfreed] at hfree
            cases hfree
          · split_ifs at hnew <;> cases hnew
          · have hclosed := BatchTask.closes_of_emptied hemptied
            rw [hopen t ht] at hclosed
            cases hclosed
      | flushing closing =>
        dsimp only [go]
        rw [BatchState.flush]
        split_ifs with hzero
        · apply h.move_same hk <;> try rfl
          · cases closing <;> rfl
          · cases closing <;> rfl
          · exact fun _ => hzero
        · apply h.move_same hk <;> first | rfl | exact fun _ => rfl
      | sending msg n closing =>
        -- a message is sent under no lock
        apply h.move_same hk <;> try rfl
        · cases closing <;> rfl
        · cases closing <;> rfl
        · rintro (hfree | hnew | hold)
          · exact h.emptied (Or.inl hfree)
          · cases closing with
            | false => cases hnew
            | true => exact h.emptied (Or.inr ⟨_, hmem, rfl⟩)
          · exact h.emptied (Or.inr hold)
      | putting =>
        -- its reference goes, and with the last one the batch is freed
        have hne := h.refs_ne_zero hk rfl
        obtain ⟨hfreed, hopen⟩ := h.open_of_refs hne
        have hunref : s.unref.emptied = false ∧ s.unref.holds = false ∧
            s.unref.closes.toNat = if s.refs - 1 = 0 then 1 else 0 := by
          rw [unref]
          by_cases hlast : 1 < s.refs
          · rw [if_pos hlast, if_neg (show ¬ s.refs - 1 = 0 by omega)]
            exact ⟨rfl, rfl, rfl⟩
          · rw [if_neg hlast, if_pos (show s.refs - 1 = 0 by omega)]
            exact ⟨rfl, rfl, rfl⟩
        apply h.move hk <;> try rfl
        · show s.refs - 1 + 1 = s.refs + s.unref.holds.toNat
          rw [hunref.2.1, Bool.toNat_false]
          omega
        · show s.unref.closes.toNat + s.freed.toNat + (if s.refs = 0 then 1 else 0) =
            0 + s.freed.toNat + if s.refs - 1 = 0 then 1 else 0
          rw [hunref.2.2, if_neg hne]
          omega
        · rintro (hfree | hnew | hold)
          · exact h.emptied (Or.inl hfree)
          · rw [hunref.1] at hnew
            cases hnew
          · exact h.emptied (Or.inr hold)
      | freeing =>
        -- none is left, and one task frees
        have hpos : 0 < s.tasks.countP BatchTask.closes :=
          List.countP_pos_iff.mpr ⟨_, hmem, rfl⟩
        have hclosing := h.closing
        have hrefs : s.refs = 0 := by
          by_contra hne
          rw [if_neg hne] at hclosing
          omega
        rw [if_pos hrefs] at hclosing
        apply h.move hk <;> try rfl
        · show 0 + 1 + (if s.refs = 0 then 1 else 0) =
            1 + s.freed.toNat + if s.refs = 0 then 1 else 0
          rw [if_pos hrefs]
          omega
        · exact fun _ => h.emptied (Or.inr ⟨_, hmem, rfl⟩)
      | done => exact h

/-! ### No share is lost -/

theorem counted_append (msgs msgs' : List SubmitSharesSuccess) :
    counted (msgs ++ msgs') = counted msgs + counted msgs' := by
  rw [counted, List.map_append, List.sum_append]
  rfl

theorem summed_append (msgs msgs' : List SubmitSharesSuccess) :
    summed (msgs ++ msgs') = summed msgs + summed msgs' := by
  rw [summed, List.map_append, List.sum_append]
  rfl

theorem highestSeq_append (shares : List NotedShare) (x : NotedShare) :
    highestSeq (shares ++ [x]) =
      if highestSeq shares < x.sequenceNumber then x.sequenceNumber else highestSeq shares := by
  rw [highestSeq, List.foldl_append]
  rfl

/-- A prefix of the messages counts a prefix of the shares. -/
theorem counted_take_le (msgs : List SubmitSharesSuccess) (n : Nat) :
    counted (msgs.take n) ≤ counted msgs := by
  conv_rhs => rw [← List.take_append_drop n msgs, counted_append]
  exact Nat.le_add_right _ _

/-- What a task carried is no longer in flight, and what it carries now is. -/
theorem inFlight_perm (hk : s.tasks[k]? = some a) : ∃ rest,
    s.inFlight.Perm (a.carries.toList ++ rest) ∧
      ∀ b, ((s.tasks.set k b).filterMap BatchTask.carries).Perm (b.carries.toList ++ rest) := by
  have hcons : ∀ (t : BatchTask) (rest : List BatchTask),
      (t :: rest).filterMap BatchTask.carries =
        t.carries.toList ++ rest.filterMap BatchTask.carries := by
    intro t rest
    cases hcarries : t.carries with
    | none => rw [List.filterMap_cons_none hcarries]; rfl
    | some msg => rw [List.filterMap_cons_some hcarries]; rfl
  obtain ⟨rest, hl, hset⟩ := exists_perm_of_getElem? hk
  refine ⟨rest.filterMap BatchTask.carries, ?_, fun b => ?_⟩
  · rw [← hcons]
    exact hl.filterMap _
  · rw [← hcons]
    exact (hset b).filterMap _

/-- Tasks move that neither take a message nor send one. -/
theorem Balanced.tasks (h : s.Balanced) (refs : Nat) (hashed freed : Bool)
    {tasks : List BatchTask} (hflight : (tasks.filterMap BatchTask.carries).Perm s.inFlight)
    (hindex : ∀ msg n closing, .sending msg n closing ∈ tasks →
      .sending msg n closing ∈ s.tasks) :
    ({ s with refs, hashed, freed, tasks } : BatchState).Balanced where
  count := h.count
  sum := h.sum
  empty := h.empty
  last := h.last
  covers := h.covers
  delivered := (hflight.append_left s.sent).trans h.delivered
  index msg n closing hmem := h.index msg n closing (hindex msg n closing hmem)

/-- A task moves from one place where it carries nothing to another. -/
theorem Balanced.move (h : s.Balanced) (hk : s.tasks[k]? = some a) (ha : a.carries = none)
    (hb : b.carries = none) (refs : Nat) (freed : Bool) :
    ({ s with refs, freed, tasks := s.tasks.set k b } : BatchState).Balanced := by
  refine h.tasks refs s.hashed freed ?_ ?_
  · obtain ⟨rest, hl, hset⟩ := inFlight_perm hk
    have hnew := hset b
    rw [hb] at hnew
    rw [ha] at hl
    exact hnew.trans hl.symm
  · intro msg n closing hmem
    rcases List.mem_or_eq_of_mem_set hmem with hold | rfl
    · exact hold
    · cases hb

/-- A task is added. -/
theorem Balanced.add (h : s.Balanced) {t : BatchTask} (ht : t.carries = none) (refs : Nat)
    (hashed : Bool) :
    ({ s with refs, hashed, tasks := s.tasks ++ [t] } : BatchState).Balanced := by
  refine h.tasks refs hashed s.freed ?_ ?_
  · rw [List.filterMap_append, List.filterMap_cons_none ht, List.filterMap_nil, List.append_nil]
    exact List.Perm.refl _
  · intro msg n closing hmem
    rcases List.mem_append.mp hmem with hold | hnew
    · exact hold
    · rw [← List.mem_singleton.mp hnew] at ht
      cases ht

theorem Balanced.findRef (h : s.Balanced) {t : BatchTask} (ht : t.carries = none) :
    (s.findRef t).Balanced := by
  rw [BatchState.findRef]
  split_ifs
  · exact h.add ht _ _
  · exact h

/-- **A share joins the batch.** -/
theorem Balanced.note (h : s.Balanced) {x : NotedShare} (hk : s.tasks[k]? = some (.noting x))
    (hfits : (BatchTask.noting x).Fits s) (now : Tv) : (s.note k x now).Balanced := by
  obtain ⟨hcount, hsum⟩ := hfits
  have hcount' : (s.batchCount + 1).toNat = s.batchCount.toNat + 1 := by
    rw [UInt32.toNat_add]
    exact Nat.mod_eq_of_lt hcount
  have hsum' : (s.batchSharesSum + x.credited).toNat =
      s.batchSharesSum.toNat + x.credited.toNat := by
    rw [UInt64.toNat_add]
    exact Nat.mod_eq_of_lt hsum
  have hnoted : ∀ batchStart : Tv, ({ s with
      batchStart
      batchCount := s.batchCount + 1
      batchLastSeq :=
        if s.batchLastSeq < x.sequenceNumber then x.sequenceNumber else s.batchLastSeq
      batchSharesSum := s.batchSharesSum + x.credited
      noted := s.noted ++ [x] } : BatchState).Balanced := by
    intro batchStart
    refine ⟨?_, ?_, fun hzero => ?_, ?_, fun n msg hmsg => ?_, h.delivered, h.index⟩
    · show counted s.taken + (s.batchCount + 1).toNat = (s.noted ++ [x]).length
      rw [hcount', List.length_append, ← h.count]
      rfl
    · show summed s.taken + (s.batchSharesSum + x.credited).toNat = creditedSum (s.noted ++ [x])
      rw [hsum', creditedSum, List.map_append, List.sum_append, ← Nat.add_assoc, h.sum]
      rfl
    · change s.batchCount + 1 = 0 at hzero
      rw [hzero] at hcount'
      cases hcount'
    · show _ = highestSeq (s.noted ++ [x])
      rw [highestSeq_append, ← h.last]
    · -- the message was taken before this share
      have hle : counted (s.taken.take (n + 1)) ≤ s.noted.length := by
        rw [← h.count]
        exact (counted_take_le _ _).trans (Nat.le_add_right _ _)
      show _ = highestSeq ((s.noted ++ [x]).take _)
      rw [List.take_append_of_le_length hle]
      exact h.covers n msg hmsg
  exact (hnoted _).move (a := .noting x) hk rfl (by split_ifs <;> rfl) s.refs s.freed

/-- **A flush takes the batch.** -/
theorem Balanced.flush (h : s.Balanced) {closing : Bool}
    (hk : s.tasks[k]? = some (.flushing closing)) : (s.flush k closing).Balanced := by
  rw [BatchState.flush]
  split_ifs with hzero
  · exact h.move hk rfl (by cases closing <;> rfl) s.refs s.freed
  · have hcount : counted (s.taken ++ [s.batch]) = s.noted.length := by
      rw [counted_append, ← h.count]
      rfl
    refine ⟨?_, ?_, fun _ => rfl, h.last, fun n msg hmsg => ?_, ?_, ?_⟩
    · show counted (s.taken ++ [s.batch]) + 0 = s.noted.length
      rw [hcount]
      rfl
    · show summed (s.taken ++ [s.batch]) + 0 = creditedSum s.noted
      rw [summed_append, ← h.sum]
      rfl
    · change (s.taken ++ [s.batch])[n]? = some msg at hmsg
      show _ = highestSeq (s.noted.take (counted ((s.taken ++ [s.batch]).take (n + 1))))
      rcases Nat.lt_trichotomy n s.taken.length with hlt | heq | hgt
      · rw [List.getElem?_append_left hlt] at hmsg
        rw [List.take_append_of_le_length hlt]
        exact h.covers n msg hmsg
      · -- the new message speaks for all that was noted
        subst heq
        rw [List.getElem?_concat_length] at hmsg
        have hall : (s.taken ++ [s.batch]).take (s.taken.length + 1) = s.taken ++ [s.batch] := by
          apply List.take_of_length_le
          rw [List.length_append]
          rfl
        rw [hall, hcount, List.take_length, ← h.last, ← Option.some.inj hmsg]
        rfl
      · rw [List.getElem?_eq_none (by rw [List.length_append]; exact hgt)] at hmsg
        cases hmsg
    · obtain ⟨rest, hl, hset⟩ := inFlight_perm hk
      have hnew : ((s.tasks.set k (.sending s.batch s.taken.length closing)).filterMap
          BatchTask.carries).Perm ([s.batch] ++ s.inFlight) :=
        (hset _).trans (hl.symm.append_left _)
      show (s.sent ++ (s.tasks.set k _).filterMap BatchTask.carries).Perm (s.taken ++ [s.batch])
      refine ((hnew.append_left s.sent).trans (List.perm_append_comm_assoc ..)).trans ?_
      exact (h.delivered.append_left [s.batch]).trans List.perm_append_comm
    · intro msg n closing' hmem
      show (s.taken ++ [s.batch])[n]? = some msg
      rcases List.mem_or_eq_of_mem_set hmem with hold | heq
      · have hindex := h.index msg n closing' hold
        obtain ⟨hlt, -⟩ := List.getElem?_eq_some_iff.mp hindex
        rw [List.getElem?_append_left hlt]
        exact hindex
      · injection heq with hmsg hn _
        rw [hmsg, hn]
        exact List.getElem?_concat_length

/-- **A message is sent.** -/
theorem Balanced.send (h : s.Balanced) {msg : SubmitSharesSuccess} {n : Nat} {closing : Bool}
    (hk : s.tasks[k]? = some (.sending msg n closing)) : (s.send k msg closing).Balanced := by
  have hafter : (afterFlush closing).carries = none := by cases closing <;> rfl
  refine ⟨h.count, h.sum, h.empty, h.last, h.covers, ?_, fun msg' n' closing' hmem => ?_⟩
  · obtain ⟨rest, hl, hset⟩ := inFlight_perm hk
    have hnew := hset (afterFlush closing)
    rw [hafter] at hnew
    show ((s.sent ++ [msg]) ++ (s.tasks.set k _).filterMap BatchTask.carries).Perm s.taken
    rw [List.append_assoc]
    refine List.Perm.trans ?_ h.delivered
    exact ((hnew.append_left [msg]).trans hl.symm).append_left s.sent
  · rcases List.mem_or_eq_of_mem_set hmem with hold | heq
    · exact h.index msg' n' closing' hold
    · rw [← heq] at hafter
      cases hafter

/-- **The account**, in any interleaving in which batches do not overflow. -/
theorem Balanced.step (h : s.Balanced) {e : BatchEvent} (he : BatchFits s e) :
    (batchStep s e).Balanced := by
  cases e with
  | share x => exact h.findRef rfl
  | error => exact h.findRef rfl
  | pushJob => exact h.findRef rfl
  | look => exact h.findRef rfl
  | close =>
    rw [batchStep, BatchState.close]
    split_ifs
    · refine h.add ?_ _ _
      rw [unref]
      split_ifs <;> rfl
    · exact h
  | go k now =>
    rw [batchStep]
    cases hk : s.tasks[k]? with
    | none => exact h
    | some t =>
      cases t with
      | noting x => exact h.note hk (he _ hk) now
      | flushing closing => exact h.flush hk
      | sending msg n closing => exact h.send hk
      | putting =>
        refine h.move hk rfl ?_ _ _
        rw [unref]
        split_ifs <;> rfl
      | freeing => exact h.move hk rfl rfl _ _
      | done => exact h

/-! ### No message overtakes another -/

/-- Messages are sent in the order in which they were taken. -/
def Ordered (s : BatchState) : Prop := s.sent = s.taken.take s.sent.length

theorem Ordered.step (h : s.Ordered) (hbalanced : s.Balanced) {e : BatchEvent}
    (he : BatchFits s e) : (batchStep s e).Ordered := by
  cases e with
  | go k now =>
    rw [batchStep]
    cases hk : s.tasks[k]? with
    | none => exact h
    | some t =>
      cases t with
      | flushing closing =>
        dsimp only [go]
        rw [BatchState.flush]
        split_ifs
        · exact h
        · have hle : s.sent.length ≤ s.taken.length := by
            rw [h, List.length_take]
            exact Nat.min_le_right _ _
          show s.sent = (s.taken ++ [s.batch]).take s.sent.length
          rw [List.take_append_of_le_length hle]
          exact h
      | sending msg n closing =>
        have hn : n = s.sent.length := he _ hk
        have hindex := hbalanced.index msg n closing (List.mem_of_getElem? hk)
        rw [hn] at hindex
        show s.sent ++ [msg] = s.taken.take (s.sent ++ [msg]).length
        rw [List.length_append, List.length_singleton, List.take_add_one, hindex, ← h]
        rfl
      | noting x => exact h
      | putting => exact h
      | freeing => exact h
      | done => exact h
  | close =>
    rw [batchStep, BatchState.close]
    split_ifs <;> exact h
  | _ =>
    rw [batchStep, BatchState.findRef]
    split_ifs <;> exact h

/-- The highest sequence number of the first shares is no greater than that of more. -/
theorem highestSeq_take_le (shares : List NotedShare) {m n : Nat} (hle : m ≤ n) :
    highestSeq (shares.take m) ≤ highestSeq (shares.take n) := by
  induction hle with
  | refl => exact UInt32.le_refl _
  | @step j _ ih =>
    rw [List.take_add_one]
    cases hnext : shares[j]? with
    | none =>
      rw [Option.toList_none, List.append_nil]
      exact ih
    | some x =>
      rw [Option.toList_some, highestSeq_append]
      split_ifs with hlt
      · exact UInt32.le_trans ih (UInt32.le_of_lt hlt)
      · exact ih

theorem counted_take_mono (msgs : List SubmitSharesSuccess) {m n : Nat} (hle : m ≤ n) :
    counted (msgs.take m) ≤ counted (msgs.take n) := by
  rw [← Nat.min_eq_left hle, ← List.take_take]
  exact counted_take_le _ _

theorem guarded_start (channelId : UInt32) : (start channelId).Guarded where
  refs := rfl
  closing := rfl
  emptied := by
    rintro (hfree | ⟨t, ht, hemptied⟩)
    · cases hfree
    · rw [List.mem_singleton.mp ht] at hemptied
      cases hemptied

theorem balanced_start (channelId : UInt32) : (start channelId).Balanced where
  count := rfl
  sum := rfl
  empty _ := rfl
  last := rfl
  covers n msg h := by cases h
  delivered := List.Perm.refl _
  index msg n closing h := by
    cases List.mem_singleton.mp h

/-- When the channel is freed, all has been sent. -/
theorem Guarded.inFlight_of_freed (h : s.Guarded) (hfreed : s.freed = true) :
    s.inFlight = [] := by
  have hclosing := h.closing
  have hrefs : s.refs = 0 := by
    by_contra hne
    rw [(h.open_of_refs hne).1] at hfreed
    cases hfreed
  rw [if_pos hrefs, hfreed] at hclosing
  have hcloses : s.tasks.countP BatchTask.closes = 0 := Nat.succ.inj hclosing
  have hholds : s.tasks.countP BatchTask.holds = 0 := by
    have hcount := h.refs
    omega
  refine List.filterMap_eq_nil_iff.mpr fun t ht => ?_
  have hclosed := List.countP_eq_zero.mp hcloses t ht
  have hheld := List.countP_eq_zero.mp hholds t ht
  cases t with
  | sending msg n closing =>
    cases closing with
    | false => exact absurd rfl hheld
    | true => exact absurd rfl hclosed
  | _ => rfl

/-- **The messages of a channel.**  In every interleaving in which batches do not overflow
and messages do not overtake each other, the messages and the batch count every share that
was noted once, nothing is left when the channel is freed, and each message has the highest
sequence number of the shares noted up to it, which never goes down. -/
theorem success_messages_exact (channelId : UInt32) (events : List BatchEvent)
    (hfits : Along batchStep BatchFits (start channelId) events) :
    let s := run batchStep (start channelId) events
    (counted (s.sent ++ s.inFlight) + s.batchCount.toNat = s.noted.length ∧
      summed (s.sent ++ s.inFlight) + s.batchSharesSum.toNat = creditedSum s.noted) ∧
    (s.freed = true → s.inFlight = [] ∧ s.batchCount = 0 ∧ s.batchSharesSum = 0) ∧
    s.sent.Pairwise (fun msg msg' => msg.lastSequenceNumber ≤ msg'.lastSequenceNumber) ∧
    s.batchLastSeq = highestSeq s.noted ∧
    ∀ n msg, s.sent[n]? = some msg →
      msg.lastSequenceNumber = highestSeq (s.noted.take (counted (s.sent.take (n + 1)))) := by
  intro s
  have hguarded : s.Guarded :=
    run_invariant_always (I := Guarded) (fun _ e h => h.step e) events (guarded_start channelId)
  obtain ⟨hbalanced, hordered⟩ : s.Balanced ∧ s.Ordered :=
    run_invariant (I := fun s => s.Balanced ∧ s.Ordered)
      (fun _ _ he h => ⟨h.1.step he, h.2.step h.1 he⟩) hfits ⟨balanced_start channelId, rfl⟩
  have hlast : ∀ n msg, s.sent[n]? = some msg →
      msg.lastSequenceNumber = highestSeq (s.noted.take (counted (s.sent.take (n + 1)))) := by
    intro n msg hmsg
    obtain ⟨hlt, -⟩ := List.getElem?_eq_some_iff.mp hmsg
    rw [hordered, List.getElem?_take_of_lt hlt] at hmsg
    rw [hordered, List.take_take, Nat.min_eq_left hlt]
    exact hbalanced.covers n msg hmsg
  refine ⟨⟨?_, ?_⟩, fun hfreed => ?_, ?_, hbalanced.last, hlast⟩
  · rw [← hbalanced.count]
    exact congrArg (· + _) (hbalanced.delivered.map _).sum_eq
  · rw [← hbalanced.sum]
    exact congrArg (· + _) (hbalanced.delivered.map _).sum_eq
  · have hzero := hguarded.emptied (Or.inl hfreed)
    exact ⟨hguarded.inFlight_of_freed hfreed, hzero, hbalanced.empty hzero⟩
  · refine List.pairwise_iff_getElem.mpr fun m n hm hn hlt => ?_
    rw [hlast m _ (List.getElem?_eq_getElem hm), hlast n _ (List.getElem?_eq_getElem hn)]
    exact highestSeq_take_le _ (counted_take_mono _ (Nat.succ_le_succ hlt.le))

/-! ### A message that overtakes another -/

/-- Two shares and a job push; the channel closes, and all is sent in order. -/
def orderlyRun : List BatchEvent :=
  [.go 0 ⟨0, 0⟩, .go 0 ⟨0, 0⟩, .share ⟨5, 100⟩, .share ⟨4, 200⟩, .go 1 ⟨10, 0⟩, .go 1 ⟨10, 0⟩,
    .pushJob, .go 3 ⟨10, 0⟩, .go 2 ⟨10, 0⟩, .go 3 ⟨10, 0⟩, .go 3 ⟨10, 0⟩, .close, .go 2 ⟨10, 0⟩,
    .go 2 ⟨10, 0⟩, .go 2 ⟨10, 0⟩, .go 2 ⟨10, 0⟩]

/-- The worker of a refused share takes and sends a second batch while the job push, which
took the first, has not sent it yet. -/
def overtakingRun : List BatchEvent :=
  [.share ⟨1, 100⟩, .go 1 ⟨10, 0⟩, .pushJob, .share ⟨2, 100⟩, .error, .go 2 ⟨10, 0⟩,
    .go 3 ⟨10, 0⟩, .go 4 ⟨10, 0⟩, .go 4 ⟨10, 0⟩, .go 2 ⟨10, 0⟩]

theorem orderlyRun_exact :
    let s := run batchStep (start 1) orderlyRun
    s.freed = true ∧ s.sent = [⟨1, 5, 1, 100⟩, ⟨1, 5, 1, 200⟩] ∧
      counted (s.sent ++ s.inFlight) + s.batchCount.toNat = s.noted.length :=
  ⟨by decide, by decide,
    (success_messages_exact 1 orderlyRun (by decide)).1.1⟩

/-- The sequence number goes from 2 back to 1. -/
theorem sequence_number_recedes :
    (run batchStep (start 1) overtakingRun).sent = [⟨1, 2, 1, 100⟩, ⟨1, 1, 1, 100⟩] := by
  decide

end BatchState

end CashStratum
