/-
CashStratum/ChannelJobs.lean

The jobs of a mining channel over whole runs.

The history of a channel has every job noted, the newest first, and forgets the custom ones at a
clear (`noted`).  The ring is its first eight (`ring_run`), so a job is resolved exactly while
fewer than eight others were noted since, and no clear was if it is a custom one
(`lookupJob_run_iff`).

Below it stands the channel as the source has it, with pointers to the material of the custom
jobs: a material is in one slot until it is freed, and is freed once (`Owned`).  What the
pointers point to is what the channel of `MiningChannel` has (`Points`).
-/
import CashStratum.MiningChannel
import CashStratum.Ring
import CashStratum.Run
import Mathlib.Algebra.BigOperators.Fin

namespace CashStratum

open Function

/-! ### Operations -/

/-- A job that is noted, with the material that is handed over. -/
structure JobNote where
  workbaseId : Int
  custom : Bool
  customJob : Option CustomJob
  version : UInt32
  versionRolling : Bool

/-- What is done to the jobs of a channel. -/
inductive JobOp where
  | note (n : JobNote)
  | clear
  | lookup (jobId : UInt32)

/-- How many jobs were noted. -/
def noteCount : List JobOp → Nat
  | [] => 0
  | .note _ :: ops => noteCount ops + 1
  | _ :: ops => noteCount ops

@[simp] theorem noteCount_append (ops ops' : List JobOp) :
    noteCount (ops ++ ops') = noteCount ops + noteCount ops' := by
  induction ops with
  | nil => simp [noteCount]
  | cons op ops ih =>
    cases op <;> simp only [List.cons_append, noteCount, ih]
    omega

def MiningChannel.jobStep (ch : MiningChannel) : JobOp → MiningChannel
  | .note n => ch.noteJob n.workbaseId n.custom n.customJob n.version n.versionRolling
  | .clear => ch.clearCustom
  | .lookup _ => ch

/-! ### The history -/

/-- The slot of a job, `k` jobs having been noted before. -/
def JobNote.slot (n : JobNote) (k : Nat) : JobSlot where
  jobId := UInt32.ofNat (k + 1)
  workbaseId := n.workbaseId
  used := true
  custom := n.custom
  version := n.version
  versionRolling := n.versionRolling
  customJob := if n.custom then n.customJob else none

/-- What a clear leaves of a slot. -/
def JobSlot.cleared (slot : JobSlot) : JobSlot :=
  { slot with
    customJob := none
    used := if slot.used && slot.custom then false else slot.used }

/-- The history, one operation later. -/
def noteStep (l : List JobSlot) : JobOp → List JobSlot
  | .note n => n.slot l.length :: l
  | .clear => l.map JobSlot.cleared
  | .lookup _ => l

/-- The slots of the jobs noted, the newest first. -/
def noted (ops : List JobOp) : List JobSlot := run noteStep [] ops

theorem noted_concat (ops : List JobOp) (op : JobOp) :
    noted (ops ++ [op]) = noteStep (noted ops) op := by
  rw [noted, run_append]
  rfl

@[simp] theorem length_noted (ops : List JobOp) : (noted ops).length = noteCount ops := by
  induction ops using List.reverseRecOn with
  | nil => rfl
  | append_singleton ops op ih =>
    rw [noted_concat, noteCount_append, ← ih]
    cases op <;> simp [noteStep, noteCount]

/-- The ids count down to one. -/
theorem map_jobId_noted (ops : List JobOp) :
    (noted ops).map JobSlot.jobId =
      (List.range (noteCount ops)).reverse.map fun k => UInt32.ofNat (k + 1) := by
  induction ops using List.reverseRecOn with
  | nil => rfl
  | append_singleton ops op ih =>
    rw [noted_concat, noteCount_append]
    cases op with
    | note n =>
      show _ = (List.range (noteCount ops + 1)).reverse.map _
      rw [List.range_succ, List.reverse_append, noteStep, List.map_cons, ih, length_noted]
      rfl
    | clear =>
      rw [noteStep, List.map_map]
      exact ih
    | lookup jobId => exact ih

variable {ops : List JobOp}

/-- Fewer than `2^32` jobs have different ids. -/
theorem nodup_jobId_noted (hlt : noteCount ops < 2 ^ 32) :
    ((noted ops).map JobSlot.jobId).Nodup := by
  rw [map_jobId_noted]
  refine List.Nodup.map_on ?_ (List.nodup_reverse.mpr List.nodup_range)
  intro k hk k' hk' heq
  rw [List.mem_reverse, List.mem_range] at hk hk'
  have hnat := congrArg UInt32.toNat heq
  rw [UInt32.toNat_ofNat', UInt32.toNat_ofNat', Nat.mod_eq_of_lt (by omega),
    Nat.mod_eq_of_lt (by omega)] at hnat
  omega

/-- A custom job does not outlive a clear, and nothing else changes. -/
theorem used_cleared {slot : JobSlot} :
    slot.cleared.used = true ↔ slot.used = true ∧ slot.custom = false := by
  cases hused : slot.used <;> cases hcustom : slot.custom <;> simp [JobSlot.cleared, hused, hcustom]

/-- **The newest jobs of the history**: those noted with few others since, and with no clear since
if they are custom ones. -/
theorem mem_take_noted_iff {k : Nat} {slot : JobSlot} :
    slot ∈ (noted ops).take k ∧ slot.used = true ↔
      ∃ before n after, ops = before ++ .note n :: after ∧ noteCount after < k ∧
        (n.custom = true → .clear ∉ after) ∧ slot = n.slot (noteCount before) := by
  induction ops using List.reverseRecOn generalizing k slot with
  | nil => simp [noted]
  | append_singleton ops op ih =>
    rw [noted_concat]
    simp only [concat_eq_append_cons_iff]
    cases op with
    | note n =>
      cases k with
      | zero => simp
      | succ k =>
        rw [noteStep, List.take_succ_cons, List.mem_cons, or_and_right, ih, length_noted]
        constructor
        · rintro (⟨rfl, -⟩ | ⟨before, n', after, rfl, hlt, hclear, rfl⟩)
          · exact ⟨ops, n, [], .inl ⟨rfl, rfl, rfl⟩, Nat.succ_pos k, by simp, rfl⟩
          · refine ⟨before, n', after ++ [.note n], .inr ⟨after, rfl, rfl⟩, ?_, ?_, rfl⟩
            · simpa [noteCount] using hlt
            · simpa using hclear
        · rintro ⟨before, n', after, ⟨rfl, hn, rfl⟩ | ⟨after, rfl, rfl⟩, hlt, hclear, rfl⟩
          · cases hn
            exact .inl ⟨rfl, rfl⟩
          · refine .inr ⟨before, n', after, rfl, ?_, ?_, rfl⟩
            · simpa [noteCount] using hlt
            · simpa using hclear
    | clear =>
      rw [noteStep, ← List.map_take, List.mem_map]
      constructor
      · rintro ⟨⟨slot, hmem, rfl⟩, hused⟩
        obtain ⟨hused, hpool⟩ := used_cleared.mp hused
        obtain ⟨before, n, after, rfl, hlt, -, rfl⟩ := ih.mp ⟨hmem, hused⟩
        have hpool : n.custom = false := hpool
        refine ⟨before, n, after ++ [.clear], .inr ⟨after, rfl, rfl⟩, ?_, ?_, ?_⟩
        · simpa [noteCount] using hlt
        · simp [hpool]
        · simp [JobSlot.cleared, JobNote.slot, hpool]
      · rintro ⟨before, n, after, ⟨-, hn, -⟩ | ⟨after, rfl, rfl⟩, hlt, hclear, rfl⟩
        · cases hn
        · have hpool : n.custom = false := by
            by_contra hcustom
            exact hclear (Bool.not_eq_false _ ▸ hcustom) (by simp)
          have hheld := ih.mpr ⟨before, n, after, rfl, by simpa [noteCount] using hlt,
            by simp [hpool], rfl⟩
          refine ⟨⟨_, hheld.1, ?_⟩, rfl⟩
          simp [JobSlot.cleared, JobNote.slot, hpool]
    | lookup jobId =>
      rw [noteStep, ih]
      constructor
      · rintro ⟨before, n, after, rfl, hlt, hclear, rfl⟩
        refine ⟨before, n, after ++ [.lookup jobId], .inr ⟨after, rfl, rfl⟩, ?_, ?_, rfl⟩
        · simpa [noteCount] using hlt
        · simpa using hclear
      · rintro ⟨before, n, after, ⟨-, hn, -⟩ | ⟨after, rfl, rfl⟩, hlt, hclear, rfl⟩
        · cases hn
        · refine ⟨before, n, after, rfl, ?_, ?_, rfl⟩
          · simpa [noteCount] using hlt
          · simpa using hclear

/-! ### The ring -/

theorem nextJobId_ofNat {k : Nat} (hlt : k + 1 < 2 ^ 32) :
    nextJobId (UInt32.ofNat k) = UInt32.ofNat (k + 1) := by
  have hsucc : UInt32.ofNat k + 1 = UInt32.ofNat (k + 1) := by
    apply UInt32.toNat_inj.mp
    simp [UInt32.toNat_add]
  have hne : UInt32.ofNat (k + 1) ≠ 0 := by
    intro hzero
    have hnat := congrArg UInt32.toNat hzero
    rw [UInt32.toNat_ofNat', Nat.mod_eq_of_lt (by omega)] at hnat
    exact absurd hnat (by simp)
  rw [nextJobId, hsucc, if_neg hne]

/-- The channel has the newest jobs of a history. -/
structure MiningChannel.Holds (ch : MiningChannel) (l : List JobSlot) : Prop where
  jobSeq : ch.jobSeq = UInt32.ofNat l.length
  ring : Ring.newestFirst ch.jobs ch.jobRingPos =
    (l ++ List.replicate sv2JobRing JobSlot.empty).take sv2JobRing

theorem MiningChannel.holds_opened (clientId : Int) (channelId : UInt32) (instanceId : Int)
    (standard : Bool) (enonce1 : Bytes) (extranonceSize : Nat) :
    (opened clientId channelId instanceId standard enonce1 extranonceSize).Holds [] where
  jobSeq := rfl
  ring := by
    rw [List.nil_append, List.take_replicate]
    exact Ring.newestFirst_const _ _

/-- **Every operation does to the ring what it does to the history.** -/
theorem MiningChannel.Holds.step {ch : MiningChannel} {l : List JobSlot} (h : ch.Holds l)
    {op : JobOp} (hlt : (noteStep l op).length < 2 ^ 32) :
    (ch.jobStep op).Holds (noteStep l op) := by
  cases op with
  | note n =>
    have hid : nextJobId ch.jobSeq = UInt32.ofNat (l.length + 1) := by
      rw [h.jobSeq]
      exact nextJobId_ofNat hlt
    refine ⟨hid, ?_⟩
    show Ring.newestFirst (update ch.jobs ch.jobRingPos _) (ch.jobRingPos + 1) = _
    rw [Ring.newestFirst_write, h.ring, Ring.take_cons_take, noteStep, List.cons_append,
      JobNote.slot, ← hid]
  | clear =>
    refine ⟨?_, ?_⟩
    · rw [noteStep, List.length_map]
      exact h.jobSeq
    · have hempty : JobSlot.empty.cleared = .empty := rfl
      show Ring.newestFirst (fun i => (ch.jobs i).cleared) ch.jobRingPos = _
      rw [Ring.newestFirst_map, h.ring, noteStep, List.map_take, List.map_append,
        List.map_replicate, hempty]
  | lookup jobId => exact h

/-- **The ring of a run** is the newest part of its history. -/
theorem MiningChannel.Holds.run {ch : MiningChannel} (h : ch.Holds [])
    (hlt : noteCount ops < 2 ^ 32) : (run jobStep ch ops).Holds (noted ops) := by
  induction ops using List.reverseRecOn with
  | nil => exact h
  | append_singleton ops op ih =>
    have hbefore : noteCount ops < 2 ^ 32 := by
      rw [noteCount_append] at hlt
      omega
    rw [← length_noted, noted_concat] at hlt
    rw [run_append, noted_concat]
    exact (ih hbefore).step hlt

/-- A slot that is used is one of the history. -/
theorem MiningChannel.Holds.used_iff {ch : MiningChannel} {l : List JobSlot} (h : ch.Holds l)
    {slot : JobSlot} :
    (∃ i, ch.jobs i = slot) ∧ slot.used = true ↔ slot ∈ l.take sv2JobRing ∧ slot.used = true := by
  have hslots : (∃ i, ch.jobs i = slot) ↔ slot ∈ Ring.newestFirst ch.jobs ch.jobRingPos :=
    Ring.mem_newestFirst.symm
  rw [hslots, h.ring, List.take_append, List.mem_append]
  refine and_congr_left fun hused => or_iff_left fun hmem => ?_
  obtain rfl := List.eq_of_mem_replicate (List.mem_of_mem_take hmem)
  cases hused

/-- **The lookup** of a history whose ids differ. -/
theorem MiningChannel.Holds.lookupJob_eq_some_iff {ch : MiningChannel} {l : List JobSlot}
    (h : ch.Holds l) (hnodup : (l.map JobSlot.jobId).Nodup) {jobId : UInt32} {slot : JobSlot} :
    ch.lookupJob jobId = some slot ↔
      slot ∈ l.take sv2JobRing ∧ slot.used = true ∧ slot.jobId = jobId := by
  rw [← and_assoc, ← h.used_iff]
  constructor
  · intro hlookup
    obtain ⟨i, hfind, rfl⟩ := Option.map_eq_some_iff.mp hlookup
    have hslot := List.find?_some hfind
    rw [Bool.and_eq_true, decide_eq_true_iff] at hslot
    exact ⟨⟨⟨i, rfl⟩, hslot.1⟩, hslot.2⟩
  · rintro ⟨⟨⟨i, rfl⟩, hused⟩, rfl⟩
    rw [lookupJob]
    cases hfind : (List.finRange sv2JobRing).find? fun j =>
        (ch.jobs j).used && decide ((ch.jobs j).jobId = (ch.jobs i).jobId) with
    | none =>
      have hnone := List.find?_eq_none.mp hfind i (List.mem_finRange i)
      simp [hused] at hnone
    | some j =>
      have hslot := List.find?_some hfind
      rw [Bool.and_eq_true, decide_eq_true_iff] at hslot
      -- two slots of one id are the same job of the history
      have hi := (h.used_iff.mp ⟨⟨i, rfl⟩, hused⟩).1
      have hj := (h.used_iff.mp ⟨⟨j, rfl⟩, hslot.1⟩).1
      exact congrArg some (List.inj_on_of_nodup_map hnodup (List.mem_of_mem_take hj)
        (List.mem_of_mem_take hi) hslot.2)

/-- **The lookup after a run.** -/
theorem MiningChannel.Holds.lookupJob_run_iff {ch : MiningChannel} (h : ch.Holds [])
    (hlt : noteCount ops < 2 ^ 32) (jobId : UInt32) (slot : JobSlot) :
    (CashStratum.run jobStep ch ops).lookupJob jobId = some slot ↔
      ∃ before n after, ops = before ++ .note n :: after ∧
        jobId = UInt32.ofNat (noteCount before + 1) ∧ noteCount after < sv2JobRing ∧
        (n.custom = true → .clear ∉ after) ∧ slot = n.slot (noteCount before) := by
  rw [(h.run hlt).lookupJob_eq_some_iff (nodup_jobId_noted hlt), ← and_assoc, mem_take_noted_iff]
  constructor
  · rintro ⟨⟨before, n, after, rfl, hafter, hclear, rfl⟩, rfl⟩
    exact ⟨before, n, after, rfl, rfl, hafter, hclear, rfl⟩
  · rintro ⟨before, n, after, rfl, rfl, hafter, hclear, rfl⟩
    exact ⟨⟨before, n, after, rfl, hafter, hclear, rfl⟩, rfl⟩

/-! ### Pointers -/

/-- `struct sv2_job_slot`, with the pointer to its material. -/
structure PtrSlot where
  jobId : UInt32
  workbaseId : Int
  used : Bool
  custom : Bool
  version : UInt32
  versionRolling : Bool
  customJob : Option Nat

def PtrSlot.empty : PtrSlot where
  jobId := 0
  workbaseId := 0
  used := false
  custom := false
  version := 0
  versionRolling := false
  customJob := none

/-- What a channel has for its jobs.  A pointer is the number of an allocation: `heap` has all that
was ever allocated and `freed` what was freed, each in order. -/
structure ChannelJobs where
  activeJobId : UInt32
  workbaseId : Int
  jobSeq : UInt32
  jobs : Fin sv2JobRing → PtrSlot
  jobRingPos : Fin sv2JobRing
  custom : Option Nat
  heap : List CustomJob
  freed : List Nat

/-- What a lookup gives. -/
structure FoundJob (μ : Type*) where
  workbaseId : Int
  custom : Bool
  customJob : Option μ
  version : UInt32
  versionRolling : Bool

variable {ch : ChannelJobs}

namespace ChannelJobs

section OpenRing

local instance neZero_openRing : NeZero sv2JobRing := ⟨by decide⟩

/-- A new channel. -/
def opened : ChannelJobs where
  activeJobId := 0
  workbaseId := 0
  jobSeq := 0
  jobs := fun _ => .empty
  jobRingPos := 0
  custom := none
  heap := []
  freed := []

end OpenRing

/-- `free_custom_job` -/
def freeCustomJob (ch : ChannelJobs) (customJob : Option Nat) : ChannelJobs :=
  { ch with freed := ch.freed ++ customJob.toList }

/-- The slot at the position lets go of its material. -/
def releaseSlot (ch : ChannelJobs) : ChannelJobs :=
  match (ch.jobs ch.jobRingPos).customJob with
  | none => ch
  | some old =>
    let ch := if ch.custom = some old then { ch with custom := none } else ch
    ch.freeCustomJob (some old)

section NoteRing

local instance neZero_noteRing : NeZero sv2JobRing := ⟨by decide⟩

/-- `channel_note_job_locked` -/
def channelNoteJobLocked (ch : ChannelJobs) (jobId : UInt32) (workbaseId : Int) (custom : Bool)
    (customJob : Option Nat) (version : UInt32) (versionRolling : Bool) : ChannelJobs :=
  let ch := { ch with activeJobId := jobId, workbaseId := workbaseId }.releaseSlot
  let ch := { ch with
    jobs := update ch.jobs ch.jobRingPos
      { jobId := jobId
        workbaseId := workbaseId
        used := true
        custom := custom
        version := version
        versionRolling := versionRolling
        customJob := if custom then customJob else none } }
  let ch := if custom ∧ customJob.isSome then { ch with custom := customJob } else ch
  let ch := if custom then ch else ch.freeCustomJob customJob
  { ch with jobRingPos := ch.jobRingPos + 1 }

end NoteRing

/-- The callers of `channel_note_job_locked`: they allocate the material and draw the id from
`job_seq`. -/
def note (ch : ChannelJobs) (n : JobNote) : ChannelJobs :=
  let customJob := n.customJob.map fun _ => ch.heap.length
  let jobId := nextJobId ch.jobSeq
  { ch with jobSeq := jobId, heap := ch.heap ++ n.customJob.toList }.channelNoteJobLocked jobId
    n.workbaseId n.custom customJob n.version n.versionRolling

/-- `channel_lookup_job_locked` -/
def channelLookupJobLocked (ch : ChannelJobs) (jobId : UInt32) : Option (FoundJob Nat) :=
  ((List.finRange sv2JobRing).find? fun i =>
    (ch.jobs i).used && decide ((ch.jobs i).jobId = jobId)).map fun i =>
      { workbaseId := (ch.jobs i).workbaseId
        custom := (ch.jobs i).custom
        customJob := if (ch.jobs i).custom then (ch.jobs i).customJob else none
        version := (ch.jobs i).version
        versionRolling := (ch.jobs i).versionRolling }

/-- `channel_clear_custom_locked` -/
def channelClearCustomLocked (ch : ChannelJobs) : ChannelJobs :=
  { ch with
    custom := none
    freed := ch.freed ++ (List.finRange sv2JobRing).filterMap fun i => (ch.jobs i).customJob
    jobs := fun i =>
      { ch.jobs i with
        customJob := none
        used := if (ch.jobs i).used && (ch.jobs i).custom then false else (ch.jobs i).used } }

def step (ch : ChannelJobs) : JobOp → ChannelJobs
  | .note n => ch.note n
  | .clear => ch.channelClearCustomLocked
  | .lookup _ => ch

/-! ### Owners -/

/-- The slots that have a material. -/
def owners (ch : ChannelJobs) (p : Nat) : Finset (Fin sv2JobRing) :=
  Finset.univ.filter fun i => (ch.jobs i).customJob = some p

/-- Each material is in one slot or was freed once, a slot that has one is that of a custom job
in use, and the alias is one that is in a slot. -/
structure Owned (ch : ChannelJobs) : Prop where
  once (p : Nat) : (ch.owners p).card + ch.freed.count p = if p < ch.heap.length then 1 else 0
  kind (i : Fin sv2JobRing) (p : Nat) (h : (ch.jobs i).customJob = some p) :
    (ch.jobs i).used = true ∧ (ch.jobs i).custom = true
  latest (p : Nat) (h : ch.custom = some p) : ∃ i, (ch.jobs i).customJob = some p

theorem owned_opened : opened.Owned where
  once p := by simp [opened, owners, PtrSlot.empty]
  kind i p h := by cases h
  latest p h := by cases h

/-- A pointer to nothing is nowhere. -/
theorem Owned.lt_of_customJob (h : ch.Owned) {i : Fin sv2JobRing} {p : Nat}
    (hp : (ch.jobs i).customJob = some p) : p < ch.heap.length := by
  have hmem : i ∈ ch.owners p := by simpa [owners] using hp
  have hpos := Finset.card_pos.mpr ⟨i, hmem⟩
  have honce := h.once p
  split at honce
  case isTrue hlt => exact hlt
  case isFalse => omega

/-- The slot that a note writes. -/
def noteSlot (ch : ChannelJobs) (n : JobNote) : PtrSlot where
  jobId := nextJobId ch.jobSeq
  workbaseId := n.workbaseId
  used := true
  custom := n.custom
  version := n.version
  versionRolling := n.versionRolling
  customJob := if n.custom then n.customJob.map fun _ => ch.heap.length else none

/-- The alias loses what the slot had, and what it had is freed. -/
theorem releaseSlot_eq (ch : ChannelJobs) :
    ch.releaseSlot =
      { ch with
        custom := ch.custom.filter fun p => (ch.jobs ch.jobRingPos).customJob ≠ some p
        freed := ch.freed ++ (ch.jobs ch.jobRingPos).customJob.toList } := by
  unfold releaseSlot freeCustomJob
  cases (ch.jobs ch.jobRingPos).customJob with
  | none =>
    have hkeep : (ch.custom.filter fun p => (none : Option Nat) ≠ some p) = ch.custom := by
      cases ch.custom <;> rfl
    rw [hkeep, Option.toList_none, List.append_nil]
  | some old =>
    dsimp only
    split
    case isTrue h => simp [h, Option.filter]
    case isFalse h =>
      have hkeep : (ch.custom.filter fun p => some old ≠ some p) = ch.custom := by
        cases hcustom : ch.custom with
        | none => rfl
        | some p =>
          rw [hcustom] at h
          simp [Option.filter, Ne.symm h]
      rw [hkeep]

/-- **A note**, field by field. -/
theorem note_eq (ch : ChannelJobs) (n : JobNote) :
    ch.note n =
      { activeJobId := nextJobId ch.jobSeq
        workbaseId := n.workbaseId
        jobSeq := nextJobId ch.jobSeq
        jobs := update ch.jobs ch.jobRingPos (ch.noteSlot n)
        jobRingPos := ch.jobRingPos + 1
        custom :=
          if n.custom ∧ n.customJob.isSome then some ch.heap.length
          else ch.custom.filter fun p => (ch.jobs ch.jobRingPos).customJob ≠ some p
        heap := ch.heap ++ n.customJob.toList
        freed := ch.freed ++ (ch.jobs ch.jobRingPos).customJob.toList ++
          if n.custom then [] else (n.customJob.map fun _ => ch.heap.length).toList } := by
  simp only [note, channelNoteJobLocked, freeCustomJob, releaseSlot_eq, noteSlot]
  cases hcustom : n.custom <;> cases hjob : n.customJob <;> simp

theorem count_toList (o : Option Nat) (p : Nat) :
    o.toList.count p = if o = some p then 1 else 0 := by
  cases o with
  | none => rfl
  | some q =>
    rw [Option.toList_some, List.count_singleton]
    simp only [beq_iff_eq, Option.some.injEq]

/-- A slot is written: the owners of a material, without the slot and with it. -/
theorem card_filter_update {n : Nat} (f : Fin n → Option Nat) (i : Fin n) (o : Option Nat)
    (p : Nat) :
    (Finset.univ.filter fun j => update f i o j = some p).card +
        (if f i = some p then 1 else 0) =
      (Finset.univ.filter fun j => f j = some p).card + if o = some p then 1 else 0 := by
  simp only [Finset.card_filter]
  have hsplit : ∀ g : Fin n → Option Nat, (∑ j, if g j = some p then 1 else 0) =
      (if g i = some p then 1 else 0) + ∑ j ∈ Finset.univ.erase i, if g j = some p then 1 else 0 :=
    fun g => (Finset.add_sum_erase _ _ (Finset.mem_univ i)).symm
  have hothers : (∑ j ∈ Finset.univ.erase i, if update f i o j = some p then 1 else 0) =
      ∑ j ∈ Finset.univ.erase i, if f j = some p then 1 else 0 := by
    refine Finset.sum_congr rfl fun j hj => ?_
    rw [update_of_ne (Finset.ne_of_mem_erase hj)]
  rw [hsplit, hsplit f, hothers, update_self]
  omega

/-- The owners of a material after a note. -/
theorem card_owners_note (ch : ChannelJobs) (n : JobNote) (p : Nat) :
    ((ch.note n).owners p).card + (if (ch.jobs ch.jobRingPos).customJob = some p then 1 else 0) =
      (ch.owners p).card + if (ch.noteSlot n).customJob = some p then 1 else 0 := by
  have hslots : ∀ i, ((ch.note n).jobs i).customJob =
      update (fun j => (ch.jobs j).customJob) ch.jobRingPos
        (ch.noteSlot n).customJob i := by
    intro i
    rw [note_eq]
    exact apply_update (fun _ => PtrSlot.customJob) ch.jobs ch.jobRingPos _ i
  rw [owners]
  simp only [hslots]
  exact card_filter_update _ _ _ _

theorem Owned.note (h : ch.Owned) (n : JobNote) : (ch.note n).Owned where
  once p := by
    have howners := card_owners_note ch n p
    have honce := h.once p
    -- the new material is in the slot or freed
    have hnew : (if (ch.noteSlot n).customJob = some p then 1 else 0) +
        (if n.custom then [] else (n.customJob.map fun _ => ch.heap.length).toList).count p =
        if (n.customJob.map fun _ => ch.heap.length) = some p then 1 else 0 := by
      by_cases hcustom : n.custom = true
      · simp only [noteSlot, if_pos hcustom]
        rfl
      · simp only [noteSlot, if_neg hcustom, count_toList]
        simp
    have hheap : (if p < (ch.heap ++ n.customJob.toList).length then 1 else 0) =
        (if p < ch.heap.length then 1 else 0) +
          if (n.customJob.map fun _ => ch.heap.length) = some p then 1 else 0 := by
      cases n.customJob with
      | none => simp
      | some cj =>
        simp only [Option.toList_some, List.length_append, List.length_singleton,
          Option.map_some, Option.some.injEq]
        split_ifs <;> omega
    have hfreed : (ch.note n).freed.count p = ch.freed.count p +
        (if (ch.jobs ch.jobRingPos).customJob = some p then 1 else 0) +
        (if n.custom then [] else (n.customJob.map fun _ => ch.heap.length).toList).count p := by
      rw [note_eq, List.count_append, List.count_append, count_toList]
    have hlength : (ch.note n).heap.length = (ch.heap ++ n.customJob.toList).length := by
      rw [note_eq]
    rw [hfreed, hlength, hheap, ← honce, ← hnew]
    omega
  kind i p hp := by
    rw [note_eq] at hp ⊢
    by_cases hi : i = ch.jobRingPos
    · subst hi
      simp only [update_self, noteSlot] at hp ⊢
      split at hp
      case isTrue hcustom => exact ⟨trivial, hcustom⟩
      case isFalse => cases hp
    · simp only [update_of_ne hi] at hp ⊢
      exact h.kind i p hp
  latest p hp := by
    rw [note_eq] at hp ⊢
    dsimp only at hp ⊢
    split at hp
    case isTrue hnew =>
      refine ⟨ch.jobRingPos, ?_⟩
      obtain ⟨cj, hcj⟩ := Option.isSome_iff_exists.mp hnew.2
      rw [update_self, noteSlot, if_pos hnew.1, hcj]
      exact hp
    case isFalse =>
      obtain ⟨hold, hkept⟩ := Option.filter_eq_some_iff.mp hp
      obtain ⟨i, hi⟩ := h.latest p hold
      have hne : i ≠ ch.jobRingPos := by
        rintro rfl
        simp [hi] at hkept
      exact ⟨i, by rw [update_of_ne hne, hi]⟩

/-- A clear frees what the slots have. -/
theorem count_filterMap_customJob (ch : ChannelJobs) (p : Nat) :
    ((List.finRange sv2JobRing).filterMap fun i => (ch.jobs i).customJob).count p =
      (ch.owners p).card := by
  rw [owners, Finset.card_filter, Fin.sum_univ_def]
  induction List.finRange sv2JobRing with
  | nil => rfl
  | cons i slots ih =>
    rw [List.map_cons, List.sum_cons, ← ih]
    cases hslot : (ch.jobs i).customJob with
    | none => simp [hslot]
    | some q => simp [hslot, List.count_cons, Nat.add_comm]

theorem Owned.clear (h : ch.Owned) : ch.channelClearCustomLocked.Owned where
  once p := by
    have hnone : ch.channelClearCustomLocked.owners p = ∅ := by
      simp [owners, channelClearCustomLocked]
    rw [hnone, Finset.card_empty, Nat.zero_add]
    show (ch.freed ++ _).count p = _
    rw [List.count_append, count_filterMap_customJob, Nat.add_comm]
    exact h.once p
  kind i p hp := by cases hp
  latest p hp := by cases hp

/-- **Every operation keeps the owners.** -/
theorem Owned.step (h : ch.Owned) (op : JobOp) : (ch.step op).Owned := by
  cases op with
  | note n => exact h.note n
  | clear => exact h.clear
  | lookup jobId => exact h

/-! ### What the pointers point to -/

/-- A slot with its material. -/
def deref (heap : List CustomJob) (slot : PtrSlot) : JobSlot where
  jobId := slot.jobId
  workbaseId := slot.workbaseId
  used := slot.used
  custom := slot.custom
  version := slot.version
  versionRolling := slot.versionRolling
  customJob := slot.customJob.bind fun p => heap[p]?

/-- The channel with its material in the slots. -/
structure Points (ch : ChannelJobs) (mc : MiningChannel) : Prop where
  jobSeq : mc.jobSeq = ch.jobSeq
  jobRingPos : mc.jobRingPos = ch.jobRingPos
  jobs (i : Fin sv2JobRing) : mc.jobs i = deref ch.heap (ch.jobs i)

/-- What is allocated later is not pointed to yet. -/
theorem Owned.deref_append (h : ch.Owned) (i : Fin sv2JobRing) (later : List CustomJob) :
    deref (ch.heap ++ later) (ch.jobs i) = deref ch.heap (ch.jobs i) := by
  have hsame : ((ch.jobs i).customJob.bind fun p => (ch.heap ++ later)[p]?) =
      (ch.jobs i).customJob.bind fun p => ch.heap[p]? := by
    cases hp : (ch.jobs i).customJob with
    | none => rfl
    | some p => exact List.getElem?_append_left (h.lt_of_customJob hp)
  rw [deref, hsame]
  rfl

/-- The material of a new slot is the one that was handed over. -/
theorem deref_noteSlot (ch : ChannelJobs) (n : JobNote) :
    deref (ch.heap ++ n.customJob.toList) (ch.noteSlot n) =
      { jobId := nextJobId ch.jobSeq
        workbaseId := n.workbaseId
        used := true
        custom := n.custom
        version := n.version
        versionRolling := n.versionRolling
        customJob := if n.custom then n.customJob else none } := by
  have hmaterial :
      ((if n.custom then n.customJob.map fun _ => ch.heap.length else none).bind fun p =>
        (ch.heap ++ n.customJob.toList)[p]?) = if n.custom then n.customJob else none := by
    split
    case isTrue => cases n.customJob <;> simp
    case isFalse => rfl
  rw [deref, noteSlot, hmaterial]

/-- **The channel with pointers does what the channel without them does.** -/
theorem Points.step {mc : MiningChannel} (h : ch.Points mc) (howned : ch.Owned)
    (op : JobOp) : (ch.step op).Points (mc.jobStep op) := by
  cases op with
  | note n =>
    show (ch.note n).Points _
    rw [note_eq]
    refine ⟨?_, ?_, fun i => ?_⟩
    · rw [← h.jobSeq]
      rfl
    · rw [← h.jobRingPos]
      rfl
    · show update mc.jobs mc.jobRingPos _ i =
        deref (ch.heap ++ n.customJob.toList) (update ch.jobs ch.jobRingPos _ i)
      rw [h.jobRingPos, h.jobSeq]
      by_cases hi : i = ch.jobRingPos
      · rw [hi, update_self, update_self, deref_noteSlot]
      · rw [update_of_ne hi, update_of_ne hi, howned.deref_append, h.jobs]
  | clear =>
    refine ⟨h.jobSeq, h.jobRingPos, fun i => ?_⟩
    show { mc.jobs i with
      customJob := none
      used := if (mc.jobs i).used && (mc.jobs i).custom then false else (mc.jobs i).used } = _
    rw [h.jobs]
    rfl
  | lookup jobId => exact h

/-- What a lookup gives, with its material. -/
def derefFound (heap : List CustomJob) (found : FoundJob Nat) : FoundJob CustomJob where
  workbaseId := found.workbaseId
  custom := found.custom
  customJob := found.customJob.bind fun p => heap[p]?
  version := found.version
  versionRolling := found.versionRolling

/-- What a slot says of its job. -/
def slotFound (slot : JobSlot) : FoundJob CustomJob where
  workbaseId := slot.workbaseId
  custom := slot.custom
  customJob := if slot.custom then slot.customJob else none
  version := slot.version
  versionRolling := slot.versionRolling

/-- What a note recorded. -/
def noteFound (n : JobNote) : FoundJob CustomJob where
  workbaseId := n.workbaseId
  custom := n.custom
  customJob := if n.custom then n.customJob else none
  version := n.version
  versionRolling := n.versionRolling

theorem slotFound_slot (n : JobNote) (k : Nat) : slotFound (n.slot k) = noteFound n := by
  cases hcustom : n.custom <;> simp [slotFound, noteFound, JobNote.slot, hcustom]

theorem Points.lookup {mc : MiningChannel} (h : ch.Points mc) (jobId : UInt32) :
    (ch.channelLookupJobLocked jobId).map (derefFound ch.heap) =
      (mc.lookupJob jobId).map slotFound := by
  have hjobs : mc.jobs = fun i => deref ch.heap (ch.jobs i) := funext h.jobs
  rw [channelLookupJobLocked, MiningChannel.lookupJob, hjobs, Option.map_map, Option.map_map]
  refine Option.map_congr fun i _ => ?_
  cases hcustom : (ch.jobs i).custom <;> simp [derefFound, slotFound, deref, hcustom]

/-! ### Runs -/

theorem points_run (ops : List JobOp) :
    (run step opened ops).Owned ∧
      (run step opened ops).Points
        (run MiningChannel.jobStep (.opened 0 0 0 false [] 0) ops) := by
  induction ops using List.reverseRecOn with
  | nil => exact ⟨owned_opened, rfl, rfl, fun i => rfl⟩
  | append_singleton ops op ih =>
    rw [run_append, run_append]
    exact ⟨ih.1.step op, ih.2.step ih.1 op⟩

/-- The material that is handed over by an operation. -/
def material : JobOp → Option CustomJob
  | .note n => n.customJob
  | _ => none

theorem heap_run (ops : List JobOp) : (run step opened ops).heap = ops.filterMap material := by
  induction ops using List.reverseRecOn with
  | nil => rfl
  | append_singleton ops op ih =>
    rw [run_append, List.filterMap_append, ← ih]
    cases op with
    | note n =>
      show ((run step opened ops).note n).heap = _
      rw [note_eq]
      cases hjob : n.customJob <;> simp [material, hjob]
    | clear | lookup => exact (List.append_nil _).symm

/-- What is freed stays freed. -/
theorem freed_prefix_step (ch : ChannelJobs) (op : JobOp) : ch.freed <+: (ch.step op).freed := by
  cases op with
  | note n =>
    show _ <+: (ch.note n).freed
    rw [note_eq]
    exact (List.prefix_append _ _).trans (List.prefix_append _ _)
  | clear => exact List.prefix_append _ _
  | lookup => exact List.prefix_refl _

theorem Owned.owned_or_freed (h : ch.Owned) {p : Nat} (hp : p < ch.heap.length) :
    (∃! i, (ch.jobs i).customJob = some p) ∧ p ∉ ch.freed ∨
      (∀ i, (ch.jobs i).customJob ≠ some p) ∧ ch.freed.count p = 1 := by
  have honce := h.once p
  rw [if_pos hp] at honce
  obtain ⟨howners, hfreed⟩ | ⟨howners, hfreed⟩ :
      (ch.owners p).card = 1 ∧ ch.freed.count p = 0 ∨
        (ch.owners p).card = 0 ∧ ch.freed.count p = 1 := by omega
  · left
    obtain ⟨i, hi⟩ := Finset.card_eq_one.mp howners
    refine ⟨⟨i, ?_, fun j hj => ?_⟩, List.count_eq_zero.mp hfreed⟩
    · have hmem : i ∈ ch.owners p := hi ▸ Finset.mem_singleton_self i
      simpa [owners] using hmem
    · have hmem : j ∈ ch.owners p := by simpa [owners] using hj
      rw [hi] at hmem
      exact Finset.mem_singleton.mp hmem
  · right
    refine ⟨fun i hi => ?_, hfreed⟩
    have hmem : i ∈ ch.owners p := by simpa [owners] using hi
    rw [Finset.card_eq_zero.mp howners] at hmem
    cases hmem

theorem Owned.lt_of_freed (h : ch.Owned) {p : Nat} (hp : p ∈ ch.freed) :
    p < ch.heap.length := by
  have hpos := List.count_pos_iff.mpr hp
  have honce := h.once p
  split at honce
  case isTrue hlt => exact hlt
  case isFalse => omega

/-- **The jobs of a channel**, after any operations with fewer than `2^32` notes.  A lookup gives
what was recorded under its id exactly while fewer than eight jobs were noted since, and no
clear was if the job is a custom one.  Each material handed over is in one slot and not freed,
or in no slot and was freed once, and what is freed stays freed.  The alias is nothing or the
material of a slot in use. -/
theorem channel_jobs_held (ops : List JobOp) (hlt : noteCount ops < 2 ^ 32) :
    let ch := run step opened ops
    (∀ jobId found, (ch.channelLookupJobLocked jobId).map (derefFound ch.heap) = some found ↔
      ∃ before n after, ops = before ++ .note n :: after ∧
        jobId = UInt32.ofNat (noteCount before + 1) ∧ noteCount after < sv2JobRing ∧
        (n.custom = true → .clear ∉ after) ∧ found = noteFound n) ∧
    ch.heap = ops.filterMap material ∧
    (∀ p < ch.heap.length,
      (∃! i, (ch.jobs i).customJob = some p) ∧ p ∉ ch.freed ∨
        (∀ i, (ch.jobs i).customJob ≠ some p) ∧ ch.freed.count p = 1) ∧
    (∀ i p, (ch.jobs i).customJob = some p → p < ch.heap.length) ∧
    (∀ p ∈ ch.freed, p < ch.heap.length) ∧
    (∀ op, ch.freed <+: (ch.step op).freed) ∧
    ∀ p, ch.custom = some p →
      ∃ i, (ch.jobs i).customJob = some p ∧ (ch.jobs i).used = true ∧
        (ch.jobs i).custom = true := by
  obtain ⟨howned, hpoints⟩ := points_run ops
  refine ⟨fun jobId found => ?_, heap_run ops, fun p hp => howned.owned_or_freed hp,
    fun i p hp => howned.lt_of_customJob hp, fun p hp => howned.lt_of_freed hp,
    fun op => freed_prefix_step _ op, fun p hp => ?_⟩
  · have hlookup := (MiningChannel.holds_opened 0 0 0 false [] 0).lookupJob_run_iff hlt jobId
    rw [hpoints.lookup, Option.map_eq_some_iff]
    simp only [hlookup]
    constructor
    · rintro ⟨slot, ⟨before, n, after, rfl, hid, hafter, hclear, rfl⟩, rfl⟩
      exact ⟨before, n, after, rfl, hid, hafter, hclear, slotFound_slot n _⟩
    · rintro ⟨before, n, after, rfl, hid, hafter, hclear, rfl⟩
      exact ⟨_, ⟨before, n, after, rfl, hid, hafter, hclear, rfl⟩, slotFound_slot n _⟩
  · obtain ⟨i, hi⟩ := howned.latest p hp
    exact ⟨i, hi, howned.kind i p hi⟩

/-- A job of the pool. -/
def poolNote : JobNote where
  workbaseId := 7
  custom := false
  customJob := none
  version := 0x20000000
  versionRolling := true

/-- A custom job. -/
def customNote : JobNote where
  workbaseId := 8
  custom := true
  customJob := some ⟨2, 0x20000000, .zero, 0, 0, 2, [], 0, [], 0, [], [1]⟩
  version := 0x20000000
  versionRolling := true

/-- After a clear the pool's job is still resolved, and the material of the custom one is in no
slot or in just one. -/
theorem channel_jobs_held_cleared :
    let ch := run step opened [.note poolNote, .note customNote, .clear]
    (ch.channelLookupJobLocked 1).map (derefFound ch.heap) = some (noteFound poolNote) ∧
      ((∃! i, (ch.jobs i).customJob = some 0) ∧ 0 ∉ ch.freed ∨
        (∀ i, (ch.jobs i).customJob ≠ some 0) ∧ ch.freed.count 0 = 1) := by
  obtain ⟨hlookup, -, howned, -⟩ :=
    channel_jobs_held [.note poolNote, .note customNote, .clear] (by decide)
  refine ⟨(hlookup 1 _).mpr ?_, howned 0 (by decide)⟩
  exact ⟨[], poolNote, [.note customNote, .clear], rfl, rfl, by decide, nofun, rfl⟩

end ChannelJobs

end CashStratum
