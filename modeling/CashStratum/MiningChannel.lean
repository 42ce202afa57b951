/-
CashStratum/MiningChannel.lean

The mining channels of the stratifier (`sv2_strat.c`): a channel remembers its last
eight jobs in a ring, the pool's and the custom ones, and a share names the job it was
found on.  A slot owns the material of its custom job, so a job is resolved until its
slot is overwritten or the custom jobs are cleared.

`CustomHeld` is what a later module needs of the ring: the custom jobs it holds come
from `noteJob` alone.
-/
import CashStratum.Sv2Custom
import CashStratum.Sv2Work
import Mathlib

namespace CashStratum

/-! ### The ring -/

/-- `SV2_JOB_RING`. -/
abbrev sv2JobRing : Nat := 8

/-- `struct sv2_job_slot`. -/
structure JobSlot where
  jobId : UInt32
  workbaseId : Int
  used : Bool
  custom : Bool
  version : UInt32
  versionRolling : Bool
  customJob : Option CustomJob

/-- A slot of a new channel. -/
def JobSlot.empty : JobSlot where
  jobId := 0
  workbaseId := 0
  used := false
  custom := false
  version := 0
  versionRolling := false
  customJob := none

/-- `struct sv2_channel`, with its jobs.  `hashed` says that the channel is in the table;
one that is not stays where the handlers that point to it can see it. -/
structure MiningChannel where
  clientId : Int
  channelId : UInt32
  instanceId : Int
  standard : Bool
  enonce1 : Bytes
  extranonceSize : Nat
  jobSeq : UInt32
  jobs : Fin sv2JobRing → JobSlot
  jobRingPos : Fin sv2JobRing
  hashed : Bool

namespace MiningChannel

section JobRing

local instance neZero_ring : NeZero sv2JobRing := ⟨by decide⟩

/-- A channel as it is opened. -/
def opened (clientId : Int) (channelId : UInt32) (instanceId : Int) (standard : Bool)
    (enonce1 : Bytes) (extranonceSize : Nat) : MiningChannel where
  clientId := clientId
  channelId := channelId
  instanceId := instanceId
  standard := standard
  enonce1 := enonce1
  extranonceSize := extranonceSize
  jobSeq := 0
  jobs := fun _ => .empty
  jobRingPos := 0
  hashed := true

/-- `channel_note_job_locked`, with the job id drawn from `job_seq`. -/
def noteJob (ch : MiningChannel) (workbaseId : Int) (custom : Bool) (customJob : Option CustomJob)
    (version : UInt32) (versionRolling : Bool) : MiningChannel :=
  { ch with
    jobSeq := nextJobId ch.jobSeq
    jobs := Function.update ch.jobs ch.jobRingPos
      { jobId := nextJobId ch.jobSeq
        workbaseId := workbaseId
        used := true
        custom := custom
        version := version
        versionRolling := versionRolling
        customJob := if custom then customJob else none }
    jobRingPos := ch.jobRingPos + 1 }

end JobRing

/-- `channel_lookup_job_locked`. -/
def lookupJob (ch : MiningChannel) (jobId : UInt32) : Option JobSlot :=
  ((List.finRange sv2JobRing).find? fun i =>
    (ch.jobs i).used && decide ((ch.jobs i).jobId = jobId)).map ch.jobs

/-- `channel_clear_custom_locked`: the pool's jobs stay. -/
def clearCustom (ch : MiningChannel) : MiningChannel :=
  { ch with
    jobs := fun i =>
      { ch.jobs i with
        customJob := none
        used := if (ch.jobs i).used && (ch.jobs i).custom then false else (ch.jobs i).used } }

/-- `sv2_submit_version_ok`. -/
def submitVersionOk (versionMask submitted jobVersion : UInt32) (versionRolling : Bool) : Bool :=
  if versionRolling = false then decide (submitted = jobVersion)
  else decide ((submitted ^^^ jobVersion) &&& ~~~versionMask = 0)

/-! ### The custom jobs of a channel -/

/-- The channel still has the material of the custom job. -/
def CustomHeld (ch : MiningChannel) (cj : CustomJob) : Prop := ∃ i, (ch.jobs i).customJob = some cj

/-- What is resolved is held. -/
theorem customHeld_of_lookupJob {ch : MiningChannel} {jobId : UInt32} {slot : JobSlot} {cj : CustomJob}
    (hlookup : ch.lookupJob jobId = some slot) (hslot : slot.customJob = some cj) :
    ch.CustomHeld cj := by
  obtain ⟨i, -, rfl⟩ := Option.map_eq_some_iff.mp hlookup
  exact ⟨i, hslot⟩

theorem customHeld_opened {clientId : Int} {channelId : UInt32} {instanceId : Int}
    {standard : Bool} {enonce1 : Bytes} {extranonceSize : Nat} {cj : CustomJob} :
    ¬(opened clientId channelId instanceId standard enonce1 extranonceSize).CustomHeld cj := by
  rintro ⟨i, hi⟩
  cases hi

/-- A job that is noted joins the custom jobs, if it is one. -/
theorem customHeld_noteJob {ch : MiningChannel} {workbaseId : Int} {custom : Bool}
    {customJob : Option CustomJob} {version : UInt32} {versionRolling : Bool} {cj : CustomJob}
    (h : (ch.noteJob workbaseId custom customJob version versionRolling).CustomHeld cj) :
    ch.CustomHeld cj ∨ custom = true ∧ customJob = some cj := by
  obtain ⟨i, hi⟩ := h
  by_cases hpos : i = ch.jobRingPos
  · subst hpos
    simp only [noteJob, Function.update_self] at hi
    split_ifs at hi with hcustom
    exact Or.inr ⟨hcustom, hi⟩
  · simp only [noteJob, Function.update_of_ne hpos] at hi
    exact Or.inl ⟨i, hi⟩

/-- Clearing leaves no custom job. -/
theorem customHeld_clearCustom {ch : MiningChannel} {cj : CustomJob} : ¬ch.clearCustom.CustomHeld cj := by
  rintro ⟨i, hi⟩
  cases hi

end MiningChannel

end CashStratum
