/-
CashStratum/Sv2ProxyPrefix.lean

A new extranonce prefix on an SV2 upstream (`SV2_MSG_SET_EXTRANONCE_PREFIX` of `generator.c`).

Each job of the pool has the prefix of the channel in its `coinb1`, so that a new one rebuilds the
ring and sends one job down, clean.  A declared job cannot be rebuilt and is dropped.  To say
what the miners should then be given, the ring is recorded beside the proxy: the frame in which
each job came, and the tips for which it was sent.

The job that is sent is the newest one that came with a time of its own.  A job that waited for
its tip keeps `future` when the tip comes, so that the search passes over it, although it is what
the miners work on; `prefix_adopted_iff` says when that makes no difference.
-/
import CashStratum.Sv2ProxyRing
import CashStratum.Sv2ProxyWork

namespace CashStratum

open Function

open Sv2Proxy (Event)

/-! ### What is sent -/

namespace Sv2Proxy

/-- The job that the handler of an event hands to `sv2_proxy_send_job`, if it comes to that. -/
def handed (sp : Sv2Proxy) : Event → Option ProxySlot
  | .newExtendedMiningJob _ => some sp.jobHead
  | .setNewPrevHash p _ _ => sp.findJob p.jobId
  | .customSuccess _ _ => some sp.jobHead
  | .setExtranoncePrefix extranoncePrefix => (sp.withPrefix extranoncePrefix).newestMinable
  | _ => none

/-- The job that an event sends. -/
def sentSlot (sp : Sv2Proxy) (e : Event) : Option ProxySlot :=
  if (sp.step e).notifies.length = sp.notifies.length then none else sp.handed e

section PrefixSlots

local instance neZero_prefixSlots : NeZero 32 := ⟨by decide⟩

/-- The ring, the newest place first. -/
def newestFirst (sp : Sv2Proxy) : List ProxySlot :=
  (List.finRange 32).map fun ji => sp.jobHead - 1 - ji

end PrefixSlots

/-- The newest job of the pool that came with a time of its own. -/
def newestImmediate (sp : Sv2Proxy) : Option ProxySlot :=
  sp.newestFirst.find? fun slot => (sp.jobs slot).any fun job => job.custom.isNone && !job.future

end Sv2Proxy

/-! ### The record of the ring -/

/-- A job of the pool: the frame it came in, and the tips for which it was sent. -/
structure PoolJobRecord where
  frame : Sv2.NewExtendedMiningJob
  sentFor : List Hash256

/-- A job that is sent is sent for the tip that then stands. -/
def PoolJobRecord.sent (tip : Option AnnouncedTip) (record : PoolJobRecord) : PoolJobRecord :=
  { record with sentFor := (tip.map AnnouncedTip.prevHash).toList ++ record.sentFor }

/-- A proxy, and the record of the jobs of the pool in its ring. -/
structure PrefixRun where
  sp : Sv2Proxy
  records : ProxySlot → Option PoolJobRecord

namespace PrefixRun

/-- The record of a job that an event stores. -/
def newRecord : Event → Option PoolJobRecord
  | .newExtendedMiningJob j => some ⟨j, []⟩
  | _ => none

/-- The records after a job was stored, but before it is sent. -/
def stored (r : PrefixRun) (e : Event) : ProxySlot → Option PoolJobRecord :=
  if (r.sp.step e).jobHead = r.sp.jobHead then r.records
  else update r.records r.sp.jobHead (newRecord e)

/-- One event. -/
def step (r : PrefixRun) (e : Event) : PrefixRun where
  sp := r.sp.step e
  records :=
    match r.sp.sentSlot e with
    | none => r.stored e
    | some slot =>
      update (r.stored e) slot
        ((r.stored e slot).map (PoolJobRecord.sent (r.sp.step e).tip))

/-- A channel as it was opened, with nothing in its ring. -/
def start (opened : Sv2ProxyOpened) : PrefixRun where
  sp := opened.sp
  records := fun _ => none

/-- A job of the pool was sent for the tip that stands. -/
def sentForTip (r : PrefixRun) (slot : ProxySlot) : Bool :=
  (r.records slot).any fun record => r.sp.tip.any fun tip => tip.prevHash ∈ record.sentFor

/-- The newest such job. -/
def newestSent (r : PrefixRun) : Option ProxySlot := r.sp.newestFirst.find? r.sentForTip

/-- The new prefix reaches the miners by a clean notify of the job at `slot`. -/
def Flushed (r : PrefixRun) (extranoncePrefix : Bytes) (slot : ProxySlot) : Prop :=
  r.sp.sentSlot (.setExtranoncePrefix extranoncePrefix) = some slot ∧
    ∃ record ni, r.records slot = some record ∧
      (r.sp.step (.setExtranoncePrefix extranoncePrefix)).notifies = ni :: r.sp.notifies ∧
      ni.clean = true ∧ ni.custom = none ∧ ni.jobid = record.frame.jobId ∧
      ni.coinbase1 = bin2hex (record.frame.coinbaseTxPrefix ++ extranoncePrefix ++
        List.replicate r.sp.channel.padLen 0)

/-- What a new prefix is to leave: the jobs of the pool rebuilt from their frames, no declared job
in the ring or on the stage, and a clean notify of what the miners work on. -/
structure Adopted (r : PrefixRun) (extranoncePrefix : Bytes) : Prop where
  rebuilt : ∀ slot job, (r.step (.setExtranoncePrefix extranoncePrefix)).sp.jobs slot = some job →
    job.custom = none ∧
      ∃ record, (r.step (.setExtranoncePrefix extranoncePrefix)).records slot = some record ∧
        job.coinb1 = record.frame.coinbaseTxPrefix ++ extranoncePrefix ++
          List.replicate r.sp.channel.padLen 0
  stage : (r.step (.setExtranoncePrefix extranoncePrefix)).sp.customStage = none
  flushed : ∀ slot, r.newestSent = some slot → r.Flushed extranoncePrefix slot

end PrefixRun

/-! ### The record is right -/

variable {job : Sv2ProxyJob} {frame : Sv2.NewExtendedMiningJob}

section Fits

variable {sp sp' : Sv2Proxy}

/-- A job is the one of a frame, under the prefix that stands; the tip it was sent for is its
own. -/
def IsJobOf (sp : Sv2Proxy) (frame : Sv2.NewExtendedMiningJob) (job : Sv2ProxyJob) : Prop :=
  frame.merklePath.length ≤ genworkMaxMerkleDepth ∧
    job = { sp.poolJob frame with prevHash := job.prevHash, nbits := job.nbits }

/-- What is recorded of a place of the ring, and what is there. -/
def Records (sp : Sv2Proxy) : Option PoolJobRecord → Option Sv2ProxyJob → Prop
  | none, job => ∀ declared ∈ job, declared.custom.isSome = true
  | some record, job => ∃ pool ∈ job, IsJobOf sp record.frame pool

theorem IsJobOf.custom (h : IsJobOf sp frame job) : job.custom = none := by
  rw [h.2]
  rfl

theorem IsJobOf.coinb1 (h : IsJobOf sp frame job) :
    job.coinb1 = frame.coinbaseTxPrefix ++ sp.extranoncePrefix ++
      List.replicate sp.channel.padLen 0 := by
  rw [h.2]
  rfl

theorem IsJobOf.congr
    (h : IsJobOf sp frame job) (hlayout : sp'.extranoncePrefix = sp.extranoncePrefix)
    (hchannel : sp'.channel = sp.channel) : IsJobOf sp' frame job := by
  refine ⟨h.1, ?_⟩
  have hpool : sp'.poolJob frame = sp.poolJob frame := by
    rw [Sv2Proxy.poolJob, Sv2Proxy.poolJob, hlayout, hchannel]
  rw [hpool]
  exact h.2

/-- A job of the pool is rebuilt from its own frame. -/
theorem IsJobOf.rebuild
    (h : IsJobOf sp frame job) (sp' : Sv2Proxy) : IsJobOf sp' frame (sp'.rebuildJob job) := by
  obtain ⟨hlen, hjob⟩ := h
  refine ⟨hlen, ?_⟩
  have hpool : job.cbTxPrefixLen = frame.coinbaseTxPrefix.length := by
    rw [hjob]
    rfl
  have hcoinb1 : job.coinb1 = frame.coinbaseTxPrefix ++ (sp.extranoncePrefix ++
      List.replicate sp.channel.padLen 0) := by
    rw [hjob, ← List.append_assoc]
    rfl
  have hfits : ¬ job.cbTxPrefixLen > job.coinb1.length := by
    rw [hpool, hcoinb1, List.length_append]
    omega
  have htake : job.coinb1.take job.cbTxPrefixLen = frame.coinbaseTxPrefix := by
    rw [hpool, hcoinb1, List.take_left]
  rw [Sv2Proxy.rebuildJob, if_neg hfits, htake]
  dsimp only
  rw [hjob]
  rfl

theorem Records.congr {record : Option PoolJobRecord} {job : Option Sv2ProxyJob}
    (h : Records sp record job) (hlayout : sp'.extranoncePrefix = sp.extranoncePrefix)
    (hchannel : sp'.channel = sp.channel) : Records sp' record job := by
  cases record with
  | none => exact h
  | some record =>
    obtain ⟨pool, hpool, hjob⟩ := h
    exact ⟨pool, hpool, hjob.congr hlayout hchannel⟩

/-- What is at one place of the ring changes, and so does its record. -/
theorem records_update {records : ProxySlot → Option PoolJobRecord}
    {jobs : ProxySlot → Option Sv2ProxyJob} (h : ∀ i, Records sp (records i) (jobs i))
    (slot : ProxySlot) {record : Option PoolJobRecord} {job : Option Sv2ProxyJob}
    (hslot : Records sp record job) (i : ProxySlot) :
    Records sp (update records slot record i) (update jobs slot job i) := by
  by_cases hi : i = slot
  · subst hi
    rwa [update_self, update_self]
  · rw [update_of_ne hi, update_of_ne hi]
    exact h i

/-- A send is written down, and may give the job its tip. -/
theorem Records.sent {record : Option PoolJobRecord} {job₀ job : Sv2ProxyJob}
    (h : Records sp record (some job₀)) (hjob : sp.jobOnTip job₀ = some job)
    (tip : Option AnnouncedTip) :
    Records sp (record.map (PoolJobRecord.sent tip)) (some job) := by
  obtain ⟨hsome, rfl⟩ | ⟨hnone, tip', -, rfl⟩ := Sv2Proxy.jobOnTip_eq_some hjob
  · cases record with
    | none => exact h
    | some record =>
      obtain ⟨pool, hpool, hpooljob⟩ := h
      obtain rfl := Option.some.inj hpool
      rw [hpooljob.custom] at hsome
      cases hsome
  · cases record with
    | none =>
      have hdeclared := h job₀ rfl
      rw [hnone] at hdeclared
      cases hdeclared
    | some record =>
      obtain ⟨pool, hpool, hlen, hpooljob⟩ := h
      obtain rfl := Option.some.inj hpool
      refine ⟨_, rfl, hlen, ?_⟩
      rw [hpooljob]
      rfl

end Fits

namespace PrefixRun

variable {r : PrefixRun} {e : Event}

/-- The records are those of the ring. -/
def RingRecorded (r : PrefixRun) : Prop := ∀ slot, Records r.sp (r.records slot) (r.sp.jobs slot)

/-- The records are right, and on the stage are declared jobs. -/
structure Recorded (r : PrefixRun) : Prop where
  ring : r.RingRecorded
  stage : ∀ stage ∈ r.sp.customStage, stage.job.custom.isSome = true

/-- An event that sends nothing. -/
theorem records_of_quiet {sp₁ : Sv2Proxy}
    (hring : ∀ slot, Records sp₁ (r.stored e slot) (sp₁.jobs slot))
    (hjobs : (r.sp.step e).jobs = sp₁.jobs)
    (hnotifies : (r.sp.step e).notifies = r.sp.notifies)
    (hlayout : (r.sp.step e).extranoncePrefix = sp₁.extranoncePrefix)
    (hchannel : (r.sp.step e).channel = sp₁.channel) : (r.step e).RingRecorded := by
  intro slot
  have hnone : r.sp.sentSlot e = none := if_pos (by rw [hnotifies])
  have hrecords : (r.step e).records = r.stored e := by
    show (match r.sp.sentSlot e with | none => _ | some _ => _) = _
    rw [hnone]
  rw [hrecords]
  show Records (r.sp.step e) _ ((r.sp.step e).jobs slot)
  rw [hjobs]
  exact (hring slot).congr hlayout hchannel

/-- An event that hands a job to be sent. -/
theorem records_of_send {sp₁ : Sv2Proxy} {handed : ProxySlot} (clean : Bool)
    (hring : ∀ slot, Records sp₁ (r.stored e slot) (sp₁.jobs slot))
    (hbefore : sp₁.notifies = r.sp.notifies) (hhanded : r.sp.handed e = some handed)
    (hjobs : (r.sp.step e).jobs = (sp₁.sendJob handed clean).jobs)
    (hnotifies : (r.sp.step e).notifies = (sp₁.sendJob handed clean).notifies)
    (hlayout : (r.sp.step e).extranoncePrefix = sp₁.extranoncePrefix)
    (hchannel : (r.sp.step e).channel = sp₁.channel) : (r.step e).RingRecorded := by
  intro slot
  obtain hsend | ⟨job₀, job, hjob₀, hjob, hsend⟩ := sp₁.sendJob_cases handed clean
  · rw [hsend] at hjobs hnotifies
    exact records_of_quiet hring hjobs (hnotifies.trans hbefore) hlayout hchannel slot
  · rw [hsend] at hjobs hnotifies
    have hsent : r.sp.sentSlot e = some handed := by
      rw [Sv2Proxy.sentSlot, if_neg, hhanded]
      rw [hnotifies, Sv2Proxy.notify, List.length_cons, hbefore]
      exact Nat.succ_ne_self _
    have hrecords : (r.step e).records = update (r.stored e) handed
        ((r.stored e handed).map (PoolJobRecord.sent (r.sp.step e).tip)) := by
      show (match r.sp.sentSlot e with | none => _ | some _ => _) = _
      rw [hsent]
    have hslot := (hjob₀ ▸ hring handed).sent hjob (r.sp.step e).tip
    rw [hrecords]
    show Records (r.sp.step e) _ ((r.sp.step e).jobs slot)
    rw [hjobs]
    exact (records_update hring handed hslot slot).congr hlayout hchannel

/-- The head of the ring stays. -/
theorem stored_of_head (h : (r.sp.step e).jobHead = r.sp.jobHead) : r.stored e = r.records :=
  if_pos h

theorem succ_ne_self (head : ProxySlot) : head + 1 ≠ head := by
  revert head
  decide

/-- A job comes to the head of the ring. -/
theorem stored_of_succ (h : (r.sp.step e).jobHead = r.sp.jobHead + 1) :
    r.stored e = update r.records r.sp.jobHead (newRecord e) := by
  rw [stored, if_neg]
  rw [h]
  exact succ_ne_self _

/-- What does not touch the ring. -/
theorem Recorded.of_frame (h : r.Recorded) (hhead : (r.sp.step e).jobHead = r.sp.jobHead)
    (hjobs : (r.sp.step e).jobs = r.sp.jobs) (hnotifies : (r.sp.step e).notifies = r.sp.notifies)
    (hlayout : (r.sp.step e).extranoncePrefix = r.sp.extranoncePrefix) :
    (r.step e).RingRecorded := by
  refine records_of_quiet ?_ hjobs hnotifies hlayout (r.sp.step_channel e)
  rw [stored_of_head hhead]
  exact h.ring

theorem jobHead_sendJob (sp : Sv2Proxy) (slot : ProxySlot) (clean : Bool) :
    (sp.sendJob slot clean).jobHead = sp.jobHead := by
  obtain h | ⟨-, job, -, -, h⟩ := sp.sendJob_cases slot clean <;> rw [h]
  rfl

theorem Recorded.newExtendedMiningJob (h : r.Recorded) (j : Sv2.NewExtendedMiningJob) :
    (r.step (.newExtendedMiningJob j)).RingRecorded := by
  by_cases hlen : j.merklePath.length > genworkMaxMerkleDepth
  · have hstep : r.sp.step (.newExtendedMiningJob j) = r.sp := if_pos hlen
    exact h.of_frame (by rw [hstep]) (by rw [hstep]) (by rw [hstep]) (by rw [hstep])
  · -- the job is stored, with a new record
    have hstored : ∀ (hhead : (r.sp.step (.newExtendedMiningJob j)).jobHead = r.sp.jobHead + 1)
        (i : ProxySlot), Records (r.sp.jobSlot (r.sp.poolJob j))
          (r.stored (.newExtendedMiningJob j) i) ((r.sp.jobSlot (r.sp.poolJob j)).jobs i) := by
      intro hhead i
      rw [stored_of_succ hhead]
      have hnew : Records r.sp (some ⟨j, []⟩) (some (r.sp.poolJob j)) :=
        ⟨_, rfl, Nat.le_of_not_lt hlen, rfl⟩
      exact (records_update h.ring r.sp.jobHead hnew i).congr rfl rfl
    have hquiet : r.sp.step (.newExtendedMiningJob j) = r.sp.jobSlot (r.sp.poolJob j) →
        (r.step (.newExtendedMiningJob j)).RingRecorded := by
      intro hstep
      exact records_of_quiet (hstored (by rw [hstep]; rfl)) (by rw [hstep]) (by rw [hstep]; rfl)
        (by rw [hstep]) (by rw [hstep])
    by_cases hfuture : (r.sp.poolJob j).future = true
    · exact hquiet ((if_neg hlen).trans (if_pos hfuture))
    · by_cases hlive : (r.sp.jobSlot (r.sp.poolJob j)).customLive = true
      · exact hquiet ((if_neg hlen).trans ((if_neg hfuture).trans (if_pos hlive)))
      · have hstep : r.sp.step (.newExtendedMiningJob j) =
            (r.sp.jobSlot (r.sp.poolJob j)).sendJob r.sp.jobHead false :=
          (if_neg hlen).trans ((if_neg hfuture).trans (if_neg hlive))
        refine records_of_send false (hstored ?_) rfl rfl ?_ ?_ ?_ ?_
        · rw [hstep, jobHead_sendJob]
          rfl
        · rw [hstep]
        · rw [hstep]
        · rw [hstep, Sv2Proxy.extranoncePrefix_sendJob]
        · rw [hstep, Sv2Proxy.channel_sendJob]

theorem Recorded.setNewPrevHash (h : r.Recorded) (p : Sv2.SetNewPrevHash) (rel : Sv2TipRel)
    ( implausible : Bool) : (r.step (.setNewPrevHash p rel implausible)).RingRecorded := by
  cases hfind : r.sp.findJob p.jobId with
  | none =>
    have hstep : r.sp.step (.setNewPrevHash p rel implausible) =
        { r.sp with wantReconnect := true } := by
      rw [Sv2Proxy.step, Sv2Proxy.setNewPrevHash, hfind]
    exact h.of_frame (by rw [hstep]) (by rw [hstep]) (by rw [hstep]) (by rw [hstep])
  | some found =>
    set tipped : Sv2Proxy :=
      { r.sp with
        tip := some ⟨p.prevHash, p.minNtime, p.nbits⟩
        customPrev := if r.sp.customPrev == some p.prevHash then r.sp.customPrev else none }
      with htipped
    by_cases hcustom : (r.sp.customPrev == some p.prevHash) = true
    · have hstep : r.sp.step (.setNewPrevHash p rel implausible) = tipped := by
        rw [Sv2Proxy.step, Sv2Proxy.setNewPrevHash, hfind]
        exact if_pos hcustom
      exact h.of_frame (by rw [hstep]) (by rw [hstep]) (by rw [hstep]) (by rw [hstep])
    · set sp₁ : Sv2Proxy :=
        { tipped with workSrc := Sv2Proxy.workSrcOf rel implausible } with hsp₁
      have hstep : r.sp.step (.setNewPrevHash p rel implausible) =
          sp₁.sendJob found (sp₁.wantClean p.prevHash) := by
        rw [Sv2Proxy.step, Sv2Proxy.setNewPrevHash, hfind]
        exact if_neg hcustom
      have hhead : (r.sp.step (.setNewPrevHash p rel implausible)).jobHead = r.sp.jobHead := by
        rw [hstep, jobHead_sendJob]
      have hring : ∀ i, Records sp₁ (r.stored (.setNewPrevHash p rel implausible) i)
          (sp₁.jobs i) := by
        intro i
        rw [stored_of_head hhead]
        exact (h.ring i).congr rfl rfl
      refine records_of_send (sp₁.wantClean p.prevHash) hring rfl hfind ?_ ?_ ?_ ?_
      · rw [hstep]
      · rw [hstep]
      · rw [hstep, Sv2Proxy.extranoncePrefix_sendJob]
      · rw [hstep, Sv2Proxy.channel_sendJob]

theorem Recorded.customSuccess (h : r.Recorded) (requestId jobId : UInt32) :
    (r.step (.customSuccess requestId jobId)).RingRecorded := by
  have hsame : r.sp.step (.customSuccess requestId jobId) = r.sp →
      (r.step (.customSuccess requestId jobId)).RingRecorded := by
    intro hstep
    exact h.of_frame (by rw [hstep]) (by rw [hstep]) (by rw [hstep]) (by rw [hstep])
  cases hstage : r.sp.customStage with
  | none =>
    apply hsame
    rw [Sv2Proxy.step, Sv2Proxy.customSuccess, hstage]
  | some stage =>
    by_cases hrequest : requestId ≠ stage.requestId
    · apply hsame
      rw [Sv2Proxy.step, Sv2Proxy.customSuccess, hstage]
      exact if_pos hrequest
    · set sp₁ : Sv2Proxy :=
        Sv2Proxy.jobSlot
          { r.sp with customStage := none, customPrev := some stage.job.prevHash }
          { stage.job with jobId := jobId } with hsp₁
      have hstep : r.sp.step (.customSuccess requestId jobId) =
          { sp₁.sendJob r.sp.jobHead (r.sp.wantClean stage.job.prevHash) with
            workSrc := .localJd } := by
        rw [Sv2Proxy.step, Sv2Proxy.customSuccess, hstage]
        exact if_neg hrequest
      have hhead : (r.sp.step (.customSuccess requestId jobId)).jobHead = r.sp.jobHead + 1 := by
        rw [hstep]
        exact jobHead_sendJob _ _ _
      have hring : ∀ i, Records sp₁ (r.stored (.customSuccess requestId jobId) i)
          (sp₁.jobs i) := by
        intro i
        rw [stored_of_succ hhead]
        have hdeclared : Records r.sp none (some { stage.job with jobId := jobId }) := by
          intro declared hdeclared
          obtain rfl := Option.some.inj hdeclared
          exact h.stage stage hstage
        exact (records_update h.ring r.sp.jobHead hdeclared i).congr rfl rfl
      refine records_of_send (r.sp.wantClean stage.job.prevHash) hring rfl rfl ?_ ?_ ?_ ?_
      · rw [hstep]
      · rw [hstep]
      · rw [hstep]
        exact Sv2Proxy.extranoncePrefix_sendJob _ _ _
      · rw [hstep]
        exact Sv2Proxy.channel_sendJob _ _ _

theorem Recorded.withPrefix (h : r.Recorded) (extranoncePrefix : Bytes) (slot : ProxySlot) :
    Records (r.sp.withPrefix extranoncePrefix) (r.records slot)
      ((r.sp.withPrefix extranoncePrefix).jobs slot) := by
  have hslot := h.ring slot
  show Records _ _ (Sv2Proxy.rebuildJobs _ slot)
  rw [Sv2Proxy.rebuildJobs]
  cases hrecord : r.records slot with
  | none =>
    rw [hrecord] at hslot
    intro declared hdeclared
    cases hjob : r.sp.jobs slot with
    | none =>
      dsimp only at hdeclared
      rw [hjob] at hdeclared
      cases hdeclared
    | some job =>
      dsimp only at hdeclared
      rw [hjob] at hdeclared
      dsimp only at hdeclared
      rw [if_pos (hslot job hjob)] at hdeclared
      cases hdeclared
  | some record =>
    rw [hrecord] at hslot
    obtain ⟨job, hjob, hof⟩ := hslot
    have hjob : r.sp.jobs slot = some job := hjob
    refine ⟨_, ?_, hof.rebuild _⟩
    dsimp only
    rw [hjob]
    dsimp only
    rw [hof.custom]
    rfl

/-- The fields that the end of the event gives up are not those of the ring. -/
theorem setExtranoncePrefix_fields (sp : Sv2Proxy) (extranoncePrefix : Bytes) :
    ∃ customPrev workSrc, sp.step (.setExtranoncePrefix extranoncePrefix) =
      { (sp.withPrefix extranoncePrefix).flushPrefix with
        customStage := none
        customPrev := customPrev
        workSrc := workSrc } := by
  by_cases hcustom : sp.hadCustom = true
  · exact ⟨none, .pool, if_pos hcustom⟩
  · exact ⟨_, _, if_neg hcustom⟩

theorem Recorded.setExtranoncePrefix (h : r.Recorded) (extranoncePrefix : Bytes) :
    (r.step (.setExtranoncePrefix extranoncePrefix)).RingRecorded := by
  obtain ⟨customPrev, workSrc, hstep⟩ := setExtranoncePrefix_fields r.sp extranoncePrefix
  set sp₁ := r.sp.withPrefix extranoncePrefix with hsp₁
  have hlayout : (r.sp.step (.setExtranoncePrefix extranoncePrefix)).extranoncePrefix =
      sp₁.extranoncePrefix := (r.sp.step_frame (.setExtranoncePrefix extranoncePrefix)).2
  have hchannel : (r.sp.step (.setExtranoncePrefix extranoncePrefix)).channel = sp₁.channel :=
    r.sp.step_channel _
  have hhead : (r.sp.step (.setExtranoncePrefix extranoncePrefix)).jobHead = r.sp.jobHead := by
    rw [hstep]
    obtain hflush | ⟨slot, job, -, -, -, hflush⟩ := sp₁.flushPrefix_cases <;> rw [hflush]
    · rfl
    · exact jobHead_sendJob _ _ _
  have hring : ∀ i, Records sp₁ (r.stored (.setExtranoncePrefix extranoncePrefix) i)
      (sp₁.jobs i) := by
    intro i
    rw [stored_of_head hhead]
    exact h.withPrefix extranoncePrefix i
  have hquiet : sp₁.flushPrefix = sp₁ →
      (r.step (.setExtranoncePrefix extranoncePrefix)).RingRecorded := by
    intro hflush
    rw [hflush] at hstep
    exact records_of_quiet hring (by rw [hstep]) (by rw [hstep]; rfl) hlayout hchannel
  by_cases htip : sp₁.tip.isSome = true
  · cases hminable : sp₁.newestMinable with
    | none =>
      apply hquiet
      rw [Sv2Proxy.flushPrefix, if_pos htip, hminable]
    | some slot =>
      have hflush : sp₁.flushPrefix = sp₁.sendJob slot true := by
        rw [Sv2Proxy.flushPrefix, if_pos htip, hminable]
      rw [hflush] at hstep
      exact records_of_send true hring rfl hminable (by rw [hstep]) (by rw [hstep]) hlayout
        hchannel
  · exact hquiet (if_neg htip)

/-- **The records stay right**, whatever happens. -/
theorem Recorded.step (h : r.Recorded) (e : Event) : (r.step e).Recorded where
  ring := by
    have hframe : ∀ sp' : Sv2Proxy, r.sp.step e = sp' → sp'.jobHead = r.sp.jobHead →
        sp'.jobs = r.sp.jobs → sp'.notifies = r.sp.notifies →
        sp'.extranoncePrefix = r.sp.extranoncePrefix → (r.step e).RingRecorded := by
      rintro sp' rfl hhead hjobs hnotifies hlayout
      exact h.of_frame hhead hjobs hnotifies hlayout
    cases e with
    | newExtendedMiningJob j => exact h.newExtendedMiningJob j
    | setNewPrevHash p rel implausible => exact h.setNewPrevHash p rel implausible
    | customSuccess requestId jobId => exact h.customSuccess requestId jobId
    | customError requestId | customSendFailed requestId =>
      refine hframe _ rfl ?_ ?_ ?_ ?_ <;>
        · simp only [Sv2Proxy.step, Sv2Proxy.customDrop]
          split_ifs <;> rfl
    | setExtranoncePrefix extranoncePrefix => exact h.setExtranoncePrefix extranoncePrefix
    | setCustomJob cj current =>
      refine hframe _ rfl ?_ ?_ ?_ ?_ <;>
        · simp only [Sv2Proxy.step, Sv2Proxy.setCustomJob]
          split_ifs <;> rfl
    | bridgeTimeout =>
      refine hframe _ rfl ?_ ?_ ?_ ?_ <;>
        · simp only [Sv2Proxy.step]
          split_ifs <;> rfl
    | reconnect | customTimeout | otherNotify => exact hframe _ rfl rfl rfl rfl rfl
  stage stage hstage := by
    obtain ⟨-, hold | ⟨cj, current, -, -, hjob⟩⟩ := r.sp.customStage_step e hstage
    · exact h.stage stage hold
    · rw [hjob]
      rfl

/-! ### The job that is flushed -/

/-- The search of the handler finds the newest job of the pool that is not a future one. -/
theorem newestMinable_withPrefix (sp : Sv2Proxy) (extranoncePrefix : Bytes) :
    (sp.withPrefix extranoncePrefix).newestMinable = sp.newestImmediate := by
  have hsame : ∀ slot, ((sp.withPrefix extranoncePrefix).jobs slot).any (fun job => !job.future) =
      (sp.jobs slot).any fun job => job.custom.isNone && !job.future := by
    intro slot
    show Option.any _ (Sv2Proxy.rebuildJobs _ slot) = _
    rw [Sv2Proxy.rebuildJobs]
    dsimp only
    cases hjob : sp.jobs slot with
    | none => rfl
    | some job =>
      dsimp only
      cases hcustom : job.custom with
      | none =>
        show (!(Sv2Proxy.rebuildJob _ job).future) = (job.custom.isNone && !job.future)
        rw [hcustom, Sv2Proxy.rebuildJob]
        split <;> rfl
      | some declared =>
        show false = (job.custom.isNone && !job.future)
        rw [hcustom]
        rfl
  show List.find? _ sp.newestFirst = List.find? _ sp.newestFirst
  congr 1
  funext slot
  exact hsame slot

/-- A job that was sent for the tip is one of the pool, and there is a tip. -/
theorem sentForTip_eq_true {slot : ProxySlot} (h : r.sentForTip slot = true) :
    ∃ record tip, r.records slot = some record ∧ r.sp.tip = some tip := by
  obtain ⟨record, hrecord, htip⟩ := (Option.any_eq_true _ _).mp h
  obtain ⟨tip, htip, -⟩ := (Option.any_eq_true _ _).mp htip
  exact ⟨record, tip, hrecord, htip⟩

/-- The newest immediate job is flushed, if there is a tip. -/
theorem Recorded.flushed (h : r.Recorded) {tip : AnnouncedTip} (htip : r.sp.tip = some tip)
    {slot : ProxySlot} {record : PoolJobRecord} (hrecord : r.records slot = some record)
    (hnewest : r.sp.newestImmediate = some slot) (extranoncePrefix : Bytes) :
    r.Flushed extranoncePrefix slot := by
  set sp₁ := r.sp.withPrefix extranoncePrefix with hsp₁
  have hminable : sp₁.newestMinable = some slot :=
    (newestMinable_withPrefix r.sp extranoncePrefix).trans hnewest
  obtain ⟨job, hjob, hof⟩ := (hrecord ▸ h.withPrefix extranoncePrefix slot :
    Records sp₁ (some record) (sp₁.jobs slot))
  have htipped := Sv2Proxy.jobOnTip_pool hof.custom (show sp₁.tip = some tip from htip)
  have hlen : job.merklePath.length ≤ genworkMaxMerkleDepth := by
    rw [hof.2]
    exact hof.1
  have hsend := sendJob_eq_notify hjob htipped hlen true
  have hflush : sp₁.flushPrefix = sp₁.sendJob slot true := by
    have hsome : sp₁.tip.isSome = true := by
      show r.sp.tip.isSome = true
      rw [htip]
      rfl
    rw [Sv2Proxy.flushPrefix, if_pos hsome, hminable]
  obtain ⟨customPrev, workSrc, hstep⟩ := setExtranoncePrefix_fields r.sp extranoncePrefix
  rw [hflush, hsend] at hstep
  have hnotifies : (r.sp.step (.setExtranoncePrefix extranoncePrefix)).notifies =
      sp₁.notifyInstance { job with prevHash := tip.prevHash, nbits := tip.nbits } true ::
        r.sp.notifies := by
    rw [hstep]
    rfl
  refine ⟨?_, record, _, hrecord, hnotifies, rfl, ?_, ?_, ?_⟩
  · rw [Sv2Proxy.sentSlot, if_neg]
    · exact hminable
    · rw [hnotifies, List.length_cons]
      exact Nat.succ_ne_self _
  · show job.custom.map _ = none
    rw [hof.custom]
    rfl
  · show job.jobId = _
    rw [hof.2]
    rfl
  · show bin2hex job.coinb1 = _
    rw [hof.coinb1]
    rfl

/-- No declared job is in the ring after a new prefix. -/
theorem declared_dropped (sp : Sv2Proxy) (extranoncePrefix : Bytes) :
    (sp.step (.setExtranoncePrefix extranoncePrefix)).JobsAll fun job => job.custom = none := by
  have hring : (sp.withPrefix extranoncePrefix).JobsAll fun job => job.custom = none := by
    intro slot job hjob
    obtain ⟨-, -, -, hnone, -⟩ := withPrefix_eq_some hjob
    exact hnone
  obtain ⟨customPrev, workSrc, hstep⟩ := setExtranoncePrefix_fields sp extranoncePrefix
  rw [hstep]
  show (sp.withPrefix extranoncePrefix).flushPrefix.JobsAll _
  obtain hflush | ⟨slot, -, -, -, -, hflush⟩ :=
    (sp.withPrefix extranoncePrefix).flushPrefix_cases <;> rw [hflush]
  · exact hring
  · refine hring.sendJob ?_ slot true
    intro job job' htip hnone
    obtain ⟨-, rfl⟩ | ⟨-, tip, -, rfl⟩ := Sv2Proxy.jobOnTip_eq_some htip
    · exact hnone
    · exact hnone

theorem recorded_start {nonce2length proxyNotifyId : Nat} {ok : Sv2.OpenExtendedChannelSuccess}
    {opened : Sv2ProxyOpened} (hopen : sv2ProxyOpen nonce2length proxyNotifyId ok = some opened) :
    (start opened).Recorded := by
  simp only [sv2ProxyOpen] at hopen
  split_ifs at hopen
  obtain rfl := Option.some.inj hopen
  refine ⟨?_, ?_⟩
  · intro slot declared hnone
    cases hnone
  · intro stage hnone
    cases hnone

/-- **When a new prefix is adopted.**  Of whatever came on a channel before: the jobs of the pool
are rebuilt from their frames and the declared ones are gone in any case, and the miners are
given the new prefix on the job they work on if and only if the newest job that was sent for the
tip, should there be one, is the newest that came with a time of its own. -/
theorem prefix_adopted_iff (nonce2length proxyNotifyId : Nat)
    (ok : Sv2.OpenExtendedChannelSuccess) (opened : Sv2ProxyOpened)
    (hopen : sv2ProxyOpen nonce2length proxyNotifyId ok = some opened)
    (events : List Event) (extranoncePrefix : Bytes) :
    (run step (start opened) events).Adopted extranoncePrefix ↔
      ∀ slot, (run step (start opened) events).newestSent = some slot →
        (run step (start opened) events).sp.newestImmediate = some slot := by
  have hrecorded : (run step (start opened) events).Recorded :=
    run_invariant_always (I := Recorded) (fun r e h => h.step e) events (recorded_start hopen)
  generalize run step (start opened) events = r at hrecorded ⊢
  constructor
  · intro hadopted slot hslot
    obtain ⟨hsent, -⟩ := hadopted.flushed slot hslot
    rw [Sv2Proxy.sentSlot] at hsent
    split_ifs at hsent
    exact (newestMinable_withPrefix r.sp extranoncePrefix).symm.trans hsent
  · intro hnewest
    have hafter := hrecorded.step (.setExtranoncePrefix extranoncePrefix)
    obtain ⟨customPrev, workSrc, hstep⟩ := setExtranoncePrefix_fields r.sp extranoncePrefix
    refine ⟨?_, ?_, ?_⟩
    · intro slot job hjob
      have hpool : job.custom = none := declared_dropped r.sp extranoncePrefix slot job hjob
      have hslot := hafter.ring slot
      rw [hjob] at hslot
      cases hrecord : (r.step (.setExtranoncePrefix extranoncePrefix)).records slot with
      | none =>
        rw [hrecord] at hslot
        have hdeclared := hslot job rfl
        rw [hpool] at hdeclared
        cases hdeclared
      | some record =>
        rw [hrecord] at hslot
        obtain ⟨job', hjob', hof⟩ := hslot
        obtain rfl := Option.some.inj hjob'
        refine ⟨hpool, record, rfl, ?_⟩
        rw [hof.coinb1]
        have hlayout := (r.sp.step_frame (.setExtranoncePrefix extranoncePrefix)).2
        have hchannel := r.sp.step_channel (.setExtranoncePrefix extranoncePrefix)
        show _ ++ (r.sp.step _).extranoncePrefix ++
          List.replicate (r.sp.step _).channel.padLen 0 = _
        rw [hlayout, hchannel]
    · show (r.sp.step _).customStage = none
      rw [hstep]
    · intro slot hslot
      obtain ⟨record, tip, hrecord, htip⟩ := sentForTip_eq_true (List.find?_some hslot)
      exact hrecorded.flushed htip hrecord (hnewest slot hslot) extranoncePrefix

end PrefixRun

/-! ### A future job that is current -/

/-- The job of another frame. -/
def laterJob (jobId : UInt32) (minNtimePresent : Bool) : Sv2.NewExtendedMiningJob :=
  { exampleUpstreamJob with jobId, minNtimePresent }

/-- Another tip, which makes the job `jobId` current. -/
def laterTip (jobId : UInt32) : Sv2.SetNewPrevHash :=
  { exampleUpstreamTip with jobId, prevHash := ⟨List.replicate 32 1, rfl⟩ }

/-- The first work of a channel: a job that waits for its tip, and the tip. -/
def firstWork : List Event :=
  [.newExtendedMiningJob exampleUpstreamJob, .setNewPrevHash exampleUpstreamTip .noLocal false]

/-- A job for the first tip, and then work for another. -/
def nextWork : List Event :=
  firstWork ++
    [.newExtendedMiningJob (laterJob 12 true), .newExtendedMiningJob (laterJob 13 false),
      .setNewPrevHash (laterTip 13) .noLocal false]

/-- A job with a time of its own came for the tip, and is what the miners work on. -/
theorem prefix_adopted_of_immediate :
    (run PrefixRun.step (.start exampleUpstream)
      (firstWork ++ [.newExtendedMiningJob (laterJob 12 true)])).Adopted [0xcc, 0xdd] :=
  (PrefixRun.prefix_adopted_iff 0 7 exampleGrant exampleUpstream (Option.some_get _).symm _ _).mpr
    (by decide)

/-- **The job that miners work on is passed over.**  After the first work of a channel a new
prefix sends nothing; later it sends, clean and with the new tip, a job of the tip before. -/
theorem prefix_passes_future_job :
    ¬ (∀ (nonce2length proxyNotifyId : Nat) (ok : Sv2.OpenExtendedChannelSuccess)
          (opened : Sv2ProxyOpened), sv2ProxyOpen nonce2length proxyNotifyId ok = some opened →
        ∀ (events : List Event) (extranoncePrefix : Bytes),
          (run PrefixRun.step (.start opened) events).sp.tip.isSome = true →
            (run PrefixRun.step (.start opened) events).Adopted extranoncePrefix) ∧
      ((run PrefixRun.step (.start exampleUpstream) firstWork).newestSent = some 0 ∧
        (run PrefixRun.step (.start exampleUpstream) firstWork).sp.sentSlot
          (.setExtranoncePrefix [0xcc, 0xdd]) = none) ∧
      (run PrefixRun.step (.start exampleUpstream) nextWork).newestSent = some 2 ∧
        (run PrefixRun.step (.start exampleUpstream) nextWork).sp.sentSlot
          (.setExtranoncePrefix [0xcc, 0xdd]) = some 1 := by
  refine ⟨?_, by decide, by decide⟩
  intro hall
  have hadopted := hall 0 7 exampleGrant exampleUpstream (Option.some_get _).symm firstWork
    [0xcc, 0xdd] (by decide)
  obtain ⟨hsent, -⟩ := hadopted.flushed 0 (by decide)
  revert hsent
  decide

end CashStratum
