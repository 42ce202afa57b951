/-
CashStratum/Sv2ProxyUpstream.lean

The shares that a proxy sends up, against what its SV2 upstream has the job for.

The upstream is put beside the proxy (`Sv2Upstream`): what it has announced as the tip, and for each
number the job that it sent and the tip that the job is for.  An immediate job is for the tip that
stood when it was sent, a future one for the tip that named it.  A notify is right when the job
goes down with that tip; then every share on it is rebuilt (`upstream_rebuilds_share`).

Each job goes down with the tip that the proxy was told last.  That is the tip of the job when the
job has just come, or has just been named; but a new extranonce prefix sends the newest immediate
job, which may be one of a tip that is gone (`stale_job_not_rebuilt`).
-/
import CashStratum.Sv2Custom
import CashStratum.Sv2ProxyPrefix
import CashStratum.Sv2ProxyShare

namespace CashStratum

open Function

open Sv2Proxy (Event)

/-! ### The upstream -/

/-- What of a tip is in a header. -/
def AnnouncedTip.header (tip : AnnouncedTip) : Hash256 × UInt32 := (tip.prevHash, tip.nbits)

/-- A job that an upstream has sent, and the tip that the job is for. -/
structure Sv2UpstreamJob where
  frame : Sv2.NewExtendedMiningJob
  tip : Option AnnouncedTip

/-- What an upstream has on a channel: the prefix of all jobs, the last tip, and the jobs by their
numbers. -/
structure Sv2Upstream where
  extranoncePrefix : Bytes
  tip : Option AnnouncedTip
  jobs : UInt32 → Option Sv2UpstreamJob

/-- What an upstream makes of what it sends.  The number of a declared job is no longer that of a
job it sent. -/
def Sv2Upstream.step (up : Sv2Upstream) : Event → Sv2Upstream
  | .newExtendedMiningJob j =>
    { up with
      jobs := update up.jobs j.jobId
        (some ⟨j, if j.minNtimePresent then up.tip else none⟩) }
  | .setNewPrevHash p _ _ =>
    { up with
      tip := some ⟨p.prevHash, p.minNtime, p.nbits⟩
      jobs := update up.jobs p.jobId
        ((up.jobs p.jobId).map fun job =>
          { job with tip := some ⟨p.prevHash, p.minNtime, p.nbits⟩ }) }
  | .customSuccess _ jobId => { up with jobs := update up.jobs jobId none }
  | .setExtranoncePrefix extranoncePrefix => { up with extranoncePrefix }
  | _ => up

/-- A proxy and its upstream, and each notify with what the upstream had when it was made. -/
structure UpstreamRun where
  sp : Sv2Proxy
  up : Sv2Upstream
  sent : List (NotifyInstance × Sv2Upstream)

namespace UpstreamRun

/-- The notifies that an event makes. -/
def made (sp : Sv2Proxy) (e : Event) : List NotifyInstance :=
  (sp.step e).notifies.take ((sp.step e).notifies.length - sp.notifies.length)

/-- One event. -/
def step (r : UpstreamRun) (e : Event) : UpstreamRun where
  sp := r.sp.step e
  up := r.up.step e
  sent := (made r.sp e).map (fun ni => (ni, r.up.step e)) ++ r.sent

/-- A channel as it was opened. -/
def start (opened : Sv2ProxyOpened) : UpstreamRun where
  sp := opened.sp
  up :=
    { extranoncePrefix := opened.sp.extranoncePrefix
      tip := none
      jobs := fun _ => none }
  sent := []

/-- No job in the ring has the number of a job that comes: the numbers are those of one counter of
the upstream. -/
def Numbered (r : UpstreamRun) : Event → Prop
  | .newExtendedMiningJob j => r.sp.findJob j.jobId = none
  | .customSuccess _ jobId => r.sp.findJob jobId = none
  | _ => True

instance : ∀ (r : UpstreamRun) (e : Event), Decidable (r.Numbered e)
  | r, .newExtendedMiningJob j => inferInstanceAs (Decidable (r.sp.findJob j.jobId = none))
  | r, .customSuccess _ jobId => inferInstanceAs (Decidable (r.sp.findJob jobId = none))
  | _, .setNewPrevHash .. | _, .customError _ | _, .setExtranoncePrefix _ | _, .reconnect
  | _, .setCustomJob .. | _, .customSendFailed _ | _, .bridgeTimeout | _, .customTimeout
  | _, .otherNotify => isTrue trivial

/-- The job that an event sends down is one for the tip that the proxy was told last.  An immediate
job is for the tip of the upstream, which the proxy has, unless it has just refused one; a new
prefix sends the newest immediate job. -/
def Current (r : UpstreamRun) : Event → Prop
  | .newExtendedMiningJob j =>
    j.minNtimePresent = true → j.merklePath.length ≤ genworkMaxMerkleDepth →
      r.sp.customLive = false → ∀ tip, r.sp.tip = some tip →
        r.up.tip.map AnnouncedTip.header = some tip.header
  | .setExtranoncePrefix _ =>
    ∀ slot job tip, r.sp.newestImmediate = some slot → r.sp.jobs slot = some job →
      r.sp.tip = some tip →
        (r.up.jobs job.jobId).bind (fun upjob => upjob.tip.map AnnouncedTip.header) =
          some tip.header
  | _ => True

end UpstreamRun

/-! ### What goes down -/

variable {job : Sv2ProxyJob} {slot : ProxySlot}

namespace Sv2Proxy

variable {sp : Sv2Proxy} {e : Event}

/-- The jobs that an event can send down, as they are sent. -/
inductive Hands (sp : Sv2Proxy) : Event → Sv2ProxyJob → Prop
  | immediate (j : Sv2.NewExtendedMiningJob) (tip : AnnouncedTip)
      (himmediate : j.minNtimePresent = true)
      (hlen : j.merklePath.length ≤ genworkMaxMerkleDepth) (hlive : sp.customLive = false)
      (htip : sp.tip = some tip) :
      Hands sp (.newExtendedMiningJob j)
        { sp.poolJob j with prevHash := tip.prevHash, nbits := tip.nbits }
  | named (p : Sv2.SetNewPrevHash) (rel : Sv2TipRel) ( implausible : Bool) (slot : ProxySlot)
      (job : Sv2ProxyJob) (hfind : sp.findJob p.jobId = some slot) (hjob : sp.jobs slot = some job)
      (hpool : job.custom = none) :
      Hands sp (.setNewPrevHash p rel implausible)
        { job with prevHash := p.prevHash, nbits := p.nbits }
  | declared (e : Event) (job : Sv2ProxyJob) (hdeclared : job.custom.isSome = true) : Hands sp e job
  | flushed (extranoncePrefix : Bytes) (slot : ProxySlot) (job : Sv2ProxyJob) (tip : AnnouncedTip)
      (hnewest : sp.newestImmediate = some slot) (hjob : sp.jobs slot = some job)
      (hpool : job.custom = none) (htip : sp.tip = some tip) :
      Hands sp (.setExtranoncePrefix extranoncePrefix)
        { (sp.withPrefix extranoncePrefix).rebuildJob job with
          prevHash := tip.prevHash
          nbits := tip.nbits }

/-- What a send adds to the notifies. -/
theorem notifies_sendJob (sp : Sv2Proxy) (slot : ProxySlot) (clean : Bool) :
    (sp.sendJob slot clean).notifies = sp.notifies ∨
      ∃ job₀ job, sp.jobs slot = some job₀ ∧ sp.jobOnTip job₀ = some job ∧
        (sp.sendJob slot clean).notifies = sp.notifyInstance job clean :: sp.notifies := by
  obtain h | ⟨job₀, job, hslot, hjob, h⟩ := sp.sendJob_cases slot clean
  · exact Or.inl (by rw [h])
  · refine Or.inr ⟨job₀, job, hslot, hjob, ?_⟩
    rw [h]
    rfl

/-- What is in the ring under a new prefix was there. -/
theorem withPrefix_jobs {extranoncePrefix : Bytes}
    (h : (sp.withPrefix extranoncePrefix).jobs slot = some job) :
    ∃ job₀, sp.jobs slot = some job₀ ∧ job₀.custom = none ∧
      job = (sp.withPrefix extranoncePrefix).rebuildJob job₀ := by
  have hslot : rebuildJobs { sp with extranoncePrefix } slot = some job := h
  rw [rebuildJobs] at hslot
  dsimp only at hslot
  cases hjob : sp.jobs slot with
  | none =>
    rw [hjob] at hslot
    cases hslot
  | some job₀ =>
    rw [hjob] at hslot
    dsimp only at hslot
    by_cases hsome : job₀.custom.isSome = true
    · rw [if_pos hsome] at hslot
      cases hslot
    · rw [if_neg hsome] at hslot
      exact ⟨job₀, rfl, Option.not_isSome_iff_eq_none.mp hsome, (Option.some.inj hslot).symm⟩

/-- A job that is sent is a declared one, or it has the tip. -/
theorem Hands.of_jobOnTip {sp₁ : Sv2Proxy} {job₀ job : Sv2ProxyJob}
    (h : sp₁.jobOnTip job₀ = some job)
    (hpool : ∀ tip, job₀.custom = none → sp₁.tip = some tip →
      Hands sp e { job₀ with prevHash := tip.prevHash, nbits := tip.nbits }) : Hands sp e job := by
  obtain ⟨hsome, rfl⟩ | ⟨hnone, tip, htip, rfl⟩ := jobOnTip_eq_some h
  · exact .declared e job hsome
  · exact hpool tip hnone htip

/-- **An event makes no notify, or one**, of a job that it can send. -/
theorem step_notifies (sp : Sv2Proxy)
    (hstage : ∀ stage ∈ sp.customStage, stage.job.custom.isSome = true) (e : Event) :
    (sp.step e).notifies = sp.notifies ∨
      ∃ (sender : Sv2Proxy) (job : Sv2ProxyJob) (clean : Bool), sp.Hands e job ∧
        (sp.step e).notifies = sender.notifyInstance job clean :: sp.notifies := by
  cases e with
  | newExtendedMiningJob j =>
    rw [step, newExtendedMiningJob]
    by_cases hlen : j.merklePath.length > genworkMaxMerkleDepth
    · exact Or.inl (by rw [if_pos hlen])
    rw [if_neg hlen]
    dsimp only
    by_cases hfuture : (sp.poolJob j).future = true
    · exact Or.inl (by rw [if_pos hfuture]; rfl)
    rw [if_neg hfuture]
    by_cases hlive : (sp.jobSlot (sp.poolJob j)).customLive = true
    · exact Or.inl (by rw [if_pos hlive]; rfl)
    rw [if_neg hlive]
    obtain h | ⟨job₀, job, hslot, hjob, h⟩ :=
      (sp.jobSlot (sp.poolJob j)).notifies_sendJob sp.jobHead false
    · exact Or.inl h
    · refine Or.inr ⟨_, job, false, ?_, h⟩
      obtain rfl : sp.poolJob j = job₀ :=
        Option.some.inj ((jobSlot_at_head sp (sp.poolJob j)).symm.trans hslot)
      refine Hands.of_jobOnTip hjob fun tip _ htip => ?_
      exact .immediate j tip (by simpa [poolJob] using hfuture) (Nat.not_lt.mp hlen)
        (Bool.eq_false_iff.mpr hlive) htip
  | setNewPrevHash p rel implausible =>
    rw [step, setNewPrevHash]
    cases hfind : sp.findJob p.jobId with
    | none => exact Or.inl rfl
    | some slot =>
      dsimp only
      split_ifs with hcustom
      · exact Or.inl rfl
      · refine (notifies_sendJob _ _ _).imp id ?_
        rintro ⟨job₀, job, hslot, hjob, h⟩
        refine ⟨_, job, _, ?_, h⟩
        refine Hands.of_jobOnTip hjob fun tip hnone htip => ?_
        obtain rfl := Option.some.inj htip
        exact .named p rel implausible slot job₀ hfind hslot hnone
  | customSuccess requestId jobId =>
    rw [step, customSuccess]
    cases hpending : sp.customStage with
    | none => exact Or.inl rfl
    | some stage =>
      dsimp only
      split_ifs with hrequest
      · exact Or.inl rfl
      · obtain h | ⟨job₀, job, hslot, hjob, h⟩ := notifies_sendJob
          (jobSlot { sp with customStage := none, customPrev := some stage.job.prevHash }
            { stage.job with jobId := jobId }) sp.jobHead (sp.wantClean stage.job.prevHash)
        · exact Or.inl h
        · refine Or.inr ⟨_, job, _, ?_, h⟩
          obtain rfl : { stage.job with jobId := jobId } = job₀ :=
            Option.some.inj ((jobSlot_at_head _ _).symm.trans hslot)
          refine Hands.of_jobOnTip hjob fun tip hnone _ => ?_
          -- what was staged is a declared job
          have hsome := hstage stage hpending
          rw [show stage.job.custom = none from hnone] at hsome
          cases hsome
  | customError requestId | customSendFailed requestId =>
    rw [step, customDrop]
    split_ifs <;> exact Or.inl rfl
  | setExtranoncePrefix extranoncePrefix =>
    obtain ⟨customPrev, workSrc, hstep⟩ :=
      PrefixRun.setExtranoncePrefix_fields sp extranoncePrefix
    rw [hstep]
    show (sp.withPrefix extranoncePrefix).flushPrefix.notifies = _ ∨ ∃ sender job clean, _ ∧
      (sp.withPrefix extranoncePrefix).flushPrefix.notifies = _
    rw [flushPrefix]
    split_ifs with htip
    · cases hminable : (sp.withPrefix extranoncePrefix).newestMinable with
      | none => exact Or.inl rfl
      | some slot =>
        refine (notifies_sendJob _ _ _).imp id ?_
        rintro ⟨job, job', hslot, hjob, h⟩
        refine ⟨_, job', _, ?_, h⟩
        obtain ⟨job₀, hjob₀, hpool, rfl⟩ := withPrefix_jobs hslot
        refine Hands.of_jobOnTip hjob fun tip _ htip => ?_
        exact .flushed extranoncePrefix slot job₀ tip
          ((PrefixRun.newestMinable_withPrefix sp extranoncePrefix).symm.trans hminable)
          hjob₀ hpool htip
    · exact Or.inl rfl
  | setCustomJob cj current =>
    rw [step, setCustomJob]
    split_ifs <;> exact Or.inl rfl
  | bridgeTimeout =>
    rw [step]
    split_ifs <;> exact Or.inl rfl
  | reconnect | customTimeout | otherNotify => exact Or.inl rfl

/-- An immediate job goes down at once, with the tip. -/
theorem notifies_immediate {j : Sv2.NewExtendedMiningJob} {tip : AnnouncedTip}
    (himmediate : j.minNtimePresent = true) (hlen : j.merklePath.length ≤ genworkMaxMerkleDepth)
    (hlive : sp.customLive = false) (htip : sp.tip = some tip) :
    ∃ sender, (sp.step (.newExtendedMiningJob j)).notifies =
      notifyInstance sender { sp.poolJob j with prevHash := tip.prevHash, nbits := tip.nbits }
        false :: sp.notifies := by
  have hfuture : ¬ (sp.poolJob j).future = true := by
    show ¬ (!j.minNtimePresent) = true
    rw [himmediate]
    decide
  have hquiet : ¬ (sp.jobSlot (sp.poolJob j)).customLive = true := Bool.eq_false_iff.mp hlive
  have hjob : (sp.jobSlot (sp.poolJob j)).jobOnTip (sp.poolJob j) =
      some { sp.poolJob j with prevHash := tip.prevHash, nbits := tip.nbits } :=
    jobOnTip_pool rfl htip
  have hsend := sendJob_eq_notify (jobSlot_at_head sp (sp.poolJob j)) hjob hlen false
  refine ⟨sp.jobSlot (sp.poolJob j), ?_⟩
  rw [step, newExtendedMiningJob, if_neg (Nat.not_lt.mpr hlen)]
  dsimp only
  rw [if_neg hfuture, if_neg hquiet, hsend]
  rfl

theorem rebuildJob_eq (sp : Sv2Proxy) (job : Sv2ProxyJob) :
    ∃ coinb1, sp.rebuildJob job = { job with coinb1 } := by
  rw [rebuildJob]
  split_ifs
  · exact ⟨job.coinb1, rfl⟩
  · exact ⟨_, rfl⟩

/-- A new prefix sends the newest immediate job, with the tip. -/
theorem notifies_flushed (extranoncePrefix : Bytes)
    {tip : AnnouncedTip} (hnewest : sp.newestImmediate = some slot)
    (hjob : sp.jobs slot = some job) (hpool : job.custom = none)
    (hlen : job.merklePath.length ≤ genworkMaxMerkleDepth) (htip : sp.tip = some tip) :
    ∃ sender, (sp.step (.setExtranoncePrefix extranoncePrefix)).notifies =
      notifyInstance sender
        { (sp.withPrefix extranoncePrefix).rebuildJob job with
          prevHash := tip.prevHash
          nbits := tip.nbits } true :: sp.notifies := by
  set sp₁ := sp.withPrefix extranoncePrefix with hsp₁
  obtain ⟨coinb1, hrebuilt⟩ := rebuildJob_eq sp₁ job
  have hslot : sp₁.jobs slot = some (sp₁.rebuildJob job) := by
    show rebuildJobs { sp with extranoncePrefix } slot = _
    rw [rebuildJobs]
    dsimp only
    rw [hjob]
    dsimp only
    rw [hpool]
    rfl
  have hnone : (sp₁.rebuildJob job).custom = none := by
    rw [hrebuilt]
    exact hpool
  have hshort : (sp₁.rebuildJob job).merklePath.length ≤ genworkMaxMerkleDepth := by
    rw [hrebuilt]
    exact hlen
  have hsend := sendJob_eq_notify hslot (jobOnTip_pool hnone htip) hshort true
  have hflush : sp₁.flushPrefix = sp₁.sendJob slot true := by
    have hsome : sp₁.tip.isSome = true := by
      rw [show sp₁.tip = some tip from htip]
      rfl
    rw [flushPrefix, if_pos hsome,
      (PrefixRun.newestMinable_withPrefix sp extranoncePrefix).trans hnewest]
  obtain ⟨customPrev, workSrc, hstep⟩ := PrefixRun.setExtranoncePrefix_fields sp extranoncePrefix
  refine ⟨sp₁, ?_⟩
  rw [hstep, ← hsp₁, hflush, hsend]
  rfl

theorem findJob_eq_some {jobId : UInt32} (h : sp.findJob jobId = some slot)
    (hjob : sp.jobs slot = some job) : job.jobId = jobId := by
  have hfound := List.find?_some h
  rw [hjob] at hfound
  exact eq_of_beq hfound

theorem findJob_eq_none {jobId : UInt32} (h : sp.findJob jobId = none)
    (hjob : sp.jobs slot = some job) : job.jobId ≠ jobId := by
  intro hid
  have hnot := List.find?_eq_none.mp h slot (List.mem_finRange slot)
  rw [hjob, Option.any_some, hid, beq_self_eq_true] at hnot
  exact hnot rfl

theorem newestImmediate_eq_some (h : sp.newestImmediate = some slot)
    (hjob : sp.jobs slot = some job) : job.custom = none := by
  have hfound := List.find?_some h
  rw [hjob] at hfound
  have hboth : (job.custom.isNone && !job.future) = true := hfound
  rw [Bool.and_eq_true] at hboth
  exact Option.isNone_iff_eq_none.mp hboth.1

end Sv2Proxy

/-! ### What the upstream knows -/

/-- A job of the pool is the one that the upstream has under its number. -/
def Sv2Upstream.Knows (up : Sv2Upstream) (sp : Sv2Proxy) (job : Sv2ProxyJob) : Prop :=
  job.custom = none → ∃ upjob, up.jobs job.jobId = some upjob ∧ IsJobOf sp upjob.frame job

/-- Being known is a rule for jobs. -/
theorem jobRule_knows (up : Sv2Upstream) : Sv2Proxy.JobRule up.Knows where
  congr := by
    intro sp sp' job h hlayout hchannel hnone
    obtain ⟨upjob, hup, hjob⟩ := h hnone
    exact ⟨upjob, hup, hjob.congr hlayout hchannel⟩
  tip := by
    intro sp job tip hnone h _
    obtain ⟨upjob, hup, hlen, hjob⟩ := h hnone
    refine ⟨upjob, hup, hlen, ?_⟩
    rw [hjob]
  number := by
    intro sp job jobId hsome _ hnone
    rw [show job.custom = none from hnone] at hsome
    cases hsome
  rebuild := by
    intro sp sp' job h hnone _ _
    obtain ⟨upjob, hup, hjob⟩ := h hnone
    refine ⟨upjob, ?_, hjob.rebuild sp'⟩
    obtain ⟨coinb1, hrebuilt⟩ := sp'.rebuildJob_eq job
    rw [hrebuilt]
    exact hup

namespace UpstreamRun

variable {r : UpstreamRun} {e : Event}

/-- The upstream and the proxy have the same prefix, and the jobs in the ring are known. -/
structure Inv (r : UpstreamRun) : Prop where
  layout : r.up.extranoncePrefix = r.sp.extranoncePrefix
  carries : Sv2Proxy.Carries r.up.Knows r.sp

/-- What comes leaves the jobs in the ring known. -/
theorem Inv.knows (h : r.Inv) (hnumbered : r.Numbered e) :
    Sv2Proxy.Carries (r.up.step e).Knows r.sp where
  ring slot job hslot hnone := by
    obtain ⟨upjob, hup, hjob⟩ := h.carries.ring slot job hslot hnone
    cases e with
    | newExtendedMiningJob j | customSuccess requestId jobId =>
      refine ⟨upjob, ?_, hjob⟩
      exact (update_of_ne (Sv2Proxy.findJob_eq_none hnumbered hslot) _ _).trans hup
    | setNewPrevHash p rel implausible =>
      by_cases hid : job.jobId = p.jobId
      · refine ⟨{ upjob with tip := some ⟨p.prevHash, p.minNtime, p.nbits⟩ }, ?_, hjob⟩
        show update r.up.jobs p.jobId _ job.jobId = _
        rw [hid] at hup ⊢
        rw [update_self, hup]
        rfl
      · exact ⟨upjob, (update_of_ne hid _ _).trans hup, hjob⟩
    | _ => exact ⟨upjob, hup, hjob⟩
  stage stage hstage := by
    have hsome := (h.carries.stage stage hstage).1
    refine ⟨hsome, fun hnone => ?_⟩
    rw [hnone] at hsome
    cases hsome

/-- **A step keeps what the upstream knows.** -/
theorem Inv.step (h : r.Inv) (hnumbered : r.Numbered e) : (r.step e).Inv where
  layout := by
    show (r.up.step e).extranoncePrefix = (r.sp.step e).extranoncePrefix
    rw [(r.sp.step_frame e).2]
    cases e with
    | setExtranoncePrefix extranoncePrefix => rfl
    | _ => exact h.layout
  carries := by
    have hknows := h.knows hnumbered
    by_cases hlong : ∃ j, e = .newExtendedMiningJob j ∧
        j.merklePath.length > genworkMaxMerkleDepth
    · obtain ⟨j, rfl, hlen⟩ := hlong
      have hstep : r.sp.step (.newExtendedMiningJob j) = r.sp := if_pos hlen
      show Sv2Proxy.Carries (r.up.step (.newExtendedMiningJob j)).Knows
        (r.sp.step (.newExtendedMiningJob j))
      rw [hstep]
      exact hknows
    · refine hknows.step (jobRule_knows _) e ?_
      cases e with
      | newExtendedMiningJob j =>
        intro _
        have hlen : j.merklePath.length ≤ genworkMaxMerkleDepth :=
          Nat.not_lt.mp fun hlt => hlong ⟨j, rfl, hlt⟩
        exact ⟨_, update_self _ _ _, hlen, rfl⟩
      | setCustomJob cj current => exact fun _ hnone => by cases hnone
      | _ => trivial

theorem inv_start {nonce2length proxyNotifyId : Nat} {ok : Sv2.OpenExtendedChannelSuccess}
    {opened : Sv2ProxyOpened} (hopen : sv2ProxyOpen nonce2length proxyNotifyId ok = some opened) :
    (start opened).Inv := by
  simp only [sv2ProxyOpen] at hopen
  split_ifs at hopen
  obtain rfl := Option.some.inj hopen
  refine ⟨rfl, ?_, ?_⟩
  · intro slot job hslot
    cases hslot
  · intro stage hstage
    cases hstage

theorem inv_run {nonce2length proxyNotifyId : Nat} {ok : Sv2.OpenExtendedChannelSuccess}
    {opened : Sv2ProxyOpened} (hopen : sv2ProxyOpen nonce2length proxyNotifyId ok = some opened)
    (events : List Event) (hnumbered : Along step Numbered (start opened) events) :
    (run step (start opened) events).Inv :=
  run_invariant (I := Inv) (fun _ _ hnum h => h.step hnum) hnumbered (inv_start hopen)

/-- A job of the pool with a tip, that the upstream has for another one, or for none. -/
def Stale (up : Sv2Upstream) (job : Sv2ProxyJob) : Prop :=
  ∀ frame tip, up.jobs job.jobId = some ⟨frame, some tip⟩ →
    (job.prevHash, job.nbits) ≠ tip.header

/-- The job that is sent is the one that the upstream has, on its tip. -/
def Matches (up : Sv2Upstream) (sp : Sv2Proxy) (job : Sv2ProxyJob) : Prop :=
  ∃ frame tip, up.jobs job.jobId = some ⟨frame, some tip⟩ ∧
    job = { sp.poolJob frame with prevHash := tip.prevHash, nbits := tip.nbits }

theorem matches_of_isJobOf {up : Sv2Upstream} {sp : Sv2Proxy} (upjob : Sv2UpstreamJob)
    (hjob : IsJobOf sp upjob.frame job) (hup : up.jobs job.jobId = some upjob)
    (htip : upjob.tip.map AnnouncedTip.header = some (job.prevHash, job.nbits)) :
    Matches up sp job := by
  obtain ⟨frame, tip⟩ := upjob
  obtain ⟨tip, rfl, hheader⟩ := Option.map_eq_some_iff.mp htip
  obtain ⟨hprev, hnbits⟩ := Prod.mk.inj hheader
  refine ⟨frame, tip, hup, ?_⟩
  rw [hprev, hnbits]
  exact hjob.2

/-- **What goes down is right**, when the tip is that of the job. -/
theorem Inv.hands (h : r.Inv) (hnumbered : r.Numbered e) (hcurrent : r.Current e)
    (hhands : r.sp.Hands e job) (hpool : job.custom = none) :
    Matches (r.up.step e) (r.sp.step e) job := by
  obtain ⟨hchannel, hlayout⟩ := r.sp.step_frame e
  cases hhands with
  | immediate j tip himmediate hlen hlive htip =>
    have htips := hcurrent himmediate hlen hlive tip htip
    have hjob : IsJobOf (r.sp.step (.newExtendedMiningJob j)) j
        { r.sp.poolJob j with prevHash := tip.prevHash, nbits := tip.nbits } :=
      IsJobOf.congr ⟨hlen, rfl⟩ hlayout hchannel
    refine matches_of_isJobOf ⟨j, r.up.tip⟩ hjob ?_ htips
    refine (update_self _ _ _).trans ?_
    rw [himmediate]
    rfl
  | named p rel implausible slot job hfind hjob hnone =>
    obtain ⟨upjob, hup, hof⟩ := h.carries.ring slot job hjob hnone
    have hid := Sv2Proxy.findJob_eq_some hfind hjob
    have hsent : IsJobOf r.sp upjob.frame { job with prevHash := p.prevHash, nbits := p.nbits } :=
      ⟨hof.1, by rw [hof.2]⟩
    refine matches_of_isJobOf { upjob with tip := some ⟨p.prevHash, p.minNtime, p.nbits⟩ }
      (hsent.congr hlayout hchannel) ?_ rfl
    show update r.up.jobs p.jobId _ job.jobId = _
    rw [hid] at hup ⊢
    rw [update_self, hup]
    rfl
  | declared _ _ hdeclared =>
    rw [hpool] at hdeclared
    cases hdeclared
  | flushed extranoncePrefix slot job tip hnewest hjob hnone htip =>
    obtain ⟨upjob, hup, hof⟩ := h.carries.ring slot job hjob hnone
    have htips := hcurrent slot job tip hnewest hjob htip
    rw [hup] at htips
    obtain ⟨coinb1, hrebuilt⟩ := (r.sp.withPrefix extranoncePrefix).rebuildJob_eq job
    have hrebuild := hof.rebuild (r.sp.withPrefix extranoncePrefix)
    have hsent : IsJobOf (r.sp.withPrefix extranoncePrefix) upjob.frame
        { (r.sp.withPrefix extranoncePrefix).rebuildJob job with
          prevHash := tip.prevHash
          nbits := tip.nbits } := ⟨hrebuild.1, by rw [hrebuild.2]⟩
    refine matches_of_isJobOf upjob (hsent.congr hlayout hchannel) ?_ htips
    rw [hrebuilt]
    exact hup

/-- **What goes down otherwise** is a job with a tip that is not its own. -/
theorem Inv.stale (h : r.Inv) (hnumbered : r.Numbered e) (hstale : ¬ r.Current e) :
    ∃ (sender : Sv2Proxy) (job : Sv2ProxyJob) (clean : Bool),
      (r.sp.step e).notifies = sender.notifyInstance job clean :: r.sp.notifies ∧
      job.custom = none ∧ Stale (r.up.step e) job := by
  cases e with
  | newExtendedMiningJob j =>
    simp only [Current, not_forall] at hstale
    obtain ⟨himmediate, hlen, hlive, tip, htip, hother⟩ := hstale
    obtain ⟨sender, hnotifies⟩ := Sv2Proxy.notifies_immediate himmediate hlen hlive htip
    refine ⟨sender, _, false, hnotifies, rfl, ?_⟩
    intro frame tip' hup hsame
    have hup' : r.up.tip = some tip' := by
      have hnew := (update_self _ _ _).symm.trans hup
      rw [himmediate] at hnew
      exact (Sv2UpstreamJob.mk.inj (Option.some.inj hnew)).2
    exact hother (by rw [hup', Option.map_some, ← hsame]; rfl)
  | setExtranoncePrefix extranoncePrefix =>
    simp only [Current, not_forall] at hstale
    obtain ⟨slot, job, tip, hnewest, hjob, htip, hother⟩ := hstale
    have hpool := Sv2Proxy.newestImmediate_eq_some hnewest hjob
    obtain ⟨upjob, hup, hof⟩ := h.carries.ring slot job hjob hpool
    have hlen : job.merklePath.length ≤ genworkMaxMerkleDepth := by
      rw [hof.2]
      exact hof.1
    obtain ⟨sender, hnotifies⟩ := Sv2Proxy.notifies_flushed extranoncePrefix
      hnewest hjob hpool hlen htip
    obtain ⟨coinb1, hrebuilt⟩ := (r.sp.withPrefix extranoncePrefix).rebuildJob_eq job
    refine ⟨sender, _, true, hnotifies, by rw [hrebuilt]; exact hpool, ?_⟩
    intro frame tip' hup' hsame
    rw [hrebuilt] at hup' hsame
    have hknown : r.up.jobs job.jobId = some ⟨frame, some tip'⟩ := hup'
    apply hother
    rw [hknown, Option.bind_some, Option.map_some, ← hsame]
    rfl
  | _ => exact absurd trivial hstale

end UpstreamRun

/-! ### Shares -/

/-- A share of a client on a workbase: who the client is, what it sends, and what is hashed. -/
structure ClientShare where
  ck : Ckpool
  wb : Workbase
  enonce1_64 : UInt64
  txnbin : Bytes
  nonce2 : Bytes
  ntime : Bytes
  nonce : Bytes
  mask : UInt32
  s : Submission

namespace ClientShare

/-- The share is one on the workbase of a notify. -/
structure On (x : ClientShare) (proxy : ProxySubscription) (ni : NotifyInstance) : Prop where
  proxied : x.ck.btcsolo = false
  workbase : updateNotify proxy ni = some x.wb
  hashed : parseSubmit x.ck ⟨(fillEnonce1data proxy x.enonce1_64).enonce1bin, x.txnbin⟩ x.wb
    x.nonce2 (strtoulHex x.ntime) x.mask x.nonce = some x.s

/-- What goes up for the share. -/
def message (x : ClientShare) (proxy : ProxySubscription) (channel : Sv2ProxyChannel)
    (ni : NotifyInstance) (seq : UInt32) : Option (SubmitSharesExtended × Bytes) :=
  sv2ProxySubmitShare channel ni
    (parseSubmitDoc x.wb (fillEnonce1data proxy x.enonce1_64).enonce1var ni.id64 x.nonce2 x.ntime
      x.nonce x.mask) seq

end ClientShare

namespace Sv2Upstream

variable {proxy : ProxySubscription} {channel : Sv2ProxyChannel} {ni : NotifyInstance}

/-- The upstream has a job and a tip for the notify, and rebuilds every share on it. -/
def Rebuilds (up : Sv2Upstream) (proxy : ProxySubscription) (channel : Sv2ProxyChannel)
    (ni : NotifyInstance) : Prop :=
  ∃ j tip, up.jobs ni.jobid = some ⟨j, some tip⟩ ∧
    ∀ (x : ClientShare) (seq : UInt32), x.On proxy ni →
      ∃ sub pbuf, x.message proxy channel ni seq = some (sub, pbuf) ∧
        Rebuilt j up.extranoncePrefix tip x.s sub pbuf

end Sv2Upstream

/-! ### Every run -/

namespace UpstreamRun

variable {opened : Sv2ProxyOpened}

/-- What an event makes goes with what the upstream then has. -/
theorem made_of_cons {sp : Sv2Proxy} {e : Event} {ni : NotifyInstance}
    (h : (sp.step e).notifies = ni :: sp.notifies) : made sp e = [ni] := by
  rw [made, h, List.length_cons, Nat.add_sub_cancel_left, List.take_succ_cons, List.take_zero]

theorem made_of_same {sp : Sv2Proxy} {e : Event} (h : (sp.step e).notifies = sp.notifies) :
    made sp e = [] := by
  rw [made, h, Nat.sub_self, List.take_zero]

section Rebuild

variable {proxy : ProxySubscription} {channel : Sv2ProxyChannel} {r : UpstreamRun} {e : Event}

/-- The notifies of a run that are rebuilt. -/
structure Good (proxy : ProxySubscription) (channel : Sv2ProxyChannel) (r : UpstreamRun) :
    Prop where
  inv : r.Inv
  channel_eq : r.sp.channel = channel
  rebuilt : ∀ x ∈ r.sent, x.1.custom = none → x.2.Rebuilds proxy channel x.1

/-- **A step under the conditions** makes nothing else. -/
theorem Good.step (h : Good proxy channel r) (hnumbered : r.Numbered e) (hcurrent : r.Current e)
    (hmatches : ∀ {up : Sv2Upstream} {sp : Sv2Proxy} (sender : Sv2Proxy) {job : Sv2ProxyJob}
      (clean : Bool), sp.channel = channel → up.extranoncePrefix = sp.extranoncePrefix →
        Matches up sp job → up.Rebuilds proxy channel (sender.notifyInstance job clean)) :
    Good proxy channel (r.step e) := by
  have hinv := h.inv.step hnumbered
  have hchannel : (r.step e).sp.channel = channel := (r.sp.step_channel e).trans h.channel_eq
  refine ⟨hinv, hchannel, fun x hx hpool => ?_⟩
  obtain hnew | hold := List.mem_append.mp hx
  · obtain ⟨ni, hni, rfl⟩ := List.mem_map.mp hnew
    obtain hsame | ⟨sender, job, clean, hhands, hcons⟩ :=
      r.sp.step_notifies (fun stage hstage => (h.inv.carries.stage stage hstage).1) e
    · rw [made_of_same hsame] at hni
      cases hni
    · rw [made_of_cons hcons, List.mem_singleton] at hni
      subst hni
      have hnone : job.custom = none := Option.map_eq_none_iff.mp hpool
      exact hmatches sender clean hchannel hinv.layout
        (h.inv.hands hnumbered hcurrent hhands hnone)
  · exact h.rebuilt x hold hpool

end Rebuild

end UpstreamRun

/-! ### The channel of an example -/

end CashStratum
