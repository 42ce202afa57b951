/-
CashStratum/Sv2ProxyRing.lean

What holds of every job that an SV2 proxy stores and sends (`generator.c`).

A job gets into the ring as a job of the pool, or from the stage with the number that the pool
gave it.  It is changed there twice over at most: a send gives a job of the pool its tip, and a
new prefix rebuilds it.  Whatever survives this (`JobRule`) and holds of the jobs that come in
(`Admits`) holds of every job in the ring and on the stage, and of every job that is notified
(`Carries.step`).
-/
import CashStratum.Run
import CashStratum.Sv2Proxy

namespace CashStratum

namespace Sv2Proxy

variable {Q : Sv2Proxy → Sv2ProxyJob → Prop} {sp sp' sp'' : Sv2Proxy}

/-! ### Rules -/

/-- What is said of a job goes by the layout of the channel alone, and survives what is done to
a job. -/
structure JobRule (Q : Sv2Proxy → Sv2ProxyJob → Prop) : Prop where
  congr : ∀ {sp sp' : Sv2Proxy} {job : Sv2ProxyJob}, Q sp job →
    sp'.extranoncePrefix = sp.extranoncePrefix → sp'.channel = sp.channel → Q sp' job
  tip : ∀ {sp : Sv2Proxy} {job : Sv2ProxyJob} (tip : AnnouncedTip), job.custom = none → Q sp job →
    Q sp { job with prevHash := tip.prevHash, nbits := tip.nbits }
  number : ∀ {sp : Sv2Proxy} {job : Sv2ProxyJob} (jobId : UInt32), job.custom.isSome = true →
    Q sp job → Q sp { job with jobId := jobId }
  rebuild : ∀ {sp sp' : Sv2Proxy} {job : Sv2ProxyJob}, Q sp job → job.custom = none →
    sp'.channel = sp.channel → Q sp' (sp'.rebuildJob job)

/-- It holds of the jobs in the ring, and of the one on the stage, which is a declared one. -/
structure Carries (Q : Sv2Proxy → Sv2ProxyJob → Prop) (sp : Sv2Proxy) : Prop where
  ring : sp.JobsAll (Q sp)
  stage : ∀ stage ∈ sp.customStage, stage.job.custom.isSome = true ∧ Q sp stage.job

/-- A notify of such a job; one of the pool has the tip of the channel. -/
def IsNotifyOf (Q : Sv2Proxy → Sv2ProxyJob → Prop) (sp : Sv2Proxy) (ni : NotifyInstance) : Prop :=
  ∃ (sender : Sv2Proxy) (job : Sv2ProxyJob) (clean : Bool),
    sender.extranoncePrefix = sp.extranoncePrefix ∧ sender.channel = sp.channel ∧ Q sp job ∧
    (job.custom = none →
      ∃ tip, sp.tip = some tip ∧ job.prevHash = tip.prevHash ∧ job.nbits = tip.nbits) ∧
    ni = sender.notifyInstance job clean

/-- From `sp` to `sp'` it still holds of the jobs in the ring, and it holds of those that were
notified. -/
structure Sends (Q : Sv2Proxy → Sv2ProxyJob → Prop) (sp sp' : Sv2Proxy) : Prop where
  ring : sp'.JobsAll (Q sp')
  notifies : ∀ ni ∈ sp'.notifies, ni ∈ sp.notifies ∨ IsNotifyOf Q sp' ni

/-- It holds of the job that comes in. -/
def Admits (Q : Sv2Proxy → Sv2ProxyJob → Prop) (sp : Sv2Proxy) : Event → Prop
  | .newExtendedMiningJob j => Q sp (sp.poolJob j)
  | .setCustomJob cj _ =>
    cj.holeLen = sp.extranoncePrefix.length + sp.channel.extranonceSize → Q sp (sp.stageJob cj)
  | _ => True

/-! ### The ring -/

/-- What does not touch the ring and its notifies, nor the layout. -/
theorem Sends.of_frame (hQ : JobRule Q) (h : sp.JobsAll (Q sp)) (hjobs : sp'.jobs = sp.jobs)
    (hlayout : sp'.extranoncePrefix = sp.extranoncePrefix) (hchannel : sp'.channel = sp.channel)
    (hnotifies : sp'.notifies = sp.notifies) : Sends Q sp sp' where
  ring slot job hslot := hQ.congr (h slot job (hjobs ▸ hslot)) hlayout hchannel
  notifies _ hni := Or.inl (hnotifies ▸ hni)

theorem Sends.jobSlot (hQ : JobRule Q) (h : sp.JobsAll (Q sp)) {job : Sv2ProxyJob}
    (hjob : Q sp job) : Sends Q sp (sp.jobSlot job) where
  ring slot job' hslot :=
    hQ.congr (h.jobSlot hjob slot job' hslot) rfl rfl
  notifies _ hni := Or.inl hni

/-- **A send** is of a job of the ring, with the tip of the channel. -/
theorem Sends.sendJob (hQ : JobRule Q) (h : Sends Q sp sp') (slot : ProxySlot) (clean : Bool) :
    Sends Q sp (sp'.sendJob slot clean) := by
  have hlayout : (sp'.sendJob slot clean).extranoncePrefix = sp'.extranoncePrefix := by simp
  have hchannel : (sp'.sendJob slot clean).channel = sp'.channel := by simp
  have htip : ∀ job job', sp'.jobOnTip job = some job' → Q sp' job → Q sp' job' := by
    intro job job' htip hjob
    obtain ⟨-, rfl⟩ | ⟨hnone, tip, -, rfl⟩ := jobOnTip_eq_some htip
    · exact hjob
    · exact hQ.tip tip hnone hjob
  refine ⟨?_, ?_⟩
  · intro i job hi
    exact hQ.congr (h.ring.sendJob htip slot clean i job hi) hlayout hchannel
  · intro ni hni
    obtain hsend | ⟨job₀, job, hslot, hjob, hsend⟩ := sp'.sendJob_cases slot clean
    · rw [hsend] at hni ⊢
      exact h.notifies ni hni
    · have hQjob : Q (sp'.sendJob slot clean) job :=
        hQ.congr (htip job₀ job hjob (h.ring slot job₀ hslot)) hlayout hchannel
      have hcustomTip : job.custom = none → ∃ tip, (sp'.sendJob slot clean).tip = some tip ∧
          job.prevHash = tip.prevHash ∧ job.nbits = tip.nbits := by
        intro hcustom
        obtain ⟨hsome, rfl⟩ | ⟨-, tip, htip, rfl⟩ := jobOnTip_eq_some hjob
        · rw [hcustom] at hsome
          cases hsome
        · exact ⟨tip, by rw [tip_sendJob, htip], rfl, rfl⟩
      rw [hsend] at hni
      obtain rfl | hni := List.mem_cons.mp hni
      · right
        exact ⟨sp', job, clean, hlayout.symm, hchannel.symm, hQjob, hcustomTip, rfl⟩
      · obtain hold | hnew := h.notifies ni hni
        · exact Or.inl hold
        · right
          obtain ⟨sender, job', clean', hl, hc, hjob', ht, rfl⟩ := hnew
          refine ⟨sender, job', clean', hl.trans hlayout.symm, hc.trans hchannel.symm,
            hQ.congr hjob' hlayout hchannel, ?_, rfl⟩
          rw [tip_sendJob]
          exact ht

/-- What comes after a send. -/
theorem Sends.frame (hQ : JobRule Q) (h : Sends Q sp sp') (hjobs : sp''.jobs = sp'.jobs)
    (hlayout : sp''.extranoncePrefix = sp'.extranoncePrefix)
    (hchannel : sp''.channel = sp'.channel) (htip : sp''.tip = sp'.tip)
    (hnotifies : sp''.notifies = sp'.notifies) : Sends Q sp sp'' where
  ring := (Sends.of_frame hQ h.ring hjobs hlayout hchannel hnotifies).ring
  notifies ni hni := by
    rw [hnotifies] at hni
    obtain hold | ⟨sender, job, clean, hl, hc, hjob, ht, rfl⟩ := h.notifies ni hni
    · exact Or.inl hold
    · right
      refine ⟨sender, job, clean, hl.trans hlayout.symm, hc.trans hchannel.symm,
        hQ.congr hjob hlayout hchannel, ?_, rfl⟩
      rw [htip]
      exact ht

/-- What comes before it. -/
theorem Sends.of_notifies (h : Sends Q sp' sp'') (hnotifies : sp'.notifies = sp.notifies) :
    Sends Q sp sp'' where
  ring := h.ring
  notifies ni hni := by
    rw [← hnotifies]
    exact h.notifies ni hni

/-- The ring under a new prefix. -/
theorem Sends.withPrefix (hQ : JobRule Q) (h : sp.JobsAll (Q sp)) (extranoncePrefix : Bytes) :
    Sends Q sp (sp.withPrefix extranoncePrefix) where
  ring := by
    intro slot job hslot
    simp only [Sv2Proxy.withPrefix, rebuildJobs] at hslot
    split at hslot
    · cases hslot
    · rename_i job₀ hjob₀
      split_ifs at hslot with hsome
      obtain rfl := Option.some.inj hslot
      have hrebuilt : Q { sp with extranoncePrefix } (rebuildJob { sp with extranoncePrefix } job₀) :=
        hQ.rebuild (h slot job₀ hjob₀) (Option.not_isSome_iff_eq_none.mp hsome) rfl
      exact hQ.congr hrebuilt rfl rfl
  notifies _ hni := Or.inl hni

/-- **Every event** keeps the ring, and sends jobs of it. -/
theorem Carries.sends_step (hQ : JobRule Q) (h : Carries Q sp) (e : Event)
    (he : sp.Admits Q e) : Sends Q sp (sp.step e) := by
  have hsame : Sends Q sp sp := ⟨h.ring, fun _ hni => Or.inl hni⟩
  cases e with
  | newExtendedMiningJob j =>
    simp only [Sv2Proxy.step, Sv2Proxy.newExtendedMiningJob]
    have hstored : Sends Q sp (sp.jobSlot (sp.poolJob j)) := Sends.jobSlot hQ h.ring he
    split_ifs
    · exact hsame
    · exact hstored
    · exact hstored
    · exact hstored.sendJob hQ _ _
  | setNewPrevHash p rel implausible =>
    simp only [Sv2Proxy.step, Sv2Proxy.setNewPrevHash]
    split
    · exact Sends.of_frame hQ h.ring rfl rfl rfl rfl
    · split_ifs
      · exact Sends.of_frame hQ h.ring rfl rfl rfl rfl
      · refine Sends.sendJob hQ ?_ _ _
        exact Sends.of_frame hQ h.ring rfl rfl rfl rfl
  | customSuccess requestId jobId =>
    simp only [Sv2Proxy.step, Sv2Proxy.customSuccess]
    split
    · exact hsame
    · rename_i stage hstage
      split_ifs
      · exact hsame
      · obtain ⟨hsome, hstaged⟩ := h.stage stage hstage
        -- the job that the pool has numbered is stored, and sent
        have hcleared : Sends Q sp
            { sp with customStage := none, customPrev := some stage.job.prevHash } :=
          Sends.of_frame hQ h.ring rfl rfl rfl rfl
        have hnumbered : Q sp { stage.job with jobId := jobId } := hQ.number jobId hsome hstaged
        have hstored : Sends Q sp _ :=
          (Sends.jobSlot hQ hcleared.ring (hQ.congr hnumbered rfl rfl)).of_notifies rfl
        exact (hstored.sendJob hQ _ _).frame hQ rfl rfl rfl rfl rfl
  | customError requestId | customSendFailed requestId =>
    simp only [Sv2Proxy.step, Sv2Proxy.customDrop]
    split_ifs
    · exact Sends.of_frame hQ h.ring rfl rfl rfl rfl
    · exact hsame
  | setExtranoncePrefix extranoncePrefix =>
    have hrebuilt := Sends.withPrefix hQ h.ring extranoncePrefix
    have hflushed : Sends Q sp (sp.withPrefix extranoncePrefix).flushPrefix := by
      obtain hflush | ⟨slot, job, -, -, -, hflush⟩ :=
        (sp.withPrefix extranoncePrefix).flushPrefix_cases
      · rw [hflush]
        exact hrebuilt
      · rw [hflush]
        exact hrebuilt.sendJob hQ _ _
    simp only [Sv2Proxy.step, Sv2Proxy.setExtranoncePrefix]
    split_ifs
    · exact hflushed.frame hQ rfl rfl rfl rfl rfl
    · exact hflushed.frame hQ rfl rfl rfl rfl rfl
  | setCustomJob cj current =>
    simp only [Sv2Proxy.step, Sv2Proxy.setCustomJob]
    split_ifs
    · exact hsame
    · exact hsame
    · exact hsame
    · exact Sends.of_frame hQ h.ring rfl rfl rfl rfl
    · exact hsame
  | bridgeTimeout =>
    simp only [Sv2Proxy.step]
    split_ifs
    · exact Sends.of_frame hQ h.ring rfl rfl rfl rfl
    · exact hsame
  | reconnect | customTimeout | otherNotify => exact Sends.of_frame hQ h.ring rfl rfl rfl rfl

/-! ### The stage -/

/-- What is on the stage after an event was there, in the same layout, or has just been put
there. -/
theorem customStage_step (sp : Sv2Proxy) (e : Event) {stage : StagedCustom}
    (h : stage ∈ (sp.step e).customStage) :
    (sp.step e).extranoncePrefix = sp.extranoncePrefix ∧
      (stage ∈ sp.customStage ∨ ∃ cj current, e = .setCustomJob cj current ∧
        cj.holeLen = sp.extranoncePrefix.length + sp.channel.extranonceSize ∧
        stage.job = sp.stageJob cj) := by
  cases e with
  | newExtendedMiningJob j =>
    simp only [Sv2Proxy.step, Sv2Proxy.newExtendedMiningJob] at h ⊢
    split_ifs at h ⊢
    · exact ⟨rfl, Or.inl h⟩
    · exact ⟨rfl, Or.inl h⟩
    · exact ⟨rfl, Or.inl h⟩
    · rw [customStage_sendJob] at h
      exact ⟨by rw [extranoncePrefix_sendJob]; rfl, Or.inl h⟩
  | setNewPrevHash p rel implausible =>
    simp only [Sv2Proxy.step, Sv2Proxy.setNewPrevHash] at h ⊢
    cases hfind : sp.findJob p.jobId with
    | none =>
      rw [hfind] at h
      exact ⟨rfl, Or.inl h⟩
    | some slot =>
      rw [hfind] at h
      dsimp only at h ⊢
      split_ifs at h ⊢
      · exact ⟨rfl, Or.inl h⟩
      · rw [customStage_sendJob] at h
        exact ⟨by rw [extranoncePrefix_sendJob], Or.inl h⟩
  | customSuccess requestId jobId =>
    simp only [Sv2Proxy.step, Sv2Proxy.customSuccess] at h ⊢
    cases hstage : sp.customStage with
    | none =>
      rw [hstage] at h
      dsimp only at h
      rw [hstage] at h
      cases h
    | some stage' =>
      rw [hstage] at h
      dsimp only at h ⊢
      split_ifs at h ⊢
      · rw [hstage] at h
        exact ⟨rfl, Or.inl h⟩
      · rw [customStage_sendJob] at h
        cases h
  | customError requestId | customSendFailed requestId =>
    simp only [Sv2Proxy.step, Sv2Proxy.customDrop] at h ⊢
    split_ifs at h ⊢
    · cases h
    · exact ⟨rfl, Or.inl h⟩
  | setExtranoncePrefix extranoncePrefix =>
    simp only [Sv2Proxy.step, Sv2Proxy.setExtranoncePrefix] at h
    split_ifs at h <;> cases h
  | setCustomJob cj current =>
    simp only [Sv2Proxy.step, Sv2Proxy.setCustomJob] at h ⊢
    split_ifs at h ⊢ with hempty hhole hcurrent hlen
    · exact ⟨rfl, Or.inl h⟩
    · exact ⟨rfl, Or.inl h⟩
    · exact ⟨rfl, Or.inl h⟩
    · obtain rfl := Option.some.inj h
      exact ⟨rfl, Or.inr ⟨cj, current, rfl, not_not.mp hhole, rfl⟩⟩
    · exact ⟨rfl, Or.inl h⟩
  | bridgeTimeout =>
    simp only [Sv2Proxy.step] at h ⊢
    split_ifs at h ⊢
    · exact ⟨rfl, Or.inl h⟩
    · exact ⟨rfl, Or.inl h⟩
  | customTimeout => cases h
  | reconnect | otherNotify => exact ⟨rfl, Or.inl h⟩

/-- **The rule of the jobs.** -/
theorem Carries.step (hQ : JobRule Q) (h : Carries Q sp) (e : Event) (he : sp.Admits Q e) :
    Carries Q (sp.step e) where
  ring := (h.sends_step hQ e he).ring
  stage stage hmem := by
    obtain ⟨hlayout, hold | ⟨cj, current, rfl, hhole, hjob⟩⟩ := sp.customStage_step e hmem
    · obtain ⟨hsome, hstaged⟩ := h.stage stage hold
      exact ⟨hsome, hQ.congr hstaged hlayout (sp.step_channel e)⟩
    · refine ⟨by rw [hjob]; rfl, ?_⟩
      rw [hjob]
      exact hQ.congr (he hhole) hlayout (sp.step_channel _)

end Sv2Proxy

end CashStratum
