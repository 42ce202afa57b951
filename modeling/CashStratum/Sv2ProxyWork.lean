/-
CashStratum/Sv2ProxyWork.lean

What miners are given on an SV2 upstream: jobs of the pool and declared ones, each for a tip, some
of them clean.  `WorkHistory` is what can be seen of this from outside, by the frames that came in
and the notifies that went down; `Lawful` says which notify may go down after such a history.

The proxy keeps its own record of the same in its fields (`WorkInv`).  Three events part the two: a
Success for a job of a tip that the pool has left, a tip for which the pool names no job of its
own in the ring, and a new prefix when the ring has no job to flush it with.  A run without them
(`Sv2Proxy.Orderly`) is lawful.
-/
import CashStratum.Sv2Proxy

namespace CashStratum

/-! ### What can be seen -/

/-- A tip in the text of a notify. -/
def prevhashText (prev : Hash256) : Bytes := bin2hex (flip32 prev.bytes)

theorem prevhashText_injective {a b : Hash256} (h : prevhashText a = prevhashText b) : a = b := by
  have hlen : ∀ c : Hash256, (flip32 c.bytes).length = 32 := by
    intro c
    rw [flip32_of_length c.length_bytes, length_flipWords _ (by simp), c.length_bytes]
  have hback : ∀ c : Hash256, flipWords (flip32 c.bytes) = c.bytes := by
    intro c
    rw [flip32_of_length c.length_bytes, flipWords_flipWords _ (by simp)]
  have hbin : some (flip32 a.bytes) = some (flip32 b.bytes) := by
    rw [← hex2bin_bin2hex_of_length (hlen a), ← hex2bin_bin2hex_of_length (hlen b)]
    exact congrArg (hex2bin · 32) h
  apply Hash256.ext
  rw [← hback a, ← hback b, Option.some.inj hbin]

/-- The frames and the notifies so far: the tip last announced, the tip of the last clean notify,
whether a prefix or another tip came since the last notify, whether that notify is declared work
for the tip that still stands, and the declared jobs that the pool has accepted, under the
number it gave them. -/
structure WorkHistory where
  announced : Option Hash256
  cleanTip : Option Bytes
  prefixSet : Bool
  awaiting : Bool
  live : Bool
  accepted : List (UInt32 × DeclaredForm)

/-- Before the first frame. -/
def WorkHistory.start : WorkHistory where
  announced := none
  cleanTip := none
  prefixSet := false
  awaiting := false
  live := false
  accepted := []

/-- A frame comes in.  A Success accepts what is pending. -/
def WorkHistory.received (h : WorkHistory) (sp : Sv2Proxy) : Sv2Proxy.Event → WorkHistory
  | .setNewPrevHash p _ _ =>
    { h with
      announced := some p.prevHash
      awaiting := h.awaiting || h.announced != some p.prevHash
      live := h.live && h.announced == some p.prevHash }
  | .setExtranoncePrefix _ => { h with prefixSet := true, live := false }
  | .customSuccess requestId jobId =>
    match sp.customStage with
    | some ⟨pending, { custom := some declared, .. }⟩ =>
      if requestId = pending then { h with accepted := (jobId, declared) :: h.accepted } else h
    | _ => h
  | _ => h

/-- A notify goes down. -/
def WorkHistory.notified (h : WorkHistory) (ni : NotifyInstance) : WorkHistory :=
  { h with
    cleanTip := if ni.clean then some ni.prevhash else h.cleanTip
    prefixSet := false
    awaiting := false
    live := ni.custom.isSome && h.announced.map prevhashText == some ni.prevhash }

/-- **Which notify may go down**: one for the tip last announced, clean exactly when this is not the
tip of the last clean one or the prefix was set since, declared work only if the pool has
accepted it, no pool work while declared work is live, and pool work first on another tip. -/
structure Lawful (h : WorkHistory) (ni : NotifyInstance) : Prop where
  tip : h.announced.map prevhashText = some ni.prevhash
  clean : ni.clean = true ↔ h.cleanTip ≠ some ni.prevhash ∨ h.prefixSet = true
  accepted : ∀ custom ∈ ni.custom, (ni.jobid, custom.declared) ∈ h.accepted
  live : h.live = true → ni.custom.isSome = true
  awaiting : h.awaiting = true → ni.custom = none

instance (h : WorkHistory) (ni : NotifyInstance) : Decidable (Lawful h ni) :=
  decidable_of_iff
    (h.announced.map prevhashText = some ni.prevhash ∧
      (ni.clean = true ↔ h.cleanTip ≠ some ni.prevhash ∨ h.prefixSet = true) ∧
      (∀ custom ∈ ni.custom, (ni.jobid, custom.declared) ∈ h.accepted) ∧
      (h.live = true → ni.custom.isSome = true) ∧ (h.awaiting = true → ni.custom = none))
    ⟨fun ⟨ht, hc, ha, hl, hw⟩ => ⟨ht, hc, ha, hl, hw⟩, fun ⟨ht, hc, ha, hl, hw⟩ => ⟨ht, hc, ha, hl, hw⟩⟩

/-! ### Runs -/

/-- The notifies that `sp'` has more than `sp`. -/
def sentNotifies (sp sp' : Sv2Proxy) : List NotifyInstance :=
  sp'.notifies.take (sp'.notifies.length - sp.notifies.length)

/-- A proxy and its history. -/
structure WorkRun where
  sp : Sv2Proxy
  history : WorkHistory

namespace WorkRun

/-- The notifies of an event, the last one first. -/
def sent (r : WorkRun) (e : Sv2Proxy.Event) : List NotifyInstance := sentNotifies r.sp (r.sp.step e)

/-- An event, and what is seen of it. -/
def step (r : WorkRun) (e : Sv2Proxy.Event) : WorkRun where
  sp := r.sp.step e
  history := (r.sent e).foldr (fun ni h => h.notified ni) (r.history.received r.sp e)

/-- An event sends nothing that it may not, and another tip brings work for it at once. -/
def Lawful (r : WorkRun) (e : Sv2Proxy.Event) : Prop :=
  (∀ ni ∈ r.sent e, CashStratum.Lawful (r.history.received r.sp e) ni) ∧
    ((r.history.received r.sp e).awaiting = true → r.sent e ≠ [])

instance (r : WorkRun) (e : Sv2Proxy.Event) : Decidable (r.Lawful e) :=
  inferInstanceAs (Decidable (_ ∧ _))

end WorkRun

/-- **The three events that part the proxy from its history** do not happen: a tip names a job
of the pool in the ring (or repeats the tip of the declared work), a Success is for the tip that
the pool has announced, and a new prefix finds a job of the pool that is not a future one. -/
def Sv2Proxy.Orderly (sp : Sv2Proxy) : Sv2Proxy.Event → Prop
  | .setNewPrevHash p _ _ =>
    ∃ job ∈ (sp.findJob p.jobId).bind sp.jobs,
      job.custom = none ∨ sp.customPrev = some p.prevHash
  | .customSuccess requestId _ =>
    ∀ stage ∈ sp.customStage, requestId = stage.requestId →
      sp.tip.map AnnouncedTip.prevHash = some stage.job.prevHash
  | .setExtranoncePrefix _ =>
    sp.tip.isSome = true →
      ∃ slot : ProxySlot, ∃ job ∈ sp.jobs slot, job.custom = none ∧ job.future = false
  | _ => True

instance (sp : Sv2Proxy) (e : Sv2Proxy.Event) : Decidable (sp.Orderly e) :=
  match e with
  | .setNewPrevHash .. => inferInstanceAs (Decidable (∃ job ∈ _, _))
  | .customSuccess .. => inferInstanceAs (Decidable (∀ stage ∈ _, _))
  | .setExtranoncePrefix _ => inferInstanceAs (Decidable (_ → _))
  | .newExtendedMiningJob _ | .customError _ | .reconnect | .setCustomJob .. |
    .customSendFailed _ | .bridgeTimeout | .customTimeout | .otherNotify =>
    inferInstanceAs (Decidable True)

/-! ### The record of the proxy -/

/-- A job that can be sent: its branch fits, and the pool has accepted it if it is declared. -/
def Sendable (h : WorkHistory) (job : Sv2ProxyJob) : Prop :=
  job.merklePath.length ≤ genworkMaxMerkleDepth ∧
    ∀ declared ∈ job.custom, (job.jobId, declared) ∈ h.accepted

/-- The fields of the proxy say what was seen. -/
structure WorkInv (sp : Sv2Proxy) (h : WorkHistory) : Prop where
  announced : h.announced = sp.tip.map AnnouncedTip.prevHash
  flushed : sp.flushedPrev = sp.tip.map AnnouncedTip.prevHash
  cleanTip : h.cleanTip = sp.flushedPrev.map prevhashText
  prefixSet : h.prefixSet = true → sp.tip = none
  awaiting : h.awaiting = false
  live : h.live = true → sp.customLive = true
  customPrev : ∀ prev ∈ sp.customPrev, sp.tip.map AnnouncedTip.prevHash = some prev
  ring : sp.JobsAll (Sendable h)
  stage : ∀ stage ∈ sp.customStage,
    stage.job.custom.isSome = true ∧ stage.job.merklePath.length ≤ genworkMaxMerkleDepth

namespace WorkInv

variable {sp sp' : Sv2Proxy} {h h' : WorkHistory} {e : Sv2Proxy.Event}

/-- An event without a notify. -/
theorem quiet (hnotifies : (sp.step e).notifies = sp.notifies)
    (hinv : WorkInv (sp.step e) (h.received sp e)) :
    (WorkRun.mk sp h).Lawful e ∧
      WorkInv ((WorkRun.mk sp h).step e).sp ((WorkRun.mk sp h).step e).history := by
  have hsent : (WorkRun.mk sp h).sent e = [] := by
    rw [WorkRun.sent, sentNotifies, hnotifies, Nat.sub_self, List.take_zero]
  refine ⟨⟨?_, ?_⟩, ?_⟩
  · intro ni hni
    rw [hsent] at hni
    cases hni
  · intro hawaiting
    rw [hinv.awaiting] at hawaiting
    cases hawaiting
  · simp only [WorkRun.step, hsent, List.foldr_nil]
    exact hinv

/-- An event with one notify. -/
theorem loud {ni : NotifyInstance} (hnotifies : (sp.step e).notifies = ni :: sp.notifies)
    (hlawful : Lawful (h.received sp e) ni)
    (hinv : WorkInv (sp.step e) ((h.received sp e).notified ni)) :
    (WorkRun.mk sp h).Lawful e ∧
      WorkInv ((WorkRun.mk sp h).step e).sp ((WorkRun.mk sp h).step e).history := by
  have hsent : (WorkRun.mk sp h).sent e = [ni] := by
    have hone : (ni :: sp.notifies).length - sp.notifies.length = 1 := by
      rw [List.length_cons]
      omega
    rw [WorkRun.sent, sentNotifies, hnotifies, hone]
    rfl
  refine ⟨⟨?_, ?_⟩, ?_⟩
  · intro ni' hni'
    rw [hsent, List.mem_singleton] at hni'
    exact hni' ▸ hlawful
  · intro _
    rw [hsent]
    exact List.cons_ne_nil _ _
  · simp only [WorkRun.step, hsent, List.foldr_cons, List.foldr_nil]
    exact hinv

/-- Where nothing changes that the record is about. -/
theorem of_frame (hinv : WorkInv sp h) (htip : sp'.tip = sp.tip)
    (hflushed : sp'.flushedPrev = sp.flushedPrev) (hprev : sp'.customPrev = sp.customPrev)
    (hlive : sp.customLive = true → sp'.customLive = true) (hjobs : sp'.jobs = sp.jobs)
    (hstage : ∀ stage ∈ sp'.customStage, stage.job.custom.isSome = true ∧
      stage.job.merklePath.length ≤ genworkMaxMerkleDepth) : WorkInv sp' h where
  announced := by
    rw [htip]
    exact hinv.announced
  flushed := by
    rw [htip, hflushed]
    exact hinv.flushed
  cleanTip := by
    rw [hflushed]
    exact hinv.cleanTip
  prefixSet := by
    rw [htip]
    exact hinv.prefixSet
  awaiting := hinv.awaiting
  live hl := hlive (hinv.live hl)
  customPrev := by
    rw [htip, hprev]
    exact hinv.customPrev
  ring := by
    intro slot job hslot
    rw [hjobs] at hslot
    exact hinv.ring slot job hslot
  stage := hstage

end WorkInv

/-- What has to hold before a job goes down: `h` has seen the frame already, and `tip` is in the
proxy. -/
structure SendReady (sp : Sv2Proxy) (h : WorkHistory) (job : Sv2ProxyJob) (tip : AnnouncedTip)
    (clean : Bool) : Prop where
  current : sp.tip = some tip
  announced : h.announced = some tip.prevHash
  prev : job.prevHash = tip.prevHash
  cleanTip : h.cleanTip = sp.flushedPrev.map prevhashText
  clean : clean = true ↔ sp.flushedPrev ≠ some tip.prevHash ∨ h.prefixSet = true
  sendable : Sendable h job
  live : h.live = true → job.custom.isSome = true
  awaiting : h.awaiting = true → job.custom = none
  customPrev : ∀ prev ∈ sp.customPrev, prev = tip.prevHash
  ring : sp.JobsAll (Sendable h)
  stage : ∀ stage ∈ sp.customStage,
    stage.job.custom.isSome = true ∧ stage.job.merklePath.length ≤ genworkMaxMerkleDepth

namespace SendReady

variable {sp : Sv2Proxy} {h : WorkHistory} {job : Sv2ProxyJob} {tip : AnnouncedTip} {clean : Bool}

/-- The notify is lawful. -/
theorem lawful (hready : SendReady sp h job tip clean) :
    Lawful h (sp.notifyInstance job clean) where
  tip := by
    rw [hready.announced, Option.map_some, ← hready.prev]
    rfl
  clean := by
    have htext : h.cleanTip = some (sp.notifyInstance job clean).prevhash ↔
        sp.flushedPrev = some tip.prevHash := by
      rw [hready.cleanTip, ← hready.prev]
      constructor
      · intro heq
        obtain ⟨prev, hprev, htext⟩ := Option.map_eq_some_iff.mp heq
        rw [hprev, prevhashText_injective htext]
      · intro heq
        rw [heq]
        rfl
    rw [ne_eq, htext]
    exact hready.clean
  accepted := by
    intro custom hcustom
    obtain ⟨declared, hdeclared, rfl⟩ := Option.map_eq_some_iff.mp hcustom
    exact hready.sendable.2 declared hdeclared
  live := by
    intro hlive
    show (job.custom.map _).isSome = true
    rw [Option.isSome_map]
    exact hready.live hlive
  awaiting := by
    intro hawaiting
    show job.custom.map _ = none
    rw [hready.awaiting hawaiting]
    rfl

/-- After the notify the record is right again; declared work is live if it was that. -/
theorem inv (hready : SendReady sp h job tip clean) (slot : ProxySlot) (src : Sv2WorkSrc)
    (hcustom : job.custom.isSome = true → src = .localJd ∧ sp.customPrev = some tip.prevHash) :
    WorkInv { sp.notify slot job clean with workSrc := src }
      (h.notified (sp.notifyInstance job clean)) := by
  have hflushed : (if clean then some job.prevHash else sp.flushedPrev) = some tip.prevHash := by
    by_cases hclean : clean = true
    · rw [if_pos hclean, hready.prev]
    · rw [if_neg hclean]
      by_contra hne
      exact hclean (hready.clean.mpr (Or.inl hne))
  have htip : (some tip).map AnnouncedTip.prevHash = some tip.prevHash := rfl
  refine ⟨?_, ?_, ?_, ?_, rfl, ?_, ?_, ?_, hready.stage⟩
  · show h.announced = sp.tip.map _
    rw [hready.announced, hready.current, htip]
  · show (if clean then some job.prevHash else sp.flushedPrev) = sp.tip.map _
    rw [hflushed, hready.current, htip]
  · show (if clean then some (prevhashText job.prevHash) else h.cleanTip) =
      (if clean then some job.prevHash else sp.flushedPrev).map prevhashText
    split
    · rfl
    · exact hready.cleanTip
  · intro hfalse
    cases hfalse
  · intro hlive
    have hlive' : ((job.custom.map (fun declared =>
        { declared, enPrefix := sp.extranoncePrefix : Sv2Custom })).isSome &&
          h.announced.map prevhashText == some (prevhashText job.prevHash)) = true := hlive
    rw [Option.isSome_map, Bool.and_eq_true] at hlive'
    obtain ⟨hsrc, hprev⟩ := hcustom hlive'.1
    show (src == .localJd && sp.tip.any fun tip => sp.customPrev == some tip.prevHash) = true
    rw [hready.current, hsrc, hprev]
    simp
  · intro prev hprev
    show sp.tip.map _ = some prev
    rw [hready.current, hready.customPrev prev hprev, htip]
  · intro i job' hi
    exact hready.ring.update hready.sendable hi

end SendReady

/-! ### The events -/

variable {job : Sv2ProxyJob} {slot : ProxySlot}

section Events

variable {sp : Sv2Proxy} {h : WorkHistory}

theorem sendJob_eq_notify {job₀ job : Sv2ProxyJob}
    (hslot : sp.jobs slot = some job₀) (hjob : sp.jobOnTip job₀ = some job)
    (hlen : job.merklePath.length ≤ genworkMaxMerkleDepth) (clean : Bool) :
    sp.sendJob slot clean = sp.notify slot job clean := by
  simp only [Sv2Proxy.sendJob, hslot, Option.bind_some, hjob, if_neg (not_lt.mpr hlen)]

theorem Sv2Proxy.jobOnTip_pool {job : Sv2ProxyJob} (hcustom : job.custom = none)
    {tip : AnnouncedTip} (htip : sp.tip = some tip) :
    sp.jobOnTip job = some { job with prevHash := tip.prevHash, nbits := tip.nbits } := by
  rw [Sv2Proxy.jobOnTip, hcustom, htip]
  rfl

theorem WorkInv.jobSlot (hinv : WorkInv sp h) (hjob : Sendable h job) :
    WorkInv (sp.jobSlot job) h :=
  { hinv with
    live := hinv.live
    customPrev := hinv.customPrev
    ring := hinv.ring.jobSlot hjob }

/-- A job of the pool goes down: what is left to show is what the frame has made of tip and
flush. -/
theorem SendReady.ofPool {job : Sv2ProxyJob} {tip : AnnouncedTip} {clean : Bool}
    (hcustom : job.custom = none) (hsendable : Sendable h job) (htip : sp.tip = some tip)
    (hannounced : h.announced = some tip.prevHash)
    (hcleanTip : h.cleanTip = sp.flushedPrev.map prevhashText)
    (hclean : clean = true ↔ sp.flushedPrev ≠ some tip.prevHash ∨ h.prefixSet = true)
    (hlive : h.live = false) (hprev : ∀ prev ∈ sp.customPrev, prev = tip.prevHash)
    (hring : sp.JobsAll (Sendable h))
    (hstage : ∀ stage ∈ sp.customStage, stage.job.custom.isSome = true ∧
      stage.job.merklePath.length ≤ genworkMaxMerkleDepth) :
    SendReady sp h { job with prevHash := tip.prevHash, nbits := tip.nbits } tip clean where
  current := htip
  announced := hannounced
  prev := rfl
  cleanTip := hcleanTip
  clean := hclean
  sendable := hsendable
  live := by
    intro hl
    rw [hlive] at hl
    cases hl
  awaiting _ := hcustom
  customPrev := hprev
  ring := hring
  stage := hstage

/-- The record after a job of the pool. -/
theorem SendReady.inv_pool {tip : AnnouncedTip} {clean : Bool}
    (hready : SendReady sp h job tip clean) (hcustom : job.custom = none) (slot : ProxySlot) :
    WorkInv (sp.notify slot job clean) (h.notified (sp.notifyInstance job clean)) := by
  refine hready.inv slot sp.workSrc ?_
  intro hsome
  rw [hcustom] at hsome
  cases hsome

theorem WorkInv.newExtendedMiningJob (hinv : WorkInv sp h) (j : Sv2.NewExtendedMiningJob) :
    (WorkRun.mk sp h).Lawful (.newExtendedMiningJob j) ∧
      WorkInv ((WorkRun.mk sp h).step (.newExtendedMiningJob j)).sp
        ((WorkRun.mk sp h).step (.newExtendedMiningJob j)).history := by
  by_cases hlen : j.merklePath.length > genworkMaxMerkleDepth
  · have hstep : sp.step (.newExtendedMiningJob j) = sp := if_pos hlen
    refine WorkInv.quiet ?_ ?_
    · rw [hstep]
    · rw [hstep]
      exact hinv
  have hsendable : Sendable h (sp.poolJob j) :=
    ⟨not_lt.mp hlen, fun _ hnone => by cases hnone⟩
  have hstored := hinv.jobSlot hsendable
  have hstep : sp.step (.newExtendedMiningJob j) =
      if (sp.poolJob j).future then sp.jobSlot (sp.poolJob j)
      else if (sp.jobSlot (sp.poolJob j)).customLive then sp.jobSlot (sp.poolJob j)
      else (sp.jobSlot (sp.poolJob j)).sendJob sp.jobHead false := if_neg hlen
  by_cases hfuture : (sp.poolJob j).future = true
  · rw [if_pos hfuture] at hstep
    refine WorkInv.quiet ?_ ?_
    · rw [hstep]
      rfl
    · rw [hstep]
      exact hstored
  rw [if_neg hfuture] at hstep
  by_cases hlive : (sp.jobSlot (sp.poolJob j)).customLive = true
  · rw [if_pos hlive] at hstep
    refine WorkInv.quiet ?_ ?_
    · rw [hstep]
      rfl
    · rw [hstep]
      exact hstored
  rw [if_neg hlive] at hstep
  rcases htip : sp.tip with - | tip
  · -- without a tip a job waits
    have hsend : (sp.jobSlot (sp.poolJob j)).sendJob sp.jobHead false =
        sp.jobSlot (sp.poolJob j) := by
      have hnone : (sp.jobSlot (sp.poolJob j)).jobOnTip (sp.poolJob j) = none := by
        show (if _ then _ else sp.tip.map _) = none
        rw [htip]
        rfl
      simp only [Sv2Proxy.sendJob, Sv2Proxy.jobSlot_at_head, Option.bind_some, hnone]
    rw [hsend] at hstep
    refine WorkInv.quiet ?_ ?_
    · rw [hstep]
      rfl
    · rw [hstep]
      exact hstored
  · have hready := @SendReady.ofPool (sp.jobSlot (sp.poolJob j)) _ _ _ false rfl hsendable
      htip (by rw [hinv.announced, htip]; rfl) hinv.cleanTip ?_ ?_ ?_ hstored.ring hinv.stage
    · have hsend := sendJob_eq_notify (sp.jobSlot_at_head _)
        (@Sv2Proxy.jobOnTip_pool (sp.jobSlot (sp.poolJob j)) _ rfl _ htip) hsendable.1 false
      rw [hsend] at hstep
      refine WorkInv.loud ?_ hready.lawful ?_
      · rw [hstep]
        rfl
      · rw [hstep]
        exact hready.inv_pool rfl _
    · -- the tip was flushed, and the prefix not set since
      have hset : h.prefixSet ≠ true := by
        intro hset
        rw [hinv.prefixSet hset] at htip
        cases htip
      have hflushed : sp.flushedPrev = some tip.prevHash := by
        rw [hinv.flushed, htip]
        rfl
      constructor
      · intro hfalse
        cases hfalse
      · rintro (hne | hset')
        · exact absurd hflushed hne
        · exact absurd hset' hset
    · by_contra hl
      exact hlive (hinv.live (Bool.eq_true_of_not_eq_false hl))
    · intro prev hprev
      have h1 := hinv.customPrev prev hprev
      rw [htip] at h1
      exact (Option.some.inj h1).symm

/-- The same tip again, while declared work is live for it. -/
theorem WorkInv.repeatTip (hinv : WorkInv sp h) {p : Sv2.SetNewPrevHash} {rel : Sv2TipRel}
    { implausible : Bool} (hprev : sp.customPrev = some p.prevHash) :
    WorkInv { sp with tip := some ⟨p.prevHash, p.minNtime, p.nbits⟩ }
      (h.received sp (.setNewPrevHash p rel implausible)) := by
  have htip : sp.tip.map AnnouncedTip.prevHash = some p.prevHash := hinv.customPrev _ hprev
  have hannounced : h.announced = some p.prevHash := hinv.announced.trans htip
  refine ⟨rfl, hinv.flushed.trans htip, hinv.cleanTip, ?_, ?_, ?_, ?_, hinv.ring, hinv.stage⟩
  · intro hset
    rw [hinv.prefixSet hset] at htip
    cases htip
  · show (h.awaiting || h.announced != some p.prevHash) = false
    rw [hinv.awaiting, hannounced]
    simp
  · intro hlive
    have hold : h.live = true := (Bool.and_eq_true_iff.mp hlive).1
    have hsrc := (Bool.and_eq_true_iff.mp (hinv.live hold)).1
    show (sp.workSrc == .localJd && (some (AnnouncedTip.mk p.prevHash p.minNtime p.nbits)).any
      fun tip => sp.customPrev == some tip.prevHash) = true
    rw [hsrc, hprev]
    simp
  · intro prev hp
    rw [hprev] at hp
    exact hp

theorem WorkInv.setNewPrevHash (hinv : WorkInv sp h) {p : Sv2.SetNewPrevHash} {rel : Sv2TipRel}
    { implausible : Bool} (horderly : sp.Orderly (.setNewPrevHash p rel implausible)) :
    (WorkRun.mk sp h).Lawful (.setNewPrevHash p rel implausible) ∧
      WorkInv ((WorkRun.mk sp h).step (.setNewPrevHash p rel implausible)).sp
        ((WorkRun.mk sp h).step (.setNewPrevHash p rel implausible)).history := by
  obtain ⟨job, hjob, hkind⟩ := horderly
  obtain ⟨slot, hfind, hslot⟩ := Option.bind_eq_some_iff.mp hjob
  by_cases hcustom : sp.customPrev = some p.prevHash
  · have hstep : sp.step (.setNewPrevHash p rel implausible) =
        { sp with tip := some ⟨p.prevHash, p.minNtime, p.nbits⟩ } := by
      simp only [Sv2Proxy.step, Sv2Proxy.setNewPrevHash, hfind, hcustom, beq_self_eq_true, if_true]
    refine WorkInv.quiet ?_ ?_
    · rw [hstep]
    · rw [hstep]
      exact hinv.repeatTip hcustom
  -- another tip, or one without declared work: the job is one of the pool
  obtain hpool | hpool := hkind
  swap
  · exact absurd hpool hcustom
  have hbeq : (sp.customPrev == some p.prevHash) = false := by
    rw [beq_eq_false_iff_ne]
    exact hcustom
  set sp₁ : Sv2Proxy :=
    { sp with
      tip := some ⟨p.prevHash, p.minNtime, p.nbits⟩
      customPrev := none
      workSrc := Sv2Proxy.workSrcOf rel implausible } with hsp₁
  have hstep : sp.step (.setNewPrevHash p rel implausible) =
      sp₁.sendJob slot (sp₁.wantClean p.prevHash) := by
    simp only [Sv2Proxy.step, Sv2Proxy.setNewPrevHash, hfind, hbeq, hsp₁, Bool.false_eq_true,
      if_false]
  have hslot₁ : sp₁.jobs slot = some job := hslot
  have hready : SendReady sp₁ (h.received sp (.setNewPrevHash p rel implausible)) _ _
      (sp₁.wantClean p.prevHash) := SendReady.ofPool
    hpool (hinv.ring slot job hslot) rfl rfl hinv.cleanTip ?_ ?_ (fun _ hnone => by cases hnone)
    hinv.ring hinv.stage
  · have hsend := sendJob_eq_notify hslot₁ (Sv2Proxy.jobOnTip_pool hpool rfl)
      (hinv.ring slot job hslot).1 (sp₁.wantClean p.prevHash)
    rw [hsend] at hstep
    refine WorkInv.loud ?_ hready.lawful ?_
    · rw [hstep]
      rfl
    · rw [hstep]
      exact hready.inv_pool hpool slot
  · have hwant : sp₁.wantClean p.prevHash = true ↔ sp.flushedPrev ≠ some p.prevHash :=
      bne_iff_ne
    rw [hwant]
    constructor
    · exact Or.inl
    · rintro (hne | hset)
      · exact hne
      · -- a prefix that was not flushed came before the first tip
        have hset' : h.prefixSet = true := hset
        rw [hinv.flushed, hinv.prefixSet hset']
        simp
  · by_contra hlive
    obtain ⟨hold, hsame⟩ := Bool.and_eq_true_iff.mp (Bool.eq_true_of_not_eq_false hlive)
    obtain ⟨-, hany⟩ := Bool.and_eq_true_iff.mp (hinv.live hold)
    rw [beq_iff_eq, hinv.announced] at hsame
    obtain ⟨tip, htip, hprev⟩ := Option.map_eq_some_iff.mp hsame
    rw [htip, Option.any_some, beq_iff_eq, hprev] at hany
    exact hcustom hany

theorem WorkInv.customSuccess (hinv : WorkInv sp h) {requestId jobId : UInt32}
    (horderly : sp.Orderly (.customSuccess requestId jobId)) :
    (WorkRun.mk sp h).Lawful (.customSuccess requestId jobId) ∧
      WorkInv ((WorkRun.mk sp h).step (.customSuccess requestId jobId)).sp
        ((WorkRun.mk sp h).step (.customSuccess requestId jobId)).history := by
  rcases hstage : sp.customStage with - | stage
  · -- nothing is staged
    have hstep : sp.step (.customSuccess requestId jobId) = sp := by
      simp only [Sv2Proxy.step, Sv2Proxy.customSuccess, hstage]
    have hreceived : h.received sp (.customSuccess requestId jobId) = h := by
      simp only [WorkHistory.received, hstage]
    refine WorkInv.quiet ?_ ?_
    · rw [hstep]
    · rw [hstep, hreceived]
      exact hinv
  obtain ⟨hsome, hlen⟩ := hinv.stage stage hstage
  obtain ⟨declared, hdeclared⟩ := Option.isSome_iff_exists.mp hsome
  have hreceived : h.received sp (.customSuccess requestId jobId) =
      if requestId = stage.requestId then
        { h with accepted := (jobId, declared) :: h.accepted } else h := by
    obtain ⟨pending, job⟩ := stage
    obtain ⟨future, id, version, minNtime, path, coinb1, len, coinb2, prev, nbits, custom⟩ := job
    obtain rfl : custom = some declared := hdeclared
    simp only [WorkHistory.received, hstage]
  by_cases hours : requestId = stage.requestId
  swap
  · -- the answer is to another job
    have hstep : sp.step (.customSuccess requestId jobId) = sp := by
      simp only [Sv2Proxy.step, Sv2Proxy.customSuccess, hstage, if_pos (ne_eq .. ▸ hours)]
    rw [if_neg hours] at hreceived
    refine WorkInv.quiet ?_ ?_
    · rw [hstep]
    · rw [hstep, hreceived]
      exact hinv
  rw [if_pos hours] at hreceived
  have htip := horderly stage hstage hours
  obtain ⟨tip, htip, hprev⟩ := Option.map_eq_some_iff.mp htip
  set job : Sv2ProxyJob := { stage.job with jobId := jobId } with hjob
  set sp₁ : Sv2Proxy := ({ sp with customStage := none, customPrev := some stage.job.prevHash } :
    Sv2Proxy).jobSlot job with hsp₁
  have hstep : sp.step (.customSuccess requestId jobId) =
      { sp₁.sendJob sp.jobHead (sp.wantClean stage.job.prevHash) with workSrc := .localJd } := by
    simp only [Sv2Proxy.step, Sv2Proxy.customSuccess, hstage, hours, ne_eq, not_true, if_false,
      hsp₁, hjob]
  -- what was sendable stays so, and so is the job that was staged
  have hmono : ∀ job, Sendable h job →
      Sendable { h with accepted := (jobId, declared) :: h.accepted } job :=
    fun _ hs => ⟨hs.1, fun d hd => List.mem_cons_of_mem _ (hs.2 d hd)⟩
  have hsendable : Sendable { h with accepted := (jobId, declared) :: h.accepted } job := by
    refine ⟨hlen, ?_⟩
    intro d hd
    have hd' : stage.job.custom = some d := hd
    obtain rfl : declared = d := Option.some.inj (hdeclared.symm.trans hd')
    exact List.mem_cons_self
  have hflushed : sp.flushedPrev = some tip.prevHash := by
    rw [hinv.flushed, htip]
    rfl
  have hset : h.prefixSet ≠ true := by
    intro hset
    rw [hinv.prefixSet hset] at htip
    cases htip
  -- it is for the tip of the channel
  have hready : SendReady sp₁ { h with accepted := (jobId, declared) :: h.accepted } job tip
      (sp.wantClean stage.job.prevHash) := by
    refine ⟨htip, ?_, hprev.symm, hinv.cleanTip, ?_, hsendable, fun _ => hsome, ?_, ?_, ?_, ?_⟩
    · show h.announced = some tip.prevHash
      rw [hinv.announced, htip]
      rfl
    · have hwant : sp.wantClean stage.job.prevHash = true ↔
          sp.flushedPrev ≠ some stage.job.prevHash := bne_iff_ne
      rw [hwant, ← hprev]
      constructor
      · exact Or.inl
      · rintro (hne | hset')
        · exact hne
        · exact absurd hset' hset
    · intro hawaiting
      have hnot : h.awaiting = true := hawaiting
      rw [hinv.awaiting] at hnot
      cases hnot
    · intro prev hp
      rw [← Option.some.inj hp, hprev]
    · apply Sv2Proxy.JobsAll.jobSlot ?_ hsendable
      intro slot job' hslot
      exact hmono job' (hinv.ring slot job' hslot)
    · intro _ hnone
      cases hnone
  -- so its notify goes out as it is
  have honTip : sp₁.jobOnTip job = some job := if_pos hsome
  have hsend := sendJob_eq_notify (Sv2Proxy.jobSlot_at_head _ job) honTip hlen
    (sp.wantClean stage.job.prevHash)
  have hsend' : sp₁.sendJob sp.jobHead (sp.wantClean stage.job.prevHash) =
      sp₁.notify sp.jobHead job (sp.wantClean stage.job.prevHash) := hsend
  rw [hsend'] at hstep
  refine WorkInv.loud ?_ (hreceived ▸ hready.lawful) ?_
  · rw [hstep]
    rfl
  · rw [hstep, hreceived]
    refine hready.inv sp.jobHead .localJd ?_
    intro _
    exact ⟨rfl, congrArg some hprev.symm⟩

/-- The search for a minable job goes over the whole ring. -/
theorem newestMinable_of_mem (hslot : sp.jobs slot = some job)
    (hfuture : job.future = false) : ∃ i, sp.newestMinable = some i := by
  have hback : ∀ head slot : ProxySlot, head - 1 - (head - 1 - slot) = slot := by decide
  rw [← Option.isSome_iff_exists, Sv2Proxy.newestMinable, List.find?_isSome]
  refine ⟨slot, ?_, by simp [hslot, hfuture]⟩
  exact List.mem_map.mpr ⟨sp.jobHead - 1 - slot, List.mem_finRange _, hback sp.jobHead slot⟩

/-- A job of the pool is still in the ring under a new prefix, and declared ones are not. -/
theorem withPrefix_pool (hslot : sp.jobs slot = some job)
    (hcustom : job.custom = none) (extranoncePrefix : Bytes) :
    ∃ job', (sp.withPrefix extranoncePrefix).jobs slot = some job' ∧ job'.future = job.future := by
  refine ⟨({ sp with extranoncePrefix := extranoncePrefix } : Sv2Proxy).rebuildJob job, ?_, ?_⟩
  · show Sv2Proxy.rebuildJobs _ slot = _
    simp only [Sv2Proxy.rebuildJobs, hslot, hcustom, Option.isSome_none, Bool.false_eq_true, if_false]
  · rw [Sv2Proxy.rebuildJob]
    split <;> rfl

theorem withPrefix_eq_some {job' : Sv2ProxyJob} {extranoncePrefix : Bytes}
    (h : (sp.withPrefix extranoncePrefix).jobs slot = some job') :
    ∃ job, sp.jobs slot = some job ∧ job.custom = none ∧ job'.custom = none ∧
      job'.merklePath = job.merklePath := by
  have hslot : Sv2Proxy.rebuildJobs _ slot = some job' := h
  simp only [Sv2Proxy.rebuildJobs] at hslot
  rcases hjob : sp.jobs slot with - | job
  · simp [hjob] at hslot
  · rw [hjob] at hslot
    by_cases hcustom : job.custom.isSome = true
    · simp [hcustom] at hslot
    · have hnone := Option.not_isSome_iff_eq_none.mp hcustom
      simp only [hnone, Option.isSome_none, Bool.false_eq_true, if_false, Option.some.injEq]
        at hslot
      refine ⟨job, rfl, hnone, ?_, ?_⟩
      · rw [← hslot, Sv2Proxy.rebuildJob]
        split <;> exact hnone
      · rw [← hslot, Sv2Proxy.rebuildJob]
        split <;> rfl

/-- Declared work is given up. -/
theorem WorkInv.dropCustom (hinv : WorkInv sp h) (hlive : h.live = false)
    (customPrev : Option Hash256) (hprev : ∀ prev ∈ customPrev, prev ∈ sp.customPrev)
    (src : Sv2WorkSrc) :
    WorkInv { sp with customStage := none, customPrev := customPrev, workSrc := src } h :=
  { hinv with
    live := by
      intro hl
      rw [hlive] at hl
      cases hl
    customPrev := fun prev hp => hinv.customPrev prev (hprev prev hp)
    stage := fun _ hnone => by cases hnone }

theorem WorkInv.setExtranoncePrefix (hinv : WorkInv sp h) {extranoncePrefix : Bytes}
    (horderly : sp.Orderly (.setExtranoncePrefix extranoncePrefix)) :
    (WorkRun.mk sp h).Lawful (.setExtranoncePrefix extranoncePrefix) ∧
      WorkInv ((WorkRun.mk sp h).step (.setExtranoncePrefix extranoncePrefix)).sp
        ((WorkRun.mk sp h).step (.setExtranoncePrefix extranoncePrefix)).history := by
  set sp₁ := sp.withPrefix extranoncePrefix with hsp₁
  have hreceived : h.received sp (.setExtranoncePrefix extranoncePrefix) =
      { h with prefixSet := true, live := false } := rfl
  have hring : sp₁.JobsAll (Sendable { h with prefixSet := true, live := false }) := by
    intro slot job' hslot
    obtain ⟨job, hjob, -, hnone, hpath⟩ := withPrefix_eq_some hslot
    refine ⟨?_, ?_⟩
    · rw [hpath]
      exact (hinv.ring slot job hjob).1
    · intro declared hdeclared
      rw [hnone] at hdeclared
      cases hdeclared
  -- the end of the event gives up declared work, if there was any
  have hend : ∃ customPrev src, (∀ prev ∈ customPrev, prev ∈ sp₁.flushPrefix.customPrev) ∧
      sp.step (.setExtranoncePrefix extranoncePrefix) =
        { sp₁.flushPrefix with
          customStage := none
          customPrev := customPrev
          workSrc := src } := by
    by_cases hcustom : sp.hadCustom = true
    · exact ⟨none, .pool, (fun _ hnone => by cases hnone), if_pos hcustom⟩
    · exact ⟨sp₁.flushPrefix.customPrev, sp₁.flushPrefix.workSrc, (fun _ hp => hp), if_neg hcustom⟩
  obtain ⟨customPrev, src, hprev, hstep⟩ := hend
  rcases htip : sp.tip with - | tip
  · -- before the first tip the prefix is set and nothing goes down
    have hflush : sp₁.flushPrefix = sp₁ := by
      rw [Sv2Proxy.flushPrefix, if_neg]
      show ¬ sp.tip.isSome = true
      rw [htip]
      exact Bool.false_ne_true
    rw [hflush] at hstep hprev
    have hinv₁ : WorkInv sp₁ { h with prefixSet := true, live := false } :=
      ⟨hinv.announced, hinv.flushed, hinv.cleanTip, (fun _ => htip), hinv.awaiting,
        (fun hl => by cases hl), hinv.customPrev, hring, hinv.stage⟩
    refine WorkInv.quiet ?_ ?_
    · rw [hstep]
      rfl
    · rw [hstep, hreceived]
      exact hinv₁.dropCustom rfl customPrev hprev src
  · obtain ⟨slot₀, job₀, hslot₀, hcustom₀, hfuture₀⟩ := horderly (by rw [htip]; rfl)
    obtain ⟨job₁, hslot₁, hfuture₁⟩ := withPrefix_pool hslot₀ hcustom₀ extranoncePrefix
    obtain ⟨i, hi⟩ := newestMinable_of_mem hslot₁ (hfuture₁.trans hfuture₀)
    have hflush : sp₁.flushPrefix = sp₁.sendJob i true := by
      have hsome : sp₁.tip.isSome = true := by
        show sp.tip.isSome = true
        rw [htip]
        rfl
      rw [Sv2Proxy.flushPrefix, if_pos hsome, hi]
    obtain ⟨job, hjob, -⟩ := Sv2Proxy.newestMinable_eq_some hi
    obtain ⟨-, -, -, hnone, -⟩ := withPrefix_eq_some hjob
    have hready : SendReady sp₁ { h with prefixSet := true, live := false } _ _ true :=
      SendReady.ofPool hnone (hring i job hjob) htip
      (by
        show h.announced = _
        rw [hinv.announced, htip]
        rfl)
      hinv.cleanTip ⟨fun _ => Or.inr rfl, fun _ => rfl⟩ rfl ?_ hring hinv.stage
    · have hsend := sendJob_eq_notify hjob (Sv2Proxy.jobOnTip_pool hnone htip) (hring i job hjob).1
        true
      rw [hflush, hsend] at hstep hprev
      refine WorkInv.loud ?_ hready.lawful ?_
      · rw [hstep]
        rfl
      · rw [hstep, hreceived]
        refine (hready.inv_pool hnone i).dropCustom ?_ customPrev hprev src
        show ((job.custom.map _).isSome && _) = false
        rw [hnone]
        rfl
    · intro prev hp
      have h1 := hinv.customPrev prev hp
      rw [htip] at h1
      exact (Option.some.inj h1).symm

/-- **Every orderly event is lawful**, and the record stays right. -/
theorem WorkInv.step (hinv : WorkInv sp h) (e : Sv2Proxy.Event) (horderly : sp.Orderly e) :
    (WorkRun.mk sp h).Lawful e ∧
      WorkInv ((WorkRun.mk sp h).step e).sp ((WorkRun.mk sp h).step e).history := by
  -- what gives up a declared job in flight
  have hcleared : WorkInv { sp with customStage := none } h :=
    hinv.of_frame rfl rfl rfl id rfl fun _ hnone => by cases hnone
  have hdrop : ∀ requestId, (sp.customDrop requestId).notifies = sp.notifies ∧
      WorkInv (sp.customDrop requestId) h := by
    intro requestId
    rw [Sv2Proxy.customDrop]
    split
    · exact ⟨rfl, hcleared⟩
    · exact ⟨rfl, hinv⟩
  cases e with
  | newExtendedMiningJob j => exact hinv.newExtendedMiningJob j
  | setNewPrevHash p rel implausible => exact hinv.setNewPrevHash horderly
  | customSuccess requestId jobId => exact hinv.customSuccess horderly
  | customError requestId => exact WorkInv.quiet (hdrop requestId).1 (hdrop requestId).2
  | setExtranoncePrefix extranoncePrefix => exact hinv.setExtranoncePrefix horderly
  | reconnect | otherNotify => exact WorkInv.quiet rfl (hinv.of_frame rfl rfl rfl id rfl hinv.stage)
  | setCustomJob cj current =>
    have hset : (sp.setCustomJob cj current).notifies = sp.notifies ∧
        WorkInv (sp.setCustomJob cj current) h := by
      rw [Sv2Proxy.setCustomJob]
      split_ifs with _ _ _ hlen
      · exact ⟨rfl, hinv⟩
      · exact ⟨rfl, hinv⟩
      · exact ⟨rfl, hinv⟩
      · refine ⟨rfl, hinv.of_frame rfl rfl rfl id rfl ?_⟩
        intro stage hstage
        obtain rfl := Option.some.inj hstage
        exact ⟨rfl, not_lt.mp hlen⟩
      · exact ⟨rfl, hinv⟩
    exact WorkInv.quiet hset.1 hset.2
  | customSendFailed requestId => exact WorkInv.quiet (hdrop requestId).1 (hdrop requestId).2
  | bridgeTimeout =>
    by_cases hbridge : sp.workSrc = .bridge
    · have hstep : sp.step .bridgeTimeout = { sp with workSrc := .pool } := if_pos hbridge
      refine WorkInv.quiet ?_ ?_
      · rw [hstep]
      · rw [hstep]
        refine hinv.of_frame rfl rfl rfl ?_ rfl hinv.stage
        intro hlive
        rw [Sv2Proxy.customLive, hbridge] at hlive
        cases hlive
    · have hstep : sp.step .bridgeTimeout = sp := if_neg hbridge
      refine WorkInv.quiet ?_ ?_
      · rw [hstep]
      · rw [hstep]
        exact hinv
  | customTimeout => exact WorkInv.quiet rfl hcleared

end Events

/-! ### Runs of a channel -/

/-- A channel as it was opened, and nothing seen of it. -/
def WorkRun.start (opened : Sv2ProxyOpened) : WorkRun where
  sp := opened.sp
  history := .start

theorem workInv_start {nonce2length proxyNotifyId : Nat} {ok : Sv2.OpenExtendedChannelSuccess}
    {opened : Sv2ProxyOpened} (hopen : sv2ProxyOpen nonce2length proxyNotifyId ok = some opened) :
    WorkInv opened.sp .start := by
  simp only [sv2ProxyOpen] at hopen
  split_ifs at hopen
  obtain rfl := Option.some.inj hopen
  refine ⟨rfl, rfl, rfl, ?_, rfl, ?_, ?_, ?_, ?_⟩
  · intro hfalse
    cases hfalse
  · intro hfalse
    cases hfalse
  · intro prev hnone
    cases hnone
  · intro slot job hnone
    cases hnone
  · intro stage hnone
    cases hnone

/-- **What goes down is lawful in every orderly run.**  From the opening of the channel on, as long
as each tip names a job of the pool that the ring holds (or repeats the tip of the declared work), a
Success for the pending declared job comes while its tip is the announced one, and a new prefix
finds a job to flush it with: every notify is for the tip last announced; it is clean exactly
when its tip is not that of the last clean notify or a prefix was set since the last notify; a
declared job goes down only when the pool has accepted the pending request for it; no job of the
pool replaces declared work for the tip that stands; and another tip brings work of the pool for
it, at once. -/
theorem orderly_work_is_lawful (nonce2length proxyNotifyId : Nat)
    (ok : Sv2.OpenExtendedChannelSuccess) (opened : Sv2ProxyOpened)
    (hopen : sv2ProxyOpen nonce2length proxyNotifyId ok = some opened)
    (events : List Sv2Proxy.Event)
    (horderly : Along WorkRun.step (fun r e => r.sp.Orderly e) (WorkRun.start opened) events) :
    Along WorkRun.step WorkRun.Lawful (WorkRun.start opened) events :=
  along_of_invariant (I := fun r : WorkRun => WorkInv r.sp r.history)
    (fun _ e he hinv => (hinv.step e he).2) (fun _ e he hinv => (hinv.step e he).1) horderly
    (workInv_start hopen)

/-- A declared job for the tip of the example, for a hole of two and six bytes. -/
def exampleCustomJob : Sv2JdcCustomJob where
  t :=
    { id := 5
      version := 0x20000000
      prevHash := .zero
      ntime := 1700000000
      nbits := 0x1d00ffff
      merklePath := [] }
  token := [1]
  outputs := [0]
  lcbPrefix := [1, 0, 0, 0]
  lcbSuffix := [0, 0, 0, 0]
  dcbPrefix := [1, 0, 0, 0]
  dcbSuffix := [0, 0, 0, 0]
  holeLen := 8

/-- The declared job is accepted in time, a job of the pool comes for the same tip, and then a new
prefix. -/
theorem orderly_work_is_lawful_example :
    Along WorkRun.step WorkRun.Lawful (WorkRun.start exampleUpstream)
      [.newExtendedMiningJob exampleUpstreamJob, .setNewPrevHash exampleUpstreamTip .same false,
        .setCustomJob exampleCustomJob true, .customSuccess 1 13,
        .newExtendedMiningJob { exampleUpstreamJob with jobId := 14, minNtimePresent := true },
        .setExtranoncePrefix [0xcc, 0xdd]] :=
  orderly_work_is_lawful 0 7 exampleGrant exampleUpstream (Option.some_get _).symm _
    (by decide)

/-- **The Success may come late.**  The pool goes on to another tip while the request is pending:
the declared job goes down for the tip that was left, and clean. -/
theorem late_success_is_unlawful :
    ¬ ∀ (nonce2length proxyNotifyId : Nat) (ok : Sv2.OpenExtendedChannelSuccess)
        (opened : Sv2ProxyOpened),
      sv2ProxyOpen nonce2length proxyNotifyId ok = some opened →
      ∀ events, Along WorkRun.step WorkRun.Lawful (WorkRun.start opened) events := by
  intro hall
  have h := hall 0 7 exampleGrant exampleUpstream (Option.some_get _).symm
    [.newExtendedMiningJob exampleUpstreamJob, .setNewPrevHash exampleUpstreamTip .same false,
      .setCustomJob exampleCustomJob true,
      .newExtendedMiningJob { exampleUpstreamJob with jobId := 12 },
      .setNewPrevHash
        { exampleUpstreamTip with jobId := 12, prevHash := ⟨List.replicate 32 1, rfl⟩ } .ahead false,
      .customSuccess 1 13]
  revert h
  decide

-- a future job that is current stays a future job: a new prefix is not flushed
example : ¬ Along WorkRun.step WorkRun.Lawful (WorkRun.start exampleUpstream)
    [.newExtendedMiningJob exampleUpstreamJob, .setNewPrevHash exampleUpstreamTip .same false,
      .setExtranoncePrefix [0xcc, 0xdd],
      .newExtendedMiningJob { exampleUpstreamJob with jobId := 14, minNtimePresent := true }] := by
  decide

end CashStratum
