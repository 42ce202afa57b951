/-
CashStratum/PoolInvariant.lean

What holds of the pool in every state of every run, across its two halves.

The custom jobs of the rings come from SetCustomMiningJob alone, and a thread that is on
its way to note one has seen its token declared (`Traced`).  The token may go meanwhile,
and after; what a step of either half does to it is known from the job declarator
(`jdStep_keeps`).  So a job that is still resolved has its token, with the material it
was accepted for, unless the token expired or its owner left
(`resolved_job_keeps_token`).

The same trace says what the custom jobs of a shared pool pay
(`declared_coinbases_pay_pool`), and which header the block of a share has
(`rebuilt_header_eq_credited_iff`).
-/
import CashStratum.Pool

namespace CashStratum

open PoolState

/-! ### The token of a custom job -/

/-- What the checks of SetCustomMiningJob say of a token. -/
theorem JdTable.fundedToken_eq_some {tb : JdTable} {ck : Ckpool} {tipHeight : Int}
    {token outputs : Bytes} {tok : JdToken}
    (h : tb.fundedToken ck tipHeight token outputs = some tok) :
    tb.findToken token = some tok ∧ (∃ m, tok.material = some m) ∧
      (ck.btcsolo = false → ∃ script, tok.payoutScript = some script ∧
        outputsBlobFundsPayout ck tipHeight outputs script = true) := by
  rw [fundedToken] at h
  by_cases hempty : token = []
  · rw [if_pos hempty] at h
    cases h
  rw [if_neg hempty] at h
  split at h
  · cases h
  · next found hfind =>
      by_cases hdeclared : found.declared = false
      · rw [if_pos hdeclared] at h
        cases h
      rw [if_neg hdeclared] at h
      have hmaterial : ∃ m, found.material = some m := by
        rw [← Option.isSome_iff_exists]
        simpa only [JdToken.declared, Bool.not_eq_false] using hdeclared
      split at h
      · split_ifs at h with hsolo
        obtain rfl := Option.some.inj h
        refine ⟨hfind, hmaterial, fun hshared => ?_⟩
        rw [hshared] at hsolo
        cases hsolo
      · next script hscript =>
          split_ifs at h with hfunds
          obtain rfl := Option.some.inj h
          exact ⟨hfind, hmaterial, fun _ => ⟨script, hscript, hfunds⟩⟩

/-- The token stands as it was seen: it is found and declared with the same material,
or it was freed since. -/
def TokenSeen.Stands (seen : TokenSeen) (tb : JdTable) (token : Bytes) : Prop :=
  seen.mark ≤ tb.freed.length ∧ ∃ m, seen.tok.material = some m ∧
    (tb.HasMaterial token m ∨ tb.FreedSince seen.mark token m)

/-- An operation that keeps the declared tokens keeps what was seen. -/
theorem TokenSeen.Stands.keeps {seen : TokenSeen} {tb tb' : JdTable} {token : Bytes}
    (h : seen.Stands tb token) (hkeeps : tb.Keeps tb') : seen.Stands tb' token := by
  obtain ⟨hmark, m, hm, hstands⟩ := h
  refine ⟨hmark.trans hkeeps.freed.length_le, m, hm, ?_⟩
  rcases hstands with hhas | hfreed
  · exact (hkeeps.declared token m hhas).imp_right fun hfreed =>
      hfreed.mono hmark (List.prefix_refl _)
  · exact Or.inr (hfreed.mono le_rfl hkeeps.freed)

/-! ### Where custom jobs come from -/

/-- Every request on its way and every accepted job satisfies `Q`, and the custom jobs
that the rings hold are accepted jobs. -/
structure PoolState.Traced (Q : SetCustomMiningJob → TokenSeen → Prop) (s : PoolState) : Prop where
  threads : ∀ i req seen, (s.threads i).seen? = some (req, seen) → Q req seen
  accepted : ∀ a ∈ s.accepted, Q a.req a.seen
  held : ∀ uid ch cj, s.channels[uid]? = some ch → ch.CustomHeld cj →
    ∃ a ∈ s.accepted, a.uid = uid ∧ a.job = cj

namespace PoolState

section Traced

variable {Q : SetCustomMiningJob → TokenSeen → Prop} {s : PoolState}

theorem traced_start : PoolState.start.Traced Q where
  threads := fun i req seen h => by cases h
  accepted := fun a ha => absurd ha List.not_mem_nil
  held := fun uid ch cj h => by simp [start] at h

theorem Traced.imp {Q' : SetCustomMiningJob → TokenSeen → Prop} (h : s.Traced Q)
    (himp : ∀ req seen, Q req seen → Q' req seen) : s.Traced Q' where
  threads := fun i req seen hi => himp req seen (h.threads i req seen hi)
  accepted := fun a ha => himp a.req a.seen (h.accepted a ha)
  held := h.held

/-- The rest of the state does not matter. -/
theorem Traced.congr (h : s.Traced Q) {s' : PoolState} (hthreads : s'.threads = s.threads)
    (haccepted : s'.accepted = s.accepted) (hchannels : s'.channels = s.channels) :
    s'.Traced Q := by
  refine ⟨?_, ?_, ?_⟩
  · rw [hthreads]
    exact h.threads
  · rw [haccepted]
    exact h.accepted
  · rw [haccepted, hchannels]
    exact h.held

theorem Traced.setThread (h : s.Traced Q) (i : Nat) {t : PoolThread}
    (ht : ∀ req seen, t.seen? = some (req, seen) → Q req seen) : (s.setThread i t).Traced Q := by
  refine ⟨fun j req seen hj => ?_, h.accepted, h.held⟩
  by_cases hji : j = i
  · subst hji
    exact ht req seen (by simpa [PoolState.setThread] using hj)
  · refine h.threads j req seen ?_
    simpa [PoolState.setThread, Function.update_of_ne hji] using hj

/-- A thread that has seen no token. -/
theorem Traced.done (h : s.Traced Q) (i : Nat) {t : PoolThread} (ht : t.seen? = none) :
    (s.setThread i t).Traced Q :=
  h.setThread i fun req seen hseen => by
    rw [ht] at hseen
    cases hseen

/-- A thread that goes on with what it has seen. -/
theorem Traced.keep (h : s.Traced Q) {i : Nat} {t : PoolThread}
    (ht : t.seen? = (s.threads i).seen?) : (s.setThread i t).Traced Q :=
  h.setThread i fun req seen hseen => h.threads i req seen (ht ▸ hseen)

theorem Traced.failCustom (h : s.Traced Q) (i : Nat) (clientId : Int) (req : SetCustomMiningJob)
    (code : String) : (s.failCustom i clientId req code).Traced Q := by
  have herror : (s.customError clientId req code).Traced Q := h.congr rfl rfl rfl
  exact herror.done i rfl

/-- Channels may lose custom jobs. -/
theorem Traced.mapChannels (h : s.Traced Q) {f : MiningChannel → MiningChannel}
    (hf : ∀ ch cj, (f ch).CustomHeld cj → ch.CustomHeld cj) : (s.mapChannels f).Traced Q := by
  refine ⟨h.threads, h.accepted, fun uid ch cj hch hheld => ?_⟩
  rw [PoolState.mapChannels, List.getElem?_map] at hch
  obtain ⟨ch', hch', rfl⟩ := Option.map_eq_some_iff.mp hch
  exact h.held uid ch' cj hch' (hf ch' cj hheld)

theorem Traced.unhashWhere (h : s.Traced Q) (test : MiningChannel → Bool) :
    (s.unhashWhere test).Traced Q := by
  refine h.mapChannels fun ch cj hheld => ?_
  split_ifs at hheld
  · exact hheld
  · exact hheld

/-- A channel may change, if its custom jobs were held before or are accepted. -/
theorem Traced.setChannel (h : s.Traced Q) (uid : Nat) {f : MiningChannel → MiningChannel}
    (hf : ∀ ch cj, (f ch).CustomHeld cj →
      ch.CustomHeld cj ∨ ∃ a ∈ s.accepted, a.uid = uid ∧ a.job = cj) :
    (s.setChannel uid f).Traced Q := by
  refine ⟨h.threads, h.accepted, fun uid' ch cj hch hheld => ?_⟩
  rw [PoolState.setChannel, List.getElem?_modify] at hch
  obtain ⟨ch', hch', rfl⟩ := Option.map_eq_some_iff.mp hch
  by_cases huid : uid = uid'
  · subst huid
    rw [if_pos rfl] at hheld
    rcases hf ch' cj hheld with hold | haccepted
    · exact h.held uid ch' cj hch' hold
    · exact haccepted
  · rw [if_neg huid] at hheld
    exact h.held uid' ch' cj hch' hheld

theorem Traced.openChannel (h : s.Traced Q) (clientId instanceId : Int) (standard : Bool)
    (enonce1 : Bytes) (extranonceSize : Nat) :
    (s.openChannel clientId instanceId standard enonce1 extranonceSize).Traced Q := by
  rw [PoolState.openChannel]
  split
  · exact h
  · refine ⟨h.threads, h.accepted, fun uid ch cj hch hheld => ?_⟩
    change (s.channels ++ _)[uid]? = some ch at hch
    by_cases hold : uid < s.channels.length
    · rw [List.getElem?_append_left hold] at hch
      exact h.held uid ch cj hch hheld
    · -- a new channel holds nothing
      rw [List.getElem?_append_right (Nat.not_lt.mp hold)] at hch
      obtain rfl := List.mem_singleton.mp (List.mem_of_getElem? hch)
      exact absurd hheld MiningChannel.customHeld_opened

/-- The job that is noted is accepted. -/
theorem Traced.noteCustom (conf : PoolConf) (h : s.Traced Q) (i : Nat) (clientId : Int)
    (req : SetCustomMiningJob) (uid : Nat) (seen : TokenSeen) (tip : JdTip) (wbId : Int)
    (hseen : Q req seen) :
    (PoolState.noteCustom conf s i clientId req uid seen tip wbId).Traced Q := by
  rw [PoolState.noteCustom]
  split
  · exact h
  · next ch hch =>
      dsimp only
      set a : AcceptedJob :=
        { uid := uid, req := req, seen := seen, tip := tip, jobId := nextJobId ch.jobSeq } with ha
      have haccepted : { s with accepted := s.accepted ++ [a] }.Traced Q := by
        refine ⟨h.threads, fun b hb => ?_, fun uid' ch' cj hch' hheld => ?_⟩
        · rcases List.mem_append.mp hb with hb | hb
          · exact h.accepted b hb
          · rw [List.mem_singleton.mp hb]
            exact hseen
        · obtain ⟨b, hb, hjob⟩ := h.held uid' ch' cj hch' hheld
          exact ⟨b, List.mem_append_left _ hb, hjob⟩
      have hnoted := haccepted.setChannel uid
        (f := fun ch => ch.noteJob wbId true (some a.job) req.version (versionRolling conf)) (by
          intro ch' cj hheld
          refine (MiningChannel.customHeld_noteJob hheld).imp_right fun hjob => ?_
          exact ⟨a, List.mem_append_right _ List.mem_cons_self, rfl, Option.some.inj hjob.2⟩)
      have hsent : ((PoolState.setChannel { s with accepted := s.accepted ++ [a] } uid
          fun ch => ch.noteJob wbId true (some a.job) req.version (versionRolling conf)).send
            clientId (.setCustomSuccess req.channelId req.requestId a.jobId)).Traced Q :=
        hnoted.congr rfl rfl rfl
      exact hsent.done i rfl

theorem Traced.enqueueShare (ck : Ckpool) (h : s.Traced Q) (i : Nat) (clientId : Int)
    (sub : SubmitSharesExtended) (uid : Nat) (queued : Bool) :
    (PoolState.enqueueShare ck s i clientId sub uid queued).Traced Q := by
  have herror : ∀ code, (s.submitError clientId sub code).Traced Q := fun _ => h.congr rfl rfl rfl
  have hqueued : ∀ shares, { s with shares := shares }.Traced Q := fun _ => h.congr rfl rfl rfl
  rw [PoolState.enqueueShare]
  split
  · exact h
  · split
    · exact (herror _).done i rfl
    · split_ifs
      · exact (hqueued _).done i rfl
      · exact (herror _).done i rfl

theorem Traced.processShare (h : s.Traced Q) (job : ShareJob) (accounted : Except String Bool) :
    (s.processShare job accounted).Traced Q := by
  rw [PoolState.processShare]
  split_ifs
  · split
    · exact h.congr rfl rfl rfl
    · split
      · exact h.congr rfl rfl rfl
      · split <;> exact h.congr rfl rfl rfl
  · exact h

/-- A thread goes on; `hnew` is for the request whose outputs are checked now. -/
theorem goOn_traced (conf : PoolConf) (h : s.Traced Q) (i : Nat) (inp : PoolInput)
    (hnew : ∀ clientId req uid tok, s.threads i = .tokenDeclared clientId req uid →
      s.jd.table.fundedToken conf.jd.ck s.jd.tipHeight req.miningJobToken req.coinbaseTxOutputs =
        some tok → Q req { tok := tok, mark := s.jd.table.freed.length }) :
    (goOn conf s i inp).Traced Q := by
  cases hthread : s.threads i with
  | idle =>
    simp only [goOn, hthread]
    exact h
  | channelFound clientId req uid =>
    simp only [goOn, hthread]
    split_ifs
    · exact h.done i rfl
    · exact h.failCustom i clientId req _
  | tokenDeclared clientId req uid =>
    simp only [goOn, hthread]
    split
    · exact h.failCustom i clientId req _
    · next tok htok =>
        refine h.setThread i fun req' seen hseen => ?_
        obtain ⟨rfl, rfl⟩ := Prod.mk.inj (Option.some.inj hseen)
        exact hnew clientId req uid tok hthread htok
  | outputsFund clientId req uid seen =>
    simp only [goOn, hthread]
    split
    · exact h.failCustom i clientId req _
    · split_ifs
      · exact h.failCustom i clientId req _
      · exact h.keep (by rw [hthread]; rfl)
  | tipMatches clientId req uid seen tip =>
    simp only [goOn, hthread]
    exact h.keep (by rw [hthread]; rfl)
  | workKnown clientId req uid seen tip wbId =>
    have hseen : Q req seen := h.threads i req seen (by rw [hthread]; rfl)
    simp only [goOn, hthread]
    exact h.noteCustom conf i clientId req uid seen tip wbId hseen
  | submitting clientId sub uid =>
    simp only [goOn, hthread]
    exact h.enqueueShare conf.jd.ck i clientId sub uid inp.queued
  | tipChanged =>
    have hjd : ∀ jd, { s with jd := jd }.Traced Q := fun _ => h.congr rfl rfl rfl
    simp only [goOn, hthread]
    exact (hjd _).done i rfl
  | clearing =>
    have hclear : (s.mapChannels fun ch => if ch.hashed then ch.clearCustom else ch).Traced Q := by
      refine h.mapChannels fun ch cj hheld => ?_
      split_ifs at hheld
      · exact absurd hheld MiningChannel.customHeld_clearCustom
      · exact hheld
    simp only [goOn, hthread]
    exact hclear.done i rfl

/-- **The trace rule.**  Whatever the checks of SetCustomMiningJob establish holds of
every custom job that a ring holds. -/
theorem poolStep_traced (conf : PoolConf) (h : s.Traced Q) (e : PoolEvent)
    (hnew : ∀ i inp clientId req uid tok, e = .go i inp →
      s.threads i = .tokenDeclared clientId req uid →
      s.jd.table.fundedToken conf.jd.ck s.jd.tipHeight req.miningJobToken req.coinbaseTxOutputs =
        some tok → Q req { tok := tok, mark := s.jd.table.freed.length }) :
    (poolStep conf s e).Traced Q := by
  cases e with
  | jd e => exact h.congr rfl rfl rfl
  | noteClient clientId => exact h.congr rfl rfl rfl
  | setup clientId workSelection => exact h.congr rfl rfl rfl
  | openChannel clientId instanceId standard enonce1 extranonceSize =>
    exact h.openChannel clientId instanceId standard enonce1 extranonceSize
  | closeChannel clientId channelId => exact h.unhashWhere _
  | dropClient clientId =>
    have hclients : { s with clients := Function.update s.clients clientId none }.Traced Q :=
      h.congr rfl rfl rfl
    exact hclients.unhashWhere _
  | dropAll =>
    have hclients : { s with clients := fun _ => none }.Traced Q := h.congr rfl rfl rfl
    exact hclients.unhashWhere _
  | clearInstance instanceId =>
    show (ite _ _ _ : PoolState).Traced Q
    split_ifs
    · exact h
    · refine h.mapChannels fun ch cj hheld => ?_
      split_ifs at hheld
      · exact absurd hheld MiningChannel.customHeld_clearCustom
      · exact hheld
  | pushPoolJob uid wbId version =>
    refine h.setChannel uid fun ch cj hheld => ?_
    exact Or.inl ((MiningChannel.customHeld_noteJob hheld).resolve_right (by simp))
  | workUpdate i =>
    show (ite _ _ _ : PoolState).Traced Q
    split_ifs
    · rw [onWorkUpdate]
      split
      · exact h.done i rfl
      · next tip htip =>
          have hmoved : { s with lastTipPrev := some tip.prevHash }.Traced Q :=
            h.congr rfl rfl rfl
          split_ifs
          · exact h
          · exact hmoved.done i rfl
    · exact h
  | setCustom i clientId req =>
    show (ite _ _ _ : PoolState).Traced Q
    split_ifs
    · rw [PoolState.setCustom]
      split
      · exact h
      · split_ifs
        · exact h
        · exact h.congr rfl rfl rfl
        · split
          · exact h.congr rfl rfl rfl
          · exact h.done i rfl
    · exact h
  | submit i clientId sub =>
    show (ite _ _ _ : PoolState).Traced Q
    split_ifs
    · rw [submitExtended]
      split
      · exact h.congr rfl rfl rfl
      · exact h.done i rfl
    · exact h
  | shareWork accounted =>
    rw [poolStep]
    split
    · exact h
    · next job shares hshares =>
        have htaken : { s with shares := shares }.Traced Q := h.congr rfl rfl rfl
        exact htaken.processShare job accounted
  | go i inp => exact goOn_traced conf h i inp fun clientId req uid tok => hnew i inp clientId req uid tok rfl

end Traced

end PoolState

/-! ### The job declarator inside the pool -/

theorem goOn_jd (conf : PoolConf) (s : PoolState) (i : Nat) (inp : PoolInput) :
    (goOn conf s i inp).jd = s.jd ∨ (goOn conf s i inp).jd = jdStep conf.jd s.jd .onTipChange := by
  cases hthread : s.threads i with
  | tipChanged =>
    simp only [goOn, hthread]
    exact Or.inr rfl
  | outputsFund clientId req uid seen =>
    simp only [goOn, hthread]
    split
    · exact Or.inl rfl
    · split_ifs <;> exact Or.inl rfl
  | workKnown clientId req uid seen tip wbId =>
    simp only [goOn, hthread, noteCustom]
    split <;> exact Or.inl rfl
  | submitting clientId sub uid =>
    simp only [goOn, hthread, enqueueShare]
    split
    · exact Or.inl rfl
    · split
      · exact Or.inl rfl
      · split_ifs <;> exact Or.inl rfl
  | channelFound clientId req uid =>
    simp only [goOn, hthread]
    split_ifs <;> exact Or.inl rfl
  | tokenDeclared clientId req uid =>
    simp only [goOn, hthread]
    split <;> exact Or.inl rfl
  | idle => exact Or.inl (by simp only [goOn, hthread])
  | tipMatches clientId req uid seen tip => exact Or.inl (by simp only [goOn, hthread]; rfl)
  | clearing => exact Or.inl (by simp only [goOn, hthread]; rfl)

/-- A step of the pool is at most one step of the job declarator. -/
theorem poolStep_jd (conf : PoolConf) (s : PoolState) (e : PoolEvent) :
    (poolStep conf s e).jd = s.jd ∨ ∃ e', (poolStep conf s e).jd = jdStep conf.jd s.jd e' ∧
      (e = .jd e' ∨ e' = .onTipChange) := by
  cases e with
  | jd e => exact Or.inr ⟨e, rfl, Or.inl rfl⟩
  | go i inp =>
    rcases goOn_jd conf s i inp with hsame | htip
    · exact Or.inl hsame
    · exact Or.inr ⟨_, htip, Or.inr rfl⟩
  | openChannel clientId instanceId standard enonce1 extranonceSize =>
    left
    simp only [poolStep, PoolState.openChannel]
    split <;> rfl
  | clearInstance instanceId =>
    left
    simp only [poolStep, PoolState.clearInstance]
    split_ifs <;> rfl
  | workUpdate i =>
    left
    simp only [poolStep, onWorkUpdate]
    split_ifs
    · split
      · rfl
      · split_ifs <;> rfl
    · rfl
  | setCustom i clientId req =>
    left
    simp only [poolStep, PoolState.setCustom]
    split_ifs
    · split
      · rfl
      · split_ifs
        · rfl
        · rfl
        · split <;> rfl
    · rfl
  | submit i clientId sub =>
    left
    simp only [poolStep, submitExtended]
    split_ifs
    · split <;> rfl
    · rfl
  | shareWork accounted =>
    left
    rw [poolStep]
    split
    · rfl
    · simp only [processShare]
      split_ifs
      · split
        · rfl
        · split
          · rfl
          · split <;> rfl
      · rfl
  | _ => exact Or.inl rfl

/-- An invariant of the job declarator is one of the pool. -/
theorem poolStep_jd_invariant {conf : PoolConf} {I : JdState → Prop} {s : PoolState} (e : PoolEvent)
    (hjd : ∀ e', e = .jd e' ∨ e' = .onTipChange → I s.jd → I (jdStep conf.jd s.jd e'))
    (h : I s.jd) : I (poolStep conf s e).jd := by
  rcases poolStep_jd conf s e with hsame | ⟨e', hstep, he'⟩
  · rw [hsame]
    exact h
  · rw [hstep]
    exact hjd e' he' h

theorem poolStep_keeps (conf : PoolConf) (s : PoolState) (e : PoolEvent) :
    s.jd.table.Keeps (poolStep conf s e).jd.table :=
  poolStep_jd_invariant (I := fun jd => s.jd.table.Keeps jd.table) e
    (fun e' _ _ => jdStep_keeps conf.jd s.jd e') (.refl _)

/-! ### An example pool -/

/-- A shared pool whose coinbases have to pay `51`. -/
def examplePool : PoolConf where
  jd :=
    { ck := { longCk with btcsolo := false }
      btcaddressScript := some PayoutScript.opTrue
      accountScript := fun _ => none }
  jdEnabled := true

/-- One output of value 1 to the pool. -/
def poolOutput : Bytes := [1, 0, 0, 0, 0, 0, 0, 0, 1, 0x51]

/-- One output of value `2 ^ 63` to `52`. -/
def foreignOutput : Bytes := [0, 0, 0, 0, 0, 0, 0, 0x80, 1, 0x52]

/-- A declare of a template without transactions, with 16 bytes for the extranonce. -/
def exampleDeclare (outputs : Bytes) : DeclareMiningJob where
  requestId := 1
  token := [9]
  version := 0x20000000
  coinbaseTxPrefix := [2, 0, 0, 0, 1] ++ nullPrevout ++ [20, 3, 1, 2, 3]
  coinbaseTxSuffix := [0xff, 0xff, 0xff, 0xff] ++ outputs ++ [0, 0, 0, 0]
  wtxidList := []

/-- A custom job for the declare of one pool output. -/
def exampleRequest (path : List Hash256) : SetCustomMiningJob where
  channelId := 1
  requestId := 2
  miningJobToken := [9]
  version := 0x20000000
  prevHash := .zero
  minNtime := 1700000000
  nbits := 0x207fffff
  coinbaseTxVersion := 2
  coinbasePrefix := [3, 1, 2, 3]
  coinbaseTxInputNSequence := 0xffffffff
  coinbaseTxOutputs := 1 :: poolOutput
  coinbaseTxLocktime := 0
  merklePath := path

/-- What the threads of the job declarator are given; checkBlock finds nothing wrong. -/
def exampleInput : JdState.JdInput where
  now := 1
  draws := [[10]]
  verdict := .valid

/-- Client 1 sets up and has a token, there is a tip, and the declare of one pool output
passes checkBlock. -/
def declaredRun : List PoolEvent :=
  [.jd (.setup 1),
    .jd (.newTip { version := 0x20000000, ntime := 1700000000, nbits := 0x207fffff,
                   prevHash := .zero, height := 0 }),
    .jd (.allocate 1 [] 0 [9] 1),
    .jd (.declare 0 1 (exampleDeclare (1 :: poolOutput)) 1)] ++
    List.replicate 6 (.jd (.go 0 exampleInput)) ++ [.jd (.work 0)] ++
    List.replicate 7 (.jd (.go 0 exampleInput))

/-- Then client 7 has a channel and sets a custom job on it. -/
def customRun (path : List Hash256) : List PoolEvent :=
  declaredRun ++ [.setup 7 true, .openChannel 7 1 false (List.replicate 8 5) 8,
    .setCustom 0 7 (exampleRequest path)] ++ List.replicate 5 (.go 0 ⟨some 7, true⟩)

/-- The custom job of the run. -/
def exampleJob (path : List Hash256) : CustomJob := customJob (exampleRequest path) .zero 1

/-- The run accepts its custom job. -/
theorem customRun_accepted (path : List Hash256)
    (h : (poolRun examplePool (customRun path)).accepted.map AcceptedJob.job = [exampleJob path]) :
    ∃ a ∈ (poolRun examplePool (customRun path)).accepted, a.job = exampleJob path := by
  have hmem : exampleJob path ∈
      (poolRun examplePool (customRun path)).accepted.map AcceptedJob.job := by
    rw [h]
    exact List.mem_cons_self
  exact List.mem_map.mp hmem

/-! ### The token of a job that is resolved -/

/-- The token of a request was complete when it was seen, and stands as it was seen. -/
def SeenComplete (tb : JdTable) (req : SetCustomMiningJob) (seen : TokenSeen) : Prop :=
  seen.Stands tb req.miningJobToken ∧
    ∀ m, seen.tok.material = some m → m.snapshot.isSome

/-- The invariant of every run. -/
structure PoolSafe (s : PoolState) : Prop where
  jd : JdComplete s.jd
  traced : s.Traced (SeenComplete s.jd.table)

theorem poolSafe_start : PoolSafe .start := ⟨jdComplete_start, traced_start⟩

theorem poolStep_safe (conf : PoolConf) {s : PoolState} (h : PoolSafe s) (e : PoolEvent) :
    PoolSafe (poolStep conf s e) where
  jd := poolStep_jd_invariant e (fun e' _ hjd => jdStep_complete conf.jd hjd e') h.jd
  traced := by
    have hkeeps := poolStep_keeps conf s e
    have hkept : s.Traced (SeenComplete (poolStep conf s e).jd.table) :=
      h.traced.imp fun req seen hseen => ⟨hseen.1.keeps hkeeps, hseen.2⟩
    refine poolStep_traced conf hkept e fun i inp clientId req uid tok he hthread htok => ?_
    obtain ⟨hfind, ⟨m, hm⟩, -⟩ := JdTable.fundedToken_eq_some htok
    have hnow : TokenSeen.Stands { tok := tok, mark := s.jd.table.freed.length } s.jd.table
        req.miningJobToken := ⟨le_rfl, m, hm, Or.inl ⟨tok, hfind, hm⟩⟩
    exact ⟨hnow.keeps hkeeps, h.jd.tokens tok (JdTable.findToken_mem hfind)⟩

theorem poolRun_safe (conf : PoolConf) (events : List PoolEvent) : PoolSafe (poolRun conf events) := by
  have hstep : ∀ s e, PoolSafe s → PoolSafe (poolStep conf s e) :=
    fun _ e h => poolStep_safe conf h e
  exact run_invariant_always hstep events poolSafe_start

/-- **A custom job that is still resolved has its token.**  In every run and on every
channel, a job that a share can name was accepted for a token with complete material,
and this token is still found and declared with this material, unless it was freed since
the acceptance: it expired, its owner was dropped, or all were. -/
theorem resolved_job_keeps_token (conf : PoolConf) (events : List PoolEvent) (uid : Nat)
    (ch : MiningChannel) (jobId : UInt32) (slot : JobSlot) (cj : CustomJob)
    (hch : (poolRun conf events).channels[uid]? = some ch)
    (hlookup : ch.lookupJob jobId = some slot) (hslot : slot.customJob = some cj) :
    ∃ a ∈ (poolRun conf events).accepted, a.uid = uid ∧ a.job = cj ∧
      ∃ m, a.seen.tok.material = some m ∧ m.snapshot.isSome ∧
        ((poolRun conf events).jd.table.HasMaterial cj.token m ∨
          (poolRun conf events).jd.table.FreedSince a.seen.mark cj.token m) := by
  have hsafe := poolRun_safe conf events
  have hheld := MiningChannel.customHeld_of_lookupJob hlookup hslot
  obtain ⟨a, ha, huid, rfl⟩ := hsafe.traced.held uid ch cj hch hheld
  obtain ⟨⟨-, m, hm, hstands⟩, hcomplete⟩ := hsafe.traced.accepted a ha
  exact ⟨a, ha, huid, rfl, m, hm, hcomplete m hm, hstands⟩

/-- The custom job of the example is resolved, and its token has its material. -/
theorem resolved_job_keeps_token_example :
    ∃ a ∈ (poolRun examplePool (customRun [])).accepted, a.uid = 0 ∧ a.job = exampleJob [] ∧
      ∃ m, a.seen.tok.material = some m ∧ m.snapshot.isSome ∧
        ((poolRun examplePool (customRun [])).jd.table.HasMaterial (exampleJob []).token m ∨
          (poolRun examplePool (customRun [])).jd.table.FreedSince a.seen.mark
            (exampleJob []).token m) := by
  have hresolved : (((poolRun examplePool (customRun [])).channels[0]?).bind fun ch =>
      (ch.lookupJob 1).bind JobSlot.customJob) = some (exampleJob []) := by
    decide +kernel
  obtain ⟨ch, hch, hresolved⟩ := Option.bind_eq_some_iff.mp hresolved
  obtain ⟨slot, hlookup, hslot⟩ := Option.bind_eq_some_iff.mp hresolved
  exact resolved_job_keeps_token examplePool (customRun []) 0 ch 1 slot (exampleJob []) hch hlookup
    hslot

/-- A custom job outlives its token: the client that declared it goes, the job is still
resolved on the channel of the other client. -/
theorem dropped_owner_job_resolved :
    (((poolRun examplePool (customRun [] ++ [.jd (.dropClient 1)])).channels[0]?).bind fun ch =>
        (ch.lookupJob 1).bind JobSlot.customJob) = some (exampleJob []) ∧
      (poolRun examplePool (customRun [] ++ [.jd (.dropClient 1)])).jd.table.findToken
        (exampleJob []).token = none := by
  decide +kernel

/-! ### The header of a rebuilt block -/

/-- A token has one material. -/
theorem JdTable.HasMaterial.unique {tb : JdTable} {token : Bytes} {m m' : JdMaterial}
    (h : tb.HasMaterial token m) (h' : tb.HasMaterial token m') : m = m' := by
  obtain ⟨t, ht, hm⟩ := h
  obtain ⟨t', ht', hm'⟩ := h'
  obtain rfl := Option.some.inj (ht.symm.trans ht')
  exact Option.some.inj (hm.symm.trans hm')

/-- **The header of a rebuilt block.**  For every accepted custom job and every share on
it: the block is rebuilt from the material the job was accepted for, unless the token was
freed since, and its header has the previous hash of the tip, the time, the target and
the nonce of the header that was credited.  The two headers are equal exactly if the
version is the share's and the two merkle roots are equal, as they are if the job
describes what was declared. -/
theorem rebuilt_header_eq_credited_iff (conf : PoolConf) (events : List PoolEvent)
    (a : AcceptedJob) (ha : a ∈ (poolRun conf events).accepted) (en1 extranonce : Bytes)
    (version ntime nonce : UInt32) (header block : Bytes)
    (hshare : a.job.validateCustomShare en1 extranonce ntime nonce version = .ok header)
    (hrebuild : (poolRun conf events).jd.table.rebuildSolvedBlock a.job.token (en1 ++ extranonce)
      version ntime nonce a.job.nbits a.job.prevHash = some block) :
    a.job.prevHash = a.tip.prevHash ∧
    ∃ m customRoot declaredRoot,
      (a.seen.tok.material = some m ∨ ∃ m', a.seen.tok.material = some m' ∧
        (poolRun conf events).jd.table.FreedSince a.seen.mark a.job.token m') ∧
      a.job.customRoot en1 extranonce = some customRoot ∧
      m.declaredRoot (en1 ++ extranonce) = some declaredRoot ∧
      header = (a.job.headerFields version ntime nonce).bytes customRoot ∧
      block.take 80 =
        (a.job.headerFields (m.blockVersion version) ntime nonce).bytes declaredRoot ∧
      (block.take 80 = header ↔ (version ≠ 0 ∨ m.version = 0) ∧ customRoot = declaredRoot) ∧
      (a.job.Describes m en1 extranonce → customRoot = declaredRoot) := by
  refine ⟨rfl, ?_⟩
  obtain ⟨customRoot, hcustom, rfl⟩ := validateCustomShare_eq_ok hshare
  obtain ⟨m, declaredRoot, hhas, hdeclared, hfits, hblock⟩ := rebuildSolvedBlock_eq_some hrebuild
  refine ⟨m, customRoot, declaredRoot, ?_, hcustom, hdeclared, rfl, hblock, ?_, ?_⟩
  · obtain ⟨⟨-, m', hm', hstands⟩, -⟩ := (poolRun_safe conf events).traced.accepted a ha
    rcases hstands with hhas' | hfreed
    · exact Or.inl (by rw [hm', hhas.unique hhas'])
    · exact Or.inr ⟨m', hm', hfreed⟩
  · rw [hblock]
    exact rebuiltHeader_eq_iff
  · intro hdescribes
    have hroots := hdescribes.root_eq hfits
    rw [hcustom, hdeclared] at hroots
    exact Option.some.inj hroots

/-- The header of a share of the example, with the extranonce `5 … 5 6 … 6`. -/
def exampleHeader (path : List Hash256) : Option Bytes :=
  ((exampleJob path).validateCustomShare (List.replicate 8 5) (List.replicate 8 6) 1700000000 7
    0x20000000).toOption

/-- The block of that share. -/
def exampleBlock (path : List Hash256) : Option Bytes :=
  (poolRun examplePool (customRun path)).jd.table.rebuildSolvedBlock (exampleJob path).token
    (List.replicate 8 5 ++ List.replicate 8 6) 0x20000000 1700000000 7 (exampleJob path).nbits
    (exampleJob path).prevHash

example : (poolRun examplePool (customRun [])).accepted.length = 1 := by decide +kernel

/-- The two headers of a share of the example. -/
theorem rebuilt_header_eq_credited_iff_example :
    ∃ a ∈ (poolRun examplePool (customRun [])).accepted, ∃ (m : JdMaterial)
      (customRoot declaredRoot : Hash256) (header block : Bytes),
      a.job = exampleJob [] ∧ exampleHeader [] = some header ∧ exampleBlock [] = some block ∧
      (block.take 80 = header ↔
        ((0x20000000 : UInt32) ≠ 0 ∨ m.version = 0) ∧ customRoot = declaredRoot) := by
  obtain ⟨a, ha, hjob⟩ := customRun_accepted [] (by decide +kernel)
  obtain ⟨header, hheader⟩ := Option.isSome_iff_exists.mp
    (show (exampleHeader []).isSome by decide)
  obtain ⟨block, hblock⟩ := Option.isSome_iff_exists.mp
    (show (exampleBlock []).isSome by decide +kernel)
  have hshare : a.job.validateCustomShare (List.replicate 8 5) (List.replicate 8 6) 1700000000 7
      0x20000000 = .ok header := by
    rw [hjob]
    rcases hresult : (exampleJob []).validateCustomShare (List.replicate 8 5) (List.replicate 8 6)
        1700000000 7 0x20000000 with code | header'
    · rw [exampleHeader, hresult] at hheader
      cases hheader
    · rw [exampleHeader, hresult] at hheader
      rw [Option.some.inj hheader]
  obtain ⟨-, m, customRoot, declaredRoot, -, -, -, -, -, hiff, -⟩ :=
    rebuilt_header_eq_credited_iff examplePool (customRun []) a ha _ _ _ _ _ header block hshare
      (by rw [hjob]; exact hblock)
  exact ⟨a, ha, m, customRoot, declaredRoot, header, block, hjob, hheader, hblock, hiff⟩

/-- A path past transactions that were not declared: the share is credited for a header
with the tip's previous hash and bits, and its block has another one. -/
theorem foreign_path_header_ne :
    (∃ a ∈ (poolRun examplePool (customRun [.zero])).accepted, a.job = exampleJob [.zero] ∧
      a.job.nbits = a.tip.nbits) ∧
    (exampleHeader [.zero]).isSome ∧ (exampleBlock [.zero]).isSome ∧
    (exampleBlock [.zero]).map (List.take 80) ≠ exampleHeader [.zero] := by
  decide +kernel

/-! ### What the custom jobs of a shared pool pay -/

/-- The outputs of a request pay the script of its token only. -/
def SeenPays (req : SetCustomMiningJob) (seen : TokenSeen) : Prop :=
  ∃ script, seen.tok.payoutScript = some script ∧ BlobPaysOnly script req.coinbaseTxOutputs

/-- The step of the job declarator in a step of the pool. -/
def PoolEvent.jd? : PoolEvent → Option JdEvent
  | .jd e => some e
  | _ => none

/-- The outputs that a step checks against the script of their token. -/
def PoolState.checkedOutputs (s : PoolState) : PoolEvent → Option Bytes
  | .go i _ =>
    match s.threads i with
    | .tokenDeclared _ req _ => some req.coinbaseTxOutputs
    | _ => none
  | _ => none

/-- A step that binds no declare and checks no outputs for which the payout checks and
the walker differ. -/
def SoundStep (conf : PoolConf) (s : PoolState) (e : PoolEvent) : Prop :=
  (∀ e' ∈ e.jd?, BindsSound conf.jd s.jd e') ∧
    ∀ outputs ∈ s.checkedOutputs e, ∀ script ∈ conf.jd.btcaddressScript,
      BlobSound script.bin outputs

instance (conf : PoolConf) (s : PoolState) (e : PoolEvent) : Decidable (SoundStep conf s e) :=
  inferInstanceAs (Decidable ((∀ e' ∈ e.jd?, BindsSound conf.jd s.jd e') ∧
    ∀ outputs ∈ s.checkedOutputs e, ∀ script ∈ conf.jd.btcaddressScript,
      BlobSound script.bin outputs))

/-- The invariant of a shared pool. -/
structure PoolShared (conf : PoolConf) (s : PoolState) : Prop where
  jd : JdShared conf.jd s.jd
  traced : s.Traced SeenPays

theorem poolStep_shared {conf : PoolConf} (hshared : conf.jd.ck.btcsolo = false) {s : PoolState}
    {e : PoolEvent} (hsound : SoundStep conf s e) (h : PoolShared conf s) :
    PoolShared conf (poolStep conf s e) where
  jd := by
    refine poolStep_jd_invariant e (fun e' he' hjd => ?_) h.jd
    refine jdStep_shared hshared hjd ?_
    rcases he' with rfl | rfl
    · exact hsound.1 e' rfl
    · -- a change of the tip binds nothing
      exact fun b hb => by cases hb
  traced := by
    refine poolStep_traced conf h.traced e fun i inp clientId req uid tok he hthread htok => ?_
    obtain ⟨hfind, -, hfunds⟩ := JdTable.fundedToken_eq_some htok
    obtain ⟨script, hscript, hblob⟩ := hfunds hshared
    -- the token's script is the script of the pool
    obtain ⟨hpayout, -⟩ := h.jd.tokens tok (JdTable.findToken_mem hfind)
    rw [hscript] at hpayout
    obtain ⟨pool, hpool, rfl⟩ := Option.map_eq_some_iff.mp hpayout.symm
    have hchecked : s.checkedOutputs e = some req.coinbaseTxOutputs := by
      rw [he, checkedOutputs, hthread]
    have hblobSound := hsound.2 req.coinbaseTxOutputs hchecked pool hpool
    exact ⟨pool.bin, hscript, hblobSound.blobPaysOnly hshared hblob⟩

/-- **The declared and the custom coinbases of a shared pool pay the pool.**  In every
run whose steps are sound, whatever fills the hole of the declared coinbase of a token,
it is a transaction that pays the token's script only, and so are the outputs of every
accepted custom job for the script of its token. -/
theorem declared_coinbases_pay_pool (conf : PoolConf) (hshared : conf.jd.ck.btcsolo = false)
    (events : List PoolEvent) (hsound : Along (poolStep conf) (SoundStep conf) .start events) :
    (∀ tok ∈ (poolRun conf events).jd.table.tokens, ∀ m, tok.material = some m →
      ∃ script, tok.payoutScript = some script ∧ ∀ e, e.length = m.enonceLen →
        PaysOnly script (declaredCoinbase m.coinbaseTxPrefix e m.coinbaseTxSuffix)) ∧
    (∀ a ∈ (poolRun conf events).accepted, ∃ script, a.seen.tok.payoutScript = some script ∧
      BlobPaysOnly script a.req.coinbaseTxOutputs) := by
  have hinv : PoolShared conf (poolRun conf events) :=
    run_invariant (fun _ _ hsound h => poolStep_shared hshared hsound h) hsound
      ⟨jdShared_start conf.jd, traced_start⟩
  exact ⟨fun tok htok => (hinv.jd.tokens tok htok).2, hinv.traced.accepted⟩

/-- The example is sound. -/
theorem declared_coinbases_pay_pool_example :
    (∀ tok ∈ (poolRun examplePool (customRun [])).jd.table.tokens, ∀ m, tok.material = some m →
      ∃ script, tok.payoutScript = some script ∧ ∀ e, e.length = m.enonceLen →
        PaysOnly script (declaredCoinbase m.coinbaseTxPrefix e m.coinbaseTxSuffix)) ∧
    (∀ a ∈ (poolRun examplePool (customRun [])).accepted, ∃ script,
      a.seen.tok.payoutScript = some script ∧ BlobPaysOnly script a.req.coinbaseTxOutputs) :=
  declared_coinbases_pay_pool examplePool rfl (customRun []) (by decide +kernel)

/-- After the example, a declare of one pool output and two foreign ones whose values
add up to `2 ^ 64`; the session skips checkBlock. -/
def wrappingRun : List PoolEvent :=
  declaredRun ++ [.jd (.declare 0 1 (exampleDeclare (3 :: (poolOutput ++ foreignOutput ++
    foreignOutput))) 1)] ++ List.replicate 6 (.jd (.go 0 exampleInput))

/-- **The foreign values wrap to nothing**, and a token of the pool's script is declared
whose coinbase pays them. -/
theorem wrapping_declare_pays_others :
    ∃ tok ∈ (poolRun examplePool wrappingRun).jd.table.tokens, ∃ m, tok.material = some m ∧
      tok.payoutScript = some [0x51] ∧
      ¬PaysOnly [0x51] (zeroFilled m.coinbaseTxPrefix m.enonceLen m.coinbaseTxSuffix) := by
  have hforeign : ∃ tok ∈ (poolRun examplePool wrappingRun).jd.table.tokens,
      ∃ m ∈ tok.material, tok.payoutScript = some [0x51] ∧
        ∃ outs ∈ txOutputs (zeroFilled m.coinbaseTxPrefix m.enonceLen m.coinbaseTxSuffix),
          ∃ out ∈ outs, out.value ≠ 0 ∧ out.script ≠ [0x51] := by
    decide +kernel
  obtain ⟨tok, htok, m, hm, hpayout, outs, houts, out, hout, hvalue, hscript⟩ := hforeign
  refine ⟨tok, htok, m, hm, hpayout, fun hpays => ?_⟩
  obtain ⟨outs', houts', hall⟩ := hpays.pays
  obtain rfl := Option.some.inj (houts.symm.trans houts')
  exact hscript (hall out hout hvalue)

end CashStratum
