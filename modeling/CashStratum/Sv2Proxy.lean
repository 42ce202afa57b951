/-
CashStratum/Sv2Proxy.lean

The SV2 upstream of a proxy (generator.c): the channel that `sv2_proxy_open` makes of a
grant, the jobs of the pool and the declared ones in one ring, and what of them is sent
downstream.

The grant is a hole of `extranonce_size` bytes in the coinbase; `sv2ProxySplit` divides it into
zeros that go into `coinb1`, a part for each client and a part for its miner.  A job is stored
as the pool sent it, with the channel's prefix and the zeros in `coinb1`; `sendJob` puts the tip
into it and turns it into the hex strings of a `notify_instance`, which is sent down and kept
under its own number.  An event is what the receive thread does with one frame or on a timer, or
what the declaring thread does under one lock.
-/
import CashStratum.Submission
import CashStratum.Sv2Messages
import CashStratum.Run
import CashStratum.TipRing
import Mathlib

namespace CashStratum

/-! ### Jobs -/

/-- `sv2_jdc_template`, as far as a custom job goes by it. -/
structure Sv2JdcTemplate where
  id : Nat
  version : UInt32
  prevHash : Hash256
  ntime : UInt32
  nbits : UInt32
  merklePath : List Hash256
deriving DecidableEq

/-- What a declared job has for its solve paths: its template, and the coinbase as it was
declared on both sides of the hole. -/
structure DeclaredForm where
  tmpl : Sv2JdcTemplate
  dcbPrefix : Bytes
  dcbSuffix : Bytes
deriving DecidableEq

/-- `sv2_proxy_job`, a valid one.  The first `cbTxPrefixLen` bytes of `coinb1` are the pool's;
`custom` is empty for a job of the pool. -/
structure Sv2ProxyJob where
  future : Bool
  jobId : UInt32
  version : UInt32
  minNtime : UInt32
  merklePath : List Hash256
  coinb1 : Bytes
  cbTxPrefixLen : Nat
  coinb2 : Bytes
  prevHash : Hash256
  nbits : UInt32
  custom : Option DeclaredForm
deriving DecidableEq

/-- What a notify keeps of a declared job.  `enPrefix` is the prefix of the channel when it was
sent. -/
structure Sv2Custom where
  declared : DeclaredForm
  enPrefix : Bytes
deriving DecidableEq

/-- `notify_instance`, with the texts that `send_notify` packs.  `jobid` is the job of the
upstream, `id64` the number the job has downstream. -/
structure NotifyInstance where
  id64 : Nat
  jobid : UInt32
  prevhash : Bytes
  coinbase1 : Bytes
  coinbase2 : Bytes
  coinb1len : Nat
  merklehash : List Bytes
  nbit : Bytes
  ntime : Bytes
  bbversion : Bytes
  clean : Bool
  custom : Option Sv2Custom
deriving DecidableEq

/-- `enum sv2_work_src` -/
inductive Sv2WorkSrc
  | pool
  | bridge
  | localJd
deriving DecidableEq

/-- What the last `SetNewPrevHash` left: `prev_hash`, `snph_min_ntime` and `nbits`. -/
structure AnnouncedTip where
  prevHash : Hash256
  minNtime : UInt32
  nbits : UInt32
deriving DecidableEq

/-- `SetCustomMiningJob` awaiting an answer. -/
structure StagedCustom where
  requestId : UInt32
  job : Sv2ProxyJob
deriving DecidableEq

/-! ### The channel -/

/-- The layout of the channel, which stays as long as the channel does. -/
structure Sv2ProxyChannel where
  channelId : UInt32
  extranonceSize : Nat
  padLen : Nat
deriving DecidableEq

/-- A place of the ring of `SV2_PROXY_JOBS` jobs. -/
abbrev ProxySlot := Fin 32

/-- `struct sv2_proxy`.  What the source guards with a flag (`have_prevhash`,
`have_flushed_prev`, `have_custom_prev`, `custom_pending`, `valid`) is an option here.
`notifies` are the notifies of this proxy, the last one first, and `proxyNotifyId` is the
counter of the generator that all proxies take their numbers from. -/
structure Sv2Proxy where
  channel : Sv2ProxyChannel
  extranoncePrefix : Bytes
  tip : Option AnnouncedTip
  wantReconnect : Bool
  workSrc : Sv2WorkSrc
  flushedPrev : Option Hash256
  customStage : Option StagedCustom
  nextRequestId : UInt32
  customPrev : Option Hash256
  jobs : ProxySlot → Option Sv2ProxyJob
  jobHead : ProxySlot
  proxyNotifyId : Nat
  notifies : List NotifyInstance

/-! ### The grant -/

/-- `SV2_PROXY_MIN_EXTRANONCE` -/
def sv2ProxyMinExtranonce : Nat := 4

/-- `SV2_PROXY_MAX_EXTRANONCE` -/
def sv2ProxyMaxExtranonce : Nat := 32

/-- `SV2_PROXY_SV1_EN2_MAX` -/
def sv2ProxySv1En2Max : Nat := 8

/-- `SV2_PROXY_EN1VAR_MAX` -/
def sv2ProxyEn1varMax : Nat := 8

/-- The three parts of the hole. -/
structure HoleSplit where
  pad : Nat
  en1 : Nat
  en2 : Nat
deriving DecidableEq

/-- The split of `sv2_proxy_open`, for a configured `nonce2length` (0 for none). -/
def sv2ProxySplit (nonce2length size : Nat) : HoleSplit :=
  let (en1, en2) :=
    if nonce2length > 0 then
      let en2 := max (min (min nonce2length sv2ProxySv1En2Max) size) 1
      (min (size - en2) sv2ProxyEn1varMax, en2)
    else if size > 8 then
      (min (size - sv2ProxySv1En2Max) sv2ProxyEn1varMax, sv2ProxySv1En2Max)
    else
      let en1 := if size > 7 then 4 else if size > 5 then 2 else if size > 3 then 1 else 0
      (en1, size - en1)
  { pad := size - en1 - en2, en1, en2 }

/-- `clients_per_proxy`, and `max_clients` of the stratifier. -/
def clientsPerProxy (en1 : Nat) : Nat :=
  if en1 > 0 ∧ en1 < 8 then 2 ^ (en1 * 8)
  else if en1 ≥ 8 then (2 ^ 63 - 1) / 2
  else 1

/-- What `sv2_proxy_open` leaves of a grant: the proxy, and what `send_subscribe` tells the
stratifier. -/
structure Sv2ProxyOpened where
  sp : Sv2Proxy
  enonce1 : Bytes
  nonce2len : Nat
  clientsPerProxy : Nat

section OpenSlots

local instance neZero_openSlots : NeZero 32 := ⟨by decide⟩

/-- `sv2_proxy_open`, from `OpenExtendedMiningChannel.Success` on. -/
def sv2ProxyOpen (nonce2length proxyNotifyId : Nat) (ok : Sv2.OpenExtendedChannelSuccess) :
    Option Sv2ProxyOpened :=
  let size := ok.extranonceSize.toNat
  if size < sv2ProxyMinExtranonce ∨ size > sv2ProxyMaxExtranonce then none
  else
    let split := sv2ProxySplit nonce2length size
    some
      { sp :=
          { channel :=
              { channelId := ok.channelId
                extranonceSize := size
                padLen := split.pad }
            extranoncePrefix := ok.extranoncePrefix
            tip := none
            wantReconnect := false
            workSrc := .pool
            flushedPrev := none
            customStage := none
            nextRequestId := 0
            customPrev := none
            jobs := fun _ => none
            jobHead := 0
            proxyNotifyId
            notifies := [] }
        enonce1 := []
        nonce2len := split.en1 + split.en2
        clientsPerProxy := clientsPerProxy split.en1 }

/-! ### The ring -/

end OpenSlots

namespace Sv2Proxy

section JobSlots

local instance neZero_jobSlots : NeZero 32 := ⟨by decide⟩

/-- `sv2_proxy_job_slot`; the job is then at the old head. -/
def jobSlot (sp : Sv2Proxy) (job : Sv2ProxyJob) : Sv2Proxy :=
  { sp with
    jobs := Function.update sp.jobs sp.jobHead (some job)
    jobHead := sp.jobHead + 1 }

end JobSlots

/-- `sv2_proxy_find_job` -/
def findJob (sp : Sv2Proxy) (jobId : UInt32) : Option ProxySlot :=
  (List.finRange 32).find? fun i => (sp.jobs i).any fun job => job.jobId == jobId

/-- `sv2_proxy_want_clean` -/
def wantClean (sp : Sv2Proxy) (prev : Hash256) : Bool := sp.flushedPrev != some prev

/-! ### Notifies -/

/-- The strings of a job: what `sv2_proxy_send_job` writes into its `notify_instance`. -/
def notifyInstance (sp : Sv2Proxy) (job : Sv2ProxyJob) (clean : Bool) : NotifyInstance :=
  { id64 := sp.proxyNotifyId
    jobid := job.jobId
    prevhash := bin2hex (flip32 job.prevHash.bytes)
    coinbase1 := bin2hex job.coinb1
    coinbase2 := bin2hex job.coinb2
    coinb1len := job.coinb1.length
    merklehash := job.merklePath.map fun node => bin2hex node.bytes
    nbit := fmt08x job.nbits
    ntime := fmt08x
      (if job.future then (sp.tip.map AnnouncedTip.minNtime).getD 0 else job.minNtime)
    bbversion := fmt08x job.version
    clean
    custom := job.custom.map fun declared => { declared, enPrefix := sp.extranoncePrefix } }

/-- A job with its tip: a job of the pool takes the one last announced, if there is one. -/
def jobOnTip (sp : Sv2Proxy) (job : Sv2ProxyJob) : Option Sv2ProxyJob :=
  if job.custom.isSome then some job
  else sp.tip.map fun tip => { job with prevHash := tip.prevHash, nbits := tip.nbits }

/-- The proxy after a notify of `job`, which is at `slot`. -/
def notify (sp : Sv2Proxy) (slot : ProxySlot) (job : Sv2ProxyJob) (clean : Bool) : Sv2Proxy :=
  { sp with
    jobs := Function.update sp.jobs slot (some job)
    flushedPrev := if clean then some job.prevHash else sp.flushedPrev
    proxyNotifyId := sp.proxyNotifyId + 1
    notifies := sp.notifyInstance job clean :: sp.notifies }

/-- `sv2_proxy_send_job`, of the job at `slot`. -/
def sendJob (sp : Sv2Proxy) (slot : ProxySlot) (clean : Bool) : Sv2Proxy :=
  match (sp.jobs slot).bind sp.jobOnTip with
  | none => sp
  | some job =>
    if job.merklePath.length > genworkMaxMerkleDepth then sp else sp.notify slot job clean

/-! ### Frames -/

/-- The job of `NewExtendedMiningJob`: the pool's prefix, the prefix of the channel and the
zeros in `coinb1`, and no tip yet. -/
def poolJob (sp : Sv2Proxy) (j : Sv2.NewExtendedMiningJob) : Sv2ProxyJob :=
  { future := !j.minNtimePresent
    jobId := j.jobId
    version := j.version
    minNtime := j.minNtime
    merklePath := j.merklePath
    coinb1 := j.coinbaseTxPrefix ++ sp.extranoncePrefix ++ List.replicate sp.channel.padLen 0
    cbTxPrefixLen := j.coinbaseTxPrefix.length
    coinb2 := j.coinbaseTxSuffix
    prevHash := .zero
    nbits := 0
    custom := none }

/-- Custom work is live on the pool's tip. -/
def customLive (sp : Sv2Proxy) : Bool :=
  sp.workSrc == .localJd && sp.tip.any fun tip => sp.customPrev == some tip.prevHash

/-- `SV2_MSG_NEW_EXTENDED_MINING_JOB` -/
def newExtendedMiningJob (sp : Sv2Proxy) (j : Sv2.NewExtendedMiningJob) : Sv2Proxy :=
  if j.merklePath.length > genworkMaxMerkleDepth then sp
  else
    let slot := sp.jobHead
    let job := sp.poolJob j
    let sp := sp.jobSlot job
    if job.future then sp
    else if sp.customLive then sp
    else sp.sendJob slot false

/-- The work source that the relation of the tips asks for. -/
def workSrcOf (rel : Sv2TipRel) ( implausible : Bool) : Sv2WorkSrc :=
  match rel with
  | .ahead => if implausible then .pool else .bridge
  | .behind | .same | .noLocal => .pool

/-- `SV2_MSG_SET_NEW_PREV_HASH`.  `rel` and `implausible` are what the declaration client
answers about the tip. -/
def setNewPrevHash (sp : Sv2Proxy) (p : Sv2.SetNewPrevHash) (rel : Sv2TipRel)
    ( implausible : Bool) : Sv2Proxy :=
  match sp.findJob p.jobId with
  | none => { sp with wantReconnect := true }
  | some slot =>
    let customTip := sp.customPrev == some p.prevHash
    let sp :=
      { sp with
        tip := some ⟨p.prevHash, p.minNtime, p.nbits⟩
        customPrev := if customTip then sp.customPrev else none }
    if customTip then sp
    else
      let sp := { sp with workSrc := workSrcOf rel implausible }
      sp.sendJob slot (sp.wantClean p.prevHash)

/-- `SV2_MSG_SET_CUSTOM_MINING_JOB_SUCCESS` -/
def customSuccess (sp : Sv2Proxy) (requestId jobId : UInt32) : Sv2Proxy :=
  match sp.customStage with
  | none => sp
  | some stage =>
    if requestId ≠ stage.requestId then sp
    else
      let clean := sp.wantClean stage.job.prevHash
      let slot := sp.jobHead
      let sp :=
        { sp with
          customStage := none
          customPrev := some stage.job.prevHash }
      let sp := (sp.jobSlot { stage.job with jobId }).sendJob slot clean
      { sp with workSrc := .localJd }

/-- A `SetCustomMiningJob` is given up: `SV2_MSG_SET_CUSTOM_MINING_JOB_ERROR`, and a send that
failed. -/
def customDrop (sp : Sv2Proxy) (requestId : UInt32) : Sv2Proxy :=
  if sp.customStage.any fun stage => stage.requestId == requestId then
    { sp with customStage := none }
  else sp

/-- A job of the pool under a new prefix. -/
def rebuildJob (sp : Sv2Proxy) (job : Sv2ProxyJob) : Sv2ProxyJob :=
  if job.cbTxPrefixLen > job.coinb1.length then job
  else
    { job with
      coinb1 := job.coinb1.take job.cbTxPrefixLen ++ sp.extranoncePrefix ++
        List.replicate sp.channel.padLen 0 }

/-- The ring under a new prefix: custom jobs are dropped. -/
def rebuildJobs (sp : Sv2Proxy) : ProxySlot → Option Sv2ProxyJob := fun i =>
  match sp.jobs i with
  | none => none
  | some job => if job.custom.isSome then none else some (sp.rebuildJob job)

section MinableSlots

local instance neZero_minableSlots : NeZero 32 := ⟨by decide⟩

/-- The newest job that is not a future one. -/
def newestMinable (sp : Sv2Proxy) : Option ProxySlot :=
  ((List.finRange 32).map fun ji => sp.jobHead - 1 - ji).find? fun i =>
    (sp.jobs i).any fun job => !job.future

end MinableSlots

/-- There is a declared job, in the ring or staged. -/
def hadCustom (sp : Sv2Proxy) : Bool :=
  ((List.finRange 32).any fun i => (sp.jobs i).any fun job => job.custom.isSome) ||
    sp.customStage.isSome

/-- The new prefix, and every job of the pool rebuilt for it. -/
def withPrefix (sp : Sv2Proxy) (extranoncePrefix : Bytes) : Sv2Proxy :=
  { sp with
    extranoncePrefix
    jobs := { sp with extranoncePrefix }.rebuildJobs }

/-- The newest minable job goes down, so that downstream adopts the prefix. -/
def flushPrefix (sp : Sv2Proxy) : Sv2Proxy :=
  if sp.tip.isSome then
    match sp.newestMinable with
    | some slot => sp.sendJob slot true
    | none => sp
  else sp

/-- `SV2_MSG_SET_EXTRANONCE_PREFIX` -/
def setExtranoncePrefix (sp : Sv2Proxy) (extranoncePrefix : Bytes) : Sv2Proxy :=
  let flushed := (sp.withPrefix extranoncePrefix).flushPrefix
  if sp.hadCustom then
    { flushed with customStage := none, customPrev := none, workSrc := .pool }
  else { flushed with customStage := none }

end Sv2Proxy

/-! ### Declared jobs -/

/-- `sv2_jdc_custom_job`: the coinbase without its witness (`lcb`) and as it was declared
(`dcb`), on both sides of a hole of `holeLen` bytes. -/
structure Sv2JdcCustomJob where
  t : Sv2JdcTemplate
  token : Bytes
  outputs : Bytes
  lcbPrefix : Bytes
  lcbSuffix : Bytes
  dcbPrefix : Bytes
  dcbSuffix : Bytes
  holeLen : Nat

namespace Sv2Proxy

/-- The staged job, before the pool has given it a number. -/
def stageJob (sp : Sv2Proxy) (cj : Sv2JdcCustomJob) : Sv2ProxyJob :=
  { future := false
    jobId := 0
    version := cj.t.version
    minNtime := cj.t.ntime
    merklePath := cj.t.merklePath
    coinb1 := cj.lcbPrefix ++ sp.extranoncePrefix ++ List.replicate sp.channel.padLen 0
    cbTxPrefixLen := cj.lcbPrefix.length
    coinb2 := cj.lcbSuffix
    prevHash := cj.t.prevHash
    nbits := cj.t.nbits
    custom := some { tmpl := cj.t, dcbPrefix := cj.dcbPrefix, dcbSuffix := cj.dcbSuffix } }

/-- `sv2_proxy_set_custom_job`, up to its send.  `current` says that this proxy is the one in
use. -/
def setCustomJob (sp : Sv2Proxy) (cj : Sv2JdcCustomJob) (current : Bool) : Sv2Proxy :=
  if cj.token = [] ∨ cj.outputs = [] then sp
  else if cj.holeLen ≠ sp.extranoncePrefix.length + sp.channel.extranonceSize then sp
  else if ¬current then sp
  else if cj.t.merklePath.length > maxMerklePath then sp
  else
    { sp with
      nextRequestId := sp.nextRequestId + 1
      customStage := some { requestId := sp.nextRequestId + 1, job := sp.stageJob cj } }

/-- What can happen to the upstream of one proxy.  `bridgeTimeout` and `customTimeout` are the
timers of `sv2_proxy_service`; `otherNotify` is a notify of another proxy. -/
inductive Event
  | newExtendedMiningJob (j : Sv2.NewExtendedMiningJob)
  | setNewPrevHash (p : Sv2.SetNewPrevHash) (rel : Sv2TipRel) ( implausible : Bool)
  | customSuccess (requestId jobId : UInt32)
  | customError (requestId : UInt32)
  | setExtranoncePrefix (extranoncePrefix : Bytes)
  | reconnect
  | setCustomJob (cj : Sv2JdcCustomJob) (current : Bool)
  | customSendFailed (requestId : UInt32)
  | bridgeTimeout
  | customTimeout
  | otherNotify

/-- One event. -/
def step (sp : Sv2Proxy) : Event → Sv2Proxy
  | .newExtendedMiningJob j => sp.newExtendedMiningJob j
  | .setNewPrevHash p rel implausible => sp.setNewPrevHash p rel implausible
  | .customSuccess requestId jobId => sp.customSuccess requestId jobId
  | .customError requestId => sp.customDrop requestId
  | .setExtranoncePrefix extranoncePrefix => sp.setExtranoncePrefix extranoncePrefix
  | .reconnect => { sp with wantReconnect := true }
  | .setCustomJob cj current => sp.setCustomJob cj current
  | .customSendFailed requestId => sp.customDrop requestId
  | .bridgeTimeout => if sp.workSrc = .bridge then { sp with workSrc := .pool } else sp
  | .customTimeout => { sp with customStage := none }
  | .otherNotify => { sp with proxyNotifyId := sp.proxyNotifyId + 1 }

/-! ### What a send does -/

section Send

variable (sp : Sv2Proxy) (slot : ProxySlot) (job : Sv2ProxyJob) (clean : Bool)

/-- A send finds nothing to send, or it is a notify. -/
theorem sendJob_cases :
    sp.sendJob slot clean = sp ∨
      ∃ job₀ job, sp.jobs slot = some job₀ ∧ sp.jobOnTip job₀ = some job ∧
        sp.sendJob slot clean = sp.notify slot job clean := by
  rcases h : (sp.jobs slot).bind sp.jobOnTip with - | job
  · left
    simp only [sendJob, h]
  · obtain ⟨job₀, hslot, htip⟩ := Option.bind_eq_some_iff.mp h
    by_cases hlen : job.merklePath.length > genworkMaxMerkleDepth
    · left
      simp only [sendJob, h, if_pos hlen]
    · right
      refine ⟨job₀, job, hslot, htip, ?_⟩
      simp only [sendJob, h, if_neg hlen]

/-- What a send leaves as it is. -/
theorem sendJob_frame :
    (sp.sendJob slot clean).channel = sp.channel ∧
      (sp.sendJob slot clean).extranoncePrefix = sp.extranoncePrefix ∧
      (sp.sendJob slot clean).tip = sp.tip ∧
      (sp.sendJob slot clean).workSrc = sp.workSrc ∧
      (sp.sendJob slot clean).customStage = sp.customStage ∧
      (sp.sendJob slot clean).customPrev = sp.customPrev := by
  obtain h | ⟨-, job, -, -, h⟩ := sp.sendJob_cases slot clean <;> rw [h]
  · exact ⟨rfl, rfl, rfl, rfl, rfl, rfl⟩
  · exact ⟨rfl, rfl, rfl, rfl, rfl, rfl⟩

@[simp] theorem channel_sendJob : (sp.sendJob slot clean).channel = sp.channel :=
  (sp.sendJob_frame slot clean).1

@[simp] theorem extranoncePrefix_sendJob :
    (sp.sendJob slot clean).extranoncePrefix = sp.extranoncePrefix :=
  (sp.sendJob_frame slot clean).2.1

@[simp] theorem tip_sendJob : (sp.sendJob slot clean).tip = sp.tip :=
  (sp.sendJob_frame slot clean).2.2.1

@[simp] theorem workSrc_sendJob : (sp.sendJob slot clean).workSrc = sp.workSrc :=
  (sp.sendJob_frame slot clean).2.2.2.1

@[simp] theorem customStage_sendJob : (sp.sendJob slot clean).customStage = sp.customStage :=
  (sp.sendJob_frame slot clean).2.2.2.2.1

@[simp] theorem customPrev_sendJob : (sp.sendJob slot clean).customPrev = sp.customPrev :=
  (sp.sendJob_frame slot clean).2.2.2.2.2

@[simp] theorem jobSlot_at_head : (sp.jobSlot job).jobs sp.jobHead = some job :=
  Function.update_self ..

end Send

theorem newestMinable_eq_some {sp : Sv2Proxy} {slot : ProxySlot}
    (h : sp.newestMinable = some slot) : ∃ job, sp.jobs slot = some job ∧ job.future = false := by
  have hany := List.find?_some h
  rcases hjob : sp.jobs slot with - | job
  · simp [hjob] at hany
  · exact ⟨job, rfl, by simpa [hjob] using hany⟩

/-- A flush is a send of a job that is at hand, or nothing. -/
theorem flushPrefix_cases (sp : Sv2Proxy) :
    sp.flushPrefix = sp ∨ ∃ slot job, sp.jobs slot = some job ∧ job.future = false ∧
      sp.tip.isSome ∧ sp.flushPrefix = sp.sendJob slot true := by
  by_cases htip : sp.tip.isSome = true
  · rcases h : sp.newestMinable with - | slot
    · left
      rw [flushPrefix, if_pos htip, h]
    · right
      obtain ⟨job, hjob, hfuture⟩ := newestMinable_eq_some h
      refine ⟨slot, job, hjob, hfuture, htip, ?_⟩
      rw [flushPrefix, if_pos htip, h]
  · left
    rw [flushPrefix, if_neg htip]

/-- A flush changes neither the channel nor the prefix. -/
theorem flushPrefix_frame (sp : Sv2Proxy) : sp.flushPrefix.channel = sp.channel ∧
    sp.flushPrefix.extranoncePrefix = sp.extranoncePrefix := by
  obtain h | ⟨slot, job, -, -, -, h⟩ := sp.flushPrefix_cases <;> rw [h]
  · exact ⟨rfl, rfl⟩
  · exact ⟨channel_sendJob .., extranoncePrefix_sendJob ..⟩

/-- Every job of the ring satisfies `P`. -/
def JobsAll (P : Sv2ProxyJob → Prop) (sp : Sv2Proxy) : Prop :=
  ∀ slot job, sp.jobs slot = some job → P job

theorem JobsAll.update {P : Sv2ProxyJob → Prop} {sp : Sv2Proxy} (h : sp.JobsAll P)
    {job : Sv2ProxyJob} (hjob : P job) {slot i : ProxySlot} {job' : Sv2ProxyJob}
    (hi : Function.update sp.jobs slot (some job) i = some job') : P job' := by
  rw [Function.update_apply] at hi
  split at hi
  · obtain rfl := Option.some.inj hi
    exact hjob
  · exact h i job' hi

theorem JobsAll.jobSlot {P : Sv2ProxyJob → Prop} {sp : Sv2Proxy} (h : sp.JobsAll P)
    {job : Sv2ProxyJob} (hjob : P job) : (sp.jobSlot job).JobsAll P := by
  intro i job' hi
  exact h.update hjob hi

/-- A send gives a job of the pool its tip, and is no matter for what does not go by tips. -/
theorem JobsAll.sendJob {P : Sv2ProxyJob → Prop} {sp : Sv2Proxy} (h : sp.JobsAll P)
    (htip : ∀ job job', sp.jobOnTip job = some job' → P job → P job') (slot : ProxySlot)
    (clean : Bool) : (sp.sendJob slot clean).JobsAll P := by
  obtain hsend | ⟨job₀, job, hslot, hjob, hsend⟩ := sp.sendJob_cases slot clean
  · rw [hsend]
    exact h
  · rw [hsend]
    intro i job' hi
    exact h.update (htip job₀ job hjob (h slot job₀ hslot)) hi

/-- What a job on its tip is. -/
theorem jobOnTip_eq_some {sp : Sv2Proxy} {job job' : Sv2ProxyJob}
    (h : sp.jobOnTip job = some job') :
    job.custom.isSome = true ∧ job' = job ∨
      job.custom = none ∧ ∃ tip, sp.tip = some tip ∧
        job' = { job with prevHash := tip.prevHash, nbits := tip.nbits } := by
  rw [jobOnTip] at h
  by_cases hcustom : job.custom.isSome = true
  · rw [if_pos hcustom] at h
    exact Or.inl ⟨hcustom, (Option.some.inj h).symm⟩
  · rw [if_neg hcustom] at h
    obtain ⟨tip, htip, hjob⟩ := Option.map_eq_some_iff.mp h
    exact Or.inr ⟨Option.not_isSome_iff_eq_none.mp hcustom, tip, htip, hjob.symm⟩

/-! ### The channel stays -/

/-- The channel stays, and the prefix is the one that was set last. -/
theorem step_frame (sp : Sv2Proxy) (e : Event) : (sp.step e).channel = sp.channel ∧
    (sp.step e).extranoncePrefix =
      match e with
      | .setExtranoncePrefix extranoncePrefix => extranoncePrefix
      | _ => sp.extranoncePrefix := by
  cases e with
  | newExtendedMiningJob j =>
    simp only [step, newExtendedMiningJob]
    split_ifs
    · exact ⟨rfl, rfl⟩
    · exact ⟨rfl, rfl⟩
    · exact ⟨rfl, rfl⟩
    · exact ⟨channel_sendJob .., extranoncePrefix_sendJob ..⟩
  | setNewPrevHash p rel implausible =>
    simp only [step, setNewPrevHash]
    split
    · exact ⟨rfl, rfl⟩
    · split_ifs
      · exact ⟨rfl, rfl⟩
      · exact ⟨channel_sendJob .., extranoncePrefix_sendJob ..⟩
  | customSuccess requestId jobId =>
    simp only [step, customSuccess]
    split
    · exact ⟨rfl, rfl⟩
    · split_ifs
      · exact ⟨rfl, rfl⟩
      · exact ⟨channel_sendJob .., extranoncePrefix_sendJob ..⟩
  | setExtranoncePrefix extranoncePrefix =>
    have hflushed := (sp.withPrefix extranoncePrefix).flushPrefix_frame
    simp only [step, setExtranoncePrefix]
    split_ifs <;> exact hflushed
  | customError requestId | customSendFailed requestId =>
    simp only [step, customDrop]
    split_ifs <;> exact ⟨rfl, rfl⟩
  | setCustomJob cj current =>
    simp only [step, setCustomJob]
    split_ifs <;> exact ⟨rfl, rfl⟩
  | bridgeTimeout =>
    simp only [step]
    split_ifs <;> exact ⟨rfl, rfl⟩
  | reconnect | customTimeout | otherNotify => exact ⟨rfl, rfl⟩

theorem step_channel (sp : Sv2Proxy) (e : Event) : (sp.step e).channel = sp.channel :=
  (sp.step_frame e).1

end Sv2Proxy

/-! ### An upstream for examples -/

/-- A grant of six bytes: two for a client, four for its miner. -/
def exampleGrant : Sv2.OpenExtendedChannelSuccess where
  requestId := 1
  channelId := 3
  target := .zero
  extranonceSize := 6
  extranoncePrefix := [0xaa, 0xbb]
  groupChannelId := 0

/-- A future job with one node in its branch. -/
def exampleUpstreamJob : Sv2.NewExtendedMiningJob where
  channelId := 3
  jobId := 11
  minNtimePresent := false
  minNtime := 0
  version := 0x20000000
  versionRollingAllowed := true
  merklePath := [.zero]
  coinbaseTxPrefix := [1, 0, 0, 0]
  coinbaseTxSuffix := [0, 0, 0, 0]

/-- The tip that makes the job current. -/
def exampleUpstreamTip : Sv2.SetNewPrevHash where
  channelId := 3
  jobId := 11
  prevHash := .zero
  minNtime := 1700000000
  nbits := 0x1d00ffff

/-- The channel of the grant, without a configured `nonce2length`. -/
def exampleUpstream : Sv2ProxyOpened := (sv2ProxyOpen 0 7 exampleGrant).get (by decide)

end CashStratum
