/-
CashStratum/Pool.lean

The pool with its two halves (`sv2_strat.c` and `sv2_jd.c`): the mining channels with
their job rings under one lock, the job declarator with its tokens under another.
SetCustomMiningJob looks at the tokens and then notes a job in a ring, and these are
separate critical sections, so everything else may happen in between: frames of the job
declarator, clients that go, tips that change, shares.

The stratifier's part outside the two files (sessions, workbases, the accounting of a
share) is in the events.  `accepted`, `credited` and `sent` are records; nothing reads
them.
-/
import CashStratum.JdInvariant
import CashStratum.MiningChannel

namespace CashStratum

/-! ### State -/

/-- The configuration of the pool; `jdEnabled` is `sv2_jd_enabled`. -/
structure PoolConf where
  jd : JdConf
  jdEnabled : Bool

/-- `struct sv2_client`; `workSelection` is the flag `REQUIRES_WORK_SELECTION`. -/
structure Sv2Client where
  setupOk : Bool
  workSelection : Bool
  nextChannelId : UInt32

/-- A client as `client_get` creates it. -/
def Sv2Client.new : Sv2Client where
  setupOk := false
  workSelection := false
  nextChannelId := 1

/-- What SubmitSharesExtended carries. -/
structure SubmitSharesExtended where
  channelId : UInt32
  sequenceNumber : UInt32
  jobId : UInt32
  nonce : UInt32
  ntime : UInt32
  version : UInt32
  extranonce : Bytes

/-- `struct sv2_share_job`. -/
structure ShareJob where
  connectorId : Int
  instanceId : Int
  workbaseId : Int
  channelId : UInt32
  sequenceNumber : UInt32
  ntime : UInt32
  nonce : UInt32
  version : UInt32
  isCustom : Bool
  extranonce : Bytes
  en1 : Bytes
  custom : Option CustomJob

/-- The token of a custom job as the handler last saw it, and how many tokens had been
freed by then. -/
structure TokenSeen where
  tok : JdToken
  mark : Nat

/-- A custom job that was accepted, on the channel `uid`: its request, the token, and
the tip it was checked against. -/
structure AcceptedJob where
  uid : Nat
  req : SetCustomMiningJob
  seen : TokenSeen
  tip : JdTip
  jobId : UInt32

/-- The job itself. -/
def AcceptedJob.job (a : AcceptedJob) : CustomJob := customJob a.req a.tip.prevHash a.jobId

/-- A share on a custom job that was credited for its header, and the block it was
rebuilt into. -/
structure CreditedShare where
  share : ShareJob
  header : Bytes
  block : Option Bytes

/-- The frames the mining side sends about jobs and shares. -/
inductive PoolReply
  | setCustomSuccess (channelId requestId jobId : UInt32)
  | setCustomError (channelId requestId : UInt32) (code : String)
  | submitError (channelId sequenceNumber : UInt32) (code : String)

/-- Where a thread is between two critical sections. -/
inductive PoolThread
  | idle
  /-- `handle_set_custom_mining_job`: the channel is found. -/
  | channelFound (clientId : Int) (req : SetCustomMiningJob) (uid : Nat)
  /-- The token is declared. -/
  | tokenDeclared (clientId : Int) (req : SetCustomMiningJob) (uid : Nat)
  /-- The outputs are good for the token. -/
  | outputsFund (clientId : Int) (req : SetCustomMiningJob) (uid : Nat) (seen : TokenSeen)
  /-- The previous hash is that of the tip. -/
  | tipMatches (clientId : Int) (req : SetCustomMiningJob) (uid : Nat) (seen : TokenSeen)
      (tip : JdTip)
  /-- The workbase is known. -/
  | workKnown (clientId : Int) (req : SetCustomMiningJob) (uid : Nat) (seen : TokenSeen)
      (tip : JdTip) (wbId : Int)
  /-- `handle_submit_extended`: the channel is found. -/
  | submitting (clientId : Int) (sub : SubmitSharesExtended) (uid : Nat)
  /-- `sv2_strat_on_work_update`: the tip has changed. -/
  | tipChanged
  /-- The coalesce cache is empty. -/
  | clearing

/-- The request of a thread with the token it has seen. -/
def PoolThread.seen? : PoolThread → Option (SetCustomMiningJob × TokenSeen)
  | outputsFund _ req _ seen => some (req, seen)
  | tipMatches _ req _ seen _ => some (req, seen)
  | workKnown _ req _ seen _ _ => some (req, seen)
  | _ => none

/-- The state of the pool.  A channel is named by its place in `channels`, to which
channels are only added. -/
structure PoolState where
  jd : JdState
  clients : Int → Option Sv2Client
  channels : List MiningChannel
  threads : Nat → PoolThread
  lastTipPrev : Option Hash256
  shares : List ShareJob
  accepted : List AcceptedJob
  credited : List CreditedShare
  sent : List (Int × PoolReply)

/-- The pool when it starts. -/
def PoolState.start : PoolState where
  jd := .start
  clients := fun _ => none
  channels := []
  threads := fun _ => .idle
  lastTipPrev := none
  shares := []
  accepted := []
  credited := []
  sent := []

namespace PoolState

/-- A thread moves on. -/
def setThread (s : PoolState) (i : Nat) (t : PoolThread) : PoolState :=
  { s with threads := Function.update s.threads i t }

/-- A frame goes out. -/
def send (s : PoolState) (clientId : Int) (reply : PoolReply) : PoolState :=
  { s with sent := s.sent ++ [(clientId, reply)] }

/-- Change a channel. -/
def setChannel (s : PoolState) (uid : Nat) (f : MiningChannel → MiningChannel) : PoolState :=
  { s with channels := s.channels.modify uid f }

/-- Change a client. -/
def setClient (s : PoolState) (clientId : Int) (c : Sv2Client) : PoolState :=
  { s with clients := Function.update s.clients clientId (some c) }

/-- Change every channel. -/
def mapChannels (s : PoolState) (f : MiningChannel → MiningChannel) : PoolState :=
  { s with channels := s.channels.map f }

/-- `channel_find_ref`. -/
def findChannel (s : PoolState) (clientId : Int) (channelId : UInt32) : Option Nat :=
  s.channels.findIdx? fun ch =>
    ch.hashed && decide (ch.clientId = clientId) && decide (ch.channelId = channelId)

/-- The channel that custom jobs and extended shares may use: extended, with an
instance. -/
def extendedChannel (s : PoolState) (clientId : Int) (channelId : UInt32) : Option Nat :=
  (s.findChannel clientId channelId).filter fun uid =>
    (s.channels[uid]?).any fun ch => !ch.standard && decide (ch.instanceId ≠ 0)

/-! ### Channels -/

/-- `handle_open_standard` and `handle_open_extended`, once the stratifier has opened
the session `instanceId`. -/
def openChannel (s : PoolState) (clientId instanceId : Int) (standard : Bool) (enonce1 : Bytes)
    (extranonceSize : Nat) : PoolState :=
  match s.clients clientId with
  | none => s
  | some c =>
    let channelId := if c.nextChannelId = 0 then 1 else c.nextChannelId
    { s with
      channels := s.channels ++ [MiningChannel.opened clientId channelId instanceId standard
        enonce1 extranonceSize] }
      |>.setClient clientId { c with nextChannelId := channelId + 1 }

/-- Take the channels that satisfy a test out of the table. -/
def unhashWhere (s : PoolState) (test : MiningChannel → Bool) : PoolState :=
  s.mapChannels fun ch => if test ch then { ch with hashed := false } else ch

/-- `sv2_strat_drop_client`. -/
def dropMiningClient (s : PoolState) (clientId : Int) : PoolState :=
  { s with clients := Function.update s.clients clientId none }.unhashWhere
    fun ch => decide (ch.clientId = clientId)

/-- `sv2_strat_drop_all`. -/
def dropAllMining (s : PoolState) : PoolState :=
  { s with clients := fun _ => none }.unhashWhere fun _ => true

/-- `sv2_strat_clear_instance`. -/
def clearInstance (s : PoolState) (instanceId : Int) : PoolState :=
  if instanceId < 1 then s
  else s.mapChannels fun ch =>
    if ch.hashed ∧ ch.instanceId = instanceId then { ch with instanceId := 0 }.clearCustom else ch

/-- `version_rolling` of a job: whether the pool has a version mask. -/
def versionRolling (conf : PoolConf) : Bool := decide (conf.jd.ck.versionMask ≠ 0)

/-- `push_pool_job`, with what the snapshot of the work holds. -/
def pushPoolJob (conf : PoolConf) (s : PoolState) (uid : Nat) (wbId : Int) (version : UInt32) :
    PoolState :=
  s.setChannel uid fun ch => ch.noteJob wbId false none version (versionRolling conf)

/-- `sv2_strat_on_work_update`, up to the change of the tip. -/
def onWorkUpdate (s : PoolState) (i : Nat) : PoolState :=
  match s.jd.tip with
  | none => s.setThread i .tipChanged
  | some tip =>
    if s.lastTipPrev = some tip.prevHash then s
    else { s with lastTipPrev := some tip.prevHash }.setThread i .tipChanged

/-! ### SetCustomMiningJob -/

/-- The error of `handle_set_custom_mining_job`. -/
def customError (s : PoolState) (clientId : Int) (req : SetCustomMiningJob) (code : String) :
    PoolState :=
  s.send clientId (.setCustomError req.channelId req.requestId code)

/-- A thread answers an error and is done. -/
def failCustom (s : PoolState) (i : Nat) (clientId : Int) (req : SetCustomMiningJob)
    (code : String) : PoolState :=
  (s.customError clientId req code).setThread i .idle

/-- `handle_set_custom_mining_job`, up to the channel. -/
def setCustom (conf : PoolConf) (s : PoolState) (i : Nat) (clientId : Int)
    (req : SetCustomMiningJob) : PoolState :=
  match s.clients clientId with
  | none => s
  | some c =>
    if c.setupOk = false then s
    else if c.workSelection = false ∨ conf.jdEnabled = false then
      s.customError clientId req "unsupported-feature-flags"
    else
      match s.extendedChannel clientId req.channelId with
      | none => s.customError clientId req "invalid-channel-id"
      | some uid => s.setThread i (.channelFound clientId req uid)

/-- `handle_set_custom_mining_job`: note the job in the ring. -/
def noteCustom (conf : PoolConf) (s : PoolState) (i : Nat) (clientId : Int)
    (req : SetCustomMiningJob) (uid : Nat) (seen : TokenSeen) (tip : JdTip) (wbId : Int) :
    PoolState :=
  match s.channels[uid]? with
  | none => s
  | some ch =>
    let jobId := nextJobId ch.jobSeq
    let a : AcceptedJob := { uid := uid, req := req, seen := seen, tip := tip, jobId := jobId }
    { s with accepted := s.accepted ++ [a] }
      |>.setChannel uid (fun ch =>
        ch.noteJob wbId true (some a.job) req.version (versionRolling conf))
      |>.send clientId (.setCustomSuccess req.channelId req.requestId jobId)
      |>.setThread i .idle

/-! ### Shares -/

/-- The error of `handle_submit_extended`. -/
def submitError (s : PoolState) (clientId : Int) (sub : SubmitSharesExtended) (code : String) :
    PoolState :=
  s.send clientId (.submitError sub.channelId sub.sequenceNumber code)

/-- `handle_submit_extended`, up to the channel. -/
def submitExtended (s : PoolState) (i : Nat) (clientId : Int) (sub : SubmitSharesExtended) :
    PoolState :=
  match s.extendedChannel clientId sub.channelId with
  | none => s.submitError clientId sub "invalid-channel-id"
  | some uid => s.setThread i (.submitting clientId sub uid)

/-- `handle_submit_extended`: the share job of a share, or the error. -/
def shareJob (ck : Ckpool) (ch : MiningChannel) (clientId : Int) (sub : SubmitSharesExtended) :
    Except String ShareJob :=
  match ch.lookupJob sub.jobId with
  | none => .error "invalid-job-id"
  | some slot =>
    let cj := if slot.custom then slot.customJob else none
    if sub.extranonce.length ≠ ch.extranonceSize then .error "invalid-extranonce-size"
    else if MiningChannel.submitVersionOk ck.versionMask sub.version slot.version
        slot.versionRolling = false then .error "invalid-share"
    else if slot.custom = true ∧ cj.isNone then .error "invalid-job-id"
    else .ok
      { connectorId := clientId
        instanceId := ch.instanceId
        workbaseId := slot.workbaseId
        channelId := sub.channelId
        sequenceNumber := sub.sequenceNumber
        ntime := sub.ntime
        nonce := sub.nonce
        version := sub.version
        isCustom := slot.custom
        extranonce := sub.extranonce
        en1 := ch.enonce1.take 16
        custom := cj }

/-- `handle_submit_extended`: look the job up and queue the share, if the queue takes
it. -/
def enqueueShare (ck : Ckpool) (s : PoolState) (i : Nat) (clientId : Int)
    (sub : SubmitSharesExtended) (uid : Nat) (queued : Bool) : PoolState :=
  match s.channels[uid]? with
  | none => s
  | some ch =>
    match shareJob ck ch clientId sub with
    | .error code => (s.submitError clientId sub code).setThread i .idle
    | .ok job =>
      if queued then { s with shares := s.shares ++ [job] }.setThread i .idle
      else (s.submitError clientId sub "internal-error").setThread i .idle

/-- The block a share that meets the network target is rebuilt into. -/
def rebuildShare (s : PoolState) (job : ShareJob) (cj : CustomJob) : Option Bytes :=
  if cj.token = [] ∨ job.en1.length + job.extranonce.length > 32 then none
  else s.jd.table.rebuildSolvedBlock cj.token (job.en1 ++ job.extranonce) job.version job.ntime
    job.nonce cj.nbits cj.prevHash

/-- `sv2_strat_process_share_job`, of a custom job.  `accounted` is what
`stratifier_sv2_account_share` says: an error, or whether the share meets the network
target. -/
def processShare (s : PoolState) (job : ShareJob) (accounted : Except String Bool) : PoolState :=
  let reject := fun code =>
    s.send job.connectorId (.submitError job.channelId job.sequenceNumber code)
  if job.isCustom then
    match job.custom with
    | none => reject "invalid-job-id"
    | some cj =>
      match cj.validateCustomShare job.en1 job.extranonce job.ntime job.nonce job.version with
      | .error code => reject code
      | .ok header =>
        match accounted with
        | .error code => reject code
        | .ok netdiff =>
          { s with
            credited := s.credited ++ [{
              share := job
              header := header
              block := if netdiff then s.rebuildShare job cj else none }] }
  else s

end PoolState

open PoolState

/-! ### Runs -/

/-- What comes of outside to a thread that goes on: the workbase of the snapshot, and
whether the queue of shares takes one more. -/
structure PoolInput where
  wbId : Option Int
  queued : Bool

/-- What can happen next in the pool. -/
inductive PoolEvent
  /-- A step of the job declarator. -/
  | jd (e : JdEvent)
  /-- `sv2_strat_note_client`. -/
  | noteClient (clientId : Int)
  /-- A SetupConnection that is accepted. -/
  | setup (clientId : Int) (workSelection : Bool)
  /-- A channel is opened. -/
  | openChannel (clientId instanceId : Int) (standard : Bool) (enonce1 : Bytes)
      (extranonceSize : Nat)
  /-- A channel is closed. -/
  | closeChannel (clientId : Int) (channelId : UInt32)
  /-- `sv2_strat_drop_client`. -/
  | dropClient (clientId : Int)
  /-- `sv2_strat_drop_all`. -/
  | dropAll
  /-- `sv2_strat_clear_instance`. -/
  | clearInstance (instanceId : Int)
  /-- `push_pool_job`. -/
  | pushPoolJob (uid : Nat) (wbId : Int) (version : UInt32)
  /-- A thread starts `sv2_strat_on_work_update`. -/
  | workUpdate (thread : Nat)
  /-- A thread takes a SetCustomMiningJob. -/
  | setCustom (thread : Nat) (clientId : Int) (req : SetCustomMiningJob)
  /-- A thread takes a SubmitSharesExtended. -/
  | submit (thread : Nat) (clientId : Int) (sub : SubmitSharesExtended)
  /-- A worker takes a share off the queue. -/
  | shareWork (accounted : Except String Bool)
  /-- A thread goes on. -/
  | go (thread : Nat) (inp : PoolInput)

namespace PoolState

/-- Whether a thread is free. -/
def isIdle (s : PoolState) (i : Nat) : Bool :=
  match s.threads i with
  | .idle => true
  | _ => false

/-- A thread goes on to its next critical section. -/
def goOn (conf : PoolConf) (s : PoolState) (i : Nat) (inp : PoolInput) : PoolState :=
  match s.threads i with
  | .idle => s
  | .channelFound clientId req uid =>
    if s.jd.table.tokenIsDeclared req.miningJobToken then
      s.setThread i (.tokenDeclared clientId req uid)
    else s.failCustom i clientId req "invalid-mining-job-token"
  | .tokenDeclared clientId req uid =>
    match s.jd.table.fundedToken conf.jd.ck s.jd.tipHeight req.miningJobToken
        req.coinbaseTxOutputs with
    | none => s.failCustom i clientId req "invalid-coinbase-tx-outputs"
    | some tok =>
      s.setThread i (.outputsFund clientId req uid
        { tok := tok, mark := s.jd.table.freed.length })
  | .outputsFund clientId req uid seen =>
    match requestTip s.jd.tip req.prevHash with
    | none => s.failCustom i clientId req "stale-prev-hash"
    | some tip =>
      if req.merklePath.length > sv2MaxMerklePath then
        s.failCustom i clientId req "invalid-merkle-path"
      else s.setThread i (.tipMatches clientId req uid seen tip)
  | .tipMatches clientId req uid seen tip =>
    s.setThread i (.workKnown clientId req uid seen tip (inp.wbId.getD 0))
  | .workKnown clientId req uid seen tip wbId => noteCustom conf s i clientId req uid seen tip wbId
  | .submitting clientId sub uid => enqueueShare conf.jd.ck s i clientId sub uid inp.queued
  | .tipChanged => { s with jd := jdStep conf.jd s.jd .onTipChange }.setThread i .clearing
  | .clearing =>
    (s.mapChannels fun ch => if ch.hashed then ch.clearCustom else ch).setThread i .idle

end PoolState

/-- One step of the pool. -/
def poolStep (conf : PoolConf) (s : PoolState) : PoolEvent → PoolState
  | .jd e => { s with jd := jdStep conf.jd s.jd e }
  | .noteClient clientId => s.setClient clientId ((s.clients clientId).getD .new)
  | .setup clientId workSelection =>
    s.setClient clientId
      { (s.clients clientId).getD .new with setupOk := true, workSelection := workSelection }
  | .openChannel clientId instanceId standard enonce1 extranonceSize =>
    s.openChannel clientId instanceId standard enonce1 extranonceSize
  | .closeChannel clientId channelId =>
    s.unhashWhere fun ch => decide (ch.clientId = clientId) && decide (ch.channelId = channelId)
  | .dropClient clientId => s.dropMiningClient clientId
  | .dropAll => s.dropAllMining
  | .clearInstance instanceId => s.clearInstance instanceId
  | .pushPoolJob uid wbId version => PoolState.pushPoolJob conf s uid wbId version
  | .workUpdate i => if s.isIdle i then s.onWorkUpdate i else s
  | .setCustom i clientId req => if s.isIdle i then PoolState.setCustom conf s i clientId req else s
  | .submit i clientId sub => if s.isIdle i then s.submitExtended i clientId sub else s
  | .shareWork accounted =>
    match s.shares with
    | [] => s
    | job :: shares => { s with shares := shares }.processShare job accounted
  | .go i inp => goOn conf s i inp

/-- The states a pool can be in. -/
def poolRun (conf : PoolConf) (events : List PoolEvent) : PoolState :=
  run (poolStep conf) .start events

end CashStratum
