/-
CashStratum/Rejects.lean

Which submissions are counted as rejected (`account_reject` of `stratifier.c`, and the
functions that call it: `parse_submit`, `stratifier_sv2_submit_share` and
`stratifier_sv2_account_share`; and `sv2_strat.c`, which answers SV2 submissions).

Two books are kept here that no code reads: `answers`, what submissions were answered,
and `credits`, the calls of `account_reject`.  `RejectLaw` compares them with each other
and with the counters.  An SV2 submission is looked at twice: its handler finds the
channel and the job and queues the share, and a worker hashes and accounts it.  Both
answer what they refuse on their own, and only what gets through to the stratifier
(`Reaches`) is credited.

A share is one step here, as if under one lock; the work of the pool changes in any way
between two steps.  The elements of `params` are C strings, cut at a NUL.
-/
import CashStratum.CText
import CashStratum.Pool
import CashStratum.RejectStats
import CashStratum.ShareTable
import CashStratum.Sv2Target

namespace CashStratum

open Function

variable {id : Int}

namespace Rejects

/-! ### The reasons -/

/-- `enum share_err`, without `SE_INVALID_NONCE2`, which is never set. -/
inductive ShareErr
  | workerMismatch
  | noNonce
  | noNtime
  | noNonce2
  | noJobid
  | noUsername
  | invalidSize
  | notArray
  | none
  | invalidJobid
  | stale
  | ntimeInvalid
  | dupe
  | highDiff
  | invalidVersionMask
  | noWorkbase
  | noUserCoinbase
deriving DecidableEq

/-- `share_err_bucket` -/
def shareErrBucket : ShareErr → RejectBucket
  | .stale => .stale
  | .dupe => .duplicate
  | .highDiff => .lowdiff
  | .ntimeInvalid => .ntime
  | .invalidJobid | .noWorkbase | .noUserCoinbase => .badjob
  | .workerMismatch => .worker
  | _ => .malformed

/-- `SHARE_ERR` -/
def shareErr : ShareErr → String
  | .workerMismatch => "Worker mismatch"
  | .noNonce => "No nonce"
  | .noNtime => "No ntime"
  | .noNonce2 => "No nonce2"
  | .noJobid => "No job_id"
  | .noUsername => "No username"
  | .invalidSize => "Invalid array size"
  | .notArray => "Params not array"
  | .none => "Valid"
  | .invalidJobid => "Invalid JobID"
  | .stale => "Stale"
  | .ntimeInvalid => "Ntime out of range"
  | .dupe => "Duplicate"
  | .highDiff => "Above target"
  | .invalidVersionMask => "Invalid version mask"
  | .noWorkbase => "No workbase"
  | .noUserCoinbase => "No user coinbase"

/-! ### State -/

/-- The fields of `struct stratum_instance` that submissions read.  A client that is
authorised has its user and its worker. -/
structure SubmitClient where
  workername : Bytes := []
  user : Option Bytes := none
  worker : Option Bytes := none
  authorised : Bool := false
  dropped : Bool := false
  diff : Int
  oldDiff : Int
  diffChangeJobId : Int := 0
  latency : Int
  cap : RejectCap
  owned : authorised = true → user.isSome ∧ worker.isSome := by simp

/-- The answer to a submission of a client, with the difficulty it was assigned. -/
structure Answer where
  client : Int
  user : Option Bytes
  worker : Option Bytes
  authorised : Bool
  accepted : Bool
  diff : Int

/-- A call of `account_reject` for a client, with what is credited. -/
structure Credit where
  client : Int
  user : Option Bytes
  worker : Option Bytes
  authorised : Bool
  amount : ℚ

/-- The counters of users and workers by their names, and the books. -/
structure RejectBooks where
  users : Bytes → RejectStats := fun _ => {}
  workers : Bytes → RejectStats := fun _ => {}
  answers : List Answer := []
  credits : List Credit := []

/-- The stratifier, as far as submissions are concerned: its clients, the channels by
client and channel id, the shares that are queued, and the work. -/
structure SubmitState where
  clients : Int → Option SubmitClient
  channels : Int → UInt32 → Option MiningChannel
  jobs : List ShareJob
  work : ShareData
  stats : ShareStats
  books : RejectBooks

/-- The stratifier when it starts. -/
def SubmitState.start (randomiser : Int) : SubmitState where
  clients := fun _ => none
  channels := fun _ _ => none
  jobs := []
  work := .start randomiser
  stats := {}
  books := {}

namespace RejectBooks

variable (b : RejectBooks)

/-- `account_reject`: nobody is credited for a client with neither a worker nor a user. -/
def accountReject (id : Int) (client : SubmitClient) (diff : ℚ) (bucket : RejectBucket)
    (reason : String) (now : Int) : RejectBooks :=
  if client.worker = none ∧ client.user = none then b
  else
    let rdiff := client.cap.creditedRejectDiff diff
    let add := fun (stats : Bytes → RejectStats) (name : Option Bytes) =>
      match name with
      | none => stats
      | some name => update stats name ((stats name).addReject rdiff bucket reason now)
    { b with
      workers := add b.workers client.worker
      users := add b.users client.user
      credits := b.credits ++ [{
        client := id, user := client.user, worker := client.worker
        authorised := client.authorised, amount := rdiff }] }

/-- The answer to a submission. -/
def answer (id : Int) (client : SubmitClient) (accepted : Bool) (diff : Int) : RejectBooks :=
  { b with
    answers := b.answers ++ [{
      client := id, user := client.user, worker := client.worker
      authorised := client.authorised, accepted, diff }] }

end RejectBooks

/-! ### What becomes of a share -/

/-- What the functions below find about a share: why it is rejected, the difficulty it is
accounted at, whether `add_submit` is called, and the table of shares after it. -/
structure Verdict where
  reject : Option (RejectBucket × String)
  diff : Int
  added : Bool
  work : ShareData

/-- `diff_from_target` of a hash. -/
def hashDiff (hash : Hash256) : ℚ := truediffone / max 1 (leNat hash.bytes)

/-- `MIN(diff, client->old_diff)` until the workbase of the last change. -/
def SubmitClient.submitDiff (client : SubmitClient) (id : Int) : Int :=
  if id < client.diffChangeJobId then min client.diff client.oldDiff else client.diff

/-- The same for SV2. -/
def SubmitClient.sv2Diff (client : SubmitClient) (id : Int) : Int :=
  if id ≠ 0 ∧ id < client.diffChangeJobId ∧ 0 < client.oldDiff then min client.diff client.oldDiff
  else client.diff

/-- Whether `new_share` takes a share. -/
def isNew (sd : ShareData) (share : Presentation) : Bool :=
  !decide (share.hash ∈ sd.shares.map Prod.fst)

/-- The end of all three: `new_share` for a share that meets its difficulty. -/
def present (sd : ShareData) (share : Presentation) (diff : Int)
    (dupe low : RejectBucket × String) : Verdict :=
  if (diff : ℚ) ≤ hashDiff share.hash then
    if isNew sd share then ⟨none, diff, true, sd.newShare share⟩ else ⟨some dupe, diff, true, sd⟩
  else ⟨some low, diff, true, sd⟩

/-! ### SV1 -/

/-- `sscanf` with `%lx` into a zero. -/
def sscanfLx (text : Bytes) : Int :=
  let body := skipSpace text
  let negative := decide (body.head? = some 45)
  let body := if body.head? = some 45 ∨ body.head? = some 43 then body.tail else body
  let body := if body.take 2 = [48, 120] ∨ body.take 2 = [48, 88] then body.drop 2 else body
  let value := hexNatFrom 0 body
  if 2 ^ 64 ≤ value then -1 else if negative then (-value : Int).bmod (2 ^ 64)
  else (value : Int).bmod (2 ^ 64)

/-- The fields that `parse_submit` goes on with. -/
structure SubmitFields where
  jobId : Int
  ntime : UInt32

/-- The front of `parse_submit`.  `params` is nothing for a value that is no array, and an
element that is no string is nothing either. -/
def readSubmit (versionMask : UInt32) (workername : Bytes) (params : Option (List (Option Bytes))) :
    Except ShareErr SubmitFields :=
  match params with
  | none => .error .notArray
  | some elems =>
    let str := fun i : Nat => ((elems[i]?).join).getD []
    if elems.length < 5 then .error .invalidSize
    else if str 0 = [] then .error .noUsername
    else if str 1 = [] then .error .noJobid
    else if str 2 = [] ∨ ¬validhex (str 2) then .error .noNonce2
    else if str 3 = [] ∨ ¬validhex (str 3) then .error .noNtime
    else if (str 4).length < 8 ∨ ¬validhex (str 4) then .error .noNonce
    else if str 5 ≠ [] ∧ validhex (str 5) ∧ strtoulHex (str 5) ≠ 0 ∧
        ~~~versionMask &&& strtoulHex (str 5) ≠ 0 then .error .invalidVersionMask
    else if str 0 ≠ workername then .error .workerMismatch
    else .ok { jobId := sscanfLx (str 1), ntime := strtoulHex (str 3) }

/-- A rejection of `parse_submit`. -/
def sv1Reject (err : ShareErr) : Option (RejectBucket × String) :=
  some (shareErrBucket err, shareErr err)

/-- `parse_submit`.  `hash` is what `submission_diff` hashes to, if the client has a coinbase
on the workbase. -/
def parseSubmit (versionMask : UInt32) (client : SubmitClient) (sd : ShareData)
    (params : Option (List (Option Bytes))) (hash : Option Hash256) (nowMs : Int) : Verdict :=
  match readSubmit versionMask client.workername params with
  | .error err => ⟨sv1Reject err, client.diff, false, sd⟩
  | .ok fields =>
    match sd.currentWorkbase with
    | none => ⟨sv1Reject .noWorkbase, client.diff, false, sd⟩
    | some cur =>
      match sd.findWorkbase fields.jobId with
      | none => ⟨sv1Reject .invalidJobid, client.submitDiff cur.id, true, sd⟩
      | some wb =>
        let diff := client.submitDiff fields.jobId
        match hash with
        | none => ⟨sv1Reject .noUserCoinbase, diff, true, sd⟩
        | some hash =>
          let share : Presentation := { hash, wbId := fields.jobId }
          let submit := decide (wb.diff ≤ hashDiff hash) ||
            decide (cur.networkDiff ≤ hashDiff hash)
          let graced := decide (client.latency ≠ 0) &&
            decide (ShareData.msTvdiff nowMs wb.retired < client.latency)
          if fields.jobId < sd.blockchangeId ∧ graced = false then
            -- a stale share may count for the rate once
            ⟨sv1Reject .stale, diff, true,
              if submit = true ∧ (diff : ℚ) ≤ hashDiff hash then sd.newShare share else sd⟩
          else if ShareData.ntimeOk wb fields.ntime = false then
            ⟨sv1Reject .ntimeInvalid, diff, true, sd⟩
          else
            present sd share diff (shareErrBucket .dupe, shareErr .dupe)
              (shareErrBucket .highDiff, shareErr .highDiff)

/-! ### SV2 -/

/-- `stratifier_sv2_submit_share` of a client. -/
def sv2SubmitShare (client : SubmitClient) (sd : ShareData) (wbId : Int) (ntime : UInt32)
    (extranonce : Bytes) (hash : Option Hash256) : Verdict :=
  if client.authorised = false then
    ⟨some (.worker, "unauthorized-worker"), client.diff, false, sd⟩
  else
    match sd.findWorkbase wbId with
    | none => ⟨some (.badjob, "invalid-job-id"), client.diff, false, sd⟩
    | some wb =>
      let n2len := min (max wb.enonce2varlen 1) 31
      if extranonce ≠ [] ∧ extranonce.length ≠ n2len then
        ⟨some (.badjob, "invalid-extranonce-size"), client.diff, false, sd⟩
      else
        match hash with
        | none => ⟨some (.badjob, "invalid-job-id"), client.diff, false, sd⟩
        | some hash =>
          if wbId < sd.blockchangeId then ⟨some (.stale, "stale-share"), client.diff, false, sd⟩
          else if ShareData.ntimeOk wb ntime = false then
            ⟨some (.ntime, "invalid-ntime"), client.diff, false, sd⟩
          else
            present sd { hash, wbId } (client.sv2Diff wbId) (.duplicate, "duplicate-share")
              (.lowdiff, "difficulty-too-low")

/-- `stratifier_sv2_account_share` of a client. -/
def sv2AccountShare (client : SubmitClient) (sd : ShareData) (wbId : Int) (hash : Hash256) :
    Verdict :=
  if client.authorised = false then
    ⟨some (.worker, "unauthorized-worker"), client.diff, false, sd⟩
  else
    let wbId := if wbId = 0 then sd.current.getD 0 else wbId
    present sd { hash, wbId } (client.sv2Diff wbId) (.duplicate, "duplicate-share")
      (.lowdiff, "difficulty-too-low")

/-- What SubmitSharesStandard carries. -/
structure SubmitSharesStandard where
  channelId : UInt32
  sequenceNumber : UInt32
  jobId : UInt32
  nonce : UInt32
  ntime : UInt32
  version : UInt32

/-- `handle_submit_standard`: the share job, or the error. -/
def standardJob (versionMask : UInt32) (ch : MiningChannel) (clientId : Int)
    (sub : SubmitSharesStandard) : Except String ShareJob :=
  if ch.standard = false ∨ ch.instanceId = 0 then .error "invalid-channel-id"
  else
    match ch.lookupJob sub.jobId with
    | none => .error "invalid-job-id"
    | some slot =>
      if MiningChannel.submitVersionOk versionMask sub.version slot.version slot.versionRolling
          = false then .error "invalid-share"
      else .ok
        { connectorId := clientId
          instanceId := ch.instanceId
          workbaseId := slot.workbaseId
          channelId := sub.channelId
          sequenceNumber := sub.sequenceNumber
          ntime := sub.ntime
          nonce := sub.nonce
          version := sub.version
          isCustom := false
          extranonce := []
          en1 := []
          custom := none }

/-- `handle_submit_extended`: the share job, or the error. -/
def extendedJob (ck : Ckpool) (ch : MiningChannel) (clientId : Int) (sub : SubmitSharesExtended) :
    Except String ShareJob :=
  if ch.standard = true ∨ ch.instanceId = 0 then .error "invalid-channel-id"
  else PoolState.shareJob ck ch clientId sub

/-- The front of `sv2_strat_process_share_job`: the hash of a custom job's share, or the error
it answers before the stratifier sees the share. -/
def checkJob (job : ShareJob) : Except String (Option Hash256) :=
  if job.isCustom then
    match job.custom with
    | none => .error "invalid-job-id"
    | some cj =>
      match cj.validateCustomShare job.en1 job.extranonce job.ntime job.nonce job.version with
      | .error code => .error code
      | .ok header => .ok (some (genHash header))
  else if 64 ≤ job.extranonce.length * 2 then .error "invalid-extranonce-size"
  else .ok none

/-- What the stratifier says to a share job of a client. -/
def processJob (client : SubmitClient) (sd : ShareData) (job : ShareJob) (custom : Option Hash256)
    (hash : Option Hash256) : Verdict :=
  match custom with
  | some hash => sv2AccountShare client sd job.workbaseId hash
  | none => sv2SubmitShare client sd job.workbaseId job.ntime job.extranonce hash

/-! ### The machine -/

/-- What can happen. -/
inductive SubmitEvent
  /-- A client connects, or a channel opens a session. -/
  | connect (id startDiff latency : Int)
  /-- `generate_user` and `client_auth`. -/
  | authorise (id : Int) (workername user worker : Bytes) (ret : Bool)
  /-- A client loses its authorisation. -/
  | revoke (id : Int)
  /-- The difficulty of a client changes. -/
  | retarget (id diff oldDiff jobId : Int)
  /-- A client goes. -/
  | drop (id : Int)
  /-- Workbases come and go, shares are forgotten, and the pool sums its counters up. -/
  | newWork (work : ShareData) (stats : ShareStats)
  /-- Channels and their jobs come and go. -/
  | newChannels (channels : Int → UInt32 → Option MiningChannel)
  /-- A mining.submit is processed. -/
  | submit (id : Int) (params : Option (List (Option Bytes))) (hash : Option Hash256)
      (nowMs now : Int)
  /-- A SubmitSharesStandard comes in; `queued` says whether its share gets into the queue. -/
  | submitStandard (clientId : Int) (sub : SubmitSharesStandard) (queued : Bool)
  /-- A SubmitSharesExtended comes in. -/
  | submitExtended (clientId : Int) (sub : SubmitSharesExtended) (queued : Bool)
  /-- A worker takes a share off the queue. -/
  | shareWork (i : Nat) (hash : Option Hash256) (now : Int)

namespace SubmitState

variable (ck : Ckpool) (s : SubmitState)

/-- `ref_instance_by_id` -/
def find (id : Int) : Option SubmitClient := (s.clients id).filter fun client => !client.dropped

/-- Change a client. -/
def modify (id : Int) (f : SubmitClient → SubmitClient) : SubmitState :=
  { s with clients := update s.clients id ((s.clients id).map f) }

/-- `add_submit`, as far as the cap of the client and the counters of the pool go. -/
def account (id : Int) (client : SubmitClient) (v : Verdict) : SubmitState :=
  let s := { s with work := v.work }
  if v.added then
    let (stats, cap) := s.stats.accountClientShare client.cap v.diff v.reject.isNone
    { s with stats, clients := update s.clients id (some { client with cap }) }
  else s

/-- The end of a submission: the share is accounted and answered. -/
def settle (id : Int) (client : SubmitClient) (v : Verdict) (now : Int) : SubmitState :=
  let s := s.account id client v
  match v.reject with
  | none => { s with books := s.books.answer id client true v.diff }
  | some (bucket, reason) =>
    let books := s.books.accountReject id client v.diff bucket reason now
    { s with books := books.answer id client false v.diff }

/-- An error that `sv2_strat.c` answers on its own. -/
def refuse (id : Int) : SubmitState :=
  match s.find id with
  | none => s
  | some client => { s with books := s.books.answer id client false client.diff }

/-- A share job is queued, or its error is answered. -/
def enqueue (id : Int) (job : Except String ShareJob) (queued : Bool) : SubmitState :=
  match job with
  | .error _ => s.refuse id
  | .ok job => if queued then { s with jobs := s.jobs ++ [job] } else s.refuse id

/-- One step. -/
def step (s : SubmitState) : SubmitEvent → SubmitState
  | .connect id startDiff latency =>
    match s.clients id with
    | some _ => s
    | none =>
      { s with clients := update s.clients id (some
          { diff := startDiff, oldDiff := startDiff, latency
            cap := { maxAcceptedDiff := 0, startDiff } }) }
  | .authorise id workername user worker ret =>
    s.modify id fun client =>
      { client with
        workername, user := some user, worker := some worker
        authorised := client.authorised || ret
        owned := fun _ => ⟨rfl, rfl⟩ }
  | .revoke id =>
    s.modify id fun client => { client with authorised := false, owned := fun h => by cases h }
  | .retarget id diff oldDiff jobId =>
    s.modify id fun client => { client with diff, oldDiff, diffChangeJobId := jobId }
  | .drop id => s.modify id fun client => { client with dropped := true }
  | .newWork work stats => { s with work, stats }
  | .newChannels channels => { s with channels }
  | .submit id params hash nowMs now =>
    match s.find id with
    | none => s
    | some client =>
      if client.authorised then
        s.settle id client (parseSubmit ck.versionMask client s.work params hash nowMs) now
      else s
  | .submitStandard clientId sub queued =>
    match s.channels clientId sub.channelId with
    | none => s
    | some ch => s.enqueue ch.instanceId (standardJob ck.versionMask ch clientId sub) queued
  | .submitExtended clientId sub queued =>
    match s.channels clientId sub.channelId with
    | none => s
    | some ch => s.enqueue ch.instanceId (extendedJob ck ch clientId sub) queued
  | .shareWork i hash now =>
    match s.jobs[i]? with
    | none => s
    | some job =>
      let s : SubmitState := { s with jobs := s.jobs.eraseIdx i }
      match checkJob job with
      | .error _ => s.refuse job.instanceId
      | .ok custom =>
        match s.find job.instanceId with
        | none => s
        | some client =>
          s.settle job.instanceId client (processJob client s.work job custom hash) now

end SubmitState

/-! ### The law -/

/-- Who an answer goes to. -/
def Answer.whom (a : Answer) : Int × Option Bytes × Option Bytes := (a.client, a.user, a.worker)

/-- Whom a credit is for. -/
def Credit.whom (c : Credit) : Int × Option Bytes × Option Bytes := (c.client, c.user, c.worker)

namespace RejectBooks

variable (b : RejectBooks)

/-- The rejections that authorised clients were answered. -/
def rejections : List (Int × Option Bytes × Option Bytes) :=
  (b.answers.filter fun a => a.authorised && !a.accepted).map Answer.whom

/-- The credits of authorised clients. -/
def credited : List (Int × Option Bytes × Option Bytes) :=
  (b.credits.filter fun c => c.authorised).map Credit.whom

/-- What a worker was credited. -/
def workerCredits (name : Bytes) : List ℚ :=
  (b.credits.filter fun c => c.worker = some name).map Credit.amount

/-- What a user was credited. -/
def userCredits (name : Bytes) : List ℚ :=
  (b.credits.filter fun c => c.user = some name).map Credit.amount

/-- A client was answered that it has a share accepted at no less than `amount`. -/
def Met (client : Int) (amount : ℚ) : Prop :=
  ∃ a ∈ b.answers, a.client = client ∧ a.accepted = true ∧ amount ≤ a.diff

end RejectBooks

/-- **The law of rejects.**  The credits of authorised clients are their rejections, one for
one, each to a worker and a user; the counters are those of the credits; and no credit is
more than the difficulty the connection started with or had a share accepted at. -/
structure RejectLaw (s : SubmitState) : Prop where
  once : s.books.credited = s.books.rejections
  owned : ∀ c ∈ s.books.credits, c.authorised = true → c.user.isSome ∧ c.worker.isSome
  workers : ∀ name, (s.books.workers name).Tallies (s.books.workerCredits name)
  users : ∀ name, (s.books.users name).Tallies (s.books.userCredits name)
  range : ∀ name, (s.books.workers name).rejected ∈ Set.Icc 0 int64Max ∧
    (s.books.users name).rejected ∈ Set.Icc 0 int64Max
  capped : ∀ c ∈ s.books.credits, ∃ client, s.clients c.client = some client ∧
    (c.amount ≤ client.cap.startDiff ∨ s.books.Met c.client c.amount)

/-- No total is less than before. -/
def TotalsGrow (s s' : SubmitState) : Prop :=
  ∀ name, (s.books.workers name).rejected ≤ (s'.books.workers name).rejected ∧
    (s.books.users name).rejected ≤ (s'.books.users name).rejected

namespace SubmitState

variable (s : SubmitState)

/-- A client that is connected and authorised. -/
def Authorised (id : Int) : Prop := ∃ client ∈ s.find id, client.authorised = true

end SubmitState

/-- A SubmitSharesStandard that its handler takes. -/
def StandardFits (versionMask : UInt32) (ch : MiningChannel) (sub : SubmitSharesStandard) : Prop :=
  ch.standard = true ∧ ch.instanceId ≠ 0 ∧ ∃ slot ∈ ch.lookupJob sub.jobId,
    MiningChannel.submitVersionOk versionMask sub.version slot.version slot.versionRolling = true

/-- A SubmitSharesExtended that its handler takes. -/
def ExtendedFits (versionMask : UInt32) (ch : MiningChannel) (sub : SubmitSharesExtended) : Prop :=
  ch.standard = false ∧ ch.instanceId ≠ 0 ∧ ∃ slot ∈ ch.lookupJob sub.jobId,
    sub.extranonce.length = ch.extranonceSize ∧
    MiningChannel.submitVersionOk versionMask sub.version slot.version slot.versionRolling = true ∧
    (slot.custom = true → slot.customJob.isSome)

/-- A share whose worker hands it to the stratifier. -/
def JobFits (job : ShareJob) : Prop :=
  if job.isCustom then
    ∃ cj ∈ job.custom, cj.minNtime ≤ job.ntime ∧ job.ntime ≤ cj.minNtime + 7000 ∧
      (cj.buildCustomCoinbase 2048 job.en1 job.extranonce).isSome
  else job.extranonce.length * 2 < 64

/-- **Where the law holds**: a submission of an authorised client gets past `sv2_strat.c`, which
answers what it refuses without an account of it. -/
def Reaches (ck : Ckpool) (s : SubmitState) : SubmitEvent → Prop
  | .submitStandard clientId sub queued =>
    ∀ ch ∈ s.channels clientId sub.channelId, s.Authorised ch.instanceId →
      StandardFits ck.versionMask ch sub ∧ queued = true
  | .submitExtended clientId sub queued =>
    ∀ ch ∈ s.channels clientId sub.channelId, s.Authorised ch.instanceId →
      ExtendedFits ck.versionMask ch sub ∧ queued = true
  | .shareWork i _ _ => ∀ job ∈ s.jobs[i]?, s.Authorised job.instanceId → JobFits job
  | _ => True

/-! ### What gets through -/

theorem standardJob_ok_iff {versionMask : UInt32} {ch : MiningChannel} {clientId : Int}
    {sub : SubmitSharesStandard} :
    (∃ job, standardJob versionMask ch clientId sub = .ok job) ↔
      StandardFits versionMask ch sub := by
  unfold standardJob StandardFits
  by_cases hch : ch.standard = false ∨ ch.instanceId = 0
  · rw [if_pos hch]
    rcases hch with hstd | hid
    · simp [hstd]
    · simp [hid]
  · rw [if_neg hch]
    obtain ⟨hstd, hid⟩ := not_or.mp hch
    rw [Bool.not_eq_false] at hstd
    cases hslot : ch.lookupJob sub.jobId with
    | none => simp
    | some slot =>
      cases hver : MiningChannel.submitVersionOk versionMask sub.version slot.version
        slot.versionRolling <;> simp [hstd, hid, hver]

theorem extendedJob_ok_iff {ck : Ckpool} {ch : MiningChannel} {clientId : Int}
    {sub : SubmitSharesExtended} :
    (∃ job, extendedJob ck ch clientId sub = .ok job) ↔ ExtendedFits ck.versionMask ch sub := by
  unfold extendedJob ExtendedFits PoolState.shareJob
  by_cases hch : ch.standard = true ∨ ch.instanceId = 0
  · rw [if_pos hch]
    rcases hch with hstd | hid
    · simp [hstd]
    · simp [hid]
  · rw [if_neg hch]
    obtain ⟨hstd, hid⟩ := not_or.mp hch
    rw [Bool.not_eq_true] at hstd
    cases hslot : ch.lookupJob sub.jobId with
    | none => simp
    | some slot =>
      by_cases hlen : sub.extranonce.length = ch.extranonceSize
      · cases hver : MiningChannel.submitVersionOk ck.versionMask sub.version slot.version
          slot.versionRolling
        · simp [hlen, hver]
        · cases hcustom : slot.custom
          · simp [hstd, hid, hlen, hver, hcustom]
          · cases hjob : slot.customJob <;> simp [hstd, hid, hlen, hver, hcustom, hjob]
      · simp [hlen]

theorem validateCustomShare_ok_iff {cj : CustomJob} {en1 extranonce : Bytes}
    {ntime nonce version : UInt32} :
    (∃ header, cj.validateCustomShare en1 extranonce ntime nonce version = .ok header) ↔
      cj.minNtime ≤ ntime ∧ ntime ≤ cj.minNtime + 7000 ∧
        (cj.buildCustomCoinbase 2048 en1 extranonce).isSome := by
  unfold CustomJob.validateCustomShare
  by_cases htime : ntime < cj.minNtime ∨ ntime > cj.minNtime + 7000
  · rw [if_pos htime]
    refine iff_of_false (by simp) ?_
    rintro ⟨hlow, hhigh, -⟩
    rcases htime with hlt | hgt
    · exact UInt32.not_lt.mpr hlow hlt
    · exact UInt32.not_lt.mpr hhigh hgt
  · rw [if_neg htime]
    obtain ⟨hlow, hhigh⟩ := not_or.mp htime
    cases hcoinbase : cj.buildCustomCoinbase 2048 en1 extranonce with
    | none => simp
    | some coinbase => simp [UInt32.not_lt.mp hlow, UInt32.not_lt.mp hhigh]

theorem checkJob_ok_iff {job : ShareJob} : (∃ hash, checkJob job = .ok hash) ↔ JobFits job := by
  unfold checkJob JobFits
  by_cases hcustom : job.isCustom = true
  · rw [if_pos hcustom, if_pos hcustom]
    cases hjob : job.custom with
    | none => simp
    | some cj =>
      simp only [Option.mem_def, Option.some.injEq, exists_eq_left']
      rw [← @validateCustomShare_ok_iff cj _ _ _ job.nonce job.version]
      cases cj.validateCustomShare job.en1 job.extranonce job.ntime job.nonce job.version with
      | error code => simp
      | ok header => simp
  · rw [if_neg hcustom, if_neg hcustom]
    by_cases hlen : 64 ≤ job.extranonce.length * 2
    · simp [hlen, not_lt.mpr hlen]
    · simp [hlen, not_le.mp hlen]

/-! ### What a step does -/

variable {client : SubmitClient}

namespace SubmitState

variable {ck : Ckpool} {s : SubmitState}

/-- The caps of the clients. -/
def caps (s : SubmitState) (id : Int) : Option RejectCap := (s.clients id).map SubmitClient.cap

theorem find_eq_some (h : s.find id = some client) :
    s.clients id = some client := by
  rw [find, Option.filter_eq_some_iff] at h
  exact h.1

/-- A change of a client that leaves its cap alone. -/
theorem caps_modify {f : SubmitClient → SubmitClient} (hf : ∀ client, (f client).cap = client.cap) :
    (s.modify id f).caps = s.caps := by
  funext id'
  by_cases hid : id' = id
  · subst hid
    cases hclient : s.clients id' <;> simp [caps, modify, hclient, hf]
  · simp [caps, modify, update_of_ne hid]

/-- The cap of a client after a share. -/
def capAfter (cap : RejectCap) (v : Verdict) : RejectCap :=
  if v.added = true ∧ v.reject = none ∧ v.diff > cap.maxAcceptedDiff then
    { cap with maxAcceptedDiff := v.diff }
  else cap

theorem caps_settle (h : s.clients id = some client) (v : Verdict) (now : Int) :
    (s.settle id client v now).caps = update s.caps id (some (capAfter client.cap v)) := by
  have hcaps : (s.account id client v).caps =
      update s.caps id (some (capAfter client.cap v)) := by
    funext id'
    by_cases hid : id' = id
    · subst hid
      cases hadded : v.added with
      | false => simp [caps, account, capAfter, hadded, h]
      | true =>
        cases hreject : v.reject with
        | none =>
          by_cases hmax : v.diff > client.cap.maxAcceptedDiff <;>
            simp [caps, account, capAfter, ShareStats.accountClientShare, hadded, hreject, hmax]
        | some reason =>
          simp [caps, account, capAfter, ShareStats.accountClientShare, hadded, hreject]
    · cases hadded : v.added <;> simp [caps, account, hadded, update_of_ne hid]
  rw [settle]
  split <;> exact hcaps

/-- The books after a share is settled. -/
def settled (b : RejectBooks) (id : Int) (client : SubmitClient) (v : Verdict) (now : Int) :
    RejectBooks :=
  match v.reject with
  | none => b.answer id client true v.diff
  | some (bucket, reason) =>
    (b.accountReject id client v.diff bucket reason now).answer id client false v.diff

theorem books_settle (id : Int) (client : SubmitClient) (v : Verdict) (now : Int) :
    (s.settle id client v now).books = settled s.books id client v now := by
  have hbooks : (s.account id client v).books = s.books := by
    rw [account]
    split <;> rfl
  rw [settle, settled]
  split <;> simp [hbooks]

/-- **All a step does** to the books and the caps: nothing, but for a new client; or a client is
refused by `sv2_strat.c`; or the stratifier settles its share. -/
inductive Effect (s s' : SubmitState) : Prop
  | quiet (hbooks : s'.books = s.books)
      (hcaps : ∀ id, s'.caps id = s.caps id ∨
        s.caps id = none ∧ ∃ startDiff, s'.caps id = some { maxAcceptedDiff := 0, startDiff })
  | refused (id : Int) (client : SubmitClient) (hfind : s.find id = some client)
      (hbooks : s'.books = s.books.answer id client false client.diff) (hcaps : s'.caps = s.caps)
  | settled (id : Int) (client : SubmitClient) (v : Verdict) (now : Int)
      (hfind : s.find id = some client)
      (hbooks : s'.books = settled s.books id client v now)
      (hcaps : s'.caps = update s.caps id (some (capAfter client.cap v)))

theorem Effect.of_refuse {s' : SubmitState} (id : Int) (hbooks : s'.books = s.books)
    (hclients : s'.clients = s.clients) : Effect s (s'.refuse id) := by
  have hfind : s'.find id = s.find id := by
    rw [find, find, hclients]
  have hcaps : s'.caps = s.caps := by
    funext id'
    rw [caps, caps, hclients]
  rw [refuse]
  cases hclient : s.find id with
  | none =>
    rw [hfind, hclient]
    exact .quiet hbooks fun id' => Or.inl (congrFun hcaps id')
  | some client =>
    rw [hfind, hclient]
    exact .refused id client hclient (by rw [← hbooks]) hcaps

theorem Effect.of_settle {s' : SubmitState} {v : Verdict}
    {now : Int} (hbooks : s'.books = s.books) (hclients : s'.clients = s.clients)
    (hfind : s.find id = some client) : Effect s (s'.settle id client v now) := by
  have hclient := find_eq_some hfind
  refine .settled id client v now hfind ?_ ?_
  · rw [books_settle, hbooks]
  · rw [caps_settle (hclients ▸ hclient)]
    congr 1
    funext id'
    rw [caps, caps, hclients]

theorem Effect.of_modify {f : SubmitClient → SubmitClient}
    (hf : ∀ client, (f client).cap = client.cap) : Effect s (s.modify id f) :=
  .quiet rfl fun id' => Or.inl (congrFun (caps_modify hf) id')

theorem Effect.of_enqueue (id : Int) (job : Except String ShareJob) (queued : Bool) :
    Effect s (s.enqueue id job queued) := by
  unfold enqueue
  split
  · exact .of_refuse id rfl rfl
  · split
    · exact .quiet rfl fun _ => Or.inl rfl
    · exact .of_refuse id rfl rfl

/-- **The step lemma.** -/
theorem step_effect (ck : Ckpool) (s : SubmitState) (e : SubmitEvent) :
    Effect s (SubmitState.step ck s e) := by
  have hsame : Effect s s := .quiet rfl fun _ => Or.inl rfl
  cases e with
  | connect id startDiff latency =>
    rw [step]
    split
    · exact hsame
    · next hnone =>
        refine .quiet rfl fun id' => ?_
        by_cases hid : id' = id
        · subst hid
          refine Or.inr ⟨by rw [caps, hnone]; rfl, startDiff, ?_⟩
          simp [caps]
        · exact Or.inl (by simp [caps, update_of_ne hid])
  | authorise id workername user worker ret => exact .of_modify fun _ => rfl
  | revoke id => exact .of_modify fun _ => rfl
  | retarget id diff oldDiff jobId => exact .of_modify fun _ => rfl
  | drop id => exact .of_modify fun _ => rfl
  | newWork work stats => exact .quiet rfl fun _ => Or.inl rfl
  | newChannels channels => exact .quiet rfl fun _ => Or.inl rfl
  | submit id params hash nowMs now =>
    rw [step]
    split
    · exact hsame
    · next client hfind =>
        split
        · exact .of_settle rfl rfl hfind
        · exact hsame
  | submitStandard clientId sub queued | submitExtended clientId sub queued =>
    rw [step]
    split
    · exact hsame
    · exact .of_enqueue _ _ queued
  | shareWork i hash now =>
    rw [step]
    split
    · exact hsame
    · next job hjob =>
        dsimp only
        split
        · exact .of_refuse _ rfl rfl
        · next custom hcheck =>
            split
            · exact .quiet rfl fun _ => Or.inl rfl
            · next client hfind =>
                have hfind' : s.find job.instanceId = some client := hfind
                exact .of_settle rfl rfl hfind'

end SubmitState

/-! ### The invariant -/

section Kept

variable {b : RejectBooks} {caps caps' : Int → Option RejectCap}

/-- What holds of the books and the caps in every run: the law but for `once`, and a cap that
was raised was raised by a share. -/
structure Kept (b : RejectBooks) (caps : Int → Option RejectCap) : Prop where
  owned : ∀ c ∈ b.credits, c.authorised = true → c.user.isSome ∧ c.worker.isSome
  workers : ∀ name, (b.workers name).Tallies (b.workerCredits name)
  users : ∀ name, (b.users name).Tallies (b.userCredits name)
  capped : ∀ c ∈ b.credits, ∃ cap, caps c.client = some cap ∧
    (c.amount ≤ cap.startDiff ∨ b.Met c.client c.amount)
  raised : ∀ id cap, caps id = some cap → cap.maxAcceptedDiff = 0 ∨ b.Met id cap.maxAcceptedDiff

theorem kept_start : Kept {} fun _ => none where
  owned := by simp
  workers := fun _ => RejectStats.tallies_start
  users := fun _ => RejectStats.tallies_start
  capped := by simp
  raised := by simp

theorem Met_answer {amount : ℚ} (h : b.Met id amount) (id' : Int) (client : SubmitClient)
    (accepted : Bool) (diff : Int) : (b.answer id' client accepted diff).Met id amount := by
  obtain ⟨a, ha, hwhom⟩ := h
  exact ⟨a, List.mem_append_left _ ha, hwhom⟩

/-- A cap as it was when the client connected, or the same with another maximum. -/
def CapsExtend (caps caps' : Int → Option RejectCap) : Prop :=
  ∀ id cap, caps id = some cap → ∃ cap', caps' id = some cap' ∧ cap'.startDiff = cap.startDiff

theorem capped_extend (hext : CapsExtend caps caps') {c : Credit}
    (h : ∃ cap, caps c.client = some cap ∧ (c.amount ≤ cap.startDiff ∨ b.Met c.client c.amount)) :
    ∃ cap, caps' c.client = some cap ∧ (c.amount ≤ cap.startDiff ∨ b.Met c.client c.amount) := by
  obtain ⟨cap, hcap, hle⟩ := h
  obtain ⟨cap', hcap', hstart⟩ := hext c.client cap hcap
  exact ⟨cap', hcap', hstart ▸ hle⟩

theorem Kept.quiet (h : Kept b caps)
    (hcaps : ∀ id, caps' id = caps id ∨
      caps id = none ∧ ∃ startDiff, caps' id = some { maxAcceptedDiff := 0, startDiff }) :
    Kept b caps' where
  owned := h.owned
  workers := h.workers
  users := h.users
  capped := by
    intro c hc
    have hext : CapsExtend caps caps' := by
      intro id cap hcap
      rcases hcaps id with hsame | ⟨hnone, -⟩
      · exact ⟨cap, hsame.trans hcap, rfl⟩
      · rw [hnone] at hcap
        cases hcap
    exact capped_extend hext (h.capped c hc)
  raised := by
    intro id cap hcap
    rcases hcaps id with hsame | ⟨-, startDiff, hnew⟩
    · exact h.raised id cap (hsame ▸ hcap)
    · rw [hnew] at hcap
      obtain rfl := Option.some.inj hcap
      exact Or.inl rfl

theorem Kept.answer (h : Kept b caps) (id : Int) (client : SubmitClient) (accepted : Bool)
    (diff : Int) : Kept (b.answer id client accepted diff) caps where
  owned := h.owned
  workers := h.workers
  users := h.users
  capped := by
    intro c hc
    obtain ⟨cap, hcap, hle⟩ := h.capped c hc
    exact ⟨cap, hcap, hle.imp_right fun hmet => Met_answer hmet id client accepted diff⟩
  raised := by
    intro id' cap hcap
    exact (h.raised id' cap hcap).imp_right fun hmet => Met_answer hmet id client accepted diff

/-- An accepted share may raise the cap of its client. -/
theorem Kept.accept (h : Kept b caps) (hcap : caps id = some client.cap) (v : Verdict) :
    Kept (b.answer id client true v.diff)
      (update caps id (some (SubmitState.capAfter client.cap v))) := by
  have hkept := h.answer id client true v.diff
  refine ⟨hkept.owned, hkept.workers, hkept.users, ?_, ?_⟩
  · have hext : CapsExtend caps
        (update caps id (some (SubmitState.capAfter client.cap v))) := by
      intro id' cap hcap'
      by_cases hid : id' = id
      · subst hid
        obtain rfl := Option.some.inj (hcap.symm.trans hcap')
        refine ⟨_, update_self .., ?_⟩
        rw [SubmitState.capAfter]
        split <;> rfl
      · exact ⟨cap, by rw [update_of_ne hid, hcap'], rfl⟩
    intro c hc
    exact capped_extend hext (hkept.capped c hc)
  · intro id' cap hcap'
    by_cases hid : id' = id
    · subst hid
      rw [update_self] at hcap'
      obtain rfl := Option.some.inj hcap'
      rw [SubmitState.capAfter]
      split
      · -- the share itself
        exact Or.inr ⟨_, List.mem_append_right _ List.mem_cons_self, rfl, rfl, le_refl _⟩
      · exact hkept.raised id' client.cap hcap
    · rw [update_of_ne hid] at hcap'
      exact hkept.raised id' cap hcap'

/-- What is credited to a client is within its cap. -/
theorem creditedRejectDiff_le {cap : RejectCap} {diff : ℚ}
    (h : cap.maxAcceptedDiff = 0 ∨ b.Met id cap.maxAcceptedDiff) :
    cap.creditedRejectDiff diff ≤ cap.startDiff ∨ b.Met id (cap.creditedRejectDiff diff) := by
  rw [RejectCap.creditedRejectDiff]
  split
  · next hpos =>
      rcases h with hzero | ⟨a, ha, hid, haccepted, hle⟩
      · rw [hzero] at hpos
        exact absurd hpos (lt_irrefl 0)
      · exact Or.inr ⟨a, ha, hid, haccepted, (min_le_right _ _).trans hle⟩
  · exact Or.inl (le_refl _)

/-- The counters of one kind after a credit. -/
theorem tallies_credit {stats : Bytes → RejectStats} {credits : List Credit}
    {owner : Credit → Option Bytes} {c : Credit}
    (h : ∀ name, (stats name).Tallies
      ((credits.filter fun c => owner c = some name).map Credit.amount))
    (bucket : RejectBucket) (reason : String) (now : Int) (name : Bytes) :
    ((match owner c with
      | none => stats
      | some name =>
        update stats name
          ((stats name).addReject c.amount bucket reason now)) name).Tallies
      (((credits ++ [c]).filter fun c => owner c = some name).map Credit.amount) := by
  rw [List.filter_append, List.map_append]
  cases howner : owner c with
  | none => simpa [howner] using h name
  | some name' =>
    by_cases hname : name = name'
    · subst hname
      simpa [howner] using (h name).addReject c.amount bucket reason now
    · have hne : name' ≠ name := fun heq => hname heq.symm
      simpa [howner, update_of_ne hname, hne] using h name

theorem Kept.accountReject (h : Kept b caps)
    (hcap : caps id = some client.cap) (diff : ℚ) (bucket : RejectBucket) (reason : String)
    (now : Int) : Kept (b.accountReject id client diff bucket reason now) caps := by
  rw [RejectBooks.accountReject]
  split
  · exact h
  · set c : Credit :=
      { client := id, user := client.user, worker := client.worker
        authorised := client.authorised, amount := client.cap.creditedRejectDiff diff } with hc
    refine ⟨?_, ?_, ?_, ?_, h.raised⟩
    · intro c' hc' hauth
      rcases List.mem_append.mp hc' with hold | hnew
      · exact h.owned c' hold hauth
      · obtain rfl := List.mem_singleton.mp hnew
        exact client.owned hauth
    · exact @tallies_credit _ _ Credit.worker c h.workers bucket reason now
    · exact @tallies_credit _ _ Credit.user c h.users bucket reason now
    · intro c' hc'
      rcases List.mem_append.mp hc' with hold | hnew
      · exact h.capped c' hold
      · obtain rfl := List.mem_singleton.mp hnew
        exact ⟨client.cap, hcap, creditedRejectDiff_le (h.raised id client.cap hcap)⟩

theorem Kept.settled (h : Kept b caps)
    (hcap : caps id = some client.cap) (v : Verdict) (now : Int) :
    Kept (SubmitState.settled b id client v now)
      (update caps id (some (SubmitState.capAfter client.cap v))) := by
  rw [SubmitState.settled]
  cases hreject : v.reject with
  | none => exact h.accept hcap v
  | some reason =>
    have hsame : SubmitState.capAfter client.cap v = client.cap := by
      simp [SubmitState.capAfter, hreject]
    rw [hsame, ← hcap, update_eq_self]
    exact (h.accountReject hcap v.diff reason.1 reason.2 now).answer id client false v.diff

theorem kept_step {ck : Ckpool} {s : SubmitState} (h : Kept s.books s.caps) (e : SubmitEvent) :
    Kept (SubmitState.step ck s e).books (SubmitState.step ck s e).caps := by
  rcases SubmitState.step_effect ck s e with
    ⟨hbooks, hcaps⟩ | ⟨id, client, hfind, hbooks, hcaps⟩ |
    ⟨id, client, v, now, hfind, hbooks, hcaps⟩
  · rw [hbooks]
    exact h.quiet hcaps
  · rw [hbooks, hcaps]
    exact h.answer id client false client.diff
  · rw [hbooks, hcaps]
    have hcap : s.caps id = some client.cap := by
      rw [SubmitState.caps, SubmitState.find_eq_some hfind]
      rfl
    exact h.settled hcap v now

end Kept

/-! ### One for one -/

section Once

variable {b : RejectBooks}

theorem rejections_answer (b : RejectBooks) (id : Int) (client : SubmitClient) (accepted : Bool)
    (diff : Int) :
    (b.answer id client accepted diff).rejections =
      b.rejections ++
        if client.authorised && !accepted then [(id, client.user, client.worker)] else [] := by
  cases hauth : client.authorised <;> cases accepted <;>
    simp [RejectBooks.rejections, RejectBooks.answer, hauth, Answer.whom]

theorem credited_accountReject (b : RejectBooks) (id : Int) (client : SubmitClient) (diff : ℚ)
    (bucket : RejectBucket) (reason : String) (now : Int) :
    (b.accountReject id client diff bucket reason now).credited =
      b.credited ++ if client.authorised then [(id, client.user, client.worker)] else [] := by
  rw [RejectBooks.accountReject]
  split
  · next hnobody =>
      -- nobody is credited, but then nobody is authorised
      have hauth : client.authorised = false := by
        by_contra htrue
        have howned := client.owned ((Bool.not_eq_false _).mp htrue)
        rw [hnobody.2] at howned
        cases howned.1
      simp [hauth]
  · cases client.authorised <;> simp [RejectBooks.credited, Credit.whom]

theorem rejections_accountReject (b : RejectBooks) (id : Int) (client : SubmitClient) (diff : ℚ)
    (bucket : RejectBucket) (reason : String) (now : Int) :
    (b.accountReject id client diff bucket reason now).rejections = b.rejections := by
  rw [RejectBooks.accountReject]
  split <;> rfl

/-- What the stratifier settles is credited as it is answered. -/
theorem once_settled (h : b.credited = b.rejections) (id : Int) (client : SubmitClient)
    (v : Verdict) (now : Int) :
    (SubmitState.settled b id client v now).credited =
      (SubmitState.settled b id client v now).rejections := by
  rw [SubmitState.settled]
  cases v.reject with
  | none =>
    show (b.answer id client true v.diff).credited = (b.answer id client true v.diff).rejections
    have hcredited : (b.answer id client true v.diff).credited = b.credited := rfl
    rw [hcredited, rejections_answer, h]
    simp
  | some reason =>
    have hcredited :
        ((b.accountReject id client v.diff reason.1 reason.2 now).answer id client false
          v.diff).credited =
        (b.accountReject id client v.diff reason.1 reason.2 now).credited := rfl
    show ((b.accountReject id client v.diff reason.1 reason.2 now).answer id client false
      v.diff).credited = _
    rw [hcredited, credited_accountReject, rejections_answer, rejections_accountReject, h]
    simp

/-- What is refused to an authorised client is answered and not credited. -/
theorem once_refused_iff (h : b.credited = b.rejections) (id : Int) (client : SubmitClient)
    (diff : Int) :
    (b.answer id client false diff).credited = (b.answer id client false diff).rejections ↔
      client.authorised = false := by
  have hcredited : (b.answer id client false diff).credited = b.credited := rfl
  rw [hcredited, rejections_answer, h]
  cases client.authorised <;> simp

namespace SubmitState

variable {ck : Ckpool} {s : SubmitState}

theorem authorised_iff (hfind : s.find id = some client) :
    s.Authorised id ↔ client.authorised = true := by
  simp [Authorised, hfind]

theorem once_refuse_iff (h : s.books.credited = s.books.rejections) (id : Int) :
    (s.refuse id).books.credited = (s.refuse id).books.rejections ↔ ¬s.Authorised id := by
  rw [refuse]
  cases hfind : s.find id with
  | none =>
    refine iff_of_true h ?_
    rintro ⟨client, hclient, -⟩
    rw [hfind] at hclient
    cases hclient
  | some client =>
    rw [authorised_iff hfind, Bool.not_eq_true]
    exact once_refused_iff h id client client.diff

theorem once_enqueue_iff (h : s.books.credited = s.books.rejections) (id : Int)
    (job : Except String ShareJob) (queued : Bool) :
    (s.enqueue id job queued).books.credited = (s.enqueue id job queued).books.rejections ↔
      (s.Authorised id → (∃ sharejob, job = .ok sharejob) ∧ queued = true) := by
  unfold enqueue
  cases job with
  | error code =>
    dsimp only
    rw [once_refuse_iff h]
    simp
  | ok sharejob =>
    cases queued with
    | true => exact iff_of_true h fun _ => ⟨⟨sharejob, rfl⟩, rfl⟩
    | false =>
      simp only [Bool.false_eq_true, if_false]
      rw [once_refuse_iff h]
      simp

end SubmitState

/-- **The step.**  The books stay one for one exactly when the submission reaches the
stratifier. -/
theorem once_step_iff {ck : Ckpool} {s : SubmitState} (h : s.books.credited = s.books.rejections)
    (e : SubmitEvent) :
    (SubmitState.step ck s e).books.credited = (SubmitState.step ck s e).books.rejections ↔
      Reaches ck s e := by
  cases e with
  | connect id startDiff latency =>
    rw [SubmitState.step]
    split <;> exact iff_of_true h trivial
  | authorise id workername user worker ret => exact iff_of_true h trivial
  | revoke id => exact iff_of_true h trivial
  | retarget id diff oldDiff jobId => exact iff_of_true h trivial
  | drop id => exact iff_of_true h trivial
  | newWork work stats => exact iff_of_true h trivial
  | newChannels channels => exact iff_of_true h trivial
  | submit id params hash nowMs now =>
    refine iff_of_true ?_ trivial
    rw [SubmitState.step]
    split
    · exact h
    · split
      · rw [SubmitState.books_settle]
        exact once_settled h ..
      · exact h
  | submitStandard clientId sub queued =>
    rw [SubmitState.step, Reaches]
    cases hch : s.channels clientId sub.channelId with
    | none => exact iff_of_true h fun ch hmem => by cases hmem
    | some ch =>
      simp only [Option.mem_def, Option.some.injEq, forall_eq']
      rw [SubmitState.once_enqueue_iff h, standardJob_ok_iff]
  | submitExtended clientId sub queued =>
    rw [SubmitState.step, Reaches]
    cases hch : s.channels clientId sub.channelId with
    | none => exact iff_of_true h fun ch hmem => by cases hmem
    | some ch =>
      simp only [Option.mem_def, Option.some.injEq, forall_eq']
      rw [SubmitState.once_enqueue_iff h, extendedJob_ok_iff]
  | shareWork i hash now =>
    rw [SubmitState.step, Reaches]
    cases hjob : s.jobs[i]? with
    | none => exact iff_of_true h fun job hmem => by cases hmem
    | some job =>
      simp only [Option.mem_def, Option.some.injEq, forall_eq']
      rw [← checkJob_ok_iff]
      set s' : SubmitState := { s with jobs := s.jobs.eraseIdx i } with hs'
      have hauth : s'.Authorised job.instanceId ↔ s.Authorised job.instanceId := Iff.rfl
      cases hcheck : checkJob job with
      | error code =>
        simp only [reduceCtorEq, exists_false]
        rw [← hauth]
        exact SubmitState.once_refuse_iff (s := s') h job.instanceId
      | ok custom =>
        refine iff_of_true ?_ fun _ => ⟨custom, rfl⟩
        dsimp only
        split
        · exact h
        · rw [SubmitState.books_settle]
          exact once_settled h ..

end Once

/-! ### Runs -/

section Runs

variable {ck : Ckpool} {s s' : SubmitState}

/-- No credit is taken back. -/
theorem credits_step (ck : Ckpool) (s : SubmitState) (e : SubmitEvent) :
    s.books.credits <+: (SubmitState.step ck s e).books.credits := by
  rcases SubmitState.step_effect ck s e with
    ⟨hbooks, -⟩ | ⟨id, client, -, hbooks, -⟩ | ⟨id, client, v, now, -, hbooks, -⟩
  · rw [hbooks]
  · rw [hbooks]
    exact List.prefix_refl _
  · rw [hbooks, SubmitState.settled]
    split
    · exact List.prefix_refl _
    · show s.books.credits <+: (s.books.accountReject id client v.diff _ _ now).credits
      rw [RejectBooks.accountReject]
      split
      · exact List.prefix_refl _
      · exact List.prefix_append _ _

theorem totalsGrow_of_prefix (h : Kept s.books s.caps) (h' : Kept s'.books s'.caps)
    (hcredits : s.books.credits <+: s'.books.credits) : TotalsGrow s s' := by
  obtain ⟨more, hmore⟩ := hcredits
  intro name
  have hworker : s'.books.workerCredits name = s.books.workerCredits name ++
      (more.filter fun c => c.worker = some name).map Credit.amount := by
    simp [RejectBooks.workerCredits, ← hmore]
  have huser : s'.books.userCredits name = s.books.userCredits name ++
      (more.filter fun c => c.user = some name).map Credit.amount := by
    simp [RejectBooks.userCredits, ← hmore]
  rw [(h.workers name).rejected, (h'.workers name).rejected, (h.users name).rejected,
    (h'.users name).rejected, hworker, huser]
  exact ⟨saturatingSum_le_append _ _, saturatingSum_le_append _ _⟩

theorem Kept.law (h : Kept s.books s.caps) (honce : s.books.credited = s.books.rejections) :
    RejectLaw s where
  once := honce
  owned := h.owned
  workers := h.workers
  users := h.users
  range := by
    intro name
    rw [(h.workers name).rejected, (h.users name).rejected]
    exact ⟨⟨saturatingSum_nonneg _, saturatingSum_le _⟩, saturatingSum_nonneg _, saturatingSum_le _⟩
  capped := by
    intro c hc
    obtain ⟨cap, hcap, hle⟩ := h.capped c hc
    obtain ⟨client, hclient, rfl⟩ := Option.map_eq_some_iff.mp hcap
    exact ⟨client, hclient, hle⟩

theorem kept_run (ck : Ckpool) (randomiser : Int) (events : List SubmitEvent) :
    Kept (run (SubmitState.step ck) (.start randomiser) events).books
      (run (SubmitState.step ck) (.start randomiser) events).caps :=
  run_invariant_always (I := fun s : SubmitState => Kept s.books s.caps)
    (fun _ e h => kept_step h e) events kept_start

theorem totalsGrow_run (ck : Ckpool) (randomiser : Int) {earlier before : List SubmitEvent}
    (h : earlier <+: before) :
    TotalsGrow (run (SubmitState.step ck) (.start randomiser) earlier)
      (run (SubmitState.step ck) (.start randomiser) before) := by
  refine totalsGrow_of_prefix (kept_run ck randomiser earlier) (kept_run ck randomiser before) ?_
  obtain ⟨more, rfl⟩ := h
  rw [run_append]
  exact run_relates (R := fun s s' : SubmitState => s.books.credits <+: s'.books.credits)
    (fun _ => List.prefix_refl _) (fun _ _ _ => List.IsPrefix.trans) (credits_step ck) _ more

/-- **When every rejection is credited.**  The law of rejects holds in every state of a run, with
totals that only grow, exactly when every submission of an authorised client gets past
`sv2_strat.c`. -/
theorem rejects_credited_iff (ck : Ckpool) (randomiser : Int) (events : List SubmitEvent) :
    (∀ before, before <+: events →
      RejectLaw (run (SubmitState.step ck) (.start randomiser) before) ∧
        ∀ earlier, earlier <+: before →
          TotalsGrow (run (SubmitState.step ck) (.start randomiser) earlier)
            (run (SubmitState.step ck) (.start randomiser) before)) ↔
      Along (SubmitState.step ck) (Reaches ck) (.start randomiser) events := by
  rw [← run_always_iff (I := fun _ => True)
    (P := fun s : SubmitState => s.books.credited = s.books.rejections) (Q := fun _ => True)
    (fun _ _ _ _ => trivial) (fun _ e _ _ h => once_step_iff h e) (fun _ _ => trivial) trivial rfl]
  constructor
  · intro h before hbefore
    exact (h before hbefore).1.once
  · intro h before hbefore
    refine ⟨(kept_run ck randomiser before).law (h before hbefore), fun earlier hearlier => ?_⟩
    exact totalsGrow_run ck randomiser hearlier

/-- A standard channel of an authorised client, without a job. -/
def emptyChannel : MiningChannel := .opened 9 1 7 true [] 0

/-- A share on a job that the channel does not have is answered, and credited to nobody. -/
theorem unknown_job_not_credited :
    ¬ ∀ (ck : Ckpool) (events : List SubmitEvent),
      RejectLaw (run (SubmitState.step ck) (.start 0) events) := by
  intro hall
  have h := (hall longCk [.connect 7 1024 0, .authorise 7 [97] [97] [97] true,
    .newChannels (fun _ _ => some emptyChannel),
    .submitStandard 9 ⟨1, 0, 5, 0, 0, 0⟩ true]).once
  revert h
  decide

end Runs

end Rejects

end CashStratum
