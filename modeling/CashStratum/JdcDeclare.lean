/-
CashStratum/JdcDeclare.lean

Declares of the job declaration client (`sv2_jdc.c`), and the custom jobs they become.  A
template is declared by the thread that builds templates or by the session thread; both are in
`sess_declare` at will, which gives `jdc_lock` up while it builds and sends.  The session thread
reads the answers and stages the custom job in the generator, whose receive thread reads the
pool's reply and reports it.  A step is what one thread does under one lock.

`outstanding` is what the slot `pending` is for: the declares that were begun and neither
answered, timed out nor dropped with their session, and whose own call has not failed.  A call
that fails clears the slot without looking whose request is in it, and the template of a reply
is known by its order alone.  As long as neither is put to the test (`JdcState.Orderly`) the
slot is `outstanding` (`JdcState.Inv`), and a template is retired by its own job.
-/
import CashStratum.ByteString
import CashStratum.Run

namespace CashStratum

/-- `sv2_jdc_template`, as far as declares go by it.  No template has the number 0. -/
structure JdcTemplate where
  id : Nat
  prevHash : Hash256
deriving DecidableEq

/-- `jdc_material` -/
structure JdcMaterial where
  template : JdcTemplate
  token : Bytes
deriving DecidableEq

/-- `jdc_pending` -/
structure JdcPending where
  live : Bool
  requestId : UInt32
  sent : Int
  material : Option JdcMaterial

/-- The fields of `sess` that declares go by, all of them under `jdc_lock`. -/
structure JdcDeclares where
  ready : Bool
  haveToken : Bool
  token : Bytes
  nextRequestId : UInt32
  pending : JdcPending
  declaredId : Nat
  attemptId : Nat
  retryAfter : Int
  attemptFails : Nat
  attemptDone : Bool
  customLive : Bool
  customId : Nat
  customAt : Int
  /-- `pool_prev`, where `have_pool_tip` -/
  poolPrev : Option Hash256

/-- `SV2_JDC_DECLARE_TIMEOUT_SECS` -/
def jdcDeclareTimeoutSecs : Int := 30

/-- `SV2_JDC_DECLARE_MAX_ATTEMPTS` -/
def jdcDeclareMaxAttempts : Nat := 4

/-- `SV2_JDC_DECLARE_RATELIMIT_SECS` -/
def jdcDeclareRatelimitSecs : Int := 20

/-- `SV2_JDC_CUSTOM_TIMEOUT_SECS` -/
def jdcCustomTimeoutSecs : Int := 15

/-- `SV2_JDC_CUSTOM_RETRY_SECS` -/
def jdcCustomRetrySecs : Int := 5

namespace JdcDeclares

/-- Before the first session. -/
def start : JdcDeclares where
  ready := false
  haveToken := false
  token := []
  nextRequestId := 0
  pending := ⟨false, 0, 0, none⟩
  declaredId := 0
  attemptId := 0
  retryAfter := 0
  attemptFails := 0
  attemptDone := false
  customLive := false
  customId := 0
  customAt := 0
  poolPrev := none

/-- `may_declare_locked` -/
def mayDeclareLocked (sess : JdcDeclares) (id : Nat) (now : Int) : Bool :=
  if !sess.ready || !sess.haveToken || sess.pending.live then false
  else if sess.declaredId = id then false
  else if sess.customLive && sess.customId = id then false
  else if sess.attemptId = id then !sess.attemptDone && sess.retryAfter ≤ now
  else true

/-- One more failure of the template that is tried: the bounded budget that the declare and its
custom job share. -/
def spendAttempt (sess : JdcDeclares) (delay now : Int) : JdcDeclares :=
  if jdcDeclareMaxAttempts ≤ sess.attemptFails + 1 then
    { sess with attemptFails := sess.attemptFails + 1, attemptDone := true }
  else { sess with attemptFails := sess.attemptFails + 1, retryAfter := now + delay }

/-- Nothing is pending; the material stays where it was. -/
def clearPending (sess : JdcDeclares) : JdcDeclares :=
  { sess with pending := { sess.pending with live := false } }

/-- `declare_failed_locked` -/
def declareFailedLocked (sess : JdcDeclares) (delay : Int) (done : Bool) (now : Int) :
    JdcDeclares :=
  if done then { sess.clearPending with attemptDone := true }
  else sess.clearPending.spendAttempt delay now

/-- `custom_failed_locked` -/
def customFailedLocked (sess : JdcDeclares) (delay now : Int) : JdcDeclares :=
  if sess.attemptId ≠ sess.customId then { sess with customLive := false }
  else { sess with customLive := false }.spendAttempt delay now

/-- What the callers of `custom_failed_locked` ask first. -/
def customFailedIfLive (sess : JdcDeclares) (delay now : Int) : JdcDeclares :=
  if sess.customLive then sess.customFailedLocked delay now else sess

/-- No template has been declared or tried. -/
def forget (sess : JdcDeclares) : JdcDeclares :=
  { sess with
    declaredId := 0
    attemptId := 0
    retryAfter := 0
    attemptFails := 0
    attemptDone := false
    customLive := false
    customId := 0 }

/-- `sess_disconnect` -/
def disconnect (sess : JdcDeclares) : JdcDeclares :=
  { sess.forget with
    ready := false
    haveToken := false
    pending := { sess.pending with live := false, material := none } }

/-- What `sess_declare` does under its first lock: the number of its request. -/
def beginDeclare (sess : JdcDeclares) (t : JdcTemplate) (now : Int) :
    Option (JdcDeclares × UInt32) :=
  if !sess.mayDeclareLocked t.id now then none
  else if sess.poolPrev ≠ some t.prevHash then none
  else
    let requestId := sess.nextRequestId + 1
    let sess := { sess with
      nextRequestId := requestId
      pending := { sess.pending with live := true, requestId := requestId, sent := now } }
    if sess.attemptId ≠ t.id then
      some ({ sess with attemptId := t.id, attemptFails := 0, attemptDone := false }, requestId)
    else some (sess, requestId)

/-- The request is the pending one. -/
def Ours (sess : JdcDeclares) (requestId : UInt32) : Prop :=
  sess.pending.live = true ∧ requestId = sess.pending.requestId

instance (sess : JdcDeclares) (requestId : UInt32) : Decidable (sess.Ours requestId) :=
  inferInstanceAs (Decidable (_ ∧ _))

/-- What `sess_declare` does under its second lock: its material is published. -/
def publish (sess : JdcDeclares) (m : JdcMaterial) : JdcDeclares :=
  { sess with pending := { sess.pending with material := some m } }

/-- A DeclareMiningJob.Success for the pending request, where `new_mining_job_token` may be
empty. -/
def declareSuccess (sess : JdcDeclares) (newToken : Bytes) (now : Int) :
    JdcDeclares × Option JdcMaterial :=
  let token := if newToken = [] then sess.token else newToken
  ({ sess with
      pending := { sess.pending with live := false, material := none }
      customLive := true
      customId := sess.attemptId
      customAt := now
      token := token
      haveToken := true },
    sess.pending.material.map fun m =>
      { m with token := if newToken = [] then m.token else newToken })

end JdcDeclares

/-- `transient` of `declare_error_transient` -/
def jdcTransient : List String :=
  ["stale-chain-tip", "busy", "rate-limited", "validation-unavailable", "block-assemble-failed",
    "internal-error", "bad-cb-height", "bad-txns-nonfinal", "inconclusive-not-best-prevblk",
    "prev-blk-not-found", "time-too-old", "time-too-new"]

/-- `declare_error_transient` -/
def declareErrorTransient (code : String) : Bool :=
  code ∈ jdcTransient || code.toList.tails.any fun tail => "not-best-prev".toList.isPrefixOf tail

/-- `delay` of a DeclareMiningJob.Error -/
def declareErrorDelay (code : String) : Int :=
  if code = "rate-limited" then jdcDeclareRatelimitSecs else if code = "busy" then 2 else 1

namespace JdcDeclares

/-- A DeclareMiningJob.Error for the pending request. -/
def declareError (sess : JdcDeclares) (code : String) (now : Int) : JdcDeclares :=
  let badToken := code = "invalid-mining-job-token"
  { sess with haveToken := sess.haveToken && !badToken }.declareFailedLocked
    (declareErrorDelay code) (!declareErrorTransient code && !badToken) now

/-- The pending declare has timed out. -/
def declareTimedOut (sess : JdcDeclares) (now : Int) : Prop :=
  sess.pending.live = true ∧ jdcDeclareTimeoutSecs ≤ now - sess.pending.sent

instance (sess : JdcDeclares) (now : Int) : Decidable (sess.declareTimedOut now) :=
  inferInstanceAs (Decidable (_ ∧ _))

/-- The backstop for a custom job that was never answered. -/
def timeOutCustom (sess : JdcDeclares) (now : Int) : JdcDeclares :=
  if sess.customLive ∧ jdcCustomTimeoutSecs + 10 ≤ now - sess.customAt then
    sess.customFailedLocked 1 now
  else sess

/-- What the session thread does in a second in which nothing came. -/
def housekeeping (sess : JdcDeclares) (now : Int) : JdcDeclares :=
  if sess.declareTimedOut now then (sess.declareFailedLocked 1 false now).timeOutCustom now
  else sess.timeOutCustom now

/-- `sv2_jdc_custom_result(true, …)` -/
def customOk (sess : JdcDeclares) : JdcDeclares :=
  if sess.customLive then
    { sess with
      declaredId := sess.customId
      customLive := false
      attemptFails := if sess.attemptId = sess.customId then 0 else sess.attemptFails }
  else sess

/-- `sv2_jdc_custom_result(false, …)` -/
def customError (sess : JdcDeclares) (code : String) (now : Int) : JdcDeclares :=
  if code = "invalid-mining-job-token" then { sess.forget with haveToken := false }
  else sess.customFailedIfLive jdcCustomRetrySecs now

/-- `sv2_jdc_custom_dropped` -/
def customDropped (sess : JdcDeclares) : JdcDeclares :=
  if sess.declaredId = 0 ∧ sess.customLive = false then sess else sess.forget

end JdcDeclares

/-- `sv2_jdc_channel`, as far as `sess_declare` reads it. -/
structure JdcChannel where
  extranoncePrefixLen : Nat
  extranonceSize : Nat
  current : Bool

/-- What `sess_declare` asks of the mining channel before it takes the lock: one that is current
and whose hole a solution can carry (`SV2_MAX_B0_32`). -/
def JdcChannel.Declarable (chan : JdcChannel) : Prop :=
  chan.current = true ∧ 1 ≤ chan.extranoncePrefixLen + chan.extranonceSize ∧
    chan.extranoncePrefixLen + chan.extranonceSize ≤ 32

instance (chan : JdcChannel) : Decidable chan.Declarable := inferInstanceAs (Decidable (_ ∧ _))

/-- How far a call of `sess_declare` is. -/
inductive DeclarePhase
  | building
  /-- Its material is in `pending`; it encodes and sends. -/
  | published
  /-- Its request was no longer the pending one. -/
  | abandoned
deriving DecidableEq

/-- A call of `sess_declare` that has let go of its first lock. -/
structure DeclareCall where
  requestId : UInt32
  m : JdcMaterial
  phase : DeclarePhase

/-- A thread that declares. -/
inductive JdcThread
  | template
  | session
deriving DecidableEq

/-- Where the session thread is. -/
inductive SessionPos
  /-- Between two frames. -/
  | idle
  | declaring (call : DeclareCall)
  /-- Before the lock of `jdc_custom_job`. -/
  | accepted (m : Option JdcMaterial)
  /-- In `sv2_proxy_set_custom_job`, before the job is staged. -/
  | staging (m : JdcMaterial)
  /-- The job was staged under this request and is being sent. -/
  | staged (requestId : UInt32)
  /-- The job was not sent and is unstaged. -/
  | unsent

def SessionPos.isIdle : SessionPos → Bool
  | .idle => true
  | _ => false

/-- The job of an accepted declare that the session thread has yet to stage. -/
def SessionPos.handing : SessionPos → Option JdcMaterial
  | .accepted m => m
  | .staging m => some m
  | _ => none

/-- `custom_stage`, where `custom_pending`, and the material that it was built from. -/
structure CustomStage where
  requestId : UInt32
  m : JdcMaterial

/-- What the receive thread of the generator has to report. -/
inductive CustomReply
  /-- The pool has accepted the job built from `m`. -/
  | ok (m : JdcMaterial)
  | error (code : String)
  | dropped

/-- A declare in the ledger `outstanding`. -/
structure Declare where
  requestId : UInt32
  template : JdcTemplate
  /-- Its material was published, so that it may have been sent. -/
  published : Bool

/-- The job declaration client, its two threads, and what the generator has of it. -/
structure JdcState where
  sess : JdcDeclares
  templateThread : Option DeclareCall
  sessionThread : SessionPos
  nextRequestId : UInt32
  stage : Option CustomStage
  reply : Option CustomReply
  outstanding : List Declare

namespace JdcState

/-- Before the threads are started. -/
def start : JdcState where
  sess := .start
  templateThread := none
  sessionThread := .idle
  nextRequestId := 0
  stage := none
  reply := none
  outstanding := []

/-- The call of `sess_declare` that a thread is in. -/
def call (s : JdcState) : JdcThread → Option DeclareCall
  | .template => s.templateThread
  | .session =>
    match s.sessionThread with
    | .declaring call => some call
    | _ => none

/-- The thread is between two things it does. -/
def free (s : JdcState) : JdcThread → Bool
  | .template => s.templateThread.isNone
  | .session => s.sessionThread.isIdle

/-- The thread is in the call, or is back from it. -/
def setCall (s : JdcState) (c : Option DeclareCall) : JdcThread → JdcState
  | .template => { s with templateThread := c }
  | .session =>
    { s with
      sessionThread :=
        match c with
        | none => .idle
        | some call => .declaring call }

/-- `sess_declare` up to where it lets go of its first lock. -/
def declare (s : JdcState) (th : JdcThread) (t : JdcTemplate) (chan : JdcChannel) (now : Int) :
    JdcState :=
  if s.free th && chan.Declarable then
    match s.sess.beginDeclare t now with
    | none => s
    | some (sess, requestId) =>
      { s.setCall (some ⟨requestId, ⟨t, s.sess.token⟩, .building⟩) th with
        sess := sess
        outstanding := s.outstanding ++ [⟨requestId, t, false⟩] }
  else s

/-- `sess_declare` under its second lock. -/
def publish (s : JdcState) (th : JdcThread) : JdcState :=
  match s.call th with
  | some ⟨requestId, m, .building⟩ =>
    if s.sess.Ours requestId then
      { s.setCall (some ⟨requestId, m, .published⟩) th with
        sess := s.sess.publish m
        outstanding := s.outstanding.map fun d =>
          if d.requestId = requestId then { d with published := true } else d }
    else s.setCall (some ⟨requestId, m, .abandoned⟩) th
  | _ => s

/-- `sess_declare` has sent its DeclareMiningJob. -/
def declareSent (s : JdcState) (th : JdcThread) : JdcState :=
  match s.call th with
  | some ⟨_, _, .published⟩ => s.setCall none th
  | _ => s

/-- `sess_declare` at `out`, where it has not sent: whatever it could not build, find pending,
encode or send. -/
def declareFailed (s : JdcState) (th : JdcThread) (now : Int) : JdcState :=
  match s.call th with
  | some call =>
    { s.setCall none th with
      sess := s.sess.declareFailedLocked 1 false now
      outstanding := s.outstanding.filter (·.requestId ≠ call.requestId) }
  | none => s

/-- `sess_handle_frame` of a DeclareMiningJob.Success -/
def declareSuccess (s : JdcState) (requestId : UInt32) (newToken : Bytes) (now : Int) : JdcState :=
  let outstanding := s.outstanding.filter (·.requestId ≠ requestId)
  if s.sess.Ours requestId then
    { s with
      sess := (s.sess.declareSuccess newToken now).1
      sessionThread := .accepted (s.sess.declareSuccess newToken now).2
      outstanding := outstanding }
  else { s with outstanding := outstanding }

/-- `sess_handle_frame` of a DeclareMiningJob.Error -/
def declareError (s : JdcState) (requestId : UInt32) (code : String) (now : Int) : JdcState :=
  { s with
    sess := if s.sess.Ours requestId then s.sess.declareError code now else s.sess
    outstanding := s.outstanding.filter (·.requestId ≠ requestId) }

/-- The session loop after a second in which nothing came.  The retry is a `declare`. -/
def housekeeping (s : JdcState) (now : Int) : JdcState :=
  { s with
    sess := s.sess.housekeeping now
    outstanding :=
      if s.sess.declareTimedOut now then
        s.outstanding.filter (·.requestId ≠ s.sess.pending.requestId)
      else s.outstanding }

/-- `jdc_custom_job` under its lock. -/
def customJob (s : JdcState) : JdcState :=
  match s.sessionThread with
  | .accepted none => { s with sessionThread := .idle }
  | .accepted (some m) =>
    if s.sess.poolPrev ≠ some m.template.prevHash then
      { s with sess := { s.sess with customLive := false }, sessionThread := .idle }
    else { s with sessionThread := .staging m }
  | _ => s

/-- `sv2_proxy_set_custom_job` stages the job. -/
def stageCustom (s : JdcState) : JdcState :=
  match s.sessionThread with
  | .staging m =>
    { s with
      nextRequestId := s.nextRequestId + 1
      stage := some ⟨s.nextRequestId + 1, m⟩
      sessionThread := .staged (s.nextRequestId + 1) }
  | _ => s

/-- `sv2_proxy_set_custom_job` refuses the job before it is staged: the channel is not open, not
current, or has another hole by now. -/
def refuseCustom (s : JdcState) (now : Int) : JdcState :=
  match s.sessionThread with
  | .staging _ =>
    { s with
      sess := s.sess.customFailedIfLive jdcCustomRetrySecs now
      sessionThread := .idle }
  | _ => s

/-- `sv2_proxy_set_custom_job` returns true. -/
def customSent (s : JdcState) : JdcState :=
  match s.sessionThread with
  | .staged _ => { s with sessionThread := .idle }
  | _ => s

/-- `sv2_proxy_set_custom_job` could not send and unstages its own job. -/
def customUnsent (s : JdcState) : JdcState :=
  match s.sessionThread with
  | .staged requestId =>
    { s with
      stage := s.stage.filter (·.requestId ≠ requestId)
      sessionThread := .unsent }
  | _ => s

/-- `sv2_proxy_set_custom_job` has returned false after all. -/
def customGivenUp (s : JdcState) (now : Int) : JdcState :=
  match s.sessionThread with
  | .unsent =>
    { s with
      sess := s.sess.customFailedIfLive jdcCustomRetrySecs now
      sessionThread := .idle }
  | _ => s

/-- `sv2_proxy_handle_frame` of a SetCustomMiningJob.Success, up to its report. -/
def customSuccess (s : JdcState) (requestId : UInt32) : JdcState :=
  match s.stage, s.reply with
  | some st, none =>
    if requestId = st.requestId then { s with stage := none, reply := some (.ok st.m) } else s
  | _, _ => s

/-- `sv2_proxy_handle_frame` of a SetCustomMiningJob.Error, up to its report. -/
def customError (s : JdcState) (requestId : UInt32) (code : String) : JdcState :=
  match s.stage, s.reply with
  | some st, none =>
    if requestId = st.requestId then { s with stage := none, reply := some (.error code) } else s
  | _, _ => s

/-- `sv2_proxy_service` gives up on the staged job. -/
def customTimeout (s : JdcState) : JdcState :=
  match s.stage, s.reply with
  | some _, none => { s with stage := none, reply := some (.error "timeout") }
  | _, _ => s

/-- `sv2_proxy_handle_frame` of a SetExtranoncePrefix, where the ring may have had a custom
job. -/
def extranoncePrefix (s : JdcState) (hadCustom : Bool) : JdcState :=
  match s.reply with
  | none =>
    { s with
      stage := none
      reply := if hadCustom || s.stage.isSome then some .dropped else none }
  | some _ => s

/-- The report to the job declaration client. -/
def report (s : JdcState) (now : Int) : JdcState :=
  match s.reply with
  | none => s
  | some reply =>
    { s with
      sess :=
        match reply with
        | .ok _ => s.sess.customOk
        | .error code => s.sess.customError code now
        | .dropped => s.sess.customDropped
      reply := none }

end JdcState

/-- What happens, each under one lock of one thread. -/
inductive JdcEvent
  /-- `sess_connect` -/
  | connect
  /-- `sess_disconnect` -/
  | disconnect
  /-- `sess_allocate_token`, which the receive thread calls as well. -/
  | tokenAsked
  /-- AllocateMiningJobToken.Success -/
  | tokenAllocated (token : Bytes)
  /-- `sv2_jdc_pool_tip` -/
  | poolTip (prev : Hash256)
  /-- `sv2_jdc_pool_tip_clear` -/
  | poolTipClear
  | declare (th : JdcThread) (t : JdcTemplate) (chan : JdcChannel) (now : Int)
  | publish (th : JdcThread)
  | declareSent (th : JdcThread)
  | declareFailed (th : JdcThread) (now : Int)
  | declareSuccess (requestId : UInt32) (newToken : Bytes) (now : Int)
  | declareError (requestId : UInt32) (code : String) (now : Int)
  | housekeeping (now : Int)
  | customJob
  | stageCustom
  | refuseCustom (now : Int)
  | customSent
  | customUnsent
  | customGivenUp (now : Int)
  | customSuccess (requestId : UInt32)
  | customError (requestId : UInt32) (code : String)
  | customTimeout
  | extranoncePrefix (hadCustom : Bool)
  /-- The connection of the mining channel is freed, and the job that was staged on it. -/
  | proxyFree
  | report (now : Int)

namespace JdcState

/-- What the session thread does between two frames only. -/
def whenIdle (s s' : JdcState) : JdcState := if s.sessionThread.isIdle then s' else s

/-- One step. -/
def step (s : JdcState) : JdcEvent → JdcState
  | .connect => s.whenIdle { s with sess := { s.sess with ready := true } }
  | .disconnect => s.whenIdle { s with sess := s.sess.disconnect, outstanding := [] }
  | .tokenAsked =>
    { s with sess := { s.sess with nextRequestId := s.sess.nextRequestId + 1 } }
  | .tokenAllocated token =>
    s.whenIdle { s with sess := { s.sess with token := token, haveToken := true } }
  | .poolTip prev => { s with sess := { s.sess with poolPrev := some prev } }
  | .poolTipClear => { s with sess := { s.sess with poolPrev := none } }
  | .declare th t chan now => s.declare th t chan now
  | .publish th => s.publish th
  | .declareSent th => s.declareSent th
  | .declareFailed th now => s.declareFailed th now
  | .declareSuccess requestId newToken now => s.whenIdle (s.declareSuccess requestId newToken now)
  | .declareError requestId code now => s.whenIdle (s.declareError requestId code now)
  | .housekeeping now => s.whenIdle (s.housekeeping now)
  | .customJob => s.customJob
  | .stageCustom => s.stageCustom
  | .refuseCustom now => s.refuseCustom now
  | .customSent => s.customSent
  | .customUnsent => s.customUnsent
  | .customGivenUp now => s.customGivenUp now
  | .customSuccess requestId => s.customSuccess requestId
  | .customError requestId code => s.customError requestId code
  | .customTimeout => s.customTimeout
  | .extranoncePrefix hadCustom => s.extranoncePrefix hadCustom
  | .proxyFree => { s with stage := none, nextRequestId := 0 }
  | .report now => s.report now

end JdcState

/-! ### What the helpers leave alone -/

namespace JdcDeclares

variable (sess : JdcDeclares) (delay now : Int)

@[simp] theorem spendAttempt_pending : (sess.spendAttempt delay now).pending = sess.pending := by
  unfold spendAttempt
  split <;> rfl

@[simp] theorem spendAttempt_attemptId :
    (sess.spendAttempt delay now).attemptId = sess.attemptId := by
  unfold spendAttempt
  split <;> rfl

@[simp] theorem spendAttempt_declaredId :
    (sess.spendAttempt delay now).declaredId = sess.declaredId := by
  unfold spendAttempt
  split <;> rfl

@[simp] theorem spendAttempt_customLive :
    (sess.spendAttempt delay now).customLive = sess.customLive := by
  unfold spendAttempt
  split <;> rfl

@[simp] theorem spendAttempt_customId :
    (sess.spendAttempt delay now).customId = sess.customId := by
  unfold spendAttempt
  split <;> rfl

/-- The slot is left alone, and the template that is tried is the same or none. -/
structure KeepsSlot (sess sess' : JdcDeclares) : Prop where
  pending : sess'.pending = sess.pending
  attemptId : sess'.attemptId = sess.attemptId ∨ sess'.attemptId = 0

/-- No custom job is awaited that was not before. -/
def KeepsCustom (sess sess' : JdcDeclares) : Prop :=
  sess'.customLive = true → sess.customLive = true ∧ sess'.customId = sess.customId

/-- No template is retired. -/
def KeepsDeclared (sess sess' : JdcDeclares) : Prop :=
  sess'.declaredId = sess.declaredId ∨ sess'.declaredId = 0

theorem declareFailedLocked_live (done : Bool) :
    (sess.declareFailedLocked delay done now).pending.live = false := by
  unfold declareFailedLocked
  split <;> simp [clearPending]

theorem declareFailedLocked_keeps (done : Bool) :
    sess.KeepsCustom (sess.declareFailedLocked delay done now) ∧
      sess.KeepsDeclared (sess.declareFailedLocked delay done now) := by
  unfold declareFailedLocked
  split <;> simp [clearPending, KeepsCustom, KeepsDeclared]

theorem customFailedLocked_keeps :
    sess.KeepsSlot (sess.customFailedLocked delay now) ∧
      (sess.customFailedLocked delay now).customLive = false ∧
      sess.KeepsDeclared (sess.customFailedLocked delay now) := by
  unfold customFailedLocked
  split
  · exact ⟨⟨rfl, Or.inl rfl⟩, rfl, Or.inl rfl⟩
  · refine ⟨⟨?_, Or.inl ?_⟩, ?_, Or.inl ?_⟩ <;> simp

theorem customFailedIfLive_keeps :
    sess.KeepsSlot (sess.customFailedIfLive delay now) ∧
      (sess.customFailedIfLive delay now).customLive = false ∧
      sess.KeepsDeclared (sess.customFailedIfLive delay now) := by
  unfold customFailedIfLive
  split
  · exact sess.customFailedLocked_keeps delay now
  · next hlive => exact ⟨⟨rfl, Or.inl rfl⟩, by simpa using hlive, Or.inl rfl⟩

theorem KeepsCustom.of_dead {sess sess' : JdcDeclares} (h : sess'.customLive = false) :
    sess.KeepsCustom sess' := by
  intro hlive
  rw [h] at hlive
  cases hlive

theorem forget_keeps : sess.KeepsSlot sess.forget ∧ sess.KeepsCustom sess.forget ∧
    sess.KeepsDeclared sess.forget :=
  ⟨⟨rfl, Or.inr rfl⟩, .of_dead rfl, Or.inr rfl⟩

theorem customOk_keeps : sess.KeepsSlot sess.customOk ∧ sess.KeepsCustom sess.customOk := by
  unfold customOk
  split
  · exact ⟨⟨rfl, Or.inl rfl⟩, .of_dead rfl⟩
  · exact ⟨⟨rfl, Or.inl rfl⟩, fun hlive => ⟨hlive, rfl⟩⟩

theorem customError_keeps (code : String) :
    sess.KeepsSlot (sess.customError code now) ∧ sess.KeepsCustom (sess.customError code now) ∧
      sess.KeepsDeclared (sess.customError code now) := by
  unfold customError
  split
  · exact ⟨⟨rfl, Or.inr rfl⟩, .of_dead rfl, Or.inr rfl⟩
  · obtain ⟨hslot, hdead, hdeclared⟩ := sess.customFailedIfLive_keeps jdcCustomRetrySecs now
    exact ⟨hslot, .of_dead hdead, hdeclared⟩

theorem customDropped_keeps :
    sess.KeepsSlot sess.customDropped ∧ sess.KeepsCustom sess.customDropped ∧
      sess.KeepsDeclared sess.customDropped := by
  unfold customDropped
  split
  · exact ⟨⟨rfl, Or.inl rfl⟩, fun hlive => ⟨hlive, rfl⟩, Or.inl rfl⟩
  · exact sess.forget_keeps

/-- What `sess_declare` has done when it lets go of its first lock. -/
theorem beginDeclare_eq_some {sess sess' : JdcDeclares} {t : JdcTemplate} {now : Int}
    {requestId : UInt32} (h : sess.beginDeclare t now = some (sess', requestId)) :
    sess.mayDeclareLocked t.id now = true ∧ requestId = sess.nextRequestId + 1 ∧
      sess'.pending = { sess.pending with live := true, requestId := requestId, sent := now } ∧
      sess'.attemptId = t.id ∧ sess'.customLive = sess.customLive ∧
      sess'.customId = sess.customId ∧ sess'.declaredId = sess.declaredId := by
  unfold beginDeclare at h
  split at h
  · cases h
  next hmay =>
  split at h
  · cases h
  refine ⟨by simpa using hmay, ?_⟩
  dsimp only at h
  split at h
  · next htried =>
    cases h
    simp
  · next htried =>
    cases h
    have hid : sess.attemptId = t.id := by simpa using htried
    simp [hid]

theorem not_live_of_mayDeclareLocked {sess : JdcDeclares} {id : Nat} {now : Int}
    (h : sess.mayDeclareLocked id now = true) : sess.pending.live = false := by
  unfold mayDeclareLocked at h
  split at h
  · cases h
  · next hready =>
    simp only [Bool.or_eq_true, Bool.not_eq_true', not_or] at hready
    simpa using hready.2

theorem KeepsCustom.trans {a b c : JdcDeclares} (hab : a.KeepsCustom b) (hbc : b.KeepsCustom c) :
    a.KeepsCustom c := by
  intro hc
  obtain ⟨hb, hid⟩ := hbc hc
  exact ⟨(hab hb).1, hid.trans (hab hb).2⟩

theorem KeepsDeclared.trans {a b c : JdcDeclares} (hab : a.KeepsDeclared b)
    (hbc : b.KeepsDeclared c) : a.KeepsDeclared c := by
  obtain hbc | hbc := hbc
  · obtain hab | hab := hab
    · exact Or.inl (hbc.trans hab)
    · exact Or.inr (hbc.trans hab)
  · exact Or.inr hbc

theorem declareError_live (code : String) : (sess.declareError code now).pending.live = false :=
  declareFailedLocked_live _ _ _ _

theorem declareError_keeps (code : String) :
    sess.KeepsCustom (sess.declareError code now) ∧
      sess.KeepsDeclared (sess.declareError code now) :=
  declareFailedLocked_keeps _ _ _ _

theorem timeOutCustom_keeps :
    sess.KeepsSlot (sess.timeOutCustom now) ∧ sess.KeepsCustom (sess.timeOutCustom now) ∧
      sess.KeepsDeclared (sess.timeOutCustom now) := by
  unfold timeOutCustom
  split
  · obtain ⟨hslot, hdead, hdeclared⟩ := sess.customFailedLocked_keeps 1 now
    exact ⟨hslot, .of_dead hdead, hdeclared⟩
  · exact ⟨⟨rfl, Or.inl rfl⟩, fun hlive => ⟨hlive, rfl⟩, Or.inl rfl⟩

theorem housekeeping_keeps :
    sess.KeepsCustom (sess.housekeeping now) ∧ sess.KeepsDeclared (sess.housekeeping now) := by
  unfold housekeeping
  split
  · obtain ⟨hcustom, hdeclared⟩ := sess.declareFailedLocked_keeps 1 now false
    obtain ⟨-, hcustom', hdeclared'⟩ :=
      (sess.declareFailedLocked 1 false now).timeOutCustom_keeps now
    exact ⟨hcustom.trans hcustom', hdeclared.trans hdeclared'⟩
  · exact (sess.timeOutCustom_keeps now).2

theorem housekeeping_live (htimed : sess.declareTimedOut now) :
    (sess.housekeeping now).pending.live = false := by
  rw [housekeeping, if_pos htimed, (timeOutCustom_keeps _ now).1.pending]
  exact sess.declareFailedLocked_live 1 now false

theorem housekeeping_keepsSlot (htimed : ¬ sess.declareTimedOut now) :
    sess.KeepsSlot (sess.housekeeping now) := by
  rw [housekeeping, if_neg htimed]
  exact (sess.timeOutCustom_keeps now).1

end JdcDeclares

/-! ### The slot and the ledger -/

/-- The job of a reply that accepts one. -/
def CustomReply.job : CustomReply → Option JdcMaterial
  | .ok m => some m
  | _ => none

variable {s : JdcState}

namespace JdcState

/-- The job that the pool has accepted, until this is reported. -/
def accepted (s : JdcState) : Option JdcMaterial := s.reply.bind CustomReply.job

/-- The thread that is not this one. -/
def other : JdcThread → JdcThread
  | .template => .session
  | .session => .template

/-- The slot has the declare `d`. -/
structure Slot (sess : JdcDeclares) (d : Declare) : Prop where
  requestId : sess.pending.requestId = d.requestId
  attemptId : sess.attemptId = d.template.id ∨ sess.attemptId = 0
  material : d.published = true →
    ∃ m, sess.pending.material = some m ∧ m.template = d.template

/-- The slot is the ledger. -/
structure Slotted (sess : JdcDeclares) (outstanding : List Declare) : Prop where
  live : sess.pending.live = true → ∃ d, outstanding = [d] ∧ Slot sess d
  dead : sess.pending.live = false → outstanding = []

/-- A call that finds its request pending finds its own. -/
def Building (sess : JdcDeclares) (outstanding : List Declare) (call : DeclareCall) : Prop :=
  call.phase = .building → sess.Ours call.requestId → ∃ d ∈ outstanding,
    d.template = call.m.template

/-- The jobs that are handed over, staged or accepted are of the template `id`. -/
structure Awaits (pos : SessionPos) (stage : Option CustomStage) (accepted : Option JdcMaterial)
    (id : Nat) : Prop where
  handing : ∀ m ∈ pos.handing, m.template.id = id
  staged : pos.handing = none → ∀ st ∈ stage, st.m.template.id = id
  accepted : ∀ m ∈ accepted, m.template.id = id

/-- The invariant. -/
structure Inv (s : JdcState) : Prop where
  slotted : Slotted s.sess s.outstanding
  building : ∀ th, ∀ call ∈ s.call th, Building s.sess s.outstanding call
  awaits : s.sess.customLive = true → s.sess.customId ≠ 0 →
    Awaits s.sessionThread s.stage s.accepted s.sess.customId

/-- Neither the request of a failing call nor the job of a reply is mistaken for another. -/
def Orderly (s : JdcState) : JdcEvent → Prop
  -- the number of a request has not come round to a call that is still under way
  | .declare th _ _ _ => ∀ call ∈ s.call (other th), call.requestId ≠ s.sess.nextRequestId + 1
  -- a call fails while its own request is pending, or none is
  | .declareFailed th _ => ∀ call ∈ s.call th,
      s.sess.pending.live = true → s.sess.pending.requestId = call.requestId
  -- a Success answers what may have been sent, and finds no reply to a job of another template
  -- between the pool and its report
  | .declareSuccess requestId _ _ => ∀ d ∈ s.outstanding, d.requestId = requestId →
      d.published = true ∧ ∀ m ∈ s.accepted, m.template.id = d.template.id
  -- while a job waits to be staged, the pool accepts none of another template
  | .customSuccess requestId => ∀ m ∈ s.sessionThread.handing, s.sess.customLive = true →
      ∀ st ∈ s.stage, requestId = st.requestId → st.m.template.id = m.template.id
  | _ => True

instance (s : JdcState) (e : JdcEvent) : Decidable (s.Orderly e) := by
  cases e <;> dsimp only [Orderly] <;> infer_instance

theorem start_inv : start.Inv where
  slotted := ⟨fun h => absurd h (by decide), fun _ => rfl⟩
  building th call hcall := by cases th <;> cases hcall
  awaits h := absurd h (by decide)

/-! #### Threads -/

@[simp] theorem setCall_sess (s : JdcState) (c : Option DeclareCall) (th : JdcThread) :
    (s.setCall c th).sess = s.sess := by
  cases th <;> rfl

@[simp] theorem setCall_outstanding (s : JdcState) (c : Option DeclareCall) (th : JdcThread) :
    (s.setCall c th).outstanding = s.outstanding := by
  cases th <;> rfl

@[simp] theorem setCall_stage (s : JdcState) (c : Option DeclareCall) (th : JdcThread) :
    (s.setCall c th).stage = s.stage := by
  cases th <;> rfl

@[simp] theorem setCall_accepted (s : JdcState) (c : Option DeclareCall) (th : JdcThread) :
    (s.setCall c th).accepted = s.accepted := by
  cases th <;> rfl

theorem call_setCall_self (s : JdcState) (c : Option DeclareCall) (th : JdcThread) :
    (s.setCall c th).call th = c := by
  cases th with
  | template => rfl
  | session => cases c <;> rfl

theorem call_setCall_other (s : JdcState) (c : Option DeclareCall) (th : JdcThread) :
    (s.setCall c th).call (other th) = s.call (other th) := by
  cases th <;> rfl

theorem eq_or_eq_other (th th' : JdcThread) : th' = th ∨ th' = other th := by
  cases th <;> cases th' <;> simp [other]

/-- The calls of a state in which one thread has gone on. -/
theorem call_setCall {c : Option DeclareCall} {th th' : JdcThread}
    {call : DeclareCall} (h : call ∈ (s.setCall c th).call th') :
    call ∈ c ∨ call ∈ s.call (other th) := by
  obtain rfl | rfl := eq_or_eq_other th th'
  · rw [call_setCall_self] at h
    exact Or.inl h
  · rw [call_setCall_other] at h
    exact Or.inr h

/-- A session thread that declares hands no job over. -/
theorem handing_setCall (c : Option DeclareCall) {th : JdcThread}
    (h : s.free th = true ∨ (s.call th).isSome = true) :
    (s.setCall c th).sessionThread.handing = s.sessionThread.handing := by
  cases th with
  | template => rfl
  | session =>
    have hnone : s.sessionThread.handing = none := by
      cases hpos : s.sessionThread <;> simp [free, call, hpos, SessionPos.isIdle] at h <;> rfl
    rw [hnone]
    cases c <;> rfl

/-! #### What keeps the invariant -/

variable {sess sess' : JdcDeclares} {outstanding : List Declare}

theorem Slotted.keeps (h : Slotted sess outstanding) (hkeeps : sess.KeepsSlot sess') :
    Slotted sess' outstanding where
  live hlive := by
    rw [hkeeps.pending] at hlive
    obtain ⟨d, hout, hslot⟩ := h.live hlive
    refine ⟨d, hout, ?_, ?_, ?_⟩
    · rw [hkeeps.pending]
      exact hslot.requestId
    · obtain hsame | hzero := hkeeps.attemptId
      · rw [hsame]
        exact hslot.attemptId
      · exact Or.inr hzero
    · rw [hkeeps.pending]
      exact hslot.material
  dead hdead := by
    rw [hkeeps.pending] at hdead
    exact h.dead hdead

/-- The answer to the pending request, or its end, empties the ledger. -/
theorem Slotted.filter_ours (h : Slotted sess outstanding) {requestId : UInt32}
    (hours : sess.pending.live = true → requestId = sess.pending.requestId) :
    outstanding.filter (·.requestId ≠ requestId) = [] := by
  cases hlive : sess.pending.live with
  | false => rw [h.dead hlive, List.filter_nil]
  | true =>
    obtain ⟨d, hout, hslot⟩ := h.live hlive
    rw [hout, hours hlive]
    simp [hslot.requestId]

/-- An answer to another request does not. -/
theorem Slotted.filter_not_ours (h : Slotted sess outstanding) {requestId : UInt32}
    (hours : ¬ sess.Ours requestId) :
    outstanding.filter (·.requestId ≠ requestId) = outstanding := by
  cases hlive : sess.pending.live with
  | false => rw [h.dead hlive, List.filter_nil]
  | true =>
    obtain ⟨d, hout, hslot⟩ := h.live hlive
    have hne : d.requestId ≠ requestId := by
      intro heq
      exact hours ⟨hlive, (hslot.requestId.trans heq).symm⟩
    simp [hout, hne]

theorem Building.keeps {call : DeclareCall} (h : Building sess outstanding call)
    (hkeeps : sess.KeepsSlot sess') : Building sess' outstanding call := by
  intro hphase hours
  rw [JdcDeclares.Ours, hkeeps.pending] at hours
  exact h hphase hours

theorem Building.of_dead {call : DeclareCall} (h : sess.pending.live = false) :
    Building sess outstanding call := by
  rintro - ⟨hlive, -⟩
  rw [h] at hlive
  cases hlive

/-- The session thread is elsewhere and hands over what it did. -/
theorem Awaits.of_handing {pos pos' : SessionPos} {stage : Option CustomStage}
    {accepted : Option JdcMaterial} {id : Nat} (h : Awaits pos stage accepted id)
    (hpos : pos'.handing = pos.handing) : Awaits pos' stage accepted id where
  handing m hm := h.handing m (hpos ▸ hm)
  staged hnone := h.staged (hpos.symm.trans hnone)
  accepted := h.accepted

/-- The staged job is dropped. -/
theorem Awaits.unstage {pos : SessionPos} {stage stage' : Option CustomStage}
    {accepted accepted' : Option JdcMaterial} {id : Nat} (h : Awaits pos stage accepted id)
    (hstage : ∀ st ∈ stage', st ∈ stage) (haccepted : ∀ m ∈ accepted', m ∈ accepted) :
    Awaits pos stage' accepted' id where
  handing := h.handing
  staged hnone st hst := h.staged hnone st (hstage st hst)
  accepted m hm := h.accepted m (haccepted m hm)

/-- A call is begun or goes on, and the thread in it hands over what it did: nothing. -/
theorem awaits_setCall (c : Option DeclareCall) {th : JdcThread} {id : Nat}
    (hth : s.free th = true ∨ (s.call th).isSome = true)
    (h : Awaits s.sessionThread s.stage s.accepted id) :
    Awaits (s.setCall c th).sessionThread (s.setCall c th).stage (s.setCall c th).accepted id := by
  rw [setCall_stage, setCall_accepted]
  exact h.of_handing (handing_setCall c hth)

/-- A step that leaves the slot alone. -/
theorem Inv.of_keeps {s s' : JdcState} (h : s.Inv) (hslot : s.sess.KeepsSlot s'.sess)
    (hcustom : s.sess.KeepsCustom s'.sess) (hout : s'.outstanding = s.outstanding)
    (hcall : ∀ th, ∀ call ∈ s'.call th, call.phase = .building → ∃ th', call ∈ s.call th')
    (hawaits : ∀ id, s'.sess.customLive = true →
      Awaits s.sessionThread s.stage s.accepted id →
        Awaits s'.sessionThread s'.stage s'.accepted id) : s'.Inv where
  slotted := by
    rw [hout]
    exact h.slotted.keeps hslot
  building th call hmem hphase := by
    obtain ⟨th', hmem'⟩ := hcall th call hmem hphase
    rw [hout]
    exact (h.building th' call hmem').keeps hslot hphase
  awaits hlive hid := by
    obtain ⟨hlive', hsame⟩ := hcustom hlive
    rw [hsame] at hid ⊢
    exact hawaits _ hlive (h.awaits hlive' hid)

/-- A step after which nothing is pending. -/
theorem Inv.of_cleared {s s' : JdcState} (h : s.Inv) (hdead : s'.sess.pending.live = false)
    (hout : s'.outstanding = []) (hcustom : s.sess.KeepsCustom s'.sess)
    (hawaits : ∀ id, s'.sess.customLive = true →
      Awaits s.sessionThread s.stage s.accepted id →
        Awaits s'.sessionThread s'.stage s'.accepted id) : s'.Inv where
  slotted := by
    refine ⟨fun hlive => ?_, fun _ => hout⟩
    rw [hdead] at hlive
    cases hlive
  building _ _ _ := .of_dead hdead
  awaits hlive hid := by
    obtain ⟨hlive', hsame⟩ := hcustom hlive
    rw [hsame] at hid ⊢
    exact hawaits _ hlive (h.awaits hlive' hid)

theorem Inv.whenIdle {s s' : JdcState} (h : s.Inv) (h' : s.sessionThread.isIdle = true → s'.Inv) :
    (s.whenIdle s').Inv := by
  unfold JdcState.whenIdle
  split
  · next hidle => exact h' hidle
  · exact h

/-! #### The steps -/

/-- Nothing was pending, so that the ledger has the new declare alone. -/
theorem declare_inv (h : s.Inv) {th : JdcThread} {t : JdcTemplate}
    {chan : JdcChannel} {now : Int} (he : s.Orderly (.declare th t chan now)) :
    (s.declare th t chan now).Inv := by
  unfold declare
  split
  next hfree =>
    cases hbegin : s.sess.beginDeclare t now with
    | none => exact h
    | some begun =>
      obtain ⟨sess, requestId⟩ := begun
      obtain ⟨hmay, hid, hpending, hattempt, hlive, hcustom, -⟩ :=
        JdcDeclares.beginDeclare_eq_some hbegin
      have hempty : s.outstanding = [] :=
        h.slotted.dead (JdcDeclares.not_live_of_mayDeclareLocked hmay)
      simp only [Bool.and_eq_true] at hfree
      dsimp only
      rw [hempty, List.nil_append]
      constructor
      · dsimp only
        refine ⟨fun _ => ⟨_, rfl, ?_, Or.inl hattempt, fun hpub => by cases hpub⟩, ?_⟩
        · simp [hpending]
        · simp [hpending]
      · intro th' call hcall
        obtain hnew | hold := call_setCall hcall
        · cases hnew
          exact fun _ _ => ⟨_, List.mem_singleton_self _, rfl⟩
        · rintro - ⟨-, hours⟩
          have hsame : call.requestId = s.sess.nextRequestId + 1 := by
            rw [hours, hpending, hid]
          exact absurd hsame (he call hold)
      · dsimp only
        intro hl hne
        rw [hlive] at hl
        rw [hcustom] at hne ⊢
        exact awaits_setCall _ (Or.inl hfree.1) (h.awaits hl hne)
  · exact h

/-- The material of the call that finds its request pending is that of the declare. -/
theorem publish_inv (h : s.Inv) (th : JdcThread) : (s.publish th).Inv := by
  unfold publish
  split
  next requestId m hcall =>
    have hth : s.free th = true ∨ (s.call th).isSome = true := Or.inr (by rw [hcall]; rfl)
    split
    · next hours =>
      obtain ⟨d, hout, hslot⟩ := h.slotted.live hours.1
      have hid : d.requestId = requestId := hslot.requestId.symm.trans hours.2.symm
      have hpub : s.outstanding.map (fun d =>
          if d.requestId = requestId then { d with published := true } else d) =
            [{ d with published := true }] := by
        simp [hout, hid]
      rw [hpub]
      constructor
      · refine ⟨fun _ => ⟨_, rfl, hslot.requestId, hslot.attemptId, fun _ => ⟨m, rfl, ?_⟩⟩, ?_⟩
        · obtain ⟨d', hd', htemplate⟩ := h.building th _ hcall rfl hours
          rw [hout, List.mem_singleton] at hd'
          rw [← htemplate, hd']
        · intro hdead
          exact absurd (hours.1.symm.trans hdead) (by decide)
      · intro th' call hmem hphase hours'
        obtain hnew | hold := call_setCall hmem
        · cases hnew
          cases hphase
        · obtain ⟨d', hd', htemplate⟩ := h.building (other th) call hold hphase hours'
          rw [hout, List.mem_singleton] at hd'
          exact ⟨_, List.mem_singleton_self _, by rw [← htemplate, hd']⟩
      · intro hl hne
        exact awaits_setCall _ hth (h.awaits hl hne)
    · refine h.of_keeps ?_ ?_ (setCall_outstanding _ _ _) ?_ ?_
      · rw [setCall_sess]
        exact ⟨rfl, Or.inl rfl⟩
      · rw [setCall_sess]
        exact fun hlive => ⟨hlive, rfl⟩
      · intro th' call hmem hphase
        obtain hnew | hold := call_setCall hmem
        · cases hnew
          cases hphase
        · exact ⟨other th, hold⟩
      · exact fun id _ hawaits => awaits_setCall _ hth hawaits
  · exact h

theorem declareSent_inv (h : s.Inv) (th : JdcThread) : (s.declareSent th).Inv := by
  unfold declareSent
  split
  next hcall =>
    refine h.of_keeps ?_ ?_ (setCall_outstanding _ _ _) ?_ ?_
    · rw [setCall_sess]
      exact ⟨rfl, Or.inl rfl⟩
    · rw [setCall_sess]
      exact fun hlive => ⟨hlive, rfl⟩
    · intro th' call hmem _
      obtain hnew | hold := call_setCall hmem
      · cases hnew
      · exact ⟨other th, hold⟩
    · exact fun id _ => awaits_setCall _ (Or.inr (by rw [hcall]; rfl))
  · exact h

/-- The slot that is cleared is the call's own. -/
theorem declareFailed_inv (h : s.Inv) {th : JdcThread} {now : Int}
    (he : s.Orderly (.declareFailed th now)) : (s.declareFailed th now).Inv := by
  unfold declareFailed
  split
  next call hcall =>
    refine h.of_cleared ?_ ?_ ?_ ?_
    · exact s.sess.declareFailedLocked_live 1 now false
    · exact h.slotted.filter_ours fun hlive => (he call hcall hlive).symm
    · exact (s.sess.declareFailedLocked_keeps 1 now false).1
    · exact fun id _ => awaits_setCall _ (Or.inr (by rw [hcall]; rfl))
  · exact h

/-- The thread hands over the material of the declare that was answered. -/
theorem declareSuccess_inv (h : s.Inv) {requestId : UInt32} {newToken : Bytes}
    {now : Int} (he : s.Orderly (.declareSuccess requestId newToken now)) :
    (s.declareSuccess requestId newToken now).Inv := by
  unfold declareSuccess
  split
  · next hours =>
    obtain ⟨d, hout, hslot⟩ := h.slotted.live hours.1
    have hid : d.requestId = requestId := hslot.requestId.symm.trans hours.2.symm
    obtain ⟨hpub, hreply⟩ := he d (by rw [hout]; exact List.mem_singleton_self d) hid
    obtain ⟨m, hm, htemplate⟩ := hslot.material hpub
    constructor
    · refine ⟨fun hlive => (by cases hlive), fun _ => ?_⟩
      exact h.slotted.filter_ours fun _ => hours.2
    · exact fun _ _ _ => .of_dead rfl
    · intro _ hne
      have hattempt : s.sess.attemptId = d.template.id :=
        hslot.attemptId.resolve_right hne
      refine ⟨?_, ?_, ?_⟩
      · intro m' hm'
        simp only [JdcDeclares.declareSuccess, SessionPos.handing, hm, Option.map_some,
          Option.mem_some_iff] at hm'
        rw [← hm']
        exact (congrArg JdcTemplate.id htemplate).trans hattempt.symm
      · intro hnone
        simp [JdcDeclares.declareSuccess, SessionPos.handing, hm] at hnone
      · intro m' hm'
        exact (hreply m' hm').trans hattempt.symm
  · next hours =>
    dsimp only
    rw [h.slotted.filter_not_ours hours]
    exact h

theorem declareError_inv (h : s.Inv) (requestId : UInt32) (code : String)
    (now : Int) : (s.declareError requestId code now).Inv := by
  unfold declareError
  by_cases hours : s.sess.Ours requestId
  · rw [if_pos hours]
    refine h.of_cleared ?_ ?_ ?_ ?_
    · exact s.sess.declareError_live now code
    · exact h.slotted.filter_ours fun _ => hours.2
    · exact (s.sess.declareError_keeps now code).1
    · exact fun id _ hawaits => hawaits
  · rw [if_neg hours, h.slotted.filter_not_ours hours]
    exact h

theorem housekeeping_inv (h : s.Inv) (now : Int) : (s.housekeeping now).Inv := by
  unfold housekeeping
  by_cases htimed : s.sess.declareTimedOut now
  · rw [if_pos htimed]
    refine h.of_cleared ?_ ?_ ?_ ?_
    · exact s.sess.housekeeping_live now htimed
    · exact h.slotted.filter_ours fun _ => rfl
    · exact (s.sess.housekeeping_keeps now).1
    · exact fun id _ hawaits => hawaits
  · rw [if_neg htimed]
    refine h.of_keeps ?_ ?_ rfl ?_ ?_
    · exact s.sess.housekeeping_keepsSlot now htimed
    · exact (s.sess.housekeeping_keeps now).1
    · exact fun th call hmem _ => ⟨th, hmem⟩
    · exact fun id _ hawaits => hawaits

/-- A step of the session thread that is in no call before it or after it. -/
theorem Inv.of_session (h : s.Inv) {sess : JdcDeclares} {pos : SessionPos}
    {stage : Option CustomStage} (requestId : UInt32) (hslot : s.sess.KeepsSlot sess)
    (hcustom : s.sess.KeepsCustom sess) (hpos : ∀ call, pos ≠ .declaring call)
    (hawaits : ∀ id, sess.customLive = true → Awaits s.sessionThread s.stage s.accepted id →
      Awaits pos stage s.accepted id) :
    Inv { s with
      sess := sess, sessionThread := pos, stage := stage, nextRequestId := requestId } := by
  refine h.of_keeps hslot hcustom rfl ?_ hawaits
  intro th call hmem _
  cases th with
  | template => exact ⟨.template, hmem⟩
  | session =>
    cases pos with
    | declaring call' => exact absurd rfl (hpos call')
    | _ => cases hmem

/-- A template that was overtaken awaits no reply. -/
theorem customJob_inv (h : s.Inv) : s.customJob.Inv := by
  unfold customJob
  split
  · next hpos =>
    refine h.of_session s.nextRequestId ⟨rfl, Or.inl rfl⟩ (fun hlive => ⟨hlive, rfl⟩)
      (fun _ hcall => by cases hcall) fun id _ hawaits => ?_
    exact hawaits.of_handing (by rw [hpos]; rfl)
  · next m hpos =>
    split
    · exact h.of_session s.nextRequestId ⟨rfl, Or.inl rfl⟩ (.of_dead rfl)
        (fun _ hcall => by cases hcall) fun id hlive => by cases hlive
    · refine h.of_session s.nextRequestId ⟨rfl, Or.inl rfl⟩ (fun hlive => ⟨hlive, rfl⟩)
        (fun _ hcall => by cases hcall) fun id _ hawaits => ?_
      exact hawaits.of_handing (by rw [hpos]; rfl)
  · exact h

/-- The job that was handed over is the one that is staged. -/
theorem stageCustom_inv (h : s.Inv) : s.stageCustom.Inv := by
  unfold stageCustom
  split
  · next m hpos =>
    refine h.of_session _ ⟨rfl, Or.inl rfl⟩ (fun hlive => ⟨hlive, rfl⟩)
      (fun _ hcall => by cases hcall) fun id _ hawaits => ?_
    refine ⟨fun m' hm' => (by cases hm'), fun _ st hst => ?_, hawaits.accepted⟩
    cases hst
    exact hawaits.handing m (by rw [hpos]; rfl)
  · exact h

theorem refuseCustom_inv (h : s.Inv) (now : Int) : (s.refuseCustom now).Inv := by
  unfold refuseCustom
  split
  · obtain ⟨hslot, hdead, -⟩ := s.sess.customFailedIfLive_keeps jdcCustomRetrySecs now
    refine h.of_session s.nextRequestId hslot (.of_dead hdead) (fun _ hcall => by cases hcall) ?_
    intro id hlive
    rw [hdead] at hlive
    cases hlive
  · exact h

theorem customSent_inv (h : s.Inv) : s.customSent.Inv := by
  unfold customSent
  split
  · next hpos =>
    refine h.of_session s.nextRequestId ⟨rfl, Or.inl rfl⟩ (fun hlive => ⟨hlive, rfl⟩)
      (fun _ hcall => by cases hcall) fun id _ hawaits => ?_
    exact hawaits.of_handing (by rw [hpos]; rfl)
  · exact h

theorem customUnsent_inv (h : s.Inv) : s.customUnsent.Inv := by
  unfold customUnsent
  split
  · next requestId hpos =>
    refine h.of_session s.nextRequestId ⟨rfl, Or.inl rfl⟩ (fun hlive => ⟨hlive, rfl⟩)
      (fun _ hcall => by cases hcall) fun id _ hawaits => ?_
    refine (hawaits.of_handing (by rw [hpos]; rfl)).unstage ?_ fun m hm => hm
    intro st hst
    exact (Option.mem_filter_iff.mp hst).1
  · exact h

theorem customGivenUp_inv (h : s.Inv) (now : Int) : (s.customGivenUp now).Inv := by
  unfold customGivenUp
  split
  · obtain ⟨hslot, hdead, -⟩ := s.sess.customFailedIfLive_keeps jdcCustomRetrySecs now
    refine h.of_session s.nextRequestId hslot (.of_dead hdead) (fun _ hcall => by cases hcall) ?_
    intro id hlive
    rw [hdead] at hlive
    cases hlive
  · exact h

/-- A step of the receive thread of the generator. -/
theorem Inv.of_receive (h : s.Inv) {sess : JdcDeclares}
    {stage : Option CustomStage} {reply : Option CustomReply} (requestId : UInt32)
    (hslot : s.sess.KeepsSlot sess) (hcustom : s.sess.KeepsCustom sess)
    (hawaits : ∀ id, sess.customLive = true → Awaits s.sessionThread s.stage s.accepted id →
      Awaits s.sessionThread stage (reply.bind CustomReply.job) id) :
    Inv { s with sess := sess, stage := stage, reply := reply, nextRequestId := requestId } :=
  h.of_keeps hslot hcustom rfl (fun th _ hmem _ => ⟨th, by cases th <;> exact hmem⟩) hawaits

/-- The pool accepts the staged job, and no other is on its way to be staged. -/
theorem customSuccess_inv (h : s.Inv) {requestId : UInt32}
    (he : s.Orderly (.customSuccess requestId)) : (s.customSuccess requestId).Inv := by
  unfold customSuccess
  split
  · next st hstage _ =>
    split
    · next hid =>
      refine h.of_receive s.nextRequestId ⟨rfl, Or.inl rfl⟩ (fun hlive => ⟨hlive, rfl⟩) ?_
      intro id hlive hawaits
      refine ⟨hawaits.handing, fun _ st hst => (by cases hst), fun m hm => ?_⟩
      cases hm
      cases hhanding : s.sessionThread.handing with
      | none => exact hawaits.staged hhanding st hstage
      | some m =>
        exact (he m hhanding hlive st hstage hid).trans (hawaits.handing m hhanding)
    · exact h
  · exact h

theorem customError_inv (h : s.Inv) (requestId : UInt32) (code : String) :
    (s.customError requestId code).Inv := by
  unfold customError
  split
  · split
    · refine h.of_receive s.nextRequestId ⟨rfl, Or.inl rfl⟩ (fun hlive => ⟨hlive, rfl⟩) ?_
      exact fun id _ hawaits => hawaits.unstage (fun st hst => by cases hst) fun m hm => by cases hm
    · exact h
  · exact h

theorem customTimeout_inv (h : s.Inv) : s.customTimeout.Inv := by
  unfold customTimeout
  split
  · refine h.of_receive s.nextRequestId ⟨rfl, Or.inl rfl⟩ (fun hlive => ⟨hlive, rfl⟩) ?_
    exact fun id _ hawaits => hawaits.unstage (fun st hst => by cases hst) fun m hm => by cases hm
  · exact h

theorem extranoncePrefix_inv (h : s.Inv) (hadCustom : Bool) :
    (s.extranoncePrefix hadCustom).Inv := by
  unfold extranoncePrefix
  split
  · refine h.of_receive s.nextRequestId ⟨rfl, Or.inl rfl⟩ (fun hlive => ⟨hlive, rfl⟩) ?_
    intro id _ hawaits
    refine hawaits.unstage (fun st hst => by cases hst) fun m hm => ?_
    split at hm <;> cases hm
  · exact h

theorem report_inv (h : s.Inv) (now : Int) : (s.report now).Inv := by
  unfold report
  split
  · exact h
  · next reply hreply =>
    have hawaits : ∀ id, Awaits s.sessionThread s.stage s.accepted id →
        Awaits s.sessionThread s.stage none id := fun id hawaits =>
      hawaits.unstage (fun st hst => hst) fun m hm => by cases hm
    cases reply with
    | ok m =>
      obtain ⟨hslot, hcustom⟩ := s.sess.customOk_keeps
      exact h.of_receive s.nextRequestId hslot hcustom fun id _ => hawaits id
    | error code =>
      obtain ⟨hslot, hcustom, -⟩ := s.sess.customError_keeps now code
      exact h.of_receive s.nextRequestId hslot hcustom fun id _ => hawaits id
    | dropped =>
      obtain ⟨hslot, hcustom, -⟩ := s.sess.customDropped_keeps
      exact h.of_receive s.nextRequestId hslot hcustom fun id _ => hawaits id

/-- A step that changes none of the fields that the invariant is about. -/
theorem Inv.of_sess (h : s.Inv) {sess : JdcDeclares} (hslot : s.sess.KeepsSlot sess)
    (hcustom : s.sess.KeepsCustom sess) : Inv { s with sess := sess } :=
  h.of_receive s.nextRequestId hslot hcustom fun _ _ hawaits => hawaits

theorem disconnect_inv (h : s.Inv) :
    Inv { s with sess := s.sess.disconnect, outstanding := [] } :=
  h.of_cleared rfl rfl (.of_dead rfl) fun _ _ hawaits => hawaits

/-- **The step lemma.** -/
theorem step_inv (s : JdcState) (e : JdcEvent) (he : s.Orderly e) (h : s.Inv) : (s.step e).Inv := by
  cases e with
  | connect => exact h.whenIdle fun _ => h.of_sess ⟨rfl, Or.inl rfl⟩ fun hlive => ⟨hlive, rfl⟩
  | disconnect => exact h.whenIdle fun _ => disconnect_inv h
  | tokenAsked | poolTip _ => exact h.of_sess ⟨rfl, Or.inl rfl⟩ fun hlive => ⟨hlive, rfl⟩
  | tokenAllocated _ =>
    exact h.whenIdle fun _ => h.of_sess ⟨rfl, Or.inl rfl⟩ fun hlive => ⟨hlive, rfl⟩
  | poolTipClear => exact h.of_sess ⟨rfl, Or.inl rfl⟩ fun hlive => ⟨hlive, rfl⟩
  | declare _ _ _ _ => exact declare_inv h he
  | publish th => exact publish_inv h th
  | declareSent th => exact declareSent_inv h th
  | declareFailed _ _ => exact declareFailed_inv h he
  | declareSuccess _ _ _ => exact h.whenIdle fun _ => declareSuccess_inv h he
  | declareError requestId code now =>
    exact h.whenIdle fun _ => declareError_inv h requestId code now
  | housekeeping now => exact h.whenIdle fun _ => housekeeping_inv h now
  | customJob => exact customJob_inv h
  | stageCustom => exact stageCustom_inv h
  | refuseCustom now => exact refuseCustom_inv h now
  | customSent => exact customSent_inv h
  | customUnsent => exact customUnsent_inv h
  | customGivenUp now => exact customGivenUp_inv h now
  | customSuccess _ => exact customSuccess_inv h he
  | customError requestId code => exact customError_inv h requestId code
  | customTimeout => exact customTimeout_inv h
  | extranoncePrefix hadCustom => exact extranoncePrefix_inv h hadCustom
  | proxyFree =>
    refine h.of_receive 0 ⟨rfl, Or.inl rfl⟩ (fun hlive => ⟨hlive, rfl⟩) fun id _ hawaits => ?_
    exact hawaits.unstage (fun st hst => by cases hst) fun m hm => hm
  | report now => exact report_inv h now

theorem run_inv {events : List JdcEvent} (h : Along step Orderly start events) :
    (run step start events).Inv :=
  run_invariant step_inv h start_inv

/-- A template is retired by the report of an accepted job alone. -/
theorem step_declaredId (s : JdcState) (e : JdcEvent) : s.sess.KeepsDeclared (s.step e).sess ∨
    ∃ m ∈ s.accepted, s.sess.customLive = true ∧ (s.step e).sess.declaredId = s.sess.customId := by
  -- what the session's thread does only when it is idle
  have hwhen : ∀ s' : JdcState, s.sess.KeepsDeclared s'.sess →
      s.sess.KeepsDeclared (s.whenIdle s').sess := by
    intro s' hs'
    unfold whenIdle
    split
    · exact hs'
    · exact Or.inl rfl
  cases e with
  | report now =>
    dsimp only [step, report]
    split
    · exact Or.inl (Or.inl rfl)
    · next reply hreply =>
      cases reply with
      | ok m =>
        -- an accepted job that is still live retires its template
        dsimp only [JdcDeclares.customOk]
        split
        · next hlive => exact Or.inr ⟨m, by simp [accepted, hreply, CustomReply.job], hlive, rfl⟩
        · exact Or.inl (Or.inl rfl)
      | error code => exact Or.inl (s.sess.customError_keeps now code).2.2
      | dropped => exact Or.inl s.sess.customDropped_keeps.2.2
  | declare th t chan now =>
    -- a declare is begun, published and sent by the thread that has the template
    dsimp only [step, declare]
    left
    split
    · split
      · exact Or.inl rfl
      · next hbegin =>
        obtain ⟨-, -, -, -, -, -, hdeclared⟩ := JdcDeclares.beginDeclare_eq_some hbegin
        exact Or.inl hdeclared
    · exact Or.inl rfl
  | publish th =>
    dsimp only [step, publish]
    left
    split
    · split
      · exact Or.inl rfl
      · exact Or.inl (by rw [setCall_sess])
    · exact Or.inl rfl
  | declareSent th =>
    dsimp only [step, declareSent]
    left
    split
    · exact Or.inl (by rw [setCall_sess])
    · exact Or.inl rfl
  | declareFailed th now =>
    dsimp only [step, declareFailed]
    left
    split
    · exact (s.sess.declareFailedLocked_keeps 1 now false).2
    · exact Or.inl rfl
  | declareSuccess requestId newToken now =>
    -- an answer of the declarator may make a job, and retires nothing
    refine Or.inl (hwhen _ ?_)
    unfold declareSuccess
    split <;> exact Or.inl rfl
  | declareError requestId code now =>
    refine Or.inl (hwhen _ ?_)
    dsimp only [declareError]
    split
    · exact (s.sess.declareError_keeps now code).2
    · exact Or.inl rfl
  | housekeeping now => exact Or.inl (hwhen _ (s.sess.housekeeping_keeps now).2)
  | connect => exact Or.inl (hwhen _ (Or.inl rfl))
  | disconnect => exact Or.inl (hwhen _ (Or.inr rfl))
  | tokenAllocated _ => exact Or.inl (hwhen _ (Or.inl rfl))
  | customJob =>
    -- the custom job is on its way to the pool, which may refuse it
    dsimp only [step, customJob]
    left
    split
    · exact Or.inl rfl
    · split <;> exact Or.inl rfl
    · exact Or.inl rfl
  | refuseCustom now =>
    dsimp only [step, refuseCustom]
    left
    split
    · exact (s.sess.customFailedIfLive_keeps jdcCustomRetrySecs now).2.2
    · exact Or.inl rfl
  | customGivenUp now =>
    dsimp only [step, customGivenUp]
    left
    split
    · exact (s.sess.customFailedIfLive_keeps jdcCustomRetrySecs now).2.2
    · exact Or.inl rfl
  | stageCustom => exact Or.inl (Or.inl (by dsimp only [step, stageCustom]; split <;> rfl))
  | customSent => exact Or.inl (Or.inl (by dsimp only [step, customSent]; split <;> rfl))
  | customUnsent => exact Or.inl (Or.inl (by dsimp only [step, customUnsent]; split <;> rfl))
  | customSuccess requestId =>
    dsimp only [step, customSuccess]
    left
    split
    · split <;> exact Or.inl rfl
    · exact Or.inl rfl
  | customError requestId code =>
    dsimp only [step, customError]
    left
    split
    · split <;> exact Or.inl rfl
    · exact Or.inl rfl
  | customTimeout => exact Or.inl (Or.inl (by dsimp only [step, customTimeout]; split <;> rfl))
  | extranoncePrefix hadCustom =>
    exact Or.inl (Or.inl (by dsimp only [step, extranoncePrefix]; split <;> rfl))
  | tokenAsked => exact Or.inl (Or.inl rfl)
  | poolTip _ => exact Or.inl (Or.inl rfl)
  | poolTipClear => exact Or.inl (Or.inl rfl)
  | proxyFree => exact Or.inl (Or.inl rfl)

/-! ### What holds of every state reached -/

/-- The Success for the declare `d` makes a custom job of its template. -/
def Honours (s : JdcState) (d : Declare) (newToken : Bytes) (now : Int) : Prop :=
  ∃ m, m.template = d.template ∧
    (s.step (.declareSuccess d.requestId newToken now)).sessionThread = .accepted (some m) ∧
      (s.step (.declareSuccess d.requestId newToken now)).sess.customLive = true

/-- Declares and custom jobs are taken for what they are. -/
structure Attributed (s : JdcState) : Prop where
  /-- At most one declare is pending. -/
  one : s.outstanding.length ≤ 1
  /-- No failure of another call has cancelled it. -/
  pending : ∀ d ∈ s.outstanding, s.sess.Ours d.requestId
  /-- A Success for it, if it may have been sent, is honoured. -/
  honoured : ∀ d ∈ s.outstanding, d.published = true → s.sessionThread.isIdle = true →
    ∀ newToken now, s.Honours d newToken now
  /-- A template is declared when the pool has accepted a job built from it. -/
  declared : ∀ e, (s.step e).sess.declaredId ≠ s.sess.declaredId →
    (s.step e).sess.declaredId ≠ 0 →
      ∃ m ∈ s.accepted, m.template.id = (s.step e).sess.declaredId

/-- The invariant gives the four. -/
theorem Inv.attributed (h : s.Inv) : s.Attributed := by
  have hslot : ∀ d ∈ s.outstanding, s.sess.pending.live = true ∧ s.outstanding = [d] ∧
      Slot s.sess d := by
    intro d hd
    cases hlive : s.sess.pending.live with
    | false =>
      rw [h.slotted.dead hlive] at hd
      cases hd
    | true =>
      obtain ⟨d', hout, hslot⟩ := h.slotted.live hlive
      rw [hout, List.mem_singleton] at hd
      subst hd
      exact ⟨rfl, hout, hslot⟩
  have hours : ∀ d ∈ s.outstanding, s.sess.Ours d.requestId := fun d hd =>
    ⟨(hslot d hd).1, (hslot d hd).2.2.requestId.symm⟩
  refine ⟨?_, hours, ?_, ?_⟩
  · cases hout : s.outstanding with
    | nil => exact Nat.zero_le 1
    | cons d rest =>
      have hone := (hslot d (by rw [hout]; exact List.mem_cons_self)).2.1
      rw [← hout, hone]
      exact Nat.le_refl 1
  · intro d hd hpub hidle newToken now
    obtain ⟨m, hm, htemplate⟩ := (hslot d hd).2.2.material hpub
    refine ⟨{ m with token := if newToken = [] then m.token else newToken }, htemplate, ?_⟩
    simp only [step, JdcState.whenIdle, hidle, if_true, declareSuccess, if_pos (hours d hd),
      JdcDeclares.declareSuccess, hm, Option.map_some, and_self]
  · intro e hne hzero
    obtain hkeeps | ⟨m, hm, hlive, hid⟩ := s.step_declaredId e
    · exact (hkeeps.elim hne hzero).elim
    · rw [hid] at hzero ⊢
      exact ⟨m, hm, (h.awaits hlive hzero).accepted m hm⟩

/-- **In every run of orderly steps, declares and custom jobs are attributed**: one declare is
pending at most, no failed call cancels another's, the Success for it is honoured, and the
template that becomes `declared_id` is that of the job which the pool has accepted. -/
theorem declares_attributed (events : List JdcEvent) (h : Along step Orderly start events) :
    (run step start events).Attributed :=
  (run_inv h).attributed

/-- The session comes up with a token, on the tip of the pool. -/
def sessionUp : List JdcEvent := [.connect, .tokenAsked, .tokenAllocated [1], .poolTip .zero]

/-- A template on that tip. -/
def exampleTemplate (id : Nat) : JdcTemplate := ⟨id, .zero⟩

/-- A channel that can be declared for. -/
def exampleChannel : JdcChannel := ⟨4, 8, true⟩

/-- A template is declared, answered, accepted and retired. -/
def oneDeclare : List JdcEvent :=
  sessionUp ++
    [.declare .template (exampleTemplate 7) exampleChannel 100, .publish .template,
      .declareSent .template, .declareSuccess 2 [] 101, .customJob, .stageCustom, .customSent,
      .customSuccess 1, .report 102]

theorem one_declare_attributed : (run step start oneDeclare).Attributed :=
  declares_attributed oneDeclare (by decide)

/-- The template thread is still sending when the session is dropped; the session thread comes
back and declares a newer template, and then the first send fails.  The Success for the second
declare is not honoured. -/
theorem failed_send_cancels : ¬ ∀ events, (run step start events).Attributed := by
  intro hall
  have h := (hall (sessionUp ++
    [.declare .template (exampleTemplate 7) exampleChannel 100, .publish .template, .disconnect] ++
      sessionUp ++
    [.declare .session (exampleTemplate 8) exampleChannel 110, .publish .session,
      .declareSent .session, .declareFailed .template 111])).pending
    ⟨4, exampleTemplate 8, true⟩ List.mem_cons_self
  revert h
  decide

end JdcState

end CashStratum
