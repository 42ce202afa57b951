/-
CashStratum/JdRun.lean

The job declarator at work (`sv2_jd.c`): AllocateMiningJobToken, DeclareMiningJob with
its three ways to be accepted (checkBlock, coalesce, session skip),
ProvideMissingTransactions, the workers that call checkBlock, and the events that
come from outside, a client that goes and a tip that changes.

A step is one critical section of one thread.  A thread that handles a declare is at
one of the places of `JdThread` between two steps, and the threads interleave freely.
The verdict of checkBlock and the random tokens are part of the event.
-/
import CashStratum.JdState
import CashStratum.Run
import CashStratum.Sv2Codec

namespace CashStratum

/-! ### Payout scripts -/

/-- An output script `address_to_txn` makes. -/
structure PayoutScript where
  bin : Bytes
  len_pos : 0 < bin.length
  len_le : bin.length ≤ 40

/-- `OP_TRUE`, which examples pay. -/
def PayoutScript.opTrue : PayoutScript := ⟨[0x51], by decide, by decide⟩

/-- The configuration of the job declarator: `ckpool`, the script of `btcaddress`, and
the script of an account that bitcoind accepts as an address. -/
structure JdConf where
  ck : Ckpool
  btcaddressScript : Option PayoutScript
  accountScript : Bytes → Option PayoutScript

/-- The account of a user: what stands before the first `.` or `_`. -/
def userAccount (user : Bytes) : Bytes := user.takeWhile fun c => c ≠ 0x2e && c ≠ 0x5f

/-- The script `build_allocate_outputs` constrains the coinbase to. -/
def allocateScript (conf : JdConf) (user : Bytes) : Option PayoutScript :=
  if conf.ck.btcsolo then
    if userAccount user = [] ∨ (userAccount user).length ≥ 128 then none
    else conf.accountScript (userAccount user)
  else conf.btcaddressScript

/-- `build_allocate_outputs`: one output of no value, or nothing. -/
def buildAllocateOutputs (conf : JdConf) (user : Bytes) : Bytes :=
  match allocateScript conf user with
  | none => []
  | some script =>
    0x01 :: (List.replicate 8 0 ++ UInt8.ofNat script.bin.length :: script.bin)

/-- `sv2_cb_first_output_script`. -/
def firstOutputScript (outputs : Bytes) : Option Bytes := do
  let (nout, p) ← sv2ReadCompactSize outputs
  if nout < 1 ∨ nout > 16 then none
  else do
    let (out, _) ← readOut p
    if out.script.length > 255 ∨ out.script = [] then none else some out.script

/-- The token of an allocation has the script of its outputs. -/
theorem firstOutputScript_buildAllocateOutputs (conf : JdConf) (user : Bytes) :
    firstOutputScript (buildAllocateOutputs conf user) =
      (allocateScript conf user).map PayoutScript.bin := by
  rw [buildAllocateOutputs]
  rcases allocateScript conf user with - | ⟨bin, hpos, hle⟩
  · rfl
  · have hlen : (UInt8.ofNat bin.length).toNat = bin.length := by
      rw [UInt8.toNat_ofNat']
      omega
    have hsmall : UInt8.ofNat bin.length < 0xfd := by
      rw [UInt8.lt_iff_toNat_lt, hlen]
      show bin.length < 253
      omega
    have hcount : sv2ReadCompactSize
        (0x01 :: (List.replicate 8 0 ++ UInt8.ofNat bin.length :: bin)) =
        some (1, List.replicate 8 0 ++ UInt8.ofNat bin.length :: bin) := rfl
    have hvalue : readLe 8 (List.replicate 8 0 ++ UInt8.ofNat bin.length :: bin) =
        some (0, UInt8.ofNat bin.length :: bin) :=
      readLe_eq_some_iff.mpr ⟨List.replicate 8 0, rfl, rfl, rfl⟩
    have hslen : sv2ReadCompactSize (UInt8.ofNat bin.length :: bin) = some (bin.length, bin) := by
      rw [sv2ReadCompactSize, if_pos hsmall, hlen]
    have hout : readOut (List.replicate 8 0 ++ UInt8.ofNat bin.length :: bin) =
        some ({ value := 0, script := bin }, []) := by
      simp only [readOut, hvalue, Option.bind_eq_bind, Option.bind_some, hslen, le_refl, if_true,
        List.take_length, List.drop_length]
      rfl
    have hne : bin ≠ [] := List.ne_nil_of_length_pos hpos
    simp only [firstOutputScript, hcount, hout, Option.bind_eq_bind, Option.bind_some,
      Option.map_some]
    rw [if_neg (by omega), if_neg (by simp only [hne, or_false]; omega)]

/-! ### State -/

/-- `struct sv2_jd_client`. -/
structure JdClient where
  setupOk : Bool
  fullTemplate : Bool
  checkblockOk : Bool
  allocWindowStart : Int
  allocCount : Nat
  declareWindowStart : Int
  declareCount : Nat

/-- A client as `client_get` creates it. -/
def JdClient.new : JdClient where
  setupOk := false
  fullTemplate := false
  checkblockOk := false
  allocWindowStart := 0
  allocCount := 0
  declareWindowStart := 0
  declareCount := 0

/-- `struct sv2_declare_mining_job`. -/
structure DeclareMiningJob where
  requestId : UInt32
  token : Bytes
  version : UInt32
  coinbaseTxPrefix : Bytes
  coinbaseTxSuffix : Bytes
  wtxidList : List Hash256

/-- The frames the job declarator sends. -/
inductive JdReply
  | allocateSuccess (requestId : UInt32) (token outputs : Bytes)
  | declareSuccess (requestId : UInt32) (token : Bytes)
  | declareError (requestId : UInt32) (code : String)
  | provideMissing (requestId : UInt32) (positions : List Nat)

/-- What checkBlock says of a candidate block. -/
inductive CheckVerdict
  | unavailable
  | failed
  | invalid (reason : String)
  | valid

/-- Where a thread is between two critical sections. -/
inductive JdThread
  | idle
  /-- `handle_declare`: the rate limit is passed. -/
  | rated (clientId : Int) (decl : DeclareMiningJob)
  /-- The payout rule is passed. -/
  | funded (pend : JdPending)
  /-- `handle_provide_missing_success`: some transactions are still missing. -/
  | requeue (pend : JdPending)
  /-- `start_declare_validation`. -/
  | validate (pend : JdPending)
  /-- `try_coalesce_declare`: the template is hashed. -/
  | hashed (pend : JdPending) (thash : Hash256)
  /-- The template was found; the tip may have moved. -/
  | found (pend : JdPending) (thash : Hash256)
  /-- The template has been hashed again. -/
  | rehashed (pend : JdPending) (thash : Hash256)
  /-- Not coalesced. -/
  | session (pend : JdPending)
  /-- `session_accept_declare_skip_check`. -/
  | skipping (pend : JdPending)
  /-- The session is not validated yet. -/
  | beginning (pend : JdPending)
  /-- `finalize_declare_check`. -/
  | taken (pend : JdPending)
  /-- The lengths still to try; `assembled` says that the last try made a block. -/
  | trying (pend : JdPending) (thash : Hash256) (start : Int) (tries : List Nat)
      (assembled anyIpc : Bool) (reason : String)
  /-- checkBlock accepted the length `enonceUsed`. -/
  | passed (pend : JdPending) (thash : Hash256) (start : Int) (enonceUsed : Nat)
  /-- The tip was looked at again. -/
  | accepting (pend : JdPending) (thash : Hash256) (start : Int) (enonceUsed : Nat)
      (tipStable : Bool)
  /-- To call `checkblock_end`. -/
  | ending (clientId : Int) (reply : JdReply) (ok : Bool)
  /-- To mark the session as validated. -/
  | marking (clientId : Int) (reply : JdReply)

/-- The declare a thread carries, once its payout was checked. -/
def JdThread.pend? : JdThread → Option JdPending
  | funded pend => some pend
  | requeue pend => some pend
  | validate pend => some pend
  | hashed pend _ => some pend
  | found pend _ => some pend
  | rehashed pend _ => some pend
  | session pend => some pend
  | skipping pend => some pend
  | beginning pend => some pend
  | taken pend => some pend
  | trying pend _ _ _ _ _ _ => some pend
  | passed pend _ _ _ => some pend
  | accepting pend _ _ _ _ => some pend
  | _ => none

/-- The state of the job declarator.  `sent` records the frames that went out. -/
structure JdState where
  table : JdTable
  clients : Int → Option JdClient
  txCache : TxCache
  coalesce : CoalesceCache
  pending : List JdPending
  inflight : Nat
  validateQ : List JdPending
  threads : Nat → JdThread
  tip : Option JdTip
  sent : List (Int × JdReply)

/-- The job declarator when it starts. -/
def JdState.start : JdState where
  table := .empty
  clients := fun _ => none
  txCache := ⟨[], 0, 0⟩
  coalesce := .empty
  pending := []
  inflight := 0
  validateQ := []
  threads := fun _ => .idle
  tip := none
  sent := []

namespace JdState

/-- `stratifier_sv2_tip_height`. -/
def tipHeight (s : JdState) : Int := (s.tip.map JdTip.height).getD 0

/-- A thread moves on. -/
def setThread (s : JdState) (i : Nat) (t : JdThread) : JdState :=
  { s with threads := Function.update s.threads i t }

/-- A frame goes out. -/
def send (s : JdState) (clientId : Int) (reply : JdReply) : JdState :=
  { s with sent := s.sent ++ [(clientId, reply)] }

/-- A thread answers and is done. -/
def answer (s : JdState) (i : Nat) (clientId : Int) (reply : JdReply) : JdState :=
  (s.send clientId reply).setThread i .idle

/-- `client_get`, with the client created if it is new. -/
def client (s : JdState) (clientId : Int) : JdClient := (s.clients clientId).getD .new

/-- Change a client. -/
def setClient (s : JdState) (clientId : Int) (c : JdClient) : JdState :=
  { s with clients := Function.update s.clients clientId (some c) }

/-- `SV2_JD_PENDING_TTL_SECS`. -/
def pendingTtlSecs : Int := 300

/-- `expire_old_tokens_locked`, of the pending declares. -/
def expirePending (s : JdState) (now : Int) : JdState :=
  { s with pending := s.pending.filter fun p => decide (now - p.created ≤ pendingTtlSecs) }

/-! ### Errors -/

/-- Tip-race rejects from checkBlock (`reason_is_stale_tip`). -/
def reasonIsStaleTip (reason : String) : Bool :=
  reason ∈ ["stale-chain-tip", "bad-cb-height", "bad-txns-nonfinal", "inconclusive-not-best-prevblk",
    "prev-blk-not-found", "time-too-old", "time-too-new"] ||
  decide ("not-best-prev".toList <:+: reason.toList) ||
  decide ("bad-cb-height".toList <:+: reason.toList)

/-- `error_declare`: the code on the wire. -/
def errorDeclare (requestId : UInt32) (code : String) : JdReply :=
  .declareError requestId (if reasonIsStaleTip code then "stale-chain-tip" else code)

/-- `token_accept_error`. -/
def tokenAcceptError (rc : Nat) : String :=
  if rc = 2 then "busy" else if rc = 3 then "invalid-template" else "invalid-mining-job-token"

/-! ### AllocateMiningJobToken -/

/-- A new token, for the payout script of its outputs. -/
def newToken (token : Bytes) (clientId : Int) (user outputs : Bytes) (now : Int) : JdToken where
  token := token
  clientId := clientId
  userIdentifier := user
  created := now
  payoutScript := firstOutputScript outputs
  material := none
  snapshotBytes := 0

/-- The window of `handle_allocate`: a minute. -/
def allocWindow (c : JdClient) (now : Int) : JdClient :=
  if c.allocWindowStart = 0 ∨ now ≥ c.allocWindowStart + 60 then
    { c with allocWindowStart := now, allocCount := 0 }
  else c

/-- `handle_allocate`: mint a token, unless a limit forbids it. -/
def mintToken (conf : JdConf) (s : JdState) (c : JdClient) (clientId : Int) (user : Bytes)
    (requestId : UInt32) (draw : Bytes) (now : Int) : JdState :=
  if c.allocCount ≥ maxTokensPerMin then s
  else if s.table.makeRoom.tokenCount ≥ maxTokensGlobal then { s with table := s.table.makeRoom }
  else
    let outputs := buildAllocateOutputs conf user
    { s with table := s.table.makeRoom.addToken (newToken draw clientId user outputs now) }
      |>.setClient clientId { c with allocCount := c.allocCount + 1 }
      |>.send clientId (.allocateSuccess requestId draw outputs)

/-- `handle_allocate`. -/
def handleAllocate (conf : JdConf) (s : JdState) (clientId : Int) (user : Bytes)
    (requestId : UInt32) (draw : Bytes) (now : Int) : JdState :=
  let c := s.client clientId
  if c.setupOk && c.fullTemplate then
    let c := allocWindow c now
    let s := { s.expirePending now with table := s.table.expire now }.setClient clientId c
    if c.allocCount ≥ maxTokensPerMin ∨ s.table.tokenCount ≥ maxTokensGlobal then
      match s.table.findReissue clientId user with
      | some tok =>
        { s with table := s.table.refresh tok now }.send clientId
          (.allocateSuccess requestId tok.token (buildAllocateOutputs conf tok.userIdentifier))
      | none => mintToken conf s c clientId user requestId draw now
    else mintToken conf s c clientId user requestId draw now
  else s

/-! ### DeclareMiningJob -/

/-- `SV2_JD_MAX_DECLARES_PER_MIN`. -/
def maxDeclaresPerMin : Nat := 30

/-- The window of the rate limit of `handle_declare`: a minute. -/
def declareWindow (c : JdClient) (now : Int) : JdClient :=
  if c.declareWindowStart = 0 ∨ now ≥ c.declareWindowStart + 60 then
    { c with declareWindowStart := now, declareCount := 0 }
  else c

/-- `handle_declare`, up to the rate limit. -/
def handleDeclare (s : JdState) (i : Nat) (clientId : Int) (decl : DeclareMiningJob) (now : Int) :
    JdState :=
  let c := s.client clientId
  let reject := fun s : JdState => fun code => s.send clientId (errorDeclare decl.requestId code)
  if !(c.setupOk && c.fullTemplate) then s
  else if decl.token = [] then reject s "invalid-mining-job-token"
  else if decl.coinbaseTxPrefix = [] ∨ decl.coinbaseTxSuffix = [] then reject s "invalid-coinbase"
  else if decl.wtxidList.length > maxJdTxns then reject s "too-many-transactions"
  else
    let c := declareWindow c now
    if c.declareCount ≥ maxDeclaresPerMin then reject (s.setClient clientId c) "rate-limited"
    else
      (s.setClient clientId { c with declareCount := c.declareCount + 1 }).setThread i
        (.rated clientId decl)

/-- The payout check of `handle_declare`, of a coinbase with zeros in its hole. -/
def declareFunds (ck : Ckpool) (tipHeight : Int) (script pre suf : Bytes) : Bool :=
  match deriveCoinbaseEnonceLen pre with
  | none => false
  | some enLen => coinbaseTxFundsPayout ck tipHeight (zeroFilled pre enLen suf) script

/-- The pending declare of a DeclareMiningJob, with empty slots. -/
def pendingOf (clientId : Int) (decl : DeclareMiningJob) (now : Int) : JdPending where
  requestId := decl.requestId
  clientId := clientId
  created := now
  token := decl.token
  version := decl.version
  coinbaseTxPrefix := decl.coinbaseTxPrefix
  coinbaseTxSuffix := decl.coinbaseTxSuffix
  wtxidList := decl.wtxidList
  txRaws := List.replicate decl.wtxidList.length none
  txBytes := 0

/-- `handle_declare`: what is wrong with the token or the payout. -/
def declareTokenError (conf : JdConf) (s : JdState) (clientId : Int) (decl : DeclareMiningJob) :
    Option String :=
  match s.table.findToken decl.token with
  | none => some "invalid-mining-job-token"
  | some tok =>
    if tok.clientId ≠ clientId then some "invalid-mining-job-token"
    else
      match tok.payoutScript with
      | some script =>
        if declareFunds conf.ck s.tipHeight script decl.coinbaseTxPrefix
            decl.coinbaseTxSuffix then none
        else some "invalid-coinbase-tx"
      | none => if conf.ck.btcsolo then none else some "invalid-coinbase-tx"

/-- `handle_declare`: the token and the payout rule. -/
def declareToken (conf : JdConf) (s : JdState) (i : Nat) (clientId : Int) (decl : DeclareMiningJob)
    (now : Int) : JdState :=
  match declareTokenError conf s clientId decl with
  | some code => s.answer i clientId (errorDeclare decl.requestId code)
  | none => s.setThread i (.funded (pendingOf clientId decl now))

/-- `SV2_JD_MAX_PENDING_GLOBAL`. -/
def maxPendingGlobal : Nat := 128

/-- `SV2_JD_MAX_PENDING_PER_CLIENT`. -/
def maxPendingPerClient : Nat := 8

/-- `pending_may_add_locked`. -/
def pendingMayAdd (s : JdState) (clientId : Int) : Bool :=
  decide (s.pending.length < maxPendingGlobal) &&
    decide ((s.pending.filter fun p => decide (p.clientId = clientId)).length < maxPendingPerClient)

/-- `handle_declare`: the transactions, from the cache or from the client. -/
def declareTxs (s : JdState) (i : Nat) (pend : JdPending) : JdState :=
  match pend.fillFromCache s.txCache with
  | none => s.answer i pend.clientId (errorDeclare pend.requestId "invalid-template")
  | some pend =>
    if pend.collectMissing = [] then s.setThread i (.validate pend)
    else if s.pendingMayAdd pend.clientId then
      { s with pending := s.pending ++ [pend] }.answer i pend.clientId
        (.provideMissing pend.requestId pend.collectMissing)
    else s.answer i pend.clientId (errorDeclare pend.requestId "busy")

/-- `handle_provide_missing_success`, up to the point at which the transactions are
stored. -/
def handleProvideMissing (s : JdState) (i : Nat) (clientId : Int) (requestId : UInt32)
    (txs : List Bytes) : JdState :=
  if !(s.client clientId).setupOk then s
  else
    match s.pending.findIdx? fun p =>
        decide (p.clientId = clientId) && decide (p.requestId = requestId) with
    | none => s
    | some n =>
      match s.pending[n]? with
      | none => s
      | some pend =>
        let (txCache, stored) := pend.storeMatchingTxs s.txCache txs
        let s := { s with pending := s.pending.eraseIdx n, txCache := txCache }
        match stored with
        | none => s.send clientId (errorDeclare requestId "invalid-template")
        | some pend =>
          s.setThread i
            (if pend.collectMissing = [] then .validate pend else .requeue pend)

/-! ### The acceptance of a declare -/

/-- `token_accept_declare_locked`. -/
def tokenAcceptDeclare (s : JdState) (pend : JdPending) (enonceUsed : Nat) (draws : List Bytes)
    (now : Int) : AcceptResult :=
  s.table.acceptDeclare pend (pend.fillFromCache s.txCache) enonceUsed draws now

/-- The answer to a declare. -/
def acceptReply (pend : JdPending) : AcceptResult → JdReply
  | .refused rc _ => errorDeclare pend.requestId (tokenAcceptError rc)
  | .reused _ => .declareSuccess pend.requestId pend.token
  | .installed _ token => .declareSuccess pend.requestId token

/-- The state after an acceptance. -/
def accepted (s : JdState) (r : AcceptResult) (now : Int) : JdState :=
  { s.expirePending now with table := r.table }

/-- `SV2_JD_DEFAULT_ENONCE_LEN`. -/
def defaultEnonceLen : Nat := 8

/-- The length a session that skips checkBlock records. -/
def skipEnonceLen (pend : JdPending) : Nat :=
  (deriveCoinbaseEnonceLen pend.coinbaseTxPrefix).getD defaultEnonceLen

/-- The lengths `finalize_declare_check` tries: the derived one, then the configured
one if it is another. -/
def enonceTries (ck : Ckpool) (pend : JdPending) : List Nat :=
  let derived := (deriveCoinbaseEnonceLen pend.coinbaseTxPrefix).toList
  let confSum := ck.nonce1length + ck.nonce2length
  if confSum ∈ derived then derived else derived ++ [confSum]

/-- The error of a declare that no try validated. -/
def checkError (assembled anyIpc : Bool) (reason : String) : String :=
  if !assembled then "block-assemble-failed"
  else if !anyIpc then "validation-unavailable"
  else if reason ≠ "" then reason
  else "invalid-template"

/-- What comes of outside to a thread that goes on: the clock, random tokens, and the
verdict of checkBlock. -/
structure JdInput where
  now : Int
  draws : List Bytes
  verdict : CheckVerdict

/-- One try of `finalize_declare_check`. -/
def tryLength (s : JdState) (i : Nat) (pend : JdPending) (thash : Hash256) (start : Int)
    (tries : List Nat) (assembled anyIpc : Bool) (reason : String) (verdict : CheckVerdict) :
    JdState :=
  let stop := fun assembled anyIpc reason => s.setThread i (.ending pend.clientId
    (errorDeclare pend.requestId (checkError assembled anyIpc reason)) false)
  match tries with
  | [] => stop assembled anyIpc reason
  | enonceLen :: tries =>
    match assembleCandidateBlock s.tip pend enonceLen with
    | none => s.setThread i (.trying pend thash start tries false anyIpc reason)
    | some _ =>
      match verdict with
      | .valid => s.setThread i (.passed pend thash start enonceLen)
      | .invalid reason =>
        if reasonIsStaleTip reason then stop true true reason
        else s.setThread i (.trying pend thash start tries true true reason)
      | .failed => s.setThread i (.trying pend thash start tries true anyIpc reason)
      | .unavailable => stop true anyIpc reason

/-- `SV2_JD_CHECKBLOCK_MAX_INFLIGHT`. -/
def checkblockMaxInflight : Nat := 4

/-- A thread goes on to its next critical section. -/
def threadStep (conf : JdConf) (s : JdState) (i : Nat) (inp : JdInput) : JdState :=
  match s.threads i with
  | .idle => s
  | .rated clientId decl => declareToken conf s i clientId decl inp.now
  | .funded pend => s.declareTxs i pend
  | .requeue pend =>
    { s with pending := s.pending ++ [pend] }.answer i pend.clientId
      (.provideMissing pend.requestId pend.collectMissing)
  | .validate pend => s.setThread i (.hashed pend (templateHash s.tip pend))
  | .hashed pend thash =>
    match s.coalesce.lookup thash inp.now with
    | none => s.setThread i (.session pend)
    | some _ => s.setThread i (.found pend thash)
  | .found pend thash =>
    if templateHash s.tip pend = thash then s.setThread i (.rehashed pend thash)
    else s.setThread i (.session pend)
  | .rehashed pend thash =>
    match s.coalesce.lookup thash inp.now with
    | none => s.setThread i (.session pend)
    | some enonceUsed =>
      let r := s.tokenAcceptDeclare pend enonceUsed inp.draws inp.now
      (s.accepted r inp.now).answer i pend.clientId (acceptReply pend r)
  | .session pend =>
    if (s.clients pend.clientId).any JdClient.checkblockOk then s.setThread i (.skipping pend)
    else s.setThread i (.beginning pend)
  | .skipping pend =>
    let r := s.tokenAcceptDeclare pend (skipEnonceLen pend) inp.draws inp.now
    (s.accepted r inp.now).answer i pend.clientId (acceptReply pend r)
  | .beginning pend =>
    if s.inflight < checkblockMaxInflight then
      { s with inflight := s.inflight + 1, validateQ := s.validateQ ++ [pend] }.setThread i .idle
    else s.answer i pend.clientId (errorDeclare pend.requestId "busy")
  | .taken pend =>
    s.setThread i (.trying pend (templateHash s.tip pend) inp.now (enonceTries conf.ck pend)
      false false "")
  | .trying pend thash start tries assembled anyIpc reason =>
    s.tryLength i pend thash start tries assembled anyIpc reason inp.verdict
  | .passed pend thash start enonceUsed =>
    s.setThread i (.accepting pend thash start enonceUsed
      (decide (templateHash s.tip pend = thash)))
  | .accepting pend thash start enonceUsed tipStable =>
    match s.tokenAcceptDeclare pend enonceUsed inp.draws inp.now with
    | .refused rc tb =>
      (s.accepted (.refused rc tb) inp.now).setThread i
        (.ending pend.clientId (acceptReply pend (.refused rc tb)) false)
    | r =>
      let coalesce :=
        if tipStable then s.coalesce.note thash enonceUsed start else s.coalesce
      { s.accepted r inp.now with coalesce := coalesce }.setThread i
        (.ending pend.clientId (acceptReply pend r) true)
  | .ending clientId reply ok =>
    let s := { s with inflight := s.inflight - 1 }
    if ok then s.setThread i (.marking clientId reply) else s.answer i clientId reply
  | .marking clientId reply =>
    let marked := (s.clients clientId).map fun c : JdClient => { c with checkblockOk := true }
    { s with clients := Function.update s.clients clientId marked }.answer i clientId reply

end JdState

open JdState

/-! ### Runs -/

/-- What can happen next in the job declarator. -/
inductive JdEvent
  /-- `sv2_jd_note_client`. -/
  | noteClient (clientId : Int)
  /-- A SetupConnection that is accepted. -/
  | setup (clientId : Int)
  /-- An AllocateMiningJobToken. -/
  | allocate (clientId : Int) (user : Bytes) (requestId : UInt32) (draw : Bytes) (now : Int)
  /-- A thread takes a DeclareMiningJob. -/
  | declare (thread : Nat) (clientId : Int) (decl : DeclareMiningJob) (now : Int)
  /-- A thread takes a ProvideMissingTransactions.Success. -/
  | provideMissing (thread : Nat) (clientId : Int) (requestId : UInt32) (txs : List Bytes)
  /-- A worker takes a declare off the queue of checkBlock. -/
  | work (thread : Nat)
  /-- A thread goes on. -/
  | go (thread : Nat) (inp : JdInput)
  /-- `sv2_jd_drop_client`. -/
  | dropClient (clientId : Int)
  /-- `sv2_jd_drop_all`. -/
  | dropAll
  /-- The stratifier has a new workbase. -/
  | newTip (tip : JdTip)
  /-- `sv2_jd_on_tip_change`. -/
  | onTipChange

/-- The transactions that an event brings. -/
def JdEvent.transactions : JdEvent → List Bytes
  | .provideMissing _ _ _ txs => txs
  | _ => []

/-- Whether a thread is free. -/
def JdState.isIdle (s : JdState) (i : Nat) : Bool :=
  match s.threads i with
  | .idle => true
  | _ => false

/-- One step of the job declarator. -/
def jdStep (conf : JdConf) (s : JdState) : JdEvent → JdState
  | .noteClient clientId => s.setClient clientId (s.client clientId)
  | .setup clientId =>
    s.setClient clientId { s.client clientId with setupOk := true, fullTemplate := true }
  | .allocate clientId user requestId draw now =>
    handleAllocate conf s clientId user requestId draw now
  | .declare i clientId decl now =>
    if s.isIdle i then s.handleDeclare i clientId decl now else s
  | .provideMissing i clientId requestId txs =>
    if s.isIdle i then s.handleProvideMissing i clientId requestId txs else s
  | .work i =>
    match s.validateQ with
    | [] => s
    | pend :: validateQ =>
      if s.isIdle i then { s with validateQ := validateQ }.setThread i (.taken pend) else s
  | .go i inp => threadStep conf s i inp
  | .dropClient clientId =>
    { s with
      table := s.table.dropClient clientId
      clients := Function.update s.clients clientId none
      pending := s.pending.filter fun p => decide (p.clientId ≠ clientId) }
  | .dropAll => { s with table := s.table.dropAll, clients := fun _ => none, pending := [] }
  | .newTip tip => { s with tip := some tip }
  | .onTipChange => { s with coalesce := .empty }

/-! ### What a step does to the tokens -/

/-- The declare that a step hands to `token_accept_declare_locked`, the length it
records, and what comes of it. -/
def accepting (s : JdState) : JdEvent → Option (JdPending × Nat × AcceptResult)
  | .go i inp =>
    match s.threads i with
    | .rehashed pend thash =>
      (s.coalesce.lookup thash inp.now).map fun enonceUsed =>
        (pend, enonceUsed, s.tokenAcceptDeclare pend enonceUsed inp.draws inp.now)
    | .skipping pend =>
      some (pend, skipEnonceLen pend,
        s.tokenAcceptDeclare pend (skipEnonceLen pend) inp.draws inp.now)
    | .accepting pend _ _ enonceUsed _ =>
      some (pend, enonceUsed, s.tokenAcceptDeclare pend enonceUsed inp.draws inp.now)
    | _ => none
  | _ => none

/-- A property of tables that every operation but the acceptance of a declare keeps. -/
structure TableClosed (conf : JdConf) (R : JdTable → Prop) : Prop where
  expire : ∀ tb now, R tb → R (tb.expire now)
  refresh : ∀ tb t now, t ∈ tb.tokens → R tb → R (tb.refresh t now)
  makeRoom : ∀ tb, R tb → R tb.makeRoom
  mint : ∀ tb token clientId user now, tb.tokenCount < maxTokensGlobal → R tb →
    R (tb.addToken (newToken token clientId user (buildAllocateOutputs conf user) now))
  dropClient : ∀ tb clientId, R tb → R (tb.dropClient clientId)
  dropAll : ∀ tb, R tb → R tb.dropAll

theorem findReissue_mem {tb : JdTable} {clientId : Int} {user : Bytes} {t : JdToken}
    (h : tb.findReissue clientId user = some t) : t ∈ tb.tokens := by
  rcases Option.or_eq_some_iff.mp h with h | ⟨-, h⟩
  · exact List.mem_of_mem_filter (JdTable.mem_of_bestToken h)
  · rcases Option.or_eq_some_iff.mp h with h | ⟨-, h⟩
    · exact List.mem_of_mem_filter (JdTable.mem_of_bestToken h)
    · exact List.mem_of_mem_filter (JdTable.mem_of_bestToken h)

/-- A thread leaves the cache alone, and the tokens if it does not accept a declare. -/
theorem threadStep_frame (conf : JdConf) (s : JdState) (i : Nat) (inp : JdInput) :
    (threadStep conf s i inp).txCache = s.txCache ∧
      (accepting s (.go i inp) = none → (threadStep conf s i inp).table = s.table) := by
  cases hthread : s.threads i with
  | idle => simp [threadStep, hthread]
  | requeue pend | validate pend | taken pend | passed pend thash start enonceUsed
  | marking clientId reply =>
    simp only [threadStep, hthread]
    exact ⟨rfl, fun _ => rfl⟩
  | rated clientId decl =>
    simp only [threadStep, hthread, declareToken]
    split <;> exact ⟨rfl, fun _ => rfl⟩
  | funded pend =>
    simp only [threadStep, hthread, declareTxs]
    split
    · exact ⟨rfl, fun _ => rfl⟩
    · split_ifs <;> exact ⟨rfl, fun _ => rfl⟩
  | hashed pend thash =>
    simp only [threadStep, hthread]
    split <;> exact ⟨rfl, fun _ => rfl⟩
  | found pend thash | session pend | beginning pend | ending clientId reply ok =>
    simp only [threadStep, hthread]
    split_ifs <;> exact ⟨rfl, fun _ => rfl⟩
  | rehashed pend thash =>
    simp only [threadStep, accepting, hthread, Option.map_eq_none_iff]
    split
    · exact ⟨rfl, fun _ => rfl⟩
    · next hlookup => exact ⟨rfl, fun hnone => by rw [hlookup] at hnone; cases hnone⟩
  | skipping pend =>
    simp only [threadStep, accepting, hthread]
    exact ⟨rfl, nofun⟩
  | trying pend thash start tries assembled anyIpc reason =>
    simp only [threadStep, hthread, tryLength]
    split
    · exact ⟨rfl, fun _ => rfl⟩
    · split
      · exact ⟨rfl, fun _ => rfl⟩
      · split
        · exact ⟨rfl, fun _ => rfl⟩
        · split_ifs <;> exact ⟨rfl, fun _ => rfl⟩
        · exact ⟨rfl, fun _ => rfl⟩
        · exact ⟨rfl, fun _ => rfl⟩
  | accepting pend thash start enonceUsed tipStable =>
    simp only [threadStep, accepting, hthread]
    split <;> exact ⟨rfl, nofun⟩

/-- A thread that accepts a declare leaves the tokens of the acceptance. -/
theorem threadStep_table_accepting (conf : JdConf) {s : JdState} {i : Nat} {inp : JdInput}
    {pend : JdPending} {enonceUsed : Nat} {r : AcceptResult}
    (h : accepting s (.go i inp) = some (pend, enonceUsed, r)) :
    (threadStep conf s i inp).table = r.table := by
  cases hthread : s.threads i with
  | rehashed pend' thash =>
    simp only [accepting, hthread, Option.map_eq_some_iff] at h
    obtain ⟨enonceUsed', hlookup, h⟩ := h
    simp only [threadStep, hthread, hlookup, ← (Prod.mk.inj (Prod.mk.inj h).2).2]
    rfl
  | skipping pend' =>
    simp only [accepting, hthread, Option.some.injEq] at h
    simp only [threadStep, hthread, ← (Prod.mk.inj (Prod.mk.inj h).2).2]
    rfl
  | accepting pend' thash start enonceUsed' tipStable =>
    simp only [accepting, hthread, Option.some.injEq] at h
    simp only [threadStep, hthread, ← (Prod.mk.inj (Prod.mk.inj h).2).2]
    split
    · next heq =>
        rw [heq]
        rfl
    · rfl
  | _ => simp only [accepting, hthread, reduceCtorEq] at h

section TableRule

variable {conf : JdConf} {R : JdTable → Prop} (hR : TableClosed conf R)

include hR

theorem mintToken_table {s : JdState} (c : JdClient) (clientId : Int) (user : Bytes)
    (requestId : UInt32) (draw : Bytes) (now : Int) (h : R s.table) :
    R (mintToken conf s c clientId user requestId draw now).table := by
  rw [mintToken]
  split_ifs with hlimit hfull
  · exact h
  · exact hR.makeRoom _ h
  · exact hR.mint _ draw clientId user now (Nat.not_le.mp hfull) (hR.makeRoom _ h)

theorem handleAllocate_table {s : JdState} (clientId : Int) (user : Bytes) (requestId : UInt32)
    (draw : Bytes) (now : Int) (h : R s.table) :
    R (handleAllocate conf s clientId user requestId draw now).table := by
  have hexpire := hR.expire _ now h
  rw [handleAllocate]
  split
  · dsimp only
    split
    · split
      · next tok htok => exact hR.refresh _ tok now (findReissue_mem htok) hexpire
      · exact mintToken_table hR _ clientId user requestId draw now hexpire
    · exact mintToken_table hR _ clientId user requestId draw now hexpire
  · exact h

/-- **The table rule.**  A property that the operations on the table keep is kept by every
step, if what comes of an accepted declare has it. -/
theorem jdStep_table {s : JdState} (e : JdEvent)
    (haccept : ∀ pend enonceUsed r, accepting s e = some (pend, enonceUsed, r) → R r.table)
    (h : R s.table) : R (jdStep conf s e).table := by
  cases e with
  | noteClient clientId => exact h
  | setup clientId => exact h
  | allocate clientId user requestId draw now =>
    exact handleAllocate_table hR clientId user requestId draw now h
  | declare i clientId decl now =>
    show R (ite _ _ _ : JdState).table
    split_ifs
    · simp only [handleDeclare]
      split_ifs <;> exact h
    · exact h
  | provideMissing i clientId requestId txs =>
    show R (ite _ _ _ : JdState).table
    split_ifs
    · rw [handleProvideMissing]
      split_ifs
      · exact h
      · split
        · exact h
        · split
          · exact h
          · dsimp only
            split <;> exact h
    · exact h
  | work i =>
    rw [jdStep]
    split
    · exact h
    · split_ifs <;> exact h
  | dropClient clientId => exact hR.dropClient _ clientId h
  | dropAll => exact hR.dropAll _ h
  | newTip tip => exact h
  | onTipChange => exact h
  | go i inp =>
    show R (threadStep conf s i inp).table
    rcases haccepting : accepting s (.go i inp) with - | ⟨pend, enonceUsed, r⟩
    · rw [(threadStep_frame conf s i inp).2 haccepting]
      exact h
    · rw [threadStep_table_accepting conf haccepting]
      exact haccept pend enonceUsed r haccepting

end TableRule

/-! ### What a step does to the declares on their way -/

/-- Every declare on its way satisfies `Q`. -/
structure JdState.Carried (Q : JdPending → Prop) (s : JdState) : Prop where
  pending : ∀ p ∈ s.pending, Q p
  validateQ : ∀ p ∈ s.validateQ, Q p
  threads : ∀ i p, (s.threads i).pend? = some p → Q p

/-- A property of declares that collecting their transactions keeps, and that a declare
has once its payout is checked. -/
structure CarryClosed (conf : JdConf) (Q : JdPending → Prop) (s : JdState) : Prop where
  fill : ∀ p p', Q p → p.fillFromCache s.txCache = some p' → Q p'
  store : ∀ p p' cache txs, Q p → p.storeMatchingTxs s.txCache txs = (cache, some p') → Q p'
  new : ∀ clientId decl now, declareTokenError conf s clientId decl = none →
    Q (pendingOf clientId decl now)

/-- The same, with the transactions that an event brings. -/
structure CarryStep (conf : JdConf) (Q : JdPending → Prop) (s : JdState) (e : JdEvent) : Prop where
  fill : ∀ p p', Q p → p.fillFromCache s.txCache = some p' → Q p'
  store : ∀ p p' cache, Q p → p.storeMatchingTxs s.txCache e.transactions = (cache, some p') → Q p'
  new : ∀ clientId decl now, declareTokenError conf s clientId decl = none →
    Q (pendingOf clientId decl now)

theorem CarryClosed.step {conf : JdConf} {Q : JdPending → Prop} {s : JdState}
    (h : CarryClosed conf Q s) (e : JdEvent) : CarryStep conf Q s e :=
  ⟨h.fill, fun p p' cache => h.store p p' cache e.transactions, h.new⟩

section CarryRule

variable {Q : JdPending → Prop} {s : JdState}

theorem JdState.Carried.setThread (h : s.Carried Q) (i : Nat) {t : JdThread}
    (ht : ∀ p, t.pend? = some p → Q p) : (s.setThread i t).Carried Q := by
  refine ⟨h.pending, h.validateQ, fun j p hp => ?_⟩
  by_cases hj : j = i
  · subst hj
    exact ht p (by simpa [JdState.setThread] using hp)
  · refine h.threads j p ?_
    simpa [JdState.setThread, Function.update_of_ne hj] using hp

/-- A thread that has no declare any more. -/
theorem JdState.Carried.done (h : s.Carried Q) (i : Nat) {t : JdThread} (ht : t.pend? = none) :
    (s.setThread i t).Carried Q :=
  h.setThread i fun p hp => by
    rw [ht] at hp
    cases hp

theorem JdState.Carried.answer (h : s.Carried Q) (i : Nat) (clientId : Int) (reply : JdReply) :
    (s.answer i clientId reply).Carried Q := by
  have hsent : (s.send clientId reply).Carried Q := ⟨h.pending, h.validateQ, h.threads⟩
  exact hsent.done i rfl

/-- A declare joins those that wait for transactions. -/
theorem JdState.Carried.park (h : s.Carried Q) {pend : JdPending} (hpend : Q pend) :
    { s with pending := s.pending ++ [pend] }.Carried Q := by
  refine ⟨fun p hp => ?_, h.validateQ, h.threads⟩
  rcases List.mem_append.mp hp with hp | hp
  · exact h.pending p hp
  · rw [List.mem_singleton.mp hp]
    exact hpend

/-- A thread that keeps its declare. -/
theorem JdState.Carried.keep (h : s.Carried Q) {i : Nat} {pend : JdPending}
    (hpend : (s.threads i).pend? = some pend) {t : JdThread} (ht : t.pend? = some pend) :
    (s.setThread i t).Carried Q :=
  h.setThread i fun p hp => by
    rw [ht, Option.some.injEq] at hp
    rw [← hp]
    exact h.threads i pend hpend

/-- An acceptance takes declares away only. -/
theorem JdState.Carried.accepted (h : s.Carried Q) (r : AcceptResult) (now : Int) :
    (s.accepted r now).Carried Q :=
  ⟨fun p hp => h.pending p (List.mem_of_mem_filter hp), h.validateQ, h.threads⟩

variable {conf : JdConf} {e : JdEvent} (hQ : CarryStep conf Q s e)

include hQ

theorem threadStep_carried (h : s.Carried Q) (i : Nat) (inp : JdInput) :
    (threadStep conf s i inp).Carried Q := by
  have hself := h.threads i
  cases hthread : s.threads i with
  | idle =>
    simp only [threadStep, hthread]
    exact h
  | rated clientId decl =>
    -- the token and the payout are checked: a new declare, or an answer
    simp only [threadStep, hthread, declareToken]
    split
    · exact h.answer i clientId _
    · next hok =>
        refine h.setThread i fun p hp => ?_
        rw [← Option.some.inj hp]
        exact hQ.new clientId decl inp.now hok
  | funded pend =>
    have hpend : Q pend := hself pend (by rw [hthread]; rfl)
    -- its transactions are collected; it goes on, or waits for those that are missing
    simp only [threadStep, hthread, declareTxs]
    split
    · exact h.answer i _ _
    · next filled hfill =>
        have hfilled : Q filled := hQ.fill pend filled hpend hfill
        split_ifs
        · refine h.setThread i fun p hp => ?_
          rw [← Option.some.inj hp]
          exact hfilled
        · exact (h.park hfilled).answer i _ _
        · exact h.answer i _ _
  | requeue pend =>
    have hpend : Q pend := hself pend (by rw [hthread]; rfl)
    simp only [threadStep, hthread]
    exact (h.park hpend).answer i _ _
  | validate pend =>
    -- the thread keeps the declare, unless the same template is found to have passed
    simp only [threadStep, hthread]
    exact h.keep (by rw [hthread]; rfl) rfl
  | hashed pend thash =>
    simp only [threadStep, hthread]
    split <;> exact h.keep (by rw [hthread]; rfl) rfl
  | found pend thash | session pend =>
    simp only [threadStep, hthread]
    split_ifs <;> exact h.keep (by rw [hthread]; rfl) rfl
  | rehashed pend thash =>
    simp only [threadStep, hthread]
    split
    · exact h.keep (by rw [hthread]; rfl) rfl
    · exact (h.accepted _ inp.now).answer i _ _
  | skipping pend =>
    simp only [threadStep, hthread]
    exact (h.accepted _ inp.now).answer i _ _
  | beginning pend =>
    have hpend : Q pend := hself pend (by rw [hthread]; rfl)
    simp only [threadStep, hthread]
    split_ifs
    · -- it is left to the thread that validates
      have hqueued : { s with
          inflight := s.inflight + 1
          validateQ := s.validateQ ++ [pend] }.Carried Q := by
        refine ⟨h.pending, fun p hp => ?_, h.threads⟩
        rcases List.mem_append.mp hp with hp | hp
        · exact h.validateQ p hp
        · rw [List.mem_singleton.mp hp]
          exact hpend
      exact hqueued.done i rfl
    · exact h.answer i _ _
  | taken pend | passed pend thash start enonceUsed =>
    simp only [threadStep, hthread]
    exact h.keep (by rw [hthread]; rfl) rfl
  | trying pend thash start tries assembled anyIpc reason =>
    -- an attempt ends with the declare given up, or goes on with it
    have hkeep : ∀ t : JdThread, t.pend? = some pend → (s.setThread i t).Carried Q :=
      fun t ht => h.keep (by rw [hthread]; rfl) ht
    have hend : ∀ t : JdThread, t.pend? = none → (s.setThread i t).Carried Q :=
      fun t ht => h.done i ht
    simp only [threadStep, hthread, tryLength]
    split
    · exact hend _ rfl
    · split
      · exact hkeep _ rfl
      · split
        · exact hkeep _ rfl
        · split_ifs
          · exact hend _ rfl
          · exact hkeep _ rfl
        · exact hkeep _ rfl
        · exact hend _ rfl
  | accepting pend thash start enonceUsed tipStable =>
    simp only [threadStep, hthread]
    split
    · exact (h.accepted _ inp.now).done i rfl
    · -- the outcome is noted for those that declare the same template
      have hacc := h.accepted (s.tokenAcceptDeclare pend enonceUsed inp.draws inp.now) inp.now
      have hnoted : { s.accepted (s.tokenAcceptDeclare pend enonceUsed inp.draws inp.now)
          inp.now with
            coalesce := if tipStable then s.coalesce.note thash enonceUsed start
              else s.coalesce }.Carried Q := ⟨hacc.pending, hacc.validateQ, hacc.threads⟩
      exact hnoted.done i rfl
  | ending clientId reply ok =>
    have hended : { s with inflight := s.inflight - 1 }.Carried Q :=
      ⟨h.pending, h.validateQ, h.threads⟩
    simp only [threadStep, hthread]
    split_ifs
    · exact hended.done i rfl
    · exact hended.answer i _ _
  | marking clientId reply =>
    have hmarked : ∀ clients, { s with clients := clients }.Carried Q :=
      fun _ => ⟨h.pending, h.validateQ, h.threads⟩
    simp only [threadStep, hthread]
    exact (hmarked _).answer i _ _

/-- **The carry rule.**  A property that a declare has after the payout check, and that
collecting its transactions keeps, holds of every declare on its way. -/
theorem jdStep_carried_of (h : s.Carried Q) : (jdStep conf s e).Carried Q := by
  have hsame : ∀ s' : JdState, s'.pending = s.pending → s'.validateQ = s.validateQ →
      s'.threads = s.threads → s'.Carried Q := by
    intro s' hpending hqueue hthreads
    exact ⟨hpending ▸ h.pending, hqueue ▸ h.validateQ, hthreads ▸ h.threads⟩
  cases e with
  | noteClient clientId => exact hsame _ rfl rfl rfl
  | setup clientId => exact hsame _ rfl rfl rfl
  | allocate clientId user requestId draw now =>
    show (handleAllocate conf s clientId user requestId draw now).Carried Q
    have hexp : ((s.expirePending now)).Carried Q :=
      ⟨fun p hp => h.pending p (List.mem_of_mem_filter hp), h.validateQ, h.threads⟩
    have hmint : ∀ (s' : JdState) (c : JdClient), s'.Carried Q →
        (mintToken conf s' c clientId user requestId draw now).Carried Q := by
      intro s' c hs'
      rw [mintToken]
      split_ifs <;> exact ⟨hs'.pending, hs'.validateQ, hs'.threads⟩
    rw [handleAllocate]
    split
    · dsimp only
      split
      · split
        · exact ⟨hexp.pending, hexp.validateQ, hexp.threads⟩
        · exact hmint _ _ ⟨hexp.pending, hexp.validateQ, hexp.threads⟩
      · exact hmint _ _ ⟨hexp.pending, hexp.validateQ, hexp.threads⟩
    · exact h
  | declare i clientId decl now =>
    show (ite _ _ _ : JdState).Carried Q
    split_ifs
    · simp only [handleDeclare]
      split_ifs
      · exact h
      · exact hsame _ rfl rfl rfl
      · exact hsame _ rfl rfl rfl
      · exact hsame _ rfl rfl rfl
      · exact hsame _ rfl rfl rfl
      · have hcounted : ∀ c, (s.setClient clientId c).Carried Q :=
          fun _ => hsame _ rfl rfl rfl
        exact (hcounted _).done i rfl
    · exact h
  | provideMissing i clientId requestId txs =>
    show (ite _ _ _ : JdState).Carried Q
    split_ifs
    · rw [handleProvideMissing]
      split_ifs
      · exact h
      · split
        · exact h
        · next n hn =>
          split
          · exact h
          · next pend hpend =>
              have hp : Q pend := h.pending pend (List.mem_of_getElem? hpend)
              have hrest : ∀ cache, { s with
                  pending := s.pending.eraseIdx n
                  txCache := cache }.Carried Q :=
                fun _ => ⟨fun p hp => h.pending p (List.mem_of_mem_eraseIdx hp), h.validateQ,
                  h.threads⟩
              rcases hstore : pend.storeMatchingTxs s.txCache txs with ⟨cache, - | stored⟩
              · exact ⟨(hrest cache).pending, h.validateQ, h.threads⟩
              · have hq : Q stored := hQ.store pend stored cache hp hstore
                refine (hrest cache).setThread i fun p hp => ?_
                split_ifs at hp <;> exact Option.some.inj hp ▸ hq
    · exact h
  | work i =>
    rw [jdStep]
    split
    · exact h
    · next pend validateQ hqueue =>
        split_ifs
        · have htaken : { s with validateQ := validateQ }.Carried Q :=
            ⟨h.pending, fun p hp => h.validateQ p (hqueue ▸ List.mem_cons_of_mem pend hp),
              h.threads⟩
          refine htaken.setThread i fun p hp => ?_
          rw [← Option.some.inj hp]
          exact h.validateQ pend (hqueue ▸ List.mem_cons_self)
        · exact h
  | go i inp => exact threadStep_carried hQ h i inp
  | dropClient clientId =>
    exact ⟨fun p hp => h.pending p (List.mem_of_mem_filter hp), h.validateQ, h.threads⟩
  | dropAll => exact ⟨fun p hp => absurd hp List.not_mem_nil, h.validateQ, h.threads⟩
  | newTip tip => exact hsame _ rfl rfl rfl
  | onTipChange => exact hsame _ rfl rfl rfl

omit hQ in
theorem jdStep_carried (hQ : CarryClosed conf Q s) (h : s.Carried Q) (e : JdEvent) :
    (jdStep conf s e).Carried Q :=
  jdStep_carried_of (hQ.step e) h

end CarryRule

end CashStratum
