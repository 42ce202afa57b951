/-
CashStratum/Redirector.lean

The redirector of the connector (`connector.c`): which clients it sends to another pool,
and the lists of shares in flight that it decides by.

Each thread works in critical sections of its own, so a step of the machine is one of these:
a client's message, the part of `client_yymessage_processor` that sees the result of an
authorisation, and each of the sections a call of `send_client` goes through, from the
client it looks up to the `client.reconnect` it queues.  Up to the queueing of its own
message a call holds a reference to the client; from there to the end it only has the
pointer.

The pool is known by what it answers: an answer has the id of the request it is for.
`sent` are the requests so far, `accepted` those of them that got a result `true` and no
error, `reconnects` what was sent away, for the record.
-/
import CashStratum.ByteString
import CashStratum.ProxyShares
import CashStratum.Run
import Mathlib.Logic.Function.Basic

namespace CashStratum.Redirector

open ProxyShares (JsonResult)

/-! ### Data -/

/-- `REDIR_SHARE_TTL` -/
def shareTtl : Nat := 120

/-- `REDIR_SHARE_MAX_CLIENT` -/
def shareMaxClient : Nat := 64

/-- `REDIR_SHARE_MAX_GLOBAL` -/
def shareMaxGlobal : Nat := 4096

/-- `share_t` -/
structure Share where
  id : Int
  submitted : Nat
  deriving DecidableEq

/-- What redirecting needs of a `client_instance_t`; the client that `__recycle_client`
leaves is the one of all defaults. -/
structure Client where
  id : Int := -1
  addressName : Bytes := []
  shares : List Share := []
  nshares : Nat := 0
  redirected : Bool := false
  authorised : Bool := false
  deriving DecidableEq

/-- A request as the connector reads it: whether its method is `mining.submit`, and its id
where that is an integer. -/
structure Request where
  submit : Bool
  id : Option Int
  deriving DecidableEq

/-- A request that has gone to the pool: of which client, and whether that was authorised
when it was read. -/
structure Sent extends Request where
  client : Int
  authorised : Bool
  deriving DecidableEq

/-- The `error` of an answer. -/
inductive JsonError where
  | missing
  | null
  | value
  deriving DecidableEq

/-- What an answer of the pool says. -/
structure Message where
  id : Option Int
  result : JsonResult
  error : JsonError
  deriving DecidableEq

/-- The result is true and there is no error. -/
def Message.accepts (msg : Message) : Bool := msg.result = .bool true ∧ msg.error ≠ .value

/-- What `test_redirector_shares` reads from a message: the id, and the result as it takes
it. -/
def Message.verdict (msg : Message) : Option (Int × Bool) :=
  match msg.id, msg.result with
  | none, _ => none
  | some id, .bool b => some (id, if msg.error = .null then b else false)
  | some id, .null => if msg.error = .value then some (id, false) else none
  | some _, .other => none

/-- Where a call of `send_client` is.  `byShare` tells the two ways to a redirect apart. -/
inductive Stage where
  /-- before `ref_client_by_id` -/
  | lookup
  /-- before it looks whether the client may be redirected -/
  | found (p : Nat)
  /-- before `redirect_matches` -/
  | matching (p : Nat)
  /-- before `test_redirector_shares` -/
  | testing (p : Nat)
  /-- its message is queued, with its reference; before `redirect_client` -/
  | redirecting (p : Nat) (byShare : Bool)
  /-- in `redirect_client`, before `add_redirect` and the queueing -/
  | reconnecting (p : Nat) (byShare : Bool)
  deriving DecidableEq

/-- The client to which a call holds a reference. -/
def Stage.holds : Stage → Option Nat
  | .found p | .matching p | .testing p => some p
  | .lookup | .redirecting _ _ | .reconnecting _ _ => none

/-- The client to which a call has only a pointer. -/
def Stage.points : Stage → Option Nat
  | .redirecting p _ | .reconnecting p _ => some p
  | .lookup | .found _ | .matching _ | .testing _ => none

/-- The client in whose shares a call looks next. -/
def Stage.tests : Stage → Option Nat
  | .testing p => some p
  | .lookup | .found _ | .matching _ | .redirecting _ _ | .reconnecting _ _ => none

/-- Whether a call redirects for a share. -/
def Stage.byShare : Stage → Bool
  | .redirecting _ byShare | .reconnecting _ byShare => byShare
  | .lookup | .found _ | .matching _ | .testing _ => false

/-- A call of `send_client`, for the client with this id.  A message that is not JSON or
has no id is `none`; `answers` is the request the message answers. -/
structure SendCall where
  client : Int
  message : Option Message
  answers : Option Nat
  stage : Stage
  deriving DecidableEq

/-- The client that a call is telling to go. -/
def SendCall.telling (call : SendCall) : Option Int :=
  match call.stage with
  | .reconnecting _ _ => some call.client
  | .lookup | .found _ | .matching _ | .testing _ | .redirecting _ _ => none

/-- A `client.reconnect`, with what was true of its client when it was queued. -/
structure Reconnect where
  client : Int
  authorised : Bool
  byShare : Bool
  redirectNo : Nat
  deriving DecidableEq

/-- What redirecting needs of `cdata_t`.  `inst` is the memory of the clients; an address is
in the hash, among the dead clients, or recycled. -/
structure Cdata where
  inst : Nat → Client
  clientsGenerated : Nat
  clients : List Nat
  deadClients : List Nat
  recycledClients : List Nat
  clientIds : Int
  redirects : List (Bytes × Nat)
  redirect : Nat
  redirectorShares : Nat
  calls : List SendCall
  sent : List Sent
  accepted : List Nat
  reconnects : List Reconnect

namespace Cdata

variable (s : Cdata)

/-- Write to a client. -/
def modify (p : Nat) (f : Client → Client) : Cdata :=
  { s with inst := Function.update s.inst p (f (s.inst p)) }

/-- The clients that are not recycled. -/
def live : List Nat := s.clients ++ s.deadClients

/-- `HASH_FIND_I64` in the clients. -/
def clientById (id : Int) : Option Nat := s.clients.find? fun p => (s.inst p).id = id

/-! ### The shares in flight -/

/-- `__unlink_redir_share` for all the shares of a client but those kept. -/
def keepShares (p : Nat) (kept : List Share) : Cdata :=
  let gone := (s.inst p).shares.length - kept.length
  { s.modify p fun i => { i with shares := kept, nshares := i.nshares - gone } with
    redirectorShares := s.redirectorShares - gone }

/-- The shares that `__expire_redir_shares` leaves. -/
def unexpired (p now : Nat) : List Share :=
  (s.inst p).shares.dropWhile fun share => ¬now ≤ share.submitted + shareTtl

/-- `__expire_redir_shares` -/
def expireRedirShares (p now : Nat) : Cdata := s.keepShares p (s.unexpired p now)

/-- `__free_redir_shares` -/
def freeRedirShares (p : Nat) : Cdata := s.keepShares p []

/-- The end of `parse_redirector_share`: the oldest shares make room, and the new one is
added if the connector has room for it. -/
def addRedirShare (p : Nat) (id : Int) (now : Nat) : Cdata :=
  let t := s.keepShares p ((s.inst p).shares.drop ((s.inst p).nshares + 1 - shareMaxClient))
  if t.redirectorShares ≥ shareMaxGlobal then t
  else
    { t.modify p fun i =>
        { i with shares := i.shares ++ [{ id, submitted := now }], nshares := i.nshares + 1 } with
      redirectorShares := t.redirectorShares + 1 }

/-- `parse_redirector_share` -/
def parseRedirectorShare (p : Nat) (id : Option Int) (now : Nat) : Cdata :=
  match id with
  | none => s
  | some id =>
    if ¬(s.inst p).authorised ∨ (s.inst p).redirected then s
    else
      let t := s.expireRedirShares p now
      if ∃ share ∈ (t.inst p).shares, share.id = id then t else t.addRedirShare p id now

/-- `test_redirector_shares`: whether the client is to be redirected. -/
def testRedirectorShares (p : Nat) (msg : Option Message) (now : Nat) : Cdata × Bool :=
  match msg.bind Message.verdict with
  | none => (s, false)
  | some (id, result) =>
    if ¬(s.inst p).authorised ∨ (s.inst p).redirected then (s, false)
    else
      let t := s.expireRedirShares p now
      if ∃ share ∈ (t.inst p).shares, share.id = id then
        let t := t.keepShares p ((t.inst p).shares.eraseP fun share => share.id = id)
        if result then (t.freeRedirShares p, true) else (t, false)
      else (t, false)

/-- `expire_redirector_shares` -/
def expireRedirectorShares (now : Nat) : Cdata :=
  s.clients.foldl (fun t p => t.expireRedirShares p now) s

/-! ### Redirects -/

/-- `recruit_client`: the memory it takes, with the recycled clients and the count of those
generated after it. -/
def recruitClient : Nat × List Nat × Nat :=
  match s.recycledClients with
  | p :: rest => (p, rest, s.clientsGenerated)
  | [] => (s.clientsGenerated, [], s.clientsGenerated + 1)

/-- `add_redirect` -/
def addRedirect (redirecturls : Nat) (address : Bytes) : Cdata × Nat :=
  match s.redirects.find? fun redirect => redirect.1 = address with
  | some redirect => (s, redirect.2)
  | none =>
    ({ s with
        redirects := s.redirects ++ [(address, s.redirect)]
        redirect := if s.redirect + 1 ≥ redirecturls then 0 else s.redirect + 1 }, s.redirect)

/-- The part of `client_yymessage_processor` that sees the result of an authorisation. -/
def authResult (id : Int) (msg : Message) : Cdata :=
  match s.clientById id with
  | none => s
  | some p =>
    if msg.result = .bool true then
      let t := if (s.inst p).authorised then s else s.freeRedirShares p
      if (t.inst p).redirected then t else t.modify p fun i => { i with authorised := true }
    else s

/-- A call ends, or goes on at another stage. -/
def leave (call : SendCall) (next : Option Stage) : Cdata :=
  { s with calls := s.calls.erase call ++ next.toList.map fun stage => { call with stage } }

/-- The next critical section of a call of `send_client`. -/
def sendClient (redirecturls : Nat) (call : SendCall) (now : Nat) : Cdata :=
  match call.stage with
  | .lookup => s.leave call ((s.clientById call.client).map .found)
  | .found p =>
    s.leave call
      (if (s.inst p).authorised ∧ ¬(s.inst p).redirected then some (.matching p) else none)
  | .matching p =>
    s.leave call (if ∃ redirect ∈ s.redirects, redirect.1 = (s.inst p).addressName then
      some (.redirecting p false) else some (.testing p))
  | .testing p =>
    let (t, ret) := s.testRedirectorShares p call.message now
    t.leave call (if ret then some (.redirecting p true) else none)
  | .redirecting p byShare =>
    if (s.inst p).redirected ∨ ¬(s.inst p).authorised then s.leave call none
    else
      ((s.modify p fun i => { i with redirected := true }).freeRedirShares p).leave call
        (some (.reconnecting p byShare))
  | .reconnecting p byShare =>
    let (t, redirectNo) := s.addRedirect redirecturls (s.inst p).addressName
    { t.leave call none with
      reconnects := t.reconnects ++
        [{ client := (s.inst p).id, authorised := (s.inst p).authorised, byShare, redirectNo }] }

end Cdata

/-! ### Events -/

/-- What can happen next. -/
inductive Event where
  /-- `accept_client` -/
  | accept (address : Bytes)
  /-- a message of a client is read, and passed on -/
  | request (p now : Nat) (req : Request)
  /-- the answer to a request comes, as the result of an authorisation or not -/
  | reply (k : Nat) (authResult : Bool) (result : JsonResult) (error : JsonError)
  /-- anything else is sent to a client -/
  | notice (id : Int)
  /-- the next critical section of a call -/
  | send (call : SendCall) (now : Nat)
  | expire (now : Nat)
  /-- `__drop_client` -/
  | drop (p : Nat)
  /-- `__recycle_client` of a dead client to which nobody holds a reference -/
  | recycle (p : Nat)

/-- One event; one that cannot happen leaves the state as it is. -/
def Cdata.step (redirecturls : Nat) (s : Cdata) : Event → Cdata
  | .accept address =>
    let (p, rest, generated) := s.recruitClient
    { s with
      inst := Function.update s.inst p { id := s.clientIds, addressName := address }
      clientsGenerated := generated
      recycledClients := rest
      clients := s.clients ++ [p]
      clientIds := s.clientIds + 1 }
  | .request p now req =>
    if p ∈ s.live then
      let t := if req.submit then s.parseRedirectorShare p req.id now else s
      { t with
        sent := t.sent ++
          [{ req with client := (s.inst p).id, authorised := (s.inst p).authorised }] }
    else s
  | .reply k authResult result error =>
    match s.sent[k]? with
    | none => s
    | some req =>
      let msg := { id := req.id, result, error }
      let t := if authResult then s.authResult req.client msg else s
      { t with
        accepted := if msg.accepts then t.accepted ++ [k] else t.accepted
        calls := t.calls ++
          [{ client := req.client, message := some msg, answers := some k, stage := .lookup }] }
  | .notice id =>
    { s with
      calls := s.calls ++
        [{ client := id, message := none, answers := none, stage := .lookup }] }
  | .send call now => if call ∈ s.calls then s.sendClient redirecturls call now else s
  | .expire now => s.expireRedirectorShares now
  | .drop p =>
    if p ∈ s.clients then
      { s with clients := s.clients.erase p, deadClients := s.deadClients ++ [p] }
    else s
  | .recycle p =>
    if p ∈ s.deadClients ∧ ∀ call ∈ s.calls, call.stage.holds ≠ some p then
      { s with
        inst := Function.update s.inst p {}
        deadClients := s.deadClients.erase p
        recycledClients := s.recycledClients ++ [p]
        redirectorShares := s.redirectorShares - (s.inst p).shares.length }
    else s

/-- The connector when it starts; the ids below are those of the servers. -/
def Cdata.start (serverurls : Nat) : Cdata where
  inst _ := {}
  clientsGenerated := 0
  clients := []
  deadClients := []
  recycledClients := []
  clientIds := serverurls
  redirects := []
  redirect := 0
  redirectorShares := 0
  calls := []
  sent := []
  accepted := []
  reconnects := []

/-! ### Redirects that are earned -/

namespace Cdata

variable (s : Cdata)

/-- The pool accepted a `mining.submit` that the client sent once it was authorised. -/
def Earned (client : Int) : Prop :=
  ∃ k ∈ s.accepted, ∃ req, s.sent[k]? = some req ∧ req.client = client ∧ req.submit = true ∧
    req.authorised = true

/-- The lengths of the lists of all clients. -/
def inFlight : Nat := (s.live.map fun p => (s.inst p).shares.length).sum

/-- Nobody is sent away twice, nor before an authorisation, nor for a share that the pool did
not accept; and the counts of the shares are right and bounded. -/
structure Redirects : Prop where
  once : (s.reconnects.map Reconnect.client).Nodup
  authorised : ∀ r ∈ s.reconnects, r.authorised = true
  earned : ∀ r ∈ s.reconnects, r.byShare = true → s.Earned r.client
  counted : ∀ p ∈ s.live, (s.inst p).nshares = (s.inst p).shares.length ∧
    (s.inst p).shares.length ≤ shareMaxClient
  total : s.redirectorShares = s.inFlight ∧ s.redirectorShares ≤ shareMaxGlobal

/-- The call answers a `mining.submit` that came after the authorisation. -/
def AnswersShare (call : SendCall) : Prop :=
  ∃ k ∈ call.answers, ∃ req ∈ s.sent[k]?, req.submit = true ∧ req.authorised = true

instance (call : SendCall) : Decidable (s.AnswersShare call) :=
  inferInstanceAs (Decidable (∃ k ∈ call.answers, ∃ req ∈ s.sent[k]?, _))

/-- The answer accepts, and has the id of a share that an authorised client has in flight. -/
def Matches (p : Nat) (msg : Message) (now : Nat) : Prop :=
  msg.result = .bool true ∧ msg.error = .null ∧ (s.inst p).authorised = true ∧
    (s.inst p).redirected = false ∧ ∃ share ∈ s.unexpired p now, some share.id = msg.id

instance (p : Nat) (msg : Message) (now : Nat) : Decidable (s.Matches p msg now) :=
  inferInstanceAs (Decidable (_ ∧ _))

/-- An answer that is looked up in the shares of a client matches one only if it answers a
share; and no client is recycled under a call that points to it. -/
def Proper : Event → Prop
  | .send call now => ∀ p ∈ call.stage.tests, ∀ msg ∈ call.message, s.Matches p msg now →
      s.AnswersShare call
  | .recycle p => ∀ call ∈ s.calls, call.stage.points ≠ some p
  | _ => True

instance : DecidablePred s.Proper
  | .send call now => inferInstanceAs (Decidable (∀ p ∈ call.stage.tests, ∀ msg ∈ call.message,
      s.Matches p msg now → s.AnswersShare call))
  | .recycle p => inferInstanceAs (Decidable (∀ call ∈ s.calls, call.stage.points ≠ some p))
  | .accept _ | .request _ _ _ | .reply _ _ _ _ | .notice _ | .expire _ | .drop _ => isTrue trivial

end Cdata

end CashStratum.Redirector
