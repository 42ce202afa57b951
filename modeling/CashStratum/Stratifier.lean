/-
CashStratum/Stratifier.lean

The client side of the stratifier (`stratifier.c`) as one machine.

Receivers, share processors, the statistics thread and the threads that set nodes up
all hold their client by a reference and work on it between critical sections; the
machine knows how many references an instance has and whose one of them is, the
authoriser's.  So a client can be dropped, by its id, with everybody else or on its
own, at any moment between the arrival of a message and its end, and goes when the
last reference is released.  What the connector, the clock and the miner decide is in
the events.
-/
import CashStratum.Authorise
import CashStratum.Run

namespace CashStratum

/-! ### Messages -/

/-- `int_from_sessionid`: the session id a client wants to resume, 0 for none. -/
def intFromSessionid (sessionid : Bytes) : Nat :=
  let slen := sessionid.length / 2
  if slen < 1 ∨ slen > 4 then 0
  else if ¬validhex sessionid then 0
  else (hex2bin sessionid slen).elim 0 beNat

/-- The string at a place of the parameters, empty if there is none. -/
def Params.getStr (params : List Param) (n : Nat) : Bytes :=
  match params[n]? with
  | some (.str bytes) => cstr bytes
  | _ => []

/-- The methods of `parse_method`; `other` are those that leave the instance as it
is, to queue a share among them. -/
inductive ClientMsg where
  | term
  | subscribe (params : Params)
  | remote
  | node
  | passthrough
  | authorise (params : Params)
  | other

/-- The messages of `parse_trusted_msg` that touch users and instances. -/
inductive TrustedMsg where
  | share (workername : Bytes)
  | shareErr (workername : Bytes)
  | workers (username : Bytes)
  | auth (clientid : Nat) (useragent : Option Bytes) (params : Params)

namespace InstanceData

variable (s : InstanceData)

/-- `parse_subscribe`.  A client of our own may resume a session, which gives it
the extranonce of that session; any other gets the next one. -/
def parseSubscribe (c : InstanceConf) (p : Nat) (params : Params) : InstanceData :=
  match params with
  | none => s
  | some arr =>
    let t := s.modify p fun i => { i with useragent := some (Params.getStr arr 0) }
    let sessionId := intFromSessionid (Params.getStr arr 1)
    let (t, enonce1) :=
      if sessionId ≠ 0 ∧ subclient (t.inst p).id = 0 then t.disconnectedSessionidExists sessionId
      else (t, 0)
    let t :=
      if enonce1 ≠ 0 then (t.modify p fun i => { i with enonce1_64 := enonce1 }).fillEnonce1data c p
      else t.newEnonce1 c p
    t.modify p fun i => { i with subscribed := true }

/-- `parse_method` -/
def parseMethod (c : InstanceConf) (p now : Nat) : ClientMsg → InstanceData
  | .term => s.dropClient (s.inst p).id now
  | .subscribe params => if (s.inst p).subscribed then s else s.parseSubscribe c p params
  | .remote =>
    if c.trusted (s.inst p).server then (s.addRemoteServer p).decInstanceRef p else s
  | .node =>
    if c.nodeserver (s.inst p).server then s.addMiningNode p else s.dropClient (s.inst p).id now
  | .passthrough =>
    if c.passthroughserver (s.inst p).server then s.modify p fun i => { i with passthrough := true }
    else s.dropClient (s.inst p).id now
  | .authorise params =>
    if (s.inst p).authorised then s
    else { s with sauthq := s.sauthq ++ [((s.inst p).id, params)] }
  | .other => s

/-- `parse_instance_msg`: a client tagged for lazy invalidation is not listened to;
the connector is asked to drop it. -/
def parseInstanceMsg (c : InstanceConf) (p now : Nat) (msg : ClientMsg) : InstanceData :=
  if (s.inst p).reject = 3 then s else s.parseMethod c p now msg

/-- `parse_remote_auth` once the instance is there: it is marked as the remote
server's, and its request queued. -/
def parseRemoteAuth (c : InstanceConf) (p clientid : Nat) (useragent : Option Bytes)
    (params : Params) : InstanceData :=
  let id := (s.inst p).id <<< 32 ||| clientid % 2 ^ 32
  if c.ck.btcsolo then s
  else match s.instanceById id with
    | none => s
    | some q =>
      { s.modify q fun i => { i with remote := true, useragent := useragent.or i.useragent } with
        sauthq := s.sauthq ++ [(id, params)] }

/-- `parse_trusted_msg` -/
def parseTrustedMsg (c : InstanceConf) (p : Nat) : TrustedMsg → InstanceData
  | .share workername =>
    match s.generateRemoteUser c workername with
    | (t, none) => t
    | (t, some u) => (t.modifyUser u fun user => { user with authorised := true }).getWorker u workername
  | .shareErr workername => (s.generateRemoteUser c workername).1
  | .workers username => (s.getCreateUser c username false).1
  | .auth clientid useragent params => s.parseRemoteAuth c p clientid useragent params

/-! ### Events -/

/-- A reference to the instance is held by somebody other than the authoriser. -/
def Held (p : Nat) : Prop :=
  (if s.authjob.map Prod.fst = some p then 1 else 0) < (s.inst p).ref

instance (p : Nat) : Decidable (s.Held p) := inferInstanceAs (Decidable (_ < _))

/-- The id is new: the connector counts its ids up. -/
def FreshId (id : Nat) : Prop :=
  0 < id ∧ s.instanceById id = none ∧ ∀ p ∈ s.adding, (s.inst p).id ≠ id

instance (id : Nat) : Decidable (s.FreshId id) := inferInstanceAs (Decidable (_ ∧ _ ∧ _))

end InstanceData

/-- What can happen next. -/
inductive InstanceEvent where
  /-- a message from an id without an instance: `__stratum_add_instance` begins -/
  | recruit (id server : Nat) (creates tooFast : Bool)
  /-- its receiver is back under the lock, and takes a reference -/
  | insert (p : Nat)
  /-- a message from an id with an instance: a receiver takes a reference -/
  | acquire (id : Nat)
  | message (p now : Nat) (msg : ClientMsg)
  | trustedMessage (p : Nat) (msg : TrustedMsg)
  /-- a share was judged, which may change the level of `reject` -/
  | share (p reject : Nat)
  /-- `dec_instance_ref` -/
  | release (p : Nat)
  /-- a loop over all instances takes a reference -/
  | iterRef (p : Nat)
  /-- and gives it back, which drops nothing -/
  | iterUnref (p : Nat)
  /-- `lazy_drop_client` of the statistics thread -/
  | lazyDrop (p : Nat)
  | preauth
  | authorise (now : Nat)
  | dropClient (id now : Nat)
  | dropAllclients
  | requestReconnect
  | sv2Open (id server now : Nat) (userIdentity : Bytes)
  | sv2Close (id : Nat)

/-- One event; one that cannot happen leaves the state as it is.  A channel whose
user identity is empty is left out: `generate_user` would take the length of a null
pointer. -/
def InstanceData.step (c : InstanceConf) (s : InstanceData) : InstanceEvent → InstanceData
  | .recruit id server creates tooFast =>
    if 0 < id ∧ s.instanceById id = none then
      match s.subclientCreateOk c id creates tooFast with
      | none => s
      | some t => (t.stratumRecruit id server).1
    else s
  | .insert p =>
    if p ∈ s.adding then
      let (t, q) := s.stratumInsert p
      if (t.inst q).dropped then t else t.modify q fun i => { i with ref := i.ref + 1 }
    else s
  | .acquire id =>
    match s.instanceById id with
    | none => s
    | some p =>
      if (s.inst p).dropped then s else s.modify p fun i => { i with ref := i.ref + 1 }
  | .message p now msg =>
    if s.Held p ∧ (s.inst p).trusted = false then s.parseInstanceMsg c p now msg else s
  | .trustedMessage p msg =>
    if s.Held p ∧ (s.inst p).trusted then s.parseTrustedMsg c p msg else s
  | .share p reject =>
    if s.Held p ∧ (s.inst p).authorised ∧ (s.inst p).reject ≠ 3 ∧ reject ≤ 3 then
      s.modify p fun i => { i with reject }
    else s
  | .release p => if s.Held p then s.decInstanceRef p else s
  | .iterRef p =>
    if p ∈ s.stratumInstances then s.modify p fun i => { i with ref := i.ref + 1 } else s
  | .iterUnref p => if s.Held p then s.modify p fun i => { i with ref := i.ref - 1 } else s
  | .lazyDrop p =>
    if s.Held p ∧ (s.inst p).sv2 = false ∧ (s.inst p).remoteServer = false then
      s.modify p fun i => { i with dropped := true }
    else s
  | .preauth => if s.authjob = none then s.preauth else s
  | .authorise now => s.sauthProcess c now
  | .dropClient id now => s.dropClient id now
  | .dropAllclients => s.dropAllclients
  | .requestReconnect => s.requestReconnect
  | .sv2Open id server now userIdentity =>
    if s.FreshId id ∧ cstr userIdentity ≠ [] then
      s.sv2OpenSession c id server now (cstr userIdentity)
    else s
  | .sv2Close id => s.sv2CloseSession id

/-! ### Runs -/

/-- The users `read_userstats` finds on disk, with the names of their workers. -/
structure LoadedUsers where
  usernames : List Bytes
  workers : Bytes → List Bytes
  usernames_nodup : usernames.Nodup
  workers_nodup : ∀ u, (workers u).Nodup

/-- The stratifier when it starts. -/
def InstanceData.start (loaded : LoadedUsers) (randomiser : Nat) : InstanceData where
  inst _ := {}
  stratumGenerated := 0
  stratumInstances := []
  adding := []
  recycledInstances := []
  nodeInstances := []
  remoteInstances := []
  usernames := loaded.usernames
  user u := { workerInstances := loaded.workers u }
  stats := {}
  disconnectedSessions := []
  enonce1_64 := randomiser % 2 ^ 64
  sessionId := randomiser % 2 ^ 32
  sauthq := []
  authjob := none
  allocated := 0

/-! ### A pool for examples -/

/-- A pool in solo mode whose server 1 takes trusted servers and whose server 2
takes nodes. -/
def exampleConf : InstanceConf where
  ck := longCk
  sd := exampleSd
  chain := .main
  maxusers := 0
  maxsubclients := 0
  trusted server := server == 1
  nodeserver server := server == 2
  passthroughserver _ := false

/-- No users on disk. -/
def noUsers : LoadedUsers where
  usernames := []
  workers _ := []
  usernames_nodup := List.nodup_nil
  workers_nodup _ := List.nodup_nil

/-- The client with this id connects to a server, on memory `p`, and its receiver
holds it. -/
def connect (id server p : Nat) : List InstanceEvent := [.recruit id server false false, .insert p]

/-- The client on memory `p` subscribes. -/
def subscribe (p : Nat) : InstanceEvent := .message p 0 (.subscribe (some []))

/-- The client on memory `p` asks for an authorisation, and the authoriser sees to
it. -/
def authorise (p : Nat) (workername : Bytes) : List InstanceEvent :=
  [.message p 0 (.authorise (some [.str workername])), .preauth, .authorise 0]

end CashStratum
