/-
CashStratum/Instance.lean

The client instances of the stratifier (`stratifier.c`): the hash of live
instances, the pool of recycled ones, the lists that link instances, and the paths
that take an instance out.

An instance is a piece of memory named by its address.  `inst` is the memory; an
address is in the hash, or with a receiver that has just recruited it, or in the
recycled pool, or was never allocated.  The lists hold addresses, as `utlist.h`
lists do as long as nobody appends what the list already holds.  Users are never
freed, so a pointer to one is its key.

The pool does its own work here: neither proxy nor node nor the relay of another
pool.
-/
import CashStratum.Username
import CashStratum.Workbase
import Mathlib.Logic.Function.Basic

namespace CashStratum

/-! ### Data -/

/-- What of the configuration the instances depend on, with the pool's own
scripts; the servers of `serverurl` have an index each. -/
structure InstanceConf where
  ck : Ckpool
  sd : Sdata
  chain : Chain
  maxusers : Nat
  maxsubclients : Nat
  trusted : Nat → Bool
  nodeserver : Nat → Bool
  passthroughserver : Nat → Bool

/-- `stratum_instance_t`; the instance `memset` leaves is the one of all defaults.
`enonce1bin` is empty until an extranonce is filled in. -/
structure ClientInstance where
  id : Nat := 0
  sessionId : Nat := 0
  ref : Nat := 0
  dropped : Bool := false
  authorising : Bool := false
  authorised : Bool := false
  subscribed : Bool := false
  useragent : Option Bytes := none
  workername : Option Bytes := none
  userInstance : Option Bytes := none
  workerInstance : Bytes := []
  reject : Nat := 0
  enonce1_64 : Nat := 0
  enonce1bin : Bytes := []
  sv2 : Bool := false
  node : Bool := false
  trusted : Bool := false
  passthrough : Bool := false
  remote : Bool := false
  subclients : Nat := 0
  server : Nat := 0
  deriving DecidableEq

/-- `user_instance_t` with the counts of its workers, `instance_count`, by their
names. -/
structure UserInstance where
  clients : List Nat := []
  workerInstances : List Bytes := []
  instanceCount : Bytes → Int := fun _ => 0
  workers : Int := 0
  btcaddress : Bool := false
  poolFallback : Bool := false
  script : Bool := false
  txnbin : Bytes := []
  authorised : Bool := false
  throttled : Bool := false
  failedAuthtime : Nat := 0
  authBackoff : Nat := 3

/-- `session_t`. -/
structure Session where
  sessionId : Nat
  enonce1_64 : Nat
  clientId : Nat
  added : Nat
  deriving DecidableEq

/-- An entry of a parameter array: a string, or anything else. -/
inductive Param where
  | str (s : Bytes)
  | other
  deriving DecidableEq

/-- `params`: an array, or something that is none. -/
abbrev Params := Option (List Param)

/-- `pool_stats_t`, the counts of users and workers. -/
structure PoolStats where
  users : Int := 0
  workers : Int := 0

/-- `sdata_t`, its part that instance_lock protects, and the queue of the
authoriser.  `adding` are the instances whose receiver has recruited them and
not yet come back for the lock; `authjob` is the request the authoriser is at,
with the instance it holds; `allocated` counts the extranonces given out, for the
record. -/
structure InstanceData where
  inst : Nat → ClientInstance
  stratumGenerated : Nat
  stratumInstances : List Nat
  adding : List Nat
  recycledInstances : List Nat
  nodeInstances : List Nat
  remoteInstances : List Nat
  usernames : List Bytes
  user : Bytes → UserInstance
  stats : PoolStats
  disconnectedSessions : List Session
  enonce1_64 : Nat
  sessionId : Nat
  sauthq : List (Nat × Params)
  authjob : Option (Nat × Params)
  allocated : Nat

/-- The user's part of `__inc_worker`. -/
def UserInstance.incWorker (user : UserInstance) (w : Bytes) : UserInstance :=
  { user with
    workers := user.workers + 1
    instanceCount := Function.update user.instanceCount w (user.instanceCount w + 1) }

/-- The user's part of `__dec_worker`. -/
def UserInstance.decWorker (user : UserInstance) (w : Bytes) : UserInstance :=
  { user with
    workers := if user.workers > 0 then user.workers - 1 else user.workers
    instanceCount := Function.update user.instanceCount w
      (if user.instanceCount w > 0 then user.instanceCount w - 1 else user.instanceCount w) }

namespace InstanceData

variable (s : InstanceData)

/-- Write to an instance. -/
def modify (p : Nat) (f : ClientInstance → ClientInstance) : InstanceData :=
  { s with inst := Function.update s.inst p (f (s.inst p)) }

/-- Write to a user. -/
def modifyUser (u : Bytes) (f : UserInstance → UserInstance) : InstanceData :=
  { s with user := Function.update s.user u (f (s.user u)) }

/-- `__instance_by_id` -/
def instanceById (id : Nat) : Option Nat := s.stratumInstances.find? fun p => (s.inst p).id = id

end InstanceData

/-- `subclient(client_id)`: the id of the parent, 0 for a client of our own. -/
def subclient (id : Nat) : Nat := id >>> 32

/-- `remote_server(client)`. -/
def ClientInstance.remoteServer (client : ClientInstance) : Bool :=
  client.node || client.passthrough || client.trusted

namespace InstanceData

variable (s : InstanceData)

/-! ### Taking an instance out -/

/-- `__kill_instance` -/
def killInstance (p : Nat) : InstanceData :=
  { s with
    inst := Function.update s.inst p {}
    recycledInstances := s.recycledInstances ++ [p] }

/-- `__dec_subclients`, of the client with this id. -/
def decSubclients (id : Nat) : InstanceData :=
  if subclient id = 0 then s
  else match s.instanceById (subclient id) with
    | none => s
    | some parent => s.modify parent fun i => { i with subclients := i.subclients - 1 }

/-- `__inc_worker` -/
def incWorker (u w : Bytes) : InstanceData :=
  { s.modifyUser u fun user => user.incWorker w with
    stats :=
      { workers := s.stats.workers + 1
        users := if (s.user u).workers = 0 then s.stats.users + 1 else s.stats.users } }

/-- `__dec_worker` -/
def decWorker (u w : Bytes) : InstanceData :=
  { s.modifyUser u fun user => user.decWorker w with
    stats :=
      { workers := if s.stats.workers > 0 then s.stats.workers - 1 else s.stats.workers
        users :=
          if (s.user u).workers > 0 ∧ (s.user u).workers - 1 = 0 ∧ s.stats.users > 0 then
            s.stats.users - 1
          else s.stats.users } }

/-- The part of `__del_client` for a client that has a user. -/
def detach (p : Nat) (u : Bytes) : InstanceData :=
  (s.modifyUser u fun user => { user with clients := user.clients.erase p }).decWorker u
    (s.inst p).workerInstance

/-- `__del_client` -/
def delClient (p : Nat) : InstanceData :=
  let t := s.decSubclients (s.inst p).id
  let t := { t with stratumInstances := t.stratumInstances.erase p }
  match (s.inst p).userInstance with
  | none => t
  | some u => t.detach p u

/-- `__del_client` and `__kill_instance`: every path that takes an instance out ends
with the two. -/
def reap (p : Nat) : InstanceData := (s.delClient p).killInstance p

/-- What `__drop_subclients` and `drop_allclients` do to an instance: it goes at
once, or when its last reference is released. -/
def dropOne (p : Nat) : InstanceData :=
  if (s.inst p).ref = 0 then s.reap p else s.modify p fun i => { i with dropped := true }

/-- `HASH_ITER` over the instances, dropping those that are selected. -/
def dropEach (select : ClientInstance → Bool) : InstanceData :=
  s.stratumInstances.foldl (fun t p => if select (t.inst p) then t.dropOne p else t) s

/-- `__drop_subclients` -/
def dropSubclients (parentId : Nat) : InstanceData :=
  s.dropEach fun client => subclient client.id == parentId

/-- The unlinking of `__drop_client`: a node from the list of nodes, or else a
trusted server from the list of remotes. -/
def unlink (p : Nat) : InstanceData :=
  if (s.inst p).node then { s with nodeInstances := s.nodeInstances.erase p }
  else if (s.inst p).trusted then { s with remoteInstances := s.remoteInstances.erase p }
  else s

/-- `__drop_client` -/
def dropClientLocked (p : Nat) : InstanceData :=
  let t := if (s.inst p).subclients ≠ 0 then s.dropSubclients (s.inst p).id else s
  (t.unlink p).reap p

/-- `_dec_instance_ref` -/
def decInstanceRef (p : Nat) : InstanceData :=
  let t := s.modify p fun i => { i with ref := i.ref - 1 }
  if (t.inst p).dropped ∧ (t.inst p).ref = 0 then t.dropClientLocked p else t

/-! ### Disconnected sessions -/

/-- The session `__disconnect_session` would save. -/
def sessionOf (client : ClientInstance) (now : Nat) : Session where
  sessionId := client.sessionId
  enonce1_64 := client.enonce1_64
  clientId := client.id
  added := now

/-- Whether `__disconnect_session` saves the session of the client. -/
def savesSession (client : ClientInstance) (now : Nat) : Bool :=
  client.enonce1_64 ≠ 0 ∧ client.userInstance.isSome ∧ client.authorised ∧
    ∀ session ∈ s.disconnectedSessions,
      now - session.added ≤ 600 → session.sessionId ≠ client.sessionId

/-- `__disconnect_session` -/
def disconnectSession (p : Nat) (now : Nat) : InstanceData :=
  let kept := s.disconnectedSessions.filter fun session => now - session.added ≤ 600
  if s.savesSession (s.inst p) now then
    { s with disconnectedSessions := kept ++ [sessionOf (s.inst p) now] }
  else { s with disconnectedSessions := kept }

/-- `disconnected_sessionid_exists`: the session, taken out of the table, and its
`enonce1_64`. -/
def disconnectedSessionidExists (sessionId : Nat) : InstanceData × Nat :=
  match s.disconnectedSessions.find? fun session => session.sessionId = sessionId with
  | none => (s, 0)
  | some session =>
    ({ s with disconnectedSessions := s.disconnectedSessions.erase session }, session.enonce1_64)

/-! ### Dropping clients -/

/-- `drop_client` -/
def dropClient (id now : Nat) : InstanceData :=
  match s.instanceById id with
  | none => s
  | some p =>
    let t := s.disconnectSession p now
    if (t.inst p).ref = 0 then t.dropClientLocked p
    else t.modify p fun i => { i with dropped := true }

/-- `drop_allclients`, after the virtual sessions of the channels are closed. -/
def dropAllclients : InstanceData :=
  let t := s.dropEach fun _ => true
  if t.stratumInstances = [] then { t with stats := {} } else t

/-- The end of `request_reconnect`: every client is tagged. -/
def requestReconnect : InstanceData :=
  { s with
    inst := fun p =>
      if p ∈ s.stratumInstances then { s.inst p with dropped := true } else s.inst p }

/-! ### Adding an instance -/

/-- `subclient_creates(method)`, whether the message may create a subclient, is
`creates`; `tooFast` is the verdict of the token bucket. -/
def subclientCreateOk (c : InstanceConf) (id : Nat) (creates tooFast : Bool) : Option InstanceData :=
  if subclient id = 0 then some s
  else match s.instanceById (subclient id) with
    | none => none
    | some parent =>
      if !(s.inst parent).remoteServer then none
      else if !creates then none
      else if c.maxsubclients ≠ 0 ∧ (s.inst parent).subclients ≥ c.maxsubclients then none
      else if tooFast then none
      else some (s.modify parent fun i => { i with subclients := i.subclients + 1 })

/-- `__recruit_stratum_instance`: the first recycled instance, or fresh memory. -/
def recruitStratumInstance : InstanceData × Nat :=
  match s.recycledInstances with
  | p :: rest => ({ s with recycledInstances := rest }, p)
  | [] => ({ s with stratumGenerated := s.stratumGenerated + 1 }, s.stratumGenerated)

/-- The first half of `__stratum_add_instance`: the instance is recruited, the lock
dropped and the instance filled in. -/
def stratumRecruit (id server : Nat) : InstanceData × Nat :=
  let (t, p) := s.recruitStratumInstance
  let sessionId := (s.sessionId + 1) % 2 ^ 32
  ({ t with
      inst := Function.update t.inst p { id, sessionId, server }
      sessionId
      adding := t.adding ++ [p] }, p)

/-- The second half of `__stratum_add_instance`, back under the lock: another
receiver may have added the same id in the meantime. -/
def stratumInsert (p : Nat) : InstanceData × Nat :=
  let t := { s with adding := s.adding.erase p }
  match s.instanceById (s.inst p).id with
  | some old => ((t.decSubclients (s.inst p).id).killInstance p, old)
  | none => ({ t with stratumInstances := t.stratumInstances ++ [p] }, p)

/-! ### Nodes and remote servers -/

/-- `add_mining_node`; the reference is the one of the thread that sets the node
up. -/
def addMiningNode (p : Nat) : InstanceData :=
  let t := s.modify p fun i => { i with node := true, ref := i.ref + 1 }
  { t with nodeInstances := t.nodeInstances ++ [p] }

/-- `add_remote_server`, up to the release of its reference. -/
def addRemoteServer (p : Nat) : InstanceData :=
  let t := s.modify p fun i => { i with trusted := true, ref := i.ref + 1 }
  { t with remoteInstances := t.remoteInstances ++ [p] }

/-! ### Extranonces -/

/-- The next value of the shared counter, a 64-bit number. -/
def nextEnonce1 : InstanceData :=
  { s with enonce1_64 := (s.enonce1_64 + 1) % 2 ^ 64, allocated := s.allocated + 1 }

/-- `__fill_enonce1data`; outside proxy mode there is no constant part. -/
def fillEnonce1data (c : InstanceConf) (p : Nat) : InstanceData :=
  s.modify p fun i => { i with enonce1bin := leBytes c.ck.nonce1length i.enonce1_64 }

/-- `new_enonce1` -/
def newEnonce1 (c : InstanceConf) (p : Nat) : InstanceData :=
  let t := s.nextEnonce1
  (t.modify p fun i => { i with enonce1_64 := t.enonce1_64 }).fillEnonce1data c p

end InstanceData

end CashStratum
