/-
CashStratum/Authorise.lean

Users and authorisation (`stratifier.c`): how a worker name is given a user and a
payout script, how `mining.authorize` is taken off its queue, checked and answered,
and how a channel of the other protocol opens its session.

What authorisation does to the difficulty of the client is in `Difficulty.lean`.
-/
import CashStratum.Instance

namespace CashStratum

/-! ### Users -/

namespace InstanceData

variable (s : InstanceData)

/-- `__get_create_user`: the key of the user, and whether it is new; `none` when a
new one is refused. -/
def getCreateUser (c : InstanceConf) (username : Bytes) (limited : Bool) : InstanceData × Option (Bytes × Bool) :=
  let key := userKey username
  if key ∈ s.usernames then (s, some (key, false))
  else if limited ∧ c.maxusers ≠ 0 ∧ s.usernames.length ≥ c.maxusers then (s, none)
  else ({ s.modifyUser key fun _ => {} with usernames := s.usernames ++ [key] }, some (key, true))

end InstanceData

/-- The payout `generate_user` gives a user that has no address yet: the script of
its address, or in solo mode the pool's script if the name does not even look like
an address. -/
def UserInstance.assignPayout (c : InstanceConf) (username canon : Bytes) (user : UserInstance) :
    UserInstance :=
  match (generatorCheckaddr c.chain username).bind fun script =>
      (addressToTxn c.chain canon).map fun txnbin => (script, txnbin) with
  | some (script, txnbin) => { user with txnbin, script, btcaddress := true }
  | none =>
    if c.ck.btcsolo ∧ looksLikeAddress c.chain canon = false ∧ user.poolFallback = false then
      { user with txnbin := c.sd.txnbin.bin, poolFallback := true }
    else user

/-- The payout `generate_remote_user` gives. -/
def UserInstance.assignRemotePayout (c : InstanceConf) (canon : Bytes) (user : UserInstance) :
    UserInstance :=
  match (generatorCheckaddr c.chain canon).bind fun script =>
      (addressToTxn c.chain canon).map fun txnbin => (script, txnbin) with
  | some (script, txnbin) => { user with txnbin, script, btcaddress := true }
  | none => user

namespace InstanceData

variable (s : InstanceData)

/-- `get_worker` -/
def getWorker (u w : Bytes) : InstanceData :=
  if w ∈ (s.user u).workerInstances then s
  else s.modifyUser u fun user => { user with workerInstances := user.workerInstances ++ [w] }

/-- What `generate_user` does under the lock: the client gets its user and worker
and goes to the end of the user's list. -/
def attach (p : Nat) (u w : Bytes) : InstanceData :=
  let t := s.modify p fun i => { i with userInstance := some u, workerInstance := w }
  (t.modifyUser u fun user => { user with clients := user.clients ++ [p] }).incWorker u w

/-- `generate_user`: the user of the client, `none` when the pool has no room for a
new one.  The empty worker name has no username. -/
def generateUser (c : InstanceConf) (p : Nat) (workername : Bytes) : InstanceData × Option Bytes :=
  match generateUsername workername with
  | none => (s, none)
  | some username =>
    let canon := canonicaliseUsername c.chain username
    match s.getCreateUser c canon true with
    | (t, none) => (t, none)
    | (t, some (u, newUser)) =>
      let t := (t.getWorker u workername).attach p u workername
      if newUser ∨ (t.user u).btcaddress = false then
        (t.modifyUser u (UserInstance.assignPayout c username canon), some u)
      else (t, some u)

/-- `generate_remote_user`, for the worker name of a share another pool reports. -/
def generateRemoteUser (c : InstanceConf) (workername : Bytes) : InstanceData × Option Bytes :=
  match if (strsep workername).1 = [] then (strsep workername).2 else some (strsep workername).1 with
  | none => (s, none)
  | some username =>
    if username = [] ∨ 47 ∈ username ∨ username.head? = some 46 then (s, none)
    else
      let canon := canonicaliseUsername c.chain (username.take 127)
      match s.getCreateUser c canon false with
      | (t, none) => (t, none)
      | (t, some (u, newUser)) =>
        if newUser ∨ (t.user u).btcaddress = false then
          (t.modifyUser u (UserInstance.assignRemotePayout c canon), some u)
        else (t, some u)

/-! ### The answer to an authorisation -/

/-- `client_auth` -/
def clientAuth (p : Nat) (u : Bytes) (now : Nat) (ret : Bool) : InstanceData :=
  if ret then
    (s.modify p fun i => { i with authorised := true, authorising := false }).modifyUser u fun user =>
      { user with
        authorised := true
        failedAuthtime := 0
        authBackoff := 3
        throttled := false }
  else
    (s.modify p fun i => { i with reject := 3, authorising := false }).modifyUser u fun user =>
      { user with
        failedAuthtime := now
        authBackoff := min (user.authBackoff * 2) 600 }

end InstanceData

/-- The errors `parse_authorise` answers with. -/
inductive AuthError where
  | paramsNotArray
  | paramsMissing
  | failedSubscription
  | invalidWorkername
  | emptyWorkername
  | emptyUsername
  | invalidCharacter
  | controlCharacter
  | userLimit
  | invalidAddress
  deriving DecidableEq, Repr

/-- The text of an error. -/
def AuthError.text : AuthError → String
  | .paramsNotArray => "params not an array"
  | .paramsMissing => "params missing array entries"
  | .failedSubscription => "Failed subscription"
  | .invalidWorkername => "Invalid workername parameter"
  | .emptyWorkername => "Empty workername parameter"
  | .emptyUsername => "Empty username parameter"
  | .invalidCharacter => "Invalid character in username"
  | .controlCharacter => "Control character in username"
  | .userLimit => "Pool user limit reached"
  | .invalidAddress =>
    "Invalid BCH address (bad checksum or wrong network) - check your username for typos"

/-- The checks at the start of `parse_authorise`: the worker name, or the error. -/
def checkAuthorise (useragent : Option Bytes) (params : Params) : Except AuthError Bytes :=
  match params with
  | none => .error .paramsNotArray
  | some [] => .error .paramsMissing
  | some (first :: _) =>
    if useragent.isNone then .error .failedSubscription
    else match first with
      | .other => .error .invalidWorkername
      | .str bytes =>
        let buf := cstr bytes
        if buf = [] then .error .emptyWorkername
        else if buf.head? = some 46 ∨ buf.head? = some 95 then .error .emptyUsername
        else if 47 ∈ buf then .error .invalidCharacter
        else if buf.any fun ch => ch < 32 || ch == 127 then .error .controlCharacter
        else .ok buf

/-- The user is being rate limited for failed authorisations. -/
def UserInstance.rateLimited (user : UserInstance) (now : Nat) : Bool :=
  user.failedAuthtime ≠ 0 ∧ now < user.failedAuthtime + user.authBackoff

/-- The gate of `parse_authorise`: outside solo mode everybody, in solo mode the
users with an address or with the pool's script. -/
def UserInstance.mayAuthorise (c : InstanceConf) (user : UserInstance) : Bool :=
  !c.ck.btcsolo || user.btcaddress || user.poolFallback

namespace InstanceData

variable (s : InstanceData)

/-- `parse_authorise` of an instance we hold: whether it is authorised, and the
error for the answer. -/
def parseAuthorise (c : InstanceConf) (p now : Nat) (params : Params) :
    InstanceData × Bool × Option AuthError :=
  match checkAuthorise (s.inst p).useragent params with
  | .error e => (s, false, some e)
  | .ok buf =>
    match s.generateUser c p buf with
    | (t, none) => (t.modify p fun i => { i with dropped := true }, false, some .userLimit)
    | (t, some u) =>
      let t := t.modify p fun i => { i with workername := some buf }
      if (t.user u).rateLimited now then
        ((t.modifyUser u fun user => { user with throttled := true }).modify p fun i =>
          { i with dropped := true }, false, none)
      else
        let ret := (t.user u).mayAuthorise c
        let err := if !ret ∧ looksLikeAddress c.chain u then some .invalidAddress else none
        (t.clientAuth p u now ret, ret, err)

/-- The authoriser takes the next request off `sauthq`, and
`preauth_ref_instance_by_id` gives it the instance. -/
def preauth : InstanceData :=
  match s.sauthq with
  | [] => s
  | (id, params) :: rest =>
    let t := { s with sauthq := rest }
    match t.instanceById id with
    | none => t
    | some p =>
      if (t.inst p).dropped || (t.inst p).authorising || (t.inst p).authorised then t
      else
        { t.modify p fun i => { i with ref := i.ref + 1, authorising := true } with
          authjob := some (p, params) }

/-- The rest of `sauth_process`, up to the release of the reference: a client of a
trusted server is not kept. -/
def sauthProcess (c : InstanceConf) (now : Nat) : InstanceData :=
  match s.authjob with
  | none => s
  | some (p, params) =>
    let (t, ret, _) := InstanceData.parseAuthorise { s with authjob := none } c p now params
    if ret ∧ (t.inst p).remote then t.modify p fun i => { i with dropped := true } else t

/-! ### Sessions of the other protocol -/

/-- The instance of a channel, with the next extranonce for its prefix
(`stratifier_sv2_alloc_enonce1` and the first part of
`stratifier_sv2_open_session`). -/
def sv2AddInstance (c : InstanceConf) (id server : Nat) : InstanceData × Nat :=
  let t := s.nextEnonce1
  let enonce1bin := leBytes c.ck.nonce1length t.enonce1_64
  let (t, p) := t.stratumRecruit id server
  let (t, p) := t.stratumInsert p
  (t.modify p fun i =>
    { i with
      ref := i.ref + 1
      subscribed := true
      sv2 := true
      useragent := some [115, 118, 50]
      enonce1bin
      enonce1_64 := leNat enonce1bin }, p)

/-- `stratifier_sv2_open_session` -/
def sv2OpenSession (c : InstanceConf) (id server now : Nat) (userIdentity : Bytes) : InstanceData :=
  let (t, p) := s.sv2AddInstance c id server
  match t.generateUser c p userIdentity with
  | (t, none) => (t.modify p fun i => { i with dropped := true }).decInstanceRef p
  | (t, some u) =>
    let t := t.modify p fun i => { i with workername := some userIdentity }
    if c.ck.btcsolo ∧ (t.user u).btcaddress = false then
      (t.modify p fun i => { i with dropped := true }).decInstanceRef p
    else (t.clientAuth p u now true).decInstanceRef p

/-- `stratifier_sv2_close_session` -/
def sv2CloseSession (id : Nat) : InstanceData :=
  match s.instanceById id with
  | none => s
  | some p =>
    if (s.inst p).dropped then s
    else
      (s.modify p fun i => { i with ref := i.ref + 1, dropped := true }).decInstanceRef p

end InstanceData

end CashStratum
