/-
CashStratum/ProxyClients.lean

The clients of a proxying pool.  Every upstream connection is a subproxy with work of its
own; a client that subscribes is bound to one of them (`parseSubscribe`) and gets an enonce1
there: the constant part that the upstream granted and the low bytes of a 64-bit counter
that all subproxies share (`newEnonce1`).  The upstream subscribes and notifies
(`updateSubscribe`, `updateNotify`), dies (`deadProxyid`), and unused subproxies are freed or
have their count of clients begun again (`reapProxies`).

`sdata->proxies` and the hash of subproxies of each are lists in the order of their
iteration.  A client is on the list from its subscription to `__kill_instance`; messages to
clients and to the generator (`reconnect_client`, `generator_recruit`) are left out, and what
comes of them is an event of its own.  An upstream subscription is numbered, which the code
has no need of, so that a client can be said to be bound under it.
-/
import CashStratum.KeyedList
import CashStratum.ByteString
import CashStratum.Run
import Mathlib.Data.List.Sort

namespace CashStratum

/-! ### Subproxies and clients -/

/-- What a client takes of the workbase of its subproxy. -/
structure ProxyWb where
  enonce1constbin : Bytes
  enonce1varlen : Nat
deriving DecidableEq

/-- The length of the client's part, as `__fill_enonce1data` bounds it. -/
def ProxyWb.varlen (wb : ProxyWb) : Nat :=
  min (min wb.enonce1varlen 8) (16 - min wb.enonce1constbin.length 16)

/-- `__fill_enonce1data`. -/
def ProxyWb.fillEnonce1data (wb : ProxyWb) (enonce1_64 : UInt64) : Bytes :=
  wb.enonce1constbin.take 16 ++ leBytes wb.varlen enonce1_64.toNat

/-- One upstream connection, `proxy_t`.  A parent proxy is the subproxy 0 of itself. -/
structure Subproxy where
  id : Int
  subid : Int
  userid : Int := 0
  global : Bool := false
  subscribed : Bool := false
  dead : Bool := false
  deleted : Bool := false
  enonce1bin : Bytes := []
  nonce2len : Nat := 0
  enonce1varlen : Nat := 0
  enonce2varlen : Nat := 0
  /-- Clients bound since the count was begun. -/
  clients : Nat := 0
  maxClients : Nat := 0
  boundClients : Int := 0
  currentWorkbase : Option ProxyWb := none
  /-- The number of the upstream subscription, 0 before the first. -/
  subscription : Nat := 0

/-- A subproxy is found by the id of its parent and its own. -/
def Subproxy.key (sub : Subproxy) : Int × Int := (sub.id, sub.subid)

/-- An entry of `sdata->proxies`: what only a parent proxy uses. -/
structure ParentProxy where
  id : Int
  priority : Int64
  subproxyCount : Int

/-- What `new_enonce1` leaves in a client, and on which terms. -/
structure Binding where
  proxy : Int × Int
  enonce1_64 : UInt64
  enonce1bin : Bytes
  /-- The workbase it was filled from. -/
  workbase : ProxyWb
  /-- The subscription of the subproxy at the time, and its bound on clients. -/
  subscription : Nat
  maxClients : Nat

/-- A subscribed stratum instance; one that was refused has no binding. -/
structure ProxyClient where
  id : Int
  binding : Option Binding

/-- The stratifier's data in proxy mode. -/
structure ProxySdata where
  subproxies : List Subproxy := []
  proxies : List ParentProxy := []
  /-- `sdata->proxy`, the current global proxy. -/
  proxy : Option Int := none
  clients : List ProxyClient := []
  enonce1_64 : UInt64
  /-- How many upstream subscriptions there were. -/
  subscriptions : Nat := 0

/-- A client is bound to a subproxy, in `new_enonce1`. -/
def Subproxy.bindClient (sub : Subproxy) : Subproxy :=
  { sub with clients := sub.clients + 1, boundClients := sub.boundClients + 1 }

/-- A client of a subproxy is killed.  It is not taken from the count `clients`. -/
def Subproxy.killClient (sub : Subproxy) : Subproxy :=
  { sub with boundClients := sub.boundClients - 1 }

/-- A subproxy that is to be freed: it is no parent, has died and has no clients. -/
def Subproxy.retired (sub : Subproxy) : Bool :=
  decide (sub.subid ≠ 0) && decide (sub.boundClients = 0) && sub.dead

/-- A live subproxy without clients is used again from the start. -/
def Subproxy.beginAgain (sub : Subproxy) : Subproxy :=
  if sub.boundClients = 0 ∧ !sub.dead then { sub with clients := 0 } else sub

/-- What the generator says of an upstream subscription.  It has checked the lengths:
`enonce1` has at most 15 bytes. -/
structure SubscribeMsg where
  proxy : Int
  subproxy : Int
  global : Bool
  userid : Int
  enonce1 : Bytes
  nonce2len : Nat

/-- A subproxy of which a workbase is in use, and whether the current one is. -/
structure Busy where
  proxy : Int × Int
  current : Bool

namespace ProxySdata

/-- `existing_subproxy`. -/
def existing (s : ProxySdata) (id subid : Int) : Option Subproxy :=
  s.subproxies.find? fun sub => sub.key = (id, subid)

/-- The bindings of the live clients. -/
def bindings (s : ProxySdata) : List Binding := s.clients.filterMap (·.binding)

/-- One subproxy is written to. -/
def modify (s : ProxySdata) (key : Int × Int) (f : Subproxy → Subproxy) : ProxySdata :=
  { s with subproxies := s.subproxies.map fun sub => if sub.key = key then f sub else sub }

/-! ### Priorities -/

/-- `prio_sort`, in `HASH_SORT`. -/
def prioSort (proxies : List ParentProxy) : List ParentProxy :=
  proxies.insertionSort fun a b => a.priority - b.priority ≤ 0

/-- `masked_inc`. -/
def maskedInc (value mask : Int64) : Int64 := ((value &&& ~~~mask) + 1) ||| mask

/-- The second loop of `__set_proxy_prio`, from the entry whose place is taken. -/
def pushPrios (mask : Int64) : Int64 → List ParentProxy → List ParentProxy
  | _, [] => []
  | nextPrio, p :: rest =>
    if p.priority > nextPrio then p :: rest
    else { p with priority := maskedInc p.priority mask } :: pushPrios mask (nextPrio + 1) rest

/-- Both loops: the entries before the one that has the priority are left alone. -/
def makeRoom (mask priority : Int64) : List ParentProxy → List ParentProxy
  | [] => []
  | p :: rest =>
    if p.priority > priority then p :: rest
    else if p.priority = priority then pushPrios mask (maskedInc priority mask) (p :: rest)
    else p :: makeRoom mask priority rest

/-- The priorities that `__set_proxy_prio` leaves for the sort.  The userid is the high bits of
the priority, and a subproxy is not on the list itself. -/
def assignPrio (id subid userid priority : Int) (proxies : List ParentProxy) :
    List ParentProxy :=
  let mask := Int64.ofInt userid <<< 32
  let priority := Int64.ofInt priority ||| mask
  (makeRoom mask priority proxies).map fun p =>
    if subid = 0 ∧ p.id = id then { p with priority } else p

/-- `__set_proxy_prio`, for a proxy of `userid`. -/
def setProxyPrio (s : ProxySdata) (id subid userid priority : Int) : ProxySdata :=
  { s with proxies := prioSort (assignPrio id subid userid priority s.proxies) }

/-! ### The upstream -/

/-- `__subproxies_alive`. -/
def subproxiesAlive (s : ProxySdata) (id : Int) : Bool :=
  s.subproxies.any fun sub => decide (sub.id = id) && !sub.dead

/-- `check_bestproxy`. -/
def checkBestproxy (s : ProxySdata) : ProxySdata :=
  let current := s.proxy.filter s.subproxiesAlive
  match s.proxies.find? fun p => s.subproxiesAlive p.id with
  | none => { s with proxy := current }
  | some p =>
    match s.existing p.id 0 with
    | none => { s with proxy := current }
    | some parent => { s with proxy := if parent.global then some p.id else current }

/-- `dead_proxyid`; the clients that are asked to reconnect are left out. -/
def deadProxyid (s : ProxySdata) (id subid : Int) (replaced deleted : Bool) : ProxySdata :=
  match s.existing id subid with
  | none => s
  | some sub =>
    let s := s.modify (id, subid) fun sub => { sub with dead := true, deleted }
    if !replaced && sub.global then s.checkBestproxy else s

/-- `__proxy_by_id`. -/
def proxyById (s : ProxySdata) (id : Int) : ProxySdata :=
  match s.existing id 0 with
  | some _ => s
  | none =>
    { s with
      subproxies := s.subproxies ++ [{ id, subid := 0 }]
      proxies := prioSort
        (s.proxies ++ [{ id, priority := 0x00FFFFFFFFFFFFFF, subproxyCount := 1 }]) }

/-- `subproxy_count` of a parent is added to. -/
def addCount (id n : Int) (proxies : List ParentProxy) : List ParentProxy :=
  proxies.map fun p => if p.id = id then { p with subproxyCount := p.subproxyCount + n } else p

/-- `__subproxy_by_id`. -/
def subproxyById (s : ProxySdata) (id subid : Int) : ProxySdata :=
  match s.existing id subid with
  | some _ => s
  | none =>
    { s with
      subproxies := s.subproxies ++ [{ id, subid }]
      proxies := addCount id 1 s.proxies }

/-- The lengths of the client's part and of the miner's, of `nonce2len` bytes granted, when
the operator asks for `nonce2length` (0 for no wish). -/
def autoSplit (nonce2length nonce2len : Nat) : Nat × Nat :=
  if nonce2length ≠ 0 then
    let en2 := min (min nonce2length 8) nonce2len
    (nonce2len - en2, en2)
  else if 8 < nonce2len then (nonce2len - 8, 8)
  else if 7 < nonce2len then (4, nonce2len - 4)
  else if 5 < nonce2len then (2, nonce2len - 2)
  else if 3 < nonce2len then (1, nonce2len - 1)
  else (0, nonce2len)

/-- The split with its two bounds: the 8 bytes of `enonce1_64`, and the 16 of `enonce1bin`
that the constant part leaves. -/
def splitNonce2len (nonce2length constlen nonce2len : Nat) : Nat × Nat :=
  let (var, en2) := autoSplit nonce2length nonce2len
  let (var, en2) := if 8 < var then (8, nonce2len - 8) else (var, en2)
  if 16 < constlen + var then (16 - constlen, nonce2len - (16 - constlen)) else (var, en2)

/-- `max_clients` of a subproxy. -/
def maxClients (enonce1varlen : Nat) : Nat :=
  if 0 < enonce1varlen ∧ enonce1varlen < 8 then 2 ^ (enonce1varlen * 8)
  else if 8 ≤ enonce1varlen then 0x7FFFFFFFFFFFFFFF / 2
  else 1

/-- What `update_subscribe` writes. -/
def subscribeProxy (nonce2length : Nat) (m : SubscribeMsg) (subscription : Nat)
    (sub : Subproxy) : Subproxy :=
  let split := splitNonce2len nonce2length m.enonce1.length m.nonce2len
  { sub with
    dead := false
    global := m.global
    userid := m.userid
    subscribed := true
    enonce1bin := m.enonce1
    nonce2len := m.nonce2len
    enonce1varlen := split.1
    enonce2varlen := split.2
    maxClients := maxClients split.1
    clients := 0
    subscription }

/-- `check_proxy`, but for the clients that are asked to reconnect. -/
def checkProxy (s : ProxySdata) (global : Bool) : ProxySdata :=
  if global then s.checkBestproxy else s

/-- `update_subscribe`. -/
def updateSubscribe (nonce2length : Nat) (s : ProxySdata) (m : SubscribeMsg) : ProxySdata :=
  let old := s.existing m.proxy m.subproxy
  let s := if old.isSome then s.deadProxyid m.proxy m.subproxy true false
    else (s.proxyById m.proxy).subproxyById m.proxy m.subproxy
  let s := { s with subscriptions := s.subscriptions + 1 }
  let s := s.modify (m.proxy, m.subproxy) (subscribeProxy nonce2length m s.subscriptions)
  let s := if old.isSome then s else s.setProxyPrio m.proxy m.subproxy m.userid m.proxy
  s.checkProxy m.global

/-- `update_notify`, of a job that can be read. -/
def updateNotify (s : ProxySdata) (id subid : Int) : ProxySdata :=
  match s.existing id subid with
  | none => s
  | some sub =>
    if !sub.subscribed then s
    else
      let s := s.modify (id, subid) fun sub =>
        { sub with currentWorkbase := some ⟨sub.enonce1bin, sub.enonce1varlen⟩ }
      s.checkProxy sub.global

/-- `setproxy`, of the API. -/
def setproxy (s : ProxySdata) (id priority : Int) : ProxySdata :=
  match s.existing id 0 with
  | none => s
  | some parent => s.setProxyPrio id 0 parent.userid priority

/-! ### Reaping -/

/-- `free_proxy`.  A subproxy that has a workbase in use stays, with what is in use. -/
def freeProxy (busy : List Busy) (sub : Subproxy) : Option Subproxy :=
  (busy.find? fun b => b.proxy = sub.key).map fun b =>
    if b.current then sub else { sub with currentWorkbase := none }

/-- The inner loop of `reap_proxies`.  One that could not be freed is added back, at the
end. -/
def reapSubproxies (busy : List Busy) (s : ProxySdata) (id : Int) : ProxySdata :=
  let leaves := fun sub : Subproxy => decide (sub.id = id) && Subproxy.retired sub
  let back := (s.subproxies.filter leaves).filterMap (freeProxy busy)
  { s with
    subproxies :=
      ((s.subproxies.filter fun sub => !leaves sub).map fun sub =>
        if sub.id = id then Subproxy.beginAgain sub else sub) ++ back
    proxies := addCount id (back.length - (s.subproxies.filter leaves).length) s.proxies }

/-- Its end: a deleted parent that has no subproxies and no clients goes too. -/
def reapParent (busy : List Busy) (s : ProxySdata) (id : Int) : ProxySdata :=
  match s.proxies.find? fun p => p.id = id, s.existing id 0 with
  | some entry, some parent =>
    if !parent.deleted || 1 < entry.subproxyCount || parent.boundClients ≠ 0 then s
    else
      let current := if s.proxy = some id then none else s.proxy
      let subproxies := s.subproxies.filter fun sub => sub.key ≠ (id, 0)
      let proxies := s.proxies.filter fun p => p.id ≠ id
      match freeProxy busy parent with
      | none => { s with subproxies, proxies, proxy := current }
      | some parent =>
        { s with
          subproxies := subproxies ++ [parent]
          proxies := proxies ++ [entry]
          proxy := if current.isNone && parent.global && !parent.dead then some id
            else current }
  | _, _ => s

/-- `reap_proxies`, each parent once.  The loop of the source comes again to what it puts back at
the end of the list: one parent it puts back there a second time, and while two are busy it goes
round them and does not end. -/
def reapProxies (busy : List Busy) (s : ProxySdata) : ProxySdata :=
  (s.proxies.map (·.id)).foldl (fun s id => reapParent busy (reapSubproxies busy s id) id) s

/-! ### Clients -/

/-- `proxy_free_slots`. -/
def freeSlots (sub : Subproxy) : Nat := sub.maxClients - sub.clients

/-- `__best_subproxy`: the first that is alive and has work and room. -/
def bestSubproxy (s : ProxySdata) (id : Int) : Option Subproxy :=
  s.subproxies.find? fun sub =>
    decide (sub.id = id) && !sub.dead && sub.currentWorkbase.isSome && decide (0 < freeSlots sub)

/-- The loop of `select_sdata`, from the best found so far. -/
def selectFrom (s : ProxySdata) (userid : Int) : Option Subproxy → List ParentProxy →
    Option Subproxy
  | best, [] => best
  | best, p :: rest =>
    match s.existing p.id 0 with
    | none => selectFrom s userid best rest
    | some parent =>
      if parent.userid < userid then selectFrom s userid best rest
      else if userid < parent.userid then best
      else match s.bestSubproxy p.id with
        | none => selectFrom s userid none rest
        | some sub => some sub

/-- What `select_sdata` chooses under the lock; the default is the current global proxy. -/
def selectBest (s : ProxySdata) (userid : Int) : Option Subproxy :=
  selectFrom s userid (s.proxy.bind fun id => s.existing id 0) s.proxies

/-- `select_sdata`.  With no userid the global proxy is read once more, and `none` is the
dereference of a NULL one. -/
def selectSdata (s : ProxySdata) (userid : Int) : Option (Option Subproxy) :=
  match s.selectBest userid with
  | none => some none
  | some best => if userid = 0 ∧ s.proxy = none then none else some (some best)

/-- A subproxy that has work. -/
def working (sub : Option Subproxy) : Option Subproxy :=
  sub.filter fun sub => sub.currentWorkbase.isSome

/-- The subproxy that `parse_subscribe` chooses; `userid` is what the client's session or
address tells of it, -1 for nothing.  Where the process ends, nobody is bound. -/
def chooseSubproxy (s : ProxySdata) (userid : Int) : Option Subproxy :=
  (working (s.selectSdata 0).join).map fun sub =>
    if userid = -1 then sub else (working (s.selectSdata userid).join).getD sub

/-- `new_enonce1`, for a client that goes to `sub`: the enonce1 is the next value of the
counter. -/
def newEnonce1 (s : ProxySdata) (sub : Subproxy) : Option Binding :=
  if s.proxy.isNone then none
  else if sub.maxClients ≤ sub.clients then none
  else
    sub.currentWorkbase.map fun wb =>
      let enonce1_64 := s.enonce1_64 + 1
      { proxy := sub.key
        enonce1_64
        enonce1bin := wb.fillEnonce1data enonce1_64
        workbase := wb
        subscription := sub.subscription
        maxClients := sub.maxClients }

/-- A client is bound to its subproxy. -/
def bind (s : ProxySdata) (id : Int) (b : Binding) : ProxySdata :=
  { s.modify b.proxy Subproxy.bindClient with
    clients := s.clients ++ [⟨id, some b⟩]
    enonce1_64 := b.enonce1_64 }

/-- `parse_subscribe`, in one step.  `new_enonce1` looks at `max_clients` before it takes
`instance_lock`, under which it counts the client: two that pass the test at once can be one more
than that.  A client that is refused an enonce1 has subscribed all the same. -/
def parseSubscribe (s : ProxySdata) (id userid : Int) : ProxySdata :=
  if s.clients.any fun client => client.id = id then s
  else match s.chooseSubproxy userid with
    | none => s
    | some sub =>
      match s.newEnonce1 sub with
      | none => { s with clients := s.clients ++ [⟨id, none⟩] }
      | some b => s.bind id b

/-- `__kill_instance`. -/
def killInstance (s : ProxySdata) (id : Int) : ProxySdata :=
  match s.clients.find? fun client => client.id = id with
  | none => s
  | some client =>
    let s := { s with clients := s.clients.filter fun client => client.id ≠ id }
    match client.binding with
    | none => s
    | some b =>
      s.modify b.proxy Subproxy.killClient

end ProxySdata

/-! ### Runs -/

/-- What reaches the stratifier of a proxying pool. -/
inductive ProxyEvent
  | subscribe (id userid : Int)
  | drop (id : Int)
  | reap (busy : List Busy)
  | updateSubscribe (m : SubscribeMsg)
  | updateNotify (id subid : Int)
  | deadproxy (id subid : Int) (busy : List Busy)
  | delproxy (id subid : Int) (busy : List Busy)
  | setproxy (id priority : Int)

/-- One event; `nonce2length` is the operator's. -/
def proxyStep (nonce2length : Nat) (s : ProxySdata) : ProxyEvent → ProxySdata
  | .subscribe id userid => s.parseSubscribe id userid
  | .drop id => s.killInstance id
  | .reap busy => s.reapProxies busy
  | .updateSubscribe m => s.updateSubscribe nonce2length m
  | .updateNotify id subid => s.updateNotify id subid
  | .deadproxy id subid busy => (s.deadProxyid id subid false false).reapProxies busy
  | .delproxy id subid busy => (s.deadProxyid id subid false true).reapProxies busy
  | .setproxy id priority => s.setproxy id priority

/-- The stratifier at its start; the counter begins with the time. -/
def ProxySdata.start (enonce1_64 : UInt64) : ProxySdata := { enonce1_64 }

end CashStratum
