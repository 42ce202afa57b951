/-
CashStratum/ShareTable.lean

The table of share hashes of the stratifier: `new_share`, which refuses a hash it
knows, `age_share_hashtable` and `purge_share_hashtable`, which forget the shares
of old workbases, and what calls them (`add_base`, `parse_submit`,
`stratifier_sv2_submit_share`, `stratifier_sv2_account_share`).

The pool generates its own work here, so it numbers the workbases itself.  A step
of the model is one critical section of one thread: the update thread inside
`add_base`, or a worker that handles a share.  The threads interleave freely.

The table is a `SeenTable` of hashes filed under workbase ids
(`shareRun_table`), so `newShare_once_iff` says which runs credit no hash twice:
those in which no hash is presented again after the workbase it was first filed
under has been aged or passed by a block change.  Nothing in the acceptance rules
ensures that: a custom job outlives the workbase its shares are filed under
(`customShare_credited_twice`).
-/
import CashStratum.SeenTable
import CashStratum.Workbase

namespace CashStratum

/-! ### State -/

/-- The fields of `struct genwork` the share path reads. -/
structure ShareBase where
  id : Int
  readcount : Nat
  gentime : Int
  retired : Int
  diff : ℚ
  networkDiff : ℚ
  ntime32 : UInt32
  enonce2varlen : Nat

/-- The fields of `struct stratum_instance` a share is judged by. -/
structure ShareClient where
  authorised : Bool
  diff : Int
  oldDiff : Int
  diffChangeJobId : Int
  latency : Int

/-- A share for `new_share`: its hash and the workbase id it is filed under. -/
structure Presentation where
  hash : Hash256
  wbId : Int

/-- A share submitted on a pool job.  `diffed` is what `submission_diff` returns:
the hash and its difficulty, or nothing for `SUBMISSION_NO_COINBASE`. -/
structure PoolShare where
  sv2 : Bool
  client : ShareClient
  wbId : Int
  nonce2hex : Bytes
  ntime : UInt32
  diffed : Option (Hash256 × ℚ)

/-- A share submitted on a custom job. -/
structure CustomShare where
  client : ShareClient
  wbId : Int
  hash : Hash256
  sdiff : ℚ

/-- Where a worker is between two critical sections. -/
inductive ShareWorker
  | idle
  /-- `get_workbase` succeeded. -/
  | held (share : PoolShare)
  /-- `blockchange_id` was read. -/
  | marked (share : PoolShare) (stale : Bool)
  /-- To call `new_share`, then to release the workbase if it is still held. -/
  | presenting (share : Presentation) (wb : Option Int)
  /-- To call `put_workbase`, then `new_share` if there is a share for it. -/
  | releasing (wb : Int) (share : Option Presentation)

/-- Where the update thread is inside `add_base`. -/
inductive BaseUpdater
  | idle
  /-- `removed` is out of the table of workbases; its shares are to be aged. -/
  | ageing (removed : Int) (wb gentime : Int) (rest : List Int) (newBlock : Bool)
  /-- The shares are aged; to take the lock again. -/
  | scanning (wb gentime : Int) (rest : List Int) (newBlock : Bool)
  /-- The workbases are scanned; the shares below `wb` are to be purged. -/
  | purging (wb : Int)

/-- The fields of `struct stratifier_data` the share path uses, with the threads.
`accepted` records the hashes for which `new_share` returned `true`. -/
structure ShareData where
  workbaseId : Int
  blockchangeId : Int
  lasthash : Bytes
  workbases : List ShareBase
  current : Option Int
  shares : SeenTable Hash256 Int
  updater : BaseUpdater
  workers : Nat → ShareWorker
  accepted : List Hash256

namespace ShareData

/-- The stratifier when it starts. -/
def start (randomiser : Int) : ShareData where
  workbaseId := randomiser
  blockchangeId := randomiser
  lasthash := []
  workbases := []
  current := none
  shares := []
  updater := .idle
  workers := fun _ => .idle
  accepted := []

/-- `HASH_FIND_I64(sdata->workbases, …)`. -/
def findWorkbase (sd : ShareData) (id : Int) : Option ShareBase :=
  sd.workbases.find? fun wb => wb.id = id

/-- `sdata->current_workbase`. -/
def currentWorkbase (sd : ShareData) : Option ShareBase := sd.current.bind sd.findWorkbase

/-- Change one workbase in place. -/
def modifyWorkbase (sd : ShareData) (id : Int) (f : ShareBase → ShareBase) : ShareData :=
  { sd with workbases := sd.workbases.map fun wb => if wb.id = id then f wb else wb }

/-- `put_workbase`. -/
def putWorkbase (sd : ShareData) (id : Int) : ShareData :=
  sd.modifyWorkbase id fun wb => { wb with readcount := wb.readcount - 1 }

/-- A worker moves on. -/
def setWorker (sd : ShareData) (i : Nat) (w : ShareWorker) : ShareData :=
  { sd with workers := Function.update sd.workers i w }

/-! ### The table of shares -/

/-- `new_share`. -/
def newShare (sd : ShareData) (share : Presentation) : ShareData :=
  if share.hash ∈ sd.shares.map Prod.fst then sd
  else
    { sd with
      shares := sd.shares ++ [(share.hash, share.wbId)]
      accepted := sd.accepted ++ [share.hash] }

/-- `purge_share_hashtable`. -/
def purgeShareHashtable (sd : ShareData) (wbId : Int) : ShareData :=
  { sd with shares := sd.shares.filter fun share => !decide (share.2 < wbId) }

/-- `age_share_hashtable`. -/
def ageShareHashtable (sd : ShareData) (wbId : Int) : ShareData :=
  { sd with shares := sd.shares.filter fun share => !decide (share.2 = wbId) }

/-! ### New workbases -/

/-- A workbase for `add_base`, with the time at which it is added. -/
structure NewBase where
  prevhash : Bytes
  gentime : Int
  now : Int
  diff : ℚ
  nbitsDiff : ℚ
  ntime32 : UInt32
  enonce2varlen : Nat

/-- The scan of `add_base` for a workbase that is older than ten minutes and that
nobody reads: its id, and what is left to scan. -/
def ageScan (sd : ShareData) (wb gentime : Int) : List Int → Option (Int × List Int)
  | [] => none
  | id :: rest =>
    if sd.workbases.length < 3 then none
    else if wb = id then ageScan sd wb gentime rest
    else
      match sd.findWorkbase id with
      | none => ageScan sd wb gentime rest
      | some tmp =>
        if tmp.readcount ≠ 0 then ageScan sd wb gentime rest
        else if tmp.gentime < gentime - 600 then some (id, rest)
        else ageScan sd wb gentime rest

/-- `add_base` under the workbase lock, from a place in its scan: it takes one old
workbase out of the table, or it is through with the scan. -/
def scanWorkbases (sd : ShareData) (wb gentime : Int) (rest : List Int) (newBlock : Bool) :
    ShareData :=
  match sd.ageScan wb gentime rest with
  | some (id, rest) =>
    { sd with
      workbases := sd.workbases.filter fun tmp => !decide (tmp.id = id)
      updater := .ageing id wb gentime rest newBlock }
  | none => { sd with updater := if newBlock then .purging wb else .idle }

/-- `add_base` up to the first point at which it drops the workbase lock. -/
def addBase (sd : ShareData) (nb : NewBase) : ShareData :=
  let id := sd.workbaseId
  let newBlock := decide (nb.prevhash.take 64 ≠ sd.lasthash.take 64)
  let wb : ShareBase :=
    { id := id
      readcount := 0
      gentime := nb.gentime
      retired := 0
      diff := nb.diff
      networkDiff := if nb.nbitsDiff < 1 then 1 else nb.nbitsDiff
      ntime32 := nb.ntime32
      enonce2varlen := nb.enonce2varlen }
  let retired := sd.workbases.map fun tmp =>
    if sd.current = some tmp.id then { tmp with retired := nb.now } else tmp
  let sd' : ShareData :=
    { sd with
      workbaseId := id + 1
      blockchangeId := if newBlock then id else sd.blockchangeId
      lasthash := if newBlock then nb.prevhash else sd.lasthash
      workbases := retired ++ [wb]
      current := some id }
  sd'.scanWorkbases id nb.gentime (sd'.workbases.map ShareBase.id) newBlock

/-- The next critical section of `add_base`. -/
def updateStep (sd : ShareData) : ShareData :=
  match sd.updater with
  | .idle => sd
  | .ageing removed wb gentime rest newBlock =>
    { sd.ageShareHashtable removed with updater := .scanning wb gentime rest newBlock }
  | .scanning wb gentime rest newBlock => sd.scanWorkbases wb gentime rest newBlock
  | .purging wb => { sd.purgeShareHashtable wb with updater := .idle }

/-! ### Shares on pool jobs -/

/-- The difficulty a share has to meet: the old one until the workbase it was
retargeted at. -/
def shareDiff (share : PoolShare) : Int :=
  if share.sv2 ∧ (share.wbId = 0 ∨ share.client.oldDiff ≤ 0) then share.client.diff
  else if share.wbId < share.client.diffChangeJobId then
    min share.client.diff share.client.oldDiff
  else share.client.diff

/-- The front of `parse_submit` and of `stratifier_sv2_submit_share`, up to
`get_workbase`: `none` when the share is rejected there. -/
def getWorkbase (sd : ShareData) (share : PoolShare) : Option ShareData :=
  if share.sv2 ∧ ¬share.client.authorised then none
  else if ¬share.sv2 ∧ sd.current = none then none
  else
    match sd.findWorkbase share.wbId with
    | none => none
    | some _ => some (sd.modifyWorkbase share.wbId fun wb => { wb with readcount := wb.readcount + 1 })

/-- `ms_tvdiff`, with both times in milliseconds. -/
def msTvdiff (after before : Int) : Int := min (after - before) 3600000

/-- Ntime cannot be less, but forward rolling up to a maximum is allowed. -/
def ntimeOk (wb : ShareBase) (ntime : UInt32) : Bool :=
  wb.ntime32 ≤ ntime && ntime ≤ wb.ntime32 + 7000

/-- `parse_submit` after the hash is known: the share it hands to `new_share`.  A
stale share that is credited to nobody is handed over too, once, for the rate
estimates. -/
def parseSubmitPresents (sd : ShareData) (share : PoolShare) (wb : ShareBase) (stale : Bool)
    (now : Int) : Option Presentation :=
  match share.diffed with
  | none => none
  | some (hash, sdiff) =>
    let meetsDiff := decide ((shareDiff share : ℚ) ≤ sdiff)
    let presented : Option Presentation :=
      if meetsDiff then some { hash := hash, wbId := share.wbId } else none
    let late := stale && !(decide (share.client.latency ≠ 0) &&
      decide (msTvdiff now wb.retired < share.client.latency))
    let submit := decide (wb.diff ≤ sdiff) ||
      sd.currentWorkbase.any fun cur => decide (cur.networkDiff ≤ sdiff)
    -- `SE_STALE`: `invalid` stays set and only `rate_submit` is left
    if late then (if submit then presented else none)
    else if !ntimeOk wb share.ntime then none
    else presented

/-- `stratifier_sv2_submit_share` after the hash is known. -/
def sv2SubmitPresents (share : PoolShare) (wb : ShareBase) (stale : Bool) : Option Presentation :=
  let n2len := if wb.enonce2varlen < 1 then 1 else min wb.enonce2varlen 31
  if share.nonce2hex ≠ [] ∧ (share.nonce2hex.length ≠ n2len * 2 ∨ ¬validhex share.nonce2hex) then
    none
  else
    match share.diffed with
    | none => none
    | some (hash, sdiff) =>
      if stale then none
      else if !ntimeOk wb share.ntime then none
      else if (shareDiff share : ℚ) ≤ sdiff then some { hash := hash, wbId := share.wbId }
      else none

/-- Judge a share whose workbase is held: an SV1 share releases the workbase before
`new_share`, an SV2 share after it. -/
def judge (sd : ShareData) (share : PoolShare) (stale : Bool) (now : Int) : ShareWorker :=
  match sd.findWorkbase share.wbId with
  | none => .idle
  | some wb =>
    if share.sv2 then
      match sv2SubmitPresents share wb stale with
      | some p => .presenting p (some share.wbId)
      | none => .releasing share.wbId none
    else .releasing share.wbId (parseSubmitPresents sd share wb stale now)

/-! ### Shares on custom jobs -/

/-- `stratifier_sv2_account_share`: the share it hands to `new_share`.  A job without
a workbase is filed under the current one. -/
def accountSharePresents (sd : ShareData) (share : CustomShare) : Option Presentation :=
  if ¬share.client.authorised then none
  else
    let wbId := if share.wbId = 0 then sd.current.getD 0 else share.wbId
    let diff :=
      if wbId ≠ 0 ∧ wbId < share.client.diffChangeJobId ∧ 0 < share.client.oldDiff then
        min share.client.diff share.client.oldDiff
      else share.client.diff
    if (diff : ℚ) ≤ share.sdiff then some { hash := share.hash, wbId := wbId } else none

/-! ### Runs -/

/-- The next critical section of a worker. -/
def workerStep (sd : ShareData) (i : Nat) (now : Int) : ShareData :=
  match sd.workers i with
  | .idle => sd
  | .held share => sd.setWorker i (.marked share (decide (share.wbId < sd.blockchangeId)))
  | .marked share stale => sd.setWorker i (sd.judge share stale now)
  | .presenting share wb =>
    (sd.newShare share).setWorker i
      (match wb with
        | some id => .releasing id none
        | none => .idle)
  | .releasing wb share =>
    (sd.putWorkbase wb).setWorker i
      (match share with
        | some p => .presenting p none
        | none => .idle)

end ShareData

open ShareData

/-- What can happen next. -/
inductive ShareEvent
  /-- The update thread enters `add_base`. -/
  | addBase (nb : NewBase)
  /-- The update thread goes on. -/
  | update
  /-- A worker takes a share on a pool job. -/
  | submit (worker : Nat) (share : PoolShare)
  /-- A worker takes a share on a custom job. -/
  | account (worker : Nat) (share : CustomShare)
  /-- A worker goes on. -/
  | work (worker : Nat) (now : Int)

/-- One step.  Calls of `add_base` are serialised, and a worker handles one share at
a time. -/
def shareStep (sd : ShareData) : ShareEvent → ShareData
  | .addBase nb =>
    match sd.updater with
    | .idle => sd.addBase nb
    | _ => sd
  | .update => sd.updateStep
  | .submit i share =>
    match sd.workers i with
    | .idle =>
      match sd.getWorkbase share with
      | some sd' => sd'.setWorker i (.held share)
      | none => sd
    | _ => sd
  | .account i share =>
    match sd.workers i with
    | .idle =>
      match sd.accountSharePresents share with
      | some p => sd.setWorker i (.presenting p none)
      | none => sd
    | _ => sd
  | .work i now => sd.workerStep i now

/-- A run. -/
def shareRun (sd : ShareData) (events : List ShareEvent) : ShareData :=
  events.foldl shareStep sd

/-! ### The table along a run -/

/-- What a step does to the table of shares, read off the state before it. -/
def tableOp (sd : ShareData) : ShareEvent → List (SeenOp Hash256 Int)
  | .work i _ =>
    match sd.workers i with
    | .presenting share _ => [.present share.hash share.wbId]
    | _ => []
  | .update =>
    match sd.updater with
    | .ageing removed _ _ _ _ => [.forget fun id => decide (id = removed)]
    | .purging wb => [.forget fun id => decide (id < wb)]
    | _ => []
  | _ => []

/-- What a run does to the table of shares. -/
def tableOps : ShareData → List ShareEvent → List (SeenOp Hash256 Int)
  | _, [] => []
  | sd, e :: events => tableOp sd e ++ tableOps (shareStep sd e) events

/-- The table after `ops`, and the hashes accepted on the way. -/
structure FollowsOps (sd sd' : ShareData) (ops : List (SeenOp Hash256 Int)) : Prop where
  shares : sd'.shares = ops.foldl SeenOp.after sd.shares
  accepted : sd'.accepted = sd.accepted ++ acceptedFrom sd.shares ops

/-- A step that leaves the table alone. -/
theorem FollowsOps.unchanged {sd sd' : ShareData} (hshares : sd'.shares = sd.shares)
    (haccepted : sd'.accepted = sd.accepted) : FollowsOps sd sd' [] :=
  ⟨hshares, by rw [haccepted, acceptedFrom, List.append_nil]⟩

theorem FollowsOps.append {sd sd' sd'' : ShareData} {ops ops' : List (SeenOp Hash256 Int)}
    (h : FollowsOps sd sd' ops) (h' : FollowsOps sd' sd'' ops') :
    FollowsOps sd sd'' (ops ++ ops') := by
  constructor
  · rw [h'.shares, h.shares, List.foldl_append]
  · rw [h'.accepted, h.accepted, acceptedFrom_append, ← h.shares, List.append_assoc]

namespace ShareData

/-- `new_share` presents. -/
theorem newShare_followsOps (sd : ShareData) (share : Presentation) :
    FollowsOps sd (sd.newShare share) [.present share.hash share.wbId] := by
  by_cases h : share.hash ∈ sd.shares.map Prod.fst
  · constructor
    · simp [newShare, SeenOp.after, h]
    · simp [newShare, acceptedFrom, SeenOp.accepts, h]
  · constructor
    · simp [newShare, SeenOp.after, h]
    · simp [newShare, acceptedFrom, SeenOp.accepts, h]

/-- `age_share_hashtable` forgets one workbase. -/
theorem ageShareHashtable_followsOps (sd : ShareData) (wbId : Int) :
    FollowsOps sd (sd.ageShareHashtable wbId) [.forget fun id => decide (id = wbId)] :=
  ⟨rfl, by simp [ageShareHashtable, acceptedFrom, SeenOp.accepts]⟩

/-- `purge_share_hashtable` forgets all workbases before one. -/
theorem purgeShareHashtable_followsOps (sd : ShareData) (wbId : Int) :
    FollowsOps sd (sd.purgeShareHashtable wbId) [.forget fun id => decide (id < wbId)] :=
  ⟨rfl, by simp [purgeShareHashtable, acceptedFrom, SeenOp.accepts]⟩

/-- The scan does not touch the shares. -/
theorem scanWorkbases_followsOps (sd : ShareData) (wb gentime : Int) (rest : List Int)
    (newBlock : Bool) : FollowsOps sd (sd.scanWorkbases wb gentime rest newBlock) [] := by
  apply FollowsOps.unchanged <;> · rw [scanWorkbases]; split <;> rfl

theorem addBase_followsOps (sd : ShareData) (nb : NewBase) :
    FollowsOps sd (sd.addBase nb) [] := by
  obtain ⟨hshares, haccepted⟩ := scanWorkbases_followsOps _ sd.workbaseId nb.gentime _ _
  exact ⟨hshares, haccepted⟩

theorem updateStep_followsOps (sd : ShareData) :
    FollowsOps sd sd.updateStep (tableOp sd .update) := by
  cases hup : sd.updater with
  | idle =>
    simp only [updateStep, tableOp, hup]
    exact .unchanged rfl rfl
  | ageing removed wb gentime rest newBlock =>
    simp only [updateStep, tableOp, hup]
    exact (ageShareHashtable_followsOps sd removed).append (.unchanged rfl rfl)
  | scanning wb gentime rest newBlock =>
    simp only [updateStep, tableOp, hup]
    exact scanWorkbases_followsOps sd wb gentime rest newBlock
  | purging wb =>
    simp only [updateStep, tableOp, hup]
    exact (purgeShareHashtable_followsOps sd wb).append (.unchanged rfl rfl)

theorem workerStep_followsOps (sd : ShareData) (i : Nat) (now : Int) :
    FollowsOps sd (sd.workerStep i now) (tableOp sd (.work i now)) := by
  cases hw : sd.workers i with
  | presenting share wb =>
    simp only [workerStep, tableOp, hw]
    exact (newShare_followsOps sd share).append (.unchanged rfl rfl)
  | idle | held share | marked share stale | releasing wb share =>
    simp only [workerStep, tableOp, hw]
    exact .unchanged rfl rfl

end ShareData

/-- A step does to the table what `tableOp` says. -/
theorem shareStep_followsOps (sd : ShareData) (e : ShareEvent) :
    FollowsOps sd (shareStep sd e) (tableOp sd e) := by
  cases e with
  | addBase nb =>
    show FollowsOps sd (shareStep sd (.addBase nb)) []
    rw [shareStep]
    split
    · exact addBase_followsOps sd nb
    · exact .unchanged rfl rfl
  | update => exact updateStep_followsOps sd
  | submit i share =>
    show FollowsOps sd (shareStep sd (.submit i share)) []
    rw [shareStep]
    split
    · split
      · next sd' hget =>
          -- `get_workbase` counts a reader and nothing else
          simp only [getWorkbase] at hget
          split_ifs at hget
          split at hget
          · cases hget
          · obtain rfl := Option.some.inj hget
            exact .unchanged rfl rfl
      · exact .unchanged rfl rfl
    · exact .unchanged rfl rfl
  | account i share =>
    show FollowsOps sd (shareStep sd (.account i share)) []
    rw [shareStep]
    split
    · split <;> exact .unchanged rfl rfl
    · exact .unchanged rfl rfl
  | work i now => exact workerStep_followsOps sd i now

theorem shareRun_followsOps (sd : ShareData) (events : List ShareEvent) :
    FollowsOps sd (shareRun sd events) (tableOps sd events) := by
  induction events generalizing sd with
  | nil => exact .unchanged rfl rfl
  | cons e events ih => exact (shareStep_followsOps sd e).append (ih (shareStep sd e))

/-- The table of shares is the table of the hashes presented and forgotten. -/
theorem shareRun_table (randomiser : Int) (events : List ShareEvent) :
    (shareRun (.start randomiser) events).shares =
        seenTable (tableOps (.start randomiser) events) ∧
      (shareRun (.start randomiser) events).accepted =
        accepted (tableOps (.start randomiser) events) := by
  obtain ⟨hshares, haccepted⟩ := shareRun_followsOps (.start randomiser) events
  exact ⟨hshares, haccepted⟩

/-- **No hash is credited twice**, exactly when none is presented again after the
workbase under which it was first filed has been aged or passed by a block
change. -/
theorem newShare_once_iff (randomiser : Int) (events : List ShareEvent) :
    (shareRun (.start randomiser) events).accepted.Nodup ↔
      Retained (tableOps (.start randomiser) events) := by
  rw [(shareRun_table randomiser events).2]
  exact accepted_nodup_iff _

/-! ### A custom share that is credited twice -/

/-- A new template on one block, `t` seconds after the first. -/
def laterBase (t : Int) : NewBase where
  prevhash := List.replicate 64 0x30
  gentime := t
  now := 1000 * t
  diff := 1
  nbitsDiff := 100
  ntime32 := 0
  enonce2varlen := 8

/-- A share on a custom job that was noted while workbase 7 was current. -/
def outlivingShare : CustomShare where
  client :=
    { authorised := true
      diff := 1
      oldDiff := 1
      diffChangeJobId := 0
      latency := 0 }
  wbId := 7
  hash := .zero
  sdiff := 2

/-- Workbase 7 and its successors on one block; when the third arrives, 7 is older
than ten minutes.  The share is submitted before and after. -/
def outlivingRun : List ShareEvent :=
  [.addBase (laterBase 0), .update, .account 0 outlivingShare, .work 0 0,
    .addBase (laterBase 300), .addBase (laterBase 601), .update, .update,
    .account 0 outlivingShare, .work 0 0]

/-- The share of `outlivingRun` is credited twice. -/
theorem customShare_credited_twice :
    (shareRun (.start 7) outlivingRun).accepted = [.zero, .zero] := by
  decide

/-- Not every run credits each hash once. -/
theorem newShare_not_once :
    ¬ ∀ events : List ShareEvent, (shareRun (.start 7) events).accepted.Nodup := by
  intro h
  have htwice := h outlivingRun
  rw [customShare_credited_twice] at htwice
  exact absurd htwice (by decide)

end CashStratum
