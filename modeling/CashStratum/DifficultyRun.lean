/-
CashStratum/DifficultyRun.lean

The difficulty of a client over time (`stratifier.c`): the workbases it is given jobs
on, the shares it submits on them, and the machine of everything that happens on its
connection.

`jobs` records each workbase the client was sent together with the difficulty it had
then, to which the difficulty of its shares is compared.  No function reads it.  A client
whose authorisation is refused by the rate limit is dropped in the source, here it just
goes on.
-/
import CashStratum.Difficulty
import CashStratum.Run

namespace CashStratum

/-! ### Workbases -/

/-- The workbases of `sdata_t`.  In proxy mode the id of a workbase comes with the
notification of the upstream pool and `workbase_id` is the last one, otherwise
`workbase_id` is the next one; so an id is issued once, and the current one is the
greatest in the table. -/
structure Workbases (proxy : Bool) where
  workbaseId : Int
  blockchangeId : Int
  current : Option Int
  workbases : List Int
  blockchange_le : blockchangeId ≤ workbaseId
  issued : ∀ id ∈ workbases, id < workbaseId ∨ proxy ∧ id = workbaseId
  le_current : ∀ id ∈ workbases, ∃ last ∈ current, id ≤ last

namespace Workbases

variable {proxy : Bool} (w : Workbases proxy)

/-- The id `add_base` gives a workbase: in proxy mode the one of the notification. -/
def nextId (jobid : Int) : Int := if proxy then jobid else w.workbaseId

/-- The upstream pool numbers its notifications upwards, so an id is new. -/
theorem le_nextId {jobid : Int} (hnew : ¬(proxy ∧ jobid ≤ w.workbaseId)) :
    w.workbaseId ≤ w.nextId jobid := by
  unfold nextId
  split_ifs with hproxy
  · exact le_of_not_ge fun hle => hnew ⟨hproxy, hle⟩
  · exact le_refl w.workbaseId

/-- An id that is issued is below the next. -/
theorem lt_nextId {id jobid : Int} (hissued : id < w.workbaseId ∨ proxy ∧ id = w.workbaseId)
    (hnew : ¬(proxy ∧ jobid ≤ w.workbaseId)) : id < w.nextId jobid := by
  rcases hissued with hlt | ⟨hproxy, rfl⟩
  · exact lt_of_lt_of_le hlt (w.le_nextId hnew)
  · rw [nextId, if_pos hproxy]
    exact lt_of_not_ge fun hle => hnew ⟨hproxy, hle⟩

theorem le_nextId_of_mem {id jobid : Int} (hnew : ¬(proxy ∧ jobid ≤ w.workbaseId))
    (hid : id ∈ w.nextId jobid :: w.workbases) : id ≤ w.nextId jobid := by
  rcases List.mem_cons.mp hid with rfl | hold
  · exact le_refl _
  · exact (w.lt_nextId (w.issued id hold) hnew).le

/-- The ids up to the next are issued once it is. -/
theorem issued_of_le {id jobid : Int} (hle : id ≤ w.nextId jobid) :
    id < (if proxy then jobid else w.workbaseId + 1) ∨
      proxy ∧ id = if proxy then jobid else w.workbaseId + 1 := by
  unfold nextId at hle
  split_ifs at hle ⊢ with hproxy
  · rcases lt_or_eq_of_le hle with hlt | heq
    · exact Or.inl hlt
    · exact Or.inr ⟨hproxy, heq⟩
  · exact Or.inl (Int.lt_add_one_of_le hle)

/-- `add_base` -/
def addBase (jobid : Int) (newBlock : Bool) : Workbases proxy :=
  if hseen : proxy ∧ jobid ≤ w.workbaseId then w
  else
    { workbaseId := if proxy then jobid else w.workbaseId + 1
      blockchangeId := if newBlock then w.nextId jobid else w.blockchangeId
      current := some (w.nextId jobid)
      workbases := w.nextId jobid :: w.workbases
      blockchange_le := by
        have hle := w.blockchange_le
        have hnext := w.le_nextId hseen
        unfold nextId at *
        split_ifs at * <;> omega
      issued := fun id hid => w.issued_of_le (w.le_nextId_of_mem hseen hid)
      le_current := fun id hid => ⟨_, rfl, w.le_nextId_of_mem hseen hid⟩ }

/-- `add_remote_base`, which takes an id for the workbase of a trusted server. -/
def addRemoteBase : Workbases proxy where
  workbaseId := w.workbaseId + 1
  blockchangeId := w.blockchangeId
  current := w.current
  workbases := w.workbases
  blockchange_le := by
    have hle := w.blockchange_le
    omega
  issued id hid := by
    rcases w.issued id hid with hlt | ⟨-, rfl⟩ <;> omega
  le_current := w.le_current

/-- The ageing of `add_base`: a workbase that is not current is freed. -/
def age (id : Int) : Workbases proxy :=
  if w.current = some id then w
  else
    { w with
      workbases := w.workbases.filter (· ≠ id)
      issued := fun id' hid' => w.issued id' (List.mem_of_mem_filter hid')
      le_current := fun id' hid' => w.le_current id' (List.mem_of_mem_filter hid') }

end Workbases

/-! ### Shares -/

/-- A share past the checks of its form.  `wdiff` is the difficulty of its workbase,
`coinbase` says that the client has a coinbase there, `late` that it came in within the
latency of its mining node, `fresh` that `new_share` has not seen it. -/
structure Share where
  id : Int
  sdiff : ℚ
  wdiff : ℚ
  coinbase : Bool
  late : Bool
  ntimeOk : Bool
  fresh : Bool
  rate : ShareRate

/-- What becomes of a share. -/
inductive ShareErr where
  | none
  | noWorkbase
  | invalidJobid
  | noUserCoinbase
  | stale
  | ntimeInvalid
  | dupe
  | highDiff
deriving DecidableEq, Repr

/-- The difficulty a share has to meet, in `parse_submit` and, with two more conditions,
in `stratifier_sv2_submit_share`. -/
def DiffClient.shareDiff (client : DiffClient) (id : Int) : Int :=
  if client.sv2 then
    if id ≠ 0 ∧ id < client.diffChangeJobId ∧ 0 < client.oldDiff then
      min client.diff client.oldDiff
    else client.diff
  else if id < client.diffChangeJobId then min client.diff client.oldDiff
  else client.diff

/-- Shares on a stale workbase may come in late on a mining node. -/
def DiffClient.graced (client : DiffClient) : Bool := !client.sv2 && client.latency ≠ 0

/-! ### The machine -/

/-- A client, the workbases, and the jobs sent with the difficulty at the time. -/
structure DiffState (proxy : Bool) where
  client : DiffClient
  bases : Workbases proxy
  jobs : List (Int × Int) := []

namespace DiffState

variable {proxy : Bool} (s : DiffState proxy)

/-- The order of the checks in `parse_submit` and `stratifier_sv2_submit_share`. -/
def parseSubmit (sh : Share) : ShareErr :=
  if s.bases.current = none then .noWorkbase
  else if sh.id ∉ s.bases.workbases then .invalidJobid
  else if !sh.coinbase then .noUserCoinbase
  else if sh.id < s.bases.blockchangeId ∧ !(s.client.graced && sh.late) then .stale
  else if !sh.ntimeOk then .ntimeInvalid
  else if s.client.shareDiff sh.id ≤ sh.sdiff then
    if sh.fresh then .none else .dupe
  else .highDiff

/-- A stale share that counts for the rate all the same, which is for `parse_submit`
only. -/
def rateSubmit (sh : Share) : Bool :=
  s.parseSubmit sh = .stale ∧ !s.client.sv2 ∧
    (sh.wdiff ≤ sh.sdiff ∨ sh.rate.networkDiff ≤ sh.sdiff) ∧
    s.client.shareDiff sh.id ≤ sh.sdiff ∧ sh.fresh

end DiffState

/-- What happens on a connection and to the workbases. -/
inductive DiffEvent where
  | subscribe (useragent : Bytes) (ok : Bool)
  | authorise (a : AuthRequest)
  | authResult (ret : Bool)
  | suggest (m : Suggestion)
  | submit (sh : Share)
  | sv2SetDiff (diff : Option ℚ)
  | addBase (jobid : Int) (newBlock : Bool)
  | addRemoteBase
  | ageBase (id : Int)
  | notify (id : Int)

namespace DiffState

/-- A new connection of the first protocol. -/
def connect (c : DiffConf) (server : Int) (now : Tv) (latency : Int) (remote : Bool)
    (bases : Workbases c.proxy) : DiffState c.proxy where
  client := c.addInstance server now latency remote
  bases := bases

variable (c : DiffConf) (s : DiffState c.proxy)

/-- What an event does to the client. -/
def stepClient : DiffEvent → DiffClient
  | .subscribe useragent ok =>
    if s.client.subscribed then s.client
    else { c.parseSubscribe s.client useragent with subscribed := ok }
  | .authorise a => c.sauthProcess s.client a
  -- `parse_upstream_auth`
  | .authResult ret =>
    if c.remote ∧ !c.btcsolo ∧ ret then { s.client with authorised := true } else s.client
  -- a virtual instance gets no messages
  | .suggest m =>
    if !s.client.subscribed ∨ !s.client.authorised ∨ s.client.sv2 then s.client
    else if s.client.pinnedDiff then s.client
    else c.suggestDiff s.client m s.bases.workbaseId
  | .submit sh =>
    if !s.client.authorised ∨ s.bases.current = none then s.client
    else c.addSubmit s.client (s.client.shareDiff sh.id) (s.parseSubmit sh = .none)
      (s.rateSubmit sh) sh.rate s.bases.workbaseId
  -- only channels have a session to set the difficulty of
  | .sv2SetDiff diff =>
    if s.client.sv2 then sv2SetDiff s.client diff s.bases.current s.bases.workbaseId
    else s.client
  | .addBase _ _ | .addRemoteBase | .ageBase _ | .notify _ => s.client

/-- What an event does to the workbases. -/
def stepBases : DiffEvent → Workbases c.proxy
  | .addBase jobid newBlock => s.bases.addBase jobid newBlock
  | .addRemoteBase => s.bases.addRemoteBase
  | .ageBase id => s.bases.age id
  | _ => s.bases

/-- A step.  What is sent is a workbase in the table. -/
def step (e : DiffEvent) : DiffState c.proxy where
  client := stepClient c s e
  bases := stepBases c s e
  jobs := match e with
    | .notify id => if id ∈ s.bases.workbases then (id, s.client.diff) :: s.jobs else s.jobs
    | _ => s.jobs

end DiffState

/-- A configuration of defaults, with one server. -/
def exampleDiffConf : DiffConf := readDiffConf none none none none [] [false] false false false true

/-- One workbase, which changed the block. -/
def exampleBases (proxy : Bool) : Workbases proxy where
  workbaseId := 101
  blockchangeId := 100
  current := some 100
  workbases := [100]
  blockchange_le := by decide
  issued := by simp
  le_current := by simp

/-- A connection at its first second. -/
def exampleConnection (c : DiffConf) : DiffState c.proxy :=
  DiffState.connect c 0 ⟨1, 0⟩ 0 false (exampleBases c.proxy)

/-- An authorisation two seconds later. -/
def exampleAuth (workername : Bytes) (pass : Option Bytes) (ret : Bool) : DiffEvent :=
  .authorise {
    workername
    pass
    ret
    now := ⟨3, 0⟩
    workerMindiff := 0 }

/-- A session of a worker that asks for nothing. -/
def exampleSession : DiffState exampleDiffConf.proxy :=
  run (DiffState.step exampleDiffConf) (exampleConnection exampleDiffConf)
    [.subscribe [] true, exampleAuth [97] none true]

/-! ### Changes of the difficulty -/

/-- The events that leave the session alone: neither a subscription nor an
authorisation. -/
def DiffEvent.InSession : DiffEvent → Prop
  | .subscribe _ _ | .authorise _ | .authResult _ => False
  | _ => True

instance : DecidablePred DiffEvent.InSession
  | .subscribe _ _ | .authorise _ | .authResult _ => isFalse id
  | .suggest _ | .submit _ | .sv2SetDiff _ | .addBase _ _ | .addRemoteBase | .ageBase _
  | .notify _ => isTrue trivial

namespace DiffState

variable (c : DiffConf) (s : DiffState c.proxy)

/-- The difficulty an event of the session sets, and the id of the first workbase on
which it is the only one. -/
def newDiff : DiffEvent → Option (Int × Int)
  | .suggest m =>
    if !s.client.subscribed ∨ !s.client.authorised ∨ s.client.sv2 ∨ s.client.pinnedDiff then none
    else m.value.bind fun sdiff =>
      if c.clampRequestedDiff sdiff = s.client.suggestDiff ∨
          s.client.diff = c.clampRequestedDiff sdiff then none
      else some (c.clampRequestedDiff sdiff, s.bases.workbaseId)
  | .submit sh =>
    if !s.client.authorised ∨ s.bases.current = none ∨
        (s.parseSubmit sh ≠ .none ∧ !s.rateSubmit sh) then none
    else (c.retarget s.client (s.client.shareDiff sh.id) sh.rate).map fun diff =>
      (diff, s.bases.workbaseId)
  | .sv2SetDiff diff =>
    if !s.client.sv2 ∨ saneDiffInt64 diff < 1 then none
    else some (saneDiffInt64 diff,
      match s.bases.current with
      | some id => id + 1
      | none => s.bases.workbaseId + 1)
  | _ => none

theorem grace_suggestDiff (client : DiffClient) (m : Suggestion) (workbaseId : Int) :
    (c.suggestDiff client m workbaseId).grace =
      client.graceAfter (m.value.bind fun sdiff =>
        if c.clampRequestedDiff sdiff = client.suggestDiff ∨
            client.diff = c.clampRequestedDiff sdiff then none
        else some (c.clampRequestedDiff sdiff, workbaseId)) := by
  unfold DiffConf.suggestDiff
  cases m.value with
  | none => rfl
  | some sdiff =>
    dsimp only [Option.bind]
    by_cases hsame : c.clampRequestedDiff sdiff = client.suggestDiff
    · rw [if_pos hsame, if_pos (Or.inl hsame)]
      rfl
    rw [if_neg hsame]
    by_cases hdiff : client.diff = c.clampRequestedDiff sdiff
    · rw [if_pos hdiff, if_pos (Or.inr hdiff)]
      rfl
    · rw [if_neg hdiff, if_neg (not_or.mpr ⟨hsame, hdiff⟩)]
      rfl

/-- **What an event of the session does to the difficulty.** -/
theorem grace_step {e : DiffEvent} (he : e.InSession) :
    (step c s e).client.grace = s.client.graceAfter (newDiff c s e) := by
  show (stepClient c s e).grace = _
  cases e with
  | subscribe | authorise | authResult => exact he.elim
  | addBase | addRemoteBase | ageBase | notify => rfl
  | suggest m =>
    dsimp only [stepClient, newDiff]
    by_cases hout : !s.client.subscribed ∨ !s.client.authorised ∨ s.client.sv2
    · have hout' : !s.client.subscribed ∨ !s.client.authorised ∨ s.client.sv2 ∨
          s.client.pinnedDiff := hout.imp_right fun h => h.imp_right Or.inl
      rw [if_pos hout, if_pos hout']
      rfl
    rw [if_neg hout]
    by_cases hpin : s.client.pinnedDiff
    · rw [if_pos hpin, if_pos (Or.inr (Or.inr (Or.inr hpin)))]
      rfl
    have hin : ¬(!s.client.subscribed ∨ !s.client.authorised ∨ s.client.sv2 ∨
        s.client.pinnedDiff) := by
      rintro (h | h | h | h)
      exacts [hout (Or.inl h), hout (Or.inr (Or.inl h)), hout (Or.inr (Or.inr h)), hpin h]
    rw [if_neg hpin, if_neg hin]
    exact grace_suggestDiff c s.client m s.bases.workbaseId
  | submit sh =>
    dsimp only [stepClient, newDiff]
    by_cases hout : !s.client.authorised ∨ s.bases.current = none
    · rw [if_pos hout, if_pos (hout.imp_right Or.inl)]
      rfl
    rw [if_neg hout]
    by_cases hcount : s.parseSubmit sh ≠ .none ∧ !s.rateSubmit sh
    · have hrate : s.rateSubmit sh = false := by simpa using hcount.2
      rw [if_pos (Or.inr (Or.inr hcount)), decide_eq_false hcount.1, hrate]
      exact congrArg DiffClient.grace (addSubmit_uncounted ..)
    have hin : ¬(!s.client.authorised ∨ s.bases.current = none ∨
        (s.parseSubmit sh ≠ .none ∧ !s.rateSubmit sh)) := by
      rintro (h | h | h)
      exacts [hout (Or.inl h), hout (Or.inr h), hcount h]
    rw [if_neg hin]
    refine grace_addSubmit c s.client _ ?_ sh.rate s.bases.workbaseId
    rcases not_and_or.mp hcount with hvalid | hrate
    · exact Or.inl (decide_eq_true (not_not.mp hvalid))
    · exact Or.inr (by simpa using hrate)
  | sv2SetDiff diff =>
    dsimp only [stepClient, newDiff, sv2SetDiff]
    by_cases hsv2 : s.client.sv2
    · rw [if_pos hsv2]
      by_cases hlow : saneDiffInt64 diff < 1
      · rw [if_pos hlow, if_pos (Or.inr hlow)]
        rfl
      · rw [if_neg hlow, if_neg (by simp [hsv2, hlow])]
        rfl
    · rw [if_neg hsv2, if_pos (Or.inl (by simp [hsv2]))]
      rfl

end DiffState

end CashStratum
