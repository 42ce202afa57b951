/-
CashStratum/Sv2Target.lean

The targets of SV2 channels (`sv2_strat.c`) and the difficulties of their sessions in the
stratifier (`stratifier.c`).

A channel has its own copy of the difficulty, from which the target it is sent is made,
and the session has the one by which shares are accepted and credited.  A target easier
than `max_target`, the easiest that the miner takes, is never sent: it is replaced by
`max_target` when it goes out, and the copy of the channel follows.  When the miner asks
for the change, the session follows too.

Targets and difficulties are each other's inverse (`TargetMaps`): the numbers of the source
are doubles, here they are exact.  `announced` is the target last sent on a channel; no
code reads it.
-/
import CashStratum.DiffBounds
import CashStratum.Sv2Drop

namespace CashStratum

/-! ### Targets -/

/-- `target_from_diff` and `diff_from_target`: the greater the difficulty, the smaller the
target. -/
structure TargetMaps (T : Type*) [LinearOrder T] where
  targetFromDiff : ℚ → T
  diffFromTarget : T → ℚ
  diffFromTarget_pos : ∀ t, 0 < diffFromTarget t
  targetFromDiff_diffFromTarget : ∀ t, targetFromDiff (diffFromTarget t) = t
  diffFromTarget_targetFromDiff : ∀ d, 0 < d → diffFromTarget (targetFromDiff d) = d
  diffFromTarget_strictAnti : StrictAnti diffFromTarget

namespace TargetMaps

variable {T : Type*} [LinearOrder T] (m : TargetMaps T) {t : T} {d : ℚ}

theorem lt_targetFromDiff (hd : 0 < d) : t < m.targetFromDiff d ↔ d < m.diffFromTarget t := by
  rw [← m.diffFromTarget_strictAnti.lt_iff_gt, m.diffFromTarget_targetFromDiff d hd]

theorem targetFromDiff_le (hd : 0 < d) : m.targetFromDiff d ≤ t ↔ m.diffFromTarget t ≤ d := by
  rw [← not_lt, m.lt_targetFromDiff hd, not_lt]

end TargetMaps

/-- `truediffone` -/
def truediffone : ℚ := 0xFFFF * 2 ^ 208

/-- The maps of `libckpool.c`. -/
def exactTargets : TargetMaps {t : ℚ // 0 < t} where
  targetFromDiff d :=
    if h : 0 < d then ⟨truediffone / d, div_pos (by norm_num [truediffone]) h⟩ else ⟨1, one_pos⟩
  diffFromTarget t := truediffone / t
  diffFromTarget_pos t := div_pos (by norm_num [truediffone]) t.2
  targetFromDiff_diffFromTarget t := by
    have hone : (0 : ℚ) < truediffone := by norm_num [truediffone]
    rw [dif_pos (div_pos hone t.2)]
    exact Subtype.ext (div_div_cancel₀ hone.ne')
  diffFromTarget_targetFromDiff d hd := by
    have hone : (0 : ℚ) < truediffone := by norm_num [truediffone]
    rw [dif_pos hd]
    exact div_div_cancel₀ hone.ne'
  diffFromTarget_strictAnti t t' hlt :=
    div_lt_div_of_pos_left (by norm_num [truediffone]) t.2 hlt

/-! ### Difficulties -/

/-- `SV2_MAX_CHANNEL_DIFF` -/
def maxChannelDiff : ℚ := 10 ^ 15

/-- `clamp_channel_diff` -/
def clampChannelDiff (diff : ℚ) : ℚ :=
  if diff < 1 then 1 else if maxChannelDiff < diff then maxChannelDiff else diff

/-- How `sane_diff_int64` rounds: up, but a fraction below a millionth is dropped. -/
def roundedUp (diff : ℚ) : Int := truncate (diff + 999999 / 1000000)

namespace DiffConf

variable (c : DiffConf)

/-- `server_diff_floor` -/
def serverDiffFloor (server : Int) : ℚ :=
  if 0 ≤ server ∧ c.serverHighdiff.getD server.toNat false then c.highdiff else 0

/-- `choose_channel_diff`; a hash rate that is not finite is `none`. -/
def chooseChannelDiff {T : Type*} [LinearOrder T] (m : TargetMaps T) (nominalHr : Option ℚ)
    (maxTarget : T) (floor : ℚ) : ℚ :=
  let mindiff : ℚ := if (c.mindiff : ℚ) < floor then floor else c.mindiff
  let hr := nominalHr.getD 0
  -- six shares a minute
  let want := hr / 4294967296 * 10
  let diff := if 0 < hr ∧ 1 < want then want else c.startdiff
  let diff := if diff < mindiff then mindiff else diff
  let diff := if c.maxdiff ≠ 0 ∧ (c.maxdiff : ℚ) < diff then (c.maxdiff : ℚ) else diff
  let maxDiff := m.diffFromTarget maxTarget
  let diff := if 0 < maxDiff ∧ diff < maxDiff then maxDiff else diff
  clampChannelDiff diff

end DiffConf

/-! ### Channels -/

/-- The fields of `struct sv2_channel` that its target depends on. -/
structure TargetChannel (T : Type*) where
  clientId : Int
  channelId : UInt32
  instanceId : Int
  minDiff : ℚ
  diff : ℚ
  maxTarget : T
  announced : T

/-- The channels, the sessions of the stratifier, and the next ids of sessions and of the
channels of each client. -/
structure TargetState (T : Type*) where
  channels : List (TargetChannel T)
  sessions : Int → Option DiffClient
  clientIds : Int
  nextChannelId : Int → UInt32

/-- What can happen. -/
inductive TargetEvent (T : Type*)
  /-- An OpenStandardMiningChannel or OpenExtendedMiningChannel that passed its checks;
  `opens` says whether the stratifier takes its user. -/
  | openChannel (clientId server : Int) (now : Tv) (nominalHr : Option ℚ) (maxTarget : T)
      (opens : Bool)
  /-- A share, which may move the difficulty of its session. -/
  | submit (instanceId diff : Int) (valid submit : Bool) (r : ShareRate) (nextBlockid : Int)
  /-- An UpdateChannel. -/
  | updateChannel (clientId : Int) (channelId : UInt32) (nominalHr : Option ℚ) (maxTarget : T)
      (current : Option Int) (workbaseId : Int)
  /-- A SetTarget that goes out once more. -/
  | setTarget (clientId : Int) (channelId : UInt32)

section Machine

variable {T : Type*} [LinearOrder T] (c : DiffConf) (m : TargetMaps T)

/-- `push_set_target`, and the target of an open's success. -/
def TargetChannel.pushSetTarget (ch : TargetChannel T) : TargetChannel T :=
  if ch.maxTarget < m.targetFromDiff ch.diff then
    { ch with
      announced := ch.maxTarget
      diff := clampChannelDiff (m.diffFromTarget ch.maxTarget) }
  else { ch with announced := m.targetFromDiff ch.diff }

/-- What an UpdateChannel makes of a channel, and whether the stratifier is told. -/
def TargetChannel.update (ch : TargetChannel T) (nominalHr : ℚ) (maxTarget : T) :
    TargetChannel T × Bool :=
  let newDiff := c.chooseChannelDiff m (some nominalHr) maxTarget ch.minDiff
  let oldDiff := ch.diff
  let ch := { ch with maxTarget }
  if oldDiff * 4 < newDiff ∨ newDiff < oldDiff / 4 then
    (TargetChannel.pushSetTarget m { ch with diff := newDiff }, true)
  else if maxTarget < m.targetFromDiff oldDiff then (ch.pushSetTarget m, true)
  else (ch, false)

namespace TargetState

/-- The tables when the pool starts. -/
def start (conf : StratConf) : TargetState T where
  channels := []
  sessions := fun _ => none
  clientIds := conf.serverurls
  nextChannelId := fun _ => 1

/-- Change the channel of a session. -/
def modify (s : TargetState T) (instanceId : Int) (f : TargetChannel T → TargetChannel T) :
    TargetState T :=
  { s with channels := s.channels.map fun ch => if ch.instanceId = instanceId then f ch else ch }

/-- Change a session. -/
def setSession (s : TargetState T) (instanceId : Int) (client : DiffClient) : TargetState T :=
  { s with sessions := Function.update s.sessions instanceId (some client) }

/-- `HASH_FIND` of a channel. -/
def findChannel (s : TargetState T) (clientId : Int) (channelId : UInt32) :
    Option (TargetChannel T) :=
  s.channels.find? fun ch => decide (ch.clientId = clientId) && decide (ch.channelId = channelId)

/-- `handle_open_standard` and `handle_open_extended`.  The target goes out twice, with the
success and with a SetTarget. -/
def openChannel (s : TargetState T) (clientId server : Int) (now : Tv) (nominalHr : Option ℚ)
    (maxTarget : T) (opens : Bool) : TargetState T :=
  let floor := c.serverDiffFloor server
  let diff := c.chooseChannelDiff m nominalHr maxTarget floor
  let next := s.nextChannelId clientId
  let channelId := if next = 0 then 1 else next
  let opened := { s with
    clientIds := s.clientIds + 1
    nextChannelId := Function.update s.nextChannelId clientId (channelId + 1) }
  if opens then
    let ch : TargetChannel T :=
      { clientId, channelId, instanceId := s.clientIds, minDiff := floor, diff, maxTarget
        announced := maxTarget }
    TargetState.setSession { opened with
      channels := ((ch.pushSetTarget m).pushSetTarget m) :: s.channels } s.clientIds
      (c.sv2OpenSession server now (some diff))
  else opened

/-- `sv2_strat_set_instance_diff` -/
def setInstanceDiff (s : TargetState T) (instanceId diff : Int) : TargetState T :=
  if instanceId < 1 ∨ diff < 1 then s
  else s.modify instanceId fun ch => TargetChannel.pushSetTarget m { ch with diff := diff }

/-- `add_submit` of a session, with the SetTarget it sends. -/
def submit (s : TargetState T) (instanceId diff : Int) (valid submit : Bool) (r : ShareRate)
    (nextBlockid : Int) : TargetState T :=
  match s.sessions instanceId with
  | none => s
  | some client =>
    let client' := c.addSubmit client diff valid submit r nextBlockid
    let s := s.setSession instanceId client'
    if client'.diff = client.diff then s else s.setInstanceDiff m instanceId client'.diff

/-- The UpdateChannel of `sv2_strat_handle_frame`. -/
def updateChannel (s : TargetState T) (clientId : Int) (channelId : UInt32)
    (nominalHr : Option ℚ) (maxTarget : T) (current : Option Int) (workbaseId : Int) :
    TargetState T :=
  match nominalHr with
  | none => s
  | some nominalHr =>
    if nominalHr < 0 then s
    else match s.findChannel clientId channelId with
      | none => s
      | some ch =>
        if ch.instanceId = 0 then s
        else
          let (ch', told) := ch.update c m nominalHr maxTarget
          let s' := s.modify ch.instanceId fun _ => ch'
          match s.sessions ch.instanceId with
          | none => s'
          | some client =>
            if told then
              s'.setSession ch.instanceId
                (sv2SetDiff client (some ch'.diff) current workbaseId)
            else s'

end TargetState

/-- One step. -/
def targetStep (s : TargetState T) : TargetEvent T → TargetState T
  | .openChannel clientId server now nominalHr maxTarget opens =>
    s.openChannel c m clientId server now nominalHr maxTarget opens
  | .submit instanceId diff valid submit r nextBlockid =>
    s.submit c m instanceId diff valid submit r nextBlockid
  | .updateChannel clientId channelId nominalHr maxTarget current workbaseId =>
    s.updateChannel c m clientId channelId nominalHr maxTarget current workbaseId
  | .setTarget clientId channelId =>
    match s.findChannel clientId channelId with
    | none => s
    | some ch => s.modify ch.instanceId fun ch => ch.pushSetTarget m

end Machine

/-! ### What is announced -/

theorem one_le_clampChannelDiff (d : ℚ) : 1 ≤ clampChannelDiff d := by
  rw [clampChannelDiff]
  split_ifs with hlow hhigh
  · exact le_refl 1
  · norm_num [maxChannelDiff]
  · exact not_lt.mp hlow

theorem clampChannelDiff_le (d : ℚ) : clampChannelDiff d ≤ maxChannelDiff := by
  rw [clampChannelDiff]
  split_ifs with hlow hhigh
  · norm_num [maxChannelDiff]
  · exact le_refl _
  · exact not_lt.mp hhigh

/-- From 1 on, only the ceiling changes a difficulty. -/
theorem clampChannelDiff_of_one_le {d : ℚ} (h : 1 ≤ d) :
    clampChannelDiff d = d ∨ clampChannelDiff d = maxChannelDiff ∧ maxChannelDiff < d := by
  rw [clampChannelDiff, if_neg (not_lt.mpr h)]
  split_ifs with hhigh
  · exact Or.inr ⟨rfl, hhigh⟩
  · exact Or.inl rfl

theorem clampChannelDiff_fits {d d' : ℚ} (h : d ≤ d') :
    d ≤ clampChannelDiff d' ∨ clampChannelDiff d' = maxChannelDiff := by
  rw [clampChannelDiff]
  split_ifs with hlow hhigh
  · exact Or.inl (h.trans hlow.le)
  · exact Or.inr rfl
  · exact Or.inl h

theorem roundedUp_of_nonneg {d : ℚ} (h : 0 ≤ d) : roundedUp d = ⌊d + 999999 / 1000000⌋ := by
  rw [roundedUp, truncate, if_pos (by positivity)]

/-- A whole number is left as it is. -/
theorem roundedUp_intCast {d : Int} (h : 0 ≤ d) : roundedUp d = d := by
  rw [roundedUp_of_nonneg (by exact_mod_cast h), Int.floor_intCast_add]
  norm_num

theorem one_le_roundedUp {d : ℚ} (h : 1 ≤ d) : 1 ≤ roundedUp d := by
  rw [roundedUp_of_nonneg (by linarith)]
  refine Int.le_floor.mpr ?_
  push_cast
  linarith

/-- The difficulties of channels are in the range of `sane_diff_int64`. -/
theorem saneDiffInt64_eq {d : ℚ} (hone : 1 ≤ d) (hmax : d ≤ maxChannelDiff) :
    saneDiffInt64 (some d) = roundedUp d := by
  have hsmall : ¬ (10 : ℚ) ^ 18 < d := by
    refine not_lt.mpr (hmax.trans ?_)
    norm_num [maxChannelDiff]
  rw [saneDiffInt64, if_neg (not_lt.mpr hone), if_neg hsmall]
  rfl

section Announced

variable {T : Type*} [LinearOrder T] {c : DiffConf} {m : TargetMaps T} {ch : TargetChannel T}

/-- A channel between two events: its miner has a target no easier than it takes, made
from the channel's difficulty unless the ceiling cut it. -/
structure TargetChannel.Announces (m : TargetMaps T) (ch : TargetChannel T) : Prop where
  one_le : 1 ≤ ch.diff
  le_max : ch.announced ≤ ch.maxTarget
  diff_announced : ch.announced = m.targetFromDiff ch.diff ∨
    ch.diff = maxChannelDiff ∧ maxChannelDiff < m.diffFromTarget ch.announced

namespace TargetChannel

theorem Announces.announced_le (h : ch.Announces m) : ch.announced ≤ m.targetFromDiff ch.diff := by
  rcases h.diff_announced with heq | ⟨hdiff, hlt⟩
  · exact le_of_eq heq
  · rw [← hdiff] at hlt
    exact ((m.lt_targetFromDiff (zero_lt_one.trans_le h.one_le)).mpr hlt).le

/-- The target and the difficulty are all that a SetTarget changes. -/
theorem pushSetTarget_rest (m : TargetMaps T) (ch : TargetChannel T) :
    (ch.pushSetTarget m).clientId = ch.clientId ∧ (ch.pushSetTarget m).channelId = ch.channelId ∧
      (ch.pushSetTarget m).instanceId = ch.instanceId ∧
      (ch.pushSetTarget m).maxTarget = ch.maxTarget := by
  rw [pushSetTarget]
  split_ifs <;> exact ⟨rfl, rfl, rfl, rfl⟩

theorem pushSetTarget_announces (h : 1 ≤ ch.diff) : (ch.pushSetTarget m).Announces m := by
  rw [pushSetTarget]
  split_ifs with heasy
  · have hlt : ch.diff < m.diffFromTarget ch.maxTarget :=
      (m.lt_targetFromDiff (zero_lt_one.trans_le h)).mp heasy
    refine ⟨one_le_clampChannelDiff _, le_refl _, ?_⟩
    rcases clampChannelDiff_of_one_le (h.trans hlt.le) with heq | hcut
    · refine Or.inl ?_
      show ch.maxTarget = m.targetFromDiff (clampChannelDiff (m.diffFromTarget ch.maxTarget))
      rw [heq, m.targetFromDiff_diffFromTarget]
    · exact Or.inr hcut
  · exact ⟨h, not_lt.mp heasy, Or.inl rfl⟩

/-- A difficulty that the miner takes stays, and so does the ceiling. -/
theorem pushSetTarget_diff (h : 1 ≤ ch.diff)
    (hfits : m.diffFromTarget ch.maxTarget ≤ ch.diff ∨ ch.diff = maxChannelDiff) :
    (ch.pushSetTarget m).diff = ch.diff := by
  rw [pushSetTarget]
  split_ifs with heasy
  · have hlt : ch.diff < m.diffFromTarget ch.maxTarget :=
      (m.lt_targetFromDiff (zero_lt_one.trans_le h)).mp heasy
    have hceiling := hfits.resolve_left (not_le.mpr hlt)
    rw [hceiling] at hlt ⊢
    rcases clampChannelDiff_of_one_le (h.trans (hceiling ▸ hlt.le)) with heq | ⟨hcut, -⟩
    · exact absurd (heq ▸ clampChannelDiff_le _) (not_le.mpr hlt)
    · exact hcut
  · rfl

theorem Announces.fits (h : ch.Announces m) :
    m.diffFromTarget ch.maxTarget ≤ ch.diff ∨ ch.diff = maxChannelDiff := by
  rcases h.diff_announced with heq | ⟨hdiff, -⟩
  · refine Or.inl ((m.targetFromDiff_le (zero_lt_one.trans_le h.one_le)).mp ?_)
    rw [← heq]
    exact h.le_max
  · exact Or.inr hdiff

theorem pushSetTarget_diff_le (h : ch.diff ≤ maxChannelDiff) :
    (ch.pushSetTarget m).diff ≤ maxChannelDiff := by
  rw [pushSetTarget]
  split_ifs
  · exact clampChannelDiff_le _
  · exact h

/-- A difficulty that is chosen fits the `max_target` it is chosen for, up to the ceiling. -/
theorem chooseChannelDiff_fits (nominalHr : Option ℚ) (maxTarget : T) (floor : ℚ) :
    m.diffFromTarget maxTarget ≤ c.chooseChannelDiff m nominalHr maxTarget floor ∨
      c.chooseChannelDiff m nominalHr maxTarget floor = maxChannelDiff := by
  rw [DiffConf.chooseChannelDiff]
  have hraised : ∀ diff : ℚ, m.diffFromTarget maxTarget ≤
      if 0 < m.diffFromTarget maxTarget ∧ diff < m.diffFromTarget maxTarget then
        m.diffFromTarget maxTarget else diff := by
    intro diff
    split_ifs with hlow
    · exact le_refl _
    · exact not_lt.mp fun hlt => hlow ⟨m.diffFromTarget_pos maxTarget, hlt⟩
  exact clampChannelDiff_fits (hraised _)

/-- **An UpdateChannel.**  The miner's target fits the new `max_target`, and the stratifier
is told whenever the difficulty of the channel changes. -/
theorem update_spec (h : ch.Announces m) (nominalHr : ℚ) (maxTarget : T) :
    (ch.update c m nominalHr maxTarget).1.Announces m ∧
      (ch.update c m nominalHr maxTarget).1.instanceId = ch.instanceId ∧
      ((ch.update c m nominalHr maxTarget).2 = true →
        (ch.update c m nominalHr maxTarget).1.diff ≤ maxChannelDiff) ∧
      ((ch.update c m nominalHr maxTarget).2 = false →
        (ch.update c m nominalHr maxTarget).1.diff = ch.diff) := by
  rw [update]
  dsimp only
  have hone : 1 ≤ c.chooseChannelDiff m (some nominalHr) maxTarget ch.minDiff :=
    one_le_clampChannelDiff _
  have hmax : c.chooseChannelDiff m (some nominalHr) maxTarget ch.minDiff ≤ maxChannelDiff :=
    clampChannelDiff_le _
  generalize c.chooseChannelDiff m (some nominalHr) maxTarget ch.minDiff = newDiff at hone hmax ⊢
  by_cases happly : ch.diff * 4 < newDiff ∨ newDiff < ch.diff / 4
  · rw [if_pos happly]
    refine ⟨pushSetTarget_announces hone, (pushSetTarget_rest m _).2.2.1, ?_, fun h => by cases h⟩
    exact fun _ => pushSetTarget_diff_le hmax
  · rw [if_neg happly]
    by_cases hstrict : maxTarget < m.targetFromDiff ch.diff
    · rw [if_pos hstrict]
      refine ⟨pushSetTarget_announces h.one_le, (pushSetTarget_rest m _).2.2.1, fun _ => ?_,
        fun h => by cases h⟩
      show (pushSetTarget m _).diff ≤ maxChannelDiff
      rw [pushSetTarget, if_pos hstrict]
      exact clampChannelDiff_le _
    · rw [if_neg hstrict]
      refine ⟨⟨h.one_le, ?_, h.diff_announced⟩, rfl, (fun h => by cases h), fun _ => rfl⟩
      exact h.announced_le.trans (not_lt.mp hstrict)

end TargetChannel

end Announced

/-! ### The two copies -/

section Tables

variable {T : Type*} {s : TargetState T} {instanceId k : Int}
  {f : TargetChannel T → TargetChannel T}

/-- A session has the difficulty of its channel, rounded up. -/
def TargetState.Agrees (s : TargetState T) (instanceId : Int) : Prop :=
  ∀ ch ∈ s.channels, ch.instanceId = instanceId →
    ∃ client, s.sessions instanceId = some client ∧ client.diff = roundedUp ch.diff

namespace TargetState

theorem mem_of_findChannel {clientId : Int} {channelId : UInt32} {ch : TargetChannel T}
    (h : s.findChannel clientId channelId = some ch) : ch ∈ s.channels :=
  List.mem_of_find?_eq_some h

theorem mem_modify {ch : TargetChannel T} (h : ch ∈ (s.modify k f).channels) :
    ∃ old ∈ s.channels, ch = if old.instanceId = k then f old else old := by
  obtain ⟨old, hold, rfl⟩ := List.mem_map.mp h
  exact ⟨old, hold, rfl⟩

/-- Another channel is changed. -/
theorem Agrees.modify_ne (h : s.Agrees instanceId) (hne : instanceId ≠ k)
    (hf : ∀ ch ∈ s.channels, ch.instanceId = k → (f ch).instanceId = k) :
    (s.modify k f).Agrees instanceId := by
  intro ch hch hid
  obtain ⟨old, hold, rfl⟩ := mem_modify hch
  by_cases hk : old.instanceId = k
  · rw [if_pos hk] at hid
    exact absurd (hid.symm.trans (hf old hold hk)) hne
  · rw [if_neg hk] at hid ⊢
    exact h old hold hid

/-- Another session is changed. -/
theorem Agrees.setSession_ne (h : s.Agrees instanceId) (hne : instanceId ≠ k)
    (client : DiffClient) : (s.setSession k client).Agrees instanceId := by
  intro ch hch hid
  show ∃ client', Function.update s.sessions k (some client) instanceId = some client' ∧ _
  rw [Function.update_of_ne hne]
  exact h ch hch hid

/-- The session and the channel are changed together. -/
theorem agrees_setSession {client : DiffClient}
    (hf : ∀ ch ∈ s.channels, ch.instanceId = k → client.diff = roundedUp ch.diff) :
    (s.setSession k client).Agrees k := by
  intro ch hch hid
  exact ⟨client, Function.update_self .., hf ch hch hid⟩

end TargetState

end Tables

section Copies

variable {T : Type*} [LinearOrder T] (c : DiffConf) (m : TargetMaps T)

/-- A vardiff change of a session does not go below the `max_target` of its channel. -/
def VardiffFits (instanceId : Int) (s : TargetState T) : TargetEvent T → Prop
  | .submit id diff valid submit r nextBlockid =>
    id = instanceId → ∀ client ∈ s.sessions id,
      let newDiff := (c.addSubmit client diff valid submit r nextBlockid).diff
      newDiff ≠ client.diff →
        ∀ ch ∈ s.channels, ch.instanceId = id → m.diffFromTarget ch.maxTarget ≤ newDiff
  | _ => True

/-- What holds of the tables between two events. -/
structure TargetState.Valid (s : TargetState T) : Prop where
  ids_pos : 0 < s.clientIds
  ids : ∀ ch ∈ s.channels, 0 < ch.instanceId ∧ ch.instanceId < s.clientIds
  unique : ∀ ch ∈ s.channels, ∀ ch' ∈ s.channels, ch.instanceId = ch'.instanceId → ch = ch'
  announces : ∀ ch ∈ s.channels, ch.Announces m

instance (instanceId : Int) (s : TargetState T) : DecidablePred (VardiffFits c m instanceId s)
  | .submit id diff valid submit r nextBlockid =>
    inferInstanceAs (Decidable (id = instanceId → ∀ client ∈ s.sessions id,
      (c.addSubmit client diff valid submit r nextBlockid).diff ≠ client.diff →
        ∀ ch ∈ s.channels, ch.instanceId = id → m.diffFromTarget ch.maxTarget ≤
          (c.addSubmit client diff valid submit r nextBlockid).diff))
  | .openChannel _ _ _ _ _ _ => isTrue trivial
  | .updateChannel _ _ _ _ _ _ => isTrue trivial
  | .setTarget _ _ => isTrue trivial

variable {c m} {s : TargetState T} {k : Int} {f : TargetChannel T → TargetChannel T}

/-- A share keeps the difficulty of a session, or moves it to one that is positive. -/
theorem addSubmit_diff (client : DiffClient) (diff : Int) (valid submit : Bool) (r : ShareRate)
    (nextBlockid : Int) :
    (c.addSubmit client diff valid submit r nextBlockid).diff = client.diff ∨
      1 ≤ (c.addSubmit client diff valid submit r nextBlockid).diff := by
  by_cases hcount : valid ∨ submit
  · have hgrace := grace_addSubmit c client diff hcount r nextBlockid
    cases hmove : c.retarget client diff r with
    | none =>
      rw [hmove] at hgrace
      exact Or.inl (congrArg Prod.fst hgrace)
    | some optimal =>
      rw [hmove] at hgrace
      have hdiff : (c.addSubmit client diff valid submit r nextBlockid).diff = optimal :=
        congrArg Prod.fst hgrace
      rw [hdiff]
      exact Or.inr (DiffConf.retarget_within hmove).1
  · obtain ⟨hvalid, hsubmit⟩ : valid = false ∧ submit = false := by simpa using hcount
    rw [hvalid, hsubmit, addSubmit_uncounted]
    exact Or.inl rfl

namespace TargetState

/-- A change that keeps the session of a channel and what is announced. -/
theorem Valid.modify (h : s.Valid m) (hf : ∀ ch ∈ s.channels, ch.instanceId = k →
    (f ch).instanceId = k ∧ (f ch).Announces m) : (s.modify k f).Valid m := by
  have hid : ∀ ch ∈ s.channels,
      (if ch.instanceId = k then f ch else ch).instanceId = ch.instanceId := by
    intro ch hch
    split_ifs with hk
    · rw [(hf ch hch hk).1, hk]
    · rfl
  refine ⟨h.ids_pos, ?_, ?_, ?_⟩
  · intro ch hch
    obtain ⟨old, hold, rfl⟩ := mem_modify hch
    rw [hid old hold]
    exact h.ids old hold
  · intro ch hch ch' hch' heq
    obtain ⟨old, hold, rfl⟩ := mem_modify hch
    obtain ⟨old', hold', rfl⟩ := mem_modify hch'
    rw [hid old hold, hid old' hold'] at heq
    rw [h.unique old hold old' hold' heq]
  · intro ch hch
    obtain ⟨old, hold, rfl⟩ := mem_modify hch
    split_ifs with hk
    · exact (hf old hold hk).2
    · exact h.announces old hold

theorem Valid.setSession (h : s.Valid m) (client : DiffClient) : (s.setSession k client).Valid m :=
  ⟨h.ids_pos, h.ids, h.unique, h.announces⟩

/-- `stratifier_sv2_set_diff` takes the difficulty of a channel. -/
theorem sv2SetDiff_diff {client : DiffClient} {d : ℚ} {current : Option Int} {workbaseId : Int}
    (hone : 1 ≤ d) (hmax : d ≤ maxChannelDiff) :
    (sv2SetDiff client (some d) current workbaseId).diff = roundedUp d := by
  dsimp only [sv2SetDiff]
  rw [saneDiffInt64_eq hone hmax, if_neg (not_lt.mpr (one_le_roundedUp hone))]

theorem sv2OpenSession_diff {server : Int} {now : Tv} {d : ℚ} (hone : 1 ≤ d)
    (hmax : d ≤ maxChannelDiff) : (c.sv2OpenSession server now (some d)).diff = roundedUp d := by
  rw [DiffConf.sv2OpenSession, saneDiffInt64_eq hone hmax]
  dsimp only
  rw [if_neg (not_lt.mpr (one_le_roundedUp hone))]

/-- **Opening a channel.** -/
theorem Valid.openChannel (h : s.Valid m) (clientId server : Int) (now : Tv)
    (nominalHr : Option ℚ) (maxTarget : T) (opens : Bool) :
    (s.openChannel c m clientId server now nominalHr maxTarget opens).Valid m ∧
      (s.Agrees k →
        (s.openChannel c m clientId server now nominalHr maxTarget opens).Agrees k) := by
  rw [TargetState.openChannel]
  dsimp only
  generalize hfloor : c.serverDiffFloor server = floor
  have hone : 1 ≤ c.chooseChannelDiff m nominalHr maxTarget floor := one_le_clampChannelDiff _
  have hmax : c.chooseChannelDiff m nominalHr maxTarget floor ≤ maxChannelDiff :=
    clampChannelDiff_le _
  have hfits := TargetChannel.chooseChannelDiff_fits (c := c) (m := m) nominalHr maxTarget floor
  generalize c.chooseChannelDiff m nominalHr maxTarget floor = diff at hone hmax hfits
  have hlt : ∀ ch ∈ s.channels, 0 < ch.instanceId ∧ ch.instanceId < s.clientIds + 1 :=
    fun ch hch => ⟨(h.ids ch hch).1, Int.lt_add_one_of_le (h.ids ch hch).2.le⟩
  have hpos : 0 < s.clientIds + 1 := Int.lt_add_one_of_le h.ids_pos.le
  cases opens with
  | false => exact ⟨⟨hpos, hlt, h.unique, h.announces⟩, id⟩
  | true =>
    rw [if_pos rfl]
    generalize hnew : TargetChannel.pushSetTarget m (TargetChannel.pushSetTarget m _) = new
    obtain ⟨hann, hid, hdiff⟩ : new.Announces m ∧ new.instanceId = s.clientIds ∧
        new.diff = diff := by
      have hfirst : (TargetChannel.pushSetTarget m ⟨clientId,
          if s.nextChannelId clientId = 0 then 1 else s.nextChannelId clientId, s.clientIds,
          floor, diff, maxTarget, maxTarget⟩).Announces m :=
        TargetChannel.pushSetTarget_announces hone
      rw [← hnew]
      refine ⟨TargetChannel.pushSetTarget_announces hfirst.one_le, ?_, ?_⟩
      · rw [(TargetChannel.pushSetTarget_rest m _).2.2.1,
          (TargetChannel.pushSetTarget_rest m _).2.2.1]
      · rw [TargetChannel.pushSetTarget_diff hfirst.one_le hfirst.fits,
          TargetChannel.pushSetTarget_diff hone hfits]
    refine ⟨Valid.setSession ⟨hpos, ?_, ?_, ?_⟩ _, fun hagrees => ?_⟩
    · intro ch hch
      rcases List.mem_cons.mp hch with rfl | hch
      · rw [hid]
        exact ⟨h.ids_pos, Int.lt_succ _⟩
      · exact hlt ch hch
    · -- the id of the session is new
      intro ch hch ch' hch' heq
      rcases List.mem_cons.mp hch with hsame | hold <;>
        rcases List.mem_cons.mp hch' with hsame' | hold'
      · rw [hsame, hsame']
      · rw [hsame, hid] at heq
        exact absurd heq.symm (h.ids ch' hold').2.ne
      · rw [hsame', hid] at heq
        exact absurd heq (h.ids ch hold).2.ne
      · exact h.unique ch hold ch' hold' heq
    · intro ch hch
      rcases List.mem_cons.mp hch with rfl | hch
      · exact hann
      · exact h.announces ch hch
    · by_cases hk : k = s.clientIds
      · rw [hk]
        refine agrees_setSession fun ch hch hsession => ?_
        rcases List.mem_cons.mp hch with rfl | hch
        · rw [sv2OpenSession_diff hone hmax, hdiff]
        · exact absurd hsession (h.ids ch hch).2.ne
      · refine Agrees.setSession_ne ?_ hk _
        intro ch hch hsession
        rcases List.mem_cons.mp hch with rfl | hch
        · exact absurd (hsession.symm.trans hid) hk
        · exact hagrees ch hch hsession

/-- **A share**, and the SetTarget after it. -/
theorem Valid.submit (h : s.Valid m) (instanceId diff : Int) (valid submit : Bool)
    (r : ShareRate) (nextBlockid : Int) :
    (s.submit c m instanceId diff valid submit r nextBlockid).Valid m ∧
      (VardiffFits c m k s (.submit instanceId diff valid submit r nextBlockid) → s.Agrees k →
        (s.submit c m instanceId diff valid submit r nextBlockid).Agrees k) := by
  rw [TargetState.submit]
  cases hsession : s.sessions instanceId with
  | none => exact ⟨h, fun _ => id⟩
  | some client =>
    dsimp only
    have hmoves := addSubmit_diff (c := c) client diff valid submit r nextBlockid
    by_cases hsame : (c.addSubmit client diff valid submit r nextBlockid).diff = client.diff
    · rw [if_pos hsame]
      refine ⟨h.setSession _, fun _ hagrees => ?_⟩
      by_cases hk : k = instanceId
      · subst hk
        refine agrees_setSession fun ch hch hid => ?_
        obtain ⟨client', hclient', hdiff⟩ := hagrees ch hch hid
        rw [hsession] at hclient'
        obtain rfl := Option.some.inj hclient'
        rw [hsame, hdiff]
      · exact hagrees.setSession_ne hk _
    · rw [if_neg hsame, setInstanceDiff]
      have hpos := hmoves.resolve_left hsame
      have hfits : VardiffFits c m k s (.submit instanceId diff valid submit r nextBlockid) →
          instanceId = k → ∀ ch ∈ s.channels, ch.instanceId = instanceId →
            m.diffFromTarget ch.maxTarget ≤
              (c.addSubmit client diff valid submit r nextBlockid).diff :=
        fun hfits heq => hfits heq client hsession hsame
      generalize c.addSubmit client diff valid submit r nextBlockid = client' at *
      have hone : (1 : ℚ) ≤ client'.diff := by exact_mod_cast hpos
      by_cases hid : instanceId < 1 ∨ client'.diff < 1
      · -- no channel has a session of this id
        rw [if_pos hid]
        refine ⟨h.setSession _, fun _ hagrees => ?_⟩
        by_cases hk : k = instanceId
        · subst hk
          refine agrees_setSession fun ch hch hsame => ?_
          have hchannel := (h.ids ch hch).1
          omega
        · exact hagrees.setSession_ne hk _
      · rw [if_neg hid]
        refine ⟨(h.setSession _).modify fun ch _ hch => ?_, fun hvardiff hagrees => ?_⟩
        · exact ⟨(TargetChannel.pushSetTarget_rest m _).2.2.1.trans hch,
            TargetChannel.pushSetTarget_announces hone⟩
        · by_cases hk : k = instanceId
          · subst hk
            refine agrees_setSession (s := s.modify k _) fun ch hch hid => ?_
            obtain ⟨old, hold, rfl⟩ := mem_modify hch
            by_cases hown : old.instanceId = k
            · rw [if_pos hown, TargetChannel.pushSetTarget_diff hone
                (Or.inl (hfits hvardiff rfl old hold hown)), roundedUp_intCast (by omega)]
            · rw [if_neg hown] at hid
              exact absurd hid hown
          · refine (hagrees.setSession_ne hk _).modify_ne hk fun ch _ hch => ?_
            exact (TargetChannel.pushSetTarget_rest m _).2.2.1.trans hch

/-- **An UpdateChannel.** -/
theorem Valid.updateChannel (h : s.Valid m) (clientId : Int) (channelId : UInt32)
    (nominalHr : Option ℚ) (maxTarget : T) (current : Option Int) (workbaseId : Int) :
    (s.updateChannel c m clientId channelId nominalHr maxTarget current workbaseId).Valid m ∧
      (s.Agrees k →
        (s.updateChannel c m clientId channelId nominalHr maxTarget current workbaseId).Agrees k)
    := by
  cases nominalHr with
  | none => exact ⟨h, id⟩
  | some nominalHr =>
    dsimp only [TargetState.updateChannel]
    by_cases hneg : nominalHr < 0
    · rw [if_pos hneg]
      exact ⟨h, id⟩
    rw [if_neg hneg]
    cases hfind : s.findChannel clientId channelId with
    | none => exact ⟨h, id⟩
    | some ch =>
      have hch := mem_of_findChannel hfind
      have hne : ¬ ch.instanceId = 0 := (h.ids ch hch).1.ne'
      obtain ⟨hann, hid, htold, huntold⟩ :=
        TargetChannel.update_spec (c := c) (h.announces ch hch) nominalHr maxTarget
      dsimp only
      rw [if_neg hne]
      generalize ch.update c m nominalHr maxTarget = updated at *
      obtain ⟨ch', told⟩ := updated
      dsimp only at *
      have hvalid : (s.modify ch.instanceId fun _ => ch').Valid m :=
        h.modify fun _ _ _ => ⟨hid, hann⟩
      have hother : k ≠ ch.instanceId → s.Agrees k →
          (s.modify ch.instanceId fun _ => ch').Agrees k :=
        fun hk hagrees => hagrees.modify_ne hk fun _ _ _ => hid
      have hown : ∀ other ∈ (s.modify ch.instanceId fun _ => ch').channels,
          other.instanceId = ch.instanceId → other = ch' := by
        intro other hmem hother
        obtain ⟨old, hold, rfl⟩ := mem_modify hmem
        by_cases hsame : old.instanceId = ch.instanceId
        · rw [if_pos hsame]
        · rw [if_neg hsame] at hother
          exact absurd hother hsame
      cases hsession : s.sessions ch.instanceId with
      | none =>
        refine ⟨hvalid, fun hagrees => ?_⟩
        by_cases hk : k = ch.instanceId
        · obtain ⟨client, hclient, -⟩ := hagrees ch hch hk.symm
          rw [hk, hsession] at hclient
          cases hclient
        · exact hother hk hagrees
      | some client =>
        dsimp only
        cases told with
        | true =>
          rw [if_pos rfl]
          refine ⟨hvalid.setSession _, fun hagrees => ?_⟩
          by_cases hk : k = ch.instanceId
          · rw [hk]
            refine agrees_setSession fun other hmem hsame => ?_
            rw [hown other hmem hsame, sv2SetDiff_diff hann.one_le (htold rfl)]
          · exact (hother hk hagrees).setSession_ne hk _
        | false =>
          rw [if_neg Bool.false_ne_true]
          refine ⟨hvalid, fun hagrees => ?_⟩
          by_cases hk : k = ch.instanceId
          · intro other hmem hsame
            obtain ⟨client', hclient', hdiff⟩ := hagrees ch hch hk.symm
            refine ⟨client', hclient', ?_⟩
            rw [hown other hmem (hsame.trans hk), huntold rfl, hdiff]
          · exact hother hk hagrees

/-- **A SetTarget that goes out once more.** -/
theorem Valid.setTarget (h : s.Valid m) (id : Int) :
    (s.modify id fun ch => ch.pushSetTarget m).Valid m ∧
      (s.Agrees k → (s.modify id fun ch => ch.pushSetTarget m).Agrees k) := by
  refine ⟨h.modify fun ch hch hid => ?_, fun hagrees ch hch hid => ?_⟩
  · exact ⟨(TargetChannel.pushSetTarget_rest m ch).2.2.1.trans hid,
      TargetChannel.pushSetTarget_announces (h.announces ch hch).one_le⟩
  · obtain ⟨old, hold, rfl⟩ := mem_modify hch
    split_ifs at hid ⊢
    · rw [(TargetChannel.pushSetTarget_rest m old).2.2.1] at hid
      rw [TargetChannel.pushSetTarget_diff (h.announces old hold).one_le (h.announces old hold).fits]
      exact hagrees old hold hid
    · exact hagrees old hold hid

/-- **A step keeps what is announced**, and the two copies of a difficulty agree unless
vardiff goes below the `max_target` of the channel. -/
theorem Valid.step (h : s.Valid m) (e : TargetEvent T) :
    (targetStep c m s e).Valid m ∧
      (VardiffFits c m k s e → s.Agrees k → (targetStep c m s e).Agrees k) := by
  cases e with
  | openChannel clientId server now nominalHr maxTarget opens =>
    obtain ⟨hvalid, hagrees⟩ := h.openChannel clientId server now nominalHr maxTarget opens
    exact ⟨hvalid, fun _ => hagrees⟩
  | submit instanceId diff valid submit r nextBlockid =>
    exact h.submit instanceId diff valid submit r nextBlockid
  | updateChannel clientId channelId nominalHr maxTarget current workbaseId =>
    obtain ⟨hvalid, hagrees⟩ :=
      h.updateChannel clientId channelId nominalHr maxTarget current workbaseId
    exact ⟨hvalid, fun _ => hagrees⟩
  | setTarget clientId channelId =>
    rw [targetStep]
    cases hfind : s.findChannel clientId channelId with
    | none => exact ⟨h, fun _ => id⟩
    | some ch =>
      obtain ⟨hvalid, hagrees⟩ := h.setTarget ch.instanceId
      exact ⟨hvalid, fun _ => hagrees⟩

theorem valid_start (conf : StratConf) : (start conf : TargetState T).Valid m where
  ids_pos := conf.serverurls_pos
  ids _ hch := absurd hch List.not_mem_nil
  unique _ hch := absurd hch List.not_mem_nil
  announces _ hch := absurd hch List.not_mem_nil

theorem shareDiff_le (client : DiffClient) (id : Int) : client.shareDiff id ≤ client.diff := by
  rw [DiffClient.shareDiff]
  split_ifs <;> first | exact min_le_left _ _ | exact le_refl _

theorem shareDiff_of_le {client : DiffClient} {id : Int} (h : client.diffChangeJobId ≤ id) :
    client.shareDiff id = client.diff := by
  have hnew : ¬ id < client.diffChangeJobId := not_lt.mpr h
  rw [DiffClient.shareDiff]
  split_ifs with _ hold
  · exact absurd hold.2.1 hnew
  · rfl
  · rfl

/-- The difficulty of a channel is the one that is announced, up to the ceiling. -/
theorem credited_of_announces {ch : TargetChannel T} (h : ch.Announces m) :
    roundedUp ch.diff = roundedUp (m.diffFromTarget ch.announced) ∨
      maxChannelDiff < m.diffFromTarget ch.announced ∧
        roundedUp ch.diff = 1000000000000000 := by
  rcases h.diff_announced with heq | ⟨hdiff, hlt⟩
  · rw [heq, m.diffFromTarget_targetFromDiff _ (zero_lt_one.trans_le h.one_le)]
    exact Or.inl rfl
  · refine Or.inr ⟨hlt, ?_⟩
    have hwhole : maxChannelDiff = ((1000000000000000 : Int) : ℚ) := by norm_num [maxChannelDiff]
    rw [hdiff, hwhole]
    exact roundedUp_intCast (by norm_num)

/-- **The target a miner has is one it takes, and its shares are credited by it.**  The first
holds in every run, the second in every run in which vardiff does not go below the
`max_target` of the channel.  Shares of earlier workbases may still pass with the
difficulty before the change. -/
theorem announced_target_credited (c : DiffConf) (m : TargetMaps T) (conf : StratConf)
    (events : List (TargetEvent T)) :
    let s := run (targetStep c m) (start conf) events
    ∀ ch ∈ s.channels, ch.announced ≤ ch.maxTarget ∧
      (Along (targetStep c m) (VardiffFits c m ch.instanceId) (start conf) events →
        ∃ client, s.sessions ch.instanceId = some client ∧
          (client.diff = roundedUp (m.diffFromTarget ch.announced) ∨
            maxChannelDiff < m.diffFromTarget ch.announced ∧
              client.diff = 1000000000000000) ∧
          ∀ id, client.shareDiff id ≤ client.diff ∧
            (client.diffChangeJobId ≤ id → client.shareDiff id = client.diff)) := by
  intro s ch hch
  have hvalid : s.Valid m :=
    run_invariant_always (I := fun s : TargetState T => s.Valid m)
      (fun s e h => (Valid.step (k := 0) h e).1) events (valid_start conf)
  refine ⟨(hvalid.announces ch hch).le_max, fun hfits => ?_⟩
  have hagrees : s.Valid m ∧ s.Agrees ch.instanceId := by
    refine run_invariant (I := fun s : TargetState T => s.Valid m ∧ s.Agrees ch.instanceId)
      (fun s e he h => ?_) hfits ⟨valid_start conf, ?_⟩
    · obtain ⟨hstep, hkeeps⟩ := h.1.step (k := ch.instanceId) e
      exact ⟨hstep, hkeeps he h.2⟩
    · exact fun ch hch => absurd hch List.not_mem_nil
  obtain ⟨client, hclient, hdiff⟩ := hagrees.2 ch hch rfl
  refine ⟨client, hclient, ?_, fun id => ⟨shareDiff_le client id, shareDiff_of_le⟩⟩
  rw [hdiff]
  exact credited_of_announces (hvalid.announces ch hch)

end TargetState

end Copies

/-! ### Where the copies differ -/

/-- A configuration that starts clients at difficulty 1. -/
def lowDiffConf : DiffConf :=
  readDiffConf (some 1) (some 1) none none [] [false] false false false true

namespace TargetState

/-- Client 7 opens a channel that takes no target easier than `diff`. -/
def openAt (diff : ℚ) : TargetEvent {t : ℚ // 0 < t} :=
  .openChannel 7 0 ⟨1000, 0⟩ none (exactTargets.targetFromDiff diff) true

/-- A share of the channel at difficulty 1000, slow enough for a difficulty of 100. -/
def slowShare (sec : Int) : TargetEvent {t : ℚ // 0 < t} :=
  .submit 1 1000 true true ⟨⟨sec, 0⟩, 30, 30, 1000000, 0⟩ 5

/-- The difficulty each channel was announced, and that of its session. -/
def copies (events : List (TargetEvent {t : ℚ // 0 < t})) : List (ℚ × Option Int) :=
  let s := run (targetStep lowDiffConf exactTargets) (start StratState.dropConf) events
  s.channels.map fun ch =>
    (exactTargets.diffFromTarget ch.announced, (s.sessions ch.instanceId).map DiffClient.diff)

/-- A channel whose `max_target` rises to a difficulty of 5000, and then falls to 50, after
which vardiff may go down to 100. -/
def updatedRun : List (TargetEvent {t : ℚ // 0 < t}) :=
  [openAt 1000, .updateChannel 7 1 (some 0) (exactTargets.targetFromDiff 5000) (some 3) 4,
    .updateChannel 7 1 (some 3000000000000) (exactTargets.targetFromDiff 50) (some 3) 4,
    .submit 1 5000 true true ⟨⟨2000, 0⟩, 30, 30, 1000000, 0⟩ 5,
    .submit 1 5000 true true ⟨⟨2300, 0⟩, 30, 30, 1000000, 0⟩ 5]

theorem updated_target_credited :
    let s := run (targetStep lowDiffConf exactTargets) (start StratState.dropConf) updatedRun
    ∃ ch ∈ s.channels, ∃ client, s.sessions ch.instanceId = some client ∧
      (client.diff = roundedUp (exactTargets.diffFromTarget ch.announced) ∨
        maxChannelDiff < exactTargets.diffFromTarget ch.announced ∧
          client.diff = 1000000000000000) := by
  intro s
  have hfits : ∃ ch ∈ s.channels, Along (targetStep lowDiffConf exactTargets)
      (VardiffFits lowDiffConf exactTargets ch.instanceId) (start StratState.dropConf)
      updatedRun := by
    decide +kernel
  obtain ⟨ch, hch, halong⟩ := hfits
  obtain ⟨client, hclient, hdiff, -⟩ :=
    (announced_target_credited lowDiffConf exactTargets StratState.dropConf updatedRun ch
      hch).2 halong
  exact ⟨ch, hch, client, hclient, hdiff⟩

/-- A target above the ceiling is credited with the ceiling, a small fraction is dropped, and
after a vardiff below `max_target` the shares count a tenth of what is announced. -/
theorem announced_not_credited :
    copies [openAt 10000000000000000] = [(10000000000000000, some 1000000000000000)] ∧
      copies [openAt (1000 + 1 / 10000000)] = [(1000 + 1 / 10000000, some 1000)] ∧
      copies [openAt 1000, slowShare 1000, slowShare 1300] = [(1000, some 100)] := by
  decide +kernel

end TargetState

end CashStratum
