/-
CashStratum/DiffBounds.lean

The bounds of an assigned difficulty (`stratifier.c`): at least 1 and, if `maxdiff` is
set, at most `maxdiff`.

Every request is clamped, but not every difficulty is one.  `startdiff` and `highdiff`
are assigned as they stand in the configuration, and `sauth_process` raises to `mindiff`
last.  The configuration is not checked: with a `maxdiff` below the default `startdiff`
each client starts above it (`startdiff_exceeds_maxdiff`).  `difficulty_in_bounds` says
for which configurations no run of a connection leaves the bounds.
-/
import CashStratum.DifficultyRun

namespace CashStratum

/-! ### Rounding -/

theorem truncate_le {x : ℚ} {n : Int} (h : x ≤ n) : truncate x ≤ n := by
  unfold truncate
  split_ifs
  · have hfloor : (⌊x⌋ : ℚ) ≤ n := (Int.floor_le x).trans h
    exact_mod_cast hfloor
  · exact Int.ceil_le.mpr h

/-- A vardiff target is within the bounds it is given. -/
theorem vardiffTarget_within {dsps networkDiff : ℚ} {cur floor poolMindiff poolMaxdiff : Int}
    (h : vardiffTarget dsps cur floor poolMindiff poolMaxdiff networkDiff ≠ 0) :
    1 ≤ vardiffTarget dsps cur floor poolMindiff poolMaxdiff networkDiff ∧
      (poolMaxdiff ≠ 0 →
        vardiffTarget dsps cur floor poolMindiff poolMaxdiff networkDiff ≤ poolMaxdiff) := by
  unfold vardiffTarget at h ⊢
  dsimp only at h ⊢
  generalize max (max (if floor ≠ 0 then lround (dsps * (12 / 5))
    else lround (dsps * (333 / 100))) poolMindiff) floor = wanted at h ⊢
  have hwanted : poolMaxdiff ≠ 0 →
      (if poolMaxdiff ≠ 0 then min wanted poolMaxdiff else wanted) ≤ poolMaxdiff := by
    intro hmax
    rw [if_pos hmax]
    exact min_le_right wanted poolMaxdiff
  generalize (if poolMaxdiff ≠ 0 then min wanted poolMaxdiff else wanted) = optimal at *
  have hoptimal : (if optimal < networkDiff then optimal else truncate networkDiff) ≤ optimal := by
    split_ifs with hlt
    · exact le_refl optimal
    · exact truncate_le (not_lt.mp hlt)
  generalize (if optimal < networkDiff then optimal else truncate networkDiff) = target at *
  split_ifs at h ⊢ with _ _ hlow
  any_goals exact absurd rfl h
  exact ⟨not_lt.mp hlow, fun hmax => hoptimal.trans (hwanted hmax)⟩

namespace DiffConf

variable (c : DiffConf)

/-! ### Configurations -/

/-- A difficulty is within the bounds. -/
def Within (d : Int) : Prop := 1 ≤ d ∧ (c.maxdiff ≠ 0 → d ≤ c.maxdiff)

/-- The difficulty a client starts with on a server. -/
def startOn (server : Int) : Int :=
  if c.isHighdiff server then max c.startdiff c.highdiff else c.startdiff

/-- **The configuration agrees with itself**: `mindiff` is at least 1, what clients start
with is within the bounds, and `mindiff` is not above `maxdiff`, unless the pool leaves
authorisation to an upstream pool. -/
structure BoundsAgree : Prop where
  mindiff : 1 ≤ c.mindiff
  start : ∀ server, c.Within (c.startOn server)
  maxdiff : c.maxdiff ≠ 0 → (c.remote ∧ !c.btcsolo) ∨ c.mindiff ≤ c.maxdiff

variable {c}

theorem BoundsAgree.one_le_maxdiff (h : c.BoundsAgree) (hmax : c.maxdiff ≠ 0) : 1 ≤ c.maxdiff :=
  ((h.start 0).1).trans ((h.start 0).2 hmax)

theorem BoundsAgree.clamp (h : c.BoundsAgree) (d : Int) : c.Within (c.clampRequestedDiff d) := by
  have hmin := h.mindiff
  have hpos := h.one_le_maxdiff
  unfold clampRequestedDiff Within
  dsimp only
  split_ifs <;> constructor <;> omega

/-- A server's `startdiff` is within `maxdiff`, whatever its kind. -/
theorem BoundsAgree.startdiff (h : c.BoundsAgree) (hmax : c.maxdiff ≠ 0) :
    c.startdiff ≤ c.maxdiff := by
  have hstart := (h.start 0).2 hmax
  unfold startOn at hstart
  split_ifs at hstart
  · exact (le_max_left _ _).trans hstart
  · exact hstart

/-- What a client of such a configuration keeps: its difficulty is within the bounds, and
so is everything its difficulty may be set to again. -/
structure Assigned (c : DiffConf) (client : DiffClient) : Prop where
  diff : c.Within client.diff
  suggest : c.maxdiff ≠ 0 → client.suggestDiff ≤ c.maxdiff
  base : c.maxdiff ≠ 0 → client.baseSuggestDiff ≤ c.maxdiff
  rental : client.rentalDiff → 1 ≤ client.baseSuggestDiff
  unpinned : 1 ≤ max client.baseSuggestDiff c.startdiff
  sv1 : client.sv2 = false

theorem BoundsAgree.addInstance (h : c.BoundsAgree) (server : Int) (now : Tv) (latency : Int)
    (remote : Bool) : c.Assigned (c.addInstance server now latency remote) := by
  obtain ⟨hone, hmax⟩ := h.start server
  have hpos := h.one_le_maxdiff
  unfold startOn at hone hmax
  unfold DiffConf.addInstance
  dsimp only
  by_cases hhigh : c.isHighdiff server
  · rw [if_pos hhigh] at hone hmax ⊢
    have hhighdiff : c.maxdiff ≠ 0 → c.highdiff ≤ c.maxdiff := fun hset =>
      (le_max_right _ _).trans (hmax hset)
    have hstartdiff : c.maxdiff ≠ 0 → c.startdiff ≤ c.maxdiff := fun hset =>
      (le_max_left _ _).trans (hmax hset)
    rw [max_comm] at hone
    by_cases hgt : c.highdiff > c.startdiff
    · rw [if_pos hgt]
      refine ⟨⟨?_, hhighdiff⟩, hhighdiff, hhighdiff, nofun, hone, rfl⟩
      rwa [max_eq_left hgt.le] at hone
    · rw [if_neg hgt]
      refine ⟨⟨?_, hstartdiff⟩, hhighdiff, hhighdiff, nofun, hone, rfl⟩
      rwa [max_eq_right (not_lt.mp hgt)] at hone
  · rw [if_neg hhigh] at hone hmax ⊢
    have hzero : c.maxdiff ≠ 0 → (0 : Int) ≤ c.maxdiff := fun hset => by
      have := hpos hset
      omega
    exact ⟨⟨hone, hmax⟩, hzero, hzero, nofun, hone.trans (le_max_right 0 _), rfl⟩

variable {client : DiffClient}

/-- A difficulty within the bounds may be assigned. -/
theorem Assigned.assign (h : c.Assigned client) {d : Int} (hd : c.Within d) :
    c.Assigned { client with suggestDiff := d, diff := d, oldDiff := d } :=
  ⟨hd, hd.2, h.base, h.rental, h.unpinned, h.sv1⟩

theorem Assigned.applyRental (h : c.Assigned client) {d : Int} (hd : c.Within d) :
    c.Assigned (applyRental client d) :=
  ⟨hd, hd.2, hd.2, fun _ => hd.1, hd.1.trans (le_max_left _ _), h.sv1⟩

theorem BoundsAgree.mindiffOverrideDiff (h : c.BoundsAgree) (key : Bytes) (fallback : Int) :
    c.Within (c.mindiffOverrideDiff key fallback) := by
  unfold DiffConf.mindiffOverrideDiff
  split <;> exact h.clamp _

theorem Assigned.parseSubscribe (hc : c.BoundsAgree) (h : c.Assigned client) (useragent : Bytes) :
    c.Assigned (c.parseSubscribe client useragent) := by
  have hagent : c.Assigned { client with useragent := some useragent } := { h with }
  unfold DiffConf.parseSubscribe
  dsimp only
  split_ifs
  · exact hagent.applyRental (hc.mindiffOverrideDiff _ _)
  · exact hagent.applyRental (hc.mindiffOverrideDiff _ _)
  · exact hagent

/-! ### Authorisation -/

theorem Assigned.resetAuthPin (hc : c.BoundsAgree) (h : c.Assigned client) :
    c.Assigned (c.resetAuthPin client).1 := by
  unfold DiffConf.resetAuthPin
  dsimp only
  split_ifs with hpin hrental
  · exact { h with }
  · exact ⟨⟨h.rental hrental, h.base⟩, h.base, h.base, h.rental, h.unpinned, h.sv1⟩
  · refine ⟨⟨h.unpinned, ?_⟩, h.base, h.base, h.rental, h.unpinned, h.sv1⟩
    exact fun hmax => max_le (h.base hmax) (hc.startdiff hmax)

/-- A worker name that matches no override leaves the difficulty as it is. -/
theorem applyOverride_none {workername : Bytes} (h : c.workerOverride workername = none) :
    c.applyOverride client workername = client := by
  unfold applyOverride
  rw [h]
  exact ite_self client

theorem applyOverride_some {workername : Bytes} {override : Int}
    (hrental : ¬client.rentalDiff) (h : c.workerOverride workername = some override) :
    c.applyOverride client workername =
      { client with
        suggestDiff := c.clampRequestedDiff override
        diff := c.clampRequestedDiff override
        oldDiff := c.clampRequestedDiff override } := by
  unfold applyOverride
  rw [if_neg hrental, h]
  simp only [ne_eq, c.mindiff_ne, not_false_eq_true, true_and]
  rfl

theorem Assigned.applyOverride (hc : c.BoundsAgree) (h : c.Assigned client) (workername : Bytes) :
    c.Assigned (c.applyOverride client workername) := by
  by_cases hrental : client.rentalDiff
  · rw [DiffConf.applyOverride, if_pos hrental]
    exact h
  · rcases hmatch : c.workerOverride workername with _ | override
    · rw [applyOverride_none hmatch]
      exact h
    · rw [applyOverride_some hrental hmatch]
      exact h.assign (hc.clamp override)

theorem Assigned.applyPasswordDiff (hc : c.BoundsAgree) (h : c.Assigned client) (pass : Bytes) :
    c.Assigned (c.applyPasswordDiff client pass) := by
  have hmin := hc.mindiff
  have hpos := hc.one_le_maxdiff
  have hdiff := h.diff.1
  unfold DiffConf.applyPasswordDiff
  dsimp only
  by_cases hreq : 0 < passwordRequestedDiff pass
  · rw [if_pos hreq]
    generalize passwordRequestedDiff pass = requested at *
    have hwithin : ∀ d : Int, 1 ≤ d →
        c.Within (if c.maxdiff ≠ 0 ∧ c.maxdiff < d then c.maxdiff else d) := by
      intro d hd
      unfold Within
      split_ifs <;> constructor <;> omega
    have hraised : 1 ≤ if c.mindiff ≠ 0 ∧ requested < c.mindiff then c.mindiff else requested := by
      split_ifs <;> omega
    generalize (if c.mindiff ≠ 0 ∧ requested < c.mindiff then c.mindiff else requested) = d at *
    have hfloor : 1 ≤ if client.rentalDiff ∧ d < client.diff then client.diff else d := by
      split_ifs <;> omega
    have hassign := h.assign (hwithin _ hfloor)
    exact { hassign with }
  · rw [if_neg hreq]
    exact h

theorem Assigned.restartWindow (h : c.Assigned client) (wasPinned : Bool) (now : Tv) :
    c.Assigned (restartWindow wasPinned now client) := by
  unfold DiffConf.restartWindow
  split_ifs
  · exact { h with }
  · exact h

theorem Assigned.defaultDiff (h : c.Assigned client) : c.Assigned (c.defaultDiff client) := by
  -- a difficulty of zero is not within the bounds
  have hne : client.diff ≠ 0 := by
    have hone := h.diff.1
    omega
  rw [DiffConf.defaultDiff, if_neg hne]
  exact h

theorem Assigned.parseAuthorise (hc : c.BoundsAgree) (h : c.Assigned client) (a : AuthRequest) :
    c.Assigned (c.parseAuthorise client a) := by
  have hover := (h.resetAuthPin hc).applyOverride hc a.workername
  have hpass : c.Assigned
      (c.applyPass (c.applyOverride (c.resetAuthPin client).1 a.workername) a.pass) := by
    cases a.pass with
    | none => exact hover
    | some pass => exact hover.applyPasswordDiff hc pass
  have hwindow := hpass.restartWindow (c.resetAuthPin client).2 a.now
  exact hwindow.defaultDiff

theorem Assigned.reconcile (hc : c.BoundsAgree) (hlocal : ¬(c.remote ∧ !c.btcsolo))
    (h : c.Assigned client) : c.Assigned (c.reconcile client 0) := by
  unfold DiffConf.reconcile
  dsimp only
  by_cases hsuggest : client.suggestDiff ≠ 0
  swap
  · rw [if_neg hsuggest, if_neg (not_not.mpr rfl)]
    exact h
  rw [if_pos hsuggest, if_pos hsuggest]
  split_ifs
  swap
  · exact h
  refine ⟨⟨hc.mindiff.trans (le_max_left _ _), ?_⟩, h.suggest, h.base, h.rental, h.unpinned, h.sv1⟩
  exact fun hmax => max_le ((hc.maxdiff hmax).resolve_left hlocal) (h.suggest hmax)

theorem Assigned.sauthProcess (hc : c.BoundsAgree) (h : c.Assigned client) {a : AuthRequest}
    (ha : a.workerMindiff = 0) : c.Assigned (c.sauthProcess client a) := by
  have hparse := h.parseAuthorise hc a
  have hauthorised : c.Assigned { c.parseAuthorise client a with authorised := true } :=
    { hparse with }
  unfold DiffConf.sauthProcess finishAuth
  dsimp only
  rw [ha]
  split_ifs with _ _ hremote
  · exact h
  · exact hparse
  · exact hparse
  · exact hauthorised
  · exact hauthorised.reconcile hc hremote

/-! ### Suggestions and shares -/

theorem Assigned.suggestDiff (hc : c.BoundsAgree) (h : c.Assigned client) (m : Suggestion)
    (workbaseId : Int) : c.Assigned (c.suggestDiff client m workbaseId) := by
  unfold DiffConf.suggestDiff
  cases m.value with
  | none => exact h
  | some sdiff =>
    have hclamp := hc.clamp sdiff
    dsimp only
    split_ifs
    · exact h
    · exact { h with suggest := hclamp.2 }
    · exact { h with diff := hclamp, suggest := hclamp.2 }

theorem retarget_within {diff x : Int} {r : ShareRate} (h : c.retarget client diff r = some x) :
    c.Within x := by
  unfold retarget at h
  dsimp only at h
  obtain ⟨-, hfalse⟩ | ⟨hnone, hsome⟩ := ite_eq_iff.mp h
  · cases hfalse
  · obtain rfl := Option.some.inj hsome
    simp only [not_or] at hnone
    exact vardiffTarget_within hnone.2.2.2.2.1

theorem Assigned.vardiff (h : c.Assigned client) {diff nextBlockid : Int} {r : ShareRate}
    (hdiff : c.Within (c.vardiff client diff r nextBlockid).diff) :
    c.Assigned (c.vardiff client diff r nextBlockid) := by
  rw [vardiff_rest]
  exact { h with diff := hdiff }

theorem Assigned.addSubmit (h : c.Assigned client) (diff : Int) (valid submit : Bool)
    (r : ShareRate) (nextBlockid : Int) :
    c.Assigned (c.addSubmit client diff valid submit r nextBlockid) := by
  have hbegun : c.Assigned (client.firstSubmit r.now) := by
    unfold DiffClient.firstSubmit
    split_ifs
    · exact { h with }
    · exact h
  have hwithin : c.Within (c.addSubmit client diff valid submit r nextBlockid).diff := by
    by_cases hcount : valid ∨ submit
    · have hgrace := congrArg Prod.fst (grace_addSubmit c client diff hcount r nextBlockid)
      rcases hx : c.retarget client diff r with _ | x
      · rw [hx] at hgrace
        rw [show (c.addSubmit client diff valid submit r nextBlockid).diff = client.diff from hgrace]
        exact h.diff
      · rw [hx] at hgrace
        rw [show (c.addSubmit client diff valid submit r nextBlockid).diff = x from hgrace]
        exact retarget_within hx
    · have hvalid : valid = false := by simpa using fun hv => hcount (Or.inl hv)
      have hsubmit : submit = false := by simpa using fun hs => hcount (Or.inr hs)
      rw [hvalid, hsubmit, addSubmit_uncounted]
      exact h.diff
  unfold DiffConf.addSubmit at hwithin ⊢
  dsimp only at hwithin ⊢
  split_ifs at hwithin ⊢
  · exact h
  · exact hbegun
  · exact hbegun
  · exact hbegun.vardiff hwithin

end DiffConf

/-! ### Runs -/

/-- The `mindiff` of the worker is zero: `get_worker` zeroes it, and no code sets it. -/
def DiffEvent.WorkerUnset : DiffEvent → Prop
  | .authorise a => a.workerMindiff = 0
  | .submit sh => sh.rate.workerMindiff = 0
  | _ => True

namespace DiffState

variable {c : DiffConf} {s : DiffState c.proxy}

/-- **The step.**  Nothing takes a client of such a configuration out of the bounds. -/
theorem assigned_step (hc : c.BoundsAgree) {e : DiffEvent} (he : e.WorkerUnset)
    (h : c.Assigned s.client) : c.Assigned (step c s e).client := by
  show c.Assigned (stepClient c s e)
  cases e with
  | subscribe useragent ok =>
    dsimp only [stepClient]
    split_ifs
    · exact h
    · exact { h.parseSubscribe hc useragent with }
  | authorise a => exact h.sauthProcess hc he
  | authResult ret =>
    dsimp only [stepClient]
    split_ifs
    · exact { h with }
    · exact h
  | suggest m =>
    dsimp only [stepClient]
    split_ifs
    · exact h
    · exact h
    · exact h.suggestDiff hc m _
  | submit sh =>
    dsimp only [stepClient]
    split_ifs
    · exact h
    · exact h.addSubmit _ _ _ _ _
  | sv2SetDiff diff =>
    dsimp only [stepClient]
    rw [if_neg (by simp [h.sv1])]
    exact h
  | addBase | addRemoteBase | ageBase | notify => exact h

end DiffState

/-! ### Runs that leave the bounds -/

namespace DiffConf

variable {c : DiffConf} {client : DiffClient}

/-- A new client differs from another in its difficulty and its floor. -/
theorem addInstance_rest (c : DiffConf) (server : Int) (now : Tv) (latency : Int) (remote : Bool) :
    c.addInstance server now latency remote =
      { diff := (c.addInstance server now latency remote).diff
        oldDiff := (c.addInstance server now latency remote).oldDiff
        ldc := now
        suggestDiff := (c.addInstance server now latency remote).suggestDiff
        baseSuggestDiff := (c.addInstance server now latency remote).baseSuggestDiff
        latency
        remote } := by
  unfold addInstance
  dsimp only
  split_ifs <;> rfl

theorem diff_addInstance (c : DiffConf) (server : Int) (now : Tv) (latency : Int) (remote : Bool) :
    (c.addInstance server now latency remote).diff = c.startOn server := by
  unfold addInstance startOn
  dsimp only
  split_ifs with hhigh hgt
  · exact (max_eq_right hgt.le).symm
  · exact (max_eq_left (not_lt.mp hgt)).symm
  · rfl

/-- Software that does not give its name is no rental service. -/
theorem parseSubscribe_nil : c.parseSubscribe client [] = { client with useragent := some [] } := by
  unfold parseSubscribe
  dsimp only
  rw [if_neg (by decide), if_neg (by decide)]

theorem resetAuthPin_unpinned (hpin : client.pinnedDiff = false) :
    c.resetAuthPin client = (client, false) := by
  unfold resetAuthPin
  rw [hpin]
  cases client
  simp_all

/-- A password without a valid token leaves the difficulty as it is. -/
theorem applyPass_noToken {a : AuthRequest} (ha : a.NoToken) (client : DiffClient) :
    c.applyPass client a.pass = client := by
  rcases hpass : a.pass with _ | pass
  · rfl
  · have hzero := ha pass hpass
    unfold applyPass applyPasswordDiff
    dsimp only
    rw [hzero, if_neg (lt_irrefl 0)]

/-- An authorisation that asks for nothing leaves the difficulty as it is. -/
theorem parseAuthorise_plain {a : AuthRequest} (hpin : client.pinnedDiff = false)
    (hover : c.applyOverride client a.workername = client) (ha : a.NoToken)
    (hdiff : client.diff ≠ 0) : c.parseAuthorise client a = client := by
  unfold parseAuthorise
  rw [resetAuthPin_unpinned hpin]
  dsimp only
  rw [hover, applyPass_noToken ha, restartWindow, if_neg (by simp), defaultDiff, if_neg hdiff]

/-- A password that asks for 1 gets `maxdiff` when even `mindiff` is above it. -/
theorem parseAuthorise_crossed {a : AuthRequest} (hpin : client.pinnedDiff = false)
    (hover : c.workerOverride a.workername = none) (hpass : a.pass = some [100, 61, 49])
    (hrental : client.rentalDiff = false) (hmax : 1 ≤ c.maxdiff)
    (hcrossed : c.maxdiff < c.mindiff) :
    c.parseAuthorise client a =
      { client with
        suggestDiff := c.maxdiff
        pinnedDiff := true
        diff := c.maxdiff
        oldDiff := c.maxdiff } := by
  have hone : passwordRequestedDiff [100, 61, 49] = 1 := by decide
  have hmaxne : c.maxdiff ≠ 0 := by omega
  have hlow : c.mindiff ≠ 0 ∧ 1 < c.mindiff := ⟨c.mindiff_ne, by omega⟩
  have hfloor : ¬(client.rentalDiff ∧ c.mindiff < client.diff) := by simp [hrental]
  unfold parseAuthorise
  rw [resetAuthPin_unpinned hpin]
  dsimp only
  rw [applyOverride_none hover, hpass, applyPass, applyPasswordDiff]
  dsimp only
  rw [hone, if_pos Int.one_pos, if_pos hlow, if_neg hfloor, if_pos ⟨hmaxne, hcrossed⟩,
    restartWindow, if_neg (by simp), defaultDiff, if_neg hmaxne]

end DiffConf

namespace DiffState

open DiffConf

variable {c : DiffConf}

/-- A suggestion in the text of the method is assigned if no bound forbids it. -/
theorem diff_suggest {s : DiffState c.proxy} {v : Int} (hsubscribed : s.client.subscribed = true)
    (hauthorised : s.client.authorised = true) (hsv2 : s.client.sv2 = false)
    (hpin : s.client.pinnedDiff = false) (hclamp : c.clampRequestedDiff v = v)
    (hnew : v ≠ s.client.suggestDiff) :
    (step c s (.suggest (.text (some v)))).client.diff = v := by
  show (stepClient c s (.suggest (.text (some v)))).diff = v
  dsimp only [stepClient]
  rw [if_neg (by simp [hsubscribed, hauthorised, hsv2]), if_neg (by simp [hpin])]
  unfold DiffConf.suggestDiff
  dsimp only [Suggestion.value]
  rw [hclamp, if_neg hnew]
  split_ifs with hsame
  · exact hsame
  · rfl

/-- The client of `exampleConnection` once it has subscribed. -/
def subscribedClient (c : DiffConf) : DiffClient :=
  { c.addInstance 0 ⟨1, 0⟩ 0 false with useragent := some [], subscribed := true }

theorem step_subscribe_example (c : DiffConf) :
    (step c (exampleConnection c) (.subscribe [] true)).client = subscribedClient c := by
  show stepClient c (exampleConnection c) (.subscribe [] true) = _
  have hsubscribed : (c.addInstance 0 ⟨1, 0⟩ 0 false).subscribed = false := by
    rw [addInstance_rest]
  dsimp only [stepClient, exampleConnection, connect]
  rw [hsubscribed, parseSubscribe_nil, if_neg Bool.false_ne_true]
  rfl

/-- What `mining.authorize` makes of the subscribed client. -/
theorem sauthProcess_subscribed (c : DiffConf) (a : AuthRequest) (hret : a.ret = true) :
    c.sauthProcess (subscribedClient c) a =
      if c.remote ∧ !c.btcsolo then c.parseAuthorise (subscribedClient c) a
      else
        let client := { c.parseAuthorise (subscribedClient c) a with authorised := true }
        if client.remote then client else c.reconcile client a.workerMindiff := by
  have hnew : ¬((subscribedClient c).authorised ∨ (subscribedClient c).useragent.isNone) := by
    rw [subscribedClient, addInstance_rest]
    simp
  unfold DiffConf.sauthProcess finishAuth
  rw [if_neg hnew, hret]
  rfl

/-- A session that asks for nothing is open and not pinned, also where an upstream pool
completes its authorisation. -/
theorem plain_session (c : DiffConf) (hstart : c.startOn 0 ≠ 0) :
    let s := run (step c) (exampleConnection c)
      [.subscribe [] true, exampleAuth [97] none true, .authResult true]
    s.client.subscribed = true ∧ s.client.authorised = true ∧ s.client.sv2 = false ∧
      s.client.pinnedDiff = false := by
  intro s
  have hfresh := addInstance_rest c 0 ⟨1, 0⟩ 0 false
  have hplain : c.parseAuthorise (subscribedClient c) ⟨[97], none, true, ⟨3, 0⟩, 0⟩ =
      subscribedClient c := by
    refine parseAuthorise_plain ?_ (applyOverride_none rfl) nofun ?_
    · rw [subscribedClient, hfresh]
    · rwa [subscribedClient, diff_addInstance]
  have hclient : s.client = stepClient c
      (step c (step c (exampleConnection c) (.subscribe [] true)) (exampleAuth [97] none true))
      (.authResult true) := rfl
  have hauth : (step c (step c (exampleConnection c) (.subscribe [] true))
      (exampleAuth [97] none true)).client =
      c.sauthProcess (step c (exampleConnection c) (.subscribe [] true)).client
        ⟨[97], none, true, ⟨3, 0⟩, 0⟩ := rfl
  rw [hclient]
  dsimp only [stepClient]
  rw [hauth, step_subscribe_example, sauthProcess_subscribed c _ rfl, hplain]
  by_cases hremote : c.remote ∧ !c.btcsolo
  · rw [if_pos ⟨hremote.1, hremote.2, rfl⟩, if_pos hremote, subscribedClient, hfresh]
    exact ⟨rfl, rfl, rfl, rfl⟩
  · rw [if_neg (fun h => hremote ⟨h.1, h.2.1⟩), if_neg hremote]
    unfold DiffConf.reconcile
    dsimp only
    rw [subscribedClient, hfresh]
    split_ifs <;> exact ⟨rfl, rfl, rfl, rfl⟩

/-- With a `mindiff` below 1, a suggestion that is not positive is assigned. -/
theorem one_le_mindiff (hstart : c.Within (c.startOn 0))
    (hruns : ∀ events : List DiffEvent, (∀ e ∈ events, e.WorkerUnset) →
      c.Within (run (step c) (exampleConnection c) events).client.diff) : 1 ≤ c.mindiff := by
  by_contra hlow
  have hmindiff : c.mindiff ≤ -1 := by
    have hne := c.mindiff_ne
    omega
  have hmaxdiff : c.maxdiff ≠ 0 → 1 ≤ c.maxdiff := fun hmax => hstart.1.trans (hstart.2 hmax)
  have hclamp : ∀ v : Int, v = -1 ∨ v = 0 → c.clampRequestedDiff v = v := by
    intro v hv
    unfold clampRequestedDiff
    dsimp only
    split_ifs <;> omega
  have hstartne : c.startOn 0 ≠ 0 := by
    have hone := hstart.1
    omega
  obtain ⟨hsubscribed, hauthorised, hsv2, hpin⟩ := plain_session c hstartne
  generalize hs : run (step c) (exampleConnection c)
    [.subscribe [] true, exampleAuth [97] none true, .authResult true] = s at *
  -- one of the two is not what the client suggested last
  obtain ⟨v, hv, hnew⟩ : ∃ v : Int, (v = -1 ∨ v = 0) ∧ v ≠ s.client.suggestDiff := by
    by_cases hlast : s.client.suggestDiff = -1
    · exact ⟨0, Or.inr rfl, by omega⟩
    · exact ⟨-1, Or.inl rfl, fun h => hlast h.symm⟩
  have hdiff := diff_suggest hsubscribed hauthorised hsv2 hpin (hclamp v hv) hnew
  have hwithin := hruns ([.subscribe [] true, exampleAuth [97] none true, .authResult true] ++
    [.suggest (.text (some v))]) (by simp [DiffEvent.WorkerUnset, exampleAuth])
  rw [run_append, hs, run_cons, run_nil, hdiff] at hwithin
  have hone := hwithin.1
  omega

/-- With a `mindiff` above `maxdiff`, `sauth_process` raises a pinned client to it. -/
theorem mindiff_le_maxdiff (hmax : 1 ≤ c.maxdiff) (hlocal : ¬(c.remote ∧ !c.btcsolo))
    (hruns : ∀ events : List DiffEvent, (∀ e ∈ events, e.WorkerUnset) →
      c.Within (run (step c) (exampleConnection c) events).client.diff) :
    c.mindiff ≤ c.maxdiff := by
  by_contra hcrossed
  have hcrossed := not_le.mp hcrossed
  have hmaxne : c.maxdiff ≠ 0 := by omega
  have hparse : c.parseAuthorise (subscribedClient c) ⟨[97], some [100, 61, 49], true, ⟨3, 0⟩, 0⟩ =
      { subscribedClient c with
        suggestDiff := c.maxdiff
        pinnedDiff := true
        diff := c.maxdiff
        oldDiff := c.maxdiff } := by
    refine parseAuthorise_crossed ?_ rfl rfl ?_ hmax hcrossed
    · rw [subscribedClient, addInstance_rest]
    · rw [subscribedClient, addInstance_rest]
  have hclient : (run (step c) (exampleConnection c)
      [.subscribe [] true, exampleAuth [97] (some [100, 61, 49]) true]).client =
      c.sauthProcess (step c (exampleConnection c) (.subscribe [] true)).client
        ⟨[97], some [100, 61, 49], true, ⟨3, 0⟩, 0⟩ := rfl
  have hremote : (subscribedClient c).remote = false := by
    rw [subscribedClient, addInstance_rest]
  have hwithin := (hruns [.subscribe [] true, exampleAuth [97] (some [100, 61, 49]) true]
    (by simp [DiffEvent.WorkerUnset, exampleAuth])).2 hmaxne
  rw [hclient, step_subscribe_example, sauthProcess_subscribed c _ rfl, if_neg hlocal, hparse] at hwithin
  dsimp only at hwithin
  rw [if_neg (by simp [hremote])] at hwithin
  unfold DiffConf.reconcile at hwithin
  dsimp only at hwithin
  rw [if_pos hmaxne, if_pos hmaxne, max_eq_left hcrossed.le, if_pos (ne_of_gt hcrossed)] at hwithin
  exact absurd hwithin (not_le.mpr hcrossed)

/-- **Difficulties stay within the bounds** through every run of a connection of the
first protocol, whatever it is sent and whatever share rates are measured, exactly when
the configuration agrees with itself. -/
theorem difficulty_in_bounds (c : DiffConf) :
    (∀ (server : Int) (now : Tv) (latency : Int) (remote : Bool) (bases : Workbases c.proxy)
        (events : List DiffEvent), (∀ e ∈ events, e.WorkerUnset) →
      c.Within (run (step c) (connect c server now latency remote bases) events).client.diff) ↔
      c.BoundsAgree := by
  constructor
  · intro hruns
    have hstart : ∀ server, c.Within (c.startOn server) := by
      intro server
      rw [← diff_addInstance c server ⟨1, 0⟩ 0 false]
      exact hruns server ⟨1, 0⟩ 0 false (exampleBases c.proxy) [] (fun e he => nomatch he)
    have hexample := hruns 0 ⟨1, 0⟩ 0 false (exampleBases c.proxy)
    refine ⟨one_le_mindiff (hstart 0) hexample, hstart, fun hmax => ?_⟩
    by_cases hlocal : c.remote ∧ !c.btcsolo
    · exact Or.inl hlocal
    · have hone : 1 ≤ c.maxdiff := (hstart 0).1.trans ((hstart 0).2 hmax)
      exact Or.inr (mindiff_le_maxdiff hone hlocal hexample)
  · intro hc server now latency remote bases events hevents
    have hassigned : c.Assigned
        (run (step c) (connect c server now latency remote bases) events).client := by
      refine run_invariant_of (I := fun s : DiffState c.proxy => c.Assigned s.client) ?_ hevents
        (hc.addInstance server now latency remote)
      intro s e he h
      exact assigned_step hc he h
    exact hassigned.diff

/-- A `maxdiff` below the default `startdiff` is accepted, and every client starts above it. -/
theorem startdiff_exceeds_maxdiff :
    ¬∀ (c : DiffConf) (server : Int) (now : Tv) (latency : Int) (remote : Bool)
        (bases : Workbases c.proxy) (events : List DiffEvent), (∀ e ∈ events, e.WorkerUnset) →
      c.Within (run (step c) (connect c server now latency remote bases) events).client.diff := by
  intro h
  have hwithin := h (readDiffConf none none none (some 5000) [] [false] false false false true) 0
    ⟨1, 0⟩ 0 false (exampleBases false) [] (fun e he => nomatch he)
  exact absurd (hwithin.2 (by decide)) (by decide)

end DiffState

end CashStratum
