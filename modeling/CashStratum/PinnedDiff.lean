/-
CashStratum/PinnedDiff.lean

Pinned difficulties (`stratifier.c`).

A valid `d=` or `diff=` token in the password pins the difficulty: vardiff and
suggestions leave it alone until an authorisation decides afresh.  `add_submit` means
to return before it touches `ssdc` and `ldc`, but the first share has set `ldc` by then.

`reset_auth_pin` undoes a pin by going back to the floor from before any password, so
that the new one is evaluated as on a fresh connection.  This undoes more than the pin:
an override that an earlier worker name matched is gone too, and stays with a client
that was never pinned (`pin_is_not_transparent`).
-/
import CashStratum.DiffBounds
import CashStratum.InFlight

namespace CashStratum

/-! ### While pinned -/

/-- The events that are neither a subscription nor an authorisation. -/
def DiffEvent.KeepsPin : DiffEvent → Prop
  | .subscribe _ _ | .authorise _ => False
  | _ => True

instance : DecidablePred DiffEvent.KeepsPin
  | .subscribe _ _ | .authorise _ => isFalse id
  | .authResult _ | .suggest _ | .submit _ | .sv2SetDiff _ | .addBase _ _ | .addRemoteBase
  | .ageBase _ | .notify _ => isTrue trivial

/-- What a pinned client keeps: all but that its authorisation may be completed, and its
first share may come in. -/
structure Held (client client' : DiffClient) : Prop where
  rest : client' =
    { client with
      authorised := client'.authorised
      firstShare := client'.firstShare
      ldc := client'.ldc }
  begun : client.firstShare.sec ≠ 0 →
    client'.firstShare = client.firstShare ∧ client'.ldc = client.ldc

namespace Held

variable {client client' client'' : DiffClient}

theorem refl (client : DiffClient) : Held client client := ⟨rfl, fun _ => ⟨rfl, rfl⟩⟩

theorem trans (h : Held client client') (h' : Held client' client'') : Held client client'' := by
  constructor
  · rw [h'.rest, h.rest]
  · intro hbegun
    obtain ⟨hshare, hldc⟩ := h.begun hbegun
    obtain ⟨hshare', hldc'⟩ := h'.begun (by rwa [hshare])
    exact ⟨hshare'.trans hshare, hldc'.trans hldc⟩

theorem pinned (h : Held client client') : client'.pinnedDiff = client.pinnedDiff := by
  rw [h.rest]

theorem sv2 (h : Held client client') : client'.sv2 = client.sv2 := by
  rw [h.rest]

end Held

theorem held_firstSubmit (client : DiffClient) (now : Tv) : Held client (client.firstSubmit now) := by
  unfold DiffClient.firstSubmit
  split_ifs with hfirst
  · exact ⟨rfl, fun hbegun => absurd hfirst hbegun⟩
  · exact Held.refl client

theorem held_addSubmit (c : DiffConf) {client : DiffClient} (hpin : client.pinnedDiff = true)
    (diff : Int) (valid submit : Bool) (r : ShareRate) (nextBlockid : Int) :
    Held client (c.addSubmit client diff valid submit r nextBlockid) := by
  have hfirst := held_firstSubmit client r.now
  unfold DiffConf.addSubmit
  dsimp only
  rw [hfirst.pinned, hpin, if_pos rfl, ite_self]
  split_ifs
  · exact Held.refl client
  · exact hfirst

namespace DiffState

open DiffConf

variable {c : DiffConf} {s : DiffState c.proxy}

/-- **The step of a pinned client.** -/
theorem held_step (hpin : s.client.pinnedDiff = true) (hsv2 : s.client.sv2 = false)
    {e : DiffEvent} (he : e.KeepsPin) : Held s.client (step c s e).client := by
  show Held s.client (stepClient c s e)
  cases e with
  | subscribe | authorise => exact he.elim
  | authResult ret =>
    dsimp only [stepClient]
    split_ifs
    · exact ⟨rfl, fun _ => ⟨rfl, rfl⟩⟩
    · exact Held.refl s.client
  | suggest m =>
    dsimp only [stepClient]
    split_ifs
    · exact Held.refl s.client
    · exact Held.refl s.client
  | submit sh =>
    dsimp only [stepClient]
    split_ifs
    · exact Held.refl s.client
    · exact held_addSubmit c hpin _ _ _ _ _
  | sv2SetDiff diff =>
    dsimp only [stepClient]
    rw [hsv2]
    exact Held.refl s.client
  | addBase | addRemoteBase | ageBase | notify => exact Held.refl s.client

/-- A pinned client through any events but a subscription or an authorisation. -/
theorem held_run (hpin : s.client.pinnedDiff = true) (hsv2 : s.client.sv2 = false)
    {events : List DiffEvent} (he : ∀ e ∈ events, e.KeepsPin) :
    Held s.client (run (step c) s events).client := by
  refine run_invariant_of (I := fun t : DiffState c.proxy => Held s.client t.client) ?_ he
    (Held.refl s.client)
  intro t e he h
  exact h.trans (held_step (h.pinned.trans hpin) (h.sv2.trans hsv2) he)

end DiffState

/-! ### Runs without the pin -/

/-- The events without the authorisations. -/
def DiffEvent.dropAuth : DiffEvent → Option DiffEvent
  | .authorise _ => none
  | e => some e

/-- An authorisation without its password. -/
def DiffEvent.unpin : DiffEvent → DiffEvent
  | .authorise a => .authorise { a with pass := none }
  | e => e

/-- Two clients that differ in when the vardiff window began, which the first share sets:
the next share that counts makes them the same. -/
def SameButWindow (c : DiffConf) (now : Tv) (client fresh : DiffClient) : Prop :=
  client = { fresh with ldc := now } ∧
    ∀ (diff : Int) (valid submit : Bool) (r : ShareRate) (nextBlockid : Int), valid ∨ submit →
      c.addSubmit client diff valid submit r nextBlockid =
        c.addSubmit fresh diff valid submit r nextBlockid

/-- A client without what authorisations write to it before they succeed. -/
def DiffClient.bare (client : DiffClient) : DiffClient :=
  { client with
    diff := 0
    oldDiff := 0
    suggestDiff := 0
    pinnedDiff := false
    ldc := ⟨0, 0⟩ }

/-- A client as no authorisation has touched it, on a server that starts it at `d`. -/
structure Resting (d : Int) (client : DiffClient) : Prop where
  suggest : client.suggestDiff = client.baseSuggestDiff
  diff : client.diff = if client.rentalDiff then client.baseSuggestDiff else d
  old : client.oldDiff = client.diff
  ne : client.diff ≠ 0

/-- **Twins.**  A client that is not authorised yet, and the one of a run without pins.
`untouched` says that no authorisation of that run matched an override. -/
structure Twin (c : DiffConf) (d : Int) (untouched : Prop) (client twin : DiffClient) : Prop where
  bare : twin.bare = client.bare
  unpinned : twin.pinnedDiff = false
  resting : untouched ∨ twin.rentalDiff → Resting d twin
  ssdc : client.ssdc = 0
  firstShare : client.firstShare.sec = 0
  sv1 : client.sv2 = false
  pinned : client.pinnedDiff → client.useragent.isSome
  start : client.rentalDiff = false →
    d = max client.baseSuggestDiff c.startdiff ∨
      (d = c.startdiff ∧ max client.baseSuggestDiff c.startdiff = 0)

variable {a : AuthRequest}

namespace DiffConf

variable {c : DiffConf} {client twin : DiffClient} {d : Int} {untouched : Prop}

theorem startOn_ne (c : DiffConf) (server : Int) : c.startOn server ≠ 0 := by
  have hstart := c.startdiff_ne
  have hhigh := c.highdiff_ne
  unfold startOn
  split_ifs <;> omega

theorem clampRequestedDiff_ne {d : Int} (hd : d ≠ 0) : c.clampRequestedDiff d ≠ 0 := by
  have hmindiff := c.mindiff_ne
  unfold clampRequestedDiff
  dsimp only
  split_ifs <;> omega

theorem mindiffOverrideDiff_ne {key : Bytes} {fallback : Int} (h : fallback ≠ 0) :
    c.mindiffOverrideDiff key fallback ≠ 0 := by
  unfold mindiffOverrideDiff
  split
  · rename_i diff hfind
    have hpos := List.find?_some hfind
    refine clampRequestedDiff_ne ?_
    simp only [Bool.decide_and, Bool.and_eq_true, decide_eq_true_eq] at hpos
    omega
  · exact clampRequestedDiff_ne h

/-- A new client is its own twin. -/
theorem twin_addInstance (c : DiffConf) (server : Int) (now : Tv) (latency : Int) (remote : Bool)
    (untouched : Prop) :
    Twin c (c.startOn server) untouched (c.addInstance server now latency remote)
      (c.addInstance server now latency remote) := by
  have hne := startOn_ne c server
  have hdiff := diff_addInstance c server now latency remote
  have hrest := addInstance_rest c server now latency remote
  have hfloor : (c.addInstance server now latency remote).suggestDiff =
        (c.addInstance server now latency remote).baseSuggestDiff ∧
      (c.addInstance server now latency remote).oldDiff =
        (c.addInstance server now latency remote).diff := by
    unfold addInstance
    dsimp only
    split_ifs <;> exact ⟨rfl, rfl⟩
  have hstart : c.startOn server =
        max (c.addInstance server now latency remote).baseSuggestDiff c.startdiff ∨
      (c.startOn server = c.startdiff ∧
        max (c.addInstance server now latency remote).baseSuggestDiff c.startdiff = 0) := by
    unfold addInstance startOn
    dsimp only
    split_ifs
    · exact Or.inl (max_comm _ _)
    · exact Or.inl (max_comm _ _)
    · rcases le_total 0 c.startdiff with hle | hle
      · exact Or.inl (max_eq_right hle).symm
      · exact Or.inr ⟨rfl, max_eq_left hle⟩
  refine ⟨rfl, ?_, fun _ => ⟨hfloor.1, ?_, hfloor.2, by rwa [hdiff]⟩, ?_, ?_, ?_, ?_, fun _ => hstart⟩
  · rw [hrest]
  · rw [hdiff, show (c.addInstance server now latency remote).rentalDiff = false by rw [hrest]]
    rfl
  · rw [hrest]
  · rw [hrest]
  · rw [hrest]
  · intro hpin
    rw [hrest] at hpin
    cases hpin

/-! ### Authorisations that do not succeed -/

theorem bare_resetAuthPin (client : DiffClient) : (c.resetAuthPin client).1.bare = client.bare := by
  unfold resetAuthPin
  dsimp only
  split_ifs <;> rfl

theorem bare_applyOverride (client : DiffClient) (workername : Bytes) :
    (c.applyOverride client workername).bare = client.bare := by
  unfold applyOverride
  split_ifs
  · rfl
  · split <;> rfl

theorem bare_applyPass (client : DiffClient) (pass : Option Bytes) :
    (c.applyPass client pass).bare = client.bare := by
  cases pass with
  | none => rfl
  | some pass =>
    unfold applyPass applyPasswordDiff
    dsimp only
    by_cases hreq : 0 < passwordRequestedDiff pass
    · rw [if_pos hreq]
      rfl
    · rw [if_neg hreq]

theorem bare_restartWindow (hssdc : client.ssdc = 0) (wasPinned : Bool) (now : Tv) :
    (restartWindow wasPinned now client).bare = client.bare := by
  unfold restartWindow
  split_ifs
  · show { client.bare with ssdc := 0 } = client.bare
    rw [← hssdc]
    rfl
  · rfl

theorem bare_defaultDiff (client : DiffClient) : (c.defaultDiff client).bare = client.bare := by
  unfold defaultDiff
  split_ifs <;> rfl

/-- An authorisation writes to a client without shares what `bare` leaves out. -/
theorem bare_parseAuthorise (hssdc : client.ssdc = 0) (a : AuthRequest) :
    (c.parseAuthorise client a).bare = client.bare := by
  have hpassed : (c.applyPass (c.applyOverride (c.resetAuthPin client).1 a.workername)
      a.pass).bare = client.bare := by
    rw [bare_applyPass, bare_applyOverride, bare_resetAuthPin]
  have hpassedSsdc : (c.applyPass (c.applyOverride (c.resetAuthPin client).1 a.workername)
      a.pass).ssdc = 0 := (congrArg DiffClient.ssdc hpassed).trans hssdc
  have hwindow := bare_restartWindow hpassedSsdc (c.resetAuthPin client).2 a.now
  exact (bare_defaultDiff _).trans (hwindow.trans hpassed)

/-- An authorisation that the gate refuses, or that an upstream pool has to complete. -/
def Pending (c : DiffConf) (a : AuthRequest) : Prop := a.ret = false ∨ (c.remote ∧ !c.btcsolo)

theorem finishAuth_pending (h : Pending c a) (client : DiffClient) :
    c.finishAuth client a = client := by
  unfold finishAuth
  rcases h with hret | hremote
  · rw [if_pos (by simp [hret])]
  · rw [if_pos hremote, ite_self]

theorem finishAuth_authorised (h : ¬Pending c a) (client : DiffClient) :
    (c.finishAuth client a).authorised = true := by
  obtain ⟨hret, hlocal⟩ := not_or.mp h
  unfold finishAuth reconcile
  rw [if_neg (by simpa using hret), if_neg hlocal]
  dsimp only
  split_ifs <;> rfl

/-- What authorisation leaves of a client that is not authorised after it. -/
theorem sauthProcess_cases (h : (c.sauthProcess client a).authorised = false) :
    (client.useragent.isNone ∧ c.sauthProcess client a = client) ∨
      (client.useragent.isSome ∧ Pending c a ∧
        c.sauthProcess client a = c.parseAuthorise client a) := by
  unfold sauthProcess at h ⊢
  by_cases hout : client.authorised ∨ client.useragent.isNone
  · rw [if_pos hout] at h ⊢
    exact Or.inl ⟨hout.resolve_left (by simp [h]), rfl⟩
  rw [if_neg hout] at h ⊢
  have hagent : client.useragent.isSome := by
    rcases hua : client.useragent with _ | useragent
    · exact absurd (Or.inr (by rw [hua]; rfl)) hout
    · rfl
  by_cases hpending : Pending c a
  · exact Or.inr ⟨hagent, hpending, finishAuth_pending hpending _⟩
  · rw [finishAuth_authorised hpending] at h
    cases h

end DiffConf

/-! ### Twins stay twins -/

section Twins

open DiffConf

variable {c : DiffConf} {client twin : DiffClient} {d : Int} {untouched : Prop}

/-- A client that differs in what authorisations write has the same twin. -/
theorem Twin.of_bare (h : Twin c d untouched client twin) {client' : DiffClient}
    (hbare : client'.bare = client.bare)
    (hpinned : client'.pinnedDiff → client.useragent.isSome) :
    Twin c d untouched client' twin where
  bare := h.bare.trans hbare.symm
  unpinned := h.unpinned
  resting := h.resting
  ssdc := (congrArg DiffClient.ssdc hbare).trans h.ssdc
  firstShare := (congrArg (fun client => client.firstShare.sec) hbare).trans h.firstShare
  sv1 := (congrArg DiffClient.sv2 hbare).trans h.sv1
  pinned hpin := by
    have hagent : client'.useragent = client.useragent := (congrArg DiffClient.useragent hbare :)
    rw [hagent]
    exact hpinned hpin
  start hrental := by
    have hsame : client'.rentalDiff = client.rentalDiff := (congrArg DiffClient.rentalDiff hbare :)
    have hbase : client'.baseSuggestDiff = client.baseSuggestDiff :=
      (congrArg DiffClient.baseSuggestDiff hbare :)
    rw [hbase]
    exact h.start (hsame.symm.trans hrental)

theorem Twin.rental (h : Twin c d untouched client twin) (useragent : Bytes) (ok : Bool)
    {diff : Int} (hdiff : diff ≠ 0) :
    Twin c d untouched
      { applyRental { client with useragent := some useragent } diff with subscribed := ok }
      { applyRental { twin with useragent := some useragent } diff with subscribed := ok } where
  bare := congrArg (fun client : DiffClient =>
    { client with
      useragent := some useragent
      baseSuggestDiff := diff
      rentalDiff := true
      subscribed := ok }) h.bare
  unpinned := h.unpinned
  resting _ := ⟨rfl, rfl, rfl, hdiff⟩
  ssdc := h.ssdc
  firstShare := h.firstShare
  sv1 := h.sv1
  pinned _ := rfl
  start hrental := nomatch hrental

theorem Twin.subscribe (h : Twin c d untouched client twin) (useragent : Bytes) (ok : Bool) :
    Twin c d untouched { c.parseSubscribe client useragent with subscribed := ok }
      { c.parseSubscribe twin useragent with subscribed := ok } := by
  unfold parseSubscribe
  dsimp only
  split_ifs
  · exact h.rental useragent ok (mindiffOverrideDiff_ne (by decide))
  · exact h.rental useragent ok (mindiffOverrideDiff_ne (by decide))
  · exact {
      bare := congrArg (fun client : DiffClient =>
        { client with useragent := some useragent, subscribed := ok }) h.bare
      unpinned := h.unpinned
      resting := fun hr => { h.resting hr with }
      ssdc := h.ssdc
      firstShare := h.firstShare
      sv1 := h.sv1
      pinned := fun _ => rfl
      start := h.start }

/-- The authorisation left out of the second run. -/
theorem Twin.sauthProcess_left (h : Twin c d untouched client twin)
    (hun : (c.sauthProcess client a).authorised = false) :
    Twin c d untouched (c.sauthProcess client a) twin := by
  rcases sauthProcess_cases hun with ⟨-, hsame⟩ | ⟨hagent, -, hparse⟩
  · rw [hsame]
    exact h
  · rw [hparse]
    exact h.of_bare (bare_parseAuthorise h.ssdc a) (fun _ => hagent)

/-- A twin that differs in what authorisations write is a twin as long as it is not
pinned, and rests where it has to. -/
theorem Twin.of_bare_twin (h : Twin c d untouched client twin) {twin' : DiffClient}
    (hbare : twin'.bare = twin.bare) (hunpinned : twin'.pinnedDiff = false)
    (hresting : untouched ∨ twin.rentalDiff → Resting d twin') :
    Twin c d untouched client twin' where
  bare := hbare.trans h.bare
  unpinned := hunpinned
  resting hr := by
    have hrental : twin'.rentalDiff = twin.rentalDiff := (congrArg DiffClient.rentalDiff hbare :)
    rw [hrental] at hr
    exact hresting hr
  ssdc := h.ssdc
  firstShare := h.firstShare
  sv1 := h.sv1
  pinned := h.pinned
  start := h.start

theorem Twin.ssdc_twin (h : Twin c d untouched client twin) : twin.ssdc = 0 :=
  (congrArg DiffClient.ssdc h.bare).trans h.ssdc

/-- A resting rental service keeps its difficulty, and so does a client whose worker name
matches no override. -/
theorem applyOverride_resting {workername : Bytes}
    (hover : untouched → c.workerOverride workername = none)
    (hr : untouched ∨ twin.rentalDiff) : c.applyOverride twin workername = twin := by
  rcases hr with hun | hrental
  · exact applyOverride_none (hover hun)
  · rw [applyOverride, if_pos hrental]

theorem pinnedDiff_parseAuthorise (hpin : client.pinnedDiff = false)
    (ha : a.NoToken) : (c.parseAuthorise client a).pinnedDiff = false := by
  have hover : (c.applyOverride client a.workername).pinnedDiff = false := by
    unfold applyOverride
    split_ifs
    · exact hpin
    · split <;> exact hpin
  unfold parseAuthorise
  rw [resetAuthPin_unpinned hpin]
  dsimp only
  rw [applyPass_noToken ha, restartWindow, if_neg (by simp), defaultDiff]
  split_ifs <;> exact hover

theorem authorised_of_sauthProcess
    (h : (c.sauthProcess client a).authorised = false) : client.authorised = false := by
  by_contra hauthorised
  have htrue : client.authorised = true := by simpa using hauthorised
  rw [sauthProcess, if_pos (Or.inl htrue), htrue] at h
  cases h

/-- The same authorisation in both runs, without its password in the second. -/
theorem Twin.sauthProcess_unpin (h : Twin c d untouched client twin)
    (hover : untouched → c.workerOverride a.workername = none)
    (hun : (c.sauthProcess client a).authorised = false) :
    Twin c d untouched (c.sauthProcess client a) (c.sauthProcess twin { a with pass := none }) := by
  have hleft := h.sauthProcess_left hun
  have hagent : twin.useragent = client.useragent := (congrArg DiffClient.useragent h.bare :)
  have hauth : twin.authorised = client.authorised := (congrArg DiffClient.authorised h.bare :)
  have hclient := authorised_of_sauthProcess hun
  rcases sauthProcess_cases hun with ⟨hnone, -⟩ | ⟨hsome, hpending, -⟩
  · have hout : twin.authorised ∨ twin.useragent.isNone := Or.inr (by rwa [hagent])
    rw [show c.sauthProcess twin { a with pass := none } = twin by rw [sauthProcess, if_pos hout]]
    exact hleft
  · have hin : ¬(twin.authorised ∨ twin.useragent.isNone) := by
      rw [hauth, hclient, hagent]
      rintro (hauthorised | hnone)
      · cases hauthorised
      · rw [Option.isNone_iff_eq_none.mp hnone] at hsome
        cases hsome
    have hparse : c.sauthProcess twin { a with pass := none } =
        c.parseAuthorise twin { a with pass := none } := by
      rw [sauthProcess, if_neg hin]
      exact finishAuth_pending hpending _
    have hnoToken : ({ a with pass := none } : AuthRequest).NoToken := fun pass hpass => nomatch hpass
    rw [hparse]
    refine hleft.of_bare_twin (bare_parseAuthorise h.ssdc_twin _)
      (pinnedDiff_parseAuthorise h.unpinned hnoToken) fun hr => ?_
    have hresting := h.resting hr
    have hsame : c.parseAuthorise twin { a with pass := none } = twin :=
      parseAuthorise_plain h.unpinned (applyOverride_resting hover hr) hnoToken hresting.ne
    rw [hsame]
    exact hresting

/-! ### The authorisation that lifts the pin -/

theorem resetAuthPin_pinned (hpin : client.pinnedDiff = true) :
    c.resetAuthPin client =
      ({ client with
          pinnedDiff := false
          suggestDiff := client.baseSuggestDiff
          diff := if client.rentalDiff then client.baseSuggestDiff
            else max client.baseSuggestDiff c.startdiff
          oldDiff := if client.rentalDiff then client.baseSuggestDiff
            else max client.baseSuggestDiff c.startdiff }, true) := by
  unfold resetAuthPin
  rw [hpin]
  rfl

theorem defaultDiff_ldc (client : DiffClient) (now : Tv) :
    c.defaultDiff { client with ldc := now } = { c.defaultDiff client with ldc := now } := by
  unfold defaultDiff
  dsimp only
  split_ifs <;> rfl

/-- The window restarts. -/
theorem restartWindow_unpinned (hpin : client.pinnedDiff = false) (hssdc : client.ssdc = 0)
    (before now : Tv) :
    restartWindow true now { client with ldc := before } = { client with ldc := now } := by
  unfold restartWindow
  rw [if_pos (by simp [hpin])]
  show ({ client with ssdc := 0, ldc := now } : DiffClient) = { client with ldc := now }
  rw [← hssdc]

theorem finishAuth_ldc (client : DiffClient) (a : AuthRequest) (now : Tv) :
    c.finishAuth { client with ldc := now } a = { c.finishAuth client a with ldc := now } := by
  unfold finishAuth reconcile
  dsimp only
  split_ifs <;> rfl

theorem applyOverride_ldc (client : DiffClient) (workername : Bytes) (now : Tv) :
    c.applyOverride { client with ldc := now } workername =
      { c.applyOverride client workername with ldc := now } := by
  unfold applyOverride
  dsimp only
  split_ifs
  · rfl
  · cases c.workerOverride workername <;> rfl

/-- What `reset_auth_pin` makes of a pinned client, by its twin. -/
theorem Twin.resetAuthPin (h : Twin c d untouched client twin) (hpin : client.pinnedDiff = true) :
    c.resetAuthPin client =
      ({ twin with
          suggestDiff := twin.baseSuggestDiff
          diff := if twin.rentalDiff then twin.baseSuggestDiff
            else max twin.baseSuggestDiff c.startdiff
          oldDiff := if twin.rentalDiff then twin.baseSuggestDiff
            else max twin.baseSuggestDiff c.startdiff
          ldc := client.ldc }, true) := by
  have hsame := congrArg (fun bare : DiffClient =>
    { bare with
      pinnedDiff := false
      suggestDiff := bare.baseSuggestDiff
      diff := if bare.rentalDiff then bare.baseSuggestDiff else max bare.baseSuggestDiff c.startdiff
      oldDiff := if bare.rentalDiff then bare.baseSuggestDiff
        else max bare.baseSuggestDiff c.startdiff
      ldc := client.ldc }) h.bare.symm
  rw [resetAuthPin_pinned hpin]
  refine Prod.ext (hsame.trans ?_) rfl
  dsimp only [DiffClient.bare]
  rw [← h.unpinned]
  rfl

/-- It is the resting twin itself, where that has the floor of `reset_auth_pin`. -/
theorem Twin.resetAuthPin_resting (h : Twin c d untouched client twin)
    (hpin : client.pinnedDiff = true) (hresting : Resting d twin)
    (hfloor : twin.diff = if twin.rentalDiff then twin.baseSuggestDiff
      else max twin.baseSuggestDiff c.startdiff) :
    c.resetAuthPin client = ({ twin with ldc := client.ldc }, true) := by
  rw [h.resetAuthPin hpin, ← hfloor]
  refine Prod.ext ?_ rfl
  simp only [DiffClient.mk.injEq, true_and, and_true]
  exact ⟨hresting.old.symm, hresting.suggest.symm⟩

/-- Where the override leaves the two clients the same but for the window, so does the
authorisation. -/
theorem Twin.parseAuthorise_of_override (h : Twin c d untouched client twin)
    (ha : a.NoToken) (hleaves : (c.resetAuthPin client).2 = true)
    (hover : c.applyOverride (c.resetAuthPin client).1 a.workername =
      { c.applyOverride twin a.workername with ldc := client.ldc }) :
    c.parseAuthorise client a = { c.parseAuthorise twin a with ldc := a.now } := by
  have hbare := bare_applyOverride (c := c) twin a.workername
  have hssdc : (c.applyOverride twin a.workername).ssdc = 0 :=
    (congrArg DiffClient.ssdc hbare).trans h.ssdc_twin
  have hunpinned : (c.applyOverride twin a.workername).pinnedDiff = false := by
    unfold applyOverride
    split_ifs
    · exact h.unpinned
    · split <;> exact h.unpinned
  have htwin : c.parseAuthorise twin a = c.defaultDiff (c.applyOverride twin a.workername) := by
    unfold parseAuthorise
    rw [resetAuthPin_unpinned h.unpinned]
    dsimp only
    rw [applyPass_noToken ha, restartWindow, if_neg (by simp)]
  have hclient : c.parseAuthorise client a = c.defaultDiff (restartWindow
      (c.resetAuthPin client).2 a.now (c.applyPass
        (c.applyOverride (c.resetAuthPin client).1 a.workername) a.pass)) := rfl
  rw [hclient, htwin, hleaves, hover, applyPass_noToken ha, restartWindow_unpinned hunpinned hssdc,
    defaultDiff_ldc]

/-- **Leaving a pin** is like never having been pinned, for a client whose floor the
authorisations before have not touched, or that the new worker name gives a floor. -/
theorem Twin.parseAuthorise (h : Twin c d untouched client twin) (hpin : client.pinnedDiff = true)
    (ha : a.NoToken)
    (hfresh : untouched ∨ twin.rentalDiff ∨ (c.workerOverride a.workername).isSome) :
    c.parseAuthorise client a = { c.parseAuthorise twin a with ldc := a.now } := by
  have hreset := h.resetAuthPin hpin
  have hleaves : (c.resetAuthPin client).2 = true := by rw [hreset]
  have hrests : ∀ hr : untouched ∨ twin.rentalDiff,
      (twin.diff = if twin.rentalDiff then twin.baseSuggestDiff
        else max twin.baseSuggestDiff c.startdiff) →
      c.parseAuthorise client a = { c.parseAuthorise twin a with ldc := a.now } := by
    intro hr hfloor
    refine h.parseAuthorise_of_override ha hleaves ?_
    rw [h.resetAuthPin_resting hpin (h.resting hr) hfloor, applyOverride_ldc]
  by_cases hrental : twin.rentalDiff
  · -- a rental service has its own floor
    refine hrests (Or.inr hrental) ?_
    rw [(h.resting (Or.inr hrental)).diff, if_pos hrental, if_pos hrental]
  rcases hmatch : c.workerOverride a.workername with _ | override
  · -- no override: the twin rests
    have hun : untouched := by
      rw [hmatch] at hfresh
      exact hfresh.resolve_right (not_or.mpr ⟨hrental, nofun⟩)
    have hresting := h.resting (Or.inl hun)
    have hdiff : twin.diff = d := by rw [hresting.diff, if_neg hrental]
    have hbase : twin.baseSuggestDiff = client.baseSuggestDiff :=
      (congrArg DiffClient.baseSuggestDiff h.bare :)
    have hclientRental : client.rentalDiff = false := by
      rw [← show twin.rentalDiff = client.rentalDiff from (congrArg DiffClient.rentalDiff h.bare :)]
      simpa using hrental
    rcases h.start hclientRental with hmax | ⟨hstart, hzero⟩
    · refine hrests (Or.inl hun) ?_
      rw [if_neg hrental, hdiff, hbase, hmax]
    · -- the reset leaves no difficulty, which `startdiff` stands in for
      have htwin : c.parseAuthorise twin a = twin :=
        parseAuthorise_plain h.unpinned (applyOverride_none hmatch) ha hresting.ne
      have hclient : c.parseAuthorise client a = c.defaultDiff (restartWindow
          (c.resetAuthPin client).2 a.now (c.applyPass
            (c.applyOverride (c.resetAuthPin client).1 a.workername) a.pass)) := rfl
      rw [hclient, applyPass_noToken ha, applyOverride_none hmatch, hreset, htwin]
      dsimp only
      rw [if_neg hrental, hbase, hzero, restartWindow, if_pos (by simp [h.unpinned]), defaultDiff,
        if_pos rfl]
      simp only [DiffClient.mk.injEq, true_and, and_true]
      exact ⟨(hdiff.trans hstart).symm, (hresting.old.trans (hdiff.trans hstart)).symm,
        h.ssdc_twin.symm, hbase ▸ hresting.suggest.symm⟩
  · -- the override replaces the floor
    refine h.parseAuthorise_of_override ha hleaves ?_
    rw [hreset, applyOverride_some (by exact hrental) hmatch, applyOverride_some hrental hmatch]

/-- The first share that counts sets when the window began. -/
theorem addSubmit_ldc (hfirst : client.firstShare.sec = 0) (now : Tv) (diff : Int)
    {valid submit : Bool} (hcount : valid ∨ submit) (r : ShareRate) (nextBlockid : Int) :
    c.addSubmit { client with ldc := now } diff valid submit r nextBlockid =
      c.addSubmit client diff valid submit r nextBlockid := by
  have hnot : ¬(!valid ∧ !submit) := by
    rcases hcount with h | h <;> simp [h]
  have hbegun : DiffClient.firstSubmit { client with ldc := now } r.now =
      client.firstSubmit r.now := by
    unfold DiffClient.firstSubmit
    rw [if_pos hfirst, if_pos hfirst]
  unfold addSubmit
  rw [if_neg hnot, if_neg hnot, hbegun]

theorem firstShare_sauthProcess (client : DiffClient) (a : AuthRequest) (hssdc : client.ssdc = 0) :
    (c.sauthProcess client a).firstShare = client.firstShare := by
  have hparse : (c.parseAuthorise client a).firstShare = client.firstShare :=
    (congrArg DiffClient.firstShare (bare_parseAuthorise hssdc a) :)
  unfold sauthProcess finishAuth reconcile
  dsimp only
  split_ifs <;> first | rfl | exact hparse

/-- **The authorisation that lifts a pin**, and the same for the twin. -/
theorem Twin.sauthProcess (h : Twin c d untouched client twin) (hpin : client.pinnedDiff = true)
    (hun : client.authorised = false) (ha : a.NoToken)
    (hfresh : untouched ∨ twin.rentalDiff ∨ (c.workerOverride a.workername).isSome) :
    SameButWindow c a.now (c.sauthProcess client a) (c.sauthProcess twin a) := by
  have hagent : twin.useragent = client.useragent := (congrArg DiffClient.useragent h.bare :)
  have hauth : twin.authorised = client.authorised := (congrArg DiffClient.authorised h.bare :)
  have hshare : twin.firstShare.sec = 0 :=
    (congrArg (fun bare : DiffClient => bare.firstShare.sec) h.bare).trans h.firstShare
  have hin : ¬(client.authorised ∨ client.useragent.isNone) := by
    have hsome := h.pinned hpin
    rcases hua : client.useragent with _ | useragent
    · rw [hua] at hsome
      cases hsome
    · simp [hun]
  have hsame : c.sauthProcess client a = { c.sauthProcess twin a with ldc := a.now } := by
    have hinTwin : ¬(twin.authorised ∨ twin.useragent.isNone) := by rwa [hauth, hagent]
    unfold DiffConf.sauthProcess
    rw [if_neg hin, if_neg hinTwin, h.parseAuthorise hpin ha hfresh, finishAuth_ldc]
  refine ⟨hsame, fun diff valid submit r nextBlockid hcount => ?_⟩
  rw [hsame]
  refine addSubmit_ldc ?_ a.now diff hcount r nextBlockid
  rw [firstShare_sauthProcess twin a h.ssdc_twin]
  exact hshare

end Twins

/-! ### Runs of twins -/

namespace DiffState

open DiffConf

variable {c : DiffConf} {s t : DiffState c.proxy} {d : Int} {untouched : Prop}

/-- Authorisation is for good. -/
theorem authorised_step {e : DiffEvent} (h : s.client.authorised = true) :
    (step c s e).client.authorised = true := by
  show (stepClient c s e).authorised = true
  cases e with
  | subscribe useragent ok =>
    dsimp only [stepClient]
    unfold parseSubscribe
    dsimp only
    split_ifs <;> exact h
  | authorise a =>
    show (c.sauthProcess s.client a).authorised = true
    rw [sauthProcess, if_pos (Or.inl h)]
    exact h
  | authResult ret =>
    dsimp only [stepClient]
    split_ifs
    · rfl
    · exact h
  | suggest m =>
    dsimp only [stepClient]
    unfold suggestDiff
    split_ifs
    · exact h
    · exact h
    · cases m.value with
      | none => exact h
      | some sdiff =>
        dsimp only
        split_ifs <;> exact h
  | submit sh =>
    dsimp only [stepClient]
    have hfirst : (s.client.firstSubmit sh.rate.now).authorised = true := by
      unfold DiffClient.firstSubmit
      split_ifs <;> exact h
    unfold addSubmit
    dsimp only
    rw [vardiff_rest]
    split_ifs <;> first | exact h | exact hfirst
  | sv2SetDiff diff =>
    dsimp only [stepClient]
    unfold sv2SetDiff
    dsimp only
    split_ifs <;> exact h
  | addBase | addRemoteBase | ageBase | notify => exact h

/-- The client of one run and its twin in another, until the client is authorised. -/
def Twins (c : DiffConf) (d : Int) (untouched : Prop) (s t : DiffState c.proxy) : Prop :=
  s.client.authorised = false → Twin c d untouched s.client t.client

/-- Until it is authorised, an event does the same to a client and its twin. -/
theorem Twins.step (h : Twins c d untouched s t) {e : DiffEvent} (he : ∀ a, e ≠ .authorise a) :
    Twins c d untouched (DiffState.step c s e) (DiffState.step c t e) := by
  intro hnext
  have hun : s.client.authorised = false := by
    by_contra hauthorised
    rw [authorised_step (by simpa using hauthorised)] at hnext
    cases hnext
  have htwin := h hun
  have hauth : t.client.authorised = false :=
    (congrArg DiffClient.authorised htwin.bare).trans hun
  have hsubscribed : t.client.subscribed = s.client.subscribed :=
    (congrArg DiffClient.subscribed htwin.bare :)
  have hsv2 : t.client.sv2 = false := (congrArg DiffClient.sv2 htwin.bare).trans htwin.sv1
  show Twin c d untouched (stepClient c s e) (stepClient c t e)
  cases e with
  | authorise a => exact absurd rfl (he a)
  | subscribe useragent ok =>
    dsimp only [stepClient]
    rw [hsubscribed]
    split_ifs
    · exact htwin
    · exact htwin.subscribe useragent ok
  | authResult ret =>
    change (stepClient c s (.authResult ret)).authorised = false at hnext
    dsimp only [stepClient] at hnext ⊢
    split_ifs at hnext ⊢
    exact htwin
  | suggest m | submit sh =>
    dsimp only [stepClient]
    rw [if_pos (by simp [hun]), if_pos (by simp [hauth])]
    exact htwin
  | sv2SetDiff diff =>
    dsimp only [stepClient]
    rw [htwin.sv1, hsv2]
    exact htwin
  | addBase | addRemoteBase | ageBase | notify => exact htwin

/-- The run without the authorisations. -/
theorem Twins.run_dropAuth (h : Twins c d untouched s t) (events : List DiffEvent) :
    Twins c d untouched (run (DiffState.step c) s events)
      (run (DiffState.step c) t (events.filterMap DiffEvent.dropAuth)) := by
  refine run_filterMap (Q := fun _ => True) DiffEvent.dropAuth ?_ (fun _ _ => trivial) h
  intro s t e _ h
  cases e with
  | authorise a => exact fun hun => (h (authorised_of_sauthProcess hun)).sauthProcess_left hun
  | _ => exact h.step nofun

/-- The run without passwords. -/
theorem Twins.run_unpin (h : Twins c d untouched s t) {events : List DiffEvent}
    (hevents : ∀ a, .authorise a ∈ events → untouched → c.workerOverride a.workername = none) :
    Twins c d untouched (run (DiffState.step c) s events)
      (run (DiffState.step c) t (events.map DiffEvent.unpin)) := by
  rw [← List.filterMap_eq_map]
  refine run_filterMap
    (Q := fun e => ∀ a, e = .authorise a → untouched → c.workerOverride a.workername = none)
    (some ∘ DiffEvent.unpin) ?_ (fun e he a ha => hevents a (ha ▸ he)) h
  intro s t e he h
  cases e with
  | authorise a =>
    exact fun hun => (h (authorised_of_sauthProcess hun)).sauthProcess_unpin (he a rfl) hun
  | _ => exact h.step nofun

/-- **A pin holds until an authorisation, which undoes it.**  Through any events but a
subscription or an authorisation a pinned client keeps its difficulty, its floor and
`ssdc`, and `ldc` too once its first share has come in.

The authorisation that follows without a valid token leaves the client as on a connection
without the authorisations before it; and as on the same connection without any password,
unless a worker name before matched an override and the new one does not. -/
theorem pin_holds_until_authorise (c : DiffConf) :
    (∀ (s : DiffState c.proxy) (events : List DiffEvent), s.client.pinnedDiff = true →
        s.client.sv2 = false → (∀ e ∈ events, e.KeepsPin) →
      let t := run (step c) s events
      t.client.diff = s.client.diff ∧ t.client.suggestDiff = s.client.suggestDiff ∧
        t.client.ssdc = s.client.ssdc ∧
        (s.client.firstShare.sec ≠ 0 → t.client.ldc = s.client.ldc)) ∧
    (∀ (server : Int) (now : Tv) (latency : Int) (remote : Bool) (bases : Workbases c.proxy)
        (events : List DiffEvent) (a : AuthRequest), a.NoToken →
      let start := connect c server now latency remote bases
      let s := run (step c) start events
      s.client.pinnedDiff = true → s.client.authorised = false →
      SameButWindow c a.now (step c s (.authorise a)).client
        (step c (run (step c) start (events.filterMap DiffEvent.dropAuth)) (.authorise a)).client ∧
      (s.client.rentalDiff ∨ (c.workerOverride a.workername).isSome ∨
          (∀ b, .authorise b ∈ events → c.workerOverride b.workername = none) →
        SameButWindow c a.now (step c s (.authorise a)).client
          (step c (run (step c) start (events.map DiffEvent.unpin)) (.authorise a)).client)) := by
  constructor
  · intro s events hpin hsv2 hevents t
    have hheld : Held s.client t.client := held_run hpin hsv2 hevents
    have hrest := hheld.rest
    refine ⟨?_, ?_, ?_, fun hbegun => (hheld.begun hbegun).2⟩
    · rw [hrest]
    · rw [hrest]
    · rw [hrest]
  · intro server now latency remote bases events a ha start s hpin hun
    constructor
    · have htwins : Twins c (c.startOn server) True start start :=
        fun _ => twin_addInstance c server now latency remote True
      exact ((htwins.run_dropAuth events) hun).sauthProcess hpin hun ha (Or.inl trivial)
    · intro hfresh
      have htwins : Twins c (c.startOn server)
          (∀ b, .authorise b ∈ events → c.workerOverride b.workername = none) start start :=
        fun _ => twin_addInstance c server now latency remote _
      have htwin := (htwins.run_unpin fun b hb hall => hall b hb) hun
      have hrental := (congrArg DiffClient.rentalDiff htwin.bare :)
      refine htwin.sauthProcess hpin hun ha ?_
      rcases hfresh with hr | hmatch | hnone
      · exact Or.inr (Or.inl (hrental.trans hr))
      · exact Or.inr (Or.inr hmatch)
      · exact Or.inl hnone

/-- A configuration that gives the workers `s9` a floor of 50000. -/
def exampleOverrides : DiffConf :=
  readDiffConf none none none none [([115, 57], 50000)] [false] false false false true

/-- A session pinned at 20000 with the password `d=20000`, and an accepted share. -/
theorem pin_holds_until_authorise_share :
    let s := run (step exampleDiffConf) (exampleConnection exampleDiffConf)
      [.subscribe [] true, exampleAuth [97] (some [100, 61, 50, 48, 48, 48, 48]) true]
    let t := run (step exampleDiffConf) s
      [.submit { soundShare 100 30000 with rate := ⟨⟨100, 0⟩, 0, 0, 0, 0⟩ },
        .suggest (.text (some 5))]
    t.client.diff = 20000 ∧ t.client.suggestDiff = 20000 ∧ t.client.ssdc = 0 := by
  intro s t
  have hheld := (pin_holds_until_authorise exampleDiffConf).1 s
    [.submit { soundShare 100 30000 with rate := ⟨⟨100, 0⟩, 0, 0, 0, 0⟩ },
      .suggest (.text (some 5))] (by decide) (by decide) (by decide)
  have hs : s.client.diff = 20000 ∧ s.client.suggestDiff = 20000 ∧ s.client.ssdc = 0 := by
    decide
  exact ⟨hheld.1.trans hs.1, hheld.2.1.trans hs.2.1, hheld.2.2.1.trans hs.2.2⟩

/-- **The window moves under the pin, and overrides outlast it.**  The first share of a
pinned session sets `ldc`.  A client refused as `bitcoincash:q.s9`, whose address has no
valid checksum, and authorised as `a` keeps the floor of `s9`, unless its first password
pinned it. -/
theorem pin_is_not_transparent :
    (¬∀ (c : DiffConf) (s : DiffState c.proxy) (events : List DiffEvent),
      s.client.pinnedDiff = true → s.client.sv2 = false → (∀ e ∈ events, e.KeepsPin) →
        (run (step c) s events).client.ldc = s.client.ldc) ∧
    (¬∀ (c : DiffConf) (server : Int) (now : Tv) (latency : Int) (remote : Bool)
        (bases : Workbases c.proxy) (events : List DiffEvent) (a : AuthRequest), a.NoToken →
      (run (step c) (connect c server now latency remote bases) events).client.pinnedDiff = true →
      (run (step c) (connect c server now latency remote bases) events).client.authorised = false →
      (step c (run (step c) (connect c server now latency remote bases) events)
          (.authorise a)).client.suggestDiff =
        (step c (run (step c) (connect c server now latency remote bases)
          (events.map DiffEvent.unpin)) (.authorise a)).client.suggestDiff) := by
  constructor
  · intro h
    have hldc := h exampleDiffConf
      (run (step exampleDiffConf) (exampleConnection exampleDiffConf)
        [.subscribe [] true, exampleAuth [97] (some [100, 61, 50, 48, 48, 48, 48]) true])
      [.submit { soundShare 100 30000 with rate := ⟨⟨100, 0⟩, 0, 0, 0, 0⟩ }]
      (by decide) (by decide) (by decide)
    exact absurd hldc (by decide)
  · intro h
    have hfloor := h exampleOverrides 0 ⟨1, 0⟩ 0 false (exampleBases false)
      [.subscribe [] true,
        exampleAuth [98, 105, 116, 99, 111, 105, 110, 99, 97, 115, 104, 58, 113, 46, 115, 57]
          (some [100, 61, 50, 48, 48, 48, 48]) false]
      ⟨[97], none, true, ⟨4, 0⟩, 0⟩ (fun pass hpass => nomatch hpass)
      (by decide) (by decide)
    exact absurd hfloor (by decide)

end DiffState

end CashStratum
