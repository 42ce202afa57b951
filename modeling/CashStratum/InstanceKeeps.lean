/-
CashStratum/InstanceKeeps.lean

What a step does to the authorisation and the extranonce of the clients, and to the
payouts of the users.

Most steps do nothing to them (`Keeps`): a live instance was live before, with the
same core, or it is new and has none.  The others are listed in `StepShape`: a drop
by id, which may save a session first, a subscription, news of a user, and the steps
of an authorisation.
-/
import CashStratum.InstanceStep

namespace CashStratum

/-- What an instance has of a subscription and an authorisation. -/
def ClientInstance.core (client : ClientInstance) :
    Bool × Bool × Option Bytes × Option Bytes × Nat × Bytes × Bool :=
  (client.authorising, client.authorised, client.workername, client.userInstance, client.enonce1_64,
    client.enonce1bin, client.subscribed)

/-- From `i` to `j` an instance has got no other core, has not come back from being
dropped nor lost its user agent, and is tagged only if it was or is authorised. -/
structure ClientInstance.Keeps (i j : ClientInstance) : Prop where
  core : j.core = i.core
  dropped : i.dropped = true → j.dropped = true
  useragent : i.useragent.isSome = true → j.useragent.isSome = true
  reject : j.reject = 3 → i.reject = 3 ∨ i.authorised = true

namespace ClientInstance

variable {i j k : ClientInstance}

theorem Keeps.refl (i : ClientInstance) : i.Keeps i := ⟨rfl, fun hd => hd, fun ha => ha, Or.inl⟩

theorem Keeps.authorised (h : i.Keeps j) : j.authorised = i.authorised := by
  have hcore := h.core
  simp only [ClientInstance.core, Prod.mk.injEq] at hcore
  exact hcore.2.1

theorem Keeps.trans (h : i.Keeps j) (h' : j.Keeps k) : i.Keeps k where
  core := h'.core.trans h.core
  dropped hd := h'.dropped (h.dropped hd)
  useragent ha := h'.useragent (h.useragent ha)
  reject hk := by
    rcases h'.reject hk with hj | hj
    · exact h.reject hj
    · rw [h.authorised] at hj
      exact Or.inr hj

/-- An instance with nothing of a subscription or an authorisation. -/
def Blank (j : ClientInstance) : Prop := j.core = ({} : ClientInstance).core ∧ j.reject ≠ 3

theorem Blank.keeps (h : i.Blank) (hk : i.Keeps j) : j.Blank := by
  refine ⟨hk.core.trans h.1, fun hreject => ?_⟩
  rcases hk.reject hreject with hi | hi
  · exact h.2 hi
  · have hcore := h.1
    simp only [ClientInstance.core, Prod.mk.injEq] at hcore
    rw [hcore.2.1] at hi
    cases hi

theorem Blank.of_recruited {id sessionId server : Nat} : (recruited id sessionId server).Blank :=
  ⟨rfl, nofun⟩

end ClientInstance

/-- What a user is paid with. -/
def UserInstance.payout (user : UserInstance) : Bool × Bool × Bytes :=
  (user.btcaddress, user.poolFallback, user.txnbin)

namespace InstanceData

/-- From `s` to `t` no live instance has got another core or come back from being
dropped, and users, sessions, extranonces and the authoriser's request are as they
were. -/
structure Keeps (s t : InstanceData) : Prop where
  live : ∀ p ∈ t.stratumInstances, (t.inst p).Blank ∨
    (p ∈ s.stratumInstances ∧ (s.inst p).Keeps (t.inst p))
  payout : ∀ u, (t.user u).payout = (s.user u).payout
  usernames : t.usernames = s.usernames
  authjob : t.authjob = s.authjob
  sessions : t.disconnectedSessions = s.disconnectedSessions
  enonce1_64 : t.enonce1_64 = s.enonce1_64
  allocated : t.allocated = s.allocated

namespace Keeps

variable {r s t : InstanceData} {p q : Nat} {f : ClientInstance → ClientInstance}

theorem refl (s : InstanceData) : Keeps s s :=
  ⟨fun _ hp => Or.inr ⟨hp, .refl _⟩, fun _ => rfl, rfl, rfl, rfl, rfl, rfl⟩

theorem trans (h : Keeps r s) (h' : Keeps s t) : Keeps r t where
  live p hp := by
    rcases h'.live p hp with hblank | ⟨hlive, hkeeps⟩
    · exact Or.inl hblank
    · rcases h.live p hlive with hblank | ⟨hlive', hkeeps'⟩
      · exact Or.inl (hblank.keeps hkeeps)
      · exact Or.inr ⟨hlive', hkeeps'.trans hkeeps⟩
  payout u := (h'.payout u).trans (h.payout u)
  usernames := h'.usernames.trans h.usernames
  authjob := h'.authjob.trans h.authjob
  sessions := h'.sessions.trans h.sessions
  enonce1_64 := h'.enonce1_64.trans h.enonce1_64
  allocated := h'.allocated.trans h.allocated

/-- The instances are untouched, and whatever else is, is none of ours. -/
theorem of_inst (hinst : t.inst = s.inst) (htable : t.stratumInstances = s.stratumInstances)
    (huser : t.user = s.user) (hnames : t.usernames = s.usernames) (hjob : t.authjob = s.authjob)
    (hsessions : t.disconnectedSessions = s.disconnectedSessions)
    (henonce : t.enonce1_64 = s.enonce1_64) (hallocated : t.allocated = s.allocated) : Keeps s t where
  live p hp := by
    rw [htable] at hp
    rw [hinst]
    exact Or.inr ⟨hp, .refl _⟩
  payout u := by rw [huser]
  usernames := hnames
  authjob := hjob
  sessions := hsessions
  enonce1_64 := henonce
  allocated := hallocated

theorem modify (s : InstanceData) (p : Nat) {f : ClientInstance → ClientInstance}
    (hf : (s.inst p).Keeps (f (s.inst p))) : Keeps s (s.modify p f) where
  live q hq := by
    refine Or.inr ⟨hq, ?_⟩
    rw [modify_inst]
    split_ifs with heq
    · rw [heq]
      exact hf
    · exact .refl _
  payout _ := rfl
  usernames := rfl
  authjob := rfl
  sessions := rfl
  enonce1_64 := rfl
  allocated := rfl

theorem markDropped (s : InstanceData) (p : Nat) :
    Keeps s (s.modify p fun i => { i with dropped := true }) :=
  modify s p ⟨rfl, fun _ => rfl, fun ha => ha, Or.inl⟩

/-! ### Drop paths -/

theorem reap (s : InstanceData) (p : Nat) : Keeps s (s.reap p) := by
  have hrest := reap_rest s p
  constructor
  · intro q hq
    by_cases heq : q = p
    · rw [heq, reap_inst_self]
      exact Or.inl .of_recruited
    · obtain ⟨n, hn⟩ := reap_inst_ne (s := s) heq
      rw [reap_stratumInstances] at hq
      rw [hn]
      exact Or.inr ⟨List.mem_of_mem_erase hq, rfl, id, id, Or.inl⟩
  · intro u
    rw [reap_user]
    split_ifs <;> rfl
  · rw [hrest]
  · rw [hrest]
  · rw [hrest]
  · rw [hrest]
  · rw [hrest]

theorem dropOne (s : InstanceData) (p : Nat) : Keeps s (s.dropOne p) := by
  rw [InstanceData.dropOne]
  split_ifs
  · exact reap s p
  · exact markDropped s p

theorem dropEach (h : Wf s) (select : ClientInstance → Bool) : Keeps s (s.dropEach select) :=
  dropEach_induction (P := Keeps s) h.table_nodup (refl s) fun t p ht _ _ => ht.trans (dropOne t p)

theorem unlink (s : InstanceData) (p : Nat) : Keeps s (s.unlink p) := by
  rw [InstanceData.unlink]
  split_ifs
  · exact of_inst rfl rfl rfl rfl rfl rfl rfl rfl
  · exact of_inst rfl rfl rfl rfl rfl rfl rfl rfl
  · exact refl s

theorem dropClientLocked (h : Wf s) (p : Nat) : Keeps s (s.dropClientLocked p) := by
  rw [InstanceData.dropClientLocked]
  split_ifs
  · exact ((dropEach h _).trans (unlink _ p)).trans (reap _ p)
  · exact (unlink s p).trans (reap _ p)

theorem decInstanceRef (h : Wf s) (hheld : s.Held p) : Keeps s (s.decInstanceRef p) := by
  have hmod := modify s p (f := fun i => { i with ref := i.ref - 1 }) ⟨rfl, id, id, Or.inl⟩
  rw [InstanceData.decInstanceRef]
  split_ifs
  · exact hmod.trans (dropClientLocked (h.unref hheld) p)
  · exact hmod

theorem dropAllclients (h : Wf s) : Keeps s s.dropAllclients := by
  have hdrop := dropEach h fun _ => true
  rw [InstanceData.dropAllclients]
  split_ifs
  · exact hdrop.trans (of_inst rfl rfl rfl rfl rfl rfl rfl rfl)
  · exact hdrop

theorem requestReconnect (s : InstanceData) : Keeps s s.requestReconnect where
  live p hp := by
    have hinst : s.requestReconnect.inst p = { s.inst p with dropped := true } := if_pos hp
    rw [hinst]
    exact Or.inr ⟨hp, rfl, fun _ => rfl, id, Or.inl⟩
  payout _ := rfl
  usernames := rfl
  authjob := rfl
  sessions := rfl
  enonce1_64 := rfl
  allocated := rfl

/-! ### Adding an instance -/

theorem subclientCreateOk {c : InstanceConf} {id : Nat} {creates tooFast : Bool}
    (hok : s.subclientCreateOk c id creates tooFast = some t) : Keeps s t := by
  rcases subclientCreateOk_cases hok with rfl | ⟨parent, -, rfl⟩
  · exact refl t
  · exact modify s parent ⟨rfl, fun hd => hd, fun ha => ha, Or.inl⟩

theorem recruitStratumInstance (ht : s.recruitStratumInstance = (t, p)) : Keeps s t := by
  rw [InstanceData.recruitStratumInstance] at ht
  split at ht
  · obtain ⟨rfl, -⟩ := Prod.mk.inj ht
    exact of_inst rfl rfl rfl rfl rfl rfl rfl rfl
  · obtain ⟨rfl, -⟩ := Prod.mk.inj ht
    exact of_inst rfl rfl rfl rfl rfl rfl rfl rfl

theorem stratumRecruit {clientId server : Nat} (ht : s.stratumRecruit clientId server = (t, p)) :
    Keeps s t := by
  rw [InstanceData.stratumRecruit] at ht
  rcases hrec : s.recruitStratumInstance with ⟨r, a⟩
  rw [hrec] at ht
  obtain ⟨rfl, -⟩ := Prod.mk.inj ht
  refine (recruitStratumInstance hrec).trans ?_
  refine ⟨fun q hq => ?_, fun _ => rfl, rfl, rfl, rfl, rfl, rfl⟩
  by_cases heq : q = a
  · rw [heq]
    dsimp only
    rw [Function.update_self]
    exact Or.inl .of_recruited
  · dsimp only
    rw [Function.update_of_ne heq]
    exact Or.inr ⟨hq, .refl _⟩

theorem stratumInsert (h : Wf s) (hp : p ∈ s.adding) (ht : s.stratumInsert p = (t, q)) : Keeps s t := by
  obtain ⟨-, -, ⟨-, rfl⟩ | ⟨-, -, htable, hshape, hinst⟩⟩ := h.stratumInsert hp ht
  · refine ⟨fun r hr => ?_, fun _ => rfl, rfl, rfl, rfl, rfl, rfl⟩
    dsimp only at hr ⊢
    rw [List.mem_append, List.mem_singleton] at hr
    rcases hr with hr | rfl
    · exact Or.inr ⟨hr, .refl _⟩
    · obtain ⟨_, _, _, hrecruited⟩ := h.recruited r hp
      rw [hrecruited]
      exact Or.inl .of_recruited
  · refine ⟨fun r hr => ?_, fun u => by rw [hshape], by rw [hshape], by rw [hshape], by rw [hshape],
      by rw [hshape], by rw [hshape]⟩
    rw [htable] at hr
    have hne : r ≠ p := by
      rintro rfl
      exact h.not_mem_table hp hr
    obtain ⟨n, hn⟩ := hinst r hne
    rw [hn]
    exact Or.inr ⟨hr, rfl, id, id, Or.inl⟩

/-! ### Messages that change no core -/

theorem addRemoteServer (h : Wf s) (hp : p ∈ s.stratumInstances) :
    Keeps s ((s.addRemoteServer p).decInstanceRef p) := by
  have hmod := modify s p (f := fun i => { i with trusted := true, ref := i.ref + 1 }) ⟨rfl, id, id, Or.inl⟩
  have hlist : Keeps s (s.addRemoteServer p) :=
    hmod.trans (of_inst rfl rfl rfl rfl rfl rfl rfl rfl)
  obtain ⟨hwf, hheld⟩ := h.addRemoteServer_held hp
  exact hlist.trans (decInstanceRef hwf hheld)

theorem addMiningNode (s : InstanceData) (p : Nat) : Keeps s (s.addMiningNode p) :=
  (modify s p (f := fun i => { i with node := true, ref := i.ref + 1 }) ⟨rfl, id, id, Or.inl⟩).trans
    (of_inst rfl rfl rfl rfl rfl rfl rfl rfl)

theorem parseRemoteAuth (s : InstanceData) (c : InstanceConf) (p clientid : Nat)
    (useragent : Option Bytes) (params : Params) :
    Keeps s (s.parseRemoteAuth c p clientid useragent params) := by
  rw [InstanceData.parseRemoteAuth]
  dsimp only
  split_ifs
  · exact refl s
  · split
    · exact refl s
    · rename_i q _
      exact (modify s q (f := fun i =>
        { i with remote := true, useragent := useragent.or i.useragent })
          ⟨rfl, id, fun ha => by cases useragent <;> simp_all, Or.inl⟩).trans
          (of_inst rfl rfl rfl rfl rfl rfl rfl rfl)

theorem sv2CloseSession (h : Wf s) (id : Nat) : Keeps s (s.sv2CloseSession id) := by
  rw [InstanceData.sv2CloseSession]
  split
  · exact refl s
  · rename_i p hp
    split_ifs
    · exact refl s
    · have hmod := modify s p (f := fun i => { i with ref := i.ref + 1, dropped := true })
        ⟨rfl, fun _ => rfl, fun ha => ha, Or.inl⟩
      have hheld := h.held_of_ref p
      rw [Held, modify_inst_self] at hheld
      refine hmod.trans (decInstanceRef
        (h.modify_of_ref (instanceById_mem hp).1 rfl (Nat.le_succ _)) ?_)
      rw [Held, modify_inst_self]
      exact hheld

end Keeps

end InstanceData

/-! ### New channels -/

namespace InstanceData

theorem recruitStratumInstance_rest (s : InstanceData) :
    s.recruitStratumInstance.1 = { s with
      recycledInstances := s.recruitStratumInstance.1.recycledInstances
      stratumGenerated := s.recruitStratumInstance.1.stratumGenerated } := by
  rw [recruitStratumInstance]
  split <;> rfl

theorem stratumRecruit_rest (s : InstanceData) (id server : Nat) :
    (s.stratumRecruit id server).1 = { s with
      inst := (s.stratumRecruit id server).1.inst
      adding := (s.stratumRecruit id server).1.adding
      recycledInstances := (s.stratumRecruit id server).1.recycledInstances
      stratumGenerated := (s.stratumRecruit id server).1.stratumGenerated
      sessionId := (s.stratumRecruit id server).1.sessionId } := by
  rw [stratumRecruit]
  dsimp only
  rw [recruitStratumInstance_rest]

/-- The instance of a channel, if its id is new, is a new one. -/
theorem Wf.sv2AddInstance_fresh {s t : InstanceData} {p id server : Nat} {c : InstanceConf} (h : Wf s)
    (hid : s.FreshId id) (ht : s.sv2AddInstance c id server = (t, p)) :
    p ∉ s.stratumInstances ∧
      t = { s.nextEnonce1 with
        inst := t.inst
        stratumInstances := s.stratumInstances ++ [p]
        adding := t.adding
        recycledInstances := t.recycledInstances
        stratumGenerated := t.stratumGenerated
        sessionId := t.sessionId } ∧
      (∀ q, q ≠ p → t.inst q = s.inst q) ∧
      ∃ sessionId, t.inst p = { ClientInstance.recruited id sessionId server with
        ref := 1
        subscribed := true
        sv2 := true
        useragent := some [115, 118, 50]
        enonce1bin := leBytes c.ck.nonce1length s.nextEnonce1.enonce1_64
        enonce1_64 := leNat (leBytes c.ck.nonce1length s.nextEnonce1.enonce1_64) } := by
  rw [InstanceData.sv2AddInstance] at ht
  dsimp only at ht
  have hnext : Wf s.nextEnonce1 := h.congr rfl rfl rfl rfl (fun _ _ => rfl) (fun _ _ => rfl) h.job
  have hrest := stratumRecruit_rest s.nextEnonce1 id server
  rcases hrec : s.nextEnonce1.stratumRecruit id server with ⟨r, a⟩
  obtain ⟨hr, hadd, htable, hinst, hnew, sessionId, hself⟩ := hnext.stratumRecruit hid.1 hrec
  rw [hrec] at ht hrest
  dsimp only at ht hrest
  rcases hins : r.stratumInsert a with ⟨r', b⟩
  rw [hins] at ht
  obtain ⟨hstate, rfl⟩ := Prod.mk.inj ht
  obtain ⟨-, -, ⟨rfl, hr'⟩ | ⟨hlive, hsame, -⟩⟩ := hr.stratumInsert hadd hins
  · refine ⟨hnew, ?_, ?_, sessionId, ?_⟩
    · rw [← hstate, hr', hrest]
      rfl
    · intro q hq
      rw [← hstate, modify_inst_ne hq, hr']
      exact hinst q hq
    · rw [← hstate, modify_inst_self, hr']
      dsimp only
      rw [hself]
      rfl
  · -- the id would not be new
    rw [htable] at hlive
    have hne : b ≠ a := by
      rintro rfl
      exact hnew hlive
    rw [hself, hinst b hne] at hsame
    have hnone := List.find?_eq_none.mp hid.2.1 b hlive
    exact absurd (decide_eq_true hsame) hnone

end InstanceData

/-! ### The shapes of a step -/

namespace InstanceData

/-- What an event can do. -/
inductive StepShape (c : InstanceConf) (s : InstanceData) (e : InstanceEvent) : InstanceData → Prop
  | keeps {t : InstanceData} (h : Keeps s t) : StepShape c s e t
  | drop (id now : Nat) (hdrop : e.drops c s = some (id, now)) : StepShape c s e (s.dropClient id now)
  | subscribe (p : Nat) (params : Params) (hp : p ∈ s.stratumInstances) :
      StepShape c s e (s.parseSubscribe c p params)
  | trusted (p : Nat) (msg : TrustedMsg)
      (hrest : s.parseTrustedMsg c p msg = { s with
        usernames := (s.parseTrustedMsg c p msg).usernames
        user := (s.parseTrustedMsg c p msg).user }) : StepShape c s e (s.parseTrustedMsg c p msg)
  | preauth (hjob : s.authjob = none) : StepShape c s e s.preauth
  | authorise (now : Nat) (he : e = .authorise now) : StepShape c s e (s.sauthProcess c now)
  | sv2Open (id server now : Nat) (userIdentity : Bytes) (hid : s.FreshId id) :
      StepShape c s e (s.sv2OpenSession c id server now userIdentity)

variable {s t : InstanceData} {p q : Nat} {c : InstanceConf}

theorem parseTrustedMsg_rest (s : InstanceData) (c : InstanceConf) (p : Nat) (msg : TrustedMsg) :
    Keeps s (s.parseTrustedMsg c p msg) ∨
      s.parseTrustedMsg c p msg = { s with
        usernames := (s.parseTrustedMsg c p msg).usernames
        user := (s.parseTrustedMsg c p msg).user } := by
  cases msg with
  | share workername =>
    right
    have hrest := generateRemoteUser_rest s c workername
    rw [parseTrustedMsg]
    rcases hgen : s.generateRemoteUser c workername with ⟨t, - | u⟩
    · rw [hgen] at hrest
      exact hrest
    · rw [hgen] at hrest
      dsimp only at hrest ⊢
      rw [getWorker_rest, modifyUser, hrest]
  | shareErr workername => exact Or.inr (generateRemoteUser_rest s c workername)
  | workers username => exact Or.inr (getCreateUser_rest s c username false)
  | auth clientid useragent params => exact Or.inl (Keeps.parseRemoteAuth s c p clientid useragent params)

/-- **What a step can do.** -/
theorem step_shape (h : Wf s) (e : InstanceEvent) : StepShape c s e (s.step c e) := by
  have hmod : ∀ p (f : ClientInstance → ClientInstance), (s.inst p).Keeps (f (s.inst p)) →
      StepShape c s e (s.modify p f) := fun p f hf => .keeps (Keeps.modify s p hf)
  have hdoes := step_does c s e
  generalize s.step c e = t at hdoes ⊢
  cases hdoes with
  | idle => exact .keeps (Keeps.refl s)
  | recruit server hid hok =>
    exact .keeps ((Keeps.subclientCreateOk hok).trans (Keeps.stratumRecruit rfl))
  | insert hadd hins => exact .keeps (Keeps.stratumInsert h hadd hins)
  | receive hadd hins =>
    exact .keeps ((Keeps.stratumInsert h hadd hins).trans
      (Keeps.modify _ _ ⟨rfl, fun hd => hd, fun ha => ha, Or.inl⟩))
  | takes | passthrough | iterUnref => exact hmod _ _ ⟨rfl, id, id, Or.inl⟩
  | leaves hheld hdrops => exact .drop _ _ hdrops
  | subscribe params hheld => exact .subscribe _ params (h.live_of_held hheld)
  | remote hheld => exact .keeps (Keeps.addRemoteServer h (h.live_of_held hheld))
  | node => exact .keeps (Keeps.addMiningNode s _)
  | asks => exact .keeps (Keeps.of_inst rfl rfl rfl rfl rfl rfl rfl rfl)
  | trusted msg =>
    rcases parseTrustedMsg_rest s c _ msg with hkeeps | hrest
    · exact .keeps hkeeps
    · exact .trusted _ msg hrest
  | share hheld hauth =>
    -- only a client that is authorised gets another level
    exact hmod _ _ ⟨rfl, id, id, fun _ => Or.inr hauth⟩
  | release hheld => exact .keeps (Keeps.decInstanceRef h hheld)
  | lazyDrop => exact hmod _ _ ⟨rfl, fun _ => rfl, id, Or.inl⟩
  | preauth hjob => exact .preauth hjob
  | authorise now => exact .authorise now rfl
  | dropClient id now => exact .drop id now rfl
  | dropAllclients => exact .keeps (Keeps.dropAllclients h)
  | requestReconnect => exact .keeps (Keeps.requestReconnect s)
  | sv2Open server now userIdentity hid => exact .sv2Open _ server now _ hid
  | sv2Close id => exact .keeps (Keeps.sv2CloseSession h id)

end InstanceData

end CashStratum
