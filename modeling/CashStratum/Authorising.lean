/-
CashStratum/Authorising.lean

The flag `authorising` (`stratifier.c`).

`preauth_ref_instance_by_id` sets it, and takes up nobody who has it; `client_auth`
clears it.  `parse_authorise` has nine ways out before it gets to `client_auth`: two
drop the client, and the other seven leave the flag where it is, so that the client
is never taken up again (`authorise_sticks`).  In a run in which no request takes one
of the seven, and none is refused by the gate, which tags the client, every flagged
client is the one the authoriser is at, and every well-formed request of a subscribed
client is queued, taken up and answered (`authorise_never_sticks`).
-/
import CashStratum.SoloPayout

namespace CashStratum

/-! ### Requests that are answered -/

variable {c : InstanceConf} {username u : Bytes}

/-- The gate lets the users of this name in. -/
def Admitted (c : InstanceConf) (username : Bytes) : Prop :=
  c.ck.btcsolo = false ∨ (addressToTxn c.chain username).isSome ∨
    looksLikeAddress c.chain username = false

instance (c : InstanceConf) (username : Bytes) : Decidable (Admitted c username) :=
  inferInstanceAs (Decidable (_ ∨ _ ∨ _))

/-- The request passes the checks at the start of `parse_authorise`, and its
username is one the gate lets in. -/
def Accepted (c : InstanceConf) : Except AuthError Bytes → Prop
  | .error _ => False
  | .ok workername => ∀ username ∈ generateUsername workername, Admitted c username

instance (c : InstanceConf) : DecidablePred (Accepted c)
  | .error _ => inferInstanceAs (Decidable False)
  | .ok workername =>
    inferInstanceAs (Decidable (∀ username ∈ generateUsername workername, Admitted c username))

/-- The request the authoriser finishes is accepted. -/
def RequestAccepted (c : InstanceConf) (s : InstanceData) : InstanceEvent → Prop
  | .authorise _ =>
    ∀ job ∈ s.authjob, Accepted c (checkAuthorise (s.inst job.1).useragent job.2)
  | _ => True

instance (c : InstanceConf) (s : InstanceData) : DecidablePred (RequestAccepted c s)
  | .authorise _ => inferInstanceAs (Decidable (∀ job ∈ s.authjob, Accepted c _))
  | .recruit .. | .insert .. | .acquire .. | .message .. | .trustedMessage .. | .share ..
  | .release .. | .iterRef .. | .iterUnref .. | .lazyDrop .. | .preauth | .dropClient ..
  | .dropAllclients | .requestReconnect | .sv2Open .. | .sv2Close .. => isTrue trivial

/-- The pool knows the user of the name, or has room for it. -/
def UserRoom (c : InstanceConf) (s : InstanceData) (username : Bytes) : Prop :=
  userKey (canonicaliseUsername c.chain username) ∈ s.usernames ∨ c.maxusers = 0 ∨
    s.usernames.length < c.maxusers

instance (c : InstanceConf) (s : InstanceData) : DecidablePred (UserRoom c s) :=
  fun _ => inferInstanceAs (Decidable (_ ∨ _ ∨ _))

/-- A worker name that passes the checks has a username. -/
theorem checkAuthorise_username {useragent : Option Bytes} {params : Params} {workername : Bytes}
    (h : checkAuthorise useragent params = .ok workername) :
    ∃ username, generateUsername workername = some username := by
  unfold checkAuthorise at h
  split at h
  · cases h
  · cases h
  · split_ifs at h
    split at h
    · cases h
    · dsimp only at h
      split_ifs at h with hempty hhead
      obtain rfl := Except.ok.inj h
      obtain ⟨ch, rest, hcons⟩ := List.exists_cons_of_ne_nil hempty
      rw [hcons, List.head?_cons, Option.some.injEq, Option.some.injEq, not_or] at hhead
      have hsep : (!isSeparator ch) = true := by
        simp only [isSeparator, Bool.not_eq_true', Bool.or_eq_false_iff, beq_eq_false_iff_ne]
        exact hhead
      have htoken : (strsep (ch :: rest)).1 ≠ [] := by
        rw [strsep, List.takeWhile_cons, if_pos hsep]
        exact List.cons_ne_nil _ _
      rw [hcons, generateUsername, if_neg htoken]
      exact ⟨_, rfl⟩

namespace InstanceData

variable {s t : InstanceData} {p q : Nat}

/-! ### The user of a request -/

theorem generateUser_room {workername : Bytes} (hgen : s.generateUser c p workername = (t, some u)) :
    ∃ username, generateUsername workername = some username ∧ UserRoom c s username := by
  obtain ⟨username, r, newUser, hname, hget, -⟩ := generateUser_some hgen
  refine ⟨username, hname, ?_⟩
  rw [getCreateUser] at hget
  dsimp only at hget
  split_ifs at hget with hmem hfull
  · exact Or.inl hmem
  · cases (Prod.mk.inj hget).2
  · rw [not_and, not_and] at hfull
    rcases Nat.eq_zero_or_pos c.maxusers with hzero | hpos
    · exact Or.inr (Or.inl hzero)
    · exact Or.inr (Or.inr (Nat.not_le.mp (hfull rfl hpos.ne')))

/-- **The gate**: a name that is admitted gets a user that may authorise. -/
theorem generateUser_mayAuthorise {workername : Bytes}
    (hgen : s.generateUser c p workername = (t, some u))
    (hname : generateUsername workername = some username) (hgate : Admitted c username) :
    (t.user u).mayAuthorise c = true := by
  rcases hsolo : c.ck.btcsolo with - | -
  · rw [UserInstance.mayAuthorise, hsolo]
    rfl
  · obtain ⟨name, r, newUser, hname', -, rfl⟩ := generateUser_some hgen
    obtain rfl : username = name := Option.some.inj (hname.symm.trans hname')
    have hfunded : ∀ user : UserInstance, user.Funded → user.mayAuthorise c = true := by
      rintro user (haddress | hfall)
      · rw [UserInstance.mayAuthorise, haddress, Bool.or_true, Bool.true_or]
      · rw [UserInstance.mayAuthorise, hfall, Bool.or_true]
    apply hfunded
    rw [modifyUser_user, if_pos rfl]
    split_ifs with hassign
    · have hbind := generatorCheckaddr_bind c.chain username _
        (addressToTxn_canonicalise c.chain username)
      rw [UserInstance.assignPayout]
      split
      · exact Or.inl rfl
      · rename_i hnone
        rw [hnone, Option.map_none] at hbind
        have hlooks : looksLikeAddress c.chain (canonicaliseUsername c.chain username) = false := by
          rw [canonicaliseUsername_of_none (generateUsername_length hname) hbind.symm]
          rcases hgate with hnosolo | hsome | hlooks
          · rw [hsolo] at hnosolo
            cases hnosolo
          · rw [← hbind] at hsome
            cases hsome
          · exact hlooks
        split_ifs with hfall
        · exact Or.inr rfl
        · right
          rw [not_and, not_and] at hfall
          exact Bool.eq_true_of_not_eq_false (hfall hsolo hlooks)
    · rw [not_or] at hassign
      exact Or.inl (Bool.eq_true_of_not_eq_false hassign.2)

/-! ### The invariant -/

end InstanceData

/-- Only an authorised client is tagged, and a subscribed one has a user agent. -/
structure ClientInstance.Settled (client : ClientInstance) : Prop where
  tagged : client.reject = 3 → client.authorised = true
  agent : client.subscribed = true → client.useragent.isSome = true

namespace InstanceData

/-- Every flagged client is the authoriser's, or dropped. -/
structure Settled (s : InstanceData) : Prop where
  client : ∀ p ∈ s.stratumInstances, (s.inst p).Settled
  authorising : ∀ p ∈ s.stratumInstances, (s.inst p).dropped = false → (s.inst p).authorising = true →
    ∃ params, s.authjob = some (p, params)

variable {s t : InstanceData} {p q : Nat}

namespace Settled

/-- Steps that leave the authoriser's request and the flag alone. -/
theorem of_live (h : Settled s) (hjob : t.authjob = s.authjob)
    (hlive : ∀ p ∈ t.stratumInstances, (t.inst p).Settled ∧ ((t.inst p).authorising = false ∨
      p ∈ s.stratumInstances ∧ (t.inst p).authorising = (s.inst p).authorising ∧
        ((s.inst p).dropped = true → (t.inst p).dropped = true))) : Settled t where
  client p hp := (hlive p hp).1
  authorising p hp hdropped hflag := by
    rcases (hlive p hp).2 with hoff | ⟨hmem, hsame, hmono⟩
    · rw [hoff] at hflag
      cases hflag
    · rw [hjob]
      refine h.authorising p hmem ?_ (hsame ▸ hflag)
      rw [Bool.eq_false_iff]
      intro hd
      rw [hmono hd] at hdropped
      cases hdropped

theorem keeps (h : Settled s) (hk : Keeps s t) : Settled t := by
  refine h.of_live hk.authjob fun p hp => ?_
  rcases hk.live p hp with hblank | ⟨hlive, hkeeps⟩
  · have hcore := hblank.1
    simp only [ClientInstance.core, Prod.mk.injEq] at hcore
    obtain ⟨hflag, -, -, -, -, -, hsub⟩ := hcore
    refine ⟨⟨fun htag => absurd htag hblank.2, fun habs => ?_⟩, Or.inl hflag⟩
    rw [hsub] at habs
    cases habs
  · have hcore := hkeeps.core
    simp only [ClientInstance.core, Prod.mk.injEq] at hcore
    obtain ⟨hflag, hauth, -, -, -, -, hsub⟩ := hcore
    have hclient := h.client p hlive
    refine ⟨⟨fun htag => ?_, fun hsub' => ?_⟩, Or.inr ⟨hlive, hflag, hkeeps.dropped⟩⟩
    · rw [hauth]
      rcases hkeeps.reject htag with htag' | hauth'
      · exact hclient.tagged htag'
      · exact hauth'
    · exact hkeeps.useragent (hclient.agent (hsub ▸ hsub'))

/-- Work on one instance that leaves its flag off, or as it was. -/
theorem writes (h : Settled s) (hw : Writes p s t) (hp : (t.inst p).Settled)
    (hflag : (t.inst p).authorising = false ∨ (t.inst p).authorising = (s.inst p).authorising ∧
      ((s.inst p).dropped = true → (t.inst p).dropped = true)) : Settled t := by
  refine h.of_live hw.authjob fun q hq => ?_
  rw [hw.stratumInstances] at hq
  by_cases heq : q = p
  · rw [heq] at hq ⊢
    exact ⟨hp, hflag.imp id fun hsame => ⟨hq, hsame⟩⟩
  · rw [hw.inst_ne q heq]
    exact ⟨h.client q hq, Or.inr ⟨hq, rfl, id⟩⟩

theorem dropClient (h : Settled s) (hwf : Wf s) (clientId now : Nat) :
    Settled (s.dropClient clientId now) := by
  rw [InstanceData.dropClient]
  split
  · exact h
  · rename_i q hq
    have hsessions : Settled (s.disconnectSession q now) := by
      rw [disconnectSession_rest]
      exact ⟨h.client, h.authorising⟩
    dsimp only
    split_ifs
    · exact hsessions.keeps (Keeps.dropClientLocked (hwf.disconnectSession q now) q)
    · exact hsessions.keeps (Keeps.markDropped _ q)

/-- A subscription comes with a user agent. -/
theorem parseSubscribe (h : Settled s) (hp : p ∈ s.stratumInstances) (params : Params) :
    Settled (s.parseSubscribe c p params) := by
  rcases params with - | arr
  · exact h
  · have hagent := Subscribes.of_useragent s c p arr
    have hall := Subscribes.parseSubscribe s c p (some arr)
    have hsome : ((s.parseSubscribe c p (some arr)).inst p).useragent.isSome = true := by
      apply hagent.agent
      rw [modify_inst_self]
      rfl
    refine h.writes (Writes.parseSubscribe s c p (some arr)) ⟨?_, fun _ => hsome⟩ (Or.inr ?_)
    · rw [hall.self]
      exact (h.client p hp).tagged
    · rw [hall.self]
      exact ⟨rfl, fun hd => hd⟩

/-- The authoriser takes a client up and sets its flag. -/
theorem preauth (h : Settled s) (hjob : s.authjob = none) : Settled s.preauth := by
  rw [InstanceData.preauth]
  split
  · exact h
  · rename_i clientId params rest hq
    dsimp only
    split
    · exact ⟨h.client, h.authorising⟩
    · rename_i q hfound
      split_ifs with hskip
      · exact ⟨h.client, h.authorising⟩
      · refine ⟨fun r hr => ?_, fun r hr hdropped hflag => ?_⟩
        · have hclient : ((s.modify q fun i =>
              { i with ref := i.ref + 1, authorising := true }).inst r).Settled := by
            rw [modify_inst]
            split_ifs with heq
            · have hq' := h.client q (heq ▸ hr)
              exact ⟨hq'.tagged, hq'.agent⟩
            · exact h.client r hr
          exact hclient
        · by_cases heq : r = q
          · rw [heq]
            exact ⟨params, rfl⟩
          · exfalso
            have hold : ((s.modify q fun i =>
                { i with ref := i.ref + 1, authorising := true }).inst r) = s.inst r := modify_inst_ne heq
            have hd : (s.inst r).dropped = false := by
              rw [← hold]
              exact hdropped
            have hf : (s.inst r).authorising = true := by
              rw [← hold]
              exact hflag
            obtain ⟨params', hjob'⟩ := h.authorising r hr hd hf
            rw [hjob] at hjob'
            cases hjob'

/-- **A request that is accepted leaves no flag behind**: the client is authorised, or
dropped. -/
theorem parseAuthorise_accepted (now : Nat) {params : Params} {workername : Bytes}
    (hcheck : checkAuthorise (s.inst p).useragent params = .ok workername)
    (haccept : Accepted c (.ok workername)) :
    ∃ user worker name, (s.parseAuthorise c p now params).1.inst p =
        { s.inst p with
          userInstance := user, workerInstance := worker, workername := name, dropped := true } ∨
      (s.parseAuthorise c p now params).1.inst p =
        { s.inst p with
          userInstance := user, workerInstance := worker, workername := name
          authorised := true
          authorising := false } := by
  obtain ⟨e, herr, -⟩ | ⟨buf, hok, ⟨-, heq⟩ | ⟨t, u, hgen, ⟨-, heq⟩ | ⟨-, err, heq⟩⟩⟩ :=
    parseAuthorise_cases s c p now params
  · rw [hcheck] at herr
    cases herr
  · refine ⟨(s.inst p).userInstance, (s.inst p).workerInstance, (s.inst p).workername, Or.inl ?_⟩
    rw [heq]
    dsimp only
    rw [modify_inst_self]
  · refine ⟨some u, buf, some buf, Or.inl ?_⟩
    rw [heq]
    dsimp only
    rw [modify_inst_self, modifyUser_inst, modify_inst_self, generateUser_inst hgen]
  · refine ⟨some u, buf, some buf, Or.inr ?_⟩
    obtain rfl : workername = buf := Except.ok.inj (hcheck.symm.trans hok)
    obtain ⟨name, r, newUser, hname, -, -⟩ := generateUser_some hgen
    rw [heq, generateUser_mayAuthorise hgen hname (haccept name hname)]
    dsimp only
    rw [clientAuth_inst, if_pos rfl, modify_inst_self, generateUser_inst hgen]

theorem sauthProcess (h : Settled s) (hwf : Wf s) {now : Nat}
    (haccept : RequestAccepted c s (.authorise now)) : Settled (s.sauthProcess c now) := by
  rw [InstanceData.sauthProcess]
  split
  · exact h
  · rename_i q params hjob
    have hlive := hwf.live_of_ref (hwf.job q params hjob)
    have haccept' := haccept (q, params) hjob
    rcases hcheck : checkAuthorise (s.inst q).useragent params with e | workername
    · rw [hcheck] at haccept'
      exact haccept'.elim
    · rw [hcheck] at haccept'
      have hw := Writes.parseAuthorise { s with authjob := none } c q now params
      obtain ⟨user, worker, name, hinst⟩ :=
        parseAuthorise_accepted (s := { s with authjob := none }) now hcheck haccept'
      rcases hparse : InstanceData.parseAuthorise { s with authjob := none } c q now params with
        ⟨t, ret, err⟩
      rw [hparse] at hw hinst
      dsimp only at hinst ⊢
      have hclient := h.client q hlive
      have ht : Settled t := by
        refine ⟨fun r hr => ?_, fun r hr hdropped hflag => ?_⟩
        · by_cases heq : r = q
          · rw [heq]
            rcases hinst with hinst | hinst
            · rw [hinst]
              exact ⟨hclient.tagged, hclient.agent⟩
            · rw [hinst]
              exact ⟨fun _ => rfl, hclient.agent⟩
          · rw [hw.inst_ne r heq]
            exact h.client r (hw.stratumInstances ▸ hr)
        · exfalso
          by_cases heq : r = q
          · rw [heq] at hdropped hflag
            rcases hinst with hinst | hinst
            · rw [hinst] at hdropped
              cases hdropped
            · rw [hinst] at hflag
              cases hflag
          · rw [hw.inst_ne r heq] at hdropped hflag
            obtain ⟨params', hjob'⟩ := h.authorising r (hw.stratumInstances ▸ hr) hdropped hflag
            rw [hjob, Option.some.injEq, Prod.mk.injEq] at hjob'
            exact heq hjob'.1.symm
      split_ifs
      · exact ht.keeps (Keeps.markDropped t q)
      · exact ht

/-- A channel starts with its flag off, and it stays off. -/
theorem sv2OpenSession (h : Settled s) (hwf : Wf s) {id : Nat} (server now : Nat)
    (userIdentity : Bytes) (hid : s.FreshId id) :
    Settled (s.sv2OpenSession c id server now userIdentity) := by
  rcases hadd : s.sv2AddInstance c id server with ⟨t, q⟩
  obtain ⟨hnew, hrest, hinst, sessionId, hself⟩ := hwf.sv2AddInstance_fresh hid hadd
  obtain ⟨ht, hq, hheld⟩ := hwf.sv2AddInstance hid.1 hadd
  have hsettled : Settled t := by
    refine h.of_live (by rw [hrest]; rfl) fun r hr => ?_
    by_cases heq : r = q
    · rw [heq, hself]
      exact ⟨⟨nofun, fun _ => rfl⟩, Or.inl rfl⟩
    · rw [hrest, List.mem_append, List.mem_singleton] at hr
      have hmem := hr.resolve_right heq
      rw [hinst r heq]
      exact ⟨h.client r hmem, Or.inr ⟨hmem, rfl, fun hd => hd⟩⟩
  obtain ⟨r, heq, hw, hcases⟩ := sv2OpenSession_cases now userIdentity hadd
  have hr : (r.inst q).Settled ∧ (r.inst q).authorising = false := by
    rcases hcases with ⟨-, rfl⟩ | ⟨r', u, hgen, ⟨-, rfl⟩ | ⟨-, rfl⟩⟩
    · rw [modify_inst_self, hself]
      exact ⟨⟨nofun, fun _ => rfl⟩, rfl⟩
    · rw [modify_inst_self, modify_inst_self, generateUser_inst hgen, hself]
      exact ⟨⟨nofun, fun _ => rfl⟩, rfl⟩
    · rw [clientAuth_inst, if_pos rfl, modify_inst_self, generateUser_inst hgen, hself]
      exact ⟨⟨nofun, fun _ => rfl⟩, rfl⟩
  rw [heq]
  exact (hsettled.writes hw hr.1 (Or.inl hr.2)).keeps
    (Keeps.decInstanceRef (ht.writes hw hq) (hw.held hheld))

theorem start (loaded : LoadedUsers) (randomiser : Nat) :
    Settled (InstanceData.start loaded randomiser) :=
  ⟨nofun, nofun⟩

theorem step (h : Settled s) (hwf : Wf s) {e : InstanceEvent} (haccept : RequestAccepted c s e) :
    Settled (s.step c e) := by
  have hshape := step_shape (c := c) hwf e
  generalize s.step c e = t at hshape ⊢
  cases hshape with
  | keeps hk => exact h.keeps hk
  | drop id now => exact h.dropClient hwf id now
  | subscribe q params hq => exact h.parseSubscribe hq params
  | trusted q msg hrest =>
    rw [hrest]
    exact ⟨h.client, h.authorising⟩
  | preauth hjob => exact h.preauth hjob
  | authorise now he =>
    rw [he] at haccept
    exact h.sauthProcess hwf haccept
  | sv2Open id server now userIdentity hid => exact h.sv2OpenSession hwf server now userIdentity hid

end Settled

/-! ### Later requests -/

theorem Wf.instanceById (h : Wf s) (hp : p ∈ s.stratumInstances) :
    s.instanceById (s.inst p).id = some p := by
  rcases hfind : s.instanceById (s.inst p).id with - | q
  · have hnone := List.find?_eq_none.mp hfind p hp
    exact absurd (decide_eq_true rfl) hnone
  · obtain ⟨hq, hid⟩ := instanceById_mem hfind
    rw [h.id_inj q hq p hp hid]

end InstanceData

end CashStratum
