/-
CashStratum/SoloPayout.lean

Who is paid in solo mode (`stratifier.c`).

A user's script is decided when a client first comes with its name: the script of
the address, or the pool's if the name does not look like one.  The gate of
`parse_authorise` and that of `stratifier_sv2_open_session` then look at what is
cached in the user only, so the invariant is about users and about authorised
clients at once.  `solo_authorised_is_paid` is the result.
-/
import CashStratum.InstanceKeeps

namespace CashStratum

/-! ### Keys of usernames -/

variable {c : InstanceConf} {chain : Chain} {username u : Bytes}

/-- A username that has been cut to its 127 characters has a key of that length at
most, so the key is the canonical name. -/
theorem userKey_canonicalise (h : username.length ≤ 127) :
    userKey (canonicaliseUsername chain username) = canonicaliseUsername chain username := by
  rw [userKey, if_neg]
  by_cases hspell : ∃ payload, SpellsAddress chain username payload
  · obtain ⟨payload, hspell⟩ := hspell
    have hlen := hspell.key.length
    rw [hspell.canonicalise]
    omega
  · rw [canonicaliseUsername_copy (not_exists.mp hspell), List.length_take]
    omega

theorem addressToTxn_canonicalise (chain : Chain) (username : Bytes) :
    addressToTxn chain (canonicaliseUsername chain username) = addressToTxn chain username := by
  rw [addressToTxn, classifyAddress_canonicalise, addressToTxn]

/-- A name without a script is its own key. -/
theorem canonicaliseUsername_of_none (hlen : username.length ≤ 127)
    (hnone : addressToTxn chain username = none) : canonicaliseUsername chain username = username := by
  rw [canonicaliseUsername_copy, List.take_of_length_le (by omega)]
  intro payload hspell
  obtain ⟨r, hr⟩ := hspell.classify
  rw [addressToTxn, hr username hspell.spells] at hnone
  cases hnone

theorem generateUsername_length {workername : Bytes}
    (h : generateUsername workername = some username) : username.length ≤ 127 := by
  rw [generateUsername, Option.map_eq_some_iff] at h
  obtain ⟨name, -, rfl⟩ := h
  exact List.length_take_le _ _

/-- An address has a script, and what has a script is an address. -/
theorem generatorCheckaddr_bind (chain : Chain) (username canon : Bytes)
    (h : addressToTxn chain canon = addressToTxn chain username) :
    ((generatorCheckaddr chain username).bind fun script =>
        (addressToTxn chain canon).map fun txnbin => (script, txnbin)).map Prod.snd =
      addressToTxn chain username := by
  rw [h, generatorCheckaddr, addressToTxn]
  rcases classifyAddress username chain.cashaddrPrefix.chars with - | r <;> rfl

/-! ### Payouts of users -/

/-- The user with this key is paid as it should: with the script of its address, or
with the pool's, and that only if the key does not even look like an address. -/
structure UserInstance.PaidFor (c : InstanceConf) (u : Bytes) (user : UserInstance) : Prop where
  address : user.btcaddress = true → addressToTxn c.chain u = some user.txnbin
  fallback : user.poolFallback = true →
    addressToTxn c.chain u = none ∧ looksLikeAddress c.chain u = false
  pool : user.btcaddress = false → user.poolFallback = true → user.txnbin = c.sd.txnbin.bin

/-- The user has a script. -/
def UserInstance.Funded (user : UserInstance) : Prop :=
  user.btcaddress = true ∨ user.poolFallback = true

namespace UserInstance

variable {user user' : UserInstance}

theorem PaidFor.congr (h : user.PaidFor c u) (hpayout : user'.payout = user.payout) :
    user'.PaidFor c u := by
  simp only [payout, Prod.mk.injEq] at hpayout
  obtain ⟨haddress, hfallback, htxn⟩ := hpayout
  refine ⟨?_, ?_, ?_⟩
  · rw [haddress, htxn]
    exact h.address
  · rw [hfallback]
    exact h.fallback
  · rw [haddress, hfallback, htxn]
    exact h.pool

theorem Funded.congr (h : user.Funded) (hpayout : user'.payout = user.payout) : user'.Funded := by
  simp only [payout, Prod.mk.injEq] at hpayout
  rw [Funded, hpayout.1, hpayout.2.1]
  exact h

theorem paidFor_new (c : InstanceConf) (u : Bytes) : ({} : UserInstance).PaidFor c u :=
  ⟨(fun h => by cases h), (fun h => by cases h), (fun _ h => by cases h)⟩

/-- **`generate_user` pays the user of a name as it should.** -/
theorem PaidFor.assignPayout (h : user.PaidFor c u) (hlen : username.length ≤ 127)
    (hu : u = userKey (canonicaliseUsername c.chain username)) :
    (user.assignPayout c username (canonicaliseUsername c.chain username)).PaidFor c u := by
  have hkey := hu.trans (userKey_canonicalise hlen)
  have hscript := addressToTxn_canonicalise c.chain username
  have hbind := generatorCheckaddr_bind c.chain username _ hscript
  rw [UserInstance.assignPayout]
  split
  · rename_i script txnbin hsome
    rw [hsome, Option.map_some] at hbind
    have haddress : addressToTxn c.chain u = some txnbin := by rw [hkey, hscript, ← hbind]
    refine ⟨fun _ => haddress, fun hfallback => ?_, fun h => by cases h⟩
    rw [(h.fallback hfallback).1] at haddress
    cases haddress
  · rename_i hnone
    rw [hnone, Option.map_none] at hbind
    split_ifs with hfall
    · have hnoscript : addressToTxn c.chain u = none := by rw [hkey, hscript, ← hbind]
      refine ⟨fun haddress => ?_, fun _ => ⟨hnoscript, hkey ▸ hfall.2.1⟩, fun _ _ => rfl⟩
      have := h.address haddress
      rw [hnoscript] at this
      cases this
    · exact h

theorem PaidFor.assignRemotePayout (h : user.PaidFor c u) (hlen : username.length ≤ 127)
    (hu : u = userKey (canonicaliseUsername c.chain username)) :
    (user.assignRemotePayout c (canonicaliseUsername c.chain username)).PaidFor c u := by
  have hkey := hu.trans (userKey_canonicalise hlen)
  have hbind := generatorCheckaddr_bind c.chain (canonicaliseUsername c.chain username)
    (canonicaliseUsername c.chain username) rfl
  rw [UserInstance.assignRemotePayout]
  split
  · rename_i script txnbin hsome
    rw [hsome, Option.map_some] at hbind
    have haddress : addressToTxn c.chain u = some txnbin := by rw [hkey, ← hbind]
    refine ⟨fun _ => haddress, fun hfallback => ?_, fun h => by cases h⟩
    rw [(h.fallback hfallback).1] at haddress
    cases haddress
  · exact h

theorem Funded.assignPayout (h : user.Funded) (c : InstanceConf) (username canon : Bytes) :
    (user.assignPayout c username canon).Funded := by
  rw [UserInstance.assignPayout]
  split
  · exact Or.inl rfl
  · split_ifs
    · exact Or.inr rfl
    · exact h

theorem Funded.assignRemotePayout (h : user.Funded) (c : InstanceConf) (canon : Bytes) :
    (user.assignRemotePayout c canon).Funded := by
  rw [UserInstance.assignRemotePayout]
  split
  · exact Or.inl rfl
  · exact h

end UserInstance

namespace InstanceData

/-! ### The invariant -/

/-- The client came with a name whose user has a script. -/
def NamedUser (c : InstanceConf) (s : InstanceData) (client : ClientInstance) : Prop :=
  ∃ workername username user, client.workername = some workername ∧
    generateUsername workername = some username ∧
    user = userKey (canonicaliseUsername c.chain username) ∧ client.userInstance = some user ∧
    user ∈ s.usernames ∧ (s.user user).Funded

/-- Every user is paid as it should, and every authorised client has a user that is
paid; the authoriser only works on clients that are not authorised yet. -/
structure SoloPaid (c : InstanceConf) (s : InstanceData) : Prop where
  users : ∀ u, (s.user u).PaidFor c u
  clients : ∀ p ∈ s.stratumInstances, (s.inst p).authorised = true → NamedUser c s (s.inst p)
  job : ∀ p params, s.authjob = some (p, params) → p ∈ s.stratumInstances →
    (s.inst p).authorised = false

/-- The users of `s` are still there in `t`, with their scripts. -/
def UsersKept (s t : InstanceData) : Prop :=
  ∀ u ∈ s.usernames, u ∈ t.usernames ∧ ((s.user u).Funded → (t.user u).Funded)

variable {s t r : InstanceData} {p : Nat} {client : ClientInstance}

theorem UsersKept.of_payout (hnames : t.usernames = s.usernames)
    (hpayout : ∀ u, (t.user u).payout = (s.user u).payout) : UsersKept s t :=
  fun u hu => ⟨hnames ▸ hu, fun hf => hf.congr (hpayout u)⟩

theorem NamedUser.kept (h : NamedUser c s client) (hkept : UsersKept s t) : NamedUser c t client := by
  obtain ⟨workername, username, user, hname, husername, hkey, huser, hmem, hfunded⟩ := h
  exact ⟨workername, username, user, hname, husername, hkey, huser, (hkept user hmem).1,
    (hkept user hmem).2 hfunded⟩

namespace SoloPaid

/-- Steps that authorise nobody and leave the users alone. -/
theorem of_live (h : SoloPaid c s) (hjob : t.authjob = s.authjob) (hnames : t.usernames = s.usernames)
    (hpayout : ∀ u, (t.user u).payout = (s.user u).payout)
    (hlive : ∀ p ∈ t.stratumInstances, (t.inst p).authorised = true →
      p ∈ s.stratumInstances ∧ (t.inst p).authorised = (s.inst p).authorised ∧
        (t.inst p).workername = (s.inst p).workername ∧
        (t.inst p).userInstance = (s.inst p).userInstance) : SoloPaid c t := by
  refine ⟨fun u => (h.users u).congr (hpayout u), ?_, ?_⟩
  · intro p hp hauth
    obtain ⟨hmem, hsame, hworker, huser⟩ := hlive p hp hauth
    obtain ⟨workername, username, user, hname, husername, hkey, huser', hrest⟩ :=
      (h.clients p hmem (hsame ▸ hauth)).kept (UsersKept.of_payout hnames hpayout)
    exact ⟨workername, username, user, hworker.trans hname, husername, hkey, huser.trans huser', hrest⟩
  · intro p params hp hmem
    rw [Bool.eq_false_iff]
    intro hauth
    obtain ⟨hmem', hsame, -⟩ := hlive p hmem hauth
    rw [hsame, h.job p params (hjob ▸ hp) hmem'] at hauth
    cases hauth

/-- Steps that leave users and cores alone. -/
theorem keeps (h : SoloPaid c s) (hk : Keeps s t) : SoloPaid c t := by
  refine h.of_live hk.authjob hk.usernames hk.payout fun p hp hauth => ?_
  rcases hk.live p hp with hblank | ⟨hlive, hkeeps⟩
  · have hcore := hblank.1
    simp only [ClientInstance.core, Prod.mk.injEq] at hcore
    rw [hcore.2.1] at hauth
    cases hauth
  · have hcore := hkeeps.core
    simp only [ClientInstance.core, Prod.mk.injEq] at hcore
    exact ⟨hlive, hcore.2.1, hcore.2.2.1, hcore.2.2.2.1⟩

theorem subscribes (h : SoloPaid c s) (hs : Subscribes p s t) : SoloPaid c t := by
  have hinst : ∀ q, (t.inst q).authorised = (s.inst q).authorised ∧
      (t.inst q).workername = (s.inst q).workername ∧
      (t.inst q).userInstance = (s.inst q).userInstance := by
    intro q
    by_cases hq : q = p
    · rw [hq, hs.self]
      exact ⟨rfl, rfl, rfl⟩
    · rw [hs.inst_ne q hq]
      exact ⟨rfl, rfl, rfl⟩
  refine h.of_live (by rw [hs.rest]) (by rw [hs.rest]) (fun u => by rw [hs.rest]) fun q hq _ => ?_
  rw [hs.rest] at hq
  exact ⟨hq, hinst q⟩

/-- Steps that leave the instances alone and keep users paid. -/
theorem of_users (h : SoloPaid c s) (hinst : t.inst = s.inst)
    (htable : t.stratumInstances = s.stratumInstances) (hjob : t.authjob = s.authjob)
    (husers : ∀ u, (t.user u).PaidFor c u) (hkept : UsersKept s t) : SoloPaid c t := by
  refine ⟨husers, ?_, ?_⟩
  · intro p hp hauth
    rw [hinst] at hauth ⊢
    exact (h.clients p (htable ▸ hp) hauth).kept hkept
  · intro p params hp hlive
    rw [hinst]
    exact h.job p params (hjob ▸ hp) (htable ▸ hlive)

/-- A write to an instance that is not authorised after it. -/
theorem modify (h : SoloPaid c s) {f : ClientInstance → ClientInstance}
    (hauth : (f (s.inst p)).authorised = true → NamedUser c s (f (s.inst p)))
    (hjob : ∀ params, s.authjob = some (p, params) → (f (s.inst p)).authorised = false) :
    SoloPaid c (s.modify p f) := by
  refine ⟨h.users, ?_, ?_⟩
  · intro q hq
    rw [modify_inst]
    split_ifs with heq
    · exact hauth
    · exact h.clients q hq
  · intro q params hq hlive
    rw [modify_inst]
    split_ifs with heq
    · exact hjob params (heq ▸ hq)
    · exact h.job q params hq hlive

end SoloPaid

/-! ### Finding and creating users -/

theorem attach_payout (s : InstanceData) (p : Nat) (u w v : Bytes) :
    (((s.getWorker u w).attach p u w).user v).payout = (s.user v).payout := by
  have hworker : ((s.getWorker u w).user v).payout = (s.user v).payout := by
    rw [getWorker]
    split_ifs
    · rfl
    · rw [modifyUser_user]
      split_ifs with hv
      · rw [hv]
        rfl
      · rfl
  rw [← hworker, attach_user]
  split_ifs with hv
  · rw [hv]
    rfl
  · rfl

theorem UsersKept.modifyUser (s : InstanceData) (u : Bytes) {g : UserInstance → UserInstance}
    (hg : (s.user u).Funded → (g (s.user u)).Funded) : UsersKept s (s.modifyUser u g) := by
  refine fun v hv => ⟨hv, fun hf => ?_⟩
  rw [modifyUser_user]
  split_ifs with heq
  · exact hg (heq ▸ hf)
  · exact hf

/-- A user that is looked up, or created, is in the table afterwards. -/
theorem UsersKept.getCreateUser {limited newUser : Bool}
    (hget : s.getCreateUser c username limited = (t, some (u, newUser))) :
    UsersKept s t ∧ u ∈ t.usernames ∧
      ∀ v, (t.user v).payout = (s.user v).payout ∨ (t.user v).payout = ({} : UserInstance).payout := by
  obtain ⟨-, -, ⟨-, hmem, rfl⟩ | ⟨-, hnew, hnames, huser⟩⟩ := getCreateUser_some hget
  · exact ⟨fun v hv => ⟨hv, id⟩, hmem, fun v => Or.inl rfl⟩
  · refine ⟨fun v hv => ?_, ?_, fun v => ?_⟩
    · have hne : v ≠ u := by
        rintro rfl
        exact hnew hv
      rw [hnames, huser, Function.update_of_ne hne]
      exact ⟨List.mem_append_left _ hv, id⟩
    · rw [hnames]
      exact List.mem_append_right _ List.mem_cons_self
    · rw [huser]
      by_cases hv : v = u
      · rw [hv, Function.update_self]
        exact Or.inr rfl
      · rw [Function.update_of_ne hv]
        exact Or.inl rfl

namespace SoloPaid

theorem getCreateUser (h : SoloPaid c s) {limited newUser : Bool}
    (hget : s.getCreateUser c username limited = (t, some (u, newUser))) : SoloPaid c t := by
  obtain ⟨hkept, -, hpayout⟩ := UsersKept.getCreateUser hget
  have hrest := (getCreateUser_some hget).2.1
  refine h.of_users (by rw [hrest]) (by rw [hrest]) (by rw [hrest]) (fun v => ?_) hkept
  rcases hpayout v with heq | heq
  · exact (h.users v).congr heq
  · exact (UserInstance.paidFor_new c v).congr heq

/-- A change of one user that keeps it paid. -/
theorem modifyUser (h : SoloPaid c s) (u : Bytes) {g : UserInstance → UserInstance}
    (hg : (g (s.user u)).PaidFor c u) (hfunded : (s.user u).Funded → (g (s.user u)).Funded) :
    SoloPaid c (s.modifyUser u g) := by
  refine h.of_users rfl rfl rfl (fun v => ?_) (UsersKept.modifyUser s u hfunded)
  rw [modifyUser_user]
  split_ifs with hv
  · exact hv ▸ hg
  · exact h.users v

/-- A change of one user that has nothing to do with its payout. -/
theorem modifyUser_of_payout (h : SoloPaid c s) (u : Bytes) {g : UserInstance → UserInstance}
    (hg : (g (s.user u)).payout = (s.user u).payout) : SoloPaid c (s.modifyUser u g) :=
  h.modifyUser u ((h.users u).congr hg) fun hf => hf.congr hg

theorem generateRemoteUser (h : SoloPaid c s) (workername : Bytes) :
    SoloPaid c (s.generateRemoteUser c workername).1 := by
  rw [InstanceData.generateRemoteUser]
  rcases (if (strsep workername).1 = [] then (strsep workername).2 else some (strsep workername).1)
    with - | name
  · exact h
  · dsimp only
    split_ifs
    · exact h
    · rcases hget : s.getCreateUser c (canonicaliseUsername c.chain (name.take 127)) false with
        ⟨r, - | ⟨v, newUser⟩⟩
      · rw [getCreateUser_none hget]
        exact h
      · have hr := h.getCreateUser hget
        have hkey := (getCreateUser_some hget).1
        dsimp only
        split_ifs
        · exact hr.modifyUser v ((hr.users v).assignRemotePayout (List.length_take_le _ _) hkey)
            fun hf => hf.assignRemotePayout c _
        · exact hr

theorem parseTrustedMsg (h : SoloPaid c s) (p : Nat) (msg : TrustedMsg) :
    SoloPaid c (s.parseTrustedMsg c p msg) := by
  cases msg with
  | share workername =>
    rw [InstanceData.parseTrustedMsg]
    have hremote := h.generateRemoteUser workername
    rcases hgen : s.generateRemoteUser c workername with ⟨t, - | u⟩
    · rw [hgen] at hremote
      exact hremote
    · rw [hgen] at hremote
      have hauth := hremote.modifyUser_of_payout u
        (g := fun user => { user with authorised := true }) rfl
      dsimp only
      rw [getWorker]
      split_ifs
      · exact hauth
      · exact hauth.modifyUser_of_payout u rfl
  | shareErr workername => exact h.generateRemoteUser workername
  | workers username =>
    rw [InstanceData.parseTrustedMsg]
    rcases hget : s.getCreateUser c username false with ⟨r, - | ⟨v, newUser⟩⟩
    · rw [getCreateUser_none hget]
      exact h
    · exact h.getCreateUser hget
  | auth clientid useragent params => exact h.keeps (Keeps.parseRemoteAuth s c p clientid useragent params)

/-! ### Authorisation -/

/-- A client that is not authorised gets a user that is paid as it should. -/
theorem generateUser (h : SoloPaid c s) {workername : Bytes} (hauth : (s.inst p).authorised = false)
    (hgen : s.generateUser c p workername = (t, some u)) :
    SoloPaid c t ∧ u ∈ t.usernames ∧ (t.inst p).userInstance = some u ∧
      (t.inst p).authorised = false ∧ t.authjob = s.authjob ∧
      ∃ username, generateUsername workername = some username ∧
        u = userKey (canonicaliseUsername c.chain username) := by
  obtain ⟨name, r, newUser, hname, hget, hstate⟩ := generateUser_some hgen
  obtain ⟨hkept, hmem, -⟩ := UsersKept.getCreateUser hget
  have hr := h.getCreateUser hget
  have hkey := (getCreateUser_some hget).1
  have hrest := generateUser_rest hgen
  have hinst : t.inst p = { s.inst p with userInstance := some u, workerInstance := workername } := by
    rw [hrest]
    exact modify_inst_self (f := fun i => { i with userInstance := some u, workerInstance := workername })
  have hnames : t.usernames = r.usernames := by
    rw [hstate]
    show (r.getWorker u workername).usernames = _
    rw [getWorker_rest]
  have hattach := attach_payout r p u workername
  have hpaid : ∀ v, (((r.getWorker u workername).attach p u workername).user v).PaidFor c v :=
    fun v => (hr.users v).congr (hattach v)
  have huser : ∀ v, (t.user v).PaidFor c v ∧ ((r.user v).Funded → (t.user v).Funded) := by
    intro v
    rw [hstate, modifyUser_user]
    by_cases hv : v = u
    · subst hv
      rw [if_pos rfl]
      split_ifs
      · exact ⟨(hpaid v).assignPayout (generateUsername_length hname) hkey,
          fun hf => (hf.congr (hattach v)).assignPayout c name _⟩
      · exact ⟨hpaid v, fun hf => hf.congr (hattach v)⟩
    · rw [if_neg hv]
      exact ⟨hpaid v, fun hf => hf.congr (hattach v)⟩
  have hmod : SoloPaid c (s.modify p fun i =>
      { i with userInstance := some u, workerInstance := workername }) := by
    refine h.modify (fun habs => ?_) fun _ _ => hauth
    rw [show ClientInstance.authorised _ = (s.inst p).authorised from rfl, hauth] at habs
    cases habs
  refine ⟨?_, hnames ▸ hmem, by rw [hinst], by rw [hinst]; exact hauth, by rw [hrest]; rfl, name, hname,
    hkey⟩
  refine hmod.of_users (by rw [hrest]) (by rw [hrest]) (by rw [hrest]) (fun v => (huser v).1) ?_
  intro v hv
  exact ⟨hnames ▸ (hkept v hv).1, fun hf => (huser v).2 ((hkept v hv).2 hf)⟩

theorem clientAuth (h : SoloPaid c s) (u : Bytes) (now : Nat) (ret : Bool)
    (hname : ret = true → NamedUser c s (s.inst p)) (hjob : ∀ params, s.authjob ≠ some (p, params))
    (hauth : (s.inst p).authorised = false) : SoloPaid c (s.clientAuth p u now ret) := by
  rw [InstanceData.clientAuth]
  split_ifs with hret
  · refine SoloPaid.modifyUser_of_payout ?_ u rfl
    exact h.modify (fun _ => hname hret) fun params habs => absurd habs (hjob params)
  · refine SoloPaid.modifyUser_of_payout ?_ u rfl
    refine h.modify (fun habs => ?_) fun params habs => absurd habs (hjob params)
    rw [show ClientInstance.authorised _ = (s.inst p).authorised from rfl, hauth] at habs
    cases habs

/-- A client that is not authorised stays so when it is dropped or renamed. -/
theorem modify_unauthorised (h : SoloPaid c s) {f : ClientInstance → ClientInstance}
    (hauth : (s.inst p).authorised = false) (hf : ∀ i, (f i).authorised = i.authorised) :
    SoloPaid c (s.modify p f) := by
  have hfalse : (f (s.inst p)).authorised = false := by rw [hf, hauth]
  refine h.modify (fun habs => ?_) fun _ _ => hfalse
  rw [hfalse] at habs
  cases habs

theorem parseAuthorise (h : SoloPaid c s) (hsolo : c.ck.btcsolo = true) (hjob : s.authjob = none)
    (hauth : (s.inst p).authorised = false) (now : Nat) (params : Params) :
    SoloPaid c (s.parseAuthorise c p now params).1 := by
  obtain ⟨e, -, heq⟩ | ⟨buf, -, ⟨-, heq⟩ | ⟨t, u, hgen, hcases⟩⟩ := parseAuthorise_cases s c p now params
  · rw [heq]
    exact h
  · rw [heq]
    exact h.keeps (Keeps.markDropped s p)
  · obtain ⟨ht, hmem, huser, hauth', hjob', name, hname, hkey⟩ := h.generateUser hauth hgen
    have hnamed := ht.modify_unauthorised (p := p) (f := fun i => { i with workername := some buf })
      hauth' fun _ => rfl
    obtain ⟨-, heq⟩ | ⟨-, err, heq⟩ := hcases
    · rw [heq]
      have hthrottled := hnamed.modifyUser_of_payout u
        (g := fun user => { user with throttled := true }) rfl
      exact hthrottled.keeps (Keeps.markDropped _ p)
    · rw [heq]
      refine hnamed.clientAuth u now _ (fun hret => ?_) (fun params' habs => ?_) ?_
      · -- the gate: in solo mode only a user with a script gets through
        have hfunded : (t.user u).Funded := by
          rw [UserInstance.mayAuthorise, hsolo] at hret
          simpa [UserInstance.Funded] using hret
        rw [modify_inst_self]
        exact ⟨buf, name, u, rfl, hname, hkey, huser, hmem, hfunded⟩
      · have hnone : t.authjob = some (p, params') := habs
        rw [hjob', hjob] at hnone
        cases hnone
      · rw [modify_inst_self]
        exact hauth'

/-! ### Steps and runs -/

theorem dropClient (h : SoloPaid c s) (hwf : Wf s) (id now : Nat) : SoloPaid c (s.dropClient id now) := by
  rw [InstanceData.dropClient]
  split
  · exact h
  · rename_i q hq
    have hsessions : SoloPaid c (s.disconnectSession q now) := by
      rw [disconnectSession_rest]
      exact h.of_users rfl rfl rfl h.users fun u hu => ⟨hu, fun hf => hf⟩
    dsimp only
    split_ifs
    · exact hsessions.keeps (Keeps.dropClientLocked (hwf.disconnectSession q now) q)
    · exact hsessions.keeps (Keeps.markDropped _ q)

/-- The authoriser takes up clients that are not authorised only. -/
theorem preauth (h : SoloPaid c s) : SoloPaid c s.preauth := by
  rw [InstanceData.preauth]
  split
  · exact h
  · rename_i id params rest hq
    have hpop : SoloPaid c { s with sauthq := rest } :=
      h.of_users rfl rfl rfl h.users fun u hu => ⟨hu, fun hf => hf⟩
    dsimp only
    split
    · exact hpop
    · rename_i q hfound
      split_ifs with hskip
      · exact hpop
      · have hauth : (s.inst q).authorised = false := by
          rw [Bool.or_eq_true, not_or, Bool.not_eq_true] at hskip
          exact Bool.not_eq_true _ ▸ hskip.2
        have hmod := hpop.modify_unauthorised (p := q)
          (f := fun i => { i with ref := i.ref + 1, authorising := true }) hauth fun _ => rfl
        refine ⟨hmod.users, hmod.clients, fun r params' hr _ => ?_⟩
        obtain ⟨rfl, -⟩ := Prod.mk.inj (Option.some.inj hr)
        have hself : ((InstanceData.modify { s with sauthq := rest } q fun i =>
            { i with ref := i.ref + 1, authorising := true }).inst q).authorised = false := by
          rw [modify_inst_self]
          exact hauth
        exact hself

theorem sauthProcess (h : SoloPaid c s) (hwf : Wf s) (hsolo : c.ck.btcsolo = true) (now : Nat) :
    SoloPaid c (s.sauthProcess c now) := by
  rw [InstanceData.sauthProcess]
  split
  · exact h
  · rename_i q params hjob
    have hlive := hwf.live_of_ref (hwf.job q params hjob)
    have hfree : SoloPaid c { s with authjob := none } :=
      ⟨h.users, h.clients, fun _ _ h => by cases h⟩
    have hparse := hfree.parseAuthorise hsolo rfl (h.job q params hjob hlive) now params
    rcases hres : InstanceData.parseAuthorise { s with authjob := none } c q now params with
      ⟨t, ret, err⟩
    rw [hres] at hparse
    dsimp only at hparse ⊢
    split_ifs
    · exact hparse.keeps (Keeps.markDropped t q)
    · exact hparse

theorem sv2OpenSession (h : SoloPaid c s) (hwf : Wf s) (hsolo : c.ck.btcsolo = true) {id : Nat}
    (server now : Nat) (userIdentity : Bytes) (hid : s.FreshId id) :
    SoloPaid c (s.sv2OpenSession c id server now userIdentity) := by
  rcases hadd : s.sv2AddInstance c id server with ⟨t, q⟩
  obtain ⟨hnew, hrest, hinst, sessionId, hself⟩ := hwf.sv2AddInstance_fresh hid hadd
  obtain ⟨ht, hq, hheld⟩ := hwf.sv2AddInstance hid.1 hadd
  have hauth : (t.inst q).authorised = false := by rw [hself]; rfl
  have hpaid : SoloPaid c t := by
    refine h.of_live (by rw [hrest]; rfl) (by rw [hrest]; rfl) (fun u => by rw [hrest]; rfl) ?_
    intro r hr hauth'
    have hne : r ≠ q := by
      rintro rfl
      rw [hauth] at hauth'
      cases hauth'
    rw [hrest, List.mem_append, List.mem_singleton] at hr
    rw [hinst r hne]
    exact ⟨hr.resolve_right hne, rfl, rfl, rfl⟩
  have hnojob : ∀ params, t.authjob ≠ some (q, params) := by
    intro params hjob
    rw [hrest] at hjob
    exact hnew (hwf.live_of_ref (hwf.job q params hjob))
  obtain ⟨r, heq, hw, hcases⟩ := sv2OpenSession_cases now userIdentity hadd
  have hr : SoloPaid c r := by
    rcases hcases with ⟨-, rfl⟩ | ⟨r', u, hgen, hcases⟩
    · exact hpaid.keeps (Keeps.markDropped t q)
    · obtain ⟨hr', hmem, huser, hauth', hjob', name, hname, hkey⟩ := hpaid.generateUser hauth hgen
      have hnamed := hr'.modify_unauthorised (p := q)
        (f := fun i => { i with workername := some userIdentity }) hauth' fun _ => rfl
      obtain ⟨-, rfl⟩ | ⟨hgate, rfl⟩ := hcases
      · exact hnamed.keeps (Keeps.markDropped _ q)
      · refine hnamed.clientAuth u now true (fun _ => ?_) (fun params habs => ?_) ?_
        · -- the gate: in solo mode only an address gets through
          have haddress : ¬(r'.user u).btcaddress = false := fun hf => hgate ⟨hsolo, hf⟩
          rw [modify_inst_self]
          exact ⟨userIdentity, name, u, rfl, hname, hkey, huser, hmem,
            Or.inl (Bool.eq_true_of_not_eq_false haddress)⟩
        · have habs' : r'.authjob = some (q, params) := habs
          rw [hjob'] at habs'
          exact hnojob params habs'
        · rw [modify_inst_self]
          exact hauth'
  rw [heq]
  exact hr.keeps (Keeps.decInstanceRef (ht.writes hw hq) (hw.held hheld))

theorem start (c : InstanceConf) (loaded : LoadedUsers) (randomiser : Nat) :
    SoloPaid c (InstanceData.start loaded randomiser) :=
  ⟨fun u => (UserInstance.paidFor_new c u).congr rfl,
    (fun _ h => by cases h), (fun _ _ h => by cases h)⟩

/-- **Every event in solo mode keeps the invariant.** -/
theorem step (h : SoloPaid c s) (hwf : Wf s) (hsolo : c.ck.btcsolo = true) (e : InstanceEvent) :
    SoloPaid c (s.step c e) := by
  have hshape := step_shape (c := c) hwf e
  generalize s.step c e = t at hshape ⊢
  cases hshape with
  | keeps hk => exact h.keeps hk
  | drop id now => exact h.dropClient hwf id now
  | subscribe q params => exact h.subscribes (Subscribes.parseSubscribe s c q params)
  | trusted q msg => exact h.parseTrustedMsg q msg
  | preauth => exact h.preauth
  | authorise now => exact h.sauthProcess hwf hsolo now
  | sv2Open id server now userIdentity hid => exact h.sv2OpenSession hwf hsolo server now userIdentity hid

end SoloPaid

/-- An authorised client in solo mode has a username and a user, and the user is
paid with the script of the address, or with the pool's. -/
theorem SoloPaid.paid (h : SoloPaid c s) (hp : p ∈ s.stratumInstances)
    (hauth : (s.inst p).authorised = true) :
    ∃ workername username user, (s.inst p).workername = some workername ∧
      generateUsername workername = some username ∧ (s.inst p).userInstance = some user ∧
      (addressToTxn c.chain username = some (s.user user).txnbin ∨
        (s.user user).txnbin = c.sd.txnbin.bin ∧ looksLikeAddress c.chain username = false) := by
  obtain ⟨workername, username, user, hworker, hname, hkey, huser, -, hfunded⟩ := h.clients p hp hauth
  have hlen := generateUsername_length hname
  have hscript : addressToTxn c.chain user = addressToTxn c.chain username := by
    rw [hkey, userKey_canonicalise hlen, addressToTxn_canonicalise]
  refine ⟨workername, username, user, hworker, hname, huser, ?_⟩
  have hpaid := h.users user
  rcases haddress : (s.user user).btcaddress with - | -
  · right
    have hfall : (s.user user).poolFallback = true := by
      rcases hfunded with habs | hfall
      · rw [haddress] at habs
        cases habs
      · exact hfall
    obtain ⟨hnone, hlooks⟩ := hpaid.fallback hfall
    have hcanon := canonicaliseUsername_of_none hlen (hscript ▸ hnone)
    have hself : user = username := by rw [hkey, userKey_canonicalise hlen, hcanon]
    exact ⟨hpaid.pool haddress hfall, hself ▸ hlooks⟩
  · left
    rw [← hscript]
    exact hpaid.address haddress

/-- **In solo mode nobody is authorised whose block would pay a stranger**, over
every run: the user of an authorised client is paid with the script of the address
in its own username, or with the pool's script, and then the username is no address;
and a username that looks like an address but has no script is never authorised. -/
theorem solo_authorised_is_paid (c : InstanceConf) (hsolo : c.ck.btcsolo = true) (loaded : LoadedUsers)
    (randomiser : Nat) (events : List InstanceEvent) (p : Nat) :
    let s := run (InstanceData.step c) (InstanceData.start loaded randomiser) events
    p ∈ s.stratumInstances → (s.inst p).authorised = true →
      ∃ workername username user, (s.inst p).workername = some workername ∧
        generateUsername workername = some username ∧ (s.inst p).userInstance = some user ∧
        (addressToTxn c.chain username = some (s.user user).txnbin ∨
          (s.user user).txnbin = c.sd.txnbin.bin ∧ looksLikeAddress c.chain username = false) ∧
        ¬(looksLikeAddress c.chain username = true ∧ addressToTxn c.chain username = none) := by
  intro s hp hauth
  have hinv : Wf s ∧ SoloPaid c s := by
    refine run_invariant_always (I := fun t => Wf t ∧ SoloPaid c t) ?_ events
      ⟨Wf.start loaded randomiser, SoloPaid.start c loaded randomiser⟩
    rintro t e ⟨hwf, ht⟩
    exact ⟨hwf.step e, ht.step hwf hsolo e⟩
  obtain ⟨workername, username, user, hworker, hname, huser, hpaid⟩ := hinv.2.paid hp hauth
  refine ⟨workername, username, user, hworker, hname, huser, hpaid, ?_⟩
  rintro ⟨hlooks, hnone⟩
  rcases hpaid with hsome | ⟨-, hplain⟩
  · rw [hnone] at hsome
    cases hsome
  · rw [hlooks] at hplain
    cases hplain

/-- The client `bob` is authorised, and the pool's script is his. -/
theorem solo_authorised_is_paid_bob :
    let s := run (InstanceData.step exampleConf) (InstanceData.start noUsers 5)
      (connect 1 0 0 ++ subscribe 0 :: authorise 0 [98, 111, 98])
    (exampleConf.ck.btcsolo = true ∧ 0 ∈ s.stratumInstances ∧ (s.inst 0).authorised = true) ∧
      ∃ workername username user, (s.inst 0).workername = some workername ∧
        generateUsername workername = some username ∧ (s.inst 0).userInstance = some user ∧
        (addressToTxn exampleConf.chain username = some (s.user user).txnbin ∨
          (s.user user).txnbin = exampleConf.sd.txnbin.bin ∧
            looksLikeAddress exampleConf.chain username = false) ∧
        ¬(looksLikeAddress exampleConf.chain username = true ∧
          addressToTxn exampleConf.chain username = none) := by
  have hbob : 0 ∈ (run (InstanceData.step exampleConf) (InstanceData.start noUsers 5)
      (connect 1 0 0 ++ subscribe 0 :: authorise 0 [98, 111, 98])).stratumInstances ∧
      ((run (InstanceData.step exampleConf) (InstanceData.start noUsers 5)
        (connect 1 0 0 ++ subscribe 0 :: authorise 0 [98, 111, 98])).inst 0).authorised = true := by
    decide +kernel
  exact ⟨⟨rfl, hbob⟩, solo_authorised_is_paid exampleConf rfl noUsers 5 _ 0 hbob.1 hbob.2⟩

end InstanceData

end CashStratum
