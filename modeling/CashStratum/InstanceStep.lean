/-
CashStratum/InstanceStep.lean

Every event of the stratifier keeps its state well formed.  Most events work on one
instance that somebody holds, without a change of its id or a loss of references
(`Writes`); the others drop instances or add one.
-/
import CashStratum.InstanceInvariant

namespace CashStratum

/-- The id that the event asks `drop_client` to drop, and when. -/
def InstanceEvent.drops (c : InstanceConf) (s : InstanceData) : InstanceEvent → Option (Nat × Nat)
  | .dropClient id now => some (id, now)
  | .message p now msg =>
    if s.Held p ∧ (s.inst p).trusted = false ∧ (s.inst p).reject ≠ 3 then
      match msg with
      | .term => some ((s.inst p).id, now)
      | .node => if c.nodeserver (s.inst p).server then none else some ((s.inst p).id, now)
      | .passthrough =>
        if c.passthroughserver (s.inst p).server then none else some ((s.inst p).id, now)
      | _ => none
    else none
  | _ => none

namespace InstanceData

/-! ### Events -/

/-- What an event does. -/
inductive Does (c : InstanceConf) (s : InstanceData) : InstanceEvent → InstanceData → Prop
  | idle (e : InstanceEvent) : Does c s e s
  | recruit {id : Nat} (server : Nat) {creates tooFast : Bool} {t : InstanceData} (hid : 0 < id)
      (hok : s.subclientCreateOk c id creates tooFast = some t) :
      Does c s (.recruit id server creates tooFast) (t.stratumRecruit id server).1
  /-- the client was dropped meanwhile -/
  | insert {p q : Nat} {t : InstanceData} (hadd : p ∈ s.adding)
      (hins : s.stratumInsert p = (t, q)) : Does c s (.insert p) t
  | receive {p q : Nat} {t : InstanceData} (hadd : p ∈ s.adding)
      (hins : s.stratumInsert p = (t, q)) :
      Does c s (.insert p) (t.modify q fun i => { i with ref := i.ref + 1 })
  | takes {e : InstanceEvent} {p : Nat} (hp : p ∈ s.stratumInstances) :
      Does c s e (s.modify p fun i => { i with ref := i.ref + 1 })
  /-- the message drops its client -/
  | leaves {p now : Nat} {msg : ClientMsg} (hheld : s.Held p)
      (hdrops : InstanceEvent.drops c s (.message p now msg) = some ((s.inst p).id, now)) :
      Does c s (.message p now msg) (s.dropClient (s.inst p).id now)
  | subscribe {p now : Nat} (params : Params) (hheld : s.Held p) :
      Does c s (.message p now (.subscribe params)) (s.parseSubscribe c p params)
  | remote {p now : Nat} (hheld : s.Held p) (htrusted : (s.inst p).trusted = false) :
      Does c s (.message p now .remote) ((s.addRemoteServer p).decInstanceRef p)
  | node {p now : Nat} (hheld : s.Held p) (htrusted : (s.inst p).trusted = false)
      (hreject : (s.inst p).reject ≠ 3) (hserver : c.nodeserver (s.inst p).server = true) :
      Does c s (.message p now .node) (s.addMiningNode p)
  | passthrough {p now : Nat} (hheld : s.Held p) :
      Does c s (.message p now .passthrough) (s.modify p fun i => { i with passthrough := true })
  | asks {p now : Nat} {params : Params} (hheld : s.Held p) :
      Does c s (.message p now (.authorise params))
        { s with sauthq := s.sauthq ++ [((s.inst p).id, params)] }
  | trusted {p : Nat} (msg : TrustedMsg) (hheld : s.Held p) :
      Does c s (.trustedMessage p msg) (s.parseTrustedMsg c p msg)
  | share {p reject : Nat} (hheld : s.Held p) (hauth : (s.inst p).authorised = true) :
      Does c s (.share p reject) (s.modify p fun i => { i with reject })
  | release {p : Nat} (hheld : s.Held p) : Does c s (.release p) (s.decInstanceRef p)
  | iterUnref {p : Nat} (hheld : s.Held p) :
      Does c s (.iterUnref p) (s.modify p fun i => { i with ref := i.ref - 1 })
  | lazyDrop {p : Nat} (hheld : s.Held p) :
      Does c s (.lazyDrop p) (s.modify p fun i => { i with dropped := true })
  | preauth (hjob : s.authjob = none) : Does c s .preauth s.preauth
  | authorise (now : Nat) : Does c s (.authorise now) (s.sauthProcess c now)
  | dropClient (id now : Nat) : Does c s (.dropClient id now) (s.dropClient id now)
  | dropAllclients : Does c s .dropAllclients s.dropAllclients
  | requestReconnect : Does c s .requestReconnect s.requestReconnect
  | sv2Open {id : Nat} (server now : Nat) (userIdentity : Bytes) (hid : s.FreshId id) :
      Does c s (.sv2Open id server now userIdentity)
        (s.sv2OpenSession c id server now (cstr userIdentity))
  | sv2Close (id : Nat) : Does c s (.sv2Close id) (s.sv2CloseSession id)

theorem parseInstanceMsg_does (c : InstanceConf) (s : InstanceData) {p now : Nat} {msg : ClientMsg}
    (hheld : s.Held p) (htrusted : (s.inst p).trusted = false) :
    Does c s (.message p now msg) (s.parseInstanceMsg c p now msg) := by
  rw [parseInstanceMsg]
  split_ifs with hreject
  · exact .idle _
  · have hpass : s.Held p ∧ (s.inst p).trusted = false ∧ (s.inst p).reject ≠ 3 :=
      ⟨hheld, htrusted, hreject⟩
    cases msg with
    | term => exact .leaves hheld (if_pos hpass)
    | subscribe params =>
      rw [parseMethod]
      split_ifs
      · exact .idle _
      · exact .subscribe params hheld
    | remote =>
      rw [parseMethod]
      split_ifs
      · exact .remote hheld htrusted
      · exact .idle _
    | node =>
      rw [parseMethod]
      split_ifs with hserver
      · exact .node hheld htrusted hreject hserver
      · exact .leaves hheld ((if_pos hpass).trans (if_neg hserver))
    | passthrough =>
      rw [parseMethod]
      split_ifs with hserver
      · exact .passthrough hheld
      · exact .leaves hheld ((if_pos hpass).trans (if_neg hserver))
    | authorise params =>
      rw [parseMethod]
      split_ifs
      · exact .idle _
      · exact .asks hheld
    | other => exact .idle _

/-- **A step is one of these.** -/
theorem step_does (c : InstanceConf) (s : InstanceData) (e : InstanceEvent) :
    Does c s e (s.step c e) := by
  cases e with
  | recruit id server creates tooFast =>
    rw [step]
    split_ifs with hguard
    · rcases hok : s.subclientCreateOk c id creates tooFast with - | t
      · exact .idle _
      · exact .recruit server hguard.1 hok
    · exact .idle _
  | insert p =>
    rw [step]
    split_ifs with hadd
    · rcases hins : s.stratumInsert p with ⟨t, q⟩
      dsimp only
      split_ifs
      · exact .insert hadd hins
      · exact .receive hadd hins
    · exact .idle _
  | acquire id =>
    rw [step]
    split
    · exact .idle _
    · rename_i p hp
      split_ifs
      · exact .idle _
      · exact .takes (instanceById_mem hp).1
  | message p now msg =>
    rw [step]
    split_ifs with hguard
    · exact parseInstanceMsg_does c s hguard.1 hguard.2
    · exact .idle _
  | trustedMessage p msg =>
    rw [step]
    split_ifs with hguard
    · exact .trusted msg hguard.1
    · exact .idle _
  | share p reject =>
    rw [step]
    split_ifs with hguard
    · exact .share hguard.1 hguard.2.1
    · exact .idle _
  | release p =>
    rw [step]
    split_ifs with hheld
    · exact .release hheld
    · exact .idle _
  | iterRef p =>
    rw [step]
    split_ifs with hp
    · exact .takes hp
    · exact .idle _
  | iterUnref p =>
    rw [step]
    split_ifs with hheld
    · exact .iterUnref hheld
    · exact .idle _
  | lazyDrop p =>
    rw [step]
    split_ifs with hguard
    · exact .lazyDrop hguard.1
    · exact .idle _
  | preauth =>
    rw [step]
    split_ifs with hjob
    · exact .preauth hjob
    · exact .idle _
  | authorise now => exact .authorise now
  | dropClient id now => exact .dropClient id now
  | dropAllclients => exact .dropAllclients
  | requestReconnect => exact .requestReconnect
  | sv2Open id server now userIdentity =>
    rw [step]
    split_ifs with hguard
    · exact .sv2Open server now userIdentity hguard.1
    · exact .idle _
  | sv2Close id => exact .sv2Close id

/-! ### Subscriptions -/

/-- `t` is `s` after a subscription of `p`: it has another user agent and extranonce,
and the sessions and the counter have moved. -/
structure Subscribes (p : Nat) (s t : InstanceData) : Prop where
  rest : t = { s with
    inst := t.inst
    disconnectedSessions := t.disconnectedSessions
    enonce1_64 := t.enonce1_64
    allocated := t.allocated }
  inst_ne : ∀ q, q ≠ p → t.inst q = s.inst q
  self : t.inst p = { s.inst p with
    useragent := (t.inst p).useragent
    enonce1_64 := (t.inst p).enonce1_64
    enonce1bin := (t.inst p).enonce1bin
    subscribed := (t.inst p).subscribed }
  agent : (s.inst p).useragent.isSome = true → (t.inst p).useragent.isSome = true

namespace Subscribes

variable {r s t : InstanceData} {p : Nat} {f : ClientInstance → ClientInstance}

theorem refl (p : Nat) (s : InstanceData) : Subscribes p s s :=
  ⟨rfl, fun _ _ => rfl, rfl, id⟩

theorem trans (h : Subscribes p r s) (h' : Subscribes p s t) : Subscribes p r t where
  rest := by
    have hs := h.rest
    have ht := h'.rest
    rw [hs] at ht
    exact ht
  inst_ne q hq := (h'.inst_ne q hq).trans (h.inst_ne q hq)
  self := by
    have hs := h.self
    have ht := h'.self
    rw [hs] at ht
    exact ht
  agent ha := h'.agent (h.agent ha)

theorem modify (s : InstanceData) (p : Nat) {f : ClientInstance → ClientInstance}
    (hf : ∀ i, f i = { i with
      useragent := (f i).useragent
      enonce1_64 := (f i).enonce1_64
      enonce1bin := (f i).enonce1bin
      subscribed := (f i).subscribed })
    (hagent : (s.inst p).useragent.isSome = true → (f (s.inst p)).useragent.isSome = true) :
    Subscribes p s (s.modify p f) where
  rest := rfl
  inst_ne _ hq := modify_inst_ne hq
  self := by
    rw [modify_inst_self]
    exact hf (s.inst p)
  agent := by rwa [modify_inst_self]

theorem disconnectedSessionidExists (p : Nat) (s : InstanceData) (sessionId : Nat) :
    Subscribes p s (s.disconnectedSessionidExists sessionId).1 := by
  rw [InstanceData.disconnectedSessionidExists]
  split
  · exact refl p s
  · exact ⟨rfl, fun _ _ => rfl, rfl, id⟩

theorem newEnonce1 (s : InstanceData) (c : InstanceConf) (p : Nat) :
    Subscribes p s (s.newEnonce1 c p) := by
  have hnext : Subscribes p s s.nextEnonce1 := ⟨rfl, fun _ _ => rfl, rfl, id⟩
  have hset := hnext.trans (modify s.nextEnonce1 p
    (f := fun i => { i with enonce1_64 := s.nextEnonce1.enonce1_64 }) (fun _ => rfl) id)
  exact hset.trans (modify _ p (f := fun i =>
    { i with enonce1bin := leBytes c.ck.nonce1length i.enonce1_64 }) (fun _ => rfl) id)

/-- What a subscription does once the user agent is there. -/
theorem of_useragent (s : InstanceData) (c : InstanceConf) (p : Nat) (arr : List Param) :
    Subscribes p (s.modify p fun i => { i with useragent := some (Params.getStr arr 0) })
      (s.parseSubscribe c p (some arr)) := by
  rw [InstanceData.parseSubscribe]
  dsimp only
  set t := s.modify p fun i => { i with useragent := some (Params.getStr arr 0) }
  have hresume : Subscribes p t (if intFromSessionid (Params.getStr arr 1) ≠ 0 ∧
      subclient (t.inst p).id = 0 then
      t.disconnectedSessionidExists (intFromSessionid (Params.getStr arr 1)) else (t, 0)).1 := by
    split_ifs
    · exact disconnectedSessionidExists p t _
    · exact refl p t
  set r := if intFromSessionid (Params.getStr arr 1) ≠ 0 ∧ subclient (t.inst p).id = 0 then
      t.disconnectedSessionidExists (intFromSessionid (Params.getStr arr 1)) else (t, 0)
  have henonce : Subscribes p r.1 (if r.2 ≠ 0 then
      (r.1.modify p fun i => { i with enonce1_64 := r.2 }).fillEnonce1data c p
      else r.1.newEnonce1 c p) := by
    split_ifs
    · exact (modify r.1 p (f := fun i => { i with enonce1_64 := r.2 }) (fun _ => rfl) id).trans
        (modify _ p (f := fun i =>
          { i with enonce1bin := leBytes c.ck.nonce1length i.enonce1_64 }) (fun _ => rfl) id)
    · exact newEnonce1 r.1 c p
  exact (hresume.trans henonce).trans
    (modify _ p (f := fun i => { i with subscribed := true }) (fun _ => rfl) id)

theorem parseSubscribe (s : InstanceData) (c : InstanceConf) (p : Nat) (params : Params) :
    Subscribes p s (s.parseSubscribe c p params) := by
  rcases params with - | arr
  · exact refl p s
  · exact (modify s p (f := fun i => { i with useragent := some (Params.getStr arr 0) })
      (fun _ => rfl) fun _ => rfl).trans (of_useragent s c p arr)

end Subscribes

/-! ### Work on one instance -/

/-- `t` is `s` after work on one instance that keeps its id and its references; the
tables of instances are untouched. -/
structure Writes (p : Nat) (s t : InstanceData) : Prop where
  stratumInstances : t.stratumInstances = s.stratumInstances
  adding : t.adding = s.adding
  recycledInstances : t.recycledInstances = s.recycledInstances
  stratumGenerated : t.stratumGenerated = s.stratumGenerated
  authjob : t.authjob = s.authjob
  inst_ne : ∀ q, q ≠ p → t.inst q = s.inst q
  id : (t.inst p).id = (s.inst p).id
  ref : (s.inst p).ref ≤ (t.inst p).ref

namespace Writes

variable {r s t : InstanceData} {p : Nat} {f : ClientInstance → ClientInstance}

theorem refl (p : Nat) (s : InstanceData) : Writes p s s :=
  ⟨rfl, rfl, rfl, rfl, rfl, fun _ _ => rfl, rfl, le_rfl⟩

theorem trans (h : Writes p r s) (h' : Writes p s t) : Writes p r t where
  stratumInstances := h'.stratumInstances.trans h.stratumInstances
  adding := h'.adding.trans h.adding
  recycledInstances := h'.recycledInstances.trans h.recycledInstances
  stratumGenerated := h'.stratumGenerated.trans h.stratumGenerated
  authjob := h'.authjob.trans h.authjob
  inst_ne q hq := (h'.inst_ne q hq).trans (h.inst_ne q hq)
  id := h'.id.trans h.id
  ref := h.ref.trans h'.ref

theorem modify (s : InstanceData) (p : Nat) {f : ClientInstance → ClientInstance}
    (hid : (f (s.inst p)).id = (s.inst p).id) (href : (s.inst p).ref ≤ (f (s.inst p)).ref) :
    Writes p s (s.modify p f) where
  stratumInstances := rfl
  adding := rfl
  recycledInstances := rfl
  stratumGenerated := rfl
  authjob := rfl
  inst_ne _ hq := modify_inst_ne hq
  id := by rw [modify_inst_self, hid]
  ref := by rwa [modify_inst_self]

/-- Nothing in the instances or their tables. -/
theorem of_inst (p : Nat) (hinst : t.inst = s.inst) (htable : t.stratumInstances = s.stratumInstances)
    (hadding : t.adding = s.adding) (hrecycled : t.recycledInstances = s.recycledInstances)
    (hgenerated : t.stratumGenerated = s.stratumGenerated) (hjob : t.authjob = s.authjob) :
    Writes p s t :=
  ⟨htable, hadding, hrecycled, hgenerated, hjob, fun _ _ => by rw [hinst], by rw [hinst],
    by rw [hinst]⟩

theorem of_subscribes (h : Subscribes p s t) : Writes p s t where
  stratumInstances := by rw [h.rest]
  adding := by rw [h.rest]
  recycledInstances := by rw [h.rest]
  stratumGenerated := by rw [h.rest]
  authjob := by rw [h.rest]
  inst_ne := h.inst_ne
  id := by rw [h.self]
  ref := by rw [h.self]

theorem parseSubscribe (s : InstanceData) (c : InstanceConf) (p : Nat) (params : Params) :
    Writes p s (s.parseSubscribe c p params) :=
  of_subscribes (Subscribes.parseSubscribe s c p params)

theorem generateUser {c : InstanceConf} {workername u : Bytes}
    (h : s.generateUser c p workername = (t, some u)) : Writes p s t := by
  have hmod := modify s p (f := fun i =>
    { i with userInstance := some u, workerInstance := workername }) rfl le_rfl
  refine hmod.trans ?_
  rw [generateUser_rest h]
  exact of_inst p rfl rfl rfl rfl rfl rfl

theorem modifyUser (s : InstanceData) (p : Nat) (u : Bytes) (g : UserInstance → UserInstance) :
    Writes p s (s.modifyUser u g) :=
  of_inst p rfl rfl rfl rfl rfl rfl

theorem clientAuth (s : InstanceData) (p : Nat) (u : Bytes) (now : Nat) (ret : Bool) :
    Writes p s (s.clientAuth p u now ret) := by
  rw [InstanceData.clientAuth]
  split_ifs
  · exact (modify s p (f := fun i => { i with authorised := true, authorising := false }) rfl
      le_rfl).trans (modifyUser _ p u _)
  · exact (modify s p (f := fun i => { i with reject := 3, authorising := false }) rfl
      le_rfl).trans (modifyUser _ p u _)

theorem parseAuthorise (s : InstanceData) (c : InstanceConf) (p now : Nat) (params : Params) :
    Writes p s (s.parseAuthorise c p now params).1 := by
  have hdropped : ∀ t : InstanceData, Writes p t (t.modify p fun i => { i with dropped := true }) :=
    fun t => modify t p rfl le_rfl
  have hname : ∀ (t : InstanceData) (buf : Bytes),
      Writes p t (t.modify p fun i => { i with workername := some buf }) :=
    fun t buf => modify t p rfl le_rfl
  obtain ⟨e, -, heq⟩ | ⟨buf, -, ⟨-, heq⟩ | ⟨t, u, hgen, ⟨-, heq⟩ | ⟨-, err, heq⟩⟩⟩ :=
    parseAuthorise_cases s c p now params
  · rw [heq]
    exact refl p s
  · rw [heq]
    exact hdropped s
  · rw [heq]
    exact (((generateUser hgen).trans (hname t buf)).trans (modifyUser _ p u _)).trans (hdropped _)
  · rw [heq]
    exact ((generateUser hgen).trans (hname t buf)).trans (clientAuth _ p u now _)

end Writes

/-- The ways `stratifier_sv2_open_session` can go, up to the release of its
reference. -/
theorem sv2OpenSession_cases {s t : InstanceData} {c : InstanceConf} {id server p : Nat} (now : Nat)
    (userIdentity : Bytes) (hadd : s.sv2AddInstance c id server = (t, p)) :
    ∃ r : InstanceData, s.sv2OpenSession c id server now userIdentity = r.decInstanceRef p ∧
      Writes p t r ∧
      ((t.generateUser c p userIdentity = (t, none) ∧
          r = t.modify p fun i => { i with dropped := true }) ∨
        ∃ r' u, t.generateUser c p userIdentity = (r', some u) ∧
          (((c.ck.btcsolo = true ∧ (r'.user u).btcaddress = false) ∧
            r = (r'.modify p fun i => { i with workername := some userIdentity }).modify p fun i =>
              { i with dropped := true }) ∨
          (¬(c.ck.btcsolo = true ∧ (r'.user u).btcaddress = false) ∧
            r = (r'.modify p fun i => { i with workername := some userIdentity }).clientAuth p u now
              true))) := by
  have hdropped : ∀ r : InstanceData, Writes p r (r.modify p fun i => { i with dropped := true }) :=
    fun r => Writes.modify r p rfl le_rfl
  have hname : ∀ r : InstanceData, Writes p r (r.modify p fun i =>
      { i with workername := some userIdentity }) := fun r => Writes.modify r p rfl le_rfl
  rw [sv2OpenSession, hadd]
  dsimp only
  rcases hgen : t.generateUser c p userIdentity with ⟨r', - | u⟩
  · obtain rfl := generateUser_none hgen
    exact ⟨_, rfl, hdropped r', Or.inl ⟨rfl, rfl⟩⟩
  · have hw := (Writes.generateUser hgen).trans (hname r')
    by_cases hgate : c.ck.btcsolo = true ∧ (r'.user u).btcaddress = false
    · exact ⟨_, if_pos hgate, hw.trans (hdropped _), Or.inr ⟨r', u, rfl, Or.inl ⟨hgate, rfl⟩⟩⟩
    · exact ⟨_, if_neg hgate, hw.trans (Writes.clientAuth _ p u now true),
        Or.inr ⟨r', u, rfl, Or.inr ⟨hgate, rfl⟩⟩⟩

theorem Wf.writes {s t : InstanceData} {p : Nat} (h : Wf s) (hw : Writes p s t)
    (hp : p ∈ s.stratumInstances) : Wf t := by
  refine h.congr hw.stratumInstances hw.adding hw.recycledInstances hw.stratumGenerated ?_ ?_ ?_
  · intro q _
    by_cases hq : q = p
    · rw [hq, hw.id]
    · rw [hw.inst_ne q hq]
  · intro q hq
    exact hw.inst_ne q fun heq => hq (heq ▸ hp)
  · intro q params hjob
    have hpos := h.job q params (hw.authjob ▸ hjob)
    by_cases hq : q = p
    · subst hq
      exact Nat.lt_of_lt_of_le hpos hw.ref
    · rwa [hw.inst_ne q hq]

/-! ### Events -/

theorem Writes.held {s t : InstanceData} {p : Nat} (h : Writes p s t) (hheld : s.Held p) : t.Held p := by
  rw [Held] at hheld ⊢
  rw [h.authjob]
  exact Nat.lt_of_lt_of_le hheld h.ref

namespace Wf

variable {s t : InstanceData} {p q : Nat} {c : InstanceConf}

/-- A new reference is nobody else's. -/
theorem held_of_ref (h : Wf s) (p : Nat) : (s.modify p fun i => { i with ref := i.ref + 1 }).Held p := by
  rw [Held, modify_inst_self]
  show (if s.authjob.map Prod.fst = some p then 1 else 0) < (s.inst p).ref + 1
  rcases hjob : s.authjob with - | ⟨q, params⟩
  · exact Nat.succ_pos _
  · have hpos := h.job q params hjob
    split_ifs with hq
    · rw [Option.map_some, Option.some.injEq] at hq
      have hq' : q = p := hq
      rw [hq'] at hpos
      exact Nat.succ_lt_succ hpos
    · exact Nat.succ_pos _

/-- The reference `add_remote_server` releases is its own. -/
theorem addRemoteServer_held (h : Wf s) (hp : p ∈ s.stratumInstances) :
    Wf (s.addRemoteServer p) ∧ (s.addRemoteServer p).Held p := by
  have hw : Writes p s (s.addRemoteServer p) :=
    (Writes.modify s p (f := fun i => { i with trusted := true, ref := i.ref + 1 }) rfl
      (Nat.le_succ _)).trans (Writes.of_inst p rfl rfl rfl rfl rfl rfl)
  refine ⟨h.writes hw hp, ?_⟩
  have hheld := h.held_of_ref p
  rw [Held, modify_inst_self] at hheld
  rw [Held]
  show (if s.authjob.map Prod.fst = some p then 1 else 0) <
    ((s.modify p fun i => { i with trusted := true, ref := i.ref + 1 }).inst p).ref
  rw [modify_inst_self]
  exact hheld

theorem addRemoteServer (h : Wf s) (hp : p ∈ s.stratumInstances) :
    Wf ((s.addRemoteServer p).decInstanceRef p) := by
  obtain ⟨hwf, hheld⟩ := h.addRemoteServer_held hp
  exact hwf.decInstanceRef hheld

theorem addMiningNode (h : Wf s) (hp : p ∈ s.stratumInstances) : Wf (s.addMiningNode p) :=
  h.writes ((Writes.modify s p (f := fun i => { i with node := true, ref := i.ref + 1 }) rfl
    (Nat.le_succ _)).trans (Writes.of_inst p rfl rfl rfl rfl rfl rfl)) hp

theorem parseTrustedMsg (h : Wf s) (hp : p ∈ s.stratumInstances) (msg : TrustedMsg) :
    Wf (s.parseTrustedMsg c p msg) := by
  have hremote : ∀ workername, Writes p s (s.generateRemoteUser c workername).1 := by
    intro workername
    rw [generateRemoteUser_rest]
    exact Writes.of_inst p rfl rfl rfl rfl rfl rfl
  cases msg with
  | share workername =>
    rw [InstanceData.parseTrustedMsg]
    have hw := hremote workername
    rcases hgen : s.generateRemoteUser c workername with ⟨t, - | u⟩
    · rw [hgen] at hw
      exact h.writes hw hp
    · rw [hgen] at hw
      dsimp only
      rw [getWorker_rest]
      exact h.writes (hw.trans (Writes.of_inst (s := t) p rfl rfl rfl rfl rfl rfl)) hp
  | shareErr workername => exact h.writes (hremote workername) hp
  | workers username =>
    rw [InstanceData.parseTrustedMsg, getCreateUser_rest]
    exact h.writes (Writes.of_inst p rfl rfl rfl rfl rfl rfl) hp
  | auth clientid useragent params =>
    rw [InstanceData.parseTrustedMsg, InstanceData.parseRemoteAuth]
    dsimp only
    split_ifs
    · exact h
    · split
      · exact h
      · rename_i q hq
        exact h.writes ((Writes.modify s q (f := fun i =>
          { i with remote := true, useragent := useragent.or i.useragent }) rfl le_rfl).trans
            (Writes.of_inst q rfl rfl rfl rfl rfl rfl)) (instanceById_mem hq).1

theorem preauth (h : Wf s) : Wf s.preauth := by
  rw [InstanceData.preauth]
  split
  · exact h
  · rename_i id params rest hq
    have hpop : Wf { s with sauthq := rest } :=
      h.congr rfl rfl rfl rfl (fun _ _ => rfl) (fun _ _ => rfl) h.job
    dsimp only
    split
    · exact hpop
    · rename_i p hp
      split_ifs
      · exact hpop
      · have hlive := (instanceById_mem hp).1
        have hmod := hpop.modify_of_ref (f := fun i =>
          { i with ref := i.ref + 1, authorising := true }) hlive rfl (Nat.le_succ _)
        refine hmod.congr rfl rfl rfl rfl (fun _ _ => rfl) (fun _ _ => rfl) ?_
        intro r params' hr
        obtain ⟨rfl, -⟩ := Prod.mk.inj (Option.some.inj hr)
        have hpos : 0 < ((InstanceData.modify { s with sauthq := rest } p fun i =>
            { i with ref := i.ref + 1, authorising := true }).inst p).ref := by
          rw [modify_inst_self]
          exact Nat.succ_pos _
        exact hpos

theorem sauthProcess (h : Wf s) (now : Nat) : Wf (s.sauthProcess c now) := by
  rw [InstanceData.sauthProcess]
  split
  · exact h
  · rename_i p params hjob
    have hp := h.live_of_ref (h.job p params hjob)
    have hfree : Wf { s with authjob := none } :=
      h.congr rfl rfl rfl rfl (fun _ _ => rfl) (fun _ _ => rfl) fun _ _ hnone => nomatch hnone
    have hw := Writes.parseAuthorise { s with authjob := none } c p now params
    rcases hparse : InstanceData.parseAuthorise { s with authjob := none } c p now params with
      ⟨t, ret, err⟩
    rw [hparse] at hw
    have hlive : p ∈ t.stratumInstances := by
      rw [hw.stratumInstances]
      exact hp
    dsimp only
    split_ifs
    · exact (hfree.writes hw hp).modify_of_ref hlive rfl le_rfl
    · exact hfree.writes hw hp

/-- The instance of a channel is live and held. -/
theorem sv2AddInstance (h : Wf s) {id server : Nat} (hid : 0 < id)
    (ht : s.sv2AddInstance c id server = (t, p)) : Wf t ∧ p ∈ t.stratumInstances ∧ t.Held p := by
  rw [InstanceData.sv2AddInstance] at ht
  dsimp only at ht
  have hnext : Wf s.nextEnonce1 := h.congr rfl rfl rfl rfl (fun _ _ => rfl) (fun _ _ => rfl) h.job
  rcases hrec : s.nextEnonce1.stratumRecruit id server with ⟨r, a⟩
  obtain ⟨hr, hadd, -⟩ := hnext.stratumRecruit hid hrec
  rw [hrec] at ht
  dsimp only at ht
  rcases hins : r.stratumInsert a with ⟨r', b⟩
  obtain ⟨hr', hlive, -⟩ := hr.stratumInsert hadd hins
  rw [hins] at ht
  obtain ⟨rfl, rfl⟩ := Prod.mk.inj ht
  refine ⟨hr'.modify_of_ref hlive rfl (Nat.le_succ _), hlive, ?_⟩
  have hheld := hr'.held_of_ref b
  rw [Held, modify_inst_self] at hheld ⊢
  exact hheld

theorem sv2OpenSession (h : Wf s) {id : Nat} (server now : Nat) (userIdentity : Bytes) (hid : 0 < id) :
    Wf (s.sv2OpenSession c id server now userIdentity) := by
  rcases hadd : s.sv2AddInstance c id server with ⟨t, p⟩
  obtain ⟨ht, hp, hheld⟩ := h.sv2AddInstance hid hadd
  obtain ⟨r, heq, hw, -⟩ := sv2OpenSession_cases now userIdentity hadd
  rw [heq]
  exact (ht.writes hw hp).decInstanceRef (hw.held hheld)

theorem sv2CloseSession (h : Wf s) (id : Nat) : Wf (s.sv2CloseSession id) := by
  rw [InstanceData.sv2CloseSession]
  split
  · exact h
  · rename_i p hp
    split_ifs
    · exact h
    · refine (h.modify_of_ref (instanceById_mem hp).1 rfl (Nat.le_succ _)).decInstanceRef ?_
      have hheld := h.held_of_ref p
      rw [Held, modify_inst_self] at hheld ⊢
      exact hheld

/-- **Every event keeps the state well formed.** -/
theorem step (h : Wf s) (e : InstanceEvent) : Wf (s.step c e) := by
  have hdoes := step_does c s e
  generalize s.step c e = t at hdoes ⊢
  cases hdoes with
  | idle => exact h
  | recruit server hid hok => exact ((h.subclientCreateOk hok).stratumRecruit hid rfl).1
  | insert hadd hins => exact (h.stratumInsert hadd hins).1
  | receive hadd hins =>
    obtain ⟨ht, hq, -⟩ := h.stratumInsert hadd hins
    exact ht.modify_of_ref hq rfl (Nat.le_succ _)
  | takes hp => exact h.modify_of_ref hp rfl (Nat.le_succ _)
  | leaves hheld => exact h.dropClient _ _
  | subscribe params hheld =>
    exact h.writes (Writes.parseSubscribe s c _ params) (h.live_of_held hheld)
  | remote hheld =>
    obtain ⟨hwf, hheld'⟩ := h.addRemoteServer_held (h.live_of_held hheld)
    exact hwf.decInstanceRef hheld'
  | node hheld => exact h.addMiningNode (h.live_of_held hheld)
  | passthrough hheld | share hheld | lazyDrop hheld =>
    exact h.modify_of_ref (h.live_of_held hheld) rfl le_rfl
  | asks hheld => exact h.writes (Writes.of_inst _ rfl rfl rfl rfl rfl rfl) (h.live_of_held hheld)
  | trusted msg hheld => exact h.parseTrustedMsg (h.live_of_held hheld) msg
  | release hheld => exact h.decInstanceRef hheld
  | iterUnref hheld => exact h.unref hheld
  | preauth => exact h.preauth
  | authorise now => exact h.sauthProcess now
  | dropClient id now => exact h.dropClient id now
  | dropAllclients => exact h.dropAllclients
  | requestReconnect => exact h.requestReconnect
  | sv2Open server now userIdentity hid => exact h.sv2OpenSession server now _ hid.1
  | sv2Close id => exact h.sv2CloseSession id

theorem start (loaded : LoadedUsers) (randomiser : Nat) : Wf (InstanceData.start loaded randomiser) where
  nodup := List.nodup_nil
  generated := nofun
  blank _ _ _ := rfl
  recruited := nofun
  id_pos := nofun
  id_inj := nofun
  job := nofun

end Wf

end InstanceData

end CashStratum
