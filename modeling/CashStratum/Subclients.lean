/-
CashStratum/Subclients.lean

The account each passthrough, node or remote parent has of its subclients.

A creation is charged to the parent, the lock goes, and the instance is listed when
the lock is back (`__subclient_create_ok`, `__stratum_add_instance`); whatever takes
an instance out gives the charge back (`__dec_subclients`), and a parent takes its
subclients with it (`__drop_subclients`).  Nobody looks at the parent again when the
instance is listed.  So the account is right along the runs in which no subclient is
listed after its parent has gone and no parent comes back to subclients of its
former self (`Tended`), and a run that is not one of those leaves a subclient nobody
will tell of its parent's end.
-/
import CashStratum.InstanceKeeps

namespace CashStratum

variable {s t : InstanceData} {c : InstanceConf}

namespace InstanceData

/-! ### Accounts -/

section Accounts

variable (s : InstanceData)

/-- The listed instances whose id encodes `k`. -/
def listedUnder (k : Nat) : Nat := s.stratumInstances.countP fun q => subclient (s.inst q).id = k

/-- The creations in flight under `k`. -/
def creating (k : Nat) : Nat := s.adding.countP fun q => subclient (s.inst q).id = k

/-- No instance that is listed or being created encodes the id. -/
def Unencoded (id : Nat) : Prop :=
  ∀ q ∈ s.stratumInstances ++ s.adding, subclient (s.inst q).id ≠ id

instance (id : Nat) : Decidable (s.Unencoded id) := inferInstanceAs (Decidable (∀ q ∈ _, _))

/-- What a parent is charged with is what it has, within the limit; and of a parent
that is gone, with nothing left in flight, every subclient is going too. -/
structure Accounted (c : InstanceConf) : Prop where
  charged : ∀ p ∈ s.stratumInstances,
    (s.inst p).subclients = s.listedUnder (s.inst p).id + s.creating (s.inst p).id
  bounded : c.maxsubclients ≠ 0 → ∀ p ∈ s.stratumInstances, (s.inst p).subclients ≤ c.maxsubclients
  gone : ∀ k, k ≠ 0 → s.instanceById k = none → s.creating k = 0 →
    ∀ q ∈ s.stratumInstances, subclient (s.inst q).id = k → (s.inst q).dropped = true

/-- Ids are `int64_t`, and the connector's own encode no parent.  A subclient is
listed under a listed parent, and no id is listed anew that instances encode. -/
def Tended : InstanceEvent → Prop
  | .recruit id _ _ _ => id < 2 ^ 63
  | .insert p => p ∈ s.adding → s.instanceById (s.inst p).id = none →
      (subclient (s.inst p).id = 0 ∨ s.instanceById (subclient (s.inst p).id) ≠ none) ∧
        s.Unencoded (s.inst p).id
  | .sv2Open id _ _ _ => id < 2 ^ 63 ∧ subclient id = 0 ∧ s.Unencoded id
  | _ => True

instance : DecidablePred s.Tended
  | .recruit id _ _ _ => inferInstanceAs (Decidable (id < 2 ^ 63))
  | .insert p => inferInstanceAs (Decidable (p ∈ s.adding → s.instanceById (s.inst p).id = none →
      (subclient (s.inst p).id = 0 ∨ s.instanceById (subclient (s.inst p).id) ≠ none) ∧
        s.Unencoded (s.inst p).id))
  | .sv2Open id _ _ _ =>
    inferInstanceAs (Decidable (id < 2 ^ 63 ∧ subclient id = 0 ∧ s.Unencoded id))
  | .acquire _ | .message _ _ _ | .trustedMessage _ _ | .share _ _ | .release _ | .iterRef _
  | .iterUnref _ | .lazyDrop _ | .preauth | .authorise _ | .dropClient _ _ | .dropAllclients
  | .requestReconnect | .sv2Close _ => isTrue trivial

end Accounts

/-- The account of every listed instance is right and within the limit. -/
structure Charged (c : InstanceConf) (s : InstanceData) : Prop where
  wf : Wf s
  small : ∀ q ∈ s.stratumInstances ++ s.adding, (s.inst q).id < 2 ^ 63
  charge : ∀ p ∈ s.stratumInstances,
    (s.inst p).subclients = s.listedUnder (s.inst p).id + s.creating (s.inst p).id
  bounded : c.maxsubclients ≠ 0 → ∀ p ∈ s.stratumInstances, (s.inst p).subclients ≤ c.maxsubclients

/-- A listed subclient that stays has its parent listed. -/
def Attended (s : InstanceData) : Prop :=
  ∀ q ∈ s.stratumInstances, (s.inst q).dropped = false → subclient (s.inst q).id ≠ 0 →
    ∃ p ∈ s.stratumInstances, (s.inst p).id = subclient (s.inst q).id

/-- **The invariant of the accounts.** -/
structure Accounts (c : InstanceConf) (s : InstanceData) : Prop extends Charged c s where
  attended : Attended s

theorem instanceById_eq_none {s : InstanceData} {id : Nat} :
    s.instanceById id = none ↔ ∀ p ∈ s.stratumInstances, (s.inst p).id ≠ id := by
  rw [instanceById, List.find?_eq_none]
  simp only [decide_eq_true_eq]

theorem Accounts.accounted {s : InstanceData} (h : Accounts c s) :
    s.Accounted c where
  charged := h.charge
  bounded := h.bounded
  gone k hk hnone _ q hq henc := by
    by_contra hdropped
    rw [Bool.not_eq_true] at hdropped
    obtain ⟨p, hp, hid⟩ := h.attended q hq hdropped (henc ▸ hk)
    exact instanceById_eq_none.mp hnone p hp (hid.trans henc)

/-- An instance under which another is, is no subclient itself. -/
theorem subclient_subclient {id : Nat} (h : id < 2 ^ 63) : subclient (subclient id) = 0 := by
  rw [subclient, subclient, Nat.shiftRight_eq_div_pow, Nat.shiftRight_eq_div_pow]
  omega

/-! ### Work that spares the accounts -/

/-- From `s` to `t` every instance has kept its id and its account, none has come back
from being dropped, and the lists are as they were. -/
structure Spares (s t : InstanceData) : Prop where
  stratumInstances : t.stratumInstances = s.stratumInstances
  adding : t.adding = s.adding
  id : ∀ q, (t.inst q).id = (s.inst q).id
  subclients : ∀ q, (t.inst q).subclients = (s.inst q).subclients
  dropped : ∀ q, (s.inst q).dropped = true → (t.inst q).dropped = true

namespace Spares

variable {r : InstanceData} {p : Nat}

theorem refl (s : InstanceData) : Spares s s :=
  ⟨rfl, rfl, fun _ => rfl, fun _ => rfl, fun _ hd => hd⟩

theorem trans (h : Spares r s) (h' : Spares s t) : Spares r t where
  stratumInstances := h'.stratumInstances.trans h.stratumInstances
  adding := h'.adding.trans h.adding
  id q := (h'.id q).trans (h.id q)
  subclients q := (h'.subclients q).trans (h.subclients q)
  dropped q hd := h'.dropped q (h.dropped q hd)

/-- The instances are untouched. -/
theorem of_inst (hinst : t.inst = s.inst) (htable : t.stratumInstances = s.stratumInstances)
    (hadding : t.adding = s.adding) : Spares s t :=
  ⟨htable, hadding, fun q => by rw [hinst], fun q => by rw [hinst], fun q hd => by rwa [hinst]⟩

theorem modify (s : InstanceData) (p : Nat) {f : ClientInstance → ClientInstance}
    (hid : (f (s.inst p)).id = (s.inst p).id)
    (hsubclients : (f (s.inst p)).subclients = (s.inst p).subclients)
    (hdropped : (s.inst p).dropped = true → (f (s.inst p)).dropped = true) :
    Spares s (s.modify p f) where
  stratumInstances := rfl
  adding := rfl
  id q := by
    rw [modify_inst]
    split_ifs with hq
    · rw [hid, hq]
    · rfl
  subclients q := by
    rw [modify_inst]
    split_ifs with hq
    · rw [hsubclients, hq]
    · rfl
  dropped q hd := by
    rw [modify_inst]
    split_ifs with hq
    · exact hdropped (hq ▸ hd)
    · exact hd

theorem markDropped (s : InstanceData) (p : Nat) :
    Spares s (s.modify p fun i => { i with dropped := true }) :=
  modify s p rfl rfl fun _ => rfl

theorem of_subscribes (h : Subscribes p s t) : Spares s t where
  stratumInstances := by rw [h.rest]
  adding := by rw [h.rest]
  id q := by
    by_cases hq : q = p
    · rw [hq, h.self]
    · rw [h.inst_ne q hq]
  subclients q := by
    by_cases hq : q = p
    · rw [hq, h.self]
    · rw [h.inst_ne q hq]
  dropped q hd := by
    by_cases hq : q = p
    · rw [hq] at hd ⊢
      rw [h.self]
      exact hd
    · rwa [h.inst_ne q hq]

theorem generateUser {workername u : Bytes}
    (h : s.generateUser c p workername = (t, some u)) : Spares s t := by
  have hmod := modify s p (f := fun i =>
    { i with userInstance := some u, workerInstance := workername }) rfl rfl fun hd => hd
  refine hmod.trans ?_
  rw [generateUser_rest h]
  exact of_inst rfl rfl rfl

theorem setWorkername (s : InstanceData) (p : Nat) (buf : Bytes) :
    Spares s (s.modify p fun i => { i with workername := some buf }) :=
  modify s p rfl rfl fun hd => hd

theorem clientAuth (s : InstanceData) (p : Nat) (u : Bytes) (now : Nat) (ret : Bool) :
    Spares s (s.clientAuth p u now ret) := by
  rw [InstanceData.clientAuth]
  split_ifs
  · exact (modify s p (f := fun i => { i with authorised := true, authorising := false }) rfl rfl
      fun hd => hd).trans (of_inst rfl rfl rfl)
  · exact (modify s p (f := fun i => { i with reject := 3, authorising := false }) rfl rfl
      fun hd => hd).trans (of_inst rfl rfl rfl)

theorem parseAuthorise (s : InstanceData) (c : InstanceConf) (p now : Nat) (params : Params) :
    Spares s (s.parseAuthorise c p now params).1 := by
  obtain ⟨e, -, heq⟩ | ⟨buf, -, ⟨-, heq⟩ | ⟨t, u, hgen, ⟨-, heq⟩ | ⟨-, err, heq⟩⟩⟩ :=
    parseAuthorise_cases s c p now params
  · rw [heq]
    exact refl s
  · rw [heq]
    exact markDropped s p
  · rw [heq]
    refine Spares.trans ?_ (markDropped _ p)
    exact ((generateUser hgen).trans (setWorkername t p buf)).trans (of_inst rfl rfl rfl)
  · rw [heq]
    exact ((generateUser hgen).trans (setWorkername t p buf)).trans (clientAuth _ p u now _)

theorem preauth (s : InstanceData) : Spares s s.preauth := by
  rw [InstanceData.preauth]
  split
  · exact refl s
  · rename_i id params rest _
    have hpop : Spares s { s with sauthq := rest } := of_inst rfl rfl rfl
    dsimp only
    split
    · exact hpop
    · rename_i p _
      split_ifs
      · exact hpop
      · refine hpop.trans ?_
        exact (modify { s with sauthq := rest } p (f := fun i =>
          { i with ref := i.ref + 1, authorising := true }) rfl rfl fun hd => hd).trans
            (of_inst rfl rfl rfl)

theorem sauthProcess (s : InstanceData) (c : InstanceConf) (now : Nat) :
    Spares s (s.sauthProcess c now) := by
  rw [InstanceData.sauthProcess]
  split
  · exact refl s
  · rename_i p params _
    have hfree : Spares s { s with authjob := none } := of_inst rfl rfl rfl
    have hparse := hfree.trans (parseAuthorise { s with authjob := none } c p now params)
    rcases hres : InstanceData.parseAuthorise { s with authjob := none } c p now params with
      ⟨t, ret, err⟩
    rw [hres] at hparse
    dsimp only
    split_ifs
    · exact hparse.trans (markDropped t p)
    · exact hparse

theorem addRemoteServer (s : InstanceData) (p : Nat) : Spares s (s.addRemoteServer p) :=
  (modify s p (f := fun i => { i with trusted := true, ref := i.ref + 1 }) rfl rfl
    fun hd => hd).trans (of_inst rfl rfl rfl)

theorem addMiningNode (s : InstanceData) (p : Nat) : Spares s (s.addMiningNode p) :=
  (modify s p (f := fun i => { i with node := true, ref := i.ref + 1 }) rfl rfl
    fun hd => hd).trans (of_inst rfl rfl rfl)

theorem parseTrustedMsg (s : InstanceData) (c : InstanceConf) (p : Nat) (msg : TrustedMsg) :
    Spares s (s.parseTrustedMsg c p msg) := by
  have hremote : ∀ workername, Spares s (s.generateRemoteUser c workername).1 := by
    intro workername
    rw [generateRemoteUser_rest]
    exact of_inst rfl rfl rfl
  cases msg with
  | share workername =>
    rw [InstanceData.parseTrustedMsg]
    have hw := hremote workername
    rcases hgen : s.generateRemoteUser c workername with ⟨t, - | u⟩
    · rw [hgen] at hw
      exact hw
    · rw [hgen] at hw
      dsimp only
      rw [getWorker_rest]
      exact hw.trans (of_inst (s := t) rfl rfl rfl)
  | shareErr workername => exact hremote workername
  | workers username =>
    rw [InstanceData.parseTrustedMsg, getCreateUser_rest]
    exact of_inst rfl rfl rfl
  | auth clientid useragent params =>
    rw [InstanceData.parseTrustedMsg, InstanceData.parseRemoteAuth]
    dsimp only
    split_ifs
    · exact refl s
    · split
      · exact refl s
      · rename_i q _
        exact (modify s q (f := fun i =>
          { i with remote := true, useragent := useragent.or i.useragent }) rfl rfl
            fun hd => hd).trans (of_inst rfl rfl rfl)

theorem disconnectSession (s : InstanceData) (p now : Nat) :
    Spares s (s.disconnectSession p now) := by
  rw [disconnectSession_rest]
  exact of_inst rfl rfl rfl

theorem unlink (s : InstanceData) (p : Nat) : Spares s (s.unlink p) := by
  rw [InstanceData.unlink]
  split_ifs
  · exact of_inst rfl rfl rfl
  · exact of_inst rfl rfl rfl
  · exact refl s

theorem requestReconnect (s : InstanceData) : Spares s s.requestReconnect := by
  have hinst : ∀ q, s.requestReconnect.inst q =
      if q ∈ s.stratumInstances then { s.inst q with dropped := true } else s.inst q := fun _ => rfl
  refine ⟨rfl, rfl, fun q => ?_, fun q => ?_, fun q hd => ?_⟩
  · rw [hinst]
    split_ifs <;> rfl
  · rw [hinst]
    split_ifs <;> rfl
  · rw [hinst]
    split_ifs
    · rfl
    · exact hd

theorem listedUnder (h : Spares s t) (k : Nat) : t.listedUnder k = s.listedUnder k := by
  rw [InstanceData.listedUnder, InstanceData.listedUnder, h.stratumInstances]
  simp only [h.id]

theorem creating (h : Spares s t) (k : Nat) : t.creating k = s.creating k := by
  rw [InstanceData.creating, InstanceData.creating, h.adding]
  simp only [h.id]

end Spares

theorem Charged.spares (h : Charged c s) (hw : Spares s t) (hwf : Wf t) : Charged c t where
  wf := hwf
  small q hq := by
    rw [hw.stratumInstances, hw.adding] at hq
    rw [hw.id]
    exact h.small q hq
  charge p hp := by
    rw [hw.stratumInstances] at hp
    rw [hw.subclients, hw.id, hw.listedUnder, hw.creating]
    exact h.charge p hp
  bounded hmax p hp := by
    rw [hw.stratumInstances] at hp
    rw [hw.subclients]
    exact h.bounded hmax p hp

theorem Attended.spares (h : Attended s) (hw : Spares s t) : Attended t := by
  intro q hq hdropped hsub
  rw [hw.stratumInstances] at hq ⊢
  rw [hw.id] at hsub ⊢
  have hstays : (s.inst q).dropped = false := by
    by_contra hd
    rw [Bool.not_eq_false] at hd
    rw [hw.dropped q hd] at hdropped
    cases hdropped
  obtain ⟨p, hp, hid⟩ := h q hq hstays hsub
  exact ⟨p, hp, by rw [hw.id, hid]⟩

theorem Accounts.spares (h : Accounts c s) (hw : Spares s t) (hwf : Wf t) : Accounts c t :=
  ⟨h.toCharged.spares hw hwf, h.attended.spares hw⟩

/-! ### Taking an instance out -/

/-- `__dec_subclients` takes one from the account of the parent, if it is listed. -/
theorem Wf.decSubclients_subclients {s : InstanceData} (h : Wf s) (id : Nat) {q : Nat}
    (hq : q ∈ s.stratumInstances) :
    ((s.decSubclients id).inst q).subclients =
      if (s.inst q).id = subclient id then (s.inst q).subclients - 1 else (s.inst q).subclients := by
  have hpos := h.id_pos q (List.mem_append_left _ hq)
  rw [decSubclients]
  by_cases hown : subclient id = 0
  · rw [if_pos hown, if_neg (by omega)]
  · rw [if_neg hown]
    rcases hparent : s.instanceById (subclient id) with - | parent
    · rw [if_neg (instanceById_eq_none.mp hparent q hq)]
    · obtain ⟨hlive, hid⟩ := instanceById_mem hparent
      dsimp only
      rw [modify_inst]
      by_cases heq : q = parent
      · subst heq
        rw [if_pos rfl, if_pos hid]
      · have hne : (s.inst q).id ≠ subclient id := by
          intro hsame
          exact heq (h.id_inj q hq parent hlive (hsame.trans hid.symm))
        rw [if_neg heq, if_neg hne]

theorem reap_id {s : InstanceData} {p q : Nat} (hq : q ≠ p) :
    ((s.reap p).inst q).id = (s.inst q).id := by
  obtain ⟨n, hn⟩ := reap_inst_ne (s := s) hq
  rw [hn]

theorem reap_dropped {s : InstanceData} {p q : Nat} (hq : q ≠ p) :
    ((s.reap p).inst q).dropped = (s.inst q).dropped := by
  obtain ⟨n, hn⟩ := reap_inst_ne (s := s) hq
  rw [hn]

theorem Wf.reap_subclients {s : InstanceData} (h : Wf s) {p q : Nat} (hq : q ∈ s.stratumInstances)
    (hne : q ≠ p) :
    ((s.reap p).inst q).subclients =
      if (s.inst q).id = subclient (s.inst p).id then (s.inst q).subclients - 1
      else (s.inst q).subclients := by
  have hkilled : (s.reap p).inst q = (s.decSubclients (s.inst p).id).inst q := by
    rw [InstanceData.reap, killInstance]
    show Function.update (s.delClient p).inst p {} q = _
    rw [Function.update_of_ne hne, delClient_inst]
  rw [hkilled, h.decSubclients_subclients _ hq]

theorem reap_adding (s : InstanceData) (p : Nat) : (s.reap p).adding = s.adding := by
  rw [reap_rest]

/-- The instance that goes is counted no more. -/
theorem Wf.reap_listedUnder {s : InstanceData} (h : Wf s) {p : Nat} (hp : p ∈ s.stratumInstances)
    (k : Nat) :
    s.listedUnder k = (s.reap p).listedUnder k + if subclient (s.inst p).id = k then 1 else 0 := by
  have hrest : ∀ q ∈ s.stratumInstances.erase p, ((s.reap p).inst q).id = (s.inst q).id := by
    intro q hq
    exact reap_id (h.table_nodup.mem_erase_iff.mp hq).1
  rw [listedUnder, (List.perm_cons_erase hp).countP_eq, List.countP_cons, listedUnder,
    reap_stratumInstances]
  congr 1
  · refine List.countP_congr fun q hq => ?_
    rw [hrest q hq]
  · simp only [decide_eq_true_eq]

theorem Wf.reap_creating {s : InstanceData} (h : Wf s) {p : Nat} (hp : p ∈ s.stratumInstances)
    (k : Nat) : (s.reap p).creating k = s.creating k := by
  rw [creating, creating, reap_adding]
  refine List.countP_congr fun q hq => ?_
  have hne : q ≠ p := by
    rintro rfl
    exact h.not_mem_adding hp hq
  rw [reap_id hne]

namespace Charged

variable {p : Nat}

/-- An instance with this id is gone, and its charge has been given back. -/
theorem giveBack (h : Charged c s) (id : Nat) (hwf : Wf t)
    (hlisted : ∀ q ∈ t.stratumInstances, q ∈ s.stratumInstances)
    (hadding : ∀ q ∈ t.adding, q ∈ s.adding)
    (hid : ∀ q ∈ t.stratumInstances ++ t.adding, (t.inst q).id = (s.inst q).id)
    (hcount : ∀ k, s.listedUnder k + s.creating k =
      t.listedUnder k + t.creating k + if subclient id = k then 1 else 0)
    (hcharged : ∀ q ∈ t.stratumInstances, (t.inst q).subclients =
      if (s.inst q).id = subclient id then (s.inst q).subclients - 1 else (s.inst q).subclients) :
    Charged c t where
  wf := hwf
  small q hq := by
    rw [hid q hq]
    rcases List.mem_append.mp hq with hq | hq
    · exact h.small q (List.mem_append_left _ (hlisted q hq))
    · exact h.small q (List.mem_append_right _ (hadding q hq))
  charge q hq := by
    have hcharge := h.charge q (hlisted q hq)
    have hgives := hcount (s.inst q).id
    rw [hcharged q hq, hid q (List.mem_append_left _ hq)]
    by_cases henc : (s.inst q).id = subclient id
    · rw [if_pos henc.symm] at hgives
      rw [if_pos henc]
      omega
    · rw [if_neg (Ne.symm henc)] at hgives
      rw [if_neg henc]
      omega
  bounded hmax q hq := by
    have hbound := h.bounded hmax q (hlisted q hq)
    rw [hcharged q hq]
    split_ifs
    · omega
    · exact hbound

theorem reap (h : Charged c s) (hp : p ∈ s.stratumInstances) (href : (s.inst p).ref = 0) :
    Charged c (s.reap p) := by
  have hmem : ∀ q, q ∈ (s.reap p).stratumInstances ↔ q ≠ p ∧ q ∈ s.stratumInstances := by
    intro q
    rw [reap_stratumInstances]
    exact h.wf.table_nodup.mem_erase_iff
  refine h.giveBack (s.inst p).id (h.wf.reap hp href) (fun q hq => ((hmem q).mp hq).2)
    (fun q hq => ?_) (fun q hq => ?_) (fun k => ?_) fun q hq => ?_
  · rwa [reap_adding] at hq
  · rw [reap_adding] at hq
    rcases List.mem_append.mp hq with hq | hq
    · exact reap_id ((hmem q).mp hq).1
    · exact reap_id fun heq => h.wf.not_mem_adding hp (heq ▸ hq)
  · rw [h.wf.reap_listedUnder hp, h.wf.reap_creating hp]
    omega
  · obtain ⟨hne, hlive⟩ := (hmem q).mp hq
    exact h.wf.reap_subclients hlive hne

theorem dropOne (h : Charged c s) (hp : p ∈ s.stratumInstances) : Charged c (s.dropOne p) := by
  have hwf := h.wf.dropOne hp
  rw [InstanceData.dropOne] at hwf ⊢
  split_ifs with href
  · exact h.reap hp href
  · rw [if_neg href] at hwf
    exact h.spares (Spares.markDropped s p) hwf

theorem dropEach (h : Charged c s) (select : ClientInstance → Bool) : Charged c (s.dropEach select) :=
  dropEach_induction h.wf.table_nodup h fun _ _ ht hp _ => ht.dropOne hp

/-- Nothing is listed under a subclient. -/
theorem no_listed_under (h : Charged c s) (hsub : subclient (s.inst p).id ≠ 0) {q : Nat}
    (hq : q ∈ s.stratumInstances) : subclient (s.inst q).id ≠ (s.inst p).id := by
  intro henc
  have hsmall := h.small q (List.mem_append_left _ hq)
  rw [← henc] at hsub
  exact hsub (subclient_subclient hsmall)

end Charged

/-- An instance whose subclients are all going can go. -/
theorem Attended.reap {s : InstanceData} (h : Attended s) (hwf : Wf s) {p : Nat}
    (hgoing : ∀ q ∈ s.stratumInstances, subclient (s.inst q).id = (s.inst p).id →
      (s.inst q).dropped = true) : Attended (s.reap p) := by
  intro q hq hdropped hsub
  rw [reap_stratumInstances] at hq ⊢
  obtain ⟨hne, hlive⟩ := hwf.table_nodup.mem_erase_iff.mp hq
  rw [reap_dropped hne] at hdropped
  rw [reap_id hne] at hsub ⊢
  obtain ⟨r, hr, hid⟩ := h q hlive hdropped hsub
  have hrp : r ≠ p := by
    rintro rfl
    rw [hgoing q hlive hid.symm] at hdropped
    cases hdropped
  exact ⟨r, hwf.table_nodup.mem_erase_iff.mpr ⟨hrp, hr⟩, by rw [reap_id hrp, hid]⟩

/-! ### The loops that drop instances -/

/-- What `__drop_subclients` and `drop_allclients` leave of the listed instances. -/
theorem dropOne_listed {s : InstanceData} {p q : Nat} (hnodup : s.stratumInstances.Nodup)
    (hq : q ∈ (s.dropOne p).stratumInstances) :
    q ∈ s.stratumInstances ∧ ((s.dropOne p).inst q).id = (s.inst q).id ∧
      (q = p ∨ (s.inst q).dropped = true → ((s.dropOne p).inst q).dropped = true) := by
  rw [dropOne] at hq ⊢
  split_ifs at hq ⊢ with href
  · rw [reap_stratumInstances] at hq
    obtain ⟨hne, hlive⟩ := hnodup.mem_erase_iff.mp hq
    refine ⟨hlive, reap_id hne, ?_⟩
    rintro (heq | hd)
    · exact absurd heq hne
    · rw [reap_dropped hne, hd]
  · have hspares := Spares.markDropped s p
    refine ⟨hq, hspares.id q, ?_⟩
    rintro (rfl | hd)
    · rw [modify_inst_self]
    · exact hspares.dropped q hd

theorem dropOne_nodup {s : InstanceData} (hnodup : s.stratumInstances.Nodup) (p : Nat) :
    (s.dropOne p).stratumInstances.Nodup := by
  rw [dropOne]
  split_ifs
  · rw [reap_stratumInstances]
    exact hnodup.erase p
  · exact hnodup

/-- Of the selected instances that are listed only those in `todo` stay. -/
def GoingBut (select : ClientInstance → Bool) (todo : List Nat) (t : InstanceData) : Prop :=
  ∀ q ∈ t.stratumInstances, select (t.inst q) = true → q ∈ todo ∨ (t.inst q).dropped = true

/-- After the loop every selected instance that is still listed is going. -/
theorem dropEach_going {s : InstanceData} {select : ClientInstance → Bool}
    (hnodup : s.stratumInstances.Nodup) (hselect : ∀ i j, i.id = j.id → select i = select j) :
    GoingBut select [] (s.dropEach select) := by
  suffices h : ∀ (todo : List Nat) (t : InstanceData), t.stratumInstances.Nodup →
      GoingBut select todo t →
      GoingBut select []
        (todo.foldl (fun t p => if select (t.inst p) then t.dropOne p else t) t) from
    h _ s hnodup fun q hq _ => Or.inl hq
  intro todo
  induction todo with
  | nil => exact fun t _ htodo => htodo
  | cons p todo ih =>
    intro t hnodup htodo
    rw [List.foldl_cons]
    by_cases hsel : select (t.inst p) = true
    · rw [if_pos hsel]
      apply ih _ (dropOne_nodup hnodup p)
      intro q hq hselq
      obtain ⟨hlive, hid, hgoing⟩ := dropOne_listed hnodup hq
      rw [hselect _ _ hid] at hselq
      rcases htodo q hlive hselq with hmem | hd
      · rcases List.mem_cons.mp hmem with rfl | hmem
        · exact Or.inr (hgoing (Or.inl rfl))
        · exact Or.inl hmem
      · exact Or.inr (hgoing (Or.inr hd))
    · rw [if_neg hsel]
      apply ih _ hnodup
      intro q hq hselq
      rcases htodo q hq hselq with hmem | hd
      · rcases List.mem_cons.mp hmem with rfl | hmem
        · exact absurd hselq hsel
        · exact Or.inl hmem
      · exact Or.inr hd

namespace Accounts

variable {p : Nat}

theorem dropSubclients (h : Accounts c s) {parentId : Nat} (hpos : parentId ≠ 0) :
    Accounts c (s.dropSubclients parentId) := by
  refine dropEach_induction h.wf.table_nodup h ?_
  intro t q ht hq hsel
  rw [beq_iff_eq] at hsel
  have hsub : subclient (t.inst q).id ≠ 0 := by rwa [hsel]
  refine ⟨ht.toCharged.dropOne hq, ?_⟩
  rw [InstanceData.dropOne]
  split_ifs
  · exact ht.attended.reap ht.wf fun r hr henc => absurd henc (ht.no_listed_under hsub hr)
  · exact ht.attended.spares (Spares.markDropped t q)

/-- The parent goes with its subclients. -/
theorem dropClientLocked (h : Accounts c s) (hp : p ∈ s.stratumInstances)
    (href : (s.inst p).ref = 0) : Accounts c (s.dropClientLocked p) := by
  have hpos := h.wf.id_pos p (List.mem_append_left _ hp)
  obtain ⟨t, ht, hlive, hinst, hgoing⟩ : ∃ t,
      (if (s.inst p).subclients ≠ 0 then s.dropSubclients (s.inst p).id else s) = t ∧
        p ∈ t.stratumInstances ∧ (∃ n, t.inst p = { s.inst p with subclients := n }) ∧
        Accounts c t ∧ ∀ q ∈ t.stratumInstances, subclient (t.inst q).id = (s.inst p).id →
          (t.inst q).dropped = true := by
    refine ⟨_, rfl, ?_⟩
    by_cases hsubs : (s.inst p).subclients ≠ 0
    · rw [if_pos hsubs]
      obtain ⟨hlive, hinst⟩ := h.wf.dropSubclients_self hp
      refine ⟨hlive, hinst, h.dropSubclients hpos.ne', fun q hq henc => ?_⟩
      have hgoing : GoingBut (fun client => subclient client.id == (s.inst p).id) []
          (s.dropEach fun client => subclient client.id == (s.inst p).id) :=
        dropEach_going h.wf.table_nodup fun i j hid => by rw [hid]
      exact (hgoing q hq (beq_iff_eq.mpr henc)).resolve_left List.not_mem_nil
    · -- a parent charged with nothing has nothing listed
      rw [if_neg hsubs]
      refine ⟨hp, ⟨_, rfl⟩, h, fun q hq henc => ?_⟩
      have hcharge := h.charge p hp
      have hcount : 0 < s.listedUnder (s.inst p).id :=
        List.countP_pos_iff.mpr ⟨q, hq, decide_eq_true henc⟩
      omega
  obtain ⟨n, hn⟩ := hinst
  obtain ⟨haccounts, hgoing⟩ := hgoing
  have hunlink := Spares.unlink t p
  have hready := haccounts.spares hunlink (haccounts.wf.unlink p)
  have hlive' : p ∈ (t.unlink p).stratumInstances := by
    rw [hunlink.stratumInstances]
    exact hlive
  have href' : ((t.unlink p).inst p).ref = 0 := by
    rw [(Wf.unlink_inst t p).1, hn]
    exact href
  rw [InstanceData.dropClientLocked, ht]
  refine ⟨hready.toCharged.reap hlive' href', hready.attended.reap hready.wf fun q hq henc => ?_⟩
  rw [hunlink.stratumInstances] at hq
  rw [hunlink.id, hunlink.id, hn] at henc
  exact hunlink.dropped q (hgoing q hq henc)

theorem decInstanceRef (h : Accounts c s) (hheld : s.Held p) : Accounts c (s.decInstanceRef p) := by
  have hunref := h.spares (Spares.modify s p (f := fun i => { i with ref := i.ref - 1 }) rfl rfl
    fun hd => hd) (h.wf.unref hheld)
  rw [InstanceData.decInstanceRef]
  split_ifs with hdrop
  · exact hunref.dropClientLocked (h.wf.live_of_held hheld) hdrop.2
  · exact hunref

theorem dropClient (h : Accounts c s) (id now : Nat) : Accounts c (s.dropClient id now) := by
  rw [InstanceData.dropClient]
  rcases hid : s.instanceById id with - | p
  · exact h
  · have hdis := h.spares (Spares.disconnectSession s p now) (h.wf.disconnectSession p now)
    have hlive : p ∈ (s.disconnectSession p now).stratumInstances := by
      rw [(Spares.disconnectSession s p now).stratumInstances]
      exact (instanceById_mem hid).1
    show Accounts c (if ((s.disconnectSession p now).inst p).ref = 0 then _ else _)
    split_ifs with href
    · exact hdis.dropClientLocked hlive href
    · exact hdis.spares (Spares.markDropped _ p) (hdis.wf.modify_of_ref hlive rfl le_rfl)

theorem dropAllclients (h : Accounts c s) : Accounts c s.dropAllclients := by
  have hdrop : Accounts c (s.dropEach fun _ => true) := by
    refine ⟨h.toCharged.dropEach _, fun q hq hdropped _ => ?_⟩
    have hgoing : GoingBut (fun _ => true) [] (s.dropEach fun _ => true) :=
      dropEach_going h.wf.table_nodup fun _ _ _ => rfl
    rw [(hgoing q hq rfl).resolve_left List.not_mem_nil] at hdropped
    cases hdropped
  have hwf := h.wf.dropAllclients
  rw [InstanceData.dropAllclients] at hwf ⊢
  split_ifs at hwf ⊢
  · exact hdrop.spares (Spares.of_inst rfl rfl rfl) hwf
  · exact hdrop

theorem sv2CloseSession (h : Accounts c s) (id : Nat) : Accounts c (s.sv2CloseSession id) := by
  rw [InstanceData.sv2CloseSession]
  split
  · exact h
  · rename_i p hp
    split_ifs
    · exact h
    · have hheld := h.wf.held_of_ref p
      rw [Held, modify_inst_self] at hheld
      have href := h.spares (Spares.modify s p (f := fun i =>
        { i with ref := i.ref + 1, dropped := true }) rfl rfl fun _ => rfl)
        (h.wf.modify_of_ref (instanceById_mem hp).1 rfl (Nat.le_succ _))
      refine href.decInstanceRef ?_
      rw [Held, modify_inst_self]
      exact hheld

end Accounts

/-! ### Adding an instance -/

/-- What `__subclient_create_ok` lets through: a client of our own, or a subclient
whose parent has room and is charged. -/
theorem subclientCreateOk_some {id : Nat}
    {creates tooFast : Bool} (hok : s.subclientCreateOk c id creates tooFast = some t) :
    (subclient id = 0 ∧ t = s) ∨ ∃ parent ∈ s.stratumInstances, (s.inst parent).id = subclient id ∧
      (c.maxsubclients ≠ 0 → (s.inst parent).subclients < c.maxsubclients) ∧
      t = s.modify parent fun i => { i with subclients := i.subclients + 1 } := by
  rw [subclientCreateOk] at hok
  by_cases hown : subclient id = 0
  · rw [if_pos hown] at hok
    exact Or.inl ⟨hown, (Option.some.inj hok).symm⟩
  · rw [if_neg hown] at hok
    rcases hparent : s.instanceById (subclient id) with - | parent
    · rw [hparent] at hok
      cases hok
    · rw [hparent] at hok
      dsimp only at hok
      obtain ⟨hlive, hid⟩ := instanceById_mem hparent
      split_ifs at hok with hserver hcreates hfull hfast
      refine Or.inr ⟨parent, hlive, hid, fun hmax => ?_, (Option.some.inj hok).symm⟩
      exact Nat.lt_of_not_le fun hge => hfull ⟨hmax, hge⟩

theorem stratumRecruit_adding {id server p : Nat}
    (ht : s.stratumRecruit id server = (t, p)) : t.adding = s.adding ++ [p] := by
  have hrest := congrArg InstanceData.adding (recruitStratumInstance_rest s)
  rw [stratumRecruit] at ht
  rcases hrec : s.recruitStratumInstance with ⟨r, a⟩
  rw [hrec] at ht hrest
  obtain ⟨rfl, rfl⟩ := Prod.mk.inj ht
  show r.adding ++ [a] = _
  rw [hrest]

/-- The new instance is in flight; nothing else changes in the accounts. -/
theorem Wf.stratumRecruit_counts (h : Wf s) {id server p : Nat} (hid : 0 < id)
    (ht : s.stratumRecruit id server = (t, p)) (k : Nat) :
    t.listedUnder k = s.listedUnder k ∧
      t.creating k = s.creating k + if subclient id = k then 1 else 0 := by
  obtain ⟨hwf, -, htable, hinst, hdead, sessionId, hself⟩ := h.stratumRecruit hid ht
  have hadding := stratumRecruit_adding ht
  have hnew : p ∉ s.adding := by
    have hnodup := hwf.adding_nodup
    rw [hadding] at hnodup
    intro hin
    exact (List.nodup_append.mp hnodup).2.2 p hin p List.mem_cons_self rfl
  constructor
  · rw [listedUnder, listedUnder, htable]
    refine List.countP_congr fun q hq => ?_
    have hne : q ≠ p := fun heq => hdead (heq ▸ hq)
    rw [hinst q hne]
  · rw [creating, creating, hadding, List.countP_append, List.countP_singleton, hself]
    congr 1
    · refine List.countP_congr fun q hq => ?_
      have hne : q ≠ p := fun heq => hnew (heq ▸ hq)
      rw [hinst q hne]
    · show (if decide (subclient id = k) = true then 1 else 0) = _
      simp only [decide_eq_true_eq]

namespace Accounts

variable {p q : Nat}

/-- Recruiting an instance, once its parent has been charged or when it has none. -/
theorem stratumRecruit (h : Accounts c s) {id server : Nat} {creates tooFast : Bool} (hid : 0 < id)
    (hsmall : id < 2 ^ 63) {r : InstanceData}
    (hok : s.subclientCreateOk c id creates tooFast = some t)
    (hrec : t.stratumRecruit id server = (r, p)) : Accounts c r := by
  have hwf := h.wf.subclientCreateOk hok
  obtain ⟨hrwf, hadd, htable, hinst, hdead, sessionId, hself⟩ := hwf.stratumRecruit hid hrec
  have hcounts := hwf.stratumRecruit_counts hid hrec
  have hadding := stratumRecruit_adding hrec
  -- up to the charge, `t` is `s`
  have hlists : t.stratumInstances = s.stratumInstances ∧ t.adding = s.adding := by
    rcases subclientCreateOk_some hok with ⟨-, rfl⟩ | ⟨parent, -, -, -, rfl⟩ <;> exact ⟨rfl, rfl⟩
  have hbase : ∀ q, (t.inst q).id = (s.inst q).id ∧ (t.inst q).dropped = (s.inst q).dropped := by
    intro q
    rcases subclientCreateOk_some hok with ⟨-, rfl⟩ | ⟨parent, -, -, -, rfl⟩
    · exact ⟨rfl, rfl⟩
    · rw [modify_inst]
      split_ifs with hq
      · rw [hq]
        exact ⟨rfl, rfl⟩
      · exact ⟨rfl, rfl⟩
  have hcharged : ∀ q ∈ s.stratumInstances, (t.inst q).subclients =
      (s.inst q).subclients + (if subclient id = (s.inst q).id then 1 else 0) ∧
        (c.maxsubclients ≠ 0 → (t.inst q).subclients ≤ c.maxsubclients) := by
    intro q hq
    have hpos := h.wf.id_pos q (List.mem_append_left _ hq)
    rcases subclientCreateOk_some hok with ⟨hown, rfl⟩ | ⟨parent, hparent, henc, hroom, rfl⟩
    · rw [if_neg (by omega)]
      exact ⟨rfl, fun hmax => h.bounded hmax q hq⟩
    · rw [modify_inst]
      by_cases heq : q = parent
      · subst heq
        rw [if_pos rfl, if_pos henc.symm]
        exact ⟨rfl, fun hmax => hroom hmax⟩
      · have hne : subclient id ≠ (s.inst q).id := by
          intro hsame
          exact heq (h.wf.id_inj q hq parent hparent (hsame.symm.trans henc.symm))
        rw [if_neg heq, if_neg hne]
        exact ⟨rfl, fun hmax => h.bounded hmax q hq⟩
  have hunder : ∀ k, t.listedUnder k = s.listedUnder k ∧ t.creating k = s.creating k := by
    intro k
    rw [listedUnder, listedUnder, creating, creating, hlists.1, hlists.2]
    simp only [(hbase _).1, and_self]
  have hold : ∀ q ∈ s.stratumInstances, r.inst q = t.inst q :=
    fun q hq => hinst q fun heq => hdead (heq ▸ hlists.1 ▸ hq)
  refine ⟨⟨hrwf, ?_, ?_, ?_⟩, ?_⟩
  · intro q hq
    by_cases heq : q = p
    · rw [heq, hself]
      exact hsmall
    · rw [hinst q heq, (hbase q).1]
      refine h.small q ?_
      rw [htable, hadding, hlists.1, hlists.2, ← List.append_assoc, List.mem_append,
        List.mem_singleton] at hq
      exact hq.resolve_right heq
  · intro q hq
    rw [htable, hlists.1] at hq
    have hcharge := h.charge q hq
    rw [hold q hq, (hcharged q hq).1, (hbase q).1, (hcounts _).1, (hcounts _).2, (hunder _).1,
      (hunder _).2]
    omega
  · intro hmax q hq
    rw [htable, hlists.1] at hq
    rw [hold q hq]
    exact (hcharged q hq).2 hmax
  · intro q hq hdropped hsub
    rw [htable, hlists.1] at hq ⊢
    rw [hold q hq, (hbase q).2] at hdropped
    rw [hold q hq, (hbase q).1] at hsub ⊢
    obtain ⟨parent, hparent, hsame⟩ := h.attended q hq hdropped hsub
    exact ⟨parent, hparent, by rw [hold parent hparent, (hbase parent).1, hsame]⟩

/-- A duplicate goes with its charge. -/
theorem insert_duplicate (h : Accounts c s) (hp : p ∈ s.adding)
    (hwf : Wf (killInstance { s.decSubclients (s.inst p).id with adding := s.adding.erase p } p)) :
    Accounts c (killInstance { s.decSubclients (s.inst p).id with adding := s.adding.erase p } p) := by
  have hdead := h.wf.not_mem_table hp
  set t := killInstance { s.decSubclients (s.inst p).id with adding := s.adding.erase p } p with ht
  have htable : t.stratumInstances = s.stratumInstances := by
    rw [ht, killInstance, decSubclients_rest]
  have hadding : t.adding = s.adding.erase p := rfl
  have hinst : ∀ r, r ≠ p → t.inst r = (s.decSubclients (s.inst p).id).inst r :=
    fun r hr => Function.update_of_ne hr ..
  have hid : ∀ r, r ≠ p →
      (t.inst r).id = (s.inst r).id ∧ (t.inst r).dropped = (s.inst r).dropped := by
    intro r hr
    obtain ⟨n, hn⟩ := decSubclients_inst s (s.inst p).id r
    rw [hinst r hr, hn]
    exact ⟨rfl, rfl⟩
  have hlive : ∀ r ∈ s.stratumInstances, r ≠ p := fun r hr heq => hdead (heq ▸ hr)
  have hflying : ∀ r ∈ s.adding.erase p, r ≠ p :=
    fun r hr => (h.wf.adding_nodup.mem_erase_iff.mp hr).1
  have hlisted : ∀ k, t.listedUnder k = s.listedUnder k := by
    intro k
    rw [listedUnder, listedUnder, htable]
    exact List.countP_congr fun r hr => by rw [(hid r (hlive r hr)).1]
  have hcreating : ∀ k,
      s.creating k = t.creating k + if subclient (s.inst p).id = k then 1 else 0 := by
    intro k
    rw [creating, (List.perm_cons_erase hp).countP_eq, List.countP_cons, creating, hadding]
    congr 1
    · exact List.countP_congr fun r hr => by rw [(hid r (hflying r hr)).1]
    · simp only [decide_eq_true_eq]
  have hcharged : ∀ r ∈ s.stratumInstances, (t.inst r).subclients =
      if (s.inst r).id = subclient (s.inst p).id then (s.inst r).subclients - 1
      else (s.inst r).subclients := by
    intro r hr
    rw [hinst r (hlive r hr), h.wf.decSubclients_subclients _ hr]
  refine ⟨h.giveBack (s.inst p).id hwf (fun r hr => htable ▸ hr)
    (fun r hr => List.mem_of_mem_erase hr) (fun r hr => ?_) (fun k => ?_)
    fun r hr => hcharged r (htable ▸ hr), ?_⟩
  · rw [htable, hadding, List.mem_append] at hr
    rcases hr with hr | hr
    · exact (hid r (hlive r hr)).1
    · exact (hid r (hflying r hr)).1
  · rw [hlisted, hcreating]
    omega
  · intro r hr hdropped hsub
    rw [htable] at hr ⊢
    rw [(hid r (hlive r hr)).2] at hdropped
    rw [(hid r (hlive r hr)).1] at hsub ⊢
    obtain ⟨parent, hparent, hsame⟩ := h.attended r hr hdropped hsub
    exact ⟨parent, hparent, by rw [(hid parent (hlive parent hparent)).1, hsame]⟩

/-- Listing an instance: of a parent that is listed, with nothing listed under it
yet.  A duplicate gives its charge back. -/
theorem stratumInsert (h : Accounts c s) (hp : p ∈ s.adding)
    (htended : s.instanceById (s.inst p).id = none →
      (subclient (s.inst p).id = 0 ∨ s.instanceById (subclient (s.inst p).id) ≠ none) ∧
        s.Unencoded (s.inst p).id)
    (ht : s.stratumInsert p = (t, q)) : Accounts c t := by
  have hwf := (h.wf.stratumInsert hp ht).1
  rw [InstanceData.stratumInsert] at ht
  rcases hold : s.instanceById (s.inst p).id with - | old
  · rw [hold] at ht
    obtain ⟨rfl, -⟩ := Prod.mk.inj ht
    obtain ⟨hparent, hunencoded⟩ := htended hold
    have hcount : ∀ k, InstanceData.listedUnder { s with
        adding := s.adding.erase p, stratumInstances := s.stratumInstances ++ [p] } k +
        InstanceData.creating { s with
          adding := s.adding.erase p, stratumInstances := s.stratumInstances ++ [p] } k =
        s.listedUnder k + s.creating k := by
      intro k
      have hperm := (List.perm_cons_erase hp).countP_eq fun q => subclient (s.inst q).id = k
      rw [List.countP_cons] at hperm
      rw [listedUnder, listedUnder, creating, creating, hperm]
      dsimp only
      rw [List.countP_append, List.countP_singleton]
      omega
    have hmem : ∀ r, r ∈ s.stratumInstances ++ [p] ↔ r ∈ s.stratumInstances ∨ r = p := by
      intro r
      rw [List.mem_append, List.mem_singleton]
    obtain ⟨id, sessionId, server, hrecruited⟩ := h.wf.recruited p hp
    refine ⟨⟨hwf, ?_, ?_, ?_⟩, ?_⟩
    · intro r hr
      dsimp only at hr ⊢
      refine h.small r ?_
      rw [List.mem_append, hmem] at hr
      rcases hr with (hr | rfl) | hr
      · exact List.mem_append_left _ hr
      · exact List.mem_append_right _ hp
      · exact List.mem_append_right _ (List.mem_of_mem_erase hr)
    · intro r hr
      rw [hcount]
      rcases (hmem r).mp hr with hr | rfl
      · exact h.charge r hr
      · -- the new instance has no account yet
        show (s.inst r).subclients = s.listedUnder (s.inst r).id + s.creating (s.inst r).id
        have hlisted : s.listedUnder (s.inst r).id = 0 := List.countP_eq_zero.mpr fun q hq => by
          rw [decide_eq_true_eq]
          exact hunencoded q (List.mem_append_left _ hq)
        have hflight : s.creating (s.inst r).id = 0 := List.countP_eq_zero.mpr fun q hq => by
          rw [decide_eq_true_eq]
          exact hunencoded q (List.mem_append_right _ hq)
        rw [hlisted, hflight, hrecruited]
        rfl
    · intro hmax r hr
      rcases (hmem r).mp hr with hr | rfl
      · exact h.bounded hmax r hr
      · show (s.inst r).subclients ≤ c.maxsubclients
        rw [hrecruited]
        exact Nat.zero_le _
    · intro r hr hdropped hsub
      rcases (hmem r).mp hr with hr | rfl
      · obtain ⟨parent, hlive, hid⟩ := h.attended r hr hdropped hsub
        exact ⟨parent, (hmem parent).mpr (Or.inl hlive), hid⟩
      · obtain ⟨parent, hsome⟩ := Option.ne_none_iff_exists'.mp (hparent.resolve_left hsub)
        obtain ⟨hlive, hid⟩ := instanceById_mem hsome
        exact ⟨parent, (hmem parent).mpr (Or.inl hlive), hid⟩
  · rw [hold] at ht
    obtain ⟨rfl, -⟩ := Prod.mk.inj ht
    have hdec : InstanceData.decSubclients { s with adding := s.adding.erase p } (s.inst p).id =
        { s.decSubclients (s.inst p).id with adding := s.adding.erase p } := by
      rw [decSubclients, decSubclients]
      by_cases hown : subclient (s.inst p).id = 0
      · rw [if_pos hown, if_pos hown]
      · rw [if_neg hown, if_neg hown]
        have hsame : InstanceData.instanceById { s with adding := s.adding.erase p }
            (subclient (s.inst p).id) = s.instanceById (subclient (s.inst p).id) := rfl
        rw [hsame]
        rcases s.instanceById (subclient (s.inst p).id) with - | parent <;> rfl
    rw [hdec] at hwf ⊢
    exact h.insert_duplicate hp hwf

end Accounts

/-! ### Events -/

namespace Accounts

variable {p : Nat}

/-- A channel's instance has no parent to be charged. -/
theorem sv2AddInstance (h : Accounts c s) {id server : Nat} (hid : 0 < id) (hsmall : id < 2 ^ 63)
    (hown : subclient id = 0) (hunencoded : s.Unencoded id)
    (ht : s.sv2AddInstance c id server = (t, p)) : Accounts c t := by
  have hwf := (h.wf.sv2AddInstance hid ht).1
  rw [InstanceData.sv2AddInstance] at ht
  dsimp only at ht
  have hnextwf : Wf s.nextEnonce1 :=
    h.wf.congr rfl rfl rfl rfl (fun _ _ => rfl) (fun _ _ => rfl) h.wf.job
  have hnext : Accounts c s.nextEnonce1 := h.spares (Spares.of_inst rfl rfl rfl) hnextwf
  rcases hrec : s.nextEnonce1.stratumRecruit id server with ⟨r, a⟩
  obtain ⟨hrwf, hadd, htable, hinst, hdead, sessionId, hself⟩ := hnextwf.stratumRecruit hid hrec
  have hok : s.nextEnonce1.subclientCreateOk c id false false = some s.nextEnonce1 := if_pos hown
  have hr := hnext.stratumRecruit hid hsmall hok hrec
  rw [hrec] at ht
  dsimp only at ht
  rcases hins : r.stratumInsert a with ⟨r', b⟩
  have haid : (r.inst a).id = id := by rw [hself]; rfl
  have hr' := hr.stratumInsert hadd (fun _ => ⟨Or.inl (haid ▸ hown), fun q hq => ?_⟩) hins
  · rw [hins] at ht
    obtain ⟨rfl, rfl⟩ := Prod.mk.inj ht
    exact hr'.spares (Spares.modify r' b rfl rfl fun hd => hd) hwf
  · rw [haid]
    by_cases heq : q = a
    · rw [heq, haid, hown]
      exact hid.ne
    · rw [hinst q heq]
      refine hunencoded q ?_
      rw [htable, stratumRecruit_adding hrec, ← List.append_assoc, List.mem_append,
        List.mem_singleton] at hq
      exact hq.resolve_right heq

theorem sv2OpenSession (h : Accounts c s) {id : Nat} (server now : Nat) (userIdentity : Bytes)
    (hid : 0 < id) (hsmall : id < 2 ^ 63) (hown : subclient id = 0) (hunencoded : s.Unencoded id) :
    Accounts c (s.sv2OpenSession c id server now userIdentity) := by
  rcases hadd : s.sv2AddInstance c id server with ⟨t, p⟩
  obtain ⟨ht, hp, hheld⟩ := h.wf.sv2AddInstance hid hadd
  obtain ⟨r, heq, hw, hcases⟩ := sv2OpenSession_cases now userIdentity hadd
  have hspares : Spares t r := by
    rcases hcases with ⟨-, rfl⟩ | ⟨r', u, hgen, ⟨-, rfl⟩ | ⟨-, rfl⟩⟩
    · exact Spares.markDropped t p
    · exact ((Spares.generateUser hgen).trans (Spares.setWorkername r' p _)).trans
        (Spares.markDropped _ p)
    · exact ((Spares.generateUser hgen).trans (Spares.setWorkername r' p _)).trans
        (Spares.clientAuth _ p u now true)
  rw [heq]
  exact ((h.sv2AddInstance hid hsmall hown hunencoded hadd).spares hspares
    (ht.writes hw hp)).decInstanceRef (hw.held hheld)

/-- **Every event that meets the condition keeps the accounts.** -/
theorem step (h : Accounts c s) {e : InstanceEvent} (htended : s.Tended e) :
    Accounts c (s.step c e) := by
  have hwf := h.wf.step (c := c) e
  have hdoes := step_does c s e
  generalize s.step c e = t at hwf hdoes ⊢
  cases hdoes with
  | idle => exact h
  | recruit server hid hok => exact h.stratumRecruit hid htended hok rfl
  | insert hadd hins => exact h.stratumInsert hadd (htended hadd) hins
  | receive hadd hins =>
    exact (h.stratumInsert hadd (htended hadd) hins).spares
      (Spares.modify _ _ rfl rfl fun hd => hd) hwf
  | leaves => exact h.dropClient _ _
  | subscribe params =>
    exact h.spares (Spares.of_subscribes (Subscribes.parseSubscribe s c _ params)) hwf
  | remote hheld =>
    obtain ⟨hadded, hheld'⟩ := h.wf.addRemoteServer_held (h.wf.live_of_held hheld)
    exact (h.spares (Spares.addRemoteServer s _) hadded).decInstanceRef hheld'
  | node => exact h.spares (Spares.addMiningNode s _) hwf
  | takes | passthrough | share | iterUnref =>
    exact h.spares (Spares.modify s _ rfl rfl fun hd => hd) hwf
  | asks => exact h.spares (Spares.of_inst rfl rfl rfl) hwf
  | trusted msg => exact h.spares (Spares.parseTrustedMsg s c _ msg) hwf
  | release hheld => exact h.decInstanceRef hheld
  | lazyDrop => exact h.spares (Spares.markDropped s _) hwf
  | preauth => exact h.spares (Spares.preauth s) hwf
  | authorise now => exact h.spares (Spares.sauthProcess s c now) hwf
  | dropClient id now => exact h.dropClient id now
  | dropAllclients => exact h.dropAllclients
  | requestReconnect => exact h.spares (Spares.requestReconnect s) hwf
  | sv2Open server now userIdentity hid =>
    obtain ⟨hsmall, hown, hunencoded⟩ := htended
    exact h.sv2OpenSession server now _ hid.1 hsmall hown hunencoded
  | sv2Close id => exact h.sv2CloseSession id

theorem start (c : InstanceConf) (loaded : LoadedUsers) (randomiser : Nat) :
    Accounts c (InstanceData.start loaded randomiser) where
  wf := Wf.start loaded randomiser
  small := nofun
  charge := nofun
  bounded _ := nofun
  attended := nofun

end Accounts

end InstanceData

/-! ### Subclients -/

/-- **In every run whose steps list no subclient of a parent that has gone, and no
parent of subclients it does not know, the accounts of the parents are right**: each is
charged with the instances listed and in flight under it, within the limit, and a parent
that is gone leaves no subclient that stays. -/
theorem parents_accounted (c : InstanceConf) (loaded : LoadedUsers) (randomiser : Nat)
    (events : List InstanceEvent)
    (htended : Along (InstanceData.step c) InstanceData.Tended
      (InstanceData.start loaded randomiser) events) :
    (run (InstanceData.step c) (InstanceData.start loaded randomiser) events).Accounted c :=
  (run_invariant (I := InstanceData.Accounts c) (fun _ _ he h => h.step he) htended
    (InstanceData.Accounts.start c loaded randomiser)).accounted

/-- A pool whose server 3 takes passthroughs, with room for two subclients each. -/
def relayConf : InstanceConf :=
  { exampleConf with passthroughserver := fun server => server == 3, maxsubclients := 2 }

/-- A passthrough, on memory 0, that two receivers charge with the same subclient. -/
def relayed : List InstanceEvent :=
  connect 7 3 0 ++ [.message 0 0 .passthrough, .recruit (7 <<< 32 ||| 1) 3 true false,
    .recruit (7 <<< 32 ||| 1) 3 true false]

/-- The passthrough goes when the one subclient is listed and the duplicate is gone. -/
theorem relayed_accounted :
    (run (InstanceData.step relayConf) (InstanceData.start noUsers 0) (relayed ++
      [.insert 1, .insert 2, .release 1, .release 1, .release 0, .dropClient 7 0])).Accounted
      relayConf :=
  parents_accounted relayConf noUsers 0 _ (by decide)

/-- When it goes before, its subclient is listed without it, and stays. -/
theorem relayed_orphan :
    ¬∀ (c : InstanceConf) (loaded : LoadedUsers) (randomiser : Nat) (events : List InstanceEvent),
      (run (InstanceData.step c) (InstanceData.start loaded randomiser) events).Accounted c := by
  intro h
  have haccounted := h relayConf noUsers 0
    (relayed ++ [.release 0, .dropClient 7 0, .insert 1, .insert 2])
  have hgone := haccounted.gone 7 (by decide) (by decide) (by decide) 1
    (by decide) (by decide)
  revert hgone
  decide

end CashStratum
