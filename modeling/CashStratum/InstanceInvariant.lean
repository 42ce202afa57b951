/-
CashStratum/InstanceInvariant.lean

What every run of the stratifier keeps of its instances (`Wf`): the hash, the
instances being added and the recycled ones are different memory, what is in none of
them is zeroed, no two live instances have one id, and the request the authoriser is
at holds a reference.

One lemma for each operation, first on what it changes, then that it keeps the
state well formed.
-/
import CashStratum.Stratifier

namespace CashStratum

open Function

namespace InstanceData

variable {s t : InstanceData} {p q : Nat} {f : ClientInstance → ClientInstance}

/-! ### Writes -/

theorem modify_inst (s : InstanceData) (p q : Nat) (f : ClientInstance → ClientInstance) :
    (s.modify p f).inst q = if q = p then f (s.inst p) else s.inst q :=
  update_apply ..

@[simp] theorem modify_inst_self : (s.modify p f).inst p = f (s.inst p) :=
  update_self ..

theorem modify_inst_ne (h : q ≠ p) : (s.modify p f).inst q = s.inst q :=
  update_of_ne h ..

theorem modifyUser_user (s : InstanceData) (u v : Bytes) (g : UserInstance → UserInstance) :
    (s.modifyUser u g).user v = if v = u then g (s.user u) else s.user v :=
  update_apply ..

@[simp] theorem modifyUser_inst (s : InstanceData) (u : Bytes) (g : UserInstance → UserInstance) :
    (s.modifyUser u g).inst = s.inst := rfl

theorem clientAuth_inst (s : InstanceData) (p : Nat) (u : Bytes) (now : Nat) (ret : Bool) :
    (s.clientAuth p u now ret).inst p =
      if ret then { s.inst p with authorised := true, authorising := false }
      else { s.inst p with reject := 3, authorising := false } := by
  rw [clientAuth]
  split_ifs
  · rw [modifyUser_inst, modify_inst_self]
  · rw [modifyUser_inst, modify_inst_self]

/-- `__dec_subclients` writes to one instance at most, and only its count. -/
theorem decSubclients_cases (s : InstanceData) (id : Nat) :
    s.decSubclients id = s ∨ ∃ parent ∈ s.stratumInstances,
      s.decSubclients id = s.modify parent fun i => { i with subclients := i.subclients - 1 } := by
  rw [decSubclients]
  by_cases h : subclient id = 0
  · rw [if_pos h]
    exact Or.inl rfl
  · rw [if_neg h]
    rcases hparent : s.instanceById (subclient id) with - | parent
    · exact Or.inl rfl
    · exact Or.inr ⟨parent, List.mem_of_find?_eq_some hparent, rfl⟩

theorem decSubclients_inst (s : InstanceData) (id q : Nat) :
    ∃ n, (s.decSubclients id).inst q = { s.inst q with subclients := n } := by
  rcases decSubclients_cases s id with h | ⟨parent, -, h⟩
  · exact ⟨(s.inst q).subclients, by rw [h]⟩
  · rw [h, modify_inst]
    by_cases hq : q = parent
    · subst hq
      rw [if_pos rfl]
      exact ⟨_, rfl⟩
    · rw [if_neg hq]
      exact ⟨(s.inst q).subclients, rfl⟩

theorem decSubclients_inst_dead (id : Nat) (hq : q ∉ s.stratumInstances) :
    (s.decSubclients id).inst q = s.inst q := by
  rcases decSubclients_cases s id with h | ⟨parent, hparent, h⟩
  · rw [h]
  · rw [h, modify_inst_ne]
    rintro rfl
    exact hq hparent

/-- Everything but the instances. -/
theorem decSubclients_rest (s : InstanceData) (id : Nat) :
    s.decSubclients id = { s with inst := (s.decSubclients id).inst } := by
  rcases decSubclients_cases s id with h | ⟨parent, -, h⟩
  · rw [h]
  · rw [h]
    rfl

/-! ### Taking an instance out -/

/-- `__del_client` and `__kill_instance`, all but the instances and the client's
user. -/
theorem reap_rest (s : InstanceData) (p : Nat) :
    s.reap p =
      { s with
        inst := (s.reap p).inst
        stratumInstances := s.stratumInstances.erase p
        recycledInstances := s.recycledInstances ++ [p]
        user := (s.reap p).user
        stats := (s.reap p).stats } := by
  have hdec := decSubclients_rest s (s.inst p).id
  rw [reap, delClient]
  rcases (s.inst p).userInstance with - | u
  · simp only [killInstance]
    rw [hdec]
  · simp only [killInstance, detach, decWorker, modifyUser]
    rw [hdec]

@[simp] theorem reap_stratumInstances : (s.reap p).stratumInstances = s.stratumInstances.erase p := by
  rw [reap_rest]

theorem delClient_inst (s : InstanceData) (p : Nat) :
    (s.delClient p).inst = (s.decSubclients (s.inst p).id).inst := by
  rw [delClient]
  rcases (s.inst p).userInstance with - | u <;> rfl

@[simp] theorem reap_inst_self : (s.reap p).inst p = {} := update_self ..

theorem reap_inst_ne (h : q ≠ p) : ∃ n, (s.reap p).inst q = { s.inst q with subclients := n } := by
  obtain ⟨n, hn⟩ := decSubclients_inst s (s.inst p).id q
  refine ⟨n, ?_⟩
  rw [reap, killInstance]
  show update (s.delClient p).inst p {} q = _
  rw [update_of_ne h, delClient_inst, hn]

theorem reap_inst_dead (hq : q ∉ s.stratumInstances) (h : q ≠ p) : (s.reap p).inst q = s.inst q := by
  rw [reap, killInstance]
  show update (s.delClient p).inst p {} q = _
  rw [update_of_ne h, delClient_inst, decSubclients_inst_dead _ hq]

theorem detach_user (s : InstanceData) (p : Nat) (u v : Bytes) :
    (s.detach p u).user v =
      if v = u then
        UserInstance.decWorker { s.user u with clients := (s.user u).clients.erase p }
          (s.inst p).workerInstance
      else s.user v := by
  show update (update s.user u _) u _ v = _
  by_cases hv : v = u
  · subst hv
    rw [if_pos rfl, update_self]
    show UserInstance.decWorker (update s.user v _ v) _ = _
    rw [update_self]
  · rw [if_neg hv, update_of_ne hv, update_of_ne hv]

/-- The user of the client loses it; the others are as before. -/
theorem reap_user (s : InstanceData) (p : Nat) (u : Bytes) :
    (s.reap p).user u =
      if (s.inst p).userInstance = some u then
        UserInstance.decWorker { s.user u with clients := (s.user u).clients.erase p }
          (s.inst p).workerInstance
      else s.user u := by
  have hdec := congrArg InstanceData.user (decSubclients_rest s (s.inst p).id)
  obtain ⟨n, hn⟩ := decSubclients_inst s (s.inst p).id p
  rw [reap, delClient]
  rcases huser : (s.inst p).userInstance with - | v
  · rw [if_neg nofun]
    show (s.decSubclients (s.inst p).id).user u = _
    rw [hdec]
  · show (detach _ p v).user u = _
    rw [detach_user]
    show (if u = v then UserInstance.decWorker
      { (s.decSubclients (s.inst p).id).user v with
        clients := ((s.decSubclients (s.inst p).id).user v).clients.erase p }
      ((s.decSubclients (s.inst p).id).inst p).workerInstance
      else (s.decSubclients (s.inst p).id).user u) = _
    rw [hn, hdec]
    by_cases hu : u = v
    · subst hu
      rw [if_pos rfl, if_pos rfl]
    · rw [if_neg hu, if_neg fun h => hu (Option.some.inj h).symm]

theorem reap_stats_workers (s : InstanceData) (p : Nat) :
    (s.reap p).stats.workers =
      if (s.inst p).userInstance.isSome ∧ 0 < s.stats.workers then s.stats.workers - 1
      else s.stats.workers := by
  have hdec := congrArg InstanceData.stats (decSubclients_rest s (s.inst p).id)
  rw [reap, delClient]
  rcases huser : (s.inst p).userInstance with - | v
  · show (s.decSubclients (s.inst p).id).stats.workers = _
    rw [hdec, if_neg (by simp)]
  · show (if 0 < (s.decSubclients (s.inst p).id).stats.workers then
      (s.decSubclients (s.inst p).id).stats.workers - 1
      else (s.decSubclients (s.inst p).id).stats.workers) = _
    rw [hdec]
    simp

theorem mem_dropOne_of_ne (h : q ≠ p) (hq : q ∈ s.stratumInstances) :
    q ∈ (s.dropOne p).stratumInstances := by
  rw [dropOne]
  split_ifs
  · rw [reap_stratumInstances]
    exact (List.mem_erase_of_ne h).mpr hq
  · exact hq

/-- **The rule for loops that drop instances.**  Each selected instance is still
live when the loop comes to it. -/
theorem dropEach_induction {P : InstanceData → Prop} {select : ClientInstance → Bool}
    (hnodup : s.stratumInstances.Nodup) (hs : P s)
    (hstep : ∀ t p, P t → p ∈ t.stratumInstances → select (t.inst p) → P (t.dropOne p)) :
    P (s.dropEach select) := by
  suffices h : ∀ (todo : List Nat) (t : InstanceData), todo.Nodup →
      (∀ q ∈ todo, q ∈ t.stratumInstances) → P t →
      P (todo.foldl (fun t p => if select (t.inst p) then t.dropOne p else t) t) from
    h _ s hnodup (fun _ hq => hq) hs
  intro todo
  induction todo with
  | nil => exact fun t _ _ ht => ht
  | cons p todo ih =>
    intro t hnodup hlive ht
    rw [List.nodup_cons] at hnodup
    have hp := hlive p List.mem_cons_self
    by_cases hsel : select (t.inst p)
    · show P (todo.foldl _ (if select (t.inst p) then t.dropOne p else t))
      rw [if_pos hsel]
      refine ih _ hnodup.2 (fun q hq => ?_) (hstep t p ht hp hsel)
      have hne : q ≠ p := fun h => hnodup.1 (h ▸ hq)
      exact mem_dropOne_of_ne hne (hlive q (List.mem_cons_of_mem _ hq))
    · show P (todo.foldl _ (if select (t.inst p) then t.dropOne p else t))
      rw [if_neg hsel]
      exact ih _ hnodup.2 (fun q hq => hlive q (List.mem_cons_of_mem _ hq)) ht

/-! ### Well-formed states -/

end InstanceData

/-- An instance as `__stratum_add_instance` fills it in. -/
def ClientInstance.recruited (id sessionId server : Nat) : ClientInstance := { id, sessionId, server }

namespace InstanceData

/-- Live, added and recycled instances are different memory; everything else is
zeroed; ids are unique; the authoriser holds a reference. -/
structure Wf (s : InstanceData) : Prop where
  nodup : (s.stratumInstances ++ s.adding ++ s.recycledInstances).Nodup
  generated : ∀ p ∈ s.stratumInstances ++ s.adding ++ s.recycledInstances, p < s.stratumGenerated
  blank : ∀ p, p ∉ s.stratumInstances → p ∉ s.adding → s.inst p = {}
  recruited : ∀ p ∈ s.adding, ∃ id sessionId server, s.inst p = .recruited id sessionId server
  id_pos : ∀ p ∈ s.stratumInstances ++ s.adding, 0 < (s.inst p).id
  id_inj : ∀ p ∈ s.stratumInstances, ∀ q ∈ s.stratumInstances, (s.inst p).id = (s.inst q).id → p = q
  job : ∀ p params, s.authjob = some (p, params) → 0 < (s.inst p).ref

namespace Wf

variable {s t : InstanceData} {p q : Nat} {f : ClientInstance → ClientInstance}

theorem table_nodup (h : Wf s) : s.stratumInstances.Nodup :=
  (List.nodup_append.mp (List.nodup_append.mp h.nodup).1).1

/-- An instance that is not live has nothing but what it was recruited with. -/
theorem dead (h : Wf s) (hp : p ∉ s.stratumInstances) :
    ∃ id sessionId server, s.inst p = .recruited id sessionId server := by
  by_cases hadd : p ∈ s.adding
  · exact h.recruited p hadd
  · exact ⟨0, 0, 0, h.blank p hp hadd⟩

theorem live_of_ref (h : Wf s) (hp : 0 < (s.inst p).ref) : p ∈ s.stratumInstances := by
  by_contra hdead
  obtain ⟨id, sessionId, server, hinst⟩ := h.dead hdead
  rw [hinst] at hp
  exact absurd hp (by decide : ¬0 < 0)

theorem not_mem_adding (h : Wf s) (hp : p ∈ s.stratumInstances) : p ∉ s.adding := by
  intro hadd
  exact (List.nodup_append.mp (List.nodup_append.mp h.nodup).1).2.2 p hp p hadd rfl

/-- Writes to live instances that keep their ids. -/
theorem congr (h : Wf s) (htable : t.stratumInstances = s.stratumInstances)
    (hadding : t.adding = s.adding) (hrecycled : t.recycledInstances = s.recycledInstances)
    (hgenerated : t.stratumGenerated = s.stratumGenerated)
    (hlive : ∀ p ∈ s.stratumInstances, (t.inst p).id = (s.inst p).id)
    (hdead : ∀ p, p ∉ s.stratumInstances → t.inst p = s.inst p)
    (hjob : ∀ p params, t.authjob = some (p, params) → 0 < (t.inst p).ref) : Wf t where
  nodup := by
    rw [htable, hadding, hrecycled]
    exact h.nodup
  generated := by
    rw [htable, hadding, hrecycled, hgenerated]
    exact h.generated
  blank p hp hadd := by
    rw [htable] at hp
    rw [hadding] at hadd
    rw [hdead p hp, h.blank p hp hadd]
  recruited p hp := by
    rw [hadding] at hp
    rw [hdead p fun hlive => h.not_mem_adding hlive hp]
    exact h.recruited p hp
  id_pos p hp := by
    rw [htable, hadding] at hp
    have hpos := h.id_pos p hp
    by_cases hmem : p ∈ s.stratumInstances
    · rwa [hlive p hmem]
    · rwa [hdead p hmem]
  id_inj p hp q hq heq := by
    rw [htable] at hp hq
    rw [hlive p hp, hlive q hq] at heq
    exact h.id_inj p hp q hq heq
  job := hjob

theorem modify (h : Wf s) (hp : p ∈ s.stratumInstances) (hid : (f (s.inst p)).id = (s.inst p).id)
    (href : ∀ params, s.authjob = some (p, params) → 0 < (f (s.inst p)).ref) :
    Wf (s.modify p f) := by
  refine h.congr rfl rfl rfl rfl ?_ ?_ ?_
  · intro q _
    rw [modify_inst]
    split_ifs with hq
    · rw [hid, hq]
    · rfl
  · intro q hq
    exact modify_inst_ne fun heq => hq (heq ▸ hp)
  · intro q params hjob
    rw [modify_inst]
    split_ifs with hq
    · exact href params (hq ▸ hjob)
    · exact h.job q params hjob

/-- Writes that keep id and references. -/
theorem modify_of_ref (h : Wf s) (hp : p ∈ s.stratumInstances)
    (hid : (f (s.inst p)).id = (s.inst p).id) (href : (s.inst p).ref ≤ (f (s.inst p)).ref) :
    Wf (s.modify p f) :=
  h.modify hp hid fun params hjob => Nat.lt_of_lt_of_le (h.job p params hjob) href

/-! ### Drop paths -/

theorem reap (h : Wf s) (hp : p ∈ s.stratumInstances) (href : (s.inst p).ref = 0) :
    Wf (s.reap p) := by
  have hperm : (s.stratumInstances.erase p ++ s.adding ++ (s.recycledInstances ++ [p])).Perm
      (s.stratumInstances ++ s.adding ++ s.recycledInstances) := by
    rw [← List.append_assoc]
    refine (List.perm_append_singleton p _).trans ?_
    rw [List.append_assoc, List.append_assoc, ← List.cons_append]
    exact (List.perm_cons_erase hp).symm.append_right _
  have hmem : ∀ q, q ∈ s.stratumInstances.erase p ↔ q ≠ p ∧ q ∈ s.stratumInstances :=
    fun q => h.table_nodup.mem_erase_iff
  have hne : ∀ q ∈ s.adding, q ≠ p := fun q hq heq => h.not_mem_adding hp (heq ▸ hq)
  have hid : ∀ q, q ≠ p → ((s.reap p).inst q).id = (s.inst q).id := by
    intro q hq
    obtain ⟨n, hn⟩ := reap_inst_ne (s := s) hq
    rw [hn]
  have hrest := reap_rest s p
  constructor
  · rw [hrest]
    exact hperm.nodup_iff.mpr h.nodup
  · rw [hrest]
    exact fun q hq => h.generated q (hperm.mem_iff.mp hq)
  · intro q hq hadd
    rw [reap_stratumInstances, hmem, not_and] at hq
    by_cases heq : q = p
    · rw [heq, reap_inst_self]
    · rw [reap_inst_dead (hq heq) heq]
      rw [hrest] at hadd
      exact h.blank q (hq heq) hadd
  · intro q hq
    rw [hrest] at hq
    rw [reap_inst_dead (fun hlive => h.not_mem_adding hlive hq) (hne q hq)]
    exact h.recruited q hq
  · intro q hq
    rw [hrest, List.mem_append] at hq
    rcases hq with hq | hq
    · rw [hid q ((hmem q).mp hq).1]
      exact h.id_pos q (List.mem_append_left _ ((hmem q).mp hq).2)
    · rw [hid q (hne q hq)]
      exact h.id_pos q (List.mem_append_right _ hq)
  · intro q hq r hr heq
    rw [reap_stratumInstances, hmem] at hq hr
    rw [hid q hq.1, hid r hr.1] at heq
    exact h.id_inj q hq.2 r hr.2 heq
  · intro q params hjob
    rw [hrest] at hjob
    have hpos := h.job q params hjob
    have hq : q ≠ p := by
      rintro rfl
      omega
    obtain ⟨n, hn⟩ := reap_inst_ne (s := s) hq
    rwa [hn]

theorem dropOne (h : Wf s) (hp : p ∈ s.stratumInstances) : Wf (s.dropOne p) := by
  rw [InstanceData.dropOne]
  split_ifs with href
  · exact h.reap hp href
  · exact h.modify_of_ref hp rfl le_rfl

theorem dropEach (h : Wf s) (select : ClientInstance → Bool) : Wf (s.dropEach select) :=
  dropEach_induction h.table_nodup h fun _ _ ht hp _ => ht.dropOne hp

/-- No instance is its own subclient. -/
theorem subclient_ne (h : Wf s) (hp : p ∈ s.stratumInstances) :
    subclient (s.inst p).id ≠ (s.inst p).id := by
  have hpos := h.id_pos p (List.mem_append_left _ hp)
  rw [subclient, Nat.shiftRight_eq_div_pow]
  exact (Nat.div_lt_self hpos (by decide)).ne

/-- The parent is not among its subclients: it stays while they are dropped. -/
theorem dropSubclients_self (h : Wf s) (hp : p ∈ s.stratumInstances) :
    p ∈ (s.dropSubclients (s.inst p).id).stratumInstances ∧
      ∃ n, (s.dropSubclients (s.inst p).id).inst p = { s.inst p with subclients := n } := by
  have hself := h.subclient_ne hp
  refine dropEach_induction
    (P := fun t => p ∈ t.stratumInstances ∧ ∃ n, t.inst p = { s.inst p with subclients := n })
    h.table_nodup ⟨hp, (s.inst p).subclients, rfl⟩ ?_
  rintro t q ⟨hpt, n, hn⟩ - hsel
  have hne : p ≠ q := by
    rintro rfl
    rw [hn, beq_iff_eq] at hsel
    exact hself hsel
  refine ⟨mem_dropOne_of_ne hne hpt, ?_⟩
  rw [InstanceData.dropOne]
  split_ifs
  · obtain ⟨m, hm⟩ := reap_inst_ne (s := t) hne
    exact ⟨m, by rw [hm, hn]⟩
  · exact ⟨n, by rw [modify_inst_ne hne, hn]⟩

theorem unlink (h : Wf s) (p : Nat) : Wf (s.unlink p) := by
  rw [InstanceData.unlink]
  split_ifs
  · exact h.congr rfl rfl rfl rfl (fun _ _ => rfl) (fun _ _ => rfl) h.job
  · exact h.congr rfl rfl rfl rfl (fun _ _ => rfl) (fun _ _ => rfl) h.job
  · exact h

theorem unlink_inst (s : InstanceData) (p : Nat) :
    (s.unlink p).inst = s.inst ∧ (s.unlink p).stratumInstances = s.stratumInstances := by
  rw [InstanceData.unlink]
  split_ifs <;> exact ⟨rfl, rfl⟩

theorem dropClientLocked (h : Wf s) (hp : p ∈ s.stratumInstances) (href : (s.inst p).ref = 0) :
    Wf (s.dropClientLocked p) := by
  rw [InstanceData.dropClientLocked]
  split_ifs with hsub
  · obtain ⟨hlive, n, hn⟩ := h.dropSubclients_self hp
    refine ((h.dropEach _).unlink p).reap ?_ ?_
    · rw [(unlink_inst _ p).2]
      exact hlive
    · rw [(unlink_inst _ p).1]
      show ((s.dropSubclients (s.inst p).id).inst p).ref = 0
      rw [hn, href]
  · refine (h.unlink p).reap ?_ ?_
    · rwa [(unlink_inst _ p).2]
    · rwa [(unlink_inst _ p).1]

theorem ref_of_held (hheld : s.Held p) : 0 < (s.inst p).ref :=
  Nat.lt_of_le_of_lt (Nat.zero_le _) hheld

theorem live_of_held (h : Wf s) (hheld : s.Held p) : p ∈ s.stratumInstances :=
  h.live_of_ref (ref_of_held hheld)

/-- Giving back a reference that is not the authoriser's. -/
theorem unref (h : Wf s) (hheld : s.Held p) : Wf (s.modify p fun i => { i with ref := i.ref - 1 }) := by
  refine h.modify (h.live_of_held hheld) rfl fun params hjob => ?_
  rw [Held, hjob] at hheld
  simp only [Option.map_some, if_true] at hheld
  show 0 < (s.inst p).ref - 1
  omega

theorem decInstanceRef (h : Wf s) (hheld : s.Held p) : Wf (s.decInstanceRef p) := by
  rw [InstanceData.decInstanceRef]
  split_ifs with hdrop
  · exact (h.unref hheld).dropClientLocked (h.live_of_held hheld) hdrop.2
  · exact h.unref hheld

theorem disconnectSession (h : Wf s) (p now : Nat) : Wf (s.disconnectSession p now) := by
  rw [InstanceData.disconnectSession]
  split_ifs
  · exact h.congr rfl rfl rfl rfl (fun _ _ => rfl) (fun _ _ => rfl) h.job
  · exact h.congr rfl rfl rfl rfl (fun _ _ => rfl) (fun _ _ => rfl) h.job

end Wf

theorem instanceById_mem {s : InstanceData} {id p : Nat} (h : s.instanceById id = some p) :
    p ∈ s.stratumInstances ∧ (s.inst p).id = id := by
  have hid := List.find?_some h
  exact ⟨List.mem_of_find?_eq_some h, of_decide_eq_true hid⟩

/-- Creating a subclient is charged to its parent; nothing else changes. -/
theorem subclientCreateOk_cases {s t : InstanceData} {c : InstanceConf} {id : Nat}
    {creates tooFast : Bool} (hok : s.subclientCreateOk c id creates tooFast = some t) :
    t = s ∨ ∃ parent ∈ s.stratumInstances,
      t = s.modify parent fun i => { i with subclients := i.subclients + 1 } := by
  rw [subclientCreateOk] at hok
  by_cases hown : subclient id = 0
  · rw [if_pos hown] at hok
    exact Or.inl (Option.some.inj hok).symm
  · rw [if_neg hown] at hok
    rcases hparent : s.instanceById (subclient id) with - | parent
    · rw [hparent] at hok
      cases hok
    · rw [hparent] at hok
      dsimp only at hok
      split_ifs at hok
      exact Or.inr ⟨parent, (instanceById_mem hparent).1, (Option.some.inj hok).symm⟩

theorem disconnectSession_rest (s : InstanceData) (p now : Nat) :
    s.disconnectSession p now =
      { s with disconnectedSessions := (s.disconnectSession p now).disconnectedSessions } := by
  rw [disconnectSession]
  split_ifs <;> rfl

namespace Wf

variable {s t : InstanceData} {p q : Nat} {f : ClientInstance → ClientInstance}

theorem dropClient (h : Wf s) (id now : Nat) : Wf (s.dropClient id now) := by
  rw [InstanceData.dropClient]
  rcases hid : s.instanceById id with - | p
  · exact h
  · have hp := (instanceById_mem hid).1
    have hdis := h.disconnectSession p now
    have hrest := disconnectSession_rest s p now
    have hlive : p ∈ (s.disconnectSession p now).stratumInstances := by
      rw [hrest]
      exact hp
    show Wf (if ((s.disconnectSession p now).inst p).ref = 0 then _ else _)
    split_ifs with href
    · exact hdis.dropClientLocked hlive href
    · exact hdis.modify_of_ref hlive rfl le_rfl

theorem dropAllclients (h : Wf s) : Wf s.dropAllclients := by
  have hdrop := h.dropEach fun _ => true
  rw [InstanceData.dropAllclients]
  show Wf (if (s.dropEach fun _ => true).stratumInstances = [] then _ else _)
  split_ifs
  · exact hdrop.congr rfl rfl rfl rfl (fun _ _ => rfl) (fun _ _ => rfl) hdrop.job
  · exact hdrop

theorem requestReconnect (h : Wf s) : Wf s.requestReconnect := by
  have hinst : ∀ q, (s.requestReconnect.inst q).id = (s.inst q).id ∧
      (s.requestReconnect.inst q).ref = (s.inst q).ref := by
    intro q
    rw [InstanceData.requestReconnect]
    dsimp only
    split_ifs <;> exact ⟨rfl, rfl⟩
  refine h.congr rfl rfl rfl rfl (fun q _ => (hinst q).1) (fun q hq => if_neg hq) ?_
  intro q params hjob
  rw [(hinst q).2]
  exact h.job q params hjob

/-! ### Adding an instance -/

theorem subclientCreateOk (h : Wf s) {c : InstanceConf} {id : Nat} {creates tooFast : Bool}
    (hok : s.subclientCreateOk c id creates tooFast = some t) : Wf t := by
  rcases subclientCreateOk_cases hok with rfl | ⟨parent, hparent, rfl⟩
  · exact h
  · exact h.modify_of_ref hparent rfl le_rfl

end Wf

/-- What recruiting gives: memory that nobody uses, out of the recycled pool or
fresh. -/
theorem Wf.recruitStratumInstance {s t : InstanceData} {p : Nat} (h : Wf s)
    (ht : s.recruitStratumInstance = (t, p)) :
    t.inst = s.inst ∧ t.stratumInstances = s.stratumInstances ∧ t.adding = s.adding ∧
      t.authjob = s.authjob ∧ (s.inst p = {}) ∧
      (t.stratumInstances ++ t.adding ++ p :: t.recycledInstances).Nodup ∧
      ∀ q ∈ t.stratumInstances ++ t.adding ++ p :: t.recycledInstances, q < t.stratumGenerated := by
  rw [InstanceData.recruitStratumInstance] at ht
  rcases hrec : s.recycledInstances with - | ⟨r, rest⟩
  · rw [hrec] at ht
    obtain ⟨rfl, rfl⟩ := Prod.mk.inj ht
    have hnodup := h.nodup
    have hgen := h.generated
    rw [hrec, List.append_nil] at hnodup hgen
    have hnew : s.stratumGenerated ∉ s.stratumInstances ++ s.adding :=
      fun hmem => absurd (hgen _ hmem) (lt_irrefl _)
    refine ⟨rfl, rfl, rfl, rfl, ?_, ?_, ?_⟩
    · exact h.blank _ (fun hm => hnew (List.mem_append_left _ hm))
        fun hm => hnew (List.mem_append_right _ hm)
    · dsimp only
      exact (List.perm_append_singleton _ _).nodup_iff.mpr (List.nodup_cons.mpr ⟨hnew, hnodup⟩)
    · intro q hq
      dsimp only at hq ⊢
      rw [List.mem_append, List.mem_singleton] at hq
      rcases hq with hq | rfl
      · exact Nat.lt_succ_of_lt (hgen q hq)
      · exact Nat.lt_succ_self _
  · rw [hrec] at ht
    obtain ⟨rfl, rfl⟩ := Prod.mk.inj ht
    have hnodup := h.nodup
    have hgen := h.generated
    rw [hrec] at hnodup hgen
    have hnew : r ∉ s.stratumInstances ++ s.adding := by
      intro hmem
      exact (List.nodup_append.mp hnodup).2.2 r hmem r List.mem_cons_self rfl
    refine ⟨rfl, rfl, rfl, rfl, ?_, hnodup, hgen⟩
    exact h.blank _ (fun hm => hnew (List.mem_append_left _ hm))
      fun hm => hnew (List.mem_append_right _ hm)

namespace Wf

variable {s t : InstanceData} {p q : Nat} {f : ClientInstance → ClientInstance}

/-- The first half of `__stratum_add_instance`. -/
theorem stratumRecruit (h : Wf s) {id server : Nat} (hid : 0 < id)
    (ht : s.stratumRecruit id server = (t, p)) :
    Wf t ∧ p ∈ t.adding ∧ t.stratumInstances = s.stratumInstances ∧
      (∀ q, q ≠ p → t.inst q = s.inst q) ∧ p ∉ s.stratumInstances ∧
      ∃ sessionId, t.inst p = .recruited id sessionId server := by
  rw [InstanceData.stratumRecruit] at ht
  rcases hrec : s.recruitStratumInstance with ⟨r, p'⟩
  rw [hrec] at ht
  obtain ⟨hstate, rfl⟩ := Prod.mk.inj ht
  obtain ⟨hinst, htable, hadding, hjob, hblank, hnodup, hgen⟩ := h.recruitStratumInstance hrec
  have hadd : t.adding = r.adding ++ [p'] := by rw [← hstate]
  have hlist : t.stratumInstances ++ t.adding ++ t.recycledInstances =
      r.stratumInstances ++ r.adding ++ p' :: r.recycledInstances := by
    rw [← hstate]
    simp
  have htable' : t.stratumInstances = s.stratumInstances := by rw [← hstate, ← htable]
  have hnew : p' ∉ r.stratumInstances ++ r.adding := by
    intro hmem
    exact (List.nodup_append.mp hnodup).2.2 p' hmem p' List.mem_cons_self rfl
  have hold : ∀ q, q ≠ p' → t.inst q = s.inst q := by
    intro q hq
    rw [← hstate]
    show update r.inst p' _ q = _
    rw [update_of_ne hq, hinst]
  have hself : t.inst p' = .recruited id ((s.sessionId + 1) % 2 ^ 32) server := by
    rw [← hstate]
    exact update_self ..
  have hdead : p' ∉ s.stratumInstances := fun hmem => hnew (List.mem_append_left _ (htable ▸ hmem))
  have hne : ∀ q ∈ t.stratumInstances, q ≠ p' := by
    rw [htable']
    rintro q hq rfl
    exact hdead hq
  refine ⟨?_, ?_, htable', hold, hdead, _, hself⟩
  · constructor
    · rw [hlist]
      exact hnodup
    · rw [hlist, ← hstate]
      exact hgen
    · intro q hq hadd'
      rw [hadd, List.mem_append, List.mem_singleton, not_or] at hadd'
      rw [hold q hadd'.2]
      exact h.blank q (htable' ▸ hq) (hadding ▸ hadd'.1)
    · intro q hq
      rw [hadd, List.mem_append, List.mem_singleton] at hq
      by_cases heq : q = p'
      · rw [heq, hself]
        exact ⟨_, _, _, rfl⟩
      · rw [hold q heq]
        exact h.recruited q (hadding ▸ hq.resolve_right heq)
    · intro q hq
      by_cases heq : q = p'
      · rw [heq, hself]
        exact hid
      · rw [hold q heq]
        rw [hadd, htable', hadding, ← List.append_assoc, List.mem_append, List.mem_singleton] at hq
        exact h.id_pos q (hq.resolve_right heq)
    · intro q hq q' hq' heq
      rw [hold q (hne q hq), hold q' (hne q' hq')] at heq
      exact h.id_inj q (htable' ▸ hq) q' (htable' ▸ hq') heq
    · intro q params hq
      have hq' : s.authjob = some (q, params) := by
        rw [← hjob, ← hq, ← hstate]
      have hpos := h.job q params hq'
      have hne' : q ≠ p' := by
        rintro rfl
        rw [hblank] at hpos
        exact absurd hpos (by decide : ¬0 < 0)
      rwa [hold q hne']
  · rw [hadd]
    exact List.mem_append_right _ List.mem_cons_self

theorem not_mem_table (h : Wf s) (hp : p ∈ s.adding) : p ∉ s.stratumInstances :=
  fun hlive => h.not_mem_adding hlive hp

theorem adding_nodup (h : Wf s) : s.adding.Nodup :=
  (List.nodup_append.mp (List.nodup_append.mp h.nodup).1).2.1

/-- The second half of `__stratum_add_instance`: the instance becomes live, or,
when its id has been added in the meantime, goes to the recycled pool. -/
theorem stratumInsert (h : Wf s) (hp : p ∈ s.adding) (ht : s.stratumInsert p = (t, q)) :
    Wf t ∧ q ∈ t.stratumInstances ∧
      ((q = p ∧ t = { s with
          adding := s.adding.erase p
          stratumInstances := s.stratumInstances ++ [p] }) ∨
        (q ∈ s.stratumInstances ∧ (s.inst q).id = (s.inst p).id ∧
          t.stratumInstances = s.stratumInstances ∧
          t = { s with inst := t.inst, adding := s.adding.erase p,
                       recycledInstances := s.recycledInstances ++ [p] } ∧
          ∀ r, r ≠ p → ∃ n, t.inst r = { s.inst r with subclients := n })) := by
  rw [InstanceData.stratumInsert] at ht
  have hdead := h.not_mem_table hp
  have hmem : ∀ r, r ∈ s.adding.erase p ↔ r ≠ p ∧ r ∈ s.adding :=
    fun r => h.adding_nodup.mem_erase_iff
  rcases hold : s.instanceById (s.inst p).id with - | old
  · -- nobody has the id: the instance goes from those being added to the table
    rw [hold] at ht
    obtain ⟨rfl, rfl⟩ := Prod.mk.inj ht
    have hperm : (s.stratumInstances ++ [p] ++ s.adding.erase p ++ s.recycledInstances).Perm
        (s.stratumInstances ++ s.adding ++ s.recycledInstances) := by
      rw [List.append_assoc s.stratumInstances]
      exact ((List.perm_cons_erase hp).symm.append_left _).append_right _
    have hnone : ∀ r ∈ s.stratumInstances, (s.inst r).id ≠ (s.inst p).id := by
      intro r hr
      exact of_decide_eq_false (Bool.eq_false_iff.mpr (List.find?_eq_none.mp hold r hr))
    refine ⟨?_, List.mem_append_right _ List.mem_cons_self, Or.inl ⟨rfl, rfl⟩⟩
    constructor
    · exact hperm.nodup_iff.mpr h.nodup
    · exact fun r hr => h.generated r (hperm.mem_iff.mp hr)
    · intro r hr hadd
      dsimp only at hr hadd ⊢
      rw [List.mem_append, List.mem_singleton, not_or] at hr
      refine h.blank r hr.1 fun hin => hadd ((hmem r).mpr ⟨hr.2, hin⟩)
    · exact fun r hr => h.recruited r (List.mem_of_mem_erase hr)
    · intro r hr
      dsimp only at hr ⊢
      refine h.id_pos r ?_
      simp only [List.mem_append, List.mem_singleton] at hr ⊢
      rcases hr with (hr | rfl) | hr
      · exact Or.inl hr
      · exact Or.inr hp
      · exact Or.inr (List.mem_of_mem_erase hr)
    · -- the ids of the table stay apart
      intro r hr r' hr' heq
      dsimp only at hr hr' heq
      rw [List.mem_append, List.mem_singleton] at hr hr'
      rcases hr with hr | rfl
      · rcases hr' with hr' | rfl
        · exact h.id_inj r hr r' hr' heq
        · exact absurd heq (hnone r hr)
      · rcases hr' with hr' | rfl
        · exact absurd heq.symm (hnone r' hr')
        · rfl
    · exact h.job
  · -- `old` has the id: the instance is cleared, and goes to the pool
    rw [hold] at ht
    obtain ⟨hstate, rfl⟩ := Prod.mk.inj ht
    obtain ⟨hlive, hsame⟩ := instanceById_mem hold
    have hrest := decSubclients_rest { s with adding := s.adding.erase p } (s.inst p).id
    have hshape : t = { s with inst := t.inst, adding := s.adding.erase p,
                               recycledInstances := s.recycledInstances ++ [p] } := by
      rw [← hstate, killInstance, hrest]
    have hself : t.inst p = {} := by
      rw [← hstate]
      exact update_self ..
    -- of the others, a parent may lose a subclient
    have hinst : ∀ r, r ≠ p → ∃ n, t.inst r = { s.inst r with subclients := n } := by
      intro r hr
      obtain ⟨n, hn⟩ := decSubclients_inst { s with adding := s.adding.erase p } (s.inst p).id r
      refine ⟨n, ?_⟩
      rw [← hstate]
      show update _ p _ r = _
      rw [update_of_ne hr, hn]
    have hgone : ∀ r, r ∉ s.stratumInstances → r ≠ p → t.inst r = s.inst r := by
      intro r hr hne
      rw [← hstate]
      show update _ p _ r = _
      rw [update_of_ne hne]
      exact decSubclients_inst_dead (s := { s with adding := s.adding.erase p }) _ hr
    have hne : ∀ r ∈ s.stratumInstances, r ≠ p := by
      rintro r hr rfl
      exact hdead hr
    have hperm : (s.stratumInstances ++ s.adding.erase p ++ (s.recycledInstances ++ [p])).Perm
        (s.stratumInstances ++ s.adding ++ s.recycledInstances) := by
      rw [← List.append_assoc]
      refine (List.perm_append_singleton p _).trans ?_
      rw [← List.cons_append]
      refine List.Perm.append_right _ ?_
      exact List.perm_middle.symm.trans ((List.perm_cons_erase hp).symm.append_left _)
    have htable : t.stratumInstances = s.stratumInstances := by rw [hshape]
    refine ⟨?_, htable ▸ hlive, Or.inr ⟨hlive, hsame, htable, hshape, hinst⟩⟩
    constructor
    · rw [hshape]
      exact hperm.nodup_iff.mpr h.nodup
    · rw [hshape]
      exact fun r hr => h.generated r (hperm.mem_iff.mp hr)
    · -- the pool is blank
      intro r hr hadd
      rw [hshape] at hr hadd
      by_cases heq : r = p
      · rw [heq, hself]
      · rw [hgone r hr heq]
        exact h.blank r hr fun hin => hadd ((hmem r).mpr ⟨heq, hin⟩)
    · -- those being added are as they were
      intro r hr
      rw [hshape] at hr
      obtain ⟨heq, hin⟩ := (hmem r).mp hr
      rw [hgone r (h.not_mem_table hin) heq]
      exact h.recruited r hin
    · intro r hr
      rw [hshape, List.mem_append] at hr
      rcases hr with hr | hr
      · obtain ⟨n, hn⟩ := hinst r (hne r hr)
        rw [hn]
        exact h.id_pos r (List.mem_append_left _ hr)
      · obtain ⟨heq, hin⟩ := (hmem r).mp hr
        rw [hgone r (h.not_mem_table hin) heq]
        exact h.id_pos r (List.mem_append_right _ hin)
    · intro r hr r' hr' heq
      rw [htable] at hr hr'
      obtain ⟨n, hn⟩ := hinst r (hne r hr)
      obtain ⟨n', hn'⟩ := hinst r' (hne r' hr')
      rw [hn, hn'] at heq
      exact h.id_inj r hr r' hr' heq
    · -- the job's instance is live, and is not the one that is cleared
      intro r params hjob
      rw [hshape] at hjob
      have hpos := h.job r params hjob
      obtain ⟨n, hn⟩ := hinst r (hne r (h.live_of_ref hpos))
      rwa [hn]

end Wf

/-! ### Users -/

/-- What `__get_create_user` does: it finds the user or creates it. -/
theorem getCreateUser_some {s t : InstanceData} {c : InstanceConf} {username u : Bytes}
    {limited newUser : Bool} (h : s.getCreateUser c username limited = (t, some (u, newUser))) :
    u = userKey username ∧ t = { s with usernames := t.usernames, user := t.user } ∧
      ((newUser = false ∧ u ∈ s.usernames ∧ t = s) ∨
        (newUser = true ∧ u ∉ s.usernames ∧ t.usernames = s.usernames ++ [u] ∧
          t.user = update s.user u {})) := by
  rw [getCreateUser] at h
  dsimp only at h
  split_ifs at h with hmem hfull
  · obtain ⟨rfl, hu⟩ := Prod.mk.inj h
    obtain ⟨rfl, rfl⟩ := Prod.mk.inj (Option.some.inj hu)
    exact ⟨rfl, rfl, Or.inl ⟨rfl, hmem, rfl⟩⟩
  · cases (Prod.mk.inj h).2
  · obtain ⟨rfl, hu⟩ := Prod.mk.inj h
    obtain ⟨rfl, rfl⟩ := Prod.mk.inj (Option.some.inj hu)
    exact ⟨rfl, rfl, Or.inr ⟨rfl, hmem, rfl, rfl⟩⟩

theorem getCreateUser_none {s t : InstanceData} {c : InstanceConf} {username : Bytes}
    {limited : Bool} (h : s.getCreateUser c username limited = (t, none)) : t = s := by
  rw [getCreateUser] at h
  dsimp only at h
  split_ifs at h with hmem hfull
  · cases (Prod.mk.inj h).2
  · exact (Prod.mk.inj h).1.symm
  · cases (Prod.mk.inj h).2

/-- Users are found and created, and payouts assigned, without a look at any
instance. -/
theorem getCreateUser_rest (s : InstanceData) (c : InstanceConf) (username : Bytes) (limited : Bool) :
    (s.getCreateUser c username limited).1 =
      { s with
        usernames := (s.getCreateUser c username limited).1.usernames
        user := (s.getCreateUser c username limited).1.user } := by
  rw [getCreateUser]
  dsimp only
  split_ifs <;> rfl

theorem generateUser_none {s t : InstanceData} {c : InstanceConf} {p : Nat} {workername : Bytes}
    (h : s.generateUser c p workername = (t, none)) : t = s := by
  rw [generateUser] at h
  rcases husername : generateUsername workername with - | username
  · rw [husername] at h
    exact (Prod.mk.inj h).1.symm
  · rw [husername] at h
    dsimp only at h
    rcases hget : s.getCreateUser c (canonicaliseUsername c.chain username) true with
      ⟨r, - | ⟨u, newUser⟩⟩
    · rw [hget] at h
      obtain rfl := (Prod.mk.inj h).1
      exact getCreateUser_none hget
    · rw [hget] at h
      dsimp only at h
      split_ifs at h
      · cases (Prod.mk.inj h).2
      · cases (Prod.mk.inj h).2

/-- The steps of `generate_user` when it finds a user: the user, the worker, the
client's place in the list, and the payout of a user without an address. -/
theorem generateUser_some {s t : InstanceData} {c : InstanceConf} {p : Nat} {workername u : Bytes}
    (h : s.generateUser c p workername = (t, some u)) :
    ∃ username r newUser, generateUsername workername = some username ∧
      s.getCreateUser c (canonicaliseUsername c.chain username) true = (r, some (u, newUser)) ∧
      t = ((r.getWorker u workername).attach p u workername).modifyUser u fun user =>
        if newUser ∨ user.btcaddress = false then
          user.assignPayout c username (canonicaliseUsername c.chain username)
        else user := by
  rw [generateUser] at h
  rcases husername : generateUsername workername with - | username
  · rw [husername] at h
    cases (Prod.mk.inj h).2
  · rw [husername] at h
    dsimp only at h
    rcases hget : s.getCreateUser c (canonicaliseUsername c.chain username) true with
      ⟨r, - | ⟨v, newUser⟩⟩
    · rw [hget] at h
      cases (Prod.mk.inj h).2
    · rw [hget] at h
      dsimp only at h
      split_ifs at h with hassign
      · obtain ⟨rfl, hv⟩ := Prod.mk.inj h
        obtain rfl := Option.some.inj hv
        refine ⟨username, r, newUser, rfl, hget, ?_⟩
        simp only [modifyUser, if_pos hassign]
      · obtain ⟨rfl, hv⟩ := Prod.mk.inj h
        obtain rfl := Option.some.inj hv
        refine ⟨username, r, newUser, rfl, hget, ?_⟩
        simp only [modifyUser, if_neg hassign, update_eq_self]

theorem getWorker_rest (s : InstanceData) (u w : Bytes) :
    s.getWorker u w = { s with user := (s.getWorker u w).user } := by
  rw [getWorker]
  split_ifs <;> rfl

theorem attach_user (s : InstanceData) (p : Nat) (u w v : Bytes) :
    (s.attach p u w).user v =
      if v = u then UserInstance.incWorker { s.user u with clients := (s.user u).clients ++ [p] } w
      else s.user v := by
  show update (update s.user u _) u _ v = _
  by_cases hv : v = u
  · subst hv
    rw [if_pos rfl, update_self]
    show UserInstance.incWorker (update s.user v _ v) w = _
    rw [update_self]
    rfl
  · rw [if_neg hv, update_of_ne hv, update_of_ne hv]

/-- What `generate_user` does to the instances: the client gets its user and its
worker. -/
theorem generateUser_rest {s t : InstanceData} {c : InstanceConf} {p : Nat} {workername u : Bytes}
    (h : s.generateUser c p workername = (t, some u)) :
    t = { s.modify p fun i => { i with userInstance := some u, workerInstance := workername } with
      usernames := t.usernames
      user := t.user
      stats := t.stats } := by
  obtain ⟨username, r, newUser, -, hget, rfl⟩ := generateUser_some h
  have hg : r.getWorker u workername =
      { s with usernames := r.usernames, user := (r.getWorker u workername).user } := by
    have hr := (getCreateUser_some hget).2.1
    rw [getWorker_rest]
    rw [hr]
  rw [hg]
  rfl

theorem generateUser_inst {s t : InstanceData} {c : InstanceConf} {p : Nat} {workername u : Bytes}
    (h : s.generateUser c p workername = (t, some u)) :
    t.inst p = { s.inst p with userInstance := some u, workerInstance := workername } := by
  rw [generateUser_rest h]
  exact modify_inst_self (f := fun i => { i with userInstance := some u, workerInstance := workername })

/-- The ways out of `parse_authorise`. -/
theorem parseAuthorise_cases (s : InstanceData) (c : InstanceConf) (p now : Nat) (params : Params) :
    (∃ e, checkAuthorise (s.inst p).useragent params = .error e ∧
      s.parseAuthorise c p now params = (s, false, some e)) ∨
    ∃ buf, checkAuthorise (s.inst p).useragent params = .ok buf ∧
      ((s.generateUser c p buf = (s, none) ∧ s.parseAuthorise c p now params =
          (s.modify p fun i => { i with dropped := true }, false, some .userLimit)) ∨
        ∃ t u, s.generateUser c p buf = (t, some u) ∧
          (((t.user u).rateLimited now = true ∧ s.parseAuthorise c p now params =
            (((t.modify p fun i => { i with workername := some buf }).modifyUser u fun user =>
              { user with throttled := true }).modify p fun i => { i with dropped := true },
              false, none)) ∨
          ((t.user u).rateLimited now = false ∧ ∃ err, s.parseAuthorise c p now params =
            ((t.modify p fun i => { i with workername := some buf }).clientAuth p u now
              ((t.user u).mayAuthorise c), (t.user u).mayAuthorise c, err)))) := by
  rw [parseAuthorise]
  rcases hcheck : checkAuthorise (s.inst p).useragent params with e | buf
  · exact Or.inl ⟨e, rfl, rfl⟩
  · right
    refine ⟨buf, rfl, ?_⟩
    dsimp only
    rcases hgen : s.generateUser c p buf with ⟨t, - | u⟩
    · obtain rfl := generateUser_none hgen
      exact Or.inl ⟨rfl, rfl⟩
    · right
      refine ⟨t, u, rfl, ?_⟩
      by_cases hlimited : (t.user u).rateLimited now = true
      · exact Or.inl ⟨hlimited, if_pos hlimited⟩
      · exact Or.inr ⟨Bool.eq_false_iff.mpr hlimited, _, if_neg hlimited⟩

theorem generateRemoteUser_rest (s : InstanceData) (c : InstanceConf) (workername : Bytes) :
    (s.generateRemoteUser c workername).1 =
      { s with
        usernames := (s.generateRemoteUser c workername).1.usernames
        user := (s.generateRemoteUser c workername).1.user } := by
  rw [generateRemoteUser]
  rcases (if (strsep workername).1 = [] then (strsep workername).2 else some (strsep workername).1)
    with - | username
  · rfl
  · dsimp only
    split_ifs
    · rfl
    · have hrest := getCreateUser_rest s c (canonicaliseUsername c.chain (username.take 127)) false
      rcases hget : s.getCreateUser c (canonicaliseUsername c.chain (username.take 127)) false with
        ⟨r, - | ⟨u, newUser⟩⟩
      · rw [hget] at hrest
        exact hrest
      · rw [hget] at hrest
        dsimp only at hrest ⊢
        split_ifs
        · rw [modifyUser, hrest]
        · exact hrest

end InstanceData

end CashStratum
