/-
CashStratum/NodeList.lean

The lists of nodes and of remote servers (`stratifier.c`), which broadcasts walk.

A client is linked when it is flagged, and unlinked by `__drop_client` only:
`__drop_subclients` and `drop_allclients` take a client that nobody holds straight to
`__del_client` and `__kill_instance`, and leave its memory in the list
(`dropall_leaves_node`).  A second `mining.node` links a node twice, and a client that
is a node and a remote server at once is unlinked as a node only.  Where none of this
happens the two lists are exact over every run (`lists_hold_live_clients`).
-/
import CashStratum.InstanceKeeps
import Mathlib.Data.List.Nodup

namespace CashStratum

/-- The client is in one of the lists. -/
def ClientInstance.linked (client : ClientInstance) : Bool := client.node || client.trusted

namespace InstanceData

/-! ### Steps that unlink first -/

/-- `__drop_client` of this instance leaves no list with a dead client: it is in one
list at most, and no subclient that it takes with it is in any. -/
def Removable (s : InstanceData) (p : Nat) : Prop :=
  ¬((s.inst p).node = true ∧ (s.inst p).trusted = true) ∧
    ((s.inst p).subclients ≠ 0 → ∀ q ∈ s.stratumInstances, subclient (s.inst q).id = (s.inst p).id →
      (s.inst q).ref = 0 → (s.inst q).linked = false)

instance (s : InstanceData) : DecidablePred s.Removable :=
  fun _ => inferInstanceAs (Decidable (_ ∧ (_ → ∀ q ∈ s.stratumInstances, _)))

/-- The event links no client twice, and takes none out that stays linked. -/
def UnlinksFirst (c : InstanceConf) (s : InstanceData) : InstanceEvent → Prop
  | .message p _ .node =>
    s.Held p → (s.inst p).trusted = false → (s.inst p).reject ≠ 3 →
      c.nodeserver (s.inst p).server = true → (s.inst p).node = false
  | .release p => s.Held p → (s.inst p).dropped = true → (s.inst p).ref = 1 → s.Removable p
  | .dropClient id _ => ∀ p ∈ s.instanceById id, (s.inst p).ref = 0 → s.Removable p
  | .sv2Close id =>
    ∀ p ∈ s.instanceById id, (s.inst p).dropped = false → (s.inst p).ref = 0 → s.Removable p
  | .dropAllclients => ∀ p ∈ s.stratumInstances, (s.inst p).ref = 0 → (s.inst p).linked = false
  | _ => True

instance (c : InstanceConf) (s : InstanceData) : DecidablePred (UnlinksFirst c s)
  | .message p _ .node => inferInstanceAs (Decidable (s.Held p → _ → _ → _ → _))
  | .release p => inferInstanceAs (Decidable (s.Held p → _ → _ → s.Removable p))
  | .dropClient id _ => inferInstanceAs (Decidable (∀ p ∈ s.instanceById id, _ → s.Removable p))
  | .sv2Close id => inferInstanceAs (Decidable (∀ p ∈ s.instanceById id, _ → _ → s.Removable p))
  | .dropAllclients => inferInstanceAs (Decidable (∀ p ∈ s.stratumInstances, _ → _))
  | .message _ _ .term | .message _ _ (.subscribe _) | .message _ _ .remote
  | .message _ _ .passthrough | .message _ _ (.authorise _) | .message _ _ .other
  | .recruit .. | .insert .. | .acquire .. | .trustedMessage .. | .share .. | .iterRef ..
  | .iterUnref .. | .lazyDrop .. | .preauth | .authorise .. | .requestReconnect | .sv2Open .. =>
    isTrue trivial

/-! ### One list -/

/-- The list holds the live clients with the flag, each once. -/
structure Exact (s : InstanceData) (l : List Nat) (flag : ClientInstance → Bool) : Prop where
  nodup : l.Nodup
  mem : ∀ p, p ∈ l ↔ p ∈ s.stratumInstances ∧ flag (s.inst p) = true

variable {s t : InstanceData} {p q : Nat} {c : InstanceConf} {l : List Nat}
  {flag : ClientInstance → Bool}

namespace Exact

theorem congr (h : Exact s l flag)
    (hlive : ∀ p, p ∈ t.stratumInstances ∧ flag (t.inst p) = true ↔
      p ∈ s.stratumInstances ∧ flag (s.inst p) = true) : Exact t l flag :=
  ⟨h.nodup, fun p => (h.mem p).trans (hlive p).symm⟩

/-- An instance that is taken out has to be taken off the list. -/
theorem reap (h : Exact s l flag) (hwf : Wf s) (hflag : ∀ i n, flag { i with subclients := n } = flag i) :
    Exact (s.reap p) (l.erase p) flag := by
  refine ⟨h.nodup.erase p, fun q => ?_⟩
  rw [h.nodup.mem_erase_iff, reap_stratumInstances, hwf.table_nodup.mem_erase_iff, and_assoc, h.mem]
  refine and_congr_right fun hq => ?_
  obtain ⟨n, hn⟩ := reap_inst_ne (s := s) hq
  have hsame : flag ((s.reap p).inst q) = flag (s.inst q) := by
    rw [hn]
    exact hflag _ n
  rw [hsame]

/-- Unless it is not on it. -/
theorem erase_of_unflagged (h : Exact s l flag) (hp : flag (s.inst p) = false) : l.erase p = l := by
  refine List.erase_of_not_mem fun hin => ?_
  rw [((h.mem p).mp hin).2] at hp
  cases hp

/-- A client without the flag that gets it goes to the end. -/
theorem append (h : Exact s l flag) (hp : p ∈ s.stratumInstances) (hout : flag (s.inst p) = false)
    (htable : t.stratumInstances = s.stratumInstances) (hself : flag (t.inst p) = true)
    (hother : ∀ q, q ≠ p → flag (t.inst q) = flag (s.inst q)) : Exact t (l ++ [p]) flag := by
  have hnew : p ∉ l := by
    intro hin
    rw [((h.mem p).mp hin).2] at hout
    cases hout
  refine ⟨?_, fun q => ?_⟩
  · exact List.nodup_append.mpr ⟨h.nodup, List.nodup_singleton p,
      fun a ha b hb heq => hnew (by rwa [← List.mem_singleton.mp hb, ← heq])⟩
  · rw [List.mem_append, List.mem_singleton, htable]
    by_cases hq : q = p
    · rw [hq]
      exact ⟨fun _ => ⟨hp, hself⟩, fun _ => Or.inr rfl⟩
    · rw [or_iff_left hq, hother q hq]
      exact h.mem q

end Exact

/-! ### Both lists -/

/-- Both lists are exact. -/
structure ListsExact (s : InstanceData) : Prop where
  node : Exact s s.nodeInstances ClientInstance.node
  remote : Exact s s.remoteInstances ClientInstance.trusted

namespace ListsExact

/-- Steps that leave tables, lists and flags alone. -/
theorem congr (h : ListsExact s) (hnodes : t.nodeInstances = s.nodeInstances)
    (hremotes : t.remoteInstances = s.remoteInstances)
    (htable : t.stratumInstances = s.stratumInstances)
    (hflags : ∀ p ∈ s.stratumInstances,
      (t.inst p).node = (s.inst p).node ∧ (t.inst p).trusted = (s.inst p).trusted) : ListsExact t where
  node := by
    rw [hnodes]
    refine h.node.congr fun p => ?_
    rw [htable]
    refine and_congr_right fun hp => ?_
    rw [(hflags p hp).1]
  remote := by
    rw [hremotes]
    refine h.remote.congr fun p => ?_
    rw [htable]
    refine and_congr_right fun hp => ?_
    rw [(hflags p hp).2]

theorem modify (h : ListsExact s) {f : ClientInstance → ClientInstance}
    (hnode : (f (s.inst p)).node = (s.inst p).node)
    (htrusted : (f (s.inst p)).trusted = (s.inst p).trusted) : ListsExact (s.modify p f) := by
  refine h.congr rfl rfl rfl fun q _ => ?_
  rw [modify_inst]
  split_ifs with heq
  · rw [heq]
    exact ⟨hnode, htrusted⟩
  · exact ⟨rfl, rfl⟩

theorem markDropped (h : ListsExact s) (p : Nat) :
    ListsExact (s.modify p fun i => { i with dropped := true }) :=
  h.modify rfl rfl

/-- **Taking out an instance that is not linked.** -/
theorem reap (h : ListsExact s) (hwf : Wf s) (hp : (s.inst p).linked = false) : ListsExact (s.reap p) := by
  rw [ClientInstance.linked, Bool.or_eq_false_iff] at hp
  have hrest := reap_rest s p
  have hnodes : (s.reap p).nodeInstances = s.nodeInstances := by rw [hrest]
  have hremotes : (s.reap p).remoteInstances = s.remoteInstances := by rw [hrest]
  have hnode := h.node.reap (p := p) hwf fun _ _ => rfl
  have hremote := h.remote.reap (p := p) hwf fun _ _ => rfl
  rw [h.node.erase_of_unflagged hp.1, ← hnodes] at hnode
  rw [h.remote.erase_of_unflagged hp.2, ← hremotes] at hremote
  exact ⟨hnode, hremote⟩

/-- **Unlinking an instance and taking it out**, if it is in one list at most. -/
theorem unlink_reap (h : ListsExact s) (hwf : Wf s)
    (hp : ¬((s.inst p).node = true ∧ (s.inst p).trusted = true)) : ListsExact ((s.unlink p).reap p) := by
  have hrest := reap_rest (s.unlink p) p
  have hnodes : ((s.unlink p).reap p).nodeInstances = (s.unlink p).nodeInstances := by rw [hrest]
  have hremotes : ((s.unlink p).reap p).remoteInstances = (s.unlink p).remoteInstances := by rw [hrest]
  obtain ⟨hinst, htable⟩ := Wf.unlink_inst s p
  have hmoved : ∀ {l flag}, Exact s l flag → Exact (s.unlink p) l flag := by
    intro l flag hl
    refine hl.congr fun q => ?_
    rw [hinst, htable]
  have hnode := (hmoved h.node).reap (p := p) (hwf.unlink p) fun _ _ => rfl
  have hremote := (hmoved h.remote).reap (p := p) (hwf.unlink p) fun _ _ => rfl
  have hshape : (s.unlink p).nodeInstances = s.nodeInstances.erase p ∧
      (s.unlink p).remoteInstances = s.remoteInstances.erase p := by
    rw [InstanceData.unlink]
    split_ifs with hn htr
    · refine ⟨rfl, (h.remote.erase_of_unflagged ?_).symm⟩
      exact Bool.eq_false_iff.mpr fun htr => hp ⟨hn, htr⟩
    · exact ⟨(h.node.erase_of_unflagged (Bool.eq_false_iff.mpr hn)).symm, rfl⟩
    · exact ⟨(h.node.erase_of_unflagged (Bool.eq_false_iff.mpr hn)).symm,
        (h.remote.erase_of_unflagged (Bool.eq_false_iff.mpr htr)).symm⟩
  rw [← hshape.1, ← hnodes] at hnode
  rw [← hshape.2, ← hremotes] at hremote
  exact ⟨hnode, hremote⟩

/-- A loop that drops instances, none of those that go at once linked. -/
theorem dropEach (h : ListsExact s) (hwf : Wf s) (select : ClientInstance → Bool)
    (hselect : ∀ i j : ClientInstance, i.id = j.id → select i = select j)
    (hgo : ∀ p ∈ s.stratumInstances, select (s.inst p) = true → (s.inst p).ref = 0 →
      (s.inst p).linked = false) : ListsExact (s.dropEach select) := by
  have hall : Wf (s.dropEach select) ∧ ListsExact (s.dropEach select) ∧
      ∀ q ∈ (s.dropEach select).stratumInstances, q ∈ s.stratumInstances ∧
        ((s.dropEach select).inst q).id = (s.inst q).id ∧
        ((s.dropEach select).inst q).ref = (s.inst q).ref ∧
        ((s.dropEach select).inst q).linked = (s.inst q).linked := by
    refine dropEach_induction (P := fun t => Wf t ∧ ListsExact t ∧ ∀ q ∈ t.stratumInstances,
      q ∈ s.stratumInstances ∧ (t.inst q).id = (s.inst q).id ∧ (t.inst q).ref = (s.inst q).ref ∧
        (t.inst q).linked = (s.inst q).linked) hwf.table_nodup
      ⟨hwf, h, fun q hq => ⟨hq, rfl, rfl, rfl⟩⟩ ?_
    rintro t p ⟨hwf', ht, hsame⟩ hp hsel
    refine ⟨hwf'.dropOne hp, ?_, fun q hq => ?_⟩
    · rw [InstanceData.dropOne]
      split_ifs with href
      · obtain ⟨hmem, hid, href', hlinked⟩ := hsame p hp
        refine ht.reap hwf' ?_
        rw [hlinked]
        exact hgo p hmem (by rwa [← hselect _ _ hid]) (href' ▸ href)
      · exact ht.markDropped p
    · rw [InstanceData.dropOne] at hq ⊢
      split_ifs at hq ⊢ with href
      · rw [reap_stratumInstances, hwf'.table_nodup.mem_erase_iff] at hq
        obtain ⟨n, hn⟩ := reap_inst_ne (s := t) hq.1
        rw [hn]
        exact hsame q hq.2
      · have hq' := hsame q hq
        rw [modify_inst]
        split_ifs with heq
        · rw [heq] at hq' ⊢
          exact hq'
        · exact hq'
  exact hall.2.1

theorem dropClientLocked (h : ListsExact s) (hwf : Wf s) (hp : p ∈ s.stratumInstances)
    (hgo : s.Removable p) : ListsExact (s.dropClientLocked p) := by
  rw [InstanceData.dropClientLocked]
  split_ifs with hsub
  · obtain ⟨hlive, n, hn⟩ := hwf.dropSubclients_self hp
    refine unlink_reap (h.dropEach hwf _ ?_ ?_) (hwf.dropEach _) ?_
    · intro i j hid
      rw [hid]
    · intro q hq hsel href
      exact hgo.2 hsub q hq (beq_iff_eq.mp hsel) href
    · show ¬(((s.dropSubclients (s.inst p).id).inst p).node = true ∧
        ((s.dropSubclients (s.inst p).id).inst p).trusted = true)
      rw [hn]
      exact hgo.1
  · exact unlink_reap h hwf hgo.1

theorem decInstanceRef (h : ListsExact s) (hwf : Wf s) (hheld : s.Held p)
    (hgo : (s.inst p).dropped = true → (s.inst p).ref = 1 → s.Removable p) :
    ListsExact (s.decInstanceRef p) := by
  have hmod : ListsExact (s.modify p fun i => { i with ref := i.ref - 1 }) := h.modify rfl rfl
  rw [InstanceData.decInstanceRef]
  split_ifs with hdrop
  · rw [modify_inst_self] at hdrop
    have hone : (s.inst p).ref = 1 := by
      have hpos := Wf.ref_of_held hheld
      have hzero : (s.inst p).ref - 1 = 0 := hdrop.2
      omega
    have hremovable := hgo hdrop.1 hone
    refine hmod.dropClientLocked (hwf.unref hheld) (hwf.live_of_held hheld) ⟨?_, ?_⟩
    · rw [modify_inst_self]
      exact hremovable.1
    · rw [modify_inst_self]
      intro hsub q hq hid href
      rw [modify_inst] at hid href ⊢
      split_ifs at hid href ⊢ with heq
      · -- an instance is not its own subclient
        exfalso
        exact hwf.subclient_ne hq (heq ▸ hid)
      · exact hremovable.2 hsub q hq hid href
  · exact hmod

/-- A reference that somebody else holds: nothing is dropped. -/
theorem decInstanceRef_of_lt (h : ListsExact s) (href : 1 < (s.inst p).ref) :
    ListsExact (s.decInstanceRef p) := by
  have hmod : ListsExact (s.modify p fun i => { i with ref := i.ref - 1 }) := h.modify rfl rfl
  rw [InstanceData.decInstanceRef, if_neg]
  · exact hmod
  · rw [modify_inst_self]
    rintro ⟨-, hzero⟩
    have hzero' : (s.inst p).ref - 1 = 0 := hzero
    omega

theorem dropClient (h : ListsExact s) (hwf : Wf s) {id : Nat} (now : Nat)
    (hgo : ∀ p ∈ s.instanceById id, (s.inst p).ref = 0 → s.Removable p) :
    ListsExact (s.dropClient id now) := by
  rw [InstanceData.dropClient]
  split
  · exact h
  · rename_i q hq
    have hrest := disconnectSession_rest s q now
    have hdis : ListsExact (s.disconnectSession q now) := by
      rw [hrest]
      exact h.congr rfl rfl rfl fun _ _ => ⟨rfl, rfl⟩
    dsimp only
    split_ifs with href
    · refine hdis.dropClientLocked (hwf.disconnectSession q now) ?_ ?_
      · rw [hrest]
        exact (instanceById_mem hq).1
      · rw [hrest] at href ⊢
        exact hgo q hq href
    · exact hdis.markDropped q

theorem dropAllclients (h : ListsExact s) (hwf : Wf s)
    (hgo : ∀ p ∈ s.stratumInstances, (s.inst p).ref = 0 → (s.inst p).linked = false) :
    ListsExact s.dropAllclients := by
  have hdrop := h.dropEach hwf (fun _ => true) (fun _ _ _ => rfl) fun p hp _ => hgo p hp
  rw [InstanceData.dropAllclients]
  split_ifs
  · exact hdrop.congr rfl rfl rfl fun _ _ => ⟨rfl, rfl⟩
  · exact hdrop

/-! ### Adding an instance -/

/-- A new instance is in no list. -/
theorem of_append (h : ListsExact s) (hnodes : t.nodeInstances = s.nodeInstances)
    (hremotes : t.remoteInstances = s.remoteInstances)
    (htable : t.stratumInstances = s.stratumInstances ++ [p])
    (hp : p ∉ s.stratumInstances) (hnew : (t.inst p).linked = false)
    (hother : ∀ q, q ≠ p → (t.inst q).node = (s.inst q).node ∧
      (t.inst q).trusted = (s.inst q).trusted) : ListsExact t := by
  rw [ClientInstance.linked, Bool.or_eq_false_iff] at hnew
  have hlist : ∀ {l} {flag : ClientInstance → Bool}, Exact s l flag → flag (t.inst p) = false →
      (∀ q, q ≠ p → flag (t.inst q) = flag (s.inst q)) → Exact t l flag := by
    intro l flag hl hout hflag
    refine hl.congr fun q => ?_
    rw [htable, List.mem_append, List.mem_singleton]
    by_cases hq : q = p
    · rw [hq, hout]
      exact ⟨fun habs => (nomatch habs.2), fun habs => absurd habs.1 hp⟩
    · rw [or_iff_left hq, hflag q hq]
  constructor
  · rw [hnodes]
    exact hlist h.node hnew.1 fun q hq => (hother q hq).1
  · rw [hremotes]
    exact hlist h.remote hnew.2 fun q hq => (hother q hq).2

theorem stratumRecruit (h : ListsExact s) (hwf : Wf s) {id server : Nat} (hid : 0 < id)
    (ht : s.stratumRecruit id server = (t, p)) : ListsExact t := by
  have hrest := stratumRecruit_rest s id server
  obtain ⟨-, -, htable, hinst, hdead, -⟩ := hwf.stratumRecruit hid ht
  rw [ht] at hrest
  dsimp only at hrest
  refine h.congr (by rw [hrest]) (by rw [hrest]) htable fun q hq => ?_
  rw [hinst q fun heq => hdead (heq ▸ hq)]
  exact ⟨rfl, rfl⟩

theorem stratumInsert (h : ListsExact s) (hwf : Wf s) (hp : p ∈ s.adding)
    (ht : s.stratumInsert p = (t, q)) : ListsExact t := by
  obtain ⟨_, _, _, hrec⟩ := hwf.recruited p hp
  obtain ⟨-, -, ⟨-, rfl⟩ | ⟨-, -, htable, hshape, hinst⟩⟩ := hwf.stratumInsert hp ht
  · refine h.of_append rfl rfl rfl (hwf.not_mem_table hp) ?_ fun _ _ => ⟨rfl, rfl⟩
    show (s.inst p).linked = false
    rw [hrec]
    rfl
  · refine h.congr (by rw [hshape]) (by rw [hshape]) htable fun r hr => ?_
    have hne : r ≠ p := by
      rintro rfl
      exact hwf.not_mem_table hp hr
    obtain ⟨n, hn⟩ := hinst r hne
    rw [hn]
    exact ⟨rfl, rfl⟩

/-! ### Nodes and remote servers -/

theorem addMiningNode (h : ListsExact s) (hp : p ∈ s.stratumInstances)
    (hnode : (s.inst p).node = false) : ListsExact (s.addMiningNode p) := by
  have hinst : ∀ q, (s.addMiningNode p).inst q =
      if q = p then { s.inst p with node := true, ref := (s.inst p).ref + 1 } else s.inst q :=
    fun _ => Function.update_apply ..
  have hflag : ∀ q, ((s.addMiningNode p).inst q).trusted = (s.inst q).trusted := by
    intro q
    rw [hinst]
    split_ifs with heq
    · rw [heq]
    · rfl
  constructor
  · refine h.node.append hp hnode rfl ?_ fun q hq => ?_
    · rw [hinst, if_pos rfl]
    · rw [hinst, if_neg hq]
  · refine h.remote.congr fun q => and_congr_right fun _ => ?_
    rw [hflag]

theorem addRemoteServer (h : ListsExact s) (hp : p ∈ s.stratumInstances)
    (htrusted : (s.inst p).trusted = false) : ListsExact (s.addRemoteServer p) := by
  have hinst : ∀ q, (s.addRemoteServer p).inst q =
      if q = p then { s.inst p with trusted := true, ref := (s.inst p).ref + 1 } else s.inst q :=
    fun _ => Function.update_apply ..
  have hflag : ∀ q, ((s.addRemoteServer p).inst q).node = (s.inst q).node := by
    intro q
    rw [hinst]
    split_ifs with heq
    · rw [heq]
    · rfl
  constructor
  · refine h.node.congr fun q => and_congr_right fun _ => ?_
    rw [hflag]
  · refine h.remote.append hp htrusted rfl ?_ fun q hq => ?_
    · rw [hinst, if_pos rfl]
    · rw [hinst, if_neg hq]

/-! ### Subscriptions and authorisations -/

theorem modifyUser (h : ListsExact s) (u : Bytes) (g : UserInstance → UserInstance) :
    ListsExact (s.modifyUser u g) :=
  h.congr rfl rfl rfl fun _ _ => ⟨rfl, rfl⟩

theorem subscribes (h : ListsExact s) (hs : Subscribes p s t) : ListsExact t := by
  refine h.congr (by rw [hs.rest]) (by rw [hs.rest]) (by rw [hs.rest]) fun q _ => ?_
  by_cases hq : q = p
  · rw [hq, hs.self]
    exact ⟨rfl, rfl⟩
  · rw [hs.inst_ne q hq]
    exact ⟨rfl, rfl⟩

theorem generateUser (h : ListsExact s) {workername u : Bytes}
    (hgen : s.generateUser c p workername = (t, some u)) : ListsExact t := by
  have hmod : ListsExact (s.modify p fun i =>
    { i with userInstance := some u, workerInstance := workername }) := h.modify rfl rfl
  rw [generateUser_rest hgen]
  exact hmod.congr rfl rfl rfl fun _ _ => ⟨rfl, rfl⟩

theorem clientAuth (h : ListsExact s) (p : Nat) (u : Bytes) (now : Nat) (ret : Bool) :
    ListsExact (s.clientAuth p u now ret) := by
  rw [InstanceData.clientAuth]
  split_ifs
  · exact modifyUser (h.modify rfl rfl) u _
  · exact modifyUser (h.modify rfl rfl) u _

theorem parseAuthorise (h : ListsExact s) (p now : Nat) (params : Params) :
    ListsExact (s.parseAuthorise c p now params).1 := by
  obtain ⟨e, -, heq⟩ | ⟨buf, -, ⟨-, heq⟩ | ⟨t, u, hgen, hcases⟩⟩ := parseAuthorise_cases s c p now params
  · rw [heq]
    exact h
  · rw [heq]
    exact h.markDropped p
  · have hnamed := (h.generateUser hgen).modify (p := p)
      (f := fun i => { i with workername := some buf }) rfl rfl
    obtain ⟨-, heq⟩ | ⟨-, err, heq⟩ := hcases
    · rw [heq]
      exact (hnamed.modifyUser u _).markDropped p
    · rw [heq]
      exact hnamed.clientAuth p u now _

theorem preauth (h : ListsExact s) : ListsExact s.preauth := by
  rw [InstanceData.preauth]
  split
  · exact h
  · rename_i id params rest hq
    have hpop : ListsExact { s with sauthq := rest } := h.congr rfl rfl rfl fun _ _ => ⟨rfl, rfl⟩
    dsimp only
    split
    · exact hpop
    · rename_i q hfound
      split_ifs
      · exact hpop
      · have hmod := hpop.modify (p := q)
          (f := fun i => { i with ref := i.ref + 1, authorising := true }) rfl rfl
        exact hmod.congr rfl rfl rfl fun _ _ => ⟨rfl, rfl⟩

theorem sauthProcess (h : ListsExact s) (now : Nat) : ListsExact (s.sauthProcess c now) := by
  rw [InstanceData.sauthProcess]
  split
  · exact h
  · rename_i q params hjob
    have hfree : ListsExact { s with authjob := none } := h.congr rfl rfl rfl fun _ _ => ⟨rfl, rfl⟩
    have hparse := hfree.parseAuthorise (c := c) q now params
    rcases hres : InstanceData.parseAuthorise { s with authjob := none } c q now params with
      ⟨t, ret, err⟩
    rw [hres] at hparse
    dsimp only at hparse ⊢
    split_ifs
    · exact hparse.markDropped q
    · exact hparse

theorem parseTrustedMsg (h : ListsExact s) (p : Nat) (msg : TrustedMsg) :
    ListsExact (s.parseTrustedMsg c p msg) := by
  have hremote : ∀ workername, ListsExact (s.generateRemoteUser c workername).1 := by
    intro workername
    rw [generateRemoteUser_rest]
    exact h.congr rfl rfl rfl fun _ _ => ⟨rfl, rfl⟩
  cases msg with
  | share workername =>
    rw [InstanceData.parseTrustedMsg]
    have hr := hremote workername
    rcases hgen : s.generateRemoteUser c workername with ⟨t, - | u⟩
    · rw [hgen] at hr
      exact hr
    · rw [hgen] at hr
      dsimp only
      rw [getWorker_rest]
      exact ListsExact.congr (s := t) hr rfl rfl rfl fun _ _ => ⟨rfl, rfl⟩
  | shareErr workername => exact hremote workername
  | workers username =>
    rw [InstanceData.parseTrustedMsg, getCreateUser_rest]
    exact h.congr rfl rfl rfl fun _ _ => ⟨rfl, rfl⟩
  | auth clientid useragent params =>
    rw [InstanceData.parseTrustedMsg, InstanceData.parseRemoteAuth]
    dsimp only
    split_ifs
    · exact h
    · split
      · exact h
      · rename_i q _
        have hmod : ListsExact (s.modify q fun i =>
          { i with remote := true, useragent := useragent.or i.useragent }) := h.modify rfl rfl
        exact hmod.congr rfl rfl rfl fun _ _ => ⟨rfl, rfl⟩

/-! ### Channels -/

/-- A channel is in no list, and has no subclients. -/
theorem sv2OpenSession (h : ListsExact s) (hwf : Wf s) {id : Nat} (server now : Nat)
    (userIdentity : Bytes) (hid : s.FreshId id) :
    ListsExact (s.sv2OpenSession c id server now userIdentity) := by
  rcases hadd : s.sv2AddInstance c id server with ⟨t, q⟩
  obtain ⟨hnew, hrest, hinst, sessionId, hself⟩ := hwf.sv2AddInstance_fresh hid hadd
  obtain ⟨ht, hq, hheld⟩ := hwf.sv2AddInstance hid.1 hadd
  have hlists : ListsExact t := by
    refine h.of_append (by rw [hrest]; rfl) (by rw [hrest]; rfl) (by rw [hrest]) hnew ?_ fun r hr => ?_
    · rw [hself]
      rfl
    · rw [hinst r hr]
      exact ⟨rfl, rfl⟩
  obtain ⟨r, heq, hw, hcases⟩ := sv2OpenSession_cases now userIdentity hadd
  have hr : ListsExact r ∧ (r.inst q).node = false ∧ (r.inst q).subclients = 0 := by
    rcases hcases with ⟨-, rfl⟩ | ⟨r', u, hgen, ⟨-, rfl⟩ | ⟨-, rfl⟩⟩
    · refine ⟨hlists.markDropped q, ?_⟩
      rw [modify_inst_self, hself]
      exact ⟨rfl, rfl⟩
    · refine ⟨((hlists.generateUser hgen).modify rfl rfl).markDropped q, ?_⟩
      rw [modify_inst_self, modify_inst_self, generateUser_inst hgen, hself]
      exact ⟨rfl, rfl⟩
    · refine ⟨((hlists.generateUser hgen).modify rfl rfl).clientAuth q u now true, ?_⟩
      rw [clientAuth_inst, if_pos rfl, modify_inst_self, generateUser_inst hgen, hself]
      exact ⟨rfl, rfl⟩
  rw [heq]
  refine hr.1.decInstanceRef (ht.writes hw hq) (hw.held hheld) fun _ _ => ⟨?_, fun hsub => ?_⟩
  · rw [hr.2.1]
    exact fun habs => (nomatch habs.1)
  · exact absurd hr.2.2 hsub

theorem sv2CloseSession (h : ListsExact s) (hwf : Wf s) {id : Nat}
    (hgo : ∀ p ∈ s.instanceById id, (s.inst p).dropped = false → (s.inst p).ref = 0 → s.Removable p) :
    ListsExact (s.sv2CloseSession id) := by
  rw [InstanceData.sv2CloseSession]
  split
  · exact h
  · rename_i q hq
    split_ifs with hdropped
    · exact h
    · have hmod : ListsExact (s.modify q fun i => { i with ref := i.ref + 1, dropped := true }) :=
        h.modify rfl rfl
      have hlive := (instanceById_mem hq).1
      have hheld := hwf.held_of_ref q
      rw [Held, modify_inst_self] at hheld
      refine hmod.decInstanceRef (hwf.modify_of_ref hlive rfl (Nat.le_succ _)) ?_ ?_
      · rw [Held, modify_inst_self]
        exact hheld
      · intro _ href
        rw [modify_inst_self] at href
        have hremovable := hgo q hq (Bool.eq_false_iff.mpr hdropped) (Nat.succ.inj href)
        refine ⟨?_, ?_⟩
        · rw [modify_inst_self]
          exact hremovable.1
        · rw [modify_inst_self]
          intro hsub r hr hid hzero
          rw [modify_inst] at hid hzero ⊢
          split_ifs at hid hzero ⊢ with heq
          · exact hremovable.2 hsub r hr hid hzero

/-! ### Steps and runs -/

/-- **Every event that unlinks first keeps the lists exact.** -/
theorem step (h : ListsExact s) (hwf : Wf s) {e : InstanceEvent} (hgo : UnlinksFirst c s e) :
    ListsExact (s.step c e) := by
  have hdoes := step_does c s e
  generalize s.step c e = t at hdoes ⊢
  cases hdoes with
  | idle => exact h
  | recruit server hid hok =>
    refine stratumRecruit ?_ (hwf.subclientCreateOk hok) hid rfl
    rcases subclientCreateOk_cases hok with rfl | ⟨parent, -, rfl⟩
    · exact h
    · exact h.modify rfl rfl
  | insert hadd hins => exact h.stratumInsert hwf hadd hins
  | receive hadd hins => exact (h.stratumInsert hwf hadd hins).modify rfl rfl
  | leaves hheld =>
    -- a client that is held is flagged as dropped only
    refine h.dropClient hwf _ fun q hq href => ?_
    obtain ⟨hlive, hid⟩ := instanceById_mem hq
    rw [hwf.id_inj q hlive _ (hwf.live_of_held hheld) hid] at href
    exact absurd href (Wf.ref_of_held hheld).ne'
  | subscribe params => exact h.subscribes (Subscribes.parseSubscribe s c _ params)
  | @remote p now hheld htrusted =>
    refine (h.addRemoteServer (hwf.live_of_held hheld) htrusted).decInstanceRef_of_lt ?_
    have hself : (s.addRemoteServer p).inst p =
      { s.inst p with trusted := true, ref := (s.inst p).ref + 1 } := Function.update_self ..
    rw [hself]
    exact Nat.succ_lt_succ (Wf.ref_of_held hheld)
  | node hheld htrusted hreject hserver =>
    exact h.addMiningNode (hwf.live_of_held hheld) (hgo hheld htrusted hreject hserver)
  | takes | passthrough | share | iterUnref => exact h.modify rfl rfl
  | asks => exact h.congr rfl rfl rfl fun _ _ => ⟨rfl, rfl⟩
  | trusted msg => exact h.parseTrustedMsg _ msg
  | release hheld => exact h.decInstanceRef hwf hheld (hgo hheld)
  | lazyDrop => exact h.markDropped _
  | preauth => exact h.preauth
  | authorise now => exact h.sauthProcess now
  | dropClient id now => exact h.dropClient hwf now hgo
  | dropAllclients => exact h.dropAllclients hwf hgo
  | requestReconnect =>
    refine h.congr rfl rfl rfl fun q hq => ?_
    have hinst : (s.requestReconnect.inst q) = { s.inst q with dropped := true } := if_pos hq
    rw [hinst]
    exact ⟨rfl, rfl⟩
  | sv2Open server now userIdentity hid => exact h.sv2OpenSession hwf server now _ hid
  | sv2Close id => exact h.sv2CloseSession hwf hgo

theorem start (loaded : LoadedUsers) (randomiser : Nat) :
    ListsExact (InstanceData.start loaded randomiser) :=
  ⟨⟨List.nodup_nil, fun _ => ⟨nofun, nofun⟩⟩, ⟨List.nodup_nil, fun _ => ⟨nofun, nofun⟩⟩⟩

end ListsExact

/-- **The lists of nodes and remote servers are exact**, over every run whose events
unlink first: each holds the live clients with its flag, each once, and so nobody who
has been killed or recycled. -/
theorem lists_hold_live_clients (c : InstanceConf) (loaded : LoadedUsers) (randomiser : Nat)
    (events : List InstanceEvent)
    (hgo : Along (InstanceData.step c) (UnlinksFirst c) (InstanceData.start loaded randomiser) events) :
    let s := run (InstanceData.step c) (InstanceData.start loaded randomiser) events
    (∀ p, s.nodeInstances.count p = if p ∈ s.stratumInstances ∧ (s.inst p).node = true then 1 else 0) ∧
    (∀ p, s.remoteInstances.count p =
      if p ∈ s.stratumInstances ∧ (s.inst p).trusted = true then 1 else 0) ∧
    (∀ p ∈ s.recycledInstances, p ∉ s.nodeInstances ∧ p ∉ s.remoteInstances) := by
  intro s
  have hinv : Wf s ∧ ListsExact s := by
    refine run_invariant (I := fun t => Wf t ∧ ListsExact t) ?_ hgo
      ⟨Wf.start loaded randomiser, ListsExact.start loaded randomiser⟩
    rintro t e he ⟨hwf, ht⟩
    exact ⟨hwf.step e, ht.step hwf he⟩
  obtain ⟨hwf, hlists⟩ := hinv
  refine ⟨fun p => ?_, fun p => ?_, fun p hp => ?_⟩
  · rw [hlists.node.nodup.count]
    exact if_congr (hlists.node.mem p) rfl rfl
  · rw [hlists.remote.nodup.count]
    exact if_congr (hlists.remote.mem p) rfl rfl
  · have hdead : p ∉ s.stratumInstances := by
      intro hlive
      exact (List.nodup_append.mp hwf.nodup).2.2 p (List.mem_append_left _ hlive) p hp rfl
    exact ⟨fun hin => hdead ((hlists.node.mem p).mp hin).1,
      fun hin => hdead ((hlists.remote.mem p).mp hin).1⟩

/-- A node connects, is dropped by its id, and goes when it is released. -/
theorem lists_hold_live_clients_node :
    let events := connect 1 2 0 ++ [.message 0 0 .node, .dropClient 1 0, .release 0, .release 0]
    let s := run (InstanceData.step exampleConf) (InstanceData.start noUsers 5) events
    Along (InstanceData.step exampleConf) (UnlinksFirst exampleConf) (InstanceData.start noUsers 5)
        events ∧
      (∀ p, s.nodeInstances.count p =
        if p ∈ s.stratumInstances ∧ (s.inst p).node = true then 1 else 0) ∧
      (∀ p, s.remoteInstances.count p =
        if p ∈ s.stratumInstances ∧ (s.inst p).trusted = true then 1 else 0) ∧
      (∀ p ∈ s.recycledInstances, p ∉ s.nodeInstances ∧ p ∉ s.remoteInstances) := by
  have hgo : Along (InstanceData.step exampleConf) (UnlinksFirst exampleConf)
      (InstanceData.start noUsers 5)
      (connect 1 2 0 ++ [.message 0 0 .node, .dropClient 1 0, .release 0, .release 0]) := by
    decide
  exact ⟨hgo, lists_hold_live_clients exampleConf noUsers 5 _ hgo⟩

/-- `drop_allclients` takes a node out that nobody holds, and leaves its memory in
the list of nodes. -/
theorem dropall_leaves_node :
    let s := run (InstanceData.step exampleConf) (InstanceData.start noUsers 5)
      (connect 1 2 0 ++ [.message 0 0 .node, .release 0, .release 0, .dropAllclients])
    s.stratumInstances = [] ∧ s.recycledInstances = [0] ∧ (s.inst 0).node = false ∧
      s.nodeInstances = [0] := by
  decide

end InstanceData

end CashStratum
