/-
CashStratum/ProxyTable.lean

The table of proxies, as every loop over it relies on it: `sdata->proxies` holds each parent
proxy once and in the order of priority, `sdata->proxy` is one of them, and each knows how
many subproxies it has.

The table is changed under `proxy_lock`, so a step here is what a thread does between taking
the lock and releasing it, or what it writes to a record without it, in any order
(`tableStep`).  What does not depend on the order holds always (`TableShape`).  The order is
made by explicit sorts, and two things can go wrong with it.  A sort compares priorities by
subtraction, and is right only where no difference overflows (`Comparable`).  And
`reap_proxies` puts a parent that it could not free back at the end of the list and does not
sort; how the list stands after each was visited is `reapProxies_prios`.  Where neither happens, the
table is in order after every step (`table_in_order`).
-/
import CashStratum.ProxyEnonce1

namespace CashStratum

open ProxySdata

/-! ### Steps -/

/-- What a thread does to the table. -/
inductive TableEvent
  /-- `subproxy_by_id`. -/
  | create (id subid : Int)
  /-- `set_proxy_prio`, for a proxy that there is. -/
  | setPrio (id subid priority : Int)
  /-- `check_bestproxy`. -/
  | check
  /-- The writes of `dead_proxyid`. -/
  | die (id subid : Int) (deleted : Bool)
  /-- The writes of `update_subscribe`. -/
  | subscribed (m : SubscribeMsg)
  /-- `update_notify`, up to the job. -/
  | notified (id subid : Int)
  /-- `reap_proxies`. -/
  | reap (busy : List Busy)
  /-- A client subscribes. -/
  | join (id userid : Int)
  /-- A client is killed. -/
  | leave (id : Int)

/-- `update_notify`, up to the job. -/
def notified (s : ProxySdata) (id subid : Int) : ProxySdata :=
  s.modify (id, subid) fun sub =>
    if sub.subscribed then
      { sub with currentWorkbase := some ⟨sub.enonce1bin, sub.enonce1varlen⟩ }
    else sub

/-- One step. -/
def tableStep (nonce2length : Nat) (s : ProxySdata) : TableEvent → ProxySdata
  | .create id subid => (s.proxyById id).subproxyById id subid
  | .setPrio id subid priority =>
    match s.existing id subid with
    | none => s
    | some sub => s.setProxyPrio id subid sub.userid priority
  | .check => s.checkBestproxy
  | .die id subid deleted => s.modify (id, subid) fun sub => { sub with dead := true, deleted }
  | .subscribed m =>
    { s with subscriptions := s.subscriptions + 1 }.modify (m.proxy, m.subproxy)
      (subscribeProxy nonce2length m (s.subscriptions + 1))
  | .notified id subid => notified s id subid
  | .reap busy => s.reapProxies busy
  | .join id userid => s.parseSubscribe id userid
  | .leave id => s.killInstance id

/-! ### The shape of the table -/

/-- The keys of the records, the parents with their counts, and the current global proxy. -/
structure TableShape (keys entries : List (Int × Int)) (current : Option Int) : Prop where
  nodup : keys.Nodup
  once : (entries.map Prod.fst).Nodup
  parents : ∀ e ∈ entries, (e.1, 0) ∈ keys
  listed : ∀ k ∈ keys, k.1 ∈ entries.map Prod.fst
  counts : ∀ e ∈ entries, e.2 = keys.countP fun k => k.1 = e.1
  isListed : ∀ id, current = some id → id ∈ entries.map Prod.fst

namespace TableShape

variable {keys entries keys' entries' : List (Int × Int)} {current current' : Option Int}

/-- The table in another order, and with another current proxy. -/
theorem perm (h : TableShape keys entries current) (hkeys : keys'.Perm keys)
    (hentries : entries'.Perm entries)
    (hcurrent : ∀ id, current' = some id → id ∈ entries.map Prod.fst) :
    TableShape keys' entries' current' where
  nodup := hkeys.nodup_iff.mpr h.nodup
  once := (hentries.map Prod.fst).nodup_iff.mpr h.once
  parents e he := hkeys.mem_iff.mpr (h.parents e (hentries.mem_iff.mp he))
  listed k hk := (hentries.map Prod.fst).mem_iff.mpr (h.listed k (hkeys.mem_iff.mp hk))
  counts e he := by
    rw [hkeys.countP_eq]
    exact h.counts e (hentries.mem_iff.mp he)
  isListed id hid := (hentries.map Prod.fst).mem_iff.mpr (hcurrent id hid)

theorem countP_eq_zero {id : Int} (hid : ∀ k ∈ keys, k.1 ≠ id) :
    keys.countP (fun k => k.1 = id) = 0 := by
  apply List.countP_eq_zero.mpr
  intro k hk heq
  exact hid k hk (of_decide_eq_true heq)

/-- A parent is added, its own first subproxy. -/
theorem addParent (h : TableShape keys entries current) {id : Int}
    (hnew : (id, 0) ∉ keys) :
    TableShape (keys ++ [(id, 0)]) (entries ++ [(id, 1)]) current := by
  have hfst : id ∉ entries.map Prod.fst := by
    intro hmem
    obtain ⟨e, he, rfl⟩ := List.mem_map.mp hmem
    exact hnew (h.parents e he)
  have hnone : ∀ k ∈ keys, k.1 ≠ id := by
    rintro k hk rfl
    exact hfst (h.listed k hk)
  refine ⟨?_, ?_, ?_, ?_, ?_, ?_⟩
  · exact List.Nodup.append h.nodup (List.nodup_singleton _)
      (List.disjoint_singleton.mpr hnew)
  · rw [List.map_append]
    exact List.Nodup.append h.once (List.nodup_singleton _) (List.disjoint_singleton.mpr hfst)
  · intro e he
    obtain he | he := List.mem_append.mp he
    · exact List.mem_append_left _ (h.parents e he)
    · obtain rfl := List.mem_singleton.mp he
      exact List.mem_append_right _ (List.mem_singleton.mpr rfl)
  · intro k hk
    rw [List.map_append]
    obtain hk | hk := List.mem_append.mp hk
    · exact List.mem_append_left _ (h.listed k hk)
    · obtain rfl := List.mem_singleton.mp hk
      exact List.mem_append_right _ (List.mem_singleton.mpr rfl)
  · intro e he
    rw [List.countP_append, List.countP_singleton]
    obtain he | he := List.mem_append.mp he
    · have hne : id ≠ e.1 := fun heq => hfst (heq ▸ List.mem_map.mpr ⟨e, he, rfl⟩)
      rw [if_neg (by simpa using hne)]
      exact h.counts e he
    · obtain rfl := List.mem_singleton.mp he
      rw [countP_eq_zero hnone, if_pos (by simp)]
      rfl
  · intro id' hid'
    rw [List.map_append]
    exact List.mem_append_left _ (h.isListed id' hid')

/-- The count of one parent is added to. -/
def addTo (id n : Int) (entries : List (Int × Int)) : List (Int × Int) :=
  entries.map fun e => if e.1 = id then (e.1, e.2 + n) else e

@[simp] theorem map_fst_addTo (id n : Int) (entries : List (Int × Int)) :
    (addTo id n entries).map Prod.fst = entries.map Prod.fst := by
  rw [addTo, List.map_map]
  refine List.map_congr_left fun e _ => ?_
  show (if e.1 = id then (e.1, e.2 + n) else e).1 = e.1
  split <;> rfl

/-- Records of a parent come or go, and its count with them.  The parent's own record
stays. -/
theorem recount (h : TableShape keys entries current) {id n : Int} (hkeys : keys'.Nodup)
    (hlisted : ∀ k ∈ keys', k.1 ∈ entries.map Prod.fst)
    (hparents : ∀ p, (p, (0 : Int)) ∈ keys → (p, 0) ∈ keys')
    (hcount : (keys'.countP fun k => k.1 = id : Int) = keys.countP (fun k => k.1 = id) + n)
    (hothers : ∀ p, p ≠ id → keys'.countP (fun k => k.1 = p) = keys.countP fun k => k.1 = p) :
    TableShape keys' (addTo id n entries) current := by
  refine ⟨hkeys, ?_, ?_, ?_, ?_, ?_⟩
  · rw [map_fst_addTo]
    exact h.once
  · intro e he
    obtain ⟨old, hold, rfl⟩ := List.mem_map.mp he
    have hparent := hparents _ (h.parents old hold)
    split <;> exact hparent
  · rw [map_fst_addTo]
    exact hlisted
  · intro e he
    obtain ⟨old, hold, rfl⟩ := List.mem_map.mp he
    have hcounted := h.counts old hold
    split
    · rename_i hid
      show old.2 + n = _
      rw [hcounted, hid, hcount]
    · rename_i hid
      rw [hcounted, hothers _ hid]
  · rw [map_fst_addTo]
    exact h.isListed

/-- A subproxy is added. -/
theorem addSubproxy (h : TableShape keys entries current) {id subid : Int}
    (hnew : (id, subid) ∉ keys) (hid : id ∈ entries.map Prod.fst) :
    TableShape (keys ++ [(id, subid)]) (addTo id 1 entries) current := by
  apply h.recount
  · exact List.Nodup.append h.nodup (List.nodup_singleton _) (List.disjoint_singleton.mpr hnew)
  · intro k hk
    obtain hk | hk := List.mem_append.mp hk
    · exact h.listed k hk
    · obtain rfl := List.mem_singleton.mp hk
      exact hid
  · intro p hp
    exact List.mem_append_left _ hp
  · rw [List.countP_append, List.countP_singleton, if_pos (by simp)]
    rfl
  · intro p hp
    rw [List.countP_append, List.countP_singleton, if_neg (by simpa using hp.symm)]
    rfl

/-- Subproxies of one parent go, but not its own record. -/
theorem reap (h : TableShape keys entries current) {id : Int} {gone : List (Int × Int)}
    (hperm : keys.Perm (keys' ++ gone)) (hgone : ∀ k ∈ gone, k.1 = id ∧ k.2 ≠ 0) :
    TableShape keys' (addTo id (-gone.length) entries) current := by
  have hcountP : ∀ p, keys.countP (fun k => k.1 = p) =
      keys'.countP (fun k => k.1 = p) + gone.countP fun k => k.1 = p := by
    intro p
    rw [hperm.countP_eq, List.countP_append]
  apply h.recount
  · exact (List.nodup_append.mp (hperm.nodup_iff.mp h.nodup)).1
  · intro k hk
    exact h.listed k (hperm.mem_iff.mpr (List.mem_append_left _ hk))
  · intro p hp
    obtain hkept | hlost := List.mem_append.mp (hperm.mem_iff.mp hp)
    · exact hkept
    · exact absurd rfl (hgone _ hlost).2
  · have hall : gone.countP (fun k => k.1 = id) = gone.length := by
      apply List.countP_eq_length.mpr
      intro k hk
      exact decide_eq_true (hgone k hk).1
    rw [hcountP, hall]
    push_cast
    omega
  · intro p hp
    have hnone : gone.countP (fun k => k.1 = p) = 0 :=
      countP_eq_zero fun k hk heq => hp (heq.symm.trans (hgone k hk).1)
    rw [hcountP, hnone]
    rfl

/-- A parent without other subproxies goes. -/
theorem removeParent (h : TableShape keys entries current) {id : Int} {count : Int}
    (hmem : (id, count) ∈ entries) (hone : count ≤ 1)
    (hcurrent : ∀ p, current' = some p → p ≠ id ∧ current = some p) :
    TableShape (keys.filter (· ≠ (id, 0))) (entries.filter fun e => e.1 ≠ id) current' := by
  -- there is no other record of it
  have honly : ∀ k ∈ keys, k.1 = id → k = (id, 0) := by
    intro k hk hkid
    by_contra hne
    have hcount := h.counts _ hmem
    have hsub : [k, (id, 0)].Subperm keys := by
      apply List.subperm_of_subset
      · simp [hne]
      · intro x hx
        obtain rfl | rfl : x = k ∨ x = (id, 0) := by simpa using hx
        · exact hk
        · exact h.parents _ hmem
    have hle := hsub.countP_le (p := fun k => k.1 = id)
    have htwo : [k, (id, 0)].countP (fun k => k.1 = id) = 2 := by simp [hkid]
    rw [htwo] at hle
    dsimp only at hcount
    omega
  have hstay : ∀ {p}, p ∈ entries.map Prod.fst → p ≠ id →
      p ∈ (entries.filter fun e => e.1 ≠ id).map Prod.fst := by
    intro p hp hne
    obtain ⟨e, he, rfl⟩ := List.mem_map.mp hp
    exact List.mem_map.mpr ⟨e, List.mem_filter.mpr ⟨he, decide_eq_true hne⟩, rfl⟩
  refine ⟨h.nodup.filter _, h.once.sublist (List.filter_sublist.map _), ?_, ?_, ?_, ?_⟩
  · intro e he
    obtain ⟨he, hne⟩ := List.mem_filter.mp he
    refine List.mem_filter.mpr ⟨h.parents e he, decide_eq_true fun heq => ?_⟩
    exact of_decide_eq_true hne (congrArg Prod.fst heq)
  · intro k hk
    obtain ⟨hk, hne⟩ := List.mem_filter.mp hk
    exact hstay (h.listed k hk) fun heq => of_decide_eq_true hne (honly k hk heq)
  · intro e he
    obtain ⟨he, hne⟩ := List.mem_filter.mp he
    rw [h.counts e he, List.countP_filter]
    congr 1
    refine List.countP_congr fun k _ => ?_
    constructor
    · intro hk
      have hk := of_decide_eq_true hk
      have hother : k ≠ (id, 0) := by
        rintro rfl
        exact of_decide_eq_true hne hk.symm
      simp [hk, hother]
    · intro hk
      simp only [Bool.and_eq_true] at hk
      exact hk.1
  · intro p hp
    obtain ⟨hne, hp⟩ := hcurrent p hp
    exact hstay (h.isListed p hp) hne

end TableShape

/-- An entry without its priority. -/
def ParentProxy.entry (p : ParentProxy) : Int × Int := (p.id, p.subproxyCount)

namespace ProxySdata

variable {s s' : ProxySdata}

/-- The keys of the records. -/
def keys (s : ProxySdata) : List (Int × Int) := s.subproxies.map Subproxy.key

/-- The parents with their counts. -/
def entries (s : ProxySdata) : List (Int × Int) := s.proxies.map ParentProxy.entry

/-- The table of a state has its shape. -/
def Shape (s : ProxySdata) : Prop := TableShape s.keys s.entries s.proxy

theorem map_fst_entries (s : ProxySdata) : s.entries.map Prod.fst = s.proxies.map (·.id) := by
  rw [entries, List.map_map]
  rfl

theorem modify_keys (s : ProxySdata) (key : Int × Int) {f : Subproxy → Subproxy}
    (hf : ∀ sub, (f sub).key = sub.key) : (s.modify key f).keys = s.keys := by
  rw [keys, modify, List.map_map]
  refine List.map_congr_left fun sub _ => ?_
  show (if sub.key = key then f sub else sub).key = sub.key
  split
  · exact hf sub
  · rfl

theorem existing_eq_none_iff {id subid : Int} :
    s.existing id subid = none ↔ (id, subid) ∉ s.keys := by
  rw [existing, find?_key_eq_none_iff, keys, List.mem_map]
  constructor
  · rintro h ⟨sub, hsub, hkey⟩
    exact h sub hsub hkey
  · intro h sub hsub hkey
    exact h ⟨sub, hsub, hkey⟩

theorem existing_key {id subid : Int} {sub : Subproxy} (h : s.existing id subid = some sub) :
    sub.key = (id, subid) := by
  have hkey := List.find?_some h
  exact of_decide_eq_true hkey

theorem mem_keys_of_existing {id subid : Int} {sub : Subproxy}
    (h : s.existing id subid = some sub) : (id, subid) ∈ s.keys :=
  List.mem_map.mpr ⟨sub, existing_mem h, existing_key h⟩

/-! ### Priorities -/

theorem perm_prioSort (proxies : List ParentProxy) : (prioSort proxies).Perm proxies :=
  List.perm_insertionSort _ _

theorem pushPrios_entry (mask nextPrio : Int64) (proxies : List ParentProxy) :
    (pushPrios mask nextPrio proxies).map ParentProxy.entry = proxies.map ParentProxy.entry := by
  induction proxies generalizing nextPrio with
  | nil => rfl
  | cons p rest ih =>
    rw [pushPrios]
    split
    · rfl
    · rw [List.map_cons, List.map_cons, ih]
      rfl

theorem makeRoom_entry (mask priority : Int64) (proxies : List ParentProxy) :
    (makeRoom mask priority proxies).map ParentProxy.entry = proxies.map ParentProxy.entry := by
  induction proxies with
  | nil => rfl
  | cons p rest ih =>
    rw [makeRoom]
    split
    · rfl
    · split
      · exact pushPrios_entry _ _ _
      · rw [List.map_cons, List.map_cons, ih]

theorem assignPrio_entry (id subid userid priority : Int) (proxies : List ParentProxy) :
    (assignPrio id subid userid priority proxies).map ParentProxy.entry =
      proxies.map ParentProxy.entry := by
  rw [assignPrio, List.map_map, ← makeRoom_entry (Int64.ofInt userid <<< 32)
    (Int64.ofInt priority ||| Int64.ofInt userid <<< 32) proxies]
  refine List.map_congr_left fun p _ => ?_
  dsimp only [Function.comp_apply]
  split <;> rfl

theorem setProxyPrio_entries (s : ProxySdata) (id subid userid priority : Int) :
    (s.setProxyPrio id subid userid priority).entries.Perm s.entries := by
  rw [entries, setProxyPrio]
  refine ((perm_prioSort _).map _).trans ?_
  rw [assignPrio_entry]
  exact List.Perm.refl _

theorem addCount_entry (id n : Int) (proxies : List ParentProxy) :
    (addCount id n proxies).map ParentProxy.entry =
      TableShape.addTo id n (proxies.map ParentProxy.entry) := by
  rw [addCount, TableShape.addTo, List.map_map, List.map_map]
  refine List.map_congr_left fun p _ => ?_
  dsimp only [Function.comp_apply]
  rw [apply_ite ParentProxy.entry]
  rfl

/-! ### The steps that keep the shape -/

theorem Shape.of_same (h : Shape s) (hkeys : s'.keys = s.keys) (hentries : s'.entries = s.entries)
    (hproxy : s'.proxy = s.proxy) : Shape s' := by
  rw [Shape, hkeys, hentries, hproxy]
  exact h

theorem Shape.modify (h : Shape s) (key : Int × Int) {f : Subproxy → Subproxy}
    (hf : ∀ sub, (f sub).key = sub.key) : Shape (s.modify key f) :=
  h.of_same (modify_keys s key hf) rfl rfl

theorem Shape.proxyById (h : Shape s) (id : Int) : Shape (s.proxyById id) := by
  rw [ProxySdata.proxyById]
  split
  · exact h
  · rename_i hnone
    have hadded := h.addParent (existing_eq_none_iff.mp hnone)
    refine hadded.perm ?_ ?_ hadded.isListed
    · rw [keys, List.map_append]
      exact List.Perm.refl _
    · refine ((perm_prioSort _).map _).trans ?_
      rw [List.map_append]
      exact List.Perm.refl _

/-- The parent of a new subproxy is there. -/
theorem proxyById_listed (h : Shape s) (id : Int) :
    id ∈ (s.proxyById id).entries.map Prod.fst := by
  refine (h.proxyById id).listed (id, 0) ?_
  rw [ProxySdata.proxyById]
  split
  · rename_i sub hsome
    exact mem_keys_of_existing hsome
  · rw [keys, List.map_append]
    exact List.mem_append_right _ (List.mem_singleton.mpr rfl)

theorem Shape.subproxyById (h : Shape s) {id subid : Int} (hid : id ∈ s.entries.map Prod.fst) :
    Shape (s.subproxyById id subid) := by
  rw [ProxySdata.subproxyById]
  split
  · exact h
  · rename_i hnone
    have hadded := h.addSubproxy (existing_eq_none_iff.mp hnone) hid
    refine hadded.perm ?_ ?_ hadded.isListed
    · rw [keys, List.map_append]
      exact List.Perm.refl _
    · rw [entries, addCount_entry]
      exact List.Perm.refl _

theorem Shape.setProxyPrio (h : Shape s) (id subid userid priority : Int) :
    Shape (s.setProxyPrio id subid userid priority) :=
  h.perm (List.Perm.refl _) (setProxyPrio_entries s id subid userid priority) h.isListed

theorem Shape.checkBestproxy (h : Shape s) : Shape s.checkBestproxy := by
  have hcurrent : ∀ id, s.proxy.filter s.subproxiesAlive = some id →
      id ∈ s.entries.map Prod.fst :=
    fun id hid => h.isListed id (Option.filter_eq_some_iff.mp hid).1
  rw [ProxySdata.checkBestproxy]
  split
  · exact h.perm (List.Perm.refl _) (List.Perm.refl _) hcurrent
  · rename_i p hfind
    split
    · exact h.perm (List.Perm.refl _) (List.Perm.refl _) hcurrent
    · refine h.perm (List.Perm.refl _) (List.Perm.refl _) ?_
      intro id hid
      dsimp only at hid
      split at hid
      · obtain rfl := Option.some.inj hid
        rw [map_fst_entries]
        exact List.mem_map.mpr ⟨p, List.mem_of_find?_eq_some hfind, rfl⟩
      · exact hcurrent id hid

/-! ### Reaping -/

theorem freeProxy_key {busy : List Busy} {sub sub' : Subproxy}
    (h : freeProxy busy sub = some sub') : sub'.key = sub.key := by
  obtain rfl | rfl := freeProxy_eq_some h
  · rfl
  · rfl

/-- The subproxies of a parent that go are freed or come back. -/
theorem perm_freeProxy (busy : List Busy) (l : List Subproxy) :
    (l.map Subproxy.key).Perm ((l.filterMap (freeProxy busy)).map Subproxy.key ++
      (l.filter fun sub => (freeProxy busy sub).isNone).map Subproxy.key) := by
  induction l with
  | nil => exact List.Perm.refl _
  | cons sub l ih =>
    cases hfree : freeProxy busy sub with
    | none =>
      rw [List.filterMap_cons_none hfree, List.filter_cons_of_pos (by simp [hfree])]
      exact (ih.cons _).trans List.perm_middle.symm
    | some sub' =>
      rw [List.filterMap_cons_some hfree, List.filter_cons_of_neg (by simp [hfree]),
        List.map_cons, List.map_cons, freeProxy_key hfree]
      exact ih.cons _

theorem reapSubproxies_keys (busy : List Busy) (s : ProxySdata) (id : Int) :
    let leaves := s.subproxies.filter fun sub => decide (sub.id = id) && sub.retired
    s.keys.Perm ((reapSubproxies busy s id).keys ++
      (leaves.filter fun sub => (freeProxy busy sub).isNone).map Subproxy.key) := by
  intro leaves
  have hstay : (Subproxy.key ∘ fun sub : Subproxy =>
      if sub.id = id then sub.beginAgain else sub) = Subproxy.key := by
    funext sub
    rw [Function.comp_apply]
    split
    · exact (beginAgain_goesOn s s sub).key
    · rfl
  rw [keys, keys, reapSubproxies, List.map_append, List.map_map, hstay, List.append_assoc]
  refine List.Perm.trans ?_ ((perm_freeProxy busy leaves).append_left _)
  rw [← List.map_append]
  refine List.Perm.map _ (List.Perm.symm ?_)
  exact List.perm_append_comm.trans (List.filter_append_perm _ _)

theorem length_filter_isNone (busy : List Busy) (l : List Subproxy) :
    ((l.filterMap (freeProxy busy)).length : Int) - l.length =
      -((l.filter fun sub => (freeProxy busy sub).isNone).map Subproxy.key).length := by
  have hlength := (perm_freeProxy busy l).length_eq
  rw [List.length_append, List.length_map, List.length_map, List.length_map] at hlength
  rw [List.length_map]
  omega

theorem Shape.reapSubproxies (h : Shape s) (busy : List Busy) (id : Int) :
    Shape (reapSubproxies busy s id) := by
  have hgone : ∀ k ∈ ((s.subproxies.filter fun sub => decide (sub.id = id) && sub.retired).filter
      fun sub => (freeProxy busy sub).isNone).map Subproxy.key, k.1 = id ∧ k.2 ≠ 0 := by
    intro k hk
    obtain ⟨sub, hsub, rfl⟩ := List.mem_map.mp hk
    have hleaves := (List.mem_filter.mp (List.mem_filter.mp hsub).1).2
    simp only [Subproxy.retired, Bool.and_eq_true, decide_eq_true_eq] at hleaves
    exact ⟨hleaves.1, hleaves.2.1.1⟩
  have hreaped := TableShape.reap h (reapSubproxies_keys busy s id) hgone
  refine hreaped.perm (List.Perm.refl _) ?_ hreaped.isListed
  rw [entries, ProxySdata.reapSubproxies, addCount_entry, length_filter_isNone]
  exact List.Perm.refl _

theorem Shape.reapParent (h : Shape s) (busy : List Busy) (id : Int) :
    Shape (reapParent busy s id) := by
  rw [ProxySdata.reapParent]
  split
  · rename_i entry parent hentry hparent
    have hid : entry.id = id := by
      have hkey := List.find?_some hentry
      exact of_decide_eq_true hkey
    have hmem : (id, entry.subproxyCount) ∈ s.entries :=
      List.mem_map.mpr ⟨entry, List.mem_of_find?_eq_some hentry, by rw [← hid]; rfl⟩
    split
    · exact h
    · rename_i hgoes
      have hone : entry.subproxyCount ≤ 1 := by
        by_contra hmore
        exact hgoes (by simp [not_le.mp hmore])
      dsimp only
      have hkeys : (s.subproxies.filter fun sub => sub.key ≠ (id, 0)).map Subproxy.key =
          s.keys.filter (· ≠ (id, 0)) := by
        rw [keys, List.filter_map]
        rfl
      have hentries : (s.proxies.filter fun p => p.id ≠ id).map ParentProxy.entry =
          s.entries.filter fun e => e.1 ≠ id := by
        rw [entries, List.filter_map]
        rfl
      split
      · have hcurrent : ∀ p, (if s.proxy = some id then none else s.proxy) = some p →
            p ≠ id ∧ s.proxy = some p := by
          intro p hp
          split at hp
          · cases hp
          · rename_i hother
            refine ⟨?_, hp⟩
            rintro rfl
            exact hother hp
        have hremoved := h.removeParent hmem hone hcurrent
        refine hremoved.perm ?_ ?_ hremoved.isListed
        · rw [keys, hkeys]
        · rw [entries, hentries]
      · -- it is put back, and the table is as it was but for the order
        rename_i parent' hfree
        have hkey : parent'.key = (id, 0) := (freeProxy_key hfree).trans (existing_key hparent)
        have hproxies := perm_cons_filter_key h.once hmem
        have hkeys_nodup : (s.keys.map fun k => k).Nodup := by simpa using h.nodup
        have hrecords := perm_cons_filter_key hkeys_nodup (mem_keys_of_existing hparent)
        refine h.perm ?_ ?_ ?_
        · rw [keys, List.map_append, hkeys, List.map_cons, hkey]
          exact List.perm_append_comm.trans hrecords.symm
        · rw [entries, List.map_append, hentries]
          refine List.perm_append_comm.trans ?_
          rw [List.map_cons, List.map_nil, List.singleton_append, ParentProxy.entry, hid]
          exact hproxies.symm
        · intro p hp
          have hlisted : id ∈ s.entries.map Prod.fst :=
            List.mem_map.mpr ⟨_, hmem, rfl⟩
          obtain ⟨-, hp⟩ | ⟨-, hp⟩ := ite_eq_iff.mp hp
          · obtain rfl := Option.some.inj hp
            exact hlisted
          · obtain ⟨-, hp⟩ | ⟨-, hp⟩ := ite_eq_iff.mp hp
            · cases hp
            · exact h.isListed p hp
  · exact h

theorem Shape.reapProxies (h : Shape s) (busy : List Busy) : Shape (s.reapProxies busy) := by
  show Shape (run (fun t id => ProxySdata.reapParent busy (ProxySdata.reapSubproxies busy t id) id)
    s _)
  exact run_invariant_always (I := Shape)
    (fun t id ht => (ht.reapSubproxies busy id).reapParent busy id) _ h

/-! ### Clients -/

theorem Shape.parseSubscribe (h : Shape s) (id userid : Int) :
    Shape (s.parseSubscribe id userid) := by
  rw [ProxySdata.parseSubscribe]
  split
  · exact h
  · split
    · exact h
    · split
      · exact h.of_same rfl rfl rfl
      · rename_i b _
        exact (h.modify b.proxy (f := Subproxy.bindClient) fun _ => rfl).of_same rfl rfl rfl

theorem Shape.killInstance (h : Shape s) (id : Int) : Shape (s.killInstance id) := by
  rw [ProxySdata.killInstance]
  split
  · exact h
  · rename_i client _
    have hgone : Shape { s with clients := s.clients.filter fun client => client.id ≠ id } :=
      h.of_same rfl rfl rfl
    dsimp only
    split
    · exact hgone
    · exact hgone.modify _ (f := Subproxy.killClient) fun _ => rfl

theorem shape_start (enonce1_64 : UInt64) : Shape (start enonce1_64) := by
  constructor <;> simp [start, keys, entries]

/-- **The shape is kept by every step.** -/
theorem Shape.step (h : Shape s) (nonce2length : Nat) (e : TableEvent) :
    Shape (tableStep nonce2length s e) := by
  cases e with
  | create id subid => exact (h.proxyById id).subproxyById (proxyById_listed h id)
  | setPrio id subid priority =>
    rw [tableStep]
    split
    · exact h
    · exact h.setProxyPrio _ _ _ _
  | check => exact h.checkBestproxy
  | die id subid deleted =>
    exact h.modify _ (f := fun sub => { sub with dead := true, deleted }) fun _ => rfl
  | subscribed m =>
    have hnumber : Shape { s with subscriptions := s.subscriptions + 1 } :=
      h.of_same rfl rfl rfl
    exact hnumber.modify _ fun _ => rfl
  | notified id subid =>
    refine h.modify (id, subid) fun sub => ?_
    split <;> rfl
  | reap busy => exact h.reapProxies busy
  | join id userid => exact h.parseSubscribe id userid
  | leave id => exact h.killInstance id

/-! ### What becomes of the parents in a reap -/

/-- What becomes of a parent: it stays where it is, it is freed, or it is put back, at the
end of the list. -/
inductive Fate
  | stays
  | freed
  | back
deriving DecidableEq

/-- The records of one parent. -/
def block (s : ProxySdata) (id : Int) : List Subproxy := s.subproxies.filter fun sub => sub.id = id

/-- How many records of a parent the inner loop leaves. -/
def leftOf (busy : List Busy) (s : ProxySdata) (id : Int) : Nat :=
  (s.block id).countP fun sub => !(sub.retired && (freeProxy busy sub).isNone)

/-- What becomes of a parent, as the table is before the reap. -/
def fate (busy : List Busy) (s : ProxySdata) (id : Int) : Fate :=
  match s.existing id 0 with
  | none => .stays
  | some parent =>
    if !parent.deleted || 1 < leftOf busy s id || parent.boundClients ≠ 0 then .stays
    else if (freeProxy busy parent).isSome then .back
    else .freed

/-- The list with its priorities. -/
def prios (s : ProxySdata) : List (Int × Int64) := s.proxies.map fun p => (p.id, p.priority)

theorem map_fst_prios (s : ProxySdata) : s.prios.map Prod.fst = s.proxies.map (·.id) := by
  rw [prios, List.map_map]
  rfl

theorem existing_eq_block (s : ProxySdata) (id subid : Int) :
    s.existing id subid = (s.block id).find? fun sub => sub.key = (id, subid) := by
  rw [existing, block, List.find?_filter]
  congr 1
  funext sub
  by_cases hkey : sub.key = (id, subid)
  · have hid : sub.id = id := congrArg Prod.fst hkey
    simp [hkey, hid]
  · simp [hkey]

theorem fate_congr {busy : List Busy} {id : Int} (h : s'.block id = s.block id) :
    fate busy s' id = fate busy s id := by
  rw [fate, fate, existing_eq_block, existing_eq_block, leftOf, leftOf, h]

/-- A reap of one parent's subproxies leaves those of the others alone. -/
theorem reapSubproxies_block (busy : List Busy) (s : ProxySdata) {id other : Int}
    (hne : other ≠ id) : (reapSubproxies busy s id).block other = s.block other := by
  rw [block, reapSubproxies, List.filter_append]
  have hback : (((s.subproxies.filter fun sub => decide (sub.id = id) && sub.retired).filterMap
      (freeProxy busy)).filter fun sub => sub.id = other) = [] := by
    apply List.filter_eq_nil_iff.mpr
    intro sub' hsub'
    obtain ⟨sub, hsub, hfree⟩ := List.mem_filterMap.mp hsub'
    have hleaves := (List.mem_filter.mp hsub).2
    rw [Bool.and_eq_true, decide_eq_true_eq] at hleaves
    have hid : sub'.id = sub.id := congrArg Prod.fst (freeProxy_key hfree)
    rw [decide_eq_true_eq, hid, hleaves.1]
    exact hne.symm
  rw [hback, List.append_nil, List.filter_map, List.filter_filter, block]
  have hsame : (s.subproxies.filter fun sub => sub.id = other).map
      (fun sub => if sub.id = id then sub.beginAgain else sub) =
        s.subproxies.filter fun sub => sub.id = other := by
    conv_rhs => rw [← List.map_id (s.subproxies.filter fun sub => sub.id = other)]
    refine List.map_congr_left fun sub hsub => ?_
    have hid := of_decide_eq_true (List.mem_filter.mp hsub).2
    rw [if_neg (hid ▸ hne)]
    rfl
  rw [← hsame]
  congr 1
  refine List.filter_congr fun sub _ => ?_
  rw [Function.comp_apply]
  by_cases hid : sub.id = other
  · have hother : sub.id ≠ id := hid ▸ hne
    simp [hid, hne]
  · by_cases hid' : sub.id = id
    · have hkey : sub.beginAgain.id = sub.id :=
        congrArg Prod.fst (beginAgain_goesOn s s sub).key
      simp [hid', hkey, hne.symm]
    · simp [hid, hid']

theorem reapParent_block (busy : List Busy) (s : ProxySdata) {id other : Int}
    (hne : other ≠ id) : (reapParent busy s id).block other = s.block other := by
  have hfilter : ((s.subproxies.filter fun sub => sub.key ≠ (id, 0)).filter
      fun sub => sub.id = other) = s.subproxies.filter fun sub => sub.id = other := by
    rw [List.filter_filter]
    refine List.filter_congr fun sub _ => ?_
    by_cases hid : sub.id = other
    · have hkey : sub.key ≠ (id, 0) := fun heq => hne (hid.symm.trans (congrArg Prod.fst heq))
      simp [hid, hkey]
    · simp [hid]
  rw [reapParent]
  split
  · rename_i parent _ hparent
    split
    · rfl
    · dsimp only
      split
      · exact hfilter
      · rename_i parent' hfree
        have hid : parent'.id = id :=
          congrArg Prod.fst ((freeProxy_key hfree).trans (existing_key hparent))
        rw [block, List.filter_append, hfilter, List.filter_cons_of_neg (by simp [hid, hne.symm]),
          List.filter_nil, List.append_nil]
        rfl
  · rfl

@[simp] theorem beginAgain_key (sub : Subproxy) : sub.beginAgain.key = sub.key :=
  (beginAgain_goesOn (start 0) (start 0) sub).key

theorem beginAgain_fields (sub : Subproxy) :
    sub.beginAgain.deleted = sub.deleted ∧ sub.beginAgain.boundClients = sub.boundClients := by
  rw [Subproxy.beginAgain]
  split
  · exact ⟨rfl, rfl⟩
  · exact ⟨rfl, rfl⟩

theorem freeProxy_isSome_congr {busy : List Busy} {sub sub' : Subproxy} (h : sub'.key = sub.key) :
    (freeProxy busy sub').isSome = (freeProxy busy sub).isSome := by
  rw [freeProxy, freeProxy, Option.isSome_map, Option.isSome_map, h]

@[simp] theorem reapSubproxies_prios (busy : List Busy) (s : ProxySdata) (id : Int) :
    (reapSubproxies busy s id).prios = s.prios := by
  rw [prios, reapSubproxies, addCount, List.map_map]
  refine List.map_congr_left fun p _ => ?_
  dsimp only [Function.comp_apply]
  split <;> rfl

/-- The parent's own record goes through the inner loop. -/
theorem reapSubproxies_existing (h : Shape s) (busy : List Busy) (id : Int) :
    (reapSubproxies busy s id).existing id 0 = (s.existing id 0).map Subproxy.beginAgain := by
  have hshape := h.reapSubproxies busy id
  cases hexisting : s.existing id 0 with
  | none =>
    have hnone := existing_eq_none_iff.mp hexisting
    refine existing_eq_none_iff.mpr fun hmem => hnone ?_
    exact (reapSubproxies_keys busy s id).mem_iff.mpr (List.mem_append_left _ hmem)
  | some parent =>
    have hkey := existing_key hexisting
    refine (find?_key_eq_some_iff hshape.nodup).mpr ⟨?_, (beginAgain_key parent).trans hkey⟩
    refine List.mem_append_left _ (List.mem_map.mpr ⟨parent, ?_, ?_⟩)
    · refine List.mem_filter.mpr ⟨existing_mem hexisting, ?_⟩
      have hsubid : parent.subid = 0 := congrArg Prod.snd hkey
      simp [Subproxy.retired, hsubid]
    · rw [if_pos (show parent.id = id from congrArg Prod.fst hkey)]

/-- The count of a parent after the inner loop. -/
theorem reapSubproxies_count (h : Shape s) (busy : List Busy) {id : Int} {entry : ParentProxy}
    (hentry : (reapSubproxies busy s id).proxies.find? (fun p => p.id = id) = some entry) :
    entry.subproxyCount = leftOf busy s id := by
  have hshape := h.reapSubproxies busy id
  have hid : entry.id = id := by
    have hkey := List.find?_some hentry
    exact of_decide_eq_true hkey
  subst hid
  have hcount := hshape.counts (entry.id, entry.subproxyCount)
    (List.mem_map.mpr ⟨entry, List.mem_of_find?_eq_some hentry, rfl⟩)
  set id := entry.id
  have hsplit := (reapSubproxies_keys busy s id).countP_eq fun k => k.1 = id
  rw [List.countP_append] at hsplit
  -- those that are freed are exactly the records that are not left
  have hfreed : (((s.subproxies.filter fun sub => decide (sub.id = id) && sub.retired).filter
      fun sub => (freeProxy busy sub).isNone).map Subproxy.key).countP (fun k => k.1 = id) =
        (s.block id).countP fun sub => sub.retired && (freeProxy busy sub).isNone := by
    rw [List.countP_map, List.countP_filter, List.countP_filter, block, List.countP_filter]
    refine List.countP_congr fun sub _ => ?_
    by_cases hid : sub.id = id
    · simp [Subproxy.key, hid, Bool.and_comm]
    · simp [Subproxy.key, hid]
  have hall : s.keys.countP (fun k => k.1 = id) = (s.block id).length := by
    rw [keys, List.countP_map, block, List.countP_eq_length_filter]
    rfl
  have htotal := List.length_eq_countP_add_countP
    (fun sub => sub.retired && (freeProxy busy sub).isNone) (l := s.block id)
  rw [hfreed, hall] at hsplit
  rw [leftOf]
  dsimp only at hcount
  simp only [Bool.not_eq_true] at htotal
  have hleft : (s.block id).countP (fun sub => !(sub.retired && (freeProxy busy sub).isNone)) =
      (s.block id).countP fun sub => (sub.retired && (freeProxy busy sub).isNone) = false := by
    refine List.countP_congr fun sub _ => ?_
    simp
  omega

/-- **One parent is reaped.** -/
theorem reapOne_prios (h : Shape s) (busy : List Busy) {id : Int}
    (hid : id ∈ s.prios.map Prod.fst) :
    (reapParent busy (reapSubproxies busy s id) id).prios =
      match fate busy s id with
      | .stays => s.prios
      | .freed => s.prios.filter fun e => e.1 ≠ id
      | .back => (s.prios.filter fun e => e.1 ≠ id) ++ s.prios.filter fun e => e.1 = id := by
  have hshape := h.reapSubproxies busy id
  set t := reapSubproxies busy s id with ht
  have hprios : t.prios = s.prios := reapSubproxies_prios busy s id
  obtain ⟨entry, hentry⟩ : ∃ entry, t.proxies.find? (fun p => p.id = id) = some entry := by
    rw [← hprios, map_fst_prios] at hid
    obtain ⟨p, hp, hpid⟩ := List.mem_map.mp hid
    refine Option.isSome_iff_exists.mp (List.find?_isSome.mpr ⟨p, hp, ?_⟩)
    exact decide_eq_true hpid
  have hcount := reapSubproxies_count h busy hentry
  rw [reapParent, fate, hentry, reapSubproxies_existing h]
  cases hparent : s.existing id 0 with
  | none => exact hprios
  | some parent =>
    obtain ⟨hdeleted, hbound⟩ := beginAgain_fields parent
    have hfree : (freeProxy busy parent.beginAgain).isSome = (freeProxy busy parent).isSome :=
      freeProxy_isSome_congr (beginAgain_key parent)
    have hguard : (!parent.beginAgain.deleted || decide (1 < entry.subproxyCount) ||
        decide (parent.beginAgain.boundClients ≠ 0)) =
          (!parent.deleted || decide (1 < leftOf busy s id) ||
            decide (parent.boundClients ≠ 0)) := by
      rw [hdeleted, hbound, hcount]
      simp
    simp only [Option.map_some]
    rw [hguard]
    split
    · exact hprios
    · have hother : (t.proxies.filter fun p => p.id ≠ id).map
          (fun p => (p.id, p.priority)) = s.prios.filter fun e => e.1 ≠ id := by
        rw [← hprios, prios, List.filter_map]
        rfl
      have hsame : [(entry.id, entry.priority)] = s.prios.filter fun e => e.1 = id := by
        rw [← hprios, prios, List.filter_map]
        have honce : (t.proxies.map ParentProxy.id).Nodup := by
          have := hshape.once
          rwa [map_fst_entries] at this
        have hentryid : entry.id = id := by
          have hkey := List.find?_some hentry
          exact of_decide_eq_true hkey
        have hone := filter_key_eq honce (List.mem_of_find?_eq_some hentry)
        rw [hentryid] at hone
        show _ = (t.proxies.filter fun p => p.id = id).map _
        rw [hone]
        rfl
      cases hsome : freeProxy busy parent.beginAgain with
      | none =>
        rw [hsome] at hfree
        rw [← hfree]
        exact hother
      | some parent' =>
        rw [hsome] at hfree
        rw [← hfree]
        show (_ ++ [entry]).map _ = _
        rw [List.map_append, hother]
        simp only [Option.isSome_some, if_true]
        rw [← hsame]
        rfl

theorem reapOne_fate (busy : List Busy) (s : ProxySdata) {id other : Int} (hne : other ≠ id) :
    fate busy (reapParent busy (reapSubproxies busy s id) id) other = fate busy s other := by
  refine fate_congr ?_
  rw [reapParent_block busy _ hne, reapSubproxies_block busy s hne]

/-- The loop over the parents, from the middle of it: `kept` have been passed and stay, `back`
have been put back behind those that are still to come. -/
theorem foldl_reapOne_prios (busy : List Busy) (todo : List (Int × Int64)) :
    ∀ (s : ProxySdata) (kept back : List (Int × Int64)), Shape s →
      s.prios = kept ++ todo ++ back →
        ((todo.map Prod.fst).foldl
            (fun s id => reapParent busy (reapSubproxies busy s id) id) s).prios =
          kept ++ (todo.filter fun e => fate busy s e.1 = .stays) ++ back ++
            todo.filter fun e => fate busy s e.1 = .back := by
  induction todo with
  | nil =>
    intro s kept back _ hprios
    simpa using hprios
  | cons e todo ih =>
    intro s kept back h hprios
    have honce : (s.prios.map Prod.fst).Nodup := by
      rw [map_fst_prios, ← map_fst_entries]
      exact h.once
    have hid : e.1 ∈ s.prios.map Prod.fst := by
      rw [hprios]
      simp
    have hstep := reapOne_prios h busy hid
    have hshape := (h.reapSubproxies busy e.1).reapParent busy e.1
    -- the others have other ids
    have hothers : ∀ l : List (Int × Int64), (∀ x ∈ l, x.1 ≠ e.1) →
        (l.filter fun x => x.1 ≠ e.1) = l ∧ (l.filter fun x => x.1 = e.1) = [] := by
      intro l hl
      constructor
      · exact List.filter_eq_self.mpr fun x hx => decide_eq_true (hl x hx)
      · exact List.filter_eq_nil_iff.mpr fun x hx => by simpa using hl x hx
    have hapart : ∀ x ∈ kept ++ todo ++ back, x.1 ≠ e.1 := by
      have hperm : s.prios.Perm (e :: (kept ++ todo ++ back)) := by
        rw [hprios, List.append_assoc, List.append_assoc]
        exact List.perm_middle
      have hnodup := ((hperm.map Prod.fst).nodup_iff).mp honce
      rw [List.map_cons, List.nodup_cons] at hnodup
      intro x hx heq
      exact hnodup.1 (List.mem_map.mpr ⟨x, hx, heq⟩)
    have hkept := hothers kept fun x hx => hapart x (by simp [hx])
    have htodo := hothers todo fun x hx => hapart x (by simp [hx])
    have hback := hothers back fun x hx => hapart x (by simp [hx])
    have hfates : ∀ f : Fate, (todo.filter fun x =>
        fate busy (reapParent busy (reapSubproxies busy s e.1) e.1) x.1 = f) =
          todo.filter fun x => fate busy s x.1 = f := by
      intro f
      refine List.filter_congr fun x hx => ?_
      rw [reapOne_fate busy s (hapart x (by simp [hx]))]
    rw [List.map_cons, List.foldl_cons]
    rw [hprios] at hstep
    cases hfate : fate busy s e.1 with
    | stays =>
      rw [hfate] at hstep
      rw [ih _ (kept ++ [e]) back hshape (by simpa using hstep), hfates, hfates]
      simp [hfate]
    | freed =>
      rw [hfate] at hstep
      simp only [List.filter_append, List.filter_cons, hkept, htodo, hback] at hstep
      rw [ih _ kept back hshape (by simpa using hstep), hfates, hfates]
      simp [hfate]
    | back =>
      rw [hfate] at hstep
      simp only [List.filter_append, List.filter_cons, hkept, htodo, hback] at hstep
      rw [ih _ kept (back ++ [e]) hshape (by simpa using hstep), hfates, hfates]
      simp [hfate]

/-- **The list after a reap** that ends.  Parents that are put back stand behind all that stay; of
two that are put back, the source frees one before it ends. -/
theorem reapProxies_prios (h : Shape s) (busy : List Busy) :
    (s.reapProxies busy).prios = (s.prios.filter fun e => fate busy s e.1 = .stays) ++
      s.prios.filter fun e => fate busy s e.1 = .back := by
  have hfold := foldl_reapOne_prios busy s.prios s [] [] h (by simp)
  rw [map_fst_prios] at hfold
  rw [reapProxies]
  simpa using hfold

/-! ### The order -/

/-- The parents are in the order of their priorities. -/
def Ordered (s : ProxySdata) : Prop := (s.prios.map Prod.snd).Pairwise (· ≤ ·)

/-- No two priorities are so far apart that their difference overflows. -/
def Comparable (proxies : List ParentProxy) : Prop :=
  ∀ p ∈ proxies, ∀ q ∈ proxies, p.priority.toInt - q.priority.toInt < 2 ^ 63 ∧
    -2 ^ 63 ≤ p.priority.toInt - q.priority.toInt

/-- Where no difference overflows, `prio_sort` is the order of the priorities. -/
theorem prioSort_ordered {proxies : List ParentProxy} (h : Comparable proxies) :
    (prioSort proxies).Pairwise fun p q => p.priority ≤ q.priority := by
  have hsame : ∀ p ∈ proxies, ∀ q ∈ proxies,
      (p.priority - q.priority ≤ 0 ↔ p.priority ≤ q.priority) := by
    intro p hp q hq
    obtain ⟨hhigh, hlow⟩ := h p hp q hq
    rw [Int64.le_iff_toInt_le, Int64.le_iff_toInt_le, Int64.toInt_sub]
    have hexact : (p.priority.toInt - q.priority.toInt).bmod (2 ^ 64) =
        p.priority.toInt - q.priority.toInt := by
      apply Int.bmod_eq_of_le <;> omega
    rw [hexact]
    show p.priority.toInt - q.priority.toInt ≤ 0 ↔ _
    omega
  have hmap := List.map_insertionSort (r := fun p q : ParentProxy => p.priority - q.priority ≤ 0)
    (s := fun p q : ParentProxy => p.priority ≤ q.priority) id proxies hsame
  rw [List.map_id, List.map_id] at hmap
  rw [prioSort, hmap]
  have : Std.Total fun p q : ParentProxy => p.priority ≤ q.priority :=
    ⟨fun p q => Int64.le_total p.priority q.priority⟩
  have : IsTrans ParentProxy fun p q => p.priority ≤ q.priority :=
    ⟨fun p q r => Int64.le_trans⟩
  exact List.pairwise_insertionSort _ _

theorem ordered_iff (s : ProxySdata) :
    Ordered s ↔ s.proxies.Pairwise fun p q => p.priority ≤ q.priority := by
  rw [Ordered, prios, List.map_map, List.pairwise_map]
  rfl

/-- **The condition of a step.**  Where the step sorts, no difference of priorities overflows;
and a reap puts no parent back while another of higher priority value stays. -/
def KeepsOrder (s : ProxySdata) : TableEvent → Prop
  | .create id _ =>
    s.existing id 0 = none →
      Comparable (s.proxies ++
        [{ id, priority := 0x00FFFFFFFFFFFFFF, subproxyCount := 1 }])
  | .setPrio id subid priority =>
    match s.existing id subid with
    | none => True
    | some sub => Comparable (assignPrio id subid sub.userid priority s.proxies)
  | .reap busy =>
    ∀ p ∈ s.proxies, ∀ q ∈ s.proxies, fate busy s p.id = .back → fate busy s q.id = .stays →
      q.priority ≤ p.priority
  | _ => True

instance (proxies : List ParentProxy) : Decidable (Comparable proxies) :=
  inferInstanceAs (Decidable (∀ p ∈ proxies, ∀ q ∈ proxies, _ ∧ _))

instance (s : ProxySdata) : ∀ e, Decidable (KeepsOrder s e)
  | .create id _ => inferInstanceAs (Decidable (s.existing id 0 = none → Comparable _))
  | .setPrio id subid priority =>
    match h : s.existing id subid with
    | none => isTrue (by rw [KeepsOrder, h]; trivial)
    | some sub =>
      decidable_of_iff (Comparable (assignPrio id subid sub.userid priority s.proxies))
        (by rw [KeepsOrder, h])
  | .reap busy =>
    inferInstanceAs (Decidable (∀ p ∈ s.proxies, ∀ q ∈ s.proxies, fate busy s p.id = .back →
      fate busy s q.id = .stays → q.priority ≤ p.priority))
  | .check | .die _ _ _ | .subscribed _ | .notified _ _ | .join _ _ | .leave _ =>
    inferInstanceAs (Decidable True)

theorem ordered_create (h : Ordered s) {id subid : Int} (hc : KeepsOrder s (.create id subid)) :
    Ordered ((s.proxyById id).subproxyById id subid) := by
  have hparent : Ordered (s.proxyById id) := by
    rw [proxyById]
    split
    · exact h
    · rename_i hnone
      exact (ordered_iff _).mpr (prioSort_ordered (hc hnone))
  rw [subproxyById]
  split
  · exact hparent
  · have hsame : prios { s.proxyById id with
        subproxies := (s.proxyById id).subproxies ++ [{ id, subid }]
        proxies := addCount id 1 (s.proxyById id).proxies } = (s.proxyById id).prios := by
      rw [prios, addCount, List.map_map]
      refine List.map_congr_left fun p _ => ?_
      dsimp only [Function.comp_apply]
      split <;> rfl
    rw [Ordered, hsame]
    exact hparent

theorem ordered_reap (h : Ordered s) (hshape : Shape s) {busy : List Busy}
    (hc : KeepsOrder s (.reap busy)) : Ordered (s.reapProxies busy) := by
  rw [Ordered, reapProxies_prios hshape, List.map_append, List.pairwise_append]
  refine ⟨h.sublist (List.filter_sublist.map _), h.sublist (List.filter_sublist.map _), ?_⟩
  intro a ha b hb
  obtain ⟨e, he, rfl⟩ := List.mem_map.mp ha
  obtain ⟨f, hf, rfl⟩ := List.mem_map.mp hb
  obtain ⟨he, hstays⟩ := List.mem_filter.mp he
  obtain ⟨hf, hback⟩ := List.mem_filter.mp hf
  obtain ⟨q, hq, rfl⟩ := List.mem_map.mp he
  obtain ⟨p, hp, rfl⟩ := List.mem_map.mp hf
  exact hc p hp q hq (of_decide_eq_true hback) (of_decide_eq_true hstays)

theorem checkBestproxy_proxies (s : ProxySdata) : s.checkBestproxy.proxies = s.proxies := by
  rw [checkBestproxy]
  split
  · rfl
  · split <;> rfl

theorem parseSubscribe_proxies (s : ProxySdata) (id userid : Int) :
    (s.parseSubscribe id userid).proxies = s.proxies := by
  rw [parseSubscribe]
  split
  · rfl
  · split
    · rfl
    · split <;> rfl

theorem killInstance_proxies (s : ProxySdata) (id : Int) :
    (s.killInstance id).proxies = s.proxies := by
  rw [killInstance]
  split
  · rfl
  · dsimp only
    split <;> rfl

theorem Ordered.of_same (h : Ordered s) (hproxies : s'.proxies = s.proxies) : Ordered s' := by
  rw [Ordered, prios, hproxies]
  exact h

/-- **The step lemma.** -/
theorem Ordered.step (h : Ordered s) (hshape : Shape s) (nonce2length : Nat) {e : TableEvent}
    (hc : KeepsOrder s e) : Ordered (tableStep nonce2length s e) := by
  cases e with
  | create id subid => exact ordered_create h hc
  | setPrio id subid priority =>
    rw [tableStep]
    rw [KeepsOrder] at hc
    split
    · exact h
    · rename_i sub hsub
      rw [hsub] at hc
      exact (ordered_iff _).mpr (prioSort_ordered hc)
  | check => exact h.of_same (checkBestproxy_proxies s)
  | die id subid deleted => exact h.of_same rfl
  | subscribed m => exact h.of_same rfl
  | notified id subid => exact h.of_same rfl
  | reap busy => exact ordered_reap h hshape hc
  | join id userid => exact h.of_same (parseSubscribe_proxies s id userid)
  | leave id => exact h.of_same (killInstance_proxies s id)

end ProxySdata

/-- What the loops over the table rely on. -/
structure InOrder (s : ProxySdata) : Prop where
  once : (s.proxies.map fun p => p.id).Nodup
  ordered : s.proxies.Pairwise fun p q => p.priority ≤ q.priority
  current : ∀ id, s.proxy = some id →
    (∃ p ∈ s.proxies, p.id = id) ∧ ∃ parent, s.existing id 0 = some parent
  counts : ∀ p ∈ s.proxies, p.subproxyCount = s.subproxies.countP fun sub => sub.id = p.id

theorem ProxySdata.Shape.inOrder {s : ProxySdata} (h : Shape s) (hordered : Ordered s) :
    InOrder s where
  once := by
    have honce := h.once
    rwa [map_fst_entries] at honce
  ordered := (ordered_iff s).mp hordered
  current id hid := by
    have hlisted := h.isListed id hid
    constructor
    · rw [map_fst_entries] at hlisted
      exact List.mem_map.mp hlisted
    · obtain ⟨e, he, rfl⟩ := List.mem_map.mp hlisted
      cases hparent : s.existing e.1 0 with
      | none => exact absurd (h.parents e he) (existing_eq_none_iff.mp hparent)
      | some parent => exact ⟨parent, rfl⟩
  counts p hp := by
    have hcount := h.counts p.entry (List.mem_map.mpr ⟨p, hp, rfl⟩)
    rw [keys, List.countP_map] at hcount
    exact hcount

/-- **When the table is in order.**  In a run whose steps keep to the condition, the table is
in order after every step: every listed proxy once and in the order of priority, a listed
current proxy, and true counts. -/
theorem table_in_order (nonce2length : Nat) (enonce1_64 : UInt64) (events : List TableEvent)
    (h : Along (tableStep nonce2length) KeepsOrder (start enonce1_64) events) :
    InOrder (run (tableStep nonce2length) (start enonce1_64) events) := by
  have hrun := run_invariant (I := fun s => Shape s ∧ Ordered s)
    (fun s e hc hs => ⟨hs.1.step nonce2length e, hs.2.step hs.1 nonce2length hc⟩) h
    ⟨shape_start enonce1_64, List.Pairwise.nil⟩
  exact hrun.1.inOrder hrun.2

/-- Two global proxies come, and the first is deleted. -/
def deleteFirst : List TableEvent :=
  [.create 0 0, .subscribed ⟨0, 0, true, 0, [], 8⟩, .setPrio 0 0 0, .check,
    .create 1 0, .subscribed ⟨1, 0, true, 0, [], 8⟩, .setPrio 1 0 1, .check,
    .die 0 0 true, .check]

/-- When it can be freed the table is in order. -/
theorem deleteFirst_in_order :
    InOrder (run (tableStep 0) (start 0) (deleteFirst ++ [.reap []])) :=
  table_in_order 0 0 _ (by decide)

/-- When one of its workbases is in use it goes behind the second, before it in priority. -/
theorem deleteFirst_out_of_order :
    ¬InOrder (run (tableStep 0) (start 0) (deleteFirst ++ [.reap [⟨(0, 0), true⟩]])) := by
  intro h
  have hprios := (List.pairwise_map (f := ParentProxy.priority)).mpr h.ordered
  revert hprios
  decide

end CashStratum
