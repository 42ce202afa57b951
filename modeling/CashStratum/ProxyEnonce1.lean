/-
CashStratum/ProxyEnonce1.lean

Which clients of a proxying pool share an enonce1.  Two clients of one subproxy, bound to it
under the same upstream subscription, mine the same work, so their enonce1s must differ.

What the pool counts is enough for the number of clients: where one subscribes after another, each
subproxy has at most `max_clients` of them (`ProxySdata.Inv.current`).  It is not enough for their
enonce1s.  The counter is one for all subproxies and its low bytes begin again after
`256 ^ varlen` values, of which the subproxy need have handed out only a few; no look is
taken at the values in use.  So the enonce1s differ exactly as long as no client is sent to a
subproxy where a live one has the low bytes that come next (`enonce1s_differ_iff`).

An upstream event changes the subproxies and no client, and everything the invariant needs
to know of such an event is that every subproxy goes on from one that was there before or is
new (`Reworked`).
-/
import CashStratum.ProxyClients

namespace CashStratum

/-! ### Enonce1s -/

/-- Two enonce1s of one workbase are the same when the low bytes of the counter are. -/
theorem ProxyWb.fillEnonce1data_eq_iff (wb : ProxyWb) (m n : UInt64) :
    wb.fillEnonce1data m = wb.fillEnonce1data n ↔
      m.toNat % 256 ^ wb.varlen = n.toNat % 256 ^ wb.varlen := by
  rw [ProxyWb.fillEnonce1data, ProxyWb.fillEnonce1data, List.append_right_inj]
  constructor
  · intro h
    rw [← leNat_leBytes, ← leNat_leBytes, h]
  · intro h
    rw [← leBytes_mod wb.varlen m.toNat, ← leBytes_mod wb.varlen n.toNat, h]

/-- Two clients are bound to the same subproxy under the same upstream subscription. -/
def Binding.Beside (a b : Binding) : Prop :=
  a.proxy = b.proxy ∧ a.subscription = b.subscription

variable {sub : Subproxy}

namespace ProxySdata

/-- How many live clients are bound to a subproxy under one of its subscriptions. -/
def boundUnder (s : ProxySdata) (proxy : Int × Int) (subscription : Nat) : Nat :=
  s.bindings.countP fun b => b.proxy = proxy ∧ b.subscription = subscription

/-- What is asked of a state: live clients beside each other have different enonce1s, and
there are at most `max_clients` of them, also under a subscription that is past. -/
structure Safe (s : ProxySdata) : Prop where
  unique : s.bindings.Pairwise fun a b => a.Beside b → a.enonce1bin ≠ b.enonce1bin
  past : ∀ b ∈ s.bindings, s.boundUnder b.proxy b.subscription ≤ b.maxClients
  current : ∀ sub ∈ s.subproxies, s.boundUnder sub.key sub.subscription ≤ sub.maxClients

/-- **The condition.**  When a client is to be bound to a subproxy, every live client there,
under the same subscription, has other low bytes of the counter than come next; or, when it
was bound before the workbase came in that is current, another enonce1. -/
def NextIsFree (s : ProxySdata) : ProxyEvent → Prop
  | .subscribe id userid =>
    (s.clients.any fun client => client.id = id) = false → s.proxy ≠ none →
      ∀ sub, s.chooseSubproxy userid = some sub → ∀ wb, sub.currentWorkbase = some wb →
        sub.clients < sub.maxClients → ∀ b ∈ s.bindings, b.proxy = sub.key →
          b.subscription = sub.subscription →
            if b.workbase = wb then
              b.enonce1_64.toNat % 256 ^ wb.varlen ≠
                (s.enonce1_64 + 1).toNat % 256 ^ wb.varlen
            else b.enonce1bin ≠ wb.fillEnonce1data (s.enonce1_64 + 1)
  | _ => True

/-! ### The invariant -/

/-- What holds in every state of a run. -/
structure Inv (s : ProxySdata) : Prop where
  keys : (s.subproxies.map Subproxy.key).Nodup
  ids : (s.clients.map ProxyClient.id).Nodup
  bound : ∀ sub ∈ s.subproxies,
    sub.boundClients = s.bindings.countP fun b => b.proxy = sub.key
  present : ∀ b ∈ s.bindings, ∃ sub ∈ s.subproxies, sub.key = b.proxy
  counted : ∀ sub ∈ s.subproxies, s.boundUnder sub.key sub.subscription ≤ sub.clients
  room : ∀ sub ∈ s.subproxies, sub.clients ≤ sub.maxClients
  numbered : ∀ sub ∈ s.subproxies, sub.subscription ≤ s.subscriptions
  earlier : ∀ b ∈ s.bindings, b.subscription ≤ s.subscriptions
  agrees : ∀ sub ∈ s.subproxies, ∀ b ∈ s.bindings, b.proxy = sub.key →
    b.subscription = sub.subscription → b.maxClients = sub.maxClients
  past : ∀ b ∈ s.bindings, s.boundUnder b.proxy b.subscription ≤ b.maxClients
  filled : ∀ b ∈ s.bindings, b.enonce1bin = b.workbase.fillEnonce1data b.enonce1_64

variable {s s' : ProxySdata}

theorem Inv.current (h : Inv s) (hsub : sub ∈ s.subproxies) :
    s.boundUnder sub.key sub.subscription ≤ sub.maxClients :=
  (h.counted sub hsub).trans (h.room sub hsub)

theorem Inv.safe_iff (h : Inv s) :
    Safe s ↔ s.bindings.Pairwise fun a b => a.Beside b → a.enonce1bin ≠ b.enonce1bin :=
  ⟨fun hsafe => hsafe.unique, fun hunique => ⟨hunique, h.past, fun _ hsub => h.current hsub⟩⟩

theorem inv_start (enonce1_64 : UInt64) : Inv (start enonce1_64) := by
  constructor <;> simp [start, bindings]

/-- Nobody is bound to a subproxy that has no record, or whose count says so. -/
theorem Inv.countP_eq_zero (h : Inv s) {key : Int × Int}
    (hnone : ∀ sub ∈ s.subproxies, sub.key = key → sub.boundClients = 0) :
    ∀ b ∈ s.bindings, b.proxy ≠ key := by
  intro b hb hkey
  obtain ⟨sub, hsub, hsubkey⟩ := h.present b hb
  have hcount := h.bound sub hsub
  rw [hnone sub hsub (hsubkey.trans hkey)] at hcount
  have hzero : s.bindings.countP (fun b => b.proxy = sub.key) = 0 := by omega
  exact (List.countP_eq_zero.mp hzero) b hb (decide_eq_true hsubkey.symm)

theorem boundUnder_eq_zero {proxy : Int × Int} {subscription : Nat}
    (h : ∀ b ∈ s.bindings, b.proxy = proxy → b.subscription ≠ subscription) :
    s.boundUnder proxy subscription = 0 := by
  apply List.countP_eq_zero.mpr
  intro b hb hboth
  obtain ⟨hproxy, hsubscription⟩ := of_decide_eq_true hboth
  exact h b hb hproxy hsubscription

/-! ### Upstream events -/

/-- A subproxy goes on under its subscription, the count of its clients maybe begun again, or
under a new one. -/
structure GoesOn (s s' : ProxySdata) (sub sub' : Subproxy) : Prop where
  key : sub'.key = sub.key
  boundClients : sub'.boundClients = sub.boundClients
  clients : sub'.clients = sub.clients ∨ sub'.clients = 0
  terms : (sub'.subscription = sub.subscription ∧ sub'.maxClients = sub.maxClients ∧
      (sub'.clients = sub.clients ∨ sub.boundClients = 0)) ∨
    (s.subscriptions < sub'.subscription ∧ sub'.subscription ≤ s'.subscriptions ∧
      sub'.clients = 0)

/-- A subproxy is new. -/
structure IsNew (s s' : ProxySdata) (sub' : Subproxy) : Prop where
  key : ∀ sub ∈ s.subproxies, sub.key ≠ sub'.key
  boundClients : sub'.boundClients = 0
  clients : sub'.clients = 0
  subscription : sub'.subscription ≤ s'.subscriptions

/-- What an event may do that binds no client and lets none go. -/
structure Reworked (s s' : ProxySdata) : Prop where
  ids : (s'.clients.map ProxyClient.id).Nodup
  bindings : s'.bindings = s.bindings
  subscriptions : s.subscriptions ≤ s'.subscriptions
  keys : (s'.subproxies.map Subproxy.key).Nodup
  kept : ∀ sub ∈ s.subproxies, sub.boundClients ≠ 0 → ∃ sub' ∈ s'.subproxies, sub'.key = sub.key
  comes : ∀ sub' ∈ s'.subproxies,
    (∃ sub ∈ s.subproxies, GoesOn s s' sub sub') ∨ IsNew s s' sub'

theorem Inv.reworked (h : Inv s) (hr : Reworked s s') : Inv s' := by
  have hbindings := hr.bindings
  have hunder : ∀ proxy subscription,
      s'.boundUnder proxy subscription = s.boundUnder proxy subscription := by
    intro proxy subscription
    rw [boundUnder, boundUnder, hbindings]
  -- nobody is bound to a new subproxy
  have hnew : ∀ sub', IsNew s s' sub' → ∀ b ∈ s.bindings, b.proxy ≠ sub'.key := by
    intro sub' hsub'
    exact h.countP_eq_zero fun sub hsub hkey => absurd hkey (hsub'.key sub hsub)
  refine
    { keys := hr.keys
      ids := hr.ids
      bound := ?_
      present := ?_
      counted := ?_
      room := ?_
      numbered := ?_
      earlier := ?_
      agrees := ?_
      past := ?_
      filled := ?_ }
  · intro sub' hsub'
    rw [hbindings]
    obtain ⟨sub, hsub, hgoes⟩ | hsubnew := hr.comes sub' hsub'
    · rw [hgoes.boundClients, hgoes.key]
      exact h.bound sub hsub
    · have hzero : s.bindings.countP (fun b => b.proxy = sub'.key) = 0 := by
        apply List.countP_eq_zero.mpr
        intro b hb hkey
        exact hnew sub' hsubnew b hb (of_decide_eq_true hkey)
      rw [hzero, hsubnew.boundClients]
      rfl
  · rw [hbindings]
    intro b hb
    obtain ⟨sub, hsub, hkey⟩ := h.present b hb
    have hbound : sub.boundClients ≠ 0 := by
      have hpos : 0 < s.bindings.countP fun b => b.proxy = sub.key :=
        List.countP_pos_iff.mpr ⟨b, hb, decide_eq_true hkey.symm⟩
      have hcount := h.bound sub hsub
      omega
    obtain ⟨sub', hsub', hkey'⟩ := hr.kept sub hsub hbound
    exact ⟨sub', hsub', hkey'.trans hkey⟩
  · intro sub' hsub'
    rw [hunder]
    obtain ⟨sub, hsub, hgoes⟩ | hsubnew := hr.comes sub' hsub'
    · rw [hgoes.key]
      obtain ⟨hsubscription, -, hclients | hnone⟩ | ⟨hlt, -, -⟩ := hgoes.terms
      · rw [hsubscription, hclients]
        exact h.counted sub hsub
      · have hnobody : ∀ b ∈ s.bindings, b.proxy ≠ sub.key := by
          apply h.countP_eq_zero
          intro sub₂ hsub₂ hkey
          rw [List.inj_on_of_nodup_map h.keys hsub₂ hsub hkey]
          exact hnone
        rw [boundUnder_eq_zero fun b hb hkey => absurd hkey (hnobody b hb)]
        exact Nat.zero_le _
      · rw [boundUnder_eq_zero fun b hb _ heq => absurd (h.earlier b hb) (by omega)]
        exact Nat.zero_le _
    · rw [boundUnder_eq_zero fun b hb hkey => absurd hkey (hnew sub' hsubnew b hb)]
      exact Nat.zero_le _
  · intro sub' hsub'
    obtain ⟨sub, hsub, hgoes⟩ | hsubnew := hr.comes sub' hsub'
    · obtain ⟨-, hmax, -⟩ | ⟨-, -, hzero⟩ := hgoes.terms
      · have hroom := h.room sub hsub
        have hclients := hgoes.clients
        omega
      · omega
    · have hzero := hsubnew.clients
      omega
  · intro sub' hsub'
    obtain ⟨sub, hsub, hgoes⟩ | hsubnew := hr.comes sub' hsub'
    · obtain ⟨hsame, -, -⟩ | ⟨-, hle, -⟩ := hgoes.terms
      · rw [hsame]
        exact (h.numbered sub hsub).trans hr.subscriptions
      · exact hle
    · exact hsubnew.subscription
  · rw [hbindings]
    intro b hb
    exact (h.earlier b hb).trans hr.subscriptions
  · rw [hbindings]
    intro sub' hsub' b hb hproxy hsubscription
    obtain ⟨sub, hsub, hgoes⟩ | hsubnew := hr.comes sub' hsub'
    · obtain ⟨hsame, hmax, -⟩ | ⟨hlt, -, -⟩ := hgoes.terms
      · rw [hmax]
        exact h.agrees sub hsub b hb (hproxy.trans hgoes.key) (hsubscription.trans hsame)
      · exact absurd (h.earlier b hb) (by omega)
    · exact absurd hproxy (hnew sub' hsubnew b hb)
  · rw [hbindings]
    intro b hb
    rw [hunder]
    exact h.past b hb
  · rw [hbindings]
    exact h.filled

theorem GoesOn.refl (s s' : ProxySdata) (sub : Subproxy) : GoesOn s s' sub sub where
  key := rfl
  boundClients := rfl
  clients := Or.inl rfl
  terms := Or.inl ⟨rfl, rfl, Or.inl rfl⟩

/-- The subproxies and the bindings are as they were. -/
theorem Inv.of_same (h : Inv s) (hsubproxies : s'.subproxies = s.subproxies)
    (hids : (s'.clients.map ProxyClient.id).Nodup) (hbindings : s'.bindings = s.bindings)
    (hsubscriptions : s.subscriptions ≤ s'.subscriptions) : Inv s' := by
  apply h.reworked
  refine ⟨hids, hbindings, hsubscriptions, ?_, ?_, ?_⟩
  · rw [hsubproxies]
    exact h.keys
  · intro sub hsub _
    exact ⟨sub, hsubproxies ▸ hsub, rfl⟩
  · intro sub hsub
    exact Or.inl ⟨sub, hsubproxies ▸ hsub, GoesOn.refl s s' sub⟩

theorem mem_modify {key : Int × Int} {f : Subproxy → Subproxy} {sub' : Subproxy}
    (h : sub' ∈ (s.modify key f).subproxies) :
    ∃ sub ∈ s.subproxies, sub' = if sub.key = key then f sub else sub := by
  obtain ⟨sub, hsub, heq⟩ := List.mem_map.mp h
  exact ⟨sub, hsub, heq.symm⟩

/-- One subproxy goes on in another way. -/
theorem Inv.modify (h : Inv s) {key : Int × Int} {f : Subproxy → Subproxy}
    {subscriptions : Nat} (hsubscriptions : s.subscriptions ≤ subscriptions)
    (hf : ∀ sub ∈ s.subproxies, GoesOn s { s with subscriptions } sub (f sub)) :
    Inv { s.modify key f with subscriptions } := by
  apply h.reworked
  have hgoes : ∀ sub ∈ s.subproxies,
      GoesOn s { s with subscriptions } sub (if sub.key = key then f sub else sub) := by
    intro sub hsub
    split
    · exact hf sub hsub
    · exact GoesOn.refl _ _ sub
  refine ⟨h.ids, rfl, hsubscriptions, ?_, ?_, ?_⟩
  · show ((s.subproxies.map _).map Subproxy.key).Nodup
    have hsame : (s.subproxies.map fun sub => if sub.key = key then f sub else sub).map
        Subproxy.key = s.subproxies.map Subproxy.key := by
      rw [List.map_map]
      exact List.map_congr_left fun sub hsub => (hgoes sub hsub).key
    rw [hsame]
    exact h.keys
  · intro sub hsub _
    exact ⟨_, List.mem_map.mpr ⟨sub, hsub, rfl⟩, (hgoes sub hsub).key⟩
  · intro sub' hsub'
    obtain ⟨sub, hsub, rfl⟩ := mem_modify hsub'
    have hgo := hgoes sub hsub
    exact Or.inl ⟨sub, hsub, hgo.key, hgo.boundClients, hgo.clients, hgo.terms⟩

/-- A subproxy is added. -/
theorem Inv.add (h : Inv s) {id subid : Int} (hnew : s.existing id subid = none)
    {proxies : List ParentProxy} :
    Inv { s with subproxies := s.subproxies ++ [{ id, subid }], proxies } := by
  apply h.reworked
  have hkey := find?_key_eq_none_iff.mp hnew
  refine ⟨h.ids, rfl, le_rfl, nodup_append_key h.keys hnew, ?_, ?_⟩
  · intro sub hsub _
    exact ⟨sub, List.mem_append_left _ hsub, rfl⟩
  · intro sub' hsub'
    obtain hold | hlast := List.mem_append.mp hsub'
    · exact Or.inl ⟨sub', hold, GoesOn.refl _ _ sub'⟩
    · obtain rfl := List.mem_singleton.mp hlast
      exact Or.inr ⟨hkey, rfl, rfl, Nat.zero_le _⟩

@[simp] theorem checkBestproxy_subproxies (s : ProxySdata) :
    s.checkBestproxy.subproxies = s.subproxies := by
  rw [checkBestproxy]
  split
  · rfl
  · split <;> rfl

@[simp] theorem checkBestproxy_clients (s : ProxySdata) :
    s.checkBestproxy.clients = s.clients := by
  rw [checkBestproxy]
  split
  · rfl
  · split <;> rfl

@[simp] theorem checkBestproxy_subscriptions (s : ProxySdata) :
    s.checkBestproxy.subscriptions = s.subscriptions := by
  rw [checkBestproxy]
  split
  · rfl
  · split <;> rfl

theorem Inv.checkBestproxy (h : Inv s) : Inv s.checkBestproxy := by
  refine h.of_same (checkBestproxy_subproxies s) ?_ ?_ (checkBestproxy_subscriptions s).ge
  · rw [checkBestproxy_clients]
    exact h.ids
  · rw [bindings, bindings, checkBestproxy_clients]

theorem Inv.checkProxy (h : Inv s) (global : Bool) : Inv (s.checkProxy global) := by
  rw [ProxySdata.checkProxy]
  split
  · exact h.checkBestproxy
  · exact h

theorem Inv.setProxyPrio (h : Inv s) (id subid userid priority : Int) :
    Inv (s.setProxyPrio id subid userid priority) :=
  h.of_same rfl h.ids rfl le_rfl

theorem Inv.deadProxyid (h : Inv s) (id subid : Int) (replaced deleted : Bool) :
    Inv (s.deadProxyid id subid replaced deleted) := by
  rw [ProxySdata.deadProxyid]
  split
  · exact h
  · have hdead : Inv (s.modify (id, subid) fun sub => { sub with dead := true, deleted }) :=
      h.modify le_rfl fun sub _ =>
        { key := rfl, boundClients := rfl, clients := Or.inl rfl
          terms := Or.inl ⟨rfl, rfl, Or.inl rfl⟩ }
    dsimp only
    split
    · exact hdead.checkBestproxy
    · exact hdead

theorem Inv.proxyById (h : Inv s) (id : Int) : Inv (s.proxyById id) := by
  rw [ProxySdata.proxyById]
  split
  · exact h
  · rename_i hnone
    exact h.add hnone

theorem Inv.subproxyById (h : Inv s) (id subid : Int) : Inv (s.subproxyById id subid) := by
  rw [ProxySdata.subproxyById]
  split
  · exact h
  · rename_i hnone
    exact h.add hnone

theorem Inv.updateSubscribe (h : Inv s) (nonce2length : Nat) (m : SubscribeMsg) :
    Inv (s.updateSubscribe nonce2length m) := by
  have hwritten : ∀ t, Inv t →
      Inv ({ t with subscriptions := t.subscriptions + 1 }.modify (m.proxy, m.subproxy)
        (subscribeProxy nonce2length m (t.subscriptions + 1))) := by
    intro t ht
    exact ht.modify (Nat.le_succ _) fun sub _ =>
      { key := rfl, boundClients := rfl, clients := Or.inr rfl
        terms := Or.inr ⟨Nat.lt_succ_self _, le_rfl, rfl⟩ }
  rw [ProxySdata.updateSubscribe]
  apply Inv.checkProxy
  cases (s.existing m.proxy m.subproxy).isSome with
  | true => exact hwritten _ (h.deadProxyid _ _ _ _)
  | false => exact (hwritten _ ((h.proxyById _).subproxyById _ _)).setProxyPrio _ _ _ _

theorem Inv.updateNotify (h : Inv s) (id subid : Int) : Inv (s.updateNotify id subid) := by
  rw [ProxySdata.updateNotify]
  split
  · exact h
  · split
    · exact h
    · apply Inv.checkProxy
      exact h.modify le_rfl fun sub _ =>
        { key := rfl, boundClients := rfl, clients := Or.inl rfl
          terms := Or.inl ⟨rfl, rfl, Or.inl rfl⟩ }

theorem Inv.setproxy (h : Inv s) (id priority : Int) : Inv (s.setproxy id priority) := by
  rw [ProxySdata.setproxy]
  split
  · exact h
  · exact h.setProxyPrio _ _ _ _

/-! ### Reaping -/

theorem freeProxy_eq_some {busy : List Busy} {sub sub' : Subproxy}
    (h : freeProxy busy sub = some sub') :
    sub' = sub ∨ sub' = { sub with currentWorkbase := none } := by
  obtain ⟨b, -, heq⟩ := Option.map_eq_some_iff.mp h
  split at heq
  · exact Or.inl heq.symm
  · exact Or.inr heq.symm

theorem freeProxy_goesOn {busy : List Busy} {sub sub' : Subproxy}
    (h : freeProxy busy sub = some sub') : GoesOn s s' sub sub' := by
  obtain rfl | rfl := freeProxy_eq_some h
  · exact GoesOn.refl s s' _
  · exact
      { key := rfl, boundClients := rfl, clients := Or.inl rfl
        terms := Or.inl ⟨rfl, rfl, Or.inl rfl⟩ }

theorem beginAgain_goesOn (s s' : ProxySdata) (sub : Subproxy) :
    GoesOn s s' sub sub.beginAgain := by
  rw [Subproxy.beginAgain]
  split
  · rename_i hnone
    exact
      { key := rfl, boundClients := rfl, clients := Or.inr rfl
        terms := Or.inl ⟨rfl, rfl, Or.inr hnone.1⟩ }
  · exact GoesOn.refl s s' sub

theorem Inv.reapSubproxies (h : Inv s) (busy : List Busy) (id : Int) :
    Inv (reapSubproxies busy s id) := by
  apply h.reworked
  have hstay : ∀ sub : Subproxy, GoesOn s (ProxySdata.reapSubproxies busy s id) sub
      (if sub.id = id then sub.beginAgain else sub) := by
    intro sub
    split
    · exact beginAgain_goesOn _ _ sub
    · exact GoesOn.refl _ _ sub
  refine ⟨h.ids, rfl, le_rfl, ?_, ?_, ?_⟩
  · -- the keys are those of the subproxies that stay and of some of the others
    rw [ProxySdata.reapSubproxies, List.map_append, List.map_map]
    have hkeys : (Subproxy.key ∘ fun sub : Subproxy =>
        if sub.id = id then sub.beginAgain else sub) = Subproxy.key := by
      funext sub
      exact (hstay sub).key
    rw [hkeys]
    have hsome : ∀ l : List Subproxy,
        ((l.filterMap (freeProxy busy)).map Subproxy.key).Sublist (l.map Subproxy.key) := by
      intro l
      induction l with
      | nil => exact List.Sublist.slnil
      | cons sub l ih =>
        cases hfree : freeProxy busy sub with
        | none =>
          rw [List.filterMap_cons_none hfree]
          exact ih.cons _
        | some sub' =>
          rw [List.filterMap_cons_some hfree, List.map_cons, List.map_cons,
            (show GoesOn s s _ _ from freeProxy_goesOn hfree).key]
          exact ih.cons_cons _
    refine List.Nodup.sublist ((List.Sublist.refl _).append (hsome _)) ?_
    rw [← List.map_append]
    refine (List.Perm.nodup_iff (List.Perm.map _ ?_)).mpr h.keys
    have hperm := List.filter_append_perm
      (fun sub : Subproxy => decide (sub.id = id) && sub.retired) s.subproxies
    exact List.perm_append_comm.trans hperm
  · intro sub hsub hbound
    have hnot : (!(decide (sub.id = id) && sub.retired)) = true := by
      simp [Subproxy.retired, hbound]
    refine ⟨_, List.mem_append_left _ (List.mem_map.mpr
      ⟨sub, List.mem_filter.mpr ⟨hsub, hnot⟩, rfl⟩), (hstay sub).key⟩
  · intro sub' hsub'
    refine Or.inl ?_
    obtain hstays | hleaves := List.mem_append.mp hsub'
    · obtain ⟨sub, hsub, rfl⟩ := List.mem_map.mp hstays
      exact ⟨sub, (List.mem_filter.mp hsub).1, hstay sub⟩
    · obtain ⟨sub, hsub, hfree⟩ := List.mem_filterMap.mp hleaves
      exact ⟨sub, (List.mem_filter.mp hsub).1, freeProxy_goesOn hfree⟩

theorem Inv.reapParent (h : Inv s) (busy : List Busy) (id : Int) : Inv (reapParent busy s id) := by
  rw [ProxySdata.reapParent]
  split
  · rename_i entry parent _ hparent
    obtain ⟨hmem, hkey⟩ := (find?_key_eq_some_iff h.keys).mp hparent
    split
    · exact h
    · rename_i hgoes
      have hnone : parent.boundClients = 0 := by
        by_contra hbound
        exact hgoes (by simp [hbound])
      have hfilter : ((s.subproxies.filter fun sub => sub.key ≠ (id, 0)).map
          Subproxy.key).Nodup := h.keys.sublist (List.filter_sublist.map _)
      have hkept : ∀ sub ∈ s.subproxies, sub.boundClients ≠ 0 →
          sub ∈ s.subproxies.filter fun sub => sub.key ≠ (id, 0) := by
        intro sub hsub hbound
        refine List.mem_filter.mpr ⟨hsub, decide_eq_true ?_⟩
        intro hsame
        rw [List.inj_on_of_nodup_map h.keys hsub hmem (hsame.trans hkey.symm)] at hbound
        exact hbound hnone
      dsimp only
      split
      · apply h.reworked
        refine ⟨h.ids, rfl, le_rfl, hfilter, ?_, ?_⟩
        · intro sub hsub hbound
          exact ⟨sub, hkept sub hsub hbound, rfl⟩
        · intro sub' hsub'
          exact Or.inl ⟨sub', (List.mem_filter.mp hsub').1, GoesOn.refl _ _ sub'⟩
      · rename_i parent' hfree
        have hgo : ∀ t, GoesOn s t _ parent' := fun _ => freeProxy_goesOn hfree
        have hkey' : parent'.key = (id, 0) := (hgo s).key.trans hkey
        apply h.reworked
        refine ⟨h.ids, rfl, le_rfl, ?_, ?_, ?_⟩
        · apply nodup_append_key hfilter
          refine find?_key_eq_none_iff.mpr ?_
          intro sub hsub
          rw [hkey']
          exact of_decide_eq_true (List.mem_filter.mp hsub).2
        · intro sub hsub hbound
          exact ⟨sub, List.mem_append_left _ (hkept sub hsub hbound), rfl⟩
        · intro sub' hsub'
          obtain hold | hlast := List.mem_append.mp hsub'
          · exact Or.inl ⟨sub', (List.mem_filter.mp hold).1, GoesOn.refl _ _ sub'⟩
          · obtain rfl := List.mem_singleton.mp hlast
            exact Or.inl ⟨parent, hmem, hgo _⟩
  · exact h

theorem Inv.reapProxies (h : Inv s) (busy : List Busy) : Inv (s.reapProxies busy) := by
  rw [ProxySdata.reapProxies]
  exact run_invariant_always (I := Inv)
    (fun t id ht => (ht.reapSubproxies busy id).reapParent busy id) _ h

/-! ### Clients -/

theorem existing_mem {id subid : Int} (h : s.existing id subid = some sub) :
    sub ∈ s.subproxies :=
  List.mem_of_find?_eq_some h

theorem selectFrom_mem {userid : Int} {best : Option Subproxy} {proxies : List ParentProxy}
    (hbest : ∀ sub, best = some sub → sub ∈ s.subproxies)
    (h : s.selectFrom userid best proxies = some sub) : sub ∈ s.subproxies := by
  induction proxies generalizing best with
  | nil => exact hbest sub h
  | cons p rest ih =>
    rw [selectFrom] at h
    split at h
    · exact ih hbest h
    · split at h
      · exact ih hbest h
      · split at h
        · exact hbest sub h
        · split at h
          · exact ih (fun _ hnone => by cases hnone) h
          · rename_i hfound
            obtain rfl := Option.some.inj h
            exact List.mem_of_find?_eq_some hfound

theorem selectBest_mem {userid : Int} (h : s.selectBest userid = some sub) :
    sub ∈ s.subproxies := by
  refine selectFrom_mem ?_ h
  intro parent hparent
  obtain ⟨id, -, hexisting⟩ := Option.bind_eq_some_iff.mp hparent
  exact existing_mem hexisting

theorem selectSdata_mem {userid : Int}
    (h : (s.selectSdata userid).join = some sub) : sub ∈ s.subproxies := by
  rw [selectSdata] at h
  split at h
  · cases h
  · rename_i best hbest
    split at h
    · cases h
    · obtain rfl := Option.some.inj h
      exact selectBest_mem hbest

theorem chooseSubproxy_mem {userid : Int}
    (h : s.chooseSubproxy userid = some sub) : sub ∈ s.subproxies := by
  have hworking : ∀ userid sub, working (s.selectSdata userid).join = some sub →
      sub ∈ s.subproxies := by
    intro userid sub hsub
    exact selectSdata_mem (Option.filter_eq_some_iff.mp hsub).1
  obtain ⟨first, hfirst, hchosen⟩ := Option.map_eq_some_iff.mp h
  split at hchosen
  · exact hchosen ▸ hworking _ _ hfirst
  · cases hown : working (s.selectSdata userid).join with
    | none =>
      rw [hown] at hchosen
      exact hchosen ▸ hworking _ _ hfirst
    | some own =>
      rw [hown] at hchosen
      exact hchosen ▸ hworking _ _ hown

/-- What a client gets, and where. -/
theorem newEnonce1_eq_some_iff {b : Binding} :
    s.newEnonce1 sub = some b ↔
      s.proxy ≠ none ∧ sub.clients < sub.maxClients ∧ ∃ wb, sub.currentWorkbase = some wb ∧
        b = { proxy := sub.key, enonce1_64 := s.enonce1_64 + 1,
              enonce1bin := wb.fillEnonce1data (s.enonce1_64 + 1), workbase := wb,
              subscription := sub.subscription, maxClients := sub.maxClients } := by
  rw [newEnonce1]
  cases hproxy : s.proxy with
  | none => simp
  | some id =>
    rw [if_neg (by simp)]
    by_cases hfull : sub.maxClients ≤ sub.clients
    · rw [if_pos hfull]
      simp only [reduceCtorEq, false_iff]
      intro h
      omega
    · rw [if_neg hfull, Option.map_eq_some_iff]
      constructor
      · rintro ⟨wb, hwb, rfl⟩
        exact ⟨by simp, by omega, wb, hwb, rfl⟩
      · rintro ⟨-, -, wb, hwb, rfl⟩
        exact ⟨wb, hwb, rfl⟩

@[simp] theorem bind_bindings (s : ProxySdata) (id : Int) (b : Binding) :
    (s.bind id b).bindings = s.bindings ++ [b] := by
  show (s.clients ++ [_]).filterMap _ = _
  rw [List.filterMap_append]
  rfl

/-- One more client keeps the ids apart. -/
theorem nodup_ids_append {clients : List ProxyClient} {id : Int} {binding : Option Binding}
    (h : (clients.map ProxyClient.id).Nodup) (hid : ∀ client ∈ clients, client.id ≠ id) :
    ((clients ++ [(⟨id, binding⟩ : ProxyClient)]).map ProxyClient.id).Nodup :=
  nodup_append_key h (find?_key_eq_none_iff.mpr hid)

/-- **A client is bound.**  Its subproxy has room, and the terms are the subproxy's own. -/
theorem Inv.bind (h : Inv s) {id : Int} (hid : ∀ client ∈ s.clients, client.id ≠ id)
    (hsub : sub ∈ s.subproxies) {b : Binding} (hb : s.newEnonce1 sub = some b) :
    Inv (s.bind id b) := by
  obtain ⟨-, hroom, wb, -, hterms⟩ := newEnonce1_eq_some_iff.mp hb
  have hbproxy : b.proxy = sub.key := by rw [hterms]
  have hbsubscription : b.subscription = sub.subscription := by rw [hterms]
  have hbmax : b.maxClients = sub.maxClients := by rw [hterms]
  have hbfilled : b.enonce1bin = b.workbase.fillEnonce1data b.enonce1_64 := by rw [hterms]
  have hunder : ∀ proxy subscription, (s.bind id b).boundUnder proxy subscription =
      s.boundUnder proxy subscription +
        if b.proxy = proxy ∧ b.subscription = subscription then 1 else 0 := by
    intro proxy subscription
    rw [boundUnder, bind_bindings, List.countP_append, boundUnder, List.countP_singleton]
    simp only [decide_eq_true_eq]
  -- the subproxies that the client is not bound to are as they were
  have hmem : ∀ sub' ∈ (s.bind id b).subproxies,
      (sub' ∈ s.subproxies ∧ sub'.key ≠ sub.key) ∨
        sub' = sub.bindClient := by
    intro sub' hsub'
    obtain ⟨old, hold, rfl⟩ := mem_modify hsub'
    rw [hbproxy]
    split
    · rename_i hkey
      rw [List.inj_on_of_nodup_map h.keys hold hsub hkey]
      exact Or.inr rfl
    · rename_i hkey
      exact Or.inl ⟨hold, hkey⟩
  have hcounted := h.counted sub hsub
  refine
    { keys := ?_
      ids := ?_
      bound := ?_
      present := ?_
      counted := ?_
      room := ?_
      numbered := ?_
      earlier := ?_
      agrees := ?_
      past := ?_
      filled := ?_ }
  · -- a binding changes no key
    refine nodup_map_of_key ?_ h.keys
    intro entry
    split <;> rfl
  · exact nodup_ids_append h.ids hid
  · -- the count of the subproxy goes up with the new client
    intro sub' hsub'
    rw [bind_bindings, List.countP_append, List.countP_singleton]
    obtain ⟨hold, hkey⟩ | rfl := hmem sub' hsub'
    · have hother : b.proxy ≠ sub'.key := fun heq => hkey (heq.symm.trans hbproxy)
      rw [if_neg (by simpa using hother)]
      exact h.bound sub' hold
    · have hbound := h.bound sub hsub
      rw [if_pos (decide_eq_true (show b.proxy = sub.bindClient.key from hbproxy))]
      show sub.boundClients + 1 = ((s.bindings.countP fun b => b.proxy = sub.key) + 1 : Nat)
      omega
  · -- every client is bound to a subproxy that is there
    intro c hc
    rw [bind_bindings] at hc
    obtain ⟨sub', hsub', hkey⟩ : ∃ sub' ∈ s.subproxies, sub'.key = c.proxy := by
      obtain hold | hlast := List.mem_append.mp hc
      · exact h.present c hold
      · obtain rfl := List.mem_singleton.mp hlast
        exact ⟨sub, hsub, hbproxy.symm⟩
    refine ⟨_, List.mem_map.mpr ⟨sub', hsub', rfl⟩, ?_⟩
    rw [← hkey]
    split <;> rfl
  · -- its `clients` still bounds those of its subscription
    intro sub' hsub'
    rw [hunder]
    obtain ⟨hold, hkey⟩ | rfl := hmem sub' hsub'
    · rw [if_neg fun hboth => hkey (hboth.1.symm.trans hbproxy)]
      exact h.counted sub' hold
    · rw [if_pos ⟨hbproxy, hbsubscription⟩]
      exact Nat.succ_le_succ hcounted
  · intro sub' hsub'
    obtain ⟨hold, -⟩ | rfl := hmem sub' hsub'
    · exact h.room sub' hold
    · -- there was room, by the test of `new_enonce1`
      exact hroom
  · intro sub' hsub'
    obtain ⟨hold, -⟩ | rfl := hmem sub' hsub'
    · exact h.numbered sub' hold
    · exact h.numbered sub hsub
  · intro c hc
    rw [bind_bindings] at hc
    obtain hold | hlast := List.mem_append.mp hc
    · exact h.earlier c hold
    · obtain rfl := List.mem_singleton.mp hlast
      exact hbsubscription ▸ h.numbered sub hsub
  · -- clients of the present subscription have its terms
    intro sub' hsub' c hc hproxy hsubscription
    rw [bind_bindings] at hc
    obtain ⟨hold, hkey⟩ | rfl := hmem sub' hsub'
    · obtain hc | hlast := List.mem_append.mp hc
      · exact h.agrees sub' hold c hc hproxy hsubscription
      · obtain rfl := List.mem_singleton.mp hlast
        exact absurd (hproxy.symm.trans hbproxy) hkey
    · obtain hc | hlast := List.mem_append.mp hc
      · exact h.agrees sub hsub c hc hproxy hsubscription
      · obtain rfl := List.mem_singleton.mp hlast
        exact hbmax
  · intro c hc
    rw [bind_bindings] at hc
    rw [hunder]
    -- with the new client, those of its subscription are one more
    have hgroup : c.maxClients = sub.maxClients → b.proxy = c.proxy ∧
        b.subscription = c.subscription →
        s.boundUnder c.proxy c.subscription + 1 ≤ c.maxClients := by
      rintro hmax ⟨hproxy, hsubscription⟩
      rw [hmax, ← hproxy, ← hsubscription, hbproxy, hbsubscription]
      omega
    obtain hold | hlast := List.mem_append.mp hc
    · split
      · rename_i hboth
        exact hgroup (h.agrees sub hsub c hold (hboth.1.symm.trans hbproxy)
          (hboth.2.symm.trans hbsubscription)) hboth
      · exact h.past c hold
    · obtain rfl := List.mem_singleton.mp hlast
      rw [if_pos ⟨rfl, rfl⟩]
      exact hgroup hbmax ⟨rfl, rfl⟩
  · intro c hc
    rw [bind_bindings] at hc
    obtain hold | hlast := List.mem_append.mp hc
    · exact h.filled c hold
    · obtain rfl := List.mem_singleton.mp hlast
      exact hbfilled

theorem refuse_bindings (s : ProxySdata) (id : Int) :
    bindings { s with clients := s.clients ++ [⟨id, none⟩] } = s.bindings := by
  show (s.clients ++ [_]).filterMap _ = _
  rw [List.filterMap_append]
  exact List.append_nil _

/-- One that is refused is bound to nothing. -/
theorem Inv.refuse (h : Inv s) {id : Int} (hid : ∀ client ∈ s.clients, client.id ≠ id) :
    Inv { s with clients := s.clients ++ [⟨id, none⟩] } :=
  h.of_same rfl (nodup_ids_append h.ids hid) (refuse_bindings s id) le_rfl

/-- A binding ends. -/
theorem Inv.release (h : Inv s) {clients : List ProxyClient} {b : Binding}
    (hids : (clients.map ProxyClient.id).Nodup)
    (hperm : s.bindings.Perm (b :: clients.filterMap ProxyClient.binding)) :
    Inv ({ s with clients }.modify b.proxy Subproxy.killClient) := by
  have hcount : ∀ p : Binding → Bool, s.bindings.countP p =
      (clients.filterMap ProxyClient.binding).countP p + if p b then 1 else 0 := by
    intro p
    rw [hperm.countP_eq, List.countP_cons]
  have hless : ∀ proxy subscription,
      boundUnder { s with clients } proxy subscription ≤ s.boundUnder proxy subscription := by
    intro proxy subscription
    have hsplit := hcount fun b => b.proxy = proxy ∧ b.subscription = subscription
    rw [boundUnder, boundUnder, hsplit]
    exact Nat.le_add_right _ _
  have hold : ∀ c ∈ clients.filterMap ProxyClient.binding, c ∈ s.bindings :=
    fun c hc => hperm.mem_iff.mpr (List.mem_cons_of_mem b hc)
  have hmem : ∀ sub' ∈ ({ s with clients }.modify b.proxy Subproxy.killClient).subproxies,
      ∃ sub ∈ s.subproxies, sub' = if sub.key = b.proxy then sub.killClient else sub :=
    fun sub' hsub' => mem_modify hsub'
  refine
    { keys := ?_
      ids := hids
      bound := ?_
      present := ?_
      counted := ?_
      room := ?_
      numbered := ?_
      earlier := fun c hc => h.earlier c (hold c hc)
      agrees := ?_
      past := fun c hc => (hless _ _).trans (h.past c (hold c hc))
      filled := fun c hc => h.filled c (hold c hc) }
  · refine nodup_map_of_key ?_ h.keys
    intro entry
    split <;> rfl
  · intro sub' hsub'
    obtain ⟨sub, hsub, rfl⟩ := hmem sub' hsub'
    have hbound := h.bound sub hsub
    rw [hcount] at hbound
    by_cases hkey : sub.key = b.proxy
    · rw [if_pos (decide_eq_true hkey.symm)] at hbound
      rw [if_pos hkey]
      show sub.boundClients - 1 =
        ((clients.filterMap ProxyClient.binding).countP fun b => b.proxy = sub.key : Nat)
      omega
    · rw [if_neg (by simpa using fun heq => hkey heq.symm)] at hbound
      rw [if_neg hkey]
      exact hbound
  · intro c hc
    obtain ⟨sub, hsub, hkey⟩ := h.present c (hold c hc)
    refine ⟨_, List.mem_map.mpr ⟨sub, hsub, rfl⟩, ?_⟩
    rw [← hkey]
    split <;> rfl
  · intro sub' hsub'
    obtain ⟨sub, hsub, rfl⟩ := hmem sub' hsub'
    have hcounted := (hless _ _).trans (h.counted sub hsub)
    split <;> exact hcounted
  · intro sub' hsub'
    obtain ⟨sub, hsub, rfl⟩ := hmem sub' hsub'
    have hroom := h.room sub hsub
    split <;> exact hroom
  · intro sub' hsub'
    obtain ⟨sub, hsub, rfl⟩ := hmem sub' hsub'
    have hnumbered := h.numbered sub hsub
    split <;> exact hnumbered
  · intro sub' hsub' c hc
    obtain ⟨sub, hsub, rfl⟩ := hmem sub' hsub'
    have hagrees := h.agrees sub hsub c (hold c hc)
    split <;> exact hagrees

/-- **A client goes.** -/
theorem Inv.killInstance (h : Inv s) (id : Int) : Inv (s.killInstance id) := by
  rw [ProxySdata.killInstance]
  split
  · exact h
  · rename_i client hfind
    obtain ⟨hmem, rfl⟩ := (find?_key_eq_some_iff h.ids).mp hfind
    have hids : ((s.clients.filter fun other => other.id ≠ client.id).map
        ProxyClient.id).Nodup := h.ids.sublist (List.filter_sublist.map _)
    dsimp only
    have hperm := (perm_cons_filter_key h.ids hmem).filterMap ProxyClient.binding
    cases hb : client.binding with
    | none =>
      refine h.of_same rfl hids ?_ le_rfl
      show (s.clients.filter _).filterMap ProxyClient.binding = s.bindings
      rw [List.filterMap_filter]
      refine List.filterMap_congr fun other hother => ?_
      by_cases hsame : other.id = client.id
      · rw [List.inj_on_of_nodup_map h.ids hother hmem hsame, hb]
        simp
      · simp [hsame]
    | some b =>
      rw [List.filterMap_cons_some hb] at hperm
      exact h.release hids hperm

/-! ### Steps -/

theorem not_any_id {clients : List ProxyClient} {id : Int} :
    (clients.any fun client => client.id = id) = false ↔ ∀ client ∈ clients, client.id ≠ id := by
  simp

theorem Inv.parseSubscribe (h : Inv s) (id userid : Int) : Inv (s.parseSubscribe id userid) := by
  rw [ProxySdata.parseSubscribe]
  split
  · exact h
  · rename_i hany
    have hid := not_any_id.mp (Bool.eq_false_iff.mpr hany)
    split
    · exact h
    · rename_i sub hchosen
      split
      · exact h.refuse hid
      · rename_i b hb
        exact h.bind hid (chooseSubproxy_mem hchosen) hb

theorem Inv.step (h : Inv s) (nonce2length : Nat) (e : ProxyEvent) :
    Inv (proxyStep nonce2length s e) := by
  cases e with
  | subscribe id userid => exact h.parseSubscribe id userid
  | drop id => exact h.killInstance id
  | reap busy => exact h.reapProxies busy
  | updateSubscribe m => exact h.updateSubscribe nonce2length m
  | updateNotify id subid => exact h.updateNotify id subid
  | deadproxy id subid busy => exact (h.deadProxyid id subid false false).reapProxies busy
  | delproxy id subid busy => exact (h.deadProxyid id subid false true).reapProxies busy
  | setproxy id priority => exact h.setproxy id priority

/-! ### What an event does to the clients -/

@[simp] theorem checkProxy_clients (s : ProxySdata) (global : Bool) :
    (s.checkProxy global).clients = s.clients := by
  rw [checkProxy]
  split
  · exact checkBestproxy_clients s
  · rfl

@[simp] theorem deadProxyid_clients (s : ProxySdata) (id subid : Int) (replaced deleted : Bool) :
    (s.deadProxyid id subid replaced deleted).clients = s.clients := by
  rw [deadProxyid]
  split
  · rfl
  · dsimp only
    split
    · exact checkBestproxy_clients _
    · rfl

@[simp] theorem proxyById_clients (s : ProxySdata) (id : Int) :
    (s.proxyById id).clients = s.clients := by
  rw [proxyById]
  split <;> rfl

@[simp] theorem subproxyById_clients (s : ProxySdata) (id subid : Int) :
    (s.subproxyById id subid).clients = s.clients := by
  rw [subproxyById]
  split <;> rfl

@[simp] theorem updateSubscribe_clients (nonce2length : Nat) (s : ProxySdata) (m : SubscribeMsg) :
    (s.updateSubscribe nonce2length m).clients = s.clients := by
  rw [updateSubscribe, checkProxy_clients]
  cases (s.existing m.proxy m.subproxy).isSome with
  | true => exact deadProxyid_clients _ _ _ _ _
  | false => exact (subproxyById_clients _ _ _).trans (proxyById_clients _ _)

@[simp] theorem updateNotify_clients (s : ProxySdata) (id subid : Int) :
    (s.updateNotify id subid).clients = s.clients := by
  rw [updateNotify]
  split
  · rfl
  · split
    · rfl
    · exact checkProxy_clients _ _

@[simp] theorem setproxy_clients (s : ProxySdata) (id priority : Int) :
    (s.setproxy id priority).clients = s.clients := by
  rw [setproxy]
  split <;> rfl

@[simp] theorem reapParent_clients (busy : List Busy) (s : ProxySdata) (id : Int) :
    (reapParent busy s id).clients = s.clients := by
  rw [reapParent]
  split
  · split
    · rfl
    · dsimp only
      split <;> rfl
  · rfl

@[simp] theorem reapProxies_clients (busy : List Busy) (s : ProxySdata) :
    (s.reapProxies busy).clients = s.clients := by
  show (run (fun t id => reapParent busy (reapSubproxies busy t id) id) s _).clients = _
  exact run_invariant_always (I := fun t : ProxySdata => t.clients = s.clients)
    (fun t id ht => (reapParent_clients busy (reapSubproxies busy t id) id).trans ht) _ rfl

theorem killInstance_bindings (s : ProxySdata) (id : Int) :
    (s.killInstance id).bindings.Sublist s.bindings := by
  rw [killInstance]
  split
  · exact List.Sublist.refl _
  · have hfilter : ((s.clients.filter fun client => client.id ≠ id).filterMap
        ProxyClient.binding).Sublist s.bindings := List.filter_sublist.filterMap _
    dsimp only
    split <;> exact hfilter

/-- Only a subscription adds a binding. -/
theorem proxyStep_bindings (nonce2length : Nat) (s : ProxySdata) {e : ProxyEvent}
    (he : ∀ id userid, e ≠ .subscribe id userid) :
    (proxyStep nonce2length s e).bindings.Sublist s.bindings := by
  have hsame : ∀ t : ProxySdata, t.clients = s.clients → t.bindings.Sublist s.bindings := by
    intro t ht
    rw [bindings, bindings, ht]
  cases e with
  | subscribe id userid => exact absurd rfl (he id userid)
  | drop id => exact killInstance_bindings s id
  | reap busy => exact hsame _ (reapProxies_clients busy s)
  | updateSubscribe m => exact hsame _ (updateSubscribe_clients nonce2length s m)
  | updateNotify id subid => exact hsame _ (updateNotify_clients s id subid)
  | deadproxy id subid busy | delproxy id subid busy =>
    exact hsame _ ((reapProxies_clients busy _).trans (deadProxyid_clients s _ _ _ _))
  | setproxy id priority => exact hsame _ (setproxy_clients s id priority)

/-- A subscription keeps the enonce1s apart when the next one is free. -/
theorem Inv.parseSubscribe_unique_iff (h : Inv s)
    (hunique : s.bindings.Pairwise fun a b => a.Beside b → a.enonce1bin ≠ b.enonce1bin)
    (id userid : Int) :
    ((s.parseSubscribe id userid).bindings.Pairwise
        fun a b => a.Beside b → a.enonce1bin ≠ b.enonce1bin) ↔
      NextIsFree s (.subscribe id userid) := by
  rw [ProxySdata.parseSubscribe, NextIsFree]
  cases hany : s.clients.any fun client => client.id = id with
  | true => simpa using hunique
  | false =>
    rw [if_neg Bool.false_ne_true]
    cases hchosen : s.chooseSubproxy userid with
    | none => simpa using hunique
    | some sub =>
      cases hb : s.newEnonce1 sub with
      | none =>
        simp only [hb]
        rw [refuse_bindings]
        refine iff_of_true hunique ?_
        intro _ hproxy sub' hsub' wb hwb hroom
        obtain rfl := Option.some.inj hsub'
        have hsome := newEnonce1_eq_some_iff.mpr ⟨hproxy, hroom, wb, hwb, rfl⟩
        rw [hb] at hsome
        cases hsome
      | some b =>
        simp only [hb]
        obtain ⟨hproxy, hroom, wb, hwb, hterms⟩ := newEnonce1_eq_some_iff.mp hb
        rw [bind_bindings, List.pairwise_append]
        -- whether an enonce1 in use is the next one can be seen from the counter
        have hcollides : ∀ a ∈ s.bindings,
            ((if a.workbase = wb then a.enonce1_64.toNat % 256 ^ wb.varlen ≠
                (s.enonce1_64 + 1).toNat % 256 ^ wb.varlen
              else a.enonce1bin ≠ wb.fillEnonce1data (s.enonce1_64 + 1)) ↔
              a.enonce1bin ≠ b.enonce1bin) := by
          intro a ha
          rw [hterms]
          split
          · rename_i hsame
            rw [h.filled a ha, hsame]
            exact not_congr (wb.fillEnonce1data_eq_iff _ _).symm
          · rfl
        constructor
        · rintro ⟨-, -, hnext⟩ _ _ sub' hsub' wb' hwb' _ a ha hkey hsubscription
          obtain rfl := Option.some.inj hsub'
          obtain rfl := Option.some.inj (hwb.symm.trans hwb')
          refine (hcollides a ha).mpr (hnext a ha b (List.mem_singleton.mpr rfl) ?_)
          rw [hterms]
          exact ⟨hkey, hsubscription⟩
        · intro hfree
          refine ⟨hunique, List.pairwise_singleton _ _, ?_⟩
          intro a ha b' hb' hbeside
          obtain rfl := List.mem_singleton.mp hb'
          rw [hterms] at hbeside
          exact (hcollides a ha).mp
            (hfree trivial hproxy sub rfl wb hwb hroom a ha hbeside.1 hbeside.2)

theorem Inv.step_safe_iff (h : Inv s) (hsafe : Safe s) (nonce2length : Nat) (e : ProxyEvent) :
    Safe (proxyStep nonce2length s e) ↔ NextIsFree s e := by
  rw [(h.step nonce2length e).safe_iff]
  by_cases he : ∃ id userid, e = .subscribe id userid
  · obtain ⟨id, userid, rfl⟩ := he
    exact h.parseSubscribe_unique_iff hsafe.unique id userid
  · have hother : ∀ id userid, e ≠ .subscribe id userid :=
      fun id userid heq => he ⟨id, userid, heq⟩
    refine iff_of_true (hsafe.unique.sublist (proxyStep_bindings nonce2length s hother)) ?_
    cases e with
    | subscribe id userid => exact absurd rfl (hother id userid)
    | _ => trivial

theorem safe_start (enonce1_64 : UInt64) : Safe (start enonce1_64) := by
  constructor <;> simp [start, bindings]

end ProxySdata

open ProxySdata

/-- **Exactly when the enonce1s of a proxying pool differ.**  In every state of a run, live
clients of one subproxy and subscription have different enonce1s and are no more than
`max_clients`, if and only if no client of the run is bound where the low bytes of the
counter that come next are in use. -/
theorem enonce1s_differ_iff (nonce2length : Nat) (enonce1_64 : UInt64)
    (events : List ProxyEvent) :
    (∀ before, before <+: events →
        Safe (run (proxyStep nonce2length) (start enonce1_64) before)) ↔
      Along (proxyStep nonce2length) NextIsFree (start enonce1_64) events :=
  run_always_iff (Q := fun _ => True) (fun _ e _ h => h.step nonce2length e)
    (fun _ e _ h hsafe => h.step_safe_iff hsafe nonce2length e) (fun _ _ => trivial)
    (inv_start enonce1_64) (safe_start enonce1_64)

/-- A client of the global proxy, 255 that come and go on the proxy of user 7, and one more of
the global proxy. -/
def roundTheCounter : List ProxyEvent :=
  [.updateSubscribe ⟨0, 0, true, 0, [0xaa], 4⟩, .updateNotify 0 0,
    .updateSubscribe ⟨1, 0, false, 7, [0xbb], 4⟩, .updateNotify 1 0, .subscribe 1 (-1)] ++
  (List.replicate 255 [ProxyEvent.subscribe 2 7, .drop 2]).flatten ++ [.subscribe 3 (-1)]

/-- The first client and the last are both there, on the same subproxy, with one enonce1; the
subproxy has had two clients of the 256 that it has room for. -/
theorem roundTheCounter_shares :
    ¬∀ before, before <+: roundTheCounter → Safe (run (proxyStep 0) (start 0) before) := by
  intro hall
  have hunique := (hall roundTheCounter (List.prefix_refl _)).unique
  have hbindings : (run (proxyStep 0) (start 0) roundTheCounter).bindings.map
      (fun b => (b.proxy, b.subscription, b.enonce1bin)) =
      [((0, 0), 1, [0xaa, 1]), ((0, 0), 1, [0xaa, 1])] := by
    decide +kernel
  generalize (run (proxyStep 0) (start 0) roundTheCounter).bindings = bindings at *
  obtain ⟨a, b, rfl⟩ := List.length_eq_two.mp (by simpa using congrArg List.length hbindings)
  simp only [List.map_cons, List.map_nil, List.cons.injEq, Prod.mk.injEq, and_true] at hbindings
  obtain ⟨⟨hap, has, hae⟩, hbp, hbs, hbe⟩ := hbindings
  refine (List.pairwise_cons.mp hunique).1 b (List.mem_singleton.mpr rfl) ?_ ?_
  · exact ⟨hap.trans hbp.symm, has.trans hbs.symm⟩
  · exact hae.trans hbe.symm

end CashStratum
