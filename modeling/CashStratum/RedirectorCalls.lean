/-
CashStratum/RedirectorCalls.lean

The calls of `send_client` and the clients they are for.  A call that holds a client holds
the one with its id (`Known`); when a client is not recycled under a call, so does the
pointer of a call that holds nothing any more, and nobody is told twice to go (`Fair`).
-/
import CashStratum.RedirectorShares

namespace CashStratum.Redirector

namespace Cdata

variable {r s t : Cdata} {p q : Nat}

/-! ### Clients and calls -/

/-- Ids are unique and below the counter, who was redirected is authorised, a call that holds
a client holds the one with its id, and answers are those to requests of that client. -/
structure Known (s : Cdata) : Prop where
  ids : ∀ p ∈ s.live, (s.inst p).id < s.clientIds
  id_inj : ∀ p ∈ s.live, ∀ q ∈ s.live, (s.inst p).id = (s.inst q).id → p = q
  latch : ∀ p ∈ s.live, (s.inst p).redirected = true → (s.inst p).authorised = true
  held : ∀ call ∈ s.calls, ∀ p, call.stage.holds = some p →
    p ∈ s.live ∧ (s.inst p).id = call.client
  answers : ∀ call ∈ s.calls, ∀ msg, call.message = some msg → ∃ k req,
    call.answers = some k ∧ s.sent[k]? = some req ∧ req.client = call.client ∧
      (msg.accepts = true → k ∈ s.accepted)

/-- The clients that have been sent away, and those that are just being. -/
def told (s : Cdata) : List Int :=
  s.reconnects.map Reconnect.client ++ s.calls.filterMap SendCall.telling

/-- A call points to the client with its id, nobody is told twice, and only who is
authorised and has earned it. -/
structure Fair (s : Cdata) : Prop where
  points : ∀ call ∈ s.calls, ∀ p, call.stage.points = some p →
    p ∈ s.live ∧ (s.inst p).id = call.client
  once : s.told.Nodup
  latched : ∀ i ∈ s.told, i < s.clientIds ∧
    ∀ p ∈ s.live, (s.inst p).id = i → (s.inst p).redirected = true
  logged : ∀ r ∈ s.reconnects, r.authorised = true ∧ (r.byShare = true → s.Earned r.client)
  earned : ∀ call ∈ s.calls, call.stage.byShare = true → s.Earned call.client

/-- What may happen to the clients and to the record without a word to the calls. -/
structure Frames (s t : Cdata) : Prop where
  live : ∀ p ∈ t.live, p ∈ s.live
  id : ∀ p ∈ t.live, (t.inst p).id = (s.inst p).id
  redirected : ∀ p ∈ t.live, (s.inst p).redirected = true → (t.inst p).redirected = true
  latch : ∀ p ∈ t.live, (t.inst p).redirected = true →
    (s.inst p).redirected = true ∨ (t.inst p).authorised = true
  authorised : ∀ p ∈ t.live, (s.inst p).authorised = true → (t.inst p).authorised = true
  calls : t.calls = s.calls
  reconnects : t.reconnects = s.reconnects
  clientIds : t.clientIds = s.clientIds
  sent : ∀ (k : Nat) req, s.sent[k]? = some req → t.sent[k]? = some req
  accepted : ∀ k ∈ s.accepted, k ∈ t.accepted

namespace Frames

theorem refl (s : Cdata) : Frames s s :=
  ⟨fun _ hp => hp, fun _ _ => rfl, fun _ _ hr => hr, fun _ _ => Or.inl, fun _ _ ha => ha, rfl,
    rfl, rfl, fun _ _ h => h, fun _ h => h⟩

theorem of_tallies (h : Tallies s t) : Frames s t where
  live p hp := by rwa [h.live] at hp
  id p _ := by rw [h.flags]
  redirected p _ hr := by
    rw [h.flags]
    exact hr
  latch p _ hr := by
    rw [h.flags] at hr
    exact Or.inl hr
  authorised p _ ha := by
    rw [h.flags]
    exact ha
  calls := by rw [h.rest]
  reconnects := by rw [h.rest]
  clientIds := by rw [h.rest]
  sent k req hk := by rwa [h.rest]
  accepted k hk := by rwa [h.rest]

theorem earned (h : Frames s t) {i : Int} (hi : s.Earned i) : t.Earned i := by
  obtain ⟨k, hk, req, hreq, hrest⟩ := hi
  exact ⟨k, h.accepted k hk, req, h.sent k req hreq, hrest⟩

theorem known (h : Frames s t) (hs : Known s)
    (hheld : ∀ call ∈ s.calls, ∀ p, call.stage.holds = some p → p ∈ t.live) : Known t where
  ids p hp := by
    rw [h.id p hp, h.clientIds]
    exact hs.ids p (h.live p hp)
  id_inj p hp q hq heq := by
    rw [h.id p hp, h.id q hq] at heq
    exact hs.id_inj p (h.live p hp) q (h.live q hq) heq
  latch p hp hr := by
    rcases h.latch p hp hr with hold | hauth
    · exact h.authorised p hp (hs.latch p (h.live p hp) hold)
    · exact hauth
  held call hcall p hp := by
    rw [h.calls] at hcall
    have hlive := hheld call hcall p hp
    rw [h.id p hlive]
    exact ⟨hlive, (hs.held call hcall p hp).2⟩
  answers call hcall msg hmsg := by
    rw [h.calls] at hcall
    obtain ⟨k, req, hk, hreq, hclient, haccepted⟩ := hs.answers call hcall msg hmsg
    exact ⟨k, req, hk, h.sent k req hreq, hclient, fun ha => h.accepted k (haccepted ha)⟩

theorem fair (h : Frames s t) (hs : Fair s)
    (hpoints : ∀ call ∈ s.calls, ∀ p, call.stage.points = some p → p ∈ t.live) : Fair t := by
  have htold : t.told = s.told := by rw [told, told, h.calls, h.reconnects]
  constructor
  · intro call hcall p hp
    rw [h.calls] at hcall
    have hlive := hpoints call hcall p hp
    rw [h.id p hlive]
    exact ⟨hlive, (hs.points call hcall p hp).2⟩
  · rw [htold]
    exact hs.once
  · intro i hi
    rw [htold] at hi
    obtain ⟨hlt, hred⟩ := hs.latched i hi
    refine ⟨h.clientIds ▸ hlt, fun p hp hid => ?_⟩
    exact h.redirected p hp (hred p (h.live p hp) ((h.id p hp).symm.trans hid))
  · intro r hr
    rw [h.reconnects] at hr
    obtain ⟨hauth, hshare⟩ := hs.logged r hr
    exact ⟨hauth, fun hb => h.earned (hshare hb)⟩
  · intro call hcall hb
    rw [h.calls] at hcall
    exact h.earned (hs.earned call hcall hb)

end Frames

/-! ### The stages of a call -/

theorem mem_leave {call c : SendCall} {next : Option Stage} (h : c ∈ (s.leave call next).calls) :
    c ∈ s.calls ∨ ∃ stage, next = some stage ∧ c = { call with stage } := by
  rcases List.mem_append.mp h with h | h
  · exact Or.inl (List.mem_of_mem_erase h)
  · obtain ⟨stage, hstage, rfl⟩ := List.mem_map.mp h
    exact Or.inr ⟨stage, Option.mem_toList.mp hstage, rfl⟩

theorem Known.leave (h : Known s) {call : SendCall} (hcall : call ∈ s.calls) {next : Option Stage}
    (hnext : ∀ stage p, next = some stage → stage.holds = some p →
      p ∈ s.live ∧ (s.inst p).id = call.client) : Known (s.leave call next) where
  ids := h.ids
  id_inj := h.id_inj
  latch := h.latch
  held c hc p hp := by
    rcases mem_leave hc with hc | ⟨stage, hstage, rfl⟩
    · exact h.held c hc p hp
    · exact hnext stage p hstage hp
  answers c hc msg hmsg := by
    rcases mem_leave hc with hc | ⟨stage, -, rfl⟩
    · exact h.answers c hc msg hmsg
    · exact h.answers call hcall msg hmsg

/-- A call that does not go on to `add_redirect`. -/
theorem Fair.leave (h : Fair s) (call : SendCall) {next : Option Stage}
    (hpoints : ∀ stage p, next = some stage → stage.points = some p →
      p ∈ s.live ∧ (s.inst p).id = call.client)
    (hnext : ∀ p byShare, next ≠ some (.reconnecting p byShare))
    (hearned : ∀ stage, next = some stage → stage.byShare = true → s.Earned call.client) :
    Fair (s.leave call next) := by
  have htold : (s.leave call next).told.Sublist s.told := by
    have hnone : (next.toList.map fun stage => { call with stage }).filterMap SendCall.telling =
        [] := by
      rw [List.filterMap_eq_nil_iff]
      intro c hc
      obtain ⟨stage, hstage, rfl⟩ := List.mem_map.mp hc
      rw [Option.mem_toList] at hstage
      cases stage with
      | reconnecting p byShare => exact absurd hstage (hnext p byShare)
      | _ => rfl
    rw [told, told]
    refine List.Sublist.append_left ?_ _
    show ((s.calls.erase call ++
      next.toList.map fun stage => { call with stage }).filterMap _).Sublist _
    rw [List.filterMap_append, hnone, List.append_nil]
    exact List.erase_sublist.filterMap _
  refine ⟨fun c hc p hp => ?_, h.once.sublist htold, fun i hi => h.latched i (htold.subset hi),
    h.logged, fun c hc hb => ?_⟩
  · rcases mem_leave hc with hc | ⟨stage, hstage, rfl⟩
    · exact h.points c hc p hp
    · exact hpoints stage p hstage hp
  · rcases mem_leave hc with hc | ⟨stage, hstage, rfl⟩
    · exact h.earned c hc hb
    · exact hearned stage hstage hb

/-- The latch of `redirect_client`: who was not redirected is not being told yet. -/
theorem Fair.latch (h : Fair s) {t : Cdata} (hframes : Frames s t) (hlive : t.live = s.live)
    {call : SendCall} {byShare : Bool} (hcall : call ∈ s.calls)
    (hstage : call.stage = .redirecting p byShare) (hbefore : (s.inst p).redirected = false)
    (hafter : (t.inst p).redirected = true)
    (hid_inj : ∀ q ∈ s.live, (s.inst q).id = call.client → q = p)
    (hclient : call.client < s.clientIds) :
    Fair (t.leave call (some (.reconnecting p byShare))) := by
  have ht : Fair t := hframes.fair h fun c hc q hq => hlive ▸ (h.points c hc q hq).1
  obtain ⟨hp, hid⟩ := h.points call hcall p (by rw [hstage]; rfl)
  have htid : (t.inst p).id = call.client := (hframes.id p (hlive ▸ hp)).trans hid
  have hnew : call.client ∉ s.told := by
    intro hin
    rw [(h.latched _ hin).2 p hp hid] at hbefore
    cases hbefore
  have htold : (t.leave call (some (.reconnecting p byShare))).told =
      (t.leave call none).told ++ [call.client] := by
    show _ ++ ((t.calls.erase call ++ [{ call with stage := .reconnecting p byShare }]).filterMap _) =
      _ ++ ((t.calls.erase call ++ []).filterMap _) ++ [call.client]
    rw [List.filterMap_append, List.append_nil, List.append_assoc]
    rfl
  have hrest : Fair (t.leave call none) :=
    ht.leave call (fun _ _ hnone => by cases hnone) (fun _ _ hnone => by cases hnone)
      fun _ hnone => by cases hnone
  have hsub : ∀ i ∈ (t.leave call none).told, i ∈ s.told := by
    intro i hi
    have hstold : t.told = s.told := by rw [told, told, hframes.calls, hframes.reconnects]
    rw [← hstold]
    rcases List.mem_append.mp hi with hi | hi
    · exact List.mem_append_left _ hi
    · obtain ⟨c, hc, hsome⟩ := List.mem_filterMap.mp hi
      rcases mem_leave hc with hc | ⟨_, hnone, _⟩
      · exact List.mem_append_right _ (List.mem_filterMap.mpr ⟨c, hc, hsome⟩)
      · cases hnone
  constructor
  · intro c hc q hq
    rcases mem_leave hc with hc | ⟨stage, hsome, rfl⟩
    · exact ht.points c hc q hq
    · obtain rfl := Option.some.inj hsome
      obtain rfl := Option.some.inj hq
      exact ⟨hlive ▸ hp, htid⟩
  · rw [htold]
    refine List.nodup_append.mpr ⟨hrest.once, List.nodup_singleton _, ?_⟩
    intro i hi j hj heq
    rw [List.mem_singleton] at hj
    exact hnew (hj ▸ heq ▸ hsub i hi)
  · intro i hi
    rw [htold, List.mem_append, List.mem_singleton] at hi
    rcases hi with hi | rfl
    · exact hrest.latched i hi
    · refine ⟨?_, fun q hq hqid => ?_⟩
      · show call.client < t.clientIds
        rwa [hframes.clientIds]
      · have hqlive : q ∈ t.live := hq
        have hqp : q = p := by
          refine hid_inj q (hlive ▸ hqlive) ?_
          rw [← hframes.id q hqlive]
          exact hqid
        rw [hqp]
        exact hafter
  · exact ht.logged
  · intro c hc hb
    rcases mem_leave hc with hc | ⟨stage, hsome, rfl⟩
    · exact ht.earned c hc hb
    · obtain rfl := Option.some.inj hsome
      exact hframes.earned (h.earned call hcall (by rw [hstage]; exact hb))

/-- The client is told. -/
theorem Fair.tell (h : Fair s) (hknown : Known s) {call : SendCall} {byShare : Bool}
    (redirectNo : Nat) (hcall : call ∈ s.calls) (hstage : call.stage = .reconnecting p byShare) :
    Fair { s.leave call none with
      reconnects := s.reconnects ++ [{
        client := (s.inst p).id, authorised := (s.inst p).authorised, byShare, redirectNo }] } := by
  obtain ⟨hp, hid⟩ := h.points call hcall p (by rw [hstage]; rfl)
  have htelling : call.client ∈ s.told := by
    refine List.mem_append_right _ (List.mem_filterMap.mpr ⟨call, hcall, ?_⟩)
    rw [SendCall.telling, hstage]
  have hauth : (s.inst p).authorised = true :=
    hknown.latch p hp ((h.latched _ htelling).2 p hp hid)
  have hperm : (told { s.leave call none with
      reconnects := s.reconnects ++ [{
        client := (s.inst p).id, authorised := (s.inst p).authorised, byShare, redirectNo }] }).Perm
      s.told := by
    have htells : call.telling = some call.client := by rw [SendCall.telling, hstage]
    have hcalls := (List.perm_cons_erase hcall).filterMap SendCall.telling
    rw [List.filterMap_cons_some htells] at hcalls
    rw [told, told]
    refine List.Perm.trans ?_ (hcalls.symm.append_left _)
    show ((s.reconnects ++ [_]).map Reconnect.client ++ (s.calls.erase call ++ []).filterMap _).Perm _
    rw [List.map_append, List.append_nil, List.append_assoc]
    show (_ ++ ((s.inst p).id :: _)).Perm _
    rw [hid]
    exact List.Perm.refl _
  constructor
  · intro c hc q hq
    rcases mem_leave hc with hc | ⟨_, hnone, _⟩
    · exact h.points c hc q hq
    · cases hnone
  · exact hperm.nodup_iff.mpr h.once
  · exact fun i hi => h.latched i (hperm.mem_iff.mp hi)
  · intro r hr
    rcases List.mem_append.mp hr with hr | hr
    · exact h.logged r hr
    · obtain rfl := List.mem_singleton.mp hr
      refine ⟨hauth, fun hb => ?_⟩
      show s.Earned (s.inst p).id
      rw [hid]
      exact h.earned call hcall (by rw [hstage]; exact hb)
  · intro c hc hb
    rcases mem_leave hc with hc | ⟨_, hnone, _⟩
    · exact h.earned c hc hb
    · cases hnone

end Cdata

end CashStratum.Redirector
