/-
CashStratum/RedirectorRun.lean

The runs of the redirector: every step keeps what `Counted` and `Known` say, and every
proper step keeps what `Fair` says (`redirects_earned`).  An answer with the id of a share
that it does not answer is all it takes to be sent away without one (`reusedId`).
-/
import CashStratum.RedirectorCalls
import CashStratum.Run

namespace CashStratum.Redirector

open Function

namespace Cdata

variable {r s t : Cdata} {p q : Nat}

/-! ### Steps -/

/-- What every step keeps. -/
structure Wf (s : Cdata) : Prop extends Counted s, Known s

namespace Frames

theorem modify (s : Cdata) (p : Nat) {f : Client → Client} (hid : (f (s.inst p)).id = (s.inst p).id)
    (hredirected : (s.inst p).redirected = true → (f (s.inst p)).redirected = true)
    (hlatch : (f (s.inst p)).redirected = true →
      (s.inst p).redirected = true ∨ (f (s.inst p)).authorised = true)
    (hauthorised : (s.inst p).authorised = true → (f (s.inst p)).authorised = true) :
    Frames s (s.modify p f) where
  live _ hq := hq
  id q _ := by
    rw [modify_inst]
    split_ifs with hq
    · rw [hid, hq]
    · rfl
  redirected q _ hr := by
    rw [modify_inst]
    split_ifs with hq
    · exact hredirected (hq ▸ hr)
    · exact hr
  latch q _ hr := by
    rw [modify_inst] at hr ⊢
    split_ifs at hr ⊢ with hq
    · rw [hq]
      exact hlatch hr
    · exact Or.inl hr
  authorised q _ ha := by
    rw [modify_inst]
    split_ifs with hq
    · exact hauthorised (hq ▸ ha)
    · exact ha
  calls := rfl
  reconnects := rfl
  clientIds := rfl
  sent _ _ h := h
  accepted _ h := h

theorem trans (h : Frames r s) (h' : Frames s t) : Frames r t where
  live p hp := h.live p (h'.live p hp)
  id p hp := (h'.id p hp).trans (h.id p (h'.live p hp))
  redirected p hp hr := h'.redirected p hp (h.redirected p (h'.live p hp) hr)
  latch p hp hr := by
    rcases h'.latch p hp hr with hr | ha
    · rcases h.latch p (h'.live p hp) hr with hr | ha
      · exact Or.inl hr
      · exact Or.inr (h'.authorised p hp ha)
    · exact Or.inr ha
  authorised p hp ha := h'.authorised p hp (h.authorised p (h'.live p hp) ha)
  calls := h'.calls.trans h.calls
  reconnects := h'.reconnects.trans h.reconnects
  clientIds := h'.clientIds.trans h.clientIds
  sent k req hk := h'.sent k req (h.sent k req hk)
  accepted k hk := h'.accepted k (h.accepted k hk)

theorem authResult (s : Cdata) (id : Int) (msg : Message) : Frames s (s.authResult id msg) := by
  rw [Cdata.authResult]
  rcases s.clientById id with - | p
  · exact refl s
  · have hfree : Frames s (s.freeRedirShares p) := of_tallies (Tallies.keepShares s p [])
    have hauth : ∀ t : Cdata, Frames t (t.modify p fun i => { i with authorised := true }) :=
      fun t => modify t p rfl (fun hr => hr) Or.inl fun _ => rfl
    dsimp only
    split_ifs
    · exact refl s
    · exact hauth s
    · exact hfree
    · exact hfree.trans (hauth _)
    · exact refl s

theorem addRedirect (s : Cdata) (redirecturls : Nat) (address : Bytes) :
    Frames s (s.addRedirect redirecturls address).1 := by
  rw [Cdata.addRedirect]
  split
  · exact refl s
  · exact ⟨fun _ hp => hp, fun _ _ => rfl, fun _ _ hr => hr, fun _ _ => Or.inl, fun _ _ ha => ha,
      rfl, rfl, rfl, fun _ _ hk => hk, fun _ hk => hk⟩

/-- `redirect_client` up to its first unlocking. -/
theorem redirectClient {p : Nat} (hauth : (s.inst p).authorised = true) :
    Frames s ((s.modify p fun i => { i with redirected := true }).freeRedirShares p) :=
  (modify s p (f := fun i => { i with redirected := true }) rfl (fun _ => rfl)
    (fun _ => Or.inr hauth) fun ha => ha).trans (of_tallies (Tallies.keepShares _ p []))

end Frames

theorem addRedirect_inst (s : Cdata) (redirecturls : Nat) (address : Bytes) :
    (s.addRedirect redirecturls address).1.inst = s.inst ∧
      (s.addRedirect redirecturls address).1.live = s.live := by
  rw [addRedirect]
  split <;> exact ⟨rfl, rfl⟩

theorem authResult_live (s : Cdata) (id : Int) (msg : Message) :
    (s.authResult id msg).live = s.live := by
  rw [authResult]
  rcases s.clientById id with - | p
  · rfl
  · dsimp only
    split_ifs <;> rfl

/-- When a share was found and accepted: the answer accepts, and the client has a share in
flight with its id. -/
theorem testRedirectorShares_true {msg : Option Message} {now : Nat}
    (h : (s.testRedirectorShares p msg now).2 = true) :
    ∃ m, msg = some m ∧ s.Matches p m now := by
  rw [testRedirectorShares] at h
  rcases hverdict : msg.bind Message.verdict with - | ⟨id, result⟩
  · rw [hverdict] at h
    cases h
  · obtain ⟨m, rfl, hm⟩ := Option.bind_eq_some_iff.mp hverdict
    rw [hverdict] at h
    dsimp only at h
    split_ifs at h with hgate hfound hresult
    rw [not_or, not_not, Bool.not_eq_true] at hgate
    obtain ⟨share, hshare, hid⟩ := hfound
    have hshares : ((s.expireRedirShares p now).inst p).shares = s.unexpired p now := by
      rw [expireRedirShares, keepShares_inst, if_pos rfl]
    rw [hshares] at hshare
    subst hresult
    rw [Message.verdict] at hm
    rcases hmid : m.id with - | mid
    · rw [hmid] at hm
      cases hm
    · rcases hmres : m.result with b | - | -
      · rw [hmid, hmres] at hm
        dsimp only at hm
        obtain ⟨rfl, hb⟩ := Prod.mk.inj (Option.some.inj hm)
        split_ifs at hb with herror
        · exact ⟨m, rfl, by rw [hmres, hb], herror, hgate.1, hgate.2, share, hshare,
            by rw [hmid, hid]⟩
      · rw [hmid, hmres] at hm
        dsimp only at hm
        split_ifs at hm
        cases (Prod.mk.inj (Option.some.inj hm)).2
      · rw [hmid, hmres] at hm
        cases hm

namespace Known

theorem tallied (h : Known s) (ht : Tallies s t) : Known t :=
  (Frames.of_tallies ht).known h fun call hcall p hp => by
    rw [ht.live]
    exact (h.held call hcall p hp).1

theorem sendClient (h : Known s) (redirecturls : Nat) {call : SendCall} (now : Nat)
    (hcall : call ∈ s.calls) (htest : ∀ p, call.stage = .testing p →
      Tallies s (s.testRedirectorShares p call.message now).1) :
    Known (s.sendClient redirecturls call now) := by
  rw [Cdata.sendClient]
  have hheld := h.held call hcall
  rcases hstage : call.stage with - | p | p | p | ⟨p, byShare⟩ | ⟨p, byShare⟩
  · apply h.leave hcall
    intro stage p hsome hp
    obtain ⟨q, hq, rfl⟩ := Option.map_eq_some_iff.mp hsome
    obtain rfl := Option.some.inj hp
    exact clientById_mem hq
  · apply h.leave hcall
    intro stage q hsome hq
    split_ifs at hsome
    obtain rfl := Option.some.inj hsome
    exact hheld q (by rw [hstage]; exact hq)
  · apply h.leave hcall
    intro stage q hsome hq
    split_ifs at hsome
    · obtain rfl := Option.some.inj hsome
      cases hq
    · obtain rfl := Option.some.inj hsome
      exact hheld q (by rw [hstage]; exact hq)
  · have ht := htest p hstage
    dsimp only
    apply (h.tallied ht).leave
    · rw [ht.rest]
      exact hcall
    · intro stage q hsome hq
      split_ifs at hsome
      obtain rfl := Option.some.inj hsome
      cases hq
  · dsimp only
    split_ifs with hdone
    · exact h.leave hcall fun _ _ hsome => by cases hsome
    · rw [not_or, not_not] at hdone
      have hlatch := (Frames.redirectClient hdone.2).known h fun c hc q hq => (h.held c hc q hq).1
      apply hlatch.leave hcall
      intro stage q hsome hq
      obtain rfl := Option.some.inj hsome
      cases hq
  · have hadd := (Frames.addRedirect s redirecturls (s.inst p).addressName).known h
      fun c hc q hq => (addRedirect_inst s redirecturls _).2 ▸ (h.held c hc q hq).1
    have hin : call ∈ (s.addRedirect redirecturls (s.inst p).addressName).1.calls :=
      (Frames.addRedirect s redirecturls _).calls ▸ hcall
    have hnext : ∀ (stage : Stage) (q : Nat), none = some stage → stage.holds = some q →
        q ∈ (s.addRedirect redirecturls (s.inst p).addressName).1.live ∧
          ((s.addRedirect redirecturls (s.inst p).addressName).1.inst q).id = call.client :=
      fun _ _ hsome => by cases hsome
    have hleave := hadd.leave hin hnext
    exact ⟨hleave.ids, hleave.id_inj, hleave.latch, hleave.held, hleave.answers⟩

end Known

/-- The call goes its way; a share it redirects for is one the pool accepted, when it answers
one. -/
theorem Fair.sendClient (h : Fair s) (hwf : Wf s) (redirecturls : Nat) {call : SendCall} (now : Nat)
    (hcall : call ∈ s.calls) (hproper : s.Proper (.send call now)) :
    Fair (s.sendClient redirecturls call now) := by
  rw [Cdata.sendClient]
  have hheld := hwf.held call hcall
  rcases hstage : call.stage with - | p | p | p | ⟨p, byShare⟩ | ⟨p, byShare⟩
  · apply h.leave call
    · intro stage p hsome hp
      obtain ⟨q, -, rfl⟩ := Option.map_eq_some_iff.mp hsome
      cases hp
    · intro p byShare hsome
      obtain ⟨q, -, hq⟩ := Option.map_eq_some_iff.mp hsome
      cases hq
    · intro stage hsome hb
      obtain ⟨q, -, rfl⟩ := Option.map_eq_some_iff.mp hsome
      cases hb
  · apply h.leave call
    · intro stage q hsome hq
      split_ifs at hsome
      obtain rfl := Option.some.inj hsome
      cases hq
    · intro q byShare hsome
      split_ifs at hsome
      cases hsome
    · intro stage hsome hb
      split_ifs at hsome
      obtain rfl := Option.some.inj hsome
      cases hb
  · apply h.leave call
    · intro stage q hsome hq
      split_ifs at hsome
      · obtain rfl := Option.some.inj hsome
        exact hheld q (by rw [hstage]; exact hq)
      · obtain rfl := Option.some.inj hsome
        cases hq
    · intro q byShare hsome
      split_ifs at hsome
      · cases hsome
      · cases hsome
    · intro stage hsome hb
      split_ifs at hsome
      · obtain rfl := Option.some.inj hsome
        cases hb
      · obtain rfl := Option.some.inj hsome
        cases hb
  · obtain ⟨hp, hid⟩ := hheld p (by rw [hstage]; rfl)
    have ht := Tallied.testRedirectorShares hwf.toCounted hp call.message now
    have hframes := Frames.of_tallies ht.toTallies
    have hfair := hframes.fair h fun c hc q hq => ht.live (h.points c hc q hq).1
    dsimp only
    apply hfair.leave call
    · intro stage q hsome hq
      split_ifs at hsome
      obtain rfl := Option.some.inj hsome
      obtain rfl := Option.some.inj hq
      exact ⟨ht.live hp, (hframes.id p (ht.live hp)).trans hid⟩
    · intro q byShare hsome
      split_ifs at hsome
      cases hsome
    · intro stage hsome _
      split_ifs at hsome with hret
      -- the share is one of the client's own that the pool accepted
      obtain ⟨m, hm, hmatches⟩ := testRedirectorShares_true hret
      obtain ⟨k, hk, req, hreq, hsubmit, hafter⟩ := hproper p (by rw [hstage]; rfl) m hm hmatches
      obtain ⟨k', req', hk', hreq', hclient, haccepted⟩ := hwf.answers call hcall m hm
      obtain rfl := Option.some.inj (hk.symm.trans hk')
      obtain rfl := Option.some.inj (hreq.symm.trans hreq')
      have haccepts : m.accepts = true := by
        rw [Message.accepts, hmatches.1, hmatches.2.1]
        rfl
      exact hframes.earned ⟨k, haccepted haccepts, req, hreq, hclient, hsubmit, hafter⟩
  · obtain ⟨hp, hid⟩ := h.points call hcall p (by rw [hstage]; rfl)
    dsimp only
    split_ifs with hdone
    · exact h.leave call (fun _ _ hsome => by cases hsome) (fun _ _ hsome => by cases hsome)
        fun _ hsome => by cases hsome
    · rw [not_or, not_not, Bool.not_eq_true] at hdone
      refine h.latch (Frames.redirectClient hdone.2) rfl hcall hstage hdone.1 ?_ ?_ ?_
      · rw [freeRedirShares, keepShares_inst, if_pos rfl, modify_inst, if_pos rfl]
      · intro q hq hqid
        exact hwf.id_inj q hq p hp (hqid.trans hid.symm)
      · rw [← hid]
        exact hwf.ids p hp
  · obtain ⟨hinst, hlive⟩ := addRedirect_inst s redirecturls (s.inst p).addressName
    have hframes := Frames.addRedirect s redirecturls (s.inst p).addressName
    have hknown := hframes.known hwf.toKnown fun c hc q hq => hlive ▸ (hwf.held c hc q hq).1
    have hfair := hframes.fair h fun c hc q hq => hlive ▸ (h.points c hc q hq).1
    have htell := hfair.tell hknown (s.addRedirect redirecturls (s.inst p).addressName).2
      (hframes.calls ▸ hcall) hstage
    rw [hinst] at htell
    exact htell

/-! ### Clients come and go -/

theorem Counted.recruitClient (h : Counted s) {rest : List Nat} {generated : Nat}
    (hrecruit : s.recruitClient = (p, rest, generated)) :
    p ∉ s.live ∧ (s.live ++ p :: rest).Nodup ∧ ∀ q ∈ s.live ++ p :: rest, q < generated := by
  have hnodup := h.nodup
  have hgenerated := h.generated
  rw [Cdata.recruitClient] at hrecruit
  rcases hrec : s.recycledClients with - | ⟨q, recycled⟩
  · rw [hrec] at hrecruit hnodup hgenerated
    rw [List.append_nil] at hnodup hgenerated
    obtain ⟨rfl, hpair⟩ := Prod.mk.inj hrecruit
    obtain ⟨rfl, rfl⟩ := Prod.mk.inj hpair
    have hnew : s.clientsGenerated ∉ s.live := fun hin => absurd (hgenerated _ hin) (lt_irrefl _)
    refine ⟨hnew, ?_, ?_⟩
    · exact (List.perm_append_singleton _ _).nodup_iff.mpr (List.nodup_cons.mpr ⟨hnew, hnodup⟩)
    · intro q hq
      rw [List.mem_append, List.mem_singleton] at hq
      rcases hq with hq | rfl
      · exact Nat.lt_succ_of_lt (hgenerated q hq)
      · exact Nat.lt_succ_self _
  · rw [hrec] at hrecruit hnodup hgenerated
    obtain ⟨rfl, hpair⟩ := Prod.mk.inj hrecruit
    obtain ⟨rfl, rfl⟩ := Prod.mk.inj hpair
    exact ⟨fun hin => (List.nodup_append.mp hnodup).2.2 q hin q List.mem_cons_self rfl, hnodup,
      hgenerated⟩

/-- What `accept_client` makes of the connector. -/
theorem step_accept (redirecturls : Nat) (s : Cdata) (address : Bytes) {rest : List Nat}
    {generated : Nat} (hrecruit : s.recruitClient = (p, rest, generated)) :
    s.step redirecturls (.accept address) =
      { s with
        inst := update s.inst p { id := s.clientIds, addressName := address }
        clientsGenerated := generated
        recycledClients := rest
        clients := s.clients ++ [p]
        clientIds := s.clientIds + 1 } := by
  rw [step, hrecruit]

theorem Wf.accept (h : Wf s) (redirecturls : Nat) (address : Bytes) :
    Wf (s.step redirecturls (.accept address)) := by
  rcases hrecruit : s.recruitClient with ⟨p, rest, generated⟩
  obtain ⟨hnew, hnodup, hgenerated⟩ := h.recruitClient hrecruit
  rw [step_accept redirecturls s address hrecruit]
  set t : Cdata := { s with
    inst := update s.inst p { id := s.clientIds, addressName := address }
    clientsGenerated := generated
    recycledClients := rest
    clients := s.clients ++ [p]
    clientIds := s.clientIds + 1 } with ht
  have hself : t.inst p = { id := s.clientIds, addressName := address } := update_self ..
  have hne : ∀ q, q ≠ p → t.inst q = s.inst q := fun q hq => update_of_ne hq ..
  have hold : ∀ q ∈ s.live, t.inst q = s.inst q := fun q hq => hne q fun heq => hnew (heq ▸ hq)
  have hperm : t.live.Perm (p :: s.live) := by
    show (s.clients ++ [p] ++ s.deadClients).Perm (p :: (s.clients ++ s.deadClients))
    rw [List.append_assoc]
    exact List.perm_middle
  have hmem : ∀ q, q ∈ t.live ↔ q = p ∨ q ∈ s.live := by
    intro q
    rw [hperm.mem_iff, List.mem_cons]
  have hall : (t.live ++ t.recycledClients).Perm (s.live ++ p :: rest) :=
    (hperm.append_right rest).trans List.perm_middle.symm
  refine ⟨⟨hall.nodup_iff.mpr hnodup, fun q hq => hgenerated q (hall.mem_iff.mp hq), ?_, ?_, ?_, ?_,
    h.limit⟩, ⟨?_, ?_, ?_, ?_, h.answers⟩⟩
  · intro q hq
    rw [hmem, not_or] at hq
    rw [hne q hq.1]
    exact h.blank q hq.2
  · intro q
    by_cases hq : q = p
    · rw [hq, hself]
      rfl
    · rw [hne q hq]
      exact h.nshares q
  · intro q
    by_cases hq : q = p
    · rw [hq, hself]
      exact Nat.zero_le _
    · rw [hne q hq]
      exact h.room q
  · have hmap : s.live.map (fun q => (t.inst q).shares.length) =
        s.live.map fun q => (s.inst q).shares.length :=
      List.map_congr_left fun q hq => by rw [hold q hq]
    show s.redirectorShares = t.inFlight
    rw [inFlight, (hperm.map _).sum_eq, List.map_cons, List.sum_cons, hmap, hself, h.total, inFlight]
    simp
  · intro q hq
    show (t.inst q).id < s.clientIds + 1
    rcases (hmem q).mp hq with rfl | hq
    · rw [hself]
      exact Int.lt_add_one_of_le le_rfl
    · rw [hold q hq]
      exact Int.lt_add_one_of_le (h.ids q hq).le
  · intro q hq r hr heq
    rcases (hmem q).mp hq with rfl | hqlive
    · rcases (hmem r).mp hr with rfl | hrlive
      · rfl
      · rw [hself, hold r hrlive] at heq
        exact absurd heq.symm (h.ids r hrlive).ne
    · rcases (hmem r).mp hr with rfl | hrlive
      · rw [hself, hold q hqlive] at heq
        exact absurd heq (h.ids q hqlive).ne
      · rw [hold q hqlive, hold r hrlive] at heq
        exact h.id_inj q hqlive r hrlive heq
  · intro q hq hred
    rcases (hmem q).mp hq with rfl | hq
    · rw [hself] at hred
      cases hred
    · rw [hold q hq] at hred ⊢
      exact h.latch q hq hred
  · intro call hcall q hq
    obtain ⟨hlive, hid⟩ := h.held call hcall q hq
    exact ⟨(hmem q).mpr (Or.inr hlive), by rw [hold q hlive, hid]⟩

theorem Fair.accept (h : Fair s) (hwf : Wf s) (redirecturls : Nat) (address : Bytes) :
    Fair (s.step redirecturls (.accept address)) := by
  rcases hrecruit : s.recruitClient with ⟨p, rest, generated⟩
  obtain ⟨hnew, -, -⟩ := hwf.recruitClient hrecruit
  rw [step_accept redirecturls s address hrecruit]
  have hold : ∀ q ∈ s.live, update s.inst p
      { id := s.clientIds, addressName := address } q = s.inst q := by
    intro q hq
    have hne : q ≠ p := fun heq => hnew (heq ▸ hq)
    exact update_of_ne hne ..
  refine ⟨fun call hcall q hq => ?_, h.once, fun i hi => ?_, h.logged, h.earned⟩
  · obtain ⟨hlive, hid⟩ := h.points call hcall q hq
    refine ⟨?_, by dsimp only; rw [hold q hlive, hid]⟩
    rcases List.mem_append.mp hlive with hin | hin
    · exact List.mem_append_left _ (List.mem_append_left _ hin)
    · exact List.mem_append_right _ hin
  · obtain ⟨hlt, hred⟩ := h.latched i hi
    refine ⟨Int.lt_add_one_of_le hlt.le, fun q hq hid => ?_⟩
    dsimp only at hid ⊢
    by_cases hqp : q = p
    · rw [hqp, update_self] at hid
      exact absurd hid hlt.ne'
    · have hlive : q ∈ s.live := by
        have hq' : q ∈ s.clients ++ [p] ++ s.deadClients := hq
        simp only [List.mem_append, List.mem_singleton, hqp, or_false] at hq'
        exact List.mem_append.mpr hq'
      rw [hold q hlive] at hid ⊢
      exact hred q hlive hid

/-- `__drop_client` -/
theorem dropped_perm (hp : p ∈ s.clients) :
    (s.clients.erase p ++ (s.deadClients ++ [p])).Perm s.live := by
  rw [← List.append_assoc]
  refine (List.perm_append_singleton p _).trans ?_
  rw [← List.cons_append]
  exact (List.perm_cons_erase hp).symm.append_right _

theorem Frames.drop (hp : p ∈ s.clients) : Frames s { s with
    clients := s.clients.erase p, deadClients := s.deadClients ++ [p] } where
  live _ hq := (dropped_perm hp).mem_iff.mp hq
  id _ _ := rfl
  redirected _ _ hr := hr
  latch _ _ := Or.inl
  authorised _ _ ha := ha
  calls := rfl
  reconnects := rfl
  clientIds := rfl
  sent _ _ hk := hk
  accepted _ hk := hk

theorem Counted.drop (h : Counted s) (hp : p ∈ s.clients) : Counted { s with
    clients := s.clients.erase p, deadClients := s.deadClients ++ [p] } := by
  have hperm := dropped_perm hp
  have hall := hperm.append_right s.recycledClients
  refine ⟨hall.nodup_iff.mpr h.nodup, fun q hq => h.generated q (hall.mem_iff.mp hq),
    fun q hq => h.blank q fun hlive => hq (hperm.mem_iff.mpr hlive), h.nshares, h.room, ?_, h.limit⟩
  have hsum := (hperm.map fun q => (s.inst q).shares.length).sum_eq
  show s.redirectorShares = ((s.clients.erase p ++ (s.deadClients ++ [p])).map _).sum
  rw [hsum]
  exact h.total

/-- `__recycle_client` -/
theorem recycled_perm (hp : p ∈ s.deadClients) :
    (p :: (s.clients ++ s.deadClients.erase p)).Perm s.live :=
  List.perm_middle.symm.trans ((List.perm_cons_erase hp).symm.append_left _)

theorem Counted.mem_recycled (h : Counted s) (hp : p ∈ s.deadClients) :
    q ∈ s.clients ++ s.deadClients.erase p ↔ q ≠ p ∧ q ∈ s.live := by
  have hperm := recycled_perm hp
  have hnodup := List.nodup_cons.mp (hperm.nodup_iff.mpr h.live_nodup)
  rw [← hperm.mem_iff, List.mem_cons]
  constructor
  · intro hq
    exact ⟨fun heq => hnodup.1 (heq ▸ hq), Or.inr hq⟩
  · rintro ⟨hne, heq | hq⟩
    · exact absurd heq hne
    · exact hq

theorem Counted.recycle (h : Counted s) (hp : p ∈ s.deadClients) : Counted { s with
    inst := update s.inst p {}
    deadClients := s.deadClients.erase p
    recycledClients := s.recycledClients ++ [p]
    redirectorShares := s.redirectorShares - (s.inst p).shares.length } := by
  have hperm := recycled_perm hp
  have hmem := fun q => h.mem_recycled (q := q) hp
  have hne : ∀ q, q ≠ p → update s.inst p {} q = s.inst q :=
    fun q hq => update_of_ne hq ..
  have hall : (s.clients ++ s.deadClients.erase p ++ (s.recycledClients ++ [p])).Perm
      (s.live ++ s.recycledClients) := by
    rw [← List.append_assoc]
    exact (List.perm_append_singleton p _).trans (hperm.append_right _)
  have hmap : (s.clients ++ s.deadClients.erase p).map
        (fun q => (update s.inst p {} q).shares.length) =
      (s.clients ++ s.deadClients.erase p).map fun q => (s.inst q).shares.length :=
    List.map_congr_left fun q hq => by rw [hne q ((hmem q).mp hq).1]
  have hsum := (hperm.map fun q => (s.inst q).shares.length).sum_eq
  rw [List.map_cons, List.sum_cons] at hsum
  have htotal := h.total
  rw [inFlight] at htotal
  have hlimit := h.limit
  refine ⟨hall.nodup_iff.mpr h.nodup, fun q hq => h.generated q (hall.mem_iff.mp hq), ?_, ?_, ?_,
    ?_, ?_⟩
  · intro q hq
    dsimp only
    by_cases heq : q = p
    · rw [heq, update_self]
      exact ⟨rfl, rfl⟩
    · rw [hne q heq]
      exact h.blank q fun hlive => hq ((hmem q).mpr ⟨heq, hlive⟩)
  · intro q
    dsimp only
    by_cases heq : q = p
    · rw [heq, update_self]
      rfl
    · rw [hne q heq]
      exact h.nshares q
  · intro q
    dsimp only
    by_cases heq : q = p
    · rw [heq, update_self]
      exact Nat.zero_le _
    · rw [hne q heq]
      exact h.room q
  · show s.redirectorShares - (s.inst p).shares.length = ((s.clients ++ s.deadClients.erase p).map
      fun q => (update s.inst p {} q).shares.length).sum
    rw [hmap]
    omega
  · show s.redirectorShares - (s.inst p).shares.length ≤ shareMaxGlobal
    omega

theorem Frames.recycle (h : Counted s) (hp : p ∈ s.deadClients) : Frames s { s with
    inst := update s.inst p {}
    deadClients := s.deadClients.erase p
    recycledClients := s.recycledClients ++ [p]
    redirectorShares := s.redirectorShares - (s.inst p).shares.length } := by
  have hmem := fun q => h.mem_recycled (q := q) hp
  have hsame : ∀ q ∈ s.clients ++ s.deadClients.erase p, update s.inst p {} q = s.inst q :=
    fun q hq => update_of_ne ((hmem q).mp hq).1 ..
  refine ⟨fun q hq => ((hmem q).mp hq).2, fun q hq => ?_, fun q hq hr => ?_, fun q hq hr => ?_,
    fun q hq ha => ?_, rfl, rfl, rfl, fun _ _ hk => hk, fun _ hk => hk⟩
  · dsimp only
    rw [hsame q hq]
  · dsimp only
    rwa [hsame q hq]
  · dsimp only at hr
    rw [hsame q hq] at hr
    exact Or.inl hr
  · dsimp only
    rwa [hsame q hq]

/-! ### Requests and answers -/

/-- A request goes to the pool. -/
theorem Frames.request (s : Cdata) (req : Sent) : Frames s { s with sent := s.sent ++ [req] } where
  live _ hq := hq
  id _ _ := rfl
  redirected _ _ hr := hr
  latch _ _ := Or.inl
  authorised _ _ ha := ha
  calls := rfl
  reconnects := rfl
  clientIds := rfl
  sent _ _ hk := by
    dsimp only
    rw [List.getElem?_append_left (List.getElem?_eq_some_iff.mp hk).1, hk]
  accepted _ hk := hk

/-- The pool accepts a request. -/
theorem Frames.accept (s : Cdata) (accepted : List Nat) (h : ∀ k ∈ s.accepted, k ∈ accepted) :
    Frames s { s with accepted } where
  live _ hq := hq
  id _ _ := rfl
  redirected _ _ hr := hr
  latch _ _ := Or.inl
  authorised _ _ ha := ha
  calls := rfl
  reconnects := rfl
  clientIds := rfl
  sent _ _ hk := hk
  accepted := h

/-- A call of `send_client` begins. -/
theorem Known.call (h : Known s) {call : SendCall} (hstage : call.stage = .lookup)
    (hanswers : ∀ msg, call.message = some msg → ∃ k req, call.answers = some k ∧
      s.sent[k]? = some req ∧ req.client = call.client ∧ (msg.accepts = true → k ∈ s.accepted)) :
    Known { s with calls := s.calls ++ [call] } where
  ids := h.ids
  id_inj := h.id_inj
  latch := h.latch
  held c hc p hp := by
    rcases List.mem_append.mp hc with hc | hc
    · exact h.held c hc p hp
    · rw [List.mem_singleton.mp hc, hstage] at hp
      cases hp
  answers c hc msg hmsg := by
    rcases List.mem_append.mp hc with hc | hc
    · exact h.answers c hc msg hmsg
    · obtain rfl := List.mem_singleton.mp hc
      exact hanswers msg hmsg

theorem Fair.call (h : Fair s) {call : SendCall} (hstage : call.stage = .lookup) :
    Fair { s with calls := s.calls ++ [call] } := by
  have htold : told { s with calls := s.calls ++ [call] } = s.told := by
    have htelling : call.telling = none := by rw [SendCall.telling, hstage]
    show _ ++ (s.calls ++ [call]).filterMap SendCall.telling = _
    rw [List.filterMap_append, List.filterMap_cons_none htelling, List.filterMap_nil,
      List.append_nil]
    rfl
  refine ⟨fun c hc p hp => ?_, htold ▸ h.once, fun i hi => h.latched i (htold ▸ hi), h.logged,
    fun c hc hb => ?_⟩
  · rcases List.mem_append.mp hc with hc | hc
    · exact h.points c hc p hp
    · rw [List.mem_singleton.mp hc, hstage] at hp
      cases hp
  · rcases List.mem_append.mp hc with hc | hc
    · exact h.earned c hc hb
    · rw [List.mem_singleton.mp hc, hstage] at hb
      cases hb

/-- The connector, with the request among those sent, and a share in flight if it is one. -/
theorem Wf.request (h : Wf s) (hp : p ∈ s.live) (now : Nat) (req : Request) :
    Tallied s (if req.submit then s.parseRedirectorShare p req.id now else s) := by
  split_ifs
  · exact Tallied.parseRedirectorShare h.toCounted hp req.id now
  · exact Tallied.refl h.toCounted

/-- An answer, once the result of an authorisation has been seen to. -/
theorem Frames.reply (s : Cdata) (k : Nat) (client : Int) (authResult : Bool) (msg : Message) :
    Frames s { (if authResult then s.authResult client msg else s) with
      accepted := if msg.accepts then
        (if authResult then s.authResult client msg else s).accepted ++ [k]
        else (if authResult then s.authResult client msg else s).accepted } := by
  have hauth : Frames s (if authResult then s.authResult client msg else s) := by
    split_ifs
    · exact Frames.authResult s client msg
    · exact Frames.refl s
  refine hauth.trans (Frames.accept _ _ fun j hj => ?_)
  by_cases haccepts : msg.accepts = true
  · rw [if_pos haccepts]
    exact List.mem_append_left _ hj
  · rw [if_neg haccepts]
    exact hj

theorem reply_live (s : Cdata) (client : Int) (authResult : Bool) (msg : Message) :
    (if authResult then s.authResult client msg else s).live = s.live := by
  split_ifs
  · exact authResult_live s client msg
  · rfl

/-- **Every step keeps the connector well formed.** -/
theorem Wf.step (h : Wf s) (redirecturls : Nat) (e : Event) : Wf (s.step redirecturls e) := by
  have hheld : ∀ t : Cdata, t.live = s.live → ∀ call ∈ s.calls, ∀ p, call.stage.holds = some p →
      p ∈ t.live := fun t ht call hcall p hp => ht ▸ (h.held call hcall p hp).1
  cases e with
  | accept address => exact h.accept redirecturls address
  | request p now req =>
    rw [Cdata.step]
    by_cases hp : p ∈ s.live
    · rw [if_pos hp]
      have ht := h.request hp now req
      have hknown := (Frames.of_tallies ht.toTallies).known h.toKnown
        (hheld _ ht.toTallies.live)
      exact ⟨ht.counted.congr rfl rfl rfl (fun _ => rfl) (fun _ => rfl) (fun _ _ => rfl) rfl,
        (Frames.request _ _).known hknown fun c hc q hq => (hknown.held c hc q hq).1⟩
    · rw [if_neg hp]
      exact h
  | reply k authResult result error =>
    rw [Cdata.step]
    rcases hreq : s.sent[k]? with - | req
    · exact h
    · dsimp only
      have hframes := Frames.reply s k req.client authResult { id := req.id, result, error }
      have hlive := reply_live s req.client authResult { id := req.id, result, error }
      have hcounted : Counted (if authResult then
          s.authResult req.client { id := req.id, result, error } else s) := by
        split_ifs
        · exact h.toCounted.authResult _ _
        · exact h.toCounted
      have hbefore := hframes.known h.toKnown (hheld _ hlive)
      set call : SendCall :=
        { client := req.client, message := some { id := req.id, result, error },
          answers := some k, stage := .lookup } with hcall
      have hlookup : call.stage = .lookup := rfl
      have hknown := hbefore.call hlookup fun msg hmsg => by
        obtain rfl := Option.some.inj hmsg
        refine ⟨k, req, rfl, hframes.sent k req hreq, rfl, fun haccepts => ?_⟩
        dsimp only
        rw [if_pos haccepts]
        exact List.mem_append_right _ List.mem_cons_self
      exact ⟨hcounted.congr rfl rfl rfl (fun _ => rfl) (fun _ => rfl) (fun _ _ => rfl) rfl, hknown⟩
  | notice id =>
    exact ⟨h.toCounted.congr rfl rfl rfl (fun _ => rfl) (fun _ => rfl) (fun _ _ => rfl) rfl,
      h.toKnown.call rfl fun _ hmsg => by cases hmsg⟩
  | send call now =>
    rw [Cdata.step]
    split_ifs with hcall
    · refine ⟨h.toCounted.sendClient redirecturls now fun p hp => (h.held call hcall p hp).1,
        h.toKnown.sendClient redirecturls now hcall fun p hstage => ?_⟩
      have hp := (h.held call hcall p (by rw [hstage]; rfl)).1
      exact (Tallied.testRedirectorShares h.toCounted hp call.message now).toTallies
    · exact h
  | expire now =>
    have ht := Tallied.expireRedirectorShares h.toCounted now
    exact ⟨ht.counted, h.toKnown.tallied ht.toTallies⟩
  | drop p =>
    rw [Cdata.step]
    split_ifs with hp
    · refine ⟨h.toCounted.drop hp, (Frames.drop hp).known h.toKnown fun c hc q hq => ?_⟩
      exact (dropped_perm hp).mem_iff.mpr (h.held c hc q hq).1
    · exact h
  | recycle p =>
    rw [Cdata.step]
    split_ifs with hguard
    · obtain ⟨hp, hfree⟩ := hguard
      refine ⟨h.toCounted.recycle hp, (Frames.recycle h.toCounted hp).known h.toKnown
        fun c hc q hq => (h.mem_recycled hp).mpr ⟨?_, (h.held c hc q hq).1⟩⟩
      rintro rfl
      exact hfree c hc hq
    · exact h

/-- **Every proper step keeps the redirects fair.** -/
theorem Fair.step (h : Fair s) (hwf : Wf s) (redirecturls : Nat) {e : Event} (hproper : s.Proper e) :
    Fair (s.step redirecturls e) := by
  have hpoints : ∀ t : Cdata, t.live = s.live → ∀ call ∈ s.calls, ∀ p,
      call.stage.points = some p → p ∈ t.live :=
    fun t ht call hcall p hp => ht ▸ (h.points call hcall p hp).1
  cases e with
  | accept address => exact h.accept hwf redirecturls address
  | request p now req =>
    rw [Cdata.step]
    by_cases hp : p ∈ s.live
    · rw [if_pos hp]
      have ht := hwf.request hp now req
      have hfair := (Frames.of_tallies ht.toTallies).fair h (hpoints _ ht.toTallies.live)
      exact (Frames.request _ _).fair hfair fun c hc q hq => (hfair.points c hc q hq).1
    · rw [if_neg hp]
      exact h
  | reply k authResult result error =>
    rw [Cdata.step]
    rcases hreq : s.sent[k]? with - | req
    · exact h
    · dsimp only
      have hframes := Frames.reply s k req.client authResult { id := req.id, result, error }
      exact (hframes.fair h (hpoints _ (reply_live s req.client authResult _))).call rfl
  | notice id => exact h.call rfl
  | send call now =>
    rw [Cdata.step]
    split_ifs with hcall
    · exact h.sendClient hwf redirecturls now hcall hproper
    · exact h
  | expire now =>
    have ht := Tallied.expireRedirectorShares hwf.toCounted now
    exact (Frames.of_tallies ht.toTallies).fair h (hpoints _ ht.toTallies.live)
  | drop p =>
    rw [Cdata.step]
    split_ifs with hp
    · exact (Frames.drop hp).fair h fun c hc q hq =>
        (dropped_perm hp).mem_iff.mpr (h.points c hc q hq).1
    · exact h
  | recycle p =>
    rw [Cdata.step]
    split_ifs with hguard
    · obtain ⟨hp, -⟩ := hguard
      refine (Frames.recycle hwf.toCounted hp).fair h fun c hc q hq =>
        (hwf.mem_recycled hp).mpr ⟨?_, (h.points c hc q hq).1⟩
      rintro rfl
      exact hproper c hc hq
    · exact h

theorem Wf.start (serverurls : Nat) : Wf (Cdata.start serverurls) where
  nodup := List.nodup_nil
  generated := nofun
  blank _ _ := ⟨rfl, rfl⟩
  nshares _ := rfl
  room _ := Nat.zero_le _
  total := rfl
  limit := Nat.zero_le _
  ids := nofun
  id_inj := nofun
  latch := nofun
  held := nofun
  answers := nofun

theorem Fair.start (serverurls : Nat) : Fair (Cdata.start serverurls) where
  points := nofun
  once := List.nodup_nil
  latched := nofun
  logged := nofun
  earned := nofun

theorem Fair.redirects (h : Fair s) (hwf : Wf s) : s.Redirects where
  once := (List.nodup_append.mp h.once).1
  authorised r hr := (h.logged r hr).1
  earned r hr := (h.logged r hr).2
  counted p _ := ⟨hwf.nshares p, hwf.room p⟩
  total := ⟨hwf.total, hwf.limit⟩

end Cdata

/-! ### Runs -/

/-- **The counts of the shares are right, and bounded, in every run.** -/
theorem shares_counted (redirecturls serverurls : Nat) (events : List Event) :
    Cdata.Counted (run (Cdata.step redirecturls) (Cdata.start serverurls) events) :=
  (run_invariant_always (fun _ e h => h.step redirecturls e) events
    (Cdata.Wf.start serverurls)).toCounted

/-- **In every run in which no answer to anything but a share comes with the id of a share in
flight, and no client is recycled under a call, a client is sent away at most once, while it
is authorised, and for a share that the pool accepted.** -/
theorem redirects_earned (redirecturls serverurls : Nat) (events : List Event)
    (hproper : Along (Cdata.step redirecturls) Cdata.Proper (Cdata.start serverurls) events) :
    (run (Cdata.step redirecturls) (Cdata.start serverurls) events).Redirects := by
  have hrun := run_invariant (I := fun s : Cdata => Cdata.Wf s ∧ Cdata.Fair s)
    (fun s e he h => ⟨h.1.step redirecturls e, h.2.step h.1 redirecturls he⟩) hproper
    ⟨Cdata.Wf.start serverurls, Cdata.Fair.start serverurls⟩
  exact hrun.2.redirects hrun.1

/-- The call for the answer to a request of client 1, at a stage. -/
def answering (k : Nat) (id : Int) (stage : Stage) : SendCall where
  client := 1
  message := some { id := some id, result := .bool true, error := .null }
  answers := some k
  stage := stage

/-- Client 1, on memory 0, is authorised by its request with id 1. -/
def authorisedClient : List Event :=
  [.accept [49], .request 0 0 { submit := false, id := some 1 }, .reply 0 true (.bool true) .null,
    .send (answering 0 1 .lookup) 0, .send (answering 0 1 (.found 0)) 0,
    .send (answering 0 1 (.matching 0)) 0, .send (answering 0 1 (.testing 0)) 0]

/-- The rest of a call whose answer redirects client 1. -/
def redirecting (k : Nat) (id : Int) : List Event :=
  [.send (answering k id .lookup) 1, .send (answering k id (.found 0)) 1,
    .send (answering k id (.matching 0)) 1, .send (answering k id (.testing 0)) 1,
    .send (answering k id (.redirecting 0 true)) 1, .send (answering k id (.reconnecting 0 true)) 1]

/-- It submits a share with id 5, which the pool accepts. -/
def acceptedShare : List Event :=
  authorisedClient ++ [.request 0 1 { submit := true, id := some 5 },
    .reply 1 false (.bool true) .null] ++ redirecting 1 5

/-- It asks for an authorisation with id 1 and submits a share with id 1, which is read when
the result of the authorisation has been seen and not been sent on yet. -/
def reusedId : List Event :=
  [.accept [49], .request 0 0 { submit := false, id := some 1 }, .reply 0 true (.bool true) .null,
    .request 0 1 { submit := true, id := some 1 }] ++ redirecting 0 1

/-- Along a run in which the client goes for the share that the pool accepted. -/
theorem acceptedShare_earned :
    (run (Cdata.step 1) (Cdata.start 1) acceptedShare).Redirects :=
  redirects_earned 1 1 acceptedShare (by decide)

/-- The result of the authorisation sends the client away, although the pool has accepted no
share. -/
theorem reusedId_unearned :
    ¬∀ (redirecturls serverurls : Nat) (events : List Event),
      (run (Cdata.step redirecturls) (Cdata.start serverurls) events).Redirects := by
  intro h
  have hearned := (h 1 1 reusedId).earned
    { client := 1, authorised := true, byShare := true, redirectNo := 0 } (by decide) rfl
  obtain ⟨k, hk, req, hreq, -, hsubmit, -⟩ := hearned
  have haccepted : (run (Cdata.step 1) (Cdata.start 1) reusedId).accepted = [0] := by
    decide
  have hsent : (run (Cdata.step 1) (Cdata.start 1) reusedId).sent.map (fun req => req.submit) =
      [false, true] := by
    decide
  have hat := congrArg (Option.map fun req : Sent => req.submit) hreq
  rw [haccepted] at hk
  obtain rfl := List.mem_singleton.mp hk
  rw [← List.getElem?_map, hsent, Option.map_some, hsubmit] at hat
  cases hat

end CashStratum.Redirector
