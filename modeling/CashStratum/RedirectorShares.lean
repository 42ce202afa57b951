/-
CashStratum/RedirectorShares.lean

The counts of the shares in flight: what every operation of the redirector does to the
lists of shares leaves each client with the count of its list, at most 64, and the
connector with the sum of them, at most 4096 (`Counted`).
-/
import CashStratum.Redirector
import Mathlib.Algebra.BigOperators.Group.List.Lemmas

namespace CashStratum.Redirector

/-! ### The counts of the shares -/

namespace Cdata

variable {r s t : Cdata} {p q : Nat} {kept : List Share} {f : Client → Client}

theorem modify_inst (s : Cdata) (p q : Nat) (f : Client → Client) :
    (s.modify p f).inst q = if q = p then f (s.inst p) else s.inst q :=
  Function.update_apply ..

/-- The clients in memory that nobody has are blank, and the counts are those of the lists. -/
structure Counted (s : Cdata) : Prop where
  nodup : (s.live ++ s.recycledClients).Nodup
  generated : ∀ p ∈ s.live ++ s.recycledClients, p < s.clientsGenerated
  blank : ∀ p, p ∉ s.live → (s.inst p).shares = [] ∧ (s.inst p).authorised = false
  nshares : ∀ p, (s.inst p).nshares = (s.inst p).shares.length
  room : ∀ p, (s.inst p).shares.length ≤ shareMaxClient
  total : s.redirectorShares = s.inFlight
  limit : s.redirectorShares ≤ shareMaxGlobal

/-- From `s` to `t` nothing has changed but lists of shares and their counts. -/
structure Tallies (s t : Cdata) : Prop where
  rest : t = { s with inst := t.inst, redirectorShares := t.redirectorShares }
  flags : ∀ p, t.inst p =
    { s.inst p with shares := (t.inst p).shares, nshares := (t.inst p).nshares }

theorem Tallies.refl (s : Cdata) : Tallies s s := ⟨rfl, fun _ => rfl⟩

theorem Tallies.trans (h : Tallies r s) (h' : Tallies s t) : Tallies r t where
  rest := by
    have hs := h.rest
    have ht := h'.rest
    rw [hs] at ht
    exact ht
  flags p := by
    have hs := h.flags p
    have ht := h'.flags p
    rw [hs] at ht
    exact ht

theorem keepShares_inst (s : Cdata) (p : Nat) (kept : List Share) (q : Nat) :
    (s.keepShares p kept).inst q = if q = p then
      { s.inst p with
        shares := kept
        nshares := (s.inst p).nshares - ((s.inst p).shares.length - kept.length) }
      else s.inst q := by
  show Function.update s.inst p _ q = _
  rw [Function.update_apply]

theorem Tallies.keepShares (s : Cdata) (p : Nat) (kept : List Share) :
    Tallies s (s.keepShares p kept) where
  rest := rfl
  flags q := by
    rw [keepShares_inst]
    split_ifs with hq
    · rw [hq]
    · rfl

/-- A change to the shares of one client is one to the sum. -/
theorem inFlight_update (hnodup : s.live.Nodup) (hp : p ∈ s.live) (hlive : t.live = s.live)
    (hne : ∀ q, q ≠ p → (t.inst q).shares = (s.inst q).shares) :
    t.inFlight + (s.inst p).shares.length = s.inFlight + (t.inst p).shares.length := by
  have hrest : (s.live.erase p).map (fun q => (t.inst q).shares.length) =
      (s.live.erase p).map fun q => (s.inst q).shares.length := by
    refine List.map_congr_left fun q hq => ?_
    rw [hne q (hnodup.mem_erase_iff.mp hq).1]
  have hsum : ∀ g : Nat → Nat, (s.live.map g).sum = g p + ((s.live.erase p).map g).sum := by
    intro g
    rw [((List.perm_cons_erase hp).map g).sum_eq, List.map_cons, List.sum_cons]
  rw [inFlight, inFlight, hlive, hsum, hsum, hrest]
  omega

theorem Counted.live_nodup (h : Counted s) : s.live.Nodup := (List.nodup_append.mp h.nodup).1

/-- What is done to flags and to the rest of the connector. -/
theorem Counted.congr (h : Counted s) (hlive : t.live = s.live)
    (hrecycled : t.recycledClients = s.recycledClients)
    (hgenerated : t.clientsGenerated = s.clientsGenerated)
    (hshares : ∀ q, (t.inst q).shares = (s.inst q).shares)
    (hnshares : ∀ q, (t.inst q).nshares = (s.inst q).nshares)
    (hblank : ∀ q, q ∉ s.live → (t.inst q).authorised = (s.inst q).authorised)
    (htotal : t.redirectorShares = s.redirectorShares) : Counted t where
  nodup := by
    rw [hlive, hrecycled]
    exact h.nodup
  generated := by
    rw [hlive, hrecycled, hgenerated]
    exact h.generated
  blank q hq := by
    rw [hlive] at hq
    rw [hshares, hblank q hq]
    exact h.blank q hq
  nshares q := by
    rw [hshares, hnshares]
    exact h.nshares q
  room q := by
    rw [hshares]
    exact h.room q
  total := by
    rw [htotal, h.total, inFlight, inFlight, hlive]
    simp only [hshares]
  limit := by
    rw [htotal]
    exact h.limit

theorem Counted.keepShares (h : Counted s) (hp : p ∈ s.live)
    (hkept : kept.length ≤ (s.inst p).shares.length) : Counted (s.keepShares p kept) := by
  have hinst := keepShares_inst s p kept
  have hupdate := inFlight_update (t := s.keepShares p kept) h.live_nodup hp rfl fun q hq => by
    rw [hinst, if_neg hq]
  rw [hinst p, if_pos rfl] at hupdate
  dsimp only at hupdate
  have htotal := h.total
  have hlimit := h.limit
  have hroom := h.room p
  have hself : (s.keepShares p kept).redirectorShares =
      s.redirectorShares - ((s.inst p).shares.length - kept.length) := rfl
  refine ⟨h.nodup, h.generated, fun q hq => ?_, fun q => ?_, fun q => ?_, ?_, ?_⟩
  · have hne : q ≠ p := fun heq => hq (heq ▸ hp)
    rw [hinst, if_neg hne]
    exact h.blank q hq
  · rw [hinst]
    split_ifs
    · have hcount := h.nshares p
      dsimp only
      omega
    · exact h.nshares q
  · rw [hinst]
    split_ifs
    · dsimp only
      omega
    · exact h.room q
  · omega
  · omega

theorem Tallies.live (h : Tallies s t) : t.live = s.live := by
  rw [h.rest]
  rfl

theorem unexpired_length (s : Cdata) (p now : Nat) :
    (s.unexpired p now).length ≤ (s.inst p).shares.length :=
  (List.dropWhile_suffix _).length_le

/-- What becomes of the lists of shares, with the counts. -/
structure Tallied (s t : Cdata) : Prop extends Tallies s t where
  counted : Counted t

namespace Tallied

theorem refl (h : Counted s) : Tallied s s := ⟨Tallies.refl s, h⟩

theorem trans (h : Tallied r s) (h' : Tallied s t) : Tallied r t :=
  ⟨h.toTallies.trans h'.toTallies, h'.counted⟩

theorem live (h : Tallied s t) (hp : p ∈ s.live) : p ∈ t.live := by rwa [h.toTallies.live]

theorem keepShares (h : Counted s) (hp : p ∈ s.live)
    (hkept : kept.length ≤ (s.inst p).shares.length) : Tallied s (s.keepShares p kept) :=
  ⟨Tallies.keepShares s p kept, h.keepShares hp hkept⟩

theorem expireRedirShares (h : Counted s) (hp : p ∈ s.live) (now : Nat) :
    Tallied s (s.expireRedirShares p now) := keepShares h hp (unexpired_length s p now)

theorem freeRedirShares (h : Counted s) (hp : p ∈ s.live) : Tallied s (s.freeRedirShares p) :=
  keepShares h hp (Nat.zero_le _)

/-- A share is added when both the client and the connector have room. -/
theorem addRedirShare (h : Counted s) (hp : p ∈ s.live) (id : Int) (now : Nat) :
    Tallied s (s.addRedirShare p id now) := by
  have hnshares := h.nshares p
  have hroom := h.room p
  set kept := (s.inst p).shares.drop ((s.inst p).nshares + 1 - shareMaxClient) with hkept
  have hlength : kept.length = (s.inst p).shares.length - ((s.inst p).nshares + 1 - shareMaxClient) :=
    List.length_drop
  have hfree : Tallied s (s.keepShares p kept) := keepShares h hp (by omega)
  have hinst := keepShares_inst s p kept
  set t := s.keepShares p kept with ht
  rw [Cdata.addRedirShare, ← hkept, ← ht]
  dsimp only
  split_ifs with hfull
  · exact hfree
  have hshares : (t.inst p).shares = kept := by rw [hinst, if_pos rfl]
  have hself : ∀ q, (t.modify p fun i =>
      { i with shares := i.shares ++ [{ id, submitted := now }], nshares := i.nshares + 1 }).inst q =
      if q = p then { t.inst p with
        shares := (t.inst p).shares ++ [{ id, submitted := now }], nshares := (t.inst p).nshares + 1 }
      else t.inst q := fun q => modify_inst ..
  refine ⟨hfree.toTallies.trans ⟨rfl, fun q => ?_⟩, ?_⟩
  · dsimp only
    rw [hself]
    split_ifs with hq
    · rw [hq]
    · rfl
  · have hcounted := hfree.counted
    have hmax : shareMaxClient = 64 := rfl
    have hupdate := inFlight_update (t := { t.modify p fun i =>
      { i with shares := i.shares ++ [{ id, submitted := now }], nshares := i.nshares + 1 } with
        redirectorShares := t.redirectorShares + 1 }) hcounted.live_nodup (hfree.live hp) rfl
        fun q hq => by
          dsimp only
          rw [hself, if_neg hq]
    dsimp only at hupdate
    rw [hself, if_pos rfl, List.length_append, List.length_singleton] at hupdate
    have htotal := hcounted.total
    refine ⟨hcounted.nodup, hcounted.generated, fun q hq => ?_, fun q => ?_, fun q => ?_, ?_, ?_⟩
    · have hne : q ≠ p := by
        rintro rfl
        exact hq (hfree.live hp)
      dsimp only
      rw [hself, if_neg hne]
      exact hcounted.blank q hq
    · dsimp only
      rw [hself]
      split_ifs
      · have hcount := hcounted.nshares p
        dsimp only
        rw [List.length_append, List.length_singleton]
        omega
      · exact hcounted.nshares q
    · dsimp only
      rw [hself]
      split_ifs
      · rw [List.length_append, List.length_singleton, hshares, hlength]
        omega
      · exact hcounted.room q
    · dsimp only
      omega
    · dsimp only
      omega

theorem parseRedirectorShare (h : Counted s) (hp : p ∈ s.live) (id : Option Int) (now : Nat) :
    Tallied s (s.parseRedirectorShare p id now) := by
  have hexpire := expireRedirShares h hp now
  rcases id with - | id
  · exact refl h
  · rw [Cdata.parseRedirectorShare]
    dsimp only
    split_ifs
    · exact refl h
    · exact hexpire
    · exact hexpire.trans (addRedirShare hexpire.counted (hexpire.live hp) id now)

theorem testRedirectorShares (h : Counted s) (hp : p ∈ s.live) (msg : Option Message) (now : Nat) :
    Tallied s (s.testRedirectorShares p msg now).1 := by
  have hexpire := expireRedirShares h hp now
  rw [Cdata.testRedirectorShares]
  rcases msg.bind Message.verdict with - | ⟨id, result⟩
  · exact refl h
  · dsimp only
    have herase : ∀ t : Cdata, Counted t → p ∈ t.live →
        Tallied t (t.keepShares p ((t.inst p).shares.eraseP fun share => share.id = id)) :=
      fun t ht hlive => keepShares ht hlive List.length_eraseP_le
    have hunlink := hexpire.trans (herase _ hexpire.counted (hexpire.live hp))
    split_ifs
    · exact refl h
    · exact hunlink.trans (freeRedirShares hunlink.counted (hunlink.live hp))
    · exact hunlink
    · exact hexpire

theorem expireRedirectorShares (h : Counted s) (now : Nat) :
    Tallied s (s.expireRedirectorShares now) := by
  suffices hloop : ∀ (todo : List Nat) (t : Cdata), (∀ p ∈ todo, p ∈ s.live) → Tallied s t →
      Tallied s (todo.foldl (fun t p => t.expireRedirShares p now) t) from
    hloop s.clients s (fun p hp => List.mem_append_left _ hp) (refl h)
  intro todo
  induction todo with
  | nil => exact fun t _ ht => ht
  | cons p todo ih =>
    intro t htodo ht
    have hp : p ∈ t.live := ht.live (htodo p List.mem_cons_self)
    exact ih _ (fun q hq => htodo q (List.mem_cons_of_mem p hq))
      (ht.trans (expireRedirShares ht.counted hp now))

end Tallied

theorem clientById_mem {id : Int} (h : s.clientById id = some p) :
    p ∈ s.live ∧ (s.inst p).id = id := by
  have hid := List.find?_some h
  exact ⟨List.mem_append_left _ (List.mem_of_find?_eq_some h), of_decide_eq_true hid⟩

namespace Counted

/-- A write to the flags of a client. -/
theorem modify (h : Counted s) (hp : p ∈ s.live) (hshares : (f (s.inst p)).shares = (s.inst p).shares)
    (hnshares : (f (s.inst p)).nshares = (s.inst p).nshares) : Counted (s.modify p f) := by
  refine h.congr rfl rfl rfl (fun q => ?_) (fun q => ?_) (fun q hq => ?_) rfl
  · rw [modify_inst]
    split_ifs with heq
    · rw [hshares, heq]
    · rfl
  · rw [modify_inst]
    split_ifs with heq
    · rw [hnshares, heq]
    · rfl
  · have hne : q ≠ p := fun heq => hq (heq ▸ hp)
    rw [modify_inst, if_neg hne]

theorem leave (h : Counted s) (call : SendCall) (next : Option Stage) : Counted (s.leave call next) :=
  h.congr rfl rfl rfl (fun _ => rfl) (fun _ => rfl) (fun _ _ => rfl) rfl

theorem authResult (h : Counted s) (id : Int) (msg : Message) : Counted (s.authResult id msg) := by
  rw [Cdata.authResult]
  rcases hid : s.clientById id with - | p
  · exact h
  · obtain ⟨hp, -⟩ := clientById_mem hid
    have hfree := Tallied.freeRedirShares h hp
    dsimp only
    split_ifs
    · exact h
    · exact h.modify hp rfl rfl
    · exact hfree.counted
    · exact hfree.counted.modify (hfree.live hp) rfl rfl
    · exact h

theorem addRedirect (h : Counted s) (redirecturls : Nat) (address : Bytes) :
    Counted (s.addRedirect redirecturls address).1 := by
  rw [Cdata.addRedirect]
  split
  · exact h
  · exact h.congr rfl rfl rfl (fun _ => rfl) (fun _ => rfl) (fun _ _ => rfl) rfl

/-- A call of `send_client` may point to a client that is gone; what it does to the shares it
does to a live one. -/
theorem sendClient (h : Counted s) (redirecturls : Nat) {call : SendCall} (now : Nat)
    (hheld : ∀ p, call.stage.holds = some p → p ∈ s.live) :
    Counted (s.sendClient redirecturls call now) := by
  rw [Cdata.sendClient]
  rcases hstage : call.stage with - | p | p | p | ⟨p, byShare⟩ | ⟨p, byShare⟩
  · exact h.leave call _
  · exact h.leave call _
  · exact h.leave call _
  · have hp := hheld p (by rw [hstage]; rfl)
    exact (Tallied.testRedirectorShares h hp call.message now).counted.leave call _
  · dsimp only
    split_ifs with hdone
    · exact h.leave call none
    · rw [not_or, not_not] at hdone
      have hp : p ∈ s.live := by
        by_contra hdead
        rw [(h.blank p hdead).2] at hdone
        cases hdone.2
      have hlatch := h.modify (f := fun i => { i with redirected := true }) hp rfl rfl
      exact (Tallied.freeRedirShares hlatch hp).counted.leave call _
  · exact (h.addRedirect redirecturls (s.inst p).addressName).congr rfl rfl rfl (fun _ => rfl)
      (fun _ => rfl) (fun _ _ => rfl) rfl

end Counted

end Cdata

end CashStratum.Redirector
