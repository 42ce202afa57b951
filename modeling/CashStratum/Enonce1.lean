/-
CashStratum/Enonce1.lean

Who holds which extranonce (`stratifier.c`).

Extranonces come from one counter, cut to the configured width, and come back
through the table of disconnected sessions.  While the width is not used up, what the
counter gives is new; and a session has the extranonce of a client that is dropped at
the same moment, so the table never has what somebody else holds.  That is where the
code fails: `drop_client` can be called again for a client that is dropped and still
referenced, and saves its session again, although the first one may have been resumed
in the meantime (`dropped_twice_shares_enonce1`).  In a run without that, no two live
clients hold the same extranonce (`enonce1_unique`).
-/
import CashStratum.InstanceKeeps
import Mathlib.Data.List.Nodup
import Mathlib.Data.Nat.ModEq

namespace CashStratum

/-! ### Values of the counter -/

/-- The counter has room for the widest extranonce. -/
theorem leBytes_counter {w : Nat} (hw : w ≤ 8) (n : Nat) : leBytes w (n % 2 ^ 64) = leBytes w n := by
  have hdvd : 256 ^ w ∣ 2 ^ 64 := (pow_dvd_pow 256 hw).trans (by norm_num)
  rw [← leBytes_mod w (n % 2 ^ 64), Nat.mod_mod_of_dvd n hdvd, leBytes_mod]

/-- What the counter gives within the width is different. -/
theorem leBytes_add_inj {w start j k : Nat} (hj : j < 256 ^ w) (hk : k < 256 ^ w)
    (h : leBytes w (start + j) = leBytes w (start + k)) : j = k := by
  have hmod := congrArg leNat h
  rw [leNat_leBytes, leNat_leBytes] at hmod
  have hcancel : j ≡ k [MOD 256 ^ w] := Nat.ModEq.add_left_cancel' start hmod
  rwa [Nat.ModEq, Nat.mod_eq_of_lt hj, Nat.mod_eq_of_lt hk] at hcancel

namespace InstanceData

variable {c : InstanceConf} {s t : InstanceData} {p q randomiser : Nat}

/-- The extranonce the session keeps, as its client has it. -/
def sessionEnonce1 (c : InstanceConf) (session : Session) : Bytes :=
  leBytes c.ck.nonce1length session.enonce1_64

/-- If the event makes `drop_client` save the session of a client that is dropped
already, nobody else has the extranonce of that client. -/
def SavesOnce (c : InstanceConf) (s : InstanceData) (e : InstanceEvent) : Prop :=
  ∀ drop ∈ e.drops c s, ∀ p ∈ s.instanceById drop.1, (s.inst p).dropped = true →
    s.savesSession (s.inst p) drop.2 = true →
      (∀ q ∈ s.stratumInstances, (s.inst q).dropped = false →
        (s.inst q).enonce1bin ≠ (s.inst p).enonce1bin) ∧
      ∀ session ∈ s.disconnectedSessions, drop.2 - session.added ≤ 600 →
        sessionEnonce1 c session ≠ (s.inst p).enonce1bin

instance (c : InstanceConf) (s : InstanceData) : DecidablePred (SavesOnce c s) := fun e =>
  inferInstanceAs (Decidable (∀ drop ∈ e.drops c s, ∀ p ∈ s.instanceById drop.1, _ → _ →
    (∀ q ∈ s.stratumInstances, _) ∧ ∀ session ∈ s.disconnectedSessions, _))

/-! ### The invariant -/

/-- The extranonce is one of those the counter has given. -/
def Given (c : InstanceConf) (randomiser : Nat) (s : InstanceData) (enonce1 : Bytes) : Prop :=
  ∃ k, 1 ≤ k ∧ k ≤ s.allocated ∧ enonce1 = leBytes c.ck.nonce1length (randomiser + k)

/-- Clients that are not dropped, and saved sessions, all hold different extranonces,
and the counter has given all of them. -/
structure OneHolder (c : InstanceConf) (randomiser : Nat) (s : InstanceData) : Prop where
  counter : s.enonce1_64 = (randomiser + s.allocated) % 2 ^ 64
  given : ∀ p ∈ s.stratumInstances, ((s.inst p).enonce1bin = [] ∧ (s.inst p).enonce1_64 = 0) ∨
    (Given c randomiser s (s.inst p).enonce1bin ∧
      leBytes c.ck.nonce1length (s.inst p).enonce1_64 = (s.inst p).enonce1bin)
  saved : ∀ session ∈ s.disconnectedSessions, Given c randomiser s (sessionEnonce1 c session)
  clients : ∀ p ∈ s.stratumInstances, ∀ q ∈ s.stratumInstances, (s.inst p).dropped = false →
    (s.inst q).dropped = false → (s.inst p).enonce1bin ≠ [] →
      (s.inst p).enonce1bin = (s.inst q).enonce1bin → p = q
  sessions : (s.disconnectedSessions.map (sessionEnonce1 c)).Nodup
  apart : ∀ session ∈ s.disconnectedSessions, ∀ p ∈ s.stratumInstances, (s.inst p).dropped = false →
    sessionEnonce1 c session ≠ (s.inst p).enonce1bin

/-- Nobody gets an extranonce from `s` to `t`, and none is given or saved. -/
structure SameEnonce1 (s t : InstanceData) : Prop where
  live : ∀ p ∈ t.stratumInstances, ((t.inst p).enonce1bin = [] ∧ (t.inst p).enonce1_64 = 0) ∨
    (p ∈ s.stratumInstances ∧ (t.inst p).enonce1bin = (s.inst p).enonce1bin ∧
      (t.inst p).enonce1_64 = (s.inst p).enonce1_64 ∧
      ((s.inst p).dropped = true → (t.inst p).dropped = true))
  sessions : t.disconnectedSessions = s.disconnectedSessions
  enonce1_64 : t.enonce1_64 = s.enonce1_64
  allocated : t.allocated = s.allocated

theorem leBytes_ne_nil (c : InstanceConf) (n : Nat) : leBytes c.ck.nonce1length n ≠ [] := by
  intro hnil
  have hlen := length_leBytes c.ck.nonce1length n
  rw [hnil] at hlen
  have := c.ck.nonce1_range
  simp only [List.length_nil] at hlen
  omega

/-- An extranonce is not empty. -/
theorem Given.ne_nil {enonce1 : Bytes} (h : Given c randomiser s enonce1) : enonce1 ≠ [] := by
  obtain ⟨k, -, -, rfl⟩ := h
  exact leBytes_ne_nil c _

theorem Given.mono {enonce1 : Bytes} (h : Given c randomiser s enonce1) (hle : s.allocated ≤ t.allocated) :
    Given c randomiser t enonce1 := by
  obtain ⟨k, hk, hk', rfl⟩ := h
  exact ⟨k, hk, hk'.trans hle, rfl⟩

/-- The next value of the counter has not been given yet. -/
theorem Given.ne_next {enonce1 : Bytes} (h : Given c randomiser s enonce1)
    (hroom : s.allocated + 1 < 256 ^ c.ck.nonce1length) :
    leBytes c.ck.nonce1length (randomiser + (s.allocated + 1)) ≠ enonce1 := by
  obtain ⟨k, -, hk, rfl⟩ := h
  intro heq
  have := leBytes_add_inj hroom (by omega) heq
  omega

theorem SameEnonce1.of_keeps (h : Keeps s t) : SameEnonce1 s t where
  live p hp := by
    rcases h.live p hp with hblank | ⟨hlive, hkeeps⟩
    · have hcore := hblank.1
      simp only [ClientInstance.core, Prod.mk.injEq] at hcore
      exact Or.inl ⟨hcore.2.2.2.2.2.1, hcore.2.2.2.2.1⟩
    · have hcore := hkeeps.core
      simp only [ClientInstance.core, Prod.mk.injEq] at hcore
      exact Or.inr ⟨hlive, hcore.2.2.2.2.2.1, hcore.2.2.2.2.1, hkeeps.dropped⟩
  sessions := h.sessions
  enonce1_64 := h.enonce1_64
  allocated := h.allocated

namespace OneHolder

/-- A live client with an extranonce that is not dropped was one before. -/
theorem of_same (h : OneHolder c randomiser s) (he : SameEnonce1 s t) : OneHolder c randomiser t := by
  have hold : ∀ p ∈ t.stratumInstances, (t.inst p).dropped = false → (t.inst p).enonce1bin ≠ [] →
      p ∈ s.stratumInstances ∧ (s.inst p).dropped = false ∧
        (s.inst p).enonce1bin = (t.inst p).enonce1bin := by
    intro p hp hdropped hbin
    rcases he.live p hp with ⟨habs, -⟩ | ⟨hlive, hsame, -, hmono⟩
    · exact absurd habs hbin
    · refine ⟨hlive, Bool.eq_false_iff.mpr fun hd => ?_, hsame.symm⟩
      rw [hmono hd] at hdropped
      cases hdropped
  have hgiven : ∀ enonce1, Given c randomiser s enonce1 → Given c randomiser t enonce1 :=
    fun _ hg => hg.mono he.allocated.ge
  constructor
  · rw [he.enonce1_64, he.allocated]
    exact h.counter
  · intro p hp
    rcases he.live p hp with hblank | ⟨hlive, hbin, henonce, -⟩
    · exact Or.inl hblank
    · rw [hbin, henonce]
      exact (h.given p hlive).imp id fun hg => ⟨hgiven _ hg.1, hg.2⟩
  · rw [he.sessions]
    exact fun session hs => hgiven _ (h.saved session hs)
  · intro p hp q hq hdp hdq hbin heq
    obtain ⟨hlive, hd, hsame⟩ := hold p hp hdp hbin
    obtain ⟨hlive', hd', hsame'⟩ := hold q hq hdq (heq ▸ hbin)
    exact h.clients p hlive q hlive' hd hd' (hsame ▸ hbin) (hsame.trans (heq.trans hsame'.symm))
  · rw [he.sessions]
    exact h.sessions
  · intro session hs p hp hdropped heq
    rw [he.sessions] at hs
    have hbin : (t.inst p).enonce1bin ≠ [] := heq ▸ (h.saved session hs).ne_nil
    obtain ⟨hlive, hd, hsame⟩ := hold p hp hdropped hbin
    exact h.apart session hs p hlive hd (heq.trans hsame.symm)

/-- A client gets an extranonce that nobody else holds. -/
theorem handed (h : OneHolder c randomiser s) (hallocated : s.allocated ≤ t.allocated)
    (hcounter : t.enonce1_64 = (randomiser + t.allocated) % 2 ^ 64)
    (hlive : ∀ q ∈ t.stratumInstances, q ≠ p → q ∈ s.stratumInstances ∧ t.inst q = s.inst q)
    (hself : Given c randomiser t (t.inst p).enonce1bin ∧
      leBytes c.ck.nonce1length (t.inst p).enonce1_64 = (t.inst p).enonce1bin)
    (hnew : ∀ q ∈ s.stratumInstances, (s.inst q).dropped = false →
      (t.inst p).enonce1bin ≠ (s.inst q).enonce1bin)
    (hsessions : t.disconnectedSessions.Sublist s.disconnectedSessions)
    (hfree : ∀ session ∈ t.disconnectedSessions, sessionEnonce1 c session ≠ (t.inst p).enonce1bin) :
    OneHolder c randomiser t := by
  have hgiven : ∀ enonce1, Given c randomiser s enonce1 → Given c randomiser t enonce1 :=
    fun _ hg => hg.mono hallocated
  have hother : ∀ q ∈ t.stratumInstances, q ≠ p → (t.inst q).dropped = false →
      (t.inst p).enonce1bin ≠ (t.inst q).enonce1bin := by
    intro q hq hne hdropped
    obtain ⟨hmem, hsame⟩ := hlive q hq hne
    rw [hsame] at hdropped ⊢
    exact hnew q hmem hdropped
  constructor
  · exact hcounter
  · intro q hq
    by_cases hne : q = p
    · rw [hne]
      exact Or.inr hself
    · obtain ⟨hmem, hsame⟩ := hlive q hq hne
      rw [hsame]
      exact (h.given q hmem).imp id fun hg => ⟨hgiven _ hg.1, hg.2⟩
  · exact fun session hs => hgiven _ (h.saved session (hsessions.subset hs))
  · intro q hq r hr hdq hdr hbin heq
    by_cases hne : q = p
    · by_cases hne' : r = p
      · rw [hne, hne']
      · rw [hne] at heq
        exact absurd heq (hother r hr hne' hdr)
    · by_cases hne' : r = p
      · rw [hne'] at heq
        exact absurd heq.symm (hother q hq hne hdq)
      · obtain ⟨hmem, hsame⟩ := hlive q hq hne
        obtain ⟨hmem', hsame'⟩ := hlive r hr hne'
        rw [hsame] at hdq hbin heq
        rw [hsame'] at hdr heq
        exact h.clients q hmem r hmem' hdq hdr hbin heq
  · exact h.sessions.sublist (hsessions.map _)
  · intro session hs q hq hdropped
    by_cases hne : q = p
    · rw [hne]
      exact hfree session hs
    · obtain ⟨hmem, hsame⟩ := hlive q hq hne
      rw [hsame] at hdropped ⊢
      exact h.apart session (hsessions.subset hs) q hmem hdropped

/-- **The next value of the counter goes to a client.** -/
theorem fresh (h : OneHolder c randomiser s) (hroom : s.allocated + 1 < 256 ^ c.ck.nonce1length)
    (hlive : ∀ q ∈ t.stratumInstances, q ≠ p → q ∈ s.stratumInstances ∧ t.inst q = s.inst q)
    (hself : (t.inst p).enonce1bin = leBytes c.ck.nonce1length s.nextEnonce1.enonce1_64 ∧
      leBytes c.ck.nonce1length (t.inst p).enonce1_64 = (t.inst p).enonce1bin)
    (hsessions : t.disconnectedSessions.Sublist s.disconnectedSessions)
    (hcounter : t.enonce1_64 = s.nextEnonce1.enonce1_64) (hallocated : t.allocated = s.allocated + 1) :
    OneHolder c randomiser t := by
  have hnext : s.nextEnonce1.enonce1_64 = (randomiser + t.allocated) % 2 ^ 64 := by
    show (s.enonce1_64 + 1) % 2 ^ 64 = _
    rw [h.counter, hallocated, Nat.mod_add_mod, Nat.add_assoc]
  have hbin : (t.inst p).enonce1bin = leBytes c.ck.nonce1length (randomiser + (s.allocated + 1)) := by
    rw [hself.1, hnext, leBytes_counter c.ck.nonce1_range.2, hallocated]
  refine h.handed (by omega) (hcounter.trans hnext) hlive ⟨?_, hself.2⟩ (fun q hq _ => ?_)
    hsessions fun session hs heq => ?_
  · exact ⟨t.allocated, by omega, le_rfl, by rw [hbin, hallocated]⟩
  · rw [hbin]
    rcases h.given q hq with ⟨hnil, -⟩ | ⟨hg, -⟩
    · rw [hnil]
      exact leBytes_ne_nil c _
    · exact hg.ne_next hroom
  · rw [hbin] at heq
    exact (h.saved session (hsessions.subset hs)).ne_next hroom heq.symm

/-- **A saved session is taken out of the table, and its extranonce goes to a
client.** -/
theorem resume (h : OneHolder c randomiser s) {session : Session}
    (hsession : session ∈ s.disconnectedSessions)
    (hlive : ∀ q ∈ t.stratumInstances, q ≠ p → q ∈ s.stratumInstances ∧ t.inst q = s.inst q)
    (hself : (t.inst p).enonce1_64 = session.enonce1_64 ∧
      (t.inst p).enonce1bin = sessionEnonce1 c session)
    (hsessions : t.disconnectedSessions = s.disconnectedSessions.erase session)
    (hcounter : t.enonce1_64 = s.enonce1_64) (hallocated : t.allocated = s.allocated) :
    OneHolder c randomiser t := by
  have hsub : t.disconnectedSessions.Sublist s.disconnectedSessions := by
    rw [hsessions]
    exact List.erase_sublist
  refine h.handed hallocated.ge ?_ hlive ⟨?_, ?_⟩ (fun q hq hdropped => ?_) hsub
    fun session' hs heq => ?_
  · rw [hcounter, hallocated]
    exact h.counter
  · rw [hself.2]
    exact (h.saved session hsession).mono hallocated.ge
  · rw [hself.1, hself.2]
    rfl
  · rw [hself.2]
    exact h.apart session hsession q hq hdropped
  · -- no other session has this extranonce
    rw [hself.2] at heq
    rw [hsessions, h.sessions.of_map.mem_erase_iff] at hs
    exact hs.1 (List.inj_on_of_nodup_map h.sessions hs.2 hsession heq)

/-- Sessions that age leave the table. -/
theorem fewer (h : OneHolder c randomiser s) {kept : List Session}
    (hsub : kept.Sublist s.disconnectedSessions) :
    OneHolder c randomiser { s with disconnectedSessions := kept } where
  counter := h.counter
  given := h.given
  saved session hs := h.saved session (hsub.subset hs)
  clients := h.clients
  sessions := h.sessions.sublist (hsub.map _)
  apart session hs := h.apart session (hsub.subset hs)

/-- The session of a client is saved, when nobody else has its extranonce. -/
theorem save (h : OneHolder c randomiser s) (hp : p ∈ s.stratumInstances) (now : Nat)
    (hset : (s.inst p).enonce1_64 ≠ 0)
    (hclients : ∀ q ∈ s.stratumInstances, (s.inst q).dropped = false →
      (s.inst q).enonce1bin ≠ (s.inst p).enonce1bin)
    (hsessions : ∀ session ∈ s.disconnectedSessions, sessionEnonce1 c session ≠ (s.inst p).enonce1bin) :
    OneHolder c randomiser { s with
      disconnectedSessions := s.disconnectedSessions ++ [sessionOf (s.inst p) now] } := by
  obtain ⟨-, hzero⟩ | ⟨hgiven, hbin⟩ := h.given p hp
  · exact absurd hzero hset
  have hvalue : sessionEnonce1 c (sessionOf (s.inst p) now) = (s.inst p).enonce1bin := hbin
  refine ⟨h.counter, h.given, ?_, h.clients, ?_, ?_⟩
  · intro session hs
    rw [List.mem_append, List.mem_singleton] at hs
    rcases hs with hs | rfl
    · exact h.saved session hs
    · rw [hvalue]
      exact hgiven
  · dsimp only
    rw [List.map_append, List.map_singleton, hvalue]
    refine List.nodup_append.mpr ⟨h.sessions, List.nodup_singleton _, ?_⟩
    intro a ha b hb heq
    obtain ⟨session, hs, rfl⟩ := List.mem_map.mp ha
    rw [List.mem_singleton.mp hb] at heq
    exact hsessions session hs heq
  · intro session hs q hq hd
    rw [List.mem_append, List.mem_singleton] at hs
    rcases hs with hs | rfl
    · exact h.apart session hs q hq hd
    · rw [hvalue]
      exact (hclients q hq hd).symm

end OneHolder

/-! ### Drops by id -/

theorem reap_not_mem (hwf : Wf s) (p : Nat) : p ∉ (s.reap p).stratumInstances := by
  rw [reap_stratumInstances, hwf.table_nodup.mem_erase_iff]
  exact fun hin => hin.1 rfl

theorem dropClientLocked_not_mem (hwf : Wf s) (p : Nat) :
    p ∉ (s.dropClientLocked p).stratumInstances := by
  rw [dropClientLocked]
  split_ifs
  · exact reap_not_mem ((hwf.dropEach _).unlink p) p
  · exact reap_not_mem (hwf.unlink p) p

/-- What `drop_client` leaves of its client: nothing, or a dropped client. -/
theorem dropClient_keeps (hwf : Wf s) {id : Nat} (now : Nat) (hp : s.instanceById id = some p) :
    Keeps (s.disconnectSession p now) (s.dropClient id now) ∧
      (p ∈ (s.dropClient id now).stratumInstances → ((s.dropClient id now).inst p).dropped = true) := by
  have hdis := hwf.disconnectSession p now
  rw [dropClient, hp]
  dsimp only
  split_ifs
  · exact ⟨Keeps.dropClientLocked hdis p, fun hin => absurd hin (dropClientLocked_not_mem hdis p)⟩
  · refine ⟨Keeps.markDropped _ p, fun _ => ?_⟩
    rw [modify_inst_self]

namespace OneHolder

/-- **Dropping a client by its id.**  Its session may be saved, and it is dropped at
the same moment. -/
theorem dropClient (h : OneHolder c randomiser s) (hwf : Wf s) {id now : Nat}
    (honce : ∀ p ∈ s.instanceById id, (s.inst p).dropped = true →
      s.savesSession (s.inst p) now = true →
        (∀ q ∈ s.stratumInstances, (s.inst q).dropped = false →
          (s.inst q).enonce1bin ≠ (s.inst p).enonce1bin) ∧
        ∀ session ∈ s.disconnectedSessions, now - session.added ≤ 600 →
          sessionEnonce1 c session ≠ (s.inst p).enonce1bin) :
    OneHolder c randomiser (s.dropClient id now) := by
  rcases hid : s.instanceById id with - | p
  · rw [InstanceData.dropClient, hid]
    exact h
  · have hp := (instanceById_mem hid).1
    obtain ⟨hkeeps, hgone⟩ := dropClient_keeps hwf now hid
    -- the table of sessions changes as if the client had been dropped before
    set kept := s.disconnectedSessions.filter fun session => now - session.added ≤ 600 with hkept
    have hsub : kept.Sublist s.disconnectedSessions := List.filter_sublist
    have hmark := (h.of_same (SameEnonce1.of_keeps (Keeps.markDropped s p))).fewer hsub
    have hself : (InstanceData.modify s p fun i => { i with dropped := true }).inst p =
      { s.inst p with dropped := true } := modify_inst_self
    have hmid : ∃ sessions, (s.disconnectSession p now).disconnectedSessions = sessions ∧
        OneHolder c randomiser { s.modify p fun i => { i with dropped := true } with
          disconnectedSessions := sessions } := by
      refine ⟨_, rfl, ?_⟩
      rw [disconnectSession]
      split_ifs with hsave
      · have hother : (∀ q ∈ s.stratumInstances, q ≠ p → (s.inst q).dropped = false →
            (s.inst q).enonce1bin ≠ (s.inst p).enonce1bin) ∧
            ∀ session ∈ kept, sessionEnonce1 c session ≠ (s.inst p).enonce1bin := by
          rcases hd : (s.inst p).dropped with - | -
          · have hbin : (s.inst p).enonce1bin ≠ [] := by
              rcases h.given p hp with ⟨-, hzero⟩ | ⟨hg, -⟩
              · rw [savesSession, hzero] at hsave
                simp at hsave
              · exact hg.ne_nil
            exact ⟨fun q hq hne hdq heq => hne (h.clients q hq p hp hdq hd (heq ▸ hbin) heq),
              fun session hs => h.apart session (List.mem_of_mem_filter hs) p hp hd⟩
          · obtain ⟨hclients, hsessions⟩ := honce p hid hd hsave
            refine ⟨fun q hq _ => hclients q hq, fun session hs => ?_⟩
            rw [hkept, List.mem_filter, decide_eq_true_iff] at hs
            exact hsessions session hs.1 hs.2
        have hset : (s.inst p).enonce1_64 ≠ 0 := by
          rw [savesSession] at hsave
          exact (decide_eq_true_iff.mp hsave).1
        have hsaved := hmark.save (p := p) hp now (by rw [hself]; exact hset) ?_ ?_
        · have hsession : sessionOf ((InstanceData.modify s p fun i =>
              { i with dropped := true }).inst p) now = sessionOf (s.inst p) now := by
            rw [hself]
            rfl
          dsimp only at hsaved ⊢
          rw [hsession] at hsaved
          exact hsaved
        · intro q hq hdq
          dsimp only at hq hdq ⊢
          rw [modify_inst] at hdq ⊢
          rw [hself]
          split_ifs at hdq ⊢ with heq
          exact hother.1 q hq heq hdq
        · intro session hs
          dsimp only
          rw [hself]
          exact hother.2 session hs
      · exact hmark
    obtain ⟨sessions, hsessions, hmid⟩ := hmid
    refine hmid.of_same ⟨fun q hq => ?_, ?_, ?_, ?_⟩
    · have hrest := disconnectSession_rest s p now
      have hsame := SameEnonce1.of_keeps hkeeps
      rcases hsame.live q hq with hblank | ⟨hlive, hbin, henonce, hmono⟩
      · exact Or.inl hblank
      · right
        rw [hrest] at hlive hbin henonce hmono
        dsimp only at hlive hbin henonce hmono ⊢
        rw [modify_inst]
        split_ifs with heq
        · rw [heq] at hq hlive hbin henonce ⊢
          exact ⟨hlive, hbin, henonce, fun _ => hgone hq⟩
        · exact ⟨hlive, hbin, henonce, hmono⟩
    · rw [hkeeps.sessions]
      exact hsessions
    · rw [hkeeps.enonce1_64, disconnectSession_rest]
      rfl
    · rw [hkeeps.allocated, disconnectSession_rest]
      rfl

end OneHolder

/-! ### Subscriptions -/

/-- The extranonce of a subscription: that of a session, which leaves the table, or
the next one. -/
theorem parseSubscribe_enonce1 (s : InstanceData) (c : InstanceConf) (p : Nat) (arr : List Param) :
    (∃ session ∈ s.disconnectedSessions,
      ((s.parseSubscribe c p (some arr)).inst p).enonce1_64 = session.enonce1_64 ∧
      ((s.parseSubscribe c p (some arr)).inst p).enonce1bin = sessionEnonce1 c session ∧
      (s.parseSubscribe c p (some arr)).disconnectedSessions = s.disconnectedSessions.erase session ∧
      (s.parseSubscribe c p (some arr)).enonce1_64 = s.enonce1_64 ∧
      (s.parseSubscribe c p (some arr)).allocated = s.allocated) ∨
    (((s.parseSubscribe c p (some arr)).inst p).enonce1_64 = s.nextEnonce1.enonce1_64 ∧
      ((s.parseSubscribe c p (some arr)).inst p).enonce1bin =
        leBytes c.ck.nonce1length s.nextEnonce1.enonce1_64 ∧
      (s.parseSubscribe c p (some arr)).disconnectedSessions.Sublist s.disconnectedSessions ∧
      (s.parseSubscribe c p (some arr)).enonce1_64 = s.nextEnonce1.enonce1_64 ∧
      (s.parseSubscribe c p (some arr)).allocated = s.allocated + 1) := by
  -- both ways end with an extranonce that is filled in
  have hfill : ∀ (r : InstanceData) (e : Nat),
      let t := ((r.modify p fun i => { i with enonce1_64 := e }).fillEnonce1data c p).modify p fun i =>
        { i with subscribed := true }
      (t.inst p).enonce1_64 = e ∧ (t.inst p).enonce1bin = leBytes c.ck.nonce1length e := by
    intro r e
    dsimp only [fillEnonce1data]
    rw [modify_inst_self, modify_inst_self, modify_inst_self]
    exact ⟨rfl, rfl⟩
  rw [parseSubscribe]
  dsimp only
  set t := s.modify p fun i => { i with useragent := some (Params.getStr arr 0) }
  have hlookup : ∀ r e, (if intFromSessionid (Params.getStr arr 1) ≠ 0 ∧ subclient (t.inst p).id = 0 then
      t.disconnectedSessionidExists (intFromSessionid (Params.getStr arr 1)) else (t, 0)) = (r, e) →
      (e = 0 ∧ r = { t with disconnectedSessions := r.disconnectedSessions } ∧
        r.disconnectedSessions.Sublist s.disconnectedSessions) ∨
      ∃ session ∈ s.disconnectedSessions, e = session.enonce1_64 ∧
        r = { t with disconnectedSessions := s.disconnectedSessions.erase session } := by
    intro r e hr
    split_ifs at hr
    · rw [disconnectedSessionidExists] at hr
      split at hr
      · obtain ⟨rfl, rfl⟩ := Prod.mk.inj hr
        exact Or.inl ⟨rfl, rfl, List.Sublist.refl _⟩
      · rename_i session hfind
        obtain ⟨rfl, rfl⟩ := Prod.mk.inj hr
        exact Or.inr ⟨session, List.mem_of_find?_eq_some hfind, rfl, rfl⟩
    · obtain ⟨rfl, rfl⟩ := Prod.mk.inj hr
      exact Or.inl ⟨rfl, rfl, List.Sublist.refl _⟩
  rcases hres : (if intFromSessionid (Params.getStr arr 1) ≠ 0 ∧ subclient (t.inst p).id = 0 then
      t.disconnectedSessionidExists (intFromSessionid (Params.getStr arr 1)) else (t, 0)) with ⟨r, e⟩
  dsimp only
  have hnew : r.enonce1_64 = s.enonce1_64 → r.allocated = s.allocated →
      r.disconnectedSessions.Sublist s.disconnectedSessions →
      let t' := (r.newEnonce1 c p).modify p fun i => { i with subscribed := true }
      (t'.inst p).enonce1_64 = s.nextEnonce1.enonce1_64 ∧
        (t'.inst p).enonce1bin = leBytes c.ck.nonce1length s.nextEnonce1.enonce1_64 ∧
        t'.disconnectedSessions.Sublist s.disconnectedSessions ∧
        t'.enonce1_64 = s.nextEnonce1.enonce1_64 ∧ t'.allocated = s.allocated + 1 := by
    intro hcounter hallocated hsub
    have hnext : r.nextEnonce1.enonce1_64 = s.nextEnonce1.enonce1_64 := by
      show (r.enonce1_64 + 1) % 2 ^ 64 = _
      rw [hcounter]
      rfl
    obtain ⟨hvalue, hbin⟩ := hfill r.nextEnonce1 r.nextEnonce1.enonce1_64
    rw [hnext] at hvalue hbin
    refine ⟨?_, ?_, hsub, hnext, congrArg (· + 1) hallocated⟩
    · rw [newEnonce1, hnext]
      exact hvalue
    · rw [newEnonce1, hnext]
      exact hbin
  rcases hlookup r e hres with ⟨rfl, hr, hsub⟩ | ⟨session, hsession, rfl, hr⟩
  · right
    rw [if_neg (by simp)]
    exact hnew (by rw [hr]; rfl) (by rw [hr]; rfl) hsub
  · by_cases hzero : session.enonce1_64 = 0
    · right
      rw [if_neg (by simpa using hzero)]
      refine hnew (by rw [hr]; rfl) (by rw [hr]; rfl) ?_
      rw [hr]
      exact List.erase_sublist
    · left
      rw [if_pos hzero]
      obtain ⟨hvalue, hbin⟩ := hfill r session.enonce1_64
      refine ⟨session, hsession, hvalue, hbin, ?_, ?_, ?_⟩
      · rw [hr]
        rfl
      · rw [hr]
        rfl
      · rw [hr]
        rfl

namespace OneHolder

theorem parseSubscribe (h : OneHolder c randomiser s) (params : Params)
    (hroom : (s.parseSubscribe c p params).allocated < 256 ^ c.ck.nonce1length) :
    OneHolder c randomiser (s.parseSubscribe c p params) := by
  rcases params with - | arr
  · exact h
  · have hall := Subscribes.parseSubscribe s c p (some arr)
    have hlive : ∀ q ∈ (s.parseSubscribe c p (some arr)).stratumInstances, q ≠ p →
        q ∈ s.stratumInstances ∧ (s.parseSubscribe c p (some arr)).inst q = s.inst q := by
      intro q hq hne
      rw [hall.rest] at hq
      exact ⟨hq, hall.inst_ne q hne⟩
    obtain ⟨session, hsession, hvalue, hbin, hsessions, hcounter, hallocated⟩ |
      ⟨hvalue, hbin, hsessions, hcounter, hallocated⟩ := parseSubscribe_enonce1 s c p arr
    · exact h.resume hsession hlive ⟨hvalue, hbin⟩ hsessions hcounter hallocated
    · rw [hallocated] at hroom
      exact h.fresh hroom hlive ⟨hbin, by rw [hvalue, hbin]⟩ hsessions hcounter hallocated

end OneHolder

/-! ### Authorisations and channels -/

namespace SameEnonce1

variable {r : InstanceData}

theorem refl (s : InstanceData) : SameEnonce1 s s :=
  ⟨fun _ hp => Or.inr ⟨hp, rfl, rfl, fun hd => hd⟩, rfl, rfl, rfl⟩

theorem trans (h : SameEnonce1 r s) (h' : SameEnonce1 s t) : SameEnonce1 r t where
  live p hp := by
    rcases h'.live p hp with hblank | ⟨hlive, hbin, hvalue, hmono⟩
    · exact Or.inl hblank
    · rw [hbin, hvalue]
      rcases h.live p hlive with hblank | ⟨hlive', hbin', hvalue', hmono'⟩
      · exact Or.inl hblank
      · exact Or.inr ⟨hlive', hbin', hvalue', fun hd => hmono (hmono' hd)⟩
  sessions := h'.sessions.trans h.sessions
  enonce1_64 := h'.enonce1_64.trans h.enonce1_64
  allocated := h'.allocated.trans h.allocated

theorem of_inst (hinst : t.inst = s.inst) (htable : t.stratumInstances = s.stratumInstances)
    (hsessions : t.disconnectedSessions = s.disconnectedSessions)
    (hcounter : t.enonce1_64 = s.enonce1_64) (hallocated : t.allocated = s.allocated) :
    SameEnonce1 s t where
  live p hp := by
    rw [htable] at hp
    rw [hinst]
    exact Or.inr ⟨hp, rfl, rfl, fun hd => hd⟩
  sessions := hsessions
  enonce1_64 := hcounter
  allocated := hallocated

theorem modify (s : InstanceData) (p : Nat) {f : ClientInstance → ClientInstance}
    (hbin : (f (s.inst p)).enonce1bin = (s.inst p).enonce1bin)
    (hvalue : (f (s.inst p)).enonce1_64 = (s.inst p).enonce1_64)
    (hdropped : (s.inst p).dropped = true → (f (s.inst p)).dropped = true) :
    SameEnonce1 s (s.modify p f) where
  live q hq := by
    refine Or.inr ⟨hq, ?_⟩
    rw [modify_inst]
    split_ifs with heq
    · rw [heq]
      exact ⟨hbin, hvalue, hdropped⟩
    · exact ⟨rfl, rfl, fun hd => hd⟩
  sessions := rfl
  enonce1_64 := rfl
  allocated := rfl

theorem markDropped (s : InstanceData) (p : Nat) :
    SameEnonce1 s (s.modify p fun i => { i with dropped := true }) :=
  modify s p rfl rfl fun _ => rfl

theorem modifyUser (s : InstanceData) (u : Bytes) (g : UserInstance → UserInstance) :
    SameEnonce1 s (s.modifyUser u g) :=
  of_inst rfl rfl rfl rfl rfl

theorem generateUser {workername u : Bytes} (hgen : s.generateUser c p workername = (t, some u)) :
    SameEnonce1 s t := by
  have hmod := modify s p (f := fun i => { i with userInstance := some u, workerInstance := workername })
    rfl rfl id
  refine hmod.trans ?_
  rw [generateUser_rest hgen]
  exact of_inst rfl rfl rfl rfl rfl

theorem setWorkername (s : InstanceData) (p : Nat) (workername : Bytes) :
    SameEnonce1 s (s.modify p fun i => { i with workername := some workername }) :=
  modify s p rfl rfl id

theorem clientAuth (s : InstanceData) (p : Nat) (u : Bytes) (now : Nat) (ret : Bool) :
    SameEnonce1 s (s.clientAuth p u now ret) := by
  rw [InstanceData.clientAuth]
  split_ifs
  · exact (modify s p (f := fun i => { i with authorised := true, authorising := false }) rfl rfl
      id).trans (modifyUser _ u _)
  · exact (modify s p (f := fun i => { i with reject := 3, authorising := false }) rfl rfl
      id).trans (modifyUser _ u _)

theorem parseAuthorise (s : InstanceData) (c : InstanceConf) (p now : Nat) (params : Params) :
    SameEnonce1 s (s.parseAuthorise c p now params).1 := by
  obtain ⟨e, -, heq⟩ | ⟨buf, -, ⟨-, heq⟩ | ⟨t, u, hgen, ⟨-, heq⟩ | ⟨-, err, heq⟩⟩⟩ :=
    parseAuthorise_cases s c p now params
  · rw [heq]
    exact refl s
  · rw [heq]
    exact markDropped s p
  · rw [heq]
    exact (((generateUser hgen).trans (setWorkername t p buf)).trans (modifyUser _ u _)).trans
      (markDropped _ p)
  · rw [heq]
    exact ((generateUser hgen).trans (setWorkername t p buf)).trans (clientAuth _ p u now _)

theorem preauth (s : InstanceData) : SameEnonce1 s s.preauth := by
  rw [InstanceData.preauth]
  split
  · exact refl s
  · dsimp only
    split
    · exact of_inst rfl rfl rfl rfl rfl
    · rename_i q hfound
      split_ifs
      · exact of_inst rfl rfl rfl rfl rfl
      · exact (modify s q (f := fun i => { i with ref := i.ref + 1, authorising := true }) rfl rfl
          id).trans (of_inst rfl rfl rfl rfl rfl)

theorem sauthProcess (s : InstanceData) (c : InstanceConf) (now : Nat) :
    SameEnonce1 s (s.sauthProcess c now) := by
  rw [InstanceData.sauthProcess]
  split
  · exact refl s
  · rename_i q params hjob
    have hfree : SameEnonce1 s { s with authjob := none } := of_inst rfl rfl rfl rfl rfl
    have hparse := hfree.trans (parseAuthorise { s with authjob := none } c q now params)
    rcases hres : InstanceData.parseAuthorise { s with authjob := none } c q now params with
      ⟨t, ret, err⟩
    rw [hres] at hparse
    dsimp only at hparse ⊢
    split_ifs
    · exact hparse.trans (markDropped t q)
    · exact hparse

/-- Once a channel has its instance, opening its session leaves extranonces alone. -/
theorem sv2OpenSession (hwf : Wf s) {id server : Nat} (now : Nat) (userIdentity : Bytes) (hid : 0 < id)
    (hadd : s.sv2AddInstance c id server = (t, q)) :
    SameEnonce1 t (s.sv2OpenSession c id server now userIdentity) := by
  obtain ⟨ht, hq, hheld⟩ := hwf.sv2AddInstance hid hadd
  obtain ⟨r, heq, hw, hcases⟩ := sv2OpenSession_cases now userIdentity hadd
  have hsame : SameEnonce1 t r := by
    rcases hcases with ⟨-, rfl⟩ | ⟨r', u, hgen, ⟨-, rfl⟩ | ⟨-, rfl⟩⟩
    · exact markDropped t q
    · exact ((generateUser hgen).trans (setWorkername r' q userIdentity)).trans (markDropped _ q)
    · exact ((generateUser hgen).trans (setWorkername r' q userIdentity)).trans
        (clientAuth _ q u now true)
  rw [heq]
  exact hsame.trans (of_keeps (Keeps.decInstanceRef (ht.writes hw hq) (hw.held hheld)))

end SameEnonce1

/-- A channel is given one extranonce. -/
theorem sv2OpenSession_allocated (hwf : Wf s) {id : Nat} (server now : Nat) (userIdentity : Bytes)
    (hid : s.FreshId id) :
    (s.sv2OpenSession c id server now userIdentity).allocated = s.allocated + 1 := by
  rcases hadd : s.sv2AddInstance c id server with ⟨t, q⟩
  obtain ⟨-, hrest, -⟩ := hwf.sv2AddInstance_fresh hid hadd
  rw [(SameEnonce1.sv2OpenSession hwf now userIdentity hid.1 hadd).allocated, hrest]
  rfl

namespace OneHolder

/-- A channel gets the next extranonce. -/
theorem sv2OpenSession (h : OneHolder c randomiser s) (hwf : Wf s) {id : Nat} (server now : Nat)
    (userIdentity : Bytes) (hid : s.FreshId id)
    (hroom : (s.sv2OpenSession c id server now userIdentity).allocated < 256 ^ c.ck.nonce1length) :
    OneHolder c randomiser (s.sv2OpenSession c id server now userIdentity) := by
  rcases hadd : s.sv2AddInstance c id server with ⟨t, q⟩
  obtain ⟨hnew, hrest, hinst, sessionId, hself⟩ := hwf.sv2AddInstance_fresh hid hadd
  have hall := SameEnonce1.sv2OpenSession hwf now userIdentity hid.1 hadd
  have hallocated : t.allocated = s.allocated + 1 := by
    rw [hrest]
    rfl
  rw [hall.allocated, hallocated] at hroom
  refine OneHolder.of_same ?_ hall
  refine h.fresh hroom (p := q) (fun r' hr' hne => ?_) ?_ ?_ ?_ hallocated
  · rw [hrest, List.mem_append, List.mem_singleton] at hr'
    exact ⟨hr'.resolve_right hne, hinst r' hne⟩
  · rw [hself]
    refine ⟨rfl, ?_⟩
    show leBytes c.ck.nonce1length (leNat (leBytes c.ck.nonce1length _)) = _
    rw [leNat_leBytes, leBytes_mod]
  · rw [hrest]
    exact List.Sublist.refl _
  · rw [hrest]

/-! ### Steps and runs -/

/-- **Every event keeps the extranonces apart**, as long as the width is not used up
and no session is saved that somebody else has resumed. -/
theorem step (h : OneHolder c randomiser s) (hwf : Wf s) {e : InstanceEvent} (honce : SavesOnce c s e)
    (hroom : (s.step c e).allocated < 256 ^ c.ck.nonce1length) : OneHolder c randomiser (s.step c e) := by
  have hshape := step_shape (c := c) hwf e
  generalize s.step c e = t at hshape hroom ⊢
  cases hshape with
  | keeps hk => exact h.of_same (.of_keeps hk)
  | drop id now hdrop => exact h.dropClient hwf fun p hp => honce (id, now) hdrop p hp
  | subscribe q params => exact h.parseSubscribe params hroom
  | trusted q msg hrest =>
    rw [hrest]
    exact h.of_same (.of_inst rfl rfl rfl rfl rfl)
  | preauth => exact h.of_same (.preauth s)
  | authorise now => exact h.of_same (.sauthProcess s c now)
  | sv2Open id server now userIdentity hid =>
    exact h.sv2OpenSession hwf server now userIdentity hid hroom

theorem start (c : InstanceConf) (loaded : LoadedUsers) (randomiser : Nat) :
    OneHolder c randomiser (InstanceData.start loaded randomiser) where
  counter := rfl
  given := nofun
  saved := nofun
  clients := nofun
  sessions := List.nodup_nil
  apart := nofun

end OneHolder

/-- The count of extranonces given out never goes down. -/
theorem step_allocated (hwf : Wf s) (e : InstanceEvent) : s.allocated ≤ (s.step c e).allocated := by
  have hshape := step_shape (c := c) hwf e
  generalize s.step c e = t at hshape ⊢
  cases hshape with
  | keeps hk => exact hk.allocated.ge
  | drop id now =>
    rcases hid : s.instanceById id with - | p
    · rw [dropClient, hid]
    · rw [(dropClient_keeps hwf now hid).1.allocated, disconnectSession_rest]
  | subscribe q params =>
    rcases params with - | arr
    · exact le_rfl
    · obtain ⟨session, -, -, -, -, -, hallocated⟩ | ⟨-, -, -, -, hallocated⟩ :=
        parseSubscribe_enonce1 s c q arr
      · rw [hallocated]
      · rw [hallocated]
        exact Nat.le_succ _
  | trusted q msg hrest => rw [hrest]
  | preauth => exact (SameEnonce1.preauth s).allocated.ge
  | authorise now => exact (SameEnonce1.sauthProcess s c now).allocated.ge
  | sv2Open id server now userIdentity hid =>
    rw [sv2OpenSession_allocated hwf server now userIdentity hid]
    exact Nat.le_succ _

/-- **No two live clients hold the same extranonce**, over every run that does not use
up its width and in which no client that is dropped already has its session saved
while somebody else has its extranonce. -/
theorem enonce1_unique (c : InstanceConf) (loaded : LoadedUsers) (randomiser : Nat)
    (events : List InstanceEvent)
    (honce : Along (InstanceData.step c) (SavesOnce c) (InstanceData.start loaded randomiser) events) :
    let s := run (InstanceData.step c) (InstanceData.start loaded randomiser) events
    s.allocated < 256 ^ c.ck.nonce1length →
      ∀ p ∈ s.stratumInstances, ∀ q ∈ s.stratumInstances, (s.inst p).dropped = false →
        (s.inst q).dropped = false → (s.inst p).enonce1bin ≠ [] →
          (s.inst p).enonce1bin = (s.inst q).enonce1bin → p = q := by
  intro s hroom
  have hinv : Wf s ∧ (s.allocated < 256 ^ c.ck.nonce1length → OneHolder c randomiser s) := by
    refine run_invariant
      (I := fun t => Wf t ∧ (t.allocated < 256 ^ c.ck.nonce1length → OneHolder c randomiser t)) ?_ honce
      ⟨Wf.start loaded randomiser, fun _ => OneHolder.start c loaded randomiser⟩
    rintro t e he ⟨hwf, ht⟩
    refine ⟨hwf.step e, fun hroom' => ?_⟩
    have hbefore := Nat.lt_of_le_of_lt (step_allocated (c := c) hwf e) hroom'
    exact (ht hbefore).step hwf he hroom'
  exact (hinv.2 hroom).clients

/-- One client is dropped and the next one resumes its session. -/
def resumedRun : List InstanceEvent :=
  connect 1 0 0 ++ subscribe 0 :: authorise 0 [98, 111, 98] ++ [.dropClient 1 100] ++ connect 2 0 1 ++
    [.message 1 101 (.subscribe (some [.str [], .str [48, 48, 48, 48, 48, 48, 48, 54]]))]

example : (run (InstanceData.step exampleConf) (InstanceData.start noUsers 5) resumedRun).allocated
    = 1 := by
  decide +kernel

theorem enonce1_unique_resumed :
    let s := run (InstanceData.step exampleConf) (InstanceData.start noUsers 5) resumedRun
    (Along (InstanceData.step exampleConf) (SavesOnce exampleConf) (InstanceData.start noUsers 5)
        resumedRun ∧ s.allocated < 256 ^ exampleConf.ck.nonce1length) ∧
      ∀ p ∈ s.stratumInstances, ∀ q ∈ s.stratumInstances, (s.inst p).dropped = false →
        (s.inst q).dropped = false → (s.inst p).enonce1bin ≠ [] →
          (s.inst p).enonce1bin = (s.inst q).enonce1bin → p = q := by
  have honce : Along (InstanceData.step exampleConf) (SavesOnce exampleConf)
      (InstanceData.start noUsers 5) resumedRun := by decide +kernel
  have hroom : (run (InstanceData.step exampleConf) (InstanceData.start noUsers 5) resumedRun).allocated <
      256 ^ exampleConf.ck.nonce1length := by decide +kernel
  exact ⟨⟨honce, hroom⟩, enonce1_unique exampleConf noUsers 5 resumedRun honce hroom⟩

/-- A client is dropped while it is held, another one resumes its session, the first
is dropped again, and a third one resumes the session that is saved then: the second
and the third client hold the same extranonce. -/
theorem dropped_twice_shares_enonce1 :
    let resume : Params := some [.str [], .str [48, 48, 48, 48, 48, 48, 48, 54]]
    let s := run (InstanceData.step exampleConf) (InstanceData.start noUsers 5)
      (resumedRun ++ [.dropClient 1 102] ++ connect 3 0 2 ++ [.message 2 103 (.subscribe resume)])
    s.stratumInstances = [0, 1, 2] ∧ s.allocated = 1 ∧ 1 < 256 ^ exampleConf.ck.nonce1length ∧
      (s.inst 1).dropped = false ∧ (s.inst 2).dropped = false ∧ (s.inst 1).enonce1bin ≠ [] ∧
      (s.inst 1).enonce1bin = (s.inst 2).enonce1bin := by
  decide +kernel

end InstanceData

end CashStratum
