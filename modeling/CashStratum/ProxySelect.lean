/-
CashStratum/ProxySelect.lean

Which subproxy a new client is sent to.  It should be one that is alive and has work and a
free slot, of the proxies of the client's user, or of the current global proxy for a user who
has none, and of the highest priority of those (`SelectsRight`).

`select_sdata` starts from the record of the global proxy itself and goes through the list
until it has found a proxy of the user with room or comes to a proxy of a larger userid.
`selectBest_eq` says what that comes to, and `Shape.selectsRight_iff_looksRight` when it is right:
the global proxy is not asked whether it has room, proxies behind one of a larger userid are not
seen, and for userid 0 the global proxy is dereferenced without a look whether there is one.
-/
import CashStratum.ProxyTable

namespace CashStratum

open ProxySdata

/-- A client can go to a subproxy: it is alive and has work and a free slot. -/
def Subproxy.available (sub : Subproxy) : Bool :=
  !sub.dead && sub.currentWorkbase.isSome && decide (0 < freeSlots sub)

namespace ProxySdata

variable {s : ProxySdata} {userid : Int}

/-! ### What is asked for -/

/-- The userid of a listed proxy, which its own record has. -/
def useridOf (s : ProxySdata) (p : ParentProxy) : Int :=
  ((s.existing p.id 0).map Subproxy.userid).getD 0

/-- A proxy has a subproxy that a client can go to. -/
def roomy (s : ProxySdata) (p : ParentProxy) : Bool :=
  s.subproxies.any fun sub => decide (sub.id = p.id) && sub.available

/-- The proxies of a user. -/
def own (s : ProxySdata) (userid : Int) : List ParentProxy :=
  s.proxies.filter fun p => s.useridOf p = userid

/-- The proxies for the clients of a user: his own, or the current global proxy. -/
def offered (s : ProxySdata) (userid : Int) : List ParentProxy :=
  if own s userid = [] then s.proxies.filter fun p => s.proxy = some p.id else own s userid

/-- A subproxy that a client of the user can go to, of the highest priority. -/
structure Fits (s : ProxySdata) (userid : Int) (sub : Subproxy) : Prop where
  mem : sub ∈ s.subproxies
  available : sub.available = true
  best : ∃ p ∈ offered s userid, p.id = sub.id ∧
    ∀ q ∈ offered s userid, s.roomy q = true → p.priority ≤ q.priority

/-- `select_sdata` does what is asked of it: no NULL proxy is dereferenced, the subproxy it
gives is fitting, and it gives none only where no proxy of those for the user has room. -/
def SelectsRight (s : ProxySdata) (userid : Int) : Prop :=
  match s.selectSdata userid with
  | none => False
  | some none => ∀ p ∈ offered s userid, s.roomy p = false
  | some (some sub) => Fits s userid sub

/-! ### What is done -/

/-- The proxies of the user that the loop comes to. -/
def reachedIn (s : ProxySdata) (userid : Int) (proxies : List ParentProxy) : List ParentProxy :=
  (proxies.takeWhile fun p => s.useridOf p ≤ userid).filter fun p => s.useridOf p = userid

/-- Those of the table. -/
def reached (s : ProxySdata) (userid : Int) : List ParentProxy := s.reachedIn userid s.proxies

theorem reachedIn_cons (s : ProxySdata) (userid : Int) (p : ParentProxy)
    (proxies : List ParentProxy) :
    s.reachedIn userid (p :: proxies) =
      if s.useridOf p < userid then s.reachedIn userid proxies
      else if userid < s.useridOf p then []
      else p :: s.reachedIn userid proxies := by
  rw [reachedIn, List.takeWhile_cons]
  by_cases hlt : s.useridOf p < userid
  · rw [if_pos hlt, if_pos (decide_eq_true hlt.le), List.filter_cons_of_neg (by simp [hlt.ne])]
    rfl
  · rw [if_neg hlt]
    by_cases hgt : userid < s.useridOf p
    · rw [if_pos hgt, if_neg (by simpa using hgt)]
      rfl
    · have heq : s.useridOf p = userid := le_antisymm (not_lt.mp hgt) (not_lt.mp hlt)
      rw [if_neg hgt, if_pos (by simp [heq]), List.filter_cons_of_pos (by simp [heq])]
      rfl

/-- A subproxy is found exactly for a proxy with room. -/
theorem bestSubproxy_isSome (s : ProxySdata) (p : ParentProxy) :
    (s.bestSubproxy p.id).isSome = s.roomy p := by
  rw [bestSubproxy, roomy, Bool.eq_iff_iff, List.find?_isSome, List.any_eq_true]
  refine exists_congr fun sub => and_congr_right fun _ => ?_
  simp only [Subproxy.available, Bool.and_eq_true, and_assoc]

theorem bestSubproxy_eq_some {id : Int} {sub : Subproxy} (h : s.bestSubproxy id = some sub) :
    sub ∈ s.subproxies ∧ sub.id = id ∧ sub.available = true := by
  have hkey := List.find?_some h
  simp only [Bool.and_eq_true, decide_eq_true_eq] at hkey
  refine ⟨List.mem_of_find?_eq_some h, hkey.1.1.1, ?_⟩
  simp [Subproxy.available, hkey.1.1.2, hkey.1.2, hkey.2]

/-- **What the loop chooses.** -/
theorem selectFrom_eq (s : ProxySdata) (userid : Int) {proxies : List ParentProxy}
    (hparents : ∀ p ∈ proxies, s.existing p.id 0 ≠ none) (best : Option Subproxy) :
    s.selectFrom userid best proxies =
      if s.reachedIn userid proxies = [] then best
      else ((s.reachedIn userid proxies).find? s.roomy).bind fun p => s.bestSubproxy p.id := by
  induction proxies generalizing best with
  | nil => rfl
  | cons p rest ih =>
    have hrest : ∀ p ∈ rest, s.existing p.id 0 ≠ none :=
      fun q hq => hparents q (List.mem_cons_of_mem p hq)
    rw [selectFrom, reachedIn_cons]
    cases hparent : s.existing p.id 0 with
    | none => exact absurd hparent (hparents p List.mem_cons_self)
    | some parent =>
      have huserid : s.useridOf p = parent.userid := by
        rw [useridOf, hparent]
        rfl
      rw [huserid]
      dsimp only
      split
      · exact ih hrest best
      · split
        · rfl
        · rw [if_neg (List.cons_ne_nil _ _), List.find?_cons]
          have hroomy := bestSubproxy_isSome s p
          cases hbest : s.bestSubproxy p.id with
          | none =>
            have hfull : s.roomy p = false := by rw [← hroomy, hbest]; rfl
            dsimp only
            rw [ih hrest none, hfull]
            by_cases hnil : s.reachedIn userid rest = []
            · rw [if_pos hnil, hnil]
              rfl
            · rw [if_neg hnil]
          | some sub =>
            have hroom : s.roomy p = true := by rw [← hroomy, hbest]; rfl
            dsimp only
            rw [hroom]
            exact hbest.symm

theorem Shape.parents_ne_none (h : Shape s) {p : ParentProxy} (hp : p ∈ s.proxies) :
    s.existing p.id 0 ≠ none := by
  intro hnone
  exact existing_eq_none_iff.mp hnone (h.parents p.entry (List.mem_map.mpr ⟨p, hp, rfl⟩))

theorem Shape.selectBest_eq (h : Shape s) (userid : Int) :
    s.selectBest userid =
      if s.reached userid = [] then s.proxy.bind fun id => s.existing id 0
      else ((s.reached userid).find? s.roomy).bind fun p => s.bestSubproxy p.id :=
  selectFrom_eq s userid (fun _ hp => h.parents_ne_none hp) _

/-! ### When that is right -/

/-- **The condition.** -/
structure LooksRight (s : ProxySdata) (userid : Int) : Prop where
  /-- For userid 0 there is a global proxy, or nothing to be found. -/
  global : userid = 0 → s.proxy = none → ∀ p ∈ s.reached userid, s.roomy p = false
  /-- The first that the loop finds is of the highest priority. -/
  first : ∀ p, (s.reached userid).find? s.roomy = some p →
    ∀ q ∈ s.own userid, s.roomy q = true → p.priority ≤ q.priority
  /-- Where it comes to proxies of the user and finds nothing, or has no default, there is
  nothing to be found. -/
  nothing : (∀ p ∈ s.reached userid, s.roomy p = false) →
    s.reached userid ≠ [] ∨ s.proxy = none → ∀ q ∈ s.own userid, s.roomy q = false
  /-- The record of the global proxy, where it is the default, can be gone to, and if the
  user has proxies it is one of the highest priority of them. -/
  default : s.reached userid = [] →
    ∀ parent, (s.proxy.bind fun id => s.existing id 0) = some parent →
      parent.available = true ∧ (s.own userid ≠ [] → ∃ p ∈ s.own userid, p.id = parent.id ∧
        ∀ q ∈ s.own userid, s.roomy q = true → p.priority ≤ q.priority)

theorem reached_subset (s : ProxySdata) (userid : Int) : s.reached userid ⊆ s.own userid := by
  intro p hp
  obtain ⟨hmem, huserid⟩ := List.mem_filter.mp hp
  exact List.mem_filter.mpr ⟨(List.takeWhile_sublist _).subset hmem, huserid⟩

theorem offered_of_own_ne_nil (h : s.own userid ≠ []) : s.offered userid = s.own userid :=
  if_neg h

theorem own_ne_nil_of_reached (h : s.reached userid ≠ []) : s.own userid ≠ [] := by
  intro hnil
  obtain ⟨p, hp⟩ := List.exists_mem_of_ne_nil _ h
  have hmem := reached_subset s userid hp
  rw [hnil] at hmem
  cases hmem

/-- What the loop finds has room. -/
theorem find_reached {p : ParentProxy} (h : (s.reached userid).find? s.roomy = some p) :
    p ∈ s.own userid ∧ s.roomy p = true :=
  ⟨reached_subset s userid (List.mem_of_find?_eq_some h), List.find?_some h⟩

theorem selectSdata_of_best {sub : Subproxy} (h : s.selectBest userid = some sub) :
    s.selectSdata userid = if userid = 0 ∧ s.proxy = none then none else some (some sub) := by
  rw [selectSdata, h]

theorem selectSdata_of_none (h : s.selectBest userid = none) :
    s.selectSdata userid = some none := by
  rw [selectSdata, h]

/-- A user for whom the loop comes to a proxy with room. -/
theorem selectsRight_iff_of_found (h : Shape s) {p : ParentProxy}
    (hfind : (s.reached userid).find? s.roomy = some p) :
    SelectsRight s userid ↔ ¬(userid = 0 ∧ s.proxy = none) ∧
      ∀ q ∈ s.own userid, s.roomy q = true → p.priority ≤ q.priority := by
  obtain ⟨hown, hroomy⟩ := find_reached hfind
  have hreached : s.reached userid ≠ [] := fun hnil => by rw [hnil] at hfind; cases hfind
  have hoffered := offered_of_own_ne_nil (own_ne_nil_of_reached hreached)
  obtain ⟨sub, hsub⟩ : ∃ sub, s.bestSubproxy p.id = some sub := by
    rw [← Option.isSome_iff_exists, bestSubproxy_isSome]
    exact hroomy
  have hbest : s.selectBest userid = some sub := by
    rw [h.selectBest_eq, if_neg hreached, hfind]
    exact hsub
  obtain ⟨hmem, hid, havailable⟩ := bestSubproxy_eq_some hsub
  rw [SelectsRight, selectSdata_of_best hbest]
  by_cases hnull : userid = 0 ∧ s.proxy = none
  · simp [hnull]
  · rw [if_neg hnull]
    constructor
    · intro hfits
      refine ⟨hnull, ?_⟩
      obtain ⟨p', hp', hid', hleast⟩ := hfits.best
      rw [hoffered] at hp' hleast
      -- the table has one proxy of an id
      have honce : (s.proxies.map ParentProxy.id).Nodup := by
        have honce := h.once
        rwa [map_fst_entries] at honce
      have hsame : p' = p := List.inj_on_of_nodup_map honce (List.mem_filter.mp hp').1
        (List.mem_filter.mp hown).1 (hid'.trans hid)
      rw [← hsame]
      exact hleast
    · rintro ⟨-, hleast⟩
      refine ⟨hmem, havailable, p, ?_, hid.symm, ?_⟩
      · rw [hoffered]
        exact hown
      · rw [hoffered]
        exact hleast

/-- A user for whom it gives nothing. -/
theorem selectsRight_iff_of_none (h : s.selectBest userid = none) :
    SelectsRight s userid ↔ ∀ p ∈ s.offered userid, s.roomy p = false := by
  rw [SelectsRight, selectSdata_of_none h]

/-- The default is there when there is a global proxy. -/
theorem Shape.default_eq_none_iff (h : Shape s) :
    (s.proxy.bind fun id => s.existing id 0) = none ↔ s.proxy = none := by
  cases hproxy : s.proxy with
  | none => simp
  | some id =>
    obtain ⟨e, he, hid⟩ := List.mem_map.mp (h.isListed id hproxy)
    have hparent := h.parents e he
    rw [hid] at hparent
    simp [existing_eq_none_iff, hparent]

/-- A user for whom it gives the record of the global proxy. -/
theorem selectsRight_iff_of_default (h : Shape s) (hreached : s.reached userid = [])
    {parent : Subproxy} (hparent : (s.proxy.bind fun id => s.existing id 0) = some parent) :
    SelectsRight s userid ↔ parent.available = true ∧
      (s.own userid ≠ [] → ∃ p ∈ s.own userid, p.id = parent.id ∧
        ∀ q ∈ s.own userid, s.roomy q = true → p.priority ≤ q.priority) := by
  have hbest : s.selectBest userid = some parent := by
    rw [h.selectBest_eq, if_pos hreached]
    exact hparent
  obtain ⟨id, hproxy, hexisting⟩ := Option.bind_eq_some_iff.mp hparent
  rw [SelectsRight, selectSdata_of_best hbest, if_neg (by simp [hproxy])]
  constructor
  · intro hfits
    refine ⟨hfits.available, fun hown => ?_⟩
    have hbest := hfits.best
    rwa [offered_of_own_ne_nil hown] at hbest
  · rintro ⟨havailable, howned⟩
    refine ⟨existing_mem hexisting, havailable, ?_⟩
    by_cases hown : s.own userid = []
    · -- the one proxy that is offered is the global one
      have hid : parent.id = id := congrArg Prod.fst (existing_key hexisting)
      have hlisted := h.isListed id hproxy
      rw [map_fst_entries] at hlisted
      obtain ⟨p, hp, hpid⟩ := List.mem_map.mp hlisted
      have honce : (s.proxies.map ParentProxy.id).Nodup := by
        have honce := h.once
        rwa [map_fst_entries] at honce
      rw [offered, if_pos hown]
      refine ⟨p, List.mem_filter.mpr ⟨hp, ?_⟩, hpid.trans hid.symm, ?_⟩
      · rw [hproxy, hpid]
        exact decide_eq_true rfl
      · intro q hq _
        obtain ⟨hq, hqid⟩ := List.mem_filter.mp hq
        have hqid := Option.some.inj (hproxy.symm.trans (of_decide_eq_true hqid))
        rw [List.inj_on_of_nodup_map honce hq hp (hqid.symm.trans hpid.symm)]
        exact Int64.le_refl _
    · rw [offered_of_own_ne_nil hown]
      exact howned hown

/-- **When `select_sdata` is right**, in a table of the right shape. -/
theorem Shape.selectsRight_iff_looksRight (h : Shape s) (userid : Int) :
    SelectsRight s userid ↔ LooksRight s userid := by
  by_cases hreached : s.reached userid = []
  · -- no proxy of the user is reached
    have hnobody : ∀ p ∈ s.reached userid, s.roomy p = false := by
      rw [hreached]
      intro p hp
      cases hp
    have hnotfound : ∀ p, (s.reached userid).find? s.roomy ≠ some p := by
      rw [hreached]
      intro p hp
      cases hp
    cases hparent : s.proxy.bind fun id => s.existing id 0 with
    | none =>
      -- and there is no default
      have hproxy := h.default_eq_none_iff.mp hparent
      have hbest : s.selectBest userid = none := by
        rw [h.selectBest_eq, if_pos hreached]
        exact hparent
      have hoffered : (∀ p ∈ s.offered userid, s.roomy p = false) ↔
          ∀ q ∈ s.own userid, s.roomy q = false := by
        by_cases hown : s.own userid = []
        · rw [offered, if_pos hown, hown, hproxy]
          simp
        · rw [offered_of_own_ne_nil hown]
      rw [selectsRight_iff_of_none hbest, hoffered]
      constructor
      · intro hnone
        refine ⟨fun _ _ => hnobody, fun p hp => absurd hp (hnotfound p), fun _ _ => hnone, ?_⟩
        intro _ parent hsome
        rw [hparent] at hsome
        cases hsome
      · intro hlooks
        exact hlooks.nothing hnobody (Or.inr hproxy)
    | some parent =>
      -- the default is taken, whatever room it has
      have hproxy : s.proxy ≠ none := by
        intro hnone
        rw [h.default_eq_none_iff.mpr hnone] at hparent
        cases hparent
      rw [selectsRight_iff_of_default h hreached hparent]
      constructor
      · intro hfits
        refine ⟨fun _ hnone => absurd hnone hproxy, fun p hp => absurd hp (hnotfound p), ?_, ?_⟩
        · rintro - (hne | hnone)
          · exact absurd hreached hne
          · exact absurd hnone hproxy
        · intro _ parent' hparent'
          obtain rfl := Option.some.inj (hparent.symm.trans hparent')
          exact hfits
      · intro hlooks
        exact hlooks.default hreached parent hparent
  · -- the first with room is taken
    cases hfind : (s.reached userid).find? s.roomy with
    | none =>
      have hnobody : ∀ p ∈ s.reached userid, s.roomy p = false := by
        intro p hp
        exact Bool.eq_false_iff.mpr (List.find?_eq_none.mp hfind p hp)
      have hbest : s.selectBest userid = none := by
        rw [h.selectBest_eq, if_neg hreached, hfind]
        rfl
      rw [selectsRight_iff_of_none hbest,
        offered_of_own_ne_nil (own_ne_nil_of_reached hreached)]
      constructor
      · intro hnone
        refine ⟨fun _ _ => hnobody, ?_, fun _ _ => hnone, fun hnil => absurd hnil hreached⟩
        intro p hp
        rw [hfind] at hp
        cases hp
      · intro hlooks
        exact hlooks.nothing hnobody (Or.inl hreached)
    | some p =>
      have hroomy : s.roomy p = true := List.find?_some hfind
      have hmem := List.mem_of_find?_eq_some hfind
      rw [selectsRight_iff_of_found h hfind]
      constructor
      · rintro ⟨hnull, hleast⟩
        refine ⟨fun hzero hnone => absurd ⟨hzero, hnone⟩ hnull, ?_, ?_,
          fun hnil => absurd hnil hreached⟩
        · intro p' hp'
          obtain rfl := Option.some.inj (hfind.symm.trans hp')
          exact hleast
        · intro hnobody
          rw [hnobody p hmem] at hroomy
          cases hroomy
      · intro hlooks
        refine ⟨?_, hlooks.first p hfind⟩
        rintro ⟨hzero, hnone⟩
        rw [hlooks.global hzero hnone p hmem] at hroomy
        cases hroomy

end ProxySdata

/-- **Exactly when a client is sent to the right subproxy.**  In every table that a run of
creations, priority changes, upstream subscriptions and jobs, deaths, reaps and clients can
come to, and for every userid. -/
theorem selectsRight_iff (nonce2length : Nat) (enonce1_64 : UInt64) (events : List TableEvent)
    (userid : Int) :
    SelectsRight (run (tableStep nonce2length) (start enonce1_64) events) userid ↔
      LooksRight (run (tableStep nonce2length) (start enonce1_64) events) userid := by
  have hshape := run_invariant_always (I := Shape) (fun s e hs => hs.step nonce2length e) events
    (shape_start enonce1_64)
  exact hshape.selectsRight_iff_looksRight userid

/-- A global proxy with room for one client, who is there, and a second subproxy of it with
work and room. -/
def fullParent : List TableEvent :=
  [.create 0 0, .subscribed ⟨0, 0, true, 0, [], 3⟩, .setPrio 0 0 0, .check, .notified 0 0,
    .join 1 (-1),
    .create 0 1, .subscribed ⟨0, 1, true, 0, [], 3⟩, .setPrio 0 1 0, .check, .notified 0 1]

/-- A user without proxies of his own gets the full one. -/
theorem fullParent_not_right :
    ¬SelectsRight (run (tableStep 0) (start 0) fullParent) 7 := by
  have hshape := run_invariant_always (I := Shape) (fun s e hs => hs.step 0 e) fullParent
    (shape_start 0)
  rw [hshape.selectsRight_iff_looksRight]
  intro hlooks
  have hreached : (run (tableStep 0) (start 0) fullParent).reached 7 = [] := by decide
  have hfull : ((run (tableStep 0) (start 0) fullParent).proxy.bind
      fun id => (run (tableStep 0) (start 0) fullParent).existing id 0).map
        Subproxy.available = some false := by
    decide
  obtain ⟨parent, hparent, hnot⟩ := Option.map_eq_some_iff.mp hfull
  rw [(hlooks.default hreached parent hparent).1] at hnot
  cases hnot

end CashStratum
