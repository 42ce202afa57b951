/-
CashStratum/ProbeTable.lean

Open addressing without removal.

A table has slots, each of which is free or has an entry with a key.  A key has a list of slots
where its entry may be, in the order in which they are tried (`probes`).  A search stops at the
entry or at the first free slot; when it may create an entry it takes the free slot, and when
there is none it takes over the first slot on its way whose entry is stale.

As long as entries are only made in this way (`Chained.claim`) and keep their key
(`Chained.write`), a key has at most one entry, and a search finds it (`Chained.probe`): the slots
in front of an entry are never free again, even where an entry in the middle was taken over.
-/
import Mathlib.Data.List.Basic
import Mathlib.Logic.Function.Basic

namespace CashStratum

open Function

/-- What a search comes to: no slot, the slot of the entry, or one for a new entry. -/
inductive ProbeResult (ι : Type*)
  | absent
  | found (i : ι)
  | claim (i : ι)
deriving DecidableEq

section

variable {ι ε κ : Type*} (key : ε → κ) (probes : κ → List ι)

/-- Every key has one entry at most, and no slot in front of it is free. -/
structure Chained (t : ι → Option ε) : Prop where
  unique : ∀ i j e e', t i = some e → t j = some e' → key e = key e' → i = j
  chain : ∀ i e, t i = some e →
    ∃ before after, probes (key e) = before ++ i :: after ∧ ∀ j ∈ before, (t j).isSome

variable {key probes} {t : ι → Option ε}

theorem chained_empty : Chained key probes (fun _ : ι => none) where
  unique i j e e' h := by cases h
  chain i e h := by cases h

/-- An entry that keeps its key. -/
theorem Chained.write [DecidableEq ι] (h : Chained key probes t) {i : ι} {e e' : ε}
    (hi : t i = some e)
    (hk : key e' = key e) : Chained key probes (update t i (some e')) := by
  -- a slot has an entry of a key after the write if it had one before
  have hback : ∀ j e₁, update t i (some e') j = some e₁ →
      ∃ e₀, t j = some e₀ ∧ key e₀ = key e₁ := by
    intro j e₁ hj
    by_cases hji : j = i
    · rw [hji, update_self] at hj
      rw [← Option.some.inj hj, hji]
      exact ⟨e, hi, hk.symm⟩
    · rw [update_of_ne hji] at hj
      exact ⟨e₁, hj, rfl⟩
  refine ⟨?_, ?_⟩
  · intro j j' e₁ e₂ hj hj' hkey
    obtain ⟨e₁', hj₀, hk₁⟩ := hback j e₁ hj
    obtain ⟨e₂', hj₀', hk₂⟩ := hback j' e₂ hj'
    exact h.unique j j' e₁' e₂' hj₀ hj₀' (by rw [hk₁, hkey, hk₂])
  · intro j e₁ hj
    obtain ⟨e₀, hj₀, hk₀⟩ := hback j e₁ hj
    obtain ⟨before, after, hprobes, hbefore⟩ := h.chain j e₀ hj₀
    rw [hk₀] at hprobes
    refine ⟨before, after, hprobes, ?_⟩
    intro j' hj'
    by_cases hji : j' = i
    · rw [hji, update_self]
      rfl
    · rw [update_of_ne hji]
      exact hbefore j' hj'

/-! ### The search -/

variable [DecidableEq κ]

variable (key) in
/-- A search along some slots; `spare` is the stale slot that it has passed. -/
def probe (t : ι → Option ε) (k : κ) (create : Bool) (stale : ε → Bool) :
    List ι → Option ι → ProbeResult ι
  | [], none => .absent
  | [], some i => .claim i
  | i :: is, spare =>
    match t i with
    | some e =>
      if key e = k then .found i
      else probe t k create stale is
        (if create && spare.isNone && stale e then some i else spare)
    | none => if create then .claim i else .absent

variable {k : κ} {create : Bool} {stale : ε → Bool}

/-- Past slots that are not free a search reaches the entry. -/
theorem probe_found {before after : List ι} {i : ι} {e : ε} (hi : t i = some e) (hk : key e = k)
    (hbefore : ∀ j ∈ before, ∃ e', t j = some e' ∧ (key e' = k → j = i)) (spare : Option ι) :
    probe key t k create stale (before ++ i :: after) spare = .found i := by
  induction before generalizing spare with
  | nil =>
    rw [List.nil_append, probe, hi]
    exact if_pos hk
  | cons j before ih =>
    obtain ⟨e', hj, hkey⟩ := hbefore j List.mem_cons_self
    rw [List.cons_append, probe, hj]
    dsimp only
    by_cases hk' : key e' = k
    · rw [if_pos hk', hkey hk']
    · rw [if_neg hk']
      exact ih (fun j' hj' => hbefore j' (List.mem_cons_of_mem j hj')) _

/-- **An entry is found.** -/
theorem Chained.probe (h : Chained key probes t) {i : ι} {e : ε} (hi : t i = some e)
    (hk : key e = k) (create : Bool) (stale : ε → Bool) :
    CashStratum.probe key t k create stale (probes k) none = .found i := by
  obtain ⟨before, after, hprobes, hbefore⟩ := h.chain i e hi
  rw [← hk, hprobes]
  refine probe_found hi rfl ?_ none
  intro j hj
  obtain ⟨e', he'⟩ := Option.isSome_iff_exists.mp (hbefore j hj)
  exact ⟨e', he', fun hkey => h.unique j i e' e he' hi hkey⟩

theorem probe_eq_found {is : List ι} {spare : Option ι} {i : ι}
    (h : probe key t k create stale is spare = .found i) : ∃ e, t i = some e ∧ key e = k := by
  induction is generalizing spare with
  | nil =>
    cases spare with
    | none => cases h
    | some j => cases h
  | cons j is ih =>
    rw [probe] at h
    cases hj : t j with
    | none =>
      rw [hj] at h
      dsimp only at h
      split at h
      · cases h
      · cases h
    | some e =>
      rw [hj] at h
      dsimp only at h
      by_cases hk : key e = k
      · rw [if_pos hk] at h
        obtain rfl := ProbeResult.found.inj h
        exact ⟨e, hj, hk⟩
      · rw [if_neg hk] at h
        exact ih h

/-- A slot for a new entry is free, or has a stale entry; no slot in front of it is free. -/
theorem probe_eq_claim {passed is : List ι} {spare : Option ι} {i : ι}
    (hpassed : ∀ j ∈ passed, (t j).isSome)
    (hspare : ∀ j ∈ spare, j ∈ passed ∧ ∃ e, t j = some e ∧ stale e)
    (h : probe key t k create stale is spare = .claim i) :
    (t i = none ∨ ∃ e, t i = some e ∧ stale e) ∧
      ∃ before after, passed ++ is = before ++ i :: after ∧ ∀ j ∈ before, (t j).isSome := by
  induction is generalizing passed spare with
  | nil =>
    cases spare with
    | none => cases h
    | some j =>
      obtain rfl := ProbeResult.claim.inj h
      obtain ⟨hmem, hstale⟩ := hspare j rfl
      obtain ⟨before, after, hsplit⟩ := List.append_of_mem hmem
      refine ⟨Or.inr hstale, before, after, by rw [List.append_nil, hsplit], ?_⟩
      intro j' hj'
      refine hpassed j' ?_
      rw [hsplit]
      exact List.mem_append_left _ hj'
  | cons j is ih =>
    rw [probe] at h
    cases hj : t j with
    | none =>
      rw [hj] at h
      dsimp only at h
      split at h
      · obtain rfl := ProbeResult.claim.inj h
        exact ⟨Or.inl hj, passed, is, rfl, hpassed⟩
      · cases h
    | some e =>
      rw [hj] at h
      dsimp only at h
      by_cases hk : key e = k
      · rw [if_pos hk] at h
        cases h
      rw [if_neg hk] at h
      have hrest : passed ++ j :: is = (passed ++ [j]) ++ is := by
        rw [List.append_assoc, List.singleton_append]
      rw [hrest]
      refine ih ?_ ?_ h
      · intro j' hj'
        rcases List.mem_append.mp hj' with hj' | hj'
        · exact hpassed j' hj'
        · rw [List.mem_singleton.mp hj', hj]
          rfl
      · intro j' hj'
        split at hj'
        · next hstale =>
            obtain rfl := Option.some.inj hj'
            exact ⟨List.mem_append_right _ (List.mem_singleton.mpr rfl), e, hj,
              (Bool.and_eq_true_iff.mp hstale).2⟩
        · obtain ⟨hmem, hstale⟩ := hspare j' hj'
          exact ⟨List.mem_append_left _ hmem, hstale⟩

theorem claim_slot {is : List ι} {i : ι} (h : probe key t k create stale is none = .claim i) :
    (t i = none ∨ ∃ e, t i = some e ∧ stale e) ∧
      ∃ before after, is = before ++ i :: after ∧ ∀ j ∈ before, (t j).isSome := by
  have hpassed : ∀ j ∈ ([] : List ι), (t j).isSome := by
    intro j hj
    cases hj
  have hspare : ∀ j ∈ (none : Option ι), j ∈ ([] : List ι) ∧ ∃ e, t j = some e ∧ stale e := by
    intro j hj
    cases hj
  exact probe_eq_claim hpassed hspare h

/-- An entry that is written where a search claimed a slot. -/
theorem Chained.claim [DecidableEq ι] (h : Chained key probes t) {i : ι}
    (hprobe : CashStratum.probe key t k create stale (probes k) none = .claim i) {e : ε}
    (hk : key e = k) : Chained key probes (update t i (some e)) := by
  -- there is no entry of the key yet, or it would have been found
  have hnone : ∀ j e', t j = some e' → key e' ≠ k := by
    intro j e' hj hk'
    rw [h.probe hj hk'] at hprobe
    cases hprobe
  obtain ⟨-, before, after, hprobes, hbefore⟩ := claim_slot hprobe
  have hsome : ∀ j, (t j).isSome → (update t i (some e) j).isSome := by
    intro j hj
    by_cases hji : j = i
    · rw [hji, update_self]
      rfl
    · rwa [update_of_ne hji]
  refine ⟨?_, ?_⟩
  · intro j j' e₁ e₂ hj hj' hkey
    by_cases hji : j = i
    · by_cases hji' : j' = i
      · rw [hji, hji']
      · rw [hji, update_self] at hj
        rw [update_of_ne hji'] at hj'
        rw [← Option.some.inj hj, hk] at hkey
        exact absurd hkey.symm (hnone j' e₂ hj')
    · by_cases hji' : j' = i
      · rw [hji', update_self] at hj'
        rw [update_of_ne hji] at hj
        rw [← Option.some.inj hj', hk] at hkey
        exact absurd hkey (hnone j e₁ hj)
      · rw [update_of_ne hji] at hj
        rw [update_of_ne hji'] at hj'
        exact h.unique j j' e₁ e₂ hj hj' hkey
  · intro j e₁ hj
    by_cases hji : j = i
    · rw [hji, update_self] at hj
      rw [← Option.some.inj hj, hk, hji]
      exact ⟨before, after, hprobes, fun j' hj' => hsome j' (hbefore j' hj')⟩
    · rw [update_of_ne hji] at hj
      obtain ⟨before', after', hprobes', hbefore'⟩ := h.chain j e₁ hj
      exact ⟨before', after', hprobes', fun j' hj' => hsome j' (hbefore' j' hj')⟩

end

end CashStratum
