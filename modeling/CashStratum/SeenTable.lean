/-
CashStratum/SeenTable.lean

Tables that refuse a key they know, with forgetting.  An entry is a key filed
under a tag.  Presenting a key files it and accepts it, unless the table knows
it; forgetting drops the entries whose tag satisfies a test.

A key presented after its entry was dropped is accepted a second time.
`accepted_nodup_iff` says exactly which sequences of operations accept no key
twice: those in which the tag under which a key was *first* presented is never
forgotten between that presentation and a later one of the same key (`Retained`).
-/
import Mathlib.Data.List.Nodup
import Mathlib.Data.List.Induction
import Mathlib.Tactic

namespace CashStratum

/-- An operation on a table of keys `κ` filed under tags `τ`. -/
inductive SeenOp (κ τ : Type)
  | present (key : κ) (tag : τ)
  | forget (test : τ → Bool)

/-- The entries, in the order in which they were filed. -/
abbrev SeenTable (κ τ : Type) := List (κ × τ)

variable {κ τ : Type} [DecidableEq κ]

namespace SeenOp

/-- An operation that drops the entries filed under `tag`. -/
def Forgets : SeenOp κ τ → τ → Prop
  | present _ _, _ => False
  | forget test, tag => test tag = true

/-- The table after an operation. -/
def after (table : SeenTable κ τ) : SeenOp κ τ → SeenTable κ τ
  | present key tag => if key ∈ table.map Prod.fst then table else table ++ [(key, tag)]
  | forget test => table.filter fun entry => !test entry.2

/-- The keys an operation accepts: one or none. -/
def accepts (table : SeenTable κ τ) : SeenOp κ τ → List κ
  | present key _ => if key ∈ table.map Prod.fst then [] else [key]
  | forget _ => []

end SeenOp

/-- The table after a sequence of operations on an empty table. -/
def seenTable (ops : List (SeenOp κ τ)) : SeenTable κ τ := ops.foldl SeenOp.after []

/-- The keys a sequence of operations accepts, from the given table. -/
def acceptedFrom : SeenTable κ τ → List (SeenOp κ τ) → List κ
  | _, [] => []
  | table, op :: ops => op.accepts table ++ acceptedFrom (op.after table) ops

/-- The keys a sequence of operations on an empty table accepts, in order. -/
def accepted (ops : List (SeenOp κ τ)) : List κ := acceptedFrom [] ops

/-- `key` is presented in `ops`. -/
def Presented (key : κ) (ops : List (SeenOp κ τ)) : Prop := ∃ tag, .present key tag ∈ ops

/-- Between the first presentation of a key and any later one, nothing forgets
the tag of the first. -/
def Retained (ops : List (SeenOp κ τ)) : Prop :=
  ∀ pre key tag mid tag' post, ops = pre ++ .present key tag :: (mid ++ .present key tag' :: post) →
    ¬ Presented key pre → ∀ op ∈ mid, ¬ op.Forgets tag

/-! ### One more operation -/

theorem seenTable_concat (ops : List (SeenOp κ τ)) (op : SeenOp κ τ) :
    seenTable (ops ++ [op]) = op.after (seenTable ops) := by
  rw [seenTable, List.foldl_append]
  rfl

theorem acceptedFrom_append (table : SeenTable κ τ) (ops ops' : List (SeenOp κ τ)) :
    acceptedFrom table (ops ++ ops') =
      acceptedFrom table ops ++ acceptedFrom (ops.foldl SeenOp.after table) ops' := by
  induction ops generalizing table with
  | nil => rfl
  | cons op ops ih =>
    show op.accepts table ++ acceptedFrom (op.after table) (ops ++ ops') = _
    rw [ih, ← List.append_assoc]
    rfl

theorem accepted_concat (ops : List (SeenOp κ τ)) (op : SeenOp κ τ) :
    accepted (ops ++ [op]) = accepted ops ++ op.accepts (seenTable ops) := by
  rw [accepted, acceptedFrom_append]
  show _ ++ (op.accepts (seenTable ops) ++ []) = _
  rw [List.append_nil]
  rfl

/-- An operation leaves the keys of a table, or adds the key it accepts. -/
theorem mem_keys_after {table : SeenTable κ τ} {op : SeenOp κ τ} {key : κ}
    (h : key ∈ (op.after table).map Prod.fst) :
    key ∈ table.map Prod.fst ∨ key ∈ op.accepts table := by
  cases op with
  | present k tag =>
    by_cases hk : k ∈ table.map Prod.fst
    · rw [SeenOp.after, if_pos hk] at h
      exact Or.inl h
    · rw [SeenOp.after, if_neg hk, List.map_append, List.mem_append] at h
      rw [SeenOp.accepts, if_neg hk]
      exact h.imp id id
  | forget test =>
    obtain ⟨entry, hentry, rfl⟩ := List.mem_map.mp h
    exact Or.inl (List.mem_map_of_mem (List.mem_of_mem_filter hentry))

/-- Every key of the table was accepted. -/
theorem mem_accepted_of_mem_keys {ops : List (SeenOp κ τ)} {key : κ}
    (h : key ∈ (seenTable ops).map Prod.fst) : key ∈ accepted ops := by
  induction ops using List.reverseRecOn with
  | nil => cases h
  | append_singleton ops op ih =>
    rw [seenTable_concat] at h
    rw [accepted_concat, List.mem_append]
    exact (mem_keys_after h).imp ih id

/-- The keys accepted are the keys presented. -/
theorem mem_accepted_iff {ops : List (SeenOp κ τ)} {key : κ} :
    key ∈ accepted ops ↔ Presented key ops := by
  induction ops using List.reverseRecOn with
  | nil =>
    constructor
    · intro h
      cases h
    · rintro ⟨tag, h⟩
      cases h
  | append_singleton ops op ih =>
    rw [accepted_concat, List.mem_append, ih]
    constructor
    · rintro (⟨tag, h⟩ | h)
      · exact ⟨tag, List.mem_append_left _ h⟩
      · cases op with
        | present k tag =>
          rw [SeenOp.accepts] at h
          split at h
          · cases h
          · obtain rfl := List.mem_singleton.mp h
            exact ⟨tag, List.mem_append_right _ (List.mem_singleton_self _)⟩
        | forget test => cases h
    · rintro ⟨tag, h⟩
      rcases List.mem_append.mp h with h | h
      · exact Or.inl ⟨tag, h⟩
      · obtain rfl := (List.mem_singleton.mp h).symm
        by_cases hk : key ∈ (seenTable ops).map Prod.fst
        · exact Or.inl (ih.mp (mem_accepted_of_mem_keys hk))
        · right
          rw [SeenOp.accepts, if_neg hk]
          exact List.mem_singleton_self key

/-! ### The entry of a key -/

/-- While no key is accepted twice, the only entry of a key is that of its first
presentation, and it is there exactly as long as nothing forgot its tag. -/
theorem mem_seenTable_iff {pre : List (SeenOp κ τ)} {key : κ} {tag : τ}
    (hfirst : ¬ Presented key pre) (mid : List (SeenOp κ τ))
    (hnodup : (accepted (pre ++ .present key tag :: mid)).Nodup) (tag' : τ) :
    (key, tag') ∈ seenTable (pre ++ .present key tag :: mid) ↔
      tag' = tag ∧ ∀ op ∈ mid, ¬ op.Forgets tag := by
  induction mid using List.reverseRecOn with
  | nil =>
    have hnew : key ∉ (seenTable pre).map Prod.fst := fun h =>
      hfirst (mem_accepted_iff.mp (mem_accepted_of_mem_keys h))
    rw [seenTable_concat, SeenOp.after, if_neg hnew, List.mem_append, List.mem_singleton,
      Prod.mk.injEq]
    constructor
    · rintro (h | ⟨-, rfl⟩)
      · exact absurd (List.mem_map_of_mem h) hnew
      · exact ⟨rfl, by simp⟩
    · rintro ⟨rfl, -⟩
      exact Or.inr ⟨rfl, rfl⟩
  | append_singleton mid op ih =>
    have hsplit : pre ++ .present key tag :: (mid ++ [op]) =
        (pre ++ .present key tag :: mid) ++ [op] := by
      rw [List.append_assoc, List.cons_append]
    rw [hsplit, accepted_concat] at hnodup
    obtain ⟨hnodup', -, hdisjoint⟩ := List.nodup_append.mp hnodup
    have hprev := ih hnodup'
    have hsnoc : (∀ o ∈ mid ++ [op], ¬ o.Forgets tag) ↔
        (∀ o ∈ mid, ¬ o.Forgets tag) ∧ ¬ op.Forgets tag := by
      rw [List.forall_mem_append, List.forall_mem_singleton]
    rw [hsplit, seenTable_concat, hsnoc]
    cases op with
    | present k t =>
      have hkeeps : ¬ (SeenOp.present k t : SeenOp κ τ).Forgets tag := id
      by_cases hk : k ∈ (seenTable (pre ++ .present key tag :: mid)).map Prod.fst
      · rw [SeenOp.after, if_pos hk, hprev]
        tauto
      · -- `key` was accepted at its first presentation, so `k` is another key
        have hacc : key ∈ accepted (pre ++ .present key tag :: mid) :=
          mem_accepted_iff.mpr ⟨tag, by simp⟩
        have hne : key ≠ k := by
          refine hdisjoint key hacc k ?_
          rw [SeenOp.accepts, if_neg hk]
          exact List.mem_singleton_self k
        rw [SeenOp.after, if_neg hk, List.mem_append, hprev, List.mem_singleton, Prod.mk.injEq]
        tauto
    | forget test =>
      rw [SeenOp.after, List.mem_filter, hprev]
      show (tag' = tag ∧ _) ∧ (!test tag') = true ↔ _ ∧ _ ∧ ¬ test tag = true
      constructor
      · rintro ⟨⟨rfl, hmid⟩, htest⟩
        exact ⟨rfl, hmid, by simpa using htest⟩
      · rintro ⟨rfl, hmid, htest⟩
        exact ⟨⟨rfl, hmid⟩, by simpa using htest⟩

/-! ### Accepted at most once -/

omit [DecidableEq κ] in
/-- `Retained`, one operation at a time. -/
theorem retained_concat {ops : List (SeenOp κ τ)} {op : SeenOp κ τ} :
    Retained (ops ++ [op]) ↔ Retained ops ∧
      ∀ pre key tag mid tag', op = .present key tag' → ops = pre ++ .present key tag :: mid →
        ¬ Presented key pre → ∀ o ∈ mid, ¬ o.Forgets tag := by
  constructor
  · refine fun h => ⟨fun pre key tag mid tag' post hops => h pre key tag mid tag' (post ++ [op]) ?_,
      fun pre key tag mid tag' hop hops => h pre key tag mid tag' [] ?_⟩
    · rw [hops]
      simp
    · rw [hops, hop]
      simp
  · rintro ⟨hops, hlast⟩ pre key tag mid tag' post heq
    rcases List.eq_nil_or_concat post with rfl | ⟨post, o, rfl⟩
    · have hsplit : ops ++ [op] = (pre ++ .present key tag :: mid) ++ [.present key tag'] := by
        rw [heq]
        simp
      obtain ⟨h1, h2⟩ := List.append_inj' hsplit rfl
      exact hlast pre key tag mid tag' (List.singleton_injective h2) h1
    · have hsplit : ops ++ [op] =
          (pre ++ .present key tag :: (mid ++ .present key tag' :: post)) ++ [o] := by
        rw [heq]
        simp
      exact hops pre key tag mid tag' post (List.append_inj' hsplit rfl).1

omit [DecidableEq κ] in
/-- The first presentation of a key that is presented. -/
theorem Presented.first {key : κ} {ops : List (SeenOp κ τ)} (h : Presented key ops) :
    ∃ pre tag mid, ops = pre ++ .present key tag :: mid ∧ ¬ Presented key pre := by
  induction ops using List.reverseRecOn with
  | nil => exact absurd h.choose_spec (by simp)
  | append_singleton ops op ih =>
    by_cases hops : Presented key ops
    · obtain ⟨pre, tag, mid, rfl, hpre⟩ := ih hops
      exact ⟨pre, tag, mid ++ [op], by simp, hpre⟩
    · obtain ⟨tag, htag⟩ := h
      rcases List.mem_append.mp htag with htag | htag
      · exact absurd ⟨tag, htag⟩ hops
      · exact ⟨ops, tag, [], by rw [List.mem_singleton.mp htag], hops⟩

/-- **No key is accepted twice**, exactly when no key is presented again after the
tag it was first presented under has been forgotten. -/
theorem accepted_nodup_iff (ops : List (SeenOp κ τ)) : (accepted ops).Nodup ↔ Retained ops := by
  induction ops using List.reverseRecOn with
  | nil =>
    refine ⟨fun _ pre key tag mid tag' post h => ?_, fun _ => List.nodup_nil⟩
    simp at h
  | append_singleton ops op ih =>
    rw [accepted_concat, retained_concat, ← ih, List.nodup_append]
    refine and_congr_right fun hnodup => ?_
    cases op with
    | forget test =>
      constructor
      · intro _ pre key tag mid tag' hop
        cases hop
      · intro _
        refine ⟨List.nodup_nil, fun a _ b hb => ?_⟩
        cases hb
    | present k t =>
      by_cases hk : k ∈ (seenTable ops).map Prod.fst
      · -- `k` is in the table: its first tag was not forgotten
        rw [SeenOp.accepts, if_pos hk]
        refine ⟨fun _ pre key tag mid tag' hop hops hpre => ?_,
          fun _ => ⟨List.nodup_nil, fun a _ b hb => absurd hb List.not_mem_nil⟩⟩
        obtain ⟨rfl, rfl⟩ := SeenOp.present.inj hop
        subst hops
        obtain ⟨⟨key, tag''⟩, hentry, rfl⟩ := List.mem_map.mp hk
        exact ((mem_seenTable_iff hpre mid hnodup tag'').mp hentry).2
      · -- `k` is not in the table: it was never presented, or its first tag was forgotten
        rw [SeenOp.accepts, if_neg hk]
        constructor
        · rintro ⟨-, hnew⟩ pre key tag mid tag' hop hops
          obtain ⟨rfl, rfl⟩ := SeenOp.present.inj hop
          refine absurd rfl (hnew k (mem_accepted_iff.mpr ⟨tag, ?_⟩) k
            (List.mem_singleton_self k))
          rw [hops]
          simp
        · intro hlast
          refine ⟨List.nodup_singleton k, fun a ha b hb => ?_⟩
          obtain rfl := List.mem_singleton.mp hb
          rintro rfl
          obtain ⟨pre, tag, mid, rfl, hpre⟩ := (mem_accepted_iff.mp ha).first
          have hmid := hlast pre a tag mid t rfl rfl hpre
          have hentry := (mem_seenTable_iff hpre mid hnodup tag).mpr ⟨rfl, hmid⟩
          exact hk (List.mem_map_of_mem hentry)

end CashStratum
