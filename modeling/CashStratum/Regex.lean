/-
CashStratum/Regex.lean

Regular expressions with groups, for a match of a whole text.

`ends` tries an expression at the front of a text and lists what is left behind every match, with
the texts of its groups, in the order of preference of a backtracking search: a greedy repetition
takes more elements first, a lazy one fewer, and of two alternatives the left one comes first.
`findSubmatch` takes the first match that leaves nothing.

`Takes` says without any order that an expression matches a text.  The list holds these matches
and no others (`mem_ends`), so the search succeeds where there is a match
(`findSubmatch_isSome_iff`) and finds the one there is (`findSubmatch_of_unique`).
-/
import Mathlib.Data.List.Infix
import Mathlib.Data.List.TakeWhile

namespace CashStratum

/-- A regular expression. -/
inductive Regex (α : Type*) where
  | word (w : List α)
  /-- As many elements of a class as the bounds allow, or as few if it is lazy. -/
  | rep (lazy : Bool) (least : Nat) (most : Option Nat) (inside : α → Bool)
  | seq (r s : Regex α)
  | alt (r s : Regex α)
  | group (r : Regex α)

namespace Regex

variable {α : Type*}

/-- The number of groups. -/
def groups : Regex α → Nat
  | word _ => 0
  | rep .. => 0
  | seq r s => r.groups + s.groups
  | alt r s => r.groups + s.groups
  | group r => r.groups + 1

/-- The groups of an alternative that is not taken. -/
def unset (r : Regex α) : List (List α) := List.replicate r.groups []

/-- The expressions of a list, one behind the other. -/
def seqs : List (Regex α) → Regex α
  | [] => word []
  | [r] => r
  | r :: rs => seq r (seqs rs)

/-- An expression or nothing, the expression first. -/
def opt (r : Regex α) : Regex α := alt r (word [])

/-- Elements of a class within the bounds of a repetition. -/
def Repeats (least : Nat) (most : Option Nat) (inside : α → Bool) (d : List α) : Prop :=
  least ≤ d.length ∧ (∀ m ∈ most, d.length ≤ m) ∧ ∀ x ∈ d, inside x = true

/-- `Takes r d ws`: the expression `r` matches the text `d`, and its groups hold `ws`. -/
inductive Takes : Regex α → List α → List (List α) → Prop
  | word (w : List α) : Takes (word w) w []
  | rep {lazy least most inside d} : Repeats least most inside d →
      Takes (rep lazy least most inside) d []
  | seq {r s d e ws vs} : Takes r d ws → Takes s e vs → Takes (seq r s) (d ++ e) (ws ++ vs)
  | left {r s d ws} : Takes r d ws → Takes (alt r s) d (ws ++ s.unset)
  | right {r s d ws} : Takes s d ws → Takes (alt r s) d (r.unset ++ ws)
  | group {r d ws} : Takes r d ws → Takes (group r) d (d :: ws)

/-- The longest run of a class at the front of a text within an upper bound. -/
def longest (most : Option Nat) (inside : α → Bool) (l : List α) : Nat :=
  match most with
  | none => (l.takeWhile inside).length
  | some m => min m (l.takeWhile inside).length

/-- The lengths that a repetition tries, in its order. -/
def lengths (lazy : Bool) (least : Nat) (most : Option Nat) (inside : α → Bool) (l : List α) :
    List Nat :=
  let up := (List.range (longest most inside l + 1)).filter (least ≤ ·)
  if lazy then up else up.reverse

variable [DecidableEq α]

/-- The groups and the rest of the text for every match at its front, the preferred one first. -/
def ends : Regex α → List α → List (List (List α) × List α)
  | word w, l => if w <+: l then [([], l.drop w.length)] else []
  | rep lazy least most inside, l =>
    (lengths lazy least most inside l).map fun n => ([], l.drop n)
  | seq r s, l => (ends r l).flatMap fun p => (ends s p.2).map fun q => (p.1 ++ q.1, q.2)
  | alt r s, l =>
    ((ends r l).map fun p => (p.1 ++ s.unset, p.2)) ++
      (ends s l).map fun p => (r.unset ++ p.1, p.2)
  | group r, l => (ends r l).map fun p => (l.take (l.length - p.2.length) :: p.1, p.2)

/-- What the groups of the expression hold where it matches a whole text. -/
def findSubmatch (r : Regex α) (l : List α) : Option (List (List α)) :=
  ((ends r l).find? fun p => p.2 = []).map Prod.fst

/-! ### The list of the matches -/

omit [DecidableEq α] in
theorem le_length_takeWhile_iff {inside : α → Bool} {n : Nat} {l : List α} :
    n ≤ (l.takeWhile inside).length ↔ n ≤ l.length ∧ ∀ x ∈ l.take n, inside x = true := by
  induction l generalizing n with
  | nil => simp
  | cons x l ih =>
    cases n with
    | zero => simp
    | succ n =>
      cases hx : inside x with
      | false => simp [hx]
      | true => simp [hx, ih]

omit [DecidableEq α] in
theorem mem_lengths {lazy : Bool} {least : Nat} {most : Option Nat} {inside : α → Bool}
    {l : List α} {n : Nat} :
    n ∈ lengths lazy least most inside l ↔ n ≤ l.length ∧ Repeats least most inside (l.take n) := by
  have hmem : n ∈ lengths lazy least most inside l ↔
      least ≤ n ∧ n ≤ longest most inside l := by
    rw [and_comm, ← Nat.lt_add_one_iff]
    cases lazy <;> simp [lengths]
  have hlongest : n ≤ longest most inside l ↔
      (∀ m ∈ most, n ≤ m) ∧ n ≤ (l.takeWhile inside).length := by
    cases most with
    | none => simp [longest]
    | some m => exact Nat.le_min.trans (and_congr_left fun _ => by simp)
  rw [hmem, hlongest, le_length_takeWhile_iff, Repeats]
  constructor
  · rintro ⟨hleast, hmost, hn, hall⟩
    rw [List.length_take_of_le hn]
    exact ⟨hn, hleast, hmost, hall⟩
  · rintro ⟨hn, hrep⟩
    rw [List.length_take_of_le hn] at hrep
    exact ⟨hrep.1, hrep.2.1, hn, hrep.2.2⟩

/-- **The list of the matches is right and complete.** -/
theorem mem_ends {r : Regex α} {l rest : List α} {ws : List (List α)} :
    (ws, rest) ∈ ends r l ↔ ∃ d, l = d ++ rest ∧ Takes r d ws := by
  induction r generalizing l rest ws with
  | word w =>
    constructor
    · intro h
      rw [ends] at h
      split_ifs at h with hw
      · obtain ⟨t, rfl⟩ := hw
        rw [List.drop_left, List.mem_singleton] at h
        cases h
        exact ⟨w, rfl, .word w⟩
      · cases h
    · rintro ⟨d, rfl, h⟩
      cases h
      rw [ends, if_pos (List.prefix_append _ _), List.drop_left]
      exact List.mem_singleton_self _
  | rep lazy least most inside =>
    rw [ends, List.mem_map]
    constructor
    · rintro ⟨n, hn, heq⟩
      cases heq
      exact ⟨l.take n, (List.take_append_drop n l).symm, .rep (mem_lengths.mp hn).2⟩
    · rintro ⟨d, rfl, h⟩
      cases h with
      | rep hrep =>
        refine ⟨d.length, mem_lengths.mpr ⟨?_, ?_⟩, ?_⟩
        · rw [List.length_append]
          exact Nat.le_add_right _ _
        · rwa [List.take_left]
        · rw [List.drop_left]
  | seq r s ihr ihs =>
    rw [ends]
    constructor
    · intro h
      obtain ⟨p, hp, h⟩ := List.mem_flatMap.mp h
      obtain ⟨q, hq, heq⟩ := List.mem_map.mp h
      cases heq
      obtain ⟨d, rfl, hd⟩ := ihr.mp hp
      obtain ⟨e, he, hs⟩ := ihs.mp hq
      exact ⟨d ++ e, by rw [he, List.append_assoc], .seq hd hs⟩
    · rintro ⟨d, rfl, h⟩
      cases h with
      | @seq _ _ d e ws vs hr hs =>
        refine List.mem_flatMap.mpr ⟨(ws, e ++ rest), ihr.mpr ⟨d, ?_, hr⟩, ?_⟩
        · exact List.append_assoc _ _ _
        · exact List.mem_map.mpr ⟨(vs, rest), ihs.mpr ⟨e, rfl, hs⟩, rfl⟩
  | alt r s ihr ihs =>
    rw [ends]
    constructor
    · intro h
      obtain h | h := List.mem_append.mp h
      · obtain ⟨p, hp, heq⟩ := List.mem_map.mp h
        cases heq
        obtain ⟨d, rfl, hd⟩ := ihr.mp hp
        exact ⟨d, rfl, .left hd⟩
      · obtain ⟨p, hp, heq⟩ := List.mem_map.mp h
        cases heq
        obtain ⟨d, rfl, hd⟩ := ihs.mp hp
        exact ⟨d, rfl, .right hd⟩
    · rintro ⟨d, rfl, h⟩
      cases h with
      | left h =>
        exact List.mem_append_left _ (List.mem_map.mpr ⟨_, ihr.mpr ⟨d, rfl, h⟩, rfl⟩)
      | right h =>
        exact List.mem_append_right _ (List.mem_map.mpr ⟨_, ihs.mpr ⟨d, rfl, h⟩, rfl⟩)
  | group r ih =>
    rw [ends]
    constructor
    · intro h
      obtain ⟨p, hp, heq⟩ := List.mem_map.mp h
      cases heq
      obtain ⟨d, rfl, hd⟩ := ih.mp hp
      have htake : (d ++ p.2).take ((d ++ p.2).length - p.2.length) = d := by
        rw [List.length_append, Nat.add_sub_cancel, List.take_left]
      exact ⟨d, rfl, by rw [htake]; exact .group hd⟩
    · rintro ⟨d, rfl, h⟩
      cases h with
      | @group _ _ ws h =>
        refine List.mem_map.mpr ⟨(ws, rest), ih.mpr ⟨d, rfl, h⟩, ?_⟩
        rw [List.length_append, Nat.add_sub_cancel, List.take_left]

/-! ### The search -/

variable {r s : Regex α} {l : List α} {ws : List (List α)}

/-- What the search finds is a match. -/
theorem takes_of_findSubmatch (h : findSubmatch r l = some ws) : Takes r l ws := by
  obtain ⟨p, hfind, rfl⟩ := Option.map_eq_some_iff.mp h
  have hpredicate := List.find?_some hfind
  have hrest : p.2 = [] := of_decide_eq_true hpredicate
  obtain ⟨d, hd, htakes⟩ := mem_ends.mp (List.mem_of_find?_eq_some hfind)
  rw [hrest, List.append_nil] at hd
  rwa [hd]

theorem findSubmatch_isSome_iff : (findSubmatch r l).isSome ↔ ∃ ws, Takes r l ws := by
  constructor
  · intro h
    obtain ⟨ws, hws⟩ := Option.isSome_iff_exists.mp h
    exact ⟨ws, takes_of_findSubmatch hws⟩
  · rintro ⟨ws, h⟩
    rw [findSubmatch, Option.isSome_map, List.find?_isSome]
    exact ⟨(ws, []), mem_ends.mpr ⟨l, (List.append_nil l).symm, h⟩, decide_eq_true rfl⟩

/-- A match that is the only one is found. -/
theorem findSubmatch_of_unique (h : Takes r l ws) (hunique : ∀ vs, Takes r l vs → vs = ws) :
    findSubmatch r l = some ws := by
  obtain ⟨vs, hvs⟩ := Option.isSome_iff_exists.mp (findSubmatch_isSome_iff.mpr ⟨ws, h⟩)
  rw [hvs, hunique vs (takes_of_findSubmatch hvs)]

/-! ### Parts of an expression -/

omit [DecidableEq α]

theorem takes_word_iff {w : List α} : Takes (word w) l ws ↔ l = w ∧ ws = [] := by
  constructor
  · intro h
    cases h
    exact ⟨rfl, rfl⟩
  · rintro ⟨rfl, rfl⟩
    exact .word l

theorem takes_rep_iff {lazy : Bool} {least : Nat} {most : Option Nat} {inside : α → Bool} :
    Takes (rep lazy least most inside) l ws ↔ Repeats least most inside l ∧ ws = [] := by
  constructor
  · intro h
    cases h with
    | rep h => exact ⟨h, rfl⟩
  · rintro ⟨h, rfl⟩
    exact .rep h

theorem takes_seq_iff :
    Takes (seq r s) l ws ↔
      ∃ d e us vs, l = d ++ e ∧ ws = us ++ vs ∧ Takes r d us ∧ Takes s e vs := by
  constructor
  · intro h
    cases h with
    | seq hr hs => exact ⟨_, _, _, _, rfl, rfl, hr, hs⟩
  · rintro ⟨d, e, us, vs, rfl, rfl, hr, hs⟩
    exact .seq hr hs

theorem takes_alt_iff :
    Takes (alt r s) l ws ↔
      (∃ vs, ws = vs ++ s.unset ∧ Takes r l vs) ∨ ∃ vs, ws = r.unset ++ vs ∧ Takes s l vs := by
  constructor
  · intro h
    cases h with
    | left h => exact Or.inl ⟨_, rfl, h⟩
    | right h => exact Or.inr ⟨_, rfl, h⟩
  · rintro (⟨vs, rfl, h⟩ | ⟨vs, rfl, h⟩)
    · exact .left h
    · exact .right h

theorem takes_group_iff : Takes (group r) l ws ↔ ∃ vs, ws = l :: vs ∧ Takes r l vs := by
  constructor
  · intro h
    cases h with
    | group h => exact ⟨_, rfl, h⟩
  · rintro ⟨vs, rfl, h⟩
    exact .group h

/-- A text that an expression matches begins with the word that the expression begins with. -/
theorem Takes.prefix_of_word {w : List α} {rs : List (Regex α)}
    (h : Takes (seqs (.word w :: rs)) l ws) : w <+: l := by
  cases rs with
  | nil =>
    obtain ⟨rfl, -⟩ := takes_word_iff.mp h
    exact List.prefix_rfl
  | cons r rs =>
    obtain ⟨d, e, us, vs, rfl, -, hw, -⟩ := takes_seq_iff.mp h
    obtain ⟨rfl, -⟩ := takes_word_iff.mp hw
    exact List.prefix_append d e

end Regex

end CashStratum
