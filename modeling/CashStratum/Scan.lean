/-
CashStratum/Scan.lean

Regular expressions of a simple kind, and the search for one in a text.

A pattern is a sequence of words and of runs, a run being one or more elements of a class; an
expression is a list of patterns, its alternatives.  `Matches` says that a text begins with a
pattern, and allows a run to end early.  `scan` makes every run as long as it can be and never
goes back on that, so it is right only for a pattern in which what follows a run is not in its
class (`Fenced`, `scan_isSome_iff`).  `search` tries the expression at each element of the
text in turn: it finds the first match (`FirstAt`) and nothing if there is none
(`search_isSome_iff`).  What is in front of a text does not matter if no match begins in it
(`search_append`).
-/
import Mathlib.Data.List.Infix
import Mathlib.Data.List.TakeWhile

namespace CashStratum

/-- A part of a pattern. -/
inductive PatternPart (α : Type*) where
  | lit (word : List α)
  | run (inside : α → Bool)

/-- A pattern. -/
abbrev Pattern (α : Type*) := List (PatternPart α)

section Scan

variable {α : Type*}

/-- `Matches p l ws`: the text `l` begins with `p`, and the runs of `p` hold `ws`. -/
inductive Matches : Pattern α → List α → List (List α) → Prop
  | nil (l : List α) : Matches [] l []
  | lit {p l ws} (word : List α) : Matches p l ws → Matches (.lit word :: p) (word ++ l) ws
  | run {p l ws inside d} :
      d ≠ [] → (∀ x ∈ d, inside x = true) → Matches p l ws →
        Matches (.run inside :: p) (d ++ l) (d :: ws)

/-- Every run but the last part of a pattern is followed by a word that begins outside of
its class. -/
def Fenced : Pattern α → Prop
  | [] => True
  | .lit _ :: p => Fenced p
  | [.run _] => True
  | .run inside :: .lit (c :: _) :: p => inside c = false ∧ Fenced p
  | .run _ :: _ => False

variable [DecidableEq α]

/-- What the runs of a pattern hold where a text begins with it. -/
@[grind =] def scan : Pattern α → List α → Option (List (List α))
  | [], _ => some []
  | .lit word :: p, l => if word <+: l then scan p (l.drop word.length) else none
  | .run inside :: p, l =>
    if l.takeWhile inside = [] then none
    else (scan p (l.dropWhile inside)).map fun ws => l.takeWhile inside :: ws

theorem scan_lit_append (word : List α) (p : Pattern α) (l : List α) :
    scan (.lit word :: p) (word ++ l) = scan p l := by
  rw [scan, if_pos (List.prefix_append word l), List.drop_left]

theorem scan_sound {p : Pattern α} {l : List α} {ws : List (List α)} (h : scan p l = some ws) :
    Matches p l ws := by
  induction p generalizing l ws with
  | nil =>
    cases h
    exact .nil l
  | cons part p ih =>
    cases part with
    | lit word =>
      rw [scan] at h
      split_ifs at h with hword
      obtain ⟨rest, rfl⟩ := hword
      rw [List.drop_left] at h
      exact .lit word (ih h)
    | run inside =>
      rw [scan] at h
      split_ifs at h with hrun
      obtain ⟨rest, hrest, rfl⟩ := Option.map_eq_some_iff.mp h
      have hm : Matches (.run inside :: p) (l.takeWhile inside ++ l.dropWhile inside)
          (l.takeWhile inside :: rest) :=
        .run hrun (fun x hx => List.mem_takeWhile_imp hx) (ih hrest)
      rwa [List.takeWhile_append_dropWhile] at hm

omit [DecidableEq α] in
/-- A run ends where its class does, if what comes next is not in the class. -/
theorem takeWhile_run {inside : α → Bool} {d l : List α} (h : ∀ x ∈ d, inside x = true)
    (hnext : ∀ x ∈ l.head?, inside x = false) :
    (d ++ l).takeWhile inside = d ∧ (d ++ l).dropWhile inside = l := by
  have hl : l.takeWhile inside = [] ∧ l.dropWhile inside = l := by
    cases l with
    | nil => exact ⟨rfl, rfl⟩
    | cons x l =>
      have hx : inside x = false := hnext x rfl
      exact ⟨by simp [hx], by simp [hx]⟩
  rw [List.takeWhile_append_of_pos h, List.dropWhile_append_of_pos h, hl.1, hl.2]
  exact ⟨List.append_nil d, rfl⟩

omit [DecidableEq α] in
/-- The first run of a pattern, with a word in front of it and a fence behind it. -/
theorem Matches.head_run {word w : List α} {inside : α → Bool} {c : α} {p : Pattern α}
    {l : List α} {ws : List (List α)} (hc : inside c = false)
    (h : Matches (.lit word :: .run inside :: .lit (c :: w) :: p) l ws) :
    word <+: l ∧ (l.drop word.length).takeWhile inside ≠ [] ∧
      ws.head? = some ((l.drop word.length).takeWhile inside) := by
  cases h with
  | lit _ h =>
    cases h with
    | @run _ _ _ _ d hne hd h =>
      cases h with
      | @lit _ l _ _ h =>
        have htake : (d ++ (c :: w ++ l)).takeWhile inside = d := by
          refine (takeWhile_run hd ?_).1
          intro x hx
          cases hx
          exact hc
        rw [List.drop_left, htake]
        exact ⟨List.prefix_append _ _, hne, rfl⟩

theorem scan_complete {p : Pattern α} (hp : Fenced p) {l : List α} {ws : List (List α)}
    (h : Matches p l ws) : (scan p l).isSome := by
  induction h with
  | nil l => rfl
  | lit word _ ih =>
    rw [scan_lit_append]
    exact ih hp
  | @run p l ws inside d hne hd h ih =>
    match p, hp, h, ih with
    | [], _, _, _ =>
      have hrun : (d ++ l).takeWhile inside ≠ [] := by
        rw [List.takeWhile_append_of_pos hd]
        exact List.append_ne_nil_of_left_ne_nil hne _
      rw [scan, if_neg hrun]
      rfl
    | .lit (c :: w) :: p, hp, .lit (l := l) _ h, ih =>
      have hnext : ∀ x ∈ (c :: w ++ l).head?, inside x = false := by
        intro x hx
        cases hx
        exact hp.1
      obtain ⟨htake, hdrop⟩ := takeWhile_run hd hnext
      rw [scan, htake, hdrop, if_neg hne, Option.isSome_map]
      exact ih hp.2

/-- Giving back a part of a run never helps. -/
theorem scan_isSome_iff {p : Pattern α} (hp : Fenced p) (l : List α) :
    (scan p l).isSome ↔ ∃ ws, Matches p l ws := by
  constructor
  · intro h
    obtain ⟨ws, hws⟩ := Option.isSome_iff_exists.mp h
    exact ⟨ws, scan_sound hws⟩
  · rintro ⟨ws, h⟩
    exact scan_complete hp h

/-! ### Alternatives -/

/-- A text begins with one of the alternatives. -/
def MatchesAny (alts : List (Pattern α)) (l : List α) (ws : List (List α)) : Prop :=
  ∃ p ∈ alts, Matches p l ws

/-- The alternatives in their order. -/
def scanAny (alts : List (Pattern α)) (l : List α) : Option (List (List α)) :=
  alts.findSome? fun p => scan p l

theorem scanAny_sound {alts : List (Pattern α)} {l : List α} {ws : List (List α)}
    (h : scanAny alts l = some ws) : MatchesAny alts l ws := by
  obtain ⟨p, hp, hws⟩ := List.exists_of_findSome?_eq_some h
  exact ⟨p, hp, scan_sound hws⟩

theorem scanAny_eq_none_iff {alts : List (Pattern α)} (halts : ∀ p ∈ alts, Fenced p)
    (l : List α) : scanAny alts l = none ↔ ∀ ws, ¬ MatchesAny alts l ws := by
  rw [scanAny, List.findSome?_eq_none_iff]
  constructor
  · rintro h ws ⟨p, hp, hm⟩
    have hsome := scan_complete (halts p hp) hm
    rw [h p hp] at hsome
    cases hsome
  · intro h p hp
    rw [← Option.not_isSome_iff_eq_none, scan_isSome_iff (halts p hp)]
    rintro ⟨ws, hm⟩
    exact h ws ⟨p, hp, hm⟩

/-! ### Search -/

/-- What the runs hold at the first match in a text. -/
def search (alts : List (Pattern α)) : List α → Option (List (List α))
  | [] => scanAny alts []
  | x :: l =>
    match scanAny alts (x :: l) with
    | some ws => some ws
    | none => search alts l

/-- A match is in the text. -/
def Occurs (alts : List (Pattern α)) (l : List α) : Prop :=
  ∃ rest ws, rest <:+ l ∧ MatchesAny alts rest ws

/-- The first match in a text begins with `rest`. -/
structure FirstAt (alts : List (Pattern α)) (l rest : List α) : Prop where
  isSuffix : rest <:+ l
  found : ∃ ws, MatchesAny alts rest ws
  first : ∀ longer ws, longer <:+ l → rest.length < longer.length → ¬ MatchesAny alts longer ws

omit [DecidableEq α] in
theorem FirstAt.unique {alts : List (Pattern α)} {l rest other : List α}
    (h : FirstAt alts l rest) (h' : FirstAt alts l other) : rest = other := by
  obtain ⟨ws, hws⟩ := h.found
  obtain ⟨ws', hws'⟩ := h'.found
  have hle : ¬ rest.length < other.length := fun hlt => h.first other ws' h'.isSuffix hlt hws'
  have hge : ¬ other.length < rest.length := fun hlt => h'.first rest ws h.isSuffix hlt hws
  apply (List.suffix_of_suffix_length_le h.isSuffix h'.isSuffix (by omega)).eq_of_length
  omega

theorem search_eq_some {alts : List (Pattern α)} (halts : ∀ p ∈ alts, Fenced p) {l : List α}
    {ws : List (List α)} (h : search alts l = some ws) :
    ∃ rest, FirstAt alts l rest ∧ MatchesAny alts rest ws := by
  induction l with
  | nil =>
    have hm : MatchesAny alts [] ws := scanAny_sound h
    refine ⟨[], ⟨List.suffix_refl _, ⟨ws, hm⟩, ?_⟩, hm⟩
    intro longer ws' hlonger hlt
    rw [List.suffix_nil.mp hlonger] at hlt
    exact absurd hlt (Nat.lt_irrefl _)
  | cons x l ih =>
    rw [search] at h
    split at h
    next ws' hscan =>
      cases h
      have hm : MatchesAny alts (x :: l) ws := scanAny_sound hscan
      refine ⟨x :: l, ⟨List.suffix_refl _, ⟨ws, hm⟩, ?_⟩, hm⟩
      intro longer ws' hlonger hlt
      exact absurd hlonger.length_le (Nat.not_le.mpr hlt)
    next hscan =>
      obtain ⟨rest, hfirst, hm⟩ := ih h
      refine ⟨rest, ⟨hfirst.isSuffix.trans (List.suffix_cons x l), hfirst.found, ?_⟩, hm⟩
      intro longer ws' hlonger hlt
      obtain rfl | htail := List.suffix_cons_iff.mp hlonger
      · exact (scanAny_eq_none_iff halts _).mp hscan ws'
      · exact hfirst.first longer ws' htail hlt

theorem Occurs.of_search {alts : List (Pattern α)} (halts : ∀ p ∈ alts, Fenced p) {l : List α}
    {ws : List (List α)} (h : search alts l = some ws) : Occurs alts l := by
  obtain ⟨rest, hfirst, hm⟩ := search_eq_some halts h
  exact ⟨rest, ws, hfirst.isSuffix, hm⟩

theorem search_eq_none_iff {alts : List (Pattern α)} (halts : ∀ p ∈ alts, Fenced p)
    (l : List α) : search alts l = none ↔ ¬ Occurs alts l := by
  induction l with
  | nil =>
    rw [search, scanAny_eq_none_iff halts]
    constructor
    · rintro h ⟨rest, ws, hrest, hm⟩
      rw [List.suffix_nil.mp hrest] at hm
      exact h ws hm
    · intro h ws hm
      exact h ⟨[], ws, List.suffix_refl _, hm⟩
  | cons x l ih =>
    rw [search]
    split
    next ws hscan =>
      refine ⟨fun h => (Option.some_ne_none _ h).elim, fun h => ?_⟩
      exact absurd ⟨x :: l, ws, List.suffix_refl _, scanAny_sound hscan⟩ h
    next hscan =>
      rw [ih]
      constructor
      · rintro h ⟨rest, ws, hrest, hm⟩
        obtain rfl | htail := List.suffix_cons_iff.mp hrest
        · exact (scanAny_eq_none_iff halts _).mp hscan ws hm
        · exact h ⟨rest, ws, htail, hm⟩
      · rintro h ⟨rest, ws, hrest, hm⟩
        exact h ⟨rest, ws, hrest.trans (List.suffix_cons x l), hm⟩

/-- A match does not begin in front of a text in which no alternative can. -/
theorem search_append {alts : List (Pattern α)} {front : List α}
    (h : ∀ p ∈ alts, ∀ x ∈ front, ∀ l, scan p (x :: l) = none) (l : List α) :
    search alts (front ++ l) = search alts l := by
  induction front with
  | nil => rfl
  | cons x front ih =>
    have hx : scanAny alts (x :: (front ++ l)) = none := by
      rw [scanAny, List.findSome?_eq_none_iff]
      exact fun p hp => h p hp x List.mem_cons_self _
    rw [List.cons_append, search, hx]
    exact ih fun p hp y hy => h p hp y (List.mem_cons_of_mem x hy)

/-- A pattern that begins with a word begins where the first element of the word is. -/
theorem scan_lit_cons_eq_none {c x : α} (h : x ≠ c) (w : List α) (p : Pattern α) (l : List α) :
    scan (.lit (c :: w) :: p) (x :: l) = none := by
  rw [scan, if_neg]
  intro hword
  exact h (List.cons_prefix_cons.mp hword).1.symm

end Scan

end CashStratum
