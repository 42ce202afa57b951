/-
CashStratum/Lines.lean

A stream of lines that end with a separator.  `lines` takes a stream apart into its lines,
each with its separator, and what is behind the last of them (`lines_spec`).  A stream that
goes on has the lines that it had, and those of what was behind them with what came
(`lines_append`), wherever it was cut.  `completeLines` and `tornLine` are the two parts; an
offset at which no line goes on is a line start (`AtLineStart`).
-/
import Mathlib.Data.List.Basic
import Mathlib.Data.Nat.Init

namespace CashStratum

section Lines

variable {α : Type*} [DecidableEq α] (sep : α)

/-- The first line of a stream, and the rest of it. -/
@[grind =] def cutLine : List α → Option (List α × List α)
  | [] => none
  | x :: xs => if x = sep then some ([x], xs) else (cutLine xs).map fun r => (x :: r.1, r.2)

variable {sep}

/-- A line ends at the first separator. -/
theorem cutLine_eq_some {xs line rest : List α} (h : cutLine sep xs = some (line, rest)) :
    xs = line ++ rest ∧ ∃ body, line = body ++ [sep] ∧ sep ∉ body := by
  induction xs generalizing line with
  | nil => cases h
  | cons x xs ih =>
    rw [cutLine] at h
    split_ifs at h with hx
    · obtain ⟨rfl, rfl⟩ := Prod.mk.inj (Option.some.inj h)
      exact ⟨rfl, [], by rw [hx]; rfl, List.not_mem_nil⟩
    · obtain ⟨r, hr, heq⟩ := Option.map_eq_some_iff.mp h
      obtain ⟨rfl, rfl⟩ := Prod.mk.inj heq
      obtain ⟨hxs, body, hline, hbody⟩ := @ih r.1 hr
      refine ⟨by rw [hxs]; rfl, x :: body, by rw [hline]; rfl, ?_⟩
      exact List.not_mem_cons_of_ne_of_not_mem (fun heq => hx heq.symm) hbody

theorem cutLine_length_lt {xs line rest : List α} (h : cutLine sep xs = some (line, rest)) :
    rest.length < xs.length := by
  obtain ⟨rfl, body, rfl, -⟩ := cutLine_eq_some h
  simp only [List.length_append, List.length_singleton]
  omega

theorem cutLine_eq_none {xs : List α} (h : cutLine sep xs = none) : sep ∉ xs := by
  induction xs with
  | nil => exact List.not_mem_nil
  | cons x xs ih =>
    rw [cutLine] at h
    split_ifs at h with hx
    exact List.not_mem_cons_of_ne_of_not_mem (fun heq => hx heq.symm)
      (ih (Option.map_eq_none_iff.mp h))

/-- A line that has come stays as it is. -/
theorem cutLine_append {xs line rest : List α} (h : cutLine sep xs = some (line, rest))
    (ys : List α) : cutLine sep (xs ++ ys) = some (line, rest ++ ys) := by
  induction xs generalizing line with
  | nil => cases h
  | cons x xs ih =>
    rw [cutLine] at h
    rw [List.cons_append, cutLine]
    split_ifs at h ⊢ with hx
    · obtain ⟨rfl, rfl⟩ := Prod.mk.inj (Option.some.inj h)
      rfl
    · obtain ⟨r, hr, heq⟩ := Option.map_eq_some_iff.mp h
      obtain ⟨rfl, rfl⟩ := Prod.mk.inj heq
      rw [@ih r.1 hr]
      rfl

/-- What has come before its separator is the start of a line. -/
theorem cutLine_append_of_none {xs : List α} (h : cutLine sep xs = none) (ys : List α) :
    cutLine sep (xs ++ ys) = (cutLine sep ys).map fun r => (xs ++ r.1, r.2) := by
  induction xs with
  | nil =>
    show cutLine sep ys = (cutLine sep ys).map id
    rw [Option.map_id, id]
  | cons x xs ih =>
    rw [cutLine] at h
    split_ifs at h with hx
    rw [List.cons_append, cutLine, if_neg hx, ih (Option.map_eq_none_iff.mp h), Option.map_map]
    rfl

theorem cutLine_of_not_mem {xs : List α} (h : sep ∉ xs) : cutLine sep xs = none := by
  rw [Option.eq_none_iff_forall_ne_some]
  rintro ⟨line, rest⟩ hsome
  obtain ⟨hxs, body, hline, -⟩ := cutLine_eq_some hsome
  apply h
  rw [hxs, hline]
  simp

theorem cutLine_body {body : List α} (h : sep ∉ body) (rest : List α) :
    cutLine sep (body ++ [sep] ++ rest) = some (body ++ [sep], rest) := by
  rw [List.append_assoc, cutLine_append_of_none (cutLine_of_not_mem h)]
  simp [cutLine]

variable (sep) in
/-- The lines of a stream, and what is behind the last of them. -/
def lines (xs : List α) : List (List α) × List α :=
  match _h : cutLine sep xs with
  | none => ([], xs)
  | some (line, rest) =>
    let r := lines rest
    (line :: r.1, r.2)
termination_by xs.length
decreasing_by exact cutLine_length_lt _h

theorem lines_of_none {xs : List α} (h : cutLine sep xs = none) : lines sep xs = ([], xs) := by
  rw [lines]
  split
  · rfl
  · next hsome => rw [h] at hsome; cases hsome

theorem lines_of_some {xs line rest : List α} (h : cutLine sep xs = some (line, rest)) :
    lines sep xs = (line :: (lines sep rest).1, (lines sep rest).2) := by
  rw [lines]
  split
  · next hnone => rw [h] at hnone; cases hnone
  · next hsome =>
      rw [h] at hsome
      obtain ⟨rfl, rfl⟩ := Prod.mk.inj (Option.some.inj hsome)
      rfl

/-- The lines and what is behind them are the stream, and the separators are at the ends of the
lines. -/
theorem lines_spec (xs : List α) :
    (lines sep xs).1.flatten ++ (lines sep xs).2 = xs ∧
    (∀ line ∈ (lines sep xs).1, ∃ body, line = body ++ [sep] ∧ sep ∉ body) ∧
    cutLine sep (lines sep xs).2 = none := by
  induction hlen : xs.length using Nat.strong_induction_on generalizing xs with
  | _ len ih =>
    cases h : cutLine sep xs with
    | none =>
      rw [lines_of_none h]
      exact ⟨rfl, fun line hline => absurd hline List.not_mem_nil, h⟩
    | some r =>
      obtain ⟨line, rest⟩ := r
      obtain ⟨hflat, hends, htail⟩ := ih _ (hlen ▸ cutLine_length_lt h) rest rfl
      obtain ⟨hxs, hline⟩ := cutLine_eq_some h
      rw [lines_of_some h]
      refine ⟨?_, fun l hl => ?_, htail⟩
      · rw [List.flatten_cons, List.append_assoc, hflat, ← hxs]
      · rcases List.mem_cons.mp hl with rfl | hrest
        · exact hline
        · exact hends l hrest

/-- **A stream may be cut anywhere.** -/
theorem lines_append (xs ys : List α) :
    lines sep (xs ++ ys) = ((lines sep xs).1 ++ (lines sep ((lines sep xs).2 ++ ys)).1,
      (lines sep ((lines sep xs).2 ++ ys)).2) := by
  induction hlen : xs.length using Nat.strong_induction_on generalizing xs with
  | _ len ih =>
    cases h : cutLine sep xs with
    | none =>
      rw [lines_of_none h]
      rfl
    | some r =>
      obtain ⟨line, rest⟩ := r
      rw [lines_of_some (cutLine_append h ys), lines_of_some h,
        ih _ (hlen ▸ cutLine_length_lt h) rest rfl]
      rfl

/-! ### Complete and torn lines -/

variable (sep) in
/-- The complete lines of a stream. -/
@[grind =] def completeLines (xs : List α) : List (List α) := (lines sep xs).1

variable (sep) in
/-- What is behind the last complete line. -/
@[grind =] def tornLine (xs : List α) : List α := (lines sep xs).2

theorem tornLine_nil : tornLine sep [] = [] := by
  rw [tornLine, lines_of_none rfl]

theorem completeLines_nil : completeLines sep [] = [] := by
  rw [completeLines, lines_of_none rfl]

theorem completeLines_append (a b : List α) :
    completeLines sep (a ++ b) =
      completeLines sep a ++ completeLines sep (tornLine sep a ++ b) := by
  rw [completeLines, lines_append]
  rfl

theorem tornLine_append (a b : List α) :
    tornLine sep (a ++ b) = tornLine sep (tornLine sep a ++ b) := by
  rw [tornLine, lines_append]
  rfl

/-- A stream without a separator is a torn line. -/
theorem tornLine_of_cutLine {xs : List α} (h : cutLine sep xs = none) :
    tornLine sep xs = xs ∧ completeLines sep xs = [] := by
  rw [tornLine, completeLines, lines_of_none h]
  exact ⟨rfl, rfl⟩

theorem cutLine_tornLine (xs : List α) : cutLine sep (tornLine sep xs) = none :=
  (lines_spec xs).2.2

/-- The first line, with no torn line behind it. -/
theorem cutLine_line {xs line rest : List α} (h : cutLine sep xs = some (line, rest)) :
    xs = line ++ rest ∧ completeLines sep xs = line :: completeLines sep rest ∧
      tornLine sep line = [] := by
  obtain ⟨hxs, body, hline, hbody⟩ := cutLine_eq_some h
  refine ⟨hxs, ?_, ?_⟩
  · rw [completeLines, lines_of_some h]
    rfl
  · have hcut : cutLine sep line = some (line, []) := by
      rw [hline, ← List.append_nil (body ++ [sep]), cutLine_body hbody]
      simp
    rw [tornLine, lines_of_some hcut, lines_of_none rfl]

/-- A stream of lines without a separator inside has these lines. -/
theorem completeLines_flatMap {bodies : List (List α)} (h : ∀ body ∈ bodies, sep ∉ body) :
    completeLines sep (bodies.flatMap fun body => body ++ [sep]) =
      bodies.map fun body => body ++ [sep] := by
  induction bodies with
  | nil => exact completeLines_nil
  | cons body bodies ih =>
    obtain ⟨hbody, hbodies⟩ := List.forall_mem_cons.mp h
    rw [List.flatMap_cons, List.map_cons, (cutLine_line (cutLine_body hbody _)).2.1, ih hbodies]

/-- A complete line has its separator at its end and nowhere else. -/
theorem mem_completeLines {xs line : List α} (h : line ∈ completeLines sep xs) :
    ∃ body, line = body ++ [sep] ∧ sep ∉ body := (lines_spec xs).2.1 line h

variable (sep) in
/-- No line goes over an offset. -/
def AtLineStart (xs : List α) (off : Nat) : Prop :=
  off ≤ xs.length ∧ tornLine sep (xs.take off) = []

instance (xs : List α) (off : Nat) : Decidable (AtLineStart sep xs off) :=
  inferInstanceAs (Decidable (_ ∧ _))

theorem atLineStart_zero (xs : List α) : AtLineStart sep xs 0 := ⟨Nat.zero_le _, tornLine_nil⟩

theorem AtLineStart.append {xs : List α} {off : Nat} (h : AtLineStart sep xs off) (ys : List α) :
    AtLineStart sep (xs ++ ys) off := by
  refine ⟨?_, ?_⟩
  · rw [List.length_append]
    exact Nat.le_add_right_of_le h.1
  · rw [List.take_append_of_le_length h.1]
    exact h.2

/-- The torn line is behind every line start. -/
theorem AtLineStart.tornLine_drop {xs : List α} {off : Nat} (h : AtLineStart sep xs off) :
    tornLine sep (xs.drop off) = tornLine sep xs := by
  conv_rhs => rw [← List.take_append_drop off xs, tornLine_append, h.2]
  rfl

theorem AtLineStart.next {xs line rest : List α} {off : Nat} (h : AtLineStart sep xs off)
    (hcut : cutLine sep (xs.drop off) = some (line, rest)) :
    AtLineStart sep xs (off + line.length) := by
  obtain ⟨hdrop, -, hline⟩ := cutLine_line hcut
  have hlen : (xs.drop off).length = line.length + rest.length := by
    rw [hdrop, List.length_append]
  rw [List.length_drop] at hlen
  refine ⟨by have := h.1; omega, ?_⟩
  rw [List.take_add, hdrop, List.take_left, tornLine_append, h.2]
  exact hline

end Lines

end CashStratum
