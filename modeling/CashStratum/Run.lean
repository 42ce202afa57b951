/-
CashStratum/Run.lean

Runs of a machine with a step function.  A run is a list of events; `Along P` says
that each event satisfies `P` in the state in which it happens.  An invariant that is
kept by the steps that satisfy `P` holds after every run along `P`
(`run_invariant`), what it gives of each event holds along the run
(`along_of_invariant`), and a relation between the states before and after a step that is
reflexive and transitive holds between the ends of a run (`run_relates`).  A property
that a step keeps exactly when it satisfies `C` holds in every state of a run exactly
when `C` holds along it (`run_always_iff`), a relation between two runs survives leaving
out events of one (`run_filterMap`), and so does a relation between the runs of two
machines on the same events (`run_simulates`).  `Since P` says of an event that it happened in a
run, and that `P` held along the run since (`since_concat_iff`).
-/
import Mathlib.Data.List.Infix
import Mathlib.Logic.Basic

namespace CashStratum

section Run

variable {σ ε : Type*} (step : σ → ε → σ)

/-- The state after a list of events. -/
@[grind =] def run (s : σ) (events : List ε) : σ := events.foldl step s

/-- Every event satisfies `P` in the state in which it happens. -/
@[grind =] def Along (P : σ → ε → Prop) : σ → List ε → Prop
  | _, [] => True
  | s, e :: events => P s e ∧ Along P (step s e) events

variable {step}

instance Along.decidable {P : σ → ε → Prop} [∀ s e, Decidable (P s e)] :
    ∀ s events, Decidable (Along step P s events)
  | _, [] => isTrue trivial
  | s, e :: events =>
    have : Decidable (Along step P (step s e) events) := Along.decidable (step s e) events
    inferInstanceAs (Decidable (P s e ∧ Along step P (step s e) events))

@[simp] theorem run_nil (s : σ) : run step s [] = s := rfl

theorem run_cons (s : σ) (e : ε) (events : List ε) :
    run step s (e :: events) = run step (step s e) events := rfl

theorem run_append (s : σ) (events events' : List ε) :
    run step s (events ++ events') = run step (run step s events) events' :=
  List.foldl_append

/-- A condition on the events alone. -/
theorem along_of_forall {Q : ε → Prop} {events : List ε} (hQ : ∀ e ∈ events, Q e) (s : σ) :
    Along step (fun _ e => Q e) s events := by
  induction events generalizing s with
  | nil => trivial
  | cons e events ih =>
    obtain ⟨he, hrest⟩ := List.forall_mem_cons.mp hQ
    exact ⟨he, ih hrest (step s e)⟩

theorem along_append {P : σ → ε → Prop} {s : σ} {events events' : List ε} :
    Along step P s (events ++ events') ↔
      Along step P s events ∧ Along step P (run step s events) events' := by
  induction events generalizing s with
  | nil => exact (and_iff_right trivial).symm
  | cons e events ih =>
    show (P s e ∧ Along step P (step s e) (events ++ events')) ↔ _
    rw [ih, ← and_assoc]
    rfl

/-- Two conditions on the same run. -/
theorem Along.and {P Q : σ → ε → Prop} {s : σ} {events : List ε} (h : Along step P s events)
    (h' : Along step Q s events) : Along step (fun s e => P s e ∧ Q s e) s events := by
  induction events generalizing s with
  | nil => trivial
  | cons e events ih => exact ⟨⟨h.1, h'.1⟩, ih h.2 h'.2⟩

theorem Along.imp {P Q : σ → ε → Prop} (himp : ∀ s e, P s e → Q s e) {s : σ} {events : List ε}
    (h : Along step P s events) : Along step Q s events := by
  induction events generalizing s with
  | nil => trivial
  | cons e events ih => exact ⟨himp s e h.1, ih h.2⟩

/-- Two systems take the same steps exactly as long as a condition holds. -/
theorem run_agree_iff {step' : σ → ε → σ} {C : σ → ε → Prop}
    (h : ∀ s e, step' s e = step s e ↔ C s e) {s : σ} {events : List ε} :
    (∀ before, before <+: events → run step' s before = run step s before) ↔
      Along step C s events := by
  induction events generalizing s with
  | nil =>
    refine ⟨fun _ => trivial, fun _ before hbefore => ?_⟩
    rw [List.prefix_nil.mp hbefore]
    rfl
  | cons e events ih =>
    constructor
    · intro hall
      have hfirst : step' s e = step s e := hall [e] (List.prefix_append [e] events)
      refine ⟨(h s e).mp hfirst, ih.mp fun before hbefore => ?_⟩
      have hnext := hall (e :: before) (List.cons_prefix_cons.mpr ⟨rfl, hbefore⟩)
      rwa [run_cons, run_cons, hfirst] at hnext
    · rintro ⟨he, halong⟩ before hbefore
      cases before with
      | nil => rfl
      | cons e' before =>
        obtain ⟨rfl, hrest⟩ := List.cons_prefix_cons.mp hbefore
        rw [run_cons, run_cons, (h s e').mpr he]
        exact ih.mpr halong before hrest

/-- **The invariant rule.** -/
theorem run_invariant {P : σ → ε → Prop} {I : σ → Prop}
    (hstep : ∀ s e, P s e → I s → I (step s e)) {s : σ} {events : List ε}
    (halong : Along step P s events) (hs : I s) : I (run step s events) := by
  induction events generalizing s with
  | nil => exact hs
  | cons e events ih => exact ih halong.2 (hstep s e halong.1 hs)

/-- **The condition rule.**  What an invariant gives of each event holds along the run. -/
theorem along_of_invariant {P Q : σ → ε → Prop} {I : σ → Prop}
    (hstep : ∀ s e, P s e → I s → I (step s e)) (hgives : ∀ s e, P s e → I s → Q s e) {s : σ}
    {events : List ε} (halong : Along step P s events) (hs : I s) : Along step Q s events := by
  induction events generalizing s with
  | nil => trivial
  | cons e events ih =>
    exact ⟨hgives s e halong.1 hs, ih halong.2 (hstep s e halong.1 hs)⟩

/-- An invariant of the steps of the events that satisfy `Q`. -/
theorem run_invariant_of {Q : ε → Prop} {I : σ → Prop}
    (hstep : ∀ s e, Q e → I s → I (step s e)) {s : σ} {events : List ε}
    (hQ : ∀ e ∈ events, Q e) (hs : I s) : I (run step s events) := by
  induction events generalizing s with
  | nil => exact hs
  | cons e events ih =>
    refine ih (fun e' h => hQ e' (List.mem_cons_of_mem e h)) ?_
    exact hstep s e (hQ e List.mem_cons_self) hs

/-- An invariant of every step. -/
theorem run_invariant_always {I : σ → Prop} (hstep : ∀ s e, I s → I (step s e)) {s : σ}
    (events : List ε) (hs : I s) : I (run step s events) := by
  induction events generalizing s with
  | nil => exact hs
  | cons e events ih => exact ih (hstep s e hs)

/-- **The relation rule.** -/
theorem run_relates {R : σ → σ → Prop} (hrefl : ∀ s, R s s)
    (htrans : ∀ s s' s'', R s s' → R s' s'' → R s s'') (hstep : ∀ s e, R s (step s e)) (s : σ)
    (events : List ε) : R s (run step s events) := by
  induction events generalizing s with
  | nil => exact hrefl s
  | cons e events ih => exact htrans s _ _ (hstep s e) (ih (step s e))

/-- **The two-run rule.**  The second run leaves events out, or has others in their place. -/
theorem run_filterMap {R : σ → σ → Prop} {Q : ε → Prop} (f : ε → Option ε)
    (hstep : ∀ s t e, Q e → R s t → R (step s e) ((f e).elim t (step t))) {s t : σ}
    {events : List ε} (hQ : ∀ e ∈ events, Q e) (h : R s t) :
    R (run step s events) (run step t (events.filterMap f)) := by
  induction events generalizing s t with
  | nil => exact h
  | cons e events ih =>
    have hnext := hstep s t e (hQ e List.mem_cons_self) h
    have hrest := fun e' h => hQ e' (List.mem_cons_of_mem e h)
    cases hf : f e with
    | none =>
      rw [hf] at hnext
      rw [List.filterMap_cons_none hf]
      exact ih hrest hnext
    | some e' =>
      rw [hf] at hnext
      rw [List.filterMap_cons_some hf]
      exact ih hrest hnext

/-- **The simulation rule.**  Two machines take the same events. -/
theorem run_simulates {τ : Type*} {step' : τ → ε → τ} {P : σ → ε → Prop} {R : σ → τ → Prop}
    (hstep : ∀ s t e, P s e → R s t → R (step s e) (step' t e)) {s : σ} {t : τ}
    {events : List ε} (halong : Along step P s events) (h : R s t) :
    R (run step s events) (run step' t events) := by
  induction events generalizing s t with
  | nil => exact h
  | cons e events ih => exact ih halong.2 (hstep s t e halong.1 h)

/-- **The exactness rule**, for runs along `Q`.  Of the invariant it needs only that it survives
the steps that keep the property. -/
theorem run_always_iff_along {I P : σ → Prop} {Q C : σ → ε → Prop}
    (hinv : ∀ s e, Q s e → I s → P s → P (step s e) → I (step s e))
    (hstep : ∀ s e, Q s e → I s → P s → (P (step s e) ↔ C s e)) {s : σ} {events : List ε}
    (hQ : Along step Q s events) (hI : I s) (hP : P s) :
    (∀ before, before <+: events → P (run step s before)) ↔ Along step C s events := by
  induction events generalizing s with
  | nil =>
    refine ⟨fun _ => trivial, fun _ before hbefore => ?_⟩
    rw [List.prefix_nil.mp hbefore]
    exact hP
  | cons e events ih =>
    obtain ⟨he, hrest⟩ := hQ
    constructor
    · intro hall
      have hnext : P (step s e) := hall [e] (List.prefix_append [e] events)
      refine ⟨(hstep s e he hI hP).mp hnext, (ih hrest (hinv s e he hI hP hnext) hnext).mp ?_⟩
      intro before hbefore
      exact hall (e :: before) (List.cons_prefix_cons.mpr ⟨rfl, hbefore⟩)
    · rintro ⟨hc, halong⟩ before hbefore
      cases before with
      | nil => exact hP
      | cons e' before =>
        obtain ⟨rfl, htail⟩ := List.cons_prefix_cons.mp hbefore
        have hnext : P (step s e') := (hstep s e' he hI hP).mpr hc
        exact (ih hrest (hinv s e' he hI hP hnext) hnext).mpr halong before htail

/-- The exactness rule for runs of the events that satisfy `Q`. -/
theorem run_always_iff_of {I P : σ → Prop} {Q : ε → Prop} {C : σ → ε → Prop}
    (hinv : ∀ s e, Q e → I s → P s → P (step s e) → I (step s e))
    (hstep : ∀ s e, Q e → I s → P s → (P (step s e) ↔ C s e)) {s : σ} {events : List ε}
    (hQ : ∀ e ∈ events, Q e) (hI : I s) (hP : P s) :
    (∀ before, before <+: events → P (run step s before)) ↔ Along step C s events :=
  run_always_iff_along (fun s e he => hinv s e he) (fun s e he => hstep s e he)
    (along_of_forall hQ s) hI hP

theorem run_always_iff {I P : σ → Prop} {Q : ε → Prop} {C : σ → ε → Prop}
    (hinv : ∀ s e, Q e → I s → I (step s e))
    (hstep : ∀ s e, Q e → I s → P s → (P (step s e) ↔ C s e)) {s : σ} {events : List ε}
    (hQ : ∀ e ∈ events, Q e) (hI : I s) (hP : P s) :
    (∀ before, before <+: events → P (run step s before)) ↔ Along step C s events :=
  run_always_iff_of (fun s e he hs _ _ => hinv s e he hs) hstep hQ hI hP

/-! ### Since an event -/

/-- An element that stands in a list with one more behind: it is that one, or stood there before. -/
theorem concat_eq_append_cons_iff {α : Type*} {l before after : List α} {last a : α} :
    l ++ [last] = before ++ a :: after ↔
      (l = before ∧ last = a ∧ after = []) ∨
        ∃ after', after = after' ++ [last] ∧ l = before ++ a :: after' := by
  constructor
  · intro heq
    rcases List.eq_nil_or_concat after with rfl | ⟨after', last', rfl⟩
    · obtain ⟨hbefore, hlast⟩ := List.append_inj' heq rfl
      exact .inl ⟨hbefore, List.singleton_inj.mp hlast, rfl⟩
    · rw [List.concat_eq_append, ← List.cons_append, ← List.append_assoc] at heq
      obtain ⟨hbefore, hlast⟩ := List.append_inj' heq rfl
      obtain rfl := List.singleton_inj.mp hlast
      exact .inr ⟨after', List.concat_eq_append, hbefore⟩
  · rintro (⟨rfl, rfl, rfl⟩ | ⟨after', rfl, rfl⟩) <;> simp

/-- The event `e` happened, and every event since then satisfies `P`. -/
def Since (step : σ → ε → σ) (P : σ → ε → Prop) (s : σ) (events : List ε) (e : ε) : Prop :=
  ∃ before after, events = before ++ e :: after ∧
    Along step P (run step s (before ++ [e])) after

theorem not_since_nil {P : σ → ε → Prop} {s : σ} {e : ε} : ¬Since step P s [] e := by
  rintro ⟨before, after, heq, -⟩
  exact List.append_ne_nil_of_right_ne_nil before (List.cons_ne_nil e after) heq.symm

/-- **The last event is the one, or it was before and the last event lets it stand.** -/
theorem since_concat_iff {P : σ → ε → Prop} {s : σ} {events : List ε} {e last : ε} :
    Since step P s (events ++ [last]) e ↔
      last = e ∨ Since step P s events e ∧ P (run step s events) last := by
  constructor
  · rintro ⟨before, after, heq, halong⟩
    obtain ⟨-, rfl, -⟩ | ⟨after', rfl, rfl⟩ := concat_eq_append_cons_iff.mp heq
    · exact .inl rfl
    · rw [along_append, ← run_append, List.append_assoc, List.singleton_append] at halong
      exact .inr ⟨⟨before, after', rfl, halong.1⟩, halong.2.1⟩
  · rintro (rfl | ⟨⟨before, after, rfl, halong⟩, hlast⟩)
    · exact ⟨events, [], rfl, trivial⟩
    · refine ⟨before, after ++ [last], by simp, along_append.mpr ⟨halong, ?_, trivial⟩⟩
      rwa [← run_append, List.append_assoc, List.singleton_append]

end Run

end CashStratum
