/-
CashStratum/KeyedList.lean

Lists searched by a key.  A hash table of the source is a list here, in the order of its
iteration, and a search in it is `List.find?`; what holds of the search when each key
stands once.
-/
import Mathlib.Data.List.Nodup

namespace CashStratum

section KeyedList

variable {α κ : Type*} [DecidableEq κ] {key : α → κ} {l : List α} {k : κ} {a : α}

/-- **A search by key finds the one entry of the key.** -/
theorem find?_key_eq_some_iff (hnodup : (l.map key).Nodup) :
    l.find? (fun entry => key entry = k) = some a ↔ a ∈ l ∧ key a = k := by
  constructor
  · intro hfind
    have hkey := List.find?_some hfind
    exact ⟨List.mem_of_find?_eq_some hfind, of_decide_eq_true hkey⟩
  · rintro ⟨hmem, rfl⟩
    cases hfind : l.find? fun entry => key entry = key a with
    | none => exact absurd (decide_eq_true rfl) (List.find?_eq_none.mp hfind a hmem)
    | some b =>
      have hkey := List.find?_some hfind
      rw [List.inj_on_of_nodup_map hnodup (List.mem_of_find?_eq_some hfind) hmem
        (of_decide_eq_true hkey)]

/-- It finds nothing when no entry has the key. -/
theorem find?_key_eq_none_iff :
    l.find? (fun entry => key entry = k) = none ↔ ∀ entry ∈ l, key entry ≠ k := by
  rw [List.find?_eq_none]
  exact forall₂_congr fun entry _ => decide_eq_true_iff.not

omit [DecidableEq κ] in
/-- A change of the entries that leaves their keys keeps them apart. -/
theorem nodup_map_of_key {f : α → α} (hkey : ∀ entry, key (f entry) = key entry)
    (hnodup : (l.map key).Nodup) : ((l.map f).map key).Nodup := by
  have hsame : (l.map f).map key = l.map key := by
    rw [List.map_map]
    exact List.map_congr_left fun entry _ => hkey entry
  rw [hsame]
  exact hnodup

/-- An entry of a new key is added. -/
theorem nodup_append_key (hnodup : (l.map key).Nodup)
    (hnew : l.find? (fun entry => key entry = key a) = none) : ((l ++ [a]).map key).Nodup := by
  rw [List.map_append, List.nodup_append]
  refine ⟨hnodup, List.nodup_singleton _, ?_⟩
  intro k hk k' hk' heq
  obtain ⟨entry, hmem, rfl⟩ := List.mem_map.mp hk
  obtain rfl := List.mem_singleton.mp hk'
  exact find?_key_eq_none_iff.mp hnew entry hmem heq

/-- The entry of a key, and the others. -/
theorem perm_cons_filter_key (hnodup : (l.map key).Nodup) (ha : a ∈ l) :
    l.Perm (a :: l.filter fun entry => key entry ≠ key a) := by
  induction l with
  | nil => cases ha
  | cons first rest ih =>
    rw [List.map_cons, List.nodup_cons] at hnodup
    obtain rfl | hrest := List.mem_cons.mp ha
    · have hothers : ∀ other ∈ rest, decide (key other ≠ key a) = true := by
        intro other hother
        refine decide_eq_true fun hsame => hnodup.1 ?_
        exact List.mem_map.mpr ⟨other, hother, hsame⟩
      rw [List.filter_cons_of_neg (by simp), List.filter_eq_self.mpr hothers]
    · have hfirst : key first ≠ key a := by
        intro hsame
        exact hnodup.1 (List.mem_map.mpr ⟨a, hrest, hsame.symm⟩)
      rw [List.filter_cons_of_pos (by simpa using hfirst)]
      exact ((ih hnodup.2 hrest).cons first).trans (List.Perm.swap _ _ _)

theorem filter_key_eq (hnodup : (l.map key).Nodup) (ha : a ∈ l) :
    (l.filter fun entry => key entry = key a) = [a] := by
  induction l with
  | nil => cases ha
  | cons first rest ih =>
    rw [List.map_cons, List.nodup_cons] at hnodup
    obtain rfl | hrest := List.mem_cons.mp ha
    · have hothers : (rest.filter fun entry => key entry = key a) = [] := by
        apply List.filter_eq_nil_iff.mpr
        intro other hother hsame
        exact hnodup.1 (List.mem_map.mpr ⟨other, hother, of_decide_eq_true hsame⟩)
      rw [List.filter_cons_of_pos (by simp), hothers]
    · have hfirst : key first ≠ key a := by
        intro hsame
        exact hnodup.1 (List.mem_map.mpr ⟨a, hrest, hsame.symm⟩)
      rw [List.filter_cons_of_neg (by simpa using hfirst), ih hnodup.2 hrest]

end KeyedList

end CashStratum
