/-
CashStratum/GrowingFiles.lean

Files that only grow, and a reader that comes back to them.  It reads each file from where it
stopped, takes the records of the lines that are complete, and stops at the end of the last of
them.  A ledger is where it stopped in each file and what it has read, in the order in which it
did, each record with the tag of the scan.

`Sound` says that what was read is, in some order, what stands before the stops.  It survives
that files grow and are added (`Sound.grow`) and it survives a scan (`Sound.scan`), so that
after a scan of all files the reader has each record once, whenever it came before
(`Sound.scan_perm`).  The first scan of all reads them in the order of the files
(`scan_empty`).
-/
import CashStratum.Lines
import Mathlib.Data.List.Perm.Lattice

namespace CashStratum

open Function

/-! ### Lists over keys -/

section Keys

variable {κ α : Type*} [DecidableEq κ]

/-- One key gives more than before. -/
theorem flatMap_update_perm {keys : List κ} (hnodup : keys.Nodup) {k : κ} (hk : k ∈ keys)
    (f : κ → List α) (more : List α) :
    (keys.flatMap (update f k (f k ++ more))).Perm (keys.flatMap f ++ more) := by
  obtain ⟨before, after, rfl⟩ := List.append_of_mem hk
  have hnot := (List.nodup_middle.mp hnodup).notMem
  have hother : ∀ l : List κ, k ∉ l →
      l.flatMap (update f k (f k ++ more)) = l.flatMap f := by
    intro l hl
    apply List.flatMap_congr
    intro j hj
    have hne : j ≠ k := by
      rintro rfl
      exact hl hj
    exact update_of_ne hne ..
  rw [List.mem_append, not_or] at hnot
  rw [List.flatMap_append, List.flatMap_cons, hother before hnot.1, hother after hnot.2,
    update_self, List.flatMap_append, List.flatMap_cons, List.append_assoc,
    List.append_assoc, List.append_assoc]
  have hswap : (more ++ after.flatMap f).Perm (after.flatMap f ++ more) := List.perm_append_comm
  exact (hswap.append_left _).append_left _

/-- More keys that give nothing. -/
theorem flatMap_perm_of_subset {keys keys' : List κ} (hnodup : keys.Nodup) (hnodup' : keys'.Nodup)
    (hsub : ∀ k ∈ keys, k ∈ keys') {f : κ → List α} (hf : ∀ k ∈ keys', k ∉ keys → f k = []) :
    (keys.flatMap f).Perm (keys'.flatMap f) := by
  have hin : (keys'.filter (· ∈ keys)).Perm keys := by
    rw [List.perm_ext_iff_of_nodup (hnodup'.filter _) hnodup]
    intro k
    rw [List.mem_filter, decide_eq_true_eq]
    exact ⟨fun h => h.2, fun h => ⟨hsub k h, h⟩⟩
  have hout : (keys'.filter (fun k => !decide (k ∈ keys))).flatMap f = [] := by
    rw [List.flatMap_eq_nil_iff]
    intro k hk
    rw [List.mem_filter, Bool.not_eq_true', decide_eq_false_iff_not] at hk
    exact hf k hk.1 hk.2
  have hsplit := (List.filter_append_perm (· ∈ keys) keys').flatMap_right f
  rw [List.flatMap_append, hout, List.append_nil] at hsplit
  exact (hin.flatMap_right f).symm.trans hsplit

end Keys

/-! ### Ledgers -/

variable {β κ τ α : Type*} [DecidableEq β] [DecidableEq κ]

/-- Where each file is read to, and what was read. -/
structure Ledger (κ τ α : Type*) where
  off : κ → Nat
  log : List (τ × α)

variable (sep : β) (parse : List β → Option α)

/-- The records of the complete lines. -/
@[grind =] def records (xs : List β) : List α := (completeLines sep xs).filterMap parse

/-- Up to the end of the last complete line. -/
@[grind =] def lineEnd (xs : List β) : Nat := xs.length - (tornLine sep xs).length

namespace Ledger

/-- Nothing is read. -/
def empty : Ledger κ τ α := ⟨fun _ => 0, []⟩

/-- One file is read from its stop on. -/
def read (tag : τ) (content : κ → List β) (l : Ledger κ τ α) (k : κ) : Ledger κ τ α :=
  let data := (content k).drop (l.off k)
  ⟨update l.off k (l.off k + lineEnd sep data),
    l.log ++ (records sep parse data).map fun a => (tag, a)⟩

/-- Files are read one after another. -/
def scan (tag : τ) (content : κ → List β) (l : Ledger κ τ α) (keys : List κ) : Ledger κ τ α :=
  keys.foldl (read sep parse tag content) l

/-- What was read is what stands before the stops. -/
structure Sound (content : κ → List β) (keys : List κ) (l : Ledger κ τ α) : Prop where
  atLineStart : ∀ k, AtLineStart sep (content k) (l.off k)
  unread : ∀ k, k ∉ keys → l.off k = 0
  perm : (l.log.map Prod.snd).Perm
    (keys.flatMap fun k => records sep parse ((content k).take (l.off k)))

end Ledger

/-! ### The end of the last line -/

section LineEnd

variable {sep parse}

theorem tornLine_length_le (xs : List β) : (tornLine sep xs).length ≤ xs.length := by
  have hflat : (lines sep xs).1.flatten ++ (lines sep xs).2 = xs := (lines_spec xs).1
  have hlen := congrArg List.length hflat
  rw [List.length_append] at hlen
  rw [tornLine]
  omega

theorem take_lineEnd (xs : List β) : xs.take (lineEnd sep xs) = (completeLines sep xs).flatten := by
  have hflat : (lines sep xs).1.flatten ++ (lines sep xs).2 = xs := (lines_spec xs).1
  have hlen := congrArg List.length hflat
  rw [List.length_append] at hlen
  conv_lhs => rw [← hflat]
  apply List.take_left'
  rw [lineEnd, tornLine, hflat]
  omega

/-- What stands before the end of the last line is the same lines, and no torn one. -/
theorem lines_take_lineEnd (xs : List β) :
    tornLine sep (xs.take (lineEnd sep xs)) = [] ∧
      completeLines sep (xs.take (lineEnd sep xs)) = completeLines sep xs := by
  have hflat : (lines sep xs).1.flatten ++ (lines sep xs).2 = xs := (lines_spec xs).1
  have hxs : xs.take (lineEnd sep xs) ++ tornLine sep xs = xs := by
    rw [take_lineEnd]
    exact hflat
  have htorn : cutLine sep (tornLine sep xs) = none := cutLine_tornLine xs
  have hnone : tornLine sep (xs.take (lineEnd sep xs)) = [] := by
    have happend : tornLine sep (xs.take (lineEnd sep xs) ++ tornLine sep xs)
        = tornLine sep (tornLine sep (xs.take (lineEnd sep xs)) ++ tornLine sep xs) :=
      tornLine_append ..
    rw [hxs] at happend
    -- two torn lines one behind the other are one torn line
    have hcut : cutLine sep
        (tornLine sep (xs.take (lineEnd sep xs)) ++ tornLine sep xs) = none := by
      apply cutLine_of_not_mem
      rw [List.mem_append, not_or]
      exact ⟨cutLine_eq_none (cutLine_tornLine _), cutLine_eq_none htorn⟩
    rw [(tornLine_of_cutLine hcut).1] at happend
    have hlen := congrArg List.length happend
    rw [List.length_append] at hlen
    exact List.eq_nil_of_length_eq_zero (by omega)
  refine ⟨hnone, ?_⟩
  have happend : completeLines sep (xs.take (lineEnd sep xs) ++ tornLine sep xs)
      = completeLines sep (xs.take (lineEnd sep xs)) ++
        completeLines sep (tornLine sep (xs.take (lineEnd sep xs)) ++ tornLine sep xs) :=
    completeLines_append ..
  rw [hxs, hnone, List.nil_append, (tornLine_of_cutLine htorn).2, List.append_nil] at happend
  exact happend.symm

variable {xs : List β} {off : Nat}

theorem AtLineStart.records_eq (h : AtLineStart sep xs off) :
    records sep parse xs = records sep parse (xs.take off) ++ records sep parse (xs.drop off) := by
  rw [records, records, records, ← List.filterMap_append]
  conv_lhs => rw [← List.take_append_drop off xs, completeLines_append, h.2, List.nil_append]

/-- A reader that goes on from the start of a line stops at one, and has read all records. -/
theorem AtLineStart.at_lineEnd (parse : List β → Option α) (h : AtLineStart sep xs off) :
    AtLineStart sep xs (off + lineEnd sep (xs.drop off)) ∧
      records sep parse (xs.take (off + lineEnd sep (xs.drop off)))
        = records sep parse xs := by
  obtain ⟨htorn, hcomplete⟩ : tornLine sep ((xs.drop off).take (lineEnd sep (xs.drop off))) = [] ∧
      completeLines sep ((xs.drop off).take (lineEnd sep (xs.drop off)))
        = completeLines sep (xs.drop off) := lines_take_lineEnd (xs.drop off)
  have hle : lineEnd sep (xs.drop off) ≤ (xs.drop off).length := Nat.sub_le ..
  rw [List.length_drop] at hle
  refine ⟨⟨by have := h.1; omega, ?_⟩, ?_⟩
  · rw [List.take_add, tornLine_append, h.2]
    exact htorn
  · rw [h.records_eq, records, records, records, List.take_add, completeLines_append, h.2,
      List.nil_append, hcomplete, List.filterMap_append]

end LineEnd

/-! ### Scans -/

namespace Ledger

variable {sep parse} {content content' : κ → List β} {keys keys' : List κ} {l : Ledger κ τ α}

omit [DecidableEq κ] in
theorem sound_empty (content : κ → List β) (keys : List κ) :
    (empty : Ledger κ τ α).Sound sep parse content keys where
  atLineStart k := atLineStart_zero _
  unread k _ := rfl
  perm := by
    have hnil : (keys.flatMap fun k => records sep parse ((content k).take 0)) = [] := by
      rw [List.flatMap_eq_nil_iff]
      intro k _
      rw [List.take_zero, records, completeLines_nil]
      rfl
    exact hnil ▸ List.Perm.refl _

theorem read_off_self (tag : τ) (k : κ) : (l.read sep parse tag content k).off k
    = l.off k + lineEnd sep ((content k).drop (l.off k)) := update_self ..

theorem read_off_of_ne (tag : τ) {j k : κ} (h : j ≠ k) :
    (l.read sep parse tag content k).off j = l.off j := update_of_ne h ..

/-- Files grow, and there are more of them. -/
theorem Sound.grow (h : l.Sound sep parse content keys) (hnodup : keys.Nodup)
    (hnodup' : keys'.Nodup) (hsub : ∀ k ∈ keys, k ∈ keys')
    (hgrow : ∀ k, content k <+: content' k) : l.Sound sep parse content' keys' := by
  have htake : ∀ k, (content' k).take (l.off k) = (content k).take (l.off k) := by
    intro k
    obtain ⟨more, hmore⟩ := hgrow k
    rw [← hmore, List.take_append_of_le_length (h.atLineStart k).1]
  refine ⟨?_, ?_, ?_⟩
  · intro k
    obtain ⟨more, hmore⟩ := hgrow k
    exact hmore ▸ (h.atLineStart k).append more
  · intro k hk
    exact h.unread k fun hin => hk (hsub k hin)
  · simp only [htake]
    refine h.perm.trans (flatMap_perm_of_subset hnodup hnodup' hsub ?_)
    intro k _ hk
    rw [h.unread k hk, List.take_zero, records, completeLines_nil]
    rfl

/-- One file is read. -/
theorem Sound.read (h : l.Sound sep parse content keys) (hnodup : keys.Nodup) (tag : τ) {k : κ}
    (hk : k ∈ keys) : (l.read sep parse tag content k).Sound sep parse content keys := by
  have hstart := h.atLineStart k
  refine ⟨?_, ?_, ?_⟩
  · intro j
    by_cases hj : j = k
    · subst hj
      rw [read_off_self]
      exact (hstart.at_lineEnd parse).1
    · rw [read_off_of_ne tag hj]
      exact h.atLineStart j
  · intro j hj
    have hne : j ≠ k := by
      rintro rfl
      exact hj hk
    rw [read_off_of_ne tag hne]
    exact h.unread j hj
  · have hrecords : (fun j => records sep parse ((content j).take
          ((l.read sep parse tag content k).off j)))
        = update (fun j => records sep parse ((content j).take (l.off j))) k
          (records sep parse ((content k).take (l.off k)) ++
            records sep parse ((content k).drop (l.off k))) := by
      funext j
      by_cases hj : j = k
      · subst hj
        rw [update_self, read_off_self, (hstart.at_lineEnd parse).2,
          ← hstart.records_eq]
      · rw [update_of_ne hj, read_off_of_ne tag hj]
    rw [hrecords, Ledger.read, List.map_append, List.map_map]
    refine List.Perm.trans ?_ (flatMap_update_perm hnodup hk _ _).symm
    refine h.perm.append ?_
    rw [show (Prod.snd ∘ fun a : α => (tag, a)) = id from rfl, List.map_id]

/-- The files of a scan are read to their ends, and the others are as they were. -/
theorem Sound.scan (h : l.Sound sep parse content keys) (hnodup : keys.Nodup) (tag : τ)
    {files : List κ} (hfiles : ∀ k ∈ files, k ∈ keys) :
    (l.scan sep parse tag content files).Sound sep parse content keys ∧
      ∀ k, k ∈ files ∨
          records sep parse ((content k).take (l.off k)) = records sep parse (content k) →
        records sep parse ((content k).take ((l.scan sep parse tag content files).off k))
          = records sep parse (content k) := by
  induction files generalizing l with
  | nil => exact ⟨h, fun k hk => hk.resolve_left List.not_mem_nil⟩
  | cons f files ih =>
    obtain ⟨hf, hrest⟩ := List.forall_mem_cons.mp hfiles
    obtain ⟨hsound, hread⟩ := ih (h.read hnodup tag hf) hrest
    refine ⟨hsound, ?_⟩
    intro k hk
    by_cases hkf : k = f
    · subst hkf
      refine hread k (Or.inr ?_)
      rw [read_off_self]
      exact ((h.atLineStart k).at_lineEnd parse).2
    · refine hread k ?_
      rw [read_off_of_ne tag hkf]
      exact hk.imp (fun hmem => (List.mem_cons.mp hmem).resolve_left hkf) id

/-- **When it came does not matter.**  After a scan of all files each record was read once. -/
theorem Sound.scan_perm (h : l.Sound sep parse content keys) (hnodup : keys.Nodup) (tag : τ)
    {files : List κ} (hfiles : ∀ k, k ∈ files ↔ k ∈ keys) :
    (((l.scan sep parse tag content files).log).map Prod.snd).Perm
      (keys.flatMap fun k => records sep parse (content k)) := by
  obtain ⟨hsound, hread⟩ := h.scan hnodup tag fun k hk => (hfiles k).mp hk
  have hall : (keys.flatMap fun k => records sep parse
      ((content k).take ((l.scan sep parse tag content files).off k)))
      = keys.flatMap fun k => records sep parse (content k) := by
    apply List.flatMap_congr
    intro k hk
    exact hread k (Or.inl ((hfiles k).mpr hk))
  exact hall ▸ hsound.perm

/-- What a scan adds has its tag. -/
theorem mem_scan_log {tag : τ} {files : List κ} {p : τ × α}
    (h : p ∈ (l.scan sep parse tag content files).log) : p ∈ l.log ∨ p.1 = tag := by
  induction files generalizing l with
  | nil => exact Or.inl h
  | cons f files ih =>
    refine (ih h).elim ?_ Or.inr
    intro hread
    rcases List.mem_append.mp hread with hold | hnew
    · exact Or.inl hold
    · obtain ⟨a, -, rfl⟩ := List.mem_map.mp hnew
      exact Or.inr rfl

/-- The first scan reads the files in their order. -/
theorem scan_log_of_unread {tag : τ} {files : List κ} (hnodup : files.Nodup)
    (hunread : ∀ k ∈ files, l.off k = 0) :
    (l.scan sep parse tag content files).log
      = l.log ++ files.flatMap fun k => (records sep parse (content k)).map fun a => (tag, a) := by
  induction files generalizing l with
  | nil => exact (List.append_nil _).symm
  | cons f files ih =>
    obtain ⟨hf, hrest⟩ := List.nodup_cons.mp hnodup
    obtain ⟨hzero, hunread'⟩ := List.forall_mem_cons.mp hunread
    have hnext : ∀ k ∈ files, (l.read sep parse tag content f).off k = 0 := by
      intro k hk
      have hne : k ≠ f := by
        rintro rfl
        exact hf hk
      rw [read_off_of_ne tag hne]
      exact hunread' k hk
    rw [Ledger.scan, List.foldl_cons]
    refine (ih hrest hnext).trans ?_
    rw [Ledger.read, hzero, List.drop_zero, List.flatMap_cons, List.append_assoc]

end Ledger

end CashStratum
