/-
CashStratum/ShareFeedRun.lean

What the share feed returns over a run (`scanShares` of `ckpool_api_server.go`).

A cursor stands for the files from its own on, and a poll goes over what it has listed when it
came to a directory.  So a line is returned if it is written where the poll in progress still
gets to, or behind all that it has listed (`Ahead`); a line that is completed in a file before
the cursor is not.  `Inv` is the balance of the expected shares, those returned and those
ahead, with what the stage of a poll says of the lists it holds; `run_inv` keeps it along every
run whose writes are ahead.
-/
import CashStratum.ShareFeed
import Mathlib

namespace CashStratum.ShareFeed

open Function

variable {D F R U : Type*} [LinearOrder D] [LinearOrder F] [DecidableEq U]

/-! ### What is ahead of a cursor -/

namespace ShareCursor

/-- A file is not before that of the cursor. -/
def Reaches (c : ShareCursor D F) (k : D × F) : Prop :=
  c.dir < k.1 ∨ c.dir = k.1 ∧ ∀ g ∈ c.file, g ≤ k.2

instance (c : ShareCursor D F) (k : D × F) : Decidable (c.Reaches k) :=
  inferInstanceAs (Decidable (_ ∨ _))

/-- Where the cursor is in a file. -/
def offsetIn (c : ShareCursor D F) (k : D × F) : Nat :=
  if c.dir = k.1 ∧ c.file = some k.2 then c.offset else 0

end ShareCursor

variable {k : D × F}

namespace Tree

variable (t : Tree D F)

def keys : List (D × F) := t.dirs.flatMap fun d => (t.names d).map fun f => (d, f)

theorem mem_keys : k ∈ t.keys ↔ k.2 ∈ t.names k.1 := by
  obtain ⟨d, f⟩ := k
  simp only [keys, List.mem_flatMap, List.mem_map, Prod.mk.injEq]
  constructor
  · rintro ⟨e, -, g, hg, rfl, rfl⟩
    exact hg
  · intro hf
    exact ⟨d, t.mem_dirs hf, f, hf, rfl, rfl⟩

theorem keys_nodup : t.keys.Nodup := by
  rw [keys, List.nodup_flatMap]
  refine ⟨fun d _ => ?_, ?_⟩
  · exact List.Nodup.map (fun f g h => (Prod.mk.inj h).2) ((t.names_sorted d).imp ne_of_lt)
  · refine t.dirs_sorted.imp fun {d e} hlt => ?_
    rw [onFun, List.disjoint_left]
    rintro ⟨a, b⟩ ha hb
    obtain ⟨f, -, hf⟩ := List.mem_map.mp ha
    obtain ⟨g, -, hg⟩ := List.mem_map.mp hb
    have hd : d = e := (Prod.mk.inj (hf.trans hg.symm)).1
    exact absurd hd (ne_of_lt hlt)

/-- What a file holds ahead of a cursor. -/
def ahead (c : ShareCursor D F) (k : D × F) : Bytes :=
  if c.Reaches k then (t.content k.1 k.2).drop (c.offsetIn k) else []

/-- The complete lines ahead of a cursor. -/
def after (c : ShareCursor D F) : List Bytes :=
  t.keys.flatMap fun k => completeLines 10 (t.ahead c k)

/-- A cursor that a poll may go on from: its file is there, and no line goes over its offset. -/
def Valid (c : ShareCursor D F) : Prop :=
  c.dir ∈ t.dirs ∧ ∀ g ∈ c.file, g ∈ t.names c.dir ∧ AtLineStart 10 (t.content c.dir g) c.offset

instance (c : ShareCursor D F) : Decidable (t.Valid c) := inferInstanceAs (Decidable (_ ∧ _))

variable {t}

theorem Valid.atLineStart {c : ShareCursor D F} (h : t.Valid c) (k : D × F) :
    AtLineStart 10 (t.content k.1 k.2) (c.offsetIn k) := by
  rw [ShareCursor.offsetIn]
  split_ifs with hk
  · rw [← hk.1]
    exact (h.2 k.2 hk.2).2
  · exact atLineStart_zero _

end Tree

/-- The lines of the files, when one of them gets more. -/
theorem flatMap_perm_append {α β : Type*} [DecidableEq α] {l : List α} {g g' : α → List β}
    {x : α} {new : List β} (hnd : l.Nodup) (hx : x ∈ l) (hother : ∀ y ∈ l, y ≠ x → g' y = g y)
    (hnew : (g' x).Perm (g x ++ new)) : (l.flatMap g').Perm (l.flatMap g ++ new) := by
  have hl : l.Perm (x :: l.erase x) := List.perm_cons_erase hx
  have hrest : (l.erase x).flatMap g' = (l.erase x).flatMap g := by
    apply List.flatMap_congr
    intro y hy
    obtain ⟨hne, hmem⟩ := hnd.mem_erase_iff.mp hy
    exact hother y hmem hne
  calc
    (l.flatMap g').Perm (g' x ++ (l.erase x).flatMap g') := hl.flatMap_right g'
    List.Perm _ (g x ++ new ++ (l.erase x).flatMap g) := by
      rw [hrest]
      exact hnew.append_right _
    List.Perm _ (g x ++ (l.erase x).flatMap g ++ new) := by
      rw [List.append_assoc, List.append_assoc]
      exact List.perm_append_comm.append_left _
    List.Perm _ (l.flatMap g ++ new) := (hl.flatMap_right g).symm.append_right _

variable {d : D} {f : F}

namespace Tree

variable {t : Tree D F}

theorem after_congr {c c' : ShareCursor D F}
    (h : ∀ k, k.2 ∈ t.names k.1 →
      completeLines 10 (t.ahead c k) = completeLines 10 (t.ahead c' k)) :
    t.after c = t.after c' := by
  apply List.flatMap_congr
  intro k hk
  exact h k (t.mem_keys.mp hk)

theorem write_of_mem (h : f ∈ t.names d) (bytes : Bytes) :
    (t.write d f bytes).dirs = t.dirs ∧ (t.write d f bytes).names = t.names ∧
      (t.write d f bytes).content d f = t.content d f ++ bytes ∧
      ∀ k : D × F, k ≠ (d, f) → (t.write d f bytes).content k.1 k.2 = t.content k.1 k.2 := by
  rw [write, dif_pos h]
  refine ⟨rfl, rfl, ?_, ?_⟩
  · show update t.content d _ d f = _
    rw [update_self, update_self]
  · rintro ⟨e, g⟩ hne
    show update t.content d _ e g = _
    by_cases he : e = d
    · subst he
      have hg : g ≠ f := by
        rintro rfl
        exact hne rfl
      rw [update_self, update_of_ne hg]
    · rw [update_of_ne he]

/-- What is written ahead of a cursor comes to what is ahead of it. -/
theorem after_write (h : f ∈ t.names d) (bytes : Bytes) {c : ShareCursor D F}
    (hreach : c.Reaches (d, f)) (hstart : AtLineStart 10 (t.content d f) (c.offsetIn (d, f))) :
    ((t.write d f bytes).after c).Perm
      (t.after c ++ completeLines 10 (tornLine 10 (t.content d f) ++ bytes)) := by
  obtain ⟨hdirs, hnames, hself, hother⟩ := write_of_mem h bytes
  have hkeys : (t.write d f bytes).keys = t.keys := by rw [keys, hdirs, hnames, keys]
  rw [after, hkeys]
  apply flatMap_perm_append (x := (d, f)) t.keys_nodup (t.mem_keys.mpr h)
  · intro k _ hk
    rw [ahead, ahead, hother k hk]
  · rw [ahead, ahead, if_pos hreach, if_pos hreach, hself, List.drop_append_of_le_length hstart.1,
      completeLines_append, hstart.tornLine_drop]

/-- Where a cursor is in its file makes no difference to the others. -/
theorem ahead_file_of_ne (h : k ≠ (d, f)) (off off' : Nat) :
    t.ahead ⟨d, some f, off⟩ k = t.ahead ⟨d, some f, off'⟩ k := by
  have hne : ¬ (d = k.1 ∧ some f = some k.2) := by
    rintro ⟨hd, hf⟩
    exact h (Prod.ext hd.symm (Option.some.inj hf).symm)
  have hsame : ∀ off, ShareCursor.offsetIn ⟨d, some f, off⟩ k = 0 := fun off => if_neg hne
  rw [ahead, ahead, hsame, hsame]
  rfl

/-- A line that is read goes from what is ahead. -/
theorem after_line (h : f ∈ t.names d) {pos : Nat} {line rest : Bytes}
    (hcut : cutLine 10 ((t.content d f).drop pos) = some (line, rest)) :
    (t.after ⟨d, some f, pos⟩).Perm (t.after ⟨d, some f, pos + line.length⟩ ++ [line]) := by
  obtain ⟨hdrop, hlines, -⟩ := cutLine_line hcut
  have hreach : ∀ off, ShareCursor.Reaches ⟨d, some f, off⟩ (d, f) := by
    intro off
    refine Or.inr ⟨rfl, fun g hg => ?_⟩
    cases hg
    exact le_refl f
  have hoff : ∀ off, ShareCursor.offsetIn ⟨d, some f, off⟩ (d, f) = off :=
    fun off => if_pos ⟨rfl, rfl⟩
  apply flatMap_perm_append (x := (d, f)) t.keys_nodup (t.mem_keys.mpr h)
  · intro k _ hk
    rw [ahead_file_of_ne hk]
  · rw [ahead, ahead, if_pos (hreach _), if_pos (hreach _), hoff, hoff, hlines, ← List.drop_drop,
      hdrop, List.drop_left]
    exact (List.perm_append_singleton line _).symm

theorem ahead_of_content_nil (h : t.content k.1 k.2 = []) (c : ShareCursor D F) :
    completeLines 10 (t.ahead c k) = [] := by
  rw [ahead, h, List.drop_nil, ite_self, completeLines_nil]

theorem mkdir_names (t : Tree D F) (d : D) : (t.mkdir d).names = t.names := by
  rw [mkdir]
  split_ifs <;> rfl

theorem mkdir_content (t : Tree D F) (d : D) : (t.mkdir d).content = t.content := by
  rw [mkdir]
  split_ifs <;> rfl

theorem mem_mkdir {t : Tree D F} {d e : D} (h : e ∈ t.dirs) : e ∈ (t.mkdir d).dirs := by
  rw [mkdir]
  split_ifs
  · exact h
  · exact (List.mem_orderedInsert _).mpr (Or.inr h)

/-- An empty directory adds nothing. -/
theorem after_mkdir (t : Tree D F) (d : D) (c : ShareCursor D F) :
    ((t.mkdir d).after c).Perm (t.after c) := by
  have hkeys : (t.mkdir d).keys.Perm t.keys := by
    rw [keys, mkdir_names, mkdir]
    split_ifs with h
    · exact List.Perm.refl _
    · have hempty : t.names d = [] := by
        apply List.eq_nil_iff_forall_not_mem.mpr
        exact fun f hf => h (t.mem_dirs hf)
      have hperm := List.perm_orderedInsert (· ≤ ·) d t.dirs
      refine (hperm.flatMap_right fun d => (t.names d).map fun f => (d, f)).trans ?_
      rw [List.flatMap_cons, hempty]
      exact List.Perm.refl _
  have hahead : ∀ k, (t.mkdir d).ahead c k = t.ahead c k := by
    intro k
    rw [ahead, mkdir_content, ahead]
  rw [after]
  simp only [hahead]
  exact hkeys.flatMap_right fun k => completeLines 10 (t.ahead c k)

theorem create_content (t : Tree D F) (d : D) (f : F) : (t.create d f).content = t.content := by
  rw [create]
  split_ifs <;> rfl

theorem create_dirs (t : Tree D F) (d : D) (f : F) : (t.create d f).dirs = t.dirs := by
  rw [create]
  split_ifs <;> rfl

theorem mem_create {d e : D} {f g : F} (h : g ∈ t.names e) : g ∈ (t.create d f).names e := by
  rw [create]
  split_ifs with hnew
  · show g ∈ update t.names d _ e
    by_cases he : e = d
    · subst he
      rw [update_self]
      exact (List.mem_orderedInsert _).mpr (Or.inr h)
    · rwa [update_of_ne he]
  · exact h

/-- An empty file adds nothing. -/
theorem after_create (t : Tree D F) (d : D) (f : F) (c : ShareCursor D F) :
    ((t.create d f).after c).Perm (t.after c) := by
  have hahead : ∀ k, (t.create d f).ahead c k = t.ahead c k := by
    intro k
    rw [ahead, create_content, ahead]
  rw [after]
  simp only [hahead]
  rw [create]
  split_ifs with h
  · have hkeys : (t.create d f).keys.Perm (t.keys ++ [(d, f)]) := by
      rw [keys, create, dif_pos h]
      refine flatMap_perm_append (x := d) (t.dirs_sorted.imp ne_of_lt) h.1 ?_ ?_
      · intro e _ he
        show (update t.names d _ e).map _ = _
        rw [update_of_ne he]
      · show ((update t.names d _ d).map _).Perm _
        rw [update_self]
        refine ((List.perm_orderedInsert (· ≤ ·) f (t.names d)).map _).trans ?_
        exact (List.perm_append_singleton (d, f) _).symm
    rw [create, dif_pos h] at hkeys
    refine (hkeys.flatMap_right fun k => completeLines 10 (t.ahead c k)).trans ?_
    rw [List.flatMap_append, List.flatMap_singleton,
      ahead_of_content_nil (t.content_nil h.2), List.append_nil]
    exact List.Perm.refl _
  · exact List.Perm.refl _

end Tree

/-! ### The lists of a poll -/

/-- The poll still gets to a file, or the file is behind all that it has listed. -/
def Listed (d : D) (fs : List F) (ds : List D) (k : D × F) : Prop :=
  k.1 = d ∧ k.2 ∈ fs ∨ k.1 ∈ ds ∨ (∀ e ∈ ds, e < k.1) ∧ ∀ g ∈ fs, d < k.1 ∨ d = k.1 ∧ g < k.2

instance (d : D) (fs : List F) (ds : List D) (k : D × F) : Decidable (Listed d fs ds k) :=
  inferInstanceAs (Decidable (_ ∨ _))

/-- What is in a file is not passed over by the poll in progress. -/
def Stage.Unread : Stage D F → D × F → Prop
  | .idle, _ => True
  | .dirs _ ds, k => k.1 ∈ ds ∨ ∀ e ∈ ds, e < k.1
  | .files d fs _ ds, k => Listed d fs ds k
  | .reading d f _ fs ds, k => Listed d (f :: fs) ds k

instance : ∀ (stage : Stage D F) (k : D × F), Decidable (stage.Unread k)
  | .idle, _ => inferInstanceAs (Decidable True)
  | .dirs _ ds, k => inferInstanceAs (Decidable (k.1 ∈ ds ∨ ∀ e ∈ ds, e < k.1))
  | .files d fs _ ds, k => inferInstanceAs (Decidable (Listed d fs ds k))
  | .reading d f _ fs ds, k => inferInstanceAs (Decidable (Listed d (f :: fs) ds k))

/-- A write goes to a file that the cursor, and the poll in progress, have not left behind. -/
def Feed.Ahead (s : Feed D F R) : Event D F → Prop
  | .write d f _ => s.position.Reaches (d, f) ∧ s.stage.Unread (d, f)
  | _ => True

instance (s : Feed D F R) : ∀ e, Decidable (s.Ahead e)
  | .write _ _ _ => inferInstanceAs (Decidable (_ ∧ _))
  | .mkdir _ | .create _ _ | .poll _ | .scan | .deadline => inferInstanceAs (Decidable True)

/-- The lists of a poll that is in a directory. -/
structure InDir (t : Tree D F) (d : D) (fs : List F) (ds : List D) : Prop where
  files_sorted : fs.Pairwise (· < ·)
  dirs_sorted : ds.Pairwise (· < ·)
  later : ∀ e ∈ ds, d < e
  there : ∀ f ∈ fs, f ∈ t.names d

/-- The lists that a stage holds fit the tree and the cursor. -/
def Feed.Lists (s : Feed D F R) : Prop :=
  match s.stage with
  | .idle => s.records = []
  | .dirs first ds =>
    ds.Pairwise (· < ·) ∧
      if first then ds.head? = some s.cursor.dir else ∀ e ∈ ds, s.cursor.dir < e
  | .files d fs off ds =>
    InDir s.tree d fs ds ∧ s.cursor.dir ≤ d ∧ (∀ f ∈ fs, s.cursor.Reaches (d, f)) ∧
      ∀ f ∈ fs.head?, off = s.cursor.offsetIn (d, f)
  | .reading d f _ fs ds => InDir s.tree d (f :: fs) ds

/-- **The balance of the feed**: an expected share has been returned or is ahead. -/
structure Inv (q : Query R U) (s : Feed D F R) : Prop where
  balance : (s.expected.filterMap q.shareOf).Perm
    (s.returned ++ s.records ++ (s.tree.after s.position).filterMap q.shareOf)
  valid : s.tree.Valid s.position
  lists : s.Lists
  unread : ∀ k : D × F, k.2 ∈ s.tree.names k.1 →
    completeLines 10 (s.tree.ahead s.position k) ≠ [] → s.stage.Unread k

variable {q : Query R U} {s : Feed D F R}

/-- An element of a sorted list and what comes after it. -/
theorem mem_dropWhile_ne {α : Type*} [LinearOrder α] {l : List α} (h : l.Pairwise (· < ·)) {x : α}
    (hx : x ∈ l) :
    (l.dropWhile fun y => y ≠ x).head? = some x ∧
      ∀ y, y ∈ l.dropWhile (fun y => y ≠ x) ↔ y ∈ l ∧ x ≤ y := by
  induction l with
  | nil => cases hx
  | cons z l ih =>
    obtain ⟨hz, hl⟩ := List.pairwise_cons.mp h
    by_cases hzx : z = x
    · subst hzx
      rw [List.dropWhile_cons_of_neg (by simp)]
      refine ⟨rfl, fun y => ⟨fun hy => ⟨hy, ?_⟩, fun hy => hy.1⟩⟩
      obtain rfl | hy := List.mem_cons.mp hy
      · exact le_refl _
      · exact le_of_lt (hz y hy)
    · have hxl : x ∈ l := (List.mem_cons.mp hx).resolve_left fun heq => hzx heq.symm
      rw [List.dropWhile_cons_of_pos (by simpa using hzx)]
      refine ⟨(ih hl hxl).1, fun y => ?_⟩
      rw [(ih hl hxl).2 y, List.mem_cons]
      constructor
      · exact fun hy => ⟨Or.inr hy.1, hy.2⟩
      · rintro ⟨rfl | hy, hle⟩
        · exact absurd (hz x hxl) (not_lt.mpr hle)
        · exact ⟨hy, hle⟩

theorem Tree.Valid.mono {t t' : Tree D F} {c : ShareCursor D F} (h : t.Valid c)
    (hdirs : ∀ d ∈ t.dirs, d ∈ t'.dirs) (hnames : ∀ d, ∀ f ∈ t.names d, f ∈ t'.names d)
    (hcontent : ∀ d, ∀ f ∈ t.names d, ∀ off, AtLineStart 10 (t.content d f) off →
      AtLineStart 10 (t'.content d f) off) : t'.Valid c := by
  refine ⟨hdirs _ h.1, fun g hg => ?_⟩
  obtain ⟨hmem, hstart⟩ := h.2 g hg
  exact ⟨hnames _ g hmem, hcontent _ g hmem _ hstart⟩

variable {ds : List D} {fs : List F}

theorem InDir.mono {t t' : Tree D F} (h : InDir t d fs ds)
    (hnames : ∀ f ∈ t.names d, f ∈ t'.names d) : InDir t' d fs ds :=
  ⟨h.files_sorted, h.dirs_sorted, h.later, fun f hf => hnames f (h.there f hf)⟩

/-- The lists fit a tree in which there is more. -/
theorem Feed.Lists.mono {t : Tree D F} (h : s.Lists)
    (hnames : ∀ d, ∀ f ∈ s.tree.names d, f ∈ t.names d) (expected : List Bytes) :
    Feed.Lists { s with tree := t, expected } := by
  unfold Feed.Lists at h ⊢
  dsimp only
  split at h
  case h_1 => exact h
  case h_2 => exact h
  case h_3 => exact ⟨h.1.mono (hnames _), h.2⟩
  case h_4 => exact h.mono (hnames _)

/-- Directories and empty files. -/
theorem Inv.grow {t : Tree D F} (h : Inv q s) (hdirs : ∀ d ∈ s.tree.dirs, d ∈ t.dirs)
    (hnames : ∀ d, ∀ f ∈ s.tree.names d, f ∈ t.names d) (hcontent : t.content = s.tree.content)
    (hafter : ∀ c, (t.after c).Perm (s.tree.after c)) : Inv q { s with tree := t } := by
  refine ⟨?_, ?_, h.lists.mono hnames s.expected, ?_⟩
  · exact h.balance.trans (((hafter _).symm.filterMap _).append_left _)
  · refine h.valid.mono hdirs hnames fun d f _ off hoff => ?_
    rw [hcontent]
    exact hoff
  · intro k hk hlines
    have hahead : t.ahead s.position k = s.tree.ahead s.position k := by
      rw [Tree.ahead, hcontent, Tree.ahead]
    by_cases hold : k.2 ∈ s.tree.names k.1
    · refine h.unread k hold ?_
      rw [← hahead]
      exact hlines
    · refine absurd ?_ hlines
      show completeLines 10 (t.ahead s.position k) = []
      rw [hahead]
      exact Tree.ahead_of_content_nil (s.tree.content_nil hold) _

theorem Inv.write (h : Inv q s) (hf : f ∈ s.tree.names d) (bytes : Bytes)
    (hreach : s.position.Reaches (d, f)) (hunread : s.stage.Unread (d, f)) :
    Inv q { s with
      tree := s.tree.write d f bytes
      expected := s.expected ++ completeLines 10 (tornLine 10 (s.tree.content d f) ++ bytes) } := by
  obtain ⟨hdirs, hnames, hself, hother⟩ := Tree.write_of_mem hf bytes
  have hstart := h.valid.atLineStart (d, f)
  refine ⟨?_, ?_, h.lists.mono ?_ _, ?_⟩
  · have hafter := (Tree.after_write hf bytes hreach hstart).filterMap q.shareOf
    rw [List.filterMap_append] at hafter ⊢
    refine (h.balance.append_right _).trans ?_
    rw [List.append_assoc _ (List.filterMap _ _)]
    exact hafter.symm.append_left _
  · refine h.valid.mono ?_ ?_ ?_
    · intro e he
      rw [hdirs]
      exact he
    · intro e g hg
      rw [hnames]
      exact hg
    · intro e g _ off hoff
      by_cases hk : (e, g) = (d, f)
      · cases hk
        rw [hself]
        exact hoff.append bytes
      · rw [hother (e, g) hk]
        exact hoff
  · intro e g hg
    rw [hnames]
    exact hg
  · intro k hk hlines
    by_cases hkf : k = (d, f)
    · rw [hkf]
      exact hunread
    · refine h.unread k (hnames ▸ hk) ?_
      have hahead : (s.tree.write d f bytes).ahead s.position k = s.tree.ahead s.position k := by
        rw [Tree.ahead, hother k hkf, Tree.ahead]
      rw [← hahead]
      exact hlines

/-! ### A poll -/

theorem Inv.finish (h : Inv q s) : Inv q (s.finish s.position) := by
  refine ⟨?_, h.valid, rfl, fun _ _ _ => trivial⟩
  show (s.expected.filterMap q.shareOf).Perm
    (s.returned ++ s.records ++ [] ++ (s.tree.after s.position).filterMap q.shareOf)
  rw [List.append_nil]
  exact h.balance

/-- A poll starts at the cursor that it is given. -/
theorem Inv.poll (h : Inv q s) (hidle : s.stage = .idle) (limit : Nat) : Inv q (s.poll limit) := by
  have hpos : s.position = s.cursor := by rw [Feed.position, hidle]
  have hvalid : s.tree.Valid s.cursor := hpos ▸ h.valid
  have hrecords : s.records = [] := by
    have hlists := h.lists
    rw [Feed.Lists, hidle] at hlists
    exact hlists
  have hdir : s.cursor.dir ∈ listHeightDirs s.tree (some s.cursor.dir) := by
    apply List.mem_filter.mpr
    exact ⟨hvalid.1, by simp⟩
  have hresolve : ∀ dirs, resolveCursorStart s.tree dirs s.cursor = some s.cursor :=
    fun dirs => if_pos ⟨hvalid.1, fun f hf => (hvalid.2 f hf).1⟩
  have hsorted : (listHeightDirs s.tree (some s.cursor.dir)).Pairwise (· < ·) :=
    s.tree.dirs_sorted.filter _
  obtain ⟨hhead, hmem⟩ := mem_dropWhile_ne hsorted hdir
  rw [Feed.poll]
  simp only [hresolve, if_neg (List.ne_nil_of_mem hdir), if_pos hdir]
  refine ⟨?_, hvalid, ⟨hsorted.sublist (List.dropWhile_sublist _), hhead⟩, ?_⟩
  · have hbalance := h.balance
    rw [hpos, hrecords] at hbalance
    exact hbalance
  · intro k hk hlines
    refine Or.inl ((hmem k.1).mpr ?_)
    -- a file that the cursor does not reach has nothing ahead of it
    have hreach : s.cursor.Reaches k := by
      by_contra hnot
      apply hlines
      show completeLines 10 (s.tree.ahead s.cursor k) = []
      rw [Tree.ahead, if_neg hnot, completeLines_nil]
    have hle : s.cursor.dir ≤ k.1 := by
      obtain hlt | ⟨heq, -⟩ := hreach
      · exact le_of_lt hlt
      · exact le_of_eq heq
    exact ⟨List.mem_filter.mpr ⟨s.tree.mem_dirs hk, by simpa using hle⟩, hle⟩

/-- The first step into a directory. -/
theorem Inv.enter (h : Inv q s) {first : Bool}
    (hstage : s.stage = .dirs first (d :: ds)) {off : Nat}
    (hsub : fs.Sublist (s.tree.names d)) (hreach : ∀ f ∈ fs, s.cursor.Reaches (d, f))
    (hoff : ∀ f ∈ fs.head?, off = s.cursor.offsetIn (d, f)) (hdir : s.cursor.dir ≤ d)
    (hall : ∀ f ∈ s.tree.names d, s.cursor.Reaches (d, f) → f ∈ fs) :
    Inv q { s with stage := .files d fs off ds } := by
  have hpos : s.position = s.cursor := by rw [Feed.position, hstage]
  have hlists := h.lists
  rw [Feed.Lists, hstage] at hlists
  obtain ⟨hlater, hds⟩ := List.pairwise_cons.mp hlists.1
  refine ⟨?_, ?_, ⟨⟨?_, hds, hlater, fun f hf => hsub.subset hf⟩, hdir, hreach, hoff⟩, ?_⟩
  · exact hpos ▸ h.balance
  · exact hpos ▸ h.valid
  · exact (s.tree.names_sorted d).sublist hsub
  · intro k hk hlines
    have hunread := h.unread k hk (hpos ▸ hlines)
    rw [hstage] at hunread
    obtain hmem | hbeyond := hunread
    · obtain heq | hmem := List.mem_cons.mp hmem
      · refine Or.inl ⟨heq, hall k.2 (heq ▸ hk) ?_⟩
        by_contra hnot
        apply hlines
        show completeLines 10 (s.tree.ahead s.cursor k) = []
        have hk' : k = (d, k.2) := by rw [← heq]
        rw [Tree.ahead, hk', if_neg hnot, completeLines_nil]
      · exact Or.inr (Or.inl hmem)
    · refine Or.inr (Or.inr ⟨fun e he => hbeyond e (List.mem_cons_of_mem d he), fun g _ => ?_⟩)
      exact Or.inl (hbeyond d List.mem_cons_self)

/-- The poll comes to a directory: to its own file in that of the cursor, else to the first. -/
theorem Inv.scan_dirs (h : Inv q s) {first : Bool}
    (hstage : s.stage = .dirs first (d :: ds)) : Inv q (s.scan q) := by
  have hpos : s.position = s.cursor := by rw [Feed.position, hstage]
  have hvalid : s.tree.Valid s.cursor := hpos ▸ h.valid
  have hlists := h.lists
  rw [Feed.Lists, hstage] at hlists
  rw [Feed.scan, hstage]
  dsimp only
  cases first with
  | false =>
    -- the directories behind that of the cursor
    have hlt : s.cursor.dir < d := hlists.2 d List.mem_cons_self
    refine h.enter hstage (List.Sublist.refl _) (fun f _ => Or.inl hlt) ?_ (le_of_lt hlt)
      fun f hf _ => hf
    intro f _
    rw [ShareCursor.offsetIn, if_neg fun hk => ne_of_lt hlt hk.1]
  | true =>
    have hdir : d = s.cursor.dir := Option.some.inj hlists.2
    rw [if_pos rfl]
    cases hfile : s.cursor.file with
    | none =>
      refine h.enter hstage (List.Sublist.refl _) ?_ ?_ (le_of_eq hdir.symm) fun f hf _ => hf
      · intro f _
        exact Or.inr ⟨hdir.symm, by simp [hfile]⟩
      · intro f _
        rw [ShareCursor.offsetIn, hfile, if_neg fun hk => Option.some_ne_none f hk.2.symm]
    | some g =>
      have hg : g ∈ s.tree.names d := hdir ▸ (hvalid.2 g hfile).1
      obtain ⟨hhead, hmem⟩ := mem_dropWhile_ne (s.tree.names_sorted d) hg
      dsimp only
      rw [if_pos hg]
      refine h.enter hstage (List.dropWhile_sublist _) ?_ ?_ (le_of_eq hdir.symm) ?_
      · intro f hf
        refine Or.inr ⟨hdir.symm, ?_⟩
        rw [hfile]
        rintro _ ⟨⟩
        exact ((hmem f).mp hf).2
      · intro f hf
        rw [hhead] at hf
        cases hf
        rw [ShareCursor.offsetIn, if_pos ⟨hdir.symm, hfile⟩]
      · intro f hf hreach
        refine (hmem f).mpr ⟨hf, ?_⟩
        obtain hlt | ⟨-, hle⟩ := hreach
        · exact absurd hdir.symm (ne_of_lt hlt)
        · exact hle g hfile

/-- From a file that the cursor reaches on, the cursor and its start are the same. -/
theorem ShareCursor.Reaches.opened {c : ShareCursor D F} {off : Nat}
    (h : c.Reaches (d, f)) (hoff : off = c.offsetIn (d, f))
    (hk : ShareCursor.Reaches ⟨d, some f, off⟩ k) :
    c.Reaches k ∧ c.offsetIn k = ShareCursor.offsetIn ⟨d, some f, off⟩ k := by
  by_cases heq : k = (d, f)
  · rw [heq, ShareCursor.offsetIn.eq_def ⟨d, some f, off⟩, if_pos ⟨rfl, rfl⟩]
    exact ⟨h, hoff.symm⟩
  have hne : ¬ (d = k.1 ∧ some f = some k.2) := by
    rintro ⟨hkd, hkf⟩
    exact heq (Prod.ext hkd.symm (Option.some.inj hkf).symm)
  rw [ShareCursor.offsetIn.eq_def ⟨d, some f, off⟩, if_neg hne]
  obtain hlt | ⟨hd, hle⟩ := h
  · have hck : c.dir < k.1 := by
      obtain hlt' | ⟨hd', -⟩ := hk
      · exact lt_trans hlt hlt'
      · exact lt_of_lt_of_eq hlt hd'
    exact ⟨Or.inl hck, if_neg fun hc => ne_of_lt hck hc.1⟩
  · obtain hlt' | ⟨hd', hle'⟩ := hk
    · have hck : c.dir < k.1 := lt_of_eq_of_lt hd hlt'
      exact ⟨Or.inl hck, if_neg fun hc => ne_of_lt hck hc.1⟩
    · refine ⟨Or.inr ⟨hd.trans hd', fun g hg => le_trans (hle g hg) (hle' f rfl)⟩, if_neg ?_⟩
      -- the file of the cursor is not behind the one that is opened
      rintro ⟨-, hfile⟩
      exact hne ⟨hd', congrArg some (le_antisymm (hle' f rfl) (hle k.2 hfile))⟩

/-- What a poll still gets to is not before the file that it comes to. -/
theorem Listed.reaches {t : Tree D F}
    (hin : InDir t d (f :: fs) ds) (h : Listed d (f :: fs) ds k) (off : Nat) :
    ShareCursor.Reaches ⟨d, some f, off⟩ k := by
  obtain ⟨hd, hmem⟩ | hmem | ⟨-, hbeyond⟩ := h
  · refine Or.inr ⟨hd.symm, ?_⟩
    rintro _ ⟨⟩
    obtain heq | hmem := List.mem_cons.mp hmem
    · exact le_of_eq heq.symm
    · exact le_of_lt ((List.pairwise_cons.mp hin.files_sorted).1 _ hmem)
  · exact Or.inl (hin.later _ hmem)
  · obtain hlt | ⟨hd, hlt⟩ := hbeyond f List.mem_cons_self
    · exact Or.inl hlt
    · refine Or.inr ⟨hd, ?_⟩
      rintro _ ⟨⟩
      exact le_of_lt hlt

/-- The poll opens a file, and passes nothing on its way there. -/
theorem Inv.scan_open (h : Inv q s) {off : Nat} (hstage : s.stage = .files d (f :: fs) off ds) :
    Inv q { s with stage := .reading d f off fs ds } := by
  have hpos : s.position = s.cursor := by rw [Feed.position, hstage]
  have hvalid : s.tree.Valid s.cursor := hpos ▸ h.valid
  have hlists := h.lists
  rw [Feed.Lists, hstage] at hlists
  obtain ⟨hin, -, hreaches, hoff⟩ := hlists
  have hf : f ∈ s.tree.names d := hin.there f List.mem_cons_self
  have hreach : s.cursor.Reaches (d, f) := hreaches f List.mem_cons_self
  have hoff : off = s.cursor.offsetIn (d, f) := hoff f rfl
  have hunread : ∀ k : D × F, k.2 ∈ s.tree.names k.1 →
      completeLines 10 (s.tree.ahead s.cursor k) ≠ [] → Listed d (f :: fs) ds k := by
    intro k hk hlines
    have hunread := h.unread k hk (hpos ▸ hlines)
    rw [hstage] at hunread
    exact hunread
  have hahead : ∀ k : D × F, k.2 ∈ s.tree.names k.1 →
      completeLines 10 (s.tree.ahead s.cursor k) =
        completeLines 10 (s.tree.ahead ⟨d, some f, off⟩ k) := by
    intro k hk
    by_cases hkf : ShareCursor.Reaches ⟨d, some f, off⟩ k
    · obtain ⟨hkc, hsame⟩ := hreach.opened hoff hkf
      rw [Tree.ahead, Tree.ahead, if_pos hkc, if_pos hkf, hsame]
    · rw [Tree.ahead.eq_def _ ⟨d, some f, off⟩, if_neg hkf, completeLines_nil]
      by_contra hlines
      exact hkf ((hunread k hk hlines).reaches hin off)
  refine ⟨?_, ⟨s.tree.mem_dirs hf, ?_⟩, hin, ?_⟩
  · show (s.expected.filterMap q.shareOf).Perm
      (s.returned ++ s.records ++ (s.tree.after ⟨d, some f, off⟩).filterMap q.shareOf)
    rw [← Tree.after_congr hahead]
    exact hpos ▸ h.balance
  · rintro g hg
    cases hg
    refine ⟨hf, ?_⟩
    show AtLineStart 10 (s.tree.content d f) off
    rw [hoff]
    exact hvalid.atLineStart (d, f)
  · intro k hk hlines
    have hlines' : completeLines 10 (s.tree.ahead ⟨d, some f, off⟩ k) ≠ [] := hlines
    rw [← hahead k hk] at hlines'
    exact hunread k hk hlines'

/-- The poll has read a line. -/
theorem Inv.scan_line (h : Inv q s) {pos : Nat}
    (hstage : s.stage = .reading d f pos fs ds) {chunk rest : Bytes}
    (hcut : cutLine 10 ((s.tree.content d f).drop pos) = some (chunk, rest)) :
    Inv q { s with
      records := s.records ++ (q.shareOf chunk).toList
      stage := .reading d f (pos + chunk.length) fs ds } := by
  have hpos : s.position = ⟨d, some f, pos⟩ := by rw [Feed.position, hstage]
  have hlists := h.lists
  rw [Feed.Lists, hstage] at hlists
  have hf : f ∈ s.tree.names d := hlists.there f List.mem_cons_self
  obtain ⟨hdir, hfile⟩ := h.valid
  rw [hpos] at hdir hfile
  refine ⟨?_, ⟨hdir, ?_⟩, hlists, ?_⟩
  · have hbalance := h.balance
    rw [hpos] at hbalance
    refine hbalance.trans ?_
    have hafter := ((s.tree.after_line hf hcut).filterMap q.shareOf).append_left
      (s.returned ++ s.records)
    refine hafter.trans ?_
    have hshare : [chunk].filterMap q.shareOf = (q.shareOf chunk).toList := by
      cases hq : q.shareOf chunk <;> simp [hq]
    rw [List.filterMap_append, hshare]
    show List.Perm _ (s.returned ++ (s.records ++ (q.shareOf chunk).toList) ++
      (s.tree.after ⟨d, some f, pos + chunk.length⟩).filterMap q.shareOf)
    rw [← List.append_assoc s.returned, List.append_assoc (s.returned ++ s.records)]
    exact List.perm_append_comm.append_left _
  · rintro g hg
    cases hg
    exact ⟨hf, (hfile f rfl).2.next hcut⟩
  · intro k hk hlines
    by_cases hkf : k = (d, f)
    · rw [hkf]
      exact Or.inl ⟨rfl, List.mem_cons_self⟩
    · have hunread := h.unread k hk
      rw [hpos, Tree.ahead_file_of_ne hkf pos (pos + chunk.length), hstage] at hunread
      exact hunread hlines

/-- The poll comes to the end of a file. -/
theorem Inv.scan_end (h : Inv q s) {pos : Nat} (hstage : s.stage = .reading d f pos fs ds)
    (hcut : cutLine 10 ((s.tree.content d f).drop pos) = none) :
    Inv q { s with cursor := ⟨d, some f, pos⟩, stage := .files d fs 0 ds } := by
  have hpos : s.position = ⟨d, some f, pos⟩ := by rw [Feed.position, hstage]
  have hin := h.lists
  rw [Feed.Lists, hstage] at hin
  obtain ⟨hbehind, hsorted⟩ := List.pairwise_cons.mp hin.files_sorted
  have hthere : ∀ g ∈ fs, g ∈ s.tree.names d := fun g hg => hin.there g (List.mem_cons_of_mem f hg)
  refine ⟨hpos ▸ h.balance, hpos ▸ h.valid, ?_, ?_⟩
  · refine ⟨⟨hsorted, hin.dirs_sorted, hin.later, hthere⟩, le_refl d, ?_, ?_⟩
    · intro g hg
      refine Or.inr ⟨rfl, ?_⟩
      rintro _ ⟨⟩
      exact le_of_lt (hbehind g hg)
    · intro g hg
      rw [ShareCursor.offsetIn, if_neg]
      rintro ⟨-, heq⟩
      exact absurd (Option.some.inj heq) (ne_of_lt (hbehind g (List.mem_of_mem_head? hg)))
  · intro k hk hlines
    have hunread := h.unread k hk (hpos ▸ hlines)
    rw [hstage] at hunread
    obtain ⟨hd, hmem⟩ | hmem | ⟨hdirs, hbeyond⟩ := hunread
    · refine Or.inl ⟨hd, (List.mem_cons.mp hmem).resolve_left fun hkf => hlines ?_⟩
      -- no complete line is left in the file
      have hk' : k = (d, f) := Prod.ext hd hkf
      have hoff : ShareCursor.offsetIn ⟨d, some f, pos⟩ (d, f) = pos := if_pos ⟨rfl, rfl⟩
      show completeLines 10 (s.tree.ahead ⟨d, some f, pos⟩ k) = []
      rw [hk', Tree.ahead, hoff]
      split_ifs
      · rw [completeLines, lines_of_none hcut]
      · exact completeLines_nil
    · exact Or.inr (Or.inl hmem)
    · exact Or.inr (Or.inr ⟨hdirs, fun g hg => hbeyond g (List.mem_cons_of_mem f hg)⟩)

/-- The poll is through with a directory. -/
theorem Inv.scan_leave (h : Inv q s) {off : Nat}
    (hstage : s.stage = .files d [] off ds) : Inv q { s with stage := .dirs false ds } := by
  have hpos : s.position = s.cursor := by rw [Feed.position, hstage]
  have hlists := h.lists
  rw [Feed.Lists, hstage] at hlists
  obtain ⟨hin, hdir, -⟩ := hlists
  refine ⟨hpos ▸ h.balance, hpos ▸ h.valid, ⟨hin.dirs_sorted, ?_⟩, ?_⟩
  · exact fun e he => lt_of_le_of_lt hdir (hin.later e he)
  · intro k hk hlines
    have hunread := h.unread k hk (hpos ▸ hlines)
    rw [hstage] at hunread
    obtain ⟨-, hmem⟩ | hmem | ⟨hbeyond, -⟩ := hunread
    · cases hmem
    · exact Or.inl hmem
    · exact Or.inr hbeyond

theorem Inv.scan (h : Inv q s) : Inv q (s.scan q) := by
  cases hstage : s.stage with
  | idle =>
    rw [Feed.scan, hstage]
    exact h
  | dirs first ds =>
    cases ds with
    | nil =>
      have hpos : s.position = s.cursor := by rw [Feed.position, hstage]
      rw [Feed.scan, hstage]
      exact hpos ▸ h.finish
    | cons d ds => exact h.scan_dirs hstage
  | files d fs off ds =>
    rw [Feed.scan, hstage]
    cases fs with
    | nil => exact h.scan_leave hstage
    | cons f fs => exact h.scan_open hstage
  | reading d f pos fs ds =>
    rw [Feed.scan, hstage]
    dsimp only
    cases hcut : cutLine 10 ((s.tree.content d f).drop pos) with
    | none => exact h.scan_end hstage hcut
    | some r =>
      obtain ⟨chunk, rest⟩ := r
      have hline := h.scan_line hstage hcut
      dsimp only
      cases hshare : q.shareOf chunk with
      | none =>
        rw [hshare, Option.toList_none, List.append_nil] at hline
        exact hline
      | some rec =>
        rw [hshare] at hline
        dsimp only
        split_ifs
        · exact hline.finish
        · exact hline

/-- One step keeps the balance. -/
theorem Inv.step (h : Inv q s) {e : Event D F} (he : s.Ahead e) : Inv q (s.step q e) := by
  cases e with
  | mkdir d =>
    refine h.grow ?_ ?_ (Tree.mkdir_content s.tree d) fun c => Tree.after_mkdir s.tree d c
    · exact fun _ => Tree.mem_mkdir
    · intro e f hf
      rw [Tree.mkdir_names]
      exact hf
  | create d f =>
    refine h.grow ?_ ?_ (Tree.create_content s.tree d f) fun c => Tree.after_create s.tree d f c
    · intro e he
      rw [Tree.create_dirs]
      exact he
    · exact fun _ _ => Tree.mem_create
  | write d f bytes =>
    rw [Feed.step]
    split_ifs with hf
    · exact h.write hf bytes he.1 he.2
    · exact h
  | poll limit =>
    rw [Feed.step]
    split
    · next hidle => exact h.poll hidle limit
    · exact h
  | scan => exact h.scan
  | deadline =>
    rw [Feed.step]
    split
    · exact h
    · exact h.finish

/-! ### The feed over a run -/

/-- The first cursor has been given, and no poll is on. -/
structure Start (s : Feed D F R) : Prop where
  valid : s.tree.Valid s.cursor
  idle : s.stage = .idle
  records : s.records = []
  returned : s.returned = []
  expected : s.expected = s.tree.after s.cursor

/-- No poll is on, and a next one would find nothing. -/
def CaughtUp (s : Feed D F R) : Prop := s.stage = .idle ∧ s.tree.after s.cursor = []

theorem Start.inv (h : Start s) : Inv q s := by
  have hpos : s.position = s.cursor := by rw [Feed.position, h.idle]
  refine ⟨?_, hpos ▸ h.valid, ?_, ?_⟩
  · rw [h.expected, h.returned, h.records, hpos]
    exact List.Perm.refl _
  · rw [Feed.Lists, h.idle]
    exact h.records
  · intro k _ _
    rw [h.idle]
    trivial

theorem run_inv (h : Start s) {events : List (Event D F)}
    (hahead : Along (Feed.step q) Feed.Ahead s events) : Inv q (run (Feed.step q) s events) :=
  run_invariant (I := fun s : Feed D F R => Inv q s) (fun _ _ he hinv => Inv.step hinv he) hahead
    h.inv

/-- **No gap and no duplicate**, as long as nothing is written behind the cursor: the shares
that the polls have returned, once they have caught up, are those of the lines that have been
completed since the first cursor, each once. -/
theorem shares_exactly_once (q : Query R U) {s : Feed D F R} (h : Start s)
    {events : List (Event D F)} (hahead : Along (Feed.step q) Feed.Ahead s events)
    (hcaught : CaughtUp (run (Feed.step q) s events)) :
    (run (Feed.step q) s events).returned.Perm
      ((run (Feed.step q) s events).expected.filterMap q.shareOf) := by
  obtain ⟨hidle, hafter⟩ := hcaught
  have hinv : Inv q (run (Feed.step q) s events) := run_inv h hahead
  have hrecords := hinv.lists
  rw [Feed.Lists, hidle] at hrecords
  have hpos : (run (Feed.step q) s events).position = (run (Feed.step q) s events).cursor := by
    rw [Feed.position, hidle]
  have hbalance := hinv.balance
  rw [hpos, hafter, hrecords, List.append_nil, List.filterMap_nil, List.append_nil] at hbalance
  exact hbalance.symm

/-- No directory at all. -/
def Tree.empty : Tree D F where
  dirs := []
  names _ := []
  content _ _ := []
  dirs_sorted := List.Pairwise.nil
  names_sorted _ := List.Pairwise.nil
  mem_dirs h := absurd h List.not_mem_nil
  content_nil _ := rfl

/-- Every line is a record of its own. -/
def plainQuery : Query Bytes Unit := ⟨some, fun _ => (), none⟩

/-- Two workbases of one height, and a cursor at the file of the newer one. -/
def twoWorkbases : Feed Nat Nat Bytes where
  tree := ((Tree.empty.mkdir 7).create 7 1).create 7 2
  cursor := ⟨7, some 2, 0⟩
  stage := .idle
  limit := 0
  records := []
  returned := []
  expected := []

/-- A share for the newer workbase, and a poll that reads it. -/
def newerShare : List (Event Nat Nat) :=
  [.write 7 2 [123, 125, 10], .poll 100, .scan, .scan, .scan, .scan, .scan, .scan, .scan]

theorem shares_exactly_once_newer :
    (run (Feed.step plainQuery) twoWorkbases newerShare).returned.Perm
      ((run (Feed.step plainQuery) twoWorkbases newerShare).expected.filterMap
        plainQuery.shareOf) := by
  have hstart : Start twoWorkbases := ⟨by decide +kernel, rfl, rfl, rfl, by decide +kernel⟩
  have hahead : Along (Feed.step plainQuery) Feed.Ahead twoWorkbases newerShare := by
    decide
  exact shares_exactly_once plainQuery hstart hahead ⟨by decide +kernel, by decide +kernel⟩

/-- A share for the older workbase is behind the cursor. -/
theorem older_share_lost :
    ¬ ∀ (q : Query Bytes Unit) (s : Feed Nat Nat Bytes) (events : List (Event Nat Nat)),
        Start s → CaughtUp (run (Feed.step q) s events) →
        (run (Feed.step q) s events).returned.Perm
          ((run (Feed.step q) s events).expected.filterMap q.shareOf) := by
  intro hall
  have hstart : Start twoWorkbases := ⟨by decide +kernel, rfl, rfl, rfl, by decide +kernel⟩
  have h := (hall plainQuery twoWorkbases
    [.write 7 1 [123, 125, 10], .poll 100, .scan, .scan, .scan, .scan, .scan] hstart
    ⟨by decide +kernel, by decide +kernel⟩).length_eq
  revert h
  decide +kernel

end CashStratum.ShareFeed
