/-
CashStratum/ShareFeed.lean

The share feed of the API (`readShareLines`, `scanShares` and the cursor of
`ckpool_api_server.go`) over the sharelogs that the pool writes.

The pool makes height directories and files and appends to the files; a poll lists the
directories, then the files of each when it comes to it, and reads each to its end, line by
line.  All of these are steps of their own, so that the pool may write between any two of
them.  `Feed.expected` is a record that no code reads: the complete lines that the first cursor
does not yet cover, and those that are completed later.
-/
import CashStratum.ByteString
import CashStratum.Lines
import CashStratum.Run
import Mathlib.Data.List.Sort
import Mathlib.Data.List.DropRight

namespace CashStratum.ShareFeed

open Function

/-! ### The tree -/

/-- The sharelogs: the height directories and the files of each, in the order of their names,
and what is in the files. -/
structure Tree (D F : Type*) [LinearOrder D] [LinearOrder F] where
  dirs : List D
  names : D → List F
  content : D → F → Bytes
  dirs_sorted : dirs.Pairwise (· < ·)
  names_sorted : ∀ d, (names d).Pairwise (· < ·)
  mem_dirs : ∀ {d f}, f ∈ names d → d ∈ dirs
  content_nil : ∀ {d f}, f ∉ names d → content d f = []

variable {D F R U : Type*} [LinearOrder D] [LinearOrder F] [DecidableEq U]

theorem orderedInsert_sorted {α : Type*} [LinearOrder α] {l : List α} (h : l.Pairwise (· < ·))
    {x : α} (hx : x ∉ l) : (l.orderedInsert (· ≤ ·) x).Pairwise (· < ·) := by
  have hle : (l.orderedInsert (· ≤ ·) x).Pairwise (· ≤ ·) := by
    apply List.Pairwise.orderedInsert
    exact h.imp le_of_lt
  have hnodup : (l.orderedInsert (· ≤ ·) x).Nodup :=
    (List.perm_orderedInsert (· ≤ ·) x l).nodup_iff.mpr
      (List.nodup_cons.mpr ⟨hx, h.imp ne_of_lt⟩)
  exact hle.and hnodup |>.imp fun h => lt_of_le_of_ne h.1 h.2

namespace Tree

variable (t : Tree D F)

/-- A new height directory. -/
def mkdir (d : D) : Tree D F :=
  if h : d ∈ t.dirs then t
  else
    { t with
      dirs := t.dirs.orderedInsert (· ≤ ·) d
      dirs_sorted := orderedInsert_sorted t.dirs_sorted h
      mem_dirs := fun hf => (List.mem_orderedInsert _).mpr (Or.inr (t.mem_dirs hf)) }

/-- `fopen` with `a` makes the file if its directory is there. -/
def create (d : D) (f : F) : Tree D F :=
  if h : d ∈ t.dirs ∧ f ∉ t.names d then
    { t with
      names := update t.names d ((t.names d).orderedInsert (· ≤ ·) f)
      names_sorted := by
        intro e
        by_cases he : e = d
        · subst he
          rw [update_self]
          exact orderedInsert_sorted (t.names_sorted e) h.2
        · rw [update_of_ne he]
          exact t.names_sorted e
      mem_dirs := by
        intro e g hg
        by_cases he : e = d
        · exact he ▸ h.1
        · rw [update_of_ne he] at hg
          exact t.mem_dirs hg
      content_nil := by
        intro e g hg
        apply t.content_nil
        intro hmem
        apply hg
        by_cases he : e = d
        · subst he
          rw [update_self]
          exact (List.mem_orderedInsert _).mpr (Or.inr hmem)
        · rwa [update_of_ne he] }
  else t

/-- Bytes at the end of a file. -/
def write (d : D) (f : F) (bytes : Bytes) : Tree D F :=
  if h : f ∈ t.names d then
    { t with
      content := update t.content d
        (update (t.content d) f (t.content d f ++ bytes))
      content_nil := by
        intro e g hg
        by_cases he : e = d
        · subst he
          have hne : g ≠ f := by
            rintro rfl
            exact hg h
          rw [update_self, update_of_ne hne]
          exact t.content_nil hg
        · rw [update_of_ne he]
          exact t.content_nil hg }
  else t

end Tree

/-! ### The scan -/

/-- `shareCursor`; no file means the start of the directory. -/
structure ShareCursor (D F : Type*) where
  dir : D
  file : Option F
  offset : Nat
  deriving DecidableEq

/-- `listHeightDirs` -/
def listHeightDirs (t : Tree D F) (minDir : Option D) : List D :=
  t.dirs.filter fun d => ∀ m ∈ minDir, m ≤ d

/-- `resolveCursorStart` -/
def resolveCursorStart (t : Tree D F) (dirs : List D) (cur : ShareCursor D F) :
    Option (ShareCursor D F) :=
  if cur.dir ∈ t.dirs ∧ ∀ f ∈ cur.file, f ∈ t.names cur.dir then some cur
  else
    match dirs.find? fun d => cur.dir ≤ d with
    | some d => some ⟨d, none, 0⟩
    | none => dirs.getLast?.map fun d => ⟨d, none, 0⟩

/-- Where a poll is. -/
inductive Stage (D F : Type*) where
  | idle
  /-- It comes to the first of the directories; `first` is for the one of the cursor. -/
  | dirs (first : Bool) (ds : List D)
  /-- It has listed a directory and comes to the first of the files, from an offset. -/
  | files (d : D) (fs : List F) (off : Nat) (ds : List D)
  | reading (d : D) (f : F) (pos : Nat) (fs : List F) (ds : List D)
  deriving DecidableEq

/-- The sharelogs and the one that polls.  `cursor` is what the next poll passes, and the
variable of `scanShares` while one is on. -/
structure Feed (D F R : Type*) [LinearOrder D] [LinearOrder F] where
  tree : Tree D F
  cursor : ShareCursor D F
  stage : Stage D F
  limit : Nat
  records : List R
  returned : List R
  expected : List Bytes

/-- What may happen. -/
inductive Event (D F : Type*) where
  | mkdir (d : D)
  | create (d : D) (f : F)
  | write (d : D) (f : F) (bytes : Bytes)
  | poll (limit : Nat)
  | scan
  | deadline

/-- How `/shares` reads a line: `unmarshal` gives the finished record, and `userFilter` the
usernames that are asked for. -/
structure Query (R U : Type*) where
  unmarshal : Bytes → Option R
  username : R → U
  userFilter : Option (List U)

/-- The record for a line, unless it is blank, malformed or not asked for. -/
def Query.shareOf (q : Query R U) (chunk : Bytes) : Option R :=
  let line := chunk.rdropWhile fun c => c = 13 ∨ c = 10
  if line.all fun c => c = 32 ∨ 9 ≤ c ∧ c ≤ 13 then none
  else (q.unmarshal line).filter fun rec => ∀ users ∈ q.userFilter, q.username rec ∈ users

namespace Feed

variable (q : Query R U) (s : Feed D F R)

/-- The poll returns. -/
def finish (cursor : ShareCursor D F) : Feed D F R :=
  { s with cursor, stage := .idle, records := [], returned := s.returned ++ s.records }

/-- The start of a poll. -/
def poll (limit : Nat) : Feed D F R :=
  let bounded := listHeightDirs s.tree (some s.cursor.dir)
  let dirs := if bounded = [] then listHeightDirs s.tree none else bounded
  match resolveCursorStart s.tree dirs s.cursor with
  | none => s
  | some start =>
    let ds := if start.dir ∈ dirs then dirs.dropWhile fun d => d ≠ start.dir else dirs
    { s with cursor := start, limit, records := [], stage := .dirs true ds }

/-- What the scan does next. -/
def scan : Feed D F R :=
  match s.stage with
  | .idle => s
  | .dirs _ [] => s.finish s.cursor
  | .dirs first (d :: ds) =>
    let files := s.tree.names d
    match if first then s.cursor.file else none with
    | some f =>
      if f ∈ files then
        { s with stage := .files d (files.dropWhile fun g => g ≠ f) s.cursor.offset ds }
      else { s with stage := .files d files 0 ds }
    | none => { s with stage := .files d files 0 ds }
  | .files _ [] _ ds => { s with stage := .dirs false ds }
  | .files d (f :: fs) off ds => { s with stage := .reading d f off fs ds }
  | .reading d f pos fs ds =>
    match cutLine 10 ((s.tree.content d f).drop pos) with
    | none => { s with cursor := ⟨d, some f, pos⟩, stage := .files d fs 0 ds }
    | some (chunk, _) =>
      let pos := pos + chunk.length
      match q.shareOf chunk with
      | none => { s with stage := .reading d f pos fs ds }
      | some rec =>
        let s := { s with records := s.records ++ [rec], stage := .reading d f pos fs ds }
        if s.records.length ≥ s.limit then s.finish ⟨d, some f, pos⟩ else s

/-- Where a scan goes on: in a file at its position, else at the cursor. -/
def position : ShareCursor D F :=
  match s.stage with
  | .reading d f pos _ _ => ⟨d, some f, pos⟩
  | _ => s.cursor

/-- One step of the pool or of the poll. -/
def step : Event D F → Feed D F R
  | .mkdir d => { s with tree := s.tree.mkdir d }
  | .create d f => { s with tree := s.tree.create d f }
  | .write d f bytes =>
    if f ∈ s.tree.names d then
      { s with
        tree := s.tree.write d f bytes
        expected := s.expected ++ completeLines 10 (tornLine 10 (s.tree.content d f) ++ bytes) }
    else s
  | .poll limit =>
    match s.stage with
    | .idle => s.poll limit
    | _ => s
  | .scan => s.scan q
  | .deadline =>
    match s.stage with
    | .idle => s
    | _ => s.finish s.position

end Feed

end CashStratum.ShareFeed
