/-
CashStratum/LogTail.lean

The tailer of the pool's log (`logtail/tail.go`) and the log that it follows (`proclog` of
`ckpool.c`).

The log may be renamed at any time; the pool goes on writing to the renamed file until it opens
the log again, which makes a new file at the path.  Opening, seeking, reading a line, coming to
the end and looking at the path are steps of their own for the tailer.  It leaves a file when
another is at the path, whatever the file has got since the tailer came to its end: so a line is
lost that is written after the last read of a file and before the look at the path, and so is a
file that comes and goes between two looks.  `Safe` leaves these out, and a first seek into the
middle of a line; `run_inv` says that every line completed since the first open is then passed
on once, in order, or still ahead.

Inodes are numbers in the order in which the files are made.
-/
import CashStratum.ByteString
import CashStratum.Lines
import CashStratum.Run
import Mathlib.Data.List.DropRight

namespace CashStratum.LogTail

/-! ### The log -/

/-- The files of the log: those that the pool has left, the one that it writes to, and whether
that one is still at the path. -/
structure LogFiles where
  old : List Bytes
  cur : Bytes
  atPath : Bool

namespace LogFiles

variable (l : LogFiles)

def files : List Bytes := l.old ++ [l.cur]

/-- The inode of the file at the path. -/
def path : Option Nat := if l.atPath then some l.old.length else none

def content (ino : Nat) : Bytes := l.files.getD ino []

/-- The complete lines of the files from one on. -/
def linesFrom (ino : Nat) : List Bytes := (l.files.drop ino).flatMap (completeLines 10)

/-- `open_logfile` of the writer, between two lines: a new file if none is at the path. -/
def reopen : LogFiles :=
  if l.atPath = false ∧ tornLine 10 l.cur = [] then
    { old := l.old ++ [l.cur], cur := [], atPath := true }
  else l

end LogFiles

/-! ### The tailer -/

/-- A file that the tailer holds open: where its reader is in it, and `partial`, the start of a
line without its end. -/
structure Held where
  ino : Nat
  pos : Nat
  part : Bytes
  lastSize : Nat
  deriving DecidableEq

/-- Where `Run` is. -/
inductive Stage where
  | closed
  /-- `openFile` has opened the file and not yet looked where to start. -/
  | opened (ino : Nat)
  | reading (h : Held)
  /-- At the end of the file, before `os.Stat`. -/
  | statting (h : Held)
  deriving DecidableEq

/-- The log with its tailer.  `completed` is a record that no code reads: the lines that are
completed after the first open. -/
structure Tailer where
  log : LogFiles
  stage : Stage
  prevIno : Option Nat
  healthy : Bool
  passed : List Bytes
  completed : List Bytes

/-- What may happen. -/
inductive Event where
  | write (bytes : Bytes)
  | rename
  | reopen
  | tail

/-- The line that `onLine` gets: without `\r` and `\n` at its end. -/
def trimLine (line : Bytes) : Bytes := line.rdropWhile fun c => c = 13 ∨ c = 10

namespace Tailer

variable (s : Tailer)

/-- The end of `openFile`: at the end of the first file and of one that was held before, else
at the start. -/
def seek (ino : Nat) : Tailer :=
  let size := (s.log.content ino).length
  let pos := if s.prevIno = none ∨ s.prevIno = some ino then size else 0
  { s with
    stage := .reading { ino, pos, part := [], lastSize := size }
    prevIno := some ino
    healthy := true
    completed := if s.prevIno = none then s.log.linesFrom (ino + 1) else s.completed }

/-- `ReadString`, and what is done with what it returns. -/
def read (h : Held) : Tailer :=
  let unread := (s.log.content h.ino).drop h.pos
  match cutLine 10 unread with
  | some (line, _) =>
    { s with
      stage := .reading { h with pos := h.pos + line.length, part := [] }
      passed := s.passed ++ [trimLine (h.part ++ line)] }
  | none =>
    { s with
      stage := .statting { h with pos := h.pos + unread.length, part := h.part ++ unread } }

/-- The check for a rotation or a truncation. -/
def stat (h : Held) : Tailer :=
  match s.log.path with
  | none => { s with stage := .reading h, healthy := false }
  | some ino =>
    let size := (s.log.content ino).length
    if ino ≠ h.ino then { s with stage := .closed }
    else if size < h.lastSize then
      { s with stage := .reading { h with pos := 0, part := [], lastSize := 0 } }
    else { s with stage := .reading { h with lastSize := size }, healthy := true }

/-- What `Run` does next. -/
def tail : Tailer :=
  match s.stage with
  | .closed =>
    match s.log.path with
    | none => { s with healthy := false }
    | some ino => { s with stage := .opened ino }
  | .opened ino => s.seek ino
  | .reading h => s.read h
  | .statting h => s.stat h

/-- One step of the pool or of the tailer. -/
def step : Event → Tailer
  | .write bytes =>
    { s with
      log := { s.log with cur := s.log.cur ++ bytes }
      completed :=
        if s.prevIno = none then s.completed
        else s.completed ++ completeLines 10 (tornLine 10 s.log.cur ++ bytes) }
  | .rename => { s with log := { s.log with atPath := false } }
  | .reopen => { s with log := s.log.reopen }
  | .tail => s.tail

end Tailer

/-! ### What is ahead of the tailer -/

namespace LogFiles

variable {l : LogFiles}

theorem content_cur : l.content l.old.length = l.cur := by
  rw [content, files, List.getD_eq_getElem?_getD, List.getElem?_concat_length]
  rfl

theorem content_old {ino : Nat} (h : ino < l.old.length) : l.content ino = l.old[ino] := by
  rw [content, files, List.getD_eq_getElem?_getD, List.getElem?_append_left h,
    List.getElem?_eq_getElem h]
  rfl

theorem linesFrom_cons {ino : Nat} (h : ino ≤ l.old.length) :
    l.linesFrom ino = completeLines 10 (l.content ino) ++ l.linesFrom (ino + 1) := by
  have hlt : ino < l.files.length := by
    rw [files, List.length_append, List.length_singleton]
    omega
  rw [linesFrom, List.drop_eq_getElem_cons hlt, List.flatMap_cons, content,
    List.getD_eq_getElem?_getD, List.getElem?_eq_getElem hlt]
  rfl

theorem linesFrom_of_lt {ino : Nat} (h : l.old.length < ino) : l.linesFrom ino = [] := by
  rw [linesFrom, List.drop_eq_nil_of_le]
  · rfl
  · rw [files, List.length_append, List.length_singleton]
    exact h

/-- Files without a line may be left out. -/
theorem linesFrom_skip {i j : Nat} (hij : i ≤ j) (hj : j ≤ l.old.length)
    (h : ∀ k, i ≤ k → k < j → completeLines 10 (l.content k) = []) :
    l.linesFrom i = l.linesFrom j := by
  induction j, hij using Nat.le_induction with
  | base => rfl
  | succ j hij ih =>
    rw [ih (by omega) fun k hik hkj => h k hik (by omega), linesFrom_cons (by omega),
      h j hij (Nat.lt_succ_self j)]
    rfl

theorem linesFrom_write {ino : Nat} (h : ino ≤ l.old.length) (bytes : Bytes) :
    LogFiles.linesFrom { l with cur := l.cur ++ bytes } ino =
      l.linesFrom ino ++ completeLines 10 (tornLine 10 l.cur ++ bytes) := by
  have hdrop : ∀ cur : Bytes, (l.old ++ [cur]).drop ino = l.old.drop ino ++ [cur] :=
    fun cur => List.drop_append_of_le_length h
  rw [linesFrom, linesFrom, files, files, hdrop, hdrop, List.flatMap_append, List.flatMap_append,
    List.flatMap_singleton, List.flatMap_singleton, completeLines_append, List.append_assoc]

/-- A new file has no line yet. -/
theorem linesFrom_reopen (ino : Nat) : l.reopen.linesFrom ino = l.linesFrom ino := by
  rw [reopen]
  split_ifs
  · show ((l.files ++ [[]]).drop ino).flatMap (completeLines 10) = l.linesFrom ino
    rw [List.drop_append, List.flatMap_append, linesFrom]
    cases ino - l.files.length with
    | zero =>
      rw [List.drop_zero, List.flatMap_singleton, completeLines_nil, List.append_nil]
    | succ n =>
      rw [List.drop_succ_cons, List.drop_nil, List.flatMap_nil, List.append_nil]
  · rfl

theorem content_reopen {ino : Nat} (h : ino ≤ l.old.length) :
    l.reopen.content ino = l.content ino := by
  rw [reopen]
  split_ifs
  · show (l.files ++ [[]]).getD ino [] = l.files.getD ino []
    have hlt : ino < l.files.length := by
      rw [files, List.length_append, List.length_singleton]
      omega
    rw [List.getD_eq_getElem?_getD, List.getElem?_append_left hlt, List.getD_eq_getElem?_getD]
  · rfl

theorem old_reopen_le : l.old.length ≤ l.reopen.old.length := by
  rw [reopen]
  split_ifs
  · show l.old.length ≤ (l.old ++ [l.cur]).length
    rw [List.length_append]
    exact Nat.le_add_right _ _
  · exact Nat.le_refl _

end LogFiles

/-- The complete lines that the tailer is still to pass on. -/
def Tailer.ahead (s : Tailer) : List Bytes :=
  match s.stage with
  | .closed => s.prevIno.elim [] fun prev => s.log.linesFrom (prev + 1)
  | .opened ino => s.prevIno.elim [] fun _ => s.log.linesFrom ino
  | .reading h | .statting h =>
    completeLines 10 (h.part ++ (s.log.content h.ino).drop h.pos) ++ s.log.linesFrom (h.ino + 1)

/-- A step after which nothing is lost: the tailer leaves a file only when it has read all of
it, opens the next file that has a line, and starts at the end of a line. -/
def Tailer.Safe (s : Tailer) : Event → Prop
  | .tail =>
    match s.stage with
    | .closed => ∀ ino ∈ s.log.path, ∀ prev ∈ s.prevIno, ∀ k < ino, prev < k →
        completeLines 10 (s.log.content k) = []
    | .opened ino => s.prevIno = none → tornLine 10 (s.log.content ino) = []
    | .reading _ => True
    | .statting h => ∀ ino ∈ s.log.path, ino ≠ h.ino →
        (s.log.content h.ino).drop h.pos = []
  | _ => True

instance (s : Tailer) : ∀ e, Decidable (s.Safe e)
  | .tail => by
      unfold Tailer.Safe
      dsimp only
      split <;> infer_instance
  | .write _ | .rename | .reopen => inferInstanceAs (Decidable True)

/-- What is so of a file that the tailer holds. -/
structure HeldOk (s : Tailer) (h : Held) : Prop where
  ino_le : h.ino ≤ s.log.old.length
  prev : s.prevIno = some h.ino
  pos_le : h.pos ≤ (s.log.content h.ino).length
  part : tornLine 10 ((s.log.content h.ino).take h.pos) = h.part
  size_le : h.lastSize ≤ (s.log.content h.ino).length

/-- The stage fits the log. -/
def Tailer.StageOk (s : Tailer) : Prop :=
  match s.stage with
  | .closed => ∀ prev ∈ s.prevIno, prev < s.log.old.length
  | .opened ino => ino ≤ s.log.old.length ∧ ∀ prev ∈ s.prevIno, prev < ino
  | .reading h | .statting h => HeldOk s h

/-- A line that is completed after the first open has been passed on or is ahead. -/
structure Inv (s : Tailer) : Prop where
  balance : s.completed.map trimLine = s.passed ++ s.ahead.map trimLine
  whole : ∀ file ∈ s.log.old, tornLine 10 file = []
  stage : s.StageOk
  fresh : s.prevIno = none → s.passed = []

variable {s : Tailer}

theorem LogFiles.content_write {l : LogFiles} {ino : Nat} (h : ino ≤ l.old.length)
    (bytes : Bytes) : ∃ more, LogFiles.content { l with cur := l.cur ++ bytes } ino =
      l.content ino ++ more ∧ (ino = l.old.length → more = bytes) := by
  obtain heq | hlt := h.eq_or_lt
  · refine ⟨bytes, ?_, fun _ => rfl⟩
    rw [heq]
    refine (content_cur (l := { l with cur := l.cur ++ bytes })).trans ?_
    rw [content_cur]
  · refine ⟨[], ?_, fun heq => absurd heq (Nat.ne_of_lt hlt)⟩
    rw [content_old hlt, List.append_nil]
    exact content_old (l := { l with cur := l.cur ++ bytes }) hlt

/-- Bytes at the end of a file leave what the tailer knows of it. -/
theorem HeldOk.grow {h : Held} (hok : HeldOk s h) {t : Tailer} {more : Bytes}
    (hlen : s.log.old.length ≤ t.log.old.length) (hprev : t.prevIno = s.prevIno)
    (hcontent : t.log.content h.ino = s.log.content h.ino ++ more) : HeldOk t h where
  ino_le := hok.ino_le.trans hlen
  prev := hprev.trans hok.prev
  pos_le := by
    rw [hcontent, List.length_append]
    exact Nat.le_add_right_of_le hok.pos_le
  part := by
    rw [hcontent, List.take_append_of_le_length hok.pos_le]
    exact hok.part
  size_le := by
    rw [hcontent, List.length_append]
    exact Nat.le_add_right_of_le hok.size_le

/-- A log that only grows leaves the stage as it is. -/
theorem Tailer.StageOk.grow {t : Tailer} (h : s.StageOk) (hstage : t.stage = s.stage)
    (hprev : t.prevIno = s.prevIno) (hlen : s.log.old.length ≤ t.log.old.length)
    (hcontent : ∀ ino ≤ s.log.old.length, ∃ more,
      t.log.content ino = s.log.content ino ++ more) : t.StageOk := by
  have hheld : ∀ held, HeldOk s held → HeldOk t held := by
    intro held hok
    obtain ⟨more, hmore⟩ := hcontent held.ino hok.ino_le
    exact hok.grow hlen hprev hmore
  unfold Tailer.StageOk at h ⊢
  rw [hstage]
  cases hs : s.stage with
  | closed =>
    rw [hs] at h
    rw [hprev]
    exact fun prev hp => (h prev hp).trans_le hlen
  | opened ino =>
    rw [hs] at h
    rw [hprev]
    exact ⟨h.1.trans hlen, h.2⟩
  | reading held | statting held =>
    rw [hs] at h
    exact hheld held h

/-- What the tailer holds of a line and what is unread end in the torn line of the file. -/
theorem HeldOk.tornLine_unread {h : Held} (hok : HeldOk s h) :
    tornLine 10 (h.part ++ (s.log.content h.ino).drop h.pos) =
      tornLine 10 (s.log.content h.ino) := by
  conv_rhs => rw [← List.take_append_drop h.pos (s.log.content h.ino), tornLine_append, hok.part]

theorem HeldOk.cutLine_part {h : Held} (hok : HeldOk s h) : cutLine 10 h.part = none := by
  rw [← hok.part]
  exact cutLine_tornLine _

/-- What is written comes to what is ahead. -/
theorem Inv.ahead_write (hinv : Inv s) (bytes : Bytes) (hprev : s.prevIno ≠ none) :
    (s.step (.write bytes)).ahead =
      s.ahead ++ completeLines 10 (tornLine 10 s.log.cur ++ bytes) := by
  have hstage := hinv.stage
  have hheld : ∀ h, HeldOk s h →
      completeLines 10 (h.part ++
          (LogFiles.content { s.log with cur := s.log.cur ++ bytes } h.ino).drop h.pos) ++
        LogFiles.linesFrom { s.log with cur := s.log.cur ++ bytes } (h.ino + 1) =
      completeLines 10 (h.part ++ (s.log.content h.ino).drop h.pos) ++
        s.log.linesFrom (h.ino + 1) ++ completeLines 10 (tornLine 10 s.log.cur ++ bytes) := by
    intro h hok
    obtain ⟨more, hmore, hbytes⟩ := LogFiles.content_write hok.ino_le bytes
    rw [hmore, List.drop_append_of_le_length hok.pos_le, ← List.append_assoc]
    obtain heq | hlt := hok.ino_le.eq_or_lt
    · -- the file that is written to
      rw [LogFiles.linesFrom_of_lt (l := s.log) (by omega),
        LogFiles.linesFrom_of_lt (by show s.log.old.length < h.ino + 1; omega), hbytes heq,
        completeLines_append, hok.tornLine_unread, heq, LogFiles.content_cur]
      simp only [List.append_nil]
    · have hnil : more = [] := by
        have hsame : s.log.content h.ino ++ more = s.log.content h.ino := by
          rw [← hmore, LogFiles.content_old hlt]
          exact LogFiles.content_old (l := { s.log with cur := s.log.cur ++ bytes }) hlt
        exact List.append_right_eq_self.mp hsame
      rw [hnil, List.append_nil, LogFiles.linesFrom_write hlt, List.append_assoc]
  rw [Tailer.StageOk] at hstage
  rw [Tailer.ahead, Tailer.ahead]
  show (match s.stage with | .closed => _ | .opened ino => _ | .reading h | .statting h => _) = _
  cases hs : s.stage with
  | closed =>
    rw [hs] at hstage
    obtain ⟨prev, hp⟩ := Option.ne_none_iff_exists'.mp hprev
    have hlt := hstage prev hp
    show Option.elim s.prevIno [] _ = Option.elim s.prevIno [] _ ++ _
    rw [hp]
    exact LogFiles.linesFrom_write hlt bytes
  | opened ino =>
    rw [hs] at hstage
    obtain ⟨prev, hp⟩ := Option.ne_none_iff_exists'.mp hprev
    show Option.elim s.prevIno [] _ = Option.elim s.prevIno [] _ ++ _
    rw [hp]
    exact LogFiles.linesFrom_write hstage.1 bytes
  | reading h =>
    rw [hs] at hstage
    exact hheld h hstage
  | statting h =>
    rw [hs] at hstage
    exact hheld h hstage

theorem Inv.write (hinv : Inv s) (bytes : Bytes) : Inv (s.step (.write bytes)) := by
  have hstage := hinv.stage
  refine ⟨?_, hinv.whole, ?_, hinv.fresh⟩
  · by_cases hprev : s.prevIno = none
    · -- nothing counts before the first open
      have hahead : (s.step (.write bytes)).ahead = s.ahead := by
        rw [Tailer.StageOk] at hstage
        rw [Tailer.ahead, Tailer.ahead]
        show (match s.stage with
          | .closed => _ | .opened ino => _ | .reading h | .statting h => _) = _
        cases hs : s.stage with
        | closed | opened ino =>
          show Option.elim s.prevIno [] _ = Option.elim s.prevIno [] _
          rw [hprev]
          rfl
        | reading h | statting h =>
          rw [hs] at hstage
          exact absurd (hprev.symm.trans hstage.prev) (Option.some_ne_none _).symm
      rw [hahead]
      show (if s.prevIno = none then s.completed else _).map trimLine = _
      rw [if_pos hprev]
      exact hinv.balance
    · rw [hinv.ahead_write bytes hprev]
      show (if s.prevIno = none then s.completed else _).map trimLine = s.passed ++ _
      rw [if_neg hprev, List.map_append, List.map_append, hinv.balance, List.append_assoc]
  · refine hstage.grow rfl rfl (Nat.le_refl _) fun ino hino => ?_
    obtain ⟨more, hmore, -⟩ := LogFiles.content_write hino bytes
    exact ⟨more, hmore⟩

theorem Inv.reopen (hinv : Inv s) : Inv (s.step .reopen) := by
  have hstage := hinv.stage
  have hheld : ∀ h, HeldOk s h → (s.log.reopen).content h.ino = s.log.content h.ino :=
    fun h hok => LogFiles.content_reopen hok.ino_le
  refine ⟨?_, ?_, ?_, hinv.fresh⟩
  · have hahead : (s.step .reopen).ahead = s.ahead := by
      unfold Tailer.StageOk at hstage
      unfold Tailer.ahead
      show (match s.stage with
        | .closed => _ | .opened ino => _ | .reading h | .statting h => _) = _
      cases hs : s.stage with
      | closed | opened ino =>
        show Option.elim s.prevIno [] _ = Option.elim s.prevIno [] _
        cases s.prevIno with
        | none => rfl
        | some prev => exact LogFiles.linesFrom_reopen _
      | reading h | statting h =>
        rw [hs] at hstage
        show completeLines 10 (h.part ++ (s.log.reopen.content h.ino).drop h.pos) ++
          s.log.reopen.linesFrom (h.ino + 1) = _
        rw [hheld h hstage, LogFiles.linesFrom_reopen]
    rw [hahead]
    exact hinv.balance
  · show ∀ file ∈ s.log.reopen.old, tornLine 10 file = []
    rw [LogFiles.reopen]
    split_ifs with h
    · intro file hfile
      obtain hfile | hfile := List.mem_append.mp hfile
      · exact hinv.whole file hfile
      · rw [List.mem_singleton.mp hfile]
        exact h.2
    · exact hinv.whole
  · refine hstage.grow rfl rfl LogFiles.old_reopen_le fun ino hino => ⟨[], ?_⟩
    rw [List.append_nil]
    exact LogFiles.content_reopen hino

/-! ### The steps of the tailer -/

theorem LogFiles.path_eq {l : LogFiles} {ino : Nat} (h : l.path = some ino) :
    ino = l.old.length := by
  rw [path] at h
  split_ifs at h
  cases h
  rfl

/-- The tailer opens the file at the path, and leaves no line in those before it. -/
theorem Inv.tail_closed (hinv : Inv s) (hs : s.stage = .closed) (hsafe : s.Safe .tail) :
    Inv s.tail := by
  have hstage := hinv.stage
  have hbalance := hinv.balance
  rw [Tailer.StageOk, hs] at hstage
  rw [Tailer.Safe, hs] at hsafe
  rw [Tailer.ahead, hs] at hbalance
  rw [Tailer.tail, hs]
  dsimp only at hbalance ⊢
  cases hpath : s.log.path with
  | none =>
    exact ⟨hbalance, hinv.whole, hstage, hinv.fresh⟩
  | some ino =>
    have hino : ino = s.log.old.length := LogFiles.path_eq hpath
    refine ⟨?_, hinv.whole, ⟨Nat.le_of_eq hino, ?_⟩, hinv.fresh⟩
    · show s.completed.map trimLine =
        s.passed ++ (Option.elim s.prevIno [] fun _ => s.log.linesFrom ino).map trimLine
      cases hprev : s.prevIno with
      | none =>
        rw [hprev] at hbalance
        exact hbalance
      | some prev =>
        have hlt : prev < s.log.old.length := hstage prev hprev
        have hskip : s.log.linesFrom (prev + 1) = s.log.linesFrom ino := by
          apply LogFiles.linesFrom_skip (by omega) (Nat.le_of_eq hino)
          intro k hk hki
          exact hsafe ino hpath prev hprev k hki hk
        rw [hprev] at hbalance
        show s.completed.map trimLine = s.passed ++ (s.log.linesFrom ino).map trimLine
        rw [← hskip]
        exact hbalance
    · intro prev hp
      rw [hino]
      exact hstage prev hp

/-- The tailer starts at the end of the first file, and at the start of every other. -/
theorem Inv.tail_opened (hinv : Inv s) {ino : Nat} (hs : s.stage = .opened ino)
    (hsafe : s.Safe .tail) : Inv (s.seek ino) := by
  have hstage := hinv.stage
  have hbalance := hinv.balance
  rw [Tailer.StageOk, hs] at hstage
  rw [Tailer.Safe, hs] at hsafe
  rw [Tailer.ahead, hs] at hbalance
  dsimp only at hbalance hsafe
  obtain ⟨hino, hprevs⟩ := hstage
  rw [Tailer.seek]
  cases hprev : s.prevIno with
  | none =>
    rw [if_pos (Or.inl rfl), if_pos rfl]
    refine ⟨?_, hinv.whole, ?_, fun h => (Option.some_ne_none ino h).elim⟩
    · show (s.log.linesFrom (ino + 1)).map trimLine = s.passed ++
        (completeLines 10 ([] ++ (s.log.content ino).drop (s.log.content ino).length) ++
          s.log.linesFrom (ino + 1)).map trimLine
      rw [hinv.fresh hprev, List.drop_length, List.append_nil, completeLines_nil]
      rfl
    · refine ⟨hino, rfl, Nat.le_refl _, ?_, Nat.le_refl _⟩
      show tornLine 10 ((s.log.content ino).take (s.log.content ino).length) = []
      rw [List.take_length]
      exact hsafe hprev
  | some prev =>
    have hne : ¬ (some prev = none ∨ some prev = some ino) := by
      rintro (h | h)
      · cases h
      · exact absurd (Option.some.inj h) (Nat.ne_of_lt (hprevs prev hprev))
    rw [if_neg hne, if_neg (Option.some_ne_none prev)]
    refine ⟨?_, hinv.whole, ?_, fun h => (Option.some_ne_none ino h).elim⟩
    · show s.completed.map trimLine = s.passed ++
        (completeLines 10 ([] ++ (s.log.content ino).drop 0) ++
          s.log.linesFrom (ino + 1)).map trimLine
      rw [hprev] at hbalance
      rw [List.nil_append, List.drop_zero, ← LogFiles.linesFrom_cons hino]
      exact hbalance
    · exact ⟨hino, rfl, Nat.zero_le _, tornLine_nil, Nat.le_refl _⟩

/-- A line, or the end of the file. -/
theorem Inv.tail_reading (hinv : Inv s) {h : Held} (hs : s.stage = .reading h) :
    Inv (s.read h) := by
  have hok := hinv.stage
  have hbalance := hinv.balance
  rw [Tailer.StageOk, hs] at hok
  rw [Tailer.ahead, hs] at hbalance
  dsimp only at hok hbalance
  have hpart := hok.cutLine_part
  have hprev : ∀ passed : List Bytes, s.prevIno = none → passed = [] :=
    fun passed hnone => absurd (hnone.symm.trans hok.prev) (Option.some_ne_none _).symm
  rw [Tailer.read]
  cases hcut : cutLine 10 ((s.log.content h.ino).drop h.pos) with
  | some r =>
    obtain ⟨line, rest⟩ := r
    obtain ⟨hdrop, -, hline⟩ := cutLine_line hcut
    have hlen : (s.log.content h.ino).length = h.pos + line.length + rest.length := by
      have := congrArg List.length hdrop
      rw [List.length_drop, List.length_append] at this
      have := hok.pos_le
      omega
    have hrest : (s.log.content h.ino).drop (h.pos + line.length) = rest := by
      rw [← List.drop_drop, hdrop, List.drop_left]
    have hfull : cutLine 10 (h.part ++ (s.log.content h.ino).drop h.pos) =
        some (h.part ++ line, rest) := by
      rw [cutLine_append_of_none hpart, hcut]
      rfl
    refine ⟨?_, hinv.whole, ?_, hprev _⟩
    · show s.completed.map trimLine = s.passed ++ [trimLine (h.part ++ line)] ++
        (completeLines 10 ([] ++ (s.log.content h.ino).drop (h.pos + line.length)) ++
          s.log.linesFrom (h.ino + 1)).map trimLine
      rw [hbalance, (cutLine_line hfull).2.1, hrest, List.append_assoc]
      rfl
    · refine ⟨hok.ino_le, hok.prev, ?_, ?_, hok.size_le⟩
      · show h.pos + line.length ≤ (s.log.content h.ino).length
        omega
      · show tornLine 10 ((s.log.content h.ino).take (h.pos + line.length)) = []
        rw [List.take_add, hdrop, List.take_left, tornLine_append, hok.part]
        exact (cutLine_line hfull).2.2
  | none =>
    have hlen : h.pos + ((s.log.content h.ino).drop h.pos).length =
        (s.log.content h.ino).length := by
      rw [List.length_drop]
      have := hok.pos_le
      omega
    refine ⟨?_, hinv.whole, ?_, hprev _⟩
    · show s.completed.map trimLine = s.passed ++
        (completeLines 10 (h.part ++ (s.log.content h.ino).drop h.pos ++
            (s.log.content h.ino).drop (h.pos + ((s.log.content h.ino).drop h.pos).length)) ++
          s.log.linesFrom (h.ino + 1)).map trimLine
      rw [hlen, List.drop_length, List.append_nil]
      exact hbalance
    · refine ⟨hok.ino_le, hok.prev, Nat.le_of_eq hlen, ?_, hok.size_le⟩
      show tornLine 10 ((s.log.content h.ino).take
        (h.pos + ((s.log.content h.ino).drop h.pos).length)) =
          h.part ++ (s.log.content h.ino).drop h.pos
      rw [hlen, List.take_length, ← hok.tornLine_unread]
      refine (tornLine_of_cutLine ?_).1
      rw [cutLine_append_of_none hpart, hcut]
      rfl

/-- The tailer goes on with its file, or leaves it when it has read all of it. -/
theorem Inv.tail_statting (hinv : Inv s) {h : Held} (hs : s.stage = .statting h)
    (hsafe : s.Safe .tail) : Inv (s.stat h) := by
  have hok := hinv.stage
  have hbalance := hinv.balance
  rw [Tailer.StageOk, hs] at hok
  rw [Tailer.ahead, hs] at hbalance
  rw [Tailer.Safe, hs] at hsafe
  dsimp only at hok hbalance hsafe
  have hprev : s.prevIno = none → s.passed = [] := hinv.fresh
  rw [Tailer.stat]
  cases hpath : s.log.path with
  | none =>
    have hok' : HeldOk { s with stage := .reading h, healthy := false } h :=
      hok.grow (Nat.le_refl _) rfl (List.append_nil _).symm
    exact ⟨hbalance, hinv.whole, hok', hprev⟩
  | some ino =>
    dsimp only
    by_cases hne : ino = h.ino
    · rw [if_neg (not_not.mpr hne), if_neg (Nat.not_lt.mpr (hne ▸ hok.size_le))]
      refine ⟨hbalance, hinv.whole, ?_, hprev⟩
      exact ⟨hok.ino_le, hok.prev, hok.pos_le, hok.part, Nat.le_of_eq (by rw [hne])⟩
    · rw [if_pos hne]
      have hino : ino = s.log.old.length := LogFiles.path_eq hpath
      have hlt : h.ino < s.log.old.length := by
        have := hok.ino_le
        omega
      have hunread : (s.log.content h.ino).drop h.pos = [] := hsafe ino hpath hne
      refine ⟨?_, hinv.whole, ?_, hprev⟩
      · show s.completed.map trimLine =
          s.passed ++
            (Option.elim s.prevIno [] fun prev => s.log.linesFrom (prev + 1)).map trimLine
        rw [hunread, List.append_nil, (tornLine_of_cutLine hok.cutLine_part).2] at hbalance
        rw [hok.prev]
        exact hbalance
      · intro prev hp
        have heq : h.ino = prev := Option.some.inj (hok.prev.symm.trans hp)
        rw [← heq]
        exact hlt

/-- **One step keeps the balance**, if it is safe. -/
theorem Inv.step (hinv : Inv s) {e : Event} (hsafe : s.Safe e) : Inv (s.step e) := by
  cases e with
  | write bytes => exact hinv.write bytes
  | rename =>
    refine ⟨hinv.balance, hinv.whole, hinv.stage.grow rfl rfl (Nat.le_refl _) ?_, hinv.fresh⟩
    exact fun ino _ => ⟨[], (List.append_nil _).symm⟩
  | reopen => exact hinv.reopen
  | tail =>
    show Inv s.tail
    cases hs : s.stage with
    | closed => exact hinv.tail_closed hs hsafe
    | opened ino =>
      rw [Tailer.tail, hs]
      exact hinv.tail_opened hs hsafe
    | reading h =>
      rw [Tailer.tail, hs]
      exact hinv.tail_reading hs
    | statting h =>
      rw [Tailer.tail, hs]
      exact hinv.tail_statting hs hsafe

/-! ### The tailer over a run -/

/-- The tailer has not opened anything. -/
structure Start (s : Tailer) : Prop where
  stage : s.stage = .closed
  prevIno : s.prevIno = none
  passed : s.passed = []
  completed : s.completed = []
  whole : ∀ file ∈ s.log.old, tornLine 10 file = []

/-- The tailer is at the end of the file that the pool writes to. -/
def CaughtUp (s : Tailer) : Prop :=
  match s.stage with
  | .closed | .opened _ => False
  | .reading h | .statting h =>
    h.ino = s.log.old.length ∧ (s.log.content h.ino).drop h.pos = []

instance (s : Tailer) : Decidable (CaughtUp s) := by
  unfold CaughtUp
  split <;> infer_instance

theorem Start.inv (h : Start s) : Inv s := by
  refine ⟨?_, h.whole, ?_, fun _ => h.passed⟩
  · rw [h.completed, h.passed, Tailer.ahead, h.stage, h.prevIno]
    rfl
  · rw [Tailer.StageOk, h.stage, h.prevIno]
    intro prev hp
    cases hp

theorem run_inv (h : Start s) {events : List Event}
    (hsafe : Along Tailer.step Tailer.Safe s events) : Inv (run Tailer.step s events) :=
  run_invariant (I := Inv) (fun _ _ hsafe hinv => Inv.step hinv hsafe) hsafe h.inv

theorem Inv.ahead_of_caughtUp (hinv : Inv s) (h : CaughtUp s) : s.ahead = [] := by
  have hstage := hinv.stage
  have hheld : ∀ held, HeldOk s held → held.ino = s.log.old.length →
      (s.log.content held.ino).drop held.pos = [] →
      completeLines 10 (held.part ++ (s.log.content held.ino).drop held.pos) ++
        s.log.linesFrom (held.ino + 1) = [] := by
    intro held hok hino hunread
    rw [hunread, List.append_nil, (tornLine_of_cutLine hok.cutLine_part).2,
      LogFiles.linesFrom_of_lt (by omega)]
    rfl
  unfold Tailer.StageOk at hstage
  unfold CaughtUp at h
  unfold Tailer.ahead
  cases hs : s.stage with
  | closed | opened ino =>
    rw [hs] at h
    exact h.elim
  | reading held | statting held =>
    rw [hs] at h hstage
    exact hheld held hstage h.1 h.2

/-- **No line is lost over a rotation**, if the steps of the tailer are safe: what has been
passed on is a start of the lines completed since the first open, in their order, and all of
them once the tailer has caught up. -/
theorem lines_passed_once {s : Tailer} (h : Start s) {events : List Event}
    (hsafe : Along Tailer.step Tailer.Safe s events) :
    (run Tailer.step s events).passed <+: (run Tailer.step s events).completed.map trimLine ∧
      (CaughtUp (run Tailer.step s events) →
        (run Tailer.step s events).passed =
          (run Tailer.step s events).completed.map trimLine) := by
  have hinv : Inv (run Tailer.step s events) := run_inv h hsafe
  refine ⟨?_, fun hcaught => ?_⟩
  · rw [hinv.balance]
    exact List.prefix_append _ _
  · rw [hinv.balance, hinv.ahead_of_caughtUp hcaught, List.map_nil, List.append_nil]

/-- A log with a line of history. -/
def history : Tailer where
  log := { old := [], cur := [65, 10], atPath := true }
  stage := .closed
  prevIno := none
  healthy := false
  passed := []
  completed := []

/-- A rotation between two looks at the path, with a line in the renamed file. -/
def rotation : List Event :=
  [.tail, .tail, .tail, .rename, .tail, .write [66, 10], .reopen, .tail, .tail, .tail, .tail, .tail,
    .write [67, 10], .tail]

example : (run Tailer.step history rotation).passed = [[66], [67]] := by decide +kernel

theorem lines_passed_once_rotation :
    (run Tailer.step history rotation).passed <+:
        (run Tailer.step history rotation).completed.map trimLine ∧
      (CaughtUp (run Tailer.step history rotation) →
        (run Tailer.step history rotation).passed =
          (run Tailer.step history rotation).completed.map trimLine) := by
  have hstart : Start history := ⟨rfl, rfl, rfl, rfl, fun file hfile => by cases hfile⟩
  have hsafe : Along Tailer.step Tailer.Safe history rotation := by decide +kernel
  exact lines_passed_once hstart hsafe

/-- The line that the renamed file gets when the tailer has come to its end. -/
theorem line_lost_in_rotation :
    ¬ ∀ (s : Tailer) (events : List Event), Start s → CaughtUp (run Tailer.step s events) →
        (run Tailer.step s events).passed =
          (run Tailer.step s events).completed.map trimLine := by
  intro hall
  have h := congrArg List.length (hall history
    [.tail, .tail, .tail, .rename, .write [66, 10], .reopen, .tail, .tail, .tail, .tail]
    ⟨rfl, rfl, rfl, rfl, fun file hfile => by cases hfile⟩ (by decide +kernel))
  revert h
  decide +kernel

end CashStratum.LogTail
