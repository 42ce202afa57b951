/-
CashStratum/TailFollow.lean

The tailer of cashtop (`tail/tail.go`): a file at a path that grows, and that may be renamed for
another to take its place.

The writer goes on with a renamed file for a while, so that the tailer reads two files then: the
one at the path, and the old one until a deadline.  Each poll tells the complete lines that have
come to both.  A file that is renamed before a poll has opened it is never read, and this is the
one way to lose a line when the renames come one at a time (`tail_exactly_once`).  `Inv` is what
holds between the tailer and the files in between.

A poll is one event: what is written while it reads a file counts as written before or after.
What `start` and `deadline` say of the files is not the tailer's: it is the record by which a
history is judged.
-/
import CashStratum.IndexState
import CashStratum.LibCkpool
import CashStratum.Run
import CashStratum.Sha2
import CashStratum.TailRead

namespace CashStratum.Cashtop.Tail

open Function

/-! ### The tailer -/

/-- The files, by their inodes, what is at the path, and the time. -/
structure Disk where
  files : Nat → Option Bytes
  path : Option Nat
  now : Nat

def Disk.content (d : Disk) (ino : Nat) : Bytes := (d.files ino).getD []

/-- `Tailer`.  `stop` is the end of the drain. -/
structure Tailer where
  cur : Option Source := none
  old : Option Source := none
  stop : Nat := 0
deriving DecidableEq

/-- `headBytes` -/
def headBytes : Nat := 4096

/-- `headHash` -/
def headHash (content : Bytes) (n : Nat) : Bytes := bin2hex (sha256 (content.take n)).bytes

/-- `New`; `none` is `ErrCursorMismatch`. -/
def Tailer.new (d : Disk) : Option Cursor → Option Tailer
  | none => some {}
  | some c =>
    match d.path with
    | none => if c.offset = 0 then some {} else none
    | some ino =>
      let size := (d.content ino).length
      if ino ≠ c.inode ∨ size < c.offset ∨
          headHash (d.content ino) c.headLen.toNat ≠ c.headSHA256 then none
      else some { cur := some ⟨c.inode, c.offset.toNat, size⟩ }

/-- `Cursor` -/
def Tailer.cursor (d : Disk) (t : Tailer) : Cursor :=
  match t.cur with
  | none => {}
  | some s =>
    let headLen := min headBytes s.offset
    { inode := s.ino, offset := s.offset, size := s.size, headLen
      headSHA256 := headHash (d.content s.ino) headLen }

/-- `openNew`, of the file at the path. -/
def openNew (d : Disk) (ino : Nat) : Source := ⟨ino, 0, (d.content ino).length⟩

/-- The first half of `Poll`: the old file, once more at the end of the drain. -/
def Tailer.pollOld (d : Disk) (t : Tailer) : Tailer × List Line :=
  match t.old with
  | none => (t, [])
  | some s =>
    let (s, told) := s.read (d.content s.ino)
    if d.now < t.stop then ({ t with old := some s }, told)
    else
      let (_, last) := s.read (d.content s.ino)
      ({ t with old := none }, told ++ last)

/-- The end of `Poll`. -/
def Tailer.readCur (d : Disk) (t : Tailer) : Tailer × List Line :=
  match t.cur with
  | none => (t, [])
  | some s =>
    let (s, told) := s.read (d.content s.ino)
    ({ t with cur := some s }, told)

/-- The second half of `Poll`: the file at the path. -/
def Tailer.pollPath (drain : Nat) (d : Disk) (t : Tailer) : Tailer × List Line :=
  match d.path with
  | none => t.readCur d
  | some ino =>
    match t.cur with
    | none => Tailer.readCur d { t with cur := some (openNew d ino) }
    | some s =>
      if ino ≠ s.ino then
        -- the old file is finished first, and then kept for late writes
        let (s, told) := s.read (d.content s.ino)
        let (t, more) := Tailer.readCur d
          { old := some s, stop := d.now + drain, cur := some (openNew d ino) }
        (t, told ++ more)
      else if (d.content ino).length < s.offset then
        Tailer.readCur d { t with cur := some { s with offset := 0 } }
      else t.readCur d

/-- `Poll` -/
def Tailer.poll (drain : Nat) (d : Disk) (t : Tailer) : Tailer × List Line :=
  let (t, told) := t.pollOld d
  let (t, more) := t.pollPath drain d
  (t, told ++ more)

/-! ### Histories -/

/-- The disk, a tailer, the lines that this tailer has told and the cursors that any has reported.
`start` is from where on this tailer has to tell the lines of a file, and `deadline` is until when
it reads a renamed one. -/
structure Follow where
  disk : Disk
  tailer : Tailer
  lines : List Line
  cursors : List Cursor
  start : Nat → Option Nat
  deadline : Nat → Option Nat

/-- What happens to the files, and what is done with the tailer.  `resume k` makes another one
from the cursor that was reported as the `k`-th. -/
inductive Event
  | append (ino : Nat) (bytes : Bytes)
  | rename
  | create (ino : Nat)
  | tick (seconds : Nat)
  | poll
  | report
  | restart
  | resume (k : Nat)

namespace Follow

/-- A tailer that is to tell the file at the path from an offset on, and the files to come. -/
def begun (s : Follow) (t : Tailer) (off : Nat) : Follow :=
  { s with
    tailer := t
    lines := []
    start := fun ino => if s.disk.path = some ino then some off else none
    deadline := fun _ => none }

/-- A poll. -/
def poll (drain : Nat) (s : Follow) : Follow :=
  let (t, told) := s.tailer.poll drain s.disk
  { s with
    tailer := t
    lines := s.lines ++ told
    deadline :=
      match t.old with
      | none => s.deadline
      | some old => update s.deadline old.ino (some t.stop) }

/-- One event. -/
def step (drain : Nat) (s : Follow) : Event → Follow
  | .append ino bytes =>
    match s.disk.files ino with
    | none => s
    | some content =>
      { s with
        disk :=
          { s.disk with
            files := update s.disk.files ino (some (content ++ bytes)) } }
  | .rename => { s with disk := { s.disk with path := none } }
  | .create ino =>
    if s.disk.path = none ∧ s.disk.files ino = none then
      { s with
        disk :=
          { s.disk with
            files := update s.disk.files ino (some [])
            path := some ino }
        start := update s.start ino (some 0) }
    else s
  | .tick seconds => { s with disk := { s.disk with now := s.disk.now + seconds } }
  | .poll => s.poll drain
  | .report =>
    if s.tailer.cur.isSome then { s with cursors := s.cursors ++ [s.tailer.cursor s.disk] }
    else s
  | .restart => s.begun {} 0
  | .resume k =>
    match s.cursors[k]? with
    | none => s
    | some c => s.begun ((Tailer.new s.disk (some c)).getD {}) c.offset.toNat

/-- No file, and a tailer that waits for one. -/
def initial : Follow where
  disk := { files := fun _ => none, path := none, now := 0 }
  tailer := {}
  lines := []
  cursors := []
  start := fun _ => none
  deadline := fun _ => none

/-- No line is too long; a renamed file is written to before the deadline only; a file is renamed
when the rename before is noticed and the drain is over; a tailer is resumed on the file of its
cursor. -/
def Allowed (s : Follow) : Event → Prop
  | .append ino bytes =>
    (∀ content ∈ s.disk.files ino, ShortLines (content ++ bytes)) ∧
      (s.disk.path ≠ some ino → ∀ stop ∈ s.deadline ino, s.disk.now < stop)
  | .rename =>
    (∀ src ∈ s.tailer.cur, s.disk.path = some src.ino) ∧
      ((s.tailer.old).isSome = true → s.tailer.stop ≤ s.disk.now)
  | .resume k => ∀ c ∈ s.cursors[k]?, s.disk.path = some c.inode
  | _ => True

/-- A file is renamed after a poll has opened it. -/
def Seen (s : Follow) : Event → Prop
  | .rename => s.tailer.cur.isSome = true
  | _ => True

instance (s : Follow) : ∀ e, Decidable (Allowed s e)
  | .append _ _ => inferInstanceAs (Decidable (_ ∧ _))
  | .rename => inferInstanceAs (Decidable (_ ∧ _))
  | .resume k => inferInstanceAs (Decidable (∀ c ∈ s.cursors[k]?, s.disk.path = some c.inode))
  | .create _ | .tick _ | .poll | .report | .restart => isTrue trivial

instance (s : Follow) : ∀ e, Decidable (Seen s e)
  | .rename => inferInstanceAs (Decidable (_ = true))
  | .append _ _ | .resume _ | .create _ | .tick _ | .poll | .report | .restart => isTrue trivial

/-! ### What was told -/

/-- The tailer has told the lines of a file up to an offset. -/
def Told (s : Follow) (ino p : Nat) : Prop :=
  ∃ content off, s.disk.files ino = some content ∧ s.start ino = some off ∧ off ≤ p ∧
    AtLineStart 10 content off ∧ AtLineStart 10 content p ∧
    s.lines.filter (fun l => l.inode = ino) =
      located ino off (completeLines 10 ((content.take p).drop off))

/-- The tailer has told all the complete lines of a file. -/
def ToldAll (s : Follow) (ino : Nat) : Prop :=
  ∃ p, s.Told ino p ∧ completeLines 10 ((s.disk.content ino).drop p) = []

/-- What holds between the tailer and the files. -/
structure Inv (s : Follow) : Prop where
  short : ∀ ino content, s.disk.files ino = some content → ShortLines content
  path : ∀ ino, s.disk.path = some ino →
    (s.disk.files ino).isSome = true ∧ (s.start ino).isSome = true ∧ s.deadline ino = none
  cur : ∀ src, s.tailer.cur = some src → s.Told src.ino src.offset ∧ s.deadline src.ino = none
  old : ∀ src, s.tailer.old = some src → s.Told src.ino src.offset ∧
    s.deadline src.ino = some s.tailer.stop ∧ s.tailer.cur.isSome = true
  unread : ∀ ino, s.disk.path = some ino → (∀ src ∈ s.tailer.cur, src.ino ≠ ino) →
    s.start ino = some 0 ∧ s.lines.filter (fun l => l.inode = ino) = []
  done : ∀ ino, (s.start ino).isSome = true → s.disk.path ≠ some ino →
    (∀ src ∈ s.tailer.cur, src.ino ≠ ino) → (∀ src ∈ s.tailer.old, src.ino ≠ ino) →
    s.ToldAll ino ∧ ∃ stop ∈ s.deadline ino, stop ≤ s.disk.now
  foreign : ∀ ino, s.start ino = none →
    s.lines.filter (fun l => l.inode = ino) = [] ∧ s.deadline ino = none
  missing : ∀ ino, s.disk.files ino = none → s.start ino = none
  waiting : ∀ src ∈ s.tailer.cur, s.disk.path ≠ some src.ino →
    s.tailer.old.isSome = true → s.tailer.stop ≤ s.disk.now
  cursors : ∀ c ∈ s.cursors, ∃ (content : Bytes) (off : Nat), s.disk.files c.inode = some content ∧
    c.offset = (off : Int) ∧ AtLineStart 10 content off ∧
    c.headLen = ((min headBytes off : Nat) : Int) ∧
    c.headSHA256 = headHash content (min headBytes off)

/-! ### One read -/

section Read

variable {s : Follow} {src : Source} {ino p : Nat}

theorem content_eq {d : Disk} {content : Bytes} (h : d.files ino = some content) :
    d.content ino = content := by
  rw [Disk.content, h]
  rfl

/-- The state after a part of a poll. -/
def after (s : Follow) (t : Tailer) (told : List Line) : Follow :=
  { s with tailer := t, lines := s.lines ++ told }

theorem after_after (s : Follow) (t t' : Tailer) (told more : List Line) :
    (s.after t told).after t' more = s.after t' (told ++ more) := by
  rw [after, after, after, List.append_assoc]

theorem after_nil (s : Follow) : s.after s.tailer [] = s := by
  rw [after, List.append_nil]

/-- Lines of one file are no lines of another. -/
theorem filter_located (ino off : Nat) (ls : List Bytes) (j : Nat) :
    (located ino off ls).filter (fun l => l.inode = j) =
      if j = ino then located ino off ls else [] := by
  split_ifs with hj
  · apply List.filter_eq_self.mpr
    intro l hl
    exact decide_eq_true ((inode_of_mem_located hl).trans hj.symm)
  · apply List.filter_eq_nil_iff.mpr
    intro l hl hino
    exact hj ((of_decide_eq_true hino).symm.trans (inode_of_mem_located hl))

theorem filter_after (s : Follow) (t : Tailer) (ino off : Nat) (ls : List Bytes) (j : Nat) :
    (s.after t (located ino off ls)).lines.filter (fun l => l.inode = j) =
      s.lines.filter (fun l => l.inode = j) ++ if j = ino then located ino off ls else [] := by
  show (s.lines ++ located ino off ls).filter _ = _
  rw [List.filter_append, filter_located]

/-- What a file has beyond a line start is put behind what it has up to there. -/
theorem completeLines_between {content : Bytes} {off p q : Nat} (hoff : off ≤ p) (hpq : p ≤ q)
    (hstart : AtLineStart 10 content off) (hp : AtLineStart 10 content p) :
    completeLines 10 ((content.take q).drop off) =
        completeLines 10 ((content.take p).drop off) ++
          completeLines 10 ((content.take q).drop p) ∧
      off + (completeLines 10 ((content.take p).drop off)).flatten.length = p := by
  have hstartp : AtLineStart 10 (content.take p) off := by
    refine ⟨?_, ?_⟩
    · rw [List.length_take]
      exact le_min hoff hstart.1
    · rw [List.take_take, Nat.min_eq_left hoff]
      exact hstart.2
  have htorn : tornLine 10 ((content.take p).drop off) = [] := by
    rw [hstartp.tornLine_drop]
    exact hp.2
  have hsplit : (content.take q).drop off =
      (content.take p).drop off ++ (content.take q).drop p := by
    have hq : content.take q = content.take p ++ (content.take q).drop p := by
      conv_lhs => rw [← List.take_append_drop p (content.take q)]
      rw [List.take_take, Nat.min_eq_left hpq]
    conv_lhs => rw [hq]
    apply List.drop_append_of_le_length
    rw [List.length_take]
    exact le_min hoff hstart.1
  refine ⟨?_, ?_⟩
  · rw [hsplit, completeLines_append, htorn]
    rfl
  · rw [length_completeLines, lineEnd, htorn, List.length_drop, List.length_take,
      Nat.min_eq_left hp.1]
    simp only [List.length_nil]
    omega

/-- **A read** of a file that was told up to where it begins. -/
theorem Told.read {content : Bytes} (h : s.Told ino p) (hfile : s.disk.files ino = some content)
    (t : Tailer) :
    (s.after t (located ino p (completeLines 10 (content.drop p)))).Told ino
        (p + lineEnd 10 (content.drop p)) ∧
      completeLines 10 (content.drop (p + lineEnd 10 (content.drop p))) = [] := by
  obtain ⟨content', off, hfile', hstart, hle, hoff, hp, hlines⟩ := h
  obtain rfl := Option.some.inj (hfile.symm.trans hfile')
  set stop := p + lineEnd 10 (content.drop p) with hstop
  obtain ⟨hatstop, -⟩ := hp.at_lineEnd (some : Bytes → Option Bytes)
  obtain ⟨htaken, hcomplete⟩ := @lines_take_lineEnd UInt8 _ 10 (content.drop p)
  have hend : (content.take stop).drop p = (content.drop p).take (lineEnd 10 (content.drop p)) := by
    rw [List.drop_take, hstop, Nat.add_sub_cancel_left]
  obtain ⟨hbetween, hlen⟩ := completeLines_between hle (Nat.le_add_right p _) hoff hp
  refine ⟨⟨content, off, hfile, hstart, by omega, hoff, hatstop, ?_⟩, ?_⟩
  · rw [filter_after, if_pos rfl, hlines, hbetween, located_append, hlen, hend, hcomplete]
  · have hrest : completeLines 10 (content.drop p) =
        completeLines 10 ((content.drop p).take (lineEnd 10 (content.drop p))) ++
          completeLines 10 (content.drop stop) := by
      conv_lhs =>
        rw [← List.take_append_drop (lineEnd 10 (content.drop p)) (content.drop p),
          completeLines_append, htaken, List.nil_append, List.drop_drop]
    rw [hcomplete] at hrest
    exact List.append_cancel_left (hrest.symm.trans (List.append_nil _).symm)

/-- The lines of other files stay. -/
theorem Told.frame {j : Nat} (h : s.Told j p) (hj : j ≠ ino) (t : Tailer) (off : Nat)
    (ls : List Bytes) : (s.after t (located ino off ls)).Told j p := by
  obtain ⟨content, first, hfile, hstart, hle, hfirst, hp, hlines⟩ := h
  refine ⟨content, first, hfile, hstart, hle, hfirst, hp, ?_⟩
  rw [filter_after, if_neg hj, List.append_nil, hlines]

theorem ToldAll.frame {j : Nat} (h : s.ToldAll j) (hj : j ≠ ino) (t : Tailer) (off : Nat)
    (ls : List Bytes) : (s.after t (located ino off ls)).ToldAll j := by
  obtain ⟨q, htold, hrest⟩ := h
  exact ⟨q, htold.frame hj t off ls, hrest⟩

theorem Told.ne_of_not_started {j : Nat} (h : s.Told ino p) (hj : s.start j = none) : j ≠ ino := by
  rintro rfl
  obtain ⟨content, off, -, hstart, -⟩ := h
  rw [hj] at hstart
  cases hstart

/-- A file of which nothing is told yet. -/
theorem told_zero (hfile : (s.disk.files ino).isSome = true) (hstart : s.start ino = some 0)
    (hlines : s.lines.filter (fun l => l.inode = ino) = []) : s.Told ino 0 := by
  obtain ⟨content, hcontent⟩ := Option.isSome_iff_exists.mp hfile
  refine ⟨content, 0, hcontent, hstart, le_rfl, atLineStart_zero _, atLineStart_zero _, ?_⟩
  rw [hlines, List.take_zero, List.drop_nil, completeLines_nil]
  rfl

/-- A read of the tailer, from where it told a file up to. -/
theorem Told.read_eq (h : s.Told src.ino src.offset) (hinv : Inv s) :
    ∃ content, s.disk.files src.ino = some content ∧
      src.read (s.disk.content src.ino) =
        ({ src with
            offset := src.offset + lineEnd 10 (content.drop src.offset)
            size := content.length },
          located src.ino src.offset (completeLines 10 (content.drop src.offset))) := by
  obtain ⟨content, off, hfile, -, -, -, hp, -⟩ := h
  refine ⟨content, hfile, ?_⟩
  rw [content_eq hfile]
  exact Tail.read_eq hp (hinv.short _ _ hfile)

/-- The two files that are read are not the same. -/
theorem Inv.old_ne_cur (h : Inv s) {old : Source} (hcur : s.tailer.cur = some src)
    (hold : s.tailer.old = some old) : old.ino ≠ src.ino := by
  intro heq
  have hstop := (h.old old hold).2.1
  rw [heq, (h.cur src hcur).2] at hstop
  cases hstop

/-- **The file that is followed is read.** -/
theorem Inv.read_cur (h : Inv s) (hcur : s.tailer.cur = some src) :
    Inv (s.after { s.tailer with cur := some (src.read (s.disk.content src.ino)).1 }
        (src.read (s.disk.content src.ino)).2) ∧
      completeLines 10 ((s.disk.content src.ino).drop
        (src.read (s.disk.content src.ino)).1.offset) = [] := by
  obtain ⟨htold, hdeadline⟩ := h.cur src hcur
  obtain ⟨content, hfile, hread⟩ := htold.read_eq h
  rw [hread, content_eq hfile]
  set t : Tailer := { s.tailer with cur := some { src with
    offset := src.offset + lineEnd 10 (content.drop src.offset), size := content.length } }
  obtain ⟨hnow, hrest⟩ := htold.read hfile t
  refine ⟨⟨h.short, h.path, ?_, ?_, ?_, ?_, ?_, h.missing, ?_, h.cursors⟩, hrest⟩
  · rintro _ ⟨⟩
    exact ⟨hnow, hdeadline⟩
  · intro old hold
    obtain ⟨htoldold, hstop, -⟩ := h.old old hold
    exact ⟨htoldold.frame (h.old_ne_cur hcur hold) _ _ _, hstop, rfl⟩
  · intro ino hpath hother
    have hne : ino ≠ src.ino := (hother _ rfl).symm
    obtain ⟨hstart, hlines⟩ := h.unread ino hpath
      (fun src' hsrc' => Option.some.inj (hcur.symm.trans hsrc') ▸ hne.symm)
    refine ⟨hstart, ?_⟩
    rw [filter_after, if_neg hne, hlines]
    rfl
  · intro ino hstart hpath hother hold
    have hne : ino ≠ src.ino := (hother _ rfl).symm
    obtain ⟨hall, hdone⟩ := h.done ino hstart hpath
      (fun src' hsrc' => Option.some.inj (hcur.symm.trans hsrc') ▸ hne.symm) hold
    exact ⟨hall.frame hne _ _ _, hdone⟩
  · intro ino hstart
    have hne : ino ≠ src.ino := htold.ne_of_not_started hstart
    obtain ⟨hlines, hnone⟩ := h.foreign ino hstart
    refine ⟨?_, hnone⟩
    rw [filter_after, if_neg hne, hlines]
    rfl
  · rintro _ ⟨⟩ hpath hold
    exact h.waiting src hcur hpath hold

/-- **The old file is read.** -/
theorem Inv.read_old (h : Inv s) (hold : s.tailer.old = some src) :
    Inv (s.after { s.tailer with old := some (src.read (s.disk.content src.ino)).1 }
        (src.read (s.disk.content src.ino)).2) ∧
      completeLines 10 ((s.disk.content src.ino).drop
        (src.read (s.disk.content src.ino)).1.offset) = [] := by
  obtain ⟨htold, hdeadline, hcursome⟩ := h.old src hold
  obtain ⟨content, hfile, hread⟩ := htold.read_eq h
  rw [hread, content_eq hfile]
  set t : Tailer := { s.tailer with old := some { src with
    offset := src.offset + lineEnd 10 (content.drop src.offset), size := content.length } }
  obtain ⟨hnow, hrest⟩ := htold.read hfile t
  refine ⟨⟨h.short, h.path, ?_, ?_, ?_, ?_, ?_, h.missing, ?_, h.cursors⟩, hrest⟩
  · intro cur hcur
    obtain ⟨htoldcur, hnone⟩ := h.cur cur hcur
    exact ⟨htoldcur.frame (h.old_ne_cur hcur hold).symm _ _ _, hnone⟩
  · rintro _ ⟨⟩
    exact ⟨hnow, hdeadline, hcursome⟩
  · intro ino hpath hother
    have hne : ino ≠ src.ino := by
      rintro rfl
      rw [(h.path _ hpath).2.2] at hdeadline
      cases hdeadline
    obtain ⟨hstart, hlines⟩ := h.unread ino hpath hother
    refine ⟨hstart, ?_⟩
    rw [filter_after, if_neg hne, hlines]
    rfl
  · intro ino hstart hpath hother hold'
    have hne : ino ≠ src.ino := (hold' _ rfl).symm
    obtain ⟨hall, hdone⟩ := h.done ino hstart hpath hother
      (fun src' hsrc' => Option.some.inj (hold.symm.trans hsrc') ▸ hne.symm)
    exact ⟨hall.frame hne _ _ _, hdone⟩
  · intro ino hstart
    have hne : ino ≠ src.ino := htold.ne_of_not_started hstart
    obtain ⟨hlines, hnone⟩ := h.foreign ino hstart
    refine ⟨?_, hnone⟩
    rw [filter_after, if_neg hne, hlines]
    rfl
  · intro cur hcur hpath _
    exact h.waiting cur hcur hpath (by rw [hold]; rfl)

/-- The old file is let go at the end of the drain, when it is told to its end. -/
theorem Inv.drop_old (h : Inv s) (hold : s.tailer.old = some src)
    (hrest : completeLines 10 ((s.disk.content src.ino).drop src.offset) = [])
    (hstop : s.tailer.stop ≤ s.disk.now) :
    Inv (s.after { s.tailer with old := none } []) := by
  obtain ⟨htold, hdeadline, -⟩ := h.old src hold
  have hlines : (s.after { s.tailer with old := none } []).lines = s.lines := List.append_nil _
  have hsame : ∀ ino p, s.Told ino p →
      (s.after { s.tailer with old := none } []).Told ino p := by
    rintro ino p ⟨content, off, hfile, hstart, hle, hoff, hp, htoldlines⟩
    exact ⟨content, off, hfile, hstart, hle, hoff, hp, hlines.symm ▸ htoldlines⟩
  refine ⟨h.short, h.path, ?_, ?_, ?_, ?_, ?_, h.missing, ?_, h.cursors⟩
  · intro cur hcur
    exact ⟨hsame _ _ (h.cur cur hcur).1, (h.cur cur hcur).2⟩
  · rintro _ ⟨⟩
  · intro ino hpath hother
    rw [hlines]
    exact h.unread ino hpath hother
  · intro ino hstart hpath hother _
    by_cases hino : ino = src.ino
    · subst hino
      exact ⟨⟨src.offset, hsame _ _ htold, hrest⟩, s.tailer.stop, hdeadline, hstop⟩
    · obtain ⟨⟨p, hp, hall⟩, hdone⟩ := h.done ino hstart hpath hother
        (fun src' hsrc' => Option.some.inj (hold.symm.trans hsrc') ▸ Ne.symm hino)
      exact ⟨⟨p, hsame _ _ hp, hall⟩, hdone⟩
  · intro ino hstart
    rw [hlines]
    exact h.foreign ino hstart
  · rintro cur hcur hpath ⟨⟩

end Read

/-! ### One poll -/

section Poll

variable {s : Follow} {src : Source} {drain : Nat}

/-- The old file is read to its end, and let go after the drain. -/
theorem Inv.pollOld (h : Inv s) :
    Inv (s.after (s.tailer.pollOld s.disk).1 (s.tailer.pollOld s.disk).2) ∧
      (s.tailer.pollOld s.disk).1.cur = s.tailer.cur ∧
      (∀ src ∈ (s.tailer.pollOld s.disk).1.old,
        completeLines 10 ((s.disk.content src.ino).drop src.offset) = [] ∧
          s.disk.now < (s.tailer.pollOld s.disk).1.stop) := by
  cases hold : s.tailer.old with
  | none =>
    rw [Tailer.pollOld, hold]
    refine ⟨?_, rfl, ?_⟩
    · rw [after_nil]
      exact h
    · intro src hsrc
      rw [hold] at hsrc
      cases hsrc
  | some src =>
    rw [Tailer.pollOld, hold]
    dsimp only
    obtain ⟨hread, hrest⟩ := h.read_old hold
    split_ifs with hstop
    · refine ⟨hread, rfl, ?_⟩
      rintro _ ⟨⟩
      exact ⟨hrest, hstop⟩
    · -- the last read
      obtain ⟨hagain, hrest'⟩ := hread.read_old rfl
      have hdropped := hagain.drop_old rfl hrest' (Nat.not_lt.mp hstop)
      rw [after_after, after_after, List.append_nil] at hdropped
      refine ⟨hdropped, rfl, ?_⟩
      rintro _ ⟨⟩

/-- A tailer that follows a file, and then reads it. -/
theorem Inv.readCur (h : Inv s) :
    Inv (s.after (s.tailer.readCur s.disk).1 (s.tailer.readCur s.disk).2) ∧
      (s.tailer.readCur s.disk).1.old = s.tailer.old ∧
      (s.tailer.readCur s.disk).1.stop = s.tailer.stop ∧
      (s.tailer.readCur s.disk).1.cur.map Source.ino = s.tailer.cur.map Source.ino ∧
      (∀ src ∈ (s.tailer.readCur s.disk).1.cur,
        completeLines 10 ((s.disk.content src.ino).drop src.offset) = []) := by
  cases hcur : s.tailer.cur with
  | none =>
    rw [Tailer.readCur, hcur]
    refine ⟨?_, rfl, rfl, ?_, ?_⟩
    · rw [after_nil]
      exact h
    · rw [hcur]
    · intro src hsrc
      rw [hcur] at hsrc
      cases hsrc
  | some src =>
    rw [Tailer.readCur, hcur]
    obtain ⟨hread, hrest⟩ := h.read_cur hcur
    refine ⟨hread, rfl, rfl, rfl, ?_⟩
    rintro _ ⟨⟩
    exact hrest

/-- The file at the path is opened, when none was followed. -/
theorem Inv.open_first (h : Inv s) (hcur : s.tailer.cur = none) {ino : Nat}
    (hpath : s.disk.path = some ino) :
    Inv (s.after { s.tailer with cur := some (openNew s.disk ino) } []) := by
  obtain ⟨hfile, -, hdeadline⟩ := h.path ino hpath
  have hnocur : ∀ (P : Source → Prop), ∀ src ∈ s.tailer.cur, P src := by
    rw [hcur]
    rintro P src ⟨⟩
  have hnoold : s.tailer.old = none := by
    by_contra hne
    obtain ⟨old, hold⟩ := Option.ne_none_iff_exists'.mp hne
    have hsome := (h.old old hold).2.2
    rw [hcur] at hsome
    cases hsome
  obtain ⟨hstart, hlines⟩ := h.unread ino hpath (hnocur _)
  have hsame : (s.after { s.tailer with cur := some (openNew s.disk ino) } []).lines = s.lines :=
    List.append_nil _
  refine ⟨h.short, h.path, ?_, ?_, ?_, ?_, ?_, h.missing, ?_, h.cursors⟩
  · rintro _ ⟨⟩
    exact ⟨told_zero hfile hstart (hsame.symm ▸ hlines), hdeadline⟩
  · intro old hold
    have hnone : some old = none := hold.symm.trans hnoold
    cases hnone
  · intro ino' hpath' hother
    have hino : ino = ino' := Option.some.inj (hpath.symm.trans hpath')
    exact absurd hino (hother _ rfl)
  · intro ino' hstart' hpath' _ hold
    obtain ⟨⟨p, ⟨content, off, hp⟩, hall⟩, hdone⟩ := h.done ino' hstart' hpath' (hnocur _) hold
    rw [← hsame] at hp
    exact ⟨⟨p, ⟨content, off, hp⟩, hall⟩, hdone⟩
  · intro ino' hstart'
    rw [hsame]
    exact h.foreign ino' hstart'
  · rintro _ ⟨⟩ hpath'
    exact absurd hpath hpath'

/-- What a poll writes down of the file that it drains. -/
def noted (s : Follow) : Follow :=
  { s with
    deadline :=
      match s.tailer.old with
      | none => s.deadline
      | some old => update s.deadline old.ino (some s.tailer.stop) }

/-- It is written down once. -/
theorem Inv.noted_eq (h : Inv s) : s.noted = s := by
  cases hold : s.tailer.old with
  | none =>
    rw [noted, hold]
  | some old =>
    have hsame : update s.deadline old.ino (some s.tailer.stop) = s.deadline := by
      rw [← (h.old old hold).2.1]
      exact update_eq_self _ _
    rw [noted, hold]
    dsimp only
    rw [hsame]

/-- **The file that was followed is drained**, and the one at the path is opened. -/
theorem Inv.rotate (h : Inv s) (hcur : s.tailer.cur = some src) (hold : s.tailer.old = none)
    {ino : Nat} (hpath : s.disk.path = some ino) (hino : ino ≠ src.ino) (stop : Nat) :
    Inv (s.after { old := some src, stop, cur := some (openNew s.disk ino) } []).noted := by
  obtain ⟨hfile, -, hdeadline⟩ := h.path ino hpath
  obtain ⟨htold, hnone⟩ := h.cur src hcur
  obtain ⟨hstart, hlines⟩ := h.unread ino hpath
    (fun src' hsrc' => Option.some.inj (hcur.symm.trans hsrc') ▸ hino.symm)
  set s' := (s.after { old := some src, stop, cur := some (openNew s.disk ino) } []).noted
  have hsame : s'.lines = s.lines := List.append_nil _
  have hother : ∀ j, j ≠ src.ino → s'.deadline j = s.deadline j :=
    fun j hj => update_of_ne hj _ _
  refine ⟨h.short, ?_, ?_, ?_, ?_, ?_, ?_, h.missing, ?_, h.cursors⟩
  · intro ino' hpath'
    obtain rfl : ino = ino' := Option.some.inj (hpath.symm.trans hpath')
    obtain ⟨hfile', hstart', hdeadline'⟩ := h.path ino hpath
    exact ⟨hfile', hstart', (hother ino hino).trans hdeadline'⟩
  · rintro _ ⟨⟩
    exact ⟨told_zero hfile hstart (hsame.symm ▸ hlines), (hother ino hino).trans hdeadline⟩
  · rintro _ ⟨⟩
    obtain ⟨content, off, htold⟩ := htold
    rw [← hsame] at htold
    exact ⟨⟨content, off, htold⟩, update_self .., rfl⟩
  · intro ino' hpath' hother'
    have hino' : ino = ino' := Option.some.inj (hpath.symm.trans hpath')
    exact absurd hino' (hother' _ rfl)
  · intro ino' hstart' hpath' _ hold'
    have hne : src.ino ≠ ino' := hold' src rfl
    obtain ⟨⟨p, ⟨content, off, hp⟩, hall⟩, hdone⟩ := h.done ino' hstart' hpath'
      (fun src' hsrc' => Option.some.inj (hcur.symm.trans hsrc') ▸ hne)
      (by rw [hold]; rintro _ ⟨⟩)
    rw [← hsame] at hp
    exact ⟨⟨p, ⟨content, off, hp⟩, hall⟩, (hother ino' hne.symm).symm ▸ hdone⟩
  · intro ino' hstart'
    have hne : ino' ≠ src.ino := htold.ne_of_not_started hstart'
    obtain ⟨hlines', hnone'⟩ := h.foreign ino' hstart'
    exact ⟨hsame.symm ▸ hlines', (hother ino' hne).trans hnone'⟩
  · rintro _ ⟨⟩ hpath'
    exact absurd hpath hpath'

/-- The files that are open are told to their ends, and the one at the path is open. -/
structure CaughtUp (s : Follow) : Prop where
  cur : ∀ src ∈ s.tailer.cur, completeLines 10 ((s.disk.content src.ino).drop src.offset) = []
  old : ∀ src ∈ s.tailer.old, completeLines 10 ((s.disk.content src.ino).drop src.offset) = []
  path : ∀ ino, s.disk.path = some ino → ∃ src ∈ s.tailer.cur, src.ino = ino

/-- Every file whose lines are to be told is told to its end then. -/
theorem CaughtUp.toldAll (hall : s.CaughtUp) (h : Inv s) {ino : Nat}
    (hstart : (s.start ino).isSome = true) : s.ToldAll ino := by
  by_cases hcur : ∃ src ∈ s.tailer.cur, src.ino = ino
  · obtain ⟨src, hsrc, rfl⟩ := hcur
    exact ⟨src.offset, (h.cur src hsrc).1, hall.cur src hsrc⟩
  by_cases hold : ∃ src ∈ s.tailer.old, src.ino = ino
  · obtain ⟨src, hsrc, rfl⟩ := hold
    exact ⟨src.offset, (h.old src hsrc).1, hall.old src hsrc⟩
  have hnotcur : ∀ src ∈ s.tailer.cur, src.ino ≠ ino := fun src hsrc hino => hcur ⟨src, hsrc, hino⟩
  have hnotold : ∀ src ∈ s.tailer.old, src.ino ≠ ino := fun src hsrc hino => hold ⟨src, hsrc, hino⟩
  have hpath : s.disk.path ≠ some ino := fun hpath => hcur (hall.path ino hpath)
  exact (h.done ino hstart hpath hnotcur hnotold).1

/-- What a poll has done when it has read the file that it follows last. -/
theorem Inv.readCur_all (h : Inv s)
    (hold : ∀ src ∈ s.tailer.old,
      completeLines 10 ((s.disk.content src.ino).drop src.offset) = [])
    (hpath : ∀ ino, s.disk.path = some ino → ∃ src ∈ s.tailer.cur, src.ino = ino) :
    let s' := s.after (s.tailer.readCur s.disk).1 (s.tailer.readCur s.disk).2
    Inv s' ∧ s'.CaughtUp := by
  obtain ⟨hread, hsameold, -, hino, hall⟩ := h.readCur
  refine ⟨hread, hall, ?_, ?_⟩
  · intro src hsrc
    have hsrc' : src ∈ (s.tailer.readCur s.disk).1.old := hsrc
    rw [hsameold] at hsrc'
    exact hold src hsrc'
  · intro ino hino'
    obtain ⟨src, hsrc, rfl⟩ := hpath ino hino'
    rw [Option.mem_def.mp hsrc, Option.map_some] at hino
    obtain ⟨src', hsrc', hsame⟩ := Option.map_eq_some_iff.mp hino
    exact ⟨src', hsrc', hsame⟩

theorem Inv.noted_all (h : Inv s ∧ s.CaughtUp) : Inv s.noted ∧ s.noted.CaughtUp := by
  rwa [h.1.noted_eq]

/-- What is drained is written down before the file at the path is read, or behind. -/
theorem noted_after {t t' : Tailer} (hold : t'.old = t.old) (hstop : t'.stop = t.stop)
    (told more : List Line) :
    (s.after t' (told ++ more)).noted = ((s.after t told).noted).after t' more := by
  have hlines : s.lines ++ (told ++ more) = s.lines ++ told ++ more := (List.append_assoc ..).symm
  simp only [noted, after, hold, hstop, hlines]

/-- A poll that finds another file at the path. -/
theorem Inv.rotate_all (h : Inv s) (hcur : s.tailer.cur = some src) (hold : s.tailer.old = none)
    {ino : Nat} (hpath : s.disk.path = some ino) (hino : ino ≠ src.ino) (stop : Nat) :
    let t : Tailer :=
      { old := some (src.read (s.disk.content src.ino)).1, stop
        cur := some (openNew s.disk ino) }
    let s' := (s.after (t.readCur s.disk).1
      ((src.read (s.disk.content src.ino)).2 ++ (t.readCur s.disk).2)).noted
    Inv s' ∧ s'.CaughtUp := by
  intro t
  obtain ⟨hread, hrest⟩ := h.read_cur hcur
  have hrotated := hread.rotate rfl hold hpath hino stop
  rw [after_after, List.append_nil] at hrotated
  obtain ⟨-, hsameold, hsamestop, -⟩ := hrotated.readCur
  have hnoted : (s.after (t.readCur s.disk).1
        ((src.read (s.disk.content src.ino)).2 ++ (t.readCur s.disk).2)).noted =
      ((s.after t (src.read (s.disk.content src.ino)).2).noted).after (t.readCur s.disk).1
        (t.readCur s.disk).2 := noted_after hsameold hsamestop _ _
  rw [hnoted]
  apply hrotated.readCur_all
  · rintro _ ⟨⟩
    exact hrest
  · intro ino' hino'
    obtain rfl : ino = ino' := Option.some.inj (hpath.symm.trans hino')
    exact ⟨_, rfl, rfl⟩

variable (drain) in
/-- **The second half of a poll.** -/
theorem Inv.pollPath (h : Inv s)
    (hold : ∀ src ∈ s.tailer.old,
      completeLines 10 ((s.disk.content src.ino).drop src.offset) = [] ∧
        s.disk.now < s.tailer.stop) :
    let s' := (s.after (s.tailer.pollPath drain s.disk).1
      (s.tailer.pollPath drain s.disk).2).noted
    Inv s' ∧ s'.CaughtUp := by
  have hallold := fun src hsrc => (hold src hsrc).1
  cases hpath : s.disk.path with
  | none =>
    rw [Tailer.pollPath, hpath]
    apply Inv.noted_all
    apply h.readCur_all hallold
    rw [hpath]
    rintro ino ⟨⟩
  | some ino =>
    cases hcur : s.tailer.cur with
    | none =>
      rw [Tailer.pollPath, hpath, hcur]
      have hopen := h.open_first hcur hpath
      have hall := hopen.readCur_all hallold (by
        intro ino' hino'
        obtain rfl : ino = ino' := Option.some.inj (hpath.symm.trans hino')
        exact ⟨_, rfl, rfl⟩)
      rw [after_after, List.nil_append] at hall
      exact Inv.noted_all hall
    | some src =>
      rw [Tailer.pollPath, hpath, hcur]
      dsimp only
      split_ifs with hino hsize
      · -- no other file is drained at a rename
        have hnoold : s.tailer.old = none := by
          by_contra hne
          obtain ⟨old, hsome⟩ := Option.ne_none_iff_exists'.mp hne
          have hother : s.disk.path ≠ some src.ino :=
            fun hp => hino (Option.some.inj (hpath.symm.trans hp))
          have hwait := h.waiting src hcur hother (by rw [hsome]; rfl)
          exact absurd (hold old hsome).2 (Nat.not_lt.mpr hwait)
        exact h.rotate_all hcur hnoold hpath hino (s.disk.now + drain)
      · -- a file does not shrink
        obtain ⟨⟨content, off, hfile, -, -, -, hp, -⟩, -⟩ := h.cur src hcur
        obtain rfl : ino = src.ino := not_not.mp hino
        rw [content_eq hfile] at hsize
        exact absurd hp.1 (Nat.not_le.mpr hsize)
      · apply Inv.noted_all
        apply h.readCur_all hallold
        intro ino' hino'
        obtain rfl : ino = ino' := Option.some.inj (hpath.symm.trans hino')
        exact ⟨src, hcur, (not_not.mp hino).symm⟩

/-- **One poll** keeps the invariant, and has then told all that can be told. -/
theorem Inv.poll (h : Inv s) : Inv (s.poll drain) ∧ (s.poll drain).CaughtUp := by
  obtain ⟨hold, -, hdrained⟩ := h.pollOld
  have hall := hold.pollPath drain hdrained
  rwa [after_after] at hall

end Poll

/-! ### What happens to the files -/

section Files

variable {s : Follow} {ino p : Nat} {bytes content : Bytes}

/-- The state when a file has grown. -/
def grown (s : Follow) (ino : Nat) (content : Bytes) : Follow :=
  { s with disk := { s.disk with files := update s.disk.files ino (some content) } }

theorem grown_self (s : Follow) (ino : Nat) (content : Bytes) :
    (s.grown ino content).disk.files ino = some content := update_self ..

theorem grown_of_ne (s : Follow) {ino j : Nat} (hj : j ≠ ino) (content : Bytes) :
    (s.grown ino content).disk.files j = s.disk.files j := update_of_ne hj ..

/-- What was told stays so when a file grows. -/
theorem Told.grown (h : s.Told ino p) {j : Nat} (hfile : s.disk.files j = some content)
    (bytes : Bytes) : (s.grown j (content ++ bytes)).Told ino p := by
  obtain ⟨content', off, hfile', hstart, hle, hoff, hp, hlines⟩ := h
  by_cases hj : ino = j
  · subst hj
    obtain rfl := Option.some.inj (hfile.symm.trans hfile')
    refine ⟨content ++ bytes, off, grown_self .., hstart, hle, hoff.append bytes,
      hp.append bytes, ?_⟩
    rw [List.take_append_of_le_length hp.1]
    exact hlines
  · exact ⟨content', off, (s.grown_of_ne hj _).trans hfile', hstart, hle, hoff, hp, hlines⟩

theorem headHash_append {n : Nat} (hn : n ≤ content.length) (bytes : Bytes) :
    headHash (content ++ bytes) n = headHash content n := by
  rw [headHash, headHash, List.take_append_of_le_length hn]

theorem Inv.grown (h : Inv s) (hfile : s.disk.files ino = some content)
    (hshort : ShortLines (content ++ bytes))
    (hlate : s.disk.path ≠ some ino → ∀ stop ∈ s.deadline ino, s.disk.now < stop) :
    Inv (s.grown ino (content ++ bytes)) := by
  have hsome : ∀ j, (s.disk.files j).isSome = true →
      ((s.grown ino (content ++ bytes)).disk.files j).isSome = true := by
    intro j hj
    by_cases hino : j = ino
    · subst hino
      exact congrArg Option.isSome (s.grown_self j _)
    · exact (congrArg Option.isSome (s.grown_of_ne hino _)).trans hj
  refine ⟨?_, ?_, ?_, ?_, h.unread, ?_, h.foreign, ?_, h.waiting, ?_⟩
  · intro j content' hj
    by_cases hino : j = ino
    · subst hino
      obtain rfl := Option.some.inj ((s.grown_self j _).symm.trans hj)
      exact hshort
    · exact h.short j content' ((s.grown_of_ne hino _).symm.trans hj)
  · intro j hj
    obtain ⟨hfilej, hrest⟩ := h.path j hj
    exact ⟨hsome j hfilej, hrest⟩
  · intro src hsrc
    obtain ⟨htold, hrest⟩ := h.cur src hsrc
    exact ⟨htold.grown hfile bytes, hrest⟩
  · intro src hsrc
    obtain ⟨htold, hrest⟩ := h.old src hsrc
    exact ⟨htold.grown hfile bytes, hrest⟩
  · intro j hstart hpath hcur hold
    obtain ⟨⟨q, htold, hall⟩, stop, hstop, hover⟩ := h.done j hstart hpath hcur hold
    -- nothing is written to it any more
    have hino : j ≠ ino := by
      rintro rfl
      exact absurd (hlate hpath stop hstop) (Nat.not_lt.mpr hover)
    refine ⟨⟨q, htold.grown hfile bytes, ?_⟩, stop, hstop, hover⟩
    rwa [Disk.content, s.grown_of_ne hino]
  · intro j hj
    apply h.missing
    by_contra hne
    have hpresent := hsome j (Option.isSome_iff_ne_none.mpr hne)
    rw [hj] at hpresent
    cases hpresent
  · intro c hc
    obtain ⟨content', off, hfile', hoff, hat, hlen, hhash⟩ := h.cursors c hc
    by_cases hino : c.inode = ino
    · rw [hino] at hfile'
      obtain rfl := Option.some.inj (hfile.symm.trans hfile')
      refine ⟨content ++ bytes, off, ?_, hoff, hat.append bytes, hlen, ?_⟩
      · rw [hino]
        exact s.grown_self ino _
      · rw [headHash_append ((Nat.min_le_right _ _).trans hat.1)]
        exact hhash
    · exact ⟨content', off, (s.grown_of_ne hino _).trans hfile', hoff, hat, hlen, hhash⟩

theorem Inv.renamed (h : Inv s)
    (hpath : ∀ src ∈ s.tailer.cur, s.disk.path = some src.ino)
    (hwait : s.tailer.old.isSome = true → s.tailer.stop ≤ s.disk.now)
    (hseen : s.tailer.cur.isSome = true) :
    Inv { s with disk := { s.disk with path := none } } := by
  obtain ⟨src, hsrc⟩ := Option.isSome_iff_exists.mp hseen
  refine ⟨h.short, ?_, h.cur, h.old, ?_, ?_, h.foreign, h.missing, ?_, h.cursors⟩
  · rintro ino ⟨⟩
  · rintro ino ⟨⟩
  · intro ino hstart _ hcur hold
    have hino : s.disk.path ≠ some ino := by
      intro hp
      exact hcur src hsrc (Option.some.inj ((hpath src hsrc).symm.trans hp))
    exact h.done ino hstart hino hcur hold
  · intro _ _ _
    exact hwait

/-- The state when a file is made at the path. -/
def created (s : Follow) (ino : Nat) : Follow :=
  { s with
    disk :=
      { s.disk with
        files := update s.disk.files ino (some [])
        path := some ino }
    start := update s.start ino (some 0) }

theorem created_self (s : Follow) (ino : Nat) :
    (s.created ino).disk.files ino = some [] ∧ (s.created ino).start ino = some 0 :=
  ⟨update_self .., update_self ..⟩

theorem created_of_ne (s : Follow) {ino j : Nat} (hj : j ≠ ino) :
    (s.created ino).disk.files j = s.disk.files j ∧ (s.created ino).start j = s.start j :=
  ⟨update_of_ne hj .., update_of_ne hj ..⟩

theorem Told.created (h : s.Told ino p) {j : Nat} (hj : s.disk.files j = none) :
    (s.created j).Told ino p := by
  obtain ⟨content, off, hfile, hstart, hrest⟩ := h
  have hne : ino ≠ j := by
    rintro rfl
    rw [hj] at hfile
    cases hfile
  obtain ⟨hfiles, hstarts⟩ := s.created_of_ne hne
  exact ⟨content, off, hfiles.trans hfile, hstarts.trans hstart, hrest⟩

theorem Inv.created (h : Inv s) (hpath : s.disk.path = none) (hfile : s.disk.files ino = none) :
    Inv (s.created ino) := by
  obtain ⟨hlines, hdeadline⟩ := h.foreign ino (h.missing ino hfile)
  have hfiles := fun j (hj : j ≠ ino) => (s.created_of_ne hj).1
  have hstarts := fun j (hj : j ≠ ino) => (s.created_of_ne hj).2
  obtain ⟨hempty, hzero⟩ := s.created_self ino
  refine ⟨?_, ?_, ?_, ?_, ?_, ?_, ?_, ?_, ?_, ?_⟩
  · intro j content hj
    by_cases hino : j = ino
    · subst hino
      obtain rfl := Option.some.inj (hempty.symm.trans hj)
      exact ⟨by simp [completeLines_nil], by simp [tornLine_nil]⟩
    · exact h.short j content ((hfiles j hino).symm.trans hj)
  · intro j hj
    obtain rfl : ino = j := Option.some.inj hj
    exact ⟨congrArg Option.isSome hempty, congrArg Option.isSome hzero, hdeadline⟩
  · intro src hsrc
    obtain ⟨htold, hrest⟩ := h.cur src hsrc
    exact ⟨htold.created hfile, hrest⟩
  · intro src hsrc
    obtain ⟨htold, hrest⟩ := h.old src hsrc
    exact ⟨htold.created hfile, hrest⟩
  · intro j hj _
    obtain rfl : ino = j := Option.some.inj hj
    exact ⟨hzero, hlines⟩
  · intro j hstart hj hcur hold
    have hne : j ≠ ino := by
      rintro rfl
      exact hj rfl
    have hnotpath : s.disk.path ≠ some j := by
      rw [hpath]
      rintro ⟨⟩
    obtain ⟨⟨q, htold, hall⟩, hdone⟩ := h.done j ((hstarts j hne) ▸ hstart) hnotpath hcur hold
    refine ⟨⟨q, htold.created hfile, ?_⟩, hdone⟩
    rwa [Disk.content, hfiles j hne]
  · intro j hj
    have hne : j ≠ ino := by
      rintro rfl
      have hsome : some 0 = none := hzero.symm.trans hj
      cases hsome
    exact h.foreign j ((hstarts j hne).symm.trans hj)
  · intro j hj
    have hne : j ≠ ino := by
      rintro rfl
      have hsome : some [] = none := hempty.symm.trans hj
      cases hsome
    exact (hstarts j hne).trans (h.missing j ((hfiles j hne).symm.trans hj))
  · intro src hsrc _ hold
    apply h.waiting src hsrc ?_ hold
    rw [hpath]
    rintro ⟨⟩
  · intro c hc
    obtain ⟨content, off, hcfile, hrest⟩ := h.cursors c hc
    have hne : c.inode ≠ ino := by
      rintro heq
      rw [heq, hfile] at hcfile
      cases hcfile
    exact ⟨content, off, (hfiles _ hne).trans hcfile, hrest⟩

theorem Inv.ticked (h : Inv s) (seconds : Nat) :
    Inv { s with disk := { s.disk with now := s.disk.now + seconds } } := by
  refine ⟨h.short, h.path, h.cur, h.old, h.unread, ?_, h.foreign, h.missing, ?_, h.cursors⟩
  · intro ino hstart hpath hcur hold
    obtain ⟨hall, stop, hstop, hover⟩ := h.done ino hstart hpath hcur hold
    exact ⟨hall, stop, hstop, Nat.le_add_right_of_le hover⟩
  · intro src hsrc hpath hold
    exact Nat.le_add_right_of_le (h.waiting src hsrc hpath hold)

end Files

/-! ### Cursors -/

section Cursors

variable {s : Follow}

theorem Inv.reported (h : Inv s) {src : Source} (hcur : s.tailer.cur = some src) :
    Inv { s with cursors := s.cursors ++ [s.tailer.cursor s.disk] } := by
  refine ⟨h.short, h.path, h.cur, h.old, h.unread, h.done, h.foreign, h.missing, h.waiting, ?_⟩
  intro c hc
  rcases List.mem_append.mp hc with hc | hc
  · exact h.cursors c hc
  · obtain rfl := List.mem_singleton.mp hc
    obtain ⟨⟨content, off, hfile, -, -, -, hp, -⟩, -⟩ := h.cur src hcur
    rw [Tailer.cursor, hcur]
    refine ⟨content, src.offset, hfile, rfl, hp, rfl, ?_⟩
    show headHash (s.disk.content src.ino) _ = _
    rw [content_eq hfile]

/-- A new tailer begins at the file that is at the path. -/
theorem Inv.begun (h : Inv s) {t : Tailer} {off : Nat} (hold : t.old = none)
    (hcur : ∀ src, t.cur = some src → s.disk.path = some src.ino ∧ src.offset = off ∧
      AtLineStart 10 (s.disk.content src.ino) off)
    (hzero : t.cur = none → off = 0 ∨ s.disk.path = none) :
    Inv (s.begun t off) := by
  have hstart : ∀ ino, s.disk.path = some ino → (s.begun t off).start ino = some off :=
    fun ino hino => if_pos hino
  refine ⟨h.short, ?_, ?_, ?_, ?_, ?_, ?_, ?_, ?_, h.cursors⟩
  · intro ino hino
    exact ⟨(h.path ino hino).1, congrArg Option.isSome (hstart ino hino), rfl⟩
  · intro src hsrc
    obtain ⟨hino, hoffset, hat⟩ := hcur src hsrc
    obtain ⟨content, hcontent⟩ := Option.isSome_iff_exists.mp (h.path _ hino).1
    rw [content_eq hcontent] at hat
    refine ⟨⟨content, off, hcontent, hstart _ hino, hoffset.ge, hat, hoffset ▸ hat, ?_⟩, rfl⟩
    rw [hoffset, List.drop_take_self, completeLines_nil]
    rfl
  · intro src hsrc
    have hnone : some src = none := hsrc.symm.trans hold
    cases hnone
  · intro ino hino hother
    refine ⟨?_, rfl⟩
    cases htcur : t.cur with
    | none =>
      rcases hzero htcur with rfl | hnone
      · exact hstart ino hino
      · have hsome : some ino = none := hino.symm.trans hnone
        cases hsome
    | some src =>
      have hsrc := (hcur src htcur).1
      exact absurd (Option.some.inj (hsrc.symm.trans hino)) (hother src htcur)
  · intro ino hstarted hpath
    have hnot : (s.begun t off).start ino = none := if_neg hpath
    rw [hnot] at hstarted
    cases hstarted
  · intro ino _
    exact ⟨rfl, rfl⟩
  · intro ino hfile
    apply if_neg
    intro hpath
    have hsome := (h.path ino hpath).1
    rw [show s.disk.files ino = none from hfile] at hsome
    cases hsome
  · intro src hsrc hpath
    exact absurd (hcur src hsrc).1 hpath

/-- A cursor is taken up again on its file. -/
theorem Inv.resumed (h : Inv s) {c : Cursor} (hc : c ∈ s.cursors)
    (hpath : s.disk.path = some c.inode) :
    Inv (s.begun ((Tailer.new s.disk (some c)).getD {}) c.offset.toNat) := by
  obtain ⟨content, off, hfile, hoff, hat, hlen, hhash⟩ := h.cursors c hc
  have hnat : c.offset.toNat = off := by omega
  have hnew : Tailer.new s.disk (some c) =
      some { cur := some ⟨c.inode, off, content.length⟩ } := by
    rw [Tailer.new, hpath]
    dsimp only
    rw [content_eq hfile, if_neg, hnat]
    rintro (hino | hsize | hhead)
    · exact hino rfl
    · have hle := hat.1
      omega
    · apply hhead
      rw [hlen, Int.toNat_natCast, hhash]
  rw [hnew, hnat]
  apply h.begun rfl
  · rintro _ ⟨⟩
    rw [content_eq hfile]
    exact ⟨hpath, rfl, hat⟩
  · rintro ⟨⟩

end Cursors

/-! ### Runs -/

theorem inv_initial : Inv initial := by
  refine ⟨?_, ?_, ?_, ?_, ?_, ?_, ?_, ?_, ?_, ?_⟩
  · rintro ino content ⟨⟩
  · rintro ino ⟨⟩
  · rintro src ⟨⟩
  · rintro src ⟨⟩
  · rintro ino ⟨⟩
  · rintro ino ⟨⟩
  · exact fun _ _ => ⟨rfl, rfl⟩
  · exact fun _ _ => rfl
  · rintro src ⟨⟩
  · rintro c ⟨⟩

/-- **One event** keeps the invariant. -/
theorem Inv.step {drain : Nat} {s : Follow} (h : Inv s) {e : Event} (hallowed : Allowed s e)
    (hseen : Seen s e) : Inv (s.step drain e) := by
  cases e with
  | append ino bytes =>
    cases hfile : s.disk.files ino with
    | none =>
      rw [Follow.step, hfile]
      exact h
    | some content =>
      rw [Follow.step, hfile]
      exact h.grown hfile (hallowed.1 content hfile) hallowed.2
  | rename => exact h.renamed hallowed.1 hallowed.2 hseen
  | create ino =>
    rw [Follow.step]
    split_ifs with hnew
    · exact h.created hnew.1 hnew.2
    · exact h
  | tick seconds => exact h.ticked seconds
  | poll => exact h.poll.1
  | report =>
    rw [Follow.step]
    split_ifs with hcur
    · obtain ⟨src, hsrc⟩ := Option.isSome_iff_exists.mp hcur
      exact h.reported hsrc
    · exact h
  | restart =>
    apply h.begun rfl
    · rintro src ⟨⟩
    · exact fun _ => .inl rfl
  | resume k =>
    cases hk : s.cursors[k]? with
    | none =>
      rw [Follow.step, hk]
      exact h
    | some c =>
      rw [Follow.step, hk]
      exact h.resumed (List.mem_of_getElem? hk) (hallowed c hk)

section Lines

variable {s : Follow} {ino off : Nat}

/-- In every state the lines of a file are told up to somewhere. -/
theorem Inv.told (h : Inv s) (hstart : s.start ino = some off) : ∃ p, s.Told ino p := by
  have hsome : (s.start ino).isSome = true := by
    rw [hstart]
    rfl
  by_cases hcur : ∃ src ∈ s.tailer.cur, src.ino = ino
  · obtain ⟨src, hsrc, rfl⟩ := hcur
    exact ⟨src.offset, (h.cur src hsrc).1⟩
  by_cases hold : ∃ src ∈ s.tailer.old, src.ino = ino
  · obtain ⟨src, hsrc, rfl⟩ := hold
    exact ⟨src.offset, (h.old src hsrc).1⟩
  have hnotcur : ∀ src ∈ s.tailer.cur, src.ino ≠ ino := fun src hsrc hino => hcur ⟨src, hsrc, hino⟩
  have hnotold : ∀ src ∈ s.tailer.old, src.ino ≠ ino := fun src hsrc hino => hold ⟨src, hsrc, hino⟩
  by_cases hpath : s.disk.path = some ino
  · obtain ⟨hzero, hlines⟩ := h.unread ino hpath hnotcur
    exact ⟨0, told_zero (h.path ino hpath).1 hzero hlines⟩
  · obtain ⟨⟨p, htold, -⟩, -⟩ := h.done ino hsome hpath hnotcur hnotold
    exact ⟨p, htold⟩

theorem Told.lines {p : Nat} (h : s.Told ino p) (hstart : s.start ino = some off) :
    off ≤ p ∧ AtLineStart 10 (s.disk.content ino) p ∧
      s.lines.filter (fun l => l.inode = ino) =
        located ino off (completeLines 10 (((s.disk.content ino).take p).drop off)) := by
  obtain ⟨content, off', hfile, hstart', hle, -, hp, hlines⟩ := h
  obtain rfl := Option.some.inj (hstart.symm.trans hstart')
  rw [content_eq hfile]
  exact ⟨hle, hp, hlines⟩

theorem ToldAll.lines (h : s.ToldAll ino) (hstart : s.start ino = some off) :
    s.lines.filter (fun l => l.inode = ino) =
      located ino off (completeLines 10 ((s.disk.content ino).drop off)) := by
  obtain ⟨p, ⟨content, off', hfile, hstart', hle, hoff, hp, hlines⟩, hrest⟩ := h
  obtain rfl := Option.some.inj (hstart.symm.trans hstart')
  rw [content_eq hfile] at hrest ⊢
  obtain ⟨hbetween, -⟩ := completeLines_between hle hp.1 hoff hp
  rw [List.take_length, hrest, List.append_nil] at hbetween
  rw [hlines, hbetween]

/-- A poll adds lines and opens files, and changes no file and no task. -/
theorem poll_keeps (drain : Nat) (s : Follow) :
    (s.poll drain).disk = s.disk ∧ (s.poll drain).start = s.start := ⟨rfl, rfl⟩

end Lines

/-- **Exactly once.**  In every state the lines that were told of a file are those before some
line start, each once, in the order of the file; after a poll they are all its complete lines
behind the point where the tailer began.  Nothing is told of any other file, and each line has
the bytes from its offset to its end. -/
theorem tail_exactly_once {drain : Nat} {events : List Event}
    (hallowed : Along (step drain) Allowed initial events)
    (hseen : Along (step drain) Seen initial events) :
    let s := run (step drain) initial events
    let polled := s.step drain .poll
    (∀ ino off, s.start ino = some off → ∃ p, off ≤ p ∧ AtLineStart 10 (s.disk.content ino) p ∧
      s.lines.filter (fun l => l.inode = ino) =
        located ino off (completeLines 10 (((s.disk.content ino).take p).drop off))) ∧
    (∀ ino off, s.start ino = some off →
      polled.lines.filter (fun l => l.inode = ino) =
        located ino off (completeLines 10 ((s.disk.content ino).drop off))) ∧
    (∀ ino, s.start ino = none → polled.lines.filter (fun l => l.inode = ino) = []) ∧
    ∀ l ∈ polled.lines, ∃ raw,
      ((s.disk.content l.inode).take l.stop).drop l.offset = raw ++ [10] ∧ 10 ∉ raw ∧
        l.text = trimCr raw := by
  intro s polled
  have h : Inv s :=
    run_invariant (fun s e he h => h.step he.1 he.2) (hallowed.and hseen) inv_initial
  obtain ⟨hpolled, hall⟩ : Inv polled ∧ polled.CaughtUp := h.poll
  have hdisk : polled.disk = s.disk := (poll_keeps drain s).1
  have hstarts : polled.start = s.start := (poll_keeps drain s).2
  have hevery : ∀ ino off, s.start ino = some off →
      polled.lines.filter (fun l => l.inode = ino) =
        located ino off (completeLines 10 ((s.disk.content ino).drop off)) := by
    intro ino off hstart
    rw [← hstarts] at hstart
    rw [← hdisk]
    apply (hall.toldAll hpolled ?_).lines hstart
    rw [hstart]
    rfl
  have hno : ∀ ino, s.start ino = none →
      polled.lines.filter (fun l => l.inode = ino) = [] :=
    fun ino hstart => (hpolled.foreign ino (hstarts ▸ hstart)).1
  refine ⟨?_, hevery, hno, ?_⟩
  · intro ino off hstart
    obtain ⟨p, htold⟩ := h.told hstart
    exact ⟨p, htold.lines hstart⟩
  · intro l hl
    have hmem : l ∈ polled.lines.filter (fun l' => l'.inode = l.inode) :=
      List.mem_filter.mpr ⟨hl, decide_eq_true rfl⟩
    cases hstart : s.start l.inode with
    | none =>
      rw [hno _ hstart] at hmem
      cases hmem
    | some off =>
      rw [hevery _ _ hstart] at hmem
      have hprefix : (completeLines 10 ((s.disk.content l.inode).drop off)).flatten <+:
          (s.disk.content l.inode).drop off :=
        ⟨tornLine 10 ((s.disk.content l.inode).drop off), (lines_spec _).1⟩
      exact (bytes_of_mem_located hprefix (fun _ => mem_completeLines) hmem).2

/-! ### A history -/

/-- A file is followed, renamed, and written to once more before the drain is over.  Another one
takes its place, and is followed again from a cursor in the end. -/
def history : List Event :=
  [.create 1, .append 1 [97, 10, 98], .poll, .rename, .create 2, .append 2 [99, 10], .poll,
    .append 1 [13, 10], .tick 3, .append 2 [100, 10, 101], .poll, .report, .append 2 [10],
    .resume 0]

theorem history_is_told :
    ((run (step 65) initial (history.take 11)).step 65 .poll).lines.filter
        (fun l => l.inode = 1) = located 1 0 (completeLines 10 [97, 10, 98, 13, 10]) ∧
      ((run (step 65) initial history).step 65 .poll).lines.filter
        (fun l => l.inode = 2) = located 2 4 (completeLines 10 [101, 10]) := by
  have hallowed : Along (step 65) Allowed initial history := by decide +kernel
  have hseen : Along (step 65) Seen initial history := by decide +kernel
  refine ⟨?_, ?_⟩
  · have hbefore : Along (step 65) Allowed initial (history.take 11) := (along_append.mp hallowed).1
    have hfirst := (tail_exactly_once hbefore (along_append.mp hseen).1).2.1 1 0 (by decide +kernel)
    have hcontent : (run (step 65) initial (history.take 11)).disk.content 1 =
        [97, 10, 98, 13, 10] := by decide +kernel
    rwa [hcontent] at hfirst
  · have hsecond := (tail_exactly_once hallowed hseen).2.1 2 4 (by decide +kernel)
    have hcontent : (run (step 65) initial history).disk.content 2 =
        [99, 10, 100, 10, 101, 10] := by decide +kernel
    rwa [hcontent] at hsecond

end Follow

end CashStratum.Cashtop.Tail
