/-
CashStratum/TailRead.lean

How cashtop reads a file that grows (`read` of `tail/tail.go`).

`read` begins where it stopped the last time and asks for chunks up to the end of the file.  A
chunk may end anywhere, so that its last bytes wait in `buf` for the next one, and `pos` is where
in the file `buf` begins.  Whatever the size of the chunks, what is told are the complete lines
behind the stop, each with the bytes it has in the file, and the new stop is the end of the last
of them (`read_eq`), as long as no line is so long that `read` gives it up.
-/
import CashStratum.GrowingFiles
import CashStratum.ByteString

namespace CashStratum.Cashtop.Tail

/-- `maxLine` -/
def maxLine : Nat := 16 * 2 ^ 20

/-- `chunkSize` -/
def chunkSize : Nat := 2 ^ 20

/-- `Line`.  `stop` is the end, just past the newline. -/
structure Line where
  text : Bytes
  offset : Nat
  stop : Nat
  inode : Nat
deriving DecidableEq

/-- `source`: an open file. -/
structure Source where
  ino : Nat
  offset : Nat
  size : Nat
deriving DecidableEq

/-! ### Reading -/

/-- A line without its carriage return. -/
def trimCr (raw : Bytes) : Bytes := if raw.getLast? = some 13 then raw.dropLast else raw

/-- The inner loop of `read`: the lines of a buffer that begins at `pos`, and what is left. -/
def deliverLines (ino pos : Nat) (buf : Bytes) : List Line × Bytes :=
  match _h : cutLine 10 buf with
  | none => ([], buf)
  | some (line, rest) =>
    let r := deliverLines ino (pos + line.length) rest
    (⟨trimCr line.dropLast, pos, pos + line.length, ino⟩ :: r.1, r.2)
termination_by buf.length
decreasing_by exact cutLine_length_lt _h

/-- The variables of `read`, and the lines it has told. -/
structure ReadState where
  pos : Nat
  buf : Bytes
  offset : Nat
  lines : List Line

section Chunks

variable (chunk : Nat) (content : Bytes) (ino : Nat)

/-- What `ReadAt` puts into a chunk. -/
def ReadState.got (r : ReadState) : Bytes := (content.drop (r.pos + r.buf.length)).take chunk

/-- One turn of the outer loop.  A line that is too long is skipped. -/
def ReadState.turn (r : ReadState) : ReadState :=
  let buf := r.buf ++ r.got chunk content
  let (found, rest) := deliverLines ino r.pos buf
  let start := buf.length - rest.length
  let pos := r.pos + start
  let offset := if found = [] then r.offset else pos
  if rest.length > maxLine then
    { pos := pos + rest.length, buf := [], offset := pos + rest.length, lines := r.lines ++ found }
  else { pos, buf := rest, offset, lines := r.lines ++ found }

/-- The chunk is not full, or nothing has come. -/
def ReadState.atEnd (r : ReadState) : Bool :=
  (r.got chunk content).length < chunk ∨ (r.got chunk content).length = 0

theorem deliverLines_length_le (ino pos : Nat) (buf : Bytes) :
    (deliverLines ino pos buf).2.length ≤ buf.length := by
  induction hlen : buf.length using Nat.strong_induction_on generalizing buf pos with
  | _ len ih =>
    rw [deliverLines]
    split
    · exact hlen.le
    · next line rest hcut =>
        have hlt := cutLine_length_lt hcut
        have hrest := ih _ (hlen ▸ hlt) (pos + line.length) rest rfl
        dsimp only
        omega

/-- A turn goes on in the file by what it got. -/
theorem turn_goes_on (r : ReadState) :
    (r.turn chunk content ino).pos + (r.turn chunk content ino).buf.length =
      r.pos + r.buf.length + (r.got chunk content).length := by
  have hle := deliverLines_length_le ino r.pos (r.buf ++ r.got chunk content)
  rw [ReadState.turn]
  dsimp only
  generalize deliverLines ino r.pos (r.buf ++ r.got chunk content) = delivered at hle ⊢
  rw [List.length_append] at hle ⊢
  by_cases hlong : delivered.2.length > maxLine
  · rw [if_pos hlong]
    dsimp only
    rw [List.length_nil]
    omega
  · rw [if_neg hlong]
    dsimp only
    omega

/-- The outer loop. -/
def readChunks (r : ReadState) : ReadState :=
  if _h : r.atEnd chunk content = true then r.turn chunk content ino
  else readChunks (r.turn chunk content ino)
termination_by content.length - (r.pos + r.buf.length)
decreasing_by
  have hgoes := turn_goes_on chunk content ino r
  rw [ReadState.atEnd, decide_eq_true_iff, not_or] at _h
  have hgot : (r.got chunk content).length ≤ content.length - (r.pos + r.buf.length) := by
    rw [ReadState.got, List.length_take, List.length_drop]
    exact Nat.min_le_right _ _
  omega

end Chunks

/-- `read` -/
def Source.read (s : Source) (content : Bytes) : Source × List Line :=
  let offset := if content.length < s.offset then 0 else s.offset
  let r := readChunks chunkSize content s.ino { pos := offset, buf := [], offset, lines := [] }
  ({ s with offset := r.offset, size := content.length }, r.lines)

/-! ### Where lines are -/

/-- Lines that stand one behind another from an offset on. -/
def located (ino : Nat) : Nat → List Bytes → List Line
  | _, [] => []
  | off, line :: rest =>
    ⟨trimCr line.dropLast, off, off + line.length, ino⟩ :: located ino (off + line.length) rest

theorem located_append (ino off : Nat) (a b : List Bytes) :
    located ino off (a ++ b) = located ino off a ++ located ino (off + a.flatten.length) b := by
  induction a generalizing off with
  | nil => rfl
  | cons line a ih =>
    rw [List.cons_append, located, located, ih, List.flatten_cons, List.length_append,
      Nat.add_assoc]
    rfl

theorem inode_of_mem_located {ino off : Nat} {ls : List Bytes} {l : Line}
    (h : l ∈ located ino off ls) : l.inode = ino := by
  induction ls generalizing off with
  | nil => cases h
  | cons line ls ih =>
    rcases List.mem_cons.mp h with rfl | h
    · rfl
    · exact ih h

/-- A line has the bytes from its offset to its end. -/
theorem bytes_of_mem_located {ino off : Nat} {content : Bytes} {ls : List Bytes} {l : Line}
    (hls : ls.flatten <+: content.drop off)
    (hends : ∀ line ∈ ls, ∃ raw, line = raw ++ [10] ∧ 10 ∉ raw) (h : l ∈ located ino off ls) :
    off ≤ l.offset ∧ ∃ raw, (content.take l.stop).drop l.offset = raw ++ [10] ∧ 10 ∉ raw ∧
      l.text = trimCr raw := by
  induction ls generalizing off with
  | nil => cases h
  | cons line ls ih =>
    obtain ⟨hline, hrest⟩ := List.forall_mem_cons.mp hends
    obtain ⟨more, hmore⟩ := hls
    rw [List.flatten_cons, List.append_assoc] at hmore
    rcases List.mem_cons.mp h with rfl | h
    · obtain ⟨raw, rfl, hraw⟩ := hline
      refine ⟨le_rfl, raw, ?_, hraw, ?_⟩
      · rw [List.drop_take, Nat.add_sub_cancel_left, ← hmore, List.take_left]
      · show trimCr (raw ++ [10]).dropLast = _
        rw [List.dropLast_concat]
    · have htail : ls.flatten <+: content.drop (off + line.length) := by
        refine ⟨more, ?_⟩
        rw [← List.drop_drop, ← hmore, List.drop_left]
      obtain ⟨hle, hbytes⟩ := ih htail hrest h
      exact ⟨by omega, hbytes⟩

/-! ### What is read -/

theorem deliverLines_eq (ino pos : Nat) (buf : Bytes) :
    deliverLines ino pos buf = (located ino pos (completeLines 10 buf), tornLine 10 buf) := by
  induction hlen : buf.length using Nat.strong_induction_on generalizing buf pos with
  | _ len ih =>
    rw [deliverLines]
    split
    · next hcut =>
        obtain ⟨htorn, hcomplete⟩ := tornLine_of_cutLine hcut
        rw [htorn, hcomplete]
        rfl
    · next line rest hcut =>
        have hrest := ih _ (hlen ▸ cutLine_length_lt hcut) (pos + line.length) rest rfl
        have hcomplete : completeLines 10 buf = line :: completeLines 10 rest :=
          (cutLine_line hcut).2.1
        have htorn : tornLine 10 buf = tornLine 10 rest := by
          rw [tornLine, lines_of_some hcut]
          rfl
        rw [hrest, hcomplete, htorn]
        rfl

/-- No line is so long that it is given up. -/
def ShortLines (content : Bytes) : Prop :=
  (∀ line ∈ completeLines 10 content, line.length ≤ maxLine) ∧
    (tornLine 10 content).length ≤ maxLine

instance (content : Bytes) : Decidable (ShortLines content) := inferInstanceAs (Decidable (_ ∧ _))

/-- What is behind the lines of a part is the start of a line of the whole. -/
theorem ShortLines.torn {a b : Bytes} (h : ShortLines (a ++ b)) :
    (tornLine 10 a).length ≤ maxLine := by
  rcases hcut : cutLine 10 (tornLine 10 a ++ b) with - | ⟨line, rest⟩
  · have htorn : tornLine 10 (a ++ b) = tornLine 10 a ++ b := by
      rw [tornLine_append, (tornLine_of_cutLine hcut).1]
    have hlen := h.2
    rw [htorn, List.length_append] at hlen
    omega
  · have hmem : line ∈ completeLines 10 (a ++ b) := by
      rw [completeLines_append, (cutLine_line hcut).2.1]
      exact List.mem_append_right _ List.mem_cons_self
    have hlen := h.1 line hmem
    -- the line has its end in what came later
    have hlonger : (tornLine 10 a).length ≤ line.length := by
      rw [cutLine_append_of_none (cutLine_tornLine a)] at hcut
      obtain ⟨r, -, hr⟩ := Option.map_eq_some_iff.mp hcut
      obtain ⟨hline, -⟩ := Prod.mk.inj hr
      rw [← hline, List.length_append]
      exact Nat.le_add_right _ _
    exact hlonger.trans hlen

theorem ShortLines.rest {a b : Bytes} (h : ShortLines (a ++ b)) :
    ShortLines (tornLine 10 a ++ b) := by
  refine ⟨?_, ?_⟩
  · intro line hline
    apply h.1
    rw [completeLines_append]
    exact List.mem_append_right _ hline
  · have hlen := h.2
    rwa [tornLine_append] at hlen

theorem lineEnd_append (a b : Bytes) :
    lineEnd 10 (a ++ b) = lineEnd 10 a + lineEnd 10 (tornLine 10 a ++ b) := by
  have hle : (tornLine 10 a).length ≤ a.length := tornLine_length_le a
  have hle' : (tornLine 10 (tornLine 10 a ++ b)).length ≤ (tornLine 10 a ++ b).length :=
    tornLine_length_le _
  rw [lineEnd, lineEnd, lineEnd, tornLine_append a b]
  rw [List.length_append] at hle' ⊢
  rw [List.length_append]
  omega

theorem length_completeLines (a : Bytes) : (completeLines 10 a).flatten.length = lineEnd 10 a := by
  rw [← take_lineEnd, List.length_take]
  exact Nat.min_eq_left (Nat.sub_le _ _)

theorem lineEnd_of_complete_nil {a : Bytes} (h : completeLines 10 a = []) : lineEnd 10 a = 0 := by
  rw [← length_completeLines, h]
  rfl

section Chunks

variable {chunk : Nat} {content : Bytes} {ino : Nat} {r : ReadState}

/-- Between two turns the buffer is a piece of the file without a newline, and the next line will
begin where it begins. -/
structure Reading (content : Bytes) (r : ReadState) : Prop where
  buf : r.buf <+: content.drop r.pos
  torn : 10 ∉ r.buf
  offset : r.offset = r.pos

/-- What a turn has in its buffer. -/
theorem Reading.turn_buf (h : Reading content r) :
    r.buf ++ r.got chunk content <+: content.drop r.pos := by
  obtain ⟨more, hmore⟩ := h.buf
  have hdrop : content.drop (r.pos + r.buf.length) = more := by
    rw [← List.drop_drop, ← hmore, List.drop_left]
  rw [ReadState.got, hdrop, ← hmore]
  exact List.prefix_append_right_inj _ |>.mpr (List.take_prefix _ _)

variable (chunk ino) in
/-- **One turn** tells the lines that are complete in its buffer. -/
theorem Reading.turn (h : Reading content r) (hshort : ShortLines (content.drop r.pos)) :
    Reading content (r.turn chunk content ino) ∧
      (r.turn chunk content ino).pos =
        r.pos + lineEnd 10 (r.buf ++ r.got chunk content) ∧
      (r.turn chunk content ino).buf = tornLine 10 (r.buf ++ r.got chunk content) ∧
      (r.turn chunk content ino).lines = r.lines ++
        located ino r.pos (completeLines 10 (r.buf ++ r.got chunk content)) := by
  have hbuf : r.buf ++ r.got chunk content <+: content.drop r.pos := h.turn_buf
  set buf := r.buf ++ r.got chunk content with hbufdef
  obtain ⟨more, hmore⟩ := hbuf
  have hfits : ¬ (tornLine 10 buf).length > maxLine := by
    rw [← hmore] at hshort
    exact Nat.not_lt.mpr hshort.torn
  have hturn : r.turn chunk content ino =
      { pos := r.pos + lineEnd 10 buf, buf := tornLine 10 buf
        offset := if located ino r.pos (completeLines 10 buf) = [] then r.offset
          else r.pos + lineEnd 10 buf
        lines := r.lines ++ located ino r.pos (completeLines 10 buf) } := by
    rw [ReadState.turn, ← hbufdef, deliverLines_eq]
    exact if_neg hfits
  have hflat : (completeLines 10 buf).flatten ++ tornLine 10 buf = buf := (lines_spec buf).1
  rw [hturn]
  refine ⟨⟨?_, cutLine_eq_none (cutLine_tornLine buf), ?_⟩, rfl, rfl, rfl⟩
  · refine ⟨more, ?_⟩
    have hsplit : buf ++ more = (completeLines 10 buf).flatten ++ (tornLine 10 buf ++ more) := by
      rw [← List.append_assoc]
      exact congrArg (· ++ more) hflat.symm
    dsimp only
    rw [← List.drop_drop, ← hmore, ← length_completeLines, hsplit, List.drop_left]
  · dsimp only
    cases hlines : completeLines 10 buf with
    | nil =>
      rw [lineEnd_of_complete_nil hlines]
      exact h.offset
    | cons line rest => exact if_neg (List.cons_ne_nil _ _)

/-- A turn at the end of the file has all that is left in its buffer. -/
theorem Reading.buf_at_end (h : Reading content r) (hend : r.atEnd chunk content = true)
    (hchunk : 0 < chunk) : r.buf ++ r.got chunk content = content.drop r.pos := by
  obtain ⟨more, hmore⟩ := h.buf
  have hdrop : content.drop (r.pos + r.buf.length) = more := by
    rw [← List.drop_drop, ← hmore, List.drop_left]
  rw [ReadState.atEnd, decide_eq_true_iff, ReadState.got, hdrop, List.length_take] at hend
  have hall : more.take chunk = more := List.take_of_length_le (by omega)
  rw [ReadState.got, hdrop, hall, hmore]

theorem shortLines_drop {content : Bytes} {off : Nat} (hshort : ShortLines content)
    (hstart : AtLineStart 10 content off) : ShortLines (content.drop off) := by
  refine ⟨?_, ?_⟩
  · intro line hline
    apply hshort.1
    rw [← List.take_append_drop off content, completeLines_append, hstart.2]
    exact List.mem_append_right _ hline
  · rw [hstart.tornLine_drop]
    exact hshort.2

variable (ino) in
/-- **The loop** tells the complete lines of what is left of the file, whatever the chunks. -/
theorem readChunks_eq (hchunk : 0 < chunk) (h : Reading content r)
    (hshort : ShortLines (content.drop r.pos)) :
    (readChunks chunk content ino r).offset = r.pos + lineEnd 10 (content.drop r.pos) ∧
      (readChunks chunk content ino r).lines =
        r.lines ++ located ino r.pos (completeLines 10 (content.drop r.pos)) := by
  induction hleft : content.length - (r.pos + r.buf.length) using Nat.strong_induction_on
    generalizing r with
  | _ left ih =>
    obtain ⟨hnext, hpos, hbuf, hlines⟩ := h.turn chunk ino hshort
    rw [readChunks]
    split_ifs with hend
    · rw [h.buf_at_end hend hchunk] at hpos hlines
      exact ⟨hnext.offset.trans hpos, hlines⟩
    · -- the turn has left behind what it told, and the rest is told by the next ones
      rw [ReadState.atEnd, decide_eq_true_iff, not_or] at hend
      have hgoes := turn_goes_on chunk content ino r
      have hgot : (r.got chunk content).length ≤ content.length - (r.pos + r.buf.length) := by
        rw [ReadState.got, List.length_take, List.length_drop]
        exact Nat.min_le_right _ _
      obtain ⟨more, hmore⟩ : r.buf ++ r.got chunk content <+: content.drop r.pos := h.turn_buf
      set buf := r.buf ++ r.got chunk content with hbufdef
      have hrest : content.drop (r.turn chunk content ino).pos = tornLine 10 buf ++ more := by
        have hflat : (completeLines 10 buf).flatten ++ tornLine 10 buf = buf := (lines_spec buf).1
        have hsplit : buf ++ more =
            (completeLines 10 buf).flatten ++ (tornLine 10 buf ++ more) := by
          rw [← List.append_assoc]
          exact congrArg (· ++ more) hflat.symm
        rw [hpos, ← List.drop_drop, ← hmore, ← length_completeLines, hsplit, List.drop_left]
      have hshortrest : ShortLines (content.drop (r.turn chunk content ino).pos) := by
        rw [hrest]
        rw [← hmore] at hshort
        exact hshort.rest
      obtain ⟨hoffset, htold⟩ := ih _ (by omega) hnext hshortrest rfl
      rw [hrest] at hoffset htold
      refine ⟨?_, ?_⟩
      · rw [hoffset, hpos, ← hmore, lineEnd_append buf more, Nat.add_assoc]
      · rw [htold, hlines, hpos, ← hmore, completeLines_append buf more, located_append,
          length_completeLines buf, List.append_assoc r.lines]

end Chunks

/-- **A read** from the start of a line tells the complete lines behind it, and stops at the end
of the last of them. -/
theorem read_eq {content : Bytes} {s : Source} (hstart : AtLineStart 10 content s.offset)
    (hshort : ShortLines content) :
    s.read content =
      ({ s with
          offset := s.offset + lineEnd 10 (content.drop s.offset)
          size := content.length },
        located s.ino s.offset (completeLines 10 (content.drop s.offset))) := by
  have hinside : ¬ content.length < s.offset := Nat.not_lt.mpr hstart.1
  have hreading : Reading content { pos := s.offset, buf := [], offset := s.offset, lines := [] } :=
    ⟨List.nil_prefix, List.not_mem_nil, rfl⟩
  have hchunk : 0 < chunkSize := by decide
  obtain ⟨hoffset, hlines⟩ := readChunks_eq s.ino hchunk hreading (shortLines_drop hshort hstart)
  rw [Source.read, if_neg hinside, hoffset, hlines, List.nil_append]

end CashStratum.Cashtop.Tail
