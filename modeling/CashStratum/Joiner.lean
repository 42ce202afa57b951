/-
CashStratum/Joiner.lean

Messages over several lines of the log (`LOGMSGSIZ` and `logmsg` of the pool, `joiner.go` of the
reader).

The pool cuts a message at every 510 bytes and gives each piece a stamp.  The reader holds a
line with a full body, and takes the next one for its continuation if the time of the day on it
is at most 50 ms later.  Whether two lines belong together depends on these two lines alone, so
the reader returns the runs of `List.splitBy` (`joinLines_placed`).  The pieces of a message are
such a run unless a day or a pause comes between them, and the run ends with the message unless
its last piece is full and the next line is stamped soon after (`readLog_eq_iff`).
-/
import CashStratum.AuthLog
import CashStratum.Lines
import Mathlib.Data.List.SplitBy
import Mathlib.Data.Nat.Digits.Lemmas

namespace CashStratum

/-! ### The reader -/

/-- `strings.Index` -/
def stringsIndex (needle : Bytes) : Bytes → Option Nat
  | [] => if needle = [] then some 0 else none
  | c :: s => if needle <+: c :: s then some 0 else (stringsIndex needle s).map (· + 1)

/-- The longest body that the pool writes as one line (`ChunkBody`). -/
def chunkBody : Nat := 510

/-- The largest gap, in milliseconds, between a full chunk and its continuation (`JoinGapMs`). -/
def joinGapMs : Int := 50

/-- `stampOf` -/
def stampOf (s : Bytes) : Bytes :=
  if ascii "[" <+: s then
    match stringsIndex (ascii "] ") s with
    | none => []
    | some i => s.take (i + 1)
  else []

/-- The closure `d` of `stampMs`, on the bytes that it looks at. -/
def stampDigits (t : Bytes) (i n : Nat) : Option Nat :=
  ((t.drop i).take n).foldlM (fun v c => if c < 48 ∨ 57 < c then none else some (v * 10 +
    (c - 48).toNat)) 0

/-- `stampMs` -/
def stampMs (t : Bytes) : Option Nat :=
  if t.length < 24 then none else do
    let h ← stampDigits t 12 2
    let m ← stampDigits t 15 2
    let s ← stampDigits t 18 2
    let ms ← stampDigits t 21 3
    some (((h * 60 + m) * 60 + s) * 1000 + ms)

structure Joined where
  line : Bytes
  offset : Nat
  deriving DecidableEq

structure Joiner where
  pend : Bytes
  pendOff : Nat
  pendTS : Bytes
  held : Bool

namespace Joiner

/-- A reader before its first line. -/
def init : Joiner := { pend := [], pendOff := 0, pendTS := [], held := false }

def reset (j : Joiner) : Joiner := { j with pend := [], pendTS := [], held := false }

/-- The gap to a line with the stamp `ts`; less than 0 where there is none. -/
def gap (j : Joiner) (ts : Bytes) : Int :=
  if ts ≠ [] then
    match stampMs ts, stampMs j.pendTS with
    | some a, some b => a - b
    | _, _ => -1
  else -1

/-- `Feed` for a line that does not continue what is held. -/
def feedFresh (j : Joiner) (line : Bytes) (offset : Nat) (out : List Joined) :
    Joiner × List Joined :=
  let ts := stampOf line
  if ts ≠ [] ∧ (line.length : Int) - ts.length - 1 = chunkBody then
    ({ pend := line, pendOff := offset, pendTS := ts, held := true }, out)
  else (j, out ++ [⟨line, offset⟩])

/-- `Feed` -/
def feed (j : Joiner) (line : Bytes) (offset : Nat) : Joiner × List Joined :=
  let ts := stampOf line
  if j.held then
    if 0 ≤ j.gap ts ∧ j.gap ts ≤ joinGapMs then
      let c := line.drop (ts.length + 1)
      let j := { j with pendTS := ts, pend := j.pend ++ c }
      if c.length = chunkBody then (j, []) else (j.reset, [⟨j.pend, j.pendOff⟩])
    else j.reset.feedFresh line offset [⟨j.pend, j.pendOff⟩]
  else j.feedFresh line offset []

/-- `Flush` -/
def flush (j : Joiner) : Joiner × List Joined :=
  if j.held then (j.reset, [⟨j.pend, j.pendOff⟩]) else (j, [])

end Joiner

/-- What a reader returns for lines with their offsets, and with a last `Flush`. -/
def joinLines (j : Joiner) : List (Bytes × Nat) → List Joined
  | [] => j.flush.2
  | (line, offset) :: rest => (j.feed line offset).2 ++ joinLines (j.feed line offset).1 rest

/-- The lines of a file without their newlines, with the offsets at which they start. -/
def withOffsets (offset : Nat) : List Bytes → List (Bytes × Nat)
  | [] => []
  | line :: rest => (line.dropLast, offset) :: withOffsets (offset + line.length) rest

/-- What a reader returns for a log. -/
def readLog (file : Bytes) : List Joined :=
  joinLines Joiner.init (withOffsets 0 (completeLines 10 file))

/-! ### The writer -/

/-- A local time as `localtime_r` gives it, in a year with four digits. -/
structure LocalTime extends Tm where
  year_lt : year < 8100
  mon_lt : mon < 12
  mday_le : mday ≤ 31
  hour_lt : hour < 24
  min_lt : min < 60
  /-- A second that leaps is the last. -/
  sec_le : sec ≤ 60
  ms_lt : ms < 1000

/-- `errno`, and its text, which is in one line. -/
structure Errno where
  num : Int
  text : Bytes
  text_line : 10 ∉ text

/-- A message that the pool logs: the text that `LOGMSGSIZ` formats, and the time and the error
number at its calls of `logmsg`. -/
structure LogCall where
  loglevel : Nat
  buf : Bytes
  stamp : Nat → LocalTime
  errno : Nat → Errno

/-- A line that the pool writes. -/
structure LogChunk where
  stamp : LocalTime
  body : Bytes

namespace LogChunk

/-- The line without its newline. -/
def line (c : LogChunk) : Bytes := logLine c.stamp.toTm c.body

end LogChunk

/-- The time of the day, in milliseconds. -/
def timeOfDay (tm : Tm) : Nat := ((tm.hour * 60 + tm.min) * 60 + tm.sec) * 1000 + tm.ms

/-- The second time of the day is at most 50 ms later. -/
def Soon (a b : LocalTime) : Prop :=
  timeOfDay a.toTm ≤ timeOfDay b.toTm ∧ (timeOfDay b.toTm : Int) ≤ timeOfDay a.toTm + joinGapMs

instance (a b : LocalTime) : Decidable (Soon a b) := inferInstanceAs (Decidable (_ ∧ _))

/-- The reader takes the second line for the continuation of the first. -/
def LogChunk.continues (a b : LogChunk) : Bool :=
  a.body.length = chunkBody ∧ Soon a.stamp b.stamp

namespace LogCall

/-- What `logmsg` appends at the levels up to `LOG_ERR`. -/
def errnoText (c : LogCall) (i : Nat) : Bytes :=
  if c.loglevel ≤ 3 ∧ (c.errno i).num ≠ 0 then
    ascii " with errno " ++ formatInt (c.errno i).num ++ ascii ": " ++ (c.errno i).text
  else []

/-- `LOGMSGSIZ` -/
def chunks (c : LogCall) : List LogChunk :=
  (logPieces c.buf).mapIdx fun i piece => ⟨c.stamp i, piece ++ c.errnoText i⟩

end LogCall

/-- The bytes of lines in the log. -/
def logBytes (cs : List LogChunk) : Bytes := cs.flatMap fun c => c.line ++ [10]

/-- The log of a thread. -/
def logFile (calls : List LogCall) : Bytes := logBytes (calls.flatMap LogCall.chunks)

/-- The messages, with the offsets at which their first lines start. -/
def placedCalls (offset : Nat) : List LogCall → List (LogCall × Nat)
  | [] => []
  | c :: rest => (c, offset) :: placedCalls (offset + (logBytes c.chunks).length) rest

/-- What a reader should return: the messages, each with its first stamp and its first offset.
An empty message leaves no line. -/
def originals (calls : List LogCall) : List Joined :=
  ((placedCalls 0 calls).filter fun p => p.1.buf ≠ []).map fun p =>
    ⟨logLine (p.1.stamp 0).toTm p.1.buf, p.2⟩

/-! ### Stamps -/

theorem length_formatPadded {w n : Nat} (hw : w ≠ 0) (h : n < 10 ^ w) :
    (formatPadded w n).length = w := by
  have hlen : (formatNat n).length ≤ w := by
    unfold formatNat
    split
    · exact Nat.one_le_iff_ne_zero.mpr hw
    · rw [List.length_map, List.length_reverse]
      exact (Nat.digits_length_le_iff (by decide) n).mpr h
  rw [formatPadded, List.length_append, List.length_replicate]
  exact Nat.sub_add_cancel hlen

theorem length_formatNat_year {n : Nat} (hlow : 10 ^ 3 ≤ n) (h : n < 10 ^ 4) :
    (formatNat n).length = 4 := by
  have hne : n ≠ 0 := by omega
  have hle := (Nat.digits_length_le_iff (b := 10) (k := 4) (by decide) n).mpr h
  have hlt := (Nat.lt_digits_length_iff (b := 10) (k := 3) (by decide) n).mpr hlow
  rw [formatNat, if_neg hne, List.length_map, List.length_reverse]
  omega

/-- A text of digits has their value. -/
theorem stampDigits_digits {s : Bytes} {n : Nat} (hlen : s.length = n)
    (h : ∀ c ∈ s, 48 ≤ c ∧ c ≤ 57) :
    stampDigits s 0 n = some (s.foldl (fun n c => 10 * n + (c.toNat - 48)) 0) := by
  have hfold : ∀ (s : Bytes) (v : Nat), (∀ c ∈ s, 48 ≤ c ∧ c ≤ 57) →
      s.foldlM (fun v c => if c < 48 ∨ 57 < c then none else some (v * 10 + (c - 48).toNat)) v =
        some (s.foldl (fun n c => 10 * n + (c.toNat - 48)) v) := by
    intro s
    induction s with
    | nil =>
      intro v _
      rfl
    | cons c s ih =>
      intro v h
      have hc := h c List.mem_cons_self
      have hin : ¬ (c < 48 ∨ 57 < c) := by
        rintro (hlt | hlt)
        · exact absurd hc.1 (UInt8.not_le.mpr hlt)
        · exact absurd hc.2 (UInt8.not_le.mpr hlt)
      have hsub : (c - 48).toNat = c.toNat - 48 := UInt8.toNat_sub_of_le c 48 hc.1
      rw [List.foldlM_cons, if_neg hin, List.foldl_cons, hsub, Nat.mul_comm v 10]
      exact ih _ fun d hd => h d (List.mem_cons_of_mem _ hd)
  rw [stampDigits, List.drop_zero, List.take_of_length_le hlen.le]
  exact hfold s 0 h

theorem stampDigits_formatNat {w n : Nat} (h : (formatNat n).length = w) :
    stampDigits (formatNat n) 0 w = some n := by
  rw [stampDigits_digits h fun c hc => formatNat_digit hc, foldl_formatNat]

theorem stampDigits_formatPadded {w n : Nat} (hw : w ≠ 0) (h : n < 10 ^ w) :
    stampDigits (formatPadded w n) 0 w = some n := by
  have hdigit : ∀ c ∈ formatPadded w n, 48 ≤ c ∧ c ≤ 57 := by
    intro c hc
    obtain hc | hc := List.mem_append.mp hc
    · rw [List.eq_of_mem_replicate hc]
      decide
    · exact formatNat_digit hc
  have hzeros : ∀ k, (List.replicate k (48 : UInt8)).foldl
      (fun n c => 10 * n + (c.toNat - 48)) 0 = 0 := by
    intro k
    induction k with
    | zero => rfl
    | succ k ih =>
      rw [List.replicate_succ, List.foldl_cons]
      exact ih
  rw [stampDigits_digits (length_formatPadded hw h) hdigit, formatPadded, List.foldl_append,
    hzeros, foldl_formatNat]

/-- The digits and the marks of a stamp. -/
def stampParts (tm : Tm) : List Bytes :=
  [ascii "[", formatNat (tm.year + 1900), ascii "-", formatPadded 2 (tm.mon + 1), ascii "-",
   formatPadded 2 tm.mday, ascii " ", formatPadded 2 tm.hour, ascii ":", formatPadded 2 tm.min,
   ascii ":", formatPadded 2 tm.sec, ascii ".", formatPadded 3 tm.ms, ascii "]"]

/-- The lengths of the parts of a stamp. -/
def stampLengths : List Nat := [1, 4, 1, 2, 1, 2, 1, 2, 1, 2, 1, 2, 1, 3, 1]

theorem length_stampParts (t : LocalTime) :
    (stampParts t.toTm).map List.length = stampLengths := by
  obtain ⟨tm, hyear, hmon, hmday, hhour, hmin, hsec, hms⟩ := t
  have hmark : ∀ s ∈ ["[", "-", " ", ":", ".", "]"], (ascii s).length = 1 := by decide
  simp only [List.forall_mem_cons] at hmark
  obtain ⟨hopen, hdash, hspace, hcolon, hdot, hclose, -⟩ := hmark
  have htwo : ∀ n < 100, (formatPadded 2 n).length = 2 := fun n hn =>
    length_formatPadded two_ne_zero hn
  simp only [stampParts, List.map_cons, List.map_nil, hopen, hdash, hspace, hcolon, hdot, hclose,
    length_formatNat_year (n := tm.year + 1900) (by omega) (by omega),
    length_formatPadded three_ne_zero hms, htwo (tm.mon + 1) (by omega), htwo tm.mday (by omega),
    htwo tm.hour (by omega), htwo tm.min (by omega), htwo tm.sec (by omega)]
  rfl

theorem length_getTimestamp (t : LocalTime) : (getTimestamp t.toTm).length = 25 := by
  have hflat : (stampParts t.toTm).flatten = getTimestamp t.toTm := by
    simp [stampParts, getTimestamp]
  rw [← hflat, List.length_flatten, length_stampParts]
  rfl

/-- Where a part of a stamp is. -/
theorem stampPart_at (t : LocalTime) {k : Nat} {part : Bytes}
    (h : (stampParts t.toTm)[k]? = some part) :
    ∃ a, a.length = (stampLengths.take k).sum ∧ a ++ part <+: getTimestamp t.toTm := by
  have hflat : (stampParts t.toTm).flatten = getTimestamp t.toTm := by
    simp [stampParts, getTimestamp]
  refine ⟨((stampParts t.toTm).take k).flatten, ?_, ?_⟩
  · rw [List.length_flatten, List.map_take, length_stampParts]
  · obtain ⟨hk, rfl⟩ := List.getElem?_eq_some_iff.mp h
    have htake : (stampParts t.toTm).take (k + 1) =
        (stampParts t.toTm).take k ++ [(stampParts t.toTm)[k]] := (List.take_append_getElem hk).symm
    have hprefix := (List.take_prefix (k + 1) (stampParts t.toTm)).flatten
    rw [htake, List.flatten_append, List.flatten_singleton, hflat] at hprefix
    exact hprefix

/-- The digits of a field, wherever it is. -/
theorem stampDigits_of_head {t a field : Bytes} {i n : Nat} (h : a ++ field <+: t)
    (hi : a.length = i) (hn : field.length = n) : stampDigits t i n = stampDigits field 0 n := by
  obtain ⟨b, rfl⟩ := h
  rw [List.append_assoc, stampDigits, stampDigits, List.drop_left' hi, List.take_left' hn,
    List.drop_zero, List.take_of_length_le hn.le]

/-- The number in a padded field of a stamp. -/
theorem stampDigits_part (t : LocalTime) {k w n : Nat} (hw : w ≠ 0) (hn : n < 10 ^ w)
    (h : (stampParts t.toTm)[k]? = some (formatPadded w n)) :
    stampDigits (getTimestamp t.toTm) (stampLengths.take k).sum w = some n := by
  obtain ⟨a, ha, hprefix⟩ := stampPart_at t h
  rw [stampDigits_of_head hprefix ha (length_formatPadded hw hn),
    stampDigits_formatPadded hw hn]

/-- **The stamp of a line tells the time of the day.** -/
theorem stampMs_getTimestamp (t : LocalTime) :
    stampMs (getTimestamp t.toTm) = some (timeOfDay t.toTm) := by
  have hhour := stampDigits_part t (k := 7) two_ne_zero (t.hour_lt.trans (by decide)) rfl
  have hmin := stampDigits_part t (k := 9) two_ne_zero (t.min_lt.trans (by decide)) rfl
  have hsec := stampDigits_part t (k := 11) two_ne_zero (t.sec_le.trans_lt (by decide)) rfl
  have hms := stampDigits_part t (k := 13) three_ne_zero t.ms_lt rfl
  have hlen : ¬ (getTimestamp t.toTm).length < 24 := by
    rw [length_getTimestamp]
    decide
  have hsums : (stampLengths.take 7).sum = 12 ∧ (stampLengths.take 9).sum = 15 ∧
      (stampLengths.take 11).sum = 18 ∧ (stampLengths.take 13).sum = 21 := by decide
  rw [hsums.1] at hhour
  rw [hsums.2.1] at hmin
  rw [hsums.2.2.1] at hsec
  rw [hsums.2.2.2] at hms
  rw [stampMs, if_neg hlen, hhour, hmin, hsec, hms]
  rfl

theorem stringsIndex_append {a rest : Bytes} {c d : UInt8} (h : c ∉ a) :
    stringsIndex [c, d] (a ++ c :: d :: rest) = some a.length := by
  induction a with
  | nil =>
    have hstart : [c, d] <+: c :: d :: rest := List.prefix_append [c, d] rest
    rw [List.nil_append, stringsIndex, if_pos hstart]
    rfl
  | cons x a ih =>
    have hstart : ¬ [c, d] <+: x :: (a ++ c :: d :: rest) := by
      intro hprefix
      exact List.ne_of_not_mem_cons h (List.cons_prefix_cons.mp hprefix).1
    rw [List.cons_append, stringsIndex, if_neg hstart, ih (List.not_mem_of_not_mem_cons h)]
    rfl

set_option maxRecDepth 20000 in
theorem stampOf_line (c : LogChunk) : stampOf c.line = getTimestamp c.stamp.toTm := by
  have hclose : ascii "] " = [93, 32] := by decide
  have hend : ascii "]" ++ ascii " " = [93, 32] := by decide
  have hinside : 93 ∉ stampFields c.stamp.toTm := by
    intro hmem
    refine forall_mem_stampFields (P := fun b => b ≠ 93) ?_ (by decide) _ 93 hmem rfl
    rintro b ⟨-, hle⟩ rfl
    exact absurd hle (by decide)
  have hline : c.line = stampFields c.stamp.toTm ++ 93 :: 32 :: c.body := by
    rw [LogChunk.line, logLine, getTimestamp_eq, List.append_assoc (stampFields _), hend,
      List.append_assoc]
    rfl
  have hstart : ascii "[" <+: c.line := by
    rw [LogChunk.line, logLine, getTimestamp]
    simp only [List.append_assoc]
    exact List.prefix_append _ _
  have hone : ascii "]" = [93] := by decide
  rw [stampOf, if_pos hstart, hclose, hline, stringsIndex_append hinside, getTimestamp_eq, hone]
  show (stampFields c.stamp.toTm ++ 93 :: 32 :: c.body).take (_ + 1) = _
  rw [List.take_length_add_append]
  rfl

theorem getTimestamp_ne_nil (tm : Tm) : getTimestamp tm ≠ [] := by
  rw [getTimestamp_eq]
  intro h
  exact absurd (List.append_eq_nil_iff.mp h).2 (by decide)

theorem line_drop (c : LogChunk) :
    c.line.drop ((getTimestamp c.stamp.toTm).length + 1) = c.body := by
  have hlen : (getTimestamp c.stamp.toTm ++ ascii " ").length =
      (getTimestamp c.stamp.toTm).length + 1 := List.length_append
  rw [LogChunk.line, logLine, List.drop_left' hlen]

theorem length_line (c : LogChunk) :
    c.line.length = (getTimestamp c.stamp.toTm).length + 1 + c.body.length := by
  rw [LogChunk.line, logLine, List.length_append, List.length_append]
  rfl

/-! ### The lines that the reader puts together -/

/-- The lines that a thread writes, with their offsets. -/
def placed (offset : Nat) : List LogChunk → List (LogChunk × Nat)
  | [] => []
  | c :: rest => (c, offset) :: placed (offset + c.line.length + 1) rest

/-- What the reader makes of lines that belong together. -/
def joined : List (LogChunk × Nat) → Joined
  | [] => ⟨[], 0⟩
  | (c, offset) :: rest => ⟨c.line ++ rest.flatMap fun p => p.1.body, offset⟩

/-- A line continues the one before it. -/
def follows (p q : LogChunk × Nat) : Bool := p.1.continues q.1

/-- The reader holds the lines of a group, the last of them with a full body. -/
structure Joiner.Holds (j : Joiner) (g : List (LogChunk × Nat)) (last : LogChunk × Nat) : Prop where
  held : j.held = true
  result : joined g = ⟨j.pend, j.pendOff⟩
  last_mem : g.getLast? = some last
  chain : g.IsChain fun p q => follows p q
  full : last.1.body.length = chunkBody
  stamp : j.pendTS = getTimestamp last.1.stamp.toTm

theorem joined_append {g : List (LogChunk × Nat)} (hg : g ≠ []) (p : LogChunk × Nat) :
    joined (g ++ [p]) = ⟨(joined g).line ++ p.1.body, (joined g).offset⟩ := by
  cases g with
  | nil => exact absurd rfl hg
  | cons q g =>
    show Joined.mk (q.1.line ++ (g ++ [p]).flatMap fun p => p.1.body) q.2 = _
    rw [List.flatMap_append, List.flatMap_singleton, ← List.append_assoc]
    rfl

variable {p : LogChunk × Nat}

namespace Joiner.Holds

variable {j : Joiner} {g : List (LogChunk × Nat)} {last : LogChunk × Nat} (h : j.Holds g last)

include h

theorem ne_nil : g ≠ [] := by
  rintro rfl
  exact absurd h.last_mem (by simp)

theorem gap_iff (p : LogChunk × Nat) :
    (0 ≤ j.gap (stampOf p.1.line) ∧ j.gap (stampOf p.1.line) ≤ joinGapMs) ↔
      follows last p = true := by
  have hgap : j.gap (stampOf p.1.line) = (timeOfDay p.1.stamp.toTm : Int) -
      timeOfDay last.1.stamp.toTm := by
    rw [stampOf_line, Joiner.gap, if_pos (getTimestamp_ne_nil _), h.stamp, stampMs_getTimestamp,
      stampMs_getTimestamp]
  rw [hgap, follows, LogChunk.continues, decide_eq_true_iff, Soon]
  refine ⟨fun hbounds => ⟨h.full, by omega, by omega⟩, ?_⟩
  rintro ⟨-, hle, hgap⟩
  omega

theorem feed_continues (hp : follows last p = true) :
    j.feed p.1.line p.2 =
      if p.1.body.length = chunkBody then
        ({ j with pendTS := getTimestamp p.1.stamp.toTm, pend := j.pend ++ p.1.body }, [])
      else (j.reset, [joined (g ++ [p])]) := by
  rw [joined_append h.ne_nil, h.result, Joiner.feed]
  dsimp only
  rw [if_pos h.held, if_pos ((h.gap_iff p).mpr hp), stampOf_line, line_drop]
  rfl

theorem feed_other (hp : ¬ follows last p = true) :
    j.feed p.1.line p.2 = j.reset.feedFresh p.1.line p.2 [joined g] := by
  rw [h.result, Joiner.feed]
  dsimp only
  rw [if_pos h.held, if_neg (fun hgap => hp ((h.gap_iff p).mp hgap))]

/-- The group with one more line. -/
theorem chain_append (hp : follows last p = true) :
    (g ++ [p]).IsChain fun p q => follows p q := by
  refine List.isChain_append.mpr ⟨h.chain, List.isChain_singleton p, ?_⟩
  intro a ha b hb
  rw [h.last_mem] at ha
  obtain rfl := Option.mem_some_iff.mp ha
  obtain rfl := Option.mem_some_iff.mp hb
  exact hp

end Joiner.Holds

/-- What a line does that continues nothing. -/
theorem feedFresh_line (j : Joiner) (p : LogChunk × Nat) (out : List Joined) :
    j.feedFresh p.1.line p.2 out =
      if p.1.body.length = chunkBody then
        (⟨p.1.line, p.2, getTimestamp p.1.stamp.toTm, true⟩, out)
      else (j, out ++ [joined [p]]) := by
  have hlen : ((p.1.line.length : Int) - (getTimestamp p.1.stamp.toTm).length - 1 = chunkBody) ↔
      p.1.body.length = chunkBody := by
    rw [length_line]
    omega
  have hjoined : joined [p] = ⟨p.1.line, p.2⟩ := by
    show Joined.mk (p.1.line ++ []) p.2 = _
    rw [List.append_nil]
  rw [Joiner.feedFresh, stampOf_line, hjoined]
  simp only [hlen, getTimestamp_ne_nil, ne_eq, not_false_eq_true, true_and]

theorem holds_singleton (h : p.1.body.length = chunkBody) :
    Joiner.Holds ⟨p.1.line, p.2, getTimestamp p.1.stamp.toTm, true⟩ [p] p where
  held := rfl
  result := by
    show Joined.mk (p.1.line ++ []) p.2 = _
    rw [List.append_nil]
  last_mem := rfl
  chain := List.isChain_singleton p
  full := h
  stamp := rfl

theorem not_follows (h : p.1.body.length ≠ chunkBody) (q : LogChunk × Nat) :
    follows p q = false := by
  rw [follows, LogChunk.continues, decide_eq_false_iff_not]
  exact fun hcont => h hcont.1

/-- A group that no line continues is one of the runs. -/
theorem splitBy_group {g rest : List (LogChunk × Nat)} {last : LogChunk × Nat}
    (hchain : g.IsChain fun p q => follows p q) (hlast : g.getLast? = some last)
    (hend : ∀ q ∈ rest.head?, follows last q = false) :
    (g ++ rest).splitBy follows = g :: rest.splitBy follows := by
  have hne : g ≠ [] := by
    rintro rfl
    exact absurd hlast (by simp)
  rw [List.splitBy_append, List.splitBy_of_isChain hne hchain, List.singleton_append]
  intro a ha q hq
  rw [hlast] at ha
  obtain rfl := Option.mem_some_iff.mp ha
  exact hend q hq

/-- The lines as the reader gets them. -/
def fed (ps : List (LogChunk × Nat)) : List (Bytes × Nat) := ps.map fun p => (p.1.line, p.2)

/-- **The reader returns the runs of lines that continue each other**, with what it holds. -/
theorem joinLines_fed (ps : List (LogChunk × Nat)) :
    (∀ j : Joiner, j.held = false →
      joinLines j (fed ps) = (ps.splitBy follows).map joined) ∧
    ∀ (j : Joiner) (g : List (LogChunk × Nat)) (last : LogChunk × Nat), j.Holds g last →
      joinLines j (fed ps) = ((g ++ ps).splitBy follows).map joined := by
  induction ps with
  | nil =>
    refine ⟨fun j hj => ?_, fun j g last h => ?_⟩
    · show j.flush.2 = []
      rw [Joiner.flush, hj]
      rfl
    · show j.flush.2 = _
      rw [List.append_nil, List.splitBy_of_isChain h.ne_nil h.chain, Joiner.flush, h.held,
        List.map_singleton, h.result]
      rfl
  | cons p ps ih =>
    obtain ⟨ihfree, ihheld⟩ := ih
    have hfresh : ∀ j : Joiner, j.held = false → ∀ out,
        (j.feedFresh p.1.line p.2 out).2 ++ joinLines (j.feedFresh p.1.line p.2 out).1 (fed ps) =
          out ++ ((p :: ps).splitBy follows).map joined := by
      intro j hj out
      rw [feedFresh_line]
      by_cases hfull : p.1.body.length = chunkBody
      · rw [if_pos hfull, ihheld _ [p] p (holds_singleton hfull)]
        rfl
      · rw [if_neg hfull]
        show out ++ [joined [p]] ++ joinLines j (fed ps) = _
        have hrun : (p :: ps).splitBy follows = [p] :: ps.splitBy follows :=
          splitBy_group (List.isChain_singleton p) rfl fun q _ => not_follows hfull q
        rw [ihfree j hj, hrun, List.append_assoc]
        rfl
    refine ⟨fun j hj => ?_, fun j g last h => ?_⟩
    · show (j.feed p.1.line p.2).2 ++ joinLines (j.feed p.1.line p.2).1 (fed ps) = _
      have hfeed : j.feed p.1.line p.2 = j.feedFresh p.1.line p.2 [] :=
        if_neg (by rw [hj]; decide)
      rw [hfeed]
      exact hfresh j hj []
    · show (j.feed p.1.line p.2).2 ++ joinLines (j.feed p.1.line p.2).1 (fed ps) = _
      by_cases hcont : follows last p = true
      · have hfeed := h.feed_continues hcont
        have hlast : (g ++ [p]).getLast? = some p := List.getLast?_concat
        rw [List.append_cons]
        by_cases hfull : p.1.body.length = chunkBody
        · rw [if_pos hfull] at hfeed
          rw [hfeed, ← ihheld _ (g ++ [p]) p ?_]
          · rfl
          exact ⟨h.held, by rw [joined_append h.ne_nil, h.result], hlast, h.chain_append hcont, hfull,
            rfl⟩
        · rw [if_neg hfull] at hfeed
          rw [hfeed, splitBy_group (h.chain_append hcont) hlast fun q _ => not_follows hfull q,
            List.map_cons, ← ihfree j.reset rfl]
          rfl
      · have hend : ∀ q ∈ (p :: ps).head?, follows last q = false := by
          intro q hq
          obtain rfl := Option.mem_some_iff.mp hq
          exact Bool.eq_false_iff.mpr hcont
        rw [h.feed_other hcont, splitBy_group h.chain h.last_mem hend, hfresh _ rfl]
        rfl

/-! ### Groups with increasing heads -/

section Groups

variable {α : Type*} (key : α → Nat)

include key

/-- A group ends where the next one starts. -/
theorem group_ends {t : List α} {gs hs : List (List α)} (hgs : [] ∉ gs) (hhs : [] ∉ hs)
    (hflat : gs.flatten = t ++ hs.flatten) (hsorted : gs.flatten.Pairwise fun a b => key a < key b)
    (hkeys : gs.map (fun g => (g.map key).headD 0) = hs.map fun g => (g.map key).headD 0) :
    t = [] := by
  cases t with
  | nil => rfl
  | cons a t =>
    exfalso
    cases gs with
    | nil => cases hflat
    | cons g gs =>
      cases hs with
      | nil => cases hkeys
      | cons h hs =>
        obtain ⟨x, g, rfl⟩ := List.exists_cons_of_ne_nil
          (fun hnil => hgs (hnil ▸ List.mem_cons_self) : g ≠ [])
        obtain ⟨y, h, rfl⟩ := List.exists_cons_of_ne_nil
          (fun hnil => hhs (hnil ▸ List.mem_cons_self) : h ≠ [])
        have hxa : x = a := (List.cons.inj hflat).1
        have hxy : key x = key y := (List.cons.inj hkeys).1
        rw [hflat, List.cons_append, List.pairwise_cons] at hsorted
        have hlt := hsorted.1 y (by simp)
        rw [← hxa, hxy] at hlt
        exact absurd hlt (Nat.lt_irrefl _)

/-- **Groups with the same heads are the same groups.** -/
theorem groups_eq {gs hs : List (List α)} (hgs : [] ∉ gs) (hhs : [] ∉ hs)
    (hflat : gs.flatten = hs.flatten) (hsorted : gs.flatten.Pairwise fun a b => key a < key b)
    (hkeys : gs.map (fun g => (g.map key).headD 0) = hs.map fun g => (g.map key).headD 0) :
    gs = hs := by
  induction gs generalizing hs with
  | nil => exact (List.map_eq_nil_iff.mp hkeys.symm).symm
  | cons g gs ih =>
    cases hs with
    | nil => cases hkeys
    | cons h hs =>
      have hgs' : [] ∉ gs := List.not_mem_of_not_mem_cons hgs
      have hhs' : [] ∉ hs := List.not_mem_of_not_mem_cons hhs
      have hkeys' := (List.cons.inj hkeys).2
      rw [List.flatten_cons, List.flatten_cons] at hflat
      have hsorted' : gs.flatten.Pairwise fun a b => key a < key b := by
        rw [List.flatten_cons] at hsorted
        exact (List.pairwise_append.mp hsorted).2.1
      have hgh : g = h := by
        obtain ⟨t, rfl, ht⟩ | ⟨t, rfl, ht⟩ := List.append_eq_append_iff.mp hflat
        · rw [group_ends key hgs' hhs' ht hsorted' hkeys', List.append_nil]
        · have hsub : hs.flatten.Pairwise fun a b => key a < key b := by
            rw [List.flatten_cons, List.append_assoc, ← ht] at hsorted
            exact (List.pairwise_append.mp hsorted).2.1
          rw [group_ends key hhs' hgs' ht hsub hkeys'.symm, List.append_nil]
      subst hgh
      rw [ih hgs' hhs' (List.append_cancel_left hflat) hsorted' hkeys']

end Groups

/-! ### The log of a thread -/

theorem map_placed (offset : Nat) (cs : List LogChunk) : (placed offset cs).map Prod.fst = cs := by
  induction cs generalizing offset with
  | nil => rfl
  | cons c cs ih => rw [placed, List.map_cons, ih]

theorem le_of_mem_placed {offset : Nat} {cs : List LogChunk}
    (h : p ∈ placed offset cs) : offset ≤ p.2 := by
  induction cs generalizing offset with
  | nil => cases h
  | cons c cs ih =>
    obtain rfl | hrest := List.mem_cons.mp h
    · exact Nat.le_refl _
    · have := ih hrest
      omega

theorem placed_sorted (offset : Nat) (cs : List LogChunk) :
    (placed offset cs).Pairwise fun p q => p.2 < q.2 := by
  induction cs generalizing offset with
  | nil => exact List.Pairwise.nil
  | cons c cs ih =>
    refine List.pairwise_cons.mpr ⟨fun q hq => ?_, ih _⟩
    have := le_of_mem_placed hq
    show offset < q.2
    omega

theorem placed_append (offset : Nat) (cs ds : List LogChunk) :
    placed offset (cs ++ ds) = placed offset cs ++ placed (offset + (logBytes cs).length) ds := by
  induction cs generalizing offset with
  | nil => rfl
  | cons c cs ih =>
    have hlen : (logBytes (c :: cs)).length = c.line.length + 1 + (logBytes cs).length := by
      rw [logBytes, List.flatMap_cons, List.length_append, List.length_append]
      rfl
    have hoff : offset + c.line.length + 1 + (logBytes cs).length =
        offset + (c.line.length + 1 + (logBytes cs).length) := by omega
    rw [List.cons_append, placed, placed, ih, hlen, List.cons_append, hoff]

theorem withOffsets_lines (offset : Nat) (cs : List LogChunk) :
    withOffsets offset (cs.map fun c => c.line ++ [10]) = fed (placed offset cs) := by
  induction cs generalizing offset with
  | nil => rfl
  | cons c cs ih =>
    rw [List.map_cons, withOffsets, ih, List.dropLast_concat, List.length_append,
      List.length_singleton, ← Nat.add_assoc, placed, fed, fed, List.map_cons]

set_option maxRecDepth 20000 in
theorem not_mem_line {c : LogChunk} (h : 10 ∉ c.body) : 10 ∉ c.line := by
  rw [LogChunk.line, logLine, getTimestamp_eq]
  simp only [List.mem_append, not_or]
  refine ⟨⟨⟨fun hmem => ?_, by decide⟩, by decide⟩, h⟩
  refine forall_mem_stampFields (P := fun b => b ≠ 10) ?_ (by decide) _ 10 hmem rfl
  rintro b ⟨hle, -⟩ rfl
  exact absurd hle (by decide)

/-- **What the reader returns for the lines of a log** without newlines inside. -/
theorem readLog_eq {cs : List LogChunk} (h : ∀ c ∈ cs, 10 ∉ c.body) :
    readLog (logBytes cs) = ((placed 0 cs).splitBy follows).map joined := by
  have hlines : completeLines 10 (logBytes cs) = cs.map fun c => c.line ++ [10] := by
    have hbodies : ∀ body ∈ cs.map LogChunk.line, (10 : UInt8) ∉ body := by
      intro body hbody
      obtain ⟨c, hc, rfl⟩ := List.mem_map.mp hbody
      exact not_mem_line (h c hc)
    have hflat := completeLines_flatMap hbodies
    rw [List.flatMap_map, List.map_map] at hflat
    exact hflat
  rw [readLog, hlines, withOffsets_lines]
  exact (joinLines_fed _).1 Joiner.init rfl

/-! ### Pieces -/

theorem flatten_logPieces (buf : Bytes) : (logPieces buf).flatten = buf := by
  induction buf using logPieces.induct with
  | case1 => rw [logPieces, dif_pos rfl, List.flatten_nil]
  | case2 buf hne ih =>
    rw [logPieces, dif_neg hne, List.flatten_cons, ih, List.take_append_drop]

theorem logPieces_ne_nil {buf : Bytes} (h : buf ≠ []) : logPieces buf ≠ [] := by
  rw [logPieces, dif_neg h]
  exact List.cons_ne_nil _ _

/-- The pieces before the last are full. -/
theorem length_logPieces {buf : Bytes} {i : Nat} (h : i + 1 < (logPieces buf).length) :
    (logPieces buf)[i].length = chunkBody := by
  induction buf using logPieces.induct generalizing i with
  | case1 =>
    have hnil : logPieces [] = [] := by rw [logPieces, dif_pos rfl]
    simp [hnil] at h
  | case2 buf hne ih =>
    have hcons : logPieces buf =
        buf.take logPieceSize :: logPieces (buf.drop logPieceSize) := by
      rw [logPieces, dif_neg hne]
    simp only [hcons, List.length_cons] at h ⊢
    cases i with
    | zero =>
      have hdrop : buf.drop logPieceSize ≠ [] := by
        intro hnil
        rw [hnil, logPieces, dif_pos rfl] at h
        exact absurd h (by decide)
      have hlt : logPieceSize < buf.length := by
        rw [ne_eq, List.drop_eq_nil_iff] at hdrop
        omega
      show (buf.take logPieceSize).length = chunkBody
      rw [List.length_take, Nat.min_eq_left hlt.le]
      rfl
    | succ i => exact ih (by omega)

/-- The last piece is full if the length is a multiple of the size of a piece. -/
theorem length_last_logPieces {buf : Bytes} (h : buf ≠ []) :
    ((logPieces buf).getLast (logPieces_ne_nil h)).length = chunkBody ↔
      chunkBody ∣ buf.length := by
  induction buf using logPieces.induct with
  | case1 => exact absurd rfl h
  | case2 buf hne ih =>
    have hcons : logPieces buf =
        buf.take logPieceSize :: logPieces (buf.drop logPieceSize) := by
      rw [logPieces, dif_neg hne]
    have hpos := List.length_pos_iff.mpr hne
    simp only [hcons]
    by_cases hdrop : buf.drop logPieceSize = []
    · have hle : buf.length ≤ logPieceSize := List.drop_eq_nil_iff.mp hdrop
      have hnil : logPieces (buf.drop logPieceSize) = [] := by
        rw [hdrop, logPieces, dif_pos rfl]
      simp only [hnil, List.getLast_singleton]
      rw [List.take_of_length_le hle]
      refine ⟨fun heq => ⟨1, by rw [heq, Nat.mul_one]⟩, fun hdvd => ?_⟩
      exact Nat.le_antisymm hle (Nat.le_of_dvd hpos hdvd)
    · have hlt : logPieceSize < buf.length := by
        rw [List.drop_eq_nil_iff] at hdrop
        exact Nat.lt_of_not_le hdrop
      rw [List.getLast_cons (logPieces_ne_nil hdrop), ih hdrop, List.length_drop]
      refine Nat.dvd_sub_self_right.trans ⟨fun hor => ?_, Or.inl⟩
      exact hor.resolve_right (Nat.not_le_of_lt hlt)

/-- Pieces with more at their ends are longer, or the same if there is nothing more. -/
theorem flatten_mapIdx_append (l : List Bytes) (f : Nat → Bytes) :
    l.flatten.length ≤ (l.mapIdx fun i x => x ++ f i).flatten.length ∧
      ((l.mapIdx fun i x => x ++ f i).flatten = l.flatten ↔ ∀ i < l.length, f i = []) := by
  induction l generalizing f with
  | nil => exact ⟨Nat.le_refl _, fun _ i hi => absurd hi (Nat.not_lt_zero i), fun _ => rfl⟩
  | cons x l ih =>
    obtain ⟨hle, hiff⟩ := ih fun i => f (i + 1)
    rw [List.mapIdx_cons, List.flatten_cons, List.flatten_cons]
    refine ⟨?_, fun heq => ?_, fun hnil => ?_⟩
    · simp only [List.length_append]
      omega
    · rw [List.append_assoc] at heq
      have hrest := List.append_cancel_left heq
      have hlen := congrArg List.length hrest
      rw [List.length_append] at hlen
      have hzero : f 0 = [] := List.length_eq_zero_iff.mp (by omega)
      rw [hzero, List.nil_append] at hrest
      intro i hi
      cases i with
      | zero => exact hzero
      | succ i => exact hiff.mp hrest i (Nat.lt_of_succ_lt_succ hi)
    · rw [hnil 0 (Nat.succ_pos _), List.append_nil,
        hiff.mpr fun i hi => hnil (i + 1) (Nat.succ_lt_succ hi)]

namespace LogCall

variable (c : LogCall)

theorem not_mem_errnoText (i : Nat) : 10 ∉ c.errnoText i := by
  rw [errnoText]
  split
  · simp only [List.mem_append, not_or]
    refine ⟨⟨⟨by decide, ?_⟩, by decide⟩, (c.errno i).text_line⟩
    exact not_mem_formatInt (by decide) (by decide)
  · exact List.not_mem_nil

theorem length_chunks : c.chunks.length = (logPieces c.buf).length := List.length_mapIdx

theorem chunks_ne_nil {c : LogCall} (h : c.buf ≠ []) : c.chunks ≠ [] := by
  rw [← List.length_pos_iff, length_chunks, List.length_pos_iff]
  exact logPieces_ne_nil h

theorem getElem_chunks {i : Nat} (h : i < c.chunks.length) :
    c.chunks[i] =
      ⟨c.stamp i, (logPieces c.buf).get ⟨i, c.length_chunks ▸ h⟩ ++ c.errnoText i⟩ :=
  List.getElem_mapIdx

/-- A body has a newline if the message has one. -/
theorem not_mem_chunks {c : LogCall} (h : 10 ∉ c.buf) : ∀ k ∈ c.chunks, 10 ∉ k.body := by
  intro k hk
  obtain ⟨i, hi, rfl⟩ := List.mem_iff_getElem.mp hk
  rw [getElem_chunks]
  intro hmem
  obtain hpiece | htext := List.mem_append.mp hmem
  · apply h
    rw [← flatten_logPieces c.buf]
    exact List.mem_flatten.mpr ⟨_, List.get_mem _ _, hpiece⟩
  · exact c.not_mem_errnoText i htext

/-- The message is written as it is. -/
def Plain : Prop := ∀ i < (logPieces c.buf).length, c.errnoText i = []

instance : Decidable c.Plain := Nat.decidableBallLT _ _

/-- **The bodies together are the message if no error number is in them.** -/
theorem flatMap_body_eq_iff : (c.chunks.flatMap fun k => k.body) = c.buf ↔ c.Plain := by
  have hbodies : (c.chunks.flatMap fun k => k.body) =
      ((logPieces c.buf).mapIdx fun i piece => piece ++ c.errnoText i).flatten := by
    rw [chunks, List.flatMap_def]
    congr 1
    exact List.ext_getElem (by simp) (by simp)
  have hiff := (flatten_mapIdx_append (logPieces c.buf) c.errnoText).2
  rw [flatten_logPieces, ← hbodies] at hiff
  exact hiff

theorem head_chunks {k : LogChunk} (h : c.chunks.head? = some k) : k.stamp = c.stamp 0 := by
  rw [List.head?_eq_getElem?, chunks, List.getElem?_mapIdx] at h
  obtain ⟨piece, -, rfl⟩ := Option.map_eq_some_iff.mp h
  rfl

theorem getLast_chunks {c : LogCall} {k : LogChunk} (h : c.chunks.getLast? = some k)
    (hplain : c.Plain) :
    k.stamp = c.stamp ((logPieces c.buf).length - 1) ∧
      (k.body.length = chunkBody ↔ chunkBody ∣ c.buf.length) := by
  rw [List.getLast?_eq_getElem?, length_chunks, chunks, List.getElem?_mapIdx] at h
  obtain ⟨piece, hpiece, rfl⟩ := Option.map_eq_some_iff.mp h
  refine ⟨rfl, ?_⟩
  have hne : c.buf ≠ [] := by
    intro hnil
    rw [hnil, logPieces, dif_pos rfl] at hpiece
    cases hpiece
  have hpos := List.length_pos_iff.mpr (logPieces_ne_nil hne)
  rw [← List.getLast?_eq_getElem?, List.getLast?_eq_some_getLast (logPieces_ne_nil hne)] at hpiece
  obtain rfl := Option.some.inj hpiece
  rw [hplain _ (Nat.sub_lt hpos Nat.one_pos), List.append_nil]
  exact length_last_logPieces hne

/-- The pieces of a message are taken for one if they are stamped soon after each other. -/
theorem isChain_chunks {c : LogCall} (hplain : c.Plain) :
    (c.chunks.IsChain fun a b => a.continues b) ↔
      ∀ i, i + 1 < (logPieces c.buf).length → Soon (c.stamp i) (c.stamp (i + 1)) := by
  rw [List.isChain_iff_getElem]
  refine ⟨fun hchain i hi => ?_, fun hsoon i hi => ?_⟩
  · have hcont := hchain i (by rw [length_chunks]; exact hi)
    rw [getElem_chunks, getElem_chunks, LogChunk.continues, decide_eq_true_iff] at hcont
    exact hcont.2
  · rw [length_chunks] at hi
    rw [getElem_chunks, getElem_chunks, LogChunk.continues, decide_eq_true_iff]
    refine ⟨?_, hsoon i hi⟩
    rw [hplain i (by omega), List.append_nil]
    exact length_logPieces hi

/-- The lines of a message in the log. -/
def group (p : LogCall × Nat) : List (LogChunk × Nat) := placed p.2 p.1.chunks

end LogCall

open LogCall (group)

theorem group_fst (p : LogCall × Nat) : (group p).map Prod.fst = p.1.chunks := map_placed _ _

theorem group_ne_nil {p : LogCall × Nat} (h : p.1.buf ≠ []) : group p ≠ [] := by
  intro hnil
  apply LogCall.chunks_ne_nil h
  rw [← group_fst, hnil, List.map_nil]

/-- The lines of a message together. -/
theorem joined_group {p : LogCall × Nat} (h : p.1.buf ≠ []) :
    joined (group p) =
      ⟨logLine (p.1.stamp 0).toTm (p.1.chunks.flatMap fun k => k.body), p.2⟩ := by
  obtain ⟨k, ks, hchunks⟩ := List.exists_cons_of_ne_nil (LogCall.chunks_ne_nil h)
  have hstamp : k.stamp = p.1.stamp 0 := p.1.head_chunks (by rw [hchunks]; rfl)
  have hbodies : ∀ offset, ((placed offset ks).flatMap fun q => q.1.body) =
      ks.flatMap fun k => k.body := by
    intro offset
    conv_rhs => rw [← map_placed offset ks, List.flatMap_map]
  rw [group, hchunks, placed, joined, hbodies, List.flatMap_cons, LogChunk.line, hstamp, logLine,
    logLine, List.append_assoc]

theorem map_placedCalls (offset : Nat) (calls : List LogCall) :
    (placedCalls offset calls).map Prod.fst = calls := by
  induction calls generalizing offset with
  | nil => rfl
  | cons c calls ih => rw [placedCalls, List.map_cons, ih]

/-- The messages that leave lines, with their offsets. -/
def written (offset : Nat) (calls : List LogCall) : List (LogCall × Nat) :=
  (placedCalls offset calls).filter fun p => p.1.buf ≠ []

theorem map_written (offset : Nat) (calls : List LogCall) :
    (written offset calls).map Prod.fst = calls.filter fun c => c.buf ≠ [] := by
  conv_rhs => rw [← map_placedCalls offset calls, List.filter_map]
  rfl

variable {calls : List LogCall}

theorem mem_written {offset : Nat} {p : LogCall × Nat}
    (h : p ∈ written offset calls) : p.1 ∈ calls ∧ p.1.buf ≠ [] := by
  have hmem : p.1 ∈ calls.filter fun c => c.buf ≠ [] := by
    rw [← map_written offset calls]
    exact List.mem_map_of_mem h
  rw [List.mem_filter, decide_eq_true_iff] at hmem
  exact hmem

theorem exists_written (offset : Nat) {c : LogCall} (hc : c ∈ calls)
    (hbuf : c.buf ≠ []) : ∃ p ∈ written offset calls, p.1 = c := by
  have hmem : c ∈ calls.filter fun c => c.buf ≠ [] := by
    rw [List.mem_filter, decide_eq_true_iff]
    exact ⟨hc, hbuf⟩
  rw [← map_written offset calls] at hmem
  exact List.mem_map.mp hmem

/-- The lines of the log are those of the messages. -/
theorem flatten_written (offset : Nat) (calls : List LogCall) :
    ((written offset calls).map group).flatten = placed offset (calls.flatMap LogCall.chunks) := by
  induction calls generalizing offset with
  | nil => rfl
  | cons c calls ih =>
    rw [List.flatMap_cons, placed_append, ← ih, written, placedCalls, List.filter_cons]
    by_cases hbuf : c.buf = []
    · have hchunks : c.chunks = [] := by
        rw [LogCall.chunks, hbuf, logPieces, dif_pos rfl]
        rfl
      rw [if_neg (by simp [hbuf]), hchunks]
      rfl
    · rw [if_pos (by simp [hbuf])]
      rfl

/-- The last line of a message is no full one, or the next message does not start soon after. -/
def Apart (c d : LogCall) : Prop :=
  ¬ (chunkBody ∣ c.buf.length ∧ Soon (c.stamp ((logPieces c.buf).length - 1)) (d.stamp 0))

/-- Messages in one line each that are written as they are, with pieces that are stamped soon
after each other, and messages that are kept apart. -/
structure Rejoins (calls : List LogCall) : Prop where
  one_line : ∀ c ∈ calls, 10 ∉ c.buf
  plain : ∀ c ∈ calls, c.Plain
  within : ∀ c ∈ calls, ∀ i, i + 1 < (logPieces c.buf).length → Soon (c.stamp i) (c.stamp (i + 1))
  apart : (calls.filter fun c => c.buf ≠ []).IsChain Apart

/-- Two messages are kept apart if the reader does not take the first line of one for the
continuation of the other. -/
theorem apart_iff {p q : LogCall × Nat} (hp : p.1.buf ≠ []) (hq : q.1.buf ≠ [])
    (hplain : p.1.Plain) :
    (∃ ha hb, follows ((group p).getLast ha) ((group q).head hb) = false) ↔ Apart p.1 q.1 := by
  have hlast : p.1.chunks.getLast? = some ((group p).getLast (group_ne_nil hp)).1 := by
    rw [← group_fst, List.getLast?_map, List.getLast?_eq_some_getLast (group_ne_nil hp)]
    rfl
  have hhead : q.1.chunks.head? = some ((group q).head (group_ne_nil hq)).1 := by
    rw [← group_fst, List.head?_map, List.head?_eq_some_head (group_ne_nil hq)]
    rfl
  obtain ⟨hstamp, hfull⟩ := LogCall.getLast_chunks hlast hplain
  have hfollows : follows ((group p).getLast (group_ne_nil hp))
      ((group q).head (group_ne_nil hq)) = false ↔ Apart p.1 q.1 := by
    rw [follows, LogChunk.continues, decide_eq_false_iff_not, hstamp, q.1.head_chunks hhead, hfull,
      Apart]
  refine ⟨?_, fun h => ⟨group_ne_nil hp, group_ne_nil hq, hfollows.mpr h⟩⟩
  rintro ⟨ha, hb, hfalse⟩
  exact hfollows.mp hfalse

/-- **The runs are the messages** if no piece comes late and all messages are kept apart, and
only then. -/
theorem splitBy_placed_iff (hplain : ∀ c ∈ calls, c.Plain) :
    (placed 0 (calls.flatMap LogCall.chunks)).splitBy follows = (written 0 calls).map group ↔
      (∀ c ∈ calls, ∀ i, i + 1 < (logPieces c.buf).length →
        Soon (c.stamp i) (c.stamp (i + 1))) ∧
      (calls.filter fun c => c.buf ≠ []).IsChain Apart := by
  have hnil : [] ∉ (written 0 calls).map group := by
    intro hmem
    obtain ⟨p, hp, heq⟩ := List.mem_map.mp hmem
    exact group_ne_nil (mem_written hp).2 heq
  have hchain : ∀ p ∈ written 0 calls, ((group p).IsChain fun p q => follows p q) ↔
      ∀ i, i + 1 < (logPieces p.1.buf).length → Soon (p.1.stamp i) (p.1.stamp (i + 1)) := by
    intro p hp
    rw [← LogCall.isChain_chunks (hplain _ (mem_written hp).1), ← group_fst, List.isChain_map]
    rfl
  have hapart : (written 0 calls).IsChain
        (fun p q => ∃ ha hb, follows ((group p).getLast ha) ((group q).head hb) = false) ↔
      (calls.filter fun c => c.buf ≠ []).IsChain Apart := by
    rw [← map_written 0 calls, List.isChain_map]
    apply List.IsChain.iff_of_mem_imp
    intro p q hp hq
    exact apart_iff (mem_written hp).2 (mem_written hq).2 (hplain _ (mem_written hp).1)
  rw [List.splitBy_eq_iff, List.isChain_map, hapart]
  refine ⟨fun h => ⟨fun c hc i hi => ?_, h.2.2.2⟩, fun h => ⟨?_, hnil, fun g hg => ?_, h.2⟩⟩
  · -- a message with two pieces is not empty
    have hbuf : c.buf ≠ [] := by
      intro hbuf
      rw [hbuf, logPieces, dif_pos rfl] at hi
      exact absurd hi (Nat.not_lt_zero _)
    obtain ⟨p, hp, rfl⟩ := exists_written 0 hc hbuf
    exact (hchain p hp).mp (h.2.2.1 _ (List.mem_map_of_mem hp)) i hi
  · exact (flatten_written 0 calls).symm
  · obtain ⟨p, hp, rfl⟩ := List.mem_map.mp hg
    exact (hchain p hp).mpr (h.1 _ (mem_written hp).1)

theorem joined_offset (g : List (LogChunk × Nat)) :
    (joined g).offset = (g.map Prod.snd).headD 0 := by
  cases g with
  | nil => rfl
  | cons p g => rfl

/-- **What the reader returns tells which lines it took for a message.** -/
theorem splitBy_of_originals
    (h : ((placed 0 (calls.flatMap LogCall.chunks)).splitBy follows).map joined =
      originals calls) :
    (placed 0 (calls.flatMap LogCall.chunks)).splitBy follows = (written 0 calls).map group := by
  have hnil : [] ∉ (written 0 calls).map group := by
    intro hmem
    obtain ⟨p, hp, heq⟩ := List.mem_map.mp hmem
    exact group_ne_nil (mem_written hp).2 heq
  apply groups_eq Prod.snd (List.nil_notMem_splitBy _ _) hnil
  · rw [List.flatten_splitBy, flatten_written]
  · rw [List.flatten_splitBy]
    exact placed_sorted 0 _
  · have hoffsets := congrArg (List.map Joined.offset) h
    rw [originals, List.map_map, List.map_map] at hoffsets
    rw [List.map_map]
    simp only [← joined_offset]
    refine hoffsets.trans (List.map_congr_left fun p hp => ?_)
    show p.2 = (joined (group p)).offset
    rw [joined_group (mem_written hp).2]

/-! ### What a reader returns has no newline -/

theorem feed_not_mem {j : Joiner} {line : Bytes} (offset : Nat) (hj : 10 ∉ j.pend)
    (hline : 10 ∉ line) : 10 ∉ (j.feed line offset).1.pend ∧
      ∀ r ∈ (j.feed line offset).2, 10 ∉ r.line := by
  have hfresh : ∀ (j' : Joiner) (out : List Joined), 10 ∉ j'.pend → (∀ r ∈ out, 10 ∉ r.line) →
      10 ∉ (j'.feedFresh line offset out).1.pend ∧
        ∀ r ∈ (j'.feedFresh line offset out).2, 10 ∉ r.line := by
    intro j' out hj' hout
    rw [Joiner.feedFresh]
    split
    · exact ⟨hline, hout⟩
    · refine ⟨hj', fun r hr => ?_⟩
      obtain hr | hr := List.mem_append.mp hr
      · exact hout r hr
      · rw [List.mem_singleton.mp hr]
        exact hline
  have hdrop : ∀ n, 10 ∉ j.pend ++ line.drop n := by
    intro n hmem
    exact (List.mem_append.mp hmem).elim hj fun hmem => hline (List.mem_of_mem_drop hmem)
  rw [Joiner.feed]
  dsimp only
  split
  · split
    · split
      · exact ⟨hdrop _, fun r hr => absurd hr List.not_mem_nil⟩
      · refine ⟨List.not_mem_nil, fun r hr => ?_⟩
        rw [List.mem_singleton.mp hr]
        exact hdrop _
    · refine hfresh j.reset _ List.not_mem_nil fun r hr => ?_
      rw [List.mem_singleton.mp hr]
      exact hj
  · exact hfresh j [] hj fun r hr => absurd hr List.not_mem_nil

theorem joinLines_not_mem {ls : List (Bytes × Nat)} (h : ∀ l ∈ ls, 10 ∉ l.1) {j : Joiner}
    (hj : 10 ∉ j.pend) : ∀ r ∈ joinLines j ls, 10 ∉ r.line := by
  induction ls generalizing j with
  | nil =>
    intro r hr
    rw [joinLines, Joiner.flush] at hr
    split at hr
    · rw [List.mem_singleton.mp hr]
      exact hj
    · exact absurd hr List.not_mem_nil
  | cons l ls ih =>
    obtain ⟨hl, hls⟩ := List.forall_mem_cons.mp h
    obtain ⟨hpend, hout⟩ := feed_not_mem l.2 hj hl
    intro r hr
    obtain hr | hr := List.mem_append.mp hr
    · exact hout r hr
    · exact ih hls hpend r hr

theorem withOffsets_not_mem {ls : List Bytes} (h : ∀ l ∈ ls, ∃ body, l = body ++ [10] ∧ 10 ∉ body)
    (offset : Nat) : ∀ l ∈ withOffsets offset ls, 10 ∉ l.1 := by
  induction ls generalizing offset with
  | nil => exact fun l hl => absurd hl List.not_mem_nil
  | cons line ls ih =>
    obtain ⟨⟨body, hline, hbody⟩, hls⟩ := List.forall_mem_cons.mp h
    refine List.forall_mem_cons.mpr ⟨?_, ih hls _⟩
    rw [hline, List.dropLast_concat]
    exact hbody

theorem readLog_not_mem (file : Bytes) : ∀ r ∈ readLog file, 10 ∉ r.line :=
  joinLines_not_mem (withOffsets_not_mem (fun _ hl => mem_completeLines hl) 0) List.not_mem_nil

/-! ### The messages come back -/

/-- The reader has the messages as they were logged. -/
theorem originals_eq_iff :
    ((written 0 calls).map group).map joined = originals calls ↔
      ∀ c ∈ calls, c.Plain := by
  rw [originals, List.map_map, ← written]
  refine ⟨fun h c hc => ?_, fun h => List.map_congr_left fun p hp => ?_⟩
  · by_cases hbuf : c.buf = []
    · intro i hi
      rw [hbuf, logPieces, dif_pos rfl] at hi
      exact absurd hi (Nat.not_lt_zero _)
    · obtain ⟨p, hp, rfl⟩ := exists_written 0 hc hbuf
      have hjoined : joined (group p) = ⟨logLine (p.1.stamp 0).toTm p.1.buf, p.2⟩ :=
        List.map_inj_left.mp h p hp
      rw [joined_group hbuf] at hjoined
      have hline := (Joined.mk.inj hjoined).1
      rw [logLine, logLine] at hline
      exact p.1.flatMap_body_eq_iff.mp (List.append_cancel_left hline)
  · show joined (group p) = _
    rw [joined_group (mem_written hp).2, p.1.flatMap_body_eq_iff.mpr (h _ (mem_written hp).1)]

theorem not_mem_bodies (h : ∀ c ∈ calls, 10 ∉ c.buf) :
    ∀ k ∈ calls.flatMap LogCall.chunks, 10 ∉ k.body := by
  intro k hk
  obtain ⟨c, hc, hk⟩ := List.mem_flatMap.mp hk
  exact LogCall.not_mem_chunks (h c hc) k hk

theorem readLog_iff (calls : List LogCall) :
    readLog (logFile calls) = originals calls ↔ Rejoins calls := by
  constructor
  · intro h
    have hline : ∀ c ∈ calls, 10 ∉ c.buf := by
      intro c hc
      by_cases hbuf : c.buf = []
      · rw [hbuf]
        exact List.not_mem_nil
      · obtain ⟨p, hp, rfl⟩ := exists_written 0 hc hbuf
        have hr : (⟨logLine (p.1.stamp 0).toTm p.1.buf, p.2⟩ : Joined) ∈
            readLog (logFile calls) := by
          rw [h]
          exact List.mem_map_of_mem hp
        intro hnl
        exact readLog_not_mem _ _ hr (List.mem_append_right _ hnl)
    rw [logFile, readLog_eq (not_mem_bodies hline)] at h
    have hsplit := splitBy_of_originals h
    have hplain : ∀ c ∈ calls, c.Plain := by
      rw [hsplit] at h
      exact originals_eq_iff.mp h
    obtain ⟨hwithin, hapart⟩ := (splitBy_placed_iff hplain).mp hsplit
    exact ⟨hline, hplain, hwithin, hapart⟩
  · rintro ⟨hline, hplain, hwithin, hapart⟩
    rw [logFile, readLog_eq (not_mem_bodies hline),
      (splitBy_placed_iff hplain).mpr ⟨hwithin, hapart⟩]
    exact originals_eq_iff.mpr hplain

/-- A line that continues nothing and is not full is returned by itself. -/
theorem joined_singleton_mem {cs ds : List LogChunk} {k : LogChunk}
    (hbefore : ∀ a ∈ cs.getLast?, a.continues k = false) (hshort : k.body.length ≠ chunkBody) :
    joined [(k, (logBytes cs).length)] ∈ ((placed 0 (cs ++ k :: ds)).splitBy follows).map joined := by
  have hplaced : placed 0 (cs ++ k :: ds) = placed 0 cs ++ ((k, (logBytes cs).length) ::
      placed ((logBytes cs).length + k.line.length + 1) ds) := by
    rw [placed_append, Nat.zero_add, placed]
  have hrun : ((k, (logBytes cs).length) ::
      placed ((logBytes cs).length + k.line.length + 1) ds).splitBy follows =
        [(k, (logBytes cs).length)] ::
          (placed ((logBytes cs).length + k.line.length + 1) ds).splitBy follows :=
    splitBy_group (List.isChain_singleton _) rfl fun q _ => not_follows hshort q
  rw [hplaced, List.splitBy_append_cons, hrun, List.map_append, List.map_cons]
  · exact List.mem_append_right _ List.mem_cons_self
  · intro p hp
    apply hbefore p.1
    have hlast : (placed 0 cs).getLast?.map Prod.fst = cs.getLast? := by
      rw [← List.getLast?_map, map_placed]
    rw [← hlast]
    exact Option.mem_map_of_mem Prod.fst hp

/-- **The reader returns the messages exactly if they are written in one line each and as they
are, no piece comes late and the messages are kept apart**; and a short message that is written
so is returned if the line before it is not a full one that was stamped just before. -/
theorem readLog_originals :
    (∀ calls, readLog (logFile calls) = originals calls ↔ Rejoins calls) ∧
    ∀ (before : List LogCall) (c : LogCall) (after : List LogCall),
      (∀ d ∈ before ++ c :: after, 10 ∉ d.buf) → c.buf ≠ [] → c.buf.length < chunkBody → c.Plain →
      (∀ k ∈ (before.flatMap LogCall.chunks).getLast?,
        ¬ (k.body.length = chunkBody ∧ Soon k.stamp (c.stamp 0))) →
      ⟨logLine (c.stamp 0).toTm c.buf, (logFile before).length⟩ ∈
        readLog (logFile (before ++ c :: after)) := by
  refine ⟨readLog_iff, fun before c after hline hne hlen hplain hbefore => ?_⟩
  have hpieces : logPieces c.buf = [c.buf] := logPieces_of_length_le hne hlen.le
  have hchunks : c.chunks = [⟨c.stamp 0, c.buf⟩] := by
    have hnil : c.errnoText 0 = [] := hplain 0 (by rw [hpieces]; exact Nat.one_pos)
    show (logPieces c.buf).mapIdx _ = _
    rw [hpieces, List.mapIdx_singleton, hnil, List.append_nil]
  have hall : (before ++ c :: after).flatMap LogCall.chunks =
      before.flatMap LogCall.chunks ++ ⟨c.stamp 0, c.buf⟩ :: after.flatMap LogCall.chunks := by
    rw [List.flatMap_append, List.flatMap_cons, hchunks, List.singleton_append]
  have hmem := @joined_singleton_mem (before.flatMap LogCall.chunks)
    (after.flatMap LogCall.chunks) ⟨c.stamp 0, c.buf⟩
    (fun a ha => decide_eq_false (hbefore a ha)) hlen.ne
  have hjoined : ∀ offset, joined [((⟨c.stamp 0, c.buf⟩ : LogChunk), offset)] =
      ⟨logLine (c.stamp 0).toTm c.buf, offset⟩ := by
    intro offset
    show Joined.mk (logLine (c.stamp 0).toTm c.buf ++ []) offset = _
    rw [List.append_nil]
  rw [hjoined] at hmem
  rw [logFile, readLog_eq (not_mem_bodies hline), hall]
  exact hmem

/-- A time in a month. -/
def clock (mday : Fin 32) (hour : Fin 24) (min sec : Fin 60) (ms : Fin 1000) : LocalTime where
  year := 126
  mon := 0
  mday := mday
  hour := hour
  min := min
  sec := sec
  ms := ms
  year_lt := by decide
  mon_lt := by decide
  mday_le := by omega
  hour_lt := hour.isLt
  min_lt := min.isLt
  sec_le := by omega
  ms_lt := ms.isLt

/-- A message at the level of a notice. -/
def notice (buf : Bytes) (stamp : Nat → LocalTime) : LogCall where
  loglevel := 5
  buf := buf
  stamp := stamp
  errno := fun _ => ⟨0, [], List.not_mem_nil⟩

/-- The first of two messages of 5 bytes is returned. -/
theorem short_returned :
    ⟨logLine (clock 1 12 0 0 0).toTm (ascii "short"), 0⟩ ∈
      readLog (logFile ([] ++ notice (ascii "short") (fun _ => clock 1 12 0 0 0) ::
        [notice (ascii "other") fun _ => clock 1 12 0 0 10])) := by
  apply readLog_originals.2
  · decide
  · decide
  · decide
  · decide +kernel
  · intro k hk
    cases hk

/-- A full message, and a short one 10 ms later. -/
def fullThenShort : List LogCall :=
  [notice (List.replicate 510 97) fun _ => clock 1 12 0 0 0,
    notice (ascii "short") fun _ => clock 1 12 0 0 10]

/-- A message of two pieces, the second of them stamped 20 ms later on the next day. -/
def overMidnight : List LogCall :=
  [notice (List.replicate 511 97) fun i => if i = 0 then clock 1 23 59 59 990 else clock 2 0 0 0 10]

/-- A message with a newline inside. -/
def twoLines : List LogCall := [notice [97, 10, 97] fun _ => clock 1 12 0 0 0]

/-- An error message with an error number. -/
def withErrno : List LogCall :=
  [{ loglevel := 3
     buf := ascii "failed"
     stamp := fun _ => clock 1 12 0 0 0
     errno := fun _ => ⟨2, ascii "No such file or directory", by decide⟩ }]

/-- A short message that follows a full one is returned at its end, and no message comes back
that goes over midnight, has a newline or gets an error number. -/
theorem fullThenShort_joined :
    (readLog (logFile fullThenShort) ≠ originals fullThenShort ∧
      logLine (clock 1 12 0 0 10).toTm (ascii "short") ∉
        (readLog (logFile fullThenShort)).map Joined.line) ∧
    readLog (logFile overMidnight) ≠ originals overMidnight ∧
    readLog (logFile twoLines) ≠ originals twoLines ∧
    readLog (logFile withErrno) ≠ originals withErrno := by
  decide +kernel

end CashStratum
