/-
CashStratum/ConnectorRx.lean

What the connector reads from a miner (`parse_client_msg` of `connector.c`).  A client's buffer
holds the start of a line; each read is put behind it, and the lines that have come are taken
off the front, parsed and passed on, up to one that the client is dropped for.

`received` says what a stream is worth: its lines up to the first that is not accepted.  It may
be cut anywhere (`received_of_none`, `received_of_some`), and a turn of the loop gives what it
says of the buffer and what was read (`ClientRx.Ready.read`), so every segmentation does.
-/
import CashStratum.ByteString
import CashStratum.Lines
import CashStratum.Run

namespace CashStratum

/-- `MAX_MSGSIZE` -/
def maxMsgsize : Nat := 1024

/-- `MAX_REMOTE_MSGSIZE` -/
def maxRemoteMsgsize : Nat := 16 * 1024 * 1024

/-- `PAGESIZE` -/
def pageSize : Nat := 4096

/-- `round_up_page` -/
def roundUpPage (len : Nat) : Nat :=
  if len % pageSize = 0 then len else len + (pageSize - len % pageSize)

/-- Why a client is dropped. -/
inductive RxDrop
  /-- `DR_BUF_OVERLOAD` -/
  | bufOverload
  /-- `DR_MSG_OVERSIZE` -/
  | msgOversize
  /-- `DR_BAD_JSON` -/
  | badJson
  /-- The peer is gone, or another thread has dropped the client. -/
  | gone
deriving DecidableEq

/-- What `parse_client_msg` works on, and the messages it has passed on.  `buf` are the first
`bufofs` bytes of the buffer, and `size` is what was allocated for it. -/
structure ClientRx (δ : Type) where
  buf : Bytes
  size : Nat
  remote : Bool
  dispatched : List δ
  dropped : Option RxDrop

/-- `recruit_client` -/
def recruitClient (δ : Type) : ClientRx δ := ⟨[], pageSize, false, [], none⟩

variable {δ : Type}

/-- What stands at `retry`, before a read. -/
def ClientRx.retry (c : ClientRx δ) : ClientRx δ :=
  if maxMsgsize < c.buf.length then
    if !c.remote || maxRemoteMsgsize < c.buf.length then { c with dropped := some .bufOverload }
    else { c with size := roundUpPage (c.buf.length + maxMsgsize + 1) }
  else c

/-- `yyjson_read`, without flags, of a whole line. -/
abbrev JsonRead (δ : Type) : Type := Bytes → Option δ

variable (jsonRead : JsonRead δ)

/-- The loop at `reparse`: the lines that have come. -/
def ClientRx.reparse (c : ClientRx δ) : ClientRx δ :=
  match _h : cutLine 10 c.buf with
  | none => c
  | some (line, rest) =>
    if maxMsgsize < line.length ∧ (!c.remote || maxRemoteMsgsize < line.length) then
      { c with dropped := some .msgOversize }
    else if line.head? ≠ some 0x7b then { c with dropped := some .badJson }
    else
      match jsonRead line with
      | none => { c with dropped := some .badJson }
      | some doc => { c with buf := rest, dispatched := c.dispatched ++ [doc] }.reparse
termination_by c.buf.length
decreasing_by exact cutLine_length_lt _h

inductive RxEvent
  /-- `read` has returned `data`. -/
  | read (data : Bytes)
  /-- `add_remote_client` -/
  | addRemote
  /-- The peer hangs up, or another thread drops the client. -/
  | drop

/-- A client that was dropped does not come to `retry`. -/
def ClientRx.turn (c : ClientRx δ) : ClientRx δ := if c.dropped.isSome then c else c.retry

/-- A turn of `parse_client_msg` begins and ends at `retry`. -/
def ClientRx.step (c : ClientRx δ) : RxEvent → ClientRx δ
  | .read data =>
    let c := c.turn
    if c.dropped.isSome then c else ({ c with buf := c.buf ++ data }.reparse jsonRead).turn
  | .addRemote => if c.dropped.isSome then c else { c with remote := true }
  | .drop => if c.dropped.isSome then c else { c with dropped := some .gone }

/-! ### What a stream is worth -/

section Stream

/-- Why a line is not accepted. -/
inductive LineFault
  | oversize
  | badJson
deriving DecidableEq

/-- The message of a line. -/
def acceptLine (limit : Nat) (line : Bytes) : Except LineFault δ :=
  if limit < line.length then .error .oversize
  else if line.head? ≠ some 0x7b then .error .badJson
  else
    match jsonRead line with
    | none => .error .badJson
    | some doc => .ok doc

/-- The messages of the lines before the first that is not accepted, and what is wrong with that
one. -/
def acceptLines (limit : Nat) : List Bytes → List δ × Option LineFault
  | [] => ([], none)
  | line :: rest =>
    match acceptLine jsonRead limit line with
    | .error fault => ([], some fault)
    | .ok doc => (doc :: (acceptLines limit rest).1, (acceptLines limit rest).2)

/-- The messages of a stream.  A line that has not ended is too long as soon as it is over the
limit. -/
def received (limit : Nat) (stream : Bytes) : List δ × Option LineFault :=
  let r := acceptLines jsonRead limit (lines 10 stream).1
  match r.2 with
  | some fault => (r.1, some fault)
  | none => (r.1, if limit < (lines 10 stream).2.length then some .oversize else none)

variable {jsonRead} {limit : Nat}

theorem acceptLines_append (xs ys : List Bytes) :
    acceptLines jsonRead limit (xs ++ ys) =
      match (acceptLines jsonRead limit xs).2 with
      | some fault => ((acceptLines jsonRead limit xs).1, some fault)
      | none => ((acceptLines jsonRead limit xs).1 ++ (acceptLines jsonRead limit ys).1,
          (acceptLines jsonRead limit ys).2) := by
  induction xs with
  | nil => rfl
  | cons x xs ih =>
    rw [List.cons_append, acceptLines, acceptLines]
    cases acceptLine jsonRead limit x with
    | error fault => rfl
    | ok doc =>
      dsimp only
      rw [ih]
      cases (acceptLines jsonRead limit xs).2 with
      | some fault => rfl
      | none => rfl

theorem received_of_fault {stream : Bytes} {fault : LineFault}
    (h : (acceptLines jsonRead limit (lines 10 stream).1).2 = some fault) :
    received jsonRead limit stream
      = ((acceptLines jsonRead limit (lines 10 stream).1).1, some fault) := by
  rw [received, h]

theorem received_of_no_fault {stream : Bytes}
    (h : (acceptLines jsonRead limit (lines 10 stream).1).2 = none) :
    received jsonRead limit stream = ((acceptLines jsonRead limit (lines 10 stream).1).1,
      if limit < (lines 10 stream).2.length then some .oversize else none) := by
  rw [received, h]

/-- A line that is too long before it has ended. -/
theorem received_long {start : Bytes} (h : cutLine 10 start = none) (hlong : limit < start.length)
    (ys : Bytes) : received jsonRead limit (start ++ ys) = ([], some .oversize) := by
  cases hys : cutLine 10 ys with
  | none =>
    have hnone : cutLine 10 (start ++ ys) = none := by rw [cutLine_append_of_none h, hys]; rfl
    have hmore : limit < (start ++ ys).length := by
      rw [List.length_append]
      omega
    rw [received_of_no_fault] <;> rw [lines_of_none hnone]
    · rw [if_pos hmore]
      rfl
    · rfl
  | some r =>
    have hsome : cutLine 10 (start ++ ys) = some (start ++ r.1, r.2) := by
      rw [cutLine_append_of_none h, hys]
      rfl
    have hfault : acceptLine jsonRead limit (start ++ r.1) = .error .oversize := by
      rw [acceptLine, if_pos]
      rw [List.length_append]
      omega
    rw [@received_of_fault _ _ _ _ LineFault.oversize] <;>
    rw [lines_of_some hsome, acceptLines, hfault]

/-- The lines that were accepted are, and what is behind them goes on. -/
theorem received_append {xs : Bytes} (h : (acceptLines jsonRead limit (lines 10 xs).1).2 = none)
    (ys : Bytes) :
    received jsonRead limit (xs ++ ys) = ((acceptLines jsonRead limit (lines 10 xs).1).1 ++
        (received jsonRead limit ((lines 10 xs).2 ++ ys)).1,
      (received jsonRead limit ((lines 10 xs).2 ++ ys)).2) := by
  rw [received, received, lines_append xs ys]
  dsimp only
  rw [acceptLines_append, h]
  cases (acceptLines jsonRead limit (lines 10 ((lines 10 xs).2 ++ ys)).1).2 with
  | some fault => rfl
  | none => rfl

/-- **What ends a stream ends every stream that goes on from it.** -/
theorem received_of_some {xs : Bytes} (h : (received jsonRead limit xs).2 ≠ none) (ys : Bytes) :
    received jsonRead limit (xs ++ ys) = received jsonRead limit xs := by
  cases hfault : (acceptLines jsonRead limit (lines 10 xs).1).2 with
  | some fault =>
    have hboth : acceptLines jsonRead limit (lines 10 (xs ++ ys)).1
        = ((acceptLines jsonRead limit (lines 10 xs).1).1, some fault) := by
      rw [lines_append, acceptLines_append, hfault]
    rw [received_of_fault hfault, received_of_fault (congrArg Prod.snd hboth), hboth]
  | none =>
    rw [received_of_no_fault hfault] at h ⊢
    have hlong : limit < (lines 10 xs).2.length := by
      by_contra hno
      exact h (if_neg hno)
    rw [received_append hfault, received_long (lines_spec xs).2.2 hlong, if_pos hlong,
      List.append_nil]

/-- **A stream may be cut anywhere.** -/
theorem received_of_none {xs : Bytes} (h : (received jsonRead limit xs).2 = none) (ys : Bytes) :
    received jsonRead limit (xs ++ ys) = ((received jsonRead limit xs).1 ++
        (received jsonRead limit ((lines 10 xs).2 ++ ys)).1,
      (received jsonRead limit ((lines 10 xs).2 ++ ys)).2) := by
  cases hfault : (acceptLines jsonRead limit (lines 10 xs).1).2 with
  | some fault =>
    rw [received_of_fault hfault] at h
    cases h
  | none => rw [received_append hfault, received_of_no_fault hfault]

end Stream

/-! ### A turn of the loop -/

section Turn

variable {jsonRead} {c : ClientRx δ}

/-- How long a line may be. -/
def msgLimit (remote : Bool) : Nat := if remote then maxRemoteMsgsize else maxMsgsize

/-- What is wrong with the line that a client is dropped for. -/
def RxDrop.fault : RxDrop → Option LineFault
  | .bufOverload => some .oversize
  | .msgOversize => some .oversize
  | .badJson => some .badJson
  | .gone => none

theorem oversize_iff (remote : Bool) (len : Nat) :
    (maxMsgsize < len ∧ (!remote || decide (maxRemoteMsgsize < len)) = true) ↔
      msgLimit remote < len := by
  have hlimits : maxMsgsize ≤ maxRemoteMsgsize := by decide
  cases remote with
  | false => simp [msgLimit]
  | true =>
    simp only [msgLimit, Bool.not_true, Bool.false_or, decide_eq_true_eq, if_true]
    omega

theorem le_roundUpPage (len : Nat) : len ≤ roundUpPage len := by
  rw [roundUpPage]
  split_ifs
  · exact le_rfl
  · exact Nat.le_add_right _ _

theorem page_le_roundUpPage {len : Nat} (h : 0 < len) : pageSize ≤ roundUpPage len := by
  rw [roundUpPage, show pageSize = 4096 from rfl]
  split_ifs <;> omega

/-- From `c` to `c'` the messages `r` were passed on, and `tail` is left unless the client was
dropped. -/
structure ClientRx.Passes (c c' : ClientRx δ) (r : List δ × Option LineFault) (tail : Bytes) :
    Prop where
  dispatched : c'.dispatched = c.dispatched ++ r.1
  fault : c'.dropped.bind RxDrop.fault = r.2
  alive : c'.dropped = none ↔ r.2 = none
  buf : c'.dropped = none → c'.buf = tail
  size : c'.size = c.size
  remote : c'.remote = c.remote

theorem ClientRx.Passes.drop (c : ClientRx δ) {why : RxDrop} {fault : LineFault}
    (h : why.fault = some fault) (tail : Bytes) :
    c.Passes { c with dropped := some why } ([], some fault) tail where
  dispatched := (List.append_nil _).symm
  fault := h
  alive := ⟨fun hno => (by cases hno), fun hno => (by cases hno)⟩
  buf hno := by cases hno
  size := rfl
  remote := rfl

/-- The loop at `reparse` accepts what `acceptLines` does. -/
theorem ClientRx.reparse_passes (hc : c.dropped = none) :
    c.Passes (c.reparse jsonRead) (acceptLines jsonRead (msgLimit c.remote) (lines 10 c.buf).1)
      (lines 10 c.buf).2 := by
  induction hlen : c.buf.length using Nat.strong_induction_on generalizing c with
  | _ len ih =>
    rw [ClientRx.reparse]
    split
    · next hnone =>
        rw [lines_of_none hnone]
        exact
          { dispatched := (List.append_nil _).symm
            fault := by rw [hc]; rfl
            alive := iff_of_true hc rfl
            buf := fun _ => rfl
            size := rfl
            remote := rfl }
    · next line rest hsome =>
        rw [lines_of_some hsome, acceptLines]
        by_cases hover : maxMsgsize < line.length ∧
            (!c.remote || decide (maxRemoteMsgsize < line.length)) = true
        · rw [if_pos hover, acceptLine, if_pos ((oversize_iff _ _).mp hover)]
          exact ClientRx.Passes.drop c rfl _
        · rw [if_neg hover, acceptLine, if_neg (mt (oversize_iff _ _).mpr hover)]
          by_cases hbrace : line.head? ≠ some 0x7b
          · rw [if_pos hbrace, if_pos hbrace]
            exact ClientRx.Passes.drop c rfl _
          · rw [if_neg hbrace, if_neg hbrace]
            cases jsonRead line with
            | none => exact ClientRx.Passes.drop c rfl _
            | some doc =>
              have hrest := ih rest.length (hlen ▸ cutLine_length_lt hsome)
                (c := { c with buf := rest, dispatched := c.dispatched ++ [doc] }) hc rfl
              refine ⟨?_, hrest.fault, hrest.alive, hrest.buf, hrest.size, hrest.remote⟩
              refine hrest.dispatched.trans ?_
              rw [List.append_assoc]
              rfl

/-- A client that waits for a read: its buffer holds the start of a line, and has room. -/
structure ClientRx.Ready (c : ClientRx δ) : Prop where
  alive : c.dropped = none
  start : cutLine 10 c.buf = none
  short : c.buf.length ≤ msgLimit c.remote
  room : c.buf.length + maxMsgsize + 1 ≤ c.size
  page : pageSize ≤ c.size

/-- What is checked at `retry`. -/
theorem ClientRx.turn_spec (hc : c.dropped = none) (hstart : cutLine 10 c.buf = none)
    (hpage : pageSize ≤ c.size) :
    (msgLimit c.remote < c.buf.length ∧ c.turn = { c with dropped := some .bufOverload }) ∨
    (c.buf.length ≤ msgLimit c.remote ∧ ∃ size, c.turn = { c with size := size } ∧
      ClientRx.Ready { c with size := size }) := by
  have hlive : ¬ c.dropped.isSome = true := by rw [hc]; exact Bool.false_ne_true
  rw [ClientRx.turn, if_neg hlive, ClientRx.retry]
  by_cases hover : maxMsgsize < c.buf.length ∧
      (!c.remote || decide (maxRemoteMsgsize < c.buf.length)) = true
  · rw [if_pos hover.1, if_pos hover.2]
    exact Or.inl ⟨(oversize_iff _ _).mp hover, rfl⟩
  · have hshort := not_lt.mp (mt (oversize_iff _ _).mpr hover)
    refine Or.inr ⟨hshort, ?_⟩
    by_cases hgrow : maxMsgsize < c.buf.length
    · have hlimit : ¬ (!c.remote || decide (maxRemoteMsgsize < c.buf.length)) = true :=
        fun hno => hover ⟨hgrow, hno⟩
      have hpos : 0 < c.buf.length + maxMsgsize + 1 := Nat.lt_add_one_of_le (Nat.zero_le _)
      have hroom := le_roundUpPage (c.buf.length + maxMsgsize + 1)
      have hleast := page_le_roundUpPage hpos
      rw [if_pos hgrow, if_neg hlimit]
      generalize roundUpPage (c.buf.length + maxMsgsize + 1) = size at hroom hleast ⊢
      exact ⟨size, rfl, ⟨hc, hstart, hshort, hroom, hleast⟩⟩
    · rw [if_neg hgrow]
      refine ⟨c.size, rfl, ⟨hc, hstart, hshort, ?_, hpage⟩⟩
      refine le_trans ?_ hpage
      rw [maxMsgsize] at hgrow
      rw [maxMsgsize, pageSize]
      show c.buf.length + 1024 + 1 ≤ 4096
      omega

theorem ClientRx.turn_of_dropped (hc : c.dropped ≠ none) : c.turn = c := by
  rw [ClientRx.turn, if_pos (Option.isSome_iff_ne_none.mpr hc)]

/-- A read at the start `c` of a turn gives `c'`: the messages of what was in the buffer and what
was read. -/
structure ClientRx.Reads (jsonRead : JsonRead δ) (c c' : ClientRx δ) (data : Bytes) : Prop where
  dispatched :
    c'.dispatched = c.dispatched ++ (received jsonRead (msgLimit c.remote) (c.buf ++ data)).1
  fault :
    c'.dropped.bind RxDrop.fault = (received jsonRead (msgLimit c.remote) (c.buf ++ data)).2
  alive :
    c'.dropped = none ↔ (received jsonRead (msgLimit c.remote) (c.buf ++ data)).2 = none
  ready : c'.dropped = none →
    c'.Ready ∧ c'.buf = (lines 10 (c.buf ++ data)).2 ∧ c'.remote = c.remote

theorem ClientRx.Ready.read (h : c.Ready) (data : Bytes) :
    c.Reads jsonRead (c.step jsonRead (.read data)) data := by
  rcases ClientRx.turn_spec h.alive h.start h.page with ⟨hover, -⟩ | ⟨-, size, hturn, hready⟩
  · exact absurd h.short (not_le.mpr hover)
  have hlive : ¬ c.dropped.isSome = true := by rw [h.alive]; exact Bool.false_ne_true
  have hpasses := @ClientRx.reparse_passes δ jsonRead { c with size := size, buf := c.buf ++ data }
    h.alive
  rw [ClientRx.step, hturn]
  dsimp only at hpasses ⊢
  rw [if_neg hlive]
  generalize ClientRx.reparse jsonRead _ = c' at hpasses ⊢
  obtain ⟨hdocs, hfault, halive, hbuf, hsize, hremote⟩ := hpasses
  cases hr : (acceptLines jsonRead (msgLimit c.remote) (lines 10 (c.buf ++ data)).1).2 with
  | some fault =>
    have hdropped : c'.dropped ≠ none := by
      rw [Ne, halive, hr]
      exact Option.some_ne_none fault
    have hreceived := received_of_fault hr
    rw [ClientRx.turn_of_dropped hdropped]
    refine ⟨?_, ?_, ?_, fun hno => absurd hno hdropped⟩
    · rw [hreceived, hdocs]
    · rw [hreceived, hfault, hr]
    · rw [hreceived]
      exact iff_of_false hdropped (Option.some_ne_none fault)
  | none =>
    have hdropped := halive.mpr hr
    have hreceived := received_of_no_fault hr
    have htail := hbuf hdropped
    have hstart : cutLine 10 c'.buf = none := by
      rw [htail]
      exact (lines_spec _).2.2
    rcases ClientRx.turn_spec hdropped hstart (hsize ▸ hready.page)
      with ⟨hover, hnext⟩ | ⟨hshort, size', hnext, hready'⟩
    · rw [htail, hremote] at hover
      rw [if_pos hover] at hreceived
      rw [hnext]
      refine ⟨?_, ?_, ?_, fun hno => by cases hno⟩
      · rw [hreceived, hdocs]
      · rw [hreceived]
        rfl
      · rw [hreceived]
        exact iff_of_false (Option.some_ne_none _) (Option.some_ne_none _)
    · rw [htail, hremote] at hshort
      rw [if_neg (not_lt.mpr hshort)] at hreceived
      rw [hnext]
      refine ⟨?_, ?_, ?_, fun _ => ⟨hready', htail, hremote⟩⟩
      · rw [hreceived, hdocs]
      · rw [hreceived]
        exact congrArg (fun d => d.bind RxDrop.fault) hdropped
      · rw [hreceived]
        exact iff_of_true hdropped rfl

end Turn

/-! ### Every run -/

section Run

variable {jsonRead} {c : ClientRx δ}

theorem ClientRx.step_of_dropped (hc : c.dropped ≠ none) (e : RxEvent) :
    c.step jsonRead e = c := by
  have hsome := Option.isSome_iff_ne_none.mpr hc
  cases e with
  | read data =>
    rw [ClientRx.step, ClientRx.turn_of_dropped hc]
    exact if_pos hsome
  | addRemote => exact if_pos hsome
  | drop => exact if_pos hsome

theorem run_of_dropped (hc : c.dropped ≠ none) (events : List RxEvent) :
    run (ClientRx.step jsonRead) c events = c := by
  induction events with
  | nil => rfl
  | cons e events ih => rw [run_cons, ClientRx.step_of_dropped hc, ih]

/-- A client is dropped, or it waits for a read. -/
theorem ClientRx.step_ready (h : c.dropped = none → c.Ready) (e : RxEvent)
    (halive : (c.step jsonRead e).dropped = none) : (c.step jsonRead e).Ready := by
  by_cases hc : c.dropped = none
  · have hready := h hc
    have hlive : ¬ c.dropped.isSome = true := by rw [hc]; exact Bool.false_ne_true
    cases e with
    | read data => exact ((hready.read data).ready halive).1
    | addRemote =>
      rw [ClientRx.step, if_neg hlive]
      refine ⟨hready.alive, hready.start, hready.short.trans ?_, hready.room, hready.page⟩
      rw [msgLimit, msgLimit, if_pos rfl]
      split_ifs
      · exact le_rfl
      · decide
    | drop =>
      rw [ClientRx.step, if_neg hlive] at halive
      cases halive
  · rw [ClientRx.step_of_dropped hc] at halive
    exact absurd halive hc

/-- A stream of reads is received as it would be in one. -/
theorem ClientRx.Ready.reads (h : c.Ready) (reads : List Bytes) :
    c.Reads jsonRead (run (ClientRx.step jsonRead) c (reads.map .read)) reads.flatten := by
  induction reads generalizing c with
  | nil =>
    have hreceived : received jsonRead (msgLimit c.remote) (c.buf ++ []) = ([], none) := by
      rw [List.append_nil, received_of_no_fault] <;> rw [lines_of_none h.start]
      · rw [if_neg (not_lt.mpr h.short)]
        rfl
      · rfl
    refine ⟨?_, ?_, ?_, fun _ => ⟨h, ?_, rfl⟩⟩
    · show c.dispatched = _
      rw [List.flatten_nil, hreceived, List.append_nil]
    · show c.dropped.bind _ = _
      rw [List.flatten_nil, hreceived, h.alive]
      rfl
    · show c.dropped = none ↔ _
      rw [List.flatten_nil, hreceived]
      exact iff_of_true h.alive rfl
    · show c.buf = _
      rw [List.flatten_nil, List.append_nil, lines_of_none h.start]
  | cons data reads ih =>
    have hfirst := @ClientRx.Ready.read δ jsonRead c h data
    rw [List.map_cons, run_cons, List.flatten_cons]
    generalize c.step jsonRead (.read data) = c' at hfirst ⊢
    by_cases hc : c'.dropped = none
    · obtain ⟨hready, hbuf, hremote⟩ := hfirst.ready hc
      have hrest := ih hready
      have hreceived := received_of_none (hfirst.alive.mp hc) reads.flatten
      rw [List.append_assoc, ← hbuf, ← hremote] at hreceived
      refine ⟨?_, ?_, ?_, fun halive => ?_⟩
      · rw [← hremote, hreceived, hrest.dispatched, hfirst.dispatched, hremote, List.append_assoc]
      · rw [← hremote, hreceived, hrest.fault]
      · rw [← hremote, hreceived, hrest.alive]
      · obtain ⟨hlast, htail, hsame⟩ := hrest.ready halive
        refine ⟨hlast, ?_, hsame.trans hremote⟩
        rw [htail, hbuf, ← List.append_assoc, lines_append (c.buf ++ data)]
    · have hreceived := received_of_some (mt hfirst.alive.mpr hc) reads.flatten
      rw [List.append_assoc] at hreceived
      rw [run_of_dropped hc]
      refine ⟨?_, ?_, ?_, fun halive => absurd halive hc⟩
      · rw [hreceived, hfirst.dispatched]
      · rw [hreceived, hfirst.fault]
      · rw [hreceived, hfirst.alive]

/-- From any state of a connection on, and whatever is read in whatever pieces: a client that has
not been dropped passes on the messages of the lines that come, in order, up to the first that is
too long, does not begin with a brace or is no JSON; it is dropped for that one, and otherwise
its buffer holds what is behind the last line.  The pieces do not matter, nothing is passed on
once it is dropped, and before every read there is room for `MAX_MSGSIZE` bytes and a `\0`. -/
theorem lines_dispatched_exactly (jsonRead : JsonRead δ) (before : List RxEvent)
    (reads : List Bytes) :
    let c := run (ClientRx.step jsonRead) (recruitClient δ) before
    let c' := run (ClientRx.step jsonRead) c (reads.map .read)
    let r := received jsonRead (msgLimit c.remote) (c.buf ++ reads.flatten)
    (c.dropped = none →
      c'.dispatched = c.dispatched ++ r.1 ∧ c'.dropped.bind RxDrop.fault = r.2 ∧
      (c'.dropped = none ↔ r.2 = none) ∧
      (c'.dropped = none → c'.buf = (lines 10 (c.buf ++ reads.flatten)).2)) ∧
    (c.dropped ≠ none → c' = c) ∧
    (∀ reads' : List Bytes, reads'.flatten = reads.flatten →
      let c'' := run (ClientRx.step jsonRead) c (reads'.map .read)
      c''.dispatched = c'.dispatched ∧ (c''.dropped = none ↔ c'.dropped = none) ∧
      c''.dropped.bind RxDrop.fault = c'.dropped.bind RxDrop.fault) ∧
    (c'.turn.dropped = none → c'.turn.buf.length + maxMsgsize + 1 ≤ c'.turn.size) := by
  intro c c' r
  have hnew : (recruitClient δ).dropped = none → (recruitClient δ).Ready := fun halive =>
    ⟨halive, rfl, Nat.zero_le _, (by decide : 0 + maxMsgsize + 1 ≤ pageSize), le_rfl⟩
  have hready : c.dropped = none → c.Ready :=
    run_invariant_always (I := fun c : ClientRx δ => c.dropped = none → c.Ready)
      (fun _ e h halive => ClientRx.step_ready h e halive) before hnew
  have hready' : c'.dropped = none → c'.Ready :=
    run_invariant_always (I := fun c : ClientRx δ => c.dropped = none → c.Ready)
      (fun _ e h halive => ClientRx.step_ready h e halive) (reads.map .read) hready
  refine ⟨fun halive => ?_, fun hdropped => run_of_dropped hdropped _, fun reads' hflat => ?_,
    fun halive => ?_⟩
  · have hreads := @ClientRx.Ready.reads δ jsonRead c (hready halive) reads
    exact ⟨hreads.dispatched, hreads.fault, hreads.alive, fun hc' => (hreads.ready hc').2.1⟩
  · by_cases halive : c.dropped = none
    · have hreads := @ClientRx.Ready.reads δ jsonRead c (hready halive) reads
      have hreads' := @ClientRx.Ready.reads δ jsonRead c (hready halive) reads'
      rw [hflat] at hreads'
      exact ⟨hreads'.dispatched.trans hreads.dispatched.symm,
        hreads'.alive.trans hreads.alive.symm, hreads'.fault.trans hreads.fault.symm⟩
    · intro c''
      have hc' : c' = c := run_of_dropped halive _
      have hc'' : c'' = c := run_of_dropped halive _
      rw [hc', hc'']
      exact ⟨rfl, Iff.rfl, rfl⟩
  · by_cases hc' : c'.dropped = none
    · have hwait := hready' hc'
      rcases ClientRx.turn_spec hwait.alive hwait.start hwait.page
        with ⟨hover, -⟩ | ⟨-, size, hturn, hroom⟩
      · exact absurd hwait.short (not_le.mpr hover)
      · rw [hturn]
        exact hroom.room
    · rw [ClientRx.turn_of_dropped hc'] at halive
      exact absurd halive hc'

/-- Three reads: a line cut in two, two lines in one read, and one that is no JSON. -/
theorem cut_lines_dispatched :
    let jsonRead : JsonRead Bytes := fun line => if line.length = 4 then some line else none
    let c := run (ClientRx.step jsonRead) (recruitClient Bytes)
      [.read [0x7b, 1], .read [0x7d, 10, 0x7b, 2], .read [0x7d, 10, 0x7b, 0x7b, 10, 0x7b]]
    c.dispatched = [[0x7b, 1, 0x7d, 10], [0x7b, 2, 0x7d, 10]] ∧
      c.dropped.bind RxDrop.fault = some .badJson := by
  intro jsonRead c
  have hall := lines_dispatched_exactly jsonRead []
    [[0x7b, 1], [0x7d, 10, 0x7b, 2], [0x7d, 10, 0x7b, 0x7b, 10, 0x7b]]
  obtain ⟨hdocs, hfault, -, -⟩ := hall.1 rfl
  exact ⟨hdocs.trans (by decide +kernel), hfault.trans (by decide +kernel)⟩

end Run

end CashStratum
