/-
CashStratum/SolvedLine.lean

The worker names in the messages about solved blocks (`block_solve` of the pool; `SplitWorker`,
`SplitWorkerName`, `shortWorkerName` and `ParseLine` of the API).

The pool splits a worker name at its first `.` or `_`, and so do two of the readers.  The third,
`SplitWorker`, knows the `.` only, and gives a name with an `_` in front of it another payout
identity.  The expression that reads the message takes a name for a field without white space:
the message is read as it was written exactly if its name is one, if its height is not negative,
and if its protocol is a field that the buffer of the pool holds (`solved_read_iff`).
-/
import CashStratum.Authorise
import CashStratum.PoolLine
import CashStratum.Username

namespace CashStratum

/-! ### The writer -/

/-- `pbuf` of `block_solve` -/
def protocolBuf : Option Bytes → Bytes
  | some protocol => snprintf 32 (ascii " on " ++ protocol)
  | none => []

/-- The message of `block_solve`. -/
def blockSolveText (height : Int32) (workername protocol : Option Bytes) : Bytes :=
  match workername with
  | some workername =>
    ascii "Solved and confirmed block " ++ formatInt height.toInt ++ ascii " by " ++ workername ++
      protocolBuf protocol
  | none => ascii "Solved and confirmed block!"

/-! ### The splitters -/

/-- `shortWorkerName` -/
def shortWorkerName (workername username : Bytes) : Bytes :=
  let rest := workername.drop username.length
  if username ≠ [] ∧ username <+: workername ∧ ∃ c ∈ rest.head?, c = 46 ∨ c = 95 then rest.tail
  else (workername.dropWhile fun c => c ≠ 46 ∧ c ≠ 95).tail

/-- The readers split a name as the pool does, whatever user name without a separator the last
of them is given for a hint. -/
structure SplitAlike (name : Bytes) : Prop where
  splitWorker : Poolfmt.splitWorker name = ((strsep name).1, (strsep name).2.getD [])
  splitWorkerName : splitWorkerName name = strsep name
  shortWorkerName : ∀ username, (∀ c ∈ username, isSeparator c = false) →
    shortWorkerName name username = (strsep name).2.getD []

theorem not_isSeparator : (fun c => !isSeparator c) = fun c => decide (c ≠ 46 ∧ c ≠ 95) := by
  funext c
  rw [Bool.eq_iff_iff]
  simp [isSeparator]

theorem getD_tail? (l : Bytes) : l.tail?.getD [] = l.tail := by
  cases l <;> rfl

theorem splitWorkerName_eq (name : Bytes) : splitWorkerName name = strsep name := by
  rw [splitWorkerName, strsep, not_isSeparator]

theorem shortWorkerName_eq (name : Bytes) {username : Bytes}
    (h : ∀ c ∈ username, isSeparator c = false) :
    shortWorkerName name username = (strsep name).2.getD [] := by
  have hscan : (strsep name).2.getD [] = (name.dropWhile fun c => c ≠ 46 ∧ c ≠ 95).tail := by
    rw [strsep, not_isSeparator, getD_tail?]
  rw [shortWorkerName, hscan]
  split_ifs with hhint
  · obtain ⟨-, ⟨rest, rfl⟩, c, hc, hsep⟩ := hhint
    rw [List.drop_left] at hc ⊢
    have hdrop : (username ++ rest).dropWhile (fun c => c ≠ 46 ∧ c ≠ 95) = rest := by
      refine (takeWhile_run (fun d hd => ?_) fun d hd => ?_).2
      · have hd := h d hd
        simpa [isSeparator] using hd
      · obtain rfl : c = d := Option.some_injective _ (hc.symm.trans hd)
        rw [decide_eq_false_iff_not, not_and_or, not_not, not_not]
        exact hsep
    rw [hdrop]
  · rfl

/-- A text up to the first dot, if no `_` is in front of it. -/
theorem takeWhile_dot {name : Bytes} (h : 95 ∉ name.takeWhile (· ≠ 46)) :
    name.takeWhile (fun c => c ≠ 46 ∧ c ≠ 95) = name.takeWhile (· ≠ 46) ∧
      name.dropWhile (fun c => c ≠ 46 ∧ c ≠ 95) = name.dropWhile (· ≠ 46) := by
  induction name with
  | nil => exact ⟨rfl, rfl⟩
  | cons c name ih =>
    by_cases hdot : c = 46
    · rw [hdot]
      exact ⟨rfl, rfl⟩
    · rw [List.takeWhile_cons_of_pos (by simpa using hdot)] at h
      have hne : c ≠ 95 := (List.ne_of_not_mem_cons h).symm
      obtain ⟨htake, hdrop⟩ := ih (List.not_mem_of_not_mem_cons h)
      constructor
      · simpa [hdot, hne] using htake
      · simpa [hdot, hne] using hdrop

/-- **The splitters agree on a name exactly if it has no `_` in front of its first dot.** -/
theorem splitAlike_iff (name : Bytes) : SplitAlike name ↔ 95 ∉ name.takeWhile (· ≠ 46) := by
  have hsep : strsep name = (name.takeWhile (fun c => c ≠ 46 ∧ c ≠ 95),
      (name.dropWhile fun c => c ≠ 46 ∧ c ≠ 95).tail?) := by
    rw [strsep, not_isSeparator]
  constructor
  · intro h hmem
    have hfirst := congrArg Prod.fst h.splitWorker
    rw [hsep] at hfirst
    have hsame : name.takeWhile (· ≠ 46) = name.takeWhile (fun c => c ≠ 46 ∧ c ≠ 95) := hfirst
    rw [hsame] at hmem
    have hinside := List.mem_takeWhile_imp hmem
    exact (of_decide_eq_true hinside).2 rfl
  · intro h
    obtain ⟨htake, hdrop⟩ := takeWhile_dot h
    refine ⟨?_, splitWorkerName_eq name, fun _ => shortWorkerName_eq name⟩
    rw [hsep, Poolfmt.splitWorker, htake, hdrop, getD_tail?]

/-! ### The expression -/

/-- What stands behind the name, which is nothing without a protocol. -/
def onProtocol (protocol : Bytes) : Bytes :=
  if protocol = [] then [] else ascii " on " ++ protocol

/-- A message with its fields. -/
structure SolvedShape (body height worker protocol : Bytes) : Prop where
  height_ne : height ≠ []
  height_digit : ∀ c ∈ height, isDigit c = true
  worker_ne : worker ≠ []
  worker_field : ∀ c ∈ worker, isNotSpace c = true
  protocol_field : ∀ c ∈ protocol, isNotSpace c = true
  body_eq : body =
    ascii "Solved and confirmed block " ++ (height ++ (ascii " by " ++ (worker ++
      onProtocol protocol)))

theorem repeats_some_iff {inside : UInt8 → Bool} {d : Bytes} :
    Regex.Repeats 1 none inside d ↔ d ≠ [] ∧ ∀ c ∈ d, inside c = true := by
  simp [Regex.Repeats, Nat.one_le_iff_ne_zero]

theorem takes_some_iff {lazy : Bool} {inside : UInt8 → Bool} {d : Bytes} {ws : List Bytes} :
    Regex.Takes (.group (.rep lazy 1 none inside)) d ws ↔
      ws = [d] ∧ d ≠ [] ∧ ∀ c ∈ d, inside c = true := by
  rw [Regex.takes_group_iff]
  constructor
  · rintro ⟨vs, rfl, h⟩
    obtain ⟨hrep, rfl⟩ := Regex.takes_rep_iff.mp h
    exact ⟨rfl, repeats_some_iff.mp hrep⟩
  · rintro ⟨rfl, h⟩
    exact ⟨[], rfl, Regex.takes_rep_iff.mpr ⟨repeats_some_iff.mpr h, rfl⟩⟩

theorem takes_onProtocol_iff {d : Bytes} {ws : List Bytes} :
    Regex.Takes (.opt (.seq (Poolfmt.txt " on ") Poolfmt.field)) d ws ↔
      ∃ protocol, ws = [protocol] ∧ (∀ c ∈ protocol, isNotSpace c = true) ∧
        d = onProtocol protocol := by
  rw [Regex.opt, Regex.takes_alt_iff]
  constructor
  · rintro (⟨vs, rfl, h⟩ | ⟨vs, rfl, h⟩)
    · obtain ⟨_, protocol, _, _, rfl, rfl, hon, hprotocol⟩ := Regex.takes_seq_iff.mp h
      obtain ⟨rfl, rfl⟩ := Regex.takes_word_iff.mp hon
      obtain ⟨rfl, hne, hfield⟩ := takes_some_iff.mp hprotocol
      exact ⟨protocol, rfl, hfield, (if_neg hne).symm⟩
    · obtain ⟨rfl, rfl⟩ := Regex.takes_word_iff.mp h
      exact ⟨[], rfl, by simp, rfl⟩
  · rintro ⟨protocol, rfl, hfield, rfl⟩
    by_cases hne : protocol = []
    · subst hne
      exact Or.inr ⟨[], rfl, Regex.takes_word_iff.mpr ⟨rfl, rfl⟩⟩
    · refine Or.inl ⟨[protocol], rfl, ?_⟩
      rw [onProtocol, if_neg hne]
      exact .seq (.word _) (takes_some_iff.mpr ⟨rfl, hne, hfield⟩)

theorem takes_reSolved_iff {body : Bytes} {ws : List Bytes} :
    Regex.Takes Poolfmt.reSolved body ws ↔
      ∃ height worker protocol, ws = [height, worker, protocol] ∧
        SolvedShape body height worker protocol := by
  constructor
  · intro h
    obtain ⟨_, _, _, _, rfl, rfl, hword, hnumber⟩ := Regex.takes_seq_iff.mp h
    obtain ⟨rfl, rfl⟩ := Regex.takes_word_iff.mp hword
    obtain ⟨height, _, _, _, rfl, rfl, hheight, hbehind⟩ := Regex.takes_seq_iff.mp hnumber
    obtain ⟨rfl, hheightNe, hdigit⟩ := takes_some_iff.mp hheight
    obtain ⟨_, _, _, _, rfl, rfl, hby, hname⟩ := Regex.takes_seq_iff.mp hbehind
    obtain ⟨rfl, rfl⟩ := Regex.takes_word_iff.mp hby
    obtain ⟨worker, _, _, _, rfl, rfl, hworker, hon⟩ := Regex.takes_seq_iff.mp hname
    obtain ⟨rfl, hworkerNe, hfield⟩ := takes_some_iff.mp hworker
    obtain ⟨protocol, rfl, hprotocol, rfl⟩ := takes_onProtocol_iff.mp hon
    exact ⟨height, worker, protocol, rfl, hheightNe, hdigit, hworkerNe, hfield, hprotocol, rfl⟩
  · rintro ⟨height, worker, protocol, rfl, hshape⟩
    rw [hshape.body_eq]
    have hheight : Regex.Takes Poolfmt.number height [height] :=
      takes_some_iff.mpr ⟨rfl, hshape.height_ne, hshape.height_digit⟩
    have hworker : Regex.Takes (.group (.rep true 1 none isNotSpace)) worker [worker] :=
      takes_some_iff.mpr ⟨rfl, hshape.worker_ne, hshape.worker_field⟩
    have hon := takes_onProtocol_iff.mpr ⟨protocol, rfl, hshape.protocol_field, rfl⟩
    exact .seq (.word _) (.seq hheight (.seq (.word _) (.seq hworker hon)))

theorem onProtocol_head (protocol : Bytes) :
    ∀ c ∈ (onProtocol protocol).head?, isNotSpace c = false := by
  have hon : ascii " on " = 32 :: ascii "on " := by decide
  rw [onProtocol, hon]
  split_ifs
  · simp
  · intro c hc
    obtain rfl : 32 = c := Option.some_injective _ hc
    rfl

/-- The fields of a message are where it says. -/
theorem SolvedShape.unique {body h w p h' w' p' : Bytes} (hs : SolvedShape body h w p)
    (hs' : SolvedShape body h' w' p') : h = h' ∧ w = w' ∧ p = p' := by
  have hby : ascii " by " = 32 :: ascii "by " := by decide
  have hspace : ∀ t : Bytes, ∀ c ∈ (ascii " by " ++ t).head?, isDigit c = false := by
    intro t c hc
    rw [hby] at hc
    obtain rfl : 32 = c := Option.some_injective _ hc
    rfl
  have hbody := List.append_cancel_left (hs.body_eq.symm.trans hs'.body_eq)
  obtain ⟨htake, hdrop⟩ := takeWhile_run hs.height_digit (hspace (w ++ onProtocol p))
  obtain ⟨htake', hdrop'⟩ := takeWhile_run hs'.height_digit (hspace (w' ++ onProtocol p'))
  rw [hbody] at htake hdrop
  have hrest := List.append_cancel_left (hdrop.symm.trans hdrop')
  obtain ⟨hwtake, hwdrop⟩ := takeWhile_run hs.worker_field (onProtocol_head p)
  obtain ⟨hwtake', hwdrop'⟩ := takeWhile_run hs'.worker_field (onProtocol_head p')
  rw [hrest] at hwtake hwdrop
  have hend : onProtocol p = onProtocol p' := hwdrop.symm.trans hwdrop'
  refine ⟨htake.symm.trans htake', hwtake.symm.trans hwtake', ?_⟩
  have hon : ascii " on " ≠ [] := by decide
  rw [onProtocol, onProtocol] at hend
  split_ifs at hend with hp hp' hp'
  · rw [hp, hp']
  · exact absurd hend.symm (by simp [hon])
  · exact absurd hend (by simp [hon])
  · exact List.append_cancel_left hend

/-- **What the expression finds in a message.** -/
theorem findSubmatch_reSolved {body height worker protocol : Bytes} :
    Poolfmt.reSolved.findSubmatch body = some [height, worker, protocol] ↔
      SolvedShape body height worker protocol := by
  constructor
  · intro h
    obtain ⟨_, _, _, heq, hshape⟩ := takes_reSolved_iff.mp (Regex.takes_of_findSubmatch h)
    cases heq
    exact hshape
  · intro hshape
    refine Regex.findSubmatch_of_unique (takes_reSolved_iff.mpr ⟨_, _, _, rfl, hshape⟩) ?_
    intro vs hvs
    obtain ⟨_, _, _, rfl, hshape'⟩ := takes_reSolved_iff.mp hvs
    obtain ⟨rfl, rfl, rfl⟩ := hshape.unique hshape'
    rfl

/-! ### The stamp -/

/-- The zone of the reader has the local time that the pool stamps a line with. -/
def Shown (loc : Poolfmt.Location) (t : LocalTime) : Prop :=
  1 ≤ t.mday ∧
    loc.day (loc.date (t.year + 1900) (t.mon + 1) t.mday t.hour t.min t.sec (t.ms * 10 ^ 6)) =
      t.mday

/-- The text of a stamp between its brackets. -/
def stampText (t : LocalTime) : Bytes := ((getTimestamp t.toTm).take 24).drop 1

instance (loc : Poolfmt.Location) (t : LocalTime) : Decidable (Shown loc t) :=
  inferInstanceAs (Decidable (_ ∧ _))

theorem length_stampText (t : LocalTime) : (stampText t).length = 23 := by
  rw [stampText, List.length_drop, List.length_take, length_getTimestamp]
  rfl

theorem getElem?_stampText (t : LocalTime) {i : Nat} (h : i < 23) :
    (stampText t)[i]? = (getTimestamp t.toTm)[i + 1]? := by
  rw [stampText, List.getElem?_drop, List.getElem?_take_of_lt (by omega), Nat.add_comm]

theorem digits_stampText (t : LocalTime) {i n : Nat} (h : i + n ≤ 23) :
    Poolfmt.digits (stampText t) i n = stampDigits (getTimestamp t.toTm) (i + 1) n := by
  have hlen : ¬ (stampText t).length < i + n := by
    rw [length_stampText]
    omega
  rw [Poolfmt.digits, if_neg hlen, stampDigits, stampDigits, stampText, List.drop_drop,
    List.drop_take, List.take_take, Nat.add_comm 1 i, Nat.min_eq_left (by omega)]

/-- A mark of a stamp. -/
theorem getElem?_stampPart (t : LocalTime) {k i : Nat} {c : UInt8}
    (h : (stampParts t.toTm)[k]? = some [c]) (hi : (stampLengths.take k).sum = i) :
    (getTimestamp t.toTm)[i]? = some c := by
  obtain ⟨a, ha, b, hb⟩ := stampPart_at t h
  rw [← hb, List.append_assoc, List.getElem?_append_right (by omega), ha, hi, Nat.sub_self]
  rfl

/-- **A stamp of the pool is read as the time that it tells.** -/
theorem parseStamp_stampText {loc : Poolfmt.Location} {t : LocalTime} (h : Shown loc t) :
    Poolfmt.parseStamp loc (stampText t) =
      some (loc.date (t.year + 1900) (t.mon + 1) t.mday t.hour t.min t.sec (t.ms * 10 ^ 6)) := by
  have hmarks : ascii "-" = [45] ∧ ascii " " = [32] ∧ ascii ":" = [58] ∧ ascii "." = [46] := by
    decide
  obtain ⟨hdash, hspace, hcolon, hdot⟩ := hmarks
  have hmark : ∀ (k i : Nat) (c : UInt8), (stampParts t.toTm)[k]? = some [c] → i < 23 →
      (stampLengths.take k).sum = i + 1 → (stampText t)[i]? = some c := by
    intro k i c hpart hi hsum
    rw [getElem?_stampText t hi]
    exact getElem?_stampPart t hpart hsum
  have hfield : ∀ (k i w n : Nat), w ≠ 0 → n < 10 ^ w →
      (stampParts t.toTm)[k]? = some (formatPadded w n) → i + w ≤ 23 →
      (stampLengths.take k).sum = i + 1 → Poolfmt.digits (stampText t) i w = some n := by
    intro k i w n hw hn hpart hi hsum
    rw [digits_stampText t hi, ← hsum]
    exact stampDigits_part t hw hn hpart
  have hyear : Poolfmt.digits (stampText t) 0 4 = some (t.year + 1900) := by
    have hlow : 10 ^ 3 ≤ t.year + 1900 := by omega
    have hlen := length_formatNat_year hlow (by have := t.year_lt; omega)
    have hsum : (stampLengths.take 1).sum = 0 + 1 := rfl
    obtain ⟨a, ha, hprefix⟩ := stampPart_at t (k := 1) rfl
    rw [digits_stampText t (by decide), ← hsum, stampDigits_of_head hprefix ha hlen,
      stampDigits_formatNat hlen]
  have hmon := hfield 3 5 2 (t.mon + 1) two_ne_zero (by have := t.mon_lt; omega) rfl (by decide) rfl
  have hmday := hfield 5 8 2 t.mday two_ne_zero (by have := t.mday_le; omega) rfl (by decide) rfl
  have hhour := hfield 7 11 2 t.hour two_ne_zero (by have := t.hour_lt; omega) rfl (by decide) rfl
  have hmin := hfield 9 14 2 t.min two_ne_zero (by have := t.min_lt; omega) rfl (by decide) rfl
  have hsec := hfield 11 17 2 t.sec two_ne_zero (by have := t.sec_le; omega) rfl (by decide) rfl
  have hms := hfield 13 20 3 t.ms three_ne_zero t.ms_lt rfl (by decide) rfl
  have hshape : ¬ ((stampText t).length ≠ 23 ∨ (stampText t)[4]? ≠ some 45 ∨
      (stampText t)[7]? ≠ some 45 ∨ (stampText t)[10]? ≠ some 32 ∨ (stampText t)[13]? ≠ some 58 ∨
      (stampText t)[16]? ≠ some 58 ∨ (stampText t)[19]? ≠ some 46) := by
    simp only [not_or, not_not]
    exact ⟨length_stampText t, hmark 2 4 45 (congrArg some hdash) (by decide) rfl,
      hmark 4 7 45 (congrArg some hdash) (by decide) rfl,
      hmark 6 10 32 (congrArg some hspace) (by decide) rfl,
      hmark 8 13 58 (congrArg some hcolon) (by decide) rfl,
      hmark 10 16 58 (congrArg some hcolon) (by decide) rfl,
      hmark 12 19 46 (congrArg some hdot) (by decide) rfl⟩
  have hrange : ¬ (t.mon + 1 < 1 ∨ 12 < t.mon + 1 ∨ t.mday < 1 ∨ 31 < t.mday ∨ 23 < t.hour ∨
      59 < t.min ∨ 60 < t.sec) := by
    have := t.mon_lt
    have := t.mday_le
    have := t.hour_lt
    have := t.min_lt
    have := t.sec_le
    have := h.1
    omega
  rw [Poolfmt.parseStamp, if_neg hshape, hyear, hmon, hmday, hhour, hmin, hsec, hms]
  simp only [Option.bind_eq_bind, Option.bind_some]
  rw [if_neg hrange, if_neg (not_not.mpr h.2)]

set_option maxRecDepth 20000 in
/-- A line of the pool is read by its message, if the message is no white space. -/
theorem parseLineIn_logLine (json : Poolfmt.Json) {loc : Poolfmt.Location} {t : LocalTime}
    (h : Shown loc t) {text : Bytes} {c : UInt8} (hc : c ∉ ascii "\r\n") :
    Poolfmt.parseLineIn json loc (logLine t.toTm (c :: text)) =
      { Poolfmt.parseBody json (c :: text) with
        time := loc.date (t.year + 1900) (t.mon + 1) t.mday t.hour t.min t.sec (t.ms * 10 ^ 6)
        hasTime := true } := by
  have htext := trimRight_append hc text (s := [])
  rw [List.nil_append, List.nil_append] at htext
  have htrim : trimRight (ascii "\r\n") (logLine t.toTm (c :: text)) =
      getTimestamp t.toTm ++ 32 :: trimRight (ascii "\r\n") (c :: text) := by
    have hspace : ascii " " = [32] := by decide
    have hmem : (32 : UInt8) ∉ ascii "\r\n" := by decide
    rw [logLine, hspace, List.append_assoc, List.singleton_append, trimRight_append hmem]
  have hlen := length_getTimestamp t
  have hopen : (getTimestamp t.toTm)[0]? = some 91 := by
    have hmark : ascii "[" = [91] := by decide
    exact getElem?_stampPart t (k := 0) (congrArg some hmark) rfl
  have hclose : (getTimestamp t.toTm)[24]? = some 93 := by
    have hmark : ascii "]" = [93] := by decide
    exact getElem?_stampPart t (k := 14) (congrArg some hmark) rfl
  have hprefix : Poolfmt.parsePrefixIn loc (trimRight (ascii "\r\n") (logLine t.toTm (c :: text))) =
      some (loc.date (t.year + 1900) (t.mon + 1) t.mday t.hour t.min t.sec (t.ms * 10 ^ 6),
        trimRight (ascii "\r\n") (c :: text)) := by
    rw [htrim, htext]
    have hshape : ¬ ((getTimestamp t.toTm ++ 32 :: c :: trimRight (ascii "\r\n") text).length < 26 ∨
        (getTimestamp t.toTm ++ 32 :: c :: trimRight (ascii "\r\n") text).head? ≠ some 91 ∨
        (getTimestamp t.toTm ++ 32 :: c :: trimRight (ascii "\r\n") text)[24]? ≠ some 93 ∨
        (getTimestamp t.toTm ++ 32 :: c :: trimRight (ascii "\r\n") text)[25]? ≠ some 32) := by
      simp only [not_or, not_not]
      refine ⟨?_, ?_, ?_, ?_⟩
      · rw [List.length_append, hlen, List.length_cons, List.length_cons]
        omega
      · rw [List.head?_eq_getElem?, List.getElem?_append_left (by omega), hopen]
      · rw [List.getElem?_append_left (by omega), hclose]
      · rw [List.getElem?_append_right (by omega), hlen]
        rfl
    rw [Poolfmt.parsePrefixIn, if_neg hshape, List.take_append_of_le_length (by omega)]
    have hstamp := parseStamp_stampText h
    rw [stampText] at hstamp
    have hdrop : (getTimestamp t.toTm ++ 32 :: c :: trimRight (ascii "\r\n") text).drop 26 =
        c :: trimRight (ascii "\r\n") text := by
      rw [List.drop_append, hlen, List.drop_eq_nil_of_le (by omega)]
      rfl
    rw [hstamp, hdrop]
    rfl
  have hbody : Poolfmt.parseBody json (trimRight (ascii "\r\n") (c :: text)) =
      Poolfmt.parseBody json (c :: text) := by
    have hsub : ∀ c ∈ ascii "\r\n", c ∈ ascii " \t\r\n" := by decide
    rw [Poolfmt.parseBody, Poolfmt.parseBody, Poolfmt.trimLine, Poolfmt.trimLine,
      trimRight_trimRight hsub]
  rw [Poolfmt.parseLineIn, hprefix]
  dsimp only
  rw [hbody]

/-! ### The message -/

/-- The reader takes a message for what the pool wrote. -/
structure ReadBack (ev : Poolfmt.Event) (height : Int32) (name : Bytes) (protocol : Option Bytes) :
    Prop where
  kind : ev.kind = .solved
  height : ev.height = height.toInt
  worker : ev.worker = name
  /-- An empty protocol is one that is absent. -/
  protocol : ev.protocol = protocol.getD []

/-- A name that is a field, with no `_` in front of its first dot. -/
def ReadableName (name : Bytes) : Prop :=
  name ≠ [] ∧ (∀ c ∈ name, isNotSpace c = true) ∧ 95 ∉ name.takeWhile (· ≠ 46)

/-- A protocol that is absent, or a field that the buffer of the pool holds. -/
def ReadableProtocol (protocol : Option Bytes) : Prop :=
  ∀ p ∈ protocol, p ≠ [] ∧ p.length ≤ 27 ∧ ∀ c ∈ p, isNotSpace c = true

set_option maxRecDepth 20000 in
theorem parseBody_solved (json : Poolfmt.Json) (rest : Bytes) :
    Poolfmt.parseBody json (ascii "Solved and confirmed block " ++ rest) =
      Poolfmt.parseSolved (Poolfmt.trimLine (ascii "Solved and confirmed block " ++ rest)) := by
  have hsplit : ascii "Solved and confirmed block " =
      ascii "Solved" ++ 32 :: ascii "and confirmed bloc" ++ 107 :: [32] := by decide
  have hmem : (107 : UInt8) ∉ ascii " \t\r\n" := by decide
  have htrim : Poolfmt.trimLine (ascii "Solved and confirmed block " ++ rest) =
      ascii "Solved" ++ (32 :: ascii "and confirmed bloc" ++
        107 :: trimRight (ascii " \t\r\n") (32 :: rest)) := by
    have happend := trimRight_append hmem (32 :: rest)
      (s := ascii "Solved" ++ 32 :: ascii "and confirmed bloc")
    rw [List.append_assoc] at happend
    rw [Poolfmt.trimLine, hsplit, List.append_assoc, List.cons_append]
    exact happend
  have hword : (Poolfmt.trimLine (ascii "Solved and confirmed block " ++ rest)).takeWhile
      (fun c => c ≠ 32 ∧ c ≠ 58) = ascii "Solved" := by
    rw [htrim]
    refine (takeWhile_run ?_ ?_).1
    · decide
    · intro c hc
      obtain rfl : 32 = c := Option.some_injective _ hc
      rfl
  have hfamily : (Poolfmt.families json).lookup (ascii "Solved") = some Poolfmt.parseSolved := rfl
  have hne : Poolfmt.trimLine (ascii "Solved and confirmed block " ++ rest) ≠ [] := by
    rw [htrim]
    exact List.append_ne_nil_of_right_ne_nil _ (List.cons_ne_nil _ _)
  rw [Poolfmt.parseBody, if_neg hne, hword, hfamily]

/-- **What is read of a message.** -/
theorem parseSolved_iff {body : Bytes} {height : Int32} {name : Bytes} {protocol : Option Bytes} :
    ReadBack (Poolfmt.parseSolved body) height name protocol ↔
      ∃ digits, SolvedShape body digits name (protocol.getD []) ∧
        parseInt64 digits = some height.toInt := by
  constructor
  · intro h
    by_cases hno : body = ascii "Solved and confirmed block!"
    · have hkind := h.kind
      rw [Poolfmt.parseSolved, if_pos hno] at hkind
      cases hkind
    · rw [Poolfmt.parseSolved, if_neg hno] at h
      cases hfind : Poolfmt.reSolved.findSubmatch body with
      | none =>
        rw [hfind] at h
        cases h.kind
      | some ws =>
        obtain ⟨digits, worker, p, rfl, hshape⟩ :=
          takes_reSolved_iff.mp (Regex.takes_of_findSubmatch hfind)
        rw [hfind] at h
        dsimp only at h
        cases hparse : parseInt64 digits with
        | none =>
          rw [hparse] at h
          cases h.kind
        | some v =>
          rw [hparse] at h
          obtain ⟨-, hheight, hworker, hprotocol⟩ := h
          dsimp only at hheight hworker hprotocol
          rw [hworker, hprotocol] at hshape
          exact ⟨digits, hshape, by rw [hparse, hheight]⟩
  · rintro ⟨digits, hshape, hparse⟩
    have hno : body ≠ ascii "Solved and confirmed block!" := by
      intro hbody
      have hprefix : ascii "Solved and confirmed block " <+: body := by
        rw [hshape.body_eq]
        exact List.prefix_append _ _
      rw [hbody] at hprefix
      revert hprefix
      decide
    rw [Poolfmt.parseSolved, if_neg hno, findSubmatch_reSolved.mpr hshape]
    dsimp only
    rw [hparse]
    exact ⟨rfl, rfl, rfl, rfl⟩

theorem not_mem_blank {c : UInt8} (h : isNotSpace c = true) : c ∉ ascii " \t\r\n" := by
  have hset : ascii " \t\r\n" = [32, 9, 13, 10] := by decide
  intro hmem
  rw [hset] at hmem
  simp only [List.mem_cons, List.not_mem_nil, or_false] at hmem
  rcases hmem with rfl | rfl | rfl | rfl <;> cases h

theorem trimLine_append {s : Bytes} (hne : s ≠ []) (h : ∀ c ∈ s, isNotSpace c = true)
    (before behind : Bytes) :
    Poolfmt.trimLine (before ++ (s ++ behind)) = before ++ (s ++ Poolfmt.trimLine behind) := by
  obtain rfl | ⟨s, c, rfl⟩ := List.eq_nil_or_concat s
  · exact absurd rfl hne
  · rw [List.concat_eq_append] at h ⊢
    have hc := not_mem_blank (h c List.mem_concat_self)
    have happend := trimRight_append hc behind (s := before ++ s)
    simpa [Poolfmt.trimLine] using happend

/-- What the pool writes behind the name, without white space at the end, is a protocol exactly
if it was written as one. -/
theorem trimLine_protocol_iff {protocol : Option Bytes} :
    (∀ c ∈ protocol.getD [], isNotSpace c = true) ∧
        Poolfmt.trimLine (protocolBuf protocol) = onProtocol (protocol.getD []) ↔
      ReadableProtocol protocol := by
  have hlen : (ascii " on ").length = 4 := by decide
  cases protocol with
  | none => exact ⟨fun _ p hp => (by cases hp), fun _ => ⟨by simp, rfl⟩⟩
  | some p =>
    rw [Option.getD_some, protocolBuf]
    constructor
    · rintro ⟨hfield, htrim⟩ q hq
      obtain rfl : p = q := Option.some_injective _ hq
      have hne : p ≠ [] := by
        intro hp
        rw [hp] at htrim
        revert htrim
        decide
      rw [onProtocol, if_neg hne] at htrim
      have hle := (List.rdropWhile_prefix (fun c => decide (c ∈ ascii " \t\r\n"))
        (snprintf 32 (ascii " on " ++ p))).length_le
      have heq := congrArg List.length htrim
      rw [Poolfmt.trimLine, trimRight] at heq
      rw [heq, snprintf, List.length_take, List.length_append, hlen] at hle
      exact ⟨hne, by omega, hfield⟩
    · intro h
      obtain ⟨hne, hle, hfield⟩ := h p rfl
      have hcut : snprintf 32 (ascii " on " ++ p) = ascii " on " ++ p := by
        refine List.take_of_length_le ?_
        rw [List.length_append, hlen]
        omega
      have htrim := trimLine_append hne hfield (ascii " on ") []
      rw [List.append_nil] at htrim
      refine ⟨hfield, ?_⟩
      rw [hcut, onProtocol, if_neg hne, htrim]
      simp [Poolfmt.trimLine, trimRight]

theorem isDigit_formatNat {n : Nat} : ∀ c ∈ formatNat n, isDigit c = true := by
  intro c hc
  have hdigit := formatNat_digit hc
  simp [isDigit, hdigit.1, hdigit.2]

theorem parseInt64_formatNat {n : Nat} (h : n < 2 ^ 63) :
    parseInt64 (formatNat n) = some (n : Int) := by
  have hsign : splitSign (formatNat n) = (false, formatNat n) := by
    cases hdigits : formatNat n with
    | nil => exact absurd hdigits (formatNat_ne_nil n)
    | cons c rest =>
      have hc : isDigit c = true := by
        refine isDigit_formatNat (n := n) c ?_
        rw [hdigits]
        exact List.mem_cons_self
      unfold splitSign
      split
      · next heq => cases heq; cases hc
      · next heq => cases heq; cases hc
      · rfl
  have hall : (formatNat n).all isDigit = true := List.all_eq_true.mpr isDigit_formatNat
  rw [parseInt64, hsign]
  dsimp only
  rw [if_pos hall, scanNat_formatNat]
  exact if_pos h

/-- **A message is read as it was written exactly if its fields are plain.** -/
theorem solvedText_read_iff (height : Int32) (name : Bytes) (protocol : Option Bytes) :
    ReadBack (Poolfmt.parseSolved (Poolfmt.trimLine (blockSolveText height (some name) protocol)))
        height name protocol ↔
      name ≠ [] ∧ (∀ c ∈ name, isNotSpace c = true) ∧ 0 ≤ height.toInt ∧
        ReadableProtocol protocol := by
  have htext : blockSolveText height (some name) protocol =
      ascii "Solved and confirmed block " ++ (formatInt height.toInt ++ (ascii " by " ++ (name ++
        protocolBuf protocol))) := by
    simp only [blockSolveText, List.append_assoc]
  have hby : ascii " by " = 32 :: ascii "by " := by decide
  have hspace : ∀ t : Bytes, ∀ c ∈ (ascii " by " ++ t).head?, isDigit c = false := by
    intro t c hc
    rw [hby] at hc
    obtain rfl : 32 = c := Option.some_injective _ hc
    rfl
  have htrim : name ≠ [] → (∀ c ∈ name, isNotSpace c = true) →
      Poolfmt.trimLine (blockSolveText height (some name) protocol) =
        ascii "Solved and confirmed block " ++ (formatInt height.toInt ++ (ascii " by " ++ (name ++
          Poolfmt.trimLine (protocolBuf protocol)))) := by
    intro hne hfield
    rw [htext]
    simpa only [List.append_assoc] using trimLine_append hne hfield
      (ascii "Solved and confirmed block " ++ (formatInt height.toInt ++ ascii " by "))
      (protocolBuf protocol)
  rw [parseSolved_iff]
  constructor
  · rintro ⟨digits, hshape, hparse⟩
    have hbody := hshape.body_eq
    rw [htrim hshape.worker_ne hshape.worker_field] at hbody
    have hrest := List.append_cancel_left hbody
    obtain ⟨htake, hdrop⟩ := takeWhile_run hshape.height_digit
      (hspace (name ++ onProtocol (protocol.getD [])))
    rw [← hrest] at htake hdrop
    have hsign : 0 ≤ height.toInt := by
      -- a sign is no digit
      by_contra hneg
      have hminus : formatInt height.toInt = 45 :: formatNat height.toInt.natAbs :=
        if_pos (by omega)
      rw [hminus, List.cons_append, List.takeWhile_cons_of_neg (by decide)] at htake
      exact hshape.height_ne htake.symm
    have hdigits : ∀ c ∈ formatInt height.toInt, isDigit c = true := by
      have hnat : formatInt height.toInt = formatNat height.toInt.natAbs := if_neg (by omega)
      rw [hnat]
      exact isDigit_formatNat
    rw [(takeWhile_run hdigits (hspace _)).2] at hdrop
    have hend := List.append_cancel_left (List.append_cancel_left hdrop)
    exact ⟨hshape.worker_ne, hshape.worker_field, hsign,
      trimLine_protocol_iff.mp ⟨hshape.protocol_field, hend⟩⟩
  · rintro ⟨hne, hfield, hsign, hprotocol⟩
    obtain ⟨hpfield, hend⟩ := trimLine_protocol_iff.mpr hprotocol
    have hnat : formatInt height.toInt = formatNat height.toInt.natAbs := if_neg (by omega)
    have hlt := height.toInt_lt
    refine ⟨formatNat height.toInt.natAbs, ?_, ?_⟩
    · refine ⟨formatNat_ne_nil _, isDigit_formatNat, hne, hfield, hpfield, ?_⟩
      rw [htrim hne hfield, hend, hnat]
    · rw [parseInt64_formatNat (by omega), Int.natAbs_of_nonneg hsign]

/-- **When the readers agree with the pool about a name.**  A name is split alike by all of them,
and the message about a solved block is read as it was written, exactly if the name is a field
with no `_` in front of its first dot, the height is not negative, and the protocol is absent or
a field that the buffer of the pool holds. -/
theorem solved_read_iff (json : Poolfmt.Json) {loc : Poolfmt.Location} {t : LocalTime}
    (h : Shown loc t) (height : Int32) (name : Bytes) (protocol : Option Bytes) :
    (SplitAlike name ∧
      ReadBack (Poolfmt.parseLineIn json loc
        (logLine t.toTm (blockSolveText height (some name) protocol))) height name protocol) ↔
      ReadableName name ∧ 0 ≤ height.toInt ∧ ReadableProtocol protocol := by
  have hline : ReadBack (Poolfmt.parseLineIn json loc
      (logLine t.toTm (blockSolveText height (some name) protocol))) height name protocol ↔
      ReadBack (Poolfmt.parseSolved
        (Poolfmt.trimLine (blockSolveText height (some name) protocol))) height name protocol := by
    obtain ⟨rest, hrest⟩ : ∃ rest, blockSolveText height (some name) protocol =
        ascii "Solved and confirmed block " ++ rest :=
      ⟨_, by simp only [blockSolveText, List.append_assoc]; rfl⟩
    have hcons : ascii "Solved and confirmed block " =
        83 :: ascii "olved and confirmed block " := by decide
    have hparse := parseBody_solved json rest
    rw [hrest, ← hparse, hcons, List.cons_append, parseLineIn_logLine json h (by decide)]
    constructor
    · rintro ⟨a, b, c, d⟩
      exact ⟨a, b, c, d⟩
    · rintro ⟨a, b, c, d⟩
      exact ⟨a, b, c, d⟩
  rw [hline, splitAlike_iff, solvedText_read_iff, ReadableName]
  constructor
  · rintro ⟨hsep, hne, hfield, hheight, hprotocol⟩
    exact ⟨⟨hne, hfield, hsep⟩, hheight, hprotocol⟩
  · rintro ⟨⟨hne, hfield, hsep⟩, hheight, hprotocol⟩
    exact ⟨hsep, hne, hfield, hheight, hprotocol⟩

theorem solveTime_year_lt : 126 < 8100 := by decide

/-- The 14th of February 2026, 09:26:53. -/
def solveTime : LocalTime where
  year := 126
  mon := 1
  mday := 14
  hour := 9
  min := 26
  sec := 53
  ms := 589
  year_lt := solveTime_year_lt
  mon_lt := by decide
  mday_le := by decide
  hour_lt := by decide
  min_lt := by decide
  sec_le := by decide
  ms_lt := by decide

theorem shown_solveTime : Shown Poolfmt.utc solveTime := by decide

theorem solved_read_rig :
    SplitAlike (ascii "qz7xc0.rig_1") ∧
      ReadBack (Poolfmt.parseLineIn Poolfmt.noJson Poolfmt.utc (logLine solveTime.toTm
        (blockSolveText 900000 (some (ascii "qz7xc0.rig_1")) (some (ascii "SV1")))))
        900000 (ascii "qz7xc0.rig_1") (some (ascii "SV1")) := by
  refine (solved_read_iff Poolfmt.noJson shown_solveTime 900000 _ _).mpr ⟨?_, by decide, ?_⟩
  · exact ⟨by decide +kernel, by decide +kernel, by decide +kernel⟩
  · intro p hp
    obtain rfl : ascii "SV1" = p := Option.some_injective _ hp
    exact ⟨by decide +kernel, by decide +kernel, by decide +kernel⟩

/-- One of the readers takes the whole of `qz7xc0_rig` for a payout identity. -/
theorem underscore_split_apart :
    ¬ ∀ (json : Poolfmt.Json) (loc : Poolfmt.Location) (t : LocalTime), Shown loc t →
        ∀ (useragent : Option Bytes) (params : Params) (name : Bytes),
        checkAuthorise useragent params = .ok name →
        ∀ (height : Int32) (protocol : Option Bytes), 0 ≤ height.toInt → ReadableProtocol protocol →
          SplitAlike name ∧
            ReadBack (Poolfmt.parseLineIn json loc
              (logLine t.toTm (blockSolveText height (some name) protocol)))
              height name protocol := by
  intro hall
  have hadmit : checkAuthorise (some (ascii "cpuminer")) (some [.str (ascii "qz7xc0_rig")]) =
      .ok (ascii "qz7xc0_rig") := by decide
  have hsplit := (hall Poolfmt.noJson Poolfmt.utc solveTime shown_solveTime _ _ _ hadmit 900000 none
    (by decide) (by simp [ReadableProtocol])).1.splitWorker
  revert hsplit
  decide

end CashStratum
