/-
CashStratum/PoolEvents.lean

The events that a line of the log of the pool stands for (`classify.go`, `solve.go`).

`Classify` looks for three messages about blocks anywhere in the line, and for the reason of a
rejection, which it only remembers.  `Quiet` says of a text which of the messages are in it, in
terms of what the expressions match; a line with a quiet text gives no event and changes
nothing, whatever the classifier remembers, and no other line does
(`classify_stamped_iff`).

The expressions are those of Go on bytes: no byte of a longer character is white space, a digit
or the end of a line.
-/
import CashStratum.CText
import CashStratum.Difficulty
import CashStratum.Scan

namespace CashStratum

/-- The bytes of a text of the source. -/
def ascii (s : String) : Bytes := s.toUTF8.data.toList

/-! ### Events -/

/-- What a call reads of the world: the time in nanoseconds, the ids that it mints, and the name
of the pool. -/
structure World where
  now : Int
  uuid : Nat → Bytes
  pool : Bytes

/-- `NotifierVersion` -/
def notifierVersion : Bytes := ascii "1.0.0"

/-- `Envelope` -/
structure Envelope where
  event : Bytes
  eventID : Bytes
  emittedAt : Int
  pool : Bytes
  notifierVersion : Bytes
  deriving DecidableEq

/-- `NewEnvelope`, with the id it mints. -/
def World.newEnvelope (w : World) (event id : Bytes) : Envelope :=
  { event, eventID := id, emittedAt := w.now, pool := w.pool, notifierVersion }

/-- The events of blocks of the pool. -/
inductive BlockEvent where
  | submitted (envelope : Envelope) (solveID : Bytes)
  | block (envelope : Envelope) (solveID : Bytes) (height : Nat) (workername username : Bytes)
      (worker : Option Bytes)
  | rejected (envelope : Envelope) (solveID : Bytes) (height : Nat) (reason : Option Bytes)
  deriving DecidableEq

/-- `NewPoolBlockSubmittedEvent` -/
def World.newPoolBlockSubmittedEvent (w : World) (id : Bytes) : BlockEvent :=
  .submitted (w.newEnvelope (ascii "pool.block.submitted") id) id

/-- `NewPoolBlockEvent` -/
def World.newPoolBlockEvent (w : World) (solveID : Bytes) (height : Nat)
    (workername username : Bytes) (worker : Option Bytes) : BlockEvent :=
  .block (w.newEnvelope (ascii "pool.block") (w.uuid 0)) solveID height workername username worker

/-- `NewPoolBlockRejectedEvent` -/
def World.newPoolBlockRejectedEvent (w : World) (solveID : Bytes) (height : Nat)
    (reason : Option Bytes) : BlockEvent :=
  .rejected (w.newEnvelope (ascii "pool.block.rejected") (w.uuid 0)) solveID height reason

/-! ### The state between lines -/

/-- `SolveIDWindow` -/
def solveIDWindow : Int := 120 * 10 ^ 9

/-- `ReasonWindow` -/
def reasonWindow : Int := 30 * 10 ^ 9

/-- `SolveTracker` -/
structure SolveTracker where
  id : Bytes := []
  openAt : Int := 0
  hasOpen : Bool := false
  deriving DecidableEq

/-- `Open` -/
def SolveTracker.open (now : Int) (id : Bytes) : SolveTracker :=
  { id, openAt := now, hasOpen := true }

/-- `Take` -/
def SolveTracker.take (t : SolveTracker) (now : Int) : SolveTracker × Option Bytes :=
  ({ t with id := [], hasOpen := false },
    if t.hasOpen ∧ now - t.openAt ≤ solveIDWindow then some t.id else none)

/-- `Classifier` -/
structure Classifier where
  solves : SolveTracker := {}
  pendingReason : Bytes := []
  pendingReasonAt : Int := 0
  deriving DecidableEq

/-! ### The expressions -/

/-- `\S` -/
def isNotSpace (c : UInt8) : Bool := c != 9 && c != 10 && c != 12 && c != 13 && c != 32

/-- `.` -/
def isNotNewline (c : UInt8) : Bool := c != 10

/-- `reBlockAccepted` -/
def reBlockAccepted : List (Pattern UInt8) := [[.lit (ascii "BLOCK ACCEPTED!")]]

/-- `reSolvedConfirmed` -/
def reSolvedConfirmed : List (Pattern UInt8) :=
  [[.lit (ascii "Solved and confirmed block "), .run isDigit, .lit (ascii " by "), .run isNotSpace],
   [.lit (ascii "Block "), .run isDigit, .lit (ascii " solved by "), .run isNotSpace,
    .lit (ascii " accepted on SV2/JD")]]

/-- `reBlockRejected` -/
def reBlockRejected : List (Pattern UInt8) :=
  [[.lit (ascii "Submitted, but had block "), .run isDigit, .lit (ascii " rejected")]]

/-- `reSubmitReturned` -/
def reSubmitReturned : List (Pattern UInt8) :=
  [[.lit (ascii "SUBMIT BLOCK RETURNED: "), .run isNotNewline]]

/-! ### Classification -/

/-- `strconv.ParseInt` with base 10 and 64 bits, on a text of digits. -/
def parseInt (digits : Bytes) : Option Nat := (scanNat digits).filter (· < 2 ^ 63)

/-- `SplitWorkerName` -/
def splitWorkerName (workername : Bytes) : Bytes × Option Bytes :=
  (workername.takeWhile fun c => c ≠ 46 ∧ c ≠ 95,
    (workername.dropWhile fun c => c ≠ 46 ∧ c ≠ 95).tail?)

namespace Classifier

variable (c : Classifier) (w : World)

/-- `resolveSolveID` -/
def resolveSolveID : Classifier × Bytes :=
  let (solves, id) := c.solves.take w.now
  ({ c with solves }, id.getD (w.uuid 1))

/-- `takeReason` -/
def takeReason : Classifier × Option Bytes :=
  if c.pendingReason = [] then (c, none)
  else
    ({ c with pendingReason := [] },
      if w.now - c.pendingReasonAt > reasonWindow then none else some c.pendingReason)

/-- `Classify` -/
def classify (line : Bytes) : Classifier × Option BlockEvent :=
  match search reBlockAccepted line with
  | some _ =>
    let id := w.uuid 0
    ({ c with solves := .open w.now id, pendingReason := [] },
      some (w.newPoolBlockSubmittedEvent id))
  | none =>
  match search reSolvedConfirmed line with
  | some m =>
    let workername := m.getD 1 []
    match parseInt (m.getD 0 []) with
    | none => (c, none)
    | some height =>
      let (username, worker) := splitWorkerName workername
      let (c, solveID) := c.resolveSolveID w
      ({ c with pendingReason := [] },
        some (w.newPoolBlockEvent solveID height workername username worker))
  | none =>
  match search reBlockRejected line with
  | some m =>
    match parseInt (m.getD 0 []) with
    | none => (c, none)
    | some height =>
      let (c, reason) := c.takeReason w
      let (c, solveID) := c.resolveSolveID w
      (c, some (w.newPoolBlockRejectedEvent solveID height reason))
  | none =>
  match search reSubmitReturned line with
  | some m => ({ c with pendingReason := m.getD 0 [], pendingReasonAt := w.now }, none)
  | none => (c, none)

/-! ### Quiet texts -/

end Classifier

/-- The first match has a height that does not fit 64 bits. -/
def FirstHeightHuge (alts : List (Pattern UInt8)) (text : Bytes) : Prop :=
  ∃ rest ws digits height, FirstAt alts text rest ∧ MatchesAny alts rest ws ∧
    ws.head? = some digits ∧ scanNat digits = some height ∧ 2 ^ 63 ≤ height

/-- No message about a block is in a text, or the first that is there has a height that does
not fit 64 bits. -/
def Quiet (text : Bytes) : Prop :=
  ¬ Occurs reBlockAccepted text ∧
    (FirstHeightHuge reSolvedConfirmed text ∨
      ¬ Occurs reSolvedConfirmed text ∧
        (FirstHeightHuge reBlockRejected text ∨
          ¬ Occurs reBlockRejected text ∧ ¬ Occurs reSubmitReturned text))

theorem fenced_accepted : ∀ p ∈ reBlockAccepted, Fenced p := by
  intro p hp
  obtain rfl := List.mem_singleton.mp hp
  exact trivial

theorem fenced_solved : ∀ p ∈ reSolvedConfirmed, Fenced p := by
  intro p hp
  obtain rfl | hp := List.mem_cons.mp hp
  · exact ⟨rfl, trivial⟩
  · obtain rfl := List.mem_singleton.mp hp
    exact ⟨rfl, rfl, trivial⟩

theorem fenced_rejected : ∀ p ∈ reBlockRejected, Fenced p := by
  intro p hp
  obtain rfl := List.mem_singleton.mp hp
  exact ⟨rfl, trivial⟩

theorem fenced_returned : ∀ p ∈ reSubmitReturned, Fenced p := by
  intro p hp
  obtain rfl := List.mem_singleton.mp hp
  exact trivial

theorem scanNat_digits {text : Bytes} (h : text.takeWhile isDigit ≠ []) :
    ∃ n, scanNat (text.takeWhile isDigit) = some n := by
  have hall : (text.takeWhile isDigit).takeWhile (fun c => 48 ≤ c ∧ c ≤ 57) =
      text.takeWhile isDigit := by
    rw [List.takeWhile_eq_self_iff]
    intro c hc
    have hdigit : isDigit c = true := List.mem_takeWhile_imp hc
    simpa [isDigit] using hdigit
  rw [scanNat, hall]
  cases hdigits : text.takeWhile isDigit with
  | nil => exact absurd hdigits h
  | cons d digits => exact ⟨_, rfl⟩

/-- Where an expression for a message with a height matches, the height is what its digits
say. -/
def HeightAt (alts : List (Pattern UInt8)) (digitsAt : Bytes → Bytes) : Prop :=
  ∀ text ws, MatchesAny alts text ws →
    ws.head? = some (digitsAt text) ∧ ∃ n, scanNat (digitsAt text) = some n

theorem heightAt_solved : HeightAt reSolvedConfirmed fun text =>
    (text.drop (if text.head? = some 83 then 27 else 6)).takeWhile isDigit := by
  rintro text ws ⟨p, hp, hm⟩
  obtain rfl | hp := List.mem_cons.mp hp
  · obtain ⟨⟨rest, rfl⟩, hne, hhead⟩ := Matches.head_run (c := 32) (w := ascii "by ") rfl hm
    exact ⟨hhead, scanNat_digits hne⟩
  · obtain rfl := List.mem_singleton.mp hp
    obtain ⟨⟨rest, rfl⟩, hne, hhead⟩ := Matches.head_run (c := 32) (w := ascii "solved by ") rfl hm
    exact ⟨hhead, scanNat_digits hne⟩

theorem heightAt_rejected : HeightAt reBlockRejected fun text =>
    (text.drop 25).takeWhile isDigit := by
  rintro text ws ⟨p, hp, hm⟩
  obtain rfl := List.mem_singleton.mp hp
  obtain ⟨-, hne, hhead⟩ := Matches.head_run (c := 32) (w := ascii "rejected") rfl hm
  exact ⟨hhead, scanNat_digits hne⟩

theorem parseInt_eq_none_iff {digits : Bytes} {n : Nat} (h : scanNat digits = some n) :
    parseInt digits = none ↔ 2 ^ 63 ≤ n := by
  rw [parseInt, h]
  simp

/-- A height is not read exactly if the first match has one that is too great. -/
theorem parse_height_iff {alts : List (Pattern UInt8)} {digitsAt : Bytes → Bytes}
    (halts : ∀ p ∈ alts, Fenced p) (hheight : HeightAt alts digitsAt) {text : Bytes}
    {m : List Bytes} (h : search alts text = some m) :
    parseInt (m.getD 0 []) = none ↔ FirstHeightHuge alts text := by
  obtain ⟨rest, hfirst, hm⟩ := search_eq_some halts h
  obtain ⟨hhead, n, hn⟩ := hheight rest m hm
  have hdigits : m.getD 0 [] = digitsAt rest := by
    rw [List.getD_eq_getElem?_getD, ← List.head?_eq_getElem?, hhead]
    rfl
  rw [hdigits, parseInt_eq_none_iff hn]
  constructor
  · intro hhuge
    exact ⟨rest, m, digitsAt rest, n, hfirst, hm, hhead, hn, hhuge⟩
  · rintro ⟨other, ws, digits, height, hother, hws, hhead', hscan, hhuge⟩
    obtain rfl := hfirst.unique hother
    have heq : digits = digitsAt rest := by
      apply Option.some.inj
      rw [← hhead', (hheight rest ws hws).1]
    rw [heq, hn] at hscan
    cases hscan
    exact hhuge

theorem FirstHeightHuge.occurs {alts : List (Pattern UInt8)} {text : Bytes}
    (h : FirstHeightHuge alts text) : Occurs alts text := by
  obtain ⟨rest, ws, -, -, hfirst, hm, -⟩ := h
  exact ⟨rest, ws, hfirst.isSuffix, hm⟩

/-- What a classifier must find in a text for it to be silent. -/
theorem quiet_iff_search (text : Bytes) :
    Quiet text ↔ search reBlockAccepted text = none ∧
      match search reSolvedConfirmed text with
      | some m => parseInt (m.getD 0 []) = none
      | none =>
        match search reBlockRejected text with
        | some m => parseInt (m.getD 0 []) = none
        | none => search reSubmitReturned text = none := by
  rw [Quiet, search_eq_none_iff fenced_accepted]
  refine and_congr_right fun _ => ?_
  cases hsolved : search reSolvedConfirmed text with
  | some m =>
    have hoccurs : Occurs reSolvedConfirmed text := .of_search fenced_solved hsolved
    show _ ↔ parseInt (m.getD 0 []) = none
    rw [parse_height_iff fenced_solved heightAt_solved hsolved]
    exact ⟨fun h => h.resolve_right fun h => h.1 hoccurs, Or.inl⟩
  | none =>
    have hnone : ¬ Occurs reSolvedConfirmed text :=
      (search_eq_none_iff fenced_solved text).mp hsolved
    have hrest : ∀ P : Prop, FirstHeightHuge reSolvedConfirmed text ∨
        ¬ Occurs reSolvedConfirmed text ∧ P ↔ P := fun P =>
      ⟨fun h => (h.resolve_left fun h => hnone h.occurs).2, fun h => Or.inr ⟨hnone, h⟩⟩
    rw [hrest]
    cases hrejected : search reBlockRejected text with
    | some m =>
      have hoccurs : Occurs reBlockRejected text := .of_search fenced_rejected hrejected
      show _ ↔ parseInt (m.getD 0 []) = none
      rw [parse_height_iff fenced_rejected heightAt_rejected hrejected]
      exact ⟨fun h => h.resolve_right fun h => h.1 hoccurs, Or.inl⟩
    | none =>
      have hnone : ¬ Occurs reBlockRejected text :=
        (search_eq_none_iff fenced_rejected text).mp hrejected
      show _ ↔ search reSubmitReturned text = none
      rw [search_eq_none_iff fenced_returned]
      exact ⟨fun h => (h.resolve_left fun h => hnone h.occurs).2, fun h => Or.inr ⟨hnone, h⟩⟩

namespace Classifier

/-- **The texts on which the classifier is silent**, whatever it remembers. -/
theorem classify_silent_iff (text : Bytes) :
    (∀ (c : Classifier) (w : World), c.classify w text = (c, none)) ↔ Quiet text := by
  rw [quiet_iff_search]
  let c₀ : Classifier := {}
  let w₀ : World := ⟨0, fun _ => [], []⟩
  cases haccepted : search reBlockAccepted text with
  | some m =>
    refine ⟨fun h => ?_, fun h => absurd h.1 (Option.some_ne_none m)⟩
    have hc := congrArg Prod.snd (h c₀ w₀)
    simp only [classify, haccepted] at hc
    cases hc
  | none =>
  cases hsolved : search reSolvedConfirmed text with
  | some m =>
    cases hheight : parseInt (m.getD 0 []) with
    | none =>
      refine ⟨fun _ => ⟨rfl, hheight⟩, fun _ c w => ?_⟩
      simp only [classify, haccepted, hsolved, hheight]
    | some height =>
      refine ⟨fun h => ?_, fun h => ?_⟩
      · have hc := congrArg Prod.snd (h c₀ w₀)
        simp only [classify, haccepted, hsolved, hheight] at hc
        cases hc
      · have hnone : parseInt (m.getD 0 []) = none := h.2
        rw [hheight] at hnone
        cases hnone
  | none =>
  cases hrejected : search reBlockRejected text with
  | some m =>
    cases hheight : parseInt (m.getD 0 []) with
    | none =>
      refine ⟨fun _ => ⟨rfl, hheight⟩, fun _ c w => ?_⟩
      simp only [classify, haccepted, hsolved, hrejected, hheight]
    | some height =>
      refine ⟨fun h => ?_, fun h => ?_⟩
      · have hc := congrArg Prod.snd (h c₀ w₀)
        simp only [classify, haccepted, hsolved, hrejected, hheight] at hc
        cases hc
      · have hnone : parseInt (m.getD 0 []) = none := h.2
        rw [hheight] at hnone
        cases hnone
  | none =>
  cases hreturned : search reSubmitReturned text with
  | some m =>
    refine ⟨fun h => ?_, fun h => absurd h.2 (Option.some_ne_none m)⟩
    -- a classifier with another time of its reason
    have hc := congrArg (fun r => r.1.pendingReasonAt) (h { c₀ with pendingReasonAt := 1 } w₀)
    simp only [classify, haccepted, hsolved, hrejected, hreturned] at hc
    cases hc
  | none =>
    refine ⟨fun _ => ⟨rfl, rfl⟩, fun _ c w => ?_⟩
    simp only [classify, haccepted, hsolved, hrejected, hreturned]

/-- What is in front of a text does not matter if no message can begin in it. -/
theorem classify_append {front : Bytes} (hB : 66 ∉ front) (hS : 83 ∉ front) (c : Classifier)
    (w : World) (text : Bytes) : c.classify w (front ++ text) = c.classify w text := by
  have hstart : ∀ (first : UInt8) (word : Bytes) (p : Pattern UInt8), first ∉ front →
      ∀ x ∈ front, ∀ l, scan (.lit (first :: word) :: p) (x :: l) = none := by
    intro first word p hfirst x hx l
    have hne : x ≠ first := fun heq => hfirst (heq ▸ hx)
    exact scan_lit_cons_eq_none hne word p l
  have haccepted : search reBlockAccepted (front ++ text) = search reBlockAccepted text := by
    apply search_append
    intro p hp
    obtain rfl := List.mem_singleton.mp hp
    exact hstart 66 (ascii "LOCK ACCEPTED!") _ hB
  have hsolved : search reSolvedConfirmed (front ++ text) = search reSolvedConfirmed text := by
    apply search_append
    intro p hp
    obtain rfl | hp := List.mem_cons.mp hp
    · exact hstart 83 (ascii "olved and confirmed block ") _ hS
    · obtain rfl := List.mem_singleton.mp hp
      exact hstart 66 (ascii "lock ") _ hB
  have hrejected : search reBlockRejected (front ++ text) = search reBlockRejected text := by
    apply search_append
    intro p hp
    obtain rfl := List.mem_singleton.mp hp
    exact hstart 83 (ascii "ubmitted, but had block ") _ hS
  have hreturned : search reSubmitReturned (front ++ text) = search reSubmitReturned text := by
    apply search_append
    intro p hp
    obtain rfl := List.mem_singleton.mp hp
    exact hstart 83 (ascii "UBMIT BLOCK RETURNED: ") _ hS
  rw [classify, classify, haccepted, hsolved, hrejected, hreturned]

end Classifier

end CashStratum
