/-
CashStratum/IndexState.lean

What cashtop knows of a pool, and what it makes of a line of the log (`state.go` of its index, and
`applyJoined` of `index.go`).

A line is parsed only if it begins like one that matters (`isLineOfInterest`).  The filter lets
every line pass that can change the index but one: the message about the difficulty of the
network has no case there.  Such a line is lost exactly if it tells a difficulty above zero that
the index does not have (`filter_exact`).
-/
import CashStratum.PoolLine
import CashStratum.Run
import Mathlib.Data.Finmap

namespace CashStratum.Cashtop

open Poolfmt

/-! ### The state -/

/-- `StatusAccepted` -/
def statusAccepted : Bytes := ascii "accepted"

/-- `StatusRejected` -/
def statusRejected : Bytes := ascii "rejected"

/-- `StatusOrphaned` -/
def statusOrphaned : Bytes := ascii "orphaned"

/-- `bestShareN` -/
def bestShareN : Nat := 50

/-- Seconds for each point of a series. -/
def seriesBucket : Int := 60

/-- A place in the log (`tail.Cursor`). -/
structure Cursor where
  inode : Nat := 0
  offset : Int := 0
  size : Int := 0
  headLen : Int := 0
  headSHA256 : Bytes := []
  deriving DecidableEq

/-- A block that the pool submitted. -/
structure Block where
  height : Int
  hash : Bytes := []
  finder : Bytes := []
  proto : Bytes := []
  time : Int := zeroTime
  luck : Option Float := none
  status : Bytes := []
  reason : Bytes := []
  offset : Int := 0
  reward : Int := 0
  deriving DecidableEq

/-- The sessions of a worker name. -/
structure Worker where
  name : Bytes
  address : Bytes
  clients : Int := 0
  online : Bool := false
  since : Int := zeroTime
  lastDrop : Int := zeroTime
  lastReason : Bytes := []
  sessions : Int := 0
  drops : Int := 0
  longest : Int := 0
  agent : Bytes := []
  lastDiff : Float := 0
  deriving DecidableEq

/-- `BestShare` -/
structure BestShare where
  address : Bytes
  diff : Float
  time : Int
  deriving DecidableEq

/-- A sample of a series. -/
structure Point where
  t : Int
  v : Float
  deriving DecidableEq

/-- The accepted work of each address since the current block of the network. -/
structure Work where
  height : Int := 0
  sums : Finmap fun _ : Bytes => Float := ∅
  files : Finmap fun _ : Bytes => Int := ∅
  deriving DecidableEq

/-- The best accepted share of each worker since the last accepted block of the pool. -/
structure Round where
  since : Int := zeroTime
  height : Int := 0
  seen : Bool := false
  files : Finmap fun _ : Bytes => Int := ∅
  best : Finmap fun _ : Bytes => BestShare := ∅
  deriving DecidableEq

/-- `State` -/
structure State where
  cursor : Cursor := {}
  blocks : Finmap fun _ : Int => Block := ∅
  workers : Finmap fun _ : Bytes => Worker := ∅
  best : List BestShare := []
  hashrate : List Point := []
  poolLuck : List Point := []
  work : Work := {}
  round : Round := {}
  lastZMQ : Bytes := []
  lastReject : Bytes := []
  openSolve : Int := 0
  openLuck : Option Float := none
  netDiff : Float := 0
  solved : Int := zeroTime
  tip : Int := 0
  deriving DecidableEq

/-- What changed since the last flush.  A series that is clean has no first index. -/
structure Dirty where
  blocks : Finset Int := ∅
  workers : Finset Bytes := ∅
  best : Bool := false
  hrFrom : Option Nat := none
  luckFrom : Option Nat := none
  work : Finset Bytes := ∅
  files : Finset Bytes := ∅
  workRst : Bool := false
  round : Bool := false
  trans : Bool := false
  deriving DecidableEq

/-- The state of an index with what it remembers beside it: the blocks that were found to be
orphans, and what was known of blocks before a rescan. -/
structure Index where
  st : State := {}
  dirty : Dirty := {}
  orphans : Finset Int := ∅
  carry : Finmap fun _ : Int => Block := ∅
  deriving DecidableEq

/-- A number above zero is equal to itself. -/
theorem beq_self_of_pos {a : Float} (h : 0 < a) : (a == a) = true := by
  have hlt : Float.Model.UnpackedFloat.lt (Float.toModel 0).unpack a.toModel.unpack = true :=
    of_decide_eq_true h
  show Float.Model.UnpackedFloat.beq a.toModel.unpack a.toModel.unpack = true
  cases hu : a.toModel.unpack with
  | notANumber =>
    rw [hu] at hlt
    cases hzero : (Float.toModel 0).unpack <;> rw [hzero] at hlt <;> cases hlt
  | infinity s => cases s <;> rfl
  | zero s => rfl
  | finite s m e hm =>
    cases s <;> simp [Float.Model.UnpackedFloat.beq, Float.Model.UnpackedFloat.compare]

/-! ### Events -/

/-- `append` of the changed point to a dirty series. -/
def dirtyFrom (clean : Option Nat) (i : Nat) : Option Nat :=
  match clean with
  | none => some i
  | some j => some (min i j)

/-- `addPoint` -/
def addPoint (series : List Point) (clean : Option Nat) (t : Int) (v : Float) :
    List Point × Option Nat :=
  let bucket := (t / 10 ^ 9).tdiv seriesBucket * seriesBucket
  match series.getLast? with
  | some last =>
    if last.t = bucket then
      (series.dropLast ++ [{ last with v }], dirtyFrom clean (series.length - 1))
    else if bucket < last.t then (series, clean)
    else (series ++ [⟨bucket, v⟩], dirtyFrom clean series.length)
  | none => (series ++ [⟨bucket, v⟩], dirtyFrom clean series.length)

/-- `sortBest` -/
def sortBest (best : List BestShare) : List BestShare :=
  best.mergeSort fun a b => !(a.diff < b.diff)

namespace Index

variable (ix : Index)

/-- `noteBest` -/
def noteBest (addr : Bytes) (diff : Float) (t : Int) : Index :=
  let best := ix.st.best
  let keep (best : List BestShare) : Index :=
    { ix with st := { ix.st with best := sortBest best }, dirty := { ix.dirty with best := true } }
  match best.findIdx? (·.address = addr) with
  | some i =>
    match best[i]? with
    | some b => if diff ≤ b.diff then ix else keep (best.set i { b with diff, time := t })
    | none => ix
  | none =>
    if bestShareN ≤ best.length then
      match best.getLast? with
      | some last =>
        if diff ≤ last.diff then ix else keep (best.dropLast ++ [⟨addr, diff, t⟩])
      | none => keep [⟨addr, diff, t⟩]
    else keep (best ++ [⟨addr, diff, t⟩])

/-- `block`, without its entry in the map. -/
def block (h : Int) : Block := (ix.st.blocks.lookup h).getD { height := h }

/-- `worker`, without its entry in the map. -/
def worker (name user : Bytes) : Worker :=
  (ix.st.workers.lookup name).getD
    { name, address := normalizeAddress (if user ≠ [] then user else (splitWorker name).1) }

/-- A block in the map, and marked. -/
def putBlock (h : Int) (b : Block) : Index :=
  { ix with
    st := { ix.st with blocks := ix.st.blocks.insert h b }
    dirty := { ix.dirty with blocks := insert b.height ix.dirty.blocks } }

/-- A worker in the map, and marked. -/
def putWorker (name : Bytes) (w : Worker) : Index :=
  { ix with
    st := { ix.st with workers := ix.st.workers.insert name w }
    dirty := { ix.dirty with workers := insert w.name ix.dirty.workers } }

/-- A change of the fields that are saved together. -/
def putTrans (st : State) : Index := { ix with st, dirty := { ix.dirty with trans := true } }

/-- An `Authorised client` line. -/
def applyAuthorised (ev : Event) : Index :=
  let w := ix.worker ev.worker ev.user
  let w := { w with clients := w.clients + 1, sessions := w.sessions + 1 }
  ix.putWorker ev.worker (if w.online then w else { w with online := true, since := ev.time })

/-- A `Dropped client` line. -/
def applyDropped (ev : Event) : Index :=
  if ev.worker = [] then ix
  else
    let w := ix.worker ev.worker ev.user
    let w := { w with drops := w.drops + 1, lastDrop := ev.time }
    let w := { w with lastReason := ev.reason.getD w.lastReason }
    let w := if 0 < w.clients then { w with clients := w.clients - 1 } else w
    let w :=
      if w.clients = 0 ∧ w.online then
        let secs := (clampLong (ev.time - w.since)).tdiv (10 ^ 9)
        { w with online := false, longest := if w.longest < secs then secs else w.longest }
      else w
    ix.putWorker ev.worker w

/-- A `Pool:` line. -/
def applyPool (ev : Event) : Index :=
  if ev.hasTime then
    let ix :=
      if ev.pool.hasHashrate then
        let (hashrate, hrFrom) :=
          addPoint ix.st.hashrate ix.dirty.hrFrom ev.time ev.pool.hashrate1m
        { ix with st := { ix.st with hashrate }, dirty := { ix.dirty with hrFrom } }
      else ix
    if ev.pool.hasShares then
      let (poolLuck, luckFrom) := addPoint ix.st.poolLuck ix.dirty.luckFrom ev.time ev.pool.luck
      { ix with st := { ix.st with poolLuck }, dirty := { ix.dirty with luckFrom } }
    else ix
  else ix

/-- A difficulty of the network that is above zero and new. -/
def applyNetDiff (d : Float) : Index :=
  if 0 < d ∧ d != ix.st.netDiff then ix.putTrans { ix.st with netDiff := d } else ix

/-- A `User` line. -/
def applyUser (ev : Event) : Index :=
  let ix :=
    match ev.stats.networkDiff with
    | some d => ix.applyNetDiff d
    | none => ix
  match ev.stats.bestShare with
  | some b =>
    if 0 < b ∧ ev.hasTime ∧ ix.st.solved < ev.time then
      match ev.stats.networkDiff with
      | some d =>
        -- a share that solves a block is no best share
        if 0 < d ∧ d ≤ b then ix else ix.noteBest (normalizeAddress ev.name) b ev.time
      | none => ix.noteBest (normalizeAddress ev.name) b ev.time
    else ix
  | none => ix

/-- A line of a solve. -/
def applySolved (ev : Event) (off : Int) : Index :=
  let s := ix.st
  let b := ix.block ev.height
  let b : Block :=
    { height := ev.height, hash := s.lastZMQ, finder := ev.worker, proto := ev.protocol,
      time := ev.time, status := statusAccepted, offset := off, reward := b.reward,
      luck := b.luck.or s.openLuck }
  let b :=
    match ix.carry.lookup ev.height with
    | some old =>
      if old.time = zeroTime ∨ old.time = b.time then
        { b with
          reward := if 0 < old.reward then old.reward else b.reward
          hash := if old.hash ≠ [] then old.hash else b.hash
          luck := b.luck.or old.luck
          proto := if b.proto = [] ∧ old.proto ≠ [] then old.proto else b.proto }
      else b
    | none => b
  let b := if ev.height ∈ ix.orphans then { b with status := statusOrphaned } else b
  let ix := (ix.putTrans { s with openSolve := ev.height, openLuck := none }).putBlock ev.height b
  if s.solved < ev.time then
    let ix := { ix with st := { ix.st with solved := ev.time } }
    if s.best ≠ [] then
      { ix with st := { ix.st with best := [] }, dirty := { ix.dirty with best := true } }
    else ix
  else ix

/-- A `Block solved after` line. -/
def applySolveShares (ev : Event) : Index :=
  match ix.st.blocks.lookup ix.st.openSolve with
  | some b =>
    let ix := ix.putBlock ix.st.openSolve { b with luck := some ev.percent }
    ix.putTrans { ix.st with openSolve := 0, openLuck := none }
  | none => ix.putTrans { ix.st with openLuck := some ev.percent }

/-- A line of a rejected block. -/
def applyBlockRejected (ev : Event) (off : Int) : Index :=
  if (ix.block ev.height).status ≠ statusAccepted then
    ix.putBlock ev.height
      { height := ev.height, time := ev.time, status := statusRejected,
        reason := ix.st.lastReject, offset := off }
  else ix

/-- `applyEvent` -/
def applyEvent (ev : Event) (off : Int) : Index :=
  match ev.kind with
  | .authorised => ix.applyAuthorised ev
  | .dropped => ix.applyDropped ev
  | .pool => ix.applyPool ev
  | .networkDiff => ix.applyNetDiff ev.diff
  | .user => ix.applyUser ev
  | .zmqBlock => ix.putTrans { ix.st with lastZMQ := ev.hash }
  | .sv2Hash => ix.putTrans { ix.st with lastZMQ := ev.hash }
  | .submitReturned => ix.putTrans { ix.st with lastReject := ev.message }
  | .solved => ix.applySolved ev off
  | .sv2Accepted => ix.applySolved ev off
  | .solveShares => ix.applySolveShares ev
  | .blockRejected => ix.applyBlockRejected ev off
  | _ => ix

end Index

/-! ### Lines -/

/-- The switch of `isLineOfInterest`. -/
def isBodyOfInterest (body : Bytes) : Bool :=
  if body.length < 4 then false
  else
    match body.head? with
    | some 65 => ascii "Authorised " <+: body
    | some 68 => ascii "Dropped " <+: body
    | some 80 => ascii "Pool:" <+: body
    | some 85 => ascii "User " <+: body
    | some 90 => ascii "ZMQ " <+: body
    | some 83 =>
      ascii "Solved " <+: body ∨ ascii "SUBMIT BLOCK RETURNED" <+: body ∨
        ascii "Submitted, but" <+: body ∨ ascii "SV2/JD block hash" <+: body
    | some 66 => ascii "Block " <+: body
    | _ => false

/-- `isLineOfInterest` -/
def isLineOfInterest (line : Bytes) : Bool :=
  if line.head? = some 91 then
    match stringsIndex (ascii "] ") line with
    | some i => isBodyOfInterest (line.drop (i + 2))
    | none => isBodyOfInterest line
  else isBodyOfInterest line

section Scan

variable (json : Json) (loc : Location)

/-- What a line does without the filter. -/
def applyParsed (ix : Index) (j : Joined) : Index :=
  let ev := parseLineIn json loc j.line
  if ev.kind = .unknown then ix else ix.applyEvent ev j.offset

/-- `applyJoined` -/
def applyJoined (ix : Index) (j : Joined) : Index :=
  if isLineOfInterest j.line then applyParsed json loc ix j else ix

/-- A line that tells a difficulty of the network above zero that the index does not have. -/
def TellsNetDiff (ix : Index) (j : Joined) : Prop :=
  let ev := parseLineIn json loc j.line
  ev.kind = .networkDiff ∧ 0 < ev.diff ∧ (ev.diff == ix.st.netDiff) = false

end Scan

/-! ### What the filter lets pass -/

/-- The kinds with a case in `applyEvent`. -/
def consumed : List Kind :=
  [.authorised, .dropped, .pool, .networkDiff, .user, .zmqBlock, .sv2Hash, .submitReturned, .solved,
   .sv2Accepted, .solveShares, .blockRejected]

/-- The beginnings of the lines that pass. -/
def beginnings : List Bytes :=
  [ascii "Authorised ", ascii "Dropped ", ascii "Pool:", ascii "User ", ascii "ZMQ ",
   ascii "Solved ", ascii "SUBMIT BLOCK RETURNED", ascii "Submitted, but",
   ascii "SV2/JD block hash", ascii "Block "]

theorem applyEvent_of_not_consumed (ix : Index) {ev : Event} (off : Int)
    (h : ev.kind ∉ consumed) : ix.applyEvent ev off = ix := by
  unfold Index.applyEvent
  split <;> rename_i hkind <;> first
    | rfl
    | exact absurd (by rw [hkind]; decide) h

/-- A parser gives only events that are of no use, that tell the difficulty of the network, or
whose lines pass. -/
def Covered (parse : Bytes → Event) : Prop :=
  ∀ body, (parse body).kind ∈ consumed →
    (parse body).kind = .networkDiff ∨ ∃ w ∈ beginnings, w <+: body

theorem prefix_of_find {re : Regex UInt8} {w : Bytes} {rs : List (Regex UInt8)} {body : Bytes}
    {ws : List Bytes} (h : re.findSubmatch body = some ws)
    (hre : re = Regex.seqs (.word w :: rs)) : w <+: body := by
  rw [hre] at h
  exact (Regex.takes_of_findSubmatch h).prefix_of_word

/-- A line that an expression matches passes by the word that the expression begins with. -/
theorem covered_of_find {re : Regex UInt8} {w : Bytes} {rs : List (Regex UInt8)} {body : Bytes}
    {ws : List Bytes} {k : Kind} (b : Bytes) (h : re.findSubmatch body = some ws)
    (hre : re = Regex.seqs (.word w :: rs)) (hb : b ∈ beginnings ∧ b <+: w) :
    k = .networkDiff ∨ ∃ b ∈ beginnings, b <+: body :=
  Or.inr ⟨b, hb.1, hb.2.trans (prefix_of_find h hre)⟩

theorem covered_authorised : Covered parseAuthorised := by
  intro body hkind
  unfold parseAuthorised at hkind
  split at hkind
  · next hfind => exact covered_of_find (ascii "Authorised ") hfind rfl (by decide)
  · exact absurd hkind (by decide)

theorem covered_dropped : Covered parseDropped := by
  intro body hkind
  unfold parseDropped at hkind
  split at hkind
  · next hfind => exact covered_of_find (ascii "Dropped ") hfind rfl (by decide)
  · split at hkind
    · next hfind => exact covered_of_find (ascii "Dropped ") hfind rfl (by decide)
    · exact absurd hkind (by decide)

theorem covered_user (json : Json) : Covered (parseUser json) := by
  intro body hkind
  unfold parseUser at hkind
  split at hkind
  · next hfind => exact covered_of_find (ascii "User ") hfind rfl (by decide)
  · exact absurd hkind (by decide)

theorem covered_pool (json : Json) : Covered (parsePool json) := by
  intro body hkind
  unfold parsePool at hkind
  split at hkind
  · next hprefix => exact Or.inr ⟨ascii "Pool:", by decide, hprefix⟩
  · exact absurd hkind (by decide)

theorem covered_zmq : Covered parseZMQ := by
  intro body hkind
  unfold parseZMQ at hkind
  split at hkind
  · next hfind => exact covered_of_find (ascii "ZMQ ") hfind rfl (by decide)
  · exact absurd hkind (by decide)

/-- The family that the filter has forgotten. -/
theorem covered_network : Covered parseNetwork := by
  intro body hkind
  unfold parseNetwork at hkind ⊢
  split at hkind
  · split at hkind
    · exact Or.inl rfl
    · exact absurd hkind (by decide)
  · exact absurd hkind (by decide)

theorem covered_block : Covered parseBlock := by
  intro body hkind
  unfold parseBlock at hkind
  split at hkind
  · next hfind => exact covered_of_find (ascii "Block ") hfind rfl (by decide)
  · split at hkind
    · next hfind => exact covered_of_find (ascii "Block ") hfind rfl (by decide)
    · split at hkind
      · next hfind => exact covered_of_find (ascii "Block ") hfind rfl (by decide)
      · exact absurd hkind (by decide)

theorem covered_submit : Covered parseSubmit := by
  intro body hkind
  unfold parseSubmit at hkind
  split at hkind
  · exact absurd hkind (by decide)
  · split at hkind
    · next hfind =>
      exact covered_of_find (ascii "SUBMIT BLOCK RETURNED") hfind rfl (by decide)
    · exact absurd hkind (by decide)

theorem covered_solved : Covered parseSolved := by
  intro body hkind
  unfold parseSolved at hkind
  split at hkind
  · exact absurd hkind (by decide)
  · split at hkind
    · next hfind => exact covered_of_find (ascii "Solved ") hfind rfl (by decide)
    · exact absurd hkind (by decide)

theorem covered_submitted : Covered parseSubmitted := by
  intro body hkind
  unfold parseSubmitted at hkind
  split at hkind
  · next hfind => exact covered_of_find (ascii "Submitted, but") hfind rfl (by decide)
  · exact absurd hkind (by decide)

theorem covered_sv2 : Covered parseSV2 := by
  intro body hkind
  unfold parseSV2 at hkind
  dsimp only at hkind
  split at hkind
  · next hfind => exact covered_of_find (ascii "SV2/JD block hash") hfind rfl (by decide)
  · split at hkind
    · split at hkind <;> exact absurd hkind (by simp [consumed])
    · exact absurd hkind (by decide)

/-- A family of no use to the index. -/
theorem covered_of_kinds {parse : Bytes → Event} {ks : List Kind}
    (h : ∀ body, (parse body).kind ∈ ks) (hidle : ∀ k ∈ ks, k ∉ consumed) : Covered parse :=
  fun body hkind => absurd hkind (hidle _ (h body))

theorem covered_families (json : Json) : ∀ p ∈ families json, Covered p.2 := by
  have hworker := covered_of_kinds (kind_parseWorkerLine json) (by decide)
  have hstored := covered_of_kinds kind_parseStored (by decide)
  have hpossible := covered_of_kinds kind_parsePossible (by decide)
  have hsubmitting := covered_of_kinds kind_parseSubmitting (by decide)
  have haccepted := covered_of_kinds kind_parseAccepted (by decide)
  have hrental := covered_of_kinds kind_parseRental (by decide)
  have hclient := covered_of_kinds kind_parseClient (by decide)
  have hreaping := covered_of_kinds kind_parseReaping (by decide)
  simp only [families, List.forall_mem_cons, List.not_mem_nil, false_imp_iff, implies_true,
    and_true]
  exact ⟨covered_authorised, covered_dropped, covered_user json, hworker, covered_pool json,
    hstored, covered_zmq, covered_network, covered_block, hpossible, hsubmitting, haccepted,
    covered_submit, covered_solved, covered_submitted, covered_sv2, hrental, hrental, hclient,
    hreaping⟩

/-- **A message that can change the index tells the difficulty of the network, or passes.** -/
theorem covered_parseBody (json : Json) : Covered (parseBody json) := by
  intro body hkind
  rw [parseBody] at hkind ⊢
  have hprefix : Poolfmt.trimLine body <+: body := List.rdropWhile_prefix _ _
  split_ifs at hkind ⊢ with hnil
  · exact absurd hkind (by decide)
  · split at hkind
    · next parse hlookup =>
      obtain ⟨before, behind, hsplit, -⟩ := List.lookup_eq_some_iff.mp hlookup
      have hmem : ∃ w, (w, parse) ∈ families json := by
        rw [hsplit]
        exact ⟨_, List.mem_append_cons_self⟩
      obtain ⟨w, hw⟩ := hmem
      obtain hnet | ⟨b, hb, hbody⟩ := covered_families json _ hw _ hkind
      · exact Or.inl hnet
      · exact Or.inr ⟨b, hb, hbody.trans hprefix⟩
    · exact absurd hkind (by decide)

/-! ### What the filter sees of a line -/

/-- A field that is read holds digits. -/
theorem digit_of_digits {s : Bytes} {i n v : Nat} (h : Poolfmt.digits s i n = some v) :
    ∀ c ∈ (s.drop i).take n, 48 ≤ c ∧ c ≤ 57 := by
  have hfold : ∀ (s : Bytes) (v w : Nat),
      s.foldlM (fun v c => if c < 48 ∨ 57 < c then none else some (v * 10 + (c - 48).toNat)) v =
        some w → ∀ c ∈ s, 48 ≤ c ∧ c ≤ 57 := by
    intro s
    induction s with
    | nil => simp
    | cons c s ih =>
      intro v w h
      rw [List.foldlM_cons] at h
      split_ifs at h with hc
      · cases h
      · rw [not_or, UInt8.not_lt, UInt8.not_lt] at hc
        exact List.forall_mem_cons.mpr ⟨hc, ih _ w h⟩
  unfold Poolfmt.digits at h
  split_ifs at h
  exact hfold _ 0 v h

/-- A stamp that is read holds no bracket. -/
theorem not_mem_of_parseStamp {loc : Location} {s : Bytes} {t : Int}
    (h : parseStamp loc s = some t) : s.length = 23 ∧ 93 ∉ s := by
  unfold parseStamp at h
  split_ifs at h with hshape
  simp only [not_or, not_not] at hshape
  obtain ⟨hlen, h4, h7, h10, h13, h16, h19⟩ := hshape
  simp only [Option.bind_eq_bind, Option.bind_eq_some_iff] at h
  obtain ⟨_, hy, _, hmo, _, hd, _, hh, _, hmi, _, hsec, _, hms, -⟩ := h
  refine ⟨hlen, fun hmem => ?_⟩
  obtain ⟨j, hj, hbracket⟩ := List.getElem_of_mem hmem
  have hat : s[j]? = some 93 := by rw [List.getElem?_eq_getElem hj, hbracket]
  have hfield : ∀ {i n v : Nat}, Poolfmt.digits s i n = some v → i ≤ j → j < i + n → False := by
    intro i n v hdigits hi hjn
    have hin : 93 ∈ (s.drop i).take n := by
      refine List.mem_of_getElem? (i := j - i) ?_
      rw [List.getElem?_take_of_lt (by omega), List.getElem?_drop, Nat.add_sub_cancel' hi, hat]
    exact absurd (digit_of_digits hdigits 93 hin).2 (by decide)
  have hmark : ∀ {i : Nat} {c : UInt8}, s[i]? = some c → c ≠ 93 → j ≠ i := by
    rintro i c hc hne rfl
    exact hne (Option.some_injective _ (hc.symm.trans hat))
  have hne := And.intro (hmark h4 (by decide)) (And.intro (hmark h7 (by decide))
    (And.intro (hmark h10 (by decide)) (And.intro (hmark h13 (by decide))
    (And.intro (hmark h16 (by decide)) (hmark h19 (by decide))))))
  have hplace : (0 ≤ j ∧ j < 0 + 4) ∨ (5 ≤ j ∧ j < 5 + 2) ∨ (8 ≤ j ∧ j < 8 + 2) ∨
      (11 ≤ j ∧ j < 11 + 2) ∨ (14 ≤ j ∧ j < 14 + 2) ∨ (17 ≤ j ∧ j < 17 + 2) ∨
      (20 ≤ j ∧ j < 20 + 3) := by omega
  obtain h | h | h | h | h | h | h := hplace
  · exact hfield hy h.1 h.2
  · exact hfield hmo h.1 h.2
  · exact hfield hd h.1 h.2
  · exact hfield hh h.1 h.2
  · exact hfield hmi h.1 h.2
  · exact hfield hsec h.1 h.2
  · exact hfield hms h.1 h.2

/-- A text that begins like one that matters passes. -/
theorem bodyOfInterest {body w : Bytes} (hw : w ∈ beginnings) (h : w <+: body) :
    isBodyOfInterest body = true := by
  have hlong : ∀ w ∈ beginnings, 4 ≤ w.length := by decide
  have hlen : ¬ body.length < 4 := Nat.not_lt.mpr ((hlong w hw).trans h.length_le)
  have hhead : body.head? = w.head? := by
    obtain ⟨r, rfl⟩ := h
    cases w with
    | nil => exact absurd (hlong [] hw) (by decide)
    | cons c w => rfl
  rw [isBodyOfInterest, if_neg hlen, hhead]
  simp only [beginnings, List.mem_cons, List.not_mem_nil, or_false] at hw
  obtain rfl | rfl | rfl | rfl | rfl | rfl | rfl | rfl | rfl | rfl := hw
  · exact decide_eq_true h
  · exact decide_eq_true h
  · exact decide_eq_true h
  · exact decide_eq_true h
  · exact decide_eq_true h
  · exact decide_eq_true (Or.inl h)
  · exact decide_eq_true (Or.inr (Or.inl h))
  · exact decide_eq_true (Or.inr (Or.inr (Or.inl h)))
  · exact decide_eq_true (Or.inr (Or.inr (Or.inr h)))
  · exact decide_eq_true h

/-- The filter looks at what the parser takes for the message. -/
theorem isLineOfInterest_eq {loc : Location} {line rest : Bytes} {t : Int}
    (hpre : parsePrefixIn loc (trimRight (ascii "\r\n") line) = some (t, rest)) :
    isLineOfInterest line = isBodyOfInterest (line.drop 26) ∧ rest <+: line.drop 26 := by
  unfold parsePrefixIn at hpre
  split_ifs at hpre with hshape
  simp only [not_or, not_not, not_lt] at hshape
  obtain ⟨hlen, hhead, hclose, hspace⟩ := hshape
  obtain ⟨t', hstamp, heq⟩ := Option.map_eq_some_iff.mp hpre
  cases heq
  obtain ⟨hstampLen, hnot⟩ := not_mem_of_parseStamp hstamp
  obtain ⟨trimmed, htrim⟩ : ∃ trimmed, trimRight (ascii "\r\n") line = trimmed := ⟨_, rfl⟩
  rw [htrim] at hlen hhead hclose hspace hstampLen hnot ⊢
  obtain ⟨newline, hline⟩ : trimmed <+: line := by
    rw [← htrim]
    exact List.rdropWhile_prefix _ _
  -- the stamp with its first bracket, and the first closing bracket behind it
  obtain ⟨rest, hsplit⟩ : ∃ rest, trimmed = trimmed.take 24 ++ 93 :: 32 :: rest := by
    refine ⟨trimmed.drop 26, ?_⟩
    obtain ⟨h24, hc⟩ := List.getElem?_eq_some_iff.mp hclose
    obtain ⟨h25, hs⟩ := List.getElem?_eq_some_iff.mp hspace
    rw [← hc, ← hs, List.getElem_cons_drop, List.getElem_cons_drop, List.take_append_drop]
  have hstart : 93 ∉ trimmed.take 24 := by
    cases htrimmed : trimmed.take 24 with
    | nil => simp
    | cons c front =>
      rw [htrimmed] at hnot
      have hc : c = 91 := by
        have hfirst : trimmed.head? = some c := by rw [hsplit, htrimmed]; rfl
        exact Option.some_injective _ (hfirst.symm.trans hhead)
      rw [hc]
      exact List.not_mem_cons_of_ne_of_not_mem (by decide) hnot
  have hlength : (trimmed.take 24).length = 24 := List.length_take_of_le (by omega)
  have hindex : stringsIndex (ascii "] ") line = some 24 := by
    have hneedle : ascii "] " = [93, 32] := by decide
    rw [hneedle, ← hline, hsplit, List.append_assoc, List.cons_append, List.cons_append,
      stringsIndex_append hstart, hlength]
  have hopen : line.head? = some 91 := by
    rw [← hline, List.head?_append, hhead]
    rfl
  constructor
  · rw [isLineOfInterest, if_pos hopen, hindex]
  · rw [← hline, List.drop_append_of_le_length (by omega)]
    exact List.prefix_append _ _

/-- A message about the difficulty of the network does not pass. -/
theorem not_bodyOfInterest_network {body : Bytes} (h : ascii "Network" <+: body) :
    isBodyOfInterest body = false := by
  have hhead : body.head? = some 78 := by
    have hword : ascii "Network" = 78 :: ascii "etwork" := by decide
    obtain ⟨r, rfl⟩ := h
    rw [hword]
    rfl
  rw [isBodyOfInterest, hhead]
  split_ifs <;> rfl

theorem network_of_kind {json : Json} {body : Bytes}
    (h : (parseBody json body).kind = .networkDiff) : ascii "Network" <+: body := by
  rw [parseBody] at h
  have hprefix : Poolfmt.trimLine body <+: body := List.rdropWhile_prefix _ _
  split_ifs at h with hnil
  · split at h
    · next parse hlookup =>
      obtain ⟨before, behind, hsplit, -⟩ := List.lookup_eq_some_iff.mp hlookup
      have hmem : ((Poolfmt.trimLine body).takeWhile fun c => c ≠ 32 ∧ c ≠ 58, parse) ∈
          families json := by
        rw [hsplit]
        exact List.mem_append_cons_self
      obtain hword | hne := kind_families json _ hmem
      · rw [← hword]
        exact (List.takeWhile_prefix _).trans hprefix
      · exact absurd h (hne _)
    · cases h

/-- **What passes.**  Of the lines with a case in `applyEvent`, those that tell the difficulty of
the network do not pass, and all the others do. -/
theorem isLineOfInterest_iff {json : Json} {loc : Location} {line : Bytes}
    (h : (parseLineIn json loc line).kind ∈ consumed) :
    isLineOfInterest line = true ↔ (parseLineIn json loc line).kind ≠ .networkDiff := by
  rw [parseLineIn] at h ⊢
  cases hpre : parsePrefixIn loc (trimRight (ascii "\r\n") line) with
  | none =>
    have hidle : ({} : Event).kind ∉ consumed := by decide
    rw [hpre] at h
    exact absurd h hidle
  | some p =>
    obtain ⟨t, rest⟩ := p
    rw [hpre] at h
    obtain ⟨heq, hrest⟩ := isLineOfInterest_eq hpre
    rw [heq]
    show isBodyOfInterest (line.drop 26) = true ↔ (parseBody json rest).kind ≠ .networkDiff
    have hcovered := covered_parseBody json rest h
    constructor
    · intro hpass hnet
      rw [not_bodyOfInterest_network ((network_of_kind hnet).trans hrest)] at hpass
      cases hpass
    · intro hne
      obtain ⟨w, hw, hbody⟩ := hcovered.resolve_left hne
      exact bodyOfInterest hw (hbody.trans hrest)

/-! ### The filter -/

section Filter

variable (json : Json) (loc : Location)

theorem applyParsed_of_not_consumed (ix : Index) {j : Joined}
    (h : (parseLineIn json loc j.line).kind ∉ consumed) : applyParsed json loc ix j = ix := by
  rw [applyParsed]
  split_ifs
  · rfl
  · exact applyEvent_of_not_consumed ix _ h

/-- A message about the difficulty of the network changes the index exactly if it tells one above
zero that the index does not have. -/
theorem applyParsed_network_iff (ix : Index) {j : Joined}
    (h : (parseLineIn json loc j.line).kind = .networkDiff) :
    applyParsed json loc ix j ≠ ix ↔ TellsNetDiff json loc ix j := by
  have hne : (parseLineIn json loc j.line).kind ≠ .unknown := by
    rw [h]
    decide
  have happly : applyParsed json loc ix j =
      ix.applyNetDiff (parseLineIn json loc j.line).diff := by
    rw [applyParsed, if_neg hne, Index.applyEvent, h]
  rw [happly, Index.applyNetDiff, TellsNetDiff]
  constructor
  · intro hchange
    split_ifs at hchange with htells
    · exact ⟨h, htells.1, Bool.not_inj htells.2⟩
    · exact absurd rfl hchange
  · rintro ⟨-, hpos, hnew⟩ heq
    rw [if_pos ⟨hpos, congrArg not hnew⟩] at heq
    have hsame : (parseLineIn json loc j.line).diff = ix.st.netDiff :=
      congrArg (fun ix : Index => ix.st.netDiff) heq
    rw [← hsame, beq_self_of_pos hpos] at hnew
    cases hnew

theorem applyJoined_eq_iff (ix : Index) (j : Joined) :
    applyJoined json loc ix j = applyParsed json loc ix j ↔ ¬ TellsNetDiff json loc ix j := by
  by_cases hkind : (parseLineIn json loc j.line).kind ∈ consumed
  · by_cases hnet : (parseLineIn json loc j.line).kind = .networkDiff
    · have hdrop : ¬ isLineOfInterest j.line = true := fun hpass =>
        (isLineOfInterest_iff hkind).mp hpass hnet
      rw [applyJoined, if_neg hdrop, ← applyParsed_network_iff json loc ix hnet, not_not]
      exact eq_comm
    · have hpass := (isLineOfInterest_iff hkind).mpr hnet
      rw [applyJoined, if_pos hpass]
      exact iff_of_true rfl fun htells => hnet htells.1
  · have hsame := applyParsed_of_not_consumed json loc ix hkind
    have hjoined : applyJoined json loc ix j = ix := by
      rw [applyJoined, hsame, ite_self]
    rw [hjoined, hsame]
    refine iff_of_true rfl fun htells => hkind ?_
    rw [htells.1]
    decide

/-- **What the filter loses.**  A line that changes the index passes exactly if it does not tell
the index a new difficulty of the network, and a log is read through the filter as it is read
without it, line by line, exactly if no line of it does. -/
theorem filter_exact (ix : Index) (lines : List Joined) :
    (∀ j, (applyParsed json loc ix j ≠ ix → isLineOfInterest j.line = true) ↔
        ¬ TellsNetDiff json loc ix j) ∧
      ((∀ before, before <+: lines →
          run (applyJoined json loc) ix before = run (applyParsed json loc) ix before) ↔
        Along (applyParsed json loc) (fun ix j => ¬ TellsNetDiff json loc ix j) ix lines) := by
  refine ⟨fun j => ?_, run_agree_iff (applyJoined_eq_iff json loc)⟩
  rw [← applyJoined_eq_iff, applyJoined]
  split_ifs with hpass
  · exact iff_of_true (fun _ => hpass) rfl
  · constructor
    · intro h
      by_contra hne
      exact hpass (h fun heq => hne heq.symm)
    · intro h hchange
      exact absurd h.symm hchange

end Filter

/-- A log with nothing but the difficulty of the network. -/
def netDiffLog : List Joined :=
  [⟨ascii "[2026-02-14 09:26:53.589] Network diff set to 123.5", 0⟩]

/-- The filter keeps the difficulty of the network from the index. -/
theorem netDiff_lost :
    ¬ ∀ (json : Json) (loc : Location),
        (∀ (ix : Index) (j : Joined),
          applyParsed json loc ix j ≠ ix → isLineOfInterest j.line = true) ∧
        ∀ lines : List Joined,
          run (applyJoined json loc) {} lines = run (applyParsed json loc) {} lines := by
  intro hall
  have hsame := congrArg (fun ix : Index => ix.st.netDiff) ((hall noJson utc).2 netDiffLog)
  revert hsame
  decide

end CashStratum.Cashtop
