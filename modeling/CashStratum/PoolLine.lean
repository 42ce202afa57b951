/-
CashStratum/PoolLine.lean

The lines of the log of the pool, as the API reads them (`core.go`, `line.go`, `stats.go` and
`pool.go` of `poolfmt`).

`parseBody` goes by the first word of a line, which names its family, and then by the expressions
of the family.  A line of no family, or one that no expression of its family matches, gives an
event of the kind `unknown`.

The expressions are those of Go on bytes: no byte of a longer character is white space, a digit
or the end of a line.  `encoding/json` and the time zones are parameters.
-/
import CashStratum.Joiner
import CashStratum.Regex
import CashStratum.Runes
import Mathlib

namespace CashStratum

/-! ### Strings -/

/-- The bytes of the runes of a string. -/
def runeBytes : Bytes → List Bytes
  | [] => []
  | b :: rest =>
    match firstRune (b :: rest) with
    | some c => (b :: rest).take c.utf8Size :: runeBytes ((b :: rest).drop c.utf8Size)
    | none => [b] :: runeBytes rest
termination_by s => s.length
decreasing_by
  · rw [List.length_drop, List.length_cons]
    have hpos := c.utf8Size_pos
    omega
  · simp

/-- `unicode.IsSpace`, on the bytes of a rune. -/
def isSpaceBytes (r : Bytes) : Bool :=
  match firstRune r with
  | none => false
  | some c =>
    let n := c.toNat
    (9 ≤ n && n ≤ 13) || n == 32 || n == 0x85 || n == 0xA0 || n == 0x1680 ||
      (0x2000 ≤ n && n ≤ 0x200A) || n == 0x2028 || n == 0x2029 || n == 0x202F || n == 0x205F ||
      n == 0x3000

/-- `strings.TrimSpace` -/
def trimSpace (s : Bytes) : Bytes :=
  (((runeBytes s).dropWhile isSpaceBytes).rdropWhile isSpaceBytes).flatten

/-- `strings.Fields` -/
def stringsFields (s : Bytes) : List Bytes :=
  (((runeBytes s).splitOnP isSpaceBytes).filter (· ≠ [])).map List.flatten

/-- `strings.TrimRight` -/
def trimRight (cutset s : Bytes) : Bytes := s.rdropWhile fun c => c ∈ cutset

theorem rdropWhile_append_of_pos {p : UInt8 → Bool} {s t : Bytes} (h : ∀ c ∈ t, p c = true) :
    (s ++ t).rdropWhile p = s.rdropWhile p := by
  rw [List.rdropWhile, List.reverse_append, List.dropWhile_append_of_pos, List.rdropWhile]
  intro c hc
  exact h c (List.mem_reverse.mp hc)

/-- A text that does not end in the set is left as it is, and so is what is behind it. -/
theorem trimRight_append {cutset s : Bytes} {c : UInt8} (h : c ∉ cutset) (t : Bytes) :
    trimRight cutset (s ++ c :: t) = s ++ c :: trimRight cutset t := by
  induction t using List.reverseRecOn with
  | nil => exact List.rdropWhile_concat_neg _ _ _ (by simpa using h)
  | append_singleton t x ih =>
    rw [trimRight, trimRight, ← List.cons_append, ← List.append_assoc]
    by_cases hx : x ∈ cutset
    · rw [List.rdropWhile_concat_pos _ _ _ (by simpa using hx),
        List.rdropWhile_concat_pos _ _ _ (by simpa using hx)]
      exact ih
    · rw [List.rdropWhile_concat_neg _ _ _ (by simpa using hx),
        List.rdropWhile_concat_neg _ _ _ (by simpa using hx), List.append_assoc]
      rfl

/-- Trimming is done by the greater set. -/
theorem trimRight_trimRight {cut cutset : Bytes} (h : ∀ c ∈ cut, c ∈ cutset) (s : Bytes) :
    trimRight cutset (trimRight cut s) = trimRight cutset s := by
  have hsplit := List.rdropWhile_append_rtakeWhile (p := fun c => decide (c ∈ cut)) (l := s)
  conv_rhs => rw [← hsplit]
  refine (rdropWhile_append_of_pos fun c hc => ?_).symm
  have hcut := List.mem_rtakeWhile_imp hc
  exact decide_eq_true (h c (of_decide_eq_true hcut))

/-! ### Numbers -/

/-- A text that is split at its sign. -/
def splitSign : Bytes → Bool × Bytes
  | 45 :: s => (true, s)
  | 43 :: s => (false, s)
  | s => (false, s)

/-- `strconv.ParseInt` with base 10 and 64 bits. -/
def parseInt64 (s : Bytes) : Option Int :=
  let (neg, digits) := splitSign s
  if digits.all isDigit then do
    let n ← scanNat digits
    if neg then if n ≤ 2 ^ 63 then some (-n) else none
    else if n < 2 ^ 63 then some n else none
  else none

/-- The exponent of a decimal number, and nothing for none. -/
def parseExponent : Bytes → Option Int
  | [] => some 0
  | c :: s =>
    let (neg, digits) := splitSign s
    if (c = 69 ∨ c = 101) ∧ digits.all isDigit then
      (scanNat digits).map fun n => if neg then -(n : Int) else n
    else none

/-- `strconv.ParseFloat` with 64 bits, on a text of digits, signs, dots and the letter e. -/
def parseFloat (s : Bytes) : Option Float :=
  let (neg, s) := splitSign s
  let whole := s.takeWhile isDigit
  let rest := s.dropWhile isDigit
  let (fraction, rest) :=
    match rest with
    | 46 :: rest => (rest.takeWhile isDigit, rest.dropWhile isDigit)
    | rest => ([], rest)
  do
    let mantissa ← scanNat (whole ++ fraction)
    let exponent ← parseExponent rest
    let e := exponent - fraction.length
    let f := Float.ofScientific mantissa (e < 0) e.natAbs
    if f.isFinite then some (if neg then -f else f) else none

/-! ### Statistics -/

namespace Poolfmt

/-- `SplitWorker` -/
def splitWorker (full : Bytes) : Bytes × Bytes :=
  (full.takeWhile (· ≠ 46), (full.dropWhile (· ≠ 46)).tail)

/-- `NormalizeAddress` -/
def normalizeAddress (s : Bytes) : Bytes :=
  let network := s.takeWhile fun c => 97 ≤ c ∧ c ≤ 122
  if network ≠ [] ∧ network ++ ascii ":" <+: s then s.drop (network.length + 1) else s

/-- The factor of a suffix of a hashrate. -/
def hashrateFactor (c : UInt8) : Option Float :=
  if c = 75 ∨ c = 107 then some 1e3
  else if c = 77 then some 1e6
  else if c = 71 then some 1e9
  else if c = 84 then some 1e12
  else if c = 80 then some 1e15
  else if c = 69 then some 1e18
  else none

/-- `ParseHashrate` -/
def parseHashrate (s : Bytes) : Option Float := do
  let s := trimSpace s
  let last ← s.getLast?
  let (mult, num) :=
    match hashrateFactor last with
    | some mult => (mult, s.dropLast)
    | none => (1, s)
  if num ≠ [] ∧ (∀ c ∈ num, isDigit c ∨ c = 46) ∧ num.count 46 ≤ 1 then
    let f ← parseFloat num
    some (f * mult)
  else none

/-- The rejects of each reason. -/
structure RejectBuckets where
  stale : Int := 0
  duplicate : Int := 0
  lowDiff : Int := 0
  nTime : Int := 0
  badJob : Int := 0
  malformed : Int := 0
  worker : Int := 0
  deriving DecidableEq

/-- `RejectStats` -/
structure RejectStats where
  present : Bool := false
  rejected : Int := 0
  count : Int := 0
  buckets : RejectBuckets := {}
  lastReject : Option Int := none
  lastReason : Option Bytes := none
  rate1m : Option Float := none
  rate5m : Option Float := none
  rate1hr : Option Float := none
  deriving DecidableEq

/-- `UserStats` -/
structure UserStats where
  hashrate1m : Float := 0
  hashrate5m : Float := 0
  hashrate1hr : Float := 0
  hashrate1d : Float := 0
  hashrate7d : Float := 0
  lastShare : Option Int := none
  workers : Option Int := none
  shares : Int := 0
  roundShares : Option Int := none
  bestShare : Option Float := none
  luck : Option Float := none
  networkDiff : Option Float := none
  bestEver : Option Int := none
  authorised : Int := 0
  reject : RejectStats := {}
  deriving DecidableEq

/-- `WorkerStats` -/
structure WorkerStats where
  name : Bytes := []
  hashrate1m : Float := 0
  hashrate5m : Float := 0
  hashrate1hr : Float := 0
  hashrate1d : Float := 0
  hashrate7d : Float := 0
  lastShare : Option Int := none
  shares : Option Int := none
  bestShare : Option Float := none
  bestEver : Option Int := none
  reject : RejectStats := {}
  connects : Option Int := none
  disconnects : Option Int := none
  lastDisconnect : Option Int := none
  lastDisconnectReason : Option Bytes := none
  deriving DecidableEq

/-- `rawStats`.  A raw message that is absent is empty. -/
structure RawStats where
  workerName : Option Bytes := none
  h1m : Bytes := []
  h5m : Bytes := []
  h1hr : Bytes := []
  h1d : Bytes := []
  h7d : Bytes := []
  lastShare : Option Int := none
  workers : Option Int := none
  shares : Option Int := none
  roundShares : Option Int := none
  bestShare : Option Float := none
  luck : Option Float := none
  networkDiff : Option Float := none
  bestEver : Option Int := none
  authorised : Option Int := none
  rejected : Option Int := none
  rejectedCnt : Option Int := none
  rejectsRaw : Bytes := []
  lastReject : Option Int := none
  lastRejectReason : Option Bytes := none
  rr1m : Bytes := []
  rr5m : Bytes := []
  rr1hr : Bytes := []
  connects : Option Int := none
  disconnects : Option Int := none
  lastDisconnect : Option Int := none
  lastDiscReason : Option Bytes := none

/-- The fields of a `Pool:` line. -/
structure RawPool where
  runtime : Option Int := none
  lastUpdate : Int := 0
  users : Int := 0
  workers : Int := 0
  idle : Int := 0
  disconnected : Int := 0
  diff : Option Float := none
  luck : Float := 0
  accepted : Int := 0
  rejected : Int := 0
  bestShare : Float := 0
  sps1m : Float := 0
  sps5m : Float := 0
  sps15m : Float := 0
  sps1h : Float := 0

/-- `json.Unmarshal` into each of the types that are read. -/
structure Json where
  stats : Bytes → Option RawStats
  pool : Bytes → Option RawPool
  rawMessages : Bytes → Option (Bytes → Bytes)
  rejects : Bytes → Option RejectBuckets
  string : Bytes → Option Bytes

/-- A decoder that takes no document. -/
def noJson : Json where
  stats _ := none
  pool _ := none
  rawMessages _ := none
  rejects _ := none
  string _ := none

/-- `hr` -/
def hr (json : Json) (raw : Bytes) : Option Float := do
  let raw := trimSpace raw
  if raw = [] ∨ raw = ascii "null" then none
  else
    let s ← if raw.head? = some 34 then json.string raw else some raw
    parseHashrate s

/-- `reject` -/
def RawStats.reject (json : Json) (r : RawStats) : RejectStats where
  present := r.rejected.isSome ∨ r.rejectedCnt.isSome ∨ r.rejectsRaw ≠ []
  rejected := r.rejected.getD 0
  count := r.rejectedCnt.getD 0
  buckets := if r.rejectsRaw ≠ [] then (json.rejects r.rejectsRaw).getD {} else {}
  lastReject := r.lastReject
  lastReason := r.lastRejectReason
  rate1m := hr json r.rr1m
  rate5m := hr json r.rr5m
  rate1hr := hr json r.rr1hr

/-- `user` -/
def RawStats.user (json : Json) (r : RawStats) : UserStats where
  hashrate1m := (hr json r.h1m).getD 0
  hashrate5m := (hr json r.h5m).getD 0
  hashrate1hr := (hr json r.h1hr).getD 0
  hashrate1d := (hr json r.h1d).getD 0
  hashrate7d := (hr json r.h7d).getD 0
  lastShare := r.lastShare
  workers := r.workers
  shares := r.shares.getD 0
  roundShares := r.roundShares
  bestShare := r.bestShare
  luck := r.luck
  networkDiff := r.networkDiff
  bestEver := r.bestEver
  authorised := r.authorised.getD 0
  reject := r.reject json

/-- `worker` -/
def RawStats.worker (json : Json) (r : RawStats) : WorkerStats where
  name := r.workerName.getD []
  hashrate1m := (hr json r.h1m).getD 0
  hashrate5m := (hr json r.h5m).getD 0
  hashrate1hr := (hr json r.h1hr).getD 0
  hashrate1d := (hr json r.h1d).getD 0
  hashrate7d := (hr json r.h7d).getD 0
  lastShare := r.lastShare
  shares := r.shares
  bestShare := r.bestShare
  bestEver := r.bestEver
  reject := r.reject json
  connects := r.connects
  disconnects := r.disconnects
  lastDisconnect := r.lastDisconnect
  lastDisconnectReason := r.lastDiscReason

/-- `PoolStatus` -/
structure PoolStatus where
  hasStatus : Bool := false
  hasHashrate : Bool := false
  hasShares : Bool := false
  runtime : Int := 0
  lastUpdate : Int := 0
  users : Int := 0
  workers : Int := 0
  idle : Int := 0
  disconnected : Int := 0
  hashrate1m : Float := 0
  hashrate5m : Float := 0
  hashrate15m : Float := 0
  hashrate1hr : Float := 0
  hashrate6hr : Float := 0
  hashrate1d : Float := 0
  hashrate7d : Float := 0
  diff : Float := 0
  luck : Float := 0
  accepted : Int := 0
  rejected : Int := 0
  bestShare : Float := 0
  sps1m : Float := 0
  sps5m : Float := 0
  sps15m : Float := 0
  sps1h : Float := 0
  deriving DecidableEq

/-- `poolFrom`, into an empty status. -/
def poolFrom (json : Json) (js : Bytes) : Option PoolStatus := do
  let js := trimSpace js
  if ascii "\x7b\"runtime\"" <+: js then
    let r ← json.pool js
    let runtime ← r.runtime
    some { hasStatus := true, runtime, lastUpdate := r.lastUpdate, users := r.users,
           workers := r.workers, idle := r.idle, disconnected := r.disconnected }
  else if ascii "\x7b\"hashrate1m\"" <+: js then
    let m ← json.rawMessages js
    let rate (key : String) : Float := (hr json (m (ascii key))).getD 0
    some { hasHashrate := true, hashrate1m := rate "hashrate1m", hashrate5m := rate "hashrate5m",
           hashrate15m := rate "hashrate15m", hashrate1hr := rate "hashrate1hr",
           hashrate6hr := rate "hashrate6hr", hashrate1d := rate "hashrate1d",
           hashrate7d := rate "hashrate7d" }
  else if ascii "\x7b\"diff\"" <+: js then
    let r ← json.pool js
    let diff ← r.diff
    some { hasShares := true, diff, luck := r.luck, accepted := r.accepted,
           rejected := r.rejected, bestShare := r.bestShare, sps1m := r.sps1m, sps5m := r.sps5m,
           sps15m := r.sps15m, sps1h := r.sps1h }
  else none

/-! ### Events -/

/-- The family of a line. -/
inductive Kind where
  | unknown
  | authorised
  | dropped
  | user
  | worker
  | pool
  | storedWorkbase
  | zmqBlock
  | networkDiff
  | blockHashChanged
  | possibleSolve
  | submitting
  | blockAccepted
  | submitReturned
  | submitNoResponse
  | solved
  | solvedNoHeight
  | solveShares
  | blockRejected
  | sv2Accepted
  | sv2Hash
  | sv2Rejected
  | rentalDetected
  | patternDiff
  | passwordDiff
  | reaping
  deriving DecidableEq

/-- The zero of `time.Time`, in nanoseconds since 1970. -/
def zeroTime : Int := -62135596800 * 10 ^ 9

/-- A line that is parsed.  Only the fields of its kind mean something. -/
structure Event where
  kind : Kind := .unknown
  time : Int := zeroTime
  hasTime : Bool := false
  clientID : Bytes := []
  address : Bytes := []
  user : Bytes := []
  worker : Bytes := []
  diff : Float := 0
  pinned : Bool := false
  requested : Int := 0
  noUser : Bool := false
  lazily : Bool := false
  subclient : Option Int := none
  reason : Option Bytes := none
  errno : Option Int := none
  age : Option Int := none
  name : Bytes := []
  stats : UserStats := {}
  wStat : WorkerStats := {}
  pool : PoolStatus := {}
  height : Int := 0
  hash : Bytes := []
  count : Int := 0
  percent : Float := 0
  stale : Bool := false
  protocol : Bytes := []
  message : Bytes := []
  extra : Bytes := []

/-! ### The expressions -/

section Expressions

open Regex

/-- Text of the source. -/
def txt (s : String) : Regex UInt8 := .word (ascii s)

/-- `(\S+)` -/
def field : Regex UInt8 := .group (.rep false 1 none isNotSpace)

/-- `(\d+)` -/
def number : Regex UInt8 := .group (.rep false 1 none isDigit)

/-- `(.*)` -/
def anything : Regex UInt8 := .group (.rep false 0 none isNotNewline)

/-- `([0-9.]+)` -/
def decimal : Regex UInt8 := .group (.rep false 1 none fun c => isDigit c || c == 46)

/-- `([0-9.eE+-]+)` -/
def scientific : Regex UInt8 :=
  .group (.rep false 1 none fun c => isDigit c || (ascii ".eE+-").contains c)

/-- `([0-9a-f]{64})` -/
def blockHash : Regex UInt8 :=
  .group (.rep false 64 (some 64) fun c => isDigit c || (97 ≤ c && c ≤ 102))

/-- `(\{.*\})` -/
def object : Regex UInt8 :=
  .group (seqs [txt "\x7b", .rep false 0 none isNotNewline, txt "\x7d"])

/-- `reAuthorised` -/
def reAuthorised : Regex UInt8 :=
  seqs [txt "Authorised client ", field, txt " ", field, txt " worker ", field, txt " as user ",
    field, txt " with diff ", .group (.seq (.opt (txt "-")) (.rep false 1 none isDigit))]

/-- `reDropped` -/
def reDropped : Regex UInt8 :=
  seqs [txt "Dropped client ", field, txt " ", field, txt " ",
    .alt (.seq (txt "user ") field) (txt "no user"), txt " worker ", field, anything]

/-- `reDropSub` -/
def reDropSub : Regex UInt8 :=
  seqs [txt "Dropped ", field, txt " ", field, txt " with ", number, txt " subclients", anything]

/-- `reUser` -/
def reUser : Regex UInt8 :=
  seqs [txt "User ", .group (.rep true 1 none isNotNewline), txt ":", object]

/-- `reWorker` -/
def reWorker : Regex UInt8 :=
  seqs [txt "Worker ", .group (.rep true 1 none isNotNewline), txt ":", object]

/-- `reStored` -/
def reStored : Regex UInt8 :=
  seqs [txt "Stored ", .group (.alt (txt "local") (txt "remote")), txt " workbase with ", number,
    txt " transactions"]

/-- `reZMQ` -/
def reZMQ : Regex UInt8 :=
  seqs [txt "ZMQ block hash ", blockHash, txt " from endpoint ", number]

/-- `reNetDiff` -/
def reNetDiff : Regex UInt8 :=
  seqs [txt "Network diff set to ", decimal,
    .opt (seqs [txt " (proxy ", .rep false 1 none isDigit, txt ":", .rep false 1 none isDigit,
      txt ")"])]

/-- `reHashChg` -/
def reHashChg : Regex UInt8 := seqs [txt "Block hash changed to ", blockHash]

/-- `rePossible` -/
def rePossible : Regex UInt8 :=
  seqs [txt "Possible ", .opt (.group (txt "stale share ")), txt "block solve diff ", scientific,
    txt " !"]

/-- `reSubPoss` -/
def reSubPoss : Regex UInt8 :=
  seqs [txt "Submitting possible block solve share diff ", scientific, txt " !"]

/-- `reSubmitRet` -/
def reSubmitRet : Regex UInt8 :=
  seqs [txt "SUBMIT BLOCK RETURNED: ", .group (.rep false 1 none isNotNewline)]

/-- `reSolved` -/
def reSolved : Regex UInt8 :=
  seqs [txt "Solved and confirmed block ", number, txt " by ",
    .group (.rep true 1 none isNotSpace), .opt (.seq (txt " on ") field)]

/-- `reAfter` -/
def reAfter : Regex UInt8 :=
  seqs [txt "Block solved after ", number, txt " shares at ", decimal, txt "% diff"]

/-- `reRejected` -/
def reRejected : Regex UInt8 :=
  seqs [txt "Submitted, but had block ", number, txt " rejected"]

/-- `reSV2Acc` -/
def reSV2Acc : Regex UInt8 :=
  seqs [txt "Block ", number, txt " solved by ", field, txt " accepted on SV2/JD"]

/-- `reSV2Hash` -/
def reSV2Hash : Regex UInt8 :=
  seqs [txt "SV2/JD block hash ", field, txt " network_diff ", decimal]

/-- `reSV2Rej` -/
def reSV2Rej : Regex UInt8 :=
  seqs [txt "SV2/JD block submit rejected/error height ", number, txt " hash ", blockHash,
    txt " by ", .group (.rep false 1 none isNotNewline)]

/-- `reRental` -/
def reRental : Regex UInt8 :=
  seqs [.group (.alt (txt "NiceHash") (txt "MiningRigRentals")), txt " detected from useragent '",
    anything, txt "' for client ", field, txt ", applied difficulty ", number]

/-- `rePattern` -/
def rePattern : Regex UInt8 :=
  seqs [txt "Client ", field, txt " workername '", anything, txt "' matched pattern '", anything,
    txt "', applied difficulty ", number]

/-- `rePassword` -/
def rePassword : Regex UInt8 :=
  seqs [txt "Client ", field, txt " set difficulty to ", number, txt " via password parameter",
    .opt (seqs [txt " (", .group (txt "pinned"), .opt (.seq (txt ", requested ") number), txt ")"])]

/-- `reReaping` -/
def reReaping : Regex UInt8 :=
  seqs [txt "Reaping client id ", field, txt " ", field, txt " idle ", anything, txt " for ",
    number, txt " seconds"]

end Expressions

/-! ### Families -/

/-- `parseAuthorised` -/
def parseAuthorised (body : Bytes) : Event :=
  match reAuthorised.findSubmatch body with
  | some [clientID, address, worker, user, diff] =>
    match parseFloat diff with
    | some diff => { kind := .authorised, clientID, address, worker, user, diff }
    | none => {}
  | _ => {}

/-- A token behind the names in a message about a client that is dropped. -/
def dropToken (ev : Event) (tok : Bytes) : Event :=
  if tok = ascii "lazily" then { ev with lazily := true }
  else if ascii "reason=" <+: tok then { ev with reason := some (tok.drop 7) }
  else if ascii "errno=" <+: tok then
    match parseInt64 (tok.drop 6) with
    | some n => { ev with errno := some n }
    | none => ev
  else if ascii "age=" <+: tok then
    match parseInt64 (tok.drop 4) with
    | some n => { ev with age := some n }
    | none => ev
  else ev

/-- `parseDropped` -/
def parseDropped (body : Bytes) : Event :=
  match reDropped.findSubmatch body with
  | some [clientID, address, user, worker, tail] =>
    (stringsFields tail).foldl dropToken
      { kind := .dropped, clientID, address, user, worker, noUser := user = [] }
  | _ =>
  match reDropSub.findSubmatch body with
  | some [clientID, address, subclients, tail] =>
    match parseInt64 subclients with
    | some n =>
      (stringsFields tail).foldl dropToken
        { kind := .dropped, clientID, address, subclient := some n }
    | none => {}
  | _ => {}

/-- `parseUser` -/
def parseUser (json : Json) (body : Bytes) : Event :=
  match reUser.findSubmatch body with
  | some [name, stats] =>
    match json.stats stats with
    | some raw => { kind := .user, name, stats := raw.user json }
    | none => {}
  | _ => {}

/-- `parseWorkerLine` -/
def parseWorkerLine (json : Json) (body : Bytes) : Event :=
  match reWorker.findSubmatch body with
  | some [name, stats] =>
    match json.stats stats with
    | some raw => { kind := .worker, name, wStat := { raw.worker json with name } }
    | none => {}
  | _ => {}

/-- `parsePool` -/
def parsePool (json : Json) (body : Bytes) : Event :=
  if ascii "Pool:" <+: body then
    match poolFrom json (body.drop 5) with
    | some pool => { kind := .pool, pool }
    | none => {}
  else {}

/-- The family of `Stored`. -/
def parseStored (body : Bytes) : Event :=
  match reStored.findSubmatch body with
  | some [extra, count] =>
    match parseInt64 count with
    | some count => { kind := .storedWorkbase, count, extra }
    | none => {}
  | _ => {}

/-- The family of `ZMQ`. -/
def parseZMQ (body : Bytes) : Event :=
  match reZMQ.findSubmatch body with
  | some [hash, endpoint] =>
    match parseInt64 endpoint with
    | some count => { kind := .zmqBlock, hash, count }
    | none => {}
  | _ => {}

/-- The family of `Network`. -/
def parseNetwork (body : Bytes) : Event :=
  match reNetDiff.findSubmatch body with
  | some [diff] =>
    match parseFloat diff with
    | some diff => { kind := .networkDiff, diff }
    | none => {}
  | _ => {}

/-- `parseBlock` -/
def parseBlock (body : Bytes) : Event :=
  match reHashChg.findSubmatch body with
  | some [hash] => { kind := .blockHashChanged, hash }
  | _ =>
  match reAfter.findSubmatch body with
  | some [shares, percent] =>
    match parseInt64 shares, parseFloat percent with
    | some count, some percent => { kind := .solveShares, count, percent }
    | _, _ => {}
  | _ =>
  match reSV2Acc.findSubmatch body with
  | some [height, worker] =>
    match parseInt64 height with
    | some height =>
      { kind := .sv2Accepted, height, worker, address := (splitWorker worker).1,
        protocol := ascii "SV2" }
    | none => {}
  | _ => {}

/-- The family of `Possible`. -/
def parsePossible (body : Bytes) : Event :=
  match rePossible.findSubmatch body with
  | some [stale, diff] =>
    match parseFloat diff with
    | some diff => { kind := .possibleSolve, diff, stale := stale ≠ [] }
    | none => {}
  | _ => {}

/-- The family of `Submitting`. -/
def parseSubmitting (body : Bytes) : Event :=
  if body = ascii "Submitting block data!" then { kind := .submitting }
  else
    match reSubPoss.findSubmatch body with
    | some [diff] =>
      match parseFloat diff with
      | some diff => { kind := .submitting, diff, extra := ascii "share" }
      | none => {}
    | _ => {}

/-- The family of `BLOCK`. -/
def parseAccepted (body : Bytes) : Event :=
  if body = ascii "BLOCK ACCEPTED!" then { kind := .blockAccepted } else {}

/-- The family of `SUBMIT`. -/
def parseSubmit (body : Bytes) : Event :=
  if body = ascii "SUBMIT BLOCK GOT NO RESPONSE!" then { kind := .submitNoResponse }
  else
    match reSubmitRet.findSubmatch body with
    | some [message] => { kind := .submitReturned, message }
    | _ => {}

/-- The family of `Solved`. -/
def parseSolved (body : Bytes) : Event :=
  if body = ascii "Solved and confirmed block!" then { kind := .solvedNoHeight }
  else
    match reSolved.findSubmatch body with
    | some [height, worker, protocol] =>
      match parseInt64 height with
      | some height =>
        { kind := .solved, height, worker, address := (splitWorker worker).1, protocol }
      | none => {}
    | _ => {}

/-- The family of `Submitted,`. -/
def parseSubmitted (body : Bytes) : Event :=
  match reRejected.findSubmatch body with
  | some [height] =>
    match parseInt64 height with
    | some height => { kind := .blockRejected, height }
    | none => {}
  | _ => {}

/-- `parseSV2` -/
def parseSV2 (body : Bytes) : Event :=
  let rejected : Event :=
    match reSV2Rej.findSubmatch body with
    | some [height, hash, worker] =>
      match parseInt64 height with
      | some height => { kind := .sv2Rejected, height, hash, worker }
      | none => {}
    | _ => {}
  match reSV2Hash.findSubmatch body with
  | some [hash, diff] =>
    match parseFloat diff with
    | some diff => { kind := .sv2Hash, hash, diff }
    | none => rejected
  | _ => rejected

/-- The families of the two rental services. -/
def parseRental (body : Bytes) : Event :=
  match reRental.findSubmatch body with
  | some [extra, message, clientID, diff] =>
    match parseFloat diff with
    | some diff => { kind := .rentalDetected, extra, message, clientID, diff }
    | none => {}
  | _ => {}

/-- The family of `Client`. -/
def parseClient (body : Bytes) : Event :=
  let password : Event :=
    match rePassword.findSubmatch body with
    | some [clientID, diff, pinned, requested] =>
      match parseFloat diff with
      | some diff =>
        let ev : Event := { kind := .passwordDiff, clientID, diff, pinned := pinned ≠ [] }
        if requested ≠ [] then
          match parseInt64 requested with
          | some r => { ev with requested := r }
          | none => {}
        else ev
      | none => {}
    | _ => {}
  match rePattern.findSubmatch body with
  | some [clientID, worker, message, diff] =>
    match parseFloat diff with
    | some diff => { kind := .patternDiff, clientID, worker, message, diff }
    | none => password
  | _ => password

/-- The family of `Reaping`. -/
def parseReaping (body : Bytes) : Event :=
  match reReaping.findSubmatch body with
  | some [clientID, address, message, seconds] =>
    match parseInt64 seconds with
    | some count => { kind := .reaping, clientID, address, message, count }
    | none => {}
  | _ => {}

/-- The cases of `ParseBody`: the first word of a line, and the parser of its family. -/
def families (json : Json) : List (Bytes × (Bytes → Event)) :=
  [(ascii "Authorised", parseAuthorised), (ascii "Dropped", parseDropped),
   (ascii "User", parseUser json), (ascii "Worker", parseWorkerLine json),
   (ascii "Pool", parsePool json), (ascii "Stored", parseStored), (ascii "ZMQ", parseZMQ),
   (ascii "Network", parseNetwork), (ascii "Block", parseBlock),
   (ascii "Possible", parsePossible), (ascii "Submitting", parseSubmitting),
   (ascii "BLOCK", parseAccepted), (ascii "SUBMIT", parseSubmit), (ascii "Solved", parseSolved),
   (ascii "Submitted,", parseSubmitted), (ascii "SV2/JD", parseSV2),
   (ascii "NiceHash", parseRental), (ascii "MiningRigRentals", parseRental),
   (ascii "Client", parseClient), (ascii "Reaping", parseReaping)]

/-- `trimLine` -/
def trimLine (s : Bytes) : Bytes := trimRight (ascii " \t\r\n") s

/-- `ParseBody` -/
def parseBody (json : Json) (body : Bytes) : Event :=
  let body := trimLine body
  if body = [] then {}
  else
    match (families json).lookup (body.takeWhile fun c => c ≠ 32 ∧ c ≠ 58) with
    | some parse => parse body
    | none => {}

/-! ### Kinds -/

theorem kind_parseAuthorised (body : Bytes) :
    (parseAuthorised body).kind ∈ [Kind.unknown, .authorised] := by
  unfold parseAuthorised
  split
  · split <;> simp
  · simp

@[simp] theorem kind_dropToken (ev : Event) (tok : Bytes) : (dropToken ev tok).kind = ev.kind := by
  unfold dropToken
  split_ifs
  · rfl
  · rfl
  · split <;> rfl
  · split <;> rfl
  · rfl

theorem kind_foldl_dropToken (toks : List Bytes) (ev : Event) :
    (toks.foldl dropToken ev).kind = ev.kind := by
  induction toks generalizing ev with
  | nil => rfl
  | cons tok toks ih => rw [List.foldl_cons, ih, kind_dropToken]

theorem kind_parseDropped (body : Bytes) :
    (parseDropped body).kind ∈ [Kind.unknown, .dropped] := by
  unfold parseDropped
  split
  · simp [kind_foldl_dropToken]
  · split
    · split <;> simp [kind_foldl_dropToken]
    · simp

theorem kind_parseUser (json : Json) (body : Bytes) :
    (parseUser json body).kind ∈ [Kind.unknown, .user] := by
  unfold parseUser
  split
  · split <;> simp
  · simp

theorem kind_parseWorkerLine (json : Json) (body : Bytes) :
    (parseWorkerLine json body).kind ∈ [Kind.unknown, .worker] := by
  unfold parseWorkerLine
  split
  · split <;> simp
  · simp

theorem kind_parsePool (json : Json) (body : Bytes) :
    (parsePool json body).kind ∈ [Kind.unknown, .pool] := by
  unfold parsePool
  split
  · split <;> simp
  · simp

theorem kind_parseStored (body : Bytes) :
    (parseStored body).kind ∈ [Kind.unknown, .storedWorkbase] := by
  unfold parseStored
  split
  · split <;> simp
  · simp

theorem kind_parseZMQ (body : Bytes) : (parseZMQ body).kind ∈ [Kind.unknown, .zmqBlock] := by
  unfold parseZMQ
  split
  · split <;> simp
  · simp

theorem kind_parseBlock (body : Bytes) :
    (parseBlock body).kind ∈ [Kind.unknown, .blockHashChanged, .solveShares, .sv2Accepted] := by
  unfold parseBlock
  split
  · simp
  · split
    · split <;> simp
    · split
      · split <;> simp
      · simp

theorem kind_parsePossible (body : Bytes) :
    (parsePossible body).kind ∈ [Kind.unknown, .possibleSolve] := by
  unfold parsePossible
  split
  · split <;> simp
  · simp

theorem kind_parseSubmitting (body : Bytes) :
    (parseSubmitting body).kind ∈ [Kind.unknown, .submitting] := by
  unfold parseSubmitting
  split
  · simp
  · split
    · split <;> simp
    · simp

theorem kind_parseAccepted (body : Bytes) :
    (parseAccepted body).kind ∈ [Kind.unknown, .blockAccepted] := by
  unfold parseAccepted
  split <;> simp

theorem kind_parseSubmit (body : Bytes) :
    (parseSubmit body).kind ∈ [Kind.unknown, .submitNoResponse, .submitReturned] := by
  unfold parseSubmit
  split
  · simp
  · split <;> simp

theorem kind_parseSolved (body : Bytes) :
    (parseSolved body).kind ∈ [Kind.unknown, .solvedNoHeight, .solved] := by
  unfold parseSolved
  split
  · simp
  · split
    · split <;> simp
    · simp

theorem kind_parseSubmitted (body : Bytes) :
    (parseSubmitted body).kind ∈ [Kind.unknown, .blockRejected] := by
  unfold parseSubmitted
  split
  · split <;> simp
  · simp

theorem kind_parseSV2 (body : Bytes) :
    (parseSV2 body).kind ∈ [Kind.unknown, .sv2Hash, .sv2Rejected] := by
  unfold parseSV2
  dsimp only
  split
  · split
    · simp
    · split
      · split <;> simp
      · simp
  · split
    · split <;> simp
    · simp

theorem kind_parseRental (body : Bytes) :
    (parseRental body).kind ∈ [Kind.unknown, .rentalDetected] := by
  unfold parseRental
  split
  · split <;> simp
  · simp

theorem kind_parseClient (body : Bytes) :
    (parseClient body).kind ∈ [Kind.unknown, .patternDiff, .passwordDiff] := by
  unfold parseClient
  dsimp only
  split
  · split
    · simp
    · split
      · split
        · split
          · split <;> simp
          · simp
        · simp
      · simp
  · split
    · split
      · split
        · split <;> simp
        · simp
      · simp
    · simp

theorem kind_parseReaping (body : Bytes) :
    (parseReaping body).kind ∈ [Kind.unknown, .reaping] := by
  unfold parseReaping
  split
  · split <;> simp
  · simp

/-- What a family does not tell: the difficulty of the network is in a family of its own. -/
theorem kind_families (json : Json) :
    ∀ p ∈ families json, p.1 = ascii "Network" ∨ ∀ body, (p.2 body).kind ≠ .networkDiff := by
  have hne : ∀ {ks : List Kind} {parse : Bytes → Event}, (∀ body, (parse body).kind ∈ ks) →
      Kind.networkDiff ∉ ks → ∀ body, (parse body).kind ≠ .networkDiff := by
    intro ks parse hkinds hnot body heq
    exact hnot (heq ▸ hkinds body)
  simp only [families, List.forall_mem_cons, List.not_mem_nil, false_imp_iff, implies_true,
    and_true]
  exact ⟨Or.inr (hne kind_parseAuthorised (by decide)), Or.inr (hne kind_parseDropped (by decide)),
    Or.inr (hne (kind_parseUser json) (by decide)),
    Or.inr (hne (kind_parseWorkerLine json) (by decide)),
    Or.inr (hne (kind_parsePool json) (by decide)), Or.inr (hne kind_parseStored (by decide)),
    Or.inr (hne kind_parseZMQ (by decide)), Or.inl trivial,
    Or.inr (hne kind_parseBlock (by decide)),
    Or.inr (hne kind_parsePossible (by decide)), Or.inr (hne kind_parseSubmitting (by decide)),
    Or.inr (hne kind_parseAccepted (by decide)), Or.inr (hne kind_parseSubmit (by decide)),
    Or.inr (hne kind_parseSolved (by decide)), Or.inr (hne kind_parseSubmitted (by decide)),
    Or.inr (hne kind_parseSV2 (by decide)), Or.inr (hne kind_parseRental (by decide)),
    Or.inr (hne kind_parseRental (by decide)), Or.inr (hne kind_parseClient (by decide)),
    Or.inr (hne kind_parseReaping (by decide))⟩

/-! ### Stamps -/

/-- A time zone, as `time.Date` and `Time.Day` know it.  A time is in nanoseconds since 1970. -/
structure Location where
  date (year month day hour min sec nsec : Nat) : Int
  day (t : Int) : Nat

/-- The days from 1970 to a date, in years that begin in March. -/
def daysFromCivil (y m d : Nat) : Int :=
  let y : Int := if m ≤ 2 then y - 1 else y
  let era := y / 400
  let yoe := y - era * 400
  let doy := (153 * ((m : Int) + if m ≤ 2 then 9 else -3) + 2) / 5 + d - 1
  era * 146097 + (yoe * 365 + yoe / 4 - yoe / 100 + doy) - 719468

/-- The day of the month, so many days after 1970 began. -/
def civilDay (days : Int) : Nat :=
  let z := days + 719468
  let doe := z - z / 146097 * 146097
  let yoe := (doe - doe / 1460 + doe / 36524 - doe / 146096) / 365
  let doy := doe - (365 * yoe + yoe / 4 - yoe / 100)
  (doy - (153 * ((5 * doy + 2) / 153) + 2) / 5 + 1).toNat

/-- `time.UTC` -/
def utc : Location where
  date y mo d h mi s ns :=
    (daysFromCivil y mo d * 86400 + ((h * 60 + mi) * 60 + s : Nat)) * 10 ^ 9 + ns
  day t := civilDay (t / (86400 * 10 ^ 9))

/-- `digits` -/
def digits (s : Bytes) (i n : Nat) : Option Nat :=
  if s.length < i + n then none else stampDigits s i n

/-- `ParseStamp` -/
def parseStamp (loc : Location) (s : Bytes) : Option Int :=
  if s.length ≠ 23 ∨ s[4]? ≠ some 45 ∨ s[7]? ≠ some 45 ∨ s[10]? ≠ some 32 ∨ s[13]? ≠ some 58 ∨
      s[16]? ≠ some 58 ∨ s[19]? ≠ some 46 then none
  else do
    let y ← digits s 0 4
    let mo ← digits s 5 2
    let d ← digits s 8 2
    let h ← digits s 11 2
    let mi ← digits s 14 2
    let sec ← digits s 17 2
    let ms ← digits s 20 3
    if mo < 1 ∨ 12 < mo ∨ d < 1 ∨ 31 < d ∨ 23 < h ∨ 59 < mi ∨ 60 < sec then none
    else
      let t := loc.date y mo d h mi sec (ms * 10 ^ 6)
      if loc.day t ≠ d then none else some t

/-- `ParsePrefixIn` -/
def parsePrefixIn (loc : Location) (line : Bytes) : Option (Int × Bytes) :=
  if line.length < 26 ∨ line.head? ≠ some 91 ∨ (line)[24]? ≠ some 93 ∨ (line)[25]? ≠ some 32 then none
  else (parseStamp loc ((line.take 24).drop 1)).map fun t => (t, line.drop 26)

/-- `ParseLineIn` -/
def parseLineIn (json : Json) (loc : Location) (line : Bytes) : Event :=
  match parsePrefixIn loc (trimRight (ascii "\r\n") line) with
  | some (t, rest) => { parseBody json rest with time := t, hasTime := true }
  | none => {}

end Poolfmt

end CashStratum
