/-
CashStratum/Difficulty.lean

The difficulty of one client (`stratifier.c`): what connecting, subscribing,
authorising, a suggestion, a share and the other protocol's `UpdateChannel` write to
the fields of its instance that decide which shares count.

Difficulties are `int64_t` in the source and no operation here comes near the ends of
that type.  The rates of shares are doubles there; the decaying averages are not
modelled, and a share comes with the rates they give, as rationals.  Difficulties that
an upstream pool dictates, in node mode (`parse_diff`) and in proxy mode
(`update_diff`), are left out.
-/
import CashStratum.Authorise
import Mathlib.Data.Rat.Floor

namespace CashStratum

/-! ### C library -/

/-- `strcasecmp(a, b) == 0` -/
def strcasecmpEq (a b : Bytes) : Bool := a.map tolower == b.map tolower

/-- `strcasestr` finds something. -/
def strcasestr (haystack needle : Bytes) : Bool :=
  haystack.tails.any fun t => (needle.map tolower).isPrefixOf (t.map tolower)

/-- A double cut to an integer. -/
def truncate (x : ℚ) : Int := if 0 ≤ x then ⌊x⌋ else ⌈x⌉

/-- `lround`, halves away from zero. -/
def lround (x : ℚ) : Int := if 0 ≤ x then ⌊x + 1 / 2⌋ else ⌈x - 1 / 2⌉

/-- `tv_t` -/
structure Tv where
  sec : Int
  usec : Int
deriving DecidableEq, Repr

/-- `sane_tdiff` in microseconds: at least a millisecond. -/
def saneTdiff (finish start : Tv) : Int :=
  max ((finish.sec - start.sec) * 1000000 + (finish.usec - start.usec)) 1000

/-! ### Configuration -/

/-- What of the configuration difficulties depend on.  There is one entry of
`serverHighdiff` for each server; `maxdiff` is zero when it is not set. -/
structure DiffConf where
  mindiff : Int
  startdiff : Int
  highdiff : Int
  maxdiff : Int
  mindiffOverrides : List (Bytes × Int)
  serverHighdiff : List Bool
  node : Bool
  proxy : Bool
  remote : Bool
  btcsolo : Bool
  mindiff_ne : mindiff ≠ 0
  startdiff_ne : startdiff ≠ 0
  highdiff_ne : highdiff ≠ 0

/-- A number of the configuration with a default: one that is missing is zero, and
zero is replaced. -/
def confDiff (value : Option Int) (default : Int) : Int :=
  if value.getD 0 = 0 then default else value.getD 0

theorem confDiff_ne {value : Option Int} {default : Int} (h : default ≠ 0) :
    confDiff value default ≠ 0 := by
  unfold confDiff
  split_ifs with hzero
  · exact h
  · exact hzero

/-- `parse_config` and the defaults of `main`.  Any integer is accepted. -/
def readDiffConf (mindiff startdiff highdiff maxdiff : Option Int)
    (mindiffOverrides : List (Bytes × Int)) (serverHighdiff : List Bool)
    (node proxy remote btcsolo : Bool) : DiffConf where
  mindiff := confDiff mindiff 1
  startdiff := confDiff startdiff 10000
  highdiff := confDiff highdiff 1000000
  maxdiff := maxdiff.getD 0
  mindiffOverrides
  serverHighdiff
  node
  proxy
  remote
  btcsolo
  mindiff_ne := confDiff_ne (by decide)
  startdiff_ne := confDiff_ne (by decide)
  highdiff_ne := confDiff_ne (by decide)

namespace DiffConf

variable (c : DiffConf)

/-- `clamp_requested_diff` -/
def clampRequestedDiff (diff : Int) : Int :=
  let diff := if diff < c.mindiff then c.mindiff else diff
  if c.maxdiff ≠ 0 ∧ c.maxdiff < diff then c.maxdiff else diff

/-- `mindiff_override_diff` -/
def mindiffOverrideDiff (key : Bytes) (fallback : Int) : Int :=
  match c.mindiffOverrides.find? fun o => strcasecmpEq o.1 key ∧ 0 < o.2 with
  | some (_, diff) => c.clampRequestedDiff diff
  | none => c.clampRequestedDiff fallback

end DiffConf

/-! ### The difficulty a password asks for -/

/-- The separators of password tokens: comma, semicolon, blank and tab. -/
def isPassSeparator (c : UInt8) : Bool := c == 44 || c == 59 || c == 32 || c == 9

def isDigit (c : UInt8) : Bool := 48 ≤ c && c ≤ 57

/-- `strtoll` of a token that has to be a positive number to its end; `none` also
where `errno` is set. -/
def tokenValue (digits : Bytes) : Option Int :=
  if digits ≠ [] ∧ digits.all isDigit then
    let value := numeral 10 (digits.map (· - 48))
    if 0 < value ∧ value < 2 ^ 63 then some value else none
  else none

/-- The request in a token, and whether it has the long form `diff=`. -/
def tokenRequest (token : Bytes) : Option (Bool × Int) :=
  if token.take 5 = [100, 105, 102, 102, 61] then -- "diff="
    (tokenValue (token.drop 5)).map fun value => (true, value)
  else if token.take 2 = [100, 61] then -- "d="
    (tokenValue (token.drop 2)).map fun value => (false, value)
  else none

/-- The loop of `password_requested_diff`. -/
def requestedDiff : Int → List Bytes → Int
  | requested, [] => requested
  | requested, token :: tokens =>
    match tokenRequest token with
    -- the long form has precedence
    | some (true, value) => value
    | some (false, value) => requestedDiff value tokens
    | none => requestedDiff requested tokens

/-- `password_requested_diff`: zero when no token is valid. -/
def passwordRequestedDiff (pass : Bytes) : Int :=
  requestedDiff 0 ((pass.splitOnP isPassSeparator).filter (· ≠ []))

theorem tokenValue_pos {digits : Bytes} {value : Int} (h : tokenValue digits = some value) :
    0 < value := by
  unfold tokenValue at h
  split_ifs at h
  dsimp only at h
  split_ifs at h with hrange
  obtain rfl := Option.some.inj h
  exact_mod_cast hrange.1

theorem tokenRequest_pos {token : Bytes} {long : Bool} {value : Int}
    (h : tokenRequest token = some (long, value)) : 0 < value := by
  unfold tokenRequest at h
  split_ifs at h
  all_goals
    obtain ⟨v, hv, heq⟩ := Option.map_eq_some_iff.mp h
    obtain ⟨-, rfl⟩ := Prod.mk.inj heq
    exact tokenValue_pos hv

theorem requestedDiff_nonneg {requested : Int} {tokens : List Bytes} (h : 0 ≤ requested) :
    0 ≤ requestedDiff requested tokens := by
  induction tokens generalizing requested with
  | nil => exact h
  | cons token tokens ih =>
    rcases htoken : tokenRequest token with _ | ⟨long, value⟩
    · simp only [requestedDiff, htoken]
      exact ih h
    · have hpos := tokenRequest_pos htoken
      cases long with
      | false =>
        simp only [requestedDiff, htoken]
        exact ih hpos.le
      | true =>
        simp only [requestedDiff, htoken]
        exact hpos.le

/-! ### Clients -/

/-- The fields of `stratum_instance_t` that the difficulty depends on. -/
structure DiffClient where
  diff : Int
  oldDiff : Int
  diffChangeJobId : Int := 0
  ldc : Tv
  ssdc : Int := 0
  firstShare : Tv := ⟨0, 0⟩
  suggestDiff : Int := 0
  baseSuggestDiff : Int := 0
  rentalDiff : Bool := false
  pinnedDiff : Bool := false
  useragent : Option Bytes := none
  subscribed : Bool := false
  authorised : Bool := false
  latency : Int := 0
  remote : Bool := false
  sv2 : Bool := false
deriving DecidableEq, Repr

namespace DiffConf

variable (c : DiffConf)

/-- `server_highdiff` of a server, as `__stratum_add_instance` bounds the index. -/
def isHighdiff (server : Int) : Bool :=
  let server := if server < 0 ∨ c.serverHighdiff.length ≤ server then 0 else server
  c.serverHighdiff.getD server.toNat false

/-- `__stratum_add_instance` -/
def addInstance (server : Int) (now : Tv) (latency : Int) (remote : Bool) : DiffClient :=
  let client : DiffClient := {
    diff := c.startdiff
    oldDiff := c.startdiff
    ldc := now
    latency
    remote }
  if c.isHighdiff server then
    let client := { client with suggestDiff := c.highdiff, baseSuggestDiff := c.highdiff }
    if client.suggestDiff > client.diff then
      { client with diff := client.suggestDiff, oldDiff := client.suggestDiff }
    else client
  else client

/-- What a rental service gets at `mining.subscribe`. -/
def applyRental (client : DiffClient) (diff : Int) : DiffClient :=
  { client with
    suggestDiff := diff
    baseSuggestDiff := diff
    diff := diff
    oldDiff := diff
    rentalDiff := true }

/-- `parse_subscribe`, past its first checks. -/
def parseSubscribe (client : DiffClient) (useragent : Bytes) : DiffClient :=
  let client := { client with useragent := some useragent }
  -- "nicehash"
  if strcasestr useragent [110, 105, 99, 101, 104, 97, 115, 104] then
    applyRental client
      (c.mindiffOverrideDiff [110, 105, 99, 101, 104, 97, 115, 104] 500000)
  -- "miningrigrentals" and "mrr-hash"
  else if strcasestr useragent
      [109, 105, 110, 105, 110, 103, 114, 105, 103, 114, 101, 110, 116, 97, 108, 115] ∨
      strcasestr useragent [109, 114, 114, 45, 104, 97, 115, 104] then
    applyRental client
      (c.mindiffOverrideDiff
        [109, 105, 110, 105, 110, 103, 114, 105, 103, 114, 101, 110, 116, 97, 108, 115] 1000000)
  else client

/-- `reset_auth_pin`, and whether the client was pinned. -/
def resetAuthPin (client : DiffClient) : DiffClient × Bool :=
  let wasPinned := client.pinnedDiff
  let client := { client with pinnedDiff := false }
  if !wasPinned then (client, false)
  else
    let client := { client with suggestDiff := client.baseSuggestDiff }
    let diff := if client.rentalDiff then client.baseSuggestDiff
      else max client.baseSuggestDiff c.startdiff
    ({ client with diff := diff, oldDiff := diff }, true)

/-- The first of `mindiff_overrides` that the worker part of a worker name matches. -/
def workerOverride (workername : Bytes) : Option Int :=
  (strsep workername).2.bind fun wname =>
    (c.mindiffOverrides.find? fun o => strcasestr wname o.1 ∧ 0 < o.2).map Prod.snd

/-- The override loop of `parse_authorise`. -/
def applyOverride (client : DiffClient) (workername : Bytes) : DiffClient :=
  if client.rentalDiff then client
  else match c.workerOverride workername with
    | none => client
    | some diff =>
      let diff := if c.mindiff ≠ 0 ∧ diff < c.mindiff then c.mindiff else diff
      let diff := if c.maxdiff ≠ 0 ∧ c.maxdiff < diff then c.maxdiff else diff
      { client with suggestDiff := diff, diff := diff, oldDiff := diff }

/-- `apply_password_diff` -/
def applyPasswordDiff (client : DiffClient) (pass : Bytes) : DiffClient :=
  let diff := passwordRequestedDiff pass
  if 0 < diff then
    let diff := if c.mindiff ≠ 0 ∧ diff < c.mindiff then c.mindiff else diff
    let diff := if client.rentalDiff ∧ diff < client.diff then client.diff else diff
    let diff := if c.maxdiff ≠ 0 ∧ c.maxdiff < diff then c.maxdiff else diff
    { client with suggestDiff := diff, pinnedDiff := true, diff := diff, oldDiff := diff }
  else client

end DiffConf

/-- A `mining.authorize` with a worker name that passes the checks.  `ret` is what the
rate limit and the gate of solo mode say, `workerMindiff` the `mindiff` of the worker. -/
structure AuthRequest where
  workername : Bytes
  pass : Option Bytes
  ret : Bool
  now : Tv
  workerMindiff : Int

/-- An authorisation whose password, if any, has no valid token. -/
def AuthRequest.NoToken (a : AuthRequest) : Prop :=
  ∀ pass ∈ a.pass, passwordRequestedDiff pass = 0

namespace DiffConf

variable (c : DiffConf)

/-- A password, if there is one. -/
def applyPass (client : DiffClient) : Option Bytes → DiffClient
  | some pass => c.applyPasswordDiff client pass
  | none => client

/-- Leaving a pin, `parse_authorise` restarts the vardiff window. -/
def restartWindow (wasPinned : Bool) (now : Tv) (client : DiffClient) : DiffClient :=
  if wasPinned ∧ !client.pinnedDiff then { client with ssdc := 0, ldc := now } else client

/-- A client without a difficulty gets `startdiff`. -/
def defaultDiff (client : DiffClient) : DiffClient :=
  if client.diff = 0 then { client with diff := c.startdiff, oldDiff := c.startdiff } else client

/-- What `parse_authorise` does to the difficulty. -/
def parseAuthorise (client : DiffClient) (a : AuthRequest) : DiffClient :=
  let (client, wasPinned) := c.resetAuthPin client
  let client := c.applyOverride client a.workername
  let client := c.applyPass client a.pass
  c.defaultDiff (restartWindow wasPinned a.now client)

/-- The floor `sauth_process` raises the difficulty to. -/
def reconcile (client : DiffClient) (workerMindiff : Int) : DiffClient :=
  let mindiff := if client.suggestDiff ≠ 0 then client.suggestDiff else workerMindiff
  if mindiff ≠ 0 then
    let mindiff := max c.mindiff mindiff
    if mindiff ≠ client.diff then { client with diff := mindiff } else client
  else client

/-- `sauth_process` after `parse_authorise`. -/
def finishAuth (client : DiffClient) (a : AuthRequest) : DiffClient :=
  if !a.ret then client
  -- the upstream pool completes the authorisation
  else if c.remote ∧ !c.btcsolo then client
  else
    let client := { client with authorised := true }
    if client.remote then client else c.reconcile client a.workerMindiff

/-- `sauth_process`.  A client that has not subscribed, or is authorised already, gets
no further than the checks. -/
def sauthProcess (client : DiffClient) (a : AuthRequest) : DiffClient :=
  if client.authorised ∨ client.useragent.isNone then client
  else c.finishAuth (c.parseAuthorise client a) a

end DiffConf

/-- What `mining.suggest_difficulty` carries: a number as its parameter, `none` if it
is not finite, or what `sscanf` reads out of the text of the method. -/
inductive Suggestion where
  | param (diff : Option ℚ)
  | text (diff : Option Int)

/-- The difficulty suggested; `none` when `suggest_diff` cannot parse it. -/
def Suggestion.value : Suggestion → Option Int
  | param none => some 0
  | param (some dsdiff) => some (truncate (if dsdiff < 0 ∨ 10 ^ 18 < dsdiff then 0 else dsdiff))
  | text diff => diff

namespace DiffConf

variable (c : DiffConf)

/-- `suggest_diff`, past its check that the client is active. -/
def suggestDiff (client : DiffClient) (m : Suggestion) (workbaseId : Int) : DiffClient :=
  match m.value with
  | none => client
  | some sdiff =>
    let sdiff := c.clampRequestedDiff sdiff
    if sdiff = client.suggestDiff then client
    else
      let client := { client with suggestDiff := sdiff }
      if client.diff = sdiff then client
      else { client with diffChangeJobId := workbaseId, oldDiff := client.diff, diff := sdiff }

end DiffConf

/-- `sane_diff_int64`; `none` is a double that is not finite. -/
def saneDiffInt64 : Option ℚ → Int
  | none => 0
  | some diff =>
    if diff < 1 then 0
    else if 10 ^ 18 < diff then 10 ^ 18
    else truncate (diff + 999999 / 1000000)

/-- `stratifier_sv2_open_session` -/
def DiffConf.sv2OpenSession (c : DiffConf) (server : Int) (now : Tv) (diff : Option ℚ) :
    DiffClient :=
  let client := { c.addInstance server now 0 false with
    subscribed := true
    sv2 := true
    useragent := some [115, 118, 50]
    diff := saneDiffInt64 diff
    oldDiff := saneDiffInt64 diff }
  let client := if client.diff < 1 then
      { client with diff := c.startdiff, oldDiff := c.startdiff }
    else client
  { client with authorised := true }

/-- `stratifier_sv2_set_diff` of the instance of a channel. -/
def sv2SetDiff (client : DiffClient) (diff : Option ℚ) (current : Option Int) (workbaseId : Int) :
    DiffClient :=
  let d := saneDiffInt64 diff
  if d < 1 then client
  else
    { client with
      oldDiff := client.diff
      diff := d
      diffChangeJobId := match current with
        | some id => id + 1
        | none => workbaseId + 1 }

/-! ### Vardiff -/

/-- `vardiff_target`.  A rate over a difficulty of zero is no number that compares as
less than anything. -/
def vardiffTarget (dsps : ℚ) (curDiff floorDiff poolMindiff poolMaxdiff : Int)
    (networkDiff : ℚ) : Int :=
  let drr := dsps / curDiff
  if 3 / 20 < drr ∧ drr < 2 / 5 then 0
  else if floorDiff ≠ 0 ∧ curDiff ≠ 0 ∧ drr < 1 / 2 then 0
  else
    let optimal := if floorDiff ≠ 0 then lround (dsps * (12 / 5)) else lround (dsps * (333 / 100))
    let optimal := max optimal poolMindiff
    let optimal := max optimal floorDiff
    let optimal := if poolMaxdiff ≠ 0 then min optimal poolMaxdiff else optimal
    let optimal := if optimal < networkDiff then optimal else truncate networkDiff
    if optimal < 1 then 0 else optimal

/-- What `add_submit` measures when a share comes in: the time, the share rates over
one and over five minutes, biased for the age of the client, the difficulty of the
network and the `mindiff` of the worker. -/
structure ShareRate where
  now : Tv
  dsps1 : ℚ
  dsps5 : ℚ
  networkDiff : ℚ
  workerMindiff : Int

/-- `add_submit` before anything is counted: the first share starts the clocks. -/
def DiffClient.firstSubmit (client : DiffClient) (now : Tv) : DiffClient :=
  if client.firstShare.sec = 0 then { client with firstShare := now, ldc := now } else client

/-- The floor of a client: what it suggested, else the `mindiff` of its worker. -/
def DiffClient.floorDiff (client : DiffClient) (workerMindiff : Int) : Int :=
  if client.suggestDiff ≠ 0 then client.suggestDiff else workerMindiff

namespace DiffConf

variable (c : DiffConf)

/-- `add_submit` once the share counts towards the difficulty of its client. -/
def vardiff (client : DiffClient) (diff : Int) (r : ShareRate) (nextBlockid : Int) :
    DiffClient :=
  let client := { client with ssdc := client.ssdc + 1 }
  if client.ssdc < 72 ∧ saneTdiff r.now client.ldc < 240000000 then client
  else if diff ≠ client.diff then { client with ssdc := 0 }
  else
    let dsps := if 72 ≤ client.ssdc then r.dsps1 else r.dsps5
    let optimal := vardiffTarget dsps client.diff (client.floorDiff r.workerMindiff) c.mindiff
      c.maxdiff r.networkDiff
    if optimal = 0 then client
    else if client.diff = optimal then client
    -- the client may just have come back
    else if optimal < client.diff ∧ client.ssdc = 1 then { client with ldc := r.now }
    else
      { client with
        ssdc := 0
        ldc := r.now
        diffChangeJobId := nextBlockid
        oldDiff := client.diff
        diff := optimal }

/-- `add_submit` -/
def addSubmit (client : DiffClient) (diff : Int) (valid submit : Bool) (r : ShareRate)
    (nextBlockid : Int) : DiffClient :=
  if !valid ∧ !submit then client
  else
    let client := client.firstSubmit r.now
    if c.node then client
    else if client.pinnedDiff then client
    else c.vardiff client diff r nextBlockid

/-- The difficulty to which a share moves a client; `none` when it stays, because the
window is not over, the share was on another difficulty, or the target says so. -/
def retarget (client : DiffClient) (diff : Int) (r : ShareRate) : Option Int :=
  let client := client.firstSubmit r.now
  let dsps := if 72 ≤ client.ssdc + 1 then r.dsps1 else r.dsps5
  let optimal := vardiffTarget dsps client.diff (client.floorDiff r.workerMindiff) c.mindiff
    c.maxdiff r.networkDiff
  if c.node ∨ client.pinnedDiff ∨
      (client.ssdc + 1 < 72 ∧ saneTdiff r.now client.ldc < 240000000) ∨ diff ≠ client.diff ∨
      optimal = 0 ∨ client.diff = optimal ∨ (optimal < client.diff ∧ client.ssdc + 1 = 1) then
    none
  else some optimal

end DiffConf

/-! ### What decides about shares -/

/-- What `shareDiff` reads of a client. -/
def DiffClient.grace (client : DiffClient) : Int × Int × Int × Bool × Int :=
  (client.diff, client.oldDiff, client.diffChangeJobId, client.sv2, client.latency)

/-- What it reads after a change of the difficulty. -/
def DiffClient.graceAfter (client : DiffClient) (change : Option (Int × Int)) :
    Int × Int × Int × Bool × Int :=
  match change with
  | none => client.grace
  | some (diff, id) => (diff, client.diff, id, client.sv2, client.latency)

section Grace

variable (c : DiffConf) (client : DiffClient)

theorem grace_firstSubmit (now : Tv) : (client.firstSubmit now).grace = client.grace := by
  unfold DiffClient.firstSubmit
  split_ifs <;> rfl

/-- A counted share changes the difficulty as `retarget` says. -/
theorem grace_addSubmit (diff : Int) {valid submit : Bool} (hcount : valid ∨ submit)
    (r : ShareRate) (nextBlockid : Int) :
    (c.addSubmit client diff valid submit r nextBlockid).grace =
      client.graceAfter ((c.retarget client diff r).map fun x => (x, nextBlockid)) := by
  have hfirst := grace_firstSubmit client r.now
  have hnot : ¬(!valid ∧ !submit) := by
    rcases hcount with h | h <;> simp [h]
  unfold DiffConf.addSubmit DiffConf.retarget
  rw [if_neg hnot]
  dsimp only
  generalize client.firstSubmit r.now = begun at *
  by_cases hnode : c.node
  · rw [if_pos hnode, if_pos (Or.inl hnode)]
    exact hfirst
  rw [if_neg hnode]
  by_cases hpin : begun.pinnedDiff
  · rw [if_pos hpin, if_pos (Or.inr (Or.inl hpin))]
    exact hfirst
  rw [if_neg hpin]
  unfold DiffConf.vardiff DiffClient.floorDiff
  dsimp only
  -- the guards of `vardiff` in turn; each that fires is a disjunct of `retarget`
  generalize vardiffTarget _ _ _ _ _ _ = optimal
  by_cases hwindow : begun.ssdc + 1 < 72 ∧ saneTdiff r.now begun.ldc < 240000000
  · rw [if_pos hwindow, if_pos (Or.inr (Or.inr (Or.inl hwindow)))]
    exact hfirst
  rw [if_neg hwindow]
  by_cases hother : diff ≠ begun.diff
  · rw [if_pos hother, if_pos (Or.inr (Or.inr (Or.inr (Or.inl hother))))]
    exact hfirst
  rw [if_neg hother]
  by_cases hzero : optimal = 0
  · rw [if_pos hzero, if_pos (Or.inr (Or.inr (Or.inr (Or.inr (Or.inl hzero)))))]
    exact hfirst
  rw [if_neg hzero]
  by_cases hsame : begun.diff = optimal
  · rw [if_pos hsame, if_pos (Or.inr (Or.inr (Or.inr (Or.inr (Or.inr (Or.inl hsame))))))]
    exact hfirst
  rw [if_neg hsame]
  by_cases hback : optimal < begun.diff ∧ begun.ssdc + 1 = 1
  · rw [if_pos hback, if_pos (Or.inr (Or.inr (Or.inr (Or.inr (Or.inr (Or.inr hback))))))]
    exact hfirst
  have hnone : ¬(c.node ∨ begun.pinnedDiff ∨
      (begun.ssdc + 1 < 72 ∧ saneTdiff r.now begun.ldc < 240000000) ∨ diff ≠ begun.diff ∨
      optimal = 0 ∨ begun.diff = optimal ∨ (optimal < begun.diff ∧ begun.ssdc + 1 = 1)) := by
    rintro (h | h | h | h | h | h | h)
    exacts [hnode h, hpin h, hwindow h, hother h, hzero h, hsame h, hback h]
  rw [if_neg hback, if_neg hnone]
  obtain ⟨hd, -, -, hsv2, hlatency⟩ : begun.diff = client.diff ∧ begun.oldDiff = client.oldDiff ∧
      begun.diffChangeJobId = client.diffChangeJobId ∧ begun.sv2 = client.sv2 ∧
      begun.latency = client.latency := by
    simpa [DiffClient.grace] using hfirst
  simp [DiffClient.graceAfter, DiffClient.grace, hd, hsv2, hlatency]

/-- Shares leave everything else as it is. -/
theorem vardiff_rest (diff : Int) (r : ShareRate) (nextBlockid : Int) :
    c.vardiff client diff r nextBlockid =
      { client with
        diff := (c.vardiff client diff r nextBlockid).diff
        oldDiff := (c.vardiff client diff r nextBlockid).oldDiff
        diffChangeJobId := (c.vardiff client diff r nextBlockid).diffChangeJobId
        ldc := (c.vardiff client diff r nextBlockid).ldc
        ssdc := (c.vardiff client diff r nextBlockid).ssdc } := by
  unfold DiffConf.vardiff
  dsimp only
  split_ifs <;> rfl

/-- A share that does not count changes nothing. -/
theorem addSubmit_uncounted (diff : Int) (r : ShareRate) (nextBlockid : Int) :
    c.addSubmit client diff false false r nextBlockid = client :=
  rfl

end Grace

end CashStratum
