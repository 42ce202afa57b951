/-
CashStratum/TemplateCache.lean

The cache of the coinbase template and its callers (`coinbaseTemplateCache`).

A call of `get` runs under the mutex of the cache but for two places: where it waits for the
channel of another call's probe, and where it runs a probe itself.  Between these places each
stretch is one event, so a run of events is an interleaving of the calls.  The clock is read anew
in each stretch and may show anything.

`GetWorld.Safe` is what holds in every reachable state: the slot is the channel of the one call
that is probing, and whoever waits holds that channel or a closed one.
-/
import CashStratum.CoinbaseTemplate
import CashStratum.Run

namespace CashStratum

/-! ### The cache -/

/-- `templateRetryInterval`, in nanoseconds. -/
def templateRetryInterval : Int := 2000000000

/-- `coinbaseTemplateCache`; a channel is its number. -/
structure TemplateCache where
  tmpl : Option CoinbaseTemplate
  inflight : Option Nat
  lastRefresh : Option Int
  lastFailed : Bool
  lastWanted : Int

/-- `newCoinbaseTemplateCache` -/
def newCoinbaseTemplateCache : TemplateCache := ⟨none, none, none, false, 0⟩

/-- `recentlyMissed` -/
def TemplateCache.recentlyMissed (c : TemplateCache) (candidateHeight : Option Int) (now : Int) :
    Bool :=
  match c.lastRefresh with
  | none => false
  | some lastRefresh =>
    if now - lastRefresh ≥ templateRetryInterval then false
    else if c.lastFailed then true
    else
      match candidateHeight with
      | none => false
      | some candidateHeight => candidateHeight ≤ c.lastWanted

/-- `decide`: whether to use the template, and if not, whether to refresh it. -/
def decideTemplate (maxAge : Int) (t : Option CoinbaseTemplate) (candidateHeight : Option Int)
    (now : Int) : Bool × Bool :=
  match t with
  | none => (false, true)
  | some t =>
    match candidateHeight with
    | some candidateHeight =>
      if candidateHeight = t.height then (true, false)
      else if candidateHeight > t.height then (false, true)
      else (false, false)
    | none => if now - t.fetchedAt < maxAge then (true, false) else (false, true)

/-- The two places where one turn of the loop reads the clock. -/
structure Reads where
  decided : Int
  missed : Int

/-- How a turn of the loop ends. -/
inductive Turn
  | use (t : CoinbaseTemplate)
  | fallback
  | wait (ch : Nat)
  | probe

/-- A turn whose template is not used. -/
def TemplateCache.refreshTurn (c : TemplateCache) (candidateHeight : Option Int)
    (refresh refreshed : Bool) (now : Int) : Turn :=
  if !refresh || refreshed then .fallback
  else
    match c.inflight with
    | some ch => .wait ch
    | none => if c.recentlyMissed candidateHeight now then .fallback else .probe

/-- One turn of the loop in `get`, for a call that has been refreshed or not. -/
def TemplateCache.turn (maxAge : Int) (c : TemplateCache) (candidateHeight : Option Int)
    (refreshed : Bool) (reads : Reads) : Turn :=
  match c.tmpl, decideTemplate maxAge c.tmpl candidateHeight reads.decided with
  | some t, (true, _) => .use t
  | _, (_, refresh) => c.refreshTurn candidateHeight refresh refreshed reads.missed

/-! ### The calls -/

/-- Where a call of `get` stands. -/
inductive GetPhase
  | entered
  | waiting (ch : Nat)
  | probing (ch : Nat)
  | returned (t : Option CoinbaseTemplate)
deriving DecidableEq

/-- A call of `get`, with how often it has started a probe and has waited. -/
structure GetCall where
  candidateHeight : Option Int
  phase : GetPhase
  probes : Nat
  waits : Nat

/-- A call that has taken the mutex for the first time. -/
def GetCall.new (candidateHeight : Option Int) : GetCall := ⟨candidateHeight, .entered, 0, 0⟩

/-- What a probe comes back with; a panic is an error. -/
inductive ProbeOutcome
  | returned (t : Option CoinbaseTemplate) (err : Bool)
  | panicked

/-- The template of a probe that has not failed: `err == nil && t != nil`. -/
def ProbeOutcome.template : ProbeOutcome → Option CoinbaseTemplate
  | .returned t err => if err then none else t
  | .panicked => none

/-- The cache, the channels that have been closed and made, and the calls. -/
structure GetWorld where
  cache : TemplateCache
  closed : List Nat
  made : Nat
  calls : List GetCall

inductive GetEvent
  | call (candidateHeight : Option Int)
  | enter (i : Nat) (reads : Reads)
  | wake (i : Nat) (reads : Reads)
  | finish (i : Nat) (outcome : ProbeOutcome) (now : Int) (reads : Reads)

namespace GetWorld

/-- The call goes on to where its turn ends. -/
def go (w : GetWorld) (i : Nat) (call : GetCall) : Turn → GetWorld
  | .use t => { w with calls := w.calls.set i { call with phase := .returned (some t) } }
  | .fallback => { w with calls := w.calls.set i { call with phase := .returned none } }
  | .wait ch =>
    { w with calls := w.calls.set i { call with phase := .waiting ch, waits := call.waits + 1 } }
  | .probe =>
    { w with
      cache := { w.cache with
        lastWanted := call.candidateHeight.getD 0
        inflight := some w.made }
      made := w.made + 1
      calls := w.calls.set i
        { call with phase := .probing w.made, probes := call.probes + 1 } }

/-- The probe of a call is over: the cache takes the template, the slot is free and the channel
closed. -/
def refreshed (w : GetWorld) (ch : Nat) (outcome : ProbeOutcome) (now : Int) : GetWorld :=
  { w with
    cache := { w.cache with
      tmpl := outcome.template.or w.cache.tmpl
      lastRefresh := some now
      lastFailed := outcome.template.isNone
      inflight := none }
    closed := ch :: w.closed }

/-- One stretch of a call; an event whose call does not stand there changes nothing. -/
def step (maxAge : Int) (w : GetWorld) : GetEvent → GetWorld
  | .call candidateHeight => { w with calls := w.calls ++ [.new candidateHeight] }
  | .enter i reads =>
    match w.calls[i]? with
    | none => w
    | some call =>
      if call.phase = .entered then
        w.go i call (w.cache.turn maxAge call.candidateHeight false reads)
      else w
  | .wake i reads =>
    match w.calls[i]? with
    | none => w
    | some call =>
      match call.phase with
      | .waiting ch =>
        -- a receive from a channel that is not closed does not come back
        if ch ∈ w.closed then
          w.go i call (w.cache.turn maxAge call.candidateHeight true reads)
        else w
      | _ => w
  | .finish i outcome now reads =>
    match w.calls[i]? with
    | none => w
    | some call =>
      match call.phase with
      | .probing ch =>
        let w := w.refreshed ch outcome now
        w.go i call (w.cache.turn maxAge call.candidateHeight true reads)
      | _ => w

/-- Before any call. -/
def init : GetWorld := ⟨newCoinbaseTemplateCache, [], 0, []⟩

end GetWorld

/-! ### How a turn ends -/

/-- A turn of a call that has been refreshed ends the call; any other waits for the slot, or takes
it when it is free. -/
theorem TemplateCache.refreshTurn_cases (c : TemplateCache) (candidateHeight : Option Int)
    (refresh refreshed : Bool) (now : Int) :
    c.refreshTurn candidateHeight refresh refreshed now = .fallback ∨
      (refreshed = false ∧
        ((∃ ch, c.inflight = some ch ∧
          c.refreshTurn candidateHeight refresh refreshed now = .wait ch) ∨
        (c.inflight = none ∧
          c.refreshTurn candidateHeight refresh refreshed now = .probe))) := by
  unfold TemplateCache.refreshTurn
  by_cases hstop : (!refresh || refreshed) = true
  · rw [if_pos hstop]
    exact Or.inl rfl
  · rw [if_neg hstop]
    have hfirst : refreshed = false := by
      cases refreshed with
      | false => rfl
      | true => exact absurd (Bool.or_true _) hstop
    cases hslot : c.inflight with
    | some ch => exact Or.inr ⟨hfirst, Or.inl ⟨ch, rfl, rfl⟩⟩
    | none =>
      dsimp only
      by_cases hmissed : c.recentlyMissed candidateHeight now = true
      · rw [if_pos hmissed]
        exact Or.inl rfl
      · rw [if_neg hmissed]
        exact Or.inr ⟨hfirst, Or.inr ⟨rfl, rfl⟩⟩

/-- A template is used for a height that is its own. -/
theorem decideTemplate_use {maxAge now : Int} {t : CoinbaseTemplate} {candidateHeight : Option Int}
    {refresh : Bool} (h : decideTemplate maxAge (some t) candidateHeight now = (true, refresh)) :
    ∀ height ∈ candidateHeight, t.height = height := by
  rintro height ⟨⟩
  unfold decideTemplate at h
  dsimp only at h
  split_ifs at h with heq
  · exact heq.symm
  · cases h
  · cases h

/-- How a turn ends: with a template of the named height, or as a turn that uses none. -/
theorem TemplateCache.turn_cases (maxAge : Int) (c : TemplateCache) (candidateHeight : Option Int)
    (refreshed : Bool) (reads : Reads) :
    (∃ t, c.turn maxAge candidateHeight refreshed reads = .use t ∧
      ∀ height ∈ candidateHeight, t.height = height) ∨
    ∃ refresh, c.turn maxAge candidateHeight refreshed reads =
      c.refreshTurn candidateHeight refresh refreshed reads.missed := by
  unfold TemplateCache.turn
  cases htmpl : c.tmpl with
  | none => exact Or.inr ⟨true, rfl⟩
  | some t =>
    cases hdecide : decideTemplate maxAge (some t) candidateHeight reads.decided with
    | mk use refresh =>
      cases use with
      | true => exact Or.inl ⟨t, rfl, decideTemplate_use hdecide⟩
      | false => exact Or.inr ⟨refresh, rfl⟩

/-! ### The invariant -/

/-- A call has not both waited and probed, and neither twice; what it has returned is of the
height it named. -/
def GetCall.Ok (call : GetCall) : Prop :=
  match call.phase with
  | .entered => call.probes = 0 ∧ call.waits = 0
  | .waiting _ => call.probes = 0 ∧ call.waits = 1
  | .probing _ => call.probes = 1 ∧ call.waits = 0
  | .returned t =>
    call.probes + call.waits ≤ 1 ∧ ∀ t' ∈ t, ∀ height ∈ call.candidateHeight, t'.height = height

theorem GetCall.Ok.count {call : GetCall} (h : call.Ok) : call.probes + call.waits ≤ 1 := by
  unfold GetCall.Ok at h
  split at h
  · omega
  · omega
  · omega
  · exact h.1

variable {w : GetWorld} {i : Nat}

namespace GetWorld

/-- Call `i` stands there. -/
def PhaseAt (w : GetWorld) (i : Nat) (phase : GetPhase) : Prop :=
  ∃ call, w.calls[i]? = some call ∧ call.phase = phase

/-- What holds of all calls but one, which is in the middle of a turn. -/
structure SafeBut (w : GetWorld) (i : Nat) : Prop where
  ok : ∀ (j : Nat) (call : GetCall), j ≠ i → w.calls[j]? = some call → call.Ok
  probing : ∀ j ch, j ≠ i → w.PhaseAt j (.probing ch) → w.cache.inflight = some ch
  unique : ∀ j k ch ch', j ≠ i → k ≠ i → w.PhaseAt j (.probing ch) → w.PhaseAt k (.probing ch') →
    j = k
  slot : ∀ ch, w.cache.inflight = some ch → ∃ j, j ≠ i ∧ w.PhaseAt j (.probing ch)
  waiting : ∀ j ch, j ≠ i → w.PhaseAt j (.waiting ch) →
    ch ∈ w.closed ∨ w.cache.inflight = some ch
  closed_lt : ∀ ch ∈ w.closed, ch < w.made
  slot_open : ∀ ch, w.cache.inflight = some ch → ch < w.made ∧ ch ∉ w.closed

/-- The slot is the channel of the one call that is probing, and a waiting call holds it or a
channel that is closed. -/
structure Safe (w : GetWorld) : Prop where
  ok : ∀ (j : Nat) (call : GetCall), w.calls[j]? = some call → call.Ok
  probing : ∀ j ch, w.PhaseAt j (.probing ch) → w.cache.inflight = some ch
  unique : ∀ j k ch ch', w.PhaseAt j (.probing ch) → w.PhaseAt k (.probing ch') → j = k
  slot : ∀ ch, w.cache.inflight = some ch → ∃ j, w.PhaseAt j (.probing ch)
  waiting : ∀ j ch, w.PhaseAt j (.waiting ch) → ch ∈ w.closed ∨ w.cache.inflight = some ch
  closed_lt : ∀ ch ∈ w.closed, ch < w.made
  slot_open : ∀ ch, w.cache.inflight = some ch → ch < w.made ∧ ch ∉ w.closed

theorem PhaseAt.inj {p q : GetPhase} (h : w.PhaseAt i p) (h' : w.PhaseAt i q) : p = q := by
  obtain ⟨call, hcall, rfl⟩ := h
  obtain ⟨call', hcall', rfl⟩ := h'
  rw [Option.some.inj (hcall.symm.trans hcall')]

/-- A world in which one call has moved. -/
structure Moved (w w' : GetWorld) (i : Nat) (call' : GetCall) : Prop where
  at_i : w'.calls[i]? = some call'
  others : ∀ j, j ≠ i → w'.calls[j]? = w.calls[j]?
  closed : w'.closed = w.closed

theorem moved_set {w w' : GetWorld} {call call' : GetCall} (hi : w.calls[i]? = some call)
    (hcalls : w'.calls = w.calls.set i call') (hclosed : w'.closed = w.closed) :
    Moved w w' i call' := by
  have hlt : i < w.calls.length := (List.getElem?_eq_some_iff.mp hi).1
  refine ⟨?_, ?_, hclosed⟩
  · rw [hcalls, List.getElem?_set_self hlt]
  · intro j hj
    rw [hcalls, List.getElem?_set_ne (Ne.symm hj)]

theorem Moved.phaseAt {w w' : GetWorld} {call' : GetCall} (h : Moved w w' i call')
    {j : Nat} (hj : j ≠ i) {p : GetPhase} : w'.PhaseAt j p ↔ w.PhaseAt j p := by
  unfold PhaseAt
  rw [h.others j hj]

theorem Moved.phaseAt_self {w w' : GetWorld} {call' : GetCall} (h : Moved w w' i call')
    {p : GetPhase} : w'.PhaseAt i p ↔ call'.phase = p := by
  constructor
  · rintro ⟨call, hcall, rfl⟩
    rw [Option.some.inj (h.at_i.symm.trans hcall)]
  · intro hp
    exact ⟨call', h.at_i, hp⟩

/-- A call that ends its turn without the slot leaves the others safe. -/
theorem SafeBut.settle {w w' : GetWorld} {call' : GetCall} (h : w.SafeBut i)
    (hmoved : Moved w w' i call') (hcache : w'.cache = w.cache) (hmade : w'.made = w.made)
    (hok : call'.Ok) (hprobing : ∀ ch, call'.phase ≠ .probing ch)
    (hwaiting : ∀ ch, call'.phase = .waiting ch → w.cache.inflight = some ch) : w'.Safe where
  ok := by
    intro j call hcall
    by_cases hj : j = i
    · subst hj
      obtain rfl : call' = call := Option.some.inj (hmoved.at_i.symm.trans hcall)
      exact hok
    · rw [hmoved.others j hj] at hcall
      exact h.ok j call hj hcall
  probing := by
    intro j ch hat
    rw [hcache]
    by_cases hj : j = i
    · subst hj
      exact absurd (hmoved.phaseAt_self.mp hat) (hprobing ch)
    · exact h.probing j ch hj ((hmoved.phaseAt hj).mp hat)
  unique := by
    intro j k ch ch' hat hat'
    have hj : j ≠ i := by
      rintro rfl
      exact hprobing ch (hmoved.phaseAt_self.mp hat)
    have hk : k ≠ i := by
      rintro rfl
      exact hprobing ch' (hmoved.phaseAt_self.mp hat')
    exact h.unique j k ch ch' hj hk ((hmoved.phaseAt hj).mp hat) ((hmoved.phaseAt hk).mp hat')
  slot := by
    intro ch hslot
    rw [hcache] at hslot
    obtain ⟨j, hj, hat⟩ := h.slot ch hslot
    exact ⟨j, (hmoved.phaseAt hj).mpr hat⟩
  waiting := by
    intro j ch hat
    rw [hmoved.closed, hcache]
    by_cases hj : j = i
    · subst hj
      exact Or.inr (hwaiting ch (hmoved.phaseAt_self.mp hat))
    · exact h.waiting j ch hj ((hmoved.phaseAt hj).mp hat)
  closed_lt := by
    rw [hmoved.closed, hmade]
    exact h.closed_lt
  slot_open := by
    rw [hcache, hmoved.closed, hmade]
    exact h.slot_open

/-- A call that takes the free slot with a new channel leaves all safe. -/
theorem SafeBut.take {w w' : GetWorld} {call' : GetCall} (h : w.SafeBut i)
    (hmoved : Moved w w' i call') (hfree : w.cache.inflight = none)
    (hslot : w'.cache.inflight = some w.made) (hmade : w'.made = w.made + 1) (hok : call'.Ok)
    (hphase : call'.phase = .probing w.made) : w'.Safe := by
  -- with the slot free nobody else is probing
  have hnone : ∀ j ch, j ≠ i → ¬ w'.PhaseAt j (.probing ch) := by
    intro j ch hj hat
    have hsome := h.probing j ch hj ((hmoved.phaseAt hj).mp hat)
    rw [hfree] at hsome
    cases hsome
  refine ⟨?_, ?_, ?_, ?_, ?_, ?_, ?_⟩
  · intro j call hcall
    by_cases hj : j = i
    · subst hj
      obtain rfl : call' = call := Option.some.inj (hmoved.at_i.symm.trans hcall)
      exact hok
    · rw [hmoved.others j hj] at hcall
      exact h.ok j call hj hcall
  · intro j ch hat
    by_cases hj : j = i
    · subst hj
      have hch := hphase.symm.trans (hmoved.phaseAt_self.mp hat)
      rw [hslot, GetPhase.probing.inj hch]
    · exact absurd hat (hnone j ch hj)
  · intro j k ch ch' hat hat'
    by_cases hj : j = i
    · by_cases hk : k = i
      · rw [hj, hk]
      · exact absurd hat' (hnone k ch' hk)
    · exact absurd hat (hnone j ch hj)
  · intro ch hch
    obtain rfl : w.made = ch := Option.some.inj (hslot.symm.trans hch)
    exact ⟨i, hmoved.phaseAt_self.mpr hphase⟩
  · intro j ch hat
    rw [hmoved.closed]
    by_cases hj : j = i
    · subst hj
      have hch := hphase.symm.trans (hmoved.phaseAt_self.mp hat)
      cases hch
    · rcases h.waiting j ch hj ((hmoved.phaseAt hj).mp hat) with hclosed | hsome
      · exact Or.inl hclosed
      · rw [hfree] at hsome
        cases hsome
  · intro ch hch
    rw [hmoved.closed] at hch
    have hlt := h.closed_lt ch hch
    omega
  · intro ch hch
    obtain rfl : w.made = ch := Option.some.inj (hslot.symm.trans hch)
    rw [hmoved.closed, hmade]
    exact ⟨Nat.lt_succ_self _, fun hmem => Nat.lt_irrefl _ (h.closed_lt _ hmem)⟩

/-- A turn of a call keeps all safe, when the call has not been anywhere or its turn is the one
after a refresh. -/
theorem SafeBut.go {call : GetCall} (h : w.SafeBut i)
    (hcall : w.calls[i]? = some call) {refreshed : Bool} (hcount : call.probes + call.waits ≤ 1)
    (hfirst : refreshed = false → call.probes = 0 ∧ call.waits = 0) (maxAge : Int) (reads : Reads) :
    (w.go i call (w.cache.turn maxAge call.candidateHeight refreshed reads)).Safe := by
  have hfallback : (w.go i call .fallback).Safe := by
    refine h.settle (moved_set hcall rfl rfl) rfl rfl ⟨hcount, ?_⟩ ?_ ?_
    · intro t ht
      cases ht
    · intro ch hch
      cases hch
    · intro ch hch
      cases hch
  rcases w.cache.turn_cases maxAge call.candidateHeight refreshed reads with
    ⟨t, hturn, hheight⟩ | ⟨refresh, hturn⟩
  · rw [hturn]
    refine h.settle (moved_set hcall rfl rfl) rfl rfl ⟨hcount, ?_⟩ ?_ ?_
    · rintro t' ⟨⟩
      exact hheight
    · intro ch hch
      cases hch
    · intro ch hch
      cases hch
  · rw [hturn]
    rcases w.cache.refreshTurn_cases call.candidateHeight refresh refreshed reads.missed with
      hend | ⟨hflag, ⟨ch, hslot, hend⟩ | ⟨hfree, hend⟩⟩
    · rw [hend]
      exact hfallback
    · rw [hend]
      obtain ⟨hprobes, hwaits⟩ := hfirst hflag
      refine h.settle (moved_set hcall rfl rfl) rfl rfl ⟨hprobes, ?_⟩ ?_ ?_
      · rw [hwaits]
      · intro ch' hch'
        cases hch'
      · rintro ch' ⟨⟩
        exact hslot
    · rw [hend]
      obtain ⟨hprobes, hwaits⟩ := hfirst hflag
      refine h.take (moved_set hcall rfl rfl) hfree rfl rfl ⟨?_, hwaits⟩ rfl
      rw [hprobes]

/-! ### The steps -/

/-- A call that is not probing can be left aside. -/
theorem Safe.but (h : w.Safe) (hi : ∀ ch, ¬ w.PhaseAt i (.probing ch)) :
    w.SafeBut i where
  ok j call _ := h.ok j call
  probing j ch _ := h.probing j ch
  unique j k ch ch' _ _ := h.unique j k ch ch'
  slot := by
    intro ch hslot
    obtain ⟨j, hat⟩ := h.slot ch hslot
    refine ⟨j, ?_, hat⟩
    rintro rfl
    exact hi ch hat
  waiting j ch _ := h.waiting j ch
  closed_lt := h.closed_lt
  slot_open := h.slot_open

/-- When a probe is over its channel is closed, whatever came of it, and the slot is free. -/
theorem Safe.refreshed (h : w.Safe) {i ch : Nat} (hi : w.PhaseAt i (.probing ch))
    (outcome : ProbeOutcome) (now : Int) : (w.refreshed ch outcome now).SafeBut i where
  ok j call _ := h.ok j call
  probing := by
    intro j ch' hj hat
    exact absurd (h.unique j i ch' ch hat hi) hj
  unique j k ch ch' _ _ := h.unique j k ch ch'
  slot := by
    intro ch' hslot
    cases hslot
  waiting := by
    intro j ch' _ hat
    refine Or.inl ?_
    rcases h.waiting j ch' hat with hclosed | hslot
    · exact List.mem_cons_of_mem ch hclosed
    · have hch := h.probing i ch hi
      rw [hch] at hslot
      rw [Option.some.inj hslot]
      exact List.mem_cons_self
  closed_lt := by
    intro ch' hmem
    rcases List.mem_cons.mp hmem with rfl | hmem
    · exact (h.slot_open _ (h.probing i _ hi)).1
    · exact h.closed_lt ch' hmem
  slot_open := by
    intro ch' hslot
    cases hslot

theorem safe_init : init.Safe where
  ok j call hcall := by cases hcall
  probing := by
    rintro j ch ⟨call, hcall, -⟩
    cases hcall
  unique := by
    rintro j k ch ch' ⟨call, hcall, -⟩
    cases hcall
  slot ch hslot := by cases hslot
  waiting := by
    rintro j ch ⟨call, hcall, -⟩
    cases hcall
  closed_lt ch hch := by cases hch
  slot_open ch hslot := by cases hslot

theorem Safe.call (h : w.Safe) (candidateHeight : Option Int) :
    Safe { w with calls := w.calls ++ [GetCall.new candidateHeight] } := by
  -- what stands at a place stood there, or has just been entered
  have hget : ∀ (j : Nat) (call : GetCall),
      (w.calls ++ [GetCall.new candidateHeight])[j]? = some call →
      w.calls[j]? = some call ∨ call = GetCall.new candidateHeight := by
    intro j call hcall
    rcases Nat.lt_or_ge j w.calls.length with hlt | hge
    · rw [List.getElem?_append_left hlt] at hcall
      exact Or.inl hcall
    · rw [List.getElem?_append_right hge] at hcall
      have hmem := List.mem_of_getElem? hcall
      exact Or.inr (List.mem_singleton.mp hmem)
  have hphase : ∀ j p, p ≠ .entered → PhaseAt { w with
      calls := w.calls ++ [.new candidateHeight] } j p → w.PhaseAt j p := by
    rintro j p hp ⟨call, hcall, rfl⟩
    rcases hget j call hcall with hold | rfl
    · exact ⟨call, hold, rfl⟩
    · exact absurd rfl hp
  have hkept : ∀ j p, w.PhaseAt j p → PhaseAt { w with
      calls := w.calls ++ [.new candidateHeight] } j p := by
    rintro j p ⟨call, hcall, hp⟩
    refine ⟨call, ?_, hp⟩
    rw [List.getElem?_append_left (List.getElem?_eq_some_iff.mp hcall).1]
    exact hcall
  refine ⟨?_, ?_, ?_, ?_, ?_, h.closed_lt, h.slot_open⟩
  · intro j call hcall
    rcases hget j call hcall with hold | rfl
    · exact h.ok j call hold
    · exact ⟨rfl, rfl⟩
  · intro j ch hat
    exact h.probing j ch (hphase j _ (by simp) hat)
  · intro j k ch ch' hat hat'
    exact h.unique j k ch ch' (hphase j _ (by simp) hat) (hphase k _ (by simp) hat')
  · intro ch hslot
    obtain ⟨j, hat⟩ := h.slot ch hslot
    exact ⟨j, hkept j _ hat⟩
  · intro j ch hat
    exact h.waiting j ch (hphase j _ (by simp) hat)

/-- **Every event keeps all calls safe.** -/
theorem Safe.step (h : w.Safe) (maxAge : Int) (e : GetEvent) :
    (w.step maxAge e).Safe := by
  cases e with
  | call candidateHeight => exact h.call candidateHeight
  | enter i reads =>
    simp only [GetWorld.step]
    cases hcall : w.calls[i]? with
    | none => exact h
    | some call =>
      dsimp only
      by_cases hphase : call.phase = .entered
      · rw [if_pos hphase]
        have hok := h.ok i call hcall
        rw [GetCall.Ok, hphase] at hok
        refine (h.but ?_).go hcall (by omega) (fun _ => hok) maxAge reads
        intro ch hat
        have hp := hat.inj ⟨call, hcall, hphase⟩
        cases hp
      · rw [if_neg hphase]
        exact h
  | wake i reads =>
    simp only [GetWorld.step]
    cases hcall : w.calls[i]? with
    | none => exact h
    | some call =>
      dsimp only
      cases hphase : call.phase with
      | waiting ch =>
        dsimp only
        by_cases hclosed : ch ∈ w.closed
        · rw [if_pos hclosed]
          refine (h.but ?_).go hcall (h.ok i call hcall).count (fun hf => by cases hf)
            maxAge reads
          intro ch' hat
          have hp := hat.inj ⟨call, hcall, hphase⟩
          cases hp
        · rw [if_neg hclosed]
          exact h
      | entered => exact h
      | probing ch => exact h
      | returned t => exact h
  | finish i outcome now reads =>
    simp only [GetWorld.step]
    cases hcall : w.calls[i]? with
    | none => exact h
    | some call =>
      dsimp only
      cases hphase : call.phase with
      | probing ch =>
        dsimp only
        exact (h.refreshed ⟨call, hcall, hphase⟩ outcome now).go hcall
          (h.ok i call hcall).count (fun hf => by cases hf) maxAge reads
      | entered => exact h
      | waiting ch => exact h
      | returned t => exact h

theorem safe_run (maxAge : Int) (events : List GetEvent) :
    (run (step maxAge) init events).Safe :=
  run_invariant_always (fun _ e h => h.step maxAge e) events safe_init

/-- A turn after a refresh neither waits nor probes. -/
theorem turn_refreshed (maxAge : Int) (c : TemplateCache) (candidateHeight : Option Int)
    (reads : Reads) :
    (∃ t, c.turn maxAge candidateHeight true reads = .use t) ∨
      c.turn maxAge candidateHeight true reads = .fallback := by
  rcases c.turn_cases maxAge candidateHeight true reads with ⟨t, hturn, -⟩ | ⟨refresh, hturn⟩
  · exact Or.inl ⟨t, hturn⟩
  · right
    rw [hturn, TemplateCache.refreshTurn, if_pos (Bool.or_true _)]

/-- So it returns, and leaves the cache and the channels alone. -/
theorem go_refreshed (w : GetWorld) {call : GetCall} (hcall : w.calls[i]? = some call)
    (maxAge : Int) (reads : Reads) :
    let w' := w.go i call (w.cache.turn maxAge call.candidateHeight true reads)
    w'.cache = w.cache ∧ w'.closed = w.closed ∧ ∃ t, w'.PhaseAt i (.returned t) := by
  have hlt : i < w.calls.length := (List.getElem?_eq_some_iff.mp hcall).1
  dsimp only
  rcases turn_refreshed maxAge w.cache call.candidateHeight reads with ⟨t, hturn⟩ | hturn
  · rw [hturn]
    exact ⟨rfl, rfl, some t, _, List.getElem?_set_self hlt, rfl⟩
  · rw [hturn]
    exact ⟨rfl, rfl, none, _, List.getElem?_set_self hlt, rfl⟩

/-- A waiting call whose channel is closed comes back. -/
theorem PhaseAt.wake {i ch : Nat} (h : w.PhaseAt i (.waiting ch))
    (hclosed : ch ∈ w.closed) (maxAge : Int) (reads : Reads) :
    ∃ t, (w.step maxAge (.wake i reads)).PhaseAt i (.returned t) := by
  obtain ⟨call, hcall, hphase⟩ := h
  simp only [step, hcall, hphase]
  rw [if_pos hclosed]
  exact (w.go_refreshed hcall maxAge reads).2.2

/-- A probe that is over closes its channel, frees the slot and returns to its call. -/
theorem PhaseAt.finish {i ch : Nat} (h : w.PhaseAt i (.probing ch)) (maxAge : Int)
    (outcome : ProbeOutcome) (now : Int) (reads : Reads) :
    ch ∈ (w.step maxAge (.finish i outcome now reads)).closed ∧
      (w.step maxAge (.finish i outcome now reads)).cache.inflight = none ∧
      ∃ t, (w.step maxAge (.finish i outcome now reads)).PhaseAt i (.returned t) := by
  obtain ⟨call, hcall, hphase⟩ := h
  have hstep : w.step maxAge (.finish i outcome now reads) =
      (w.refreshed ch outcome now).go i call
        ((w.refreshed ch outcome now).cache.turn maxAge call.candidateHeight true reads) := by
    simp only [step, hcall, hphase]
  obtain ⟨hcache, hclosed, hreturn⟩ :=
    (w.refreshed ch outcome now).go_refreshed hcall maxAge reads
  rw [hstep, hcache, hclosed]
  exact ⟨List.mem_cons_self, rfl, hreturn⟩

/-- The world after some events. -/
def after (maxAge : Int) (events : List GetEvent) : GetWorld := run (step maxAge) init events

end GetWorld

/-- **The calls of `get` in any interleaving**: at most one of them is probing; a template that is
returned has the height the call named; a call starts at most one probe, and none when it has
waited; the slot is the channel of a call that is still probing, which every waiting call holds
whose own channel is not closed; and however that probe ends, its channel is closed by it and
every call that holds the channel can come back. -/
theorem template_cache_safe (maxAge : Int) (events : List GetEvent) :
    let w := GetWorld.after maxAge events
    (∀ i j ch ch', w.PhaseAt i (.probing ch) → w.PhaseAt j (.probing ch') → i = j) ∧
    (∀ (i : Nat) (call : GetCall), w.calls[i]? = some call →
      (∀ t height, call.phase = .returned (some t) → call.candidateHeight = some height →
        t.height = height) ∧
      call.probes ≤ 1 ∧ (call.waits ≠ 0 → call.probes = 0)) ∧
    (∀ ch, w.cache.inflight = some ch → ∃ i, w.PhaseAt i (.probing ch) ∧
      (∀ j ch', w.PhaseAt j (.waiting ch') → ch' ∈ w.closed ∨ ch' = ch) ∧
      ∀ outcome now reads, ch ∈ (w.step maxAge (.finish i outcome now reads)).closed ∧
        (w.step maxAge (.finish i outcome now reads)).cache.inflight = none) ∧
    ∀ j ch, w.PhaseAt j (.waiting ch) →
      (ch ∈ w.closed ∧ ∀ reads, ∃ t, (w.step maxAge (.wake j reads)).PhaseAt j (.returned t)) ∨
      (ch ∉ w.closed ∧ w.cache.inflight = some ch) := by
  have hsafe : (GetWorld.after maxAge events).Safe := GetWorld.safe_run maxAge events
  dsimp only
  refine ⟨hsafe.unique, ?_, ?_, ?_⟩
  · intro i call hcall
    have hok := hsafe.ok i call hcall
    have hcount := hok.count
    refine ⟨?_, by omega, by omega⟩
    intro t height hphase hheight
    rw [GetCall.Ok, hphase] at hok
    exact hok.2 t rfl height hheight
  · intro ch hslot
    obtain ⟨i, hat⟩ := hsafe.slot ch hslot
    refine ⟨i, hat, ?_, ?_⟩
    · intro j ch' hwait
      rcases hsafe.waiting j ch' hwait with hclosed | hslot'
      · exact Or.inl hclosed
      · rw [hslot] at hslot'
        exact Or.inr (Option.some.inj hslot').symm
    · intro outcome now reads
      obtain ⟨hclosed, hfree, -⟩ := hat.finish maxAge outcome now reads
      exact ⟨hclosed, hfree⟩
  · intro j ch hwait
    rcases hsafe.waiting j ch hwait with hclosed | hslot
    · exact Or.inl ⟨hclosed, hwait.wake hclosed maxAge⟩
    · exact Or.inr ⟨(hsafe.slot_open ch hslot).2, hslot⟩

end CashStratum
