/-
CashStratum/CoinbaseFlights.lean

The flight group of `/coinbase` (`CoinbaseFlightGroup`): one fetch a username at a time, shared by
the callers that ask for the same candidate height.

A caller of `Do` holds the mutex of the group where it looks a call up or registers its own, and
where its fetch is over.  Each of these is one event, as is the end of a wait, so a run of events
is an interleaving of the callers.  A caller that returns a result names the call it is from
(`FlightPhase.returned`), and `FlightWorld.Attributed` says that this call was started for the
same username and the same candidate height.
-/
import CashStratum.CText
import CashStratum.PoolEvents
import CashStratum.Run

namespace CashStratum

open Function

/-! ### Numbers in keys -/

/-- A natural number as `%d` prints it. -/
def printNat (n : Nat) : Bytes := (Nat.toDigits 10 n).map fun c => UInt8.ofNat c.toNat

theorem digit_of_mem_toDigits {n : Nat} {c : Char} (h : c ∈ Nat.toDigits 10 n) :
    48 ≤ c.toNat ∧ c.toNat ≤ 57 := by
  have hdigit := Nat.isDigit_of_mem_toDigits (by decide) (by decide) h
  rw [Char.isDigit, Bool.and_eq_true, decide_eq_true_eq, decide_eq_true_eq] at hdigit
  exact ⟨UInt32.le_iff_toNat_le.mp hdigit.1, UInt32.le_iff_toNat_le.mp hdigit.2⟩

/-- Two numbers that are printed alike are the same. -/
theorem printNat_inj {m n : Nat} (h : printNat m = printNat n) : m = n := by
  have hback : ∀ n, (printNat n).map (fun b => Char.ofNat b.toNat) = Nat.toDigits 10 n := by
    intro n
    rw [printNat, List.map_map]
    conv_rhs => rw [← List.map_id (Nat.toDigits 10 n)]
    refine List.map_congr_left ?_
    intro c hc
    have hrange := digit_of_mem_toDigits hc
    rw [comp_apply, UInt8.toNat_ofNat', Nat.mod_eq_of_lt (by omega), Char.ofNat_toNat]
    rfl
  have hdigits : Nat.toDigits 10 m = Nat.toDigits 10 n := by
    rw [← hback m, ← hback n, h]
  rw [← Nat.ofDigitChars_ten_toDigits (n := m), hdigits, Nat.ofDigitChars_ten_toDigits]

theorem isDigit_of_mem_printNat {n : Nat} {b : UInt8} (h : b ∈ printNat n) : isDigit b := by
  obtain ⟨c, hc, rfl⟩ := List.mem_map.mp h
  have hrange := digit_of_mem_toDigits hc
  have hlow : (48 : UInt8) ≤ UInt8.ofNat c.toNat := by
    rw [UInt8.le_iff_toNat_le, UInt8.toNat_ofNat', Nat.mod_eq_of_lt (by omega)]
    exact hrange.1
  have hhigh : UInt8.ofNat c.toNat ≤ (57 : UInt8) := by
    rw [UInt8.le_iff_toNat_le, UInt8.toNat_ofNat', Nat.mod_eq_of_lt (by omega)]
    exact hrange.2
  rw [isDigit, decide_eq_true hlow, decide_eq_true hhigh]
  rfl

/-- `coinbaseFlightRequestKey` -/
def coinbaseFlightRequestKey : Option Nat → Bytes
  | none => ascii "legacy"
  | some height => ascii "height:" ++ printNat height

theorem coinbaseFlightRequestKey_inj {a b : Option Nat}
    (h : coinbaseFlightRequestKey a = coinbaseFlightRequestKey b) : a = b := by
  -- the first letters are different
  have hword : ∀ height, ascii "legacy" ≠ ascii "height:" ++ printNat height := by
    intro height heq
    have hpre : ascii "height:" <+: ascii "legacy" := ⟨printNat height, heq.symm⟩
    exact absurd hpre (by decide)
  cases a with
  | none =>
    cases b with
    | none => rfl
    | some height => exact absurd h (hword height)
  | some height =>
    cases b with
    | none => exact absurd h.symm (hword height)
    | some height' => rw [printNat_inj (List.append_cancel_left h)]

/-! ### The group and its callers -/

variable {i : Nat}

section

variable {ρ : Type*}

/-- `coinbaseFlightCall`, with whom it was registered for; the result of one that is done is what
the fetch returned, or nothing for a panic. -/
structure FlightCall (ρ : Type*) where
  username : Bytes
  candidateHeight : Option Nat
  requestKey : Bytes
  result : Option (Option ρ)

/-- Where a caller of `Do` stands; a call is its number. -/
inductive FlightPhase (ρ : Type*)
  | entered
  | waiting (call : Nat) (sameRequest : Bool)
  | fetching (call : Nat)
  | returned (call : Nat) (result : ρ)
  | panicked
  | cancelled

structure FlightCaller (ρ : Type*) where
  username : Bytes
  candidateHeight : Option Nat
  phase : FlightPhase ρ

/-- The map of the group, all calls it has ever registered, and the callers. -/
structure FlightWorld (ρ : Type*) where
  active : Bytes → Option Nat
  calls : List (FlightCall ρ)
  callers : List (FlightCaller ρ)

inductive FlightEvent (ρ : Type*)
  | arrive (username : Bytes) (candidateHeight : Option Nat)
  | enter (i : Nat)
  | wake (i : Nat)
  | cancel (i : Nat)
  | finish (i : Nat) (outcome : Option ρ)

/-- How a call that is done ends for a caller that shares it. -/
def FlightPhase.of (call : Nat) : Option ρ → FlightPhase ρ
  | some result => .returned call result
  | none => .panicked

namespace FlightWorld

/-- Caller `i` goes on to another phase. -/
def move (w : FlightWorld ρ) (i : Nat) (caller : FlightCaller ρ) (phase : FlightPhase ρ) :
    FlightWorld ρ :=
  { w with callers := w.callers.set i { caller with phase } }

/-- The look at the map: the caller waits for the call there, or registers its own. -/
def enter (w : FlightWorld ρ) (i : Nat) (caller : FlightCaller ρ) : FlightWorld ρ :=
  match (w.active caller.username).bind fun k => (w.calls[k]?).map fun call => (k, call) with
  | some (k, call) =>
    w.move i caller
      (.waiting k (call.requestKey = coinbaseFlightRequestKey caller.candidateHeight))
  | none =>
    { (w.move i caller (.fetching w.calls.length)) with
      active := update w.active caller.username (some w.calls.length)
      calls := w.calls ++ [⟨caller.username, caller.candidateHeight,
        coinbaseFlightRequestKey caller.candidateHeight, none⟩] }

/-- One event; where its caller does not stand there, nothing changes. -/
def step (w : FlightWorld ρ) : FlightEvent ρ → FlightWorld ρ
  | .arrive username candidateHeight =>
    { w with callers := w.callers ++ [⟨username, candidateHeight, .entered⟩] }
  | .enter i =>
    match w.callers[i]? with
    | none => w
    | some caller =>
      match caller.phase with
      | .entered => w.enter i caller
      | _ => w
  | .wake i =>
    match w.callers[i]? with
    | none => w
    | some caller =>
      match caller.phase with
      | .waiting k sameRequest =>
        match (w.calls[k]?).bind FlightCall.result with
        | none => w
        | some outcome =>
          -- a different candidate starts over
          if sameRequest then w.move i caller (.of k outcome) else w.move i caller .entered
      | _ => w
  | .cancel i =>
    match w.callers[i]? with
    | none => w
    | some caller =>
      match caller.phase with
      | .waiting _ _ => w.move i caller .cancelled
      | _ => w
  | .finish i outcome =>
    match w.callers[i]? with
    | none => w
    | some caller =>
      match caller.phase with
      | .fetching k =>
        match w.calls[k]? with
        | none => w
        | some call =>
          { (w.move i caller (.of k outcome)) with
            active := update w.active caller.username none
            calls := w.calls.set k { call with result := some outcome } }
      | _ => w

/-- `NewCoinbaseFlightGroup`, before any caller. -/
def init : FlightWorld ρ := ⟨fun _ => none, [], []⟩

end FlightWorld

/-! ### Attribution -/

/-- The call was registered for the username of the caller. -/
def FlightCall.For (call : FlightCall ρ) (caller : FlightCaller ρ) : Prop :=
  call.username = caller.username ∧ call.candidateHeight = caller.candidateHeight

/-- What is behind the phase of a caller. -/
def FlightCaller.Ok (calls : List (FlightCall ρ)) (caller : FlightCaller ρ) : Prop :=
  match caller.phase with
  | .waiting k sameRequest => ∃ call, calls[k]? = some call ∧ call.username = caller.username ∧
      (sameRequest → call.candidateHeight = caller.candidateHeight)
  | .fetching k => ∃ call, calls[k]? = some call ∧ call.For caller ∧ call.result = none
  | .returned k result =>
    ∃ call, calls[k]? = some call ∧ call.For caller ∧ call.result = some (some result)
  | _ => True

variable {w : FlightWorld ρ} {caller : FlightCaller ρ}

namespace FlightWorld

def FetchingAt (w : FlightWorld ρ) (i k : Nat) : Prop :=
  ∃ caller, w.callers[i]? = some caller ∧ caller.phase = .fetching k

/-- Every caller has to do with calls of its own username only, has results of its own candidate
height only, and a call has one fetch. -/
structure Attributed (w : FlightWorld ρ) : Prop where
  ok : ∀ (i : Nat) (caller : FlightCaller ρ), w.callers[i]? = some caller → caller.Ok w.calls
  unique : ∀ i j k, w.FetchingAt i k → w.FetchingAt j k → i = j
  active : ∀ u k, w.active u = some k → ∃ call, w.calls[k]? = some call ∧ call.username = u
  key : ∀ call ∈ w.calls, call.requestKey = coinbaseFlightRequestKey call.candidateHeight

/-- A world in which one caller has moved and the calls have become `calls'`. -/
structure Moved (w w' : FlightWorld ρ) (i : Nat) (caller' : FlightCaller ρ) : Prop where
  at_i : w'.callers[i]? = some caller'
  others : ∀ j, j ≠ i → w'.callers[j]? = w.callers[j]?

theorem moved_move (hi : w.callers[i]? = some caller) (phase : FlightPhase ρ) :
    Moved w (w.move i caller phase) i { caller with phase } := by
  have hlt : i < w.callers.length := (List.getElem?_eq_some_iff.mp hi).1
  refine ⟨?_, ?_⟩
  · rw [move, List.getElem?_set_self hlt]
  · intro j hj
    rw [move, List.getElem?_set_ne (Ne.symm hj)]

theorem Moved.fetchingAt {w w' : FlightWorld ρ} {caller' : FlightCaller ρ}
    (h : Moved w w' i caller') {j k : Nat} (hat : w'.FetchingAt j k) :
    (j = i ∧ caller'.phase = .fetching k) ∨ (j ≠ i ∧ w.FetchingAt j k) := by
  obtain ⟨caller, hcaller, hphase⟩ := hat
  by_cases hj : j = i
  · subst hj
    obtain rfl := Option.some.inj (h.at_i.symm.trans hcaller)
    exact Or.inl ⟨rfl, hphase⟩
  · rw [h.others j hj] at hcaller
    exact Or.inr ⟨hj, caller, hcaller, hphase⟩

/-- A move to where no fetch is run changes no call. -/
theorem Attributed.move (h : w.Attributed)
    (hi : w.callers[i]? = some caller) {phase : FlightPhase ρ}
    (hok : FlightCaller.Ok w.calls { caller with phase }) (hphase : ∀ k, phase ≠ .fetching k) :
    (w.move i caller phase).Attributed where
  ok := by
    intro j caller' hcaller'
    have hmoved := moved_move hi phase
    by_cases hj : j = i
    · subst hj
      obtain rfl := Option.some.inj (hmoved.at_i.symm.trans hcaller')
      exact hok
    · rw [hmoved.others j hj] at hcaller'
      exact h.ok j caller' hcaller'
  unique := by
    intro j j' k hat hat'
    have hmoved := moved_move hi phase
    rcases hmoved.fetchingAt hat with ⟨-, hfetch⟩ | ⟨-, hat⟩
    · exact absurd hfetch (hphase k)
    · rcases hmoved.fetchingAt hat' with ⟨-, hfetch⟩ | ⟨-, hat'⟩
      · exact absurd hfetch (hphase k)
      · exact h.unique j j' k hat hat'
  active := h.active
  key := h.key

/-- A caller that registers a call is its only fetch. -/
theorem Attributed.register (h : w.Attributed) (hi : w.callers[i]? = some caller) :
    Attributed { (w.move i caller (.fetching w.calls.length)) with
      active := update w.active caller.username (some w.calls.length)
      calls := w.calls ++ [⟨caller.username, caller.candidateHeight,
        coinbaseFlightRequestKey caller.candidateHeight, none⟩] } := by
  have hmoved := moved_move hi (.fetching w.calls.length)
  set call : FlightCall ρ := ⟨caller.username, caller.candidateHeight,
    coinbaseFlightRequestKey caller.candidateHeight, none⟩ with hcall
  have hnew : (w.calls ++ [call])[w.calls.length]? = some call := List.getElem?_concat_length
  have hold : ∀ (k : Nat) (c : FlightCall ρ), w.calls[k]? = some c →
      (w.calls ++ [call])[k]? = some c := by
    intro k c hc
    rw [List.getElem?_append_left (List.getElem?_eq_some_iff.mp hc).1]
    exact hc
  -- nobody can be fetching a call that there was not
  have hfresh : ∀ j k, w.FetchingAt j k → k < w.calls.length := by
    rintro j k ⟨caller', hcaller', hphase⟩
    have hok := h.ok j caller' hcaller'
    rw [FlightCaller.Ok, hphase] at hok
    obtain ⟨c, hc, -⟩ := hok
    exact (List.getElem?_eq_some_iff.mp hc).1
  refine ⟨?_, ?_, ?_, ?_⟩
  · intro j caller' hcaller'
    by_cases hj : j = i
    · subst hj
      obtain rfl := Option.some.inj (hmoved.at_i.symm.trans hcaller')
      exact ⟨call, hnew, ⟨rfl, rfl⟩, rfl⟩
    · have hwas := h.ok j caller' ((hmoved.others j hj).symm.trans hcaller')
      unfold FlightCaller.Ok at hwas ⊢
      split at hwas
      · obtain ⟨c, hc, hrest⟩ := hwas
        exact ⟨c, hold _ c hc, hrest⟩
      · obtain ⟨c, hc, hrest⟩ := hwas
        exact ⟨c, hold _ c hc, hrest⟩
      · obtain ⟨c, hc, hrest⟩ := hwas
        exact ⟨c, hold _ c hc, hrest⟩
      · trivial
  · intro j j' k hat hat'
    rcases hmoved.fetchingAt hat with ⟨hj, hfetch⟩ | ⟨-, hwas⟩
    · rcases hmoved.fetchingAt hat' with ⟨hj', -⟩ | ⟨-, hwas'⟩
      · exact hj.trans hj'.symm
      · have hlt := hfresh j' k hwas'
        rw [← FlightPhase.fetching.inj hfetch] at hlt
        exact absurd hlt (Nat.lt_irrefl _)
    · rcases hmoved.fetchingAt hat' with ⟨-, hfetch⟩ | ⟨-, hwas'⟩
      · have hlt := hfresh j k hwas
        rw [← FlightPhase.fetching.inj hfetch] at hlt
        exact absurd hlt (Nat.lt_irrefl _)
      · exact h.unique j j' k hwas hwas'
  · intro u k hactive
    by_cases hu : u = caller.username
    · subst hu
      dsimp only at hactive ⊢
      rw [update_self] at hactive
      rw [← Option.some.inj hactive]
      exact ⟨call, hnew, rfl⟩
    · dsimp only at hactive ⊢
      rw [update_of_ne hu] at hactive
      obtain ⟨c, hc, hname⟩ := h.active u k hactive
      exact ⟨c, hold k c hc, hname⟩
  · intro c hc
    rcases List.mem_append.mp hc with hc | hc
    · exact h.key c hc
    · rw [List.mem_singleton.mp hc]

theorem Attributed.enter (h : w.Attributed)
    (hi : w.callers[i]? = some caller) : (w.enter i caller).Attributed := by
  rw [FlightWorld.enter]
  split
  · next k call hfound =>
      obtain ⟨k', hactive, hget⟩ := Option.bind_eq_some_iff.mp hfound
      obtain ⟨call', hcall', hpair⟩ := Option.map_eq_some_iff.mp hget
      obtain ⟨rfl, rfl⟩ := Prod.mk.inj hpair
      obtain ⟨call, hcall, hname⟩ := h.active caller.username k' hactive
      obtain rfl := Option.some.inj (hcall'.symm.trans hcall)
      refine h.move hi ⟨call', hcall', hname, ?_⟩ ?_
      · -- the two keys are the same only for the same height
        intro hsame
        refine coinbaseFlightRequestKey_inj ?_
        rw [← h.key call' (List.mem_of_getElem? hcall')]
        exact of_decide_eq_true hsame
      · intro k hk
        cases hk
  · exact h.register hi

/-- A fetch that is over gives its result to its own call. -/
theorem Attributed.finish (h : w.Attributed) {i k : Nat}
    {call : FlightCall ρ} (hi : w.callers[i]? = some caller)
    (hphase : caller.phase = .fetching k) (hk : w.calls[k]? = some call) (outcome : Option ρ) :
    Attributed { (w.move i caller (.of k outcome)) with
      active := update w.active caller.username none
      calls := w.calls.set k { call with result := some outcome } } := by
  have hmoved := moved_move hi (.of k outcome)
  have hlt : k < w.calls.length := (List.getElem?_eq_some_iff.mp hk).1
  obtain ⟨hfor, hrunning⟩ : call.For caller ∧ call.result = none := by
    have hok := h.ok i caller hi
    rw [FlightCaller.Ok, hphase] at hok
    obtain ⟨c, hc, hrest⟩ := hok
    rwa [Option.some.inj (hc.symm.trans hk)] at hrest
  have hself : (w.calls.set k { call with result := some outcome })[k]? =
      some { call with result := some outcome } := List.getElem?_set_self hlt
  have hother : ∀ k', k' ≠ k → (w.calls.set k { call with result := some outcome })[k']? =
      w.calls[k']? := by
    intro k' hne
    exact List.getElem?_set_ne (Ne.symm hne)
  have hnofetch : ∀ k', FlightPhase.of k outcome ≠ .fetching k' := by
    intro k' heq
    cases outcome with
    | none => cases heq
    | some result => cases heq
  refine ⟨?_, ?_, ?_, ?_⟩
  · -- the caller has the result of its own call
    intro j caller' hcaller'
    by_cases hj : j = i
    · subst hj
      obtain rfl := Option.some.inj (hmoved.at_i.symm.trans hcaller')
      cases outcome with
      | none => trivial
      | some result => exact ⟨_, hself, hfor, rfl⟩
    · have hget := (hmoved.others j hj).symm.trans hcaller'
      have hwas := h.ok j caller' hget
      unfold FlightCaller.Ok at hwas ⊢
      split at hwas
      · next k' sameRequest _ =>
          obtain ⟨c, hc, hrest⟩ := hwas
          by_cases hne : k' = k
          · subst hne
            rw [Option.some.inj (hc.symm.trans hk)] at hrest
            exact ⟨_, hself, hrest⟩
          · exact ⟨c, (hother k' hne).trans hc, hrest⟩
      · -- another fetch is of another call
        next k' hfetch =>
          obtain ⟨c, hc, hrest⟩ := hwas
          have hne : k' ≠ k := by
            rintro rfl
            exact hj (h.unique j i _ ⟨caller', hget, hfetch⟩ ⟨caller, hi, hphase⟩)
          exact ⟨c, (hother k' hne).trans hc, hrest⟩
      · -- and a result is of one that was done before
        next k' result _ =>
          obtain ⟨c, hc, hforc, hresult⟩ := hwas
          have hne : k' ≠ k := by
            rintro rfl
            rw [Option.some.inj (hc.symm.trans hk), hrunning] at hresult
            cases hresult
          exact ⟨c, (hother k' hne).trans hc, hforc, hresult⟩
      · trivial
  · intro j j' k' hat hat'
    rcases hmoved.fetchingAt hat with ⟨-, hfetch⟩ | ⟨-, hat⟩
    · exact absurd hfetch (hnofetch k')
    · rcases hmoved.fetchingAt hat' with ⟨-, hfetch⟩ | ⟨-, hat'⟩
      · exact absurd hfetch (hnofetch k')
      · exact h.unique j j' k' hat hat'
  · intro u k' hactive
    dsimp only at hactive ⊢
    by_cases hu : u = caller.username
    · rw [hu, update_self] at hactive
      cases hactive
    · rw [update_of_ne hu] at hactive
      obtain ⟨c, hc, hname⟩ := h.active u k' hactive
      by_cases hne : k' = k
      · subst hne
        rw [Option.some.inj (hc.symm.trans hk)] at hname
        exact ⟨_, hself, hname⟩
      · exact ⟨c, (hother k' hne).trans hc, hname⟩
  · intro c hc
    rcases List.mem_or_eq_of_mem_set hc with hc | rfl
    · exact h.key c hc
    · exact h.key call (List.mem_of_getElem? hk)

theorem Attributed.arrive (h : w.Attributed) (username : Bytes) (candidateHeight : Option Nat) :
    Attributed { w with callers := w.callers ++ [⟨username, candidateHeight, .entered⟩] } := by
  have hget : ∀ (j : Nat) (caller : FlightCaller ρ),
      (w.callers ++ [(⟨username, candidateHeight, .entered⟩ : FlightCaller ρ)])[j]? = some caller →
      w.callers[j]? = some caller ∨ caller.phase = .entered := by
    intro j caller hcaller
    rcases Nat.lt_or_ge j w.callers.length with hlt | hge
    · rw [List.getElem?_append_left hlt] at hcaller
      exact Or.inl hcaller
    · rw [List.getElem?_append_right hge] at hcaller
      rw [List.mem_singleton.mp (List.mem_of_getElem? hcaller)]
      exact Or.inr rfl
  have hfetching : ∀ j k, FetchingAt { w with
      callers := w.callers ++ [⟨username, candidateHeight, .entered⟩] } j k → w.FetchingAt j k := by
    rintro j k ⟨caller, hcaller, hphase⟩
    rcases hget j caller hcaller with hold | hentered
    · exact ⟨caller, hold, hphase⟩
    · rw [hphase] at hentered
      cases hentered
  refine ⟨?_, ?_, h.active, h.key⟩
  · intro j caller hcaller
    rcases hget j caller hcaller with hold | hentered
    · exact h.ok j caller hold
    · rw [FlightCaller.Ok, hentered]
      trivial
  · intro j j' k hat hat'
    exact h.unique j j' k (hfetching j k hat) (hfetching j' k hat')

/-- **Every event keeps the results where they belong.** -/
theorem Attributed.step (h : w.Attributed) (e : FlightEvent ρ) :
    (w.step e).Attributed := by
  cases e with
  | arrive username candidateHeight => exact h.arrive username candidateHeight
  | enter i =>
    simp only [FlightWorld.step]
    cases hi : w.callers[i]? with
    | none => exact h
    | some caller =>
      dsimp only
      split
      · exact h.enter hi
      · exact h
  | wake i =>
    simp only [FlightWorld.step]
    cases hi : w.callers[i]? with
    | none => exact h
    | some caller =>
      dsimp only
      split
      · next k sameRequest hphase =>
          have hok := h.ok i caller hi
          rw [FlightCaller.Ok, hphase] at hok
          obtain ⟨call, hcall, hname, hheight⟩ := hok
          rw [hcall, Option.bind_some]
          cases hresult : call.result with
          | none => exact h
          | some outcome =>
            dsimp only
            cases sameRequest with
            | false =>
              refine h.move hi trivial ?_
              intro k' heq
              cases heq
            | true =>
              refine h.move hi ?_ ?_
              · cases outcome with
                | none => trivial
                | some result => exact ⟨call, hcall, ⟨hname, hheight rfl⟩, hresult⟩
              · intro k' heq
                cases outcome with
                | none => cases heq
                | some result => cases heq
      · exact h
  | cancel i =>
    simp only [FlightWorld.step]
    cases hi : w.callers[i]? with
    | none => exact h
    | some caller =>
      dsimp only
      split
      · refine h.move hi trivial ?_
        intro k' heq
        cases heq
      · exact h
  | finish i outcome =>
    simp only [FlightWorld.step]
    cases hi : w.callers[i]? with
    | none => exact h
    | some caller =>
      dsimp only
      split
      · next k hphase =>
          cases hk : w.calls[k]? with
          | none => exact h
          | some call => exact h.finish hi hphase hk outcome
      · exact h

theorem attributed_run (events : List (FlightEvent ρ)) :
    (run step (init : FlightWorld ρ) events).Attributed := by
  refine run_invariant_always (fun _ e h => h.step e) events ⟨?_, ?_, ?_, ?_⟩
  · intro i caller hcaller
    cases hcaller
  · rintro i j k ⟨caller, hcaller, -⟩
    cases hcaller
  · intro u k hactive
    cases hactive
  · intro call hcall
    cases hcall

end FlightWorld

end

end CashStratum
