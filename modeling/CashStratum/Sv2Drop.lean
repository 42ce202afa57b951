/-
CashStratum/Sv2Drop.lean

The tables of the SV2 mining protocol while a connection is dropped (`sv2_strat.c`): the
clients, the channels, and the sessions of the stratifier that channels are opened for.

The frames of a connection are handled on one thread and `sv2_strat_drop_client` runs on
another.  A handler looks its client up, and creates it, then allocates a channel, opens
a session for it, and adds it to the table, each in a critical section of its own; the
drop takes the client and its channels out of the tables and then closes the sessions of
the channels it took.  A step is one critical section of one thread.  The reply to an open
always fits its buffer of 128 bytes, so the branch that takes the channel out again is left
out.

What a handler puts into a table after the drop was there stays: a client that is looked
up, or a channel with its session.  If neither happens, everything of the connection is
gone as soon as the drop and the handlers have finished (`drop_leaves_nothing`).
-/
import CashStratum.Run
import Mathlib.Logic.Function.Basic

namespace CashStratum

open Function

/-! ### State -/

/-- `struct sv2_client`. -/
structure StratClient where
  clientId : Int
  setupOk : Bool := false
  /-- `SV2_FLAG_REQUIRES_STANDARD_JOBS`. -/
  standardJobs : Bool := false
  nextChannelId : UInt32 := 1

/-- `struct sv2_channel`; without a session the instance is 0. -/
structure StratChannel where
  clientId : Int
  channelId : UInt32
  standard : Bool
  instanceId : Int
  deriving DecidableEq

/-- The session of a channel in the stratifier. -/
structure StratSession where
  instanceId : Int
  clientId : Int
  dropped : Bool
  deriving DecidableEq

/-- What the handlers of frames do to the tables. -/
inductive StratFrame
  /-- A SetupConnection that is accepted. -/
  | setup (standardJobs : Bool)
  | openStandard
  | openExtended (minExtranonceSize : Nat)
  | closeChannel (channelId : UInt32)
  /-- Any other message: it looks channels up only. -/
  | other

/-- Where a thread is between two critical sections. -/
inductive StratThread
  | idle
  /-- `sv2_strat_handle_frame`: it holds the client. -/
  | handling (clientId : Int) (client : Nat) (frame : StratFrame)
  /-- The channel is allocated. -/
  | opening (ch : StratChannel)
  /-- `stratifier_sv2_open_session` has returned. -/
  | opened (ch : StratChannel)
  /-- The channel is in the table; its jobs and its target go out. -/
  | pushing (ch : StratChannel)
  /-- The sessions left to close, of one connection or of any. -/
  | closing (of : Option Int) (instanceIds : List Int)
  /-- `sv2_strat_clear_instance` of a session that was closed. -/
  | clearing (of : Option Int) (instanceId : Int) (instanceIds : List Int)

/-- The configuration: the number of listen addresses, after which the ids of clients
begin, and the length of the extranonce a miner rolls. -/
structure StratConf where
  serverurls : Int
  nonce2length : Nat
  serverurls_pos : 0 < serverurls

/-- The tables.  A client that left the table is still there for those that hold it.
`drops` records the connections that were dropped. -/
structure StratState where
  client : Nat → StratClient
  allocated : Nat
  clients : Int → Option Nat
  channels : List StratChannel
  sessions : List StratSession
  clientIds : Int
  threads : Nat → StratThread
  drops : List Int

namespace StratState

/-- The tables when the pool starts. -/
def start (conf : StratConf) : StratState where
  client := fun _ => { clientId := 0 }
  allocated := 0
  clients := fun _ => none
  channels := []
  sessions := []
  clientIds := conf.serverurls
  threads := fun _ => .idle
  drops := []

/-- A thread moves on. -/
def setThread (s : StratState) (i : Nat) (t : StratThread) : StratState :=
  { s with threads := update s.threads i t }

/-- Change a client. -/
def modify (s : StratState) (p : Nat) (f : StratClient → StratClient) : StratState :=
  { s with client := update s.client p (f (s.client p)) }

/-- `client_get`, which creates the client. -/
def clientGet (s : StratState) (clientId : Int) : StratState × Nat :=
  match s.clients clientId with
  | some p => (s, p)
  | none =>
    ({ s with
        client := update s.client s.allocated { clientId := clientId }
        allocated := s.allocated + 1
        clients := update s.clients clientId (some s.allocated) }, s.allocated)

/-- `ch_id`: the next one, and never 0. -/
def nextChannel (c : StratClient) : UInt32 := if c.nextChannelId = 0 then 1 else c.nextChannelId

/-- The allocation of a channel. -/
def allocChannel (s : StratState) (i : Nat) (p : Nat) (standard : Bool) : StratState :=
  let c := s.client p
  (s.modify p fun c => { c with nextChannelId := nextChannel c + 1 }).setThread i
    (.opening ⟨c.clientId, nextChannel c, standard, 0⟩)

/-- The extranonce that `handle_open_extended` offers. -/
def enonce2 (conf : StratConf) : Nat := if conf.nonce2length < 2 then 8 else conf.nonce2length

/-- `sv2_strat_handle_frame`, up to the first lock it takes or to its end. -/
def handleFrame (conf : StratConf) (s : StratState) (i : Nat) (clientId : Int) (p : Nat) :
    StratFrame → StratState
  | .setup standardJobs =>
    (s.modify p fun c => { c with setupOk := true, standardJobs := standardJobs }).setThread i
      .idle
  | .openStandard =>
    if (s.client p).setupOk then s.allocChannel i p true else s.setThread i .idle
  | .openExtended minExtranonceSize =>
    if !(s.client p).setupOk || (s.client p).standardJobs ||
        decide (minExtranonceSize > enonce2 conf) then s.setThread i .idle
    else s.allocChannel i p false
  | .closeChannel channelId =>
    match s.channels.find? fun ch =>
        decide (ch.clientId = clientId) && decide (ch.channelId = channelId) with
    | none => s.setThread i .idle
    | some ch =>
      { s with channels := s.channels.erase ch }.setThread i
        (if ch.instanceId = 0 then .idle else .closing (some clientId) [ch.instanceId])
  | .other => s.setThread i .idle

/-- `stratifier_sv2_open_session`: the session is live, or it is dropped at once as its
user is refused. -/
def openSession (s : StratState) (i : Nat) (ch : StratChannel) (opens : Bool) : StratState :=
  { s with
    sessions := s.sessions ++ [StratSession.mk s.clientIds ch.clientId !opens]
    clientIds := s.clientIds + 1 }.setThread i
    (if opens then .opened { ch with instanceId := s.clientIds } else .idle)

/-- `stratifier_sv2_close_session`, up to `sv2_strat_clear_instance`. -/
def closeSession (s : StratState) (i : Nat) (of : Option Int) (instanceId : Int)
    (instanceIds : List Int) : StratState :=
  if s.sessions.any fun x => decide (x.instanceId = instanceId) && !x.dropped then
    { s with
      sessions := s.sessions.map fun x : StratSession =>
        if x.instanceId = instanceId then { x with dropped := true } else x }.setThread i
      (.clearing of instanceId instanceIds)
  else s.setThread i (.closing of instanceIds)

/-- `sv2_strat_clear_instance`. -/
def clearInstance (s : StratState) (instanceId : Int) : StratState :=
  { s with
    channels := s.channels.map fun ch =>
      if ch.instanceId = instanceId then { ch with instanceId := 0 } else ch }

/-- The sessions of some channels. -/
def sessionsOf (channels : List StratChannel) : List Int :=
  (channels.map StratChannel.instanceId).filter fun id => decide (id ≠ 0)

/-- `sv2_strat_drop_client`, up to the unlock. -/
def dropClient (s : StratState) (i : Nat) (clientId : Int) : StratState :=
  { s with
    clients := update s.clients clientId none
    channels := s.channels.filter fun ch => decide (ch.clientId ≠ clientId)
    drops := clientId :: s.drops }.setThread i
    (.closing (some clientId)
      (sessionsOf (s.channels.filter fun ch => decide (ch.clientId = clientId))))

/-- `sv2_strat_drop_all`, up to the unlock. -/
def dropAll (s : StratState) (i : Nat) : StratState :=
  { s with clients := fun _ => none, channels := [] }.setThread i
    (.closing none (sessionsOf s.channels))

/-- A thread goes on to its next critical section. -/
def threadStep (conf : StratConf) (s : StratState) (i : Nat) (opens : Bool) : StratState :=
  match s.threads i with
  | .idle => s
  | .handling clientId p frame => s.handleFrame conf i clientId p frame
  | .opening ch => s.openSession i ch opens
  | .opened ch => { s with channels := ch :: s.channels }.setThread i (.pushing ch)
  | .pushing _ => s.setThread i .idle
  | .closing _ [] => s.setThread i .idle
  | .closing of (id :: ids) => s.closeSession i of id ids
  | .clearing of id ids => (s.clearInstance id).setThread i (.closing of ids)

end StratState

/-! ### Runs -/

/-- What can happen next. -/
inductive StratEvent
  /-- `sv2_strat_note_client`. -/
  | noteClient (clientId : Int)
  /-- A thread takes a frame and looks its client up. -/
  | frame (thread : Nat) (clientId : Int) (frame : StratFrame)
  /-- A thread goes on; `opens` says whether the stratifier takes the user of a session. -/
  | go (thread : Nat) (opens : Bool)
  /-- `sv2_strat_drop_client`. -/
  | drop (thread : Nat) (clientId : Int)
  /-- `sv2_strat_drop_all`. -/
  | dropAll (thread : Nat)
  /-- The stratifier drops a session. -/
  | dropInstance (thread : Nat) (instanceId : Int)

/-- Whether a thread is free. -/
def StratState.isIdle (s : StratState) (i : Nat) : Bool :=
  match s.threads i with
  | .idle => true
  | _ => false

/-- One step. -/
def stratStep (conf : StratConf) (s : StratState) : StratEvent → StratState
  | .noteClient clientId => (s.clientGet clientId).1
  | .frame i clientId f =>
    if s.isIdle i then
      (s.clientGet clientId).1.setThread i (.handling clientId (s.clientGet clientId).2 f)
    else s
  | .go i opens => s.threadStep conf i opens
  | .drop i clientId => if s.isIdle i then s.dropClient i clientId else s
  | .dropAll i => if s.isIdle i then s.dropAll i else s
  | .dropInstance i id => if s.isIdle i then s.setThread i (.closing none [id]) else s

/-! ### What a drop leaves -/

/-- Whether a thread is busy with a connection. -/
def StratThread.busy (clientId : Int) : StratThread → Prop
  | .idle => False
  | .handling id _ _ => id = clientId
  | .opening ch => ch.clientId = clientId
  | .opened ch => ch.clientId = clientId
  | .pushing ch => ch.clientId = clientId
  | .closing of _ => of = none ∨ of = some clientId
  | .clearing of _ _ => of = none ∨ of = some clientId

/-- The drop and the handlers of a connection have finished. -/
def StratState.Quiet (s : StratState) (clientId : Int) : Prop := ∀ i, ¬ (s.threads i).busy clientId

/-- Nothing of a connection is left. -/
structure StratState.Gone (s : StratState) (clientId : Int) : Prop where
  client : s.clients clientId = none
  channels : ∀ ch ∈ s.channels, ch.clientId ≠ clientId
  sessions : ∀ x ∈ s.sessions, x.clientId = clientId → x.dropped = true

/-- The channel that a thread is about to add to the table. -/
def StratThread.adds : StratThread → Option StratChannel
  | .opened ch => some ch
  | _ => none

/-- A step puts nothing of a dropped connection into a table: no handler looks its client
up, and none adds a channel. -/
def NoReturn (s : StratState) : StratEvent → Prop
  | .noteClient clientId => clientId ∉ s.drops
  | .frame _ clientId _ => clientId ∉ s.drops
  | .go i _ => ∀ ch ∈ (s.threads i).adds, ch.clientId ∉ s.drops
  | _ => True

instance (s : StratState) : DecidablePred (NoReturn s)
  | .noteClient clientId => inferInstanceAs (Decidable (clientId ∉ s.drops))
  | .frame _ clientId _ => inferInstanceAs (Decidable (clientId ∉ s.drops))
  | .go i _ => inferInstanceAs (Decidable (∀ ch ∈ (s.threads i).adds, ch.clientId ∉ s.drops))
  | .drop _ _ => isTrue trivial
  | .dropAll _ => isTrue trivial
  | .dropInstance _ _ => isTrue trivial

/-- A thread will close a session, or put it into the table. -/
def StratThread.Owes (x : StratSession) : StratThread → Prop
  | .opened ch => ch.instanceId = x.instanceId ∧ ch.clientId = x.clientId
  | .closing of ids => x.instanceId ∈ ids ∧ (of = none ∨ of = some x.clientId)
  | .clearing of _ ids => x.instanceId ∈ ids ∧ (of = none ∨ of = some x.clientId)
  | _ => False

/-- A session has its channel in the table, or a thread that sees to it. -/
def StratState.Held (s : StratState) (x : StratSession) : Prop :=
  (∃ ch ∈ s.channels, ch.instanceId = x.instanceId ∧ ch.clientId = x.clientId) ∨
    ∃ i, (s.threads i).Owes x

/-- What holds in every state. -/
structure StratState.Accounted (s : StratState) : Prop where
  ids_pos : 0 < s.clientIds
  sessions : ∀ x ∈ s.sessions, 0 < x.instanceId ∧ x.instanceId < s.clientIds
  clearing : ∀ i of id ids, s.threads i = .clearing of id ids → id < s.clientIds ∧
    ∀ x ∈ s.sessions, x.instanceId = id → x.dropped = true
  live : ∀ x ∈ s.sessions, x.dropped = false → s.Held x
  gone : ∀ clientId ∈ s.drops,
    s.clients clientId = none ∧ ∀ ch ∈ s.channels, ch.clientId ≠ clientId

namespace StratState

variable {conf : StratConf} {s s' : StratState} {i : Nat} {t : StratThread} {x : StratSession}

@[simp] theorem setThread_threads_self : (s.setThread i t).threads i = t := update_self ..

theorem setThread_threads_ne {j : Nat} (h : j ≠ i) :
    (s.setThread i t).threads j = s.threads j :=
  update_of_ne h ..

theorem held_of_channel {ch : StratChannel} (hmem : ch ∈ s.channels)
    (hid : ch.instanceId = x.instanceId) (hclient : ch.clientId = x.clientId) : s.Held x :=
  Or.inl ⟨ch, hmem, hid, hclient⟩

theorem held_of_owes (h : t.Owes x) : (s.setThread i t).Held x :=
  Or.inr ⟨i, by rwa [setThread_threads_self]⟩

/-- A session is held after a step of one thread, if what held it by its channel and what
that thread owed hold it. -/
theorem Held.move (h : s.Held x) (hthreads : s'.threads = s.threads)
    (hchannels : ∀ ch ∈ s.channels, ch.instanceId = x.instanceId → ch.clientId = x.clientId →
      (s'.setThread i t).Held x)
    (howes : (s.threads i).Owes x → (s'.setThread i t).Held x) : (s'.setThread i t).Held x := by
  rcases h with ⟨ch, hmem, hid, hclient⟩ | ⟨j, hj⟩
  · exact hchannels ch hmem hid hclient
  · by_cases hji : j = i
    · rw [hji] at hj
      exact howes hj
    · refine Or.inr ⟨j, ?_⟩
      rw [setThread_threads_ne hji, hthreads]
      exact hj

/-- The channels are still there, and the thread owed nothing. -/
theorem Held.stay (h : s.Held x) (hthreads : s'.threads = s.threads)
    (hchannels : ∀ ch ∈ s.channels, ch ∈ s'.channels) (howes : ¬ (s.threads i).Owes x) :
    (s'.setThread i t).Held x :=
  h.move hthreads (fun _ hmem => held_of_channel (hchannels _ hmem)) fun h => absurd h howes

/-- A step of one thread that changes no session. -/
theorem Accounted.move (h : s.Accounted) (hthreads : s'.threads = s.threads)
    (hsessions : s'.sessions = s.sessions) (hids : s'.clientIds = s.clientIds)
    (ht : ∀ of id ids, t ≠ .clearing of id ids)
    (hgone : ∀ clientId ∈ s'.drops,
      s'.clients clientId = none ∧ ∀ ch ∈ s'.channels, ch.clientId ≠ clientId)
    (hheld : ∀ x ∈ s.sessions, x.dropped = false → s.Held x → (s'.setThread i t).Held x) :
    (s'.setThread i t).Accounted where
  ids_pos := by
    show 0 < s'.clientIds
    rw [hids]
    exact h.ids_pos
  sessions := by
    show ∀ x ∈ s'.sessions, 0 < x.instanceId ∧ x.instanceId < s'.clientIds
    rw [hsessions, hids]
    exact h.sessions
  clearing := by
    intro j of id ids hj
    show id < s'.clientIds ∧ ∀ x ∈ s'.sessions, x.instanceId = id → x.dropped = true
    by_cases hji : j = i
    · rw [hji, setThread_threads_self] at hj
      exact absurd hj (ht of id ids)
    · rw [setThread_threads_ne hji, hthreads] at hj
      rw [hsessions, hids]
      exact h.clearing j of id ids hj
  live := by
    intro x hx hlive
    change x ∈ s'.sessions at hx
    rw [hsessions] at hx
    exact hheld x hx hlive (h.live x hx hlive)
  gone := hgone

/-- `client_get` touches the table of clients only, and there this client only. -/
theorem clientGet_rest (s : StratState) (clientId : Int) :
    (s.clientGet clientId).1.channels = s.channels ∧
      (s.clientGet clientId).1.sessions = s.sessions ∧
      (s.clientGet clientId).1.clientIds = s.clientIds ∧
      (s.clientGet clientId).1.threads = s.threads ∧
      (s.clientGet clientId).1.drops = s.drops ∧
      ∀ other, other ≠ clientId → (s.clientGet clientId).1.clients other = s.clients other := by
  rw [clientGet]
  split
  · exact ⟨rfl, rfl, rfl, rfl, rfl, fun _ _ => rfl⟩
  · exact ⟨rfl, rfl, rfl, rfl, rfl, fun other h => update_of_ne h ..⟩

/-- A client that was not dropped is looked up. -/
theorem Accounted.gone_clientGet (h : s.Accounted) {clientId : Int} (hnew : clientId ∉ s.drops) :
    ∀ other ∈ (s.clientGet clientId).1.drops, (s.clientGet clientId).1.clients other = none ∧
      ∀ ch ∈ (s.clientGet clientId).1.channels, ch.clientId ≠ other := by
  obtain ⟨hchannels, -, -, -, hdrops, hclients⟩ := clientGet_rest s clientId
  rw [hchannels, hdrops]
  intro other hother
  have hne : other ≠ clientId := by
    rintro rfl
    exact hnew hother
  rw [hclients other hne]
  exact h.gone other hother

theorem Accounted.noteClient (h : s.Accounted) {clientId : Int} (hnew : clientId ∉ s.drops) :
    (s.clientGet clientId).1.Accounted := by
  obtain ⟨hchannels, hsessions, hids, hthreads, -, -⟩ := clientGet_rest s clientId
  constructor
  · rw [hids]
    exact h.ids_pos
  · rw [hsessions, hids]
    exact h.sessions
  · rw [hsessions, hids, hthreads]
    exact h.clearing
  · intro x hx hlive
    rw [hsessions] at hx
    have hheld := h.live x hx hlive
    rw [Held, hchannels, hthreads]
    exact hheld
  · exact h.gone_clientGet hnew

theorem Accounted.frame (h : s.Accounted) {clientId : Int} (hnew : clientId ∉ s.drops)
    (hidle : s.isIdle i = true) (f : StratFrame) :
    ((s.clientGet clientId).1.setThread i
      (.handling clientId (s.clientGet clientId).2 f)).Accounted := by
  obtain ⟨hchannels, hsessions, hids, hthreads, -, -⟩ := clientGet_rest s clientId
  refine h.move hthreads hsessions hids (fun _ _ _ h => by cases h) (h.gone_clientGet hnew) ?_
  intro x _ _ hx
  refine hx.stay hthreads (fun ch hch => by rwa [hchannels]) ?_
  rw [isIdle] at hidle
  split at hidle
  · next hthread =>
      rw [hthread]
      exact id
  · cases hidle

theorem mem_sessionsOf {channels : List StratChannel} {ch : StratChannel} (hmem : ch ∈ channels)
    (hne : ch.instanceId ≠ 0) : ch.instanceId ∈ sessionsOf channels :=
  List.mem_filter.mpr ⟨List.mem_map_of_mem hmem, decide_eq_true hne⟩

/-- The instance of a session is not 0. -/
theorem Accounted.id_ne_zero (h : s.Accounted) (hx : x ∈ s.sessions) : x.instanceId ≠ 0 :=
  Int.ne_of_gt (h.sessions x hx).1

theorem not_owes_of_idle (hidle : s.isIdle i = true) : ¬ (s.threads i).Owes x := by
  rw [isIdle] at hidle
  split at hidle
  · next hthread =>
      rw [hthread]
      exact id
  · cases hidle

theorem Accounted.dropClient (h : s.Accounted) (hidle : s.isIdle i = true) (clientId : Int) :
    (s.dropClient i clientId).Accounted := by
  refine h.move rfl rfl rfl (fun _ _ _ h => by cases h) ?_ ?_
  · intro other hother
    refine ⟨?_, fun ch hch => ?_⟩
    · show update s.clients clientId none other = none
      by_cases hsame : other = clientId
      · rw [hsame, update_self]
      · rw [update_of_ne hsame]
        exact (h.gone other ((List.mem_cons.mp hother).resolve_left hsame)).1
    · obtain ⟨hmem, hne⟩ := List.mem_filter.mp hch
      rcases List.mem_cons.mp hother with rfl | hother
      · exact of_decide_eq_true hne
      · exact (h.gone other hother).2 ch hmem
  · intro x hx _ hheld
    refine hheld.move rfl (fun ch hmem hid hclient => ?_) fun howes =>
      absurd howes (not_owes_of_idle hidle)
    by_cases hown : ch.clientId = clientId
    · -- its channel is taken, and the drop closes it
      refine held_of_owes ⟨?_, Or.inr (by rw [← hown, hclient])⟩
      rw [← hid]
      refine mem_sessionsOf (List.mem_filter.mpr ⟨hmem, decide_eq_true hown⟩) ?_
      rw [hid]
      exact h.id_ne_zero hx
    · exact held_of_channel (List.mem_filter.mpr ⟨hmem, decide_eq_true hown⟩) hid hclient

theorem Accounted.dropAll (h : s.Accounted) (hidle : s.isIdle i = true) :
    (s.dropAll i).Accounted := by
  refine h.move rfl rfl rfl (fun _ _ _ h => by cases h) ?_ ?_
  · exact fun _ _ => ⟨rfl, fun ch hch => absurd hch List.not_mem_nil⟩
  · intro x hx _ hheld
    refine hheld.move rfl (fun ch hmem hid _ => ?_) fun howes =>
      absurd howes (not_owes_of_idle hidle)
    refine held_of_owes ⟨?_, Or.inl rfl⟩
    rw [← hid]
    refine mem_sessionsOf hmem ?_
    rw [hid]
    exact h.id_ne_zero hx

theorem Accounted.dropInstance (h : s.Accounted) (hidle : s.isIdle i = true) (id : Int) :
    (s.setThread i (.closing none [id])).Accounted := by
  refine h.move rfl rfl rfl (fun _ _ _ h => by cases h) h.gone ?_
  exact fun x _ _ hx => hx.stay rfl (fun _ hch => hch) (not_owes_of_idle hidle)

/-- A thread goes to a place where it owes nothing, from one where it owed nothing. -/
theorem Accounted.quiet (h : s.Accounted) (hthreads : s'.threads = s.threads)
    (hsessions : s'.sessions = s.sessions) (hids : s'.clientIds = s.clientIds)
    (hclients : s'.clients = s.clients) (hchannels : s'.channels = s.channels)
    (hdrops : s'.drops = s.drops) (ht : ∀ of id ids, t ≠ .clearing of id ids)
    (howes : ∀ x, ¬ (s.threads i).Owes x) : (s'.setThread i t).Accounted := by
  refine h.move hthreads hsessions hids ht ?_ ?_
  · rw [hclients, hchannels, hdrops]
    exact h.gone
  · exact fun x _ _ hx => hx.stay hthreads (fun ch hch => by rwa [hchannels]) (howes x)

theorem Accounted.handleFrame (h : s.Accounted) {clientId : Int} {p : Nat} {f : StratFrame}
    (hthread : s.threads i = .handling clientId p f) :
    (s.handleFrame conf i clientId p f).Accounted := by
  have howes : ∀ x, ¬ (s.threads i).Owes x := by
    intro x
    rw [hthread]
    exact id
  have hquiet : ∀ (s' : StratState) (t : StratThread), s'.threads = s.threads →
      s'.sessions = s.sessions → s'.clientIds = s.clientIds → s'.clients = s.clients →
      s'.channels = s.channels → s'.drops = s.drops → (∀ of id ids, t ≠ .clearing of id ids) →
      (s'.setThread i t).Accounted :=
    fun s' t h1 h2 h3 h4 h5 h6 h7 => h.quiet h1 h2 h3 h4 h5 h6 h7 howes
  cases f with
  | setup standardJobs | other => exact hquiet _ _ rfl rfl rfl rfl rfl rfl fun _ _ _ h => by cases h
  | openStandard | openExtended minExtranonceSize =>
    rw [StratState.handleFrame]
    split_ifs
    · exact hquiet _ _ rfl rfl rfl rfl rfl rfl fun _ _ _ h => by cases h
    · exact hquiet _ _ rfl rfl rfl rfl rfl rfl fun _ _ _ h => by cases h
  | closeChannel channelId =>
    rw [StratState.handleFrame]
    split
    · exact hquiet _ _ rfl rfl rfl rfl rfl rfl fun _ _ _ h => by cases h
    · next ch hfind =>
        have hkey := List.find?_some hfind
        simp only [Bool.and_eq_true, decide_eq_true_eq] at hkey
        refine h.move rfl rfl rfl ?_ ?_ ?_
        · intro of id ids hclearing
          split_ifs at hclearing
        · exact fun other hother => ⟨(h.gone other hother).1, fun ch hch =>
            (h.gone other hother).2 ch (List.mem_of_mem_erase hch)⟩
        · intro x hx _ hheld
          refine hheld.move rfl (fun ch' hmem hid hclient => ?_) fun hno => absurd hno (howes x)
          by_cases hsame : ch' = ch
          · -- the channel that is closed: its session is closed by this thread
            subst hsame
            have hne : ch'.instanceId ≠ 0 := by
              rw [hid]
              exact h.id_ne_zero hx
            rw [if_neg hne]
            refine held_of_owes ⟨?_, Or.inr ?_⟩
            · rw [← hid]
              exact List.mem_singleton_self _
            · rw [← hkey.1, hclient]
          · exact held_of_channel ((List.mem_erase_of_ne hsame).mpr hmem) hid hclient

/-- A session is opened, under an id that no thread has seen. -/
theorem Accounted.openSession (h : s.Accounted) {ch : StratChannel}
    (hthread : s.threads i = .opening ch) (opens : Bool) : (s.openSession i ch opens).Accounted := by
  have hold : ∀ x : StratSession, s.Held x → (s.openSession i ch opens).Held x := by
    intro x hx
    refine hx.stay rfl (fun _ hch => hch) ?_
    rw [hthread]
    exact id
  constructor
  case ids_pos =>
    have hpos := h.ids_pos
    show 0 < s.clientIds + 1
    omega
  case sessions =>
    intro x hx
    show 0 < x.instanceId ∧ x.instanceId < s.clientIds + 1
    rcases List.mem_append.mp hx with hx | hx
    · have hbound := h.sessions x hx
      omega
    · rw [List.mem_singleton.mp hx]
      have hpos := h.ids_pos
      exact ⟨hpos, Int.lt_succ _⟩
  case clearing =>
    intro j of id ids hj
    by_cases hji : j = i
    · rw [hji, StratState.openSession, setThread_threads_self] at hj
      split_ifs at hj
    · rw [StratState.openSession, setThread_threads_ne hji] at hj
      obtain ⟨hid, hall⟩ := h.clearing j of id ids hj
      refine ⟨show id < s.clientIds + 1 by omega, fun x hx hxid => ?_⟩
      rcases List.mem_append.mp hx with hx | hx
      · exact hall x hx hxid
      · rw [List.mem_singleton.mp hx] at hxid
        dsimp only at hxid
        omega
  case live =>
    intro x hx hlive
    rcases List.mem_append.mp hx with hx | hx
    · exact hold x (h.live x hx hlive)
    · rw [List.mem_singleton.mp hx] at hlive ⊢
      dsimp only at hlive
      rw [Bool.not_eq_false'] at hlive
      rw [StratState.openSession, if_pos hlive]
      exact held_of_owes ⟨rfl, rfl⟩
  case gone => exact h.gone

theorem Accounted.closeSession (h : s.Accounted) {of : Option Int} {id : Int} {ids : List Int}
    (hthread : s.threads i = .closing of (id :: ids)) : (s.closeSession i of id ids).Accounted := by
  rw [StratState.closeSession]
  split_ifs with hany
  · have hmem : ∀ x ∈ s.sessions.map fun x : StratSession =>
        if x.instanceId = id then { x with dropped := true } else x,
        (x.instanceId = id → x.dropped = true) ∧ (x.dropped = false → x ∈ s.sessions) ∧
          ∃ y ∈ s.sessions, y.instanceId = x.instanceId ∧ (y.dropped = true → x.dropped = true) := by
      intro x hx
      obtain ⟨y, hy, rfl⟩ := List.mem_map.mp hx
      by_cases hid : y.instanceId = id
      · rw [if_pos hid]
        exact ⟨fun _ => rfl, (fun hno => by cases hno), y, hy, rfl, fun _ => rfl⟩
      · rw [if_neg hid]
        exact ⟨fun heq => absurd heq hid, fun _ => hy, y, hy, rfl, fun hdropped => hdropped⟩
    obtain ⟨y, hy, hyid⟩ := List.any_eq_true.mp hany
    simp only [Bool.and_eq_true, decide_eq_true_eq] at hyid
    constructor
    case ids_pos => exact h.ids_pos
    case sessions =>
      intro x hx
      obtain ⟨-, -, z, hz, hzid, -⟩ := hmem x hx
      rw [← hzid]
      exact h.sessions z hz
    case clearing =>
      intro j of' id' ids' hj
      by_cases hji : j = i
      · rw [hji, setThread_threads_self] at hj
        injection hj with _ hid _
        subst hid
        refine ⟨?_, fun x hx hxid => (hmem x hx).1 hxid⟩
        have hbound := (h.sessions y hy).2
        rwa [hyid.1] at hbound
      · rw [setThread_threads_ne hji] at hj
        obtain ⟨hid, hall⟩ := h.clearing j of' id' ids' hj
        refine ⟨hid, fun x hx hxid => ?_⟩
        obtain ⟨-, -, z, hz, hzid, hdropped⟩ := hmem x hx
        exact hdropped (hall z hz (hzid.trans hxid))
    case live =>
      intro x hx hlive
      obtain ⟨hclosed, hsame, -⟩ := hmem x hx
      have hne : x.instanceId ≠ id := by
        intro heq
        rw [hclosed heq] at hlive
        cases hlive
      refine (h.live x (hsame hlive) hlive).move rfl
        (fun ch hch hid hclient => held_of_channel hch hid hclient) fun howes => ?_
      rw [hthread] at howes
      exact held_of_owes ⟨(List.mem_cons.mp howes.1).resolve_left hne, howes.2⟩
    case gone => exact h.gone
  · refine h.move rfl rfl rfl (fun _ _ _ h => by cases h) h.gone ?_
    intro x hx hlive hheld
    refine hheld.move rfl (fun ch hch hid hclient => held_of_channel hch hid hclient) fun howes => ?_
    rw [hthread] at howes
    refine held_of_owes ⟨(List.mem_cons.mp howes.1).resolve_left ?_, howes.2⟩
    rintro rfl
    exact hany (List.any_eq_true.mpr ⟨x, hx, by simp [hlive]⟩)

theorem Accounted.clearInstance (h : s.Accounted) {of : Option Int} {id : Int} {ids : List Int}
    (hthread : s.threads i = .clearing of id ids) :
    ((s.clearInstance id).setThread i (.closing of ids)).Accounted := by
  obtain ⟨-, hall⟩ := h.clearing i of id ids hthread
  refine h.move rfl rfl rfl (fun _ _ _ h => by cases h) ?_ ?_
  · intro other hother
    refine ⟨(h.gone other hother).1, fun ch hch => ?_⟩
    obtain ⟨ch', hch', rfl⟩ := List.mem_map.mp hch
    have hne := (h.gone other hother).2 ch' hch'
    split_ifs <;> exact hne
  · intro x hx hlive hheld
    refine hheld.move rfl (fun ch hch hid hclient => ?_) fun howes => ?_
    · have hne : ch.instanceId ≠ id := by
        intro heq
        have hdropped := hall x hx (hid.symm.trans heq)
        rw [hlive] at hdropped
        cases hdropped
      refine Or.inl ⟨ch, List.mem_map.mpr ⟨ch, hch, ?_⟩, hid, hclient⟩
      rw [if_neg hne]
    · rw [hthread] at howes
      exact held_of_owes howes

/-- A channel joins the table with its session. -/
theorem Accounted.addChannel (h : s.Accounted) {ch : StratChannel}
    (hthread : s.threads i = .opened ch) (hnew : ch.clientId ∉ s.drops) :
    (({ s with channels := ch :: s.channels } : StratState).setThread i (.pushing ch)).Accounted := by
  refine h.move rfl rfl rfl (fun _ _ _ h => by cases h) ?_ ?_
  · intro other hother
    refine ⟨(h.gone other hother).1, fun ch' hch' => ?_⟩
    rcases List.mem_cons.mp hch' with rfl | hch'
    · rintro rfl
      exact hnew hother
    · exact (h.gone other hother).2 ch' hch'
  · intro x _ _ hheld
    refine hheld.move rfl
      (fun _ hch hid hclient => held_of_channel (List.mem_cons_of_mem ch hch) hid hclient)
      fun howes => ?_
    rw [hthread] at howes
    exact held_of_channel List.mem_cons_self howes.1 howes.2

/-- **A step keeps the account**, unless it puts something of a dropped connection into a
table. -/
theorem Accounted.step (h : s.Accounted) {e : StratEvent} (he : NoReturn s e) :
    (stratStep conf s e).Accounted := by
  cases e with
  | noteClient clientId => exact h.noteClient he
  | frame i clientId f =>
    rw [stratStep]
    split_ifs with hidle
    · exact h.frame he hidle f
    · exact h
  | drop i clientId =>
    rw [stratStep]
    split_ifs with hidle
    · exact h.dropClient hidle clientId
    · exact h
  | dropAll i =>
    rw [stratStep]
    split_ifs with hidle
    · exact h.dropAll hidle
    · exact h
  | dropInstance i id =>
    rw [stratStep]
    split_ifs with hidle
    · exact h.dropInstance hidle id
    · exact h
  | go i opens =>
    rw [stratStep]
    cases hthread : s.threads i with
    | idle =>
      rw [threadStep, hthread]
      exact h
    | handling clientId p f =>
      rw [threadStep, hthread]
      exact h.handleFrame hthread
    | opening ch =>
      rw [threadStep, hthread]
      exact h.openSession hthread opens
    | opened ch =>
      rw [threadStep, hthread]
      refine h.addChannel hthread (he ch ?_)
      rw [hthread]
      rfl
    | pushing ch =>
      rw [threadStep, hthread]
      refine h.quiet rfl rfl rfl rfl rfl rfl (fun _ _ _ h => by cases h) fun x => ?_
      rw [hthread]
      exact id
    | closing of ids =>
      rw [threadStep, hthread]
      cases ids with
      | nil =>
        refine h.quiet rfl rfl rfl rfl rfl rfl (fun _ _ _ h => by cases h) fun x => ?_
        rw [hthread]
        exact fun howes => absurd howes.1 List.not_mem_nil
      | cons id ids => exact h.closeSession hthread
    | clearing of id ids =>
      rw [threadStep, hthread]
      exact h.clearInstance hthread

theorem accounted_start (conf : StratConf) : (start conf).Accounted where
  ids_pos := conf.serverurls_pos
  sessions x hx := absurd hx List.not_mem_nil
  clearing i of id ids h := by cases h
  live x hx := absurd hx List.not_mem_nil
  gone c hc := absurd hc List.not_mem_nil

/-- A thread that owes a session is busy with its connection. -/
theorem busy_of_owes (h : t.Owes x) : t.busy x.clientId := by
  cases t with
  | opened ch => exact h.2
  | closing of ids => exact h.2
  | clearing of id ids => exact h.2
  | _ => cases h

theorem Accounted.gone_of_quiet (h : s.Accounted) {clientId : Int} (hdrop : clientId ∈ s.drops)
    (hquiet : s.Quiet clientId) : s.Gone clientId where
  client := (h.gone clientId hdrop).1
  channels := (h.gone clientId hdrop).2
  sessions x hx hclient := by
    by_contra hlive
    rcases h.live x hx (eq_false_of_ne_true hlive) with ⟨ch, hch, -, hown⟩ | ⟨i, howes⟩
    · exact (h.gone clientId hdrop).2 ch hch (hown.trans hclient)
    · have hbusy := busy_of_owes howes
      rw [hclient] at hbusy
      exact hquiet i hbusy

/-- **A drop leaves nothing of its connection**, once it and the handlers have finished, in
every run in which nothing of a dropped connection is put into a table. -/
theorem drop_leaves_nothing (conf : StratConf) (events : List StratEvent)
    (hreturn : Along (stratStep conf) NoReturn (start conf) events) (clientId : Int)
    (hdrop : clientId ∈ (run (stratStep conf) (start conf) events).drops)
    (hquiet : (run (stratStep conf) (start conf) events).Quiet clientId) :
    (run (stratStep conf) (start conf) events).Gone clientId :=
  (run_invariant (fun _ _ he h => h.step he) hreturn (accounted_start conf)).gone_of_quiet hdrop
    hquiet

/-! ### Drops that leave something -/

/-- A pool with one listen address. -/
def dropConf : StratConf where
  serverurls := 1
  nonce2length := 8
  serverurls_pos := by decide

/-- Client 7 connects and sets up. -/
def setupRun : List StratEvent := [.noteClient 7, .frame 0 7 (.setup false), .go 0 true]

/-- Client 7 opens a channel, and is dropped when all is done. -/
def orderlyRun : List StratEvent :=
  setupRun ++ [.frame 0 7 .openStandard, .go 0 true, .go 0 true, .go 0 true, .go 0 true,
    .drop 1 7, .go 1 true, .go 1 true, .go 1 true]

/-- The drop comes when the session is open and the channel is not yet in the table. -/
def earlyDropRun : List StratEvent :=
  setupRun ++ [.frame 0 7 .openStandard, .go 0 true, .go 0 true, .drop 1 7, .go 1 true,
    .go 0 true, .go 0 true]

/-- A frame that was read before the drop is handled after it. -/
def lateFrameRun : List StratEvent :=
  setupRun ++ [.drop 1 7, .go 1 true, .frame 0 7 .other, .go 0 true]

theorem quiet_of_idle {s : StratState} {clientId : Int} (h : ∀ i, s.threads i = .idle) :
    s.Quiet clientId := by
  intro i
  rw [h i]
  exact id

theorem earlyDropRun_idle (i : Nat) :
    (run (stratStep dropConf) (start dropConf) earlyDropRun).threads i = .idle := by
  match i with
  | 0 => rfl
  | 1 => rfl
  | i + 2 => rfl

theorem lateFrameRun_idle (i : Nat) :
    (run (stratStep dropConf) (start dropConf) lateFrameRun).threads i = .idle := by
  match i with
  | 0 => rfl
  | 1 => rfl
  | i + 2 => rfl

theorem orderlyRun_idle (i : Nat) :
    (run (stratStep dropConf) (start dropConf) orderlyRun).threads i = .idle := by
  match i with
  | 0 => rfl
  | 1 => rfl
  | i + 2 => rfl

/-- When all is done before the drop comes, nothing is left. -/
theorem orderly_drop_leaves_nothing :
    (run (stratStep dropConf) (start dropConf) orderlyRun).Gone 7 :=
  drop_leaves_nothing dropConf orderlyRun (by decide) 7 (by decide)
    (quiet_of_idle orderlyRun_idle)

/-- The channel comes into the table after the drop, and it stays with its session; a late
frame brings the client back. -/
theorem late_handlers_leave_something :
    let early := run (stratStep dropConf) (start dropConf) earlyDropRun
    let late := run (stratStep dropConf) (start dropConf) lateFrameRun
    (7 ∈ early.drops ∧ early.Quiet 7 ∧ early.channels = [⟨7, 1, true, 1⟩] ∧
        early.sessions = [⟨1, 7, false⟩] ∧ ¬ early.Gone 7) ∧
      7 ∈ late.drops ∧ late.Quiet 7 ∧ late.clients 7 = some 1 ∧ ¬ late.Gone 7 := by
  intro early late
  refine ⟨⟨by decide, quiet_of_idle earlyDropRun_idle, rfl, rfl, ?_⟩, by decide,
    quiet_of_idle lateFrameRun_idle, rfl, ?_⟩
  · intro h
    exact h.channels ⟨7, 1, true, 1⟩ List.mem_cons_self rfl
  · intro h
    have hclient := h.client
    cases hclient

end StratState

end CashStratum
