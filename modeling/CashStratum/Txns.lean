/-
CashStratum/Txns.lean

The transactions the pool hands to its nodes (`stratifier.c`).  The table `txns` of
`sdata_t` remembers what was in the work lately.  A template is read with one call of
`add_txn` a transaction, which collects those to propagate in a list of its own, and
`update_txns` then ages the table, moves that list into it and sends it.  Templates of
the pool and of its remote servers are read by different threads, so any number of
lists may be under way.

`reported` records the hashes for which `add_txn` answered yes since a thread's last
update: these are what the update ought to send.  No function reads it.  Whether the node
knows a transaction (`generator_get_txn`) comes with the event.
-/
import CashStratum.ByteString
import CashStratum.KeyedList
import CashStratum.Run
import Mathlib.Logic.Function.Basic

namespace CashStratum

open Function

/-! ### The table -/

/-- `REFCOUNT_REMOTE` -/
def refcountRemote : Int := 20

/-- `REFCOUNT_LOCAL` -/
def refcountLocal : Int := 10

/-- `REFCOUNT_RETURNED` -/
def refcountReturned : Int := 5

/-- `txntable_t` -/
structure Txn where
  hash : Bytes
  data : Bytes
  refcount : Int
  seen : Bool
deriving DecidableEq, Repr

/-- A table of transactions by hash. -/
structure TxnTable where
  entries : List Txn
  nodup : (entries.map Txn.hash).Nodup

namespace TxnTable

variable (table : TxnTable)

/-- `HASH_FIND_STR` -/
def find (hash : Bytes) : Option Txn := table.entries.find? fun txn => txn.hash = hash

/-- A write to the transaction of a hash, which keeps its hash. -/
def modify (hash : Bytes) (refcount : Txn → Int) : TxnTable where
  entries := table.entries.map fun txn =>
    if txn.hash = hash then { txn with refcount := refcount txn, seen := true } else txn
  nodup := by
    refine nodup_map_of_key (fun txn => ?_) table.nodup
    split_ifs <;> rfl

/-- `HASH_ADD_STR`, after a `HASH_FIND_STR` that found nothing. -/
def insert (txn : Txn) (hnew : table.find txn.hash = none) : TxnTable where
  entries := table.entries ++ [txn]
  nodup := nodup_append_key table.nodup hnew

/-- The transactions the ageing of `update_txns` removes: not seen since the last, and
with no references left. -/
def expired (txn : Txn) : Bool := !txn.seen ∧ ¬txn.refcount > 0

/-- What it makes of the others. -/
def aged (txn : Txn) : Txn :=
  if txn.seen then { txn with seen := false } else { txn with refcount := txn.refcount - 1 }

theorem aged_hash (txn : Txn) : (aged txn).hash = txn.hash := by
  rw [aged]
  split_ifs <;> rfl

/-- The ageing of `update_txns`. -/
def age : TxnTable where
  entries := (table.entries.filter fun txn => !expired txn).map aged
  nodup := nodup_map_of_key aged_hash (table.nodup.sublist (List.filter_sublist.map _))

/-- Moving one transaction into the table, and whether that added it. -/
def move (acc : TxnTable × Nat) (txn : Txn) : TxnTable × Nat :=
  if h : acc.1.find txn.hash = none then (acc.1.insert txn h, acc.2 + 1) else acc

end TxnTable

/-! ### The pool -/

/-- What of the configuration is asked.  `trusted` and `nodeserver` say that there is
such a server. -/
structure TxnConf where
  trusted : Bool
  nodeserver : Bool
  nodeservers : Nat
  node : Bool
  remote : Bool
deriving DecidableEq, Repr

/-- A transaction in a message. -/
structure TxnVal where
  hash : Bytes
  data : Bytes
deriving DecidableEq, Repr

/-- A message of `send_node_transactions`: to a node or a remote server, or to the pool
this one is a remote server of. -/
inductive TxnMessage
  | node (client : Nat) (transaction : List TxnVal)
  | remote (client : Nat) (transaction : List TxnVal)
  | upstream (transaction : List TxnVal)
deriving DecidableEq, Repr

/-- The tables, and who is connected. -/
structure TxnState where
  txns : TxnTable
  pending : Nat → List Txn
  nodeInstances : List Nat
  remoteInstances : List Nat
  reported : Nat → List Bytes

/-- `send_node_transactions` -/
def TxnState.sendNodeTransactions (s : TxnState) (c : TxnConf) (array : List TxnVal) :
    List TxnMessage :=
  s.nodeInstances.map (fun client => .node client array) ++
    s.remoteInstances.map (fun client => .remote client array) ++
    if c.remote then [.upstream array] else []

namespace TxnState

variable (s : TxnState) (c : TxnConf)

/-- The transaction `add_txn` puts in the list of its caller. -/
def newTxn (hash data : Bytes) (isLocal : Bool) (known : Option Bytes) : Txn where
  hash := hash
  data := if isLocal then data else known.getD data
  refcount := if !isLocal ∨ c.node then refcountRemote else refcountLocal
  seen := true

/-- What `add_txn` writes to a transaction it knows. -/
def touch (hash : Bytes) (isLocal : Bool) : TxnState :=
  { s with
    txns := s.txns.modify hash fun txn =>
      if !isLocal then refcountRemote
      else if txn.refcount < refcountLocal then refcountLocal else txn.refcount }

/-- The transaction is propagated. -/
def collect (thread : Nat) (txn : Txn) : TxnState :=
  { s with
    pending := update s.pending thread (s.pending thread ++ [txn])
    reported := update s.reported thread (s.reported thread ++ [txn.hash]) }

/-- `add_txn`, its answer, and what it submits to the node. -/
def addTxn (thread : Nat) (hash data : Bytes) (isLocal : Bool) (known : Option Bytes) :
    TxnState × Bool × List Bytes :=
  if ¬(c.trusted ∨ c.nodeserver) then (s, false, [])
  else
    let txn := newTxn c hash data isLocal known
    let submitted := if !isLocal ∧ known = none then [data] else []
    match s.txns.find hash with
    | some old =>
      if old.refcount > refcountReturned then (s.touch hash isLocal, false, [])
      else ((s.touch hash isLocal).collect thread txn, true, submitted)
    | none => (s.collect thread txn, true, submitted)

/-- `update_txns`: what it sends, and what it submits again because it was purged. -/
def updateTxns (thread : Nat) : TxnState × List TxnMessage × List Bytes :=
  let purged := (s.txns.entries.filter TxnTable.expired).map Txn.data
  let array := (s.pending thread).map fun txn => { hash := txn.hash, data := txn.data }
  let (txns, added) := (s.pending thread).foldl TxnTable.move (s.txns.age, 0)
  ({ s with
      txns
      pending := update s.pending thread []
      reported := update s.reported thread [] },
    if added > 0 then s.sendNodeTransactions c array else [],
    if c.nodeservers > 0 then purged else [])

/-- A transaction `rebuild_txns` looks up, or gets from the node. -/
def rebuild (hash data : Bytes) : TxnState :=
  if h : s.txns.find hash = none then
    let txn : Txn := { hash, data, refcount := refcountRemote, seen := true }
    { s with txns := s.txns.insert txn h }
  else { s with txns := s.txns.modify hash fun _ => refcountRemote }

/-- `wb_merkle_bin_txns` finds the template invalid. -/
def discard (thread : Nat) : TxnState :=
  { s with
    pending := update s.pending thread []
    reported := update s.reported thread [] }

end TxnState

/-- What can happen. -/
inductive TxnEvent
  | addTxn (thread : Nat) (hash data : Bytes) (isLocal : Bool) (known : Option Bytes)
  /-- The template is read, and there is something in the thread's list. -/
  | updateTxns (thread : Nat)
  | discard (thread : Nat)
  | rebuild (hash data : Bytes)
  /-- Nodes and remote servers come and go. -/
  | connections (nodeInstances remoteInstances : List Nat)
deriving DecidableEq, Repr

namespace TxnState

variable (c : TxnConf)

/-- One step.  `update_txns` is not called without a list. -/
def step (s : TxnState) : TxnEvent → TxnState
  | .addTxn thread hash data isLocal known => (s.addTxn c thread hash data isLocal known).1
  | .updateTxns thread => if s.pending thread = [] then s else (s.updateTxns c thread).1
  | .discard thread => s.discard thread
  | .rebuild hash data => s.rebuild hash data
  | .connections nodeInstances remoteInstances => { s with nodeInstances, remoteInstances }

/-- The pool at its start. -/
def init : TxnState where
  txns := { entries := [], nodup := List.nodup_nil }
  pending _ := []
  nodeInstances := []
  remoteInstances := []
  reported _ := []

/-! ### Propagation -/

/-- A message to an instance with a transaction of the hash. -/
def Delivers (messages : List TxnMessage) (client : Nat) (hash : Bytes) : Prop :=
  ∃ array, (TxnMessage.node client array ∈ messages ∨ TxnMessage.remote client array ∈ messages) ∧
    ∃ txn ∈ array, txn.hash = hash

/-- **Every transaction that was reported is sent** to every node and remote server, by
the update that ends the template. -/
def Propagates (s : TxnState) : TxnEvent → Prop
  | .updateTxns thread =>
    ∀ hash ∈ s.reported thread, ∀ client ∈ s.nodeInstances ++ s.remoteInstances,
      Delivers (if s.pending thread = [] then [] else (s.updateTxns c thread).2.1) client hash
  | _ => True

/-- One of the transactions is not in the table any more when the update has aged it. -/
def HasNew (s : TxnState) (thread : Nat) : Prop :=
  ∃ hash ∈ s.reported thread, ∀ old, s.txns.find hash = some old → TxnTable.expired old = true

/-- When an update propagates. -/
def Sends (s : TxnState) : TxnEvent → Prop
  | .updateTxns thread =>
    s.reported thread = [] ∨ s.nodeInstances ++ s.remoteInstances = [] ∨ s.HasNew thread
  | _ => True

/-- The list of a thread is what was reported to it. -/
def Kept (s : TxnState) : Prop := ∀ thread, (s.pending thread).map Txn.hash = s.reported thread

end TxnState

/-! ### What an update adds -/

namespace TxnTable

variable {table : TxnTable}

/-- **After the ageing** a hash is gone if it was never there, or its transaction
expired. -/
theorem find_age_eq_none_iff (hash : Bytes) :
    table.age.find hash = none ↔ ∀ old, table.find hash = some old → expired old = true := by
  rw [find, find?_key_eq_none_iff]
  constructor
  · intro hnone old hfind
    obtain ⟨hmem, hhash⟩ := (find?_key_eq_some_iff table.nodup).mp hfind
    by_contra hkeep
    refine hnone (aged old) (List.mem_map_of_mem (List.mem_filter.mpr ⟨hmem, ?_⟩)) ?_
    · rw [Bool.not_eq_true'] at *
      exact (Bool.not_eq_true _).mp hkeep
    · rw [aged_hash, hhash]
  · intro hall txn hmem hhash
    obtain ⟨old, hold, rfl⟩ := List.mem_map.mp hmem
    obtain ⟨hin, hkeep⟩ := List.mem_filter.mp hold
    rw [aged_hash] at hhash
    have hexpired := hall old ((find?_key_eq_some_iff table.nodup).mpr ⟨hin, hhash⟩)
    rw [hexpired] at hkeep
    cases hkeep

theorem le_foldl_move (txns : List Txn) (acc : TxnTable × Nat) :
    acc.2 ≤ (txns.foldl move acc).2 := by
  induction txns generalizing acc with
  | nil => exact le_refl _
  | cons txn txns ih =>
    refine le_trans ?_ (ih _)
    rw [move]
    split_ifs
    · exact Nat.le_succ _
    · exact le_refl _

/-- **Something is added** when one of the transactions is not in the table. -/
theorem foldl_move_lt_iff (txns : List Txn) (acc : TxnTable × Nat) :
    acc.2 < (txns.foldl move acc).2 ↔ ∃ txn ∈ txns, acc.1.find txn.hash = none := by
  induction txns generalizing acc with
  | nil =>
    refine ⟨fun h => absurd h (lt_irrefl _), ?_⟩
    rintro ⟨txn, hmem, -⟩
    cases hmem
  | cons txn txns ih =>
    rw [List.foldl_cons]
    by_cases hnew : acc.1.find txn.hash = none
    · have hmove : move acc txn = (acc.1.insert txn hnew, acc.2 + 1) := by
        rw [move, dif_pos hnew]
      have hle := le_foldl_move txns (move acc txn)
      rw [hmove] at hle ⊢
      exact ⟨fun _ => ⟨txn, List.mem_cons_self, hnew⟩, fun _ => hle⟩
    · have hmove : move acc txn = acc := by rw [move, dif_neg hnew]
      rw [hmove, ih acc]
      constructor
      · rintro ⟨other, hmem, hnone⟩
        exact ⟨other, List.mem_cons_of_mem _ hmem, hnone⟩
      · rintro ⟨other, hmem, hnone⟩
        rcases List.mem_cons.mp hmem with rfl | hmem
        · exact absurd hnone hnew
        · exact ⟨other, hmem, hnone⟩

end TxnTable

namespace TxnState

variable {c : TxnConf} {s : TxnState}

/-- The array of an update. -/
def array (s : TxnState) (thread : Nat) : List TxnVal :=
  (s.pending thread).map fun txn => { hash := txn.hash, data := txn.data }

/-- **What an update sends**: all of its list, or nothing. -/
theorem updateTxns_sends (h : Kept s) (c : TxnConf) (thread : Nat) :
    (s.updateTxns c thread).2.1 = s.sendNodeTransactions c (s.array thread) ∧ s.HasNew thread ∨
      (s.updateTxns c thread).2.1 = [] ∧ ¬s.HasNew thread := by
  have hadded : 0 < ((s.pending thread).foldl TxnTable.move (s.txns.age, 0)).2 ↔ s.HasNew thread := by
    refine (TxnTable.foldl_move_lt_iff _ (s.txns.age, 0)).trans ?_
    rw [HasNew, ← h thread]
    constructor
    · rintro ⟨txn, hmem, hnone⟩
      exact ⟨txn.hash, List.mem_map_of_mem hmem, (TxnTable.find_age_eq_none_iff _).mp hnone⟩
    · rintro ⟨hash, hmem, hall⟩
      obtain ⟨txn, htxn, rfl⟩ := List.mem_map.mp hmem
      exact ⟨txn, htxn, (TxnTable.find_age_eq_none_iff _).mpr hall⟩
  rw [← hadded]
  by_cases hpos : 0 < ((s.pending thread).foldl TxnTable.move (s.txns.age, 0)).2
  · exact Or.inl ⟨if_pos hpos, hpos⟩
  · exact Or.inr ⟨if_neg hpos, hpos⟩

/-- Everybody who is connected gets the array. -/
theorem delivers_send {client : Nat} (hclient : client ∈ s.nodeInstances ++ s.remoteInstances)
    (c : TxnConf) {array : List TxnVal} {txn : TxnVal} (htxn : txn ∈ array) :
    Delivers (s.sendNodeTransactions c array) client txn.hash := by
  refine ⟨array, ?_, txn, htxn, rfl⟩
  rw [sendNodeTransactions]
  rcases List.mem_append.mp hclient with hnode | hremote
  · refine Or.inl (List.mem_append_left _ (List.mem_append_left _ ?_))
    exact List.mem_map_of_mem hnode
  · refine Or.inr (List.mem_append_left _ (List.mem_append_right _ ?_))
    exact List.mem_map_of_mem hremote

theorem not_delivers_nil {client : Nat} {hash : Bytes} : ¬Delivers [] client hash := by
  rintro ⟨array, hmem | hmem, -⟩ <;> cases hmem

/-- **One update.** -/
theorem propagates_iff (h : Kept s) (e : TxnEvent) : Propagates c s e ↔ Sends s e := by
  cases e with
  | updateTxns thread =>
    by_cases hnone : s.pending thread = []
    · have hreported : s.reported thread = [] := by
        rw [← h thread, hnone]
        rfl
      refine ⟨fun _ => Or.inl hreported, fun _ hash hmem => ?_⟩
      rw [hreported] at hmem
      cases hmem
    · show (∀ hash ∈ s.reported thread, ∀ client ∈ s.nodeInstances ++ s.remoteInstances,
        Delivers (if s.pending thread = [] then [] else _) client hash) ↔ _
      rw [if_neg hnone]
      obtain ⟨hsend, hnew⟩ | ⟨hsend, hnew⟩ := updateTxns_sends h c thread
      · refine ⟨fun _ => Or.inr (Or.inr hnew), fun _ hash hmem client hclient => ?_⟩
        rw [← h thread] at hmem
        obtain ⟨txn, htxn, rfl⟩ := List.mem_map.mp hmem
        rw [hsend]
        exact delivers_send hclient c (List.mem_map_of_mem (f := fun txn : Txn =>
          ({ hash := txn.hash, data := txn.data } : TxnVal)) htxn)
      · rw [hsend]
        constructor
        · intro hall
          rcases hreported : s.reported thread with - | ⟨hash, rest⟩
          · exact Or.inl hreported
          · refine Or.inr (Or.inl ?_)
            rcases hclients : s.nodeInstances ++ s.remoteInstances with - | ⟨client, others⟩
            · rfl
            · rw [hreported, hclients] at hall
              exact absurd (hall hash List.mem_cons_self client List.mem_cons_self) not_delivers_nil
        · rintro (hreported | hclients | hnew')
          · rw [hreported]
            exact fun hash hmem => absurd hmem List.not_mem_nil
          · rw [hclients]
            exact fun hash _ client hmem => absurd hmem List.not_mem_nil
          · exact absurd hnew' hnew
  | addTxn thread hash data isLocal known => exact Iff.rfl
  | discard thread => exact Iff.rfl
  | rebuild hash data => exact Iff.rfl
  | connections nodeInstances remoteInstances => exact Iff.rfl

/-! ### Runs -/

theorem Kept.collect (h : Kept s) (thread : Nat) (txn : Txn) : Kept (s.collect thread txn) := by
  intro other
  show (update s.pending thread _ other).map Txn.hash = update s.reported thread _ other
  by_cases heq : other = thread
  · subst heq
    rw [update_self, update_self, List.map_append, h other]
    rfl
  · rw [update_of_ne heq, update_of_ne heq, h other]

theorem Kept.clear (h : Kept s) (thread : Nat) : Kept (s.discard thread) := by
  intro other
  show (update s.pending thread _ other).map Txn.hash = update s.reported thread _ other
  by_cases heq : other = thread
  · subst heq
    rw [update_self, update_self]
    rfl
  · rw [update_of_ne heq, update_of_ne heq, h other]

/-- **What `add_txn` answers**: no, and at most what it knows is touched; or yes, and the
transaction is in the thread's list. -/
theorem addTxn_spec (s : TxnState) (c : TxnConf) (thread : Nat) (hash data : Bytes)
    (isLocal : Bool) (known : Option Bytes) :
    (s.addTxn c thread hash data isLocal known).2.1 = false ∧
        ((s.addTxn c thread hash data isLocal known).1 = s ∨
          (s.addTxn c thread hash data isLocal known).1 = s.touch hash isLocal) ∨
      (s.addTxn c thread hash data isLocal known).2.1 = true ∧
        ((s.addTxn c thread hash data isLocal known).1 =
            (s.touch hash isLocal).collect thread (newTxn c hash data isLocal known) ∨
          (s.addTxn c thread hash data isLocal known).1 =
            s.collect thread (newTxn c hash data isLocal known)) := by
  rw [TxnState.addTxn]
  by_cases hserver : ¬(c.trusted ∨ c.nodeserver)
  · rw [if_pos hserver]
    exact Or.inl ⟨rfl, Or.inl rfl⟩
  · rw [if_neg hserver]
    cases hfind : s.txns.find hash with
    | none => exact Or.inr ⟨rfl, Or.inr rfl⟩
    | some old =>
      dsimp only
      by_cases href : old.refcount > refcountReturned
      · rw [if_pos href]
        exact Or.inl ⟨rfl, Or.inr rfl⟩
      · rw [if_neg href]
        exact Or.inr ⟨rfl, Or.inl rfl⟩

/-- The list of a thread is what was reported to it, at every step. -/
theorem Kept.step (h : Kept s) (c : TxnConf) (e : TxnEvent) : Kept (s.step c e) := by
  cases e with
  | addTxn thread hash data isLocal known =>
    show Kept (s.addTxn c thread hash data isLocal known).1
    have htouch : Kept (s.touch hash isLocal) := h
    obtain ⟨-, heq | heq⟩ | ⟨-, heq | heq⟩ := addTxn_spec s c thread hash data isLocal known
    · rw [heq]
      exact h
    · rw [heq]
      exact htouch
    · rw [heq]
      exact htouch.collect thread _
    · rw [heq]
      exact h.collect thread _
  | updateTxns thread =>
    show Kept (if s.pending thread = [] then s else (s.updateTxns c thread).1)
    split_ifs
    · exact h
    · exact h.clear thread
  | discard thread => exact h.clear thread
  | rebuild hash data =>
    show Kept (s.rebuild hash data)
    rw [TxnState.rebuild]
    split_ifs <;> exact h
  | connections nodeInstances remoteInstances => exact h

/-- **Which runs propagate everything.**  An update sends what `add_txn` reported to its
thread exactly when one of these transactions is not in the table once it is aged, or
when there is nothing to send, or nobody to send to; so every update of a run does
exactly when this holds at each of them. -/
theorem propagates_along_iff (c : TxnConf) (events : List TxnEvent) :
    Along (step c) (Propagates c) init events ↔ Along (step c) Sends init events := by
  have hstart : Kept init := fun _ => rfl
  generalize init = s at hstart
  induction events generalizing s with
  | nil => exact Iff.rfl
  | cons e events ih =>
    exact and_congr (propagates_iff hstart e) (ih _ (hstart.step c e))

/-- A pool with one trusted server. -/
def exampleTxnConf : TxnConf where
  trusted := true
  nodeserver := false
  nodeservers := 0
  node := false
  remote := false

/-- A template of one new transaction. -/
def exampleTemplate (txn : UInt8) : List TxnEvent :=
  [.addTxn 0 [txn] [txn] true none, .updateTxns 0]

/-- One transaction, and then six templates without it. -/
def exampleTemplates : List TxnEvent :=
  .connections [] [7] :: [1, 2, 3, 4, 5, 6, 7].flatMap exampleTemplate

/-- **A transaction that reappears alone is not sent**: `add_txn` reports it, but the
table still has it, so the update counts nothing as added. -/
theorem reappeared_txn_not_sent :
    let s := run (step exampleTxnConf) init exampleTemplates
    (s.addTxn exampleTxnConf 0 [1] [1] true none).2.1 = true ∧
      ¬Propagates exampleTxnConf (s.step exampleTxnConf (.addTxn 0 [1] [1] true none))
        (.updateTxns 0) := by
  refine ⟨by decide, fun hall => ?_⟩
  generalize hs : step exampleTxnConf _ (.addTxn 0 [1] [1] true none) = s at hall
  have hsent : (if s.pending 0 = [] then [] else (s.updateTxns exampleTxnConf 0).2.1) = [] := by
    rw [← hs]
    decide
  have hdelivers := hall [1] (by rw [← hs]; decide) 7 (by rw [← hs]; decide)
  rw [hsent] at hdelivers
  exact not_delivers_nil hdelivers

end TxnState

end CashStratum
