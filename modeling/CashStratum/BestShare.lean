/-
CashStratum/BestShare.lean

The best shares of a round (`record_best_diff` and `reset_bestshares` of `stratifier.c`).

There are four copies of a best: of the connection, of its worker, of its user, and of the
pool.  The one of the connection is only a gate: a share that beats neither it nor the
pool's goes no further.  `BestLaw` says what the others are, in terms of `log`, the record
of shares and resets, which no code reads: the greatest difficulty since the last reset.
A gate that is never above the user's and the worker's is what the proof needs; it is why
a connection may not change its user (`Gated`).

Bests that are restored from disk and shares that trusted remotes report are left out.
In proxy mode a client has the data of a subproxy, with a best of its own.
-/
import CashStratum.Run
import CashStratum.UserFiles

namespace CashStratum

open Function

/-! ### The best since a reset -/

section Since

variable {ε : Type*} {resets : ε → Bool} {value : ε → Option ℚ}

/-- The greatest value of the entries since the last reset, the newest first; zero if there
is none. -/
def bestSince (resets : ε → Bool) (value : ε → Option ℚ) (log : List ε) : ℚ :=
  ((log.takeWhile fun e => !resets e).filterMap value).foldr max 0

theorem bestSince_reset {e : ε} (h : resets e = true) (log : List ε) :
    bestSince resets value (e :: log) = 0 := by
  simp [bestSince, h]

theorem bestSince_value {e : ε} {d : ℚ} (h : resets e = false) (hvalue : value e = some d)
    (log : List ε) : bestSince resets value (e :: log) = max d (bestSince resets value log) := by
  simp [bestSince, h, hvalue]

theorem bestSince_none {e : ε} (h : resets e = false) (hvalue : value e = none) (log : List ε) :
    bestSince resets value (e :: log) = bestSince resets value log := by
  simp [bestSince, h, hvalue]

theorem bestSince_nonneg (log : List ε) : 0 ≤ bestSince resets value log := by
  rw [bestSince]
  induction (log.takeWhile fun e => !resets e).filterMap value with
  | nil => exact le_refl 0
  | cons d ds ih => exact ih.trans (le_max_right d _)

end Since

/-! ### The machine -/

/-- What happened to the bests. -/
inductive BestEntry
  /-- A share whose header was hashed; `below` says that it is below the network difficulty. -/
  | share (user worker : Bytes) (sdiff : ℚ) (below : Bool)
  /-- A solve of a user. -/
  | solved (finder : Bytes)
  /-- A solve of nobody known. -/
  | unattributed
  /-- `resetshares` -/
  | resetAll
deriving DecidableEq, Repr

/-- The fields of `struct stratum_instance` that bests depend on.  `sdata` is the index of its
`sdata_t`; zero is the one of the pool. -/
structure BestClient where
  user : Option Bytes := none
  worker : Option Bytes := none
  authorised : Bool := false
  sdata : Nat := 0
  bestDiff : ℚ := 0
deriving DecidableEq, Repr

/-- The difficulty of a workbase, which `diff_from_nbits` never makes zero. -/
abbrev NetworkDiff := { d : ℚ // 0 < d }

/-- The clients, the network difficulty of the current workbase and the pool's best of each
`sdata_t`, the bests of users, and of workers by user and name. -/
structure BestState where
  clients : Int → Option BestClient := fun _ => none
  networkDiff : Nat → Option NetworkDiff := fun _ => none
  poolBest : Nat → Int := fun _ => 0
  users : Bytes → BestDiff := fun _ => ⟨0, 0⟩
  workers : Bytes → Bytes → BestDiff := fun _ _ => ⟨0, 0⟩
  log : List BestEntry := []

/-- What can happen. -/
inductive BestEvent
  /-- A client connects. -/
  | connect (id : Int)
  /-- In proxy mode: a client is bound to a subproxy. -/
  | bind (id : Int) (sdata : Nat)
  /-- A `mining.auth` and its outcome. -/
  | authorise (id : Int) (user worker : Bytes) (ret : Bool)
  /-- A submission; it has a difficulty once its header is hashed. -/
  | submit (id : Int) (sdiff : Option ℚ)
  /-- `add_base` -/
  | addBase (sdata : Nat) (networkDiff : NetworkDiff)
  /-- A block is solved. -/
  | solve (finder : Option Bytes)
  /-- The operator's `resetshares`. -/
  | resetshares
  /-- A client goes. -/
  | drop (id : Int)
deriving DecidableEq, Repr

namespace BestState

variable (s : BestState)

/-- `is_block` of `record_best_diff`. -/
def isBlock (sdata : Nat) (sdiff : ℚ) : Bool :=
  match s.networkDiff sdata with
  | none => false
  | some networkDiff => decide (networkDiff.1 * (999 / 1000) ≤ sdiff)

/-- Change a client. -/
def modify (id : Int) (f : BestClient → BestClient) : BestState :=
  { s with clients := update s.clients id ((s.clients id).map f) }

/-- The pool's part of `record_best_diff`. -/
def recordPool (sdata : Nat) (sdiff : ℚ) : BestState :=
  if s.poolBest sdata < sdiff ∧
      (s.networkDiff sdata).any fun networkDiff =>
        decide (sdiff < networkDiff.1 * (999 / 1000)) then
    { s with poolBest := update s.poolBest sdata (truncate sdiff) }
  else s

/-- `record_best_diff` -/
def recordBestDiff (id : Int) (client : BestClient) (user worker : Bytes) (sdiff : ℚ) : BestState :=
  let isBlock := s.isBlock client.sdata sdiff
  let s : BestState :=
    { s with
      users := update s.users user ((s.users user).record sdiff isBlock)
      workers := update s.workers user
        (update (s.workers user) worker ((s.workers user worker).record sdiff isBlock)) }
  if isBlock then s
  else
    (s.modify id fun client => { client with bestDiff := max client.bestDiff sdiff }).recordPool
      client.sdata sdiff

/-- The gate of `parse_submit`, `stratifier_sv2_submit_share` and
`stratifier_sv2_account_share`. -/
def submit (id : Int) (client : BestClient) (user worker : Bytes) (sdiff : ℚ) : BestState :=
  let logged : BestState :=
    { s with log := .share user worker sdiff (!s.isBlock client.sdata sdiff) :: s.log }
  if client.bestDiff < sdiff ∨ s.poolBest client.sdata < sdiff then
    logged.recordBestDiff id client user worker sdiff
  else logged

/-- A submission, up to the gate.  Without a workbase there is no job to submit to. -/
def offer (id : Int) (sdiff : Option ℚ) : BestState :=
  match s.clients id, sdiff with
  | some client, some sdiff =>
    match client.user, client.worker with
    | some user, some worker =>
      if client.authorised ∧ (s.networkDiff client.sdata).isSome then
        s.submit id client user worker sdiff
      else s
    | _, _ => s
  | _, _ => s

/-- `reset_pool_bestshares` -/
def resetPoolBestshares : BestState :=
  { s with poolBest := update s.poolBest 0 0 }

/-- `reset_bestshares`: for the finder, or for everybody. -/
def resetBestshares (finder : Option Bytes) : BestState :=
  let s := s.resetPoolBestshares
  let spared := fun user => finder.any fun finder => decide (user ≠ finder)
  { s with
    clients := fun id => (s.clients id).map fun client =>
      if finder.isSome ∧ client.user ≠ finder then client else { client with bestDiff := 0 }
    users := fun user => if spared user then s.users user else (s.users user).reset
    workers := fun user worker =>
      if spared user then s.workers user worker else (s.workers user worker).reset }

/-- One step.  Only a client that is not authorised is authorised, and only in proxy mode one is
bound to another `sdata_t`. -/
def step (proxy : Bool) (s : BestState) : BestEvent → BestState
  | .connect id =>
    match s.clients id with
    | some _ => s
    | none => { s with clients := update s.clients id (some {}) }
  | .bind id sdata =>
    if proxy then s.modify id fun client => { client with sdata } else s
  | .authorise id user worker ret =>
    s.modify id fun client =>
      if client.authorised then client
      else { client with user := some user, worker := some worker, authorised := ret }
  | .submit id sdiff => s.offer id sdiff
  | .addBase sdata networkDiff =>
    { s with networkDiff := update s.networkDiff sdata (some networkDiff) }
  | .solve finder =>
    match finder with
    | some finder => { s.resetBestshares (some finder) with log := .solved finder :: s.log }
    | none => { s.resetPoolBestshares with log := .unattributed :: s.log }
  | .resetshares => { s.resetBestshares none with log := .resetAll :: s.log }
  | .drop id => { s with clients := update s.clients id none }

end BestState

/-! ### The law -/

namespace BestEntry

/-- What resets the bests of a user and its workers. -/
def resetsUser (user : Bytes) : BestEntry → Bool
  | .solved finder => decide (finder = user)
  | .resetAll => true
  | _ => false

/-- What resets the pool's best. -/
def resetsPool : BestEntry → Bool
  | .share .. => false
  | _ => true

/-- A share of the round of the pool. -/
def poolShare : BestEntry → Option ℚ
  | .share _ _ sdiff true => some sdiff
  | _ => none

/-- A share of the round of a user. -/
def userShare (user : Bytes) : BestEntry → Option ℚ
  | .share user' _ sdiff true => if user' = user then some sdiff else none
  | _ => none

/-- A share of the round of a worker. -/
def workerShare (user worker : Bytes) : BestEntry → Option ℚ
  | .share user' worker' sdiff true =>
    if user' = user ∧ worker' = worker then some sdiff else none
  | _ => none

end BestEntry

open BestEntry

/-- **The law of bests.**  The best of a round is the greatest difficulty of its shares that are
below the network difficulty; the pool's is cut to an integer.  The best ever is an integer, and
covers the best of the round. -/
structure BestLaw (proxy : Bool) (s : BestState) : Prop where
  user : ∀ user, (s.users user).bestDiff = bestSince (resetsUser user) (userShare user) s.log
  worker : ∀ user worker,
    (s.workers user worker).bestDiff = bestSince (resetsUser user) (workerShare user worker) s.log
  pool : proxy = false → s.poolBest 0 = truncate (bestSince resetsPool poolShare s.log)
  ever : ∀ user worker, (s.users user).Ordered ∧ (s.workers user worker).Ordered

/-- No best ever is less than before. -/
def EversGrow (s s' : BestState) : Prop :=
  ∀ user worker, (s.users user).bestEver ≤ (s'.users user).bestEver ∧
    (s.workers user worker).bestEver ≤ (s'.workers user worker).bestEver

/-! ### One share -/

/-- A share that is below the network difficulty takes part, another does not. -/
theorem bestDiff_record (best : BestDiff) (sdiff : ℚ) (isBlock : Bool) :
    (best.record sdiff isBlock).bestDiff =
      if isBlock then best.bestDiff else max sdiff best.bestDiff := by
  cases isBlock with
  | true => simp [BestDiff.record]
  | false =>
    simp only [BestDiff.record, Bool.not_false, true_and, Bool.false_eq_true, if_false]
    split_ifs with hover
    · exact (max_eq_left hover.le).symm
    · exact (max_eq_right (not_lt.mp hover)).symm

theorem bestEver_record (best : BestDiff) (sdiff : ℚ) (isBlock : Bool) :
    best.bestEver ≤ (best.record sdiff isBlock).bestEver := by
  rw [BestDiff.record]
  dsimp only
  split_ifs with hover
  · exact BestDiff.le_truncate hover
  · exact le_refl _

/-- The pool's best follows the greatest difficulty, cut to an integer. -/
theorem truncate_max {best sdiff : ℚ} (h : 0 ≤ best) :
    (if (truncate best : ℚ) < sdiff then truncate sdiff else truncate best) =
      truncate (max sdiff best) := by
  have hbest : truncate best = ⌊best⌋ := if_pos h
  rw [hbest]
  split_ifs with hover
  · rcases le_total best sdiff with hle | hle
    · rw [max_eq_left hle]
    · -- between the best and its integer part
      have hpos : 0 ≤ sdiff :=
        le_trans (by exact_mod_cast Int.floor_nonneg.mpr h) hover.le
      rw [max_eq_right hle, hbest, truncate, if_pos hpos]
      apply le_antisymm
      · exact Int.floor_le_floor hle
      · exact Int.le_floor.mpr hover.le
  · have hle : sdiff ≤ best := (not_lt.mp hover).trans (Int.floor_le best)
    rw [max_eq_right hle, hbest]

namespace BestState

variable {s : BestState} {proxy : Bool}

/-- The best of a client as a gate: it is not above the bests of its user and worker. -/
structure Fits (proxy : Bool) (s : BestState) (client : BestClient) : Prop where
  fresh : client.authorised = false → client.bestDiff = 0
  gate : ∀ user worker, client.user = some user → client.worker = some worker →
    client.bestDiff ≤ (s.users user).bestDiff ∧
      client.bestDiff ≤ (s.workers user worker).bestDiff
  pool : proxy = false → client.sdata = 0

/-- Every client's best is a gate. -/
def Gated (proxy : Bool) (s : BestState) : Prop :=
  ∀ id client, s.clients id = some client → Fits proxy s client

section Submit

variable {id : Int} {client : BestClient} {user worker : Bytes} {sdiff : ℚ}

/-- What a share leaves of the state, when it gets through the gate. -/
theorem recordBestDiff_eq (s : BestState) :
    s.recordBestDiff id client user worker sdiff =
      { s with
        users := update s.users user
          ((s.users user).record sdiff (s.isBlock client.sdata sdiff))
        workers := update s.workers user (update (s.workers user) worker
          ((s.workers user worker).record sdiff (s.isBlock client.sdata sdiff)))
        clients :=
          if s.isBlock client.sdata sdiff then s.clients
          else update s.clients id
            ((s.clients id).map fun client =>
              { client with bestDiff := max client.bestDiff sdiff })
        poolBest :=
          if s.isBlock client.sdata sdiff = false ∧ s.poolBest client.sdata < sdiff ∧
            (s.networkDiff client.sdata).isSome then
            update s.poolBest client.sdata (truncate sdiff)
          else s.poolBest } := by
  rw [recordBestDiff, isBlock]
  cases hnet : s.networkDiff client.sdata with
  | none => simp [modify, recordPool, hnet]
  | some networkDiff =>
    by_cases hblock : networkDiff.1 * (999 / 1000) ≤ sdiff
    · simp [hblock]
    · by_cases hpool : (s.poolBest client.sdata : ℚ) < sdiff
      · simp [modify, recordPool, hnet, hblock, hpool, not_le.mp hblock]
      · simp [modify, recordPool, hnet, hblock, hpool]

/-- The best of a user after a share of `user`. -/
theorem submit_users (hgate : client.bestDiff ≤ (s.users user).bestDiff) (user' : Bytes) :
    ((s.submit id client user worker sdiff).users user').bestDiff =
      if user' = user ∧ s.isBlock client.sdata sdiff = false then
        max sdiff (s.users user').bestDiff
      else (s.users user').bestDiff := by
  unfold submit
  by_cases hover : client.bestDiff < sdiff ∨ (s.poolBest client.sdata : ℚ) < sdiff
  · rw [if_pos hover, recordBestDiff_eq]
    by_cases huser : user' = user
    · subst huser
      have hblock : isBlock { s with
          log := .share user' worker sdiff (!s.isBlock client.sdata sdiff) :: s.log }
          client.sdata sdiff = s.isBlock client.sdata sdiff := rfl
      simp only [update_self, bestDiff_record, hblock]
      cases s.isBlock client.sdata sdiff <;> simp
    · simp [huser]
  · rw [if_neg hover]
    split
    · next h =>
        -- the gate is below the best of the user
        have hle : sdiff ≤ client.bestDiff := not_lt.mp (not_or.mp hover).1
        rw [h.1]
        exact (max_eq_right (hle.trans hgate)).symm
    · rfl

/-- The best of a worker after a share of `worker`. -/
theorem submit_workers (hgate : client.bestDiff ≤ (s.workers user worker).bestDiff)
    (user' worker' : Bytes) :
    ((s.submit id client user worker sdiff).workers user' worker').bestDiff =
      if (user' = user ∧ worker' = worker) ∧ s.isBlock client.sdata sdiff = false then
        max sdiff (s.workers user' worker').bestDiff
      else (s.workers user' worker').bestDiff := by
  unfold submit
  by_cases hover : client.bestDiff < sdiff ∨ (s.poolBest client.sdata : ℚ) < sdiff
  · rw [if_pos hover, recordBestDiff_eq]
    by_cases huser : user' = user
    · subst huser
      by_cases hworker : worker' = worker
      · subst hworker
        have hblock : isBlock { s with
            log := .share user' worker' sdiff (!s.isBlock client.sdata sdiff) :: s.log }
            client.sdata sdiff = s.isBlock client.sdata sdiff := rfl
        simp only [update_self, bestDiff_record, hblock]
        cases s.isBlock client.sdata sdiff <;> simp
      · simp [hworker]
    · simp [huser]
  · rw [if_neg hover]
    split
    · next h =>
        have hle : sdiff ≤ client.bestDiff := not_lt.mp (not_or.mp hover).1
        rw [h.1.1, h.1.2]
        exact (max_eq_right (hle.trans hgate)).symm
    · rfl

/-- The pool's best after a share. -/
theorem submit_poolBest (hsdata : client.sdata = 0) (hnet : (s.networkDiff 0).isSome) :
    (s.submit id client user worker sdiff).poolBest 0 =
      if s.isBlock client.sdata sdiff = false ∧ (s.poolBest 0 : ℚ) < sdiff then truncate sdiff
      else s.poolBest 0 := by
  unfold submit
  by_cases hover : client.bestDiff < sdiff ∨ (s.poolBest client.sdata : ℚ) < sdiff
  · rw [if_pos hover, recordBestDiff_eq]
    have hblock : isBlock { s with
        log := .share user worker sdiff (!s.isBlock client.sdata sdiff) :: s.log }
        client.sdata sdiff = s.isBlock client.sdata sdiff := rfl
    simp only [hblock]
    rw [hsdata]
    by_cases hround : s.isBlock 0 sdiff = false ∧ (s.poolBest 0 : ℚ) < sdiff
    · rw [if_pos hround, if_pos ⟨hround.1, hround.2, hnet⟩, update_self]
    · rw [if_neg hround, if_neg fun h => hround ⟨h.1, h.2.1⟩]
  · rw [if_neg hover, if_neg]
    rintro ⟨-, hpool⟩
    rw [hsdata] at hover
    exact (not_or.mp hover).2 hpool

/-- A client after a share: only the best of the one that submitted may have changed. -/
theorem submit_clients {id' : Int} {client' : BestClient}
    (h : (s.submit id client user worker sdiff).clients id' = some client') :
    ∃ old, s.clients id' = some old ∧ client'.user = old.user ∧ client'.worker = old.worker ∧
      client'.authorised = old.authorised ∧ client'.sdata = old.sdata ∧
      (client'.bestDiff = old.bestDiff ∨
        id' = id ∧ s.isBlock client.sdata sdiff = false ∧
          client'.bestDiff = max old.bestDiff sdiff) := by
  unfold submit at h
  by_cases hover : client.bestDiff < sdiff ∨ (s.poolBest client.sdata : ℚ) < sdiff
  · rw [if_pos hover, recordBestDiff_eq] at h
    have hblock : isBlock { s with
        log := .share user worker sdiff (!s.isBlock client.sdata sdiff) :: s.log }
        client.sdata sdiff = s.isBlock client.sdata sdiff := rfl
    simp only [hblock] at h
    cases hisBlock : s.isBlock client.sdata sdiff with
    | true =>
      rw [hisBlock, if_pos rfl] at h
      exact ⟨client', h, rfl, rfl, rfl, rfl, Or.inl rfl⟩
    | false =>
      rw [hisBlock, if_neg Bool.false_ne_true] at h
      by_cases hid : id' = id
      · subst hid
        rw [update_self] at h
        obtain ⟨old, hold, rfl⟩ := Option.map_eq_some_iff.mp h
        exact ⟨old, hold, rfl, rfl, rfl, rfl, Or.inr ⟨rfl, rfl, rfl⟩⟩
      · rw [update_of_ne hid] at h
        exact ⟨client', h, rfl, rfl, rfl, rfl, Or.inl rfl⟩
  · rw [if_neg hover] at h
    exact ⟨client', h, rfl, rfl, rfl, rfl, Or.inl rfl⟩

theorem submit_log :
    (s.submit id client user worker sdiff).log =
      .share user worker sdiff (!s.isBlock client.sdata sdiff) :: s.log := by
  unfold submit
  split
  · rw [recordBestDiff_eq]
  · rfl

theorem submit_ordered (h : ∀ user worker, (s.users user).Ordered ∧ (s.workers user worker).Ordered)
    (user' worker' : Bytes) :
    ((s.submit id client user worker sdiff).users user').Ordered ∧
      ((s.submit id client user worker sdiff).workers user' worker').Ordered := by
  unfold submit
  split
  · rw [recordBestDiff_eq]
    constructor
    · by_cases huser : user' = user
      · subst huser
        simpa using (h user' worker').1.record _ _
      · simpa [update_of_ne huser] using (h user' worker').1
    · by_cases huser : user' = user
      · subst huser
        by_cases hworker : worker' = worker
        · subst hworker
          simpa using (h user' worker').2.record _ _
        · simpa [update_of_ne hworker] using (h user' worker').2
      · simpa [update_of_ne huser] using (h user' worker').2
  · exact h user' worker'

theorem submit_evers : EversGrow s (s.submit id client user worker sdiff) := by
  intro user' worker'
  unfold submit
  split
  · rw [recordBestDiff_eq]
    constructor
    · by_cases huser : user' = user
      · subst huser
        simpa using bestEver_record _ _ _
      · simp [update_of_ne huser]
    · by_cases huser : user' = user
      · subst huser
        by_cases hworker : worker' = worker
        · subst hworker
          simpa using bestEver_record _ _ _
        · simp [update_of_ne hworker]
      · simp [update_of_ne huser]
  · exact ⟨le_refl _, le_refl _⟩

/-- **The share keeps the law.** -/
theorem law_submit (hlaw : BestLaw proxy s) (hgated : Gated proxy s)
    (hclient : s.clients id = some client) (huser : client.user = some user)
    (hworker : client.worker = some worker) (hnet : (s.networkDiff client.sdata).isSome) :
    BestLaw proxy (s.submit id client user worker sdiff) := by
  obtain ⟨hgate, hgate'⟩ := (hgated id client hclient).gate user worker huser hworker
  refine ⟨?_, ?_, ?_, submit_ordered hlaw.ever⟩
  · intro user'
    rw [submit_users hgate, submit_log, hlaw.user]
    by_cases hround : user' = user ∧ s.isBlock client.sdata sdiff = false
    · rw [if_pos hround, bestSince_value rfl]
      simp [userShare, hround.1, hround.2]
    · rw [if_neg hround, bestSince_none rfl]
      cases hblock : s.isBlock client.sdata sdiff with
      | true => rfl
      | false =>
        have hne : user ≠ user' := fun heq => hround ⟨heq.symm, hblock⟩
        simp [userShare, hne]
  · intro user' worker'
    rw [submit_workers hgate', submit_log, hlaw.worker]
    by_cases hround : (user' = user ∧ worker' = worker) ∧ s.isBlock client.sdata sdiff = false
    · rw [if_pos hround, bestSince_value rfl]
      simp [workerShare, hround.1.1, hround.1.2, hround.2]
    · rw [if_neg hround, bestSince_none rfl]
      cases hblock : s.isBlock client.sdata sdiff with
      | true => rfl
      | false =>
        have hne : ¬(user = user' ∧ worker = worker') := fun heq =>
          hround ⟨⟨heq.1.symm, heq.2.symm⟩, hblock⟩
        simp [workerShare, hne]
  · intro hproxy
    have hsdata := (hgated id client hclient).pool hproxy
    rw [hsdata] at hnet
    rw [submit_poolBest hsdata hnet, submit_log, hlaw.pool hproxy]
    cases hblock : s.isBlock client.sdata sdiff with
    | true =>
      have hsame : bestSince resetsPool poolShare (.share user worker sdiff (!true) :: s.log) =
          bestSince resetsPool poolShare s.log := bestSince_none rfl rfl _
      rw [hsame, if_neg (by simp)]
    | false =>
      have hvalue : poolShare (.share user worker sdiff (!false)) = some sdiff := rfl
      rw [bestSince_value rfl hvalue, ← truncate_max (bestSince_nonneg _)]
      simp

theorem gated_submit (hgated : Gated proxy s)
    (hclient : s.clients id = some client) (hauth : client.authorised = true)
    (huser : client.user = some user) (hworker : client.worker = some worker) :
    Gated proxy (s.submit id client user worker sdiff) := by
  obtain ⟨hgate, hgate'⟩ := (hgated id client hclient).gate user worker huser hworker
  intro id' client' hclient'
  obtain ⟨old, hold, hu, hw, hauth', hsdata, hbest⟩ := submit_clients hclient'
  have hfits := hgated id' old hold
  refine ⟨?_, ?_, ?_⟩
  · intro hfresh
    rw [hauth'] at hfresh
    rcases hbest with hsame | ⟨rfl, -, -⟩
    · rw [hsame]
      exact hfits.fresh hfresh
    · obtain rfl := Option.some.inj (hclient.symm.trans hold)
      rw [hauth] at hfresh
      cases hfresh
  · intro user' worker' huser' hworker'
    rw [hu] at huser'
    rw [hw] at hworker'
    obtain ⟨hle, hle'⟩ := hfits.gate user' worker' huser' hworker'
    rw [submit_users hgate, submit_workers hgate']
    rcases hbest with hsame | ⟨rfl, hblock, hmax⟩
    · -- the bests only grow
      rw [hsame]
      constructor
      · split
        · exact hle.trans (le_max_right _ _)
        · exact hle
      · split
        · exact hle'.trans (le_max_right _ _)
        · exact hle'
    · obtain rfl := Option.some.inj (hclient.symm.trans hold)
      obtain rfl := Option.some.inj (huser.symm.trans huser')
      obtain rfl := Option.some.inj (hworker.symm.trans hworker')
      rw [hmax, if_pos ⟨rfl, hblock⟩, if_pos ⟨⟨rfl, rfl⟩, hblock⟩, max_comm]
      exact ⟨max_le_max (le_refl _) hle, max_le_max (le_refl _) hle'⟩
  · intro hproxy
    rw [hsdata]
    exact hfits.pool hproxy

end Submit

/-! ### Resets -/

/-- **A solve keeps the law**: it resets the pool, the finder, its workers and its clients. -/
theorem law_solve (hlaw : BestLaw proxy s) (finder : Bytes) :
    BestLaw proxy { s.resetBestshares (some finder) with log := .solved finder :: s.log } := by
  refine ⟨?_, ?_, ?_, ?_⟩
  · intro user
    by_cases huser : user = finder
    · subst huser
      rw [bestSince_reset (by simp [resetsUser])]
      simp [resetBestshares, resetPoolBestshares, BestDiff.reset]
    · have hne : finder ≠ user := fun h => huser h.symm
      rw [bestSince_none (by simp [resetsUser, hne]) rfl, ← hlaw.user]
      simp [resetBestshares, resetPoolBestshares, huser]
  · intro user worker
    by_cases huser : user = finder
    · subst huser
      rw [bestSince_reset (by simp [resetsUser])]
      simp [resetBestshares, resetPoolBestshares, BestDiff.reset]
    · have hne : finder ≠ user := fun h => huser h.symm
      rw [bestSince_none (by simp [resetsUser, hne]) rfl, ← hlaw.worker]
      simp [resetBestshares, resetPoolBestshares, huser]
  · intro _
    rw [bestSince_reset rfl]
    simp [resetBestshares, resetPoolBestshares, truncate]
  · intro user worker
    obtain ⟨hu, hw⟩ := hlaw.ever user worker
    by_cases huser : user = finder
    · simpa [resetBestshares, resetPoolBestshares, huser] using ⟨huser ▸ hu.reset, huser ▸ hw.reset⟩
    · simpa [resetBestshares, resetPoolBestshares, huser] using ⟨hu, hw⟩

theorem gated_solve (hgated : Gated proxy s) (finder : Bytes) :
    Gated proxy { s.resetBestshares (some finder) with log := .solved finder :: s.log } := by
  intro id client hclient
  obtain ⟨old, hold, rfl⟩ := Option.map_eq_some_iff.mp hclient
  have hfits := hgated id old hold
  split
  · next hspared =>
      -- a client of somebody else, whose bests stay
      refine ⟨hfits.fresh, ?_, hfits.pool⟩
      intro user worker huser hworker
      have hne : user ≠ finder := by
        rintro rfl
        exact hspared.2 huser
      have hold' := hfits.gate user worker huser hworker
      simpa [resetBestshares, resetPoolBestshares, hne] using hold'
  · next hreset =>
      refine ⟨fun _ => rfl, ?_, hfits.pool⟩
      intro user worker huser _
      have hfinder : old.user = some finder := by
        simpa using hreset
      have hsame : user = finder := Option.some.inj (huser.symm.trans hfinder)
      subst hsame
      simp [resetBestshares, resetPoolBestshares, BestDiff.reset]

/-- `resetshares` resets everything. -/
theorem law_resetAll (hlaw : BestLaw proxy s) :
    BestLaw proxy { s.resetBestshares none with log := .resetAll :: s.log } := by
  refine ⟨?_, ?_, ?_, ?_⟩
  · intro user
    rw [bestSince_reset rfl]
    simp [resetBestshares, resetPoolBestshares, BestDiff.reset]
  · intro user worker
    rw [bestSince_reset rfl]
    simp [resetBestshares, resetPoolBestshares, BestDiff.reset]
  · intro _
    rw [bestSince_reset rfl]
    simp [resetBestshares, resetPoolBestshares, truncate]
  · intro user worker
    obtain ⟨hu, hw⟩ := hlaw.ever user worker
    simpa [resetBestshares, resetPoolBestshares] using ⟨hu.reset, hw.reset⟩

theorem gated_resetAll (hgated : Gated proxy s) :
    Gated proxy { s.resetBestshares none with log := .resetAll :: s.log } := by
  intro id client hclient
  obtain ⟨old, hold, rfl⟩ := Option.map_eq_some_iff.mp hclient
  refine ⟨fun _ => by simp, fun user worker _ _ => ?_, fun hproxy => ?_⟩
  · simp [resetBestshares, resetPoolBestshares, BestDiff.reset]
  · simpa using (hgated id old hold).pool hproxy

/-- A solve of nobody known resets the pool only. -/
theorem law_unattributed (hlaw : BestLaw proxy s) :
    BestLaw proxy { s.resetPoolBestshares with log := .unattributed :: s.log } := by
  refine ⟨?_, ?_, ?_, hlaw.ever⟩
  · intro user
    rw [bestSince_none rfl rfl]
    exact hlaw.user user
  · intro user worker
    rw [bestSince_none rfl rfl]
    exact hlaw.worker user worker
  · intro _
    rw [bestSince_reset rfl]
    simp [resetPoolBestshares, truncate]

/-! ### Runs -/

/-- A step that changes clients only. -/
theorem BestLaw.of_clients (hlaw : BestLaw proxy s) (clients : Int → Option BestClient) :
    BestLaw proxy { s with clients } := ⟨hlaw.user, hlaw.worker, hlaw.pool, hlaw.ever⟩

/-- A step that changes one client. -/
theorem Gated.update (hgated : Gated proxy s) (id : Int) {o : Option BestClient}
    (ho : ∀ client ∈ o, Fits proxy s client) :
    Gated proxy { s with clients := update s.clients id o } := by
  intro id' client h
  have hfits : Fits proxy s client := by
    by_cases hid : id' = id
    · subst hid
      have h' : o = some client := by simpa using h
      exact ho client h'
    · have h' : s.clients id' = some client := by simpa [update_of_ne hid] using h
      exact hgated id' client h'
  exact ⟨hfits.fresh, hfits.gate, hfits.pool⟩

theorem Gated.modify (hgated : Gated proxy s) (id : Int) {f : BestClient → BestClient}
    (hf : ∀ client, Fits proxy s client → Fits proxy s (f client)) :
    Gated proxy (s.modify id f) := by
  apply hgated.update
  intro client hclient
  obtain ⟨old, hold, rfl⟩ := Option.map_eq_some_iff.mp hclient
  exact hf old (hgated id old hold)

/-- The invariant of runs. -/
def Inv (proxy : Bool) (s : BestState) : Prop := BestLaw proxy s ∧ Gated proxy s

theorem inv_start (proxy : Bool) : Inv proxy {} := by
  refine ⟨⟨fun _ => rfl, fun _ _ => rfl, fun _ => ?_, fun _ _ => ?_⟩, ?_⟩
  · simp [bestSince, truncate]
  · exact ⟨⟨le_refl 0, by simp [truncate]⟩, le_refl 0, by simp [truncate]⟩
  · intro id client h
    cases h

theorem inv_step (h : Inv proxy s) (e : BestEvent) : Inv proxy (step proxy s e) := by
  obtain ⟨hlaw, hgated⟩ := h
  cases e with
  | connect id =>
    rw [step]
    split
    · exact ⟨hlaw, hgated⟩
    · refine ⟨BestLaw.of_clients hlaw _, hgated.update id fun client hclient => ?_⟩
      obtain rfl := Option.some.inj hclient
      refine ⟨fun _ => rfl, ?_, fun _ => rfl⟩
      intro user worker huser
      cases huser
  | bind id sdata =>
    rw [step]
    split
    · next hproxy =>
        refine ⟨BestLaw.of_clients hlaw _, hgated.modify id fun client hfits => ?_⟩
        refine ⟨hfits.fresh, hfits.gate, fun hfalse => ?_⟩
        rw [hproxy] at hfalse
        cases hfalse
    · exact ⟨hlaw, hgated⟩
  | authorise id user worker ret =>
    refine ⟨BestLaw.of_clients hlaw _, hgated.modify id fun client hfits => ?_⟩
    cases hauth : client.authorised with
    | true =>
      rw [if_pos rfl]
      exact hfits
    | false =>
      -- a client that was not authorised has no best yet
      have hbest := hfits.fresh hauth
      rw [if_neg Bool.false_ne_true]
      refine ⟨fun _ => hbest, ?_, hfits.pool⟩
      intro user' worker' _ _
      rw [hbest, hlaw.user, hlaw.worker]
      exact ⟨bestSince_nonneg _, bestSince_nonneg _⟩
  | submit id sdiff =>
    rw [step]
    unfold offer
    split
    · next client sdiff hclient =>
        split
        · next user worker huser hworker =>
            split
            · next hready =>
                exact ⟨law_submit hlaw hgated hclient huser hworker hready.2,
                  gated_submit hgated hclient hready.1 huser hworker⟩
            · exact ⟨hlaw, hgated⟩
        · exact ⟨hlaw, hgated⟩
    · exact ⟨hlaw, hgated⟩
  | addBase sdata networkDiff =>
    refine ⟨⟨hlaw.user, hlaw.worker, hlaw.pool, hlaw.ever⟩, fun id client hclient => ?_⟩
    have hfits := hgated id client hclient
    exact ⟨hfits.fresh, hfits.gate, hfits.pool⟩
  | solve finder =>
    cases finder with
    | some finder => exact ⟨law_solve hlaw finder, gated_solve hgated finder⟩
    | none =>
      refine ⟨law_unattributed hlaw, fun id client hclient => ?_⟩
      have hfits := hgated id client hclient
      exact ⟨hfits.fresh, hfits.gate, hfits.pool⟩
  | resetshares => exact ⟨law_resetAll hlaw, gated_resetAll hgated⟩
  | drop id =>
    refine ⟨BestLaw.of_clients hlaw _, hgated.update id fun client hclient => ?_⟩
    cases hclient

theorem evers_step (proxy : Bool) (s : BestState) (e : BestEvent) :
    EversGrow s (step proxy s e) := by
  have hsame : EversGrow s s := fun _ _ => ⟨le_refl _, le_refl _⟩
  have hreset : ∀ finder, EversGrow s (s.resetBestshares finder) := by
    intro finder user worker
    simp only [resetBestshares, resetPoolBestshares]
    constructor <;> split <;> exact le_refl _
  cases e with
  | connect id =>
    rw [step]
    split <;> exact hsame
  | bind id sdata =>
    rw [step]
    split <;> exact hsame
  | submit id sdiff =>
    rw [step]
    unfold offer
    split
    · split
      · split
        · exact submit_evers
        · exact hsame
      · exact hsame
    · exact hsame
  | solve finder =>
    cases finder with
    | some finder => exact hreset (some finder)
    | none => exact hsame
  | resetshares => exact hreset none
  | authorise | addBase | drop => exact hsame

/-- **The bests of every run.**  Each user's and each worker's best is the greatest difficulty of
its shares below the network difficulty since its last reset, and so is the pool's, cut to an
integer, outside proxy mode; and the best ever only grows. -/
theorem best_diff_law (proxy : Bool) (events : List BestEvent) :
    BestLaw proxy (run (step proxy) {} events) ∧
      ∀ earlier, earlier <+: events →
        EversGrow (run (step proxy) {} earlier) (run (step proxy) {} events) := by
  refine ⟨?_, ?_⟩
  · exact (run_invariant_always (I := Inv proxy) (fun _ e h => inv_step h e) events
      (inv_start proxy)).1
  · rintro earlier ⟨more, rfl⟩
    rw [run_append]
    apply run_relates (R := EversGrow)
    · exact fun _ _ _ => ⟨le_refl _, le_refl _⟩
    · intro s s' s'' h h' user worker
      exact ⟨(h user worker).1.trans (h' user worker).1, (h user worker).2.trans (h' user worker).2⟩
    · exact evers_step proxy

/-- The best of a round keeps its fraction, the best ever does not. -/
theorem best_ever_cut :
    ¬ ∀ (events : List BestEvent) (user : Bytes),
      ((run (step false) {} events).users user).bestDiff ≤
        ((run (step false) {} events).users user).bestEver := by
  intro hall
  have h := hall [.addBase 0 ⟨1000, by norm_num⟩, .connect 1, .authorise 1 [97] [97] true,
    .submit 1 (some (1001 / 2))] [97]
  revert h
  decide +kernel

end BestState

end CashStratum
