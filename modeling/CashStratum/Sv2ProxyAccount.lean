/-
CashStratum/Sv2ProxyAccount.lean

Accounting for the shares that an SV2 proxy submits (`generator.c`).

A share gets its sequence number under `send_lock`, goes up after the lock is released, and
is entered in the table of pending shares after that, by whichever thread brought it.  The
upstream decides on shares in any order.  It answers a refusal with an Error, and collects
what it accepts; a Success reports what has been collected under the highest sequence number
accepted so far.  The receive thread credits every pending share up to that number, and
looks the share of an Error up by its own.

Each share has a number of its own beside the 32 bits of its sequence number, and the answers
carry the shares that they are about; neither is on the wire.  Wherever a share is, it is in
one place of the proxy and, once sent, in one place upstream (`SubmitFlow.Inv`).  The answered
shares are then settled in every state of a run exactly when every Error finds its own share,
and no Success counts a share that the sweep leaves out (`SubmitFlow.AnswerFits`).
-/
import CashStratum.Run
import Mathlib.Data.List.Nodup
import Mathlib.Data.List.Perm.Basic

namespace CashStratum

/-! ### State -/

/-- A share and the sequence number that it took. -/
structure SequencedShare where
  share : Nat
  seq : UInt32
deriving DecidableEq, Repr

/-- `struct sv2_pending_share` -/
structure Sv2PendingShare (δ : Type) where
  share : Nat
  seq : UInt32
  diff : δ
deriving DecidableEq, Repr

/-- A call of `account_shares`. -/
structure AccountedShare (δ : Type) where
  share : Nat
  diff : δ
  result : Bool
deriving DecidableEq, Repr

/-- An answer of the upstream: `sv2_submit_shares_error`, or `sv2_submit_shares_success` with
the shares that it counts. -/
inductive ShareAnswer
  | error (share : Nat) (sequenceNumber : UInt32)
  | success (lastSequenceNumber : UInt32) (shares : List Nat)
deriving DecidableEq, Repr

/-- The shares that an answer answers. -/
def ShareAnswer.shares : ShareAnswer → List Nat
  | .error share _ => [share]
  | .success _ shares => shares

/-- The shares of a proxy on one connection.  `taken` have their number and are not sent,
`unregistered` are sent and not in the table, and `pending` is the table, the newest first.
`undecided`, `batch` and `batchLastSeq` are upstream, and `answers` are on their way down.
`sent`, `accounted` and `answered` record which shares were sent, what `account_shares` was
called with, and which answers have come. -/
structure SubmitFlow (δ : Type) where
  nextSeq : UInt32 := 0
  submitted : Nat := 0
  taken : List SequencedShare := []
  unregistered : List SequencedShare := []
  pending : List (Sv2PendingShare δ) := []
  accounted : List (AccountedShare δ) := []
  undecided : List SequencedShare := []
  batch : List Nat := []
  batchLastSeq : UInt32 := 0
  answers : List ShareAnswer := []
  answered : List (Nat × Bool) := []
  sent : List Nat := []
deriving DecidableEq, Repr

/-- What can happen.  Every number is a place in the list that the event takes from. -/
inductive SubmitEvent (δ : Type)
  /-- `next_seq++` -/
  | take
  /-- The share is encoded and sent, or is not. -/
  | send (i : Nat) (sent : Bool)
  /-- `HASH_ADD`, at the difficulty that the proxy has. -/
  | register (i : Nat) (diff : δ)
  /-- The upstream accepts or refuses a share. -/
  | verdict (i : Nat) (accept : Bool)
  /-- `flush_success_batch` -/
  | flush
  /-- The receive thread gets an answer.  Two that were made by two threads can overtake each
  other before they are queued. -/
  | receive (i : Nat)
deriving DecidableEq, Repr

namespace SubmitFlow

variable {δ : Type}

/-- `(int32_t)(ok.last_sequence_number - ps->seq) >= 0` -/
def Covers (lastSequenceNumber seq : UInt32) : Prop :=
  0 ≤ (lastSequenceNumber - seq).toInt32

instance (last seq : UInt32) : Decidable (Covers last seq) :=
  inferInstanceAs (Decidable (0 ≤ (last - seq).toInt32))

/-- `account_shares` for the shares that left the table. -/
def account (s : SubmitFlow δ) (shares : List (Sv2PendingShare δ)) (result : Bool) :
    SubmitFlow δ :=
  { s with accounted := s.accounted ++ shares.map fun ps => ⟨ps.share, ps.diff, result⟩ }

/-- `sv2_proxy_handle_frame`, on `SV2_MSG_SUBMIT_SHARES_SUCCESS` and
`SV2_MSG_SUBMIT_SHARES_ERROR`.  `HASH_ITER` goes through the table from the oldest.  The calls
of `account_shares` come after the lock is released, but no other thread accounts. -/
def handleFrame (s : SubmitFlow δ) : ShareAnswer → SubmitFlow δ
  | .success last shares =>
    let credit := s.pending.reverse.filter fun ps => Covers last ps.seq
    account { s with
      pending := s.pending.filter fun ps => ¬ Covers last ps.seq
      answered := s.answered ++ shares.map (·, true) } credit true
  | .error share seq =>
    match s.pending.find? fun ps => ps.seq = seq with
    | none => { s with answered := s.answered ++ [(share, false)] }
    | some ps =>
      account { s with
        pending := s.pending.eraseP fun ps => ps.seq = seq
        answered := s.answered ++ [(share, false)] } [ps] false

/-- `sv2_proxy_submit_share` up to the table, the upstream, and the receive thread. -/
def step (s : SubmitFlow δ) : SubmitEvent δ → SubmitFlow δ
  | .take =>
    { s with
      nextSeq := s.nextSeq + 1
      submitted := s.submitted + 1
      taken := s.taken ++ [⟨s.submitted, s.nextSeq⟩] }
  | .send i sent =>
    match s.taken[i]? with
    | none => s
    | some x =>
      if sent then
        { s with
          taken := s.taken.eraseIdx i
          unregistered := s.unregistered ++ [x]
          undecided := s.undecided ++ [x]
          sent := s.sent ++ [x.share] }
      else { s with taken := s.taken.eraseIdx i }
  | .register i diff =>
    match s.unregistered[i]? with
    | none => s
    | some x =>
      { s with
        unregistered := s.unregistered.eraseIdx i
        pending := ⟨x.share, x.seq, diff⟩ :: s.pending }
  | .verdict i accept =>
    match s.undecided[i]? with
    | none => s
    | some x =>
      if accept then
        { s with
          undecided := s.undecided.eraseIdx i
          batch := s.batch ++ [x.share]
          batchLastSeq := if s.batchLastSeq < x.seq then x.seq else s.batchLastSeq }
      else
        { s with
          undecided := s.undecided.eraseIdx i
          answers := s.answers ++ [.error x.share x.seq] }
  | .flush =>
    if s.batch = [] then s
    else { s with batch := [], answers := s.answers ++ [.success s.batchLastSeq s.batch] }
  | .receive i =>
    match s.answers[i]? with
    | none => s
    | some answer => handleFrame { s with answers := s.answers.eraseIdx i } answer

/-- A new connection. -/
def start : SubmitFlow δ := {}

/-! ### What is to hold -/

/-- An answered share went to `account_shares` once, with the verdict of the upstream, and is
not in the table. -/
def Settled (s : SubmitFlow δ) : Prop :=
  ∀ a ∈ s.answered, (s.accounted.map (·.share)).count a.1 = 1 ∧
    (∀ x ∈ s.accounted, x.share = a.1 → x.result = a.2) ∧ ∀ ps ∈ s.pending, ps.share ≠ a.1

instance (s : SubmitFlow δ) : Decidable s.Settled :=
  inferInstanceAs (Decidable (∀ a ∈ s.answered, _ ∧ _ ∧ _))

/-- What an answer is to meet in the table.  The lookup of an Error finds the share that was
refused.  The shares that a Success counts are registered, and those that are still pending
are up to its number. -/
def Fits (s : SubmitFlow δ) : ShareAnswer → Prop
  | .error share seq => (s.pending.find? fun ps => ps.seq = seq).map (·.share) = some share
  | .success last shares => ∀ share ∈ shares, share ∉ s.unregistered.map (·.share) ∧
      ∀ ps ∈ s.pending, ps.share = share → Covers last ps.seq

/-- The answer that is received fits. -/
def AnswerFits (s : SubmitFlow δ) : SubmitEvent δ → Prop
  | .receive i => ∀ answer ∈ s.answers[i]?, s.Fits answer
  | _ => True

instance (s : SubmitFlow δ) : DecidablePred s.Fits
  | .error _ _ => inferInstanceAs (Decidable (_ = _))
  | .success _ shares => inferInstanceAs (Decidable (∀ share ∈ shares, _ ∧ _))

instance (s : SubmitFlow δ) : DecidablePred s.AnswerFits
  | .receive i => inferInstanceAs (Decidable (∀ answer ∈ s.answers[i]?, s.Fits answer))
  | .take => isTrue trivial
  | .send _ _ => isTrue trivial
  | .register _ _ => isTrue trivial
  | .verdict _ _ => isTrue trivial
  | .flush => isTrue trivial

/-- Where the proxy has the shares that have been sent. -/
def sentShares (s : SubmitFlow δ) : List Nat :=
  s.unregistered.map (·.share) ++ s.pending.map (·.share) ++ s.accounted.map (·.share)

/-- Where the upstream has them. -/
def upstreamShares (s : SubmitFlow δ) : List Nat :=
  s.undecided.map (·.share) ++ s.batch ++ s.answers.flatMap (·.shares) ++ s.answered.map (·.1)

/-- The shares that the proxy has. -/
def shares (s : SubmitFlow δ) : List Nat := s.taken.map (·.share) ++ s.sentShares

/-- Every share is in one place of the proxy, and those that were sent are upstream too. -/
structure Inv (s : SubmitFlow δ) : Prop where
  once : s.shares.Nodup
  known : ∀ share ∈ s.shares, share < s.submitted
  kept : s.sentShares.Perm s.sent
  upstream : s.upstreamShares.Perm s.sent

/-- The shares that were sent are registered, and every answer has come. -/
def Quiet (s : SubmitFlow δ) : Prop :=
  s.unregistered = [] ∧ s.undecided = [] ∧ s.batch = [] ∧ s.answers = []

/-- The accounts hold every share that was sent, once and with its verdict. -/
def Complete (s : SubmitFlow δ) : Prop :=
  s.pending = [] ∧ (s.accounted.map (·.share)).Perm s.sent ∧
    (s.accounted.map fun x => (x.share, x.result)).Perm s.answered

end SubmitFlow

/-! ### Counting -/

/-- What is taken out of a list, and what stays. -/
theorem count_map_eraseIdx {α : Type*} {l : List α} {i : Nat} {x : α} (h : l[i]? = some x)
    (f : α → Nat) (k : Nat) :
    (l.map f).count k = ((l.eraseIdx i).map f).count k + if f x = k then 1 else 0 := by
  obtain ⟨hlt, rfl⟩ := List.getElem?_eq_some_iff.mp h
  have hperm := (List.getElem_cons_eraseIdx_perm hlt).map f
  rw [← hperm.count_eq, List.map_cons, List.count_cons]
  simp

theorem count_flatMap_eraseIdx {α : Type*} {l : List α} {i : Nat} {x : α} (h : l[i]? = some x)
    (f : α → List Nat) (k : Nat) :
    (l.flatMap f).count k = ((l.eraseIdx i).flatMap f).count k + (f x).count k := by
  obtain ⟨hlt, rfl⟩ := List.getElem?_eq_some_iff.mp h
  have hperm := (List.getElem_cons_eraseIdx_perm hlt).flatMap_right f
  rw [← hperm.count_eq, List.flatMap_cons, List.count_append]
  omega

theorem count_map_filter {α : Type*} (l : List α) (p : α → Prop) [DecidablePred p] (f : α → Nat)
    (k : Nat) :
    (l.map f).count k
      = ((l.filter fun x => p x).map f).count k + ((l.filter fun x => ¬ p x).map f).count k := by
  induction l with
  | nil => rfl
  | cons x l ih =>
    by_cases hx : p x
    · simp only [List.filter_cons, hx, decide_true, not_true, decide_false, List.map_cons,
        List.count_cons, ih, if_true, if_false, Bool.false_eq_true]
      omega
    · simp only [List.filter_cons, hx, decide_true, not_false_iff, decide_false, List.map_cons,
        List.count_cons, ih, if_true, if_false, Bool.false_eq_true]
      omega

theorem perm_cons_eraseP {α : Type*} {l : List α} {p : α → Bool} {x : α} (h : l.find? p = some x) :
    l.Perm (x :: l.eraseP p) := by
  obtain ⟨hx, before, after, rfl, hbefore⟩ := List.find?_eq_some_iff_append.mp h
  have hfalse : ∀ y ∈ before, ¬ p y = true := by
    intro y hy
    simpa using hbefore y hy
  rw [List.eraseP_append_right _ hfalse, List.eraseP_cons_of_pos hx]
  exact List.perm_middle

theorem exists_mem_of_count {α : Type*} {l : List α} {f : α → Nat} {k : Nat}
    (h : 0 < (l.map f).count k) : ∃ x ∈ l, f x = k := by
  rw [List.count_pos_iff, List.mem_map] at h
  exact h

theorem count_eq_zero_of_forall {α : Type*} {l : List α} {f : α → Nat} {k : Nat}
    (h : ∀ x ∈ l, f x ≠ k) : (l.map f).count k = 0 := by
  rw [List.count_eq_zero, List.mem_map]
  rintro ⟨x, hx, heq⟩
  exact h x hx heq

namespace SubmitFlow

variable {δ : Type} {s s' : SubmitFlow δ}

/-! ### Where shares are -/

theorem count_shares (s : SubmitFlow δ) (k : Nat) :
    s.shares.count k = (s.taken.map (·.share)).count k + (s.unregistered.map (·.share)).count k
      + (s.pending.map (·.share)).count k + (s.accounted.map (·.share)).count k := by
  simp only [shares, sentShares, List.count_append]
  omega

theorem count_sentShares (s : SubmitFlow δ) (k : Nat) :
    s.sentShares.count k = (s.unregistered.map (·.share)).count k
      + (s.pending.map (·.share)).count k + (s.accounted.map (·.share)).count k := by
  simp only [sentShares, List.count_append]

theorem count_upstreamShares (s : SubmitFlow δ) (k : Nat) :
    s.upstreamShares.count k = (s.undecided.map (·.share)).count k + s.batch.count k
      + (s.answers.flatMap (·.shares)).count k + (s.answered.map (·.1)).count k := by
  simp only [upstreamShares, List.count_append]

/-- A step that only moves shares. -/
theorem Inv.move (h : Inv s) (hsubmitted : s'.submitted = s.submitted)
    (hshares : ∀ k, s'.shares.count k ≤ s.shares.count k)
    (hsent : ∀ k, s'.sentShares.count k + s.sent.count k
      = s.sentShares.count k + s'.sent.count k)
    (hupstream : ∀ k, s'.upstreamShares.count k + s.sent.count k
      = s.upstreamShares.count k + s'.sent.count k) : Inv s' where
  once := by
    rw [List.nodup_iff_count_le_one]
    intro k
    exact (hshares k).trans (List.nodup_iff_count_le_one.mp h.once k)
  known := by
    intro k hk
    rw [hsubmitted]
    apply h.known
    have hle := hshares k
    rw [← List.count_pos_iff] at hk ⊢
    exact hk.trans_le hle
  kept := by
    rw [List.perm_iff_count]
    intro k
    have hbefore := h.kept.count_eq k
    have hmoved := hsent k
    omega
  upstream := by
    rw [List.perm_iff_count]
    intro k
    have hbefore := h.upstream.count_eq k
    have hmoved := hupstream k
    omega

theorem inv_start : Inv (start : SubmitFlow δ) where
  once := List.nodup_nil
  known := fun _ h => absurd h List.not_mem_nil
  kept := List.Perm.nil
  upstream := List.Perm.nil

theorem inv_take (h : Inv s) : Inv (s.step .take) where
  once := by
    -- the new share is the only one that is not below `submitted`
    have hfresh : s.submitted ∉ s.shares := fun hmem => absurd (h.known _ hmem) (lt_irrefl _)
    have hperm : (s.step .take).shares.Perm (s.submitted :: s.shares) := by
      simp only [shares, step, List.map_append, List.map_cons, List.map_nil, List.append_assoc]
      exact List.perm_middle
    exact hperm.nodup_iff.mpr (List.nodup_cons.mpr ⟨hfresh, h.once⟩)
  known := by
    intro k hk
    simp only [shares, step, List.map_append, List.map_cons, List.map_nil, List.append_assoc,
      List.mem_append, List.mem_singleton] at hk
    show k < s.submitted + 1
    rcases hk with hk | rfl | hk
    · exact Nat.lt_succ_of_lt (h.known k (List.mem_append_left _ hk))
    · exact Nat.lt_succ_self _
    · exact Nat.lt_succ_of_lt (h.known k (List.mem_append_right _ hk))
  kept := h.kept
  upstream := h.upstream

/-- An answer moves pending shares to the accounts, and the shares that it answers. -/
theorem count_handleFrame (s : SubmitFlow δ) (answer : ShareAnswer) (k : Nat) :
    (s.handleFrame answer).sentShares.count k = s.sentShares.count k ∧
      (s.handleFrame answer).shares.count k = s.shares.count k ∧
      (s.handleFrame answer).upstreamShares.count k
        = s.upstreamShares.count k + answer.shares.count k := by
  rw [count_sentShares, count_sentShares, count_shares, count_shares, count_upstreamShares,
    count_upstreamShares]
  cases answer with
  | error share seq =>
    rw [handleFrame]
    split
    · refine ⟨rfl, rfl, ?_⟩
      simp only [ShareAnswer.shares, List.map_append, List.count_append, List.map_cons,
        List.map_nil]
      omega
    · next ps hps =>
        have hperm := ((perm_cons_eraseP hps).map (·.share)).count_eq k
        simp only [ShareAnswer.shares, account, List.map_append, List.count_append,
          List.map_cons, List.map_nil, List.count_cons, List.count_nil] at hperm ⊢
        omega
  | success last counted =>
    have hsplit := count_map_filter s.pending (fun ps => Covers last ps.seq) (·.share) k
    have hmap : (counted.map fun share => (share, true)).map Prod.fst = counted := by
      rw [List.map_map]
      exact List.map_id counted
    have hcredit : ((s.pending.reverse.filter fun ps => Covers last ps.seq).map
        (·.share)).count k = ((s.pending.filter fun ps => Covers last ps.seq).map
        (·.share)).count k := by
      rw [List.filter_reverse, List.map_reverse, List.count_reverse]
    have hacc : ∀ l : List (Sv2PendingShare δ), (l.map fun ps =>
        (⟨ps.share, ps.diff, true⟩ : AccountedShare δ)).map (·.share) = l.map (·.share) := by
      intro l
      rw [List.map_map]
      rfl
    simp only [handleFrame, ShareAnswer.shares, account, List.map_append, List.count_append,
      hmap, hacc, hcredit]
    omega

theorem handleFrame_frame (s : SubmitFlow δ) (answer : ShareAnswer) :
    (s.handleFrame answer).submitted = s.submitted ∧ (s.handleFrame answer).sent = s.sent := by
  cases answer with
  | error share seq =>
    rw [handleFrame]
    split <;> exact ⟨rfl, rfl⟩
  | success last shares => exact ⟨rfl, rfl⟩

theorem inv_step (h : Inv s) (e : SubmitEvent δ) : Inv (s.step e) := by
  cases e with
  | take => exact inv_take h
  | send i sent =>
    rw [step]
    split
    · exact h
    · next x hx =>
        have hcount := fun k => count_map_eraseIdx hx (·.share) k
        split
        · refine h.move rfl (fun k => ?_) (fun k => ?_) (fun k => ?_)
          · simp only [count_shares, List.map_append, List.count_append, List.map_cons,
              List.map_nil, List.count_cons, List.count_nil, hcount k, beq_iff_eq]
            omega
          · simp only [count_sentShares, List.map_append, List.count_append, List.map_cons,
              List.map_nil]
            omega
          · simp only [count_upstreamShares, List.map_append, List.count_append, List.map_cons,
              List.map_nil]
            omega
        · refine h.move rfl (fun k => ?_) (fun k => rfl) (fun k => rfl)
          simp only [count_shares, hcount k]
          omega
  | register i diff =>
    rw [step]
    split
    · exact h
    · next x hx =>
        have hcount := fun k => count_map_eraseIdx hx (·.share) k
        refine h.move rfl (fun k => ?_) (fun k => ?_) (fun k => rfl)
        · simp only [count_shares, List.map_cons, List.count_cons, hcount k, beq_iff_eq]
          omega
        · simp only [count_sentShares, List.map_cons, List.count_cons, hcount k, beq_iff_eq]
          omega
  | verdict i accept =>
    rw [step]
    split
    · exact h
    · next x hx =>
        have hcount := fun k => count_map_eraseIdx hx (·.share) k
        split
        · refine h.move rfl (fun k => le_rfl) (fun k => rfl) (fun k => ?_)
          simp only [count_upstreamShares, List.count_append, List.count_cons,
            List.count_nil, hcount k, beq_iff_eq]
          omega
        · refine h.move rfl (fun k => le_rfl) (fun k => rfl) (fun k => ?_)
          simp only [count_upstreamShares, List.flatMap_append, List.flatMap_cons,
            List.flatMap_nil, ShareAnswer.shares, List.count_append, List.count_cons,
            List.count_nil, hcount k, beq_iff_eq]
          omega
  | flush =>
    rw [step]
    split
    · exact h
    · refine h.move rfl (fun k => le_rfl) (fun k => rfl) (fun k => ?_)
      simp only [count_upstreamShares, List.flatMap_append, List.flatMap_cons,
        List.flatMap_nil, ShareAnswer.shares, List.count_append, List.append_nil,
        List.count_nil]
      omega
  | receive i =>
    rw [step]
    split
    · exact h
    · next answer hanswer =>
        have hcount := fun k => count_flatMap_eraseIdx hanswer (·.shares) k
        have hhandle := count_handleFrame { s with answers := s.answers.eraseIdx i } answer
        have hframe := handleFrame_frame { s with answers := s.answers.eraseIdx i } answer
        refine h.move hframe.1 (fun k => (hhandle k).2.1.le) (fun k => ?_) (fun k => ?_)
        · rw [(hhandle k).1, hframe.2]
          rfl
        · have hup := (hhandle k).2.2
          have hk := hcount k
          rw [hframe.2]
          simp only [count_upstreamShares] at hup ⊢
          omega

variable {answer : ShareAnswer}

/-! ### What an answer does -/

/-- What has been accounted as refused was refused. -/
def Refused (s : SubmitFlow δ) : Prop :=
  ∀ x ∈ s.accounted, x.result = false → (x.share, false) ∈ s.answered

/-- What is known of an answer when it comes. -/
structure Answers (s : SubmitFlow δ) (answer : ShareAnswer) : Prop where
  once : ∀ k, s.shares.count k ≤ 1
  fresh : ∀ k ∈ answer.shares, ∀ a ∈ s.answered, a.1 ≠ k
  sent : ∀ k ∈ answer.shares, k ∈ s.sentShares

theorem Refused.accepted (h : s.Refused) (hanswers : s.Answers answer) {k : Nat}
    (hk : k ∈ answer.shares) {x : AccountedShare δ} (hx : x ∈ s.accounted) (hshare : x.share = k) :
    x.result = true := by
  by_contra hfalse
  rw [Bool.not_eq_true] at hfalse
  exact hanswers.fresh k hk _ (h x hx hfalse) hshare

/-- An Error settles its share exactly when the lookup finds it. -/
theorem settled_error {share : Nat} {seq : UInt32} (hsettled : s.Settled) (hrefused : s.Refused)
    (hanswers : s.Answers (.error share seq)) :
    (s.handleFrame (.error share seq)).Settled ↔ s.Fits (.error share seq) := by
  have hown : share ∈ (ShareAnswer.error share seq).shares := List.mem_singleton_self share
  constructor
  · intro h
    rw [handleFrame] at h
    split at h
    · obtain ⟨hcount, hresult, -⟩ := h (share, false) (by simp)
      obtain ⟨x, hx, hshare⟩ := exists_mem_of_count (hcount ▸ Nat.one_pos)
      have htrue := hrefused.accepted hanswers hown hx hshare
      rw [hresult x hx hshare] at htrue
      cases htrue
    · next ps hps =>
        obtain ⟨hcount, hresult, -⟩ := h (share, false) (by simp [account])
        rw [Fits, hps]
        by_contra hother
        -- then the share was accounted before
        have hne : ps.share ≠ share := fun heq => hother (congrArg some heq)
        simp only [account, List.map_append, List.count_append, List.map_cons, List.map_nil,
          List.count_cons_of_ne hne, List.count_nil] at hcount
        obtain ⟨x, hx, hshare⟩ := exists_mem_of_count (hcount ▸ Nat.one_pos)
        have htrue := hrefused.accepted hanswers hown hx hshare
        rw [hresult x (List.mem_append_left _ hx) hshare] at htrue
        cases htrue
  · intro hfits
    obtain ⟨ps, hps, hshare⟩ := Option.map_eq_some_iff.mp hfits
    have hperm := perm_cons_eraseP hps
    have hcount := (hperm.map (·.share)).count_eq share
    have honce := hanswers.once share
    rw [count_shares] at honce
    rw [List.map_cons, hshare, List.count_cons_self] at hcount
    rw [handleFrame, hps]
    intro a ha
    rcases List.mem_append.mp ha with hold | hnew
    · obtain ⟨hone, hresult, hgone⟩ := hsettled a hold
      have hne : share ≠ a.1 := (hanswers.fresh share hown a hold).symm
      refine ⟨?_, ?_, fun ps' hps' => hgone ps' (List.mem_of_mem_eraseP hps')⟩
      · simp only [account, List.map_append, List.count_append, List.map_cons, List.map_nil,
          hshare, List.count_cons_of_ne hne, List.count_nil]
        exact hone
      · intro x hx heq
        rcases List.mem_append.mp hx with hx | hx
        · exact hresult x hx heq
        · rw [List.map_cons, List.map_nil, List.mem_singleton] at hx
          subst hx
          exact absurd (hshare.symm.trans heq) hne
    · rw [List.mem_singleton] at hnew
      subst hnew
      have hnone : (s.accounted.map (·.share)).count share = 0 := by omega
      have hleft : ((s.pending.eraseP fun ps => ps.seq = seq).map (·.share)).count share = 0 := by
        omega
      refine ⟨?_, ?_, fun ps' hps' heq => ?_⟩
      · simp only [account, List.map_append, List.count_append, List.map_cons, List.map_nil,
          hshare, List.count_cons_self, List.count_nil, hnone]
      · intro x hx heq
        rcases List.mem_append.mp hx with hx | hx
        · exact absurd (List.mem_map.mpr ⟨x, hx, heq⟩) (List.count_eq_zero.mp hnone)
        · rw [List.map_cons, List.map_nil, List.mem_singleton] at hx
          subst hx
          rfl
      · exact List.count_eq_zero.mp hleft (List.mem_map.mpr ⟨ps', hps', heq⟩)

/-- A Success settles its shares exactly when the sweep leaves none of them out. -/
theorem settled_success {last : UInt32} {shares : List Nat} (hsettled : s.Settled)
    (hrefused : s.Refused) (hanswers : s.Answers (.success last shares)) :
    (s.handleFrame (.success last shares)).Settled ↔ s.Fits (.success last shares) := by
  constructor
  · intro h share hshare
    obtain ⟨hcount, -, hgone⟩ := h (share, true)
      (List.mem_append_right _ (List.mem_map.mpr ⟨share, hshare, rfl⟩))
    refine ⟨fun hmem => ?_, fun ps hps heq => ?_⟩
    · -- it would be in the accounts and on its way to the table
      have honce := hanswers.once share
      rw [← (count_handleFrame s (.success last shares) share).2.1, count_shares, hcount] at honce
      have hpos := List.count_pos_iff.mpr hmem
      have hsame : (s.handleFrame (.success last shares)).unregistered = s.unregistered := rfl
      rw [hsame] at honce
      omega
    · by_contra hcovers
      exact hgone ps (List.mem_filter.mpr ⟨hps, by simpa using hcovers⟩) heq
  · intro hfits a ha
    have hpending : ∀ ps ∈ s.pending.reverse.filter fun ps => Covers last ps.seq,
        ps ∈ s.pending := fun ps hps => List.mem_reverse.mp (List.mem_of_mem_filter hps)
    rcases List.mem_append.mp ha with hold | hnew
    · obtain ⟨hone, hresult, hgone⟩ := hsettled a hold
      refine ⟨?_, ?_, fun ps hps => hgone ps (List.mem_of_mem_filter hps)⟩
      · show (List.map _ (_ ++ _)).count a.1 = 1
        rw [List.map_append, List.count_append, hone, count_eq_zero_of_forall]
        intro x hx
        obtain ⟨ps, hps, rfl⟩ := List.mem_map.mp hx
        exact hgone ps (hpending ps hps)
      · intro x hx heq
        rcases List.mem_append.mp hx with hx | hx
        · exact hresult x hx heq
        · obtain ⟨ps, hps, rfl⟩ := List.mem_map.mp hx
          exact absurd heq (hgone ps (hpending ps hps))
    · obtain ⟨share, hshare, rfl⟩ := List.mem_map.mp hnew
      obtain ⟨hregistered, hcovered⟩ := hfits share hshare
      have hgone : ∀ ps ∈ (s.handleFrame (.success last shares)).pending, ps.share ≠ share := by
        intro ps hps heq
        obtain ⟨hps, hnot⟩ := List.mem_filter.mp hps
        have hcovers := hcovered ps hps heq
        simp [hcovers] at hnot
      refine ⟨?_, ?_, hgone⟩
      · -- it stays where sent shares are, and that can only be the accounts
        have hkept := (count_handleFrame s (.success last shares) share).1
        have hsent := List.count_pos_iff.mpr (hanswers.sent share hshare)
        have honce := hanswers.once share
        have hsame : (s.handleFrame (.success last shares)).unregistered = s.unregistered := rfl
        rw [SubmitFlow.shares, List.count_append] at honce
        rw [count_sentShares, count_eq_zero_of_forall hgone, hsame,
          List.count_eq_zero.mpr hregistered] at hkept
        show ((s.handleFrame (.success last shares)).accounted.map (·.share)).count share = 1
        omega
      · intro x hx heq
        rcases List.mem_append.mp hx with hx | hx
        · exact hrefused.accepted hanswers hshare hx heq
        · obtain ⟨ps, -, rfl⟩ := List.mem_map.mp hx
          rfl

theorem settled_handleFrame (hsettled : s.Settled) (hrefused : s.Refused)
    (hanswers : s.Answers answer) : (s.handleFrame answer).Settled ↔ s.Fits answer := by
  cases answer with
  | error share seq => exact settled_error hsettled hrefused hanswers
  | success last shares => exact settled_success hsettled hrefused hanswers

theorem refused_handleFrame (hrefused : s.Refused) (hfits : s.Fits answer) :
    (s.handleFrame answer).Refused := by
  intro x hx hfalse
  cases answer with
  | error share seq =>
    obtain ⟨ps, hps, hshare⟩ := Option.map_eq_some_iff.mp hfits
    rw [handleFrame, hps] at hx ⊢
    rcases List.mem_append.mp hx with hx | hx
    · exact List.mem_append_left _ (hrefused x hx hfalse)
    · rw [List.map_cons, List.map_nil, List.mem_singleton] at hx
      subst hx
      exact List.mem_append_right _ (List.mem_singleton.mpr (by rw [hshare]))
  | success last shares =>
    rcases List.mem_append.mp hx with hx | hx
    · exact List.mem_append_left _ (hrefused x hx hfalse)
    · obtain ⟨ps, -, rfl⟩ := List.mem_map.mp hx
      cases hfalse

/-! ### Runs -/

/-- What an answer on its way down is about is known to the proxy, and not answered. -/
theorem Inv.answers (h : Inv s) {i : Nat} (hanswer : s.answers[i]? = some answer) :
    Answers { s with answers := s.answers.eraseIdx i } answer where
  once := List.nodup_iff_count_le_one.mp h.once
  fresh := by
    intro k hk a ha heq
    have hcount := count_flatMap_eraseIdx hanswer (·.shares) k
    have hpos := List.count_pos_iff.mpr hk
    have hanswered : 0 < (s.answered.map (·.1)).count k :=
      List.count_pos_iff.mpr (List.mem_map.mpr ⟨a, ha, heq⟩)
    have honce := List.nodup_iff_count_le_one.mp h.once k
    have hupstream := h.upstream.count_eq k
    have hkept := h.kept.count_eq k
    rw [count_upstreamShares] at hupstream
    rw [SubmitFlow.shares, List.count_append] at honce
    omega
  sent := by
    intro k hk
    refine (h.upstream.trans h.kept.symm).subset ?_
    rw [upstreamShares, List.mem_append, List.mem_append]
    exact Or.inl (Or.inr (List.mem_flatMap.mpr ⟨answer, List.mem_of_getElem? hanswer, hk⟩))

/-- Of a step, only an answer can leave something unsettled. -/
theorem settled_step (hinv : Inv s) (hrefused : s.Refused) (hsettled : s.Settled)
    (e : SubmitEvent δ) : (s.step e).Settled ↔ s.AnswerFits e := by
  cases e with
  | take => exact iff_of_true hsettled trivial
  | send i sent | verdict i accept =>
    refine iff_of_true ?_ trivial
    rw [step]
    split
    · exact hsettled
    · split <;> exact hsettled
  | register i diff =>
    refine iff_of_true ?_ trivial
    rw [step]
    split
    · exact hsettled
    · next x hx =>
        intro a ha
        obtain ⟨hone, hresult, hgone⟩ := hsettled a ha
        refine ⟨hone, hresult, fun ps hps => ?_⟩
        rcases List.mem_cons.mp hps with rfl | hps
        · -- it is not in the accounts yet
          intro heq
          have honce := List.nodup_iff_count_le_one.mp hinv.once a.1
          have hcount := count_map_eraseIdx hx (·.share) a.1
          rw [if_pos heq] at hcount
          rw [count_shares, hone] at honce
          omega
        · exact hgone ps hps
  | flush =>
    refine iff_of_true ?_ trivial
    rw [step]
    split <;> exact hsettled
  | receive i =>
    rw [step, AnswerFits]
    split
    · next hnone => simpa [hnone] using hsettled
    · next answer hanswer =>
        simp only [hanswer, Option.mem_def, Option.some.injEq, forall_eq']
        exact settled_handleFrame hsettled hrefused (hinv.answers hanswer)

theorem refused_step (hinv : Inv s) (hrefused : s.Refused) (hsettled : s.Settled)
    {e : SubmitEvent δ} (hnext : (s.step e).Settled) : (s.step e).Refused := by
  have hfits := (settled_step hinv hrefused hsettled e).mp hnext
  cases e with
  | take => exact hrefused
  | send i sent | verdict i accept =>
    rw [step]
    split
    · exact hrefused
    · split <;> exact hrefused
  | register i diff =>
    rw [step]
    split <;> exact hrefused
  | flush =>
    rw [step]
    split <;> exact hrefused
  | receive i =>
    rw [step]
    split
    · exact hrefused
    · next answer hanswer =>
        apply refused_handleFrame
        · exact hrefused
        · exact hfits answer hanswer

theorem settled_run_iff (events : List (SubmitEvent δ)) :
    (∀ before, before <+: events → (run step (start : SubmitFlow δ) before).Settled)
      ↔ Along step AnswerFits (start : SubmitFlow δ) events := by
  refine run_always_iff_of (I := fun s : SubmitFlow δ => Inv s ∧ s.Refused) (Q := fun _ => True)
    ?_ ?_ (fun _ _ => trivial) ⟨inv_start, ?_⟩ ?_
  · intro s e _ hI hP hnext
    exact ⟨inv_step hI.1 e, refused_step hI.1 hI.2 hP hnext⟩
  · intro s e _ hI hP
    exact settled_step hI.1 hI.2 hP e
  · intro x hx
    cases hx
  · intro a ha
    cases ha

theorem inv_run (events : List (SubmitEvent δ)) : Inv (run step (start : SubmitFlow δ) events) :=
  run_invariant_always (I := Inv) (fun _ e h => inv_step h e) events inv_start

/-- When nothing is on its way, every share that was sent is in the accounts, with the verdict
of the upstream. -/
theorem Settled.complete (h : s.Settled) (hinv : Inv s) (hquiet : s.Quiet) : s.Complete := by
  obtain ⟨hunregistered, hundecided, hbatch, hanswers⟩ := hquiet
  have hanswered : (s.answered.map (·.1)).Perm s.sent := by
    have hup := hinv.upstream
    simpa [upstreamShares, hundecided, hbatch, hanswers] using hup
  have hkept : (s.pending.map (·.share) ++ s.accounted.map (·.share)).Perm s.sent := by
    have hsent := hinv.kept
    simpa [sentShares, hunregistered] using hsent
  have hpending : s.pending = [] := by
    by_contra hne
    obtain ⟨ps, hps⟩ := List.exists_mem_of_ne_nil _ hne
    have hmem : ps.share ∈ s.sent :=
      hkept.subset (List.mem_append_left _ (List.mem_map_of_mem hps))
    obtain ⟨a, ha, heq⟩ := List.mem_map.mp (hanswered.symm.subset hmem)
    exact (h a ha).2.2 ps hps heq.symm
  rw [hpending, List.map_nil, List.nil_append] at hkept
  have hnodup : (s.accounted.map (·.share)).Nodup := by
    have hshares := hinv.once
    rw [shares, sentShares] at hshares
    exact (List.nodup_append.mp (List.nodup_append.mp hshares).2.1).2.1
  refine ⟨hpending, hkept, ?_⟩
  apply (List.perm_ext_iff_of_nodup ?_ ?_).mpr
  · rintro ⟨share, result⟩
    constructor
    · intro hmem
      obtain ⟨x, hx, heq⟩ := List.mem_map.mp hmem
      obtain ⟨rfl, rfl⟩ := Prod.mk.inj heq
      have hsent : x.share ∈ s.sent := hkept.subset (List.mem_map_of_mem hx)
      obtain ⟨a, ha, hshare⟩ := List.mem_map.mp (hanswered.symm.subset hsent)
      have hresult := (h a ha).2.1 x hx hshare.symm
      rw [hresult, ← hshare]
      exact ha
    · intro hmem
      obtain ⟨hcount, hresult, -⟩ := h _ hmem
      obtain ⟨x, hx, hshare⟩ := exists_mem_of_count (hcount ▸ Nat.one_pos)
      exact List.mem_map.mpr ⟨x, hx, Prod.ext hshare (hresult x hx hshare)⟩
  · apply List.Nodup.of_map Prod.fst
    rw [List.map_map]
    exact hnodup
  · exact List.Nodup.of_map Prod.fst (hanswered.nodup_iff.mpr (hkept.nodup_iff.mp hnodup))

/-- **The accounts of a proxy.**  The answered shares are settled in every state of a run
exactly when every answer fits the table that it meets; and then the accounts are complete
whenever nothing is on its way. -/
theorem shares_settled_iff (events : List (SubmitEvent δ)) :
    ((∀ before, before <+: events → (run step (start : SubmitFlow δ) before).Settled)
      ↔ Along step AnswerFits (start : SubmitFlow δ) events) ∧
    (Along step AnswerFits (start : SubmitFlow δ) events →
      ∀ before, before <+: events → (run step (start : SubmitFlow δ) before).Quiet →
        (run step (start : SubmitFlow δ) before).Complete) := by
  have hiff := settled_run_iff events
  refine ⟨hiff, fun halong before hbefore hquiet => ?_⟩
  exact (hiff.mpr halong before hbefore).complete (inv_run before) hquiet

/-- Two shares are pending; the upstream accepts the second and refuses the first.  The Success
credits both, and the Error finds neither. -/
theorem refused_share_credited :
    ¬ ∀ (events : List (SubmitEvent Nat)) (before : List (SubmitEvent Nat)),
      before <+: events → (run step (start : SubmitFlow Nat) before).Settled := by
  intro hall
  have h := hall _ [.take, .take, .send 0 true, .send 0 true, .register 0 8, .register 0 8,
    .verdict 1 true, .flush, .verdict 0 false, .receive 0, .receive 0] (List.prefix_refl _)
  revert h
  decide

end SubmitFlow

end CashStratum
