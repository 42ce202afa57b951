/-
CashStratum/JdCoalesce.lean

What the coalesce cache of the job declarator answers for (`sv2_jd.c`).

A declare is coalesced when the hash of its template on the current tip is found in the
cache, in place of a call of checkBlock.  The machine of this module is the job
declarator with a record of the declares that checkBlock accepted (`JdHistory`), and the
question is whether a declare that is coalesced is one of them: the same version,
coinbase parts and transactions, on the current tip, within the lifetime of an entry.

The hash is of the parts one after the other, without their lengths, so it does not say
where the prefix ends and where the suffix does.  And the tip is looked at outside of
the lock: it can come back to where it was after checkBlock saw another one, and it can
move before the second lookup.  Each of these lets a declare through that checkBlock did
not see, and nothing else does (`coalesced_was_checked`).
-/
import CashStratum.JdInvariant
import Mathlib.Data.Set.Function

namespace CashStratum

open JdState

/-! ### The bytes that are hashed -/

/-- The same template: what a declare says of the block. -/
structure JdPending.SameTemplate (pend pend' : JdPending) : Prop where
  version : pend.version = pend'.version
  coinbaseTxPrefix : pend.coinbaseTxPrefix = pend'.coinbaseTxPrefix
  coinbaseTxSuffix : pend.coinbaseTxSuffix = pend'.coinbaseTxSuffix
  wtxidList : pend.wtxidList = pend'.wtxidList

/-- The parts of the coinbase end at the same places. -/
structure JdPending.SameSplit (pend pend' : JdPending) : Prop where
  coinbaseTxPrefix : pend.coinbaseTxPrefix.length = pend'.coinbaseTxPrefix.length
  coinbaseTxSuffix : pend.coinbaseTxSuffix.length = pend'.coinbaseTxSuffix.length

instance (pend pend' : JdPending) : Decidable (pend.SameTemplate pend') :=
  decidable_of_iff (pend.version = pend'.version ∧ pend.coinbaseTxPrefix = pend'.coinbaseTxPrefix ∧
      pend.coinbaseTxSuffix = pend'.coinbaseTxSuffix ∧ pend.wtxidList = pend'.wtxidList)
    ⟨fun ⟨h, h', h'', h'''⟩ => ⟨h, h', h'', h'''⟩, fun ⟨h, h', h'', h'''⟩ => ⟨h, h', h'', h'''⟩⟩

instance (pend pend' : JdPending) : Decidable (pend.SameSplit pend') :=
  decidable_of_iff (pend.coinbaseTxPrefix.length = pend'.coinbaseTxPrefix.length ∧
      pend.coinbaseTxSuffix.length = pend'.coinbaseTxSuffix.length)
    ⟨fun ⟨h, h'⟩ => ⟨h, h'⟩, fun ⟨h, h'⟩ => ⟨h, h'⟩⟩

/-- The previous hash of a tip, as it is hashed. -/
def tipBytes (tip : Option JdTip) : Bytes :=
  (tip.map fun t => t.prevHash.bytes).getD (List.replicate 32 0)

theorem length_tipBytes (tip : Option JdTip) : (tipBytes tip).length = 32 := by
  cases tip with
  | none => rfl
  | some t => exact t.prevHash.length_bytes

/-- Hashes one after the other can be told apart. -/
theorem flatten_hashes_inj {as bs : List Hash256}
    (h : (as.map Hash256.bytes).flatten = (bs.map Hash256.bytes).flatten) : as = bs := by
  induction as generalizing bs with
  | nil =>
    cases bs with
    | nil => rfl
    | cons b bs =>
      have hlen := congrArg List.length h.symm
      simp [b.length_bytes] at hlen
  | cons a as ih =>
    cases bs with
    | nil =>
      have hlen := congrArg List.length h
      simp [a.length_bytes] at hlen
    | cons b bs =>
      rw [List.map_cons, List.map_cons, List.flatten_cons, List.flatten_cons] at h
      obtain ⟨hhead, htail⟩ :=
        List.append_inj h (a.length_bytes.trans b.length_bytes.symm)
      rw [Hash256.ext hhead, ih htail]

/-- What the hashed bytes determine: the version, the previous hash, and the parts one
after the other. -/
theorem templateBytes_parts {tip tip' : Option JdTip} {pend pend' : JdPending}
    (h : templateBytes tip pend = templateBytes tip' pend') :
    pend.version = pend'.version ∧ tipBytes tip = tipBytes tip' ∧
      pend.coinbaseTxPrefix ++ (pend.coinbaseTxSuffix ++ (pend.wtxidList.map Hash256.bytes).flatten)
        = pend'.coinbaseTxPrefix ++
          (pend'.coinbaseTxSuffix ++ (pend'.wtxidList.map Hash256.bytes).flatten) := by
  simp only [templateBytes, List.append_assoc] at h
  obtain ⟨hversion, h⟩ := List.append_inj h (by simp)
  obtain ⟨htip, h⟩ := List.append_inj h ((length_tipBytes tip).trans (length_tipBytes tip').symm)
  exact ⟨UInt32.toNat_inj.mp
    (leBytes_injOn pend.version.toNat_lt pend'.version.toNat_lt hversion), htip, h⟩

/-- The hashed bytes and the places at which the parts end determine the template. -/
theorem templateBytes_sameTemplate {tip tip' : Option JdTip} {pend pend' : JdPending}
    (h : templateBytes tip pend = templateBytes tip' pend') (hsplit : pend.SameSplit pend') :
    pend.SameTemplate pend' := by
  obtain ⟨hversion, -, hparts⟩ := templateBytes_parts h
  obtain ⟨hpre, hparts⟩ := List.append_inj hparts hsplit.coinbaseTxPrefix
  obtain ⟨hsuffix, hwtxids⟩ := List.append_inj hparts hsplit.coinbaseTxSuffix
  exact ⟨hversion, hpre, hsuffix, flatten_hashes_inj hwtxids⟩

/-- The hashed bytes see the previous hash of the tip only. -/
theorem templateBytes_congr {tip tip' : Option JdTip}
    (h : tip.map JdTip.prevHash = tip'.map JdTip.prevHash) (pend : JdPending) :
    templateBytes tip pend = templateBytes tip' pend := by
  have hmap : ∀ t : Option JdTip, (t.map fun t => t.prevHash.bytes) =
      (t.map JdTip.prevHash).map Hash256.bytes := by
    intro t
    rw [Option.map_map]
    rfl
  rw [templateBytes, templateBytes, hmap, hmap, h]

/-! ### The cache -/

namespace CoalesceCache

theorem mem_of_mem_evict {now : Int} {c : JdCoalesce} :
    ∀ {entries : List JdCoalesce} {count : Nat}, c ∈ (evict now entries count).1 → c ∈ entries
  | [], _, h => h
  | e :: entries, count, h => by
      rw [evict] at h
      split_ifs at h
      · exact List.mem_cons_of_mem e h
      · exact List.mem_cons_of_mem e (mem_of_mem_evict h)
      · rcases List.mem_cons.mp h with rfl | h
        · exact List.mem_cons_self
        · exact List.mem_cons_of_mem e (mem_of_mem_evict h)

/-- An entry is as it was, or it is the one that was noted. -/
theorem mem_note {cache : CoalesceCache} {thash : Hash256} {enonceLen : Nat} {now : Int}
    {c : JdCoalesce} (h : c ∈ (cache.note thash enonceLen now).entries) :
    c ∈ cache.entries ∨ (c.thash = thash ∧ c.created = now) := by
  rw [note] at h
  split_ifs at h
  · obtain ⟨e, he, rfl⟩ := List.mem_map.mp h
    by_cases hthash : e.thash = thash
    · rw [if_pos hthash]
      exact Or.inr ⟨hthash, rfl⟩
    · rw [if_neg hthash]
      exact Or.inl he
  · rcases List.mem_append.mp h with h | h
    · exact Or.inl (mem_of_mem_evict h)
    · rw [List.mem_singleton.mp h]
      exact Or.inr ⟨rfl, rfl⟩
  · rcases List.mem_append.mp h with h | h
    · exact Or.inl h
    · rw [List.mem_singleton.mp h]
      exact Or.inr ⟨rfl, rfl⟩

/-- A hit is an entry that has not expired. -/
theorem lookup_eq_some {cache : CoalesceCache} {thash : Hash256} {now : Int} {enonceLen : Nat}
    (h : cache.lookup thash now = some enonceLen) :
    ∃ c ∈ cache.entries, c.thash = thash ∧ now - c.created ≤ coalesceTtlSecs := by
  rw [lookup] at h
  split at h
  · cases h
  · next c hfind =>
      have hthash := List.find?_some hfind
      split_ifs at h with hold
      exact ⟨c, List.mem_of_find?_eq_some hfind, of_decide_eq_true hthash, Int.not_lt.mp hold⟩

end CoalesceCache

/-! ### The record of the checks -/

/-- A declare that checkBlock accepted: the tip its block was built on, and the clock at
the beginning of the check. -/
structure JdChecked where
  thread : Nat
  pend : JdPending
  tip : JdTip
  start : Int

/-- The declare that checkBlock accepts in a step. -/
def checking (s : JdState) : JdEvent → Option JdChecked
  | .go i inp =>
    match s.threads i, s.tip, inp.verdict with
    | .trying pend _ start (enonceLen :: _) _ _ _, some tip, .valid =>
      (assembleCandidateBlock (some tip) pend enonceLen).map fun _ => ⟨i, pend, tip, start⟩
    | _, _, _ => none
  | _ => none

/-- The declare that a step answers with a Success by way of the cache, and the clock. -/
def coalescing (s : JdState) : JdEvent → Option (JdPending × Int)
  | .go i inp =>
    match s.threads i with
    | .rehashed pend thash =>
      (s.coalesce.lookup thash inp.now).bind fun enonceUsed =>
        match s.tokenAcceptDeclare pend enonceUsed inp.draws inp.now with
        | .refused _ _ => none
        | _ => some (pend, inp.now)
    | _ => none
  | _ => none

/-- The job declarator with the declares that checkBlock accepted, the latest first. -/
structure JdHistory where
  jd : JdState
  checked : List JdChecked

namespace JdHistory

/-- The job declarator when it starts. -/
def start : JdHistory := ⟨.start, []⟩

/-- A step, on record. -/
def step (conf : JdConf) (h : JdHistory) (e : JdEvent) : JdHistory where
  jd := jdStep conf h.jd e
  checked := (checking h.jd e).toList ++ h.checked

/-- The latest check of a thread. -/
def lastCheck (h : JdHistory) (i : Nat) : Option JdChecked :=
  h.checked.find? fun k => k.thread = i

end JdHistory

/-! ### What a step does to the threads and to the cache -/

/-- Where a thread has passed checkBlock. -/
def JdThread.checked : JdThread → Bool
  | .passed .. => true
  | .accepting .. => true
  | _ => false

/-- Where a thread is after a step. -/
inductive Moves (s : JdState) (e : JdEvent) (j : Nat) : JdThread → Prop
  | stays : Moves s e j (s.threads j)
  | unchecked (t : JdThread) (h : t.checked = false) : Moves s e j t
  | passes (k : JdChecked) (thash : Hash256) (enonceUsed : Nat) (h : checking s e = some k)
      (hthread : k.thread = j) : Moves s e j (.passed k.pend thash k.start enonceUsed)
  | accepts (pend : JdPending) (thash : Hash256) (start : Int) (enonceUsed : Nat) (inp : JdInput)
      (h : s.threads j = .passed pend thash start enonceUsed) (he : e = .go j inp) :
      Moves s e j (.accepting pend thash start enonceUsed
        (decide (templateHash s.tip pend = thash)))

/-- What the cache is after a step. -/
inductive Files (s : JdState) : CoalesceCache → Prop
  | keeps : Files s s.coalesce
  | clears : Files s .empty
  | notes (i : Nat) (pend : JdPending) (thash : Hash256) (start : Int) (enonceUsed : Nat)
      (h : s.threads i = .accepting pend thash start enonceUsed true) :
      Files s (s.coalesce.note thash enonceUsed start)

/-- What a step does to the threads, the cache and the tip. -/
structure JdState.Follows (s : JdState) (e : JdEvent) (s' : JdState) : Prop where
  threads : ∀ j, Moves s e j (s'.threads j)
  coalesce : Files s s'.coalesce
  tip : s.tip.isSome → s'.tip.isSome

variable {i : Nat}

section Follows

variable {s s' : JdState} {e : JdEvent}

theorem follows_of_same (hthreads : s'.threads = s.threads) (hcoalesce : s'.coalesce = s.coalesce)
    (htip : s'.tip = s.tip) : s.Follows e s' where
  threads j := by
    rw [hthreads]
    exact .stays
  coalesce := by
    rw [hcoalesce]
    exact .keeps
  tip h := by
    rw [htip]
    exact h

/-- One thread goes to another place. -/
theorem JdState.Follows.setThread (h : s.Follows e s') {t : JdThread}
    (ht : Moves s e i t) : s.Follows e (s'.setThread i t) where
  threads j := by
    by_cases hj : j = i
    · rw [hj, show (s'.setThread i t).threads i = t from Function.update_self ..]
      exact ht
    · rw [show (s'.setThread i t).threads j = s'.threads j from Function.update_of_ne hj ..]
      exact h.threads j
  coalesce := h.coalesce
  tip := h.tip

/-- One thread goes to a place before checkBlock, and nothing else of interest changes. -/
theorem follows_unchecked (hthreads : s'.threads = s.threads)
    (hcoalesce : s'.coalesce = s.coalesce) (htip : s'.tip = s.tip) {t : JdThread}
    (ht : t.checked = false) : s.Follows e (s'.setThread i t) :=
  (follows_of_same hthreads hcoalesce htip).setThread (.unchecked t ht)

theorem handleDeclare_follows (i : Nat) (clientId : Int) (decl : DeclareMiningJob) (now : Int) :
    s.Follows e (s.handleDeclare i clientId decl now) := by
  simp only [handleDeclare]
  split_ifs
  · exact follows_of_same rfl rfl rfl
  · exact follows_of_same rfl rfl rfl
  · exact follows_of_same rfl rfl rfl
  · exact follows_of_same rfl rfl rfl
  · exact follows_of_same rfl rfl rfl
  · apply follows_unchecked <;> rfl

theorem handleProvideMissing_follows (i : Nat) (clientId : Int) (requestId : UInt32)
    (txs : List Bytes) : s.Follows e (s.handleProvideMissing i clientId requestId txs) := by
  rw [handleProvideMissing]
  split_ifs
  · exact follows_of_same rfl rfl rfl
  · split
    · exact follows_of_same rfl rfl rfl
    · split
      · exact follows_of_same rfl rfl rfl
      · dsimp only
        split
        · exact follows_of_same rfl rfl rfl
        · apply follows_unchecked
          · rfl
          · rfl
          · rfl
          · split_ifs <;> rfl

theorem handleAllocate_follows (conf : JdConf) (clientId : Int) (user : Bytes)
    (requestId : UInt32) (draw : Bytes) (now : Int) :
    s.Follows e (handleAllocate conf s clientId user requestId draw now) := by
  have hmint : ∀ (s' : JdState) (c : JdClient), s'.threads = s.threads →
      s'.coalesce = s.coalesce → s'.tip = s.tip →
      s.Follows e (mintToken conf s' c clientId user requestId draw now) := by
    intro s' c hthreads hcoalesce htip
    rw [mintToken]
    split_ifs <;> exact follows_of_same hthreads hcoalesce htip
  rw [handleAllocate]
  split
  · dsimp only
    split
    · split
      · exact follows_of_same rfl rfl rfl
      · exact hmint _ _ rfl rfl rfl
    · exact hmint _ _ rfl rfl rfl
  · exact follows_of_same rfl rfl rfl

/-- One try of checkBlock. -/
theorem tryLength_follows {inp : JdInput} {pend : JdPending} {thash : Hash256}
    {start : Int} {tries : List Nat} {assembled anyIpc : Bool} {reason : String}
    (hthread : s.threads i = .trying pend thash start tries assembled anyIpc reason) :
    s.Follows (.go i inp)
      (s.tryLength i pend thash start tries assembled anyIpc reason inp.verdict) := by
  have hself : s.Follows (.go i inp) s := follows_of_same rfl rfl rfl
  simp only [tryLength]
  split
  · exact hself.setThread (.unchecked _ rfl)
  · next enonceLen tries =>
      split
      · exact hself.setThread (.unchecked _ rfl)
      · next block hblock =>
          split
          · next hvalid =>
              -- the block is there only if there is a tip
              cases htip : s.tip with
              | none =>
                rw [htip, assembleCandidateBlock] at hblock
                cases hblock
              | some tip =>
                refine hself.setThread (.passes ⟨i, pend, tip, start⟩ thash enonceLen ?_ rfl)
                rw [htip] at hblock
                simp only [checking, hthread, htip, hvalid, hblock]
                rfl
          · split_ifs
            · exact hself.setThread (.unchecked _ rfl)
            · exact hself.setThread (.unchecked _ rfl)
          · exact hself.setThread (.unchecked _ rfl)
          · exact hself.setThread (.unchecked _ rfl)

theorem threadStep_follows (conf : JdConf) (i : Nat) (inp : JdInput) :
    s.Follows (.go i inp) (threadStep conf s i inp) := by
  have hself : s.Follows (.go i inp) s := follows_of_same rfl rfl rfl
  cases hthread : s.threads i with
  | idle =>
    simp only [threadStep, hthread]
    exact hself
  | rated clientId decl =>
    simp only [threadStep, hthread, declareToken]
    split <;> apply follows_unchecked <;> rfl
  | funded pend =>
    simp only [threadStep, hthread, declareTxs]
    split
    · apply follows_unchecked <;> rfl
    · split_ifs <;> apply follows_unchecked <;> rfl
  | requeue pend | validate pend | skipping pend | taken pend | marking clientId reply =>
    simp only [threadStep, hthread]
    apply follows_unchecked <;> rfl
  | hashed pend thash | rehashed pend thash =>
    simp only [threadStep, hthread]
    split <;> apply follows_unchecked <;> rfl
  | found pend thash | session pend | beginning pend | ending clientId reply ok =>
    simp only [threadStep, hthread]
    split_ifs <;> apply follows_unchecked <;> rfl
  | trying pend thash start tries assembled anyIpc reason =>
    simp only [threadStep, hthread]
    exact tryLength_follows hthread
  | passed pend thash start enonceUsed =>
    simp only [threadStep, hthread]
    exact hself.setThread (.accepts pend thash start enonceUsed inp hthread rfl)
  | accepting pend thash start enonceUsed tipStable =>
    simp only [threadStep, hthread]
    split
    · apply follows_unchecked <;> rfl
    · apply JdState.Follows.setThread
      · refine ⟨fun j => .stays, ?_, id⟩
        cases tipStable with
        | false => exact .keeps
        | true => exact .notes i pend thash start enonceUsed hthread
      · exact .unchecked _ rfl

/-- **What a step does**, as far as the cache is concerned. -/
theorem jdStep_follows (conf : JdConf) (s : JdState) (e : JdEvent) :
    s.Follows e (jdStep conf s e) := by
  cases e with
  | allocate clientId user requestId draw now => exact handleAllocate_follows conf _ _ _ _ _
  | declare i clientId decl now =>
    show s.Follows _ (ite _ _ _ : JdState)
    split_ifs
    · exact handleDeclare_follows i clientId decl now
    · exact follows_of_same rfl rfl rfl
  | provideMissing i clientId requestId txs =>
    show s.Follows _ (ite _ _ _ : JdState)
    split_ifs
    · exact handleProvideMissing_follows i clientId requestId txs
    · exact follows_of_same rfl rfl rfl
  | work i =>
    rw [jdStep]
    split
    · exact follows_of_same rfl rfl rfl
    · split_ifs
      · apply follows_unchecked <;> rfl
      · exact follows_of_same rfl rfl rfl
  | go i inp => exact threadStep_follows conf i inp
  | noteClient clientId => exact follows_of_same rfl rfl rfl
  | setup clientId => exact follows_of_same rfl rfl rfl
  | dropClient clientId => exact follows_of_same rfl rfl rfl
  | dropAll => exact follows_of_same rfl rfl rfl
  | newTip tip => exact ⟨fun j => .stays, .keeps, fun _ => rfl⟩
  | onTipChange => exact ⟨fun j => .stays, .clears, id⟩

end Follows

/-! ### Declares that are coalesced -/

/-- The previous hash of the tip is that of a check. -/
def OnTip (s : JdState) (k : JdChecked) : Prop := s.tip.map JdTip.prevHash = some k.tip.prevHash

/-- The declare a step coalesces is one that checkBlock accepted, on the current tip and
within the lifetime of an entry. -/
def CoalesceSound (h : JdHistory) (e : JdEvent) : Prop :=
  ∀ c ∈ coalescing h.jd e, ∃ k ∈ h.checked, k.pend.SameTemplate c.1 ∧ OnTip h.jd k ∧
    c.2 - k.start ≤ coalesceTtlSecs

/-- A thread that files the template it checked, while the tip is the one it hashed: the
tip was that one when checkBlock accepted. -/
def TipHeld (h : JdHistory) (i : Nat) : JdThread → Prop
  | .passed pend thash _ _ => templateHash h.jd.tip pend = thash →
      ∀ k ∈ h.lastCheck i, OnTip h.jd k
  | _ => True

/-- A thread that finds its template: the tip is the one it hashed, and a check of the
same bytes within the lifetime of an entry ended the parts of the coinbase at the same
places. -/
def KeySound (h : JdHistory) (now : Int) : JdThread → Prop
  | .rehashed pend thash => (h.jd.coalesce.lookup thash now).isSome →
      templateHash h.jd.tip pend = thash ∧
      ∀ k ∈ h.checked, now - k.start ≤ coalesceTtlSecs →
        templateBytes (some k.tip) k.pend = templateBytes h.jd.tip pend → k.pend.SameSplit pend
  | _ => True

/-- What a step must set aside for the cache to be sound. -/
def KeyStep (h : JdHistory) : JdEvent → Prop
  | .go i inp => TipHeld h i (h.jd.threads i) ∧ KeySound h inp.now (h.jd.threads i)
  | _ => True

/-- The bytes a step hashes are among `S`. -/
def HashesIn (S : Set Bytes) (h : JdHistory) : JdEvent → Prop
  | .go i _ => ∀ pend ∈ (h.jd.threads i).pend?, templateBytes h.jd.tip pend ∈ S
  | _ => True

instance (s : JdState) (k : JdChecked) : Decidable (OnTip s k) :=
  inferInstanceAs (Decidable (s.tip.map JdTip.prevHash = some k.tip.prevHash))

instance (h : JdHistory) (e : JdEvent) : Decidable (CoalesceSound h e) :=
  inferInstanceAs (Decidable (∀ c ∈ coalescing h.jd e, ∃ k ∈ h.checked,
    k.pend.SameTemplate c.1 ∧ OnTip h.jd k ∧ c.2 - k.start ≤ coalesceTtlSecs))

instance (h : JdHistory) (i : Nat) : ∀ t, Decidable (TipHeld h i t)
  | .passed pend thash _ _ => inferInstanceAs (Decidable (templateHash h.jd.tip pend = thash →
      ∀ k ∈ h.lastCheck i, OnTip h.jd k))
  | .idle | .rated .. | .funded _ | .requeue _ | .validate _ | .hashed .. | .found .. | .rehashed ..
  | .session _ | .skipping _ | .beginning _ | .taken _ | .trying .. | .accepting .. | .ending ..
  | .marking .. => isTrue trivial

instance (h : JdHistory) (now : Int) : ∀ t, Decidable (KeySound h now t)
  | .rehashed pend thash => inferInstanceAs (Decidable
      ((h.jd.coalesce.lookup thash now).isSome → templateHash h.jd.tip pend = thash ∧
        ∀ k ∈ h.checked, now - k.start ≤ coalesceTtlSecs →
          templateBytes (some k.tip) k.pend = templateBytes h.jd.tip pend → k.pend.SameSplit pend))
  | .idle | .rated .. | .funded _ | .requeue _ | .validate _ | .hashed .. | .found .. | .session _
  | .skipping _ | .beginning _ | .taken _ | .trying .. | .passed .. | .accepting .. | .ending ..
  | .marking .. => isTrue trivial

instance (h : JdHistory) : ∀ e, Decidable (KeyStep h e)
  | .go i inp => inferInstanceAs (Decidable
      (TipHeld h i (h.jd.threads i) ∧ KeySound h inp.now (h.jd.threads i)))
  | .noteClient _ | .setup _ | .allocate .. | .declare .. | .provideMissing .. | .work _
  | .dropClient _ | .dropAll | .newTip _ | .onTipChange => isTrue trivial

instance (b : Bytes) (h : JdHistory) : ∀ e, Decidable (HashesIn {b} h e)
  | .go i _ => inferInstanceAs (Decidable
      (∀ pend ∈ (h.jd.threads i).pend?, templateBytes h.jd.tip pend = b))
  | .noteClient _ | .setup _ | .allocate .. | .declare .. | .provideMissing .. | .work _
  | .dropClient _ | .dropAll | .newTip _ | .onTipChange => isTrue trivial

/-- A check that stands behind a hash: of this template, on its own tip. -/
def StandsBehind (S : Set Bytes) (k : JdChecked) (thash : Hash256) (start : Int) : Prop :=
  templateBytes (some k.tip) k.pend ∈ S ∧ templateHash (some k.tip) k.pend = thash ∧
    k.start = start

/-- What holds in every state: behind each entry of the cache, and behind each template
that is about to be filed, there is a check. -/
structure Coalesced (S : Set Bytes) (h : JdHistory) : Prop where
  tip : ∀ k ∈ h.checked, h.jd.tip.isSome
  passed : ∀ i pend thash start enonceUsed,
    h.jd.threads i = .passed pend thash start enonceUsed →
      ∃ k, h.lastCheck i = some k ∧ k.pend = pend ∧ k.start = start
  accepting : ∀ i pend thash start enonceUsed,
    h.jd.threads i = .accepting pend thash start enonceUsed true →
      ∃ k ∈ h.checked, StandsBehind S k thash start
  entries : ∀ c ∈ h.jd.coalesce.entries, ∃ k ∈ h.checked, StandsBehind S k c.thash c.created

variable {e : JdEvent} {k : JdChecked}

theorem checking_tip {s : JdState} (h : checking s e = some k) :
    s.tip = some k.tip := by
  cases e with
  | go i inp =>
    simp only [checking] at h
    split at h
    · next tip _ _ htip _ =>
        obtain ⟨block, -, rfl⟩ := Option.map_eq_some_iff.mp h
        exact htip
    · cases h
  | _ => cases h

variable {h : JdHistory}

theorem mem_checked_step {conf : JdConf} :
    k ∈ (h.step conf e).checked ↔ checking h.jd e = some k ∨ k ∈ h.checked := by
  rw [JdHistory.step, List.mem_append, Option.mem_toList]

theorem lastCheck_mem (hk : h.lastCheck i = some k) :
    k ∈ h.checked :=
  List.mem_of_find?_eq_some hk

/-- The check of a step is the latest of its thread. -/
theorem lastCheck_step (conf : JdConf)
    (hk : checking h.jd e = some k) : (h.step conf e).lastCheck k.thread = some k := by
  rw [JdHistory.lastCheck, JdHistory.step, hk]
  simp

/-- A thread that is not where it is checked keeps its latest check. -/
theorem lastCheck_step_of_ne (conf : JdConf) (hne : ∀ k, checking h.jd e = some k → k.thread ≠ i) :
    (h.step conf e).lastCheck i = h.lastCheck i := by
  rw [JdHistory.lastCheck, JdHistory.step]
  cases hk : checking h.jd e with
  | none => rfl
  | some k =>
    show List.find? _ (k :: h.checked) = _
    rw [List.find?_cons_of_neg (by simpa using hne k hk)]
    rfl

/-- The thread of a check is before checkBlock. -/
theorem checking_thread {s : JdState} (h : checking s e = some k) :
    (s.threads k.thread).checked = false := by
  cases e with
  | go i inp =>
    simp only [checking] at h
    split at h
    · next hthread _ _ =>
        obtain ⟨block, -, rfl⟩ := Option.map_eq_some_iff.mp h
        show (s.threads i).checked = false
        rw [hthread]
        rfl
    · cases h
  | _ => cases h

/-- **A step keeps the checks behind the entries.** -/
theorem Coalesced.step {S : Set Bytes} {conf : JdConf} (hc : Coalesced S h)
    (he : HashesIn S h e ∧ KeyStep h e) : Coalesced S (h.step conf e) := by
  have hfollows := jdStep_follows conf h.jd e
  have hkept : ∀ thash start, (∃ k ∈ h.checked, StandsBehind S k thash start) →
      ∃ k ∈ (h.step conf e).checked, StandsBehind S k thash start :=
    fun thash start ⟨k, hk, hstands⟩ => ⟨k, mem_checked_step.mpr (Or.inr hk), hstands⟩
  constructor
  case tip =>
    intro k hk
    apply hfollows.tip
    rcases mem_checked_step.mp hk with hnew | hold
    · rw [checking_tip hnew]
      rfl
    · exact hc.tip k hold
  case passed =>
    intro i pend thash start enonceUsed hthread
    have hmoves := hfollows.threads i
    rw [show (jdStep conf h.jd e).threads i = _ from hthread] at hmoves
    generalize ht : JdThread.passed pend thash start enonceUsed = t at hmoves
    cases hmoves with
    | stays =>
      rw [lastCheck_step_of_ne conf]
      · exact hc.passed i pend thash start enonceUsed ht.symm
      · rintro k hk rfl
        have hbefore := checking_thread hk
        rw [← ht] at hbefore
        cases hbefore
    | unchecked _ hbefore =>
      rw [← ht] at hbefore
      cases hbefore
    | passes k thash' enonceUsed' hk hi =>
      cases ht
      refine ⟨k, ?_, rfl, rfl⟩
      rw [← hi]
      exact lastCheck_step conf hk
    | accepts => cases ht
  case accepting =>
    intro i pend thash start enonceUsed hthread
    have hmoves := hfollows.threads i
    rw [show (jdStep conf h.jd e).threads i = _ from hthread] at hmoves
    generalize ht : JdThread.accepting pend thash start enonceUsed true = t at hmoves
    cases hmoves with
    | stays => exact hkept _ _ (hc.accepting i pend thash start enonceUsed ht.symm)
    | unchecked _ hbefore =>
      rw [← ht] at hbefore
      cases hbefore
    | passes => cases ht
    | accepts pend' thash' start' enonceUsed' inp hpassed hgo =>
      -- the template is filed: the tip is the one that was hashed
      injection ht with hpend hthash hstart hused hstable
      subst hpend hthash hstart hused hgo
      have hhash : templateHash h.jd.tip pend = thash := of_decide_eq_true hstable.symm
      obtain ⟨k, hlast, rfl, rfl⟩ := hc.passed i _ _ _ _ hpassed
      obtain ⟨hin, hheld, -⟩ := he
      dsimp only [HashesIn] at hin
      rw [hpassed] at hin hheld
      have htips : h.jd.tip.map JdTip.prevHash = (some k.tip).map JdTip.prevHash :=
        hheld hhash k hlast
      have hbytes := templateBytes_congr htips k.pend
      refine hkept _ _ ⟨k, lastCheck_mem hlast, ?_, ?_, rfl⟩
      · rw [← hbytes]
        exact hin k.pend rfl
      · rw [templateHash, ← hbytes]
        exact hhash
  case entries =>
    intro c hmem
    have hfiles := hfollows.coalesce
    generalize hcache : (jdStep conf h.jd e).coalesce = cache at hfiles
    rw [show (h.step conf e).jd.coalesce = cache from hcache] at hmem
    cases hfiles with
    | keeps => exact hkept _ _ (hc.entries c hmem)
    | clears => cases hmem
    | notes i pend thash start enonceUsed hthread =>
      rcases CoalesceCache.mem_note hmem with hmem | ⟨rfl, rfl⟩
      · exact hkept _ _ (hc.entries c hmem)
      · exact hkept _ _ (hc.accepting i _ _ _ _ hthread)

theorem coalesced_start (S : Set Bytes) : Coalesced S .start where
  tip k hk := absurd hk List.not_mem_nil
  passed i pend thash start enonceUsed h := by cases h
  accepting i pend thash start enonceUsed h := by cases h
  entries c hc := absurd hc List.not_mem_nil

/-- A declare that is coalesced was found in the cache. -/
theorem coalescing_eq_some {s : JdState} {c : JdPending × Int}
    (h : coalescing s e = some c) : ∃ i inp thash enonceUsed, e = .go i inp ∧
      s.threads i = .rehashed c.1 thash ∧ c.2 = inp.now ∧
      s.coalesce.lookup thash inp.now = some enonceUsed := by
  cases e with
  | go i inp =>
    simp only [coalescing] at h
    split at h
    · next pend thash hthread =>
        obtain ⟨enonceUsed, hlookup, h⟩ := Option.bind_eq_some_iff.mp h
        split at h
        · cases h
        · cases h
          exact ⟨i, inp, thash, enonceUsed, rfl, hthread, rfl, hlookup⟩
    · cases h
  | _ => cases h

/-- Behind a declare that is coalesced there is a check of it. -/
theorem Coalesced.sound {S : Set Bytes} (hinj : Set.InjOn genHash S)
    (hc : Coalesced S h) (he : HashesIn S h e ∧ KeyStep h e) :
    CoalesceSound h e := by
  rintro ⟨pend, now⟩ hcoal
  obtain ⟨i, inp, thash, enonceUsed, rfl, hthread, hnow, hlookup⟩ := coalescing_eq_some hcoal
  dsimp only at hthread hnow
  obtain ⟨hin, -, hkey⟩ := he
  dsimp only [HashesIn] at hin
  rw [hthread] at hin hkey
  obtain ⟨htip, hsplit⟩ := hkey (by rw [hlookup]; rfl)
  obtain ⟨entry, hentry, rfl, hfresh⟩ := CoalesceCache.lookup_eq_some hlookup
  obtain ⟨k, hk, hkin, hkhash, hkstart⟩ := hc.entries entry hentry
  -- the two templates hash alike, and so they are the same bytes
  have hbytes : templateBytes (some k.tip) k.pend = templateBytes h.jd.tip pend :=
    hinj hkin (hin pend rfl) (hkhash.trans htip.symm)
  have hlife : inp.now - k.start ≤ coalesceTtlSecs := by
    rw [hkstart]
    exact hfresh
  refine ⟨k, hk, templateBytes_sameTemplate hbytes (hsplit k hk hlife hbytes), ?_, ?_⟩
  · obtain ⟨-, hprev, -⟩ := templateBytes_parts hbytes
    obtain ⟨tip, hsome⟩ := Option.isSome_iff_exists.mp (hc.tip k hk)
    rw [hsome] at hprev
    rw [OnTip, hsome, Option.map_some, Hash256.ext (show k.tip.prevHash.bytes = _ from hprev)]
  · rw [hnow]
    exact hlife

/-- **A declare that is coalesced was checked**, on the current tip and within the
lifetime of an entry, in every run in which the hash has no collision, a tip that moves
during a check stays away, and no two templates of the same bytes are split at different
places. -/
theorem coalesced_was_checked (conf : JdConf) (S : Set Bytes) (hinj : Set.InjOn genHash S)
    (events : List JdEvent) (hhashes : Along (JdHistory.step conf) (HashesIn S) .start events)
    (hkey : Along (JdHistory.step conf) KeyStep .start events) :
    Along (JdHistory.step conf) CoalesceSound .start events :=
  along_of_invariant (fun _ _ he hc => hc.step he) (fun _ _ he hc => hc.sound hinj he)
    (hhashes.and hkey) (coalesced_start S)

/-! ### Runs of two clients -/

/-- A shared pool whose coinbases have to pay `51`. -/
def coalescePool : JdConf where
  ck := { longCk with btcsolo := false }
  btcaddressScript := some PayoutScript.opTrue
  accountScript := fun _ => none

/-- A transaction of one input and one output. -/
def coalesceTx : Bytes :=
  [2, 0, 0, 0, 1] ++ nullPrevout ++ [0, 0xff, 0xff, 0xff, 0xff, 1] ++
    [1, 0, 0, 0, 0, 0, 0, 0, 1, 0x51] ++ [0, 0, 0, 0]

/-- A declare whose coinbase pays the pool; behind its outputs may stand anything. -/
def coalesceDeclare (token behind : Bytes) (wtxidList : List Hash256) : DeclareMiningJob where
  requestId := 1
  token := token
  version := 0x20000000
  coinbaseTxPrefix := [2, 0, 0, 0, 1] ++ nullPrevout ++ [20, 3, 1, 2, 3]
  coinbaseTxSuffix := [0xff, 0xff, 0xff, 0xff] ++ [1, 1, 0, 0, 0, 0, 0, 0, 0, 1, 0x51] ++
    [0, 0, 0, 0] ++ behind
  wtxidList := wtxidList

/-- The tip of the runs. -/
def coalesceTip : JdTip where
  version := 0x20000000
  ntime := 1700000000
  nbits := 0x207fffff
  prevHash := .zero
  height := 0

/-- What the threads are given; checkBlock finds nothing wrong. -/
def coalesceInput : JdInput where
  now := 1
  draws := []
  verdict := .valid

/-- Client 1 declares a template of one transaction, which it sends when it is asked for
it, and checkBlock accepts it.  Client 2 declares another template. -/
def coalesceRun (decl : DeclareMiningJob) : List JdEvent :=
  [.newTip coalesceTip, .setup 1, .allocate 1 [] 0 [9] 1,
    .declare 0 1 (coalesceDeclare [9] [] [genHash coalesceTx]) 1] ++
    List.replicate 2 (.go 0 coalesceInput) ++ [.provideMissing 0 1 1 [coalesceTx]] ++
    List.replicate 4 (.go 0 coalesceInput) ++ [.work 0] ++
    List.replicate 6 (.go 0 coalesceInput) ++
    [.setup 2, .allocate 2 [] 0 [8] 1, .declare 1 2 decl 1] ++
    List.replicate 6 (.go 1 coalesceInput)

/-- The bytes of the template of client 1. -/
def coalesceBytes : Bytes :=
  templateBytes (some coalesceTip) (pendingOf 1 (coalesceDeclare [9] [] [genHash coalesceTx]) 1)

/-- Client 2 declares the template of client 1. -/
def sameRun : List JdEvent := coalesceRun (coalesceDeclare [8] [] [genHash coalesceTx])

/-- Client 2 declares a block without transactions; what client 1 listed as a transaction
stands behind its coinbase. -/
def otherSplitRun : List JdEvent := coalesceRun (coalesceDeclare [8] (genHash coalesceTx).bytes [])

example : templateBytes (some coalesceTip)
    (pendingOf 2 (coalesceDeclare [8] (genHash coalesceTx).bytes []) 1) = coalesceBytes := by
  decide +kernel

/-- The same template is coalesced, and it was checked. -/
theorem coalesced_was_checked_same :
    Along (JdHistory.step coalescePool) CoalesceSound .start sameRun := by
  have hsteps : Along (JdHistory.step coalescePool)
      (fun h e => HashesIn {coalesceBytes} h e ∧ KeyStep h e) .start sameRun := by decide +kernel
  exact coalesced_was_checked coalescePool {coalesceBytes} (Set.injOn_singleton _ _) sameRun
    (hsteps.imp fun _ _ h => h.1) (hsteps.imp fun _ _ h => h.2)

/-- A declare that was not checked is coalesced, though the run hashes the bytes of one
template only. -/
theorem other_split_coalesced :
    Along (JdHistory.step coalescePool) (HashesIn {coalesceBytes}) .start otherSplitRun ∧
      ¬ Along (JdHistory.step coalescePool) CoalesceSound .start otherSplitRun := by
  decide +kernel

end CashStratum
