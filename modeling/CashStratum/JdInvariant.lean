/-
CashStratum/JdInvariant.lean

What holds of the job declarator in every state of every run (`sv2_jd.c`).

Always: a step keeps the declared tokens, unless it frees them (`jdStep_keeps`), and a
declared token has every transaction of its block (`jdStep_complete`).

In a shared pool: every coinbase a token can rebuild pays the pool only, and so does
every declare on its way to a token (`jdStep_shared`).  The payout check is another
parser than the one that rebuilds, and the length it was made for is another than the
one recorded, so this takes the condition that a declare which is bound to a token
sets those differences aside (`BindsSound`).
-/
import CashStratum.JdRun

namespace CashStratum

open JdState

/-! ### Declared tokens -/

/-- The operations beside the acceptance of a declare keep the declared tokens. -/
theorem tableClosed_keeps (conf : JdConf) (tb : JdTable) : TableClosed conf tb.Keeps where
  expire tb' now h := h.trans (tb'.keeps_expire now)
  refresh tb' t now _ h := h.trans (tb'.keeps_refresh t now)
  makeRoom tb' h := h.trans tb'.keeps_makeRoom
  mint tb' _ _ _ _ _ h := h.trans (tb'.keeps_addToken _)
  dropClient tb' clientId h := h.trans (tb'.keeps_dropClient clientId)
  dropAll tb' h := h.trans tb'.keeps_dropAll

variable {s : JdState}

/-- What is accepted is a declare of a thread, and `token_accept_declare_locked` says what
comes of it. -/
theorem accepting_result {e : JdEvent} {pend : JdPending} {enonceUsed : Nat}
    {r : AcceptResult} (h : accepting s e = some (pend, enonceUsed, r)) :
    (∃ draws now, r = s.tokenAcceptDeclare pend enonceUsed draws now) ∧
      ∃ i, (s.threads i).pend? = some pend := by
  cases e with
  | go i inp =>
    cases hthread : s.threads i with
    | rehashed pend' thash =>
      simp only [accepting, hthread, Option.map_eq_some_iff, Prod.mk.injEq] at h
      obtain ⟨enonceUsed', -, rfl, rfl, rfl⟩ := h
      exact ⟨⟨_, _, rfl⟩, i, by rw [hthread]; rfl⟩
    | skipping pend' | accepting pend' thash start enonceUsed' tipStable =>
      simp only [accepting, hthread, Option.some.injEq, Prod.mk.injEq] at h
      obtain ⟨rfl, rfl, rfl⟩ := h
      exact ⟨⟨_, _, rfl⟩, i, by rw [hthread]; rfl⟩
    | _ => simp only [accepting, hthread, reduceCtorEq] at h
  | _ => simp only [accepting, reduceCtorEq] at h

/-- What is accepted is accepted from the table after the expiry. -/
theorem accepting_accepts {e : JdEvent} {pend : JdPending} {enonceUsed : Nat}
    {r : AcceptResult} (h : accepting s e = some (pend, enonceUsed, r)) :
    ∃ now, JdTable.Accepts (s.table.expire now) pend (pend.fillFromCache s.txCache) enonceUsed now r
      ∧ ∃ i, (s.threads i).pend? = some pend := by
  obtain ⟨⟨draws, now, rfl⟩, hthread⟩ := accepting_result h
  exact ⟨now, s.table.acceptDeclare_accepts pend _ enonceUsed draws now, hthread⟩

/-- **A step keeps the declared tokens**, with their material, unless it frees them. -/
theorem jdStep_keeps (conf : JdConf) (s : JdState) (e : JdEvent) :
    s.table.Keeps (jdStep conf s e).table := by
  refine jdStep_table (tableClosed_keeps conf s.table) e ?_ (.refl s.table)
  intro pend enonceUsed r haccepting
  obtain ⟨now, haccepts, -⟩ := accepting_accepts haccepting
  exact (s.table.keeps_expire now).trans haccepts.keeps

/-! ### Properties of the tokens -/

variable {conf : JdConf}

/-- A property of tokens is kept by the operations that make no declared token, if it
holds of the tokens that an allocation mints. -/
theorem tableClosed_allTokens {P : Option Bytes → Option JdMaterial → Prop}
    (hmint : ∀ user, P ((allocateScript conf user).map PayoutScript.bin) none) :
    TableClosed conf (JdTable.AllTokens P) where
  expire _ _ h := h.freeWhere _ _
  refresh _ _ now ht h := h.refresh ht now
  makeRoom _ h := h.evictWhileFull _
  mint _ token clientId user now _ h := h.addToken (by
    show P (firstOutputScript (buildAllocateOutputs conf user)) none
    rw [firstOutputScript_buildAllocateOutputs]
    exact hmint user)
  dropClient _ _ h := h.freeWhere _ _
  dropAll _ h := h.freeWhere _ _

/-- **A step keeps a property of the tokens** that an allocation establishes and that a
declare keeps when it is bound. -/
theorem jdStep_allTokens {P : Option Bytes → Option JdMaterial → Prop}
    (hmint : ∀ user, P ((allocateScript conf user).map PayoutScript.bin) none) (e : JdEvent)
    (hbind : ∀ pend enonceUsed tb token, accepting s e = some (pend, enonceUsed, .installed tb token) →
      ∀ payout old pend', P payout old →
        pend' = pend ∨ pend.fillFromCache s.txCache = some pend' → pend'.txsComplete = true →
        P payout (some (pend'.material enonceUsed)))
    (h : s.table.AllTokens P) : (jdStep conf s e).table.AllTokens P := by
  refine jdStep_table (tableClosed_allTokens hmint) e ?_ h
  intro pend enonceUsed r haccepting
  obtain ⟨now, haccepts, -⟩ := accepting_accepts haccepting
  refine haccepts.allTokens (h.freeWhere _ _) ?_
  rintro ⟨tb, token, rfl⟩
  exact hbind pend enonceUsed tb token haccepting

/-! ### Transactions are at hand -/

/-- No slot holds an empty transaction. -/
def JdPending.SlotsNonempty (pend : JdPending) : Prop := ∀ raw, some raw ∈ pend.txRaws → raw ≠ []

/-- No entry of the cache is empty. -/
def TxCache.Nonempty (cache : TxCache) : Prop := ∀ entry ∈ cache.entries, entry.2 ≠ []

section Held

/-- Every transaction in the slots satisfies `P`. -/
def JdPending.Slots (P : Bytes → Prop) (pend : JdPending) : Prop :=
  ∀ raw, some raw ∈ pend.txRaws → P raw

/-- Every transaction in the cache satisfies `P`. -/
def TxCache.All (P : Bytes → Prop) (cache : TxCache) : Prop := ∀ entry ∈ cache.entries, P entry.2

variable {P : Bytes → Prop} {cache : TxCache} {pend pend' : JdPending}

theorem TxCache.All.get (h : cache.All P) {wtxid : Hash256} {raw : Bytes}
    (hget : cache.get wtxid = some raw) : P raw := by
  obtain ⟨entry, hfind, rfl⟩ := Option.map_eq_some_iff.mp hget
  exact h entry (List.mem_of_find?_eq_some hfind)

theorem TxCache.All.makeRoom (h : cache.All P) (len n : Nat) :
    (TxCache.makeRoom len n cache).All P := by
  induction n generalizing cache with
  | zero => exact h
  | succ n ih =>
    rw [TxCache.makeRoom]
    split_ifs
    · exact ih fun entry hentry => h entry (List.mem_of_mem_drop hentry)
    · exact h

theorem TxCache.All.put (h : cache.All P) {raw : Bytes} (hraw : raw ≠ [] → P raw) :
    (cache.put raw).All P := by
  rw [TxCache.put]
  split_ifs with hempty
  · exact h
  · exact h
  · dsimp only
    have hroom := h.makeRoom raw.length cache.entries.length
    split_ifs
    · exact hroom
    · intro entry hentry
      rcases List.mem_append.mp hentry with hentry | hentry
      · exact hroom entry hentry
      · rw [List.mem_singleton.mp hentry]
        exact hraw hempty

theorem FillSlots.held {lookup : Hash256 → Option Bytes}
    (hlookup : ∀ wtxid raw, lookup wtxid = some raw → P raw) {wtxids : List Hash256}
    {slots slots' : List (Option Bytes)} {txBytes txBytes' : Nat}
    (h : FillSlots lookup wtxids slots txBytes slots' txBytes')
    (hslots : ∀ raw, some raw ∈ slots → P raw) : ∀ raw, some raw ∈ slots' → P raw := by
  induction h with
  | short => exact hslots
  | fill hfound hadd hrest ih =>
    intro raw hraw
    rcases List.mem_cons.mp hraw with heq | hmem
    · exact hlookup _ raw (by rw [hfound, heq])
    · exact ih (fun raw h => hslots raw (List.mem_cons_of_mem _ h)) raw hmem
  | keep wtxid slot hrest ih =>
    intro raw hraw
    rcases List.mem_cons.mp hraw with heq | hmem
    · exact hslots raw (heq ▸ List.mem_cons_self)
    · exact ih (fun raw h => hslots raw (List.mem_cons_of_mem _ h)) raw hmem

theorem JdPending.Slots.fill (h : pend.Slots P) {lookup : Hash256 → Option Bytes}
    (hlookup : ∀ wtxid raw, lookup wtxid = some raw → P raw)
    (hfill : pend.fill lookup = some pend') : pend'.Slots P := by
  obtain ⟨⟨txRaws, txBytes⟩, hslots, heq⟩ := Option.bind_eq_some_iff.mp hfill
  rw [← Option.some.inj heq]
  exact (fillSlots_spec hslots).held hlookup h

theorem JdPending.Slots.fillFromCache (h : pend.Slots P) (hcache : cache.All P)
    (hfill : pend.fillFromCache cache = some pend') : pend'.Slots P :=
  h.fill (fun _ _ hget => hcache.get hget) hfill

/-- Storing the transactions of a client puts them and no others anywhere. -/
theorem storeMatchingTxs_held {txs : List Bytes} (htxs : ∀ raw ∈ txs, raw ≠ [] → P raw)
    (hcache : cache.All P) (hpend : pend.Slots P) :
    (pend.storeMatchingTxs cache txs).1.All P ∧
      ∀ pend', (pend.storeMatchingTxs cache txs).2 = some pend' → pend'.Slots P := by
  refine JdPending.storeMatchingTxs_rule (fun _ raw hmem _ h => h.put (htxs raw hmem)) ?_
    hcache hpend
  intro pend pend' raw hmem hraw h hfill
  refine h.fill (fun wtxid raw' hraw' => ?_) hfill
  split_ifs at hraw'
  rw [← Option.some.inj hraw']
  exact htxs raw hmem hraw

end Held

/-- A declared token has every transaction of its block, and nothing on the way to one
is empty. -/
structure JdComplete (s : JdState) : Prop where
  tokens : s.table.AllTokens fun _ m => ∀ m', m = some m' → m'.snapshot.isSome
  carried : s.Carried JdPending.SlotsNonempty
  cache : s.txCache.Nonempty

/-- A complete declare without empty slots can be rebuilt. -/
theorem snapshot_isSome {pend : JdPending} (hcomplete : pend.txsComplete = true)
    (hslots : pend.SlotsNonempty) (enonceUsed : Nat) :
    (pend.material enonceUsed).snapshot.isSome := by
  have hmapM : ∀ slots : List (Option Bytes), slots.all Option.isSome = true →
      ∃ txs, slots.mapM id = some txs ∧ slots = txs.map some := by
    intro slots
    induction slots with
    | nil => exact fun _ => ⟨[], rfl, rfl⟩
    | cons slot slots ih =>
      intro hall
      rw [List.all_cons, Bool.and_eq_true] at hall
      obtain ⟨raw, rfl⟩ := Option.isSome_iff_exists.mp hall.1
      obtain ⟨txs, htxs, rfl⟩ := ih hall.2
      refine ⟨raw :: txs, ?_, rfl⟩
      rw [List.mapM_cons, htxs]
      rfl
  obtain ⟨txs, htxs, hslots'⟩ := hmapM pend.txRaws hcomplete
  have hany : txs.any List.isEmpty = false := by
    rw [List.any_eq_false]
    intro raw hraw hempty
    have hmem : some raw ∈ pend.txRaws := hslots' ▸ List.mem_map_of_mem hraw
    exact hslots raw hmem (List.isEmpty_iff.mp hempty)
  rw [JdMaterial.snapshot, show (pend.material enonceUsed).txRaws = pend.txRaws from rfl, htxs,
    Option.bind_some, hany]
  rfl

/-- Every declare on its way may be filled from the cache. -/
theorem carryClosed_slotsNonempty (conf : JdConf) (hcache : s.txCache.Nonempty) :
    CarryClosed conf JdPending.SlotsNonempty s where
  fill _ _ hp hfill := JdPending.Slots.fillFromCache (P := fun raw => raw ≠ []) hp hcache hfill
  store p p' _ txs hp hstore :=
    (storeMatchingTxs_held (fun _ _ hraw => hraw) hcache hp).2 p' (by rw [hstore])
  new clientId decl now _ raw hraw := by
    have hslot := List.eq_of_mem_replicate (show some raw ∈ List.replicate _ none from hraw)
    cases hslot

/-- **The cache rule.**  A property of the cache that storing the transactions of an event
keeps is kept by the step. -/
theorem jdStep_txCache {C : TxCache → Prop} (conf : JdConf) (e : JdEvent)
    (hstore : ∀ pend ∈ s.pending, C (pend.storeMatchingTxs s.txCache e.transactions).1)
    (h : C s.txCache) : C (jdStep conf s e).txCache := by
  cases e with
  | allocate clientId user requestId draw now =>
    show C (handleAllocate conf s clientId user requestId draw now).txCache
    have hmint : ∀ (s' : JdState) (c : JdClient),
        (mintToken conf s' c clientId user requestId draw now).txCache = s'.txCache := by
      intro s' c
      rw [mintToken]
      split_ifs <;> rfl
    rw [handleAllocate]
    split
    · dsimp only
      split
      · split
        · exact h
        · rw [hmint]
          exact h
      · rw [hmint]
        exact h
    · exact h
  | declare i clientId decl now =>
    show C (ite _ _ _ : JdState).txCache
    split_ifs
    · simp only [handleDeclare]
      split_ifs <;> exact h
    · exact h
  | provideMissing i clientId requestId txs =>
    show C (ite _ _ _ : JdState).txCache
    split_ifs
    · rw [handleProvideMissing]
      split_ifs
      · exact h
      · split
        · exact h
        · split
          · exact h
          · next pend hpend =>
              have hstored := hstore pend (List.mem_of_getElem? hpend)
              dsimp only
              split <;> exact hstored
    · exact h
  | work i =>
    rw [jdStep]
    split
    · exact h
    · split_ifs <;> exact h
  | go i inp =>
    show C (threadStep conf s i inp).txCache
    rw [(threadStep_frame conf s i inp).1]
    exact h
  | noteClient clientId => exact h
  | setup clientId => exact h
  | dropClient clientId => exact h
  | dropAll => exact h
  | newTip tip => exact h
  | onTipChange => exact h

theorem jdStep_cache (conf : JdConf) (h : JdComplete s) (e : JdEvent) :
    (jdStep conf s e).txCache.Nonempty :=
  jdStep_txCache conf e
    (fun pend hpend =>
      (storeMatchingTxs_held (fun _ _ hraw => hraw) h.cache (h.carried.pending pend hpend)).1)
    h.cache

/-- **A declared token has every transaction of its block.** -/
theorem jdStep_complete (conf : JdConf) (h : JdComplete s) (e : JdEvent) :
    JdComplete (jdStep conf s e) where
  tokens := by
    refine jdStep_allTokens (fun _ _ hnone => by cases hnone) e ?_ h.tokens
    rintro pend enonceUsed tb token haccepting payout old pend' - hpend' hcomplete m ⟨⟩
    obtain ⟨-, -, i, hi⟩ := accepting_accepts haccepting
    have hslots : pend.SlotsNonempty := h.carried.threads i pend hi
    refine snapshot_isSome hcomplete ?_ enonceUsed
    rcases hpend' with rfl | hfill
    · exact hslots
    · exact JdPending.Slots.fillFromCache (P := fun raw => raw ≠ []) hslots h.cache hfill
  carried := jdStep_carried (carryClosed_slotsNonempty conf h.cache) h.carried e
  cache := jdStep_cache conf h e

theorem jdComplete_start : JdComplete .start where
  tokens := fun t ht => absurd ht List.not_mem_nil
  carried := ⟨fun p hp => absurd hp List.not_mem_nil, fun p hp => absurd hp List.not_mem_nil,
    fun i p hp => by cases hp⟩
  cache := fun entry hentry => absurd hentry List.not_mem_nil

/-! ### What a shared pool pays -/

/-- The payout script is the pool's, and every coinbase the material can rebuild pays
that script only. -/
def PaysPool (conf : JdConf) (payout : Option Bytes) (m : Option JdMaterial) : Prop :=
  payout = conf.btcaddressScript.map PayoutScript.bin ∧
    ∀ m', m = some m' → ∃ script, payout = some script ∧ ∀ e, e.length = m'.enonceLen →
      PaysOnly script (declaredCoinbase m'.coinbaseTxPrefix e m'.coinbaseTxSuffix)

/-- The declare passed the payout check, for the script of the pool. -/
def FundsPool (conf : JdConf) (pend : JdPending) : Prop :=
  ∃ script tipHeight, conf.btcaddressScript = some script ∧
    declareFunds conf.ck tipHeight script.bin pend.coinbaseTxPrefix pend.coinbaseTxSuffix = true

theorem FundsPool.sameDeclare {pend pend' : JdPending} (h : FundsPool conf pend)
    (hsame : pend.SameDeclare pend') : FundsPool conf pend' := by
  rw [FundsPool, hsame.coinbaseTxPrefix, hsame.coinbaseTxSuffix]
  exact h

/-- The tokens and the declares of a shared pool. -/
structure JdShared (conf : JdConf) (s : JdState) : Prop where
  tokens : s.table.AllTokens (PaysPool conf)
  carried : s.Carried (FundsPool conf)

/-- The declare that a step binds to a token, with the length it records. -/
def binds (s : JdState) (e : JdEvent) : Option (JdPending × Nat) :=
  (accepting s e).bind fun
    | (pend, enonceUsed, .installed _ _) => some (pend, enonceUsed)
    | _ => none

/-- A declare that the step binds to a token sets aside the differences between the
payout check and the walker, for the length it records. -/
def BindsSound (conf : JdConf) (s : JdState) (e : JdEvent) : Prop :=
  ∀ b ∈ binds s e, ∀ script ∈ conf.btcaddressScript,
    DeclaredSound script.bin b.1.coinbaseTxPrefix b.1.coinbaseTxSuffix b.2

instance (conf : JdConf) (s : JdState) (e : JdEvent) : Decidable (BindsSound conf s e) :=
  inferInstanceAs (Decidable (∀ b ∈ binds s e, ∀ script ∈ conf.btcaddressScript,
    DeclaredSound script.bin b.1.coinbaseTxPrefix b.1.coinbaseTxSuffix b.2))

/-- A declare that passed the check pays the pool only, if it is sound. -/
theorem FundsPool.paysOnly (hshared : conf.ck.btcsolo = false) {pend : JdPending}
    (h : FundsPool conf pend) {recorded : Nat}
    (hsound : ∀ script, conf.btcaddressScript = some script →
      DeclaredSound script.bin pend.coinbaseTxPrefix pend.coinbaseTxSuffix recorded) :
    ∃ script, conf.btcaddressScript = some script ∧ ∀ e, e.length = recorded →
      PaysOnly script.bin (declaredCoinbase pend.coinbaseTxPrefix e pend.coinbaseTxSuffix) := by
  obtain ⟨script, tipHeight, hscript, hfunds⟩ := h
  have hdeclared := hsound script hscript
  rw [declareFunds, hdeclared.derived] at hfunds
  exact ⟨script, hscript, hdeclared.paysOnly hshared (List.ne_nil_of_length_pos script.len_pos)
    hfunds⟩

/-- The payout check of a declare, against the script of its token. -/
theorem fundsPool_new (hshared : conf.ck.btcsolo = false)
    (h : s.table.AllTokens (PaysPool conf)) {clientId : Int} {decl : DeclareMiningJob}
    (hok : declareTokenError conf s clientId decl = none) (now : Int) :
    FundsPool conf (pendingOf clientId decl now) := by
  rw [declareTokenError] at hok
  split at hok
  · cases hok
  · next tok hfind =>
      by_cases hclient : tok.clientId ≠ clientId
      · rw [if_pos hclient] at hok
        cases hok
      rw [if_neg hclient] at hok
      obtain ⟨hpayout, -⟩ := h tok (JdTable.findToken_mem hfind)
      split at hok
      · next script hscript =>
          rw [hscript] at hpayout
          obtain ⟨pool, hpool, rfl⟩ := Option.map_eq_some_iff.mp hpayout.symm
          refine ⟨pool, s.tipHeight, hpool, ?_⟩
          split_ifs at hok with hfunds
          exact hfunds
      · rw [hshared] at hok
        cases hok

theorem carryClosed_fundsPool (hshared : conf.ck.btcsolo = false)
    (h : s.table.AllTokens (PaysPool conf)) : CarryClosed conf (FundsPool conf) s where
  fill _ _ hp hfill := hp.sameDeclare (JdPending.sameDeclare_fill hfill)
  store _ _ _ _ hp hstore := hp.sameDeclare (JdPending.sameDeclare_storeMatchingTxs hstore)
  new _ _ now hok := fundsPool_new hshared h hok now

/-- **The coinbases of a shared pool pay the pool**, if the declares that are bound to
tokens are sound. -/
theorem jdStep_shared (hshared : conf.ck.btcsolo = false)
    (h : JdShared conf s) {e : JdEvent} (hsound : BindsSound conf s e) :
    JdShared conf (jdStep conf s e) where
  tokens := by
    have hmint : ∀ user, PaysPool conf ((allocateScript conf user).map PayoutScript.bin) none := by
      intro user
      refine ⟨?_, fun m hm => by cases hm⟩
      simp only [allocateScript, hshared, Bool.false_eq_true, if_false]
    refine jdStep_allTokens hmint e ?_ h.tokens
    · rintro pend enonceUsed tb token haccepting payout old pend' ⟨hpayout, -⟩ hpend' -
      refine ⟨hpayout, ?_⟩
      rintro m ⟨⟩
      obtain ⟨-, -, i, hi⟩ := accepting_accepts haccepting
      have hbinds : binds s e = some (pend, enonceUsed) := by
        rw [binds, haccepting]
        rfl
      obtain ⟨script, hscript, hpays⟩ := (h.carried.threads i pend hi).paysOnly hshared
        (hsound (pend, enonceUsed) hbinds)
      have hsame : pend.SameDeclare pend' := by
        rcases hpend' with rfl | hfill
        · exact .refl _
        · exact JdPending.sameDeclare_fill hfill
      refine ⟨script.bin, by rw [hpayout, hscript]; rfl, ?_⟩
      show ∀ e : Bytes, e.length = enonceUsed →
        PaysOnly script.bin (declaredCoinbase pend'.coinbaseTxPrefix e pend'.coinbaseTxSuffix)
      rw [hsame.coinbaseTxPrefix, hsame.coinbaseTxSuffix]
      exact hpays
  carried := jdStep_carried (carryClosed_fundsPool hshared h.tokens) h.carried e

theorem jdShared_start (conf : JdConf) : JdShared conf .start where
  tokens := fun t ht => absurd ht List.not_mem_nil
  carried := ⟨fun p hp => absurd hp List.not_mem_nil, fun p hp => absurd hp List.not_mem_nil,
    fun i p hp => by cases hp⟩

end CashStratum
