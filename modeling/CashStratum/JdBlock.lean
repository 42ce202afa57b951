/-
CashStratum/JdBlock.lean

The solved block of a declared token (`sv2_jd.c`).

Its transactions come from three places: what the client sent for this declare, what any client
sent for another one and the cache kept, and what was in the cache when the declare was bound.
Each is matched by its hash alone.  So they are the transactions that the wtxids of the declare
name, each at its place, as long as nothing that was ever sent has the hash of one of them
(`rebuilt_block_is_named`).
-/
import CashStratum.JdCoalesce
import CashStratum.JdCounters

namespace CashStratum

open JdState

/-! ### What was sent -/

/-- The transactions that the events of a run bring. -/
def brought (events : List JdEvent) : List Bytes := events.flatMap JdEvent.transactions

/-- Every transaction that is kept anywhere satisfies `P`. -/
structure JdState.Keeping (P : Bytes → Prop) (s : JdState) : Prop where
  tokens : s.table.AllTokens fun _ m => ∀ m', m = some m' → ∀ raw, some raw ∈ m'.txRaws → P raw
  carried : s.Carried (JdPending.Slots P)
  cache : s.txCache.All P

section Keeping

variable {P : Bytes → Prop} {s : JdState} {e : JdEvent}

theorem carryStep_slots (conf : JdConf) (hcache : s.txCache.All P)
    (hbrought : ∀ raw ∈ e.transactions, P raw) : CarryStep conf (JdPending.Slots P) s e where
  fill _ _ hp hfill := hp.fillFromCache hcache hfill
  store p p' _ hp hstore :=
    (storeMatchingTxs_held (fun raw hmem _ => hbrought raw hmem) hcache hp).2 p' (by rw [hstore])
  new clientId decl now _ raw hraw := by
    have hslot := List.eq_of_mem_replicate (show some raw ∈ List.replicate _ none from hraw)
    cases hslot

/-- **A step keeps what it had and what it is brought.** -/
theorem jdStep_keeping (conf : JdConf) (h : s.Keeping P)
    (hbrought : ∀ raw ∈ e.transactions, P raw) : (jdStep conf s e).Keeping P where
  tokens := by
    refine jdStep_allTokens (fun _ _ hnone => by cases hnone) e ?_ h.tokens
    rintro pend enonceUsed tb token haccepting payout old pend' - hpend' - m ⟨⟩
    obtain ⟨-, -, i, hi⟩ := accepting_accepts haccepting
    have hslots : pend.Slots P := h.carried.threads i pend hi
    rcases hpend' with rfl | hfill
    · exact hslots
    · exact hslots.fillFromCache h.cache hfill
  carried := jdStep_carried_of (carryStep_slots conf h.cache hbrought) h.carried
  cache := jdStep_txCache conf e
    (fun pend hpend => (storeMatchingTxs_held (fun raw hmem _ => hbrought raw hmem) h.cache
      (h.carried.pending pend hpend)).1)
    h.cache

end Keeping

theorem keeping_start (P : Bytes → Prop) : JdState.start.Keeping P where
  tokens := fun t ht => absurd ht List.not_mem_nil
  carried := ⟨fun p hp => absurd hp List.not_mem_nil, fun p hp => absurd hp List.not_mem_nil,
    fun i p hp => by cases hp⟩
  cache := fun entry hentry => absurd hentry List.not_mem_nil

/-! ### Every run -/

/-- What holds of the declared tokens: their transactions are complete, filed under their
hashes, and were sent. -/
structure JdState.Named (P : Bytes → Prop) (s : JdState) : Prop where
  exact : s.Exact
  complete : JdComplete s
  keeping : s.Keeping P

theorem named_run (conf : JdConf) (events : List JdEvent) :
    (run (jdStep conf) .start events).Named fun raw => raw ∈ brought events := by
  refine run_invariant_of (Q := fun e => e ∈ events) ?_ (fun _ he => he)
    ⟨exact_start, jdComplete_start, keeping_start _⟩
  intro s e he h
  refine ⟨jdStep_exact conf h.exact e, jdStep_complete conf h.complete e,
    jdStep_keeping conf h.keeping fun raw hraw => ?_⟩
  exact List.mem_flatMap.mpr ⟨e, he, hraw⟩

/-- Slots that are complete, filed, and in which the hashes name no other transaction. -/
theorem filed_eq_map {ts : List Bytes} {slots : List (Option Bytes)}
    (hfiled : Filed (ts.map genHash) slots) (hall : ∀ slot ∈ slots, slot.isSome = true)
    (hname : ∀ raw, some raw ∈ slots → ∀ t ∈ ts, genHash raw = genHash t → raw = t) :
    slots = ts.map some := by
  induction ts generalizing slots with
  | nil =>
    cases hfiled
    rfl
  | cons t ts ih =>
    cases hfiled with
    | cons hhead htail =>
      obtain ⟨hsome, hrest⟩ := List.forall_mem_cons.mp hall
      obtain ⟨raw, rfl⟩ := Option.isSome_iff_exists.mp hsome
      have hraw : raw = t :=
        hname raw List.mem_cons_self t List.mem_cons_self (hhead raw rfl)
      rw [ih htail hrest fun r hr u hu => hname r (List.mem_cons_of_mem _ hr) u
        (List.mem_cons_of_mem _ hu), hraw, List.map_cons]

theorem mapM_id_map_some (ts : List Bytes) : (ts.map some).mapM id = some ts := by
  induction ts with
  | nil => rfl
  | cons t ts ih =>
    rw [List.map_cons, List.mapM_cons, ih]
    rfl

/-- What a snapshot holds is what its slots hold. -/
theorem JdMaterial.slots_of_snapshot {m : JdMaterial} {txs : List Bytes}
    (h : m.snapshot = some txs) : m.txRaws.mapM id = some txs ∧ [] ∉ txs := by
  obtain ⟨txs', htxs, h⟩ := Option.bind_eq_some_iff.mp h
  by_cases hany : txs'.any List.isEmpty = true
  · rw [if_pos hany] at h
    cases h
  · rw [if_neg hany] at h
    obtain rfl := Option.some.inj h
    refine ⟨htxs, fun hmem => hany (List.any_eq_true.mpr ⟨[], hmem, rfl⟩)⟩

theorem isSome_of_mapM_id {slots : List (Option Bytes)} {txs : List Bytes}
    (h : slots.mapM id = some txs) : ∀ slot ∈ slots, slot.isSome = true := by
  induction slots generalizing txs with
  | nil => exact fun slot hslot => absurd hslot List.not_mem_nil
  | cons slot slots ih =>
    rw [List.mapM_cons] at h
    obtain ⟨raw, hraw, h⟩ := Option.bind_eq_some_iff.mp h
    obtain ⟨rest, hrest, -⟩ := Option.bind_eq_some_iff.mp h
    intro slot' hslot'
    rcases List.mem_cons.mp hslot' with rfl | hmem
    · rw [show slot' = some raw from hraw]
      rfl
    · exact ih hrest slot' hmem

/-- **The snapshot of a token is what its wtxids name.** -/
theorem JdState.Named.snapshot_eq {P : Bytes → Prop} {s : JdState} (h : s.Named P) {tok : JdToken}
    (htok : tok ∈ s.table.tokens) {m : JdMaterial} (hm : tok.material = some m) {ts : List Bytes}
    (hts : m.wtxidList = ts.map genHash)
    (hname : ∀ raw, P raw → ∀ t ∈ ts, genHash raw = genHash t → raw = t) :
    m.snapshot = some ts := by
  -- the slots are full and filed under the hashes of `ts`, so they hold `ts`
  obtain ⟨txs, htxs⟩ := Option.isSome_iff_exists.mp (h.complete.tokens tok htok m hm)
  obtain ⟨hslots, -⟩ := m.slots_of_snapshot htxs
  have hfiled := h.exact.table.filed tok htok m hm
  rw [hts] at hfiled
  have hmap := filed_eq_map hfiled (isSome_of_mapM_id hslots)
    fun raw hraw => hname raw (h.keeping.tokens tok htok m hm raw hraw)
  rw [hmap, mapM_id_map_some] at hslots
  rw [htxs, Option.some.inj hslots]

/-- **The solved block of a token is the one that was declared.**  After any run, with declares
of any clients at once: when the wtxids of a declared token are those of the transactions `ts`, and
nothing that was sent shares the hash of one of them without being it, then a solved block of the
token is a header with the merkle root of the coinbase and `ts`, their number, the declared
coinbase with the extranonce, and `ts` byte for byte. -/
theorem rebuilt_block_is_named (conf : JdConf) (events : List JdEvent) {token : Bytes}
    {tok : JdToken} (htok : (run (jdStep conf) .start events).table.findToken token = some tok)
    {m : JdMaterial} (hm : tok.material = some m) {ts : List Bytes}
    (hts : m.wtxidList = ts.map genHash)
    (hname : ∀ raw ∈ brought events, ∀ t ∈ ts, genHash raw = genHash t → raw = t)
    (extranonce : Bytes) (version ntime nonce nbits : UInt32) (prevHash : Hash256) {block : Bytes}
    (hblock : (run (jdStep conf) .start events).table.rebuildSolvedBlock token extranonce version
      ntime nonce nbits prevHash = some block) :
    let coinbase := declaredCoinbase m.coinbaseTxPrefix extranonce m.coinbaseTxSuffix
    ∃ txid txids root, sv2BitcoinTxid coinbase = some txid ∧ ts.mapM sv2BitcoinTxid = some txids ∧
      sv2MerkleRootFromTxids (txid :: txids) = some root ∧
      block =
        HeaderFields.bytes
            ⟨if version ≠ 0 then version else m.version, prevHash, ntime, nbits, nonce⟩ root ++
        sv2WriteCompactSize (1 + ts.length) ++ coinbase ++ ts.flatten := by
  have hsnapshot := (named_run conf events).snapshot_eq (JdTable.findToken_mem htok) hm hts
    fun raw => hname raw
  rw [JdTable.rebuildSolvedBlock] at hblock
  by_cases htoken : token = []
  · rw [if_pos htoken] at hblock
    cases hblock
  · simp only [if_neg htoken, htok, hm, hsnapshot, Option.bind_eq_bind, Option.bind_some] at hblock
    rw [assembleSolvedFromSnap] at hblock
    by_cases hextra : extranonce = [] ∨ (m.enonceLen ≠ 0 ∧ extranonce.length ≠ m.enonceLen)
    · rw [if_pos hextra] at hblock
      cases hblock
    · rw [if_neg hextra] at hblock
      obtain ⟨txid, txids, root, htxid, htxids, hroot, -, heq⟩ := blockOf_eq_some hblock
      exact ⟨txid, txids, root, htxid, htxids, hroot, heq⟩

/-- Client 2 never sends the transaction of its block: it is in the cache, as client 1 sent it. -/
theorem cached_block_is_named :
    ∃ tok m block txid txids root,
      (run (jdStep coalescePool) .start sameRun).table.findToken [8] = some tok ∧
      tok.material = some m ∧
      (run (jdStep coalescePool) .start sameRun).table.rebuildSolvedBlock [8] (List.replicate 16 7)
        0 1700000001 5 0x207fffff .zero = some block ∧
      sv2MerkleRootFromTxids (txid :: txids) = some root ∧
      block = HeaderFields.bytes ⟨m.version, .zero, 1700000001, 0x207fffff, 5⟩ root ++
          sv2WriteCompactSize 2 ++
        declaredCoinbase m.coinbaseTxPrefix (List.replicate 16 7) m.coinbaseTxSuffix ++
        coalesceTx := by
  have hcheck : ((run (jdStep coalescePool) .start sameRun).table.findToken [8]).any (fun tok =>
      tok.material.any fun m => decide (m.wtxidList = [genHash coalesceTx])) = true ∧
      ((run (jdStep coalescePool) .start sameRun).table.rebuildSolvedBlock [8]
        (List.replicate 16 7) 0 1700000001 5 0x207fffff .zero).isSome = true := by
    decide +kernel
  obtain ⟨htoken, hblock⟩ := hcheck
  obtain ⟨tok, htok, hmaterial⟩ := (Option.any_eq_true _ _).mp htoken
  obtain ⟨m, hm, hts⟩ := (Option.any_eq_true _ _).mp hmaterial
  obtain ⟨block, hblock⟩ := Option.isSome_iff_exists.mp hblock
  have hname : ∀ raw ∈ brought sameRun, ∀ t ∈ [coalesceTx], genHash raw = genHash t → raw = t := by
    intro raw hraw t ht _
    have hsent : brought sameRun = [coalesceTx] := rfl
    rw [hsent, List.mem_singleton] at hraw
    rw [hraw, List.mem_singleton.mp ht]
  have hlist : m.wtxidList = [coalesceTx].map genHash := of_decide_eq_true hts
  obtain ⟨txid, txids, root, -, -, hroot, heq⟩ := rebuilt_block_is_named coalescePool sameRun htok hm hlist hname
    _ 0 1700000001 5 0x207fffff .zero hblock
  exact ⟨tok, m, block, txid, txids, root, htok, hm, hblock, hroot, by simpa using heq⟩

end CashStratum
