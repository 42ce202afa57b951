/-
CashStratum/JdState.lean

The state of the job declarator beside its tokens (`sv2_jd.c`): the cache of raw
transactions, the transactions of a pending declare, the coalesce cache of template
hashes, and the blocks assembled from a template, the candidate for checkBlock and
the solved block.

Both blocks are a header and a body made by one function (`blockOf`), as the two
functions of the source that build them differ in the header fields alone.
-/
import CashStratum.JdToken
import CashStratum.Merkle

namespace CashStratum

/-! ### The transaction cache -/

/-- `SV2_JD_MAX_CACHE_TXS`. -/
def maxCacheTxs : Nat := 65536

/-- `SV2_JD_MAX_CACHE_BYTES`. -/
def maxCacheBytes : Nat := 256 * 2 ^ 20

/-- `SV2_JD_CACHE_EVICT_BATCH`. -/
def cacheEvictBatch : Nat := 256

/-- `tx_cache` with its counters, oldest entry first. -/
structure TxCache where
  entries : List (Hash256 × Bytes)
  count : Nat
  bytes : Nat

namespace TxCache

/-- `cache_get`. -/
def get (cache : TxCache) (wtxid : Hash256) : Option Bytes :=
  (cache.entries.find? fun e => e.1 = wtxid).map Prod.snd

/-- `cache_evict_oldest_locked`. -/
def evictOldest (cache : TxCache) (n : Nat) : TxCache where
  entries := cache.entries.drop n
  count := cache.count - (cache.entries.take n).length
  bytes := cache.bytes - ((cache.entries.take n).map fun e => e.2.length).sum

/-- There is no room for `len` more bytes. -/
def full (cache : TxCache) (len : Nat) : Bool :=
  decide (cache.count ≥ maxCacheTxs) || decide (cache.bytes + len > maxCacheBytes)

/-- Evict until there is room or the cache is empty. -/
def makeRoom (len : Nat) : Nat → TxCache → TxCache
  | 0, cache => cache
  | n + 1, cache =>
    if cache.full len ∧ cache.count > 0 then makeRoom len n (cache.evictOldest cacheEvictBatch)
    else cache

/-- `cache_put_tx`. -/
def put (cache : TxCache) (raw : Bytes) : TxCache :=
  if raw = [] then cache
  else if (cache.get (genHash raw)).isSome then cache
  else
    let cache := cache.makeRoom raw.length cache.entries.length
    if cache.full raw.length then cache
    else
      { entries := cache.entries ++ [(genHash raw, raw)]
        count := cache.count + 1
        bytes := cache.bytes + raw.length }

end TxCache

/-! ### The transactions of a pending declare -/

/-- `pending_tx_bytes_add`. -/
def txBytesAdd (txBytes rawLen : Nat) : Option Nat :=
  if rawLen > maxBlockBytes ∨ txBytes > maxBlockBytes - rawLen then none
  else some (txBytes + rawLen)

/-- Fill the empty slots for which `lookup` has a transaction: the slots and the bytes
they hold, or `none` when that exceeds the size policy. -/
def fillSlots (lookup : Hash256 → Option Bytes) :
    List Hash256 → List (Option Bytes) → Nat → Option (List (Option Bytes) × Nat)
  | wtxid :: wtxids, slot :: slots, txBytes =>
    match slot, lookup wtxid with
    | none, some raw => do
        let txBytes ← txBytesAdd txBytes raw.length
        let (slots, txBytes) ← fillSlots lookup wtxids slots txBytes
        some (some raw :: slots, txBytes)
    | slot, _ => do
        let (slots, txBytes) ← fillSlots lookup wtxids slots txBytes
        some (slot :: slots, txBytes)
  | _, slots, txBytes => some (slots, txBytes)

namespace JdPending

/-- Fill the empty slots of a pending declare. -/
def fill (pend : JdPending) (lookup : Hash256 → Option Bytes) : Option JdPending := do
  let (txRaws, txBytes) ← fillSlots lookup pend.wtxidList pend.txRaws pend.txBytes
  some { pend with txRaws := txRaws, txBytes := txBytes }

/-- `pending_fill_from_cache_locked`. -/
def fillFromCache (pend : JdPending) (cache : TxCache) : Option JdPending := pend.fill cache.get

/-- `pending_collect_missing`: the positions of the empty slots. -/
def collectMissing (pend : JdPending) : List Nat :=
  (List.range pend.txRaws.length).filter fun i => (pend.txRaws[i]?).join.isNone

/-- One transaction of a ProvideMissingTransactions.Success: it is taken, and cached,
if its hash is one of the wtxids. -/
def storeTx (state : TxCache × Option JdPending) (raw : Bytes) : TxCache × Option JdPending :=
  match state with
  | (cache, none) => (cache, none)
  | (cache, some pend) =>
    if raw = [] ∨ genHash raw ∉ pend.wtxidList then (cache, some pend)
    else (cache.put raw, pend.fill fun wtxid => if wtxid = genHash raw then some raw else none)

/-- `pending_store_matching_txs`. -/
def storeMatchingTxs (pend : JdPending) (cache : TxCache) (txs : List Bytes) :
    TxCache × Option JdPending :=
  if pend.wtxidList = [] then (cache, some pend) else txs.foldl storeTx (cache, some pend)

end JdPending

/-! ### What is stored -/

/-- What `fillSlots` does, slot by slot. -/
inductive FillSlots (lookup : Hash256 → Option Bytes) :
    List Hash256 → List (Option Bytes) → Nat → List (Option Bytes) → Nat → Prop
  | short (wtxids : List Hash256) (slots : List (Option Bytes)) (txBytes : Nat)
      (h : wtxids = [] ∨ slots = []) : FillSlots lookup wtxids slots txBytes slots txBytes
  | fill {wtxid : Hash256} {wtxids : List Hash256} {slots slots' : List (Option Bytes)}
      {txBytes mid txBytes' : Nat} {raw : Bytes} (hfound : lookup wtxid = some raw)
      (hadd : txBytesAdd txBytes raw.length = some mid)
      (hrest : FillSlots lookup wtxids slots mid slots' txBytes') :
      FillSlots lookup (wtxid :: wtxids) (none :: slots) txBytes (some raw :: slots') txBytes'
  | keep (wtxid : Hash256) (slot : Option Bytes) {wtxids : List Hash256}
      {slots slots' : List (Option Bytes)} {txBytes txBytes' : Nat}
      (hrest : FillSlots lookup wtxids slots txBytes slots' txBytes') :
      FillSlots lookup (wtxid :: wtxids) (slot :: slots) txBytes (slot :: slots') txBytes'

theorem fillSlots_spec {lookup : Hash256 → Option Bytes} {wtxids : List Hash256}
    {slots slots' : List (Option Bytes)} {txBytes txBytes' : Nat}
    (h : fillSlots lookup wtxids slots txBytes = some (slots', txBytes')) :
    FillSlots lookup wtxids slots txBytes slots' txBytes' := by
  induction wtxids generalizing slots slots' txBytes txBytes' with
  | nil =>
    rw [fillSlots, Option.some.injEq, Prod.mk.injEq] at h
    · obtain ⟨rfl, rfl⟩ := h
      exact .short _ _ _ (Or.inl rfl)
    · simp
  | cons wtxid wtxids ih =>
    rcases slots with - | ⟨slot, slots⟩
    · rw [fillSlots, Option.some.injEq, Prod.mk.injEq] at h
      · obtain ⟨rfl, rfl⟩ := h
        exact .short _ _ _ (Or.inr rfl)
      · simp
    · have hkeep : ((fillSlots lookup wtxids slots txBytes).bind fun r =>
          some (slot :: r.1, r.2)) = some (slots', txBytes') →
          FillSlots lookup (wtxid :: wtxids) (slot :: slots) txBytes slots' txBytes' := by
        intro h
        obtain ⟨⟨filled, bytes⟩, hfill, h⟩ := Option.bind_eq_some_iff.mp h
        obtain ⟨rfl, rfl⟩ := Prod.mk.inj (Option.some.inj h)
        exact .keep wtxid slot (ih hfill)
      rcases slot with - | held
      · rcases hfound : lookup wtxid with - | raw
        · simp only [fillSlots, hfound] at h
          exact hkeep h
        · simp only [fillSlots, hfound] at h
          obtain ⟨mid, hadd, h⟩ := Option.bind_eq_some_iff.mp h
          obtain ⟨⟨filled, bytes⟩, hfill, h⟩ := Option.bind_eq_some_iff.mp h
          obtain ⟨rfl, rfl⟩ := Prod.mk.inj (Option.some.inj h)
          exact .fill hfound hadd (ih hfill)
      · simp only [fillSlots] at h
        exact hkeep h

namespace JdPending

section StoreRule

variable {C : TxCache → Prop} {Q : JdPending → Prop} {txs : List Bytes}
  (hput : ∀ cache raw, raw ∈ txs → raw ≠ [] → C cache → C (cache.put raw))
  (hfill : ∀ pend pend' raw, raw ∈ txs → raw ≠ [] → Q pend →
    (pend.fill fun wtxid => if wtxid = genHash raw then some raw else none) = some pend' → Q pend')

include hput hfill

/-- **The store rule.**  A property of caches that taking one of the transactions keeps,
and one of declares that filling their slots with it keeps. -/
theorem storeMatchingTxs_rule {pend : JdPending} {cache : TxCache} (hcache : C cache)
    (hpend : Q pend) :
    C (pend.storeMatchingTxs cache txs).1 ∧
      ∀ pend', (pend.storeMatchingTxs cache txs).2 = some pend' → Q pend' := by
  have hone : ∀ raw ∈ txs, ∀ state : TxCache × Option JdPending, C state.1 →
      (∀ p, state.2 = some p → Q p) →
      C (storeTx state raw).1 ∧ ∀ p, (storeTx state raw).2 = some p → Q p := by
    rintro raw hmem ⟨cache, - | pend⟩ hc hp
    · exact ⟨hc, hp⟩
    · rw [storeTx]
      split_ifs with hskip
      · exact ⟨hc, hp⟩
      · have hraw : raw ≠ [] := fun hempty => hskip (Or.inl hempty)
        exact ⟨hput cache raw hmem hraw hc, fun p h => hfill pend p raw hmem hraw (hp pend rfl) h⟩
  have hall : ∀ rest : List Bytes, (∀ raw ∈ rest, raw ∈ txs) →
      ∀ state : TxCache × Option JdPending, C state.1 → (∀ p, state.2 = some p → Q p) →
      C (rest.foldl storeTx state).1 ∧ ∀ p, (rest.foldl storeTx state).2 = some p → Q p := by
    intro rest
    induction rest with
    | nil => exact fun _ _ hc hp => ⟨hc, hp⟩
    | cons raw rest ih =>
      intro hrest state hc hp
      obtain ⟨hc', hp'⟩ := hone raw (hrest raw List.mem_cons_self) state hc hp
      exact ih (fun raw hmem => hrest raw (List.mem_cons_of_mem _ hmem)) _ hc' hp'
  have hstart : ∀ p, some pend = some p → Q p := fun p h => Option.some.inj h ▸ hpend
  rw [storeMatchingTxs]
  split_ifs
  · exact ⟨hcache, hstart⟩
  · exact hall txs (fun _ hmem => hmem) (cache, some pend) hcache hstart

end StoreRule

end JdPending

/-! ### Blocks -/

/-- The fields of a header beside the merkle root. -/
structure HeaderFields where
  version : UInt32
  prevHash : Hash256
  ntime : UInt32
  nbits : UInt32
  nonce : UInt32

/-- A header with a merkle root. -/
def HeaderFields.bytes (h : HeaderFields) (merkleRoot : Hash256) : Bytes :=
  leBytes 4 h.version.toNat ++ h.prevHash.bytes ++ merkleRoot.bytes ++ leBytes 4 h.ntime.toNat ++
    leBytes 4 h.nbits.toNat ++ leBytes 4 h.nonce.toNat

@[simp] theorem HeaderFields.length_bytes (h : HeaderFields) (merkleRoot : Hash256) :
    (h.bytes merkleRoot).length = 80 := by
  simp [HeaderFields.bytes, h.prevHash.length_bytes, merkleRoot.length_bytes]

/-- The ids of the transactions of a block: `none` unless each of them parses. -/
def blockTxids (coinbase : Bytes) (txs : List Bytes) : Option (Hash256 × List Hash256) := do
  let txid ← sv2BitcoinTxid coinbase
  let txids ← txs.mapM sv2BitcoinTxid
  some (txid, txids)

/-- The tail of both assemblers, from the ids of the transactions to the bytes. -/
def blockOf (h : HeaderFields) (coinbase : Bytes) (txs : List Bytes) : Option Bytes := do
  let (txid, txids) ← blockTxids coinbase txs
  let merkle ← sv2MerkleRootFromTxids (txid :: txids)
  let total := 80 + sv2CompactSizeLen (1 + txs.length) + (coinbase.length + txs.flatten.length)
  if total > maxBlockBytes then none
  else some (h.bytes merkle ++ sv2WriteCompactSize (1 + txs.length) ++ coinbase ++ txs.flatten)

/-- A block has its header, the number of its transactions, the coinbase and the others as
they are. -/
theorem blockOf_eq_some {h : HeaderFields} {coinbase block : Bytes} {txs : List Bytes}
    (hblock : blockOf h coinbase txs = some block) :
    ∃ txid txids root, sv2BitcoinTxid coinbase = some txid ∧
      txs.mapM sv2BitcoinTxid = some txids ∧
      sv2MerkleRootFromTxids (txid :: txids) = some root ∧
      txs.flatten.length ≤ maxBlockBytes ∧
      block = h.bytes root ++ sv2WriteCompactSize (1 + txs.length) ++ coinbase ++ txs.flatten := by
  obtain ⟨⟨txid, txids⟩, hids, hblock⟩ := Option.bind_eq_some_iff.mp hblock
  obtain ⟨txid', htxid, hids⟩ := Option.bind_eq_some_iff.mp hids
  obtain ⟨txids', htxids, hids⟩ := Option.bind_eq_some_iff.mp hids
  obtain ⟨rfl, rfl⟩ := Prod.mk.inj (Option.some.inj hids)
  obtain ⟨root, hroot, hblock⟩ := Option.bind_eq_some_iff.mp hblock
  dsimp only at hblock
  split_ifs at hblock with htotal
  exact ⟨txid', txids', root, htxid, htxids, hroot, by omega, (Option.some.inj hblock).symm⟩

/-- Transactions that parse are not empty. -/
theorem length_le_of_txids {txs : List Bytes} {txids : List Hash256}
    (h : txs.mapM sv2BitcoinTxid = some txids) :
    txids.length = txs.length ∧ txs.length ≤ txs.flatten.length := by
  refine ⟨length_of_mapM_eq_some h, ?_⟩
  induction txs generalizing txids with
  | nil => exact Nat.le_refl 0
  | cons tx txs ih =>
    rw [List.mapM_cons] at h
    obtain ⟨txid, htxid, h⟩ := Option.bind_eq_some_iff.mp h
    obtain ⟨rest, hrest, -⟩ := Option.bind_eq_some_iff.mp h
    have hne : tx ≠ [] := by
      rintro rfl
      cases htxid
    have hpos := List.length_pos_of_ne_nil hne
    have hle := ih hrest
    rw [List.length_cons, List.flatten_cons, List.length_append]
    omega

/-- What `stratifier_sv2_tip_for_jd` and `stratifier_sv2_tip_height` report of the
current workbase. -/
structure JdTip where
  version : UInt32
  ntime : UInt32
  nbits : UInt32
  prevHash : Hash256
  height : Int

/-- `assemble_candidate_block`. -/
def assembleCandidateBlock (tip : Option JdTip) (pend : JdPending) (enonceLen : Nat) :
    Option Bytes := do
  let tip ← tip
  let txs ← pend.txRaws.mapM id
  if pend.coinbaseTxPrefix.length + enonceLen + pend.coinbaseTxSuffix.length + 80 + 9 >
      maxBlockBytes then none
  else
    blockOf
      { version := if pend.version ≠ 0 then pend.version else tip.version
        prevHash := tip.prevHash
        ntime := tip.ntime
        nbits := tip.nbits
        nonce := 0 }
      (zeroFilled pend.coinbaseTxPrefix enonceLen pend.coinbaseTxSuffix) txs

/-- `snapshot_token_for_rebuild_locked`: the transactions of a declared token. -/
def JdMaterial.snapshot (m : JdMaterial) : Option (List Bytes) :=
  (m.txRaws.mapM id).bind fun txs => if txs.any List.isEmpty then none else some txs

/-- `assemble_solved_from_snap`. -/
def assembleSolvedFromSnap (m : JdMaterial) (txs : List Bytes) (extranonce : Bytes)
    (version ntime nonce nbits : UInt32) (prevHash : Hash256) : Option Bytes :=
  if extranonce = [] ∨ (m.enonceLen ≠ 0 ∧ extranonce.length ≠ m.enonceLen) then none
  else
    blockOf
      { version := if version ≠ 0 then version else m.version
        prevHash := prevHash
        ntime := ntime
        nbits := nbits
        nonce := nonce }
      (declaredCoinbase m.coinbaseTxPrefix extranonce m.coinbaseTxSuffix) txs

/-- `sv2_jd_rebuild_solved_block`. -/
def JdTable.rebuildSolvedBlock (tb : JdTable) (token extranonce : Bytes)
    (version ntime nonce nbits : UInt32) (prevHash : Hash256) : Option Bytes :=
  if token = [] then none
  else do
    let tok ← tb.findToken token
    let m ← tok.material
    let txs ← m.snapshot
    assembleSolvedFromSnap m txs extranonce version ntime nonce nbits prevHash

/-! ### The coalesce cache -/

/-- `SV2_JD_COALESCE_TTL_SECS`. -/
def coalesceTtlSecs : Int := 120

/-- `SV2_JD_COALESCE_MAX`. -/
def coalesceMax : Nat := 256

/-- `struct sv2_jd_coalesce`. -/
structure JdCoalesce where
  thash : Hash256
  enonceLen : Nat
  created : Int

/-- `jd_coalesce` with its counter, oldest entry first. -/
structure CoalesceCache where
  entries : List JdCoalesce
  count : Nat

namespace CoalesceCache

/-- An empty cache. -/
def empty : CoalesceCache where
  entries := []
  count := 0

/-- The eviction of `coalesce_note_locked`, down to half of the cache. -/
def evict (now : Int) : List JdCoalesce → Nat → List JdCoalesce × Nat
  | [], count => ([], count)
  | c :: cs, count =>
    if now - c.created > coalesceTtlSecs ∨ count ≥ coalesceMax then
      if count - 1 < coalesceMax / 2 then (cs, count - 1) else evict now cs (count - 1)
    else
      let (cs, count) := evict now cs count
      (c :: cs, count)

/-- `coalesce_note_locked`. -/
def note (cache : CoalesceCache) (thash : Hash256) (enonceLen : Nat) (now : Int) : CoalesceCache :=
  if cache.entries.any fun c => decide (c.thash = thash) then
    { cache with
      entries := cache.entries.map fun c =>
        if c.thash = thash then { c with enonceLen := enonceLen, created := now } else c }
  else
    let (entries, count) :=
      if cache.count ≥ coalesceMax then evict now cache.entries cache.count
      else (cache.entries, cache.count)
    { entries := entries ++ [{ thash := thash, enonceLen := enonceLen, created := now }]
      count := count + 1 }

/-- `coalesce_lookup_locked`. -/
def lookup (cache : CoalesceCache) (thash : Hash256) (now : Int) : Option Nat :=
  match cache.entries.find? fun c => c.thash = thash with
  | none => none
  | some c => if now - c.created > coalesceTtlSecs then none else some c.enonceLen

end CoalesceCache

/-- The bytes `template_hash` hashes: the declare, and the tip it was made for. -/
def templateBytes (tip : Option JdTip) (pend : JdPending) : Bytes :=
  leBytes 4 pend.version.toNat ++ (tip.map fun t => t.prevHash.bytes).getD (List.replicate 32 0) ++
    pend.coinbaseTxPrefix ++ pend.coinbaseTxSuffix ++ (pend.wtxidList.map Hash256.bytes).flatten

/-- `template_hash`. -/
def templateHash (tip : Option JdTip) (pend : JdPending) : Hash256 :=
  genHash (templateBytes tip pend)

/-! ### The declared parts do not change -/

/-- The parts of a declare that filling its slots leaves alone. -/
structure JdPending.SameDeclare (pend pend' : JdPending) : Prop where
  clientId : pend'.clientId = pend.clientId
  token : pend'.token = pend.token
  version : pend'.version = pend.version
  coinbaseTxPrefix : pend'.coinbaseTxPrefix = pend.coinbaseTxPrefix
  coinbaseTxSuffix : pend'.coinbaseTxSuffix = pend.coinbaseTxSuffix
  wtxidList : pend'.wtxidList = pend.wtxidList

namespace JdPending

theorem SameDeclare.refl (pend : JdPending) : pend.SameDeclare pend :=
  ⟨rfl, rfl, rfl, rfl, rfl, rfl⟩

theorem SameDeclare.trans {pend pend' pend'' : JdPending} (h : pend.SameDeclare pend')
    (h' : pend'.SameDeclare pend'') : pend.SameDeclare pend'' where
  clientId := h'.clientId.trans h.clientId
  token := h'.token.trans h.token
  version := h'.version.trans h.version
  coinbaseTxPrefix := h'.coinbaseTxPrefix.trans h.coinbaseTxPrefix
  coinbaseTxSuffix := h'.coinbaseTxSuffix.trans h.coinbaseTxSuffix
  wtxidList := h'.wtxidList.trans h.wtxidList

theorem sameDeclare_fill {pend pend' : JdPending} {lookup : Hash256 → Option Bytes}
    (h : pend.fill lookup = some pend') : pend.SameDeclare pend' := by
  obtain ⟨⟨txRaws, txBytes⟩, -, h⟩ := Option.bind_eq_some_iff.mp h
  rw [← Option.some.inj h]
  exact ⟨rfl, rfl, rfl, rfl, rfl, rfl⟩

theorem sameDeclare_storeMatchingTxs {pend pend' : JdPending} {cache cache' : TxCache}
    {txs : List Bytes} (h : pend.storeMatchingTxs cache txs = (cache', some pend')) :
    pend.SameDeclare pend' := by
  have hfill : ∀ mid mid' raw, raw ∈ txs → raw ≠ [] → pend.SameDeclare mid →
      (mid.fill fun wtxid => if wtxid = genHash raw then some raw else none) = some mid' →
      pend.SameDeclare mid' :=
    fun _ _ _ _ _ hsame h => hsame.trans (sameDeclare_fill h)
  exact (storeMatchingTxs_rule (C := fun _ => True) (fun _ _ _ _ h => h) hfill trivial
    (.refl pend)).2 pend' (congrArg Prod.snd h)

end JdPending

end CashStratum
