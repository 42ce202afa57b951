/-
CashStratum/JdCounters.lean

The counters and budgets of the job declarator (`sv2_jd.c`), in every state of every run.

The tokens, the cache of raw transactions and the slots of a pending declare hand buffers
on to each other, and five counters are adjusted by hand at each hand-over.  Here each of
them is what it counts (`Exact`), and within its budget: of the tokens and their
snapshots, of the snapshots of one client, of the cache, and of one block.  And every
transaction is filed under its hash.

An operation on the tokens either takes some away, which needs nothing but the new
counts (`Exact.of_sublist`), or it puts one token in the place of another, and then the
sums change by the difference of the two (`Exact.exchange`).
-/
import CashStratum.JdInvariant
import Mathlib.Algebra.Order.BigOperators.Group.List

namespace CashStratum

open JdState

/-! ### Transactions filed under their hash -/

/-- The transaction of each slot hashes to the wtxid of the slot. -/
def Filed (wtxids : List Hash256) (slots : List (Option Bytes)) : Prop :=
  List.Forall₂ (fun wtxid slot => ∀ raw, slot = some raw → genHash raw = wtxid) wtxids slots

/-- The bytes that slots hold. -/
def heldBytes (slots : List (Option Bytes)) : Nat :=
  (slots.map fun slot => (slot.map List.length).getD 0).sum

/-- A pending declare counts its bytes, within the size of a block. -/
structure JdPending.Exact (pend : JdPending) : Prop where
  txBytes : pend.txBytes = heldBytes pend.txRaws
  txBytes_le : pend.txBytes ≤ maxBlockBytes
  filed : Filed pend.wtxidList pend.txRaws

theorem filed_replicate_none (wtxids : List Hash256) :
    Filed wtxids (List.replicate wtxids.length none) := by
  induction wtxids with
  | nil => exact .nil
  | cons wtxid wtxids ih => exact .cons (fun raw h => by cases h) ih

theorem heldBytes_replicate_none (n : Nat) : heldBytes (List.replicate n none) = 0 := by
  simp [heldBytes]

theorem exact_pendingOf (clientId : Int) (decl : DeclareMiningJob) (now : Int) :
    (pendingOf clientId decl now).Exact where
  txBytes := (heldBytes_replicate_none _).symm
  txBytes_le := Nat.zero_le _
  filed := filed_replicate_none _

theorem txBytesAdd_eq_some {txBytes rawLen mid : Nat} (h : txBytesAdd txBytes rawLen = some mid) :
    mid = txBytes + rawLen ∧ mid ≤ maxBlockBytes := by
  rw [txBytesAdd] at h
  split_ifs at h
  rw [← Option.some.inj h]
  omega

/-- Filling slots counts what it puts there. -/
theorem FillSlots.exact {lookup : Hash256 → Option Bytes}
    (hlookup : ∀ wtxid raw, lookup wtxid = some raw → genHash raw = wtxid)
    {wtxids : List Hash256} {slots slots' : List (Option Bytes)} {txBytes txBytes' : Nat}
    (h : FillSlots lookup wtxids slots txBytes slots' txBytes') (hle : txBytes ≤ maxBlockBytes)
    (hfiled : Filed wtxids slots) :
    txBytes' + heldBytes slots = txBytes + heldBytes slots' ∧ txBytes' ≤ maxBlockBytes ∧
      Filed wtxids slots' := by
  induction h with
  | short => exact ⟨rfl, hle, hfiled⟩
  | fill hfound hadd hrest ih =>
    obtain ⟨hmid, hmidle⟩ := txBytesAdd_eq_some hadd
    cases hfiled with
    | cons hhead htail =>
      obtain ⟨hsum, hle', hfiled'⟩ := ih hmidle htail
      refine ⟨?_, hle', .cons (fun raw h => ?_) hfiled'⟩
      · simp only [heldBytes, List.map_cons, List.sum_cons, Option.map_none, Option.getD_none,
          Option.map_some, Option.getD_some] at hsum ⊢
        omega
      · exact hlookup _ raw (hfound.trans h)
  | keep wtxid slot hrest ih =>
    cases hfiled with
    | cons hhead htail =>
      obtain ⟨hsum, hle', hfiled'⟩ := ih hle htail
      refine ⟨?_, hle', .cons hhead hfiled'⟩
      simp only [heldBytes, List.map_cons, List.sum_cons] at hsum ⊢
      omega

theorem JdPending.Exact.fill {pend pend' : JdPending} (h : pend.Exact)
    {lookup : Hash256 → Option Bytes}
    (hlookup : ∀ wtxid raw, lookup wtxid = some raw → genHash raw = wtxid)
    (hfill : pend.fill lookup = some pend') : pend'.Exact := by
  obtain ⟨⟨txRaws, txBytes⟩, hslots, heq⟩ := Option.bind_eq_some_iff.mp hfill
  rw [← Option.some.inj heq]
  obtain ⟨hsum, hle, hfiled⟩ := (fillSlots_spec hslots).exact hlookup h.txBytes_le h.filed
  have htxBytes := h.txBytes
  exact ⟨by show txBytes = heldBytes txRaws; omega, hle, hfiled⟩

/-! ### The transaction cache -/

namespace TxCache

/-- The cache counts its entries and their bytes, within its budgets, and has each
transaction under its hash. -/
structure Exact (cache : TxCache) : Prop where
  count : cache.count = cache.entries.length
  bytes : cache.bytes = (cache.entries.map fun e => e.2.length).sum
  count_le : cache.count ≤ maxCacheTxs
  bytes_le : cache.bytes ≤ maxCacheBytes
  filed : ∀ e ∈ cache.entries, genHash e.2 = e.1

variable {cache : TxCache}

theorem Exact.get (h : cache.Exact) {wtxid : Hash256} {raw : Bytes}
    (hget : cache.get wtxid = some raw) : genHash raw = wtxid := by
  obtain ⟨entry, hfind, rfl⟩ := Option.map_eq_some_iff.mp hget
  have hkey := List.find?_some hfind
  rw [h.filed entry (List.mem_of_find?_eq_some hfind)]
  exact of_decide_eq_true hkey

theorem Exact.evictOldest (h : cache.Exact) (n : Nat) : (cache.evictOldest n).Exact := by
  have hlength : (cache.entries.take n).length + (cache.entries.drop n).length =
      cache.entries.length := by
    rw [← List.length_append, List.take_append_drop]
  have hsum : ((cache.entries.take n).map fun e => e.2.length).sum +
      ((cache.entries.drop n).map fun e => e.2.length).sum =
      (cache.entries.map fun e => e.2.length).sum := by
    rw [← List.sum_append, ← List.map_append, List.take_append_drop]
  obtain ⟨hcount, hbytes, hcountle, hbytesle, hfiled⟩ := h
  simp only [TxCache.evictOldest]
  constructor
  · show cache.count - _ = (cache.entries.drop n).length
    omega
  · show cache.bytes - _ = ((cache.entries.drop n).map fun e => e.2.length).sum
    omega
  · exact (Nat.sub_le _ _).trans hcountle
  · exact (Nat.sub_le _ _).trans hbytesle
  · exact fun e he => hfiled e (List.mem_of_mem_drop he)

theorem Exact.makeRoom (h : cache.Exact) (len n : Nat) : (TxCache.makeRoom len n cache).Exact := by
  induction n generalizing cache with
  | zero => exact h
  | succ n ih =>
    rw [TxCache.makeRoom]
    split_ifs
    · exact ih (h.evictOldest cacheEvictBatch)
    · exact h

theorem Exact.put (h : cache.Exact) (raw : Bytes) : (cache.put raw).Exact := by
  rw [TxCache.put]
  split_ifs
  · exact h
  · exact h
  · dsimp only
    have hroom := h.makeRoom raw.length cache.entries.length
    generalize TxCache.makeRoom raw.length cache.entries.length cache = room at hroom
    split_ifs with hfull
    · exact hroom
    · simp only [full, Bool.or_eq_true, decide_eq_true_eq, not_or] at hfull
      obtain ⟨hcount, hbytes, hcountle, hbytesle, hfiled⟩ := hroom
      constructor
      · simp only [List.length_append, List.length_singleton]
        omega
      · simp only [List.map_append, List.sum_append, List.map_cons, List.map_nil, List.sum_cons,
          List.sum_nil]
        omega
      · show room.count + 1 ≤ maxCacheTxs
        omega
      · show room.bytes + raw.length ≤ maxCacheBytes
        omega
      · intro e he
        rcases List.mem_append.mp he with he | he
        · exact hfiled e he
        · rw [List.mem_singleton.mp he]

end TxCache

/-! ### The tokens -/

namespace JdTable

/-- The bytes of the snapshots of some tokens. -/
def snapshotSum (ts : List JdToken) : Nat := (ts.map JdToken.snapshotBytes).sum

/-- The bytes of the snapshots of a client's tokens. -/
def clientSum (clientId : Int) (ts : List JdToken) : Nat :=
  snapshotSum (ts.filter fun t => decide (t.clientId = clientId))

/-- The table counts its tokens and the bytes of their snapshots, within its budgets, and
the transactions of a token are filed under their hashes. -/
structure Exact (tb : JdTable) : Prop where
  count : tb.tokenCount = tb.tokens.length
  count_le : tb.tokenCount ≤ maxTokensGlobal
  snapshotBytes : tb.tokenSnapshotBytes = snapshotSum tb.tokens
  snapshotBytes_le : tb.tokenSnapshotBytes ≤ maxTokenSnapshotBytesGlobal
  client_le : ∀ clientId, clientSum clientId tb.tokens ≤ maxTokenSnapshotBytesClient
  undeclared : ∀ t ∈ tb.tokens, t.declared = false → t.snapshotBytes = 0
  filed : ∀ t ∈ tb.tokens, ∀ m, t.material = some m → Filed m.wtxidList m.txRaws

section Sums

variable {ts ts' : List JdToken} {t : JdToken} {clientId : Int}

theorem snapshotSum_le (h : List.Sublist ts ts') : snapshotSum ts ≤ snapshotSum ts' :=
  (h.map JdToken.snapshotBytes).sum_le_sum fun _ _ => Nat.zero_le _

theorem clientSum_le (h : List.Sublist ts ts') : clientSum clientId ts ≤ clientSum clientId ts' :=
  snapshotSum_le (h.filter _)

theorem snapshotSum_perm (h : ts.Perm ts') : snapshotSum ts = snapshotSum ts' :=
  (h.map JdToken.snapshotBytes).sum_eq

theorem clientSum_perm (h : ts.Perm ts') : clientSum clientId ts = clientSum clientId ts' :=
  snapshotSum_perm (h.filter _)

theorem snapshotSum_cons : snapshotSum (t :: ts) = t.snapshotBytes + snapshotSum ts := by
  simp [snapshotSum]

theorem clientSum_cons : clientSum clientId (t :: ts) =
    (if t.clientId = clientId then t.snapshotBytes else 0) + clientSum clientId ts := by
  by_cases h : t.clientId = clientId
  · simp [clientSum, h, snapshotSum_cons]
  · simp [clientSum, h]

theorem snapshotSum_append : snapshotSum (ts ++ ts') = snapshotSum ts + snapshotSum ts' := by
  simp [snapshotSum]

end Sums

variable {tb tb' : JdTable}

/-- An operation that takes tokens away, and counts what is left. -/
theorem Exact.of_sublist (h : tb.Exact) (htokens : List.Sublist tb'.tokens tb.tokens)
    (hcount : tb'.tokenCount = tb'.tokens.length)
    (hbytes : tb'.tokenSnapshotBytes = snapshotSum tb'.tokens) : tb'.Exact where
  count := hcount
  count_le := by
    rw [hcount]
    exact htokens.length_le.trans (h.count ▸ h.count_le)
  snapshotBytes := hbytes
  snapshotBytes_le := by
    rw [hbytes]
    exact (snapshotSum_le htokens).trans (h.snapshotBytes ▸ h.snapshotBytes_le)
  client_le clientId := (clientSum_le htokens).trans (h.client_le clientId)
  undeclared t ht := h.undeclared t (htokens.subset ht)
  filed t ht := h.filed t (htokens.subset ht)

theorem Exact.freeWhere (h : tb.Exact) (test : JdToken → Bool) (cause : FreeCause) :
    (tb.freeWhere test cause).Exact := by
  have hperm := List.filter_append_perm test tb.tokens
  have hlength := hperm.length_eq
  have hsum := snapshotSum_perm hperm
  rw [List.length_append] at hlength
  rw [snapshotSum_append] at hsum
  refine h.of_sublist List.filter_sublist ?_ ?_
  · show tb.tokenCount - _ = (tb.tokens.filter fun t => !test t).length
    rw [h.count]
    omega
  · show tb.tokenSnapshotBytes - snapshotSum (tb.tokens.filter test) =
      snapshotSum (tb.tokens.filter fun t => !test t)
    rw [h.snapshotBytes]
    omega

theorem Exact.freeToken (h : tb.Exact) {t : JdToken} (ht : t ∈ tb.tokens) (cause : FreeCause) :
    (tb.freeToken t cause).Exact := by
  have hsum := snapshotSum_perm (List.perm_cons_erase ht)
  rw [snapshotSum_cons] at hsum
  refine h.of_sublist List.erase_sublist ?_ ?_
  · show tb.tokenCount - 1 = (tb.tokens.erase t).length
    rw [List.length_erase_of_mem ht, h.count]
  · show tb.tokenSnapshotBytes - t.snapshotBytes = snapshotSum (tb.tokens.erase t)
    rw [h.snapshotBytes]
    omega

/-- Eviction takes tokens away. -/
theorem Exact.evictWhileFull (h : tb.Exact) (n : Nat) :
    (tb.evictWhileFull n).Exact ∧ List.Sublist (tb.evictWhileFull n).tokens tb.tokens := by
  induction n generalizing tb with
  | zero => exact ⟨h, List.Sublist.refl _⟩
  | succ n ih =>
    rw [JdTable.evictWhileFull]
    split_ifs
    · exact ⟨h, List.Sublist.refl _⟩
    · split
      · exact ⟨h, List.Sublist.refl _⟩
      · next t ht =>
          have hmem : t ∈ tb.tokens := List.mem_of_mem_filter (mem_of_bestToken ht)
          obtain ⟨hexact, hsub⟩ := ih (h.freeToken hmem .evicted)
          exact ⟨hexact, hsub.trans List.erase_sublist⟩

theorem perm_replace {ts : List JdToken} {t : JdToken} (ht : t ∈ ts) (t' : JdToken) :
    (ts.replace t t').Perm (t' :: ts.erase t) := by
  induction ts with
  | nil => cases ht
  | cons u ts ih =>
    by_cases hut : u = t
    · subst hut
      rw [List.replace_cons_self, List.erase_cons_head]
    · have hmem : t ∈ ts := (List.mem_cons.mp ht).resolve_left (Ne.symm hut)
      rw [replace_cons_of_ne hut, List.erase_cons_tail (by simpa using hut)]
      exact ((ih hmem).cons u).trans (List.Perm.swap t' u _)

/-- A token in the place of another one of the same client, with `more` bytes. -/
theorem Exact.exchange (h : tb.Exact) {t t' : JdToken} (ht : t ∈ tb.tokens) {more : Nat}
    (hclient : t'.clientId = t.clientId) (hmore : t'.snapshotBytes = t.snapshotBytes + more)
    (hglobal : tb.tokenSnapshotBytes + more ≤ maxTokenSnapshotBytesGlobal)
    (hbudget : clientSum t.clientId tb.tokens + more ≤ maxTokenSnapshotBytesClient)
    (hundeclared : t'.declared = false → t'.snapshotBytes = 0)
    (hfiled : ∀ m, t'.material = some m → Filed m.wtxidList m.txRaws) :
    Exact { tb with
      tokens := tb.tokens.replace t t'
      tokenSnapshotBytes := tb.tokenSnapshotBytes + more } where
  count := by
    show tb.tokenCount = _
    rw [h.count, (perm_replace ht t').length_eq, (List.perm_cons_erase ht).length_eq,
      List.length_cons, List.length_cons]
  count_le := h.count_le
  snapshotBytes := by
    show tb.tokenSnapshotBytes + more = _
    rw [h.snapshotBytes, snapshotSum_perm (perm_replace ht t'),
      snapshotSum_perm (List.perm_cons_erase ht), snapshotSum_cons, snapshotSum_cons, hmore]
    omega
  snapshotBytes_le := hglobal
  client_le clientId := by
    have hold := h.client_le clientId
    show clientSum clientId (tb.tokens.replace t t') ≤ _
    rw [clientSum_perm (List.perm_cons_erase ht), clientSum_cons] at hold hbudget
    rw [clientSum_perm (perm_replace ht t'), clientSum_cons, hclient]
    by_cases howner : t.clientId = clientId
    · rw [howner, if_pos rfl] at hbudget
      rw [if_pos howner, hmore]
      omega
    · rw [if_neg howner] at hold ⊢
      exact hold
  undeclared u hu := by
    rcases mem_of_mem_replace hu with hu | rfl
    · exact h.undeclared u hu
    · exact hundeclared
  filed u hu := by
    rcases mem_of_mem_replace hu with hu | rfl
    · exact h.filed u hu
    · exact hfiled

theorem Exact.refresh (h : tb.Exact) {t : JdToken} (ht : t ∈ tb.tokens) (now : Int) :
    (tb.refresh t now).Exact := by
  have hclient : ({ t with created := now } : JdToken).clientId = t.clientId := rfl
  have hmore : ({ t with created := now } : JdToken).snapshotBytes = t.snapshotBytes + 0 := rfl
  exact h.exchange ht hclient hmore h.snapshotBytes_le (h.client_le t.clientId) (h.undeclared t ht)
    (h.filed t ht)

/-- A token joins the others. -/
theorem Exact.insert (h : tb.Exact) {t : JdToken} (hroom : tb.tokenCount < maxTokensGlobal)
    (hglobal : tb.tokenSnapshotBytes + t.snapshotBytes ≤ maxTokenSnapshotBytesGlobal)
    (hbudget : clientSum t.clientId tb.tokens + t.snapshotBytes ≤ maxTokenSnapshotBytesClient)
    (hundeclared : t.declared = false → t.snapshotBytes = 0)
    (hfiled : ∀ m, t.material = some m → Filed m.wtxidList m.txRaws) :
    Exact { tb.addToken t with
      tokenSnapshotBytes := tb.tokenSnapshotBytes + t.snapshotBytes } where
  count := by
    show tb.tokenCount + 1 = (tb.tokens ++ [t]).length
    rw [h.count, List.length_append, List.length_singleton]
  count_le := hroom
  snapshotBytes := by
    show tb.tokenSnapshotBytes + t.snapshotBytes = snapshotSum (tb.tokens ++ [t])
    rw [h.snapshotBytes, snapshotSum_perm (List.perm_append_singleton t _), snapshotSum_cons]
    exact Nat.add_comm _ _
  snapshotBytes_le := hglobal
  client_le clientId := by
    have hold := h.client_le clientId
    show clientSum clientId (tb.tokens ++ [t]) ≤ _
    rw [clientSum_perm (List.perm_append_singleton t _), clientSum_cons]
    by_cases howner : t.clientId = clientId
    · rw [if_pos howner, ← howner]
      omega
    · rw [if_neg howner]
      omega
  undeclared u hu := by
    rcases List.mem_append.mp hu with hu | hu
    · exact h.undeclared u hu
    · rw [List.mem_singleton.mp hu]
      exact hundeclared
  filed u hu := by
    rcases List.mem_append.mp hu with hu | hu
    · exact h.filed u hu
    · rw [List.mem_singleton.mp hu]
      exact hfiled

/-- There is room for a snapshot in both budgets. -/
theorem snapshotMayAdd_spec {clientId : Int} {bytes : Nat}
    (h : tb.snapshotMayAdd clientId bytes = true) :
    tb.tokenSnapshotBytes + bytes ≤ maxTokenSnapshotBytesGlobal ∧
      clientSum clientId tb.tokens + bytes ≤ maxTokenSnapshotBytesClient := by
  simp only [snapshotMayAdd, Bool.and_eq_true, decide_eq_true_eq] at h
  obtain ⟨⟨⟨hbytes, hglobal⟩, hbytes'⟩, hclient⟩ := h
  have hsum : tb.snapshotClientBytes clientId = clientSum clientId tb.tokens := rfl
  omega

/-- **A declare is bound within the budgets.** -/
theorem Exact.bindDeclare (h : tb.Exact) {parent : JdToken} (hparent : parent ∈ tb.tokens)
    {pend : JdPending} (hclient : parent.clientId = pend.clientId) (hpend : pend.Exact)
    (enonceUsed : Nat) (draws : List Bytes) (now : Int) :
    (tb.bindDeclare parent pend enonceUsed draws now).table.Exact := by
  have hmaterial : ∀ m, some (pend.material enonceUsed) = some m → Filed m.wtxidList m.txRaws := by
    rintro m ⟨⟩
    exact hpend.filed
  rw [JdTable.bindDeclare]
  split_ifs with hcomplete hsize hmay hdeclared
  · exact h
  · exact h
  · exact h
  · -- the first material of the parent, which held nothing
    obtain ⟨hglobal, hbudget⟩ := snapshotMayAdd_spec (Bool.eq_true_of_not_eq_false hmay)
    refine h.exchange hparent rfl ?_ hglobal ?_ (fun hno => by cases hno) hmaterial
    · show pend.snapshotBytes = parent.snapshotBytes + pend.snapshotBytes
      rw [h.undeclared parent hparent hdeclared, Nat.zero_add]
    · rw [hclient]
      exact hbudget
  · -- another token, after others were evicted
    obtain ⟨hglobal, hbudget⟩ := snapshotMayAdd_spec (Bool.eq_true_of_not_eq_false hmay)
    obtain ⟨hroom, hsub⟩ := h.evictWhileFull tb.tokens.length
    change tb.makeRoom.Exact at hroom
    change List.Sublist tb.makeRoom.tokens tb.tokens at hsub
    have hsum := snapshotSum_le hsub
    have hclientSum : clientSum pend.clientId tb.makeRoom.tokens
        ≤ clientSum pend.clientId tb.tokens := clientSum_le hsub
    rw [mintDeclare]
    split_ifs with hfull
    · exact hroom
    · split
      · exact hroom
      · refine hroom.insert (Nat.not_le.mp hfull) ?_ ?_ (fun hno => by cases hno) hmaterial
        · show tb.makeRoom.tokenSnapshotBytes + pend.snapshotBytes ≤ _
          rw [h.snapshotBytes] at hglobal
          rw [hroom.snapshotBytes]
          omega
        · show clientSum parent.clientId tb.makeRoom.tokens + pend.snapshotBytes ≤ _
          rw [hclient]
          omega

theorem Exact.acceptDeclare (h : tb.Exact) {pend : JdPending} (hpend : pend.Exact)
    {filled : Option JdPending} (hfilled : ∀ p, filled = some p → p.Exact ∧ pend.SameDeclare p)
    (enonceUsed : Nat) (draws : List Bytes) (now : Int) :
    (tb.acceptDeclare pend filled enonceUsed draws now).table.Exact := by
  have hexpired : (tb.expire now).Exact := h.freeWhere _ _
  rw [JdTable.acceptDeclare]
  split
  · exact hexpired
  · next parent hfind =>
      have hparent : parent ∈ (tb.expire now).tokens := findToken_mem hfind
      by_cases hclient : parent.clientId = pend.clientId
      · rw [if_neg (not_not.mpr hclient)]
        by_cases hidentical : parent.identical pend = true
        · rw [if_pos hidentical]
          exact hexpired.refresh hparent now
        · rw [if_neg hidentical]
          split
          · exact hexpired
          · next pend' hpend' =>
              split_ifs at hpend' with hcomplete
              · rw [← Option.some.inj hpend']
                exact hexpired.bindDeclare hparent hclient hpend enonceUsed draws now
              · obtain ⟨hexact, hsame⟩ := hfilled pend' hpend'
                exact hexpired.bindDeclare hparent (hclient.trans hsame.clientId.symm) hexact
                  enonceUsed draws now
      · rw [if_pos hclient]
        exact hexpired

/-- The operations beside the acceptance of a declare keep the counters. -/
theorem tableClosed_exact (conf : JdConf) : TableClosed conf JdTable.Exact where
  expire _ _ h := h.freeWhere _ _
  refresh _ _ now ht h := h.refresh ht now
  makeRoom _ h := (h.evictWhileFull _).1
  mint tb token clientId user now hroom h :=
    h.insert (t := newToken token clientId user (buildAllocateOutputs conf user) now) hroom
      h.snapshotBytes_le (h.client_le clientId) (fun _ => rfl) fun m hm => by cases hm
  dropClient _ _ h := h.freeWhere _ _
  dropAll _ h := h.freeWhere _ _

end JdTable

/-! ### Every run -/

/-- The counters of the tokens, of the cache and of every declare on its way. -/
structure JdState.Exact (s : JdState) : Prop where
  table : s.table.Exact
  txCache : s.txCache.Exact
  carried : s.Carried JdPending.Exact

theorem storeMatchingTxs_exact {pend : JdPending} {cache : TxCache} (hcache : cache.Exact)
    (hpend : pend.Exact) (txs : List Bytes) :
    (pend.storeMatchingTxs cache txs).1.Exact ∧
      ∀ pend', (pend.storeMatchingTxs cache txs).2 = some pend' → pend'.Exact := by
  refine JdPending.storeMatchingTxs_rule (fun _ raw _ _ h => h.put raw) ?_ hcache hpend
  intro pend pend' raw _ _ h hfill
  refine h.fill (fun wtxid raw' hraw' => ?_) hfill
  split_ifs at hraw' with hwtxid
  rw [← Option.some.inj hraw', hwtxid]

theorem carryClosed_exact (conf : JdConf) {s : JdState} (hcache : s.txCache.Exact) :
    CarryClosed conf JdPending.Exact s where
  fill _ _ hp hfill := hp.fill (fun _ _ hget => hcache.get hget) hfill
  store p p' _ txs hp hstore :=
    (storeMatchingTxs_exact hcache hp txs).2 p' (by rw [hstore])
  new clientId decl now _ := exact_pendingOf clientId decl now

/-- **A step keeps the counters.** -/
theorem jdStep_exact (conf : JdConf) {s : JdState} (h : s.Exact) (e : JdEvent) :
    (jdStep conf s e).Exact where
  table := by
    refine jdStep_table (JdTable.tableClosed_exact conf) e ?_ h.table
    intro pend enonceUsed r haccepting
    obtain ⟨⟨draws, now, rfl⟩, i, hi⟩ := accepting_result haccepting
    have hpend : pend.Exact := h.carried.threads i pend hi
    refine h.table.acceptDeclare hpend ?_ enonceUsed draws now
    exact fun p hp => ⟨hpend.fill (fun _ _ hget => h.txCache.get hget) hp,
      JdPending.sameDeclare_fill hp⟩
  txCache := jdStep_txCache conf e
    (fun pend hpend => (storeMatchingTxs_exact h.txCache (h.carried.pending pend hpend) _).1)
    h.txCache
  carried := jdStep_carried (carryClosed_exact conf h.txCache) h.carried e

theorem exact_start : JdState.start.Exact where
  table := {
    count := rfl
    count_le := Nat.zero_le _
    snapshotBytes := rfl
    snapshotBytes_le := Nat.zero_le _
    client_le := fun _ => Nat.zero_le _
    undeclared := fun t ht => absurd ht List.not_mem_nil
    filed := fun t ht => absurd ht List.not_mem_nil }
  txCache := {
    count := rfl
    bytes := rfl
    count_le := Nat.zero_le _
    bytes_le := Nat.zero_le _
    filed := fun e he => absurd he List.not_mem_nil }
  carried := ⟨fun p hp => absurd hp List.not_mem_nil, fun p hp => absurd hp List.not_mem_nil,
    fun i p hp => by cases hp⟩

/-- **The counters of the job declarator are what they count, and within their budgets**,
and every transaction is filed under its hash. -/
theorem jd_counters_exact (conf : JdConf) (events : List JdEvent) :
    (run (jdStep conf) .start events).Exact :=
  run_invariant_always (I := JdState.Exact) (fun _ e h => jdStep_exact conf h e) events exact_start

end CashStratum
