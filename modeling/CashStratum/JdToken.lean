/-
CashStratum/JdToken.lean

The table of mining job tokens of the job declarator (`sv2_jd.c`): allocation and
re-issue, expiry, eviction, the drop of a client, and `token_accept_declare_locked`,
which binds a declare to a token.

The table is the list of tokens in the order in which they were added, which is the
order in which the source iterates over it.  A token that has been declared carries
its reconstruction material.  `freed` records the tokens that left the table and why;
nothing reads it.

Two things are said of each operation.  It makes no token but those it is given
(`AllTokens`), and it keeps a declared token (`Keeps`): the token stays the one that is
found under its name, with its material, or it is recorded as freed, and never for
eviction or before its time.
-/
import CashStratum.JdCoinbase

namespace CashStratum

/-! ### Tokens -/

/-- The material to rebuild a block from; the raw transactions are in the order of
the wtxids, `none` for an empty slot. -/
structure JdMaterial where
  version : UInt32
  coinbaseTxPrefix : Bytes
  coinbaseTxSuffix : Bytes
  wtxidList : List Hash256
  txRaws : List (Option Bytes)
  enonceLen : Nat
  deriving DecidableEq

/-- `struct sv2_jd_token`; it is declared when it has its material. -/
structure JdToken where
  token : Bytes
  clientId : Int
  userIdentifier : Bytes
  created : Int
  payoutScript : Option Bytes
  material : Option JdMaterial
  snapshotBytes : Nat
  deriving DecidableEq

/-- `declared`. -/
def JdToken.declared (t : JdToken) : Bool := t.material.isSome

/-- `struct sv2_jd_pending`, of a declare whose transactions are being collected. -/
structure JdPending where
  requestId : UInt32
  clientId : Int
  created : Int
  token : Bytes
  version : UInt32
  coinbaseTxPrefix : Bytes
  coinbaseTxSuffix : Bytes
  wtxidList : List Hash256
  txRaws : List (Option Bytes)
  txBytes : Nat

/-- The material a pending declare leaves on its token. -/
def JdPending.material (pend : JdPending) (enonceUsed : Nat) : JdMaterial where
  version := pend.version
  coinbaseTxPrefix := pend.coinbaseTxPrefix
  coinbaseTxSuffix := pend.coinbaseTxSuffix
  wtxidList := pend.wtxidList
  txRaws := pend.txRaws
  enonceLen := enonceUsed

/-- Why a token was freed. -/
inductive FreeCause
  | expired (now : Int)
  | evicted
  | clientDropped
  | allDropped

/-- The tokens with their counters. -/
structure JdTable where
  tokens : List JdToken
  tokenCount : Nat
  tokenSnapshotBytes : Nat
  freed : List (JdToken × FreeCause)

/-- `SV2_JD_TOKEN_TTL_DECLARED_SECS` and `SV2_JD_TOKEN_TTL_UNDECLARED_SECS`. -/
def JdToken.ttl (t : JdToken) : Int := if t.declared then 3600 else 7200

/-- `SV2_JD_MAX_TOKENS_GLOBAL`. -/
def maxTokensGlobal : Nat := 4096

/-- `SV2_JD_MAX_TOKENS_PER_MIN`. -/
def maxTokensPerMin : Nat := 20

/-- `SV2_JD_MAX_TOKEN_SNAPSHOT_BYTES_GLOBAL`. -/
def maxTokenSnapshotBytesGlobal : Nat := 512 * 2 ^ 20

/-- `SV2_JD_MAX_TOKEN_SNAPSHOT_BYTES_CLIENT`. -/
def maxTokenSnapshotBytesClient : Nat := 64 * 2 ^ 20

/-- `SV2_JD_MAX_BLOCK_BYTES`. -/
def maxBlockBytes : Nat := 4 * 1024 * 1024

namespace JdTable

/-- An empty table. -/
def empty : JdTable where
  tokens := []
  tokenCount := 0
  tokenSnapshotBytes := 0
  freed := []

/-- `find_token_locked`. -/
def findToken (tb : JdTable) (token : Bytes) : Option JdToken :=
  tb.tokens.find? fun t => t.token = token

/-- `free_token_locked`. -/
def freeToken (tb : JdTable) (t : JdToken) (cause : FreeCause) : JdTable where
  tokens := tb.tokens.erase t
  tokenCount := tb.tokenCount - 1
  tokenSnapshotBytes := tb.tokenSnapshotBytes - t.snapshotBytes
  freed := tb.freed ++ [(t, cause)]

/-- Free each token that satisfies a test, in the order of the table. -/
def freeWhere (tb : JdTable) (test : JdToken → Bool) (cause : FreeCause) : JdTable where
  tokens := tb.tokens.filter fun t => !test t
  tokenCount := tb.tokenCount - (tb.tokens.filter test).length
  tokenSnapshotBytes :=
    tb.tokenSnapshotBytes - ((tb.tokens.filter test).map JdToken.snapshotBytes).sum
  freed := tb.freed ++ (tb.tokens.filter test).map fun t => (t, cause)

/-- `expire_old_tokens_locked`, of the tokens. -/
def expire (tb : JdTable) (now : Int) : JdTable :=
  tb.freeWhere (fun t => decide (now - t.created > t.ttl)) (.expired now)

/-- The tokens of `sv2_jd_drop_client`. -/
def dropClient (tb : JdTable) (clientId : Int) : JdTable :=
  tb.freeWhere (fun t => decide (t.clientId = clientId)) .clientDropped

/-- The tokens of `sv2_jd_drop_all`. -/
def dropAll (tb : JdTable) : JdTable := tb.freeWhere (fun _ => true) .allDropped

/-- The loops that look for a token: a token replaces the best one so far if it is
`better`. -/
def bestToken (better : JdToken → JdToken → Bool) (ts : List JdToken) : Option JdToken :=
  ts.foldl (fun best t =>
    match best with
    | none => some t
    | some b => if better t b then some t else some b) none

/-- The first of the tokens that were created before all others. -/
def oldest : List JdToken → Option JdToken := bestToken fun t b => decide (t.created < b.created)

/-- The last of the tokens that were created after all others. -/
def newest : List JdToken → Option JdToken := bestToken fun t b => decide (t.created ≥ b.created)

/-- `free_oldest_undeclared_global_locked`, as long as the table is full. -/
def evictWhileFull : Nat → JdTable → JdTable
  | 0, tb => tb
  | n + 1, tb =>
    if tb.tokenCount < maxTokensGlobal then tb
    else
      match oldest (tb.tokens.filter fun t => !t.declared) with
      | none => tb
      | some t => evictWhileFull n (tb.freeToken t .evicted)

/-- Both callers evict until there is room or nothing undeclared is left. -/
def makeRoom (tb : JdTable) : JdTable := tb.evictWhileFull tb.tokens.length

/-! ### Allocation -/

/-- `find_client_undeclared_token_locked`. -/
def findClientUndeclaredToken (tb : JdTable) (clientId : Int) (user : Bytes) : Option JdToken :=
  newest (tb.tokens.filter fun t =>
    decide (t.clientId = clientId) && !t.declared && decide (t.userIdentifier = user))

/-- `find_client_oldest_token_locked`. -/
def findClientOldestToken (tb : JdTable) (clientId : Int) (user : Bytes) : Option JdToken :=
  oldest (tb.tokens.filter fun t =>
    decide (t.clientId = clientId) && decide (t.userIdentifier = user))

/-- The token to hand out again under pressure: the newest undeclared one of this
client and user, else its oldest one, else the client's oldest of any user. -/
def findReissue (tb : JdTable) (clientId : Int) (user : Bytes) : Option JdToken :=
  (tb.findClientUndeclaredToken clientId user).or
    ((tb.findClientOldestToken clientId user).or
      (oldest (tb.tokens.filter fun t => decide (t.clientId = clientId))))

/-- A token handed out again starts its lifetime again. -/
def refresh (tb : JdTable) (t : JdToken) (now : Int) : JdTable :=
  { tb with tokens := tb.tokens.replace t { t with created := now } }

/-- A token added to the table. -/
def addToken (tb : JdTable) (t : JdToken) : JdTable :=
  { tb with tokens := tb.tokens ++ [t], tokenCount := tb.tokenCount + 1 }

/-! ### The acceptance of a declare -/

/-- `token_snapshot_client_bytes_locked`. -/
def snapshotClientBytes (tb : JdTable) (clientId : Int) : Nat :=
  ((tb.tokens.filter fun t => decide (t.clientId = clientId)).map JdToken.snapshotBytes).sum

/-- `token_snapshot_may_add_locked`. -/
def snapshotMayAdd (tb : JdTable) (clientId : Int) (bytes : Nat) : Bool :=
  decide (bytes ≤ maxTokenSnapshotBytesGlobal) &&
    decide (tb.tokenSnapshotBytes ≤ maxTokenSnapshotBytesGlobal - bytes) &&
    decide (bytes ≤ maxTokenSnapshotBytesClient) &&
    decide (tb.snapshotClientBytes clientId ≤ maxTokenSnapshotBytesClient - bytes)

/-- `token_steal_declare_locked`: what it makes of a token. -/
def stealDeclare (t : JdToken) (pend : JdPending) (enonceUsed snapshotBytes : Nat) (now : Int) :
    JdToken :=
  { t with
    created := now
    material := some (pend.material enonceUsed)
    snapshotBytes := snapshotBytes }

end JdTable

/-- `pending_txs_complete`. -/
def JdPending.txsComplete (pend : JdPending) : Bool := pend.txRaws.all Option.isSome

/-- `pending_rebuild_size_ok`. -/
def JdPending.rebuildSizeOk (pend : JdPending) (enonceLen : Nat) : Bool :=
  80 + sv2CompactSizeLen (pend.wtxidList.length + 1) + pend.coinbaseTxPrefix.length + enonceLen +
    pend.coinbaseTxSuffix.length + pend.txBytes ≤ maxBlockBytes

/-- `pending_snapshot_bytes`, with pointers of 8 bytes and lengths of 4. -/
def JdPending.snapshotBytes (pend : JdPending) : Nat :=
  pend.txBytes + pend.coinbaseTxPrefix.length + pend.coinbaseTxSuffix.length +
    pend.wtxidList.length * 32 + pend.wtxidList.length * (8 + 4)

/-- A declare that the token has already, byte for byte. -/
def JdToken.identical (t : JdToken) (pend : JdPending) : Bool :=
  t.material.any fun m =>
    decide (m.version = pend.version) && decide (m.coinbaseTxPrefix = pend.coinbaseTxPrefix) &&
      decide (m.coinbaseTxSuffix = pend.coinbaseTxSuffix) && decide (m.wtxidList = pend.wtxidList)

/-- What comes of a declare: the table is that of after the expiry in each case. -/
inductive AcceptResult
  /-- The return code: 1 bad token or material, 2 busy, 3 oversized. -/
  | refused (rc : Nat) (tb : JdTable)
  /-- The token has this material already. -/
  | reused (tb : JdTable)
  /-- The declare is bound to `token`. -/
  | installed (tb : JdTable) (token : Bytes)

namespace JdTable

/-- `token_accept_declare_locked` on a declared parent: another token takes the
material.  `draws` are the random tokens that `token_fill_unique_locked` tries; the
source draws until one is new. -/
def mintDeclare (tb : JdTable) (parent : JdToken) (pend : JdPending) (enonceUsed : Nat)
    (draws : List Bytes) (now : Int) : AcceptResult :=
  if tb.tokenCount ≥ maxTokensGlobal then .refused 2 tb
  else
    match draws.find? fun token => (tb.findToken token).isNone with
    | none => .refused 2 tb
    | some token =>
      let tok := stealDeclare
        { token := token
          clientId := parent.clientId
          userIdentifier := parent.userIdentifier
          created := now
          payoutScript := parent.payoutScript
          material := none
          snapshotBytes := 0 } pend enonceUsed pend.snapshotBytes now
      .installed
        { tb.addToken tok with
          tokenSnapshotBytes := tb.tokenSnapshotBytes + pend.snapshotBytes }
        token

/-- `token_accept_declare_locked` with the transactions of `pend` filled in. -/
def bindDeclare (tb : JdTable) (parent : JdToken) (pend : JdPending) (enonceUsed : Nat)
    (draws : List Bytes) (now : Int) : AcceptResult :=
  if pend.txsComplete = false then .refused 1 tb
  else if pend.rebuildSizeOk enonceUsed = false then .refused 3 tb
  else if tb.snapshotMayAdd pend.clientId pend.snapshotBytes = false then .refused 2 tb
  else if parent.declared = false then
    .installed
      { tb with
        tokens := tb.tokens.replace parent
          (stealDeclare parent pend enonceUsed pend.snapshotBytes now)
        tokenSnapshotBytes := tb.tokenSnapshotBytes + pend.snapshotBytes }
      parent.token
  else tb.makeRoom.mintDeclare parent pend enonceUsed draws now

/-- `token_accept_declare_locked`.  `filled` is `pend` with its empty slots filled from
the cache, `none` when that exceeds the size policy. -/
def acceptDeclare (tb : JdTable) (pend : JdPending) (filled : Option JdPending)
    (enonceUsed : Nat) (draws : List Bytes) (now : Int) : AcceptResult :=
  let tb := tb.expire now
  match tb.findToken pend.token with
  | none => .refused 1 tb
  | some parent =>
    if parent.clientId ≠ pend.clientId then .refused 1 tb
    else if parent.identical pend then .reused (tb.refresh parent now)
    else
      match if pend.txsComplete then some pend else filled with
      | none => .refused 3 tb
      | some pend => tb.bindDeclare parent pend enonceUsed draws now

end JdTable

/-- The table a declare leaves. -/
def AcceptResult.table : AcceptResult → JdTable
  | refused _ tb => tb
  | reused tb => tb
  | installed tb _ => tb

/-! ### Lists of tokens -/

section Lists

variable {α : Type*} [DecidableEq α]

theorem replace_cons_of_ne {a b c : α} (h : c ≠ a) (l : List α) :
    (c :: l).replace a b = c :: l.replace a b := by
  have hbeq : (a == c) = false := by simpa using h.symm
  rw [List.replace_cons, hbeq]

theorem mem_of_mem_replace {l : List α} {a b u : α} (h : u ∈ l.replace a b) : u ∈ l ∨ u = b := by
  induction l with
  | nil => cases h
  | cons c l ih =>
    by_cases hca : c = a
    · subst hca
      rw [List.replace_cons_self, List.mem_cons] at h
      rcases h with rfl | h
      · exact Or.inr rfl
      · exact Or.inl (List.mem_cons_of_mem c h)
    · rw [replace_cons_of_ne hca, List.mem_cons] at h
      rcases h with rfl | h
      · exact Or.inl List.mem_cons_self
      · exact (ih h).imp_left (List.mem_cons_of_mem c)

theorem find?_replace {l : List α} {p : α → Bool} {a b t : α} (hab : p b = p a)
    (h : l.find? p = some t) : (l.replace a b).find? p = some (if t = a then b else t) := by
  induction l with
  | nil => cases h
  | cons c l ih =>
    by_cases hca : c = a
    · subst hca
      rw [List.replace_cons_self]
      by_cases hc : p c = true
      · rw [List.find?_cons_of_pos hc, Option.some.injEq] at h
        rw [List.find?_cons_of_pos (hab.trans hc), if_pos h.symm]
      · rw [List.find?_cons_of_neg hc] at h
        have hne : t ≠ c := by
          rintro rfl
          exact hc (List.find?_some h)
        rw [List.find?_cons_of_neg (by rwa [hab]), if_neg hne, h]
    · rw [replace_cons_of_ne hca]
      by_cases hc : p c = true
      · rw [List.find?_cons_of_pos hc, Option.some.injEq] at h
        rw [List.find?_cons_of_pos hc, ← h, if_neg hca]
      · rw [List.find?_cons_of_neg hc] at h
        rw [List.find?_cons_of_neg hc]
        exact ih h

theorem find?_erase {l : List α} {p : α → Bool} {u t : α} (hne : t ≠ u)
    (h : l.find? p = some t) : (l.erase u).find? p = some t := by
  induction l with
  | nil => cases h
  | cons c l ih =>
    by_cases hcu : c = u
    · subst hcu
      rw [List.erase_cons_head]
      by_cases hc : p c = true
      · rw [List.find?_cons_of_pos hc, Option.some.injEq] at h
        exact absurd h.symm hne
      · rwa [List.find?_cons_of_neg hc] at h
    · rw [List.erase_cons_tail (by simpa using hcu)]
      by_cases hc : p c = true
      · rw [List.find?_cons_of_pos hc] at h ⊢
        exact h
      · rw [List.find?_cons_of_neg hc] at h ⊢
        exact ih h

omit [DecidableEq α] in
theorem find?_filter {l : List α} {p q : α → Bool} {t : α} (hq : q t = true)
    (h : l.find? p = some t) : (l.filter q).find? p = some t := by
  induction l with
  | nil => cases h
  | cons c l ih =>
    by_cases hc : p c = true
    · rw [List.find?_cons_of_pos hc, Option.some.injEq] at h
      subst h
      rw [List.filter_cons_of_pos hq, List.find?_cons_of_pos hc]
    · rw [List.find?_cons_of_neg hc] at h
      by_cases hqc : q c = true
      · rw [List.filter_cons_of_pos hqc, List.find?_cons_of_neg hc]
        exact ih h
      · rw [List.filter_cons_of_neg hqc]
        exact ih h

end Lists

variable {tb : JdTable} {t : JdToken}

namespace JdTable

/-! ### No tokens but those given -/

/-- Every token's payout script and material satisfy `P`. -/
def AllTokens (P : Option Bytes → Option JdMaterial → Prop) (tb : JdTable) : Prop :=
  ∀ t ∈ tb.tokens, P t.payoutScript t.material

section AllTokens

variable {P : Option Bytes → Option JdMaterial → Prop} {tb : JdTable}

theorem AllTokens.freeToken (h : tb.AllTokens P) (t : JdToken) (cause : FreeCause) :
    (tb.freeToken t cause).AllTokens P :=
  fun _ hu => h _ (List.mem_of_mem_erase hu)

theorem AllTokens.freeWhere (h : tb.AllTokens P) (test : JdToken → Bool) (cause : FreeCause) :
    (tb.freeWhere test cause).AllTokens P :=
  fun _ hu => h _ (List.mem_of_mem_filter hu)

theorem AllTokens.evictWhileFull (h : tb.AllTokens P) (n : Nat) :
    (tb.evictWhileFull n).AllTokens P := by
  induction n generalizing tb with
  | zero => exact h
  | succ n ih =>
    rw [JdTable.evictWhileFull]
    split_ifs
    · exact h
    · split
      · exact h
      · exact ih (h.freeToken _ _)

theorem AllTokens.refresh (h : tb.AllTokens P) (ht : t ∈ tb.tokens) (now : Int) :
    (tb.refresh t now).AllTokens P := by
  intro u hu
  rcases mem_of_mem_replace hu with hu | rfl
  · exact h u hu
  · exact h t ht

theorem AllTokens.addToken (h : tb.AllTokens P) (ht : P t.payoutScript t.material) :
    (tb.addToken t).AllTokens P := by
  intro u hu
  rcases List.mem_append.mp hu with hu | hu
  · exact h u hu
  · rw [List.mem_singleton.mp hu]
    exact ht

theorem findToken_mem {token : Bytes} (h : tb.findToken token = some t) :
    t ∈ tb.tokens :=
  List.mem_of_find?_eq_some h

theorem findToken_token {token : Bytes} (h : tb.findToken token = some t) :
    t.token = token := by
  simpa using List.find?_some h

end AllTokens

/-! ### Declared tokens are kept -/

/-- A reason for which a declared token may be freed. -/
def FreedFor (t : JdToken) : FreeCause → Prop
  | .expired now => now - t.created > t.ttl
  | .evicted => t.declared = false
  | .clientDropped => True
  | .allDropped => True

/-- `token` is found and declared with the material `m`. -/
def HasMaterial (tb : JdTable) (token : Bytes) (m : JdMaterial) : Prop :=
  ∃ t, tb.findToken token = some t ∧ t.material = some m

/-- Behind the first `mark` entries of the record, a token of this name that was
declared with the material `m` was freed. -/
def FreedSince (tb : JdTable) (mark : Nat) (token : Bytes) (m : JdMaterial) : Prop :=
  ∃ t cause, (t, cause) ∈ tb.freed.drop mark ∧ t.token = token ∧ t.material = some m ∧
    FreedFor t cause

/-- What an operation keeps: each declared token, unless it is freed, and the record of
the tokens freed. -/
structure Keeps (tb tb' : JdTable) : Prop where
  declared : ∀ token m, tb.HasMaterial token m →
    tb'.HasMaterial token m ∨ tb'.FreedSince tb.freed.length token m
  freed : tb.freed <+: tb'.freed

theorem FreedSince.mono {tb tb' : JdTable} {mark mark' : Nat} {token : Bytes} {m : JdMaterial}
    (h : tb.FreedSince mark token m) (hmark : mark' ≤ mark) (hfreed : tb.freed <+: tb'.freed) :
    tb'.FreedSince mark' token m := by
  obtain ⟨t, cause, hmem, ht⟩ := h
  refine ⟨t, cause, ?_, ht⟩
  have hdrop : tb.freed.drop mark <+: tb'.freed.drop mark := by
    obtain ⟨rest, hrest⟩ := hfreed
    rw [← hrest, List.drop_append]
    exact List.prefix_append _ _
  exact (List.drop_sublist_drop_left _ hmark).subset (hdrop.subset hmem)

theorem Keeps.refl (tb : JdTable) : tb.Keeps tb := ⟨fun _ _ h => Or.inl h, List.prefix_refl _⟩

theorem Keeps.trans {tb tb' tb'' : JdTable} (h : tb.Keeps tb') (h' : tb'.Keeps tb'') :
    tb.Keeps tb'' := by
  refine ⟨fun token m hm => ?_, h.freed.trans h'.freed⟩
  rcases h.declared token m hm with hm | hm
  · exact (h'.declared token m hm).imp_right fun hm =>
      hm.mono h.freed.length_le (List.prefix_refl _)
  · exact Or.inr (hm.mono le_rfl h'.freed)

/-- An operation that appends to the record frees what it appends. -/
theorem freedSince_append {freed : List (JdToken × FreeCause)}
    {cause : FreeCause} {m : JdMaterial} (tb' : JdTable) (hfreed : tb'.freed = tb.freed ++ freed)
    (hmem : (t, cause) ∈ freed) (hm : t.material = some m) (hcause : FreedFor t cause) :
    tb'.FreedSince tb.freed.length t.token m := by
  refine ⟨t, cause, ?_, rfl, hm, hcause⟩
  rw [hfreed, List.drop_left]
  exact hmem

/-- Freeing a token keeps the others. -/
theorem keeps_freeToken (tb : JdTable) {cause : FreeCause} (ht : FreedFor t cause) :
    tb.Keeps (tb.freeToken t cause) := by
  refine ⟨fun token m => ?_, List.prefix_append _ _⟩
  rintro ⟨u, hu, hm⟩
  by_cases hut : u = t
  · subst hut
    right
    rw [← findToken_token hu]
    exact freedSince_append _ rfl (List.mem_singleton_self _) hm ht
  · exact Or.inl ⟨u, find?_erase hut hu, hm⟩

theorem keeps_freeWhere (tb : JdTable) {test : JdToken → Bool} {cause : FreeCause}
    (htest : ∀ t, test t = true → FreedFor t cause) : tb.Keeps (tb.freeWhere test cause) := by
  refine ⟨fun token m => ?_, List.prefix_append _ _⟩
  rintro ⟨u, hu, hm⟩
  by_cases hut : test u = true
  · right
    have hfreed : u ∈ tb.tokens.filter test := List.mem_filter.mpr ⟨findToken_mem hu, hut⟩
    rw [← findToken_token hu]
    exact freedSince_append _ rfl (List.mem_map_of_mem (f := fun t => (t, cause)) hfreed) hm
      (htest u hut)
  · exact Or.inl ⟨u, find?_filter (by simpa using hut) hu, hm⟩

theorem keeps_expire (tb : JdTable) (now : Int) : tb.Keeps (tb.expire now) :=
  keeps_freeWhere tb fun t h => show now - t.created > t.ttl from of_decide_eq_true h

theorem keeps_dropClient (tb : JdTable) (clientId : Int) : tb.Keeps (tb.dropClient clientId) :=
  keeps_freeWhere tb fun _ _ => trivial

theorem keeps_dropAll (tb : JdTable) : tb.Keeps tb.dropAll := keeps_freeWhere tb fun _ _ => trivial

/-- The best token is one of the tokens. -/
theorem mem_of_bestToken {better : JdToken → JdToken → Bool} {ts : List JdToken}
    (h : bestToken better ts = some t) : t ∈ ts := by
  -- the fold, from any best token so far
  have aux : ∀ (us : List JdToken) (best : Option JdToken),
      us.foldl (fun best t =>
        match best with
        | none => some t
        | some b => if better t b then some t else some b) best = some t →
      t ∈ us ∨ best = some t := by
    intro us
    induction us with
    | nil => exact fun best h => Or.inr h
    | cons u us ih =>
      intro best h
      rcases ih _ h with hmem | hbest
      · exact Or.inl (List.mem_cons_of_mem u hmem)
      · rcases best with - | b
        · exact Or.inl (Option.some.inj hbest ▸ List.mem_cons_self)
        · dsimp only at hbest
          split_ifs at hbest
          · exact Or.inl (Option.some.inj hbest ▸ List.mem_cons_self)
          · exact Or.inr hbest
  exact (aux ts none h).resolve_right (by simp)

/-- Eviction takes undeclared tokens only. -/
theorem keeps_evictWhileFull (n : Nat) (tb : JdTable) : tb.Keeps (tb.evictWhileFull n) := by
  induction n generalizing tb with
  | zero => exact .refl tb
  | succ n ih =>
    rw [evictWhileFull]
    split_ifs
    · exact .refl tb
    · split
      · exact .refl tb
      · next t ht =>
          have hundeclared : t.declared = false := by
            simpa using (List.mem_filter.mp (mem_of_bestToken ht)).2
          have hkeeps : tb.Keeps (tb.freeToken t .evicted) := keeps_freeToken tb hundeclared
          exact hkeeps.trans (ih _)

/-- A token that is handed out again keeps its material. -/
theorem keeps_refresh (tb : JdTable) (t : JdToken) (now : Int) : tb.Keeps (tb.refresh t now) := by
  refine ⟨fun token m => ?_, List.prefix_refl _⟩
  rintro ⟨u, hu, hm⟩
  have hfind := find?_replace (b := { t with created := now }) (a := t) rfl hu
  refine Or.inl ⟨_, hfind, ?_⟩
  split_ifs with hut
  · rw [← hm, hut]
  · exact hm

/-- A token that joins the table is found behind the others. -/
theorem keeps_addToken (tb : JdTable) (t : JdToken) : tb.Keeps (tb.addToken t) := by
  refine ⟨fun token m => ?_, List.prefix_refl _⟩
  rintro ⟨u, hu, hm⟩
  refine Or.inl ⟨u, ?_, hm⟩
  rw [findToken, addToken, List.find?_append]
  rw [findToken] at hu
  rw [hu]
  rfl

theorem keeps_makeRoom (tb : JdTable) : tb.Keeps tb.makeRoom := keeps_evictWhileFull _ tb

/-- The first material of a token takes nothing from the others. -/
theorem keeps_replace (tb : JdTable) {t t' : JdToken} (htoken : t'.token = t.token)
    (ht : t.declared = false) (bytes : Nat) :
    tb.Keeps { tb with tokens := tb.tokens.replace t t', tokenSnapshotBytes := bytes } := by
  refine ⟨fun token m => ?_, List.prefix_refl _⟩
  rintro ⟨u, hu, hm⟩
  have hne : u ≠ t := by
    rintro rfl
    simp [JdToken.declared, hm] at ht
  have hfind := find?_replace (a := t) (b := t') (by simp [htoken]) hu
  rw [if_neg hne] at hfind
  exact Or.inl ⟨u, hfind, hm⟩

/-! ### The acceptance of a declare, case by case -/

/-- What `acceptDeclare` can do; `tb` is the table after the expiry. -/
inductive Accepts (tb : JdTable) (pend : JdPending) (filled : Option JdPending)
    (enonceUsed : Nat) (now : Int) : AcceptResult → Prop
  /-- Nothing is bound. -/
  | refused (rc : Nat) : Accepts tb pend filled enonceUsed now (.refused rc tb)
  /-- Nothing is bound, but undeclared tokens were evicted. -/
  | full : Accepts tb pend filled enonceUsed now (.refused 2 tb.makeRoom)
  /-- The parent has the material. -/
  | reused (parent : JdToken) (hfind : tb.findToken pend.token = some parent)
      (hidentical : parent.identical pend = true) :
      Accepts tb pend filled enonceUsed now (.reused (tb.refresh parent now))
  /-- The parent receives its material. -/
  | first (parent : JdToken) (pend' : JdPending) (hfind : tb.findToken pend.token = some parent)
      (hclient : parent.clientId = pend.clientId) (hpend : pend' = pend ∨ filled = some pend')
      (hcomplete : pend'.txsComplete = true) (hdeclared : parent.declared = false) :
      Accepts tb pend filled enonceUsed now
        (.installed
          { tb with
            tokens := tb.tokens.replace parent
              (stealDeclare parent pend' enonceUsed pend'.snapshotBytes now)
            tokenSnapshotBytes := tb.tokenSnapshotBytes + pend'.snapshotBytes }
          parent.token)
  /-- A new token receives the material. -/
  | minted (parent : JdToken) (pend' : JdPending) (tok : JdToken)
      (hfind : tb.findToken pend.token = some parent)
      (hclient : parent.clientId = pend.clientId) (hpend : pend' = pend ∨ filled = some pend')
      (hcomplete : pend'.txsComplete = true) (hdeclared : parent.declared = true)
      (hnew : tb.makeRoom.findToken tok.token = none)
      (hpayout : tok.payoutScript = parent.payoutScript)
      (howner : tok.clientId = parent.clientId)
      (hmaterial : tok.material = some (pend'.material enonceUsed))
      (hcount : tb.makeRoom.tokenCount < maxTokensGlobal) :
      Accepts tb pend filled enonceUsed now
        (.installed
          { tb.makeRoom.addToken tok with
            tokenSnapshotBytes := tb.makeRoom.tokenSnapshotBytes + pend'.snapshotBytes }
          tok.token)

theorem bindDeclare_accepts {pend pend' : JdPending} {filled : Option JdPending}
    {parent : JdToken} (hfind : tb.findToken pend.token = some parent)
    (hclient : parent.clientId = pend.clientId) (hpend : pend' = pend ∨ filled = some pend')
    (enonceUsed : Nat) (draws : List Bytes) (now : Int) :
    Accepts tb pend filled enonceUsed now (tb.bindDeclare parent pend' enonceUsed draws now) := by
  rw [bindDeclare]
  split_ifs with hcomplete hsize hmay hdeclared
  · exact .refused 1
  · exact .refused 3
  · exact .refused 2
  · exact .first parent pend' hfind hclient hpend (by simpa using hcomplete) hdeclared
  · rw [mintDeclare]
    split_ifs with hroom
    · exact .full
    · split
      · exact .full
      · next token htoken =>
          have hnew : tb.makeRoom.findToken token = none := by simpa using List.find?_some htoken
          exact .minted parent pend' _ hfind hclient hpend (by simpa using hcomplete)
            (by simpa using hdeclared) hnew rfl rfl rfl (Nat.not_le.mp hroom)

theorem acceptDeclare_accepts (tb : JdTable) (pend : JdPending) (filled : Option JdPending)
    (enonceUsed : Nat) (draws : List Bytes) (now : Int) :
    Accepts (tb.expire now) pend filled enonceUsed now
      (tb.acceptDeclare pend filled enonceUsed draws now) := by
  rw [acceptDeclare]
  split
  · exact .refused 1
  · next parent hfind =>
      by_cases hclient : parent.clientId = pend.clientId
      · rw [if_neg (not_not.mpr hclient)]
        by_cases hidentical : parent.identical pend = true
        · rw [if_pos hidentical]
          exact .reused parent hfind hidentical
        · rw [if_neg hidentical]
          split
          · exact .refused 3
          · next pend' hpend' =>
              refine bindDeclare_accepts hfind hclient ?_ enonceUsed draws now
              by_cases hcomplete : pend.txsComplete = true
              · rw [if_pos hcomplete] at hpend'
                exact Or.inl (Option.some.inj hpend').symm
              · rw [if_neg hcomplete] at hpend'
                exact Or.inr hpend'
      · rw [if_pos hclient]
        exact .refused 1

/-- A declare keeps the tokens that are declared already. -/
theorem Accepts.keeps {pend : JdPending} {filled : Option JdPending}
    {enonceUsed : Nat} {now : Int} {r : AcceptResult}
    (h : Accepts tb pend filled enonceUsed now r) : tb.Keeps r.table := by
  cases h with
  | refused rc => exact .refl tb
  | full => exact keeps_makeRoom tb
  | reused parent hfind hidentical => exact keeps_refresh tb parent now
  | first parent pend' hfind hclient hpend hcomplete hdeclared =>
    have htoken : (stealDeclare parent pend' enonceUsed pend'.snapshotBytes now).token =
        parent.token := rfl
    exact keeps_replace tb htoken hdeclared _
  | minted parent pend' tok hfind hclient hpend hcomplete hdeclared hnew hpayout howner hmaterial
      hcount =>
      have hadd := (keeps_makeRoom tb).trans (keeps_addToken tb.makeRoom tok)
      exact ⟨hadd.declared, hadd.freed⟩

/-- A declare leaves the tokens of the table, and it may bind its own material to the
payout script of its parent. -/
theorem Accepts.allTokens {P : Option Bytes → Option JdMaterial → Prop}
    {pend : JdPending} {filled : Option JdPending} {enonceUsed : Nat} {now : Int}
    {r : AcceptResult} (h : Accepts tb pend filled enonceUsed now r) (hall : tb.AllTokens P)
    (hbind : (∃ tb' token, r = .installed tb' token) → ∀ payout old pend', P payout old →
      pend' = pend ∨ filled = some pend' → pend'.txsComplete = true →
      P payout (some (pend'.material enonceUsed))) :
    r.table.AllTokens P := by
  cases h with
  | refused rc => exact hall
  | full => exact hall.evictWhileFull _
  | reused parent hfind hidentical => exact hall.refresh (findToken_mem hfind) now
  | first parent pend' hfind hclient hpend hcomplete hdeclared =>
    intro u hu
    rcases mem_of_mem_replace hu with hu | rfl
    · exact hall u hu
    · exact hbind ⟨_, _, rfl⟩ _ _ pend' (hall parent (findToken_mem hfind)) hpend hcomplete
  | minted parent pend' tok hfind hclient hpend hcomplete hdeclared hnew hpayout howner hmaterial
      hcount =>
      have hroom : tb.makeRoom.AllTokens P := hall.evictWhileFull _
      refine (hroom.addToken (t := tok) ?_)
      rw [hpayout, hmaterial]
      exact hbind ⟨_, _, rfl⟩ _ _ pend' (hall parent (findToken_mem hfind)) hpend hcomplete

end JdTable

end CashStratum
