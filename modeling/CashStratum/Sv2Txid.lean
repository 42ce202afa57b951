/-
CashStratum/Sv2Txid.lean

What `sv2_bitcoin_txid` (sv2_tx.c) hashes, for every buffer that it accepts.

A `TxLayout` is a transaction in its parts: version, marker and flag, inputs and
outputs, witness stacks, locktime, and the bytes that follow it in the buffer.  The
walker accepts a buffer exactly when it has such a layout (`txWalk_bytes`,
`exists_layout`), and then `sv2_bitcoin_tx_parse` reports the length and both hashes of
the transaction alone.

`sv2_bitcoin_txid` hashes the same bytes for its id, except for a transaction without
witness: there it hashes the whole buffer, and with it whatever follows the transaction.
-/
import CashStratum.Sv2Tx

namespace CashStratum

/-! ### Readers of the parts -/

theorem exact_skipInput : Exact skipInput := by
  have hrest : ∀ n : Nat, Exact fun p => if n > uint64Max - 4 then none else skipBytes (n + 4) p := by
    intro n p q h
    split_ifs at h with hn
    obtain ⟨a, rfl, ha⟩ := exact_skipBytes (n + 4) p q h
    exact ⟨a, rfl, by simpa only [if_neg hn] using ha⟩
  exact Exact.bind (framed_skipBytes 36) (exact_skipBytes 36)
    (ExactRead.bind framedRead_sv2ReadCompactSize exactRead_sv2ReadCompactSize hrest)

theorem exact_skipOutput : Exact skipOutput :=
  Exact.bind (framed_skipBytes 8) (exact_skipBytes 8)
    (ExactRead.bind framedRead_sv2ReadCompactSize exactRead_sv2ReadCompactSize exact_skipBytes)

theorem exact_skipWitness : Exact skipWitness := by
  have hframed : Framed skipWitnessItem := framedRead_sv2ReadCompactSize.bind framed_skipBytes
  have hitem : Exact skipWitnessItem :=
    ExactRead.bind framedRead_sv2ReadCompactSize exactRead_sv2ReadCompactSize exact_skipBytes
  have hrest : ∀ n : Nat, Exact fun p => if n > 10000 then none else skipMany skipWitnessItem n p := by
    intro n p q h
    split_ifs at h with hn
    obtain ⟨a, rfl, ha⟩ := hitem.skipMany hframed n p q h
    exact ⟨a, rfl, by simpa only [if_neg hn] using ha⟩
  exact ExactRead.bind framedRead_sv2ReadCompactSize exactRead_sv2ReadCompactSize hrest

/-- The outputs with their count. -/
def skipOutputs (p : Bytes) : Option Bytes := do
  let (nout, p) ← sv2ReadCompactSize p
  if nout > 100000 then none else skipMany skipOutput nout p

/-- So many inputs, and the outputs. -/
def skipInsOuts (nin : Nat) (p : Bytes) : Option Bytes := (skipMany skipInput nin p).bind skipOutputs

theorem framed_skipOutputs : Framed skipOutputs := by
  have hrest : ∀ n : Nat, Framed fun p => if n > 100000 then none else skipMany skipOutput n p := by
    intro n p q x h
    split_ifs at h ⊢ with hn
    exact framed_skipOutput.skipMany n p q x h
  exact framedRead_sv2ReadCompactSize.bind hrest

theorem exact_skipOutputs : Exact skipOutputs := by
  have hrest : ∀ n : Nat, Exact fun p => if n > 100000 then none else skipMany skipOutput n p := by
    intro n p q h
    split_ifs at h with hn
    obtain ⟨a, rfl, ha⟩ := Exact.skipMany framed_skipOutput exact_skipOutput n p q h
    exact ⟨a, rfl, by simpa only [if_neg hn] using ha⟩
  exact ExactRead.bind framedRead_sv2ReadCompactSize exactRead_sv2ReadCompactSize hrest

theorem framed_skipInsOuts (nin : Nat) : Framed (skipInsOuts nin) :=
  (framed_skipInput.skipMany nin).bind framed_skipOutputs

theorem exact_skipInsOuts (nin : Nat) : Exact (skipInsOuts nin) :=
  Exact.bind (framed_skipInput.skipMany nin) (Exact.skipMany framed_skipInput exact_skipInput nin)
    exact_skipOutputs

/-! ### Transactions in their parts -/

/-- The count of the inputs, the inputs and the outputs. -/
def IsBody (nin : Nat) (body : Bytes) : Prop :=
  ∃ ins, sv2ReadCompactSize body = some (nin, ins) ∧ 0 < nin ∧ nin ≤ 100000 ∧
    skipInsOuts nin ins = some []

/-- Marker and flag go with one witness stack for each input. -/
inductive MarkedWitness (nin : Nat) : Bytes → Bytes → Prop
  | legacy : MarkedWitness nin [] []
  | witness (flag : UInt8) (wits : Bytes) (hflag : flag ≠ 0)
      (hwits : skipMany skipWitness nin wits = some []) : MarkedWitness nin [0, flag] wits

/-- A transaction in its parts, and what follows it in the buffer. -/
structure TxLayout where
  nin : Nat
  version : Bytes
  mark : Bytes
  body : Bytes
  witnesses : Bytes
  locktime : Bytes
  rest : Bytes
  version_length : version.length = 4
  isBody : IsBody nin body
  marked : MarkedWitness nin mark witnesses
  locktime_length : locktime.length = 4

namespace TxLayout

variable (t : TxLayout)

/-- The transaction. -/
def serialisation : Bytes := t.version ++ t.mark ++ t.body ++ t.witnesses ++ t.locktime

/-- The transaction without marker, flag and witness. -/
def nonWitness : Bytes := t.version ++ t.body ++ t.locktime

/-- The buffer. -/
def bytes : Bytes := t.serialisation ++ t.rest

/-- The pointers into the buffer. -/
def walk : TxWalk where
  witness := t.mark ≠ []
  vinStart := t.body ++ (t.witnesses ++ (t.locktime ++ t.rest))
  voutEnd := t.witnesses ++ (t.locktime ++ t.rest)
  locktime := t.locktime ++ t.rest

end TxLayout

/-- A body starts with a count that is not zero. -/
theorem IsBody.head_ne {nin : Nat} {body : Bytes} (h : IsBody nin body) :
    ∃ b rest, body = b :: rest ∧ b ≠ 0 := by
  obtain ⟨ins, hread, hpos, -⟩ := h
  rcases body with - | ⟨b, rest⟩
  · cases hread
  · refine ⟨b, rest, rfl, ?_⟩
    rintro rfl
    have hzero : (0, rest) = (nin, ins) := Option.some.inj hread
    obtain ⟨rfl, -⟩ := Prod.mk.inj hzero
    exact hpos.false

theorem IsBody.hasMarker_append {nin : Nat} {body : Bytes} (h : IsBody nin body) (x : Bytes) :
    hasMarker (body ++ x) = false := by
  obtain ⟨b, rest, rfl, hb⟩ := h.head_ne
  rw [List.cons_append]
  rcases rest ++ x with - | ⟨c, l⟩
  · rfl
  · simp [hasMarker, hb]

theorem IsBody.length {nin : Nat} {body : Bytes} (h : IsBody nin body) : 36 < body.length := by
  obtain ⟨ins, hread, hpos, -, hskip⟩ := h
  have hlong : 36 ≤ ins.length := by
    obtain ⟨n, rfl⟩ := Nat.exists_eq_succ_of_ne_zero hpos.ne'
    obtain ⟨vout, hvout, -⟩ := Option.bind_eq_some_iff.mp hskip
    obtain ⟨p, hp, -⟩ := Option.bind_eq_some_iff.mp hvout
    exact skipInput_length hp
  exact lt_of_le_of_lt hlong (sv2ReadCompactSize_length hread)

namespace TxLayout

variable (t : TxLayout)

theorem bytes_eq :
    t.bytes = t.version ++ (t.mark ++ (t.body ++ (t.witnesses ++ (t.locktime ++ t.rest)))) := by
  simp [bytes, serialisation, List.append_assoc]

theorem marked_cases :
    (t.mark = [] ∧ t.witnesses = []) ∨
      ∃ flag, flag ≠ 0 ∧ t.mark = [0, flag] ∧ skipMany skipWitness t.nin t.witnesses = some [] := by
  cases t with
  | mk nin version mark body witnesses locktime rest hversion hbody hmarked hlock =>
    cases hmarked with
    | legacy => exact Or.inl ⟨rfl, rfl⟩
    | witness flag wits hflag hwits => exact Or.inr ⟨flag, hflag, rfl, hwits⟩

/-- A transaction without marker is not taken for one with a marker. -/
theorem hasMarker_eq :
    hasMarker (t.mark ++ (t.body ++ (t.witnesses ++ (t.locktime ++ t.rest)))) =
      decide (t.mark ≠ []) := by
  rcases t.marked_cases with ⟨hmark, -⟩ | ⟨flag, hflag, hmark, -⟩
  · rw [hmark, List.nil_append, t.isBody.hasMarker_append]
    rfl
  · simp [hmark, hasMarker, hflag]

theorem skipMarker_eq :
    skipMarker (t.mark ++ (t.body ++ (t.witnesses ++ (t.locktime ++ t.rest)))) =
      t.body ++ (t.witnesses ++ (t.locktime ++ t.rest)) := by
  rw [skipMarker, hasMarker_eq]
  rcases t.marked_cases with ⟨hmark, -⟩ | ⟨flag, -, hmark, -⟩ <;> simp [hmark]

theorem skip_witnesses :
    skipWitnesses (decide (t.mark ≠ [])) t.nin (t.witnesses ++ (t.locktime ++ t.rest)) =
      some (t.locktime ++ t.rest) := by
  rcases t.marked_cases with ⟨hmark, hwits⟩ | ⟨flag, -, hmark, hwits⟩
  · simp [hmark, hwits, skipWitnesses]
  · have hskip := framed_skipWitness.skipMany t.nin _ _ (t.locktime ++ t.rest) hwits
    simpa [hmark, skipWitnesses] using hskip

/-- **Every buffer with a layout is accepted**, and the pointers are those of its parts. -/
theorem txWalk_bytes : txWalk t.bytes = some t.walk := by
  have hdrop : t.bytes.drop 4 =
      t.mark ++ (t.body ++ (t.witnesses ++ (t.locktime ++ t.rest))) := by
    rw [bytes_eq, ← t.version_length, List.drop_left]
  have hno := t.isBody.hasMarker_append (t.witnesses ++ (t.locktime ++ t.rest))
  have hlong := t.isBody.length
  obtain ⟨ins, hread, hpos, hle, hskip⟩ := t.isBody
  have hbody := framed_skipInsOuts t.nin ins [] (t.witnesses ++ (t.locktime ++ t.rest)) hskip
  obtain ⟨vout, hvout, houts⟩ := Option.bind_eq_some_iff.mp hbody
  obtain ⟨⟨nout, outs⟩, hnout, houts⟩ := Option.bind_eq_some_iff.mp houts
  dsimp only at houts
  split_ifs at houts with hnoutle
  refine WalkSteps.txWalk_eq
    { nin := t.nin
      ins := ins ++ (t.witnesses ++ (t.locktime ++ t.rest))
      vout := vout
      nout := nout
      outs := outs
      long := ?_
      witness_eq := ?_
      vinStart_eq := ?_
      read_nin := framedRead_sv2ReadCompactSize _ _ _ _ hread
      nin_pos := hpos
      nin_le := hle
      skip_ins := hvout
      read_nout := hnout
      nout_le := Nat.not_lt.mp hnoutle
      skip_outs := houts
      skip_witness := ?_
      locktime_long := ?_ }
  · rw [bytes_eq, List.length_append, List.length_append, List.length_append]
    omega
  · rw [hdrop, hasMarker_eq]
    rfl
  · rw [hdrop, skipMarker_eq]
    rfl
  · exact t.skip_witnesses
  · rw [walk, List.length_append, t.locktime_length]
    omega

end TxLayout

theorem hasMarker_eq_true_iff {p : Bytes} :
    hasMarker p = true ↔ ∃ flag q, p = 0 :: flag :: q ∧ flag ≠ 0 := by
  rcases p with - | ⟨b, - | ⟨flag, q⟩⟩
  · simp [hasMarker]
  · simp [hasMarker]
  · simp [hasMarker]

/-- **Every buffer that is accepted has a layout.** -/
theorem exists_layout {tx : Bytes} {w : TxWalk} (h : txWalk tx = some w) :
    ∃ t : TxLayout, tx = t.bytes ∧ w = t.walk := by
  obtain ⟨s⟩ := exists_walkSteps h
  obtain ⟨c, hc, hcount⟩ := exactRead_sv2ReadCompactSize _ _ _ s.read_nin
  have hinsouts : skipInsOuts s.nin s.ins = some w.voutEnd := by
    simp only [skipInsOuts, s.skip_ins, Option.bind_some, skipOutputs, s.read_nout,
      Option.bind_eq_bind, if_neg (Nat.not_lt.mpr s.nout_le), s.skip_outs]
  obtain ⟨insouts, hins, hbody⟩ := exact_skipInsOuts s.nin _ _ hinsouts
  have hisBody : IsBody s.nin (c ++ insouts) := by
    refine ⟨insouts, ?_, s.nin_pos, s.nin_le, hbody⟩
    exact framedRead_sv2ReadCompactSize _ _ _ insouts hcount
  obtain ⟨version, p, rfl, hversion⟩ : ∃ version p, tx = version ++ p ∧ version.length = 4 :=
    ⟨tx.take 4, tx.drop 4, (List.take_append_drop 4 tx).symm,
      List.length_take_of_le (by have := s.long; omega)⟩
  obtain ⟨locktime, rest, hlocktime, hlock⟩ :
      ∃ locktime rest, w.locktime = locktime ++ rest ∧ locktime.length = 4 :=
    ⟨w.locktime.take 4, w.locktime.drop 4, (List.take_append_drop 4 w.locktime).symm,
      List.length_take_of_le s.locktime_long⟩
  have hdrop : (version ++ p).drop 4 = p := by
    rw [← hversion, List.drop_left]
  have hwitness := s.witness_eq
  have hstart := s.vinStart_eq
  have hskip := s.skip_witness
  rw [hdrop] at hwitness hstart
  rw [hins, ← List.append_assoc] at hc
  rcases hmarker : hasMarker p with - | -
  · rw [skipMarker, if_neg (by simp [hmarker])] at hstart
    rw [hwitness, hmarker] at hskip
    have hend : w.voutEnd = w.locktime := Option.some.inj hskip
    have hbytes : version ++ p = version ++ ([] ++ (c ++ insouts ++ ([] ++ (locktime ++ rest)))) := by
      rw [← hstart, hc, hend, hlocktime]
      rfl
    have hwalk : w = ⟨false, c ++ insouts ++ (locktime ++ rest), locktime ++ rest,
        locktime ++ rest⟩ := by
      rw [← hlocktime, ← hmarker, ← hwitness, ← hend, ← hc, hend]
      exact congrArg (TxWalk.mk w.witness w.vinStart · w.locktime) hend
    refine ⟨⟨s.nin, version, [], c ++ insouts, [], locktime, rest, hversion, hisBody, .legacy, hlock⟩,
      ?_, hwalk⟩
    rw [TxLayout.bytes_eq]
    exact hbytes
  · -- marker and flag, and witness stacks to skip
    obtain ⟨flag, q, rfl, hflag⟩ := hasMarker_eq_true_iff.mp hmarker
    have hq : w.vinStart = q := by
      rw [hstart, skipMarker, if_pos hmarker]
      rfl
    rw [hwitness, hmarker, skipWitnesses, if_pos rfl] at hskip
    obtain ⟨wits, hvout, hwits⟩ :=
      Exact.skipMany framed_skipWitness exact_skipWitness s.nin _ _ hskip
    have hbytes : version ++ 0 :: flag :: q =
        version ++ ([0, flag] ++ (c ++ insouts ++ (wits ++ (locktime ++ rest)))) := by
      rw [← hq, hc, hvout, hlocktime]
      rfl
    have hwalk : w = ⟨true, c ++ insouts ++ (wits ++ (locktime ++ rest)),
        wits ++ (locktime ++ rest), locktime ++ rest⟩ := by
      rw [← hlocktime, ← hvout, ← hc, ← hmarker, ← hwitness]
    refine ⟨⟨s.nin, version, [0, flag], c ++ insouts, wits, locktime, rest, hversion, hisBody,
      .witness flag wits hflag hwits, hlock⟩, ?_, hwalk⟩
    rw [TxLayout.bytes_eq]
    exact hbytes

/-! ### What is hashed -/

/-- The bytes that `sv2_bitcoin_txid` hashes. -/
def txidBytes (tx : Bytes) : Option Bytes :=
  (txWalk tx).map fun w =>
    if w.witness then
      tx.take 4 ++ w.vinStart.take (w.vinStart.length - w.voutEnd.length) ++ w.locktime.take 4
    else tx

theorem sv2BitcoinTxid_eq (tx : Bytes) : sv2BitcoinTxid tx = (txidBytes tx).map genHash := by
  rw [sv2BitcoinTxid, txidBytes, Option.map_map]
  congr 1
  funext w
  exact (apply_ite genHash _ _ _).symm

namespace TxLayout

variable (t : TxLayout)

/-- Version, body and locktime, as the pointers cut them out of the buffer. -/
theorem nonWitness_eq :
    t.bytes.take 4 ++ t.walk.vinStart.take (t.walk.vinStart.length - t.walk.voutEnd.length) ++
      t.walk.locktime.take 4 = t.nonWitness := by
  have hbody : t.walk.vinStart.length - t.walk.voutEnd.length = t.body.length := by
    simp only [walk, List.length_append]
    omega
  rw [hbody, bytes_eq, nonWitness]
  congr 1
  · congr 1
    · rw [← t.version_length, List.take_left]
    · exact List.take_left
  · rw [← t.locktime_length]
    exact List.take_left

/-- The bytes hashed for the id. -/
theorem txidBytes_bytes :
    txidBytes t.bytes = some (if t.mark ≠ [] then t.nonWitness else t.bytes) := by
  rw [txidBytes, t.txWalk_bytes, Option.map_some, nonWitness_eq]
  simp [walk]

/-- Without a witness the transaction is what is left when marker, flag and witness go. -/
theorem nonWitness_of_legacy (h : t.mark = []) : t.nonWitness = t.serialisation := by
  rcases t.marked_cases with ⟨-, hwits⟩ | ⟨flag, -, hmark, -⟩
  · simp [nonWitness, serialisation, h, hwits]
  · rw [hmark] at h
    cases h

theorem txLen_eq : t.walk.txLen t.bytes = t.serialisation.length := by
  simp only [TxWalk.txLen, walk, bytes, serialisation, List.length_append, t.locktime_length]
  omega

/-- **`sv2_bitcoin_tx_parse` hashes the transaction alone.** -/
theorem sv2BitcoinTxParse_bytes :
    sv2BitcoinTxParse t.bytes =
      some ⟨t.serialisation.length, genHash t.nonWitness, genHash t.serialisation⟩ := by
  have htake : t.bytes.take t.serialisation.length = t.serialisation := List.take_left
  rw [sv2BitcoinTxParse, t.txWalk_bytes, Option.map_some, txLen_eq, htake, hashNonwitness,
    nonWitness_eq]
  by_cases hmark : t.mark = []
  · simp [walk, hmark, t.nonWitness_of_legacy hmark]
  · simp [walk, hmark]

end TxLayout

/-- What `sv2_bitcoin_txid` should do with a buffer: `sv2_bitcoin_tx_parse` accepts it, and both
hash the transaction at its head without marker, flag and witness. -/
def TxidAgrees (tx : Bytes) : Prop :=
  ∃ t : TxLayout, tx = t.bytes ∧ txidBytes tx = some t.nonWitness ∧
    sv2BitcoinTxParse tx =
      some ⟨t.serialisation.length, genHash t.nonWitness, genHash t.serialisation⟩

/-- **The id of a transaction.**  `sv2_bitcoin_tx_parse` accepts the buffers that
`sv2_bitcoin_txid` accepts, and the bytes hashed for the id are those of the transaction
without marker, flag and witness exactly where the transaction has a witness or nothing
follows it.  With a witness the id depends on version, inputs, outputs and locktime alone. -/
theorem sv2_bitcoin_txid_hashes {tx : Bytes} {id : Hash256} (h : sv2BitcoinTxid tx = some id) :
    (sv2BitcoinTxParse tx).isSome ∧
    (TxidAgrees tx ↔ ∃ t : TxLayout, tx = t.bytes ∧ (t.mark ≠ [] ∨ t.rest = [])) ∧
    (TxidAgrees tx → (sv2BitcoinTxParse tx).map TxParse.txid = some id) ∧
    ∀ t t' : TxLayout, tx = t.bytes → t.mark ≠ [] → t'.mark ≠ [] →
      t'.version = t.version → t'.body = t.body → t'.locktime = t.locktime →
        sv2BitcoinTxid t'.bytes = some id := by
  rw [sv2BitcoinTxid_eq] at h
  obtain ⟨hashed, hhashed, rfl⟩ := Option.map_eq_some_iff.mp h
  obtain ⟨w, hw, -⟩ := Option.map_eq_some_iff.mp hhashed
  refine ⟨?_, ⟨?_, ?_⟩, ?_, ?_⟩
  · simp [sv2BitcoinTxParse, hw]
  · rintro ⟨t, rfl, hsame, -⟩
    refine ⟨t, rfl, ?_⟩
    rw [t.txidBytes_bytes, Option.some.injEq] at hsame
    by_cases hmark : t.mark = []
    · -- the whole buffer is hashed, so nothing may follow the transaction
      right
      rw [if_neg (not_not.mpr hmark), t.nonWitness_of_legacy hmark] at hsame
      simpa [TxLayout.bytes] using hsame
    · exact Or.inl hmark
  · rintro ⟨t, rfl, hcond⟩
    refine ⟨t, rfl, ?_, t.sv2BitcoinTxParse_bytes⟩
    rw [t.txidBytes_bytes, Option.some.injEq]
    split_ifs with hmark
    · rfl
    · have hrest := hcond.resolve_left hmark
      rw [t.nonWitness_of_legacy (not_not.mp hmark), TxLayout.bytes, hrest, List.append_nil]
  · rintro ⟨t, rfl, hsame, hparse⟩
    rw [hhashed, Option.some.injEq] at hsame
    rw [hparse, hsame]
    rfl
  · rintro t t' rfl hmark hmark' hversion hbody hlock
    have hsame : t'.nonWitness = t.nonWitness := by
      simp only [TxLayout.nonWitness, hversion, hbody, hlock]
    rw [t.txidBytes_bytes, if_pos hmark, Option.some.injEq] at hhashed
    rw [sv2BitcoinTxid_eq, t'.txidBytes_bytes, if_pos hmark', hsame, hhashed]
    rfl

/-- A transaction of one input and one output, without witness. -/
def legacyTx : Bytes :=
  [1, 0, 0, 0] ++ 1 :: (List.replicate 36 0 ++ 0 :: List.replicate 4 0xff) ++
    1 :: (List.replicate 8 0 ++ [0]) ++ [0, 0, 0, 0]

theorem legacyTx_txid_hashes : (sv2BitcoinTxParse legacyTx).isSome :=
  have hid : sv2BitcoinTxid legacyTx = some (genHash legacyTx) := by decide +kernel
  (sv2_bitcoin_txid_hashes hid).1

/-- With a byte behind the transaction the two ids differ. -/
theorem txid_hashes_trailing_byte :
    (sv2BitcoinTxid (legacyTx ++ [0])).isSome ∧
      sv2BitcoinTxid (legacyTx ++ [0]) ≠
        (sv2BitcoinTxParse (legacyTx ++ [0])).map TxParse.txid := by
  decide +kernel

end CashStratum
