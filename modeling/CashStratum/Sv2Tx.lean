/-
CashStratum/Sv2Tx.lean

The Bitcoin serialisation helpers of `sv2_tx.c`: compact sizes and the
transaction walker behind `sv2_bitcoin_txid` and `sv2_bitcoin_tx_parse`.  A
pointer of the walker is the suffix of the transaction it points at.

The second half describes transactions by their parts.  A compact size may be
spelled in any of the four forms the reader takes (`SpellsCompactSize`); an
output is a value, a spelled length and a script of that length (`TxOutBytes`);
an outputs blob is a spelled count and so many outputs (`OutputsBlob`).  The
walker accepts a one-input transaction made of such parts, with or without a
witness, and stops where the parts say (`txWalk_legacy`, `txWalk_witness`).
-/
import CashStratum.ByteReader
import CashStratum.Sha2

namespace CashStratum

/-! ### Compact sizes -/

/-- `sv2_write_compact_size`. -/
def sv2WriteCompactSize (n : Nat) : Bytes :=
  if n < 0xfd then [UInt8.ofNat n]
  else if n ≤ 0xffff then 0xfd :: leBytes 2 n
  else if n ≤ 0xffffffff then 0xfe :: leBytes 4 n
  else 0xff :: leBytes 8 n

/-- `sv2_compact_size_len`. -/
def sv2CompactSizeLen (n : Nat) : Nat :=
  if n < 0xfd then 1
  else if n ≤ 0xffff then 3
  else if n ≤ 0xffffffff then 5
  else 9

/-- `sv2_read_compact_size`. -/
def sv2ReadCompactSize : Bytes → Option (Nat × Bytes)
  | [] => none
  | b :: p =>
    if b < 0xfd then some (b.toNat, p)
    else if b = 0xfd then readLe 2 p
    else if b = 0xfe then readLe 4 p
    else readLe 8 p

theorem length_sv2WriteCompactSize (n : Nat) :
    (sv2WriteCompactSize n).length = sv2CompactSizeLen n := by
  unfold sv2WriteCompactSize sv2CompactSizeLen
  split_ifs <;> simp

theorem framedRead_sv2ReadCompactSize : FramedRead sv2ReadCompactSize := by
  intro p n q x h
  rcases p with - | ⟨b, p⟩
  · cases h
  · rw [List.cons_append]
    simp only [sv2ReadCompactSize] at h ⊢
    split_ifs at h ⊢
    · simp only [Option.some.injEq, Prod.mk.injEq] at h
      rw [h.1, h.2]
    · exact framedRead_readLe 2 p n q x h
    · exact framedRead_readLe 4 p n q x h
    · exact framedRead_readLe 8 p n q x h

theorem exactRead_sv2ReadCompactSize : ExactRead sv2ReadCompactSize := by
  intro p n q h
  rcases p with - | ⟨b, p⟩
  · cases h
  · have hfield : ∀ w, readLe w p = some (n, q) → ∃ a, p = a ++ q ∧ readLe w a = some (n, []) :=
      fun w => exactRead_readLe w p n q
    simp only [sv2ReadCompactSize] at h
    split_ifs at h with h1 h2 h3
    · obtain ⟨rfl, rfl⟩ := Prod.mk.inj (Option.some.inj h)
      exact ⟨[b], rfl, by simp only [sv2ReadCompactSize, if_pos h1]⟩
    · obtain ⟨a, rfl, ha⟩ := hfield 2 h
      exact ⟨b :: a, rfl, by simp only [sv2ReadCompactSize, if_neg h1, if_pos h2, ha]⟩
    · obtain ⟨a, rfl, ha⟩ := hfield 4 h
      exact ⟨b :: a, rfl, by simp only [sv2ReadCompactSize, if_neg h1, if_neg h2, if_pos h3, ha]⟩
    · obtain ⟨a, rfl, ha⟩ := hfield 8 h
      exact ⟨b :: a, rfl, by simp only [sv2ReadCompactSize, if_neg h1, if_neg h2, if_neg h3, ha]⟩

/-- What is written is read back, whatever follows. -/
theorem sv2ReadCompactSize_write {n : Nat} (h : n < 2 ^ 64) (x : Bytes) :
    sv2ReadCompactSize (sv2WriteCompactSize n ++ x) = some (n, x) := by
  have hfield : ∀ w : Nat, n < 256 ^ w → readLe w (leBytes w n ++ x) = some (n, x) := by
    intro w hw
    refine readLe_eq_some_iff.mpr ⟨leBytes w n, length_leBytes w n, ?_, rfl⟩
    exact leNat_leBytes_of_lt hw
  unfold sv2WriteCompactSize
  split_ifs with h1 h2 h3
  · have hb : (UInt8.ofNat n).toNat = n := by
      rw [UInt8.toNat_ofNat']
      omega
    have hlt : UInt8.ofNat n < 0xfd := by
      rw [UInt8.lt_iff_toNat_lt, hb]
      exact h1
    simp only [List.cons_append, List.nil_append, sv2ReadCompactSize, if_pos hlt, hb]
  · rw [List.cons_append]
    exact hfield 2 (by omega)
  · rw [List.cons_append]
    exact hfield 4 (by omega)
  · rw [List.cons_append]
    exact hfield 8 (by omega)

theorem sv2ReadCompactSize_length {p q : Bytes} {n : Nat}
    (h : sv2ReadCompactSize p = some (n, q)) : q.length < p.length := by
  rcases p with - | ⟨b, p⟩
  · cases h
  · have hle : ∀ w, readLe w p = some (n, q) → q.length ≤ p.length := by
      intro w hw
      obtain ⟨a, -, -, rfl⟩ := readLe_eq_some_iff.mp hw
      simp
    simp only [sv2ReadCompactSize] at h
    rw [List.length_cons, Nat.lt_succ_iff]
    split_ifs at h
    · simp only [Option.some.injEq, Prod.mk.injEq] at h
      rw [h.2]
    · exact hle 2 h
    · exact hle 4 h
    · exact hle 8 h

/-! ### The transaction walker -/

/-- `UINT64_MAX`. -/
def uint64Max : Nat := 2 ^ 64 - 1

/-- One input: the previous output, then script and sequence in one step. -/
def skipInput (p : Bytes) : Option Bytes := do
  let p ← skipBytes 36 p
  let (n, p) ← sv2ReadCompactSize p
  if n > uint64Max - 4 then none else skipBytes (n + 4) p

/-- One output: the value, then the script. -/
def skipOutput (p : Bytes) : Option Bytes := do
  let p ← skipBytes 8 p
  let (n, p) ← sv2ReadCompactSize p
  skipBytes n p

/-- One item of a witness stack. -/
def skipWitnessItem (p : Bytes) : Option Bytes := do
  let (sz, p) ← sv2ReadCompactSize p
  skipBytes sz p

/-- The witness stack of one input. -/
def skipWitness (p : Bytes) : Option Bytes := do
  let (nstack, p) ← sv2ReadCompactSize p
  if nstack > 10000 then none else skipMany skipWitnessItem nstack p

/-- The BIP144 marker and flag: a zero byte, then a byte that is not zero. -/
def hasMarker : Bytes → Bool
  | marker :: flag :: _ => marker == 0 && flag != 0
  | _ => false

/-- `vin_start`: behind the marker and flag, if they are there. -/
def skipMarker (p : Bytes) : Bytes := if hasMarker p then p.drop 2 else p

/-- The witness stacks, one an input, of a transaction that has them. -/
def skipWitnesses (witness : Bool) (nin : Nat) (p : Bytes) : Option Bytes :=
  if witness then skipMany skipWitness nin p else some p

/-- What `tx_walk` reports; the pointers are suffixes of the transaction. -/
structure TxWalk where
  witness : Bool
  vinStart : Bytes
  voutEnd : Bytes
  locktime : Bytes
  deriving DecidableEq, Repr

/-- `tx_walk`. -/
def txWalk (tx : Bytes) : Option TxWalk :=
  if tx.length < 10 then none
  else do
    let witness := hasMarker (tx.drop 4)
    let vinStart := skipMarker (tx.drop 4)
    let (nin, p) ← sv2ReadCompactSize vinStart
    if nin > 100000 ∨ nin = 0 then none
    else do
      let p ← skipMany skipInput nin p
      let (nout, p) ← sv2ReadCompactSize p
      if nout > 100000 then none
      else do
        let voutEnd ← skipMany skipOutput nout p
        let locktime ← skipWitnesses witness nin voutEnd
        if locktime.length < 4 then none
        else some { witness, vinStart, voutEnd, locktime }

/-- `*tx_len_out`. -/
def TxWalk.txLen (tx : Bytes) (w : TxWalk) : Nat := tx.length - w.locktime.length + 4

/-- `hash_nonwitness`. -/
def hashNonwitness (tx : Bytes) (w : TxWalk) : Hash256 :=
  genHash (tx.take 4 ++ w.vinStart.take (w.vinStart.length - w.voutEnd.length) ++ w.locktime.take 4)

/-- `sv2_bitcoin_txid`. -/
def sv2BitcoinTxid (tx : Bytes) : Option Hash256 :=
  (txWalk tx).map fun w => if w.witness then hashNonwitness tx w else genHash tx

/-- The length and the ids `sv2_bitcoin_tx_parse` reports. -/
structure TxParse where
  txLen : Nat
  txid : Hash256
  wtxid : Hash256

/-- `sv2_bitcoin_tx_parse`. -/
def sv2BitcoinTxParse (tx : Bytes) : Option TxParse :=
  (txWalk tx).map fun w =>
    let wtxid := genHash (tx.take (w.txLen tx))
    { txLen := w.txLen tx
      txid := if w.witness then hashNonwitness tx w else wtxid
      wtxid := wtxid }

/-! ### The steps of a walk -/

/-- What a walk that succeeds has read, between the pointers it reports. -/
structure WalkSteps (tx : Bytes) (w : TxWalk) where
  nin : Nat
  ins : Bytes
  vout : Bytes
  nout : Nat
  outs : Bytes
  long : 10 ≤ tx.length
  witness_eq : w.witness = hasMarker (tx.drop 4)
  vinStart_eq : w.vinStart = skipMarker (tx.drop 4)
  read_nin : sv2ReadCompactSize w.vinStart = some (nin, ins)
  nin_pos : 0 < nin
  nin_le : nin ≤ 100000
  skip_ins : skipMany skipInput nin ins = some vout
  read_nout : sv2ReadCompactSize vout = some (nout, outs)
  nout_le : nout ≤ 100000
  skip_outs : skipMany skipOutput nout outs = some w.voutEnd
  skip_witness : skipWitnesses w.witness nin w.voutEnd = some w.locktime
  locktime_long : 4 ≤ w.locktime.length

theorem WalkSteps.txWalk_eq {tx : Bytes} {w : TxWalk} (s : WalkSteps tx w) :
    txWalk tx = some w := by
  have hcount : ¬(s.nin > 100000 ∨ s.nin = 0) := by
    have := s.nin_pos
    have := s.nin_le
    omega
  rw [txWalk, if_neg (Nat.not_lt.mpr s.long)]
  simp only [← s.witness_eq, ← s.vinStart_eq, s.read_nin, if_neg hcount, s.skip_ins, s.read_nout,
    if_neg (Nat.not_lt.mpr s.nout_le), s.skip_outs, s.skip_witness,
    if_neg (Nat.not_lt.mpr s.locktime_long), Option.bind_eq_bind, Option.bind_some]

theorem exists_walkSteps {tx : Bytes} {w : TxWalk} (h : txWalk tx = some w) :
    Nonempty (WalkSteps tx w) := by
  rw [txWalk] at h
  simp only [Option.bind_eq_bind] at h
  split_ifs at h with hlong
  obtain ⟨⟨nin, ins⟩, hnin, h⟩ := Option.bind_eq_some_iff.mp h
  split_ifs at h with hcount
  obtain ⟨vout, hins, h⟩ := Option.bind_eq_some_iff.mp h
  obtain ⟨⟨nout, outs⟩, hnout, h⟩ := Option.bind_eq_some_iff.mp h
  split_ifs at h with hnoutle
  obtain ⟨voutEnd, houts, h⟩ := Option.bind_eq_some_iff.mp h
  obtain ⟨locktime, hstack, h⟩ := Option.bind_eq_some_iff.mp h
  split_ifs at h with hlock
  rw [Option.some.injEq] at h
  subst h
  exact ⟨{
    nin := nin
    ins := ins
    vout := vout
    nout := nout
    outs := outs
    long := by omega
    witness_eq := rfl
    vinStart_eq := rfl
    read_nin := hnin
    nin_pos := by omega
    nin_le := by omega
    skip_ins := hins
    read_nout := hnout
    nout_le := by omega
    skip_outs := houts
    skip_witness := hstack
    locktime_long := Nat.not_lt.mp hlock }⟩

/-! ### Frame rules -/

theorem framed_skipInput : Framed skipInput := by
  have hrest : ∀ n : Nat, Framed fun p => if n > uint64Max - 4 then none else skipBytes (n + 4) p := by
    intro n p q x h
    split_ifs at h ⊢ with hn
    exact framed_skipBytes (n + 4) p q x h
  exact (framed_skipBytes 36).bind (framedRead_sv2ReadCompactSize.bind hrest)

theorem framed_skipOutput : Framed skipOutput :=
  (framed_skipBytes 8).bind (framedRead_sv2ReadCompactSize.bind framed_skipBytes)

theorem framed_skipWitness : Framed skipWitness := by
  have hitem : Framed skipWitnessItem := framedRead_sv2ReadCompactSize.bind framed_skipBytes
  have hrest : ∀ n : Nat, Framed fun p => if n > 10000 then none else skipMany skipWitnessItem n p := by
    intro n p q x h
    split_ifs at h ⊢ with hn
    exact hitem.skipMany n p q x h
  exact framedRead_sv2ReadCompactSize.bind hrest

/-! ### Transactions by their parts -/

/-- `c` spells the compact size `n`, in any form the reader takes. -/
def SpellsCompactSize (c : Bytes) (n : Nat) : Prop := sv2ReadCompactSize c = some (n, [])

/-- A serialised output: value, script length, script. -/
inductive TxOutBytes : Bytes → Prop
  | mk (value c script : Bytes) (hvalue : value.length = 8)
      (hc : SpellsCompactSize c script.length) : TxOutBytes (value ++ c ++ script)

/-- A count and so many outputs, with nothing behind them. -/
inductive OutputsBlob : Bytes → Prop
  | mk (c : Bytes) (outs : List Bytes) (hc : SpellsCompactSize c outs.length)
      (houts : ∀ o ∈ outs, TxOutBytes o) : OutputsBlob (c ++ outs.flatten)

theorem SpellsCompactSize.read {c : Bytes} {n : Nat} (h : SpellsCompactSize c n) (x : Bytes) :
    sv2ReadCompactSize (c ++ x) = some (n, x) :=
  framedRead_sv2ReadCompactSize c n [] x h

theorem spellsCompactSize_write {n : Nat} (h : n < 2 ^ 64) :
    SpellsCompactSize (sv2WriteCompactSize n) n := by
  have := sv2ReadCompactSize_write h []
  rwa [List.append_nil] at this

theorem TxOutBytes.skip {o : Bytes} (h : TxOutBytes o) : skipOutput o = some [] := by
  obtain ⟨value, c, script, hvalue, hc⟩ := h
  have h8 : skipBytes 8 (value ++ (c ++ script)) = some (c ++ script) := by
    rw [← hvalue]
    exact skipBytes_append value _
  have hscript : skipBytes script.length script = some [] := by
    simpa using skipBytes_append script []
  simp only [skipOutput, List.append_assoc, h8, hc.read, Option.bind_eq_bind, Option.bind_some,
    hscript]

theorem TxOutBytes.length {o : Bytes} (h : TxOutBytes o) : 9 ≤ o.length := by
  obtain ⟨value, c, script, hvalue, hc⟩ := h
  have hpos : 0 < c.length := by simpa using sv2ReadCompactSize_length hc
  rw [List.length_append, List.length_append, hvalue]
  omega

/-- A blob of less than 65536 bytes has fewer outputs than the walker's
limit. -/
theorem outputs_count_le {outs : List Bytes} (h : ∀ o ∈ outs, TxOutBytes o) :
    9 * outs.length ≤ outs.flatten.length := by
  induction outs with
  | nil => simp
  | cons o outs ih =>
    have ho := (h o List.mem_cons_self).length
    have hrest := ih fun b hb => h b (List.mem_cons_of_mem o hb)
    rw [List.length_cons, List.flatten_cons, List.length_append]
    omega

/-- A blob is walked to its end. -/
theorem OutputsBlob.walk {blob : Bytes} (h : OutputsBlob blob) (hlen : blob.length ≤ 900000)
    (x : Bytes) :
    ∃ nout p, sv2ReadCompactSize (blob ++ x) = some (nout, p) ∧ nout ≤ 100000 ∧
      skipMany skipOutput nout p = some x := by
  obtain ⟨c, outs, hc, houts⟩ := h
  refine ⟨outs.length, outs.flatten ++ x, ?_, ?_, ?_⟩
  · rw [List.append_assoc]
    exact hc.read _
  · have hcount := outputs_count_le houts
    rw [List.length_append] at hlen
    omega
  · exact framed_skipOutput.skipMany_flatten (fun o ho => (houts o ho).skip) x

/-- One input: previous output, spelled script length, script, sequence. -/
theorem skipInput_parts {prevout c script seq : Bytes} (hprev : prevout.length = 36)
    (hc : SpellsCompactSize c script.length) (hscript : script.length ≤ uint64Max - 4)
    (hseq : seq.length = 4) : skipInput (prevout ++ c ++ script ++ seq) = some [] := by
  have h36 : skipBytes 36 (prevout ++ (c ++ (script ++ seq))) = some (c ++ (script ++ seq)) := by
    rw [← hprev]
    exact skipBytes_append prevout _
  have hbody : skipBytes (script.length + 4) (script ++ seq) = some [] := by
    have := skipBytes_append (script ++ seq) []
    rwa [List.append_nil, List.length_append, hseq] at this
  simp only [skipInput, List.append_assoc, h36, hc.read, Option.bind_eq_bind, Option.bind_some,
    if_neg (Nat.not_lt.mpr hscript), hbody]

theorem skipInput_length {p q : Bytes} (h : skipInput p = some q) : 36 ≤ p.length := by
  obtain ⟨r, hr, -⟩ := Option.bind_eq_some_iff.mp h
  obtain ⟨a, ha, rfl⟩ := skipBytes_eq_some_iff.mp hr
  rw [List.length_append]
  omega

/-- The optional parts of a transaction: the marker and flag, and the witness
stack of the one input. -/
inductive WitnessParts : Bool → Bytes → Bytes → Prop
  | legacy : WitnessParts false [] []
  | witness (flag : UInt8) (stack : Bytes) (hflag : flag ≠ 0)
      (hstack : skipWitness stack = some []) : WitnessParts true [0, flag] stack

/-- **A one-input transaction is walked along its parts.**  `locktime` may have
trailing bytes behind the first four. -/
theorem txWalk_parts {witness : Bool} {version mark input blob stack locktime : Bytes}
    (hversion : version.length = 4) (hparts : WitnessParts witness mark stack)
    (hinput : skipInput input = some []) (hblob : OutputsBlob blob) (hlen : blob.length ≤ 900000)
    (hlock : 4 ≤ locktime.length) :
    txWalk (version ++ mark ++ 1 :: (input ++ (blob ++ (stack ++ locktime)))) =
      some { witness := witness
             vinStart := 1 :: (input ++ (blob ++ (stack ++ locktime)))
             voutEnd := stack ++ locktime
             locktime := locktime } := by
  obtain ⟨nout, outs, hread, hnout, hskip⟩ := hblob.walk hlen (stack ++ locktime)
  have hlong := skipInput_length hinput
  have hdrop : (version ++ mark ++ 1 :: (input ++ (blob ++ (stack ++ locktime)))).drop 4 =
      mark ++ 1 :: (input ++ (blob ++ (stack ++ locktime))) := by
    rw [List.append_assoc, ← hversion, List.drop_left]
  refine WalkSteps.txWalk_eq
    { nin := 1
      ins := input ++ (blob ++ (stack ++ locktime))
      vout := blob ++ (stack ++ locktime)
      nout := nout
      outs := outs
      long := ?_
      witness_eq := ?_
      vinStart_eq := ?_
      read_nin := rfl
      nin_pos := by omega
      nin_le := by omega
      skip_ins := ?_
      read_nout := hread
      nout_le := hnout
      skip_outs := hskip
      skip_witness := ?_
      locktime_long := hlock }
  · simp only [List.length_append, List.length_cons]
    omega
  · rw [hdrop]
    cases hparts with
    | legacy => rcases input ++ (blob ++ ([] ++ locktime)) with - | ⟨b, l⟩ <;> rfl
    | witness flag stack hflag hstack => simp [hasMarker, hflag]
  · rw [hdrop]
    cases hparts with
    | legacy => rcases input ++ (blob ++ ([] ++ locktime)) with - | ⟨b, l⟩ <;> rfl
    | witness flag stack hflag hstack => simp [skipMarker, hasMarker, hflag]
  · rw [skipMany_one]
    exact framed_skipInput input [] _ hinput
  · cases hparts with
    | legacy => rfl
    | witness flag stack hflag hstack =>
      rw [skipWitnesses, if_pos rfl, skipMany_one]
      exact framed_skipWitness stack [] _ hstack

/-- The id of a one-input transaction leaves the marker, the flag and the
witness out. -/
theorem sv2BitcoinTxid_parts {witness : Bool} {version mark input blob stack locktime : Bytes}
    (hversion : version.length = 4) (hparts : WitnessParts witness mark stack)
    (hinput : skipInput input = some []) (hblob : OutputsBlob blob) (hlen : blob.length ≤ 900000)
    (hlock : locktime.length = 4) :
    sv2BitcoinTxid (version ++ mark ++ 1 :: (input ++ (blob ++ (stack ++ locktime)))) =
      some (genHash (version ++ 1 :: (input ++ (blob ++ locktime)))) := by
  rw [sv2BitcoinTxid, txWalk_parts hversion hparts hinput hblob hlen hlock.ge, Option.map_some]
  cases hparts with
  | legacy => simp
  | witness flag stack hflag hstack =>
    have hbody : (1 :: (input ++ (blob ++ (stack ++ locktime)))).take
        ((1 :: (input ++ (blob ++ (stack ++ locktime)))).length - (stack ++ locktime).length) =
          1 :: (input ++ blob) := by
      have hl : (1 :: (input ++ (blob ++ (stack ++ locktime)))).length - (stack ++ locktime).length =
          (1 :: (input ++ blob)).length := by
        simp only [List.length_append, List.length_cons]
        omega
      rw [hl, ← List.append_assoc, ← List.cons_append]
      exact List.take_left
    have hv : (version ++ [0, flag] ++ 1 :: (input ++ (blob ++ (stack ++ locktime)))).take 4 =
        version := by
      rw [List.append_assoc, ← hversion, List.take_left]
    simp only [if_true, hashNonwitness, hbody, hv, List.take_of_length_le hlock.le]
    simp

end CashStratum
