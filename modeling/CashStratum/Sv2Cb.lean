/-
CashStratum/Sv2Cb.lean

The coinbase construction shared by the declared and the custom job
(`sv2_cb.c`).  `sv2_cb_declare_parts` splits a spec into the prefix and suffix of
a DeclareMiningJob, around a hole for the extranonce; `sv2_cb_assemble` builds
the coinbase a SetCustomMiningJob describes, which is what hashes custom shares.

Both are a one-input transaction in the sense of `txWalk_parts`, so filling the
hole gives a transaction whose id is the id of the assembled coinbase
(`declared_txid_eq_assembled_txid`), and without a witness the two are the same
bytes.
-/
import CashStratum.Sv2Tx

namespace CashStratum

/-- `SV2_CB_MAX_SCRIPTSIG`. -/
def sv2CbMaxScriptsig : Nat := 100

/-- `UINT16_MAX`. -/
def uint16Max : Nat := 65535

/-- The null previous output of a coinbase: 32 zero bytes, index ffffffff. -/
def nullPrevout : Bytes := List.replicate 32 0 ++ List.replicate 4 0xff

@[simp] theorem length_nullPrevout : nullPrevout.length = 36 := by
  decide

/-! ### The assembler -/

/-- The bytes `sv2_cb_assemble` needs in its buffer. -/
def sv2CbNeed (ssigLen outputsLen : Nat) : Nat := 4 + 1 + 36 + 1 + ssigLen + 4 + outputsLen + 4

/-- `sv2_cb_assemble`, into a buffer of `outsz` bytes: `none` is the `0`
return. -/
def sv2CbAssemble (outsz : Nat) (cbVersion nsequence locktime : UInt32)
    (ssigPrefix en1 extranonce outputs : Bytes) : Option Bytes :=
  let ssigLen := ssigPrefix.length + en1.length + extranonce.length
  if ssigLen > 255 then none
  else if sv2CbNeed ssigLen outputs.length > outsz then none
  else some
    (leBytes 4 cbVersion.toNat ++ [0x01] ++ nullPrevout ++ [UInt8.ofNat ssigLen] ++ ssigPrefix ++
      en1 ++ extranonce ++ leBytes 4 nsequence.toNat ++ outputs ++ leBytes 4 locktime.toNat)

/-! ### The declared parts -/

/-- `struct sv2_cb_spec`; the witness reserved value has 32 bytes when it is
there. -/
structure Sv2CbSpec where
  version : UInt32
  nsequence : UInt32
  locktime : UInt32
  ssigPrefix : Bytes
  holeLen : Nat
  outputs : Bytes
  witnessReserved : Option Hash256

/-- The marker and flag of a spec with a witness. -/
def Sv2CbSpec.mark (spec : Sv2CbSpec) : Bytes :=
  if spec.witnessReserved.isSome then [0x00, 0x01] else []

/-- The witness stack: one item of 32 bytes. -/
def Sv2CbSpec.stack (spec : Sv2CbSpec) : Bytes :=
  match spec.witnessReserved with
  | some reserved => 0x01 :: 0x20 :: reserved.bytes
  | none => []

/-- `sv2_cb_declare_parts`: the prefix and the suffix, or `none` for the `false`
return. -/
def sv2CbDeclareParts (spec : Sv2CbSpec) : Option (Bytes × Bytes) :=
  if spec.outputs.length = 0 then none
  else if spec.holeLen = 0 then none
  else
    let ssigLen := spec.ssigPrefix.length + spec.holeLen
    if ssigLen > sv2CbMaxScriptsig then none
    else
      let plen := 4 + (if spec.witnessReserved.isSome then 2 else 0) + 1 + 36 +
        sv2CompactSizeLen ssigLen + spec.ssigPrefix.length
      let slen := 4 + spec.outputs.length + (if spec.witnessReserved.isSome then 2 + 32 else 0) + 4
      if plen > uint16Max ∨ slen > uint16Max then none
      else some
        (leBytes 4 spec.version.toNat ++ spec.mark ++ [0x01] ++ nullPrevout ++
            sv2WriteCompactSize ssigLen ++ spec.ssigPrefix,
          leBytes 4 spec.nsequence.toNat ++ spec.outputs ++ spec.stack ++
            leBytes 4 spec.locktime.toNat)

/-! ### Both shapes are the same coinbase -/

/-- The input of a coinbase with the given scriptSig. -/
def coinbaseInput (scriptSig : Bytes) (nsequence : UInt32) : Bytes :=
  nullPrevout ++ [UInt8.ofNat scriptSig.length] ++ scriptSig ++ leBytes 4 nsequence.toNat

/-- The input of a coinbase is one input for the walker. -/
theorem skipInput_coinbaseInput (scriptSig : Bytes) (h : scriptSig.length < 0xfd)
    (nsequence : UInt32) : skipInput (coinbaseInput scriptSig nsequence) = some [] := by
  have hc : SpellsCompactSize [UInt8.ofNat scriptSig.length] scriptSig.length := by
    have := spellsCompactSize_write (n := scriptSig.length) (by omega)
    rwa [sv2WriteCompactSize, if_pos h] at this
  have hle : scriptSig.length ≤ uint64Max - 4 := by
    have : 0xfd ≤ uint64Max - 4 := by decide
    omega
  exact skipInput_parts length_nullPrevout hc hle (length_leBytes 4 _)

/-- The marker and the stack of a spec are the optional parts of a
transaction. -/
theorem Sv2CbSpec.witnessParts (spec : Sv2CbSpec) :
    WitnessParts spec.witnessReserved.isSome spec.mark spec.stack := by
  rcases spec with ⟨version, nsequence, locktime, ssigPrefix, holeLen, outputs, - | reserved⟩
  · exact WitnessParts.legacy
  · refine WitnessParts.witness 1 (1 :: 0x20 :: reserved.bytes) (by decide) ?_
    have hitem : skipWitnessItem (0x20 :: reserved.bytes) = some [] := by
      have hlen := skipBytes_append reserved.bytes []
      rw [reserved.length_bytes, List.append_nil] at hlen
      exact hlen
    have hstack : sv2ReadCompactSize (1 :: 0x20 :: reserved.bytes) =
        some (1, 0x20 :: reserved.bytes) := rfl
    simp only [skipWitness, hstack, Option.bind_eq_bind, Option.bind_some, skipMany_one, hitem]
    rfl

/-- What the checks of `sv2_cb_declare_parts` leave, and what it writes. -/
theorem sv2CbDeclareParts_eq_some {spec : Sv2CbSpec} {pre suf : Bytes}
    (h : sv2CbDeclareParts spec = some (pre, suf)) :
    spec.ssigPrefix.length + spec.holeLen ≤ sv2CbMaxScriptsig ∧ 0 < spec.holeLen ∧
      spec.outputs.length ≤ uint16Max ∧
      pre = leBytes 4 spec.version.toNat ++ spec.mark ++ [0x01] ++ nullPrevout ++
        [UInt8.ofNat (spec.ssigPrefix.length + spec.holeLen)] ++ spec.ssigPrefix ∧
      suf = leBytes 4 spec.nsequence.toNat ++ spec.outputs ++ spec.stack ++
        leBytes 4 spec.locktime.toNat := by
  simp only [sv2CbDeclareParts] at h
  split_ifs at h with h1 h2 h3 h4 h5 h6 <;>
    simp only [Option.some.injEq, Prod.mk.injEq] at h
  all_goals
    have hsmall : spec.ssigPrefix.length + spec.holeLen < 0xfd := by
      have : sv2CbMaxScriptsig < 0xfd := by decide
      omega
    obtain ⟨rfl, rfl⟩ := h
    refine ⟨by omega, by omega, by omega, ?_, rfl⟩
    rw [sv2WriteCompactSize, if_pos hsmall]

/-- The coinbase of a spec without its witness, with `e` in its hole. -/
def Sv2CbSpec.legacy (spec : Sv2CbSpec) (e : Bytes) : Bytes :=
  leBytes 4 spec.version.toNat ++ 1 :: (coinbaseInput (spec.ssigPrefix ++ e) spec.nsequence ++
    (spec.outputs ++ leBytes 4 spec.locktime.toNat))

section Filled

variable {spec : Sv2CbSpec} {pre suf e : Bytes}

/-- A filled declaration, along the parts that the walker reads. -/
theorem sv2CbDeclareParts_filled (hdeclare : sv2CbDeclareParts spec = some (pre, suf))
    (he : e.length = spec.holeLen) :
    pre ++ e ++ suf = leBytes 4 spec.version.toNat ++ spec.mark ++
      1 :: (coinbaseInput (spec.ssigPrefix ++ e) spec.nsequence ++
        (spec.outputs ++ (spec.stack ++ leBytes 4 spec.locktime.toNat))) := by
  obtain ⟨-, -, -, rfl, rfl⟩ := sv2CbDeclareParts_eq_some hdeclare
  rw [coinbaseInput, List.length_append, he]
  simp only [List.append_assoc, List.cons_append, List.nil_append]

theorem filled_eq_legacy (hdeclare : sv2CbDeclareParts spec = some (pre, suf))
    (he : e.length = spec.holeLen) (hnone : spec.witnessReserved = none) :
    pre ++ e ++ suf = spec.legacy e := by
  rw [sv2CbDeclareParts_filled hdeclare he, Sv2CbSpec.mark, Sv2CbSpec.stack, hnone,
    Sv2CbSpec.legacy]
  simp

/-- The id of a filled declaration. -/
theorem sv2BitcoinTxid_filled (hdeclare : sv2CbDeclareParts spec = some (pre, suf))
    (houtputs : OutputsBlob spec.outputs) (he : e.length = spec.holeLen) :
    sv2BitcoinTxid (pre ++ e ++ suf) = some (genHash (spec.legacy e)) := by
  obtain ⟨hssig, -, hout, -, -⟩ := sv2CbDeclareParts_eq_some hdeclare
  have hmax : sv2CbMaxScriptsig < 0xfd := by decide
  have hblob : spec.outputs.length ≤ 900000 := by
    have : uint16Max ≤ 900000 := by decide
    omega
  have hinput := skipInput_coinbaseInput (spec.ssigPrefix ++ e)
    (by rw [List.length_append]; omega) spec.nsequence
  rw [sv2CbDeclareParts_filled hdeclare he, Sv2CbSpec.legacy]
  exact sv2BitcoinTxid_parts (length_leBytes 4 _) spec.witnessParts hinput houtputs hblob
    (length_leBytes 4 _)

theorem sv2BitcoinTxid_legacy (hdeclare : sv2CbDeclareParts spec = some (pre, suf))
    (houtputs : OutputsBlob spec.outputs) (he : e.length = spec.holeLen) :
    sv2BitcoinTxid (spec.legacy e) = some (genHash (spec.legacy e)) := by
  obtain ⟨hssig, -, hout, -, -⟩ := sv2CbDeclareParts_eq_some hdeclare
  have hmax : sv2CbMaxScriptsig < 0xfd := by decide
  have hblob : spec.outputs.length ≤ 900000 := by
    have : uint16Max ≤ 900000 := by decide
    omega
  have hinput := skipInput_coinbaseInput (spec.ssigPrefix ++ e)
    (by rw [List.length_append]; omega) spec.nsequence
  have htxid := sv2BitcoinTxid_parts (length_leBytes 4 spec.version.toNat) WitnessParts.legacy
    hinput houtputs hblob (length_leBytes 4 spec.locktime.toNat)
  rw [List.append_nil, List.nil_append] at htxid
  exact htxid

end Filled

/-- **The declared and the custom coinbase have one id.**  For every spec that
`sv2_cb_declare_parts` accepts and every split of its hole into the channel's
part and the miner's, the filled declaration parses as a transaction, the
assembler succeeds in any buffer that is large enough, and both have the same
id; without a witness reserved value they are the same bytes. -/
theorem declared_txid_eq_assembled_txid (spec : Sv2CbSpec) (pre suf : Bytes)
    (hdeclare : sv2CbDeclareParts spec = some (pre, suf)) (houtputs : OutputsBlob spec.outputs)
    (en1 extranonce : Bytes) (hhole : en1.length + extranonce.length = spec.holeLen) (outsz : Nat)
    (hfit : sv2CbNeed (spec.ssigPrefix.length + spec.holeLen) spec.outputs.length ≤ outsz) :
    ∃ assembled txid,
      sv2CbAssemble outsz spec.version spec.nsequence spec.locktime spec.ssigPrefix en1 extranonce
        spec.outputs = some assembled ∧
      sv2BitcoinTxid (pre ++ en1 ++ extranonce ++ suf) = some txid ∧
      sv2BitcoinTxid assembled = some txid ∧
      (spec.witnessReserved = none → pre ++ en1 ++ extranonce ++ suf = assembled) := by
  obtain ⟨hssig, -, -, -, -⟩ := sv2CbDeclareParts_eq_some hdeclare
  have hmax : sv2CbMaxScriptsig < 0xfd := by decide
  have he : (en1 ++ extranonce).length = spec.holeLen := by rw [List.length_append, hhole]
  have hsum : spec.ssigPrefix.length + en1.length + extranonce.length =
      spec.ssigPrefix.length + spec.holeLen := by omega
  have hfilled : pre ++ en1 ++ extranonce ++ suf = pre ++ (en1 ++ extranonce) ++ suf := by
    rw [List.append_assoc pre]
  refine ⟨spec.legacy (en1 ++ extranonce), genHash (spec.legacy (en1 ++ extranonce)), ?_, ?_, ?_, ?_⟩
  · simp only [sv2CbAssemble, hsum]
    rw [if_neg (by omega), if_neg (by omega), Sv2CbSpec.legacy, coinbaseInput, List.length_append,
      he]
    simp only [List.append_assoc, List.cons_append, List.nil_append]
  · rw [hfilled]
    exact sv2BitcoinTxid_filled hdeclare houtputs he
  · exact sv2BitcoinTxid_legacy hdeclare houtputs he
  · intro hlegacy
    rw [hfilled]
    exact filled_eq_legacy hdeclare he hlegacy

/-- A spec with a witness and one output that pays nobody. -/
def exampleSpec : Sv2CbSpec where
  version := 2
  nsequence := 0xffffffff
  locktime := 101
  ssigPrefix := [1, 101]
  holeLen := 3
  outputs := [1, 0, 0, 0, 0, 0, 0, 0, 0, 1, 0x6a]
  witnessReserved := some .zero

/-- The two coinbases of `exampleSpec`. -/
theorem declared_txid_eq_assembled_txid_example :
    ∃ pre suf, sv2CbDeclareParts exampleSpec = some (pre, suf) ∧
      ∃ assembled txid,
        sv2CbAssemble 2048 2 0xffffffff 101 [1, 101] [7] [8, 9] exampleSpec.outputs
          = some assembled ∧
        sv2BitcoinTxid (pre ++ [7] ++ [8, 9] ++ suf) = some txid ∧
        sv2BitcoinTxid assembled = some txid ∧
        (exampleSpec.witnessReserved = none → pre ++ [7] ++ [8, 9] ++ suf = assembled) := by
  have hout : TxOutBytes (List.replicate 8 0 ++ [1] ++ [0x6a]) :=
    TxOutBytes.mk (List.replicate 8 0) [1] [0x6a] rfl rfl
  have houtputs : OutputsBlob exampleSpec.outputs := by
    have hblob : exampleSpec.outputs = [1] ++ [List.replicate 8 0 ++ [1] ++ [0x6a]].flatten := by
      decide
    rw [hblob]
    exact OutputsBlob.mk [1] _ rfl (by simpa using hout)
  exact ⟨_, _, rfl,
    declared_txid_eq_assembled_txid exampleSpec _ _ rfl houtputs [7] [8, 9] rfl 2048 (by decide)⟩

end CashStratum
