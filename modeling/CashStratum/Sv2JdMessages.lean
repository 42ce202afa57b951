/-
CashStratum/Sv2JdMessages.lean

The messages of job declaration, and those of custom jobs (`sv2_codec.c`).  The job
declarator and its client share one set of structures: each side encodes what the other
decodes.

A list of transactions may be longer than a frame that a peer takes: its encoder fails
closed above `maxJdPayload`, the decoder relies on the connection for it.

A SetCustomMiningJob is that of the custom jobs, and a DeclareMiningJob is that of the job
declarator, with the excess data that it does not look at.
-/
import CashStratum.Sv2Messages

namespace CashStratum.Sv2

/-! ### AllocateMiningJobToken -/

/-- `struct sv2_allocate_mining_job_token` -/
structure AllocateMiningJobToken where
  userIdentifier : Bytes
  requestId : UInt32

/-- The size of the payload. -/
def AllocateMiningJobToken.need (m : AllocateMiningJobToken) : Nat :=
  1 + strlen m.userIdentifier + 4

/-- In wire order. -/
def AllocateMiningJobToken.fields (m : AllocateMiningJobToken) : List Bytes :=
  [writeStr m.userIdentifier, writeU32 m.requestId]

/-- `sv2_encode_allocate_mining_job_token` -/
def encodeAllocateMiningJobToken (bufsz : Nat) (m : AllocateMiningJobToken) : Option Bytes :=
  encodeFields bufsz m.need m.fields

/-- `sv2_decode_allocate_mining_job_token` -/
def decodeAllocateMiningJobToken (p : Bytes) : Option (AllocateMiningJobToken × Bytes) := do
  let (userIdentifier, p) ← readStr p
  let (requestId, p) ← readU32 p
  some (⟨userIdentifier, requestId⟩, p)

/-- Its codec. -/
def allocateMiningJobToken : Sv2Codec where
  Msg := AllocateMiningJobToken
  Fits m := m.userIdentifier.length ≤ maxStrLen
  strings m := [m.userIdentifier]
  need := AllocateMiningJobToken.need
  encode := encodeAllocateMiningJobToken
  decode := decodeAllocateMiningJobToken

theorem allocateMiningJobToken_exact :
    allocateMiningJobToken.Exact AllocateMiningJobToken.fields where
  encode_need _ _ _ := rfl
  length_fields := by
    intro m hidentifier
    simp [AllocateMiningJobToken.fields, allocateMiningJobToken, AllocateMiningJobToken.need,
      length_writeStr hidentifier]
  decode_iff := by
    rintro p q ⟨userIdentifier, requestId⟩ hnul
    simp [Sv2Codec.NoNul, allocateMiningJobToken] at hnul
    simp [allocateMiningJobToken, decodeAllocateMiningJobToken, AllocateMiningJobToken.fields,
      Option.bind_eq_some_iff, readStr_eq_some_iff, hnul]
    exact and_comm

/-- `struct sv2_allocate_mining_job_token_success` -/
structure AllocateMiningJobTokenSuccess where
  requestId : UInt32
  miningJobToken : Bytes
  coinbaseTxOutputs : Bytes

/-- The size of the payload. -/
def AllocateMiningJobTokenSuccess.need (m : AllocateMiningJobTokenSuccess) : Nat :=
  4 + 1 + m.miningJobToken.length + 2 + m.coinbaseTxOutputs.length

/-- In wire order. -/
def AllocateMiningJobTokenSuccess.fields (m : AllocateMiningJobTokenSuccess) : List Bytes :=
  [writeU32 m.requestId, writeB0255 m.miningJobToken, writeB064k m.coinbaseTxOutputs]

/-- `sv2_encode_allocate_mining_job_token_success` -/
def encodeAllocateMiningJobTokenSuccess (bufsz : Nat) (m : AllocateMiningJobTokenSuccess) :
    Option Bytes :=
  encodeFields bufsz m.need m.fields

/-- `sv2_decode_allocate_mining_job_token_success` -/
def decodeAllocateMiningJobTokenSuccess (p : Bytes) :
    Option (AllocateMiningJobTokenSuccess × Bytes) := do
  let (requestId, p) ← readU32 p
  let (miningJobToken, p) ← readB0255 p
  let (coinbaseTxOutputs, p) ← readB064k p
  some (⟨requestId, miningJobToken, coinbaseTxOutputs⟩, p)

/-- Its codec. -/
def allocateMiningJobTokenSuccess : Sv2Codec where
  Msg := AllocateMiningJobTokenSuccess
  Fits m := m.miningJobToken.length ≤ 255 ∧ m.coinbaseTxOutputs.length ≤ 65535
  need := AllocateMiningJobTokenSuccess.need
  encode := encodeAllocateMiningJobTokenSuccess
  decode := decodeAllocateMiningJobTokenSuccess

theorem allocateMiningJobTokenSuccess_exact :
    allocateMiningJobTokenSuccess.Exact AllocateMiningJobTokenSuccess.fields where
  encode_need _ _ _ := rfl
  length_fields m _ := by
    simp [AllocateMiningJobTokenSuccess.fields, allocateMiningJobTokenSuccess,
      AllocateMiningJobTokenSuccess.need]
    omega
  decode_iff := by
    rintro p q ⟨requestId, miningJobToken, coinbaseTxOutputs⟩ -
    simp [allocateMiningJobTokenSuccess, decodeAllocateMiningJobTokenSuccess,
      AllocateMiningJobTokenSuccess.fields, Option.bind_eq_some_iff]

/-! ### DeclareMiningJob -/

/-- `struct sv2_declare_mining_job` -/
structure DeclareMiningJob extends CashStratum.DeclareMiningJob where
  excessData : Bytes

/-- `sv2_declare_mining_job_encoded_size` -/
def declareMiningJobEncodedSize (m : DeclareMiningJob) : Nat :=
  4 + 1 + m.token.length + 4 + 2 + m.coinbaseTxPrefix.length + 2 + m.coinbaseTxSuffix.length +
    2 + m.wtxidList.length * 32 + 2 + m.excessData.length

/-- In wire order. -/
def DeclareMiningJob.fields (m : DeclareMiningJob) : List Bytes :=
  [writeU32 m.requestId, writeB0255 m.token, writeU32 m.version, writeB064k m.coinbaseTxPrefix,
    writeB064k m.coinbaseTxSuffix, writeWtxidList m.wtxidList, writeB064k m.excessData]

/-- `sv2_encode_declare_mining_job` -/
def encodeDeclareMiningJob (bufsz : Nat) (m : DeclareMiningJob) : Option Bytes :=
  if maxJdTxns < m.wtxidList.length ∨ maxJdPayload < declareMiningJobEncodedSize m then none
  else encodeFields bufsz (declareMiningJobEncodedSize m) m.fields

/-- `sv2_decode_declare_mining_job` -/
def decodeDeclareMiningJob (p : Bytes) : Option (DeclareMiningJob × Bytes) := do
  let (requestId, p) ← readU32 p
  let (token, p) ← readB0255 p
  let (version, p) ← readU32 p
  let (coinbaseTxPrefix, p) ← readB064k p
  let (coinbaseTxSuffix, p) ← readB064k p
  let (wtxidList, p) ← readWtxidList p
  let (excessData, p) ← readB064k p
  some (⟨⟨requestId, token, version, coinbaseTxPrefix, coinbaseTxSuffix, wtxidList⟩,
    excessData⟩, p)

/-- Its codec. -/
def declareMiningJob : Sv2Codec where
  Msg := DeclareMiningJob
  Fits m := m.token.length ≤ 255 ∧ m.coinbaseTxPrefix.length ≤ 65535 ∧
    m.coinbaseTxSuffix.length ≤ 65535 ∧ m.wtxidList.length ≤ maxJdTxns ∧
    m.excessData.length ≤ 65535
  need := declareMiningJobEncodedSize
  encode := encodeDeclareMiningJob
  decode := decodeDeclareMiningJob

theorem declareMiningJob_exact : declareMiningJob.Exact DeclareMiningJob.fields where
  encode_need := by
    rintro m ⟨htoken, hpre, hsuf, hcount, hexcess⟩ -
    -- a declaration within the limits is far below what a peer takes
    have hlen : declareMiningJobEncodedSize m ≤ maxJdPayload := by
      dsimp only [declareMiningJobEncodedSize, maxJdPayload, maxJdTxns] at *
      omega
    exact if_neg (not_or.mpr ⟨not_lt.mpr hcount, not_lt.mpr hlen⟩)
  length_fields m _ := by
    simp [DeclareMiningJob.fields, declareMiningJob, declareMiningJobEncodedSize]
    omega
  decode_iff := by
    rintro p q ⟨⟨requestId, token, version, pre, suf, wtxids⟩, excess⟩ -
    simp [declareMiningJob, decodeDeclareMiningJob, DeclareMiningJob.fields,
      Option.bind_eq_some_iff]

/-- `struct sv2_declare_mining_job_success` -/
structure DeclareMiningJobSuccess where
  requestId : UInt32
  newMiningJobToken : Bytes

/-- The size of the payload. -/
def DeclareMiningJobSuccess.need (m : DeclareMiningJobSuccess) : Nat :=
  4 + 1 + m.newMiningJobToken.length

/-- In wire order. -/
def DeclareMiningJobSuccess.fields (m : DeclareMiningJobSuccess) : List Bytes :=
  [writeU32 m.requestId, writeB0255 m.newMiningJobToken]

/-- `sv2_encode_declare_mining_job_success` -/
def encodeDeclareMiningJobSuccess (bufsz : Nat) (m : DeclareMiningJobSuccess) : Option Bytes :=
  encodeFields bufsz m.need m.fields

/-- `sv2_decode_declare_mining_job_success` -/
def decodeDeclareMiningJobSuccess (p : Bytes) : Option (DeclareMiningJobSuccess × Bytes) := do
  let (requestId, p) ← readU32 p
  let (newMiningJobToken, p) ← readB0255 p
  some (⟨requestId, newMiningJobToken⟩, p)

/-- Its codec. -/
def declareMiningJobSuccess : Sv2Codec where
  Msg := DeclareMiningJobSuccess
  Fits m := m.newMiningJobToken.length ≤ 255
  need := DeclareMiningJobSuccess.need
  encode := encodeDeclareMiningJobSuccess
  decode := decodeDeclareMiningJobSuccess

theorem declareMiningJobSuccess_exact :
    declareMiningJobSuccess.Exact DeclareMiningJobSuccess.fields where
  encode_need _ _ _ := rfl
  length_fields m _ := by
    simp [DeclareMiningJobSuccess.fields, declareMiningJobSuccess, DeclareMiningJobSuccess.need]
    omega
  decode_iff := by
    rintro p q ⟨requestId, newMiningJobToken⟩ -
    simp [declareMiningJobSuccess, decodeDeclareMiningJobSuccess, DeclareMiningJobSuccess.fields,
      Option.bind_eq_some_iff]

/-- `struct sv2_declare_mining_job_error` -/
structure DeclareMiningJobError where
  requestId : UInt32
  errorCode : Bytes
  errorDetails : Bytes

/-- The size of the payload. -/
def DeclareMiningJobError.need (m : DeclareMiningJobError) : Nat :=
  4 + 1 + strlen m.errorCode + 2 + m.errorDetails.length

/-- In wire order. -/
def DeclareMiningJobError.fields (m : DeclareMiningJobError) : List Bytes :=
  [writeU32 m.requestId, writeStr m.errorCode, writeB064k m.errorDetails]

/-- `sv2_encode_declare_mining_job_error` -/
def encodeDeclareMiningJobError (bufsz : Nat) (m : DeclareMiningJobError) : Option Bytes :=
  encodeFields bufsz m.need m.fields

/-- `sv2_decode_declare_mining_job_error` -/
def decodeDeclareMiningJobError (p : Bytes) : Option (DeclareMiningJobError × Bytes) := do
  let (requestId, p) ← readU32 p
  let (errorCode, p) ← readStr p
  let (errorDetails, p) ← readB064k p
  some (⟨requestId, errorCode, errorDetails⟩, p)

/-- Its codec. -/
def declareMiningJobError : Sv2Codec where
  Msg := DeclareMiningJobError
  Fits m := m.errorCode.length ≤ maxStrLen ∧ m.errorDetails.length ≤ 65535
  strings m := [m.errorCode]
  need := DeclareMiningJobError.need
  encode := encodeDeclareMiningJobError
  decode := decodeDeclareMiningJobError

theorem declareMiningJobError_exact :
    declareMiningJobError.Exact DeclareMiningJobError.fields where
  encode_need _ _ _ := rfl
  length_fields := by
    rintro m ⟨hcode, -⟩
    simp [DeclareMiningJobError.fields, declareMiningJobError, DeclareMiningJobError.need,
      length_writeStr hcode]
    omega
  decode_iff := by
    rintro p q ⟨requestId, errorCode, errorDetails⟩ hnul
    simp [Sv2Codec.NoNul, declareMiningJobError] at hnul
    simp [declareMiningJobError, decodeDeclareMiningJobError, DeclareMiningJobError.fields,
      Option.bind_eq_some_iff, readStr_eq_some_iff, hnul]

/-! ### ProvideMissingTransactions -/

/-- `struct sv2_provide_missing_transactions` -/
structure ProvideMissingTransactions where
  requestId : UInt32
  unknownTxPositionList : List UInt16

/-- The size of the payload. -/
def ProvideMissingTransactions.need (m : ProvideMissingTransactions) : Nat :=
  4 + 2 + m.unknownTxPositionList.length * 2

/-- In wire order. -/
def ProvideMissingTransactions.fields (m : ProvideMissingTransactions) : List Bytes :=
  [writeU32 m.requestId, writePositionList m.unknownTxPositionList]

/-- `sv2_encode_provide_missing_transactions` -/
def encodeProvideMissingTransactions (bufsz : Nat) (m : ProvideMissingTransactions) :
    Option Bytes :=
  encodeFields bufsz m.need m.fields

/-- `sv2_decode_provide_missing_transactions` -/
def decodeProvideMissingTransactions (p : Bytes) :
    Option (ProvideMissingTransactions × Bytes) := do
  let (requestId, p) ← readU32 p
  let (unknownTxPositionList, p) ← readPositionList p
  some (⟨requestId, unknownTxPositionList⟩, p)

/-- Its codec. -/
def provideMissingTransactions : Sv2Codec where
  Msg := ProvideMissingTransactions
  Fits m := m.unknownTxPositionList.length ≤ maxJdTxns
  need := ProvideMissingTransactions.need
  encode := encodeProvideMissingTransactions
  decode := decodeProvideMissingTransactions

theorem provideMissingTransactions_exact :
    provideMissingTransactions.Exact ProvideMissingTransactions.fields where
  encode_need _ _ _ := rfl
  length_fields m _ := by
    simp [ProvideMissingTransactions.fields, provideMissingTransactions,
      ProvideMissingTransactions.need]
    omega
  decode_iff := by
    rintro p q ⟨requestId, unknownTxPositionList⟩ -
    simp [provideMissingTransactions, decodeProvideMissingTransactions,
      ProvideMissingTransactions.fields, Option.bind_eq_some_iff]

/-- `struct sv2_provide_missing_transactions_success` -/
structure ProvideMissingTransactionsSuccess where
  requestId : UInt32
  transactions : List Bytes

/-- `sv2_provide_missing_tx_success_encoded_size` -/
def provideMissingTxSuccessEncodedSize (m : ProvideMissingTransactionsSuccess) : Nat :=
  m.transactions.foldl (fun need tx => need + (3 + tx.length)) (4 + 2)

/-- In wire order. -/
def ProvideMissingTransactionsSuccess.fields (m : ProvideMissingTransactionsSuccess) :
    List Bytes :=
  [writeU32 m.requestId, writeTransactions m.transactions]

/-- `sv2_encode_provide_missing_transactions_success` -/
def encodeProvideMissingTransactionsSuccess (bufsz : Nat)
    (m : ProvideMissingTransactionsSuccess) : Option Bytes :=
  if maxJdTxns < m.transactions.length then none
  else if m.transactions.any fun tx => decide (maxTxBytes < tx.length) then none
  else if maxJdPayload < provideMissingTxSuccessEncodedSize m then none
  else encodeFields bufsz (provideMissingTxSuccessEncodedSize m) m.fields

/-- `sv2_decode_provide_missing_transactions_success` -/
def decodeProvideMissingTransactionsSuccess (p : Bytes) :
    Option (ProvideMissingTransactionsSuccess × Bytes) := do
  let (requestId, p) ← readU32 p
  let (transactions, p) ← readTransactions p
  some (⟨requestId, transactions⟩, p)

/-- Its codec. -/
def provideMissingTransactionsSuccess : Sv2Codec where
  Msg := ProvideMissingTransactionsSuccess
  Fits m := m.transactions.length ≤ maxJdTxns ∧ ∀ tx ∈ m.transactions, tx.length ≤ maxTxBytes
  FitsFrame m := provideMissingTxSuccessEncodedSize m ≤ maxJdPayload
  need := provideMissingTxSuccessEncodedSize
  encode := encodeProvideMissingTransactionsSuccess
  decode := decodeProvideMissingTransactionsSuccess

/-- A loop that adds up. -/
theorem foldl_add_eq {α : Type} (f : α → Nat) (l : List α) (n : Nat) :
    l.foldl (fun need a => need + f a) n = n + (l.map f).sum := by
  induction l generalizing n with
  | nil => rfl
  | cons a l ih => rw [List.foldl_cons, ih, List.map_cons, List.sum_cons, Nat.add_assoc]

theorem provideMissingTransactionsSuccess_exact :
    provideMissingTransactionsSuccess.Exact ProvideMissingTransactionsSuccess.fields where
  encode_need := by
    rintro m ⟨hcount, htxs⟩ hframe
    have hany : ¬ (m.transactions.any fun tx => decide (maxTxBytes < tx.length)) = true := by
      simpa using htxs
    exact (if_neg (not_lt.mpr hcount)).trans ((if_neg hany).trans (if_neg (not_lt.mpr hframe)))
  length_fields m _ := by
    simp [ProvideMissingTransactionsSuccess.fields, provideMissingTransactionsSuccess,
      provideMissingTxSuccessEncodedSize, foldl_add_eq, length_writeTransactions]
    omega
  decode_iff := by
    rintro p q ⟨requestId, transactions⟩ -
    simp [provideMissingTransactionsSuccess, decodeProvideMissingTransactionsSuccess,
      ProvideMissingTransactionsSuccess.fields, Option.bind_eq_some_iff]

/-! ### SetCustomMiningJob -/

/-- `sv2_set_custom_mining_job_encoded_size` -/
def setCustomMiningJobEncodedSize (m : SetCustomMiningJob) : Nat :=
  4 + 4 + 1 + m.miningJobToken.length + 4 + 32 + 4 + 4 + 4 + 1 + m.coinbasePrefix.length + 4 +
    2 + m.coinbaseTxOutputs.length + 4 + 1 + m.merklePath.length * 32

/-- In wire order. -/
def SetCustomMiningJob.fields (m : SetCustomMiningJob) : List Bytes :=
  [writeU32 m.channelId, writeU32 m.requestId, writeB0255 m.miningJobToken, writeU32 m.version,
    writeU256 m.prevHash, writeU32 m.minNtime, writeU32 m.nbits, writeU32 m.coinbaseTxVersion,
    writeB0255 m.coinbasePrefix, writeU32 m.coinbaseTxInputNSequence,
    writeB064k m.coinbaseTxOutputs, writeU32 m.coinbaseTxLocktime, writeMerklePath m.merklePath]

/-- `sv2_encode_set_custom_mining_job` -/
def encodeSetCustomMiningJob (bufsz : Nat) (m : SetCustomMiningJob) : Option Bytes :=
  if maxMerklePath < m.merklePath.length then none
  else encodeFields bufsz (setCustomMiningJobEncodedSize m) (SetCustomMiningJob.fields m)

/-- `sv2_decode_set_custom_mining_job` -/
def decodeSetCustomMiningJob (p : Bytes) : Option (SetCustomMiningJob × Bytes) := do
  let (channelId, p) ← readU32 p
  let (requestId, p) ← readU32 p
  let (miningJobToken, p) ← readB0255 p
  let (version, p) ← readU32 p
  let (prevHash, p) ← readU256 p
  let (minNtime, p) ← readU32 p
  let (nbits, p) ← readU32 p
  let (coinbaseTxVersion, p) ← readU32 p
  let (coinbasePrefix, p) ← readB0255 p
  let (coinbaseTxInputNSequence, p) ← readU32 p
  let (coinbaseTxOutputs, p) ← readB064k p
  let (coinbaseTxLocktime, p) ← readU32 p
  let (merklePath, p) ← readMerklePath p
  some (⟨channelId, requestId, miningJobToken, version, prevHash, minNtime, nbits,
    coinbaseTxVersion, coinbasePrefix, coinbaseTxInputNSequence, coinbaseTxOutputs,
    coinbaseTxLocktime, merklePath⟩, p)

/-- Its codec. -/
def setCustomMiningJob : Sv2Codec where
  Msg := SetCustomMiningJob
  Fits m := m.miningJobToken.length ≤ 255 ∧ m.coinbasePrefix.length ≤ 255 ∧
    m.coinbaseTxOutputs.length ≤ 65535 ∧ m.merklePath.length ≤ maxMerklePath
  need := setCustomMiningJobEncodedSize
  encode := encodeSetCustomMiningJob
  decode := decodeSetCustomMiningJob

/-- The fields are read one after another. -/
theorem decodeSetCustomMiningJob_fields {m : SetCustomMiningJob} (hfits : setCustomMiningJob.Fits m)
    (q : Bytes) :
    decodeSetCustomMiningJob ((SetCustomMiningJob.fields m).flatten ++ q) = some (m, q) := by
  obtain ⟨htoken, hpre, houtputs, hmerkle⟩ := hfits
  have hu32 : ∀ v r, readU32 (writeU32 v ++ r) = some (v, r) :=
    fun _ _ => readU32_eq_some_iff.mpr rfl
  have hu256 : ∀ v r, readU256 (writeU256 v ++ r) = some (v, r) :=
    fun _ _ => readU256_eq_some_iff.mpr rfl
  have ht : ∀ r, readB0255 (writeB0255 m.miningJobToken ++ r) = some (m.miningJobToken, r) :=
    fun _ => readB0255_eq_some_iff.mpr ⟨htoken, rfl⟩
  have hp : ∀ r, readB0255 (writeB0255 m.coinbasePrefix ++ r) = some (m.coinbasePrefix, r) :=
    fun _ => readB0255_eq_some_iff.mpr ⟨hpre, rfl⟩
  have ho : ∀ r, readB064k (writeB064k m.coinbaseTxOutputs ++ r)
      = some (m.coinbaseTxOutputs, r) :=
    fun _ => readB064k_eq_some_iff.mpr ⟨houtputs, rfl⟩
  have hm : ∀ r, readMerklePath (writeMerklePath m.merklePath ++ r) = some (m.merklePath, r) :=
    fun _ => readMerklePath_eq_some_iff.mpr ⟨hmerkle, rfl⟩
  simp only [SetCustomMiningJob.fields, List.flatten_cons, List.flatten_nil, List.append_assoc,
    List.nil_append]
  dsimp only [decodeSetCustomMiningJob, Option.bind_eq_bind]
  refine Option.bind_eq_some_iff.mpr ⟨_, hu32 m.channelId _, ?_⟩
  refine Option.bind_eq_some_iff.mpr ⟨_, hu32 m.requestId _, ?_⟩
  refine Option.bind_eq_some_iff.mpr ⟨_, ht _, ?_⟩
  refine Option.bind_eq_some_iff.mpr ⟨_, hu32 m.version _, ?_⟩
  refine Option.bind_eq_some_iff.mpr ⟨_, hu256 m.prevHash _, ?_⟩
  refine Option.bind_eq_some_iff.mpr ⟨_, hu32 m.minNtime _, ?_⟩
  refine Option.bind_eq_some_iff.mpr ⟨_, hu32 m.nbits _, ?_⟩
  refine Option.bind_eq_some_iff.mpr ⟨_, hu32 m.coinbaseTxVersion _, ?_⟩
  refine Option.bind_eq_some_iff.mpr ⟨_, hp _, ?_⟩
  refine Option.bind_eq_some_iff.mpr ⟨_, hu32 m.coinbaseTxInputNSequence _, ?_⟩
  refine Option.bind_eq_some_iff.mpr ⟨_, ho _, ?_⟩
  refine Option.bind_eq_some_iff.mpr ⟨_, hu32 m.coinbaseTxLocktime _, ?_⟩
  exact Option.bind_eq_some_iff.mpr ⟨_, hm _, rfl⟩

/-- What is read are the fields. -/
theorem fields_of_decodeSetCustomMiningJob {p q : Bytes} {m : SetCustomMiningJob}
    (h : decodeSetCustomMiningJob p = some (m, q)) :
    p = (SetCustomMiningJob.fields m).flatten ++ q ∧ setCustomMiningJob.Fits m := by
  obtain ⟨⟨channelId, p₁⟩, h₁, h⟩ := Option.bind_eq_some_iff.mp h
  obtain ⟨⟨requestId, p₂⟩, h₂, h⟩ := Option.bind_eq_some_iff.mp h
  obtain ⟨⟨token, p₃⟩, h₃, h⟩ := Option.bind_eq_some_iff.mp h
  obtain ⟨⟨version, p₄⟩, h₄, h⟩ := Option.bind_eq_some_iff.mp h
  obtain ⟨⟨prevHash, p₅⟩, h₅, h⟩ := Option.bind_eq_some_iff.mp h
  obtain ⟨⟨minNtime, p₆⟩, h₆, h⟩ := Option.bind_eq_some_iff.mp h
  obtain ⟨⟨nbits, p₇⟩, h₇, h⟩ := Option.bind_eq_some_iff.mp h
  obtain ⟨⟨cbVersion, p₈⟩, h₈, h⟩ := Option.bind_eq_some_iff.mp h
  obtain ⟨⟨cbPrefix, p₉⟩, h₉, h⟩ := Option.bind_eq_some_iff.mp h
  obtain ⟨⟨cbSequence, p₁₀⟩, h₁₀, h⟩ := Option.bind_eq_some_iff.mp h
  obtain ⟨⟨cbOutputs, p₁₁⟩, h₁₁, h⟩ := Option.bind_eq_some_iff.mp h
  obtain ⟨⟨cbLocktime, p₁₂⟩, h₁₂, h⟩ := Option.bind_eq_some_iff.mp h
  obtain ⟨⟨merklePath, p₁₃⟩, h₁₃, h⟩ := Option.bind_eq_some_iff.mp h
  obtain ⟨rfl, rfl⟩ := Prod.mk.inj (Option.some.inj h)
  simp only [readU32_eq_some_iff, readB0255_eq_some_iff, readU256_eq_some_iff,
    readB064k_eq_some_iff, readMerklePath_eq_some_iff] at h₁ h₂ h₃ h₄ h₅ h₆ h₇ h₈ h₉ h₁₀ h₁₁ h₁₂ h₁₃
  refine ⟨?_, h₃.1, h₉.1, h₁₁.1, h₁₃.1⟩
  simp only [h₁, h₂, h₃.2, h₄, h₅, h₆, h₇, h₈, h₉.2, h₁₀, h₁₁.2, h₁₂, h₁₃.2,
    SetCustomMiningJob.fields, List.flatten_cons, List.flatten_nil, List.append_assoc,
    List.nil_append]

theorem setCustomMiningJob_exact : setCustomMiningJob.Exact SetCustomMiningJob.fields where
  encode_need := by
    rintro m ⟨-, -, -, hmerkle⟩ -
    exact if_neg (not_lt.mpr hmerkle)
  length_fields m _ := by
    simp [SetCustomMiningJob.fields, setCustomMiningJob, setCustomMiningJobEncodedSize]
    omega
  decode_iff := by
    intro p q m _
    constructor
    · intro h
      exact fields_of_decodeSetCustomMiningJob h
    · rintro ⟨rfl, hfits⟩
      exact decodeSetCustomMiningJob_fields hfits q

/-- `struct sv2_set_custom_mining_job_success` -/
structure SetCustomMiningJobSuccess where
  channelId : UInt32
  requestId : UInt32
  jobId : UInt32

/-- In wire order. -/
def SetCustomMiningJobSuccess.fields (m : SetCustomMiningJobSuccess) : List Bytes :=
  [writeU32 m.channelId, writeU32 m.requestId, writeU32 m.jobId]

/-- `sv2_encode_set_custom_mining_job_success` -/
def encodeSetCustomMiningJobSuccess (bufsz : Nat) (m : SetCustomMiningJobSuccess) :
    Option Bytes :=
  encodeFields bufsz 12 m.fields

/-- `sv2_decode_set_custom_mining_job_success` -/
def decodeSetCustomMiningJobSuccess (p : Bytes) :
    Option (SetCustomMiningJobSuccess × Bytes) := do
  let (channelId, p) ← readU32 p
  let (requestId, p) ← readU32 p
  let (jobId, p) ← readU32 p
  some (⟨channelId, requestId, jobId⟩, p)

/-- Its codec. -/
def setCustomMiningJobSuccess : Sv2Codec where
  Msg := SetCustomMiningJobSuccess
  need _ := 12
  encode := encodeSetCustomMiningJobSuccess
  decode := decodeSetCustomMiningJobSuccess

theorem setCustomMiningJobSuccess_exact :
    setCustomMiningJobSuccess.Exact SetCustomMiningJobSuccess.fields where
  encode_need _ _ _ := rfl
  length_fields m _ := by simp [SetCustomMiningJobSuccess.fields, setCustomMiningJobSuccess]
  decode_iff := by
    rintro p q ⟨channelId, requestId, jobId⟩ -
    simp [setCustomMiningJobSuccess, decodeSetCustomMiningJobSuccess,
      SetCustomMiningJobSuccess.fields, Option.bind_eq_some_iff]

/-- `struct sv2_set_custom_mining_job_error` -/
structure SetCustomMiningJobError where
  channelId : UInt32
  requestId : UInt32
  errorCode : Bytes

/-- The size of the payload. -/
def SetCustomMiningJobError.need (m : SetCustomMiningJobError) : Nat :=
  8 + 1 + strlen m.errorCode

/-- In wire order. -/
def SetCustomMiningJobError.fields (m : SetCustomMiningJobError) : List Bytes :=
  [writeU32 m.channelId, writeU32 m.requestId, writeStr m.errorCode]

/-- `sv2_encode_set_custom_mining_job_error` -/
def encodeSetCustomMiningJobError (bufsz : Nat) (m : SetCustomMiningJobError) : Option Bytes :=
  encodeFields bufsz m.need m.fields

/-- `sv2_decode_set_custom_mining_job_error` -/
def decodeSetCustomMiningJobError (p : Bytes) : Option (SetCustomMiningJobError × Bytes) := do
  let (channelId, p) ← readU32 p
  let (requestId, p) ← readU32 p
  let (errorCode, p) ← readStr p
  some (⟨channelId, requestId, errorCode⟩, p)

/-- Its codec. -/
def setCustomMiningJobError : Sv2Codec where
  Msg := SetCustomMiningJobError
  Fits m := m.errorCode.length ≤ maxStrLen
  strings m := [m.errorCode]
  need := SetCustomMiningJobError.need
  encode := encodeSetCustomMiningJobError
  decode := decodeSetCustomMiningJobError

theorem setCustomMiningJobError_exact :
    setCustomMiningJobError.Exact SetCustomMiningJobError.fields where
  encode_need _ _ _ := rfl
  length_fields := by
    intro m hcode
    simp [SetCustomMiningJobError.fields, setCustomMiningJobError, SetCustomMiningJobError.need,
      length_writeStr hcode]
    omega
  decode_iff := by
    rintro p q ⟨channelId, requestId, errorCode⟩ hnul
    simp [Sv2Codec.NoNul, setCustomMiningJobError] at hnul
    simp [setCustomMiningJobError, decodeSetCustomMiningJobError, SetCustomMiningJobError.fields,
      Option.bind_eq_some_iff, readStr_eq_some_iff, hnul]

/-! ### PushSolution -/

/-- `struct sv2_push_solution` -/
structure PushSolution where
  extranonce : Bytes
  prevHash : Hash256
  nonce : UInt32
  ntime : UInt32
  nbits : UInt32
  version : UInt32

/-- The size of the payload. -/
def PushSolution.need (m : PushSolution) : Nat := 1 + m.extranonce.length + 32 + 16

/-- In wire order. -/
def PushSolution.fields (m : PushSolution) : List Bytes :=
  [writeB032 m.extranonce, writeU256 m.prevHash, writeU32 m.nonce, writeU32 m.ntime,
    writeU32 m.nbits, writeU32 m.version]

/-- `sv2_encode_push_solution` -/
def encodePushSolution (bufsz : Nat) (m : PushSolution) : Option Bytes :=
  if maxB032 < m.extranonce.length then none else encodeFields bufsz m.need m.fields

/-- `sv2_decode_push_solution` -/
def decodePushSolution (p : Bytes) : Option (PushSolution × Bytes) := do
  let (extranonce, p) ← readB032 p
  let (prevHash, p) ← readU256 p
  let (nonce, p) ← readU32 p
  let (ntime, p) ← readU32 p
  let (nbits, p) ← readU32 p
  let (version, p) ← readU32 p
  some (⟨extranonce, prevHash, nonce, ntime, nbits, version⟩, p)

/-- Its codec. -/
def pushSolution : Sv2Codec where
  Msg := PushSolution
  Fits m := m.extranonce.length ≤ maxB032
  need := PushSolution.need
  encode := encodePushSolution
  decode := decodePushSolution

theorem pushSolution_exact : pushSolution.Exact PushSolution.fields where
  encode_need _ hextranonce _ := if_neg (not_lt.mpr hextranonce)
  length_fields := by
    intro m hextranonce
    simp [PushSolution.fields, pushSolution, PushSolution.need, length_writeB032 hextranonce]
  decode_iff := by
    rintro p q ⟨extranonce, prevHash, nonce, ntime, nbits, version⟩ -
    simp [pushSolution, decodePushSolution, PushSolution.fields, Option.bind_eq_some_iff]
    exact and_comm

/-! ### Every message -/

/-- The message types with both halves, but for NewExtendedMiningJob. -/
def codecs : List Sv2Codec :=
  [setupConnection, setupConnectionSuccess, setupConnectionError, openExtendedChannel,
    openExtendedChannelSuccess, openChannelError, updateChannel, setTarget, setNewPrevHash,
    submitSharesExtended, submitSharesSuccess, submitSharesError, allocateMiningJobToken,
    allocateMiningJobTokenSuccess, declareMiningJob, declareMiningJobSuccess,
    declareMiningJobError, provideMissingTransactions, provideMissingTransactionsSuccess,
    setCustomMiningJob, setCustomMiningJobSuccess, setCustomMiningJobError, pushSolution]

/-- The message types that are only sent. -/
def encoders : List Sv2Encoder :=
  [openStandardChannelSuccess, updateChannelError, newMiningJob]

theorem exact_of_mem_codecs : ∀ c ∈ codecs, ∃ fields, c.Exact fields := by
  simp only [codecs, List.forall_mem_cons]
  exact ⟨⟨_, setupConnection_exact⟩, ⟨_, setupConnectionSuccess_exact⟩,
    ⟨_, setupConnectionError_exact⟩, ⟨_, openExtendedChannel_exact⟩,
    ⟨_, openExtendedChannelSuccess_exact⟩, ⟨_, openChannelError_exact⟩, ⟨_, updateChannel_exact⟩,
    ⟨_, setTarget_exact⟩, ⟨_, setNewPrevHash_exact⟩, ⟨_, submitSharesExtended_exact⟩,
    ⟨_, submitSharesSuccess_exact⟩, ⟨_, submitSharesError_exact⟩,
    ⟨_, allocateMiningJobToken_exact⟩, ⟨_, allocateMiningJobTokenSuccess_exact⟩,
    ⟨_, declareMiningJob_exact⟩, ⟨_, declareMiningJobSuccess_exact⟩,
    ⟨_, declareMiningJobError_exact⟩, ⟨_, provideMissingTransactions_exact⟩,
    ⟨_, provideMissingTransactionsSuccess_exact⟩, ⟨_, setCustomMiningJob_exact⟩,
    ⟨_, setCustomMiningJobSuccess_exact⟩, ⟨_, setCustomMiningJobError_exact⟩,
    ⟨_, pushSolution_exact⟩, fun c hc => absurd hc List.not_mem_nil⟩

theorem exact_of_mem_encoders : ∀ e ∈ encoders, ∃ fields, e.Exact fields := by
  simp only [encoders, List.forall_mem_cons]
  exact ⟨⟨_, openStandardChannelSuccess_exact⟩, ⟨_, updateChannelError_exact⟩,
    ⟨_, newMiningJob_exact⟩, fun e he => absurd he List.not_mem_nil⟩

/-- The two halves of the codec are in step.  A message within the limits is encoded in
exactly the bytes that its size says, and is read back; a payload that was read is written
again.  A NewExtendedMiningJob has two things more on the wire than a client looks at: the
min_ntime of a job that does not have one, and the upper bits of a BOOL. -/
theorem codec_round_trips :
    (∀ c ∈ codecs,
      (∀ m, c.Fits m → c.FitsFrame m → c.NoNul m →
        ∃ bytes, c.encode (c.need m) m = some bytes ∧ bytes.length = c.need m ∧
          ∀ rest, c.decode (bytes ++ rest) = some (m, rest)) ∧
      ∀ p m rest, c.decode p = some (m, rest) → c.FitsFrame m → c.NoNul m →
        ∃ consumed, p = consumed ++ rest ∧ c.encode (c.need m) m = some consumed) ∧
    (∀ m, newExtendedMiningJob.Fits m →
      ∃ bytes, encodeNewExtendedMiningJob m.need m = some bytes ∧ bytes.length = m.need ∧
        ∀ rest, decodeNewExtendedMiningJob (bytes ++ rest) = some (m.read, rest)) ∧
    (∀ p m rest, decodeNewExtendedMiningJob p = some (m, rest) →
      ∃ consumed, p = consumed ++ rest ∧
        encodeNewExtendedMiningJob m.need m = some (consumed.modify m.flagAt (· &&& 1))) ∧
    ∀ e ∈ encoders, ∀ m, e.Fits m → e.FitsFrame m →
      ∃ bytes, e.encode (e.need m) m = some bytes ∧ bytes.length = e.need m := by
  refine ⟨?_, ?_, ?_, ?_⟩
  · intro c hc
    obtain ⟨fields, hexact⟩ := exact_of_mem_codecs c hc
    constructor
    · intro m hfits hframe hnul
      exact hexact.decode_encode hfits hframe hnul
    · intro p m rest hdec hframe hnul
      exact hexact.encode_decode hdec hframe hnul
  · intro m hfits
    exact ⟨m.fields.flatten, newExtendedMiningJob_exact.encode_eq hfits trivial,
      newExtendedMiningJob_exact.length_fields m hfits, decodeNewExtendedMiningJob_fields hfits⟩
  · intro p m rest hdec
    have hfits := (decodeNewExtendedMiningJob_eq_some_iff.mp hdec).2.2
    obtain ⟨consumed, hp, hfields⟩ := NewExtendedMiningJob.fields_of_decode hdec
    refine ⟨consumed, hp, ?_⟩
    rw [← hfields]
    exact newExtendedMiningJob_exact.encode_eq hfits trivial
  · intro e he m hfits hframe
    obtain ⟨fields, hexact⟩ := exact_of_mem_encoders e he
    exact ⟨(fields m).flatten, hexact.encode_eq hfits hframe, hexact.length_fields m hfits⟩

theorem push_solution_round_trips :
    ∃ bytes, encodePushSolution 57 ⟨[1, 2, 3, 4, 5, 6, 7, 8], Hash256.zero, 9, 10, 11, 12⟩
        = some bytes ∧ bytes.length = 57 ∧
      ∀ rest, decodePushSolution (bytes ++ rest)
        = some (⟨[1, 2, 3, 4, 5, 6, 7, 8], Hash256.zero, 9, 10, 11, 12⟩, rest) :=
  (codec_round_trips.1 pushSolution (by simp [codecs])).1
    ⟨[1, 2, 3, 4, 5, 6, 7, 8], Hash256.zero, 9, 10, 11, 12⟩
    (by decide : 8 ≤ maxB032) trivial fun _ hs => absurd hs List.not_mem_nil

/-- A BOOL of 3 is written as 1, and a min_ntime that is absent is not on the wire. -/
theorem extended_job_reencoded :
    (decodeNewExtendedMiningJob [1, 0, 0, 0, 2, 0, 0, 0, 0, 0, 0, 0, 32, 3, 0, 0, 0, 0, 0]
        = some (⟨1, 2, false, 0, 0x20000000, true, [], [], []⟩, []) ∧
      encodeNewExtendedMiningJob 19 ⟨1, 2, false, 0, 0x20000000, true, [], [], []⟩
        = some [1, 0, 0, 0, 2, 0, 0, 0, 0, 0, 0, 0, 32, 1, 0, 0, 0, 0, 0]) ∧
    encodeNewExtendedMiningJob 19 ⟨1, 2, false, 7, 0x20000000, true, [], [], []⟩
        = some [1, 0, 0, 0, 2, 0, 0, 0, 0, 0, 0, 0, 32, 1, 0, 0, 0, 0, 0] ∧
    decodeNewExtendedMiningJob [1, 0, 0, 0, 2, 0, 0, 0, 0, 0, 0, 0, 32, 1, 0, 0, 0, 0, 0]
        ≠ some (⟨1, 2, false, 7, 0x20000000, true, [], [], []⟩, []) := by
  decide +kernel

end CashStratum.Sv2
