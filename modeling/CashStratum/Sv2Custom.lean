/-
CashStratum/Sv2Custom.lean

Custom jobs (`sv2_strat.c`): the checks of `handle_set_custom_mining_job`, the job it
makes of a request, and `validate_custom_share`, which builds the header of a share from
the fields of the job.

The block of a share on a custom job is built from elsewhere, from what was declared for
the job's token (`sv2_jd_rebuild_solved_block`).  Both headers take the previous hash,
the times, the target and the nonce from the share and the job, so they agree there
whatever was declared; the merkle roots come from the two descriptions of the coinbase
and of the transactions, and nothing in the pool compares these
(`rebuiltHeader_eq_iff`).
-/
import CashStratum.JdState
import CashStratum.Sv2Cb

namespace CashStratum

/-! ### Headers -/

private theorem leBytes_uint32_inj {a b : UInt32} (h : leBytes 4 a.toNat = leBytes 4 b.toNat) :
    a = b :=
  UInt32.toNat_inj.mp (leBytes_injOn a.toNat_lt b.toNat_lt h)

/-- **A header determines its fields.** -/
theorem HeaderFields.bytes_inj {a b : HeaderFields} {rootA rootB : Hash256} :
    a.bytes rootA = b.bytes rootB ↔ a = b ∧ rootA = rootB := by
  constructor
  · intro h
    rcases a with ⟨version, prevHash, ntime, nbits, nonce⟩
    rcases b with ⟨version', prevHash', ntime', nbits', nonce'⟩
    simp only [HeaderFields.bytes] at h
    -- the fields have fixed widths, so the equation splits from behind
    obtain ⟨h, hnonce⟩ := List.append_inj' h (by simp)
    obtain ⟨h, hnbits⟩ := List.append_inj' h (by simp)
    obtain ⟨h, hntime⟩ := List.append_inj' h (by simp)
    obtain ⟨h, hroot⟩ := List.append_inj' h (by simp)
    obtain ⟨hversion, hprev⟩ := List.append_inj' h (by simp)
    rw [leBytes_uint32_inj hversion, Hash256.ext hprev, leBytes_uint32_inj hntime,
      leBytes_uint32_inj hnbits, leBytes_uint32_inj hnonce, Hash256.ext hroot]
    exact ⟨rfl, rfl⟩
  · rintro ⟨rfl, rfl⟩
    rfl

/-- A block starts with its header, and has no more transactions than bytes. -/
theorem take_blockOf {h : HeaderFields} {coinbase block : Bytes} {txs : List Bytes}
    (hblock : blockOf h coinbase txs = some block) :
    ∃ txid txids root, blockTxids coinbase txs = some (txid, txids) ∧
      txids.length ≤ maxBlockBytes ∧ sv2MerkleRootFromTxids (txid :: txids) = some root ∧
      block.take 80 = h.bytes root := by
  obtain ⟨txid, txids, root, htxid, htxids, hroot, hbytes, rfl⟩ := blockOf_eq_some hblock
  obtain ⟨hlen, hle⟩ := length_le_of_txids htxids
  refine ⟨txid, txids, root, ?_, by omega, hroot, ?_⟩
  · simp only [blockTxids, htxid, htxids, Option.bind_eq_bind, Option.bind_some]
  · simp only [List.append_assoc]
    rw [List.take_append_of_le_length (by simp), List.take_of_length_le (by simp)]

/-! ### Jobs -/

/-- `SV2_MAX_MERKLE_PATH`. -/
def sv2MaxMerklePath : Nat := 32

/-- `struct sv2_set_custom_mining_job`. -/
structure SetCustomMiningJob where
  channelId : UInt32
  requestId : UInt32
  miningJobToken : Bytes
  version : UInt32
  prevHash : Hash256
  minNtime : UInt32
  nbits : UInt32
  coinbaseTxVersion : UInt32
  coinbasePrefix : Bytes
  coinbaseTxInputNSequence : UInt32
  coinbaseTxOutputs : Bytes
  coinbaseTxLocktime : UInt32
  merklePath : List Hash256

/-- `struct sv2_custom_job`. -/
structure CustomJob where
  jobId : UInt32
  version : UInt32
  prevHash : Hash256
  minNtime : UInt32
  nbits : UInt32
  coinbaseTxVersion : UInt32
  coinbasePrefix : Bytes
  coinbaseTxInputNSequence : UInt32
  coinbaseTxOutputs : Bytes
  coinbaseTxLocktime : UInt32
  merklePath : List Hash256
  token : Bytes
  deriving DecidableEq

/-- `sv2_jd_token_is_declared`. -/
def JdTable.tokenIsDeclared (tb : JdTable) (token : Bytes) : Bool :=
  if token = [] then false else (tb.findToken token).any JdToken.declared

/-- `sv2_jd_token_outputs_fund_payout`, up to the sums: the token, when it is declared
and its outputs are good. -/
def JdTable.fundedToken (tb : JdTable) (ck : Ckpool) (tipHeight : Int) (token outputs : Bytes) :
    Option JdToken :=
  if token = [] then none
  else
    match tb.findToken token with
    | none => none
    | some tok =>
      if tok.declared = false then none
      else
        match tok.payoutScript with
        -- nothing is advertised: a shared pool fails closed
        | none => if ck.btcsolo then some tok else none
        | some script =>
          if outputsBlobFundsPayout ck tipHeight outputs script then some tok else none

/-- `sv2_jd_token_outputs_fund_payout`. -/
def JdTable.tokenOutputsFundPayout (tb : JdTable) (ck : Ckpool) (tipHeight : Int)
    (token outputs : Bytes) : Bool :=
  (tb.fundedToken ck tipHeight token outputs).isSome

/-- The tip of the request: its previous hash may stand in either byte order. -/
def requestTip (tip : Option JdTip) (prevHash : Hash256) : Option JdTip :=
  tip.filter fun tip =>
    decide (prevHash = tip.prevHash) || decide (prevHash.bytes.reverse = tip.prevHash.bytes)

/-- The job of a request, with the previous hash of the tip. -/
def customJob (req : SetCustomMiningJob) (prevHash : Hash256) (jobId : UInt32) : CustomJob where
  jobId := jobId
  version := req.version
  prevHash := prevHash
  minNtime := req.minNtime
  nbits := req.nbits
  coinbaseTxVersion := req.coinbaseTxVersion
  coinbasePrefix := req.coinbasePrefix
  coinbaseTxInputNSequence := req.coinbaseTxInputNSequence
  coinbaseTxOutputs := req.coinbaseTxOutputs
  coinbaseTxLocktime := req.coinbaseTxLocktime
  merklePath := req.merklePath
  token := req.miningJobToken

namespace CustomJob

/-! ### Shares -/

/-- `build_custom_coinbase`, into a buffer of `outsz` bytes. -/
def buildCustomCoinbase (cj : CustomJob) (outsz : Nat) (en1 extranonce : Bytes) : Option Bytes :=
  sv2CbAssemble outsz cj.coinbaseTxVersion cj.coinbaseTxInputNSequence cj.coinbaseTxLocktime
    cj.coinbasePrefix en1 extranonce cj.coinbaseTxOutputs

/-- The merkle root of a custom coinbase. -/
def merkleRoot (cj : CustomJob) (coinbase : Bytes) : Hash256 :=
  sv2MerkleRootFromPath (genHash coinbase) cj.merklePath

/-- What both headers take from the share and from the job. -/
def headerFields (cj : CustomJob) (version ntime nonce : UInt32) : HeaderFields where
  version := version
  prevHash := cj.prevHash
  ntime := ntime
  nbits := cj.nbits
  nonce := nonce

/-- `validate_custom_share`: the header whose hash is credited, or the error. -/
def validateCustomShare (cj : CustomJob) (en1 extranonce : Bytes) (ntime nonce version : UInt32) :
    Except String Bytes :=
  if ntime < cj.minNtime ∨ ntime > cj.minNtime + 7000 then .error "invalid-ntime"
  else
    match cj.buildCustomCoinbase 2048 en1 extranonce with
    | none => .error "invalid-coinbase"
    | some coinbase => .ok ((cj.headerFields version ntime nonce).bytes (cj.merkleRoot coinbase))

/-! ### The two headers of a share -/

/-- The merkle root of the job's fields. -/
def customRoot (cj : CustomJob) (en1 extranonce : Bytes) : Option Hash256 :=
  (cj.buildCustomCoinbase 2048 en1 extranonce).map cj.merkleRoot

end CustomJob

/-- The coinbase and the transactions of what was declared, as the ids of a block. -/
def JdMaterial.ids (m : JdMaterial) (extranonce : Bytes) : Option (Hash256 × List Hash256) := do
  let txs ← m.snapshot
  blockTxids (declaredCoinbase m.coinbaseTxPrefix extranonce m.coinbaseTxSuffix) txs

/-- The merkle root of what was declared. -/
def JdMaterial.declaredRoot (m : JdMaterial) (extranonce : Bytes) : Option Hash256 :=
  (m.ids extranonce).bind fun ids => sv2MerkleRootFromTxids (ids.1 :: ids.2)

/-- The version of a rebuilt block. -/
def JdMaterial.blockVersion (m : JdMaterial) (version : UInt32) : UInt32 :=
  if version ≠ 0 then version else m.version

/-- The job describes the coinbase that was declared, and its path leads past the
transactions that were declared. -/
def CustomJob.Describes (cj : CustomJob) (m : JdMaterial) (en1 extranonce : Bytes) : Prop :=
  ∃ coinbase txids, cj.buildCustomCoinbase 2048 en1 extranonce = some coinbase ∧
    m.ids (en1 ++ extranonce) = some (genHash coinbase, txids) ∧
    cj.merklePath = MerkleTree.branch merkleNode txids

/-- A job that describes the declared template has its merkle root, if the template fits a
block. -/
theorem CustomJob.Describes.root_eq {cj : CustomJob} {m : JdMaterial} {en1 extranonce : Bytes}
    (h : cj.Describes m en1 extranonce)
    (hlen : ∀ ids, m.ids (en1 ++ extranonce) = some ids → ids.2.length ≤ maxBlockBytes) :
    cj.customRoot en1 extranonce = m.declaredRoot (en1 ++ extranonce) := by
  obtain ⟨coinbase, txids, hcoinbase, hids, hpath⟩ := h
  have hfits : txids.length < 2 ^ 26 := (hlen _ hids).trans_lt (by decide)
  rw [CustomJob.customRoot, hcoinbase, Option.map_some, JdMaterial.declaredRoot, hids,
    Option.bind_some, CustomJob.merkleRoot, hpath, sv2MerkleRootFromTxids_cons _ hfits]

/-- The header of a share that is accepted. -/
theorem validateCustomShare_eq_ok {cj : CustomJob} {en1 extranonce : Bytes}
    {ntime nonce version : UInt32} {header : Bytes}
    (h : cj.validateCustomShare en1 extranonce ntime nonce version = .ok header) :
    ∃ root, cj.customRoot en1 extranonce = some root ∧
      header = (cj.headerFields version ntime nonce).bytes root := by
  rw [CustomJob.validateCustomShare] at h
  split_ifs at h
  split at h
  · cases h
  · next coinbase hcoinbase =>
      refine ⟨cj.merkleRoot coinbase, ?_, (Except.ok.inj h).symm⟩
      rw [CustomJob.customRoot, hcoinbase, Option.map_some]

/-- The header of a block that is rebuilt for the share. -/
theorem rebuildSolvedBlock_eq_some {tb : JdTable} {cj : CustomJob} {extranonce : Bytes}
    {version ntime nonce : UInt32} {block : Bytes}
    (h : tb.rebuildSolvedBlock cj.token extranonce version ntime nonce cj.nbits cj.prevHash =
      some block) :
    ∃ m root, tb.HasMaterial cj.token m ∧ m.declaredRoot extranonce = some root ∧
      (∀ ids, m.ids extranonce = some ids → ids.2.length ≤ maxBlockBytes) ∧
      block.take 80 = (cj.headerFields (m.blockVersion version) ntime nonce).bytes root := by
  rw [JdTable.rebuildSolvedBlock] at h
  split_ifs at h
  obtain ⟨tok, hfind, h⟩ := Option.bind_eq_some_iff.mp h
  obtain ⟨m, hm, h⟩ := Option.bind_eq_some_iff.mp h
  obtain ⟨txs, htxs, h⟩ := Option.bind_eq_some_iff.mp h
  rw [assembleSolvedFromSnap] at h
  by_cases hlen : extranonce = [] ∨ (m.enonceLen ≠ 0 ∧ extranonce.length ≠ m.enonceLen)
  · rw [if_pos hlen] at h
    cases h
  rw [if_neg hlen] at h
  obtain ⟨txid, txids, root, hids, hle, hroot, hheader⟩ := take_blockOf h
  have hall : m.ids extranonce = some (txid, txids) := by
    rw [JdMaterial.ids, htxs]
    simp only [Option.bind_eq_bind, Option.bind_some, hids]
  refine ⟨m, root, ⟨tok, hfind, hm⟩, ?_, fun ids hids' => ?_, hheader⟩
  · rw [JdMaterial.declaredRoot, hall, Option.bind_some]
    exact hroot
  · obtain rfl := Option.some.inj (hall.symm.trans hids')
    exact hle

/-- **The two headers of a share.**  The header that is credited and the header of the
rebuilt block are equal exactly if the version is the share's and the two merkle roots
are equal. -/
theorem rebuiltHeader_eq_iff {cj : CustomJob} {m : JdMaterial} {version ntime nonce : UInt32}
    {customRoot declaredRoot : Hash256} :
    (cj.headerFields (m.blockVersion version) ntime nonce).bytes declaredRoot =
        (cj.headerFields version ntime nonce).bytes customRoot ↔
      (version ≠ 0 ∨ m.version = 0) ∧ customRoot = declaredRoot := by
  rw [HeaderFields.bytes_inj]
  have hfields : cj.headerFields (m.blockVersion version) ntime nonce =
      cj.headerFields version ntime nonce ↔ m.blockVersion version = version := by
    constructor
    · exact fun h => congrArg HeaderFields.version h
    · exact fun h => by rw [h]
  rw [hfields, JdMaterial.blockVersion, eq_comm (a := declaredRoot)]
  by_cases hversion : version = 0
  · subst hversion
    simp
  · simp [hversion]

end CashStratum
