/-
CashStratum/Sv2Work.lean

The jobs the pool sends on an SV2 channel: `stratifier_sv2_snapshot_work`,
`stratifier_sv2_merkle_root` (stratifier.c), `push_pool_job_standard` and
`push_pool_job_extended` (sv2_strat.c).

The client is a reader of frames (`ClientView`): a job without `min_ntime` waits
for the SetNewPrevHash that names it, any other job is mined at once against the
SetNewPrevHash in force.  `clientHeader` copies the advertised fields into a
header.  The snapshot turns the previous block and the bits into their order on
the wire (`snapshotWork_eq`), but `stratifier_sv2_merkle_root` word-flips a root
that is in that order already, so the header of a standard channel differs from
the one `submission_diff` hashes: `clientHeader_eq_hashed_iff` says when the two
agree, for every sequence of frames that pushes of the pool can leave.
-/
import CashStratum.Submission

namespace CashStratum

/-! ### Snapshots of the current work -/

/-- `struct sv2_work_snap`. -/
structure Sv2WorkSnap where
  version : UInt32
  ntime : UInt32
  nbits : UInt32
  prevhash : Bytes
  coinb1 : Bytes
  coinb2 : Bytes
  enonce1varlen : Nat
  enonce2varlen : Nat
  merklebin : List Hash256

/-- `stratifier_sv2_snapshot_work`, of the workbase that is current.  `coinb1` and
`coinb2` are buffers of 256 and 512 bytes. -/
def snapshotWork (ck : Ckpool) (client : StratumInstance) (wb : Workbase) : Option Sv2WorkSnap :=
  if wb.coinb1bin.length > 256 then none
  else do
    let nbitsBe := if wb.nbit.length ≥ 8 then (hex2bin wb.nbit 4).getD [] else []
    let coinb2bin ← userCoinb2 ck wb client.txnbin
    if coinb2bin.length > 512 then none
    else
      some
        { version := wb.version
          ntime := wb.ntime32
          nbits := UInt32.ofNat (beNat nbitsBe)
          prevhash := flip32 (wb.headerbin.drop 4)
          coinb1 := wb.coinb1bin
          coinb2 := coinb2bin
          enonce1varlen := wb.enonce1varlen
          enonce2varlen := wb.enonce2varlen
          merklebin := wb.merklebin.take genworkMaxMerkleDepth }

/-- `stratifier_sv2_merkle_root`: the root it fills in, and the snapshot. -/
def stratifierSv2MerkleRoot (ck : Ckpool) (client : StratumInstance) (wb : Workbase) :
    Option (Bytes × Sv2WorkSnap) := do
  let snap ← snapshotWork ck client wb
  let en1len := if snap.enonce1varlen < 1 then 4 else snap.enonce1varlen
  let coinbase := snap.coinb1 ++ client.enonce1bin.take en1len ++
    List.replicate snap.enonce2varlen 0 ++ snap.coinb2
  let merkleSha := snap.merklebin.foldl (fun sha node => genHash (sha.bytes ++ node.bytes))
    (genHash coinbase)
  some (flip32 merkleSha.bytes, snap)

/-! ### Jobs -/

/-- `struct sv2_new_mining_job`. -/
structure NewMiningJob where
  jobId : UInt32
  minNtime : Option UInt32
  version : UInt32
  merkleRoot : Bytes

/-- `struct sv2_new_extended_mining_job`. -/
structure NewExtendedMiningJob where
  jobId : UInt32
  minNtime : Option UInt32
  version : UInt32
  versionRollingAllowed : Bool
  merklePath : List Hash256
  coinbaseTxPrefix : Bytes
  coinbaseTxSuffix : Bytes

/-- `struct sv2_set_new_prev_hash`. -/
structure SetNewPrevHash where
  jobId : UInt32
  prevHash : Bytes
  minNtime : UInt32
  nbits : UInt32

/-- A job of either kind. -/
inductive Sv2Job
  | standard (job : NewMiningJob)
  | extended (job : NewExtendedMiningJob)

namespace Sv2Job

/-- The id of a job. -/
def jobId : Sv2Job → UInt32
  | standard job => job.jobId
  | extended job => job.jobId

/-- `min_ntime`, absent for a future job. -/
def minNtime : Sv2Job → Option UInt32
  | standard job => job.minNtime
  | extended job => job.minNtime

end Sv2Job

/-- The frames of pool work on one channel. -/
inductive Sv2Frame
  | newJob (job : Sv2Job)
  | setNewPrevHash (ph : SetNewPrevHash)

/-- `struct sv2_channel`: its kind, and the extranonce prefix it was given. -/
structure Sv2Channel (ck : Ckpool) where
  standard : Bool
  enonce1 : Bytes
  enonce1_len : enonce1.length = ck.nonce1length

/-- The instance `stratifier_sv2_open_session` creates for a channel. -/
def Sv2Channel.openSession {ck : Ckpool} (ch : Sv2Channel ck) (txnbin : Bytes) :
    StratumInstance where
  enonce1bin := ch.enonce1
  txnbin := txnbin

/-- `++ch->job_seq`, which skips 0. -/
def nextJobId (jobSeq : UInt32) : UInt32 := if jobSeq + 1 = 0 then jobSeq + 2 else jobSeq + 1

/-- The SetNewPrevHash that goes with a future job. -/
def snapPrevHash (jobId : UInt32) (snap : Sv2WorkSnap) : SetNewPrevHash where
  jobId := jobId
  prevHash := snap.prevhash
  minNtime := snap.ntime
  nbits := snap.nbits

/-- `push_pool_job_standard`: the frames it queues. -/
def pushPoolJobStandard (ck : Ckpool) (client : StratumInstance) (wb : Workbase)
    (jobSeq : UInt32) (futureFirst : Bool) : List Sv2Frame :=
  match stratifierSv2MerkleRoot ck client wb with
  | none => []
  | some (merkleRoot, snap) =>
    let jobId := nextJobId jobSeq
    let job : NewMiningJob :=
      { jobId := jobId
        minNtime := if futureFirst then none else some snap.ntime
        version := snap.version
        merkleRoot := merkleRoot }
    .newJob (.standard job) ::
      if futureFirst then [.setNewPrevHash (snapPrevHash jobId snap)] else []

/-- `push_pool_job_extended`: the frames it queues. -/
def pushPoolJobExtended (ck : Ckpool) (client : StratumInstance) (wb : Workbase)
    (jobSeq : UInt32) (futureFirst : Bool) : List Sv2Frame :=
  match snapshotWork ck client wb with
  | none => []
  | some snap =>
    let jobId := nextJobId jobSeq
    let job : NewExtendedMiningJob :=
      { jobId := jobId
        minNtime := if futureFirst then none else some snap.ntime
        version := snap.version
        versionRollingAllowed := ck.versionMask ≠ 0
        merklePath := snap.merklebin
        coinbaseTxPrefix := snap.coinb1
        coinbaseTxSuffix := snap.coinb2 }
    .newJob (.extended job) ::
      if futureFirst then [.setNewPrevHash (snapPrevHash jobId snap)] else []

/-- `push_pool_job`. -/
def pushPoolJob {ck : Ckpool} (ch : Sv2Channel ck) (client : StratumInstance) (wb : Workbase)
    (jobSeq : UInt32) (futureFirst : Bool) : List Sv2Frame :=
  if ch.standard then pushPoolJobStandard ck client wb jobSeq futureFirst
  else pushPoolJobExtended ck client wb jobSeq futureFirst

/-! ### The client -/

/-- The merkle root of a job: as advertised, or folded over the coinbase. -/
def Sv2Job.merkleRoot (job : Sv2Job) (enonce1 extranonce : Bytes) : Bytes :=
  match job with
  | .standard job => job.merkleRoot
  | .extended job => (sv2MerkleRootFromPath
      (genHash (job.coinbaseTxPrefix ++ enonce1 ++ extranonce ++ job.coinbaseTxSuffix))
      job.merklePath).bytes

/-- The header a client mines, copied from the advertised fields. -/
def clientHeader (job : Sv2Job) (ph : SetNewPrevHash) (enonce1 extranonce : Bytes)
    (version ntime nonce : UInt32) : Bytes :=
  leBytes 4 version.toNat ++ ph.prevHash ++ job.merkleRoot enonce1 extranonce ++
    leBytes 4 ntime.toNat ++ leBytes 4 ph.nbits.toNat ++ leBytes 4 nonce.toNat

/-- What a client has read, each frame with its origin `α`: the jobs that wait,
the job it mines and the SetNewPrevHash in force. -/
structure ClientView (α : Type) where
  future : List (α × Sv2Job)
  active : Option (α × Sv2Job)
  prevHash : Option (α × SetNewPrevHash)

/-- A client that has read nothing. -/
def ClientView.init (α : Type) : ClientView α := ⟨[], none, none⟩

/-- A frame is read.  A SetNewPrevHash starts the future job it names and ends
all other work; one that names no future job is rejected. -/
def ClientView.receive {α : Type} (view : ClientView α) : α × Sv2Frame → ClientView α
  | (origin, .newJob job) =>
    if job.minNtime.isNone then { view with future := (origin, job) :: view.future }
    else { view with active := some (origin, job) }
  | (origin, .setNewPrevHash ph) =>
    match view.future.find? fun j => j.2.jobId = ph.jobId with
    | some job => { future := [], active := some job, prevHash := some (origin, ph) }
    | none => view

/-! ### Snapshots of template work -/

/-- A workbase with the template it was made of. -/
structure TemplateWork (ck : Ckpool) (sd : Sdata) where
  t : GbtTemplate
  now : Ts
  d64 : Nat
  wb : Workbase
  made : blockUpdate ck sd t now d64 = some wb

namespace TemplateWork

variable {ck : Ckpool} {sd : Sdata}

theorem nbit_eq (w : TemplateWork ck sd) : w.wb.nbit = w.t.bits := by
  obtain ⟨b, txns, hb, -, hwb⟩ := blockUpdate_eq_some w.made
  rw [hwb]
  exact (genGbtbase_eq_some hb).2.2.1.trans w.t.bits_take

theorem enonce_lens (w : TemplateWork ck sd) :
    w.wb.enonce1constlen = 0 ∧ w.wb.enonce1varlen = ck.nonce1length ∧
      w.wb.enonce2varlen = ck.nonce2length := by
  obtain ⟨b, txns, -, -, hwb⟩ := blockUpdate_eq_some w.made
  rw [hwb]
  exact ⟨rfl, rfl, rfl⟩

theorem merklebin_take (w : TemplateWork ck sd) :
    w.wb.merklebin.take genworkMaxMerkleDepth = w.wb.merklebin := by
  obtain ⟨b, txns, -, htxns, hwb⟩ := blockUpdate_eq_some w.made
  apply List.take_of_length_le
  rw [hwb]
  exact length_merklebin_le htxns

/-- `flip_32` turns the cached previous block into the order of the wire. -/
theorem flip32_headerbin (w : TemplateWork ck sd) :
    ∃ prevHash, w.t.prevBlock = some prevHash ∧
      flip32 (w.wb.headerbin.drop 4) = prevHash.bytes := by
  obtain ⟨b, txns, hb, -, hwb⟩ := blockUpdate_eq_some w.made
  obtain ⟨prev, nbit, hprev, -, hheader⟩ := headerbin_eq hb ck sd txns w.now w.d64
  rw [← hwb] at hheader
  obtain ⟨prevHash, hprevHash, hbytes⟩ := GbtTemplate.prevBlock_eq hprev
  refine ⟨prevHash, hprevHash, ?_⟩
  have hprevLen := (hex2bin_length hprev).1
  have hswapLen := length_swap256 hprevLen
  -- the 32 bytes behind the version
  have hfield : (w.wb.headerbin.drop 4).take 32 = swap256 prev := by
    have htake : (w.wb.headerbin.drop 4).take 32 = ((w.wb.headerbin.take 80).drop 4).take 32 := by
      rw [List.drop_take, List.take_take]
      rfl
    rw [htake, hheader, swappedHeader, List.drop_left' (length_beBytes 4 _),
      List.take_left' hswapLen]
  rw [flip32, hfield, hbytes, swap256, List.take_of_length_le hprevLen.le,
    flipWords_reverseWords _ (by rw [hprevLen])]

/-- **The snapshot of a workbase** carries the template's previous block and bits
in their order on the wire, and everything a coinbase is made of unchanged. -/
theorem snapshotWork_eq (w : TemplateWork ck sd) {client : StratumInstance} {snap : Sv2WorkSnap}
    (h : snapshotWork ck client w.wb = some snap) :
    ∃ coinb2 prevHash, userCoinb2 ck w.wb client.txnbin = some coinb2 ∧
      w.t.prevBlock = some prevHash ∧
      snap =
        { version := w.wb.version
          ntime := w.wb.ntime32
          nbits := w.t.nbits
          prevhash := prevHash.bytes
          coinb1 := w.wb.coinb1bin
          coinb2 := coinb2
          enonce1varlen := ck.nonce1length
          enonce2varlen := ck.nonce2length
          merklebin := w.wb.merklebin } := by
  have hbits : w.wb.nbit.length ≥ 8 := by
    obtain ⟨nbit, hnbit⟩ := w.t.bits_hex
    have hlen := (hex2bin_length hnbit).2
    rw [w.nbit_eq]
    omega
  rw [snapshotWork] at h
  split_ifs at h with hcoinb1
  simp only [Option.bind_eq_bind, Option.bind_eq_some_iff] at h
  obtain ⟨coinb2, hcoinb2, h⟩ := h
  split_ifs at h with hlong
  obtain ⟨prevHash, hprevHash, hflip⟩ := w.flip32_headerbin
  refine ⟨coinb2, prevHash, hcoinb2, hprevHash, ?_⟩
  rw [← Option.some.inj h, hflip, w.merklebin_take, w.enonce_lens.2.1, w.enonce_lens.2.2,
    w.nbit_eq]
  rfl

end TemplateWork

/-! ### Pushes -/

/-- One call of `push_pool_job` on a channel. -/
structure Push (ck : Ckpool) (sd : Sdata) where
  work : TemplateWork ck sd
  jobSeq : UInt32
  futureFirst : Bool

section Pushes

variable {ck : Ckpool} {sd : Sdata}

/-- The frames of a push, on a channel whose user has the script `txnbin`. -/
def Push.frames (p : Push ck sd) (ch : Sv2Channel ck) (txnbin : Bytes) : List Sv2Frame :=
  pushPoolJob ch (ch.openSession txnbin) p.work.wb p.jobSeq p.futureFirst

/-- The root of the work of a channel, for an extranonce of the miner. -/
def channelRoot (ch : Sv2Channel ck) (wb : Workbase) (coinb2 extranonce : Bytes) : Hash256 :=
  sv2MerkleRootFromPath (genHash (wb.coinb1bin ++ ch.enonce1 ++ extranonce ++ coinb2)) wb.merklebin

/-- The root of a standard channel is that of the all-zero `nonce2`, word-flipped. -/
theorem stratifierSv2MerkleRoot_eq (w : TemplateWork ck sd) {ch : Sv2Channel ck} {txnbin : Bytes}
    {snap : Sv2WorkSnap} {coinb2 : Bytes}
    (hsnap : snapshotWork ck (ch.openSession txnbin) w.wb = some snap)
    (hcoinb2 : userCoinb2 ck w.wb txnbin = some coinb2) :
    stratifierSv2MerkleRoot ck (ch.openSession txnbin) w.wb =
      some (flip32 (channelRoot ch w.wb coinb2 (List.replicate ck.nonce2length 0)).bytes, snap) := by
  have hpos : ¬ck.nonce1length < 1 := by
    have := ck.nonce1_range
    omega
  have henonce1 : (ch.openSession txnbin).enonce1bin.take ck.nonce1length = ch.enonce1 :=
    List.take_of_length_le ch.enonce1_len.le
  obtain ⟨coinb2', prevHash, hcoinb2', -, rfl⟩ := w.snapshotWork_eq hsnap
  obtain rfl : coinb2' = coinb2 := Option.some.inj (hcoinb2'.symm.trans hcoinb2)
  rw [stratifierSv2MerkleRoot, hsnap]
  simp only [Option.bind_eq_bind, Option.bind_some, if_neg hpos, henonce1]
  rfl

/-- A pushed job carries the root of its work: word-flipped on a standard
channel, as a path on an extended one. -/
theorem Push.job_spec {p : Push ck sd} {ch : Sv2Channel ck} {txnbin : Bytes} {job : Sv2Job}
    (h : Sv2Frame.newJob job ∈ p.frames ch txnbin) :
    ∃ coinb2, userCoinb2 ck p.work.wb txnbin = some coinb2 ∧
      job.jobId = nextJobId p.jobSeq ∧ (job.minNtime = none ↔ p.futureFirst = true) ∧
      ∀ extranonce : Bytes, extranonce.length = (if ch.standard then 0 else ck.nonce2length) →
        job.merkleRoot ch.enonce1 extranonce =
          if ch.standard then
            flip32 (channelRoot ch p.work.wb coinb2 (List.replicate ck.nonce2length 0)).bytes
          else (channelRoot ch p.work.wb coinb2 extranonce).bytes := by
  rw [Push.frames, pushPoolJob] at h
  by_cases hstandard : ch.standard = true
  · rw [if_pos hstandard, pushPoolJobStandard] at h
    cases hsnap : snapshotWork ck (ch.openSession txnbin) p.work.wb with
    | none => simp [stratifierSv2MerkleRoot, hsnap] at h
    | some snap =>
      obtain ⟨coinb2, prevHash, hcoinb2, -, -⟩ := p.work.snapshotWork_eq hsnap
      rw [stratifierSv2MerkleRoot_eq p.work hsnap hcoinb2] at h
      rcases List.mem_cons.mp h with h | h
      · cases h
        refine ⟨coinb2, hcoinb2, rfl, ?_, ?_⟩
        · cases p.futureFirst <;> simp [Sv2Job.minNtime]
        · intro extranonce _
          rw [if_pos hstandard]
          rfl
      · split at h <;> simp at h
  · rw [if_neg hstandard, pushPoolJobExtended] at h
    cases hsnap : snapshotWork ck (ch.openSession txnbin) p.work.wb with
    | none => simp [hsnap] at h
    | some snap =>
      obtain ⟨coinb2, prevHash, hcoinb2, -, rfl⟩ := p.work.snapshotWork_eq hsnap
      simp only [hsnap, List.mem_cons] at h
      rcases h with h | h
      · cases h
        refine ⟨coinb2, hcoinb2, rfl, ?_, ?_⟩
        · cases p.futureFirst <;> simp [Sv2Job.minNtime]
        · intro extranonce _
          rw [if_neg hstandard]
          rfl
      · split at h <;> simp at h

/-- A pushed SetNewPrevHash carries the previous block and the bits of its
work, and names its job. -/
theorem Push.setNewPrevHash_spec {p : Push ck sd} {ch : Sv2Channel ck} {txnbin : Bytes}
    {ph : SetNewPrevHash} (h : Sv2Frame.setNewPrevHash ph ∈ p.frames ch txnbin) :
    ∃ prevHash, p.work.t.prevBlock = some prevHash ∧ ph.prevHash = prevHash.bytes ∧
      ph.nbits = p.work.t.nbits ∧ ph.jobId = nextJobId p.jobSeq := by
  -- both kinds of channel send it from their snapshot
  have hsnap : ∃ snap, snapshotWork ck (ch.openSession txnbin) p.work.wb = some snap ∧
      ph = snapPrevHash (nextJobId p.jobSeq) snap := by
    rw [Push.frames, pushPoolJob] at h
    split at h
    · rw [pushPoolJobStandard, stratifierSv2MerkleRoot] at h
      cases hsnap : snapshotWork ck (ch.openSession txnbin) p.work.wb with
      | none => simp [hsnap] at h
      | some snap =>
        simp only [hsnap, Option.bind_eq_bind, Option.bind_some, List.mem_cons, reduceCtorEq,
          false_or] at h
        split at h
        · exact ⟨snap, rfl, by simpa using h⟩
        · simp at h
    · rw [pushPoolJobExtended] at h
      cases hsnap : snapshotWork ck (ch.openSession txnbin) p.work.wb with
      | none => simp [hsnap] at h
      | some snap =>
        simp only [hsnap, List.mem_cons, reduceCtorEq, false_or] at h
        split at h
        · exact ⟨snap, rfl, by simpa using h⟩
        · simp at h
  obtain ⟨snap, hsnap, rfl⟩ := hsnap
  obtain ⟨coinb2, prevHash, -, hprevHash, rfl⟩ := p.work.snapshotWork_eq hsnap
  exact ⟨prevHash, hprevHash, rfl, rfl, rfl⟩

end Pushes

/-! ### One job against one SetNewPrevHash -/

/-- A root that reads the same with each of its words reversed. -/
def WordPalindrome (root : Hash256) : Prop := flip32 root.bytes = root.bytes

instance (root : Hash256) : Decidable (WordPalindrome root) :=
  inferInstanceAs (Decidable (flip32 root.bytes = root.bytes))

/-- The extranonce of a submission: none on a standard channel, which is hashed
with zeros. -/
def hashedExtranonce {ck : Ckpool} (ch : Sv2Channel ck) (extranonce : Bytes) : Bytes :=
  if ch.standard then List.replicate ck.nonce2length 0 else extranonce

section Header

variable {ck : Ckpool} {sd : Sdata}

/-- What the pool hashes for a submission on a channel. -/
theorem sv2SubmitShare_eq (w : TemplateWork ck sd) {ch : Sv2Channel ck} {txnbin coinb2 : Bytes}
    (hcoinb2 : userCoinb2 ck w.wb txnbin = some coinb2) {extranonce : Bytes}
    (hlen : extranonce.length = if ch.standard then 0 else ck.nonce2length)
    (version ntime nonce : UInt32) :
    ∃ prevHash s, w.t.prevBlock = some prevHash ∧
      sv2SubmitShare ck (ch.openSession txnbin) w.wb ntime nonce version (bin2hex extranonce) =
        some s ∧
      s.swap = wireHeader version prevHash
        (channelRoot ch w.wb coinb2 (hashedExtranonce ch extranonce)) ntime w.t.nbits nonce := by
  obtain ⟨hconst, hvar, hvar2⟩ := w.enonce_lens
  have hrange := ck.nonce2_range
  have henonce1 : (ch.openSession txnbin).enonce1bin.take
      (w.wb.enonce1constlen + w.wb.enonce1varlen) = ch.enonce1 := by
    rw [hconst, hvar, Nat.zero_add]
    exact List.take_of_length_le ch.enonce1_len.le
  have hhashedLen : (hashedExtranonce ch extranonce).length = ck.nonce2length := by
    rw [hashedExtranonce]
    split
    · exact List.length_replicate
    · rename_i hext
      rw [hlen, if_neg hext]
  -- the string that reaches `submission_diff` is the hex of the hashed extranonce
  have hhex : sv2Nonce2hex w.wb (bin2hex extranonce) =
      some (bin2hex (hashedExtranonce ch extranonce)) := by
    by_cases hstandard : ch.standard = true
    · rw [if_pos hstandard] at hlen
      obtain rfl := List.length_eq_zero_iff.mp hlen
      rw [hashedExtranonce, if_pos hstandard]
      have hzeros : ∀ n : Nat, bin2hex (List.replicate n 0) = List.replicate (n * 2) 48 := by
        intro n
        induction n with
        | zero => rfl
        | succ n ih =>
          rw [List.replicate_succ, bin2hex, ih, Nat.succ_mul]
          rfl
      have hmin : min (max ck.nonce2length 1) 31 = ck.nonce2length := by omega
      rw [sv2Nonce2hex, hvar2]
      simp only [bin2hex, ne_eq, not_true, if_false, hmin, hzeros]
    · have hsame : hashedExtranonce ch extranonce = extranonce := by
        rw [hashedExtranonce, if_neg hstandard]
      rw [hsame] at hhashedLen ⊢
      exact sv2Nonce2hex_bin2hex (hhashedLen.trans hvar2.symm) (by omega)
  have hdecode : hex2bin (bin2hex (hashedExtranonce ch extranonce)) w.wb.enonce2varlen =
      some (hashedExtranonce ch extranonce) :=
    hex2bin_bin2hex_of_length (hhashedLen.trans hvar2.symm)
  have huser : userCoinb2 ck w.wb (ch.openSession txnbin).txnbin = some coinb2 := hcoinb2
  obtain ⟨prevHash, hprevHash, hhashed⟩ := submissionDiff_eq w.made huser hdecode
    (hex2bin_fmt08x nonce) ntime version true
  have hs := hhashed _ _ rfl rfl
  rw [henonce1] at hs
  have hshare : sv2SubmitShare ck (ch.openSession txnbin) w.wb ntime nonce version
      (bin2hex extranonce) = submissionDiff ck (ch.openSession txnbin) w.wb
        (bin2hex (hashedExtranonce ch extranonce)) ntime version true (fmt08x nonce) := by
    rw [sv2SubmitShare, hhex]
    rfl
  exact ⟨prevHash, _, hprevHash, hshare.trans hs, rfl⟩

/-- Two headers with the same version, time and nonce are equal field by
field. -/
theorem header_eq_iff {prev prev' root root' : Bytes} (hprev : prev.length = prev'.length)
    (hroot : root.length = root'.length) (version ntime nbits nbits' nonce : UInt32) :
    leBytes 4 version.toNat ++ prev ++ root ++ leBytes 4 ntime.toNat ++ leBytes 4 nbits.toNat ++
        leBytes 4 nonce.toNat =
      leBytes 4 version.toNat ++ prev' ++ root' ++ leBytes 4 ntime.toNat ++ leBytes 4 nbits'.toNat ++
        leBytes 4 nonce.toNat ↔ root = root' ∧ prev = prev' ∧ nbits = nbits' := by
  constructor
  · intro h
    simp only [List.append_assoc] at h
    have h1 := List.append_cancel_left h
    obtain ⟨hp, h2⟩ := List.append_inj h1 hprev
    obtain ⟨hr, h3⟩ := List.append_inj h2 hroot
    have h4 := List.append_cancel_left h3
    obtain ⟨hb, -⟩ := List.append_inj h4 (by simp)
    exact ⟨hr, hp, UInt32.toNat_inj.mp (leBytes_injOn nbits.toNat_lt nbits'.toNat_lt hb)⟩
  · rintro ⟨rfl, rfl, rfl⟩
    rfl

/-- A job and a SetNewPrevHash of two pushes: the client's header against the one
that is hashed. -/
theorem pushed_header_eq_iff {p p' : Push ck sd} {ch : Sv2Channel ck} {txnbin : Bytes}
    {job : Sv2Job} {ph : SetNewPrevHash} (hjob : Sv2Frame.newJob job ∈ p.frames ch txnbin)
    (hph : Sv2Frame.setNewPrevHash ph ∈ p'.frames ch txnbin) {extranonce : Bytes}
    (hlen : extranonce.length = if ch.standard then 0 else ck.nonce2length)
    (version ntime nonce : UInt32) :
    ∃ coinb2 s, userCoinb2 ck p.work.wb txnbin = some coinb2 ∧
      sv2SubmitShare ck (ch.openSession txnbin) p.work.wb ntime nonce version
        (bin2hex extranonce) = some s ∧
      (clientHeader job ph ch.enonce1 extranonce version ntime nonce = s.swap ↔
        (ch.standard = true → WordPalindrome
          (channelRoot ch p.work.wb coinb2 (List.replicate ck.nonce2length 0))) ∧
        p'.work.t.prevBlock = p.work.t.prevBlock ∧ p'.work.t.nbits = p.work.t.nbits) := by
  obtain ⟨coinb2, hcoinb2, -, -, hroot⟩ := Push.job_spec hjob
  obtain ⟨prevHash', hprevHash', hphPrev, hphBits, -⟩ := Push.setNewPrevHash_spec hph
  obtain ⟨prevHash, s, hprevHash, hs, hswap⟩ := sv2SubmitShare_eq p.work hcoinb2 hlen version ntime
    nonce
  refine ⟨coinb2, s, hcoinb2, hs, ?_⟩
  have hrootLen : (job.merkleRoot ch.enonce1 extranonce).length =
      (channelRoot ch p.work.wb coinb2 (hashedExtranonce ch extranonce)).bytes.length := by
    rw [hroot extranonce hlen, Hash256.length_bytes]
    split
    · rw [flip32_of_length (Hash256.length_bytes _), length_flipWords _ (by simp),
        Hash256.length_bytes]
    · exact Hash256.length_bytes _
  -- the advertised root is the hashed one, up to the flip on a standard channel
  have hrootIff : job.merkleRoot ch.enonce1 extranonce =
      (channelRoot ch p.work.wb coinb2 (hashedExtranonce ch extranonce)).bytes ↔
        (ch.standard = true → WordPalindrome
          (channelRoot ch p.work.wb coinb2 (List.replicate ck.nonce2length 0))) := by
    rw [hroot extranonce hlen, hashedExtranonce]
    by_cases hstandard : ch.standard = true
    · simp only [hstandard, if_true, forall_const, WordPalindrome]
    · simp [hstandard]
  have hprevIff : prevHash'.bytes = prevHash.bytes ↔
      p'.work.t.prevBlock = p.work.t.prevBlock := by
    rw [hprevHash', hprevHash, Option.some.injEq]
    exact ⟨Hash256.ext, fun h => by rw [h]⟩
  rw [hswap, clientHeader, wireHeader, hphPrev, hphBits, header_eq_iff (by simp) hrootLen, hrootIff,
    hprevIff]

end Header

/-! ### Everything a client can have read -/

section Views

variable {ck : Ckpool} {sd : Sdata}

/-- A client of a channel, after the frames `sent`, each with the push it is
from.  Pushes of several threads may interleave, so the order is any. -/
def clientView (sent : List (Push ck sd × Sv2Frame)) : ClientView (Push ck sd) :=
  sent.foldl ClientView.receive (ClientView.init _)

/-- Everything in a client's view was pushed by the push it is filed under. -/
structure ViewPushed (ch : Sv2Channel ck) (txnbin : Bytes) (view : ClientView (Push ck sd)) :
    Prop where
  future : ∀ j ∈ view.future, Sv2Frame.newJob j.2 ∈ j.1.frames ch txnbin
  active : ∀ j ∈ view.active, Sv2Frame.newJob j.2 ∈ j.1.frames ch txnbin
  prevHash : ∀ h ∈ view.prevHash, Sv2Frame.setNewPrevHash h.2 ∈ h.1.frames ch txnbin

/-- One frame of a push keeps it so. -/
theorem ViewPushed.receive {ch : Sv2Channel ck} {txnbin : Bytes} {view : ClientView (Push ck sd)}
    (h : ViewPushed ch txnbin view) {p : Push ck sd} {frame : Sv2Frame}
    (hframe : frame ∈ p.frames ch txnbin) : ViewPushed ch txnbin (view.receive (p, frame)) := by
  cases frame with
  | newJob job =>
    rw [ClientView.receive]
    split
    · refine ⟨?_, h.active, h.prevHash⟩
      intro j hj
      rcases List.mem_cons.mp hj with rfl | hj
      · exact hframe
      · exact h.future j hj
    · refine ⟨h.future, ?_, h.prevHash⟩
      intro j hj
      obtain rfl : (p, job) = j := by simpa using hj
      exact hframe
  | setNewPrevHash ph =>
    rw [ClientView.receive]
    split
    · rename_i job hfind
      refine ⟨by simp, ?_, ?_⟩
      · intro j hj
        obtain rfl : job = j := by simpa using hj
        exact h.future job (List.mem_of_find?_eq_some hfind)
      · intro j hj
        obtain rfl : (p, ph) = j := by simpa using hj
        exact hframe
    · exact h

theorem clientView_pushed {ch : Sv2Channel ck} {txnbin : Bytes}
    (sent : List (Push ck sd × Sv2Frame)) (hsent : ∀ f ∈ sent, f.2 ∈ f.1.frames ch txnbin) :
    ViewPushed ch txnbin (clientView sent) := by
  have hrun : ∀ view : ClientView (Push ck sd), ViewPushed ch txnbin view →
      ViewPushed ch txnbin (sent.foldl ClientView.receive view) := by
    induction sent with
    | nil => exact fun view h => h
    | cons f sent ih =>
      intro view h
      exact ih (fun g hg => hsent g (List.mem_cons_of_mem f hg)) _
        (h.receive (hsent f List.mem_cons_self))
  exact hrun _ ⟨by simp [ClientView.init], by simp [ClientView.init], by simp [ClientView.init]⟩

/-- A future job and the SetNewPrevHash pushed with it are mined together, whatever
was read before. -/
theorem clientView_future {p : Push ck sd} {ch : Sv2Channel ck} {txnbin : Bytes}
    (hfuture : p.futureFirst = true)
    (hsnap : (snapshotWork ck (ch.openSession txnbin) p.work.wb).isSome) :
    ∃ job ph, p.frames ch txnbin = [.newJob job, .setNewPrevHash ph] ∧
      ∀ sent, (clientView (sent ++ [(p, .newJob job), (p, .setNewPrevHash ph)])).active =
          some (p, job) ∧
        (clientView (sent ++ [(p, .newJob job), (p, .setNewPrevHash ph)])).prevHash =
          some (p, ph) := by
  obtain ⟨snap, hsnap⟩ := Option.isSome_iff_exists.mp hsnap
  obtain ⟨coinb2, prevHash, hcoinb2, -, -⟩ := p.work.snapshotWork_eq hsnap
  have hframes : ∃ job ph, p.frames ch txnbin = [.newJob job, .setNewPrevHash ph] ∧
      job.minNtime = none ∧ job.jobId = ph.jobId := by
    rw [Push.frames, pushPoolJob]
    split
    · rw [pushPoolJobStandard, stratifierSv2MerkleRoot_eq p.work hsnap hcoinb2]
      simp only [hfuture, if_true]
      exact ⟨_, _, rfl, rfl, rfl⟩
    · rw [pushPoolJobExtended, hsnap]
      simp only [hfuture, if_true]
      exact ⟨_, _, rfl, rfl, rfl⟩
  obtain ⟨job, ph, hframes, hnone, hid⟩ := hframes
  refine ⟨job, ph, hframes, fun sent => ?_⟩
  rw [clientView, List.foldl_append, List.foldl_cons, List.foldl_cons, List.foldl_nil]
  simp only [ClientView.receive, hnone, Option.isNone_none, if_true]
  rw [List.find?_cons_of_pos (by simpa using hid)]
  exact ⟨rfl, rfl⟩

/-- **When the client mines the header that is hashed.**  After any frames of any
pushes, for the job a client mines and every submission on it: the header built
from the advertised fields is the one `submission_diff` hashes if and only if the
channel is extended, or the merkle root survives the word flip; and the
SetNewPrevHash in force is of work with the same previous block and bits. -/
theorem clientHeader_eq_hashed_iff (ck : Ckpool) (sd : Sdata) (ch : Sv2Channel ck) (txnbin : Bytes)
    (sent : List (Push ck sd × Sv2Frame)) (hsent : ∀ f ∈ sent, f.2 ∈ f.1.frames ch txnbin)
    (p p' : Push ck sd) (job : Sv2Job) (ph : SetNewPrevHash)
    (hactive : (clientView sent).active = some (p, job))
    (hprevHash : (clientView sent).prevHash = some (p', ph)) (version ntime nonce : UInt32)
    (extranonce : Bytes) (hlen : extranonce.length = if ch.standard then 0 else ck.nonce2length) :
    ∃ coinb2 s, userCoinb2 ck p.work.wb txnbin = some coinb2 ∧
      sv2SubmitShare ck (ch.openSession txnbin) p.work.wb ntime nonce version
        (bin2hex extranonce) = some s ∧
      (clientHeader job ph ch.enonce1 extranonce version ntime nonce = s.swap ↔
        (ch.standard = true → WordPalindrome
          (channelRoot ch p.work.wb coinb2 (List.replicate ck.nonce2length 0))) ∧
        p'.work.t.prevBlock = p.work.t.prevBlock ∧ p'.work.t.nbits = p.work.t.nbits) := by
  have hview := clientView_pushed sent hsent
  exact pushed_header_eq_iff (hview.active (p, job) hactive) (hview.prevHash (p', ph) hprevHash) hlen
    version ntime nonce

end Views

/-- The work of the empty template. -/
def exampleWork : TemplateWork longCk exampleSd where
  t := emptyTemplate []
  now := exampleNow
  d64 := 3125000
  wb := (blockUpdate longCk exampleSd (emptyTemplate []) exampleNow 3125000).get
    (by decide +kernel)
  made := by simp

/-- The first push on a channel. -/
def examplePush : Push longCk exampleSd where
  work := exampleWork
  jobSeq := 0
  futureFirst := true

/-- A channel of either kind. -/
def exampleChannel (standard : Bool) : Sv2Channel longCk where
  standard := standard
  enonce1 := List.replicate 8 1
  enonce1_len := rfl

theorem exampleChannel_snapshot (standard : Bool) :
    (snapshotWork longCk ((exampleChannel standard).openSession zeroHashScript.bin)
      examplePush.work.wb).isSome := by
  cases standard <;> decide +kernel

/-- A share of an extended channel, on the job it was opened with. -/
theorem clientHeader_eq_hashed_iff_extended :
    ∃ sent job ph,
      (clientView sent).active = some (examplePush, job) ∧
      (clientView sent).prevHash = some (examplePush, ph) ∧
      ∃ coinb2 s,
        userCoinb2 longCk exampleWork.wb zeroHashScript.bin = some coinb2 ∧
        sv2SubmitShare longCk ((exampleChannel false).openSession zeroHashScript.bin)
          exampleWork.wb 1700000100 7 0x20000000 (bin2hex (List.replicate 8 2)) = some s ∧
        (clientHeader job ph (List.replicate 8 1) (List.replicate 8 2) 0x20000000 1700000100 7 =
            s.swap ↔
          (false = true → WordPalindrome
            (channelRoot (exampleChannel false) exampleWork.wb coinb2 (List.replicate 8 0))) ∧
          exampleWork.t.prevBlock = exampleWork.t.prevBlock ∧
          exampleWork.t.nbits = exampleWork.t.nbits) := by
  obtain ⟨job, ph, hframes, hview⟩ := clientView_future (p := examplePush) rfl
    (exampleChannel_snapshot false)
  obtain ⟨hactive, hprevHash⟩ := hview []
  refine ⟨_, job, ph, hactive, hprevHash, ?_⟩
  exact clientHeader_eq_hashed_iff longCk exampleSd (exampleChannel false) zeroHashScript.bin _
    (by simp [hframes]) examplePush examplePush job ph hactive hprevHash 0x20000000 1700000100 7
    (List.replicate 8 2) rfl

/-- On a standard channel the same share hashes another header than the client
mined. -/
theorem standardChannel_header_ne :
    ∃ sent job ph,
      (∀ f ∈ sent, f.1 = examplePush ∧
        f.2 ∈ examplePush.frames (exampleChannel true) zeroHashScript.bin) ∧
      (clientView sent).active = some (examplePush, job) ∧
      (clientView sent).prevHash = some (examplePush, ph) ∧
      ∃ s,
        sv2SubmitShare longCk ((exampleChannel true).openSession zeroHashScript.bin)
          exampleWork.wb 1700000100 7 0x20000000 [] = some s ∧
        clientHeader job ph (List.replicate 8 1) [] 0x20000000 1700000100 7 ≠ s.swap := by
  obtain ⟨job, ph, hframes, hview⟩ := clientView_future (p := examplePush) rfl
    (exampleChannel_snapshot true)
  obtain ⟨hactive, hprevHash⟩ := hview []
  refine ⟨_, job, ph, ?_, hactive, hprevHash, ?_⟩
  · simp [hframes]
  · have hjob : Sv2Frame.newJob job ∈ examplePush.frames (exampleChannel true) zeroHashScript.bin := by
      simp [hframes]
    have hph : Sv2Frame.setNewPrevHash ph ∈
        examplePush.frames (exampleChannel true) zeroHashScript.bin := by
      simp [hframes]
    have hlen : ([] : Bytes).length =
        if (exampleChannel true).standard then 0 else longCk.nonce2length := rfl
    obtain ⟨coinb2, s, hcoinb2, hs, hiff⟩ := pushed_header_eq_iff hjob hph hlen 0x20000000
      1700000100 7
    refine ⟨s, hs, fun heq => ?_⟩
    have hpal := (hiff.mp heq).1 rfl
    have hconcrete : userCoinb2 longCk exampleWork.wb zeroHashScript.bin =
        some ((userCoinb2 longCk exampleWork.wb zeroHashScript.bin).getD []) := rfl
    obtain rfl := Option.some.inj (hcoinb2.symm.trans hconcrete)
    revert hpal
    decide +kernel

end CashStratum
