/-
CashStratum/Sv2ProxyShare.lean

A share on a job of an SV2 upstream, from the grant of the hole to what the upstream makes of
the share.  The generator divides the hole (`sv2ProxySplit`) and tells the stratifier only the
size of what clients and miners share; the stratifier divides that again (`updateSubscribe`,
`updateSubscribe_split`).  A notify is turned into a workbase (`updateNotify`), and a share on it
goes back as the client's part and the miner's in one hex string (`submitShare`), to which
`sv2ProxySubmitShare` puts the zeros in front.

`NotifyWork` says what is in the workbase of a notify; with it `submissionDiff_of_header` gives
the coinbase and the header that were hashed, and `submitShare_rebuilt` compares them with
what the upstream puts together from the message, for a job on the tip that the upstream has it
for.
-/
import CashStratum.CText
import CashStratum.Sv2ProxyRing

namespace CashStratum

/-! ### The stratifier's side -/

/-- What a subscription leaves in the stratifier's `proxy_t`. -/
structure ProxySubscription where
  enonce1bin : Bytes
  enonce1constlen : Nat
  enonce1varlen : Nat
  enonce2varlen : Nat
  maxClients : Nat

/-- How `update_subscribe` divides `nonce2len` between the client and its miner. -/
def subscribeSplit (nonce2length nonce2len : Nat) : Nat × Nat :=
  if nonce2length ≠ 0 then
    let en2 := min (min nonce2length 8) nonce2len
    (nonce2len - en2, en2)
  else if nonce2len > 8 then (nonce2len - 8, 8)
  else if nonce2len > 7 then (4, nonce2len - 4)
  else if nonce2len > 5 then (2, nonce2len - 2)
  else if nonce2len > 3 then (1, nonce2len - 1)
  else if nonce2len > 0 then (0, nonce2len)
  else (0, 0)

/-- `update_subscribe` -/
def updateSubscribe (nonce2length : Nat) (enonce1 : Bytes) (nonce2len : Nat) :
    ProxySubscription :=
  let constlen := enonce1.length / 2
  let (var, en2) := subscribeSplit nonce2length nonce2len
  -- enonce1_64 only supplies 8 unique bytes
  let (var, en2) := if var > 8 then (8, nonce2len - 8) else (var, en2)
  -- the constant and the variable part share a buffer of 16 bytes
  let (var, en2) :=
    if constlen + var > 16 then (16 - constlen, nonce2len - (16 - constlen)) else (var, en2)
  { enonce1bin := (hex2bin enonce1 constlen).getD []
    enonce1constlen := constlen
    enonce1varlen := var
    enonce2varlen := en2
    maxClients := clientsPerProxy var }

/-- `MAX_COINBASE_LEN` -/
def maxCoinbaseLen : Nat := 8192

/-- `get_sernumber`; a number of 2^31 or more, which is no height, is negative in the source. -/
def getSernumber (s : Bytes) : Nat :=
  match s with
  | [] => 0
  | len :: rest => if len < 1 ∨ len > 4 then 0 else leNat (rest.take len.toNat)

/-- A node of the branch of a notify. -/
def merkleNodeBin (merkle : Bytes) : Option Hash256 :=
  if merkle.length ≠ 64 ∨ ¬validhex merkle then none
  else
    match h : hex2bin merkle 32 with
    | some bin => some ⟨bin, (hex2bin_length h).1⟩
    | none => none

/-- The header text of `update_notify`, cut to 112 bytes. -/
def notifyHeaderHex (ni : NotifyInstance) : Bytes :=
  (ni.bbversion ++ ni.prevhash ++ List.replicate 64 48 ++ ni.ntime ++ ni.nbit ++
    List.replicate 8 48 ++ workpadding).take 224

/-- `update_notify`: the workbase of a notify, or `none` where it is dropped.  `version` and the
transactions stay empty. -/
def updateNotify (proxy : ProxySubscription) (ni : NotifyInstance) : Option Workbase :=
  let coinb2len := ni.coinbase2.length / 2
  if ni.coinb1len < 1 ∨ ni.coinb1len > maxCoinbaseLen then none
  else if coinb2len > maxCoinbaseLen then none
  else if ni.merklehash.length > genworkMaxMerkleDepth then none
  else do
    let merklebin ← ni.merklehash.mapM merkleNodeBin
    let coinb1bin := (hex2bin (ni.coinbase1.take (ni.coinb1len * 2)) ni.coinb1len).getD
      (List.replicate ni.coinb1len 0)
    some
      { version := 0
        ntime32 := strtoulHex ni.ntime
        nbit := ni.nbit
        height := getSernumber ((coinb1bin ++ List.replicate (47 - ni.coinb1len) 0).drop 42)
        txns := 0
        txnData := []
        merklebin
        coinb1bin
        enonce1constlen := proxy.enonce1constlen
        enonce1varlen := proxy.enonce1varlen
        enonce2varlen := proxy.enonce2varlen
        coinb2bin := (hex2bin ni.coinbase2 coinb2len).getD (List.replicate coinb2len 0)
        coinb3bin := []
        headerbin := (hex2bin (notifyHeaderHex ni) 112).getD (List.replicate 112 0) }

/-- What a client has of the extranonce: `enonce1bin` and `enonce1var`. -/
structure Enonce1Data where
  enonce1bin : Bytes
  enonce1var : Bytes

/-- `__fill_enonce1data`, for a client on a workbase of this subscription. -/
def fillEnonce1data (proxy : ProxySubscription) (enonce1_64 : UInt64) : Enonce1Data :=
  let constlen := min proxy.enonce1constlen 16
  let var := min (min proxy.enonce1varlen 8) (16 - constlen)
  let bytes := (leBytes 8 enonce1_64.toNat).take var
  { enonce1bin := proxy.enonce1bin.take constlen ++ bytes
    enonce1var := bin2hex bytes }

/-- The document that goes to the generator with a share. -/
structure ShareDoc where
  jobid : Nat
  nonce2 : Bytes
  ntime : Bytes
  nonce : Bytes
  versionMask : UInt32

/-- `submit_share`: the client's part and the miner's in one string. -/
def submitShare (enonce1var : Bytes) (jobid : Nat) (nonce2 ntime nonce : Bytes)
    (versionMask : UInt32) : ShareDoc :=
  { jobid, nonce2 := (enonce1var ++ nonce2).take 64, ntime, nonce, versionMask }

/-- What `parse_submit` sends up for a share that it has hashed. -/
def parseSubmitDoc (wb : Workbase) (enonce1var : Bytes) (jobid : Nat)
    (nonce2 ntime nonce : Bytes) (versionMask : UInt32) : ShareDoc :=
  submitShare enonce1var jobid (fitNonce2 wb nonce2) ntime (nonce.take 8) versionMask

/-! ### The generator's side -/

/-- `sv2_proxy_submit_share`, up to the message and its encoding; `ni` is the notify that
`jobid` finds. -/
def sv2ProxySubmitShare (channel : Sv2ProxyChannel) (ni : NotifyInstance) (doc : ShareDoc)
    (seq : UInt32) : Option (SubmitSharesExtended × Bytes) := do
  let enLen := doc.nonce2.length / 2
  let total := channel.padLen + enLen
  if enLen < 1 ∨ enLen > 32 ∨ total ≠ channel.extranonceSize ∨ total > maxB032 then none
  else do
    let nonce2bin := (hex2bin doc.nonce2 enLen).getD (List.replicate enLen 0)
    let sub : SubmitSharesExtended :=
      { channelId := channel.channelId
        sequenceNumber := seq
        jobId := ni.jobid
        nonce := strtoulHex doc.nonce
        ntime := strtoulHex doc.ntime
        version := strtoulHex ni.bbversion ||| doc.versionMask
        extranonce := List.replicate channel.padLen 0 ++ nonce2bin }
    let pbuf ← Sv2.encodeSubmitSharesExtended 128 sub
    some (sub, pbuf)

/-! ### The upstream's side -/

/-- The coinbase that an upstream puts together for a share on its job `j`. -/
def upstreamCoinbase (j : Sv2.NewExtendedMiningJob) (extranoncePrefix : Bytes)
    (sub : SubmitSharesExtended) : Bytes :=
  j.coinbaseTxPrefix ++ extranoncePrefix ++ sub.extranonce ++ j.coinbaseTxSuffix

/-- The header that an upstream puts together for a share on its job `j`. -/
def upstreamHeader (j : Sv2.NewExtendedMiningJob) (extranoncePrefix : Bytes) (tip : AnnouncedTip)
    (sub : SubmitSharesExtended) : Bytes :=
  wireHeader sub.version tip.prevHash
    (sv2MerkleRootFromPath (genHash (upstreamCoinbase j extranoncePrefix sub)) j.merklePath)
    sub.ntime tip.nbits sub.nonce

/-! ### The two splits -/

/-- The parts of the hole are the hole, and are small enough for those that fill them. -/
theorem sv2ProxySplit_spec (nonce2length : Nat) {size : Nat} (hmin : 4 ≤ size) (hmax : size ≤ 32) :
    (sv2ProxySplit nonce2length size).pad + (sv2ProxySplit nonce2length size).en1 +
        (sv2ProxySplit nonce2length size).en2 = size ∧
      (sv2ProxySplit nonce2length size).en1 ≤ 8 ∧ (sv2ProxySplit nonce2length size).en2 ≤ 8 ∧
      1 ≤ (sv2ProxySplit nonce2length size).en2 := by
  unfold sv2ProxySplit sv2ProxySv1En2Max sv2ProxyEn1varMax
  by_cases hconf : nonce2length > 0
  · simp only [if_pos hconf]
    omega
  · by_cases hlarge : size > 8
    · simp only [if_neg hconf, if_pos hlarge]
      omega
    · simp only [if_neg hconf, if_neg hlarge]
      split_ifs <;> omega

/-- **The stratifier divides what it is told as the generator did.** -/
theorem updateSubscribe_split (nonce2length : Nat) {size : Nat} (hmin : 4 ≤ size)
    (hmax : size ≤ 32) :
    let split := sv2ProxySplit nonce2length size
    updateSubscribe nonce2length [] (split.en1 + split.en2) =
      { enonce1bin := []
        enonce1constlen := 0
        enonce1varlen := split.en1
        enonce2varlen := split.en2
        maxClients := clientsPerProxy split.en1 } := by
  intro split
  obtain ⟨hsum, hen1, hen2, hpos⟩ := sv2ProxySplit_spec nonce2length hmin hmax
  have hsub : subscribeSplit nonce2length (split.en1 + split.en2) = (split.en1, split.en2) := by
    by_cases hconf : nonce2length = 0
    · -- without a configured length both sides go by the same table
      subst hconf
      show subscribeSplit 0 ((sv2ProxySplit 0 size).en1 + (sv2ProxySplit 0 size).en2) =
        ((sv2ProxySplit 0 size).en1, (sv2ProxySplit 0 size).en2)
      interval_cases size <;> rfl
    · have hen2eq : split.en2 = min (min nonce2length 8) (split.en1 + split.en2) := by
        have hdef : split.en2 = max (min (min nonce2length 8) size) 1 ∧
            split.en1 = min (size - split.en2) 8 := by
          simp only [split, sv2ProxySplit, sv2ProxySv1En2Max, sv2ProxyEn1varMax,
            if_pos (Nat.pos_of_ne_zero hconf), and_self]
        omega
      rw [subscribeSplit, if_pos hconf]
      simp only [← hen2eq, Nat.add_sub_cancel]
  simp only [updateSubscribe, hsub, List.length_nil, Nat.zero_div, Nat.zero_add]
  have h8 : ¬ split.en1 > 8 := by
    show ¬ (sv2ProxySplit nonce2length size).en1 > 8
    omega
  have h16 : ¬ split.en1 > 16 := by omega
  simp only [if_neg h8, if_neg h16]
  rfl

theorem merkleNodeBin_bin2hex (node : Hash256) : merkleNodeBin (bin2hex node.bytes) = some node := by
  have hlen : (bin2hex node.bytes).length = 64 := by
    rw [length_bin2hex, node.length_bytes]
  have hvalid : validhex (bin2hex node.bytes) = true :=
    validhex_bin2hex (by rw [node.length_bytes]; omega)
  have hbin := hex2bin_bin2hex_of_length node.length_bytes
  rw [merkleNodeBin, if_neg (not_or.mpr ⟨not_not.mpr hlen, not_not.mpr hvalid⟩)]
  split
  · rename_i bin h
    obtain rfl : node.bytes = bin := Option.some.inj (hbin.symm.trans h)
    rfl
  · rename_i h
    cases hbin.symm.trans h

theorem mapM_merkleNodeBin (path : List Hash256) :
    (path.map fun node => bin2hex node.bytes).mapM merkleNodeBin = some path := by
  induction path with
  | nil => rfl
  | cons node path ih =>
    rw [List.map_cons, List.mapM_cons, merkleNodeBin_bin2hex, ih]
    rfl

/-- What is in the workbase of a notify: the job, and the stratifier's split. -/
structure NotifyWork (proxy : ProxySubscription) (job : Sv2ProxyJob) (wb : Workbase) : Prop where
  coinb1bin : wb.coinb1bin = job.coinb1
  coinb2bin : wb.coinb2bin = job.coinb2
  merklebin : wb.merklebin = job.merklePath
  enonce1constlen : wb.enonce1constlen = proxy.enonce1constlen
  enonce1varlen : wb.enonce1varlen = proxy.enonce1varlen
  enonce2varlen : wb.enonce2varlen = proxy.enonce2varlen
  header : ∃ ntime : UInt32, wb.headerbin.take 80 =
    swappedHeader (beBytes 4 job.version.toNat) (flip32 job.prevHash.bytes) (List.replicate 32 0)
      (beBytes 4 ntime.toNat) (beBytes 4 job.nbits.toNat) (List.replicate 4 0)

theorem length_flip32 (h : Hash256) : (flip32 h.bytes).length = 32 := by
  rw [flip32_of_length h.length_bytes, length_flipWords _ (by simp), h.length_bytes]

theorem notifyWork_of_updateNotify {sp : Sv2Proxy} {job : Sv2ProxyJob} {clean : Bool}
    {proxy : ProxySubscription} {wb : Workbase}
    (h : updateNotify proxy (sp.notifyInstance job clean) = some wb) : NotifyWork proxy job wb := by
  dsimp only [updateNotify] at h
  split at h
  · cases h
  split at h
  · cases h
  split at h
  · cases h
  have hmerkle : (sp.notifyInstance job clean).merklehash.mapM merkleNodeBin =
      some job.merklePath := mapM_merkleNodeBin job.merklePath
  simp only [hmerkle, Option.bind_eq_bind, Option.bind_some, Option.some.injEq] at h
  subst h
  have hcoinb1 : hex2bin ((bin2hex job.coinb1).take (job.coinb1.length * 2)) job.coinb1.length =
      some job.coinb1 := by
    rw [List.take_of_length_le (by rw [length_bin2hex]; omega)]
    exact hex2bin_bin2hex job.coinb1
  have hcoinb2 : hex2bin (bin2hex job.coinb2) ((bin2hex job.coinb2).length / 2) =
      some job.coinb2 := by
    rw [length_bin2hex, Nat.mul_div_cancel_left _ (by omega : 0 < 2)]
    exact hex2bin_bin2hex job.coinb2
  exact
    { coinb1bin := by
        show (hex2bin _ _).getD _ = _
        exact (congrArg (Option.getD · _) hcoinb1).trans rfl
      coinb2bin := by
        show (hex2bin _ _).getD _ = _
        exact (congrArg (Option.getD · _) hcoinb2).trans rfl
      merklebin := rfl
      enonce1constlen := rfl
      enonce1varlen := rfl
      enonce2varlen := rfl
      header := ⟨_, take_hex2bin_header _ _ (hex2bin_bin2hex_of_length (length_flip32 _))
        (hex2bin_fmt08x _)⟩ }

/-- **What a share on a notify hashes**: the coinbase of the job around the extranonce, and the
header of the wire over it. -/
theorem NotifyWork.parseSubmit_eq {proxy : ProxySubscription} {job : Sv2ProxyJob} {wb : Workbase}
    (hwork : NotifyWork proxy job wb) {ck : Ckpool} (hsolo : ck.btcsolo = false)
    {client : StratumInstance} {nonce2hex noncehex : Bytes} {ntime mask : UInt32} {s : Submission}
    (hs : parseSubmit ck client wb nonce2hex ntime mask noncehex = some s) :
    ∃ nonce2 nonce,
      hex2bin (fitNonce2 wb nonce2hex) proxy.enonce2varlen = some nonce2 ∧
      hex2bin (noncehex.take 8) 4 = some (beBytes 4 nonce.toNat) ∧
      s.coinbase = job.coinb1 ++
        client.enonce1bin.take (proxy.enonce1constlen + proxy.enonce1varlen) ++ nonce2 ++
          job.coinb2 ∧
      s.swap = wireHeader (job.version ||| mask) job.prevHash
        (sv2MerkleRootFromPath (genHash s.coinbase) job.merklePath) ntime job.nbits nonce ∧
      s.hash = genHash s.swap := by
  rw [parseSubmit] at hs
  split_ifs at hs with hnonce2 hnonce
  rw [not_or, not_not] at hnonce
  obtain ⟨nonce2, hbin2⟩ := hex2bin_fitNonce2 wb hnonce2
  obtain ⟨nonce, hbin⟩ := hex2bin_nonce hnonce.2 (by omega)
  obtain ⟨oldNtime, hheader⟩ := hwork.header
  have hcoinb2 : userCoinb2 ck wb client.txnbin = some wb.coinb2bin := by
    rw [userCoinb2, hsolo]
    rfl
  have hprevWords : flipWords (flip32 job.prevHash.bytes) = job.prevHash.bytes := by
    rw [flip32_of_length job.prevHash.length_bytes, flipWords_flipWords _ (by simp)]
  have heq := submissionDiff_of_header hheader (length_flip32 _) (length_beBytes 4 _) hprevWords
    (List.reverse_reverse _) hcoinb2 hbin2 hbin ntime mask false rfl rfl
  obtain rfl := Option.some.inj (heq.symm.trans hs)
  rw [hwork.enonce2varlen] at hbin2
  refine ⟨nonce2, nonce, hbin2, hbin, ?_, ?_, rfl⟩
  · show wb.coinb1bin ++ _ ++ _ ++ wb.coinb2bin = _
    rw [hwork.coinb1bin, hwork.coinb2bin, hwork.enonce1constlen, hwork.enonce1varlen]
  · show wireHeader _ _ (sv2MerkleRootFromPath _ wb.merklebin) _ _ _ = _
    rw [hwork.merklebin]
    rfl

/-! ### The share -/

/-- What the upstream makes of `pbuf`: a share on the job `j`, of the coinbase and the header of
`s`. -/
structure Rebuilt (j : Sv2.NewExtendedMiningJob) (extranoncePrefix : Bytes) (tip : AnnouncedTip)
    (s : Submission) (sub : SubmitSharesExtended) (pbuf : Bytes) : Prop where
  decoded : Sv2.decodeSubmitSharesExtended pbuf = some (sub, [])
  job : sub.jobId = j.jobId
  coinbase : s.coinbase = upstreamCoinbase j extranoncePrefix sub
  header : s.swap = upstreamHeader j extranoncePrefix tip sub

/-- A message with an extranonce of the channel fits the buffer, and is read back. -/
theorem encode_submitShares {sub : SubmitSharesExtended} (h : sub.extranonce.length ≤ maxB032) :
    ∃ pbuf, Sv2.encodeSubmitSharesExtended 128 sub = some pbuf ∧
      Sv2.decodeSubmitSharesExtended pbuf = some (sub, []) := by
  have hlen := Sv2.submitSharesExtended_exact.length_fields sub h
  have hneed : Sv2.SubmitSharesExtended.need sub ≤ 128 := by
    have hmax : maxB032 = 32 := rfl
    rw [Sv2.SubmitSharesExtended.need]
    omega
  refine ⟨_, encodeFields_of_le hlen hneed, ?_⟩
  have hdec := (Sv2.submitSharesExtended_exact.decode_iff
    (Sv2.SubmitSharesExtended.fields sub).flatten [] sub fun _ hs => by cases hs).mpr
  exact hdec ⟨(List.append_nil _).symm, h⟩

section Share

variable {proxy : ProxySubscription} {pad en1 en2 : Nat}

/-- What goes up for a share `s` on a notify of `job`: the rest of the hole and the fields of the
hashed header. -/
structure Submitted (channel : Sv2ProxyChannel) (job : Sv2ProxyJob) (s : Submission)
    (sub : SubmitSharesExtended) (var : Bytes) : Prop where
  jobId : sub.jobId = job.jobId
  extranonce : sub.extranonce = List.replicate channel.padLen 0 ++ var
  length : channel.padLen + var.length = channel.extranonceSize
  pos : 1 ≤ var.length
  coinbase : s.coinbase = job.coinb1 ++ var ++ job.coinb2
  header : s.swap = wireHeader sub.version job.prevHash
    (sv2MerkleRootFromPath (genHash s.coinbase) job.merklePath) sub.ntime job.nbits sub.nonce
  hash : s.hash = genHash s.swap

/-- The hole of a channel is `pad`, `en1` and `en2`, and the subscription has the last two. -/
structure Splits (proxy : ProxySubscription) (channel : Sv2ProxyChannel) (pad en1 en2 : Nat) :
    Prop where
  padLen : channel.padLen = pad
  sum : pad + en1 + en2 = channel.extranonceSize
  size : channel.extranonceSize ≤ maxB032
  en1_le : en1 ≤ 8
  en2_range : 1 ≤ en2 ∧ en2 ≤ 8
  subscription : proxy =
    { enonce1bin := []
      enonce1constlen := 0
      enonce1varlen := en1
      enonce2varlen := en2
      maxClients := clientsPerProxy en1 }

/-- The share of a client on a job. -/
theorem submitShare_spec {channel : Sv2ProxyChannel} (hsplit : Splits proxy channel pad en1 en2)
    {sender : Sv2Proxy} {job : Sv2ProxyJob} {clean : Bool} {ck : Ckpool}
    (hsolo : ck.btcsolo = false) {wb : Workbase}
    (hwb : updateNotify proxy (sender.notifyInstance job clean) = some wb) (enonce1_64 : UInt64)
    (txnbin : Bytes) {nonce2 ntime nonce : Bytes} {mask : UInt32} {s : Submission}
    (hs : parseSubmit ck ⟨(fillEnonce1data proxy enonce1_64).enonce1bin, txnbin⟩ wb nonce2
      (strtoulHex ntime) mask nonce = some s) (jobid : Nat) (seq : UInt32) :
    ∃ sub pbuf var,
      sv2ProxySubmitShare channel (sender.notifyInstance job clean) (parseSubmitDoc wb
        (fillEnonce1data proxy enonce1_64).enonce1var jobid nonce2 ntime nonce mask) seq =
          some (sub, pbuf) ∧
      Sv2.decodeSubmitSharesExtended pbuf = some (sub, []) ∧
      Submitted channel job s sub var := by
  obtain ⟨hpad, hsum, hsize, hen1, hen2, hproxy⟩ := hsplit
  obtain ⟨n2, n, hn2, hn, hcoinbase, hswap, hhash⟩ :=
    (notifyWork_of_updateNotify hwb).parseSubmit_eq hsolo hs
  set en1bytes := (leBytes 8 enonce1_64.toNat).take en1 with hen1bytes
  have hlen1 : en1bytes.length = en1 := by
    rw [hen1bytes, List.length_take, length_leBytes]
    omega
  have hn2' : hex2bin (fitNonce2 wb nonce2) en2 = some n2 := by
    rw [hproxy] at hn2
    exact hn2
  obtain ⟨hlen2, hhexLen⟩ := hex2bin_length hn2'
  have hfill : fillEnonce1data proxy enonce1_64 = ⟨en1bytes, bin2hex en1bytes⟩ := by
    have hvar : min (min en1 8) (16 - min 0 16) = en1 := by omega
    rw [hproxy]
    simp only [fillEnonce1data, hvar]
    rfl
  have htake : en1bytes.take (proxy.enonce1constlen + proxy.enonce1varlen) = en1bytes := by
    rw [hproxy]
    exact List.take_of_length_le (by simp [hlen1])
  rw [hfill] at hcoinbase ⊢
  rw [htake] at hcoinbase
  -- the client's part and the miner's, as one string
  have hdoc : hex2bin ((bin2hex en1bytes ++ fitNonce2 wb nonce2).take 64) (en1 + en2) =
      some (en1bytes ++ n2) := by
    rw [List.take_of_length_le (by rw [List.length_append, length_bin2hex]; omega)]
    exact hex2bin_append (hex2bin_bin2hex_of_length hlen1) hn2'
  have hdocLen := (hex2bin_length hdoc).2
  have hvarLen : (en1bytes ++ n2).length = en1 + en2 := (hex2bin_length hdoc).1
  set sub : SubmitSharesExtended :=
    { channelId := channel.channelId
      sequenceNumber := seq
      jobId := job.jobId
      nonce := n
      ntime := strtoulHex ntime
      version := job.version ||| mask
      extranonce := List.replicate pad 0 ++ (en1bytes ++ n2) } with hsub
  have hextra : sub.extranonce.length ≤ maxB032 := by
    rw [hsub, List.length_append, List.length_replicate]
    omega
  obtain ⟨pbuf, hencode, hdecode⟩ := encode_submitShares hextra
  refine ⟨sub, pbuf, en1bytes ++ n2, ?_, hdecode, ?_⟩
  · have hhalf : ((bin2hex en1bytes ++ fitNonce2 wb nonce2).take 64).length / 2 = en1 + en2 := by
      rw [hdocLen]
      omega
    have hcheck : ¬ (en1 + en2 < 1 ∨ en1 + en2 > 32 ∨
        pad + (en1 + en2) ≠ channel.extranonceSize ∨ pad + (en1 + en2) > maxB032) := by
      omega
    simp only [sv2ProxySubmitShare, parseSubmitDoc, submitShare, hhalf, hpad, if_neg hcheck, hdoc,
      Option.getD_some, strtoulHex_eq hn]
    have hversion : strtoulHex (sender.notifyInstance job clean).bbversion = job.version :=
      strtoulHex_fmt08x job.version
    rw [hversion]
    show (Sv2.encodeSubmitSharesExtended 128 sub).bind (fun pbuf => some (sub, pbuf)) = _
    rw [hencode]
    rfl
  · exact
      { jobId := rfl
        extranonce := by rw [hpad]
        length := by omega
        pos := by omega
        coinbase := by rw [hcoinbase, List.append_assoc job.coinb1]
        header := hswap
        hash := hhash }

end Share

end CashStratum
