/-
CashStratum/Submission.lean

What a submission hashes (`submission_diff`) and what block it makes
(`process_block`), in stratifier.c.

The cached header stands word-swapped, and a submission is patched into it
through big-endian stores; `flip_80` turns the whole into the header of the
wire.  `flip80_swappedHeader` is that last step, `patchHeader_eq` the stores, and
`submissionDiff_eq` puts them together: the bytes hashed are `wireHeader`.  An SV1
client sends a mask that is or-ed into the version, an SV2 client the version
itself; `submission_is_wire_header` compares the two and follows the header into
the block.
-/
import CashStratum.Workbase

namespace CashStratum

/-! ### The header of the wire -/

/-- The 80 bytes of a block header. -/
def wireHeader (version : UInt32) (prevHash merkleRoot : Hash256) (ntime nbits nonce : UInt32) :
    Bytes :=
  leBytes 4 version.toNat ++ prevHash.bytes ++ merkleRoot.bytes ++ leBytes 4 ntime.toNat ++
    leBytes 4 nbits.toNat ++ leBytes 4 nonce.toNat

@[simp] theorem length_wireHeader (version : UInt32) (prevHash merkleRoot : Hash256)
    (ntime nbits nonce : UInt32) :
    (wireHeader version prevHash merkleRoot ntime nbits nonce).length = 80 := by
  simp [wireHeader]

/-! ### submission_diff -/

/-- What a submission needs of its `stratum_instance_t`: the channel's part of the
extranonce, and the user's payout script (empty without one). -/
structure StratumInstance where
  enonce1bin : Bytes
  txnbin : Bytes

/-- What `submission_diff` fills in: the coinbase, the 80 bytes it hashes, and
their hash. -/
structure Submission where
  coinbase : Bytes
  swap : Bytes
  hash : Hash256

/-- The version store: full replace (SV2) or mask OR (SV1). -/
def patchVersion (data : Bytes) (versionField : UInt32) (fullVersion : Bool) : Bytes :=
  if fullVersion then overwrite data 0 (beBytes 4 versionField.toNat)
  else if versionField ≠ 0 then
    overwrite data 0 (orBytes (data.take 4) (beBytes 4 versionField.toNat))
  else data

/-- The stores into the cached header, in the order of the source. -/
def patchHeader (headerbin merkleRoot : Bytes) (ntime32 versionField : UInt32) (fullVersion : Bool)
    (benonce32 : Bytes) : Bytes :=
  let data := overwrite (headerbin.take 80) 36 merkleRoot
  let data := patchVersion data versionField fullVersion
  let data := overwrite data 76 benonce32
  overwrite data 68 (beBytes 4 ntime32.toNat)

/-- `submission_diff`, without the difficulty of the hash.  `none` stands for
`SUBMISSION_NO_COINBASE`, and for strings that are no hex of the right length,
which no caller passes: the source would hash memory it has not written. -/
def submissionDiff (ck : Ckpool) (client : StratumInstance) (wb : Workbase) (nonce2 : Bytes)
    (ntime32 versionField : UInt32) (fullVersion : Bool) (nonce : Bytes) : Option Submission := do
  let coinb2bin ← userCoinb2 ck wb client.txnbin
  let nonce2bin ← hex2bin nonce2 wb.enonce2varlen
  let benonce32 ← hex2bin nonce 4
  let coinbase := wb.coinb1bin ++ client.enonce1bin.take (wb.enonce1constlen + wb.enonce1varlen) ++
    nonce2bin ++ coinb2bin
  let merkleSha := wb.merklebin.foldl (fun sha node => genHash (sha.bytes ++ node.bytes))
    (genHash coinbase)
  let data := patchHeader wb.headerbin (flip32 merkleSha.bytes) ntime32 versionField fullVersion
    benonce32
  let swap := flip80 data
  some { coinbase, swap, hash := genHash swap }

/-! ### Its callers -/

/-- How `parse_submit` fixes a `nonce2` of too many or too few characters. -/
def fitNonce2 (wb : Workbase) (nonce2 : Bytes) : Bytes :=
  let len := wb.enonce2varlen * 2
  if nonce2.length > len then nonce2.take len
  else nonce2 ++ List.replicate (len - nonce2.length) 48

/-- The submission of a `mining.submit`, from its parameters: `none` where
`parse_submit` rejects them before it hashes anything. -/
def parseSubmit (ck : Ckpool) (client : StratumInstance) (wb : Workbase) (nonce2 : Bytes)
    (ntime32 versionMask : UInt32) (nonce : Bytes) : Option Submission :=
  if ¬validhex nonce2 then none
  else if nonce.length < 8 ∨ ¬validhex nonce then none
  else submissionDiff ck client wb (fitNonce2 wb nonce2) ntime32 versionMask false (nonce.take 8)

/-- `nonce2hex` of `stratifier_sv2_submit_share`: the miner's extranonce, or zeros
on a standard channel. -/
def sv2Nonce2hex (wb : Workbase) (nonce2hexIn : Bytes) : Option Bytes :=
  let n2len := min (max wb.enonce2varlen 1) 31
  let expect := n2len * 2
  if nonce2hexIn ≠ [] then
    if nonce2hexIn.length ≠ expect ∨ ¬validhex nonce2hexIn then none else some nonce2hexIn
  else some (List.replicate expect 48)

/-- The submission of `stratifier_sv2_submit_share`. -/
def sv2SubmitShare (ck : Ckpool) (client : StratumInstance) (wb : Workbase)
    (ntime nonce version : UInt32) (nonce2hexIn : Bytes) : Option Submission := do
  let nonce2hex ← sv2Nonce2hex wb nonce2hexIn
  submissionDiff ck client wb nonce2hex ntime version true (fmt08x nonce)

/-! ### process_block -/

/-- What `process_block` returns, and what it fills in. -/
structure GbtBlock where
  gbtBlock : Bytes
  flip32 : Bytes
  blockhash : Bytes

/-- `process_block`. -/
def processBlock (wb : Workbase) (coinbase data : Bytes) (hash : Hash256) : GbtBlock :=
  let txns := wb.txns + 1
  let varint :=
    if txns < 0xfd then bin2hex [UInt8.ofNat txns]
    else if txns ≤ 0xffff then [102, 100] ++ bin2hex (leBytes 2 txns)
    else [102, 101] ++ bin2hex (leBytes 4 txns)
  { gbtBlock := bin2hex (data.take 80) ++ varint ++ bin2hex coinbase ++
      if wb.txns ≠ 0 then wb.txnData else []
    flip32 := CashStratum.flip32 hash.bytes
    blockhash := bin2hex (CashStratum.flip32 hash.bytes) }

/-! ### The stores and the flip -/

section Header

variable {version prevhash merkleRoot ntime nbit nonce : Bytes}

/-- The four stores, on a cached header: each one replaces its field. -/
theorem patchHeader_eq {headerbin merkleRoot' benonce32 : Bytes} (ntime32 versionField : UInt32)
    (fullVersion : Bool)
    (hheader : headerbin.take 80 = swappedHeader version prevhash merkleRoot ntime nbit nonce)
    (hversion : version.length = 4) (hprevhash : prevhash.length = 32)
    (hroot : merkleRoot.length = 32) (hntime : ntime.length = 4) (hnbit : nbit.length = 4)
    (hnonce : nonce.length = 4) (hroot' : merkleRoot'.length = 32)
    (hbenonce32 : benonce32.length = 4) :
    patchHeader headerbin merkleRoot' ntime32 versionField fullVersion benonce32 =
      swappedHeader
        (if fullVersion then beBytes 4 versionField.toNat
          else orBytes version (beBytes 4 versionField.toNat))
        prevhash merkleRoot' (beBytes 4 ntime32.toNat) nbit benonce32 := by
  have hrootStore : overwrite (headerbin.take 80) 36 merkleRoot' =
      swappedHeader version prevhash merkleRoot' ntime nbit nonce := by
    have hofs : (version ++ prevhash).length = 36 := by
      rw [List.length_append, hversion, hprevhash]
    have h := overwrite_append hofs (hroot.trans hroot'.symm) (ntime ++ (nbit ++ nonce))
    rw [hheader, swappedHeader, swappedHeader]
    simpa only [List.append_assoc] using h
  set version' := if fullVersion then beBytes 4 versionField.toNat
    else orBytes version (beBytes 4 versionField.toNat) with hversion'
  have hlen' : version'.length = 4 := by
    rw [hversion']
    split
    · simp
    · simp [orBytes, hversion]
  have hversionStore : patchVersion (swappedHeader version prevhash merkleRoot' ntime nbit nonce)
      versionField fullVersion = swappedHeader version' prevhash merkleRoot' ntime nbit nonce := by
    have htake : (swappedHeader version prevhash merkleRoot' ntime nbit nonce).take 4 = version :=
      List.take_left' hversion
    have hstore : ∀ v : Bytes, v.length = 4 →
        overwrite (swappedHeader version prevhash merkleRoot' ntime nbit nonce) 0 v =
          swappedHeader v prevhash merkleRoot' ntime nbit nonce := fun v hv =>
      overwrite_append (a := []) rfl (hversion.trans hv.symm) _
    rw [patchVersion, htake, hversion']
    by_cases hfull : fullVersion = true
    · rw [if_pos hfull, if_pos hfull]
      exact hstore _ (length_beBytes 4 _)
    · rw [if_neg hfull, if_neg hfull]
      by_cases hzero : versionField = 0
      · -- an empty mask is not stored, and changes nothing
        rw [if_neg (not_not.mpr hzero), hzero]
        congr 1
        rcases version with - | ⟨a, - | ⟨b, - | ⟨c, - | ⟨d, - | ⟨e, v⟩⟩⟩⟩⟩ <;> simp at hversion
        simp [orBytes, beBytes, leBytes]
      · rw [if_pos hzero]
        exact hstore _ (by simp [orBytes, hversion])
  have hnonceStore : overwrite (swappedHeader version' prevhash merkleRoot' ntime nbit nonce) 76
      benonce32 = swappedHeader version' prevhash merkleRoot' ntime nbit benonce32 := by
    have hofs : (version' ++ prevhash ++ merkleRoot' ++ ntime ++ nbit).length = 76 := by
      simp only [List.length_append, hlen', hprevhash, hroot', hntime, hnbit]
    have h := overwrite_append hofs (hnonce.trans hbenonce32.symm) []
    rw [swappedHeader, swappedHeader]
    simpa only [List.append_assoc, List.append_nil] using h
  have hntimeStore : overwrite (swappedHeader version' prevhash merkleRoot' ntime nbit benonce32) 68
      (beBytes 4 ntime32.toNat) =
        swappedHeader version' prevhash merkleRoot' (beBytes 4 ntime32.toNat) nbit benonce32 := by
    have hofs : (version' ++ prevhash ++ merkleRoot').length = 68 := by
      simp only [List.length_append, hlen', hprevhash, hroot']
    have h := overwrite_append hofs (hntime.trans (length_beBytes 4 ntime32.toNat).symm)
      (nbit ++ benonce32)
    rw [swappedHeader, swappedHeader]
    simpa only [List.append_assoc] using h
  show overwrite (overwrite (patchVersion (overwrite (headerbin.take 80) 36 merkleRoot')
    versionField fullVersion) 76 benonce32) 68 (beBytes 4 ntime32.toNat) = _
  rw [hrootStore, hversionStore, hnonceStore, hntimeStore]

/-- `flip_80` flips a header field by field. -/
theorem flip80_swappedHeader (hversion : version.length = 4) (hprevhash : prevhash.length = 32)
    (hroot : merkleRoot.length = 32) (hntime : ntime.length = 4) (hnbit : nbit.length = 4)
    (hnonce : nonce.length = 4) :
    flip80 (swappedHeader version prevhash merkleRoot ntime nbit nonce) =
      version.reverse ++ flipWords prevhash ++ flipWords merkleRoot ++ ntime.reverse ++
        nbit.reverse ++ nonce.reverse := by
  have hlen : (swappedHeader version prevhash merkleRoot ntime nbit nonce).length = 80 := by
    simp only [swappedHeader, List.length_append, hversion, hprevhash, hroot, hntime, hnbit, hnonce]
  rw [flip80_of_length hlen, swappedHeader, flipWords_append _ _ (by rw [hversion]),
    flipWords_append _ _ (by rw [hprevhash]), flipWords_append _ _ (by rw [hroot]),
    flipWords_append _ _ (by rw [hntime]), flipWords_append _ _ (by rw [hnbit]),
    flipWords_word hversion, flipWords_word hntime, flipWords_word hnbit, flipWords_word hnonce]
  simp only [List.append_assoc]

end Header

/-! ### What is hashed -/

/-- The previous block of a template, in the byte order of the wire. -/
def GbtTemplate.prevBlock (t : GbtTemplate) : Option Hash256 :=
  match h : hex2bin t.previousblockhash 32 with
  | some prev => some ⟨prev.reverse, by rw [List.length_reverse]; exact (hex2bin_length h).1⟩
  | none => none

/-- The target bits of a template. -/
def GbtTemplate.nbits (t : GbtTemplate) : UInt32 :=
  UInt32.ofNat (beNat ((hex2bin t.bits 4).getD []))

theorem GbtTemplate.prevBlock_eq {t : GbtTemplate} {prev : Bytes}
    (h : hex2bin t.previousblockhash 32 = some prev) :
    ∃ prevHash, t.prevBlock = some prevHash ∧ prevHash.bytes = prev.reverse := by
  unfold GbtTemplate.prevBlock
  split
  · rename_i prev' h'
    obtain rfl : prev = prev' := Option.some.inj (h.symm.trans h')
    exact ⟨_, rfl, rfl⟩
  · rename_i h'
    cases h.symm.trans h'

theorem GbtTemplate.leBytes_nbits {t : GbtTemplate} {nbit : Bytes}
    (h : hex2bin t.bits 4 = some nbit) : leBytes 4 t.nbits.toNat = nbit.reverse := by
  have hlen : nbit.reverse.length = 4 := by
    rw [List.length_reverse]
    exact (hex2bin_length h).1
  have hlt : beNat nbit < 2 ^ 32 := by
    have hlt := leNat_lt nbit.reverse
    rw [hlen] at hlt
    exact hlt
  have hspell := leBytes_leNat nbit.reverse
  rw [hlen] at hspell
  rw [GbtTemplate.nbits, h, Option.getD_some, UInt32.toNat_ofNat_of_lt' hlt]
  exact hspell

/-- A submission on a workbase whose cached header has these fields. -/
theorem submissionDiff_of_header {ck : Ckpool} {wb : Workbase} {client : StratumInstance}
    {coinb2 nonce2hex nonce2 noncehex : Bytes} {version oldNtime nbits nonce : UInt32}
    {prev nbit : Bytes} {prevHash : Hash256}
    (hheader : wb.headerbin.take 80 = swappedHeader (beBytes 4 version.toNat) prev
      (List.replicate 32 0) (beBytes 4 oldNtime.toNat) nbit (List.replicate 4 0))
    (hprev : prev.length = 32) (hnbit : nbit.length = 4)
    (hprevHash : flipWords prev = prevHash.bytes) (hnbits : nbit.reverse = leBytes 4 nbits.toNat)
    (hcoinb2 : userCoinb2 ck wb client.txnbin = some coinb2)
    (hnonce2 : hex2bin nonce2hex wb.enonce2varlen = some nonce2)
    (hnonce : hex2bin noncehex 4 = some (beBytes 4 nonce.toNat))
    (ntime versionField : UInt32) (fullVersion : Bool) {coinbase header : Bytes}
    (hcoinbase : coinbase = wb.coinb1bin ++
      client.enonce1bin.take (wb.enonce1constlen + wb.enonce1varlen) ++ nonce2 ++ coinb2)
    (hwire : header = wireHeader (if fullVersion then versionField else version ||| versionField)
      prevHash (sv2MerkleRootFromPath (genHash coinbase) wb.merklebin) ntime nbits nonce) :
    submissionDiff ck client wb nonce2hex ntime versionField fullVersion noncehex =
      some { coinbase := coinbase, swap := header, hash := genHash header } := by
  subst hwire
  set root := sv2MerkleRootFromPath (genHash coinbase) wb.merklebin with hroot
  have hflipLen : (flip32 root.bytes).length = 32 := by
    rw [flip32_of_length root.length_bytes, length_flipWords _ (by simp), root.length_bytes]
  -- the version field, stored big endian in both modes
  have hfield : (if fullVersion then beBytes 4 versionField.toNat
      else orBytes (beBytes 4 version.toNat) (beBytes 4 versionField.toNat)) =
        beBytes 4 (if fullVersion then versionField else version ||| versionField).toNat := by
    split
    · rfl
    · rw [UInt32.toNat_or, beBytes_or]
  have hdata := patchHeader_eq ntime versionField fullVersion hheader (by simp) hprev (by simp)
    (by simp) hnbit (by simp) hflipLen (length_beBytes 4 nonce.toNat)
  rw [hfield] at hdata
  have hswap : flip80 (patchHeader wb.headerbin (flip32 root.bytes) ntime versionField fullVersion
      (beBytes 4 nonce.toNat)) =
        wireHeader (if fullVersion then versionField else version ||| versionField) prevHash root
          ntime nbits nonce := by
    have hrootWords : flipWords (flip32 root.bytes) = root.bytes := by
      rw [flip32_of_length root.length_bytes, flipWords_flipWords _ (by simp)]
    rw [hdata, flip80_swappedHeader (by simp) hprev hflipLen (by simp) hnbit (by simp), hprevHash,
      hrootWords, wireHeader, hnbits]
    simp only [beBytes, List.reverse_reverse]
  have hfold : wb.merklebin.foldl (fun sha node => genHash (sha.bytes ++ node.bytes))
      (genHash coinbase) = root := rfl
  simp only [submissionDiff, hcoinb2, hnonce2, hnonce, Option.bind_eq_bind, Option.bind_some,
    ← hcoinbase, hfold, hswap]

/-- **What is hashed is the header of the wire**, over the coinbase the client was
given and the plain fold of the branch. -/
theorem submissionDiff_eq {ck : Ckpool} {sd : Sdata} {t : GbtTemplate} {now : Ts} {d64 : Nat}
    {wb : Workbase} (hwb : blockUpdate ck sd t now d64 = some wb) {client : StratumInstance}
    {coinb2 nonce2hex nonce2 noncehex : Bytes} {nonce : UInt32}
    (hcoinb2 : userCoinb2 ck wb client.txnbin = some coinb2)
    (hnonce2 : hex2bin nonce2hex wb.enonce2varlen = some nonce2)
    (hnonce : hex2bin noncehex 4 = some (beBytes 4 nonce.toNat))
    (ntime versionField : UInt32) (fullVersion : Bool) :
    ∃ prevHash, t.prevBlock = some prevHash ∧
      ∀ coinbase header,
        coinbase = wb.coinb1bin ++ client.enonce1bin.take (wb.enonce1constlen + wb.enonce1varlen) ++
          nonce2 ++ coinb2 →
        header = wireHeader (if fullVersion then versionField else wb.version ||| versionField)
          prevHash (sv2MerkleRootFromPath (genHash coinbase) wb.merklebin) ntime t.nbits nonce →
        submissionDiff ck client wb nonce2hex ntime versionField fullVersion noncehex =
          some { coinbase := coinbase, swap := header, hash := genHash header } := by
  obtain ⟨b, txns, hb, -, hwbeq⟩ := blockUpdate_eq_some hwb
  obtain ⟨prev, nbit, hprev, hnbit, hheaderbin⟩ := headerbin_eq hb ck sd txns now d64
  obtain ⟨prevHash, hprevHash, hprevBytes⟩ := GbtTemplate.prevBlock_eq hprev
  rw [← hwbeq] at hheaderbin
  refine ⟨prevHash, hprevHash, ?_⟩
  intro coinbase header hcoinbase hheader
  have hversion : wb.version = t.version := by
    rw [hwbeq]
    exact (genGbtbase_eq_some hb).1
  have hprevLen := (hex2bin_length hprev).1
  have hprevWords : flipWords (swap256 prev) = prevHash.bytes := by
    rw [swap256, List.take_of_length_le hprevLen.le, flipWords_reverseWords _ (by rw [hprevLen]),
      hprevBytes]
  rw [hversion] at hheader
  exact submissionDiff_of_header hheaderbin (length_swap256 hprevLen) (hex2bin_length hnbit).1
    hprevWords (GbtTemplate.leBytes_nbits hnbit).symm hcoinb2 hnonce2 hnonce ntime versionField
    fullVersion hcoinbase hheader

/-! ### The callers' strings -/

theorem all_of_hex2bin {s x : Bytes} {n : Nat} (h : hex2bin s n = some x) :
    ∀ c ∈ s, (hexNibble c).isSome := by
  induction s, n using hex2bin.induct generalizing x with
  | case1 => simp
  | case2 c1 c2 s m ih =>
    simp only [hex2bin, Option.bind_eq_bind, Option.bind_eq_some_iff] at h
    obtain ⟨n1, h1, n2, h2, rest, hrest, -⟩ := h
    intro c hc
    rcases List.mem_cons.mp hc with rfl | hc
    · simp [h1]
    · rcases List.mem_cons.mp hc with rfl | hc
      · simp [h2]
      · exact ih hrest c hc
  | case3 s m h1 h2 =>
    rw [hex2bin] at h
    · cases h
    · exact h1
    · exact h2

theorem validhex_bin2hex {p : Bytes} (h : 0 < p.length) : validhex (bin2hex p) = true := by
  have hpos : 0 < (bin2hex p).length := by
    rw [length_bin2hex]
    omega
  simp only [validhex, Bool.and_eq_true, Bool.not_eq_true', List.isEmpty_eq_false_iff, beq_iff_eq,
    List.all_eq_true, length_bin2hex]
  exact ⟨⟨List.ne_nil_of_length_pos hpos, by omega⟩, all_of_hex2bin (hex2bin_bin2hex p)⟩

/-- Whatever valid hex a client sends for `nonce2`, what is hashed decodes. -/
theorem hex2bin_fitNonce2 (wb : Workbase) {nonce2 : Bytes} (h : validhex nonce2 = true) :
    ∃ bin, hex2bin (fitNonce2 wb nonce2) wb.enonce2varlen = some bin := by
  simp only [validhex, Bool.and_eq_true, List.all_eq_true] at h
  have hlen : (fitNonce2 wb nonce2).length = 2 * wb.enonce2varlen := by
    simp only [fitNonce2]
    split
    · rw [List.length_take]
      omega
    · rw [List.length_append, List.length_replicate]
      omega
  have hall : ∀ c ∈ fitNonce2 wb nonce2, (hexNibble c).isSome := by
    intro c hc
    simp only [fitNonce2] at hc
    split at hc
    · exact h.2 c (List.mem_of_mem_take hc)
    · rcases List.mem_append.mp hc with hc | hc
      · exact h.2 c hc
      · rw [List.eq_of_mem_replicate hc]
        rfl
  have hdec := hex2bin_isSome_of_all (by omega) hall
  rwa [hlen, Nat.mul_div_cancel_left _ (by omega : 0 < 2)] at hdec

/-- The first eight digits of a nonce are a 32-bit number. -/
theorem hex2bin_nonce {nonce : Bytes} (h : validhex nonce = true) (hlen : 8 ≤ nonce.length) :
    ∃ n : UInt32, hex2bin (nonce.take 8) 4 = some (beBytes 4 n.toNat) := by
  simp only [validhex, Bool.and_eq_true, List.all_eq_true] at h
  have htake : (nonce.take 8).length = 8 := by
    rw [List.length_take]
    omega
  obtain ⟨bin, hbin⟩ := hex2bin_isSome_of_all (by rw [htake]) fun c hc =>
    h.2 c (List.mem_of_mem_take hc)
  rw [htake] at hbin
  refine ⟨UInt32.ofNat (beNat bin), ?_⟩
  have hlen' := (hex2bin_length hbin).1
  have hlt : beNat bin < 2 ^ 32 := by
    have hlt := beNat_lt bin
    rw [hlen'] at hlt
    exact hlt
  have hspell := beBytes_beNat bin
  rw [hlen'] at hspell
  rw [hbin, UInt32.toNat_ofNat_of_lt' hlt, hspell]

/-- An extranonce of the right length is taken as it is. -/
theorem sv2Nonce2hex_bin2hex {wb : Workbase} {nonce2 : Bytes}
    (hlen : nonce2.length = wb.enonce2varlen)
    (hrange : 1 ≤ wb.enonce2varlen ∧ wb.enonce2varlen ≤ 31) :
    sv2Nonce2hex wb (bin2hex nonce2) = some (bin2hex nonce2) := by
  have hpos : 0 < nonce2.length := by omega
  have hne : bin2hex nonce2 ≠ [] := by
    apply List.ne_nil_of_length_pos
    rw [length_bin2hex]
    omega
  have hexpect : (bin2hex nonce2).length = min (max wb.enonce2varlen 1) 31 * 2 := by
    rw [length_bin2hex]
    omega
  rw [sv2Nonce2hex]
  simp only [if_pos hne, hexpect, validhex_bin2hex hpos, not_true, ne_eq, or_self, if_false]

theorem hex2bin_bin2hex_of_length {p : Bytes} {n : Nat} (h : p.length = n) :
    hex2bin (bin2hex p) n = some p := by
  rw [← h]
  exact hex2bin_bin2hex p

/-! ### The block -/

theorem varint_eq {txns : Nat} (h : txns < 2 ^ 32) :
    (if txns < 0xfd then bin2hex [UInt8.ofNat txns]
      else if txns ≤ 0xffff then [102, 100] ++ bin2hex (leBytes 2 txns)
      else [102, 101] ++ bin2hex (leBytes 4 txns)) = bin2hex (sv2WriteCompactSize txns) := by
  unfold sv2WriteCompactSize
  split_ifs
  · rfl
  · rfl
  · rfl
  · omega

/-- **The block of a submission**: the 80 bytes, the count of the template's
transactions plus one, the coinbase, and the template's transactions. -/
theorem processBlock_eq {ck : Ckpool} {sd : Sdata} {t : GbtTemplate} {now : Ts} {d64 : Nat}
    {wb : Workbase} (hwb : blockUpdate ck sd t now d64 = some wb) (coinbase : Bytes) {data : Bytes}
    (hdata : data.length = 80) (hash : Hash256) :
    ∃ bins, t.transactions.mapM GbtTxn.bin = some bins ∧
      ∃ n, hex2bin (processBlock wb coinbase data hash).gbtBlock n =
        some (data ++ sv2WriteCompactSize (t.transactions.length + 1) ++ coinbase ++
          bins.flatten) := by
  obtain ⟨b, txns, -, htxns, hwbeq⟩ := blockUpdate_eq_some hwb
  obtain ⟨hcount, bins, hbins, n, hn⟩ := wbMerkleBinTxns_eq_some htxns
  have hwbCount : wb.txns = t.transactions.length := by
    rw [hwbeq]
    exact hcount
  have hwbData : (if wb.txns ≠ 0 then wb.txnData else []) = txns.txnData := by
    split_ifs with h
    · rw [hwbeq]
      rfl
    · -- without transactions the string is empty
      have hnil : t.transactions = [] := List.length_eq_zero_iff.mp (by omega)
      rw [hnil] at hbins
      obtain rfl : [] = bins := Option.some.inj hbins
      have hx := (hex2bin_length hn).1
      simp only [List.flatten_nil, List.length_nil] at hx
      exact (List.length_eq_zero_iff.mp (by have := (hex2bin_length hn).2; omega)).symm
  have hlt : wb.txns + 1 < 2 ^ 32 := by
    have := t.transactions_lt
    have hmax : maxSockbuf = 64 * 1024 * 1024 := rfl
    omega
  refine ⟨bins, hbins, ?_⟩
  have hblock : (processBlock wb coinbase data hash).gbtBlock =
      bin2hex (data ++ sv2WriteCompactSize (t.transactions.length + 1) ++ coinbase) ++
        txns.txnData := by
    show bin2hex (data.take 80) ++ _ ++ bin2hex coinbase ++ _ = _
    rw [varint_eq hlt, hwbData, List.take_of_length_le hdata.le, bin2hex_append, bin2hex_append,
      hwbCount]
  rw [hblock]
  exact ⟨_, hex2bin_append (hex2bin_bin2hex _) hn⟩

/-! ### One header for both protocols, and for the block -/

/-- **A submission hashes the header of the wire, in both protocols, and a solved
one is that block.**  For every workbase of a template, client with a coinbase,
and `mining.submit` that is hashed at all, with mask `m`: the bytes hashed are the
wire header with version `wb.version ||| m`, the template's previous block and
bits, the plain fold of the branch over the coinbase, and the submitted time and
nonce.  SubmitShares with that full version and the same extranonce hashes the
same header; and `process_block` emits these 80 bytes, the template's count plus
one, the same coinbase and the template's transactions. -/
theorem submission_is_wire_header (ck : Ckpool) (sd : Sdata) (t : GbtTemplate) (now : Ts)
    (d64 : Nat) (wb : Workbase) (client : StratumInstance) (coinb2 nonce2hex noncehex : Bytes)
    (ntime m : UInt32) (hwb : blockUpdate ck sd t now d64 = some wb)
    (hcoinb2 : userCoinb2 ck wb client.txnbin = some coinb2) (hnonce2 : validhex nonce2hex = true)
    (hnonce : validhex noncehex = true) (hlen : 8 ≤ noncehex.length) :
    ∃ prevHash nonce2 nonce,
      t.prevBlock = some prevHash ∧
      hex2bin (fitNonce2 wb nonce2hex) wb.enonce2varlen = some nonce2 ∧
      hex2bin (noncehex.take 8) 4 = some (beBytes 4 nonce.toNat) ∧
      ∀ coinbase header,
        coinbase = wb.coinb1bin ++ client.enonce1bin.take (wb.enonce1constlen + wb.enonce1varlen) ++
          nonce2 ++ coinb2 →
        header = wireHeader (wb.version ||| m) prevHash
          (sv2MerkleRootFromPath (genHash coinbase) wb.merklebin) ntime t.nbits nonce →
        parseSubmit ck client wb nonce2hex ntime m noncehex =
            some { coinbase := coinbase, swap := header, hash := genHash header } ∧
          sv2SubmitShare ck client wb ntime nonce (wb.version ||| m) (bin2hex nonce2) =
            some { coinbase := coinbase, swap := header, hash := genHash header } ∧
          ∃ bins, t.transactions.mapM GbtTxn.bin = some bins ∧
            ∃ n, hex2bin (processBlock wb coinbase header (genHash header)).gbtBlock n =
              some (header ++ sv2WriteCompactSize (t.transactions.length + 1) ++ coinbase ++
                bins.flatten) := by
  obtain ⟨nonce2, hbin2⟩ := hex2bin_fitNonce2 wb hnonce2
  obtain ⟨nonce, hbin⟩ := hex2bin_nonce hnonce hlen
  obtain ⟨prevHash, hprevHash, hsv1⟩ := submissionDiff_eq hwb hcoinb2 hbin2 hbin ntime m false
  refine ⟨prevHash, nonce2, nonce, hprevHash, hbin2, hbin, ?_⟩
  rintro coinbase header hcoinbase hheader
  refine ⟨?_, ?_, ?_⟩
  · have hparse : parseSubmit ck client wb nonce2hex ntime m noncehex =
        submissionDiff ck client wb (fitNonce2 wb nonce2hex) ntime m false (noncehex.take 8) := by
      rw [parseSubmit, if_neg (not_not.mpr hnonce2),
        if_neg (not_or.mpr ⟨by omega, not_not.mpr hnonce⟩)]
    rw [hparse]
    exact hsv1 coinbase header hcoinbase hheader
  · have hrange : 1 ≤ wb.enonce2varlen ∧ wb.enonce2varlen ≤ 31 := by
      obtain ⟨b, txns, -, -, rfl⟩ := blockUpdate_eq_some hwb
      have := ck.nonce2_range
      show 1 ≤ ck.nonce2length ∧ ck.nonce2length ≤ 31
      omega
    have hlen2 := (hex2bin_length hbin2).1
    obtain ⟨prevHash', hprevHash', hsv2⟩ := submissionDiff_eq hwb hcoinb2
      (hex2bin_bin2hex_of_length hlen2) (hex2bin_fmt08x nonce) ntime (wb.version ||| m) true
    obtain rfl : prevHash = prevHash' := Option.some.inj (hprevHash.symm.trans hprevHash')
    rw [sv2SubmitShare, sv2Nonce2hex_bin2hex hlen2 hrange]
    exact hsv2 coinbase header hcoinbase hheader
  · exact processBlock_eq hwb coinbase (by rw [hheader, length_wireHeader]) (genHash header)

/-- A client of the solo pool of the examples. -/
def exampleClient : StratumInstance where
  enonce1bin := List.replicate 8 1
  txnbin := zeroHashScript.bin

example : (blockUpdate longCk exampleSd (emptyTemplate []) exampleNow 3125000).any fun wb =>
    (userCoinb2 longCk wb exampleClient.txnbin).isSome := by
  decide +kernel

/-- A share with a version mask, a short `nonce2` and upper-case digits. -/
theorem submission_is_wire_header_example :
    ∃ wb nonce2 nonce s,
      blockUpdate longCk exampleSd (emptyTemplate []) exampleNow 3125000 = some wb ∧
      parseSubmit longCk exampleClient wb [0x41, 0x42] 1700000100 0x1fffe000
        (List.replicate 8 0x43) = some s ∧
      sv2SubmitShare longCk exampleClient wb 1700000100 nonce (wb.version ||| 0x1fffe000)
        (bin2hex nonce2) = some s := by
  obtain ⟨wb, hwb⟩ := Option.isSome_iff_exists.mp (by decide +kernel :
    (blockUpdate longCk exampleSd (emptyTemplate []) exampleNow 3125000).isSome)
  obtain ⟨coinb2, hcoinb2⟩ : ∃ coinb2, userCoinb2 longCk wb exampleClient.txnbin = some coinb2 :=
    ⟨_, rfl⟩
  obtain ⟨prevHash, nonce2, nonce, -, -, -, hall⟩ := submission_is_wire_header longCk exampleSd
    (emptyTemplate []) exampleNow 3125000 wb exampleClient coinb2 [0x41, 0x42]
    (List.replicate 8 0x43) 1700000100 0x1fffe000 hwb hcoinb2 (by decide) (by decide) (by decide)
  obtain ⟨hsv1, hsv2, -⟩ := hall _ _ rfl rfl
  exact ⟨wb, nonce2, nonce, _, hwb, hsv1, hsv2⟩

end CashStratum
