/-
CashStratum/Workbase.lean

From a block template to the work the pool hands out: `gen_gbtbase`
(bitcoin.c), `wb_merkle_bin_txns`, `generate_coinbase` and `__generate_userwb`
(stratifier.c).

A template that `gen_gbtbase` accepts becomes a `Gbtbase`: header fields as the
hex strings the pool keeps, with the proof that each string spells a value of
the right width.  `generateCoinbase` stitches the coinbase from three buffers,
around the extranonce and, in solo mode, around the user's script, and fills the
cached header, which is kept word-swapped: `headerbin_eq` gives its fields.
-/
import CashStratum.LibCkpool
import CashStratum.Merkle
import CashStratum.Sv2Cb

namespace CashStratum

/-! ### Templates -/

/-- `validhex`. -/
def validhex (s : Bytes) : Bool :=
  !s.isEmpty && s.length % 2 == 0 && s.all fun c => (hexNibble c).isSome

/-- `MAX_GBT_FLAGS_LEN`. -/
def maxGbtFlagsLen : Nat := 32

/-- A transaction of a template: its hex data, and its `txid` (or `hash`, where
the template has no `txid`). -/
structure GbtTxn where
  data : Bytes
  txid : Bytes

/-- `MAX_SOCKBUF`: no reply of the node is longer. -/
def maxSockbuf : Nat := 64 * 1024 * 1024

/-- What the pool reads of a `getblocktemplate` result.  `coinbasevalue` is
`none` when it is absent or no unsigned number.  `bits` are the eight hex digits
the RPC documents; the pool does not check them.  The transactions came in one
reply, so there are fewer of them than it has bytes. -/
structure GbtTemplate where
  previousblockhash : Bytes
  target : Bytes
  bits : Bytes
  version : UInt32
  curtime : UInt32
  height : Nat
  coinbasevalue : Option UInt64
  flags : Bytes
  transactions : List GbtTxn
  bits_hex : ∃ nbit, hex2bin bits 4 = some nbit
  transactions_lt : transactions.length < maxSockbuf

/-- `gbtbase_t`: header fields as the hex strings the pool keeps, each of which
spells a value of its width. -/
structure Gbtbase where
  version : UInt32
  ntime32 : UInt32
  bbversion : Bytes
  prevhash : Bytes
  ntime : Bytes
  nbit : Bytes
  coinbasevalue : UInt64
  height : Nat
  flags : Bytes
  bbversion_eq : bbversion = fmt08x version
  prevhash_hex : ∃ bin, hex2bin prevhash 32 = some bin
  ntime_eq : ntime = fmt08x ntime32
  nbit_hex : ∃ bin, hex2bin nbit 4 = some bin
  flags_len : flags.length ≤ maxGbtFlagsLen * 2
  flags_hex : ∃ bin, hex2bin flags (flags.length / 2) = some bin

theorem length_swap256 {src : Bytes} (h : src.length = 32) : (swap256 src).length = 32 := by
  rw [swap256, List.take_of_length_le h.le, length_reverseWords _ (by omega), h]

theorem hex2bin_isSome_of_all {s : Bytes} (heven : s.length % 2 = 0)
    (h : ∀ c ∈ s, (hexNibble c).isSome) : ∃ bin, hex2bin s (s.length / 2) = some bin := by
  obtain ⟨n, hn⟩ : ∃ n, s.length = 2 * n := ⟨s.length / 2, by omega⟩
  have hdiv : s.length / 2 = n := by omega
  rw [hdiv]
  clear heven hdiv
  induction n generalizing s with
  | zero =>
    obtain rfl : s = [] := List.length_eq_zero_iff.mp (by omega)
    exact ⟨[], rfl⟩
  | succ n ih =>
    rcases s with - | ⟨c1, - | ⟨c2, s⟩⟩
    · simp at hn
    · simp at hn
      omega
    · obtain ⟨n1, h1⟩ := Option.isSome_iff_exists.mp (h c1 (by simp))
      obtain ⟨n2, h2⟩ := Option.isSome_iff_exists.mp (h c2 (by simp))
      simp only [List.length_cons] at hn
      obtain ⟨rest, hrest⟩ := ih (s := s) (fun c hc => h c (by simp [hc])) (by omega)
      exact ⟨((n1 <<< 4) ||| n2) :: rest, by simp [hex2bin, h1, h2, hrest]⟩

/-- The flags `gen_gbtbase` keeps: oversized or invalid ones are discarded. -/
def keptFlags (flags : Bytes) : Bytes :=
  if flags ≠ [] ∧ (flags.length > maxGbtFlagsLen * 2 ∨ ¬validhex flags) then [] else flags

theorem keptFlags_spec (flags : Bytes) :
    (keptFlags flags).length ≤ maxGbtFlagsLen * 2 ∧
      ∃ bin, hex2bin (keptFlags flags) ((keptFlags flags).length / 2) = some bin := by
  unfold keptFlags
  split_ifs with h
  · exact ⟨by simp, [], rfl⟩
  · rcases eq_or_ne flags [] with rfl | hne
    · exact ⟨by simp, [], rfl⟩
    · simp only [ne_eq, hne, not_false_eq_true, true_and, not_or, not_lt, not_not] at h
      obtain ⟨hlen, hvalid⟩ := h
      simp only [validhex, Bool.and_eq_true, beq_iff_eq, List.all_eq_true] at hvalid
      exact ⟨hlen, hex2bin_isSome_of_all hvalid.1.2 hvalid.2⟩

/-- `bits` fits the nine bytes of `nbit`. -/
theorem GbtTemplate.bits_take (t : GbtTemplate) : t.bits.take 8 = t.bits := by
  obtain ⟨nbit, h⟩ := t.bits_hex
  rw [List.take_of_length_le (hex2bin_length h).2.le]

/-- `gen_gbtbase`, from the template on; `none` is the `false` return.  `nbit` is
the first eight characters of `bits`. -/
def genGbtbase (t : GbtTemplate) : Option Gbtbase :=
  if t.version = 0 ∨ t.curtime = 0 then none
  else
    match t.coinbasevalue, hprev : hex2bin t.previousblockhash 32, hex2bin t.target 32 with
    | some coinbasevalue, some hashSwap, some _ =>
      some
        { version := t.version
          ntime32 := t.curtime
          bbversion := fmt08x t.version
          prevhash := bin2hex (swap256 hashSwap)
          ntime := fmt08x t.curtime
          nbit := t.bits.take 8
          coinbasevalue := coinbasevalue
          height := t.height
          flags := keptFlags t.flags
          bbversion_eq := rfl
          prevhash_hex := by
            have h := hex2bin_bin2hex (swap256 hashSwap)
            rw [length_swap256 (hex2bin_length hprev).1] at h
            exact ⟨_, h⟩
          ntime_eq := rfl
          nbit_hex := by
            rw [t.bits_take]
            exact t.bits_hex
          flags_len := (keptFlags_spec t.flags).1
          flags_hex := (keptFlags_spec t.flags).2 }
    | _, _, _ => none

/-! ### Transactions of a template -/

/-- What `wb_merkle_bin_txns` leaves in the workbase. -/
structure WbTxns where
  txns : Nat
  txnData : Bytes
  merklebin : List Hash256

/-- The id of one transaction as a merkle leaf: `hex2bin`, then `bswap_256`. -/
def txnLeaf (txn : GbtTxn) : Option Hash256 :=
  if txn.txid.length ≠ 64 ∨ ¬validhex txn.txid then none
  else
    match h : hex2bin txn.txid 32 with
    | some bin => some ⟨bin.reverse, by rw [List.length_reverse]; exact (hex2bin_length h).1⟩
    | none => none

/-- `INT_MAX`. -/
def intMax : Nat := 2 ^ 31 - 1

/-- `wb_merkle_bin_txns`: `none` is a workbase left `incomplete`, which
`block_update` discards.  The leaves are hashed behind a zero leaf for the
coinbase, in a buffer with one spare slot. -/
def wbMerkleBinTxns (transactions : List GbtTxn) : Option WbTxns := do
  if transactions.length > intMax then none
  else if transactions.any fun txn => !validhex txn.data then none
  else do
    let leaves ← transactions.mapM txnLeaf
    let merklebin ← cashstratumMerkleBranch (Hash256.zero :: leaves ++ [Hash256.zero])
      (transactions.length + 1)
    some
      { txns := transactions.length
        txnData := (transactions.map GbtTxn.data).flatten
        merklebin := merklebin }

/-! ### The coinbase -/

/-- A payout script as the stratifier stores it: `txnbin[48]` and `txnlen`. -/
structure TxnScript where
  bin : Bytes
  len_pos : 0 < bin.length
  len_le : bin.length ≤ 48

/-- The configuration that work and submissions read, within the bounds
`ckpool.c` enforces.  `poolfee` says that a fee percentage above zero is configured. -/
structure Ckpool where
  regtest : Bool
  nonce1length : Nat
  nonce2length : Nat
  btcsig : Bytes
  btcsolo : Bool
  poolvalid : Bool
  poolfee : Bool
  versionMask : UInt32
  nonce1_range : 2 ≤ nonce1length ∧ nonce1length ≤ 8
  nonce2_range : 2 ≤ nonce2length ∧ nonce2length ≤ 8
  btcsig_len : btcsig.length ≤ 38

/-- The pool's own scripts. -/
structure Sdata where
  txnbin : TxnScript
  pooltxnbin : TxnScript

/-- `ts_realtime`, as the two `int32_t` that `ser_number` receives. -/
structure Ts where
  tvSec : Int
  tvNsec : Int

/-- `workbase_t`: what submissions, notifications and blocks read of it.
`coinb3bin` is empty outside solo mode, where it is already part of
`coinb2bin`. -/
structure Workbase where
  version : UInt32
  ntime32 : UInt32
  nbit : Bytes
  height : Nat
  txns : Nat
  txnData : Bytes
  merklebin : List Hash256
  coinb1bin : Bytes
  enonce1constlen : Nat
  enonce1varlen : Nat
  enonce2varlen : Nat
  coinb2bin : Bytes
  coinb3bin : Bytes
  headerbin : Bytes

/-- `scriptsig_header_bin`: version 1, one input, the null previous output. -/
def scriptsigHeaderBin : Bytes := leBytes 4 1 ++ [0x01] ++ nullPrevout

/-- The leading bytes of the height: `do { … } while (h)`. -/
def heightBytes (h : Nat) : Bytes :=
  UInt8.ofNat (h % 256) :: if h / 256 = 0 then [] else heightBytes (h / 256)
termination_by h
decreasing_by omega

/-- `ser_bip34_height`. -/
def serBip34Height (height : Nat) : Bytes :=
  if height = 0 then [0x00]
  else if height ≤ 16 then [UInt8.ofNat (0x50 + height)]
  else
    let tmp := heightBytes height
    let tmp := if tmp.getLastD 0 &&& 0x80 ≠ 0 then tmp ++ [0x00] else tmp
    UInt8.ofNat tmp.length :: tmp

/-- The height push at the start of the scriptSig. -/
def heightPush (ck : Ckpool) (height : Nat) : Bytes :=
  if ck.regtest then serBip34Height height else serNumber height

/-- The flags: a length byte, and the bytes decoded into the zeroed buffer. -/
def flagsBin (flags : Bytes) : Bytes :=
  let len := min (flags.length / 2) maxGbtFlagsLen
  (hex2bin (flags.take (2 * len)) len).getD (List.replicate len 0)

/-- `coinb1bin` behind the script length byte. -/
def coinb1Script (ck : Ckpool) (b : Gbtbase) (now : Ts) : Bytes :=
  heightPush ck b.height ++ UInt8.ofNat (flagsBin b.flags).length :: flagsBin b.flags ++
    serNumber now.tvSec ++ serNumber now.tvNsec ++
    [UInt8.ofNat (ck.nonce1length + ck.nonce2length)]

/-- The operator's signature push, if one is configured. -/
def sigPush (ck : Ckpool) : Bytes :=
  if ck.btcsig.length = 0 then [] else UInt8.ofNat ck.btcsig.length :: ck.btcsig

/-- Whether `generate_coinbase` pays the pool fee in an output of its own. -/
def paysFee (ck : Ckpool) (d64 : Nat) : Bool := ck.poolvalid && ck.poolfee && !(d64 < 546)

/-- `coinb3bin`: the fee output and the blank lock time. -/
def coinb3 (ck : Ckpool) (sd : Sdata) (d64 : Nat) : Bytes :=
  (if paysFee ck d64 then
    leBytes 8 d64 ++ UInt8.ofNat sd.pooltxnbin.bin.length :: sd.pooltxnbin.bin else []) ++
  List.replicate 4 0

/-- `workpadding`. -/
def workpadding : Bytes :=
  bin2hex ([0x00, 0x00, 0x00, 0x80] ++ List.replicate 40 0 ++ [0x80, 0x02, 0x00, 0x00])

/-- The header text: `header[224] = 0` cuts it to 112 bytes. -/
def headerHex (b : Gbtbase) : Bytes :=
  (b.bbversion ++ b.prevhash ++ List.replicate 64 48 ++ b.ntime ++ b.nbit ++ List.replicate 8 48 ++
    workpadding).take 224

/-- `generate_coinbase`, on a workbase of `block_update` (`insert_witness` is
false there).  `d64` is the fee in satoshis that the configured percentage of
the generation value comes to. -/
def generateCoinbase (ck : Ckpool) (sd : Sdata) (b : Gbtbase) (txns : WbTxns) (now : Ts)
    (d64 : Nat) : Workbase :=
  let coinb1 := coinb1Script ck b now
  let len := 1 + coinb1.length + ck.nonce1length + ck.nonce2length + (sigPush ck).length
  let g64 := if paysFee ck d64 then b.coinbasevalue.toNat - d64 else b.coinbasevalue.toNat
  let count : UInt8 := if paysFee ck d64 then 2 else 1
  let coinb2 := sigPush ck ++ List.replicate 4 0xff ++ [count] ++ leBytes 8 g64
  { version := b.version
    ntime32 := b.ntime32
    nbit := b.nbit
    height := b.height
    txns := txns.txns
    txnData := txns.txnData
    merklebin := txns.merklebin
    coinb1bin := scriptsigHeaderBin ++ UInt8.ofNat (len - 1) :: coinb1
    enonce1constlen := 0
    enonce1varlen := ck.nonce1length
    enonce2varlen := ck.nonce2length
    coinb2bin :=
      if ck.btcsolo then coinb2
      else coinb2 ++ UInt8.ofNat sd.txnbin.bin.length :: sd.txnbin.bin ++ coinb3 ck sd d64
    coinb3bin := if ck.btcsolo then coinb3 ck sd d64 else []
    headerbin := (hex2bin (headerHex b) 112).getD (List.replicate 112 0) }

/-- `__generate_userwb`: the `coinb2` of a user, or `none` for a user without a
payout script. -/
def generateUserwb (wb : Workbase) (txnbin : Bytes) : Option Bytes :=
  if txnbin.length = 0 then none
  else some (wb.coinb2bin ++ UInt8.ofNat txnbin.length :: txnbin ++ wb.coinb3bin)

/-- `__user_coinb2`, for a client whose user script is `txnbin`. -/
def userCoinb2 (ck : Ckpool) (wb : Workbase) (txnbin : Bytes) : Option Bytes :=
  if ck.btcsolo then generateUserwb wb txnbin else some wb.coinb2bin

/-- The workbase `block_update` makes of a template. -/
def blockUpdate (ck : Ckpool) (sd : Sdata) (t : GbtTemplate) (now : Ts) (d64 : Nat) :
    Option Workbase := do
  let b ← genGbtbase t
  let txns ← wbMerkleBinTxns t.transactions
  some (generateCoinbase ck sd b txns now d64)

/-! ### What a workbase is made of -/

/-- What `block_update` builds its workbase from. -/
theorem blockUpdate_eq_some {ck : Ckpool} {sd : Sdata} {t : GbtTemplate} {now : Ts} {d64 : Nat}
    {wb : Workbase} (h : blockUpdate ck sd t now d64 = some wb) :
    ∃ b txns, genGbtbase t = some b ∧ wbMerkleBinTxns t.transactions = some txns ∧
      wb = generateCoinbase ck sd b txns now d64 := by
  simp only [blockUpdate, Option.bind_eq_bind, Option.bind_eq_some_iff, Option.some.injEq] at h
  obtain ⟨b, hb, txns, htxns, rfl⟩ := h
  exact ⟨b, txns, hb, htxns, rfl⟩

/-- What a template leaves in the `gbtbase`. -/
theorem genGbtbase_eq_some {t : GbtTemplate} {b : Gbtbase} (h : genGbtbase t = some b) :
    b.version = t.version ∧ b.ntime32 = t.curtime ∧ b.nbit = t.bits.take 8 ∧
      t.coinbasevalue = some b.coinbasevalue ∧ b.height = t.height ∧
      b.flags = keptFlags t.flags ∧
      ∃ hashSwap, hex2bin t.previousblockhash 32 = some hashSwap ∧
        b.prevhash = bin2hex (swap256 hashSwap) := by
  rw [genGbtbase] at h
  split_ifs at h
  split at h
  · rename_i value hashSwap _ hvalue hprev _
    rw [Option.some.injEq] at h
    subst h
    exact ⟨rfl, rfl, rfl, hvalue, rfl, rfl, hashSwap, hprev, rfl⟩
  · cases h

/-- The bytes of a transaction of a template. -/
def GbtTxn.bin (txn : GbtTxn) : Option Bytes := hex2bin txn.data (txn.data.length / 2)

/-- The transactions of accepted work decode, one after the other. -/
theorem wbMerkleBinTxns_eq_some {transactions : List GbtTxn} {txns : WbTxns}
    (h : wbMerkleBinTxns transactions = some txns) :
    txns.txns = transactions.length ∧ ∃ bins, transactions.mapM GbtTxn.bin = some bins ∧
      ∃ n, hex2bin txns.txnData n = some bins.flatten := by
  rw [wbMerkleBinTxns] at h
  split_ifs at h with hcount hdata
  simp only [Option.bind_eq_bind, Option.bind_eq_some_iff, Option.some.injEq] at h
  obtain ⟨leaves, -, merklebin, -, rfl⟩ := h
  refine ⟨rfl, ?_⟩
  simp only [List.any_eq_true, not_exists, not_and, Bool.not_eq_true', Bool.not_eq_false] at hdata
  clear hcount
  induction transactions with
  | nil => exact ⟨[], rfl, 0, rfl⟩
  | cons txn transactions ih =>
    have hvalid := hdata txn List.mem_cons_self
    simp only [validhex, Bool.and_eq_true, beq_iff_eq, List.all_eq_true] at hvalid
    obtain ⟨bin, hbin⟩ := hex2bin_isSome_of_all hvalid.1.2 hvalid.2
    obtain ⟨bins, hbins, n, hn⟩ := ih fun t ht => hdata t (List.mem_cons_of_mem _ ht)
    refine ⟨bin :: bins, ?_, _, hex2bin_append hbin hn⟩
    have htxn : txn.bin = some bin := hbin
    rw [List.mapM_cons, htxn, hbins]
    rfl

/-- The branch of accepted work has at most `GENWORK_MAX_MERKLE_DEPTH` nodes. -/
theorem length_merklebin_le {transactions : List GbtTxn} {txns : WbTxns}
    (h : wbMerkleBinTxns transactions = some txns) :
    txns.merklebin.length ≤ genworkMaxMerkleDepth := by
  rw [wbMerkleBinTxns] at h
  split_ifs at h
  simp only [Option.bind_eq_bind, Option.bind_eq_some_iff, Option.some.injEq] at h
  obtain ⟨leaves, -, merklebin, hbranch, rfl⟩ := h
  exact length_cashstratumMerkleBranch hbranch

/-- The word-swapped layout of a header: every field big endian. -/
def swappedHeader (version prevhash merkleRoot ntime nbit nonce : Bytes) : Bytes :=
  version ++ (prevhash ++ (merkleRoot ++ (ntime ++ (nbit ++ nonce))))

/-- The header text of these fields decodes to their layout. -/
theorem take_hex2bin_header (version ntime : UInt32) {prevhash prev nbit nbitbin : Bytes}
    (hprev : hex2bin prevhash 32 = some prev) (hnbit : hex2bin nbit 4 = some nbitbin) :
    ((hex2bin ((fmt08x version ++ prevhash ++ List.replicate 64 48 ++ fmt08x ntime ++ nbit ++
        List.replicate 8 48 ++ workpadding).take 224) 112).getD (List.replicate 112 0)).take 80 =
      swappedHeader (beBytes 4 version.toNat) prev (List.replicate 32 0) (beBytes 4 ntime.toNat)
        nbitbin (List.replicate 4 0) := by
  have hroot : hex2bin (List.replicate 64 48) 32 = some (List.replicate 32 0) := rfl
  have hnonce : hex2bin (List.replicate 8 48) 4 = some (List.replicate 4 0) := rfl
  obtain ⟨pad, hpad⟩ : ∃ pad, hex2bin (workpadding.take 64) 32 = some pad := ⟨_, rfl⟩
  -- the seven strings, decoded one by one
  have hhex := hex2bin_append (hex2bin_fmt08x version) (hex2bin_append hprev (hex2bin_append hroot
    (hex2bin_append (hex2bin_fmt08x ntime) (hex2bin_append hnbit hnonce))))
  have hall := hex2bin_append hhex hpad
  have hheader : (fmt08x version ++ prevhash ++ List.replicate 64 48 ++ fmt08x ntime ++ nbit ++
      List.replicate 8 48 ++ workpadding).take 224 = fmt08x version ++ (prevhash ++
        (List.replicate 64 48 ++ (fmt08x ntime ++ (nbit ++ List.replicate 8 48)))) ++
          workpadding.take 64 := by
    have hlen := (hex2bin_length hhex).2
    simp only [List.append_assoc] at hlen ⊢
    simp only [← List.append_assoc] at hlen ⊢
    rw [List.take_append, hlen, List.take_of_length_le (by omega)]
  rw [hheader, hall, Option.getD_some]
  exact List.take_left' (hex2bin_length hhex).1

/-- The cached header of a workbase. -/
theorem headerbin_eq {t : GbtTemplate} {b : Gbtbase} (h : genGbtbase t = some b) (ck : Ckpool)
    (sd : Sdata) (txns : WbTxns) (now : Ts) (d64 : Nat) :
    ∃ prev nbit, hex2bin t.previousblockhash 32 = some prev ∧ hex2bin t.bits 4 = some nbit ∧
      (generateCoinbase ck sd b txns now d64).headerbin.take 80 =
        swappedHeader (beBytes 4 t.version.toNat) (swap256 prev) (List.replicate 32 0)
          (beBytes 4 t.curtime.toNat) nbit (List.replicate 4 0) := by
  obtain ⟨hversion, hntime, hnbit, -, -, -, prev, hprev, hprevhash⟩ := genGbtbase_eq_some h
  obtain ⟨nbit, hbits⟩ := t.bits_hex
  refine ⟨prev, nbit, hprev, hbits, ?_⟩
  have hswap : hex2bin (bin2hex (swap256 prev)) 32 = some (swap256 prev) := by
    have hlen := length_swap256 (hex2bin_length hprev).1
    have := hex2bin_bin2hex (swap256 prev)
    rwa [hlen] at this
  have hbin : (generateCoinbase ck sd b txns now d64).headerbin =
      (hex2bin (headerHex b) 112).getD (List.replicate 112 0) := rfl
  rw [hbin, headerHex, b.bbversion_eq, hversion, hprevhash, b.ntime_eq, hntime, hnbit, t.bits_take]
  exact take_hex2bin_header t.version t.curtime hswap hbits

/-! ### A pool for examples -/

/-- A pool with the longest extranonce and signature the configuration takes. -/
def longCk : Ckpool where
  regtest := false
  nonce1length := 8
  nonce2length := 8
  btcsig := List.replicate 38 0x2a
  btcsolo := true
  poolvalid := true
  poolfee := true
  versionMask := 0x1fffe000
  nonce1_range := by decide
  nonce2_range := by decide
  btcsig_len := by decide

/-- A pay-to-public-key-hash script of the zero hash. -/
def zeroHashScript : TxnScript where
  bin := [0x76, 0xa9, 0x14] ++ List.replicate 20 0 ++ [0x88, 0xac]
  len_pos := by decide
  len_le := by decide

/-- The pool's scripts of the examples. -/
def exampleSd : Sdata where
  txnbin := zeroHashScript
  pooltxnbin := zeroHashScript

/-- A template without transactions, with the given flags. -/
def emptyTemplate (flags : Bytes) : GbtTemplate where
  previousblockhash := List.replicate 64 0x31
  target := List.replicate 64 0x30
  bits := [0x31, 0x64, 0x30, 0x30, 0x66, 0x66, 0x66, 0x66]
  version := 0x20000000
  curtime := 1700000000
  height := 900000
  coinbasevalue := some 312500000
  flags := flags
  transactions := []
  bits_hex := ⟨[0x1d, 0x00, 0xff, 0xff], by decide⟩
  transactions_lt := by decide

/-- A clock in 2023. -/
def exampleNow : Ts where
  tvSec := 1700000000
  tvNsec := 123456789

end CashStratum
