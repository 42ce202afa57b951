/-
CashStratum/Coinbase.lean

The coinbase the pool hands out is one transaction.  `coinbase_finality`
(coinbase_final.c) is embedded first; `IsPoolCoinbase` then says what a pool
coinbase must be: one null input with a scriptSig within the consensus limit,
which starts with the height and carries the extranonce as one push, outputs
that share out the template's value, and finality.

`assembled_eq` writes `coinb1 || enonce1 || nonce2 || coinb2` along the parts of
a one-input transaction (`txWalk_parts`), for shared and for solo work.  The one
thing `generate_coinbase` does not ensure is the limit of 100 scriptSig bytes:
`poolCoinbase_iff` says that the coinbase is as promised exactly when
`scriptSigLen` is within it.
-/
import CashStratum.Workbase

namespace CashStratum

/-! ### coinbase_final.c -/

/-- `coinbase_final_t`. -/
inductive CoinbaseFinal where
  | final
  | nonfinal
  | unknown
  | malformed
  deriving DecidableEq, Repr

/-- `le32_at`. -/
def le32At (p : Bytes) (ofs : Nat) : Nat := leNat ((p.drop ofs).take 4)

/-- `coinbase_finality`: the class, and the sequence and lock time it read. -/
def coinbaseFinality (coinbase : Bytes) (height : Int) : CoinbaseFinal × Nat × Nat :=
  let cblen := coinbase.length
  if cblen < 42 + 8 then (.malformed, 0, 0)
  else
    let scriptlen := (coinbase.getD 41 0).toNat
    if scriptlen ≥ 0xfd then (.malformed, 0, 0)
    else
      let seqOfs := 42 + scriptlen
      if seqOfs + 8 > cblen then (.malformed, 0, 0)
      else
        let seq := le32At coinbase seqOfs
        let locktime := le32At coinbase (cblen - 4)
        if locktime = 0 then (.final, seq, locktime)
        else if seq = 0xffffffff then (.final, seq, locktime)
        else if locktime < 500000000 then
          (if (locktime : Int) < height then .final else .nonfinal, seq, locktime)
        else (.unknown, seq, locktime)

/-! ### What a pool coinbase is -/

/-- A serialised output. -/
def txOut (value : Nat) (script : Bytes) : Bytes :=
  leBytes 8 value ++ UInt8.ofNat script.length :: script

/-- A serialised list of outputs: a count byte, then the outputs. -/
def txOuts (outs : List (Nat × Bytes)) : Bytes :=
  UInt8.ofNat outs.length :: (outs.map fun o => txOut o.1 o.2).flatten

/-- A coinbase as the pool promises it: one transaction with nothing behind it,
with one null-prevout input of sequence ffffffff, lock time 0 and the outputs
`outs`; its scriptSig has at most 100 bytes (as its length byte says), starts
with the minimal push of the height, and goes on with complete pushes, one of
which is the extranonce; and it is classified as final. -/
def IsPoolCoinbase (coinbase : Bytes) (height : Nat) (extranonce : Bytes)
    (outs : List (Nat × Bytes)) : Prop :=
  ∃ (height_ : Bytes) (pushes : List Bytes) (scriptSig : Bytes),
    scriptSig = height_ ++ (pushes.map pushData).flatten ∧
    scriptSig.length ≤ sv2CbMaxScriptsig ∧
    IsMinimalPush height_ height ∧
    (∀ data ∈ pushes, data.length ≤ 75) ∧
    extranonce ∈ pushes ∧
    coinbase = leBytes 4 1 ++ 1 :: (coinbaseInput scriptSig 0xffffffff ++
      (txOuts outs ++ leBytes 4 0)) ∧
    (∃ w, txWalk coinbase = some w ∧ w.witness = false ∧ w.txLen coinbase = coinbase.length) ∧
    (coinbaseFinality coinbase height).1 = .final

/-- The bytes of the scriptSig, from the configuration, the template and the
clock: height, flags, seconds, nanoseconds, extranonce and signature, each with
its length byte. -/
def scriptSigLen (ck : Ckpool) (t : GbtTemplate) (now : Ts) : Nat :=
  (1 + serNumberLen t.height) + (1 + (keptFlags t.flags).length / 2) +
    (1 + serNumberLen now.tvSec) + (1 + serNumberLen now.tvNsec) +
    (1 + (ck.nonce1length + ck.nonce2length)) +
    (if ck.btcsig.length = 0 then 0 else 1 + ck.btcsig.length)

/-- The script output 0 pays: the user's in solo mode, the pool's otherwise. -/
def payScript (ck : Ckpool) (sd : Sdata) (user : TxnScript) : TxnScript :=
  if ck.btcsolo then user else sd.txnbin

/-- The outputs of the coinbase. -/
def coinbaseOuts (ck : Ckpool) (sd : Sdata) (user : TxnScript) (value d64 : Nat) :
    List (Nat × Bytes) :=
  if paysFee ck d64 then
    [(value - d64, (payScript ck sd user).bin), (d64, sd.pooltxnbin.bin)]
  else [(value, (payScript ck sd user).bin)]

/-! ### The height push -/

set_option maxRecDepth 20000 in
theorem topBit_table : ∀ n < 256, (UInt8.ofNat n &&& 0x80 ≠ 0 ↔ 128 ≤ n) := by
  decide

theorem heightBytes_lt {h : Nat} (hlt : h < 256) : heightBytes h = [UInt8.ofNat h] := by
  rw [heightBytes, if_pos (by omega), Nat.mod_eq_of_lt hlt]

theorem heightBytes_step {h : Nat} (hle : 256 ≤ h) :
    heightBytes h = UInt8.ofNat (h % 256) :: heightBytes (h / 256) := by
  conv_lhs => rw [heightBytes]
  rw [if_neg (by omega)]

theorem ofNat_mod_256 (n : Nat) : UInt8.ofNat (n % 256) = UInt8.ofNat n := by
  apply UInt8.toNat_inj.mp
  rw [UInt8.toNat_ofNat', UInt8.toNat_ofNat']
  omega

/-- The bytes of a number between `256 ^ k` and `256 ^ (k + 1)`. -/
theorem heightBytes_eq (k : Nat) {h : Nat} (hle : k = 0 ∨ 256 ^ k ≤ h) (hlt : h < 256 ^ (k + 1)) :
    heightBytes h = leBytes (k + 1) h := by
  induction k generalizing h with
  | zero =>
    rw [heightBytes_lt (by simpa using hlt)]
    simp [leBytes]
  | succ k ih =>
    have hpow : 256 ^ (k + 1) ≤ h := by simpa using hle
    have hbig : 256 ≤ h := le_trans (Nat.le_self_pow (by omega) 256) hpow
    rw [pow_succ] at hpow hlt
    have hrest := ih (h := h / 256) (Or.inr ((Nat.le_div_iff_mul_le (by omega)).mpr hpow))
      (Nat.div_lt_of_lt_mul (by rwa [Nat.mul_comm] at hlt))
    rw [heightBytes_step hbig, hrest, ofNat_mod_256]
    rfl

/-- The sign byte `ser_bip34_height` appends. -/
theorem serBip34Height_eq_pushData {k h : Nat} (h17 : 17 ≤ h) (hle : k = 0 ∨ 256 ^ k ≤ h)
    (hlt : h < 256 ^ (k + 1)) :
    serBip34Height h =
      if 128 ≤ h / 256 ^ k then pushData (leBytes (k + 2) h) else pushData (leBytes (k + 1) h) := by
  have hdiv : h / 256 ^ k < 256 := Nat.div_lt_of_lt_mul (by rwa [← pow_succ])
  have htop := topBit_table (h / 256 ^ k) hdiv
  have hzero : UInt8.ofNat (h / 256 ^ (k + 1)) = 0 := by
    rw [Nat.div_eq_of_lt hlt]
    rfl
  have hlast : (leBytes (k + 1) h).getLastD 0 = UInt8.ofNat (h / 256 ^ k) := by
    rw [leBytes_succ_last, List.getLastD_concat]
  rw [serBip34Height, if_neg (by omega), if_neg (by omega)]
  simp only [heightBytes_eq k hle hlt, hlast]
  by_cases h128 : 128 ≤ h / 256 ^ k
  · rw [if_pos (htop.mpr h128), if_pos h128, ← hzero, ← leBytes_succ_last, pushData]
  · rw [if_neg (fun e => h128 (htop.mp e)), if_neg h128, pushData]

/-- Both height serialisers write the same push. -/
theorem serBip34Height_eq_serNumber {h : Nat} (h17 : 17 ≤ h) (hlt : h < 2 ^ 31) :
    serBip34Height h = serNumber h := by
  have hmod : ((h : Int) % 2 ^ 32).toNat = h := by omega
  rw [serNumber_eq_pushData, hmod]
  have hk : ∀ k, (k = 0 ∨ 256 ^ k ≤ h) → h < 256 ^ (k + 1) →
      serNumberLen h = (if 128 ≤ h / 256 ^ k then k + 2 else k + 1) →
      serBip34Height h = pushData (leBytes (serNumberLen h) h) := by
    intro k hle hlt hlen
    rw [serBip34Height_eq_pushData h17 hle hlt, hlen]
    split_ifs <;> rfl
  rcases Nat.lt_or_ge h (256 ^ 1) with h1 | h1
  · refine hk 0 (Or.inl rfl) (by omega) ?_
    unfold serNumberLen
    split_ifs <;> omega
  · rcases Nat.lt_or_ge h (256 ^ 2) with h2 | h2
    · refine hk 1 (Or.inr h1) h2 ?_
      unfold serNumberLen
      split_ifs <;> omega
    · rcases Nat.lt_or_ge h (256 ^ 3) with h3 | h3
      · refine hk 2 (Or.inr h2) h3 ?_
        unfold serNumberLen
        split_ifs <;> omega
      · refine hk 3 (Or.inr h3) (by omega) ?_
        unfold serNumberLen
        split_ifs <;> omega

theorem heightPush_eq (ck : Ckpool) {h : Nat} (h17 : 17 ≤ h) (hlt : h < 2 ^ 31) :
    heightPush ck h = serNumber h := by
  rw [heightPush]
  split
  · exact serBip34Height_eq_serNumber h17 hlt
  · rfl

/-! ### The assembled coinbase -/

/-- The pushes behind the height: flags, clock, extranonce and signature. -/
def coinbasePushes (ck : Ckpool) (flags : Bytes) (now : Ts) (extranonce : Bytes) : List Bytes :=
  [flagsBin flags, leBytes (serNumberLen now.tvSec) (now.tvSec % 2 ^ 32).toNat,
    leBytes (serNumberLen now.tvNsec) (now.tvNsec % 2 ^ 32).toNat, extranonce] ++
  if ck.btcsig.length = 0 then [] else [ck.btcsig]

/-- The scriptSig of the coinbase. -/
def coinbaseScriptSig (ck : Ckpool) (t : GbtTemplate) (now : Ts) (extranonce : Bytes) : Bytes :=
  serNumber t.height ++
    ((coinbasePushes ck (keptFlags t.flags) now extranonce).map pushData).flatten

theorem length_flagsBin (t : GbtTemplate) :
    (flagsBin (keptFlags t.flags)).length = (keptFlags t.flags).length / 2 := by
  obtain ⟨hlen, bin, hbin⟩ := keptFlags_spec t.flags
  have hmin : min ((keptFlags t.flags).length / 2) maxGbtFlagsLen =
      (keptFlags t.flags).length / 2 := by omega
  have hlength := hex2bin_length hbin
  rw [flagsBin]
  simp only [hmin]
  rw [List.take_of_length_le hlength.2.le, hbin]
  exact hlength.1

theorem length_coinbaseScriptSig (ck : Ckpool) (t : GbtTemplate) (now : Ts) {extranonce : Bytes}
    (h : extranonce.length = ck.nonce1length + ck.nonce2length) :
    (coinbaseScriptSig ck t now extranonce).length = scriptSigLen ck t now := by
  have hsig : (((if ck.btcsig.length = 0 then [] else [ck.btcsig]).map pushData).flatten).length =
      if ck.btcsig.length = 0 then 0 else 1 + ck.btcsig.length := by
    split_ifs
    · rfl
    · simp [pushData, Nat.add_comm]
  simp only [coinbaseScriptSig, coinbasePushes, List.map_append, List.map_cons, List.map_nil,
    List.flatten_append, List.flatten_cons, List.flatten_nil, List.length_append, hsig, pushData,
    List.length_cons, List.length_nil, length_leBytes, length_flagsBin, h, length_serNumber,
    scriptSigLen]
  omega

/-- Nothing the configuration allows takes the scriptSig over 104 bytes. -/
theorem scriptSigLen_bound (ck : Ckpool) (t : GbtTemplate) (now : Ts) :
    scriptSigLen ck t now ≤ 104 := by
  have hheight := (serNumberLen_pos t.height).2
  have hsec := (serNumberLen_pos now.tvSec).2
  have hnsec := (serNumberLen_pos now.tvNsec).2
  have hflags : (keptFlags t.flags).length ≤ 32 * 2 := (keptFlags_spec t.flags).1
  have h1 := ck.nonce1_range.2
  have h2 := ck.nonce2_range.2
  have hsig := ck.btcsig_len
  unfold scriptSigLen
  split_ifs <;> omega

theorem coinbasePushes_length_le (ck : Ckpool) (t : GbtTemplate) (now : Ts) {extranonce : Bytes}
    (h : extranonce.length = ck.nonce1length + ck.nonce2length) :
    ∀ data ∈ coinbasePushes ck (keptFlags t.flags) now extranonce, data.length ≤ 75 := by
  have hflags : (keptFlags t.flags).length ≤ 32 * 2 := (keptFlags_spec t.flags).1
  have hsec := (serNumberLen_pos now.tvSec).2
  have hnsec := (serNumberLen_pos now.tvNsec).2
  have h1 := ck.nonce1_range.2
  have h2 := ck.nonce2_range.2
  have hsig := ck.btcsig_len
  intro data hdata
  simp only [coinbasePushes, List.cons_append, List.nil_append, List.mem_cons] at hdata
  rcases hdata with rfl | rfl | rfl | rfl | hdata
  · rw [length_flagsBin]
    omega
  · rw [length_leBytes]
    omega
  · rw [length_leBytes]
    omega
  · omega
  · split_ifs at hdata
    · simp at hdata
    · obtain rfl : data = ck.btcsig := by simpa using hdata
      omega

/-- **The four buffers make one transaction**, for shared and for solo work: the
bytes of a one-input transaction along its parts. -/
theorem assembled_eq {ck : Ckpool} {sd : Sdata} {user : TxnScript} {t : GbtTemplate} {now : Ts}
    {d64 : Nat} {wb : Workbase} {coinb2 enonce1 nonce2 : Bytes} {value : UInt64}
    (h17 : 17 ≤ t.height) (hmax : t.height < 2 ^ 31)
    (hwb : blockUpdate ck sd t now d64 = some wb) (hvalue : t.coinbasevalue = some value)
    (hcoinb2 : userCoinb2 ck wb user.bin = some coinb2)
    (hlen : (enonce1 ++ nonce2).length = ck.nonce1length + ck.nonce2length) :
    wb.coinb1bin ++ enonce1 ++ nonce2 ++ coinb2 =
      leBytes 4 1 ++ 1 :: (coinbaseInput (coinbaseScriptSig ck t now (enonce1 ++ nonce2)) 0xffffffff ++
        (txOuts (coinbaseOuts ck sd user value.toNat d64) ++ leBytes 4 0)) := by
  obtain ⟨b, txns, hb, -, rfl⟩ := blockUpdate_eq_some hwb
  obtain ⟨-, -, -, hbvalue, hheight, hflags, -⟩ := genGbtbase_eq_some hb
  obtain rfl : value = b.coinbasevalue := Option.some.inj (hvalue.symm.trans hbvalue)
  have hpush : heightPush ck b.height = serNumber t.height := by
    rw [hheight]
    exact heightPush_eq ck h17 hmax
  -- the length byte counts the scriptSig
  have hsig : sigPush ck =
      ((if ck.btcsig.length = 0 then [] else [ck.btcsig]).map pushData).flatten := by
    rw [sigPush]
    split_ifs <;> simp [pushData]
  have hscript : coinb1Script ck b now ++ (enonce1 ++ nonce2) ++ sigPush ck =
      coinbaseScriptSig ck t now (enonce1 ++ nonce2) := by
    rw [coinb1Script, coinbaseScriptSig, coinbasePushes, hpush, hflags, serNumber_eq_pushData now.tvSec,
      serNumber_eq_pushData now.tvNsec, hsig, List.map_append, List.flatten_append]
    simp only [pushData, List.map_cons, List.map_nil, List.flatten_cons, List.flatten_nil, hlen,
      List.append_assoc, List.cons_append, List.nil_append, List.append_nil]
  have hcount : 1 + (coinb1Script ck b now).length + ck.nonce1length + ck.nonce2length +
      (sigPush ck).length - 1 = (coinbaseScriptSig ck t now (enonce1 ++ nonce2)).length := by
    rw [← hscript, List.length_append, List.length_append, hlen]
    omega
  -- the outputs, with the script where the mode puts it
  have houts : (if paysFee ck d64 then (2 : UInt8) else 1) ::
      (leBytes 8 (if paysFee ck d64 then b.coinbasevalue.toNat - d64 else b.coinbasevalue.toNat) ++
        UInt8.ofNat (payScript ck sd user).bin.length :: (payScript ck sd user).bin ++
          coinb3 ck sd d64) =
      txOuts (coinbaseOuts ck sd user b.coinbasevalue.toNat d64) ++ leBytes 4 0 := by
    rw [coinb3, txOuts, coinbaseOuts]
    split_ifs <;>
      simp only [txOut, List.map_cons, List.map_nil, List.flatten_cons, List.flatten_nil,
        List.append_assoc, List.cons_append, List.nil_append, List.append_nil] <;> rfl
  have hcoinb2' : coinb2 = sigPush ck ++ (leBytes 4 0xffffffff ++
      (txOuts (coinbaseOuts ck sd user b.coinbasevalue.toNat d64) ++ leBytes 4 0)) := by
    rw [← houts]
    rw [userCoinb2] at hcoinb2
    by_cases hsolo : ck.btcsolo
    · have huser : user.bin.length ≠ 0 := user.len_pos.ne'
      simp only [hsolo, if_true, generateUserwb, if_neg huser, Option.some.injEq] at hcoinb2
      rw [← hcoinb2]
      simp only [generateCoinbase, payScript, hsolo, if_true, List.append_assoc, List.cons_append,
        List.nil_append]
      rfl
    · simp only [hsolo, Bool.false_eq_true, if_false, Option.some.injEq] at hcoinb2
      rw [← hcoinb2]
      simp only [generateCoinbase, payScript, hsolo, Bool.false_eq_true, if_false,
        List.append_assoc, List.cons_append, List.nil_append]
      rfl
  have hcoinb1 : (generateCoinbase ck sd b txns now d64).coinb1bin = scriptsigHeaderBin ++
      UInt8.ofNat (coinbaseScriptSig ck t now (enonce1 ++ nonce2)).length :: coinb1Script ck b now := by
    rw [← hcount]
    rfl
  rw [hcoinb1, hcoinb2', coinbaseInput, ← hscript, scriptsigHeaderBin]
  simp only [List.append_assoc, List.cons_append, List.nil_append]
  rfl

/-! ### What holds of every such transaction -/

/-- The scripts the pool pays fit a one-byte length. -/
theorem txOut_bytes (value : Nat) (script : TxnScript) : TxOutBytes (txOut value script.bin) := by
  have hlt : script.bin.length < 0xfd := by
    have := script.len_le
    omega
  have hc : SpellsCompactSize [UInt8.ofNat script.bin.length] script.bin.length := by
    have := spellsCompactSize_write (n := script.bin.length) (by omega)
    rwa [sv2WriteCompactSize, if_pos hlt] at this
  have h := TxOutBytes.mk (leBytes 8 value) _ script.bin (length_leBytes 8 value) hc
  simpa [txOut] using h

/-- The outputs of a coinbase are a blob the walker takes. -/
theorem coinbaseOuts_blob (ck : Ckpool) (sd : Sdata) (user : TxnScript) (value d64 : Nat) :
    OutputsBlob (txOuts (coinbaseOuts ck sd user value d64)) ∧
      9 ≤ (txOuts (coinbaseOuts ck sd user value d64)).length ∧
      (txOuts (coinbaseOuts ck sd user value d64)).length ≤ 115 := by
  have hpay := (payScript ck sd user).len_le
  have hpool := sd.pooltxnbin.len_le
  unfold coinbaseOuts txOuts
  split_ifs with hfee
  · refine ⟨?_, ?_, ?_⟩
    · refine OutputsBlob.mk [2] [txOut (value - d64) (payScript ck sd user).bin,
        txOut d64 sd.pooltxnbin.bin] rfl ?_
      intro o ho
      rcases List.mem_pair.mp ho with rfl | rfl
      · exact txOut_bytes _ _
      · exact txOut_bytes _ _
    all_goals
      simp only [List.map_cons, List.map_nil, List.flatten_cons, List.flatten_nil, txOut,
        List.length_cons, List.length_append, length_leBytes, List.length_nil]
      omega
  · refine ⟨?_, ?_, ?_⟩
    · refine OutputsBlob.mk [1] [txOut value (payScript ck sd user).bin] rfl ?_
      intro o ho
      obtain rfl := List.mem_singleton.mp ho
      exact txOut_bytes _ _
    all_goals
      simp only [List.map_cons, List.map_nil, List.flatten_cons, List.flatten_nil, txOut,
        List.length_cons, List.length_append, length_leBytes, List.length_nil]
      omega

/-- The length byte of the scriptSig stands at offset 41. -/
theorem getD_scriptlen (version : Nat) (scriptSig : Bytes) (nsequence : UInt32) (rest : Bytes) :
    (leBytes 4 version ++ 1 :: (coinbaseInput scriptSig nsequence ++ rest)).getD 41 0 =
      UInt8.ofNat scriptSig.length := by
  rw [coinbaseInput, nullPrevout]
  rfl

/-- A coinbase with a short scriptSig and lock time 0 is final. -/
theorem coinbaseFinality_final {scriptSig outs : Bytes} (hlt : scriptSig.length < 0xfd)
    (houts : 9 ≤ outs.length) (version : Nat) (nsequence : UInt32) (height : Int) :
    (coinbaseFinality (leBytes 4 version ++ 1 :: (coinbaseInput scriptSig nsequence ++
      (outs ++ leBytes 4 0))) height).1 = .final := by
  set coinbase := leBytes 4 version ++ 1 :: (coinbaseInput scriptSig nsequence ++
    (outs ++ leBytes 4 0)) with hcoinbase
  have hlength : coinbase.length = 42 + scriptSig.length + 4 + outs.length + 4 := by
    rw [hcoinbase, coinbaseInput]
    simp only [List.length_append, List.length_cons, List.length_nil, length_leBytes,
      length_nullPrevout]
    omega
  have hbyte : (coinbase.getD 41 0).toNat = scriptSig.length := by
    rw [hcoinbase, getD_scriptlen, UInt8.toNat_ofNat']
    omega
  have hlock : le32At coinbase (coinbase.length - 4) = 0 := by
    obtain ⟨body, hbody⟩ : ∃ body, coinbase = body ++ leBytes 4 0 :=
      ⟨leBytes 4 version ++ 1 :: (coinbaseInput scriptSig nsequence ++ outs), by
        rw [hcoinbase]
        simp only [List.append_assoc, List.cons_append]⟩
    have hdrop : coinbase.drop (coinbase.length - 4) = leBytes 4 0 := by
      rw [hbody, List.length_append, length_leBytes, Nat.add_sub_cancel]
      exact List.drop_left
    rw [le32At, hdrop]
    decide
  rw [coinbaseFinality]
  simp only [hbyte, hlock]
  rw [if_neg (by omega), if_neg (by omega), if_neg (by omega)]
  rfl

/-- The outputs as the pool promises them: they share out the template's value,
the first pays `pay`, and there is a second, which pays `d64` to the pool,
exactly when the fee is configured and not dust. -/
structure SharesOut (ck : Ckpool) (sd : Sdata) (pay : TxnScript) (value d64 : Nat)
    (outs : List (Nat × Bytes)) : Prop where
  sum_eq : (outs.map Prod.fst).sum = value
  first : ∃ v rest, outs = (v, pay.bin) :: rest
  second : outs.length = 2 ↔ ck.poolvalid ∧ ck.poolfee ∧ 546 ≤ d64
  count : outs.length = 1 ∨ outs.length = 2
  fee : ∀ o ∈ outs.drop 1, o = (d64, sd.pooltxnbin.bin)

theorem coinbaseOuts_sharesOut {ck : Ckpool} {sd : Sdata} {user : TxnScript} {value d64 : Nat}
    (h : d64 ≤ value) :
    SharesOut ck sd (payScript ck sd user) value d64 (coinbaseOuts ck sd user value d64) := by
  have hpays : paysFee ck d64 = true ↔ ck.poolvalid ∧ ck.poolfee ∧ 546 ≤ d64 := by
    simp [paysFee, and_assoc]
  unfold coinbaseOuts
  split_ifs with hfee
  · refine ⟨?_, ⟨_, _, rfl⟩, ?_, Or.inr rfl, ?_⟩
    · simp only [List.map_cons, List.map_nil, List.sum_cons, List.sum_nil]
      omega
    · simpa using hpays.mp hfee
    · intro o ho
      simpa using ho
  · refine ⟨by simp, ⟨_, _, rfl⟩, ?_, Or.inl rfl, ?_⟩
    · simp [← hpays, hfee]
    · intro o ho
      simp at ho

section Promise

variable {ck : Ckpool} {sd : Sdata} {user : TxnScript} {t : GbtTemplate} {now : Ts} {d64 : Nat}
  {wb : Workbase} {coinb2 enonce1 nonce2 : Bytes} {value : UInt64}

/-- A coinbase as promised has its scriptSig within the limit, whatever its
outputs: the length byte tells the length, which is below 256. -/
theorem IsPoolCoinbase.scriptSigLen_le {outs : List (Nat × Bytes)} (h17 : 17 ≤ t.height)
    (hmax : t.height < 2 ^ 31) (hwb : blockUpdate ck sd t now d64 = some wb)
    (hvalue : t.coinbasevalue = some value) (hcoinb2 : userCoinb2 ck wb user.bin = some coinb2)
    (hlen : (enonce1 ++ nonce2).length = ck.nonce1length + ck.nonce2length)
    (h : IsPoolCoinbase (wb.coinb1bin ++ enonce1 ++ nonce2 ++ coinb2) t.height
      (enonce1 ++ nonce2) outs) :
    scriptSigLen ck t now ≤ sv2CbMaxScriptsig := by
  obtain ⟨height_, pushes, scriptSig, -, hmaxLen, -, -, -, hbytes, -, -⟩ := h
  rw [assembled_eq h17 hmax hwb hvalue hcoinb2 hlen] at hbytes
  have hbyte := congrArg (fun tx : Bytes => (tx.getD 41 0).toNat) hbytes
  simp only [getD_scriptlen, UInt8.toNat_ofNat', length_coinbaseScriptSig ck t now hlen] at hbyte
  have hle := scriptSigLen_bound ck t now
  have h100 : sv2CbMaxScriptsig = 100 := rfl
  omega

/-- A coinbase whose scriptSig fits is as promised. -/
theorem isPoolCoinbase_of_scriptSigLen_le (h17 : 17 ≤ t.height)
    (hmax : t.height < 2 ^ 31) (hwb : blockUpdate ck sd t now d64 = some wb)
    (hvalue : t.coinbasevalue = some value) (hcoinb2 : userCoinb2 ck wb user.bin = some coinb2)
    (hlen : (enonce1 ++ nonce2).length = ck.nonce1length + ck.nonce2length)
    (hfits : scriptSigLen ck t now ≤ sv2CbMaxScriptsig) :
    IsPoolCoinbase (wb.coinb1bin ++ enonce1 ++ nonce2 ++ coinb2) t.height (enonce1 ++ nonce2)
      (coinbaseOuts ck sd user value.toNat d64) := by
  have hscript := length_coinbaseScriptSig ck t now hlen
  have h100 : sv2CbMaxScriptsig = 100 := rfl
  obtain ⟨hblob, hlong, hshort⟩ := coinbaseOuts_blob ck sd user value.toNat d64
  rw [assembled_eq h17 hmax hwb hvalue hcoinb2 hlen]
  refine ⟨serNumber t.height, _, coinbaseScriptSig ck t now (enonce1 ++ nonce2), rfl, ?_,
    serNumber_isMinimalPush t.height hmax, coinbasePushes_length_le ck t now hlen, ?_, rfl, ?_, ?_⟩
  · rw [hscript]
    exact hfits
  · simp [coinbasePushes]
  · have hinput := skipInput_coinbaseInput (coinbaseScriptSig ck t now (enonce1 ++ nonce2))
      (by omega) 0xffffffff
    have hwalk := txWalk_parts (length_leBytes 4 1) WitnessParts.legacy hinput hblob (by omega)
      (length_leBytes 4 0).ge
    simp only [List.append_nil, List.nil_append] at hwalk
    refine ⟨_, hwalk, rfl, ?_⟩
    simp only [TxWalk.txLen, List.length_append, List.length_cons, length_leBytes]
    omega
  · exact coinbaseFinality_final (by omega) hlong 1 0xffffffff t.height

end Promise

/-- **The coinbase is as promised exactly when its scriptSig fits.**  For every
template `block_update` turns into work, fee up to the template's value, clock,
configuration and extranonce of the configured lengths: `coinb1 || enonce1 ||
nonce2 || coinb2`, with the user's `coinb2` in solo mode, is one well-formed,
final coinbase that shares out the template's value if and only if the height,
the flags, the two clock numbers, the extranonce and the signature come to at
most 100 bytes of scriptSig. -/
theorem poolCoinbase_iff (ck : Ckpool) (sd : Sdata) (user : TxnScript) (t : GbtTemplate) (now : Ts)
    (d64 : Nat) (wb : Workbase) (coinb2 enonce1 nonce2 : Bytes) (value : UInt64)
    (h17 : 17 ≤ t.height) (hmax : t.height < 2 ^ 31)
    (hwb : blockUpdate ck sd t now d64 = some wb) (hvalue : t.coinbasevalue = some value)
    (hd64 : d64 ≤ value.toNat) (hcoinb2 : userCoinb2 ck wb user.bin = some coinb2)
    (henonce1 : enonce1.length = ck.nonce1length) (hnonce2 : nonce2.length = ck.nonce2length) :
    (∃ outs, IsPoolCoinbase (wb.coinb1bin ++ enonce1 ++ nonce2 ++ coinb2) t.height
        (enonce1 ++ nonce2) outs ∧
      SharesOut ck sd (payScript ck sd user) value.toNat d64 outs) ↔
    scriptSigLen ck t now ≤ sv2CbMaxScriptsig := by
  have hlen : (enonce1 ++ nonce2).length = ck.nonce1length + ck.nonce2length := by
    rw [List.length_append, henonce1, hnonce2]
  constructor
  · rintro ⟨outs, hpool, -⟩
    exact hpool.scriptSigLen_le h17 hmax hwb hvalue hcoinb2 hlen
  · intro hfits
    exact ⟨coinbaseOuts ck sd user value.toNat d64,
      isPoolCoinbase_of_scriptSigLen_le h17 hmax hwb hvalue hcoinb2 hlen hfits,
      coinbaseOuts_sharesOut hd64⟩

/-- Without flags the longest configuration fits. -/
theorem poolCoinbase_iff_noFlags :
    ∃ wb coinb2, blockUpdate longCk exampleSd (emptyTemplate []) exampleNow 3125000 = some wb ∧
      userCoinb2 longCk wb zeroHashScript.bin = some coinb2 ∧
      ((∃ outs, IsPoolCoinbase (wb.coinb1bin ++ List.replicate 8 1 ++ List.replicate 8 2 ++ coinb2)
          900000 (List.replicate 8 1 ++ List.replicate 8 2) outs ∧
        SharesOut longCk exampleSd zeroHashScript 312500000 3125000 outs) ↔
      scriptSigLen longCk (emptyTemplate []) exampleNow ≤ sv2CbMaxScriptsig) := by
  obtain ⟨wb, hwb⟩ := Option.isSome_iff_exists.mp (by decide +kernel :
    (blockUpdate longCk exampleSd (emptyTemplate []) exampleNow 3125000).isSome)
  exact ⟨wb, _, hwb, rfl, poolCoinbase_iff longCk exampleSd zeroHashScript (emptyTemplate [])
    exampleNow 3125000 wb _ _ _ 312500000 (by decide) (by decide) hwb rfl (by decide) rfl rfl rfl⟩

/-- With flags of 32 bytes it does not: the scriptSig has 103 bytes. -/
theorem longFlags_not_poolCoinbase :
    ∃ wb coinb2, blockUpdate longCk exampleSd (emptyTemplate (List.replicate 64 0x31)) exampleNow
        3125000 = some wb ∧
      userCoinb2 longCk wb zeroHashScript.bin = some coinb2 ∧
      ¬∃ outs, IsPoolCoinbase (wb.coinb1bin ++ List.replicate 8 1 ++ List.replicate 8 2 ++ coinb2)
        900000 (List.replicate 8 1 ++ List.replicate 8 2) outs := by
  obtain ⟨wb, hwb⟩ := Option.isSome_iff_exists.mp (by decide +kernel :
    (blockUpdate longCk exampleSd (emptyTemplate (List.replicate 64 0x31)) exampleNow
      3125000).isSome)
  obtain ⟨coinb2, hcoinb2⟩ : ∃ coinb2, userCoinb2 longCk wb zeroHashScript.bin = some coinb2 :=
    ⟨_, rfl⟩
  refine ⟨wb, coinb2, hwb, hcoinb2, ?_⟩
  rintro ⟨outs, hpool⟩
  have hlong := hpool.scriptSigLen_le (t := emptyTemplate (List.replicate 64 0x31)) (by decide)
    (by decide) hwb rfl hcoinb2 rfl
  exact absurd hlong (by decide)

end CashStratum
