/-
CashStratum/JdCoinbase.lean

What a declared coinbase pays (`sv2_jd.c`): `derive_coinbase_enonce_len`, which
finds the size of the hole between the declared prefix and suffix,
`coinbase_tx_funds_payout` and `outputs_blob_funds_payout`, which sum the values
of the outputs, and `payout_rule_ok`.

The check of a coinbase is another parser than `tx_walk`: it knows the marker
`00 01` only, it stops behind the outputs and its sums wrap at 64 bits.  With
those three differences set aside (`DeclaredSound`) it says what it is there for:
whatever fills the hole, the coinbase is a transaction in which every output of
value pays the script (`DeclaredSound.paysOnly`).  The hole lies inside the
scriptSig, so `tx_walk` reads the same outputs for every filling
(`txWalk_filled`).
-/
import CashStratum.Sv2Tx
import CashStratum.Workbase

namespace CashStratum

/-! ### Sums of outputs -/

/-- One output: its value and its script. -/
structure TxOut where
  value : UInt64
  script : Bytes
  deriving DecidableEq

/-- Read one output. -/
def readOut (p : Bytes) : Option (TxOut × Bytes) := do
  let (value, p) ← readLe 8 p
  let (slen, p) ← sv2ReadCompactSize p
  if slen ≤ p.length then
    some ({ value := UInt64.ofNat value, script := p.take slen }, p.drop slen)
  else none

/-- An output as it is read: the length of the script may be spelled in any form. -/
theorem readOut_eq_some_iff {p q : Bytes} {out : TxOut} :
    readOut p = some (out, q) ↔
      ∃ c, SpellsCompactSize c out.script.length ∧
        p = leBytes 8 out.value.toNat ++ c ++ out.script ++ q := by
  constructor
  · intro h
    simp only [readOut, Option.bind_eq_bind] at h
    obtain ⟨⟨value, p₁⟩, hvalue, h⟩ := Option.bind_eq_some_iff.mp h
    obtain ⟨⟨slen, p₂⟩, hslen, h⟩ := Option.bind_eq_some_iff.mp h
    dsimp only at h
    split_ifs at h with hle
    obtain ⟨rfl, rfl⟩ := Prod.mk.inj (Option.some.inj h)
    obtain ⟨a, ha, rfl, rfl⟩ := readLe_eq_some_iff.mp hvalue
    obtain ⟨c, rfl, hc⟩ := exactRead_sv2ReadCompactSize _ _ _ hslen
    refine ⟨c, ?_, ?_⟩
    · rw [List.length_take, Nat.min_eq_left hle]
      exact hc
    · have hround : (UInt64.ofNat (leNat a)).toNat = leNat a := by
        have hlt := leNat_lt a
        rw [ha] at hlt
        exact Nat.mod_eq_of_lt (by omega)
      have hbytes : leBytes 8 (leNat a) = a := by
        rw [← ha]
        exact leBytes_leNat a
      show a ++ (c ++ p₂) = leBytes 8 (UInt64.ofNat (leNat a)).toNat ++ c ++ p₂.take slen ++ _
      rw [hround, hbytes, List.append_assoc, List.append_assoc, List.take_append_drop]
  · rintro ⟨c, hc, rfl⟩
    have hvalue : readLe 8 (leBytes 8 out.value.toNat ++ (c ++ (out.script ++ q))) =
        some (out.value.toNat, c ++ (out.script ++ q)) := by
      have hread := readLe_append (leBytes 8 out.value.toNat) (c ++ (out.script ++ q))
      rwa [length_leBytes, leNat_leBytes_of_lt out.value.toNat_lt] at hread
    simp only [readOut, List.append_assoc, hvalue, hc.read, Option.bind_eq_bind, Option.bind_some,
      List.length_append, Nat.le_add_right, if_true, List.take_left, List.drop_left,
      UInt64.ofNat_toNat]

theorem framedRead_readOut : FramedRead readOut := by
  intro p out q x h
  obtain ⟨c, hc, rfl⟩ := readOut_eq_some_iff.mp h
  exact readOut_eq_some_iff.mpr ⟨c, hc, by simp only [List.append_assoc]⟩

theorem exactRead_readOut : ExactRead readOut := by
  intro p out q h
  obtain ⟨c, hc, rfl⟩ := readOut_eq_some_iff.mp h
  exact ⟨_, rfl, readOut_eq_some_iff.mpr ⟨c, hc, (List.append_nil _).symm⟩⟩

/-- `payout_value` and `other_value`. -/
structure Spendable where
  payoutValue : UInt64
  otherValue : UInt64

/-- `account_spendable_out`: an output without value is not spendable reward. -/
def accountSpendableOut (payout : Bytes) (acc : Spendable) (out : TxOut) : Spendable :=
  if out.value = 0 then acc
  else if out.script = payout then { acc with payoutValue := acc.payoutValue + out.value }
  else { acc with otherValue := acc.otherValue + out.value }

/-- The loop over the outputs. -/
def accountOutputs (payout : Bytes) : Nat → Spendable → Bytes → Option (Spendable × Bytes)
  | 0, acc, p => some (acc, p)
  | n + 1, acc, p => do
      let (out, p) ← readOut p
      accountOutputs payout n (accountSpendableOut payout acc out) p

/-- `pool_min_payout`: the subsidy one block ahead of the tip, 0 without a floor. -/
def poolMinPayout (ck : Ckpool) (tipHeight : Int) : Nat :=
  let interval : Int := if ck.regtest then 150 else 210000
  if ck.btcsolo ∨ tipHeight < 1 then 0
  else
    let halvings := (tipHeight + 1) / interval
    if halvings ≥ 64 then 0 else 5000000000 / 2 ^ halvings.toNat

/-- `payout_rule_ok`. -/
def payoutRuleOk (ck : Ckpool) (tipHeight : Int) (acc : Spendable) : Bool :=
  if acc.payoutValue = 0 then false
  else if ck.btcsolo then true
  else if acc.otherValue ≠ 0 then false
  else poolMinPayout ck tipHeight ≤ acc.payoutValue.toNat

/-- The walk of `outputs_blob_funds_payout`. -/
def outputsBlobAccounts (blob script : Bytes) : Option (Spendable × Bytes) :=
  if blob = [] ∨ script = [] then none
  else do
    let (nout, p) ← sv2ReadCompactSize blob
    if nout > 10000 then none else accountOutputs script nout ⟨0, 0⟩ p

/-- `outputs_blob_funds_payout`. -/
def outputsBlobFundsPayout (ck : Ckpool) (tipHeight : Int) (blob script : Bytes) : Bool :=
  match outputsBlobAccounts blob script with
  | some (acc, _) => payoutRuleOk ck tipHeight acc
  | none => false

/-- The marker and flag as `coinbase_tx_funds_payout` takes them. -/
def skipMarker01 : Bytes → Bytes
  | 0x00 :: 0x01 :: p => p
  | p => p

/-- The walk of `coinbase_tx_funds_payout`; `none` without `*parse_ok`. -/
def coinbaseTxAccounts (tx script : Bytes) : Option (Spendable × Bytes) :=
  if tx.length < 10 ∨ script = [] then none
  else do
    let (nin, p) ← sv2ReadCompactSize (skipMarker01 (tx.drop 4))
    if nin > 100000 then none
    else do
      let p ← skipMany skipInput nin p
      let (nout, p) ← sv2ReadCompactSize p
      if nout > 100000 then none else accountOutputs script nout ⟨0, 0⟩ p

/-- `coinbase_tx_funds_payout`. -/
def coinbaseTxFundsPayout (ck : Ckpool) (tipHeight : Int) (tx script : Bytes) : Bool :=
  match coinbaseTxAccounts tx script with
  | some (acc, _) => payoutRuleOk ck tipHeight acc
  | none => false

/-- `derive_coinbase_enonce_len`. -/
def deriveCoinbaseEnonceLen (pre : Bytes) : Option Nat :=
  if pre.length < 42 then none
  else
    match skipMarker (pre.drop 4) with
    | 0x01 :: p => do
        let p ← skipBytes 36 p
        let (sslen, p) ← sv2ReadCompactSize p
        if sslen > 10000 then none
        else if p.length > sslen then none
        else if sslen - p.length > 255 then none
        else some (sslen - p.length)
    | _ => none

/-- `prefix || e || suffix`. -/
def declaredCoinbase (pre e suf : Bytes) : Bytes := pre ++ e ++ suf

/-- The coinbase of a declare with its hole full of zeros. -/
def zeroFilled (pre : Bytes) (enonceLen : Nat) (suf : Bytes) : Bytes :=
  declaredCoinbase pre (List.replicate enonceLen 0) suf

/-! ### What the sums say -/

/-- The value that leaves for other scripts. -/
def divertedSum (payout : Bytes) (outs : List TxOut) : Nat :=
  ((outs.filter fun out => out.script ≠ payout).map fun out => out.value.toNat).sum

/-- The loop reads the outputs and then sums them. -/
theorem accountOutputs_eq_readMany (payout : Bytes) (n : Nat) (acc : Spendable) (p : Bytes) :
    accountOutputs payout n acc p =
      (readMany readOut n p).map fun r => (r.1.foldl (accountSpendableOut payout) acc, r.2) := by
  induction n generalizing acc p with
  | zero => rfl
  | succ n ih =>
    rw [accountOutputs, readMany]
    rcases readOut p with - | ⟨out, q⟩
    · rfl
    · show accountOutputs payout n (accountSpendableOut payout acc out) q = _
      rw [ih, Option.bind_some, Option.map_map]
      rfl

/-- `other_value` is the diverted value, at 64 bits. -/
theorem foldl_otherValue (payout : Bytes) (outs : List TxOut) (acc : Spendable) :
    (outs.foldl (accountSpendableOut payout) acc).otherValue.toNat =
      (acc.otherValue.toNat + divertedSum payout outs) % 2 ^ 64 := by
  induction outs generalizing acc with
  | nil =>
    have hlt := acc.otherValue.toNat_lt
    show acc.otherValue.toNat = (acc.otherValue.toNat + 0) % 2 ^ 64
    omega
  | cons out outs ih =>
    rw [List.foldl_cons, ih]
    by_cases hscript : out.script = payout
    · have hsum : divertedSum payout (out :: outs) = divertedSum payout outs := by
        simp [divertedSum, hscript]
      rw [hsum, accountSpendableOut]
      split_ifs <;> rfl
    · have hsum : divertedSum payout (out :: outs) =
          out.value.toNat + divertedSum payout outs := by
        simp [divertedSum, hscript]
      rw [hsum, accountSpendableOut]
      split_ifs with hzero
      · rw [hzero]
        simp
      · show ((acc.otherValue + out.value).toNat + divertedSum payout outs) % 2 ^ 64 = _
        rw [UInt64.toNat_add]
        omega

/-- Nothing of value is diverted. -/
theorem divertedSum_eq_zero {payout : Bytes} {outs : List TxOut} :
    divertedSum payout outs = 0 ↔ ∀ out ∈ outs, out.value ≠ 0 → out.script = payout := by
  rw [divertedSum, List.sum_eq_zero_iff_forall_eq_nat]
  constructor
  · intro h out hout hvalue
    by_contra hscript
    apply hvalue
    apply UInt64.toNat_inj.mp
    refine h _ (List.mem_map_of_mem (List.mem_filter.mpr ⟨hout, ?_⟩))
    simpa using hscript
  · intro h n hn
    obtain ⟨out, hout, rfl⟩ := List.mem_map.mp hn
    obtain ⟨hmem, hscript⟩ := List.mem_filter.mp hout
    by_contra hvalue
    exact absurd (h out hmem fun hzero => hvalue (by rw [hzero]; rfl)) (by simpa using hscript)

/-- A sum that says that nothing is diverted is right if it did not wrap. -/
theorem paysOnly_of_otherValue {payout : Bytes} {outs : List TxOut}
    (hother : (outs.foldl (accountSpendableOut payout) ⟨0, 0⟩).otherValue = 0)
    (hwrap : divertedSum payout outs < 2 ^ 64) :
    ∀ out ∈ outs, out.value ≠ 0 → out.script = payout := by
  apply divertedSum_eq_zero.mp
  have hsum := foldl_otherValue payout outs ⟨0, 0⟩
  rw [hother] at hsum
  simp only [UInt64.toNat_zero, Nat.zero_add] at hsum
  omega

/-- The shared pool accepts nothing that adds up for others. -/
theorem payoutRuleOk_shared {ck : Ckpool} (hshared : ck.btcsolo = false) {tipHeight : Int}
    {acc : Spendable} (h : payoutRuleOk ck tipHeight acc = true) : acc.otherValue = 0 := by
  by_contra hother
  simp [payoutRuleOk, hshared, hother] at h

/-! ### Outputs of a transaction -/

/-- The outputs of a transaction, where `tx_walk` finds them. -/
def txOutputs (tx : Bytes) : Option (List TxOut) := do
  let w ← txWalk tx
  let (nin, p) ← sv2ReadCompactSize w.vinStart
  let p ← skipMany skipInput nin p
  let (nout, p) ← sv2ReadCompactSize p
  (readMany readOut nout p).map Prod.fst

/-- `tx` is a transaction, with nothing behind it, in which every output of value
pays `script`. -/
structure PaysOnly (script tx : Bytes) : Prop where
  parses : ∃ w, txWalk tx = some w ∧ w.txLen tx = tx.length
  pays : ∃ outs, txOutputs tx = some outs ∧ ∀ out ∈ outs, out.value ≠ 0 → out.script = script

/-- The outputs of an outputs blob, and what follows them. -/
def blobOutputs (blob : Bytes) : Option (List TxOut × Bytes) := do
  let (nout, p) ← sv2ReadCompactSize blob
  readMany readOut nout p

/-- A blob of outputs, with nothing behind them, in which every output of value pays
`script`. -/
def BlobPaysOnly (script blob : Bytes) : Prop :=
  ∃ outs, blobOutputs blob = some (outs, []) ∧ ∀ out ∈ outs, out.value ≠ 0 → out.script = script

/-- The sums of a blob do not wrap, and nothing follows its outputs. -/
def BlobSound (script blob : Bytes) : Prop :=
  ∀ outs rest, blobOutputs blob = some (outs, rest) → divertedSum script outs < 2 ^ 64 ∧ rest = []

instance (script blob : Bytes) : Decidable (BlobSound script blob) :=
  decidable_of_iff (∀ r ∈ blobOutputs blob, divertedSum script r.1 < 2 ^ 64 ∧ r.2 = [])
    ⟨fun h outs rest hblob => h (outs, rest) hblob, fun h r hr => h r.1 r.2 hr⟩

/-- **An outputs blob that passes the check** of the shared pool pays its script
only, unless its sums wrap. -/
theorem BlobSound.blobPaysOnly {ck : Ckpool} (hshared : ck.btcsolo = false) {tipHeight : Int}
    {script blob : Bytes} (hfunds : outputsBlobFundsPayout ck tipHeight blob script = true)
    (hsound : BlobSound script blob) : BlobPaysOnly script blob := by
  rw [outputsBlobFundsPayout] at hfunds
  split at hfunds
  · next acc rest hacc =>
      simp only [outputsBlobAccounts] at hacc
      split_ifs at hacc
      obtain ⟨⟨nout, p⟩, hnout, hacc⟩ := Option.bind_eq_some_iff.mp hacc
      split_ifs at hacc
      rw [accountOutputs_eq_readMany] at hacc
      obtain ⟨⟨outs, rest'⟩, hread, heq⟩ := Option.map_eq_some_iff.mp hacc
      obtain ⟨rfl, rfl⟩ := Prod.mk.inj heq
      have hblob : blobOutputs blob = some (outs, rest') := by
        rw [blobOutputs, hnout]
        exact hread
      obtain ⟨hwrap, rfl⟩ := hsound outs rest' hblob
      exact ⟨outs, hblob, paysOnly_of_otherValue (payoutRuleOk_shared hshared hfunds) hwrap⟩
  · cases hfunds

/-! ### The hole lies inside the scriptSig -/

/-- The walk behind the hole: sequence, outputs, witness and locktime. -/
def walkTail (witness : Bool) (suf : Bytes) : Option (Bytes × Bytes) := do
  let p ← skipBytes 4 suf
  let (nout, p) ← sv2ReadCompactSize p
  if nout > 100000 then none
  else do
    let voutEnd ← skipMany skipOutput nout p
    let locktime ← skipWitnesses witness 1 voutEnd
    if locktime.length < 4 then none else some (voutEnd, locktime)

/-- The outputs behind the hole. -/
def tailOutputs (suf : Bytes) : Option (List TxOut) := do
  let p ← skipBytes 4 suf
  let (nout, p) ← sv2ReadCompactSize p
  (readMany readOut nout p).map Prod.fst

/-- What `derive_coinbase_enonce_len` has read: one input, whose script is cut off by
the hole. -/
theorem skipInput_filled {pre : Bytes} {d : Nat} (h : deriveCoinbaseEnonceLen pre = some d) :
    42 ≤ pre.length ∧ ∃ input, skipMarker (pre.drop 4) = 0x01 :: input ∧
      ∀ e suf, e.length = d → skipInput (input ++ (e ++ suf)) = skipBytes 4 suf := by
  rw [deriveCoinbaseEnonceLen] at h
  split_ifs at h with hlen
  refine ⟨Nat.not_lt.mp hlen, ?_⟩
  split at h
  · next input hinput =>
      obtain ⟨p, hp, h⟩ := Option.bind_eq_some_iff.mp h
      obtain ⟨⟨sslen, q⟩, hq, h⟩ := Option.bind_eq_some_iff.mp h
      dsimp only at h
      split_ifs at h with hmax hfits hgap
      rw [Option.some.injEq] at h
      refine ⟨input, hinput, fun e suf he => ?_⟩
      -- the frame rule: what follows the prefix does not change what was read of it
      have h36 := framed_skipBytes 36 input p (e ++ suf) hp
      have hread := framedRead_sv2ReadCompactSize p sslen q (e ++ suf) hq
      have hnarrow : ¬sslen > uint64Max - 4 := by
        have : 10000 ≤ uint64Max - 4 := by decide
        omega
      simp only [skipInput, h36, Option.bind_eq_bind, Option.bind_some, hread, if_neg hnarrow]
      have hscript : sslen + 4 = (q ++ e).length + 4 := by
        rw [List.length_append]
        omega
      have htotal : (q ++ e ++ suf).length = (q ++ e).length + suf.length := List.length_append
      rw [hscript, ← List.append_assoc, skipBytes, skipBytes, htotal]
      by_cases hsuf : 4 ≤ suf.length
      · rw [if_pos (by omega), if_pos hsuf, List.drop_length_add_append]
      · rw [if_neg (by omega), if_neg hsuf]
  · cases h

/-- Bytes behind the first two do not make a marker. -/
theorem hasMarker_append {p : Bytes} (h : 2 ≤ p.length) (x : Bytes) :
    hasMarker (p ++ x) = hasMarker p := by
  rcases p with - | ⟨a, - | ⟨b, p⟩⟩
  · simp at h
  · simp at h
  · rfl

theorem skipMarker_append {p : Bytes} (h : 2 ≤ p.length) (x : Bytes) :
    skipMarker (p ++ x) = skipMarker p ++ x := by
  rw [skipMarker, skipMarker, hasMarker_append h]
  split_ifs
  · rw [List.drop_append_of_le_length h]
  · rfl

theorem skipMarker01_append {p : Bytes} (h : 2 ≤ p.length) (x : Bytes) :
    skipMarker01 (p ++ x) = skipMarker01 p ++ x := by
  rcases p with - | ⟨a, - | ⟨b, p⟩⟩
  · simp at h
  · simp at h
  · rw [List.cons_append, List.cons_append, skipMarker01.eq_def, skipMarker01.eq_def]
    split <;> split <;> simp_all

section Filled

variable {pre : Bytes} {d : Nat} (hd : deriveCoinbaseEnonceLen pre = some d)

include hd

/-- **Every filling of the hole is walked alike.** -/
theorem txWalk_filled {e : Bytes} (he : e.length = d) (suf : Bytes) :
    txWalk (declaredCoinbase pre e suf) =
      (walkTail (hasMarker (pre.drop 4)) suf).map fun t =>
        { witness := hasMarker (pre.drop 4)
          vinStart := skipMarker (pre.drop 4) ++ (e ++ suf)
          voutEnd := t.1
          locktime := t.2 } := by
  obtain ⟨hlen, input, hinput, hskip⟩ := skipInput_filled hd
  have hdrop : (declaredCoinbase pre e suf).drop 4 = pre.drop 4 ++ (e ++ suf) := by
    rw [declaredCoinbase, List.append_assoc, List.drop_append_of_le_length (by omega)]
  have htwo : 2 ≤ (pre.drop 4).length := by
    rw [List.length_drop]
    omega
  have hlong : ¬(declaredCoinbase pre e suf).length < 10 := by
    simp only [declaredCoinbase, List.length_append]
    omega
  have hone : sv2ReadCompactSize (0x01 :: (input ++ (e ++ suf))) =
      some (1, input ++ (e ++ suf)) := rfl
  rw [txWalk, if_neg hlong, hdrop, hasMarker_append htwo, skipMarker_append htwo, hinput,
    List.cons_append]
  simp only [hone, Option.bind_eq_bind, Option.bind_some, skipMany_one, hskip e suf he, walkTail]
  rw [if_neg (by decide)]
  rcases skipBytes 4 suf with - | p
  · rfl
  · simp only [Option.bind_some]
    rcases sv2ReadCompactSize p with - | ⟨nout, q⟩
    · rfl
    · simp only [Option.bind_some]
      split_ifs
      · rfl
      · rcases skipMany skipOutput nout q with - | voutEnd
        · rfl
        · simp only [Option.bind_some]
          rcases skipWitnesses (hasMarker (pre.drop 4)) 1 voutEnd with - | locktime
          · rfl
          · simp only [Option.bind_some]
            split_ifs <;> rfl

/-- Every filling of the hole has the same outputs. -/
theorem txOutputs_filled {e : Bytes} (he : e.length = d) (suf : Bytes) :
    txOutputs (declaredCoinbase pre e suf) =
      (walkTail (hasMarker (pre.drop 4)) suf).bind fun _ => tailOutputs suf := by
  obtain ⟨-, input, hinput, hskip⟩ := skipInput_filled hd
  have hone : sv2ReadCompactSize (0x01 :: input ++ (e ++ suf)) =
      some (1, input ++ (e ++ suf)) := rfl
  simp only [txOutputs, txWalk_filled hd he suf, hinput, Option.bind_eq_bind]
  rcases walkTail (hasMarker (pre.drop 4)) suf with - | ⟨voutEnd, locktime⟩
  · rfl
  · simp only [Option.map_some, Option.bind_some, hone, skipMany_one, hskip e suf he, tailOutputs,
      Option.bind_eq_bind]

/-- The check of a coinbase sums the outputs behind the hole, when it sees the same
marker as the walker. -/
theorem coinbaseTxAccounts_filled {script : Bytes} (hscript : script ≠ [])
    (hflag : skipMarker01 (pre.drop 4) = skipMarker (pre.drop 4)) {e : Bytes}
    (he : e.length = d) (suf : Bytes) {acc : Spendable} {rest : Bytes}
    (h : coinbaseTxAccounts (declaredCoinbase pre e suf) script = some (acc, rest)) :
    ∃ outs, tailOutputs suf = some outs ∧ acc = outs.foldl (accountSpendableOut script) ⟨0, 0⟩ := by
  obtain ⟨hlen, input, hinput, hskip⟩ := skipInput_filled hd
  have hdrop : (declaredCoinbase pre e suf).drop 4 = pre.drop 4 ++ (e ++ suf) := by
    rw [declaredCoinbase, List.append_assoc, List.drop_append_of_le_length (by omega)]
  have htwo : 2 ≤ (pre.drop 4).length := by
    rw [List.length_drop]
    omega
  have hlong : ¬((declaredCoinbase pre e suf).length < 10 ∨ script = []) := by
    simp only [declaredCoinbase, List.length_append, hscript, or_false]
    omega
  have hone : sv2ReadCompactSize (0x01 :: (input ++ (e ++ suf))) =
      some (1, input ++ (e ++ suf)) := rfl
  rw [coinbaseTxAccounts, if_neg hlong, hdrop, skipMarker01_append htwo, hflag, hinput,
    List.cons_append] at h
  simp only [hone, Option.bind_eq_bind, Option.bind_some, skipMany_one, hskip e suf he] at h
  rw [if_neg (by decide)] at h
  obtain ⟨p, hp, h⟩ := Option.bind_eq_some_iff.mp h
  obtain ⟨⟨nout, q⟩, hq, h⟩ := Option.bind_eq_some_iff.mp h
  split_ifs at h
  rw [accountOutputs_eq_readMany] at h
  obtain ⟨⟨outs, rest'⟩, hread, heq⟩ := Option.map_eq_some_iff.mp h
  refine ⟨outs, ?_, (Prod.mk.inj heq).1.symm⟩
  simp only [tailOutputs, hp, Option.bind_eq_bind, Option.bind_some, hq, hread, Option.map_some]

end Filled

/-- The differences between the check and the walker, set aside: the recorded length
is the size of the hole, the marker has the flag `01`, the foreign values do not wrap,
and the zero-filled coinbase is a transaction with nothing behind it. -/
structure DeclaredSound (script pre suf : Bytes) (recorded : Nat) : Prop where
  derived : deriveCoinbaseEnonceLen pre = some recorded
  flag : hasMarker (pre.drop 4) = true → (pre.drop 4)[1]? = some 0x01
  nowrap : ∀ outs, txOutputs (zeroFilled pre recorded suf) = some outs →
    divertedSum script outs < 2 ^ 64
  whole : ∃ w, txWalk (zeroFilled pre recorded suf) = some w ∧
    w.txLen (zeroFilled pre recorded suf) = (zeroFilled pre recorded suf).length

instance (script pre suf : Bytes) (recorded : Nat) :
    Decidable (DeclaredSound script pre suf recorded) :=
  decidable_of_iff
    (deriveCoinbaseEnonceLen pre = some recorded ∧
      (hasMarker (pre.drop 4) = true → (pre.drop 4)[1]? = some 0x01) ∧
      (∀ outs ∈ txOutputs (zeroFilled pre recorded suf), divertedSum script outs < 2 ^ 64) ∧
      ∃ w ∈ txWalk (zeroFilled pre recorded suf),
        w.txLen (zeroFilled pre recorded suf) = (zeroFilled pre recorded suf).length)
    ⟨fun h => ⟨h.1, h.2.1, h.2.2.1, h.2.2.2⟩, fun h => ⟨h.derived, h.flag, h.nowrap, h.whole⟩⟩

/-- With the flag `01` both parsers skip the same marker. -/
theorem skipMarker01_eq {p : Bytes} (h : hasMarker p = true → p[1]? = some 0x01) :
    skipMarker01 p = skipMarker p := by
  rcases p with - | ⟨a, - | ⟨b, p⟩⟩
  · rfl
  · rw [skipMarker, skipMarker01.eq_def]
    simp [hasMarker]
  · by_cases hm : hasMarker (a :: b :: p) = true
    · have hb : b = 0x01 := by simpa using h hm
      obtain ⟨rfl, -⟩ : a = 0 ∧ b ≠ 0 := by simpa [hasMarker] using hm
      rw [skipMarker, if_pos hm, hb]
      rfl
    · rw [skipMarker, if_neg hm, skipMarker01.eq_def]
      split
      · next heq =>
          obtain ⟨rfl, rfl, -⟩ : a = 0x00 ∧ b = 0x01 ∧ _ := by simpa using heq
          exact absurd rfl hm
      · rfl

/-- **A declared coinbase pays the pool's script only**, whatever fills its hole. -/
theorem DeclaredSound.paysOnly {ck : Ckpool} (hshared : ck.btcsolo = false) {tipHeight : Int}
    {script pre suf : Bytes} {recorded : Nat} (hscript : script ≠ [])
    (hsound : DeclaredSound script pre suf recorded)
    (hfunds : coinbaseTxFundsPayout ck tipHeight (zeroFilled pre recorded suf) script = true)
    (e : Bytes) (he : e.length = recorded) : PaysOnly script (declaredCoinbase pre e suf) := by
  have hzeros : (List.replicate recorded (0 : UInt8)).length = recorded := List.length_replicate
  rw [coinbaseTxFundsPayout] at hfunds
  split at hfunds
  · next acc rest hacc =>
      obtain ⟨outs, houts, rfl⟩ := coinbaseTxAccounts_filled hsound.derived hscript
        (skipMarker01_eq hsound.flag) hzeros suf hacc
      obtain ⟨w, hw, hwhole⟩ := hsound.whole
      rw [zeroFilled, txWalk_filled hsound.derived hzeros suf] at hw
      obtain ⟨⟨voutEnd, locktime⟩, htail, rfl⟩ := Option.map_eq_some_iff.mp hw
      have hout : ∀ e : Bytes, e.length = recorded →
          txOutputs (declaredCoinbase pre e suf) = some outs := by
        intro e he
        rw [txOutputs_filled hsound.derived he suf, htail, Option.bind_some, houts]
      have hwalk := txWalk_filled hsound.derived he suf
      rw [htail, Option.map_some] at hwalk
      refine ⟨⟨_, hwalk, ?_⟩, outs, hout e he, ?_⟩
      · -- the filling has the length of the zeros
        have hlen : (declaredCoinbase pre e suf).length =
            (zeroFilled pre recorded suf).length := by
          simp only [zeroFilled, declaredCoinbase, List.length_append, he, hzeros]
        rw [TxWalk.txLen, hlen]
        exact hwhole
      · exact paysOnly_of_otherValue (payoutRuleOk_shared hshared hfunds)
          (hsound.nowrap outs (hout _ hzeros))
  · cases hfunds

end CashStratum
