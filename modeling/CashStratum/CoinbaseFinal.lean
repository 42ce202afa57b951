/-
CashStratum/CoinbaseFinal.lean

The finality check of a solved coinbase (`coinbase_final.c`), beside the rule of the network.

The predicate reads two fields, the sequence behind the scriptSig and the lock time at the end,
and answers for every buffer in which both can be found (`FinalFields`), whatever else is in it.
A median time is not at hand, so a lock time that is a time is left open.
-/
import CashStratum.Coinbase

namespace CashStratum

/-! ### The rule of the network -/

/-- `LOCKTIME_THRESHOLD` -/
def locktimeThreshold : UInt32 := 500000000

/-- `SEQUENCE_FINAL` -/
def sequenceFinal : UInt32 := 0xffffffff

/-- `IsFinalTx` for one input, in a block of this height above this median time. -/
def IsFinalTx (nsequence nlocktime : UInt32) (height mtp : Int) : Prop :=
  nlocktime = 0 ∨
    (nlocktime.toNat : Int) < (if nlocktime < locktimeThreshold then height else mtp) ∨
    nsequence = sequenceFinal

instance (nsequence nlocktime : UInt32) (height mtp : Int) :
    Decidable (IsFinalTx nsequence nlocktime height mtp) :=
  inferInstanceAs (Decidable (_ ∨ _ ∨ _))

/-- A transaction of one input in its serialisation without a witness. -/
structure OneInputTx where
  version : Bytes
  prevout : Bytes
  scriptLen : Bytes
  scriptSig : Bytes
  nsequence : UInt32
  outputs : Bytes
  nlocktime : UInt32
  length_version : version.length = 4
  length_prevout : prevout.length = 36
  spelled : SpellsCompactSize scriptLen scriptSig.length
  blob : OutputsBlob outputs

def OneInputTx.bytes (tx : OneInputTx) : Bytes :=
  tx.version ++ [1] ++ tx.prevout ++ tx.scriptLen ++ tx.scriptSig ++
    leBytes 4 tx.nsequence.toNat ++ tx.outputs ++ leBytes 4 tx.nlocktime.toNat

/-- What the verdict says of a lock time and a sequence: it is the network's whatever the median
time is, or it is left open because the median time decides. -/
def CoinbaseFinal.Decides (nsequence nlocktime : UInt32) (height : Int) : CoinbaseFinal → Prop
  | .final => ∀ mtp, IsFinalTx nsequence nlocktime height mtp
  | .nonfinal => ∀ mtp, ¬ IsFinalTx nsequence nlocktime height mtp
  | .unknown => ∀ mtp, IsFinalTx nsequence nlocktime height mtp ↔ (nlocktime.toNat : Int) < mtp
  | .malformed => False

/-- The verdict for the two fields. -/
def finalityOf (seq locktime : Nat) (height : Int) : CoinbaseFinal :=
  if locktime = 0 then .final
  else if seq = 0xffffffff then .final
  else if locktime < 500000000 then
    if (locktime : Int) < height then .final else .nonfinal
  else .unknown

/-- The verdict on the two fields is the network's. -/
theorem finalityOf_decides (nsequence nlocktime : UInt32) (height : Int) :
    (finalityOf nsequence.toNat nlocktime.toNat height).Decides nsequence nlocktime height := by
  have hzeroIff : nlocktime.toNat = 0 ↔ nlocktime = 0 := UInt32.toNat_inj (b := 0)
  have hseqIff : nsequence.toNat = 0xffffffff ↔ nsequence = sequenceFinal :=
    UInt32.toNat_inj (b := sequenceFinal)
  have hbelowIff : nlocktime.toNat < 500000000 ↔ nlocktime < locktimeThreshold :=
    (UInt32.lt_iff_toNat_lt (b := locktimeThreshold)).symm
  unfold finalityOf
  by_cases hzero : nlocktime = 0
  · rw [if_pos (hzeroIff.mpr hzero)]
    intro mtp
    exact Or.inl hzero
  rw [if_neg (mt hzeroIff.mp hzero)]
  by_cases hseq : nsequence = sequenceFinal
  · rw [if_pos (hseqIff.mpr hseq)]
    intro mtp
    exact Or.inr (Or.inr hseq)
  rw [if_neg (mt hseqIff.mp hseq)]
  -- what is left is the comparison, which the lock time chooses
  have hrule : ∀ mtp, IsFinalTx nsequence nlocktime height mtp ↔
      (nlocktime.toNat : Int) < (if nlocktime < locktimeThreshold then height else mtp) := by
    intro mtp
    simp only [IsFinalTx, hzero, hseq, false_or, or_false]
  by_cases hheight : nlocktime < locktimeThreshold
  · rw [if_pos (hbelowIff.mpr hheight)]
    by_cases hbelow : (nlocktime.toNat : Int) < height
    · rw [if_pos hbelow]
      intro mtp
      rw [hrule, if_pos hheight]
      exact hbelow
    · rw [if_neg hbelow]
      intro mtp
      rw [hrule, if_pos hheight]
      exact hbelow
  · rw [if_neg (mt hbelowIff.mp hheight)]
    intro mtp
    rw [hrule, if_neg hheight]

/-! ### The buffers it answers for -/

/-- The parts of a buffer that the predicate finds its fields by: the fixed bytes in front of the
scriptSig, a scriptSig whose length is one byte, and what stands between the two fields. -/
structure FinalFields where
  head : Bytes
  scriptSig : Bytes
  nsequence : UInt32
  rest : Bytes
  nlocktime : UInt32
  length_head : head.length = 41
  short : scriptSig.length < 0xfd

def FinalFields.bytes (f : FinalFields) : Bytes :=
  f.head ++ [UInt8.ofNat f.scriptSig.length] ++ f.scriptSig ++ leBytes 4 f.nsequence.toNat ++
    f.rest ++ leBytes 4 f.nlocktime.toNat

theorem FinalFields.length_bytes (f : FinalFields) :
    f.bytes.length = 42 + f.scriptSig.length + 8 + f.rest.length := by
  have hhead := f.length_head
  simp only [FinalFields.bytes, List.length_append, List.length_singleton, length_leBytes, hhead]
  omega

/-- A field is read where it stands. -/
theorem le32At_field (before after : Bytes) (v : UInt32) :
    le32At (before ++ (leBytes 4 v.toNat ++ after)) before.length = v.toNat := by
  have hlt : v.toNat < 256 ^ 4 := v.toNat_lt
  have htake : (leBytes 4 v.toNat ++ after).take 4 = leBytes 4 v.toNat :=
    List.take_left' (length_leBytes 4 _)
  rw [le32At, List.drop_left, htake, leNat_leBytes_of_lt hlt]

/-- The fields are found. -/
theorem coinbaseFinality_bytes (f : FinalFields) (height : Int) :
    coinbaseFinality f.bytes height =
      (finalityOf f.nsequence.toNat f.nlocktime.toNat height, f.nsequence.toNat,
        f.nlocktime.toNat) := by
  have hlen := f.length_bytes
  have hshort := f.short
  have hbyte : (f.bytes.getD 41 0).toNat = f.scriptSig.length := by
    have hat : f.bytes.getD 41 0 = UInt8.ofNat f.scriptSig.length := by
      rw [← f.length_head]
      simp [FinalFields.bytes, List.getD_eq_getElem?_getD]
    rw [hat, UInt8.toNat_ofNat']
    omega
  have hseq : le32At f.bytes (42 + f.scriptSig.length) = f.nsequence.toNat := by
    have hofs : 42 + f.scriptSig.length =
        (f.head ++ [UInt8.ofNat f.scriptSig.length] ++ f.scriptSig).length := by
      have hhead := f.length_head
      simp only [List.length_append, List.length_singleton, hhead]
    have hparts : f.bytes = f.head ++ [UInt8.ofNat f.scriptSig.length] ++ f.scriptSig ++
        (leBytes 4 f.nsequence.toNat ++ (f.rest ++ leBytes 4 f.nlocktime.toNat)) := by
      simp only [FinalFields.bytes, List.append_assoc]
    rw [hofs, hparts]
    exact le32At_field _ _ _
  have hlock : le32At f.bytes (f.bytes.length - 4) = f.nlocktime.toNat := by
    have hofs : f.bytes.length - 4 = (f.head ++ [UInt8.ofNat f.scriptSig.length] ++ f.scriptSig ++
        leBytes 4 f.nsequence.toNat ++ f.rest).length := by
      rw [FinalFields.bytes, List.length_append, length_leBytes, Nat.add_sub_cancel]
    have hparts : f.bytes = f.head ++ [UInt8.ofNat f.scriptSig.length] ++ f.scriptSig ++
        leBytes 4 f.nsequence.toNat ++ f.rest ++ (leBytes 4 f.nlocktime.toNat ++ []) := by
      rw [List.append_nil, FinalFields.bytes]
    rw [hofs, hparts]
    exact le32At_field _ _ _
  have hlong : ¬ f.bytes.length < 42 + 8 := by omega
  have hfits : ¬ 42 + f.scriptSig.length + 8 > f.bytes.length := by omega
  rw [coinbaseFinality, if_neg hlong]
  dsimp only
  rw [hbyte, if_neg (Nat.not_le.mpr hshort), if_neg hfits, hseq, hlock, finalityOf]
  split_ifs <;> rfl

/-- A buffer that is not refused has the fields. -/
theorem exists_finalFields {coinbase : Bytes} {height : Int}
    (h : (coinbaseFinality coinbase height).1 ≠ .malformed) :
    ∃ f : FinalFields, coinbase = f.bytes := by
  have hlong : ¬ coinbase.length < 42 + 8 := by
    intro hlt
    rw [coinbaseFinality, if_pos hlt] at h
    exact h rfl
  rw [coinbaseFinality, if_neg hlong] at h
  dsimp only at h
  have hscript : ¬ (coinbase.getD 41 0).toNat ≥ 0xfd := by
    intro hge
    rw [if_pos hge] at h
    exact h rfl
  rw [if_neg hscript] at h
  have hfits : ¬ 42 + (coinbase.getD 41 0).toNat + 8 > coinbase.length := by
    intro hgt
    rw [if_pos hgt] at h
    exact h rfl
  set n := (coinbase.getD 41 0).toNat with hn
  have hofbytes : ∀ bs : Bytes, bs.length = 4 → leBytes 4 (UInt32.ofNat (leNat bs)).toNat = bs := by
    intro bs hbs
    have hlt : leNat bs < 2 ^ 32 := by
      have hbound := leNat_lt bs
      rwa [hbs] at hbound
    rw [UInt32.toNat_ofNat_of_lt' hlt, ← hbs]
    exact leBytes_leNat bs
  have hscriptLen : ((coinbase.drop 42).take n).length = n := by
    rw [List.length_take, List.length_drop]
    omega
  have hseqLen : ((coinbase.drop (42 + n)).take 4).length = 4 := by
    rw [List.length_take, List.length_drop]
    omega
  have hlockLen : (coinbase.drop (coinbase.length - 4)).length = 4 := by
    rw [List.length_drop]
    omega
  refine ⟨{
    head := coinbase.take 41
    scriptSig := (coinbase.drop 42).take n
    nsequence := UInt32.ofNat (leNat ((coinbase.drop (42 + n)).take 4))
    rest := (coinbase.drop (42 + n + 4)).take (coinbase.length - (42 + n + 8))
    nlocktime := UInt32.ofNat (leNat (coinbase.drop (coinbase.length - 4)))
    length_head := by
      rw [List.length_take]
      omega
    short := by omega }, ?_⟩
  rw [FinalFields.bytes]
  dsimp only
  rw [hscriptLen, hofbytes _ hseqLen, hofbytes _ hlockLen, hn, UInt8.ofNat_toNat]
  -- put together again from behind
  have hlast : (coinbase.drop (42 + n + 4)).take (coinbase.length - (42 + n + 8)) ++
      coinbase.drop (coinbase.length - 4) = coinbase.drop (42 + n + 4) := by
    have hdrop : coinbase.drop (coinbase.length - 4) =
        (coinbase.drop (42 + n + 4)).drop (coinbase.length - (42 + n + 8)) := by
      rw [List.drop_drop]
      congr 1
      omega
    rw [hdrop, List.take_append_drop]
  have hjoin : ∀ a b, (coinbase.drop a).take b ++ coinbase.drop (a + b) = coinbase.drop a := by
    intro a b
    rw [← List.drop_drop, List.take_append_drop]
  have hbyte : [coinbase.getD 41 0] ++ coinbase.drop 42 = coinbase.drop 41 := by
    have h41 : 41 < coinbase.length := by omega
    rw [List.getD_eq_getElem?_getD, List.getElem?_eq_getElem h41, Option.getD_some,
      List.singleton_append, List.getElem_cons_drop]
  simp only [List.append_assoc]
  rw [← hn, hlast, hjoin (42 + n) 4, hjoin 42 n, hbyte, List.take_append_drop]

/-- The fields of a transaction whose scriptSig has a length of one byte. -/
def OneInputTx.fields (tx : OneInputTx) (h : tx.scriptSig.length < 0xfd) : FinalFields where
  head := tx.version ++ [1] ++ tx.prevout
  scriptSig := tx.scriptSig
  nsequence := tx.nsequence
  rest := tx.outputs
  nlocktime := tx.nlocktime
  length_head := by
    rw [List.length_append, List.length_append, tx.length_version, tx.length_prevout]
    rfl
  short := h

/-- One byte spells a length below `0xfd` only, and as itself. -/
theorem SpellsCompactSize.one_byte {c : Bytes} {n : Nat} (h : SpellsCompactSize c n)
    (hone : c.length = 1) : n < 0xfd ∧ c = [UInt8.ofNat n] := by
  obtain ⟨b, rfl⟩ := List.length_eq_one_iff.mp hone
  have hshort : ∀ w, 0 < w → readLe w [] = none := by
    intro w hw
    rw [readLe, if_neg (by simpa using Nat.not_le.mpr hw)]
  rw [SpellsCompactSize, sv2ReadCompactSize] at h
  rw [hshort 2 (by omega), hshort 4 (by omega), hshort 8 (by omega)] at h
  split_ifs at h with hb
  obtain ⟨rfl, -⟩ := Prod.mk.inj (Option.some.inj h)
  rw [UInt8.ofNat_toNat]
  exact ⟨UInt8.lt_iff_toNat_lt.mp hb, rfl⟩

theorem OneInputTx.bytes_eq (tx : OneInputTx) (hone : tx.scriptLen.length = 1) :
    tx.bytes = (tx.fields (tx.spelled.one_byte hone).1).bytes := by
  have hc := (tx.spelled.one_byte hone).2
  rw [OneInputTx.bytes, FinalFields.bytes]
  conv_lhs => rw [hc]
  rfl

/-- **The finality check answers exactly for the buffers in which its two fields can be found**,
with these fields and with the network's verdict on them; every transaction of one input whose
scriptSig has a length of one byte is such a buffer, with its own sequence and lock time. -/
theorem coinbase_finality_decides (coinbase : Bytes) (height : Int) :
    ((coinbaseFinality coinbase height).1 = .malformed ↔
      ¬ ∃ f : FinalFields, coinbase = f.bytes) ∧
    (∀ f : FinalFields, coinbase = f.bytes →
      (coinbaseFinality coinbase height).2.1 = f.nsequence.toNat ∧
      (coinbaseFinality coinbase height).2.2 = f.nlocktime.toNat ∧
      (coinbaseFinality coinbase height).1.Decides f.nsequence f.nlocktime height) ∧
    ∀ tx : OneInputTx, tx.scriptLen.length = 1 → coinbase = tx.bytes →
      (coinbaseFinality coinbase height).1.Decides tx.nsequence tx.nlocktime
        height := by
  have hfields : ∀ f : FinalFields, coinbase = f.bytes →
      coinbaseFinality coinbase height =
        (finalityOf f.nsequence.toNat f.nlocktime.toNat height, f.nsequence.toNat,
          f.nlocktime.toNat) := by
    rintro f rfl
    exact coinbaseFinality_bytes f height
  refine ⟨⟨?_, ?_⟩, ?_, ?_⟩
  · rintro hverdict ⟨f, hf⟩
    have hdecides := finalityOf_decides f.nsequence f.nlocktime height
    rw [hfields f hf] at hverdict
    have hmalformed : finalityOf f.nsequence.toNat f.nlocktime.toNat height = .malformed := hverdict
    rw [hmalformed] at hdecides
    exact hdecides
  · intro hno
    by_contra hverdict
    exact hno (exists_finalFields hverdict)
  · intro f hf
    rw [hfields f hf]
    exact ⟨rfl, rfl, finalityOf_decides _ _ _⟩
  · intro tx hone htx
    rw [hfields _ (htx.trans (tx.bytes_eq hone))]
    exact finalityOf_decides _ _ _

/-- Fifty zero bytes are no transaction, as there is no input, and they are final. -/
theorem fifty_zeros_final :
    ¬ ∀ (coinbase : Bytes) (height : Int),
      ((¬ ∃ tx : OneInputTx, coinbase = tx.bytes) →
        (coinbaseFinality coinbase height).1 = .malformed) ∧
      ∀ tx : OneInputTx, coinbase = tx.bytes → ∀ mtp,
        ((coinbaseFinality coinbase height).1 = .final ↔
          IsFinalTx tx.nsequence tx.nlocktime height mtp) := by
  intro h
  have hno : ¬ ∃ tx : OneInputTx, List.replicate 50 0 = tx.bytes := by
    rintro ⟨tx, htx⟩
    -- the byte behind the version is the number of inputs
    have hone : tx.bytes.getD 4 0 = 1 := by
      rw [← tx.length_version]
      simp [OneInputTx.bytes, List.getD_eq_getElem?_getD]
    have hzero : (List.replicate 50 (0 : UInt8)).getD 4 0 = 0 := rfl
    rw [← htx, hzero] at hone
    exact absurd hone (by decide)
  have hverdict := (h (List.replicate 50 0) 1).1 hno
  exact absurd hverdict (by decide)

end CashStratum
