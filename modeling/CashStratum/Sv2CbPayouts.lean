/-
CashStratum/Sv2CbPayouts.lean

What `sv2_cb_build_outputs` makes of a pool's outputs, and what `sv2_cb_outputs_count` and
`sv2_cb_output_at` read out of the result (`sv2_cb.c`).

`OutputsOf blob outs trailing` says that a blob starts with the outputs `outs`, each with
a script of 1 to 255 bytes, and goes on with `trailing`; lengths may be spelled in any of
the four forms.  The builder succeeds exactly for blobs that start with 1 to 16 outputs
whose fixed amounts the value covers, when the result fits the buffer, and what it writes
are the outputs of the pool with the rest of the value on the first (`Distribution`).

The two readers have the limit of 16 outputs as well, so they read the result unless a
commitment has been added to 16 outputs.
-/
import CashStratum.Sv2CbOutputs

namespace CashStratum

/-! ### The readers -/

/-- `sv2_cb_outputs_count` -/
def sv2CbOutputsCount (outputs : Bytes) : Int :=
  match walkOutputs outputs with
  | some w => w.nout
  | none => -1

/-- `sv2_cb_output_at` -/
def sv2CbOutputAt (outputs : Bytes) (idx : Int) : Option TxOut :=
  if idx < 0 then none
  else
    (sv2ReadCompactSize outputs).bind fun (nout, p) =>
      if nout < 1 ∨ nout > sv2MaxPayoutOuts ∨ nout ≤ idx then none
      else
        (skipMany (fun p => (readOutput p).map Prod.snd) idx.toNat p).bind fun p =>
          (readOutput p).map Prod.fst

/-! ### One output -/

/-- An output as `read_output` takes it. -/
theorem readOutput_eq_some_iff {p q : Bytes} {out : TxOut} :
    readOutput p = some (out, q) ↔
      out.script.length ≤ 255 ∧ out.script.length ≠ 0 ∧
        ∃ c, SpellsCompactSize c out.script.length ∧
          p = leBytes 8 out.value.toNat ++ c ++ out.script ++ q := by
  constructor
  · intro h
    obtain ⟨r, hr, h⟩ := Option.bind_eq_some_iff.mp h
    split_ifs at h with hlen
    obtain rfl := Option.some.inj h
    rw [not_or, not_lt] at hlen
    exact ⟨hlen.1, hlen.2, readOut_eq_some_iff.mp hr⟩
  · rintro ⟨hmax, hpos, hout⟩
    rw [readOutput, readOut_eq_some_iff.mpr hout]
    exact if_neg (not_or.mpr ⟨Nat.not_lt.mpr hmax, hpos⟩)

theorem framedRead_readOutput : FramedRead readOutput := by
  intro p out q x h
  obtain ⟨hmax, hpos, c, hc, rfl⟩ := readOutput_eq_some_iff.mp h
  exact readOutput_eq_some_iff.mpr ⟨hmax, hpos, c, hc, by simp only [List.append_assoc]⟩

theorem exactRead_readOutput : ExactRead readOutput := by
  intro p out q h
  obtain ⟨hmax, hpos, c, hc, rfl⟩ := readOutput_eq_some_iff.mp h
  exact ⟨_, rfl, readOutput_eq_some_iff.mpr ⟨hmax, hpos, c, hc, (List.append_nil _).symm⟩⟩

/-! ### Blobs of outputs -/

/-- What outputs claim together. -/
def totalValue (outs : List TxOut) : Nat := (outs.map fun out => out.value.toNat).sum

/-- The loop of `walk_outputs` reads outputs and adds up their values, which may not overflow. -/
theorem restOutputs_eq_some_iff {n total v : Nat} {p q : Bytes} (htotal : total ≤ uint64Max) :
    restOutputs n total p = some (v, q) ↔
      ∃ outs, readMany readOutput n p = some (outs, q) ∧ v = total + totalValue outs ∧
        v ≤ uint64Max := by
  induction n generalizing total p with
  | zero =>
    simp only [restOutputs, readMany, Option.some.injEq, Prod.mk.injEq]
    constructor
    · rintro ⟨rfl, rfl⟩
      exact ⟨[], ⟨rfl, rfl⟩, rfl, htotal⟩
    · rintro ⟨outs, ⟨rfl, rfl⟩, rfl, -⟩
      exact ⟨rfl, rfl⟩
  | succ n ih =>
    rw [restOutputs, Option.bind_eq_some_iff]
    constructor
    · rintro ⟨⟨out, r⟩, hout, hnext⟩
      dsimp only at hnext
      split_ifs at hnext with hover
      obtain ⟨outs, houts, rfl, hmax⟩ := (ih (by omega)).mp hnext
      refine ⟨out :: outs, ?_, ?_, hmax⟩
      · rw [readMany, hout, Option.bind_some, houts]
        rfl
      · simp only [totalValue, List.map_cons, List.sum_cons]
        omega
    · rintro ⟨outs, houts, rfl, hmax⟩
      obtain ⟨⟨out, r⟩, hout, htail⟩ := Option.bind_eq_some_iff.mp houts
      obtain ⟨⟨outs', q'⟩, houts', heq⟩ := Option.map_eq_some_iff.mp htail
      obtain ⟨hcons, rfl⟩ := Prod.mk.inj heq
      obtain rfl : out :: outs' = outs := hcons
      have hsum : totalValue (out :: outs') = out.value.toNat + totalValue outs' := by
        simp [totalValue]
      rw [hsum] at hmax ⊢
      refine ⟨(out, r), hout, ?_⟩
      have hover : ¬ out.value.toNat > uint64Max - total := by omega
      dsimp only
      rw [if_neg hover]
      exact (ih (by omega)).mpr ⟨outs', houts', by omega, hmax⟩

/-- `blob` starts with the outputs `outs` behind their count, and goes on with `trailing`. -/
def OutputsOf (blob : Bytes) (outs : List TxOut) (trailing : Bytes) : Prop :=
  ∃ c body, blob = c ++ body ∧ SpellsCompactSize c outs.length ∧
    readMany readOutput outs.length body = some (outs, trailing)

/-- What `walk_outputs` finds: 1 to 16 outputs, and the bytes of all but the first. -/
theorem walkOutputs_eq_some_iff {blob : Bytes} {w : PayoutOutputs} :
    walkOutputs blob = some w ↔
      ∃ c o first others rest trailing, blob = c ++ o ++ rest ++ trailing ∧
        SpellsCompactSize c (others.length + 1) ∧ others.length < sv2MaxPayoutOuts ∧
        readOutput o = some (first, []) ∧
        readMany readOutput others.length rest = some (others, []) ∧
        totalValue others ≤ uint64Max ∧
        w = ⟨others.length + 1, first.script, rest, totalValue others⟩ := by
  constructor
  · intro h
    obtain ⟨⟨nout, p⟩, hcount, h⟩ := Option.bind_eq_some_iff.mp h
    dsimp only at h
    split_ifs at h with hrange
    rw [not_or, not_lt, not_lt] at hrange
    obtain ⟨⟨first, r⟩, hfirst, h⟩ := Option.bind_eq_some_iff.mp h
    obtain ⟨⟨v, q⟩, hrest, rfl⟩ := Option.map_eq_some_iff.mp h
    obtain ⟨others, hothers, rfl, hmax⟩ :=
      (restOutputs_eq_some_iff (Nat.zero_le _)).mp hrest
    obtain ⟨c, rfl, hc⟩ := exactRead_sv2ReadCompactSize _ _ _ hcount
    obtain ⟨o, rfl, ho⟩ := exactRead_readOutput p first r hfirst
    obtain ⟨rest, rfl, hread⟩ :=
      exactRead_readOutput.readMany framedRead_readOutput (nout - 1) r others q hothers
    have hlen : others.length = nout - 1 := length_readMany hread
    refine ⟨c, o, first, others, rest, q, ?_, ?_, ?_, ho, ?_, ?_, ?_⟩
    · simp only [List.append_assoc]
    · rw [hlen, Nat.sub_add_cancel hrange.1]
      exact hc
    · omega
    · rw [hlen]
      exact hread
    · rwa [Nat.zero_add] at hmax
    · rw [hlen, Nat.sub_add_cancel hrange.1, Nat.zero_add, List.length_append,
        Nat.add_sub_cancel, List.take_left]
  · rintro ⟨c, o, first, others, rest, trailing, rfl, hc, hlt, ho, hread, hmax, rfl⟩
    have hfirst := framedRead_readOutput o first [] (rest ++ trailing) ho
    have hothers := framedRead_readOutput.readMany others.length rest others [] trailing hread
    have hrest : restOutputs others.length 0 (rest ++ trailing) =
        some (totalValue others, trailing) :=
      (restOutputs_eq_some_iff (Nat.zero_le _)).mpr
        ⟨others, hothers, (Nat.zero_add _).symm, hmax⟩
    have hrange : ¬ (others.length + 1 < 1 ∨ others.length + 1 > sv2MaxPayoutOuts) := by omega
    rw [walkOutputs, List.append_assoc, List.append_assoc, hc.read, Option.bind_some]
    dsimp only
    rw [if_neg hrange, hfirst, Option.bind_some]
    dsimp only
    rw [List.nil_append, Nat.add_sub_cancel, hrest, Option.map_some]
    simp

/-! ### The builder -/

/-- What a pool's outputs become: the first with the rest of the value, the others as they stand,
and the commitment last. -/
def Distribution (payouts : Bytes) (value : UInt64) (commitment blob : Bytes) (first : TxOut)
    (others : List TxOut) : Prop :=
  others.length < sv2MaxPayoutOuts ∧ totalValue others ≤ value.toNat ∧
    ∃ c o rest trailing, payouts = c ++ o ++ rest ++ trailing ∧
      SpellsCompactSize c (others.length + 1) ∧ readOutput o = some (first, []) ∧
      readMany readOutput others.length rest = some (others, []) ∧
      blob =
        sv2WriteCompactSize (others.length + 1 + if commitment = [] then 0 else 1) ++
          leBytes 8 (value.toNat - totalValue others) ++
          sv2WriteCompactSize first.script.length ++ first.script ++ rest ++ commitment

variable {payouts commitment blob : Bytes} {value : UInt64} {first : TxOut}

theorem Distribution.outputsOf
    {others : List TxOut} (h : Distribution payouts value commitment blob first others) :
    ∃ trailing, OutputsOf payouts (first :: others) trailing := by
  obtain ⟨-, -, c, o, rest, trailing, rfl, hc, ho, hread, -⟩ := h
  refine ⟨trailing, c, o ++ rest ++ trailing, by simp only [List.append_assoc], hc, ?_⟩
  have hfirst := framedRead_readOutput o first [] (rest ++ trailing) ho
  have hothers := framedRead_readOutput.readMany others.length rest others [] trailing hread
  rw [List.length_cons, readMany, List.append_assoc, hfirst, Option.bind_some, List.nil_append,
    hothers]
  rfl

/-- **The builder succeeds** for the outputs that it can distribute the value over. -/
theorem sv2CbBuildOutputs_eq_some_iff {outsz : Nat}
    :
    sv2CbBuildOutputs outsz payouts value.toNat commitment = some blob ↔
      (∃ first others, Distribution payouts value commitment blob first others) ∧
        blob.length ≤ outsz := by
  rw [sv2CbBuildOutputs, Option.bind_eq_some_iff]
  constructor
  · rintro ⟨w, hw, h⟩
    obtain ⟨c, o, first, others, rest, trailing, rfl, hc, hlt, ho, hread, -, rfl⟩ :=
      walkOutputs_eq_some_iff.mp hw
    dsimp only at h
    split_ifs at h with hvalue hempty hneed hneed
    all_goals
      obtain rfl := Option.some.inj h
      refine ⟨⟨first, others, hlt, Nat.not_lt.mp hvalue, c, o, rest, trailing, rfl, hc, ho, hread, ?_⟩,
        ?_⟩
      · simp [hempty]
      · simp only [List.length_append, length_sv2WriteCompactSize, length_leBytes]
        omega
  · rintro ⟨⟨first, others, hlt, hvalue, c, o, rest, trailing, rfl, hc, ho, hread, rfl⟩, hlen⟩
    have hmax : totalValue others ≤ uint64Max := by
      have := value.toNat_lt
      unfold uint64Max
      omega
    refine ⟨_, walkOutputs_eq_some_iff.mpr ⟨c, o, first, others, rest, trailing, rfl, hc, hlt, ho, hread,
      hmax, rfl⟩, ?_⟩
    simp only [List.length_append, length_sv2WriteCompactSize, length_leBytes] at hlen
    dsimp only
    rw [if_neg (Nat.not_lt.mpr hvalue), if_neg (by omega)]

/-! ### Reading the result -/

/-- What a commitment adds to the outputs: nothing, or one output. -/
def CommitmentOf (commitment : Bytes) (last : List TxOut) : Prop :=
  (commitment = [] ∧ last = []) ∨ ∃ out, readOutput commitment = some (out, []) ∧ last = [out]

theorem CommitmentOf.length {commitment : Bytes} {last : List TxOut}
    (h : CommitmentOf commitment last) : last.length = if commitment = [] then 0 else 1 := by
  rcases h with ⟨rfl, rfl⟩ | ⟨out, hout, rfl⟩
  · rfl
  · have hne : commitment ≠ [] := by
      rintro rfl
      obtain ⟨-, hpos, c, -, hbytes⟩ := readOutput_eq_some_iff.mp hout
      have hlen := congrArg List.length hbytes
      simp only [List.length_nil, List.length_append, length_leBytes] at hlen
      omega
    rw [if_neg hne]
    rfl

theorem CommitmentOf.read {commitment : Bytes} {last : List TxOut}
    (h : CommitmentOf commitment last) :
    readMany readOutput last.length commitment = some (last, []) := by
  rcases h with ⟨rfl, rfl⟩ | ⟨out, hout, rfl⟩
  · rfl
  · rw [List.length_singleton, readMany, hout]
    rfl

/-- The first output with the rest of the value. -/
def remainderOut (value : UInt64) (first : TxOut) (others : List TxOut) : TxOut :=
  ⟨UInt64.ofNat (value.toNat - totalValue others), first.script⟩

/-- The first output of the result, and the bytes behind it. -/
theorem Distribution.parts
    {others last : List TxOut} (h : Distribution payouts value commitment blob first others)
    (hlast : CommitmentOf commitment last) :
    ∃ c o rest, blob = c ++ o ++ rest ∧ SpellsCompactSize c (others.length + last.length + 1) ∧
      readOutput o = some (remainderOut value first others, []) ∧
      readMany readOutput (others.length + last.length) rest = some (others ++ last, []) := by
  obtain ⟨hlt, hvalue, c, o, rest, trailing, -, hc, ho, hread, rfl⟩ := h
  have hcount : others.length + 1 + (if commitment = [] then 0 else 1) =
      others.length + last.length + 1 := by
    rw [← hlast.length]
    omega
  obtain ⟨hmax, hpos, -⟩ := readOutput_eq_some_iff.mp ho
  have hround : (remainderOut value first others).value.toNat = value.toNat - totalValue others := by
    have := value.toNat_lt
    exact Nat.mod_eq_of_lt (by omega)
  have hsmall : others.length < 16 := hlt
  refine ⟨sv2WriteCompactSize (others.length + last.length + 1),
    leBytes 8 (value.toNat - totalValue others) ++ sv2WriteCompactSize first.script.length ++
      first.script, rest ++ commitment, ?_, ?_, ?_, ?_⟩
  · rw [hcount]
    simp only [List.append_assoc]
  · refine spellsCompactSize_write ?_
    have hone : last.length ≤ 1 := by
      rw [hlast.length]
      split_ifs <;> omega
    omega
  · refine readOutput_eq_some_iff.mpr ⟨hmax, hpos, sv2WriteCompactSize first.script.length,
      spellsCompactSize_write (by omega), ?_⟩
    rw [hround, List.append_nil]
    rfl
  · have hothers := framedRead_readOutput.readMany others.length rest others [] commitment hread
    exact readMany_append hothers hlast.read

/-- The result is a whole blob of outputs. -/
theorem Distribution.result
    {others last : List TxOut} (h : Distribution payouts value commitment blob first others)
    (hlast : CommitmentOf commitment last) :
    OutputsOf blob (remainderOut value first others :: (others ++ last)) [] := by
  obtain ⟨c, o, rest, rfl, hc, ho, hread⟩ := h.parts hlast
  have hfirst := framedRead_readOutput o _ [] rest ho
  refine ⟨c, o ++ rest, by rw [List.append_assoc], ?_, ?_⟩
  · rw [List.length_cons, List.length_append]
    exact hc
  · rw [List.length_cons, List.length_append, readMany, hfirst, Option.bind_some, List.nil_append,
      hread]
    rfl

/-- Nothing of the value is lost. -/
theorem Distribution.totalValue_eq {others : List TxOut}
    (h : Distribution payouts value commitment blob first others) (last : List TxOut) :
    totalValue (remainderOut value first others :: (others ++ last)) =
      value.toNat + totalValue last := by
  have hvalue := h.2.1
  have hround : (remainderOut value first others).value.toNat = value.toNat - totalValue others := by
    have := value.toNat_lt
    exact Nat.mod_eq_of_lt (by omega)
  simp only [totalValue, List.map_cons, List.sum_cons, List.map_append, List.sum_append]
  rw [hround, totalValue]
  simp only [totalValue] at hvalue
  omega

/-- `sv2_cb_output_at` of a blob of outputs. -/
theorem sv2CbOutputAt_of_outputsOf {blob trailing : Bytes} {outs : List TxOut}
    (h : OutputsOf blob outs trailing) (hpos : outs ≠ []) (hle : outs.length ≤ sv2MaxPayoutOuts)
    (idx : Int) :
    sv2CbOutputAt blob idx = if 0 ≤ idx then outs[idx.toNat]? else none := by
  obtain ⟨c, body, rfl, hc, hread⟩ := h
  have hlen : 0 < outs.length := List.length_pos_iff.mpr hpos
  rw [sv2CbOutputAt]
  by_cases hneg : idx < 0
  · rw [if_pos hneg, if_neg (by omega)]
  · rw [if_neg hneg, if_pos (by omega), hc.read, Option.bind_some]
    dsimp only
    by_cases hidx : (outs.length : Int) ≤ idx
    · rw [if_pos (Or.inr (Or.inr hidx)), List.getElem?_eq_none (by omega)]
    · rw [if_neg (by omega), readMany_getElem hread (by omega)]

/-- Both readers refuse a blob of more than 16 outputs. -/
theorem refused_of_outputsOf {blob trailing : Bytes} {outs : List TxOut}
    (h : OutputsOf blob outs trailing) (hlt : sv2MaxPayoutOuts < outs.length) :
    sv2CbOutputsCount blob = -1 ∧ ∀ idx, sv2CbOutputAt blob idx = none := by
  obtain ⟨c, body, rfl, hc, -⟩ := h
  constructor
  · have hwalk : walkOutputs (c ++ body) = none := by
      rw [walkOutputs, hc.read, Option.bind_some]
      exact if_pos (Or.inr hlt)
    rw [sv2CbOutputsCount, hwalk]
  · intro idx
    rw [sv2CbOutputAt]
    split_ifs with hneg
    · rfl
    · rw [hc.read, Option.bind_some]
      exact if_pos (Or.inr (Or.inl hlt))

/-- **The outputs of a declared coinbase.**  The builder succeeds exactly for outputs that it can
distribute the value over, when the result fits.  The result has the scripts in their
order with the commitment last; the outputs behind the first keep their values, and
together the outputs claim the value and what the commitment claims.  Up to 16 outputs,
the commitment included, both readers give them back, and beyond that neither does. -/
theorem sv2_cb_build_outputs_distributes (outsz : Nat) (payouts : Bytes) (value : UInt64)
    (commitment : Bytes) :
    (∀ blob, sv2CbBuildOutputs outsz payouts value.toNat commitment = some blob ↔
      (∃ first others, Distribution payouts value commitment blob first others) ∧
        blob.length ≤ outsz) ∧
    ∀ blob first others last, Distribution payouts value commitment blob first others →
      CommitmentOf commitment last →
        let outs := remainderOut value first others :: (others ++ last)
        (∃ trailing, OutputsOf payouts (first :: others) trailing) ∧
        OutputsOf blob outs [] ∧
        totalValue outs = value.toNat + totalValue last ∧
        (outs.length ≤ sv2MaxPayoutOuts →
          (totalValue last = 0 → sv2CbOutputsCount blob = outs.length) ∧
          ∀ idx, sv2CbOutputAt blob idx = if 0 ≤ idx then outs[idx.toNat]? else none) ∧
        (sv2MaxPayoutOuts < outs.length →
          sv2CbOutputsCount blob = -1 ∧ ∀ idx, sv2CbOutputAt blob idx = none) := by
  refine ⟨fun blob => sv2CbBuildOutputs_eq_some_iff, ?_⟩
  intro blob first others last hdist hlast outs
  have hresult := hdist.result hlast
  refine ⟨hdist.outputsOf, hresult, hdist.totalValue_eq last, ?_, refused_of_outputsOf hresult⟩
  intro hle
  refine ⟨?_, sv2CbOutputAt_of_outputsOf hresult (List.cons_ne_nil _ _) hle⟩
  intro hzero
  obtain ⟨c, o, rest, rfl, hc, ho, hread⟩ := hdist.parts hlast
  have houts : outs.length = others.length + last.length + 1 := by
    simp only [outs, List.length_cons, List.length_append]
  have hsum : totalValue (others ++ last) ≤ uint64Max := by
    have hothers := hdist.2.1
    have := value.toNat_lt
    simp only [totalValue, List.map_append, List.sum_append] at hothers hzero ⊢
    unfold uint64Max
    omega
  rw [houts] at hle
  have hwalk : walkOutputs (c ++ o ++ rest) = some
      ⟨(others ++ last).length + 1, (remainderOut value first others).script, rest,
        totalValue (others ++ last)⟩ := by
    refine walkOutputs_eq_some_iff.mpr ⟨c, o, remainderOut value first others, others ++ last, rest, [],
      (List.append_nil _).symm, ?_, ?_, ho, ?_, hsum, rfl⟩
    · rwa [List.length_append]
    · rw [List.length_append]
      omega
    · rwa [List.length_append]
  rw [sv2CbOutputsCount, hwalk, houts, List.length_append]

/-- Sixteen outputs without value. -/
def sixteenPayouts : Bytes :=
  16 :: (List.replicate 16 (List.replicate 8 0 ++ [1, 0x51])).flatten

/-- With a commitment they are seventeen, which `sv2_cb_outputs_count` refuses. -/
theorem seventeen_outputs_refused :
    (sv2CbBuildOutputs 1024 sixteenPayouts 0 (List.replicate 8 0 ++ [1, 0x6a])).map
      sv2CbOutputsCount = some (-1) := by
  decide +kernel

end CashStratum
