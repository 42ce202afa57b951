/-
CashStratum/Sv2CbOutputs.lean

The coinbase outputs of a declared job (`sv2_cb.c`).

An upstream says whom the coinbase is to pay by a blob of outputs of its own.  The declaration
client copies them, puts the rest of the reward on the first one, and appends the witness
commitment of its template.  What it builds is a blob of outputs again, and fits its buffer
(`sv2CbBuildOutputs_spec`).
-/
import CashStratum.JdCoinbase
import CashStratum.Sv2Cb

namespace CashStratum

/-! ### The walk -/

/-- `SV2_MAX_PAYOUT_OUTS` -/
def sv2MaxPayoutOuts : Nat := 16

/-- `read_output`: an output with a script of 1 to 255 bytes. -/
def readOutput (p : Bytes) : Option (TxOut × Bytes) :=
  (readOut p).bind fun r =>
    if r.1.script.length > 255 ∨ r.1.script.length = 0 then none else some r

/-- The loop of `walk_outputs`: what the outputs claim together. -/
def restOutputs : Nat → Nat → Bytes → Option (Nat × Bytes)
  | 0, total, p => some (total, p)
  | n + 1, total, p =>
    (readOutput p).bind fun r =>
      if r.1.value.toNat > uint64Max - total then none
      else restOutputs n (total + r.1.value.toNat) r.2

/-- What `walk_outputs` finds. -/
structure PayoutOutputs where
  nout : Nat
  firstScript : Bytes
  rest : Bytes
  restValue : Nat

/-- `walk_outputs` -/
def walkOutputs (outputs : Bytes) : Option PayoutOutputs :=
  (sv2ReadCompactSize outputs).bind fun (nout, p) =>
    if nout < 1 ∨ nout > sv2MaxPayoutOuts then none
    else
      (readOutput p).bind fun (first, rest) =>
        (restOutputs (nout - 1) 0 rest).map fun (restValue, p) =>
          { nout
            firstScript := first.script
            rest := rest.take (rest.length - p.length)
            restValue }

/-- `sv2_cb_build_outputs`, into a buffer of `outsz` bytes: `none` is the `0` return. -/
def sv2CbBuildOutputs (outsz : Nat) (payouts : Bytes) (value : Nat) (commitment : Bytes) :
    Option Bytes :=
  (walkOutputs payouts).bind fun w =>
    let total := w.nout + if commitment = [] then 0 else 1
    let need := sv2CompactSizeLen total + 8 + sv2CompactSizeLen w.firstScript.length +
      w.firstScript.length + w.rest.length + commitment.length
    if w.restValue > value then none
    else if need > outsz then none
    else some
      (sv2WriteCompactSize total ++ leBytes 8 (value - w.restValue) ++
        sv2WriteCompactSize w.firstScript.length ++ w.firstScript ++ w.rest ++ commitment)

/-! ### What is built -/

theorem readOutput_eq_some {p q : Bytes} {out : TxOut} (h : readOutput p = some (out, q)) :
    out.script.length ≤ 255 ∧ ∃ o, TxOutBytes o ∧ p = o ++ q := by
  obtain ⟨r, hr, h⟩ := Option.bind_eq_some_iff.mp h
  split_ifs at h with hlen
  obtain rfl := Option.some.inj h
  rw [not_or, not_lt] at hlen
  refine ⟨hlen.1, ?_⟩
  obtain ⟨c, hc, rfl⟩ := readOut_eq_some_iff.mp hr
  exact ⟨_, TxOutBytes.mk _ c _ (length_leBytes 8 _) hc, rfl⟩

theorem restOutputs_eq_some {n total value : Nat} {p q : Bytes}
    (h : restOutputs n total p = some (value, q)) :
    ∃ outs : List Bytes, outs.length = n ∧ (∀ o ∈ outs, TxOutBytes o) ∧ p = outs.flatten ++ q := by
  induction n generalizing total p with
  | zero =>
    obtain ⟨-, rfl⟩ := Prod.mk.inj (Option.some.inj h)
    refine ⟨[], rfl, ?_, rfl⟩
    intro o ho
    cases ho
  | succ n ih =>
    obtain ⟨r, hr, hnext⟩ := Option.bind_eq_some_iff.mp h
    split_ifs at hnext
    obtain ⟨-, o, ho, rfl⟩ := readOutput_eq_some hr
    obtain ⟨outs, hlen, houts, hrest⟩ := ih hnext
    refine ⟨o :: outs, by rw [List.length_cons, hlen], ?_, ?_⟩
    · intro o' ho'
      rcases List.mem_cons.mp ho' with rfl | ho'
      · exact ho
      · exact houts o' ho'
    · rw [List.flatten_cons, List.append_assoc, ← hrest]

/-- What `walk_outputs` found: the script of an output, and whole outputs behind it. -/
theorem walkOutputs_eq_some {outputs : Bytes} {w : PayoutOutputs}
    (h : walkOutputs outputs = some w) :
    w.nout ≤ sv2MaxPayoutOuts ∧ w.firstScript.length ≤ 255 ∧
      ∃ outs : List Bytes, outs.length + 1 = w.nout ∧ (∀ o ∈ outs, TxOutBytes o) ∧ w.rest = outs.flatten := by
  obtain ⟨⟨nout, p⟩, -, h⟩ := Option.bind_eq_some_iff.mp h
  dsimp only at h
  split_ifs at h with hcount
  rw [not_or, not_lt, not_lt] at hcount
  obtain ⟨⟨first, rest⟩, hfirst, h⟩ := Option.bind_eq_some_iff.mp h
  obtain ⟨⟨restValue, q⟩, hrest, rfl⟩ := Option.map_eq_some_iff.mp h
  obtain ⟨outs, hlen, houts, rfl⟩ := restOutputs_eq_some hrest
  refine ⟨hcount.2, (readOutput_eq_some hfirst).1, outs, ?_, houts, ?_⟩
  · show outs.length + 1 = nout
    omega
  · show (outs.flatten ++ q).take ((outs.flatten ++ q).length - q.length) = outs.flatten
    rw [List.length_append, Nat.add_sub_cancel]
    exact List.take_left

/-- **The outputs of a declared coinbase** are a blob of outputs that fits the buffer, when the
commitment is an output. -/
theorem sv2CbBuildOutputs_spec {outsz value : Nat} {payouts commitment blob : Bytes}
    (hcommitment : commitment = [] ∨ TxOutBytes commitment)
    (h : sv2CbBuildOutputs outsz payouts value commitment = some blob) :
    OutputsBlob blob ∧ blob.length ≤ outsz := by
  obtain ⟨w, hw, h⟩ := Option.bind_eq_some_iff.mp h
  obtain ⟨hnout, hscript, outs, hlen, houts, hrest⟩ := walkOutputs_eq_some hw
  dsimp only at h
  split_ifs at h with hvalue hempty hneed hneed
  all_goals
    obtain rfl := Option.some.inj h
    have hfirst : TxOutBytes (leBytes 8 (value - w.restValue) ++
        sv2WriteCompactSize w.firstScript.length ++ w.firstScript) :=
      TxOutBytes.mk _ _ _ (length_leBytes 8 _) (spellsCompactSize_write (by omega))
    have hmax : sv2MaxPayoutOuts = 16 := rfl
  · have hblob := OutputsBlob.mk (sv2WriteCompactSize w.nout) (_ :: outs)
      (by rw [List.length_cons, hlen]; exact spellsCompactSize_write (by omega))
      (List.forall_mem_cons.mpr ⟨hfirst, houts⟩)
    refine ⟨?_, ?_⟩
    · rw [hempty, List.append_nil, Nat.add_zero, hrest]
      simpa only [List.flatten_cons, List.append_assoc] using hblob
    · simp only [List.length_append, length_sv2WriteCompactSize, length_leBytes]
      omega
  · have hlast := hcommitment.resolve_left hempty
    have hblob := OutputsBlob.mk (sv2WriteCompactSize (w.nout + 1)) (_ :: (outs ++ [commitment]))
      (by
        rw [List.length_cons, List.length_append, List.length_singleton, hlen]
        exact spellsCompactSize_write (by omega))
      (List.forall_mem_cons.mpr ⟨hfirst, List.forall_mem_append.mpr
        ⟨houts, List.forall_mem_singleton.mpr hlast⟩⟩)
    refine ⟨?_, ?_⟩
    · rw [hrest]
      simpa only [List.flatten_cons, List.flatten_append, List.flatten_nil, List.append_nil,
        List.append_assoc] using hblob
    · simp only [List.length_append, length_sv2WriteCompactSize, length_leBytes]
      omega

end CashStratum
