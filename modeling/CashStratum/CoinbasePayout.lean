/-
CashStratum/CoinbasePayout.lean

`coinbase_payout_script` (libckpool.c): which output a coinbase pays when it arrives in
two parts, on either side of the hole for the extranonce.

`SplitCoinbase tx lo len sig outs` describes the whole transaction: one input with the
script `sig`, the outputs `outs`, and a hole of `len` bytes from `lo` on that lies inside
that script.  The function reads only the two parts, and what it says of them is what
the whole transaction says, for every hole: the first output of the largest value, taken
as a signed number.

Beyond the shape it has limits of its own: 256 bytes of scriptSig, 256 outputs, a value
that is not negative, and a script that is not empty and fits the caller's buffer.
-/
import CashStratum.JdCoinbase
import Mathlib

namespace CashStratum.LibCkpool

/-! ### The function -/

/-- `read_varint` -/
def readVarint : Bytes → Option (Nat × Bytes)
  | [] => none
  | b :: s =>
    if b = 0xfd then if s.length < 2 then none else some (leNat (s.take 2), s.drop 2)
    else if b = 0xfe then if s.length < 4 then none else some (leNat (s.take 4), s.drop 4)
    else if b = 0xff then if s.length < 8 then none else some (leNat (s.take 8), s.drop 8)
    else some (b.toNat, s)

/-- The value of an output as an `int64_t`. -/
def payoutValue (out : TxOut) : Int := out.value.toInt64.toInt

/-- One output of the loop. -/
def readPayoutOut (p : Bytes) : Option (TxOut × Bytes) :=
  if p.length < 8 then none
  else
    (readVarint (p.drop 8)).bind fun r =>
      if r.2.length < r.1 then none
      else some (⟨UInt64.ofNat (leNat (p.take 8)), r.2.take r.1⟩, r.2.drop r.1)

/-- `best` with `bestval`, which is -1 before there is one. -/
def pickPayout (best : Option TxOut) (out : TxOut) : Option TxOut :=
  if payoutValue out > best.elim (-1) payoutValue then some out else best

/-- The loop over the outputs. -/
def payoutLoop : Nat → Option TxOut → Bytes → Option (Option TxOut × Bytes)
  | 0, best, p => some (best, p)
  | n + 1, best, p => (readPayoutOut p).bind fun r => payoutLoop n (pickPayout best r.1) r.2

/-- What `coinbase_payout_script` stores and returns. -/
structure CoinbasePayout where
  count : Nat
  script : Bytes
  value : Int
deriving DecidableEq

/-- The output that is stored, if it fits. -/
def storePayout (slen count : Nat) (out : TxOut) : Option CoinbasePayout :=
  if out.script.length = 0 ∨ out.script.length > slen then none
  else some ⟨count, out.script, payoutValue out⟩

/-- What the function reads of `cb2`, from the count of the outputs on. -/
def payoutOfOutputs (slen : Nat) (p : Bytes) : Option CoinbasePayout :=
  (readVarint p).bind fun (count, p) =>
    if count = 0 ∨ count > 0x100 then none
    else
      (payoutLoop count none p).bind fun (best, p) =>
        -- the lock time, and nothing after it
        if p.length ≠ 4 then none else best.bind (storePayout slen count)

/-- `coinbase_payout_script` with a buffer of `slen` bytes; `none` is -1.  `sigleft` is an `int`:
the lengths of the two parts and of the hole are together below 2^31, as they are where both parts
come in one message of an upstream. -/
def coinbasePayoutScript (slen : Nat) (cb1 : Bytes) (holelen : Int) (cb2 : Bytes) :
    Option CoinbasePayout :=
  if cb1.length < 42 ∨ cb2.length < 5 ∨ holelen < 0 then none
  else if (cb1.drop 4).head? ≠ some 1 then none
  else
    (readVarint (cb1.drop 41)).bind fun (siglen, p) =>
      if siglen > 0x100 then none
      else
        let sigleft : Int := siglen - p.length - holelen
        if sigleft < 0 ∨ sigleft + 4 > cb2.length then none
        else payoutOfOutputs slen (cb2.drop (sigleft + 4).toNat)

/-! ### Reading -/

theorem readVarint_eq (p : Bytes) : readVarint p = sv2ReadCompactSize p := by
  rcases p with - | ⟨b, s⟩
  · rfl
  · have hfield : ∀ w, (if s.length < w then none else some (leNat (s.take w), s.drop w)) =
        readLe w s := by
      intro w
      rw [readLe]
      by_cases hw : w ≤ s.length
      · rw [if_neg (by omega), if_pos hw]
      · rw [if_pos (by omega), if_neg hw]
    simp only [readVarint, sv2ReadCompactSize, hfield]
    by_cases hfd : b = 0xfd
    · rw [hfd]
      rfl
    · by_cases hfe : b = 0xfe
      · rw [hfe]
        rfl
      · by_cases hff : b = 0xff
        · rw [hff]
          rfl
        · have hlt : b < 0xfd := by
            have hb := b.toNat_lt
            have h1 : b.toNat ≠ 0xfd := fun h => hfd (UInt8.toNat.inj h)
            have h2 : b.toNat ≠ 0xfe := fun h => hfe (UInt8.toNat.inj h)
            have h3 : b.toNat ≠ 0xff := fun h => hff (UInt8.toNat.inj h)
            rw [UInt8.lt_iff_toNat_lt]
            show b.toNat < 253
            omega
          rw [if_neg hfd, if_neg hfe, if_neg hff, if_pos hlt]

theorem readPayoutOut_eq (p : Bytes) : readPayoutOut p = readOut p := by
  unfold readPayoutOut readOut
  simp only [Option.bind_eq_bind, readVarint_eq, readLe]
  by_cases hlen : p.length < 8
  · rw [if_pos hlen, if_neg (by omega)]
    rfl
  · rw [if_neg hlen, if_pos (by omega), Option.bind_some]
    congr 1
    funext r
    by_cases hle : r.1 ≤ r.2.length
    · rw [if_neg (by omega), if_pos hle]
    · rw [if_pos (by omega), if_neg hle]

/-- The loop reads outputs and picks one. -/
theorem payoutLoop_eq (n : Nat) (best : Option TxOut) (p : Bytes) :
    payoutLoop n best p =
      (readMany readOut n p).map fun r => (r.1.foldl pickPayout best, r.2) := by
  induction n generalizing best p with
  | zero => rfl
  | succ n ih =>
    rw [payoutLoop, readMany, readPayoutOut_eq]
    rcases readOut p with - | ⟨out, q⟩
    · rfl
    · show payoutLoop n (pickPayout best out) q = _
      rw [ih, Option.bind_some, Option.map_map]
      rfl

/-- An output as it is picked: none that has a negative value. -/
def payable (out : TxOut) : Option TxOut := if 0 ≤ payoutValue out then some out else none

theorem pickPayout_none (out : TxOut) : pickPayout none out = payable out := by
  unfold pickPayout payable
  by_cases hpos : 0 ≤ payoutValue out
  · rw [if_pos hpos]
    exact if_pos (show payoutValue out > -1 by omega)
  · rw [if_neg hpos]
    exact if_neg (show ¬ payoutValue out > -1 by omega)

/-- A larger value replaces what was picked, or what was passed over as negative. -/
theorem pickPayout_payable (best out : TxOut) :
    pickPayout (payable best) out =
      payable (if payoutValue best < payoutValue out then out else best) := by
  by_cases hpos : 0 ≤ payoutValue best
  · have hbest : payable best = some best := if_pos hpos
    rw [hbest]
    by_cases hlt : payoutValue best < payoutValue out
    · rw [if_pos hlt, payable, if_pos (hpos.trans hlt.le)]
      exact if_pos hlt
    · rw [if_neg hlt, hbest]
      exact if_neg hlt
  · have hbest : payable best = none := if_neg hpos
    rw [hbest, pickPayout_none]
    split_ifs with hlt
    · rfl
    · rw [hbest, payable, if_neg (by omega)]

/-- **The output that is picked**: the first of the largest value, unless that is negative. -/
theorem foldl_pickPayout (outs : List TxOut) :
    outs.foldl pickPayout none = (outs.argmax payoutValue).bind payable := by
  induction outs using List.reverseRecOn with
  | nil => rfl
  | append_singleton outs out ih =>
    rw [List.foldl_append, ih, List.argmax_concat]
    show pickPayout _ out = _
    rcases outs.argmax payoutValue with - | best
    · exact pickPayout_none out
    · show pickPayout (payable best) out =
        (if payoutValue best < payoutValue out then some out else some best).bind payable
      rw [pickPayout_payable]
      split_ifs <;> rfl

/-! ### The whole transaction -/

/-- A transaction of one input, with the script `sig`, and the outputs `outs`; the bytes from `lo`
up to `lo + len` are a part of the script. -/
def SplitCoinbase (tx : Bytes) (lo len : Nat) (sig : Bytes) (outs : List TxOut) : Prop :=
  ∃ version prevout c seq d body locktime,
    tx = version ++ 1 :: (prevout ++ (c ++ (sig ++ (seq ++ (d ++ (body ++ locktime)))))) ∧
    version.length = 4 ∧ prevout.length = 36 ∧ seq.length = 4 ∧ locktime.length = 4 ∧
    SpellsCompactSize c sig.length ∧ SpellsCompactSize d outs.length ∧
    readMany readOut outs.length body = some (outs, []) ∧
    41 + c.length ≤ lo ∧ lo + len ≤ 41 + c.length + sig.length

/-- What `coinbase_payout_script` reports of such a transaction, within its limits. -/
def PaysOut (slen : Nat) (tx : Bytes) (lo len : Nat) (r : CoinbasePayout) : Prop :=
  ∃ sig outs best, SplitCoinbase tx lo len sig outs ∧ sig.length ≤ 0x100 ∧ 1 ≤ outs.length ∧
    outs.length ≤ 0x100 ∧ outs.argmax payoutValue = some best ∧ 0 ≤ payoutValue best ∧
    best.script ≠ [] ∧ best.script.length ≤ slen ∧
    r = ⟨outs.length, best.script, payoutValue best⟩

/-- The two sides of a hole that lies inside a part. -/
theorem split_inside {a s b p h q : Bytes} (heq : p ++ (h ++ q) = a ++ (s ++ b))
    (hlo : a.length ≤ p.length) (hhi : p.length + h.length ≤ a.length + s.length) :
    ∃ pre post, p = a ++ pre ∧ s = pre ++ (h ++ post) ∧ q = post ++ b := by
  obtain ⟨pre, rfl⟩ : a <+: p :=
    List.prefix_of_prefix_length_le ⟨s ++ b, heq.symm⟩ ⟨h ++ q, rfl⟩ hlo
  rw [List.append_assoc, List.append_cancel_left_eq] at heq
  obtain ⟨post, rfl⟩ : pre ++ h <+: s := by
    refine List.prefix_of_prefix_length_le ⟨q, ?_⟩ (List.prefix_append s b) ?_
    · rw [List.append_assoc, heq]
    · simp only [List.length_append] at hhi ⊢
      omega
  refine ⟨pre, post, rfl, by rw [List.append_assoc], ?_⟩
  simpa only [List.append_assoc, List.append_cancel_left_eq] using heq

/-! ### The two sides -/

/-- The two sides of a coinbase, with so many bytes of its script missing between them. -/
def Halves (cb1 cb2 : Bytes) (holelen siglen : Nat) (outs : List TxOut) : Prop :=
  ∃ version prevout c pre post seq d body locktime,
    cb1 = version ++ 1 :: (prevout ++ (c ++ pre)) ∧
    cb2 = post ++ (seq ++ (d ++ (body ++ locktime))) ∧
    version.length = 4 ∧ prevout.length = 36 ∧ seq.length = 4 ∧ locktime.length = 4 ∧
    siglen = pre.length + holelen + post.length ∧ SpellsCompactSize c siglen ∧
    SpellsCompactSize d outs.length ∧ readMany readOut outs.length body = some (outs, [])

/-- **The whole transaction and its two sides** say the same, whatever is in the hole. -/
theorem splitCoinbase_iff {cb1 hole cb2 : Bytes} {siglen : Nat} {outs : List TxOut} :
    (∃ sig, sig.length = siglen ∧
      SplitCoinbase (cb1 ++ (hole ++ cb2)) cb1.length hole.length sig outs) ↔
        Halves cb1 cb2 hole.length siglen outs := by
  constructor
  · rintro ⟨sig, rfl, version, prevout, c, seq, d, body, locktime, heq, hversion, hprev, hseq, hlock,
      hc, hd, hread, hlo, hhi⟩
    have hhead : (version ++ 1 :: (prevout ++ c)).length = 41 + c.length := by
      simp only [List.length_append, List.length_cons]
      omega
    obtain ⟨pre, post, rfl, rfl, rfl⟩ := split_inside
      (a := version ++ 1 :: (prevout ++ c)) (s := sig) (b := seq ++ (d ++ (body ++ locktime)))
      (by simpa only [List.append_assoc, List.cons_append] using heq)
      (by rw [hhead]; exact hlo) (by rw [hhead]; exact hhi)
    refine ⟨version, prevout, c, pre, post, seq, d, body, locktime, ?_, rfl, hversion, hprev, hseq,
      hlock, ?_, hc, hd, hread⟩
    · simp only [List.append_assoc, List.cons_append]
    · simp only [List.length_append]
      omega
  · rintro ⟨version, prevout, c, pre, post, seq, d, body, locktime, rfl, rfl, hversion, hprev, hseq,
      hlock, rfl, hc, hd, hread⟩
    refine ⟨pre ++ (hole ++ post), ?_, version, prevout, c, seq, d, body, locktime, ?_, hversion,
      hprev, hseq, hlock, ?_, hd, hread, ?_, ?_⟩
    · simp only [List.length_append]
      omega
    · simp only [List.append_assoc, List.cons_append]
    · simpa only [List.length_append, Nat.add_assoc] using hc
    · simp only [List.length_append, List.length_cons]
      omega
    · simp only [List.length_append, List.length_cons]
      omega

/-! ### What the function reads -/

/-- What is stored of the outputs, within the limits on it. -/
theorem bind_storePayout_eq_some_iff {slen count : Nat} {outs : List TxOut} {r : CoinbasePayout} :
    ((outs.argmax payoutValue).bind payable).bind (storePayout slen count) = some r ↔
      ∃ best, outs.argmax payoutValue = some best ∧ 0 ≤ payoutValue best ∧ best.script ≠ [] ∧
        best.script.length ≤ slen ∧ r = ⟨count, best.script, payoutValue best⟩ := by
  rcases outs.argmax payoutValue with - | best
  · simp
  · by_cases hpos : 0 ≤ payoutValue best
    · have hbest : (some best).bind payable = some best := if_pos hpos
      rw [hbest, Option.bind_some, storePayout]
      split_ifs with hlen
      · constructor
        · intro h
          cases h
        · rintro ⟨out, hout, -, hne, hle, -⟩
          obtain rfl := Option.some.inj hout
          have hzero := mt List.length_eq_zero_iff.mp hne
          omega
      · rw [not_or, not_lt] at hlen
        constructor
        · intro h
          exact ⟨best, rfl, hpos, mt List.length_eq_zero_iff.mpr hlen.1, hlen.2,
            (Option.some.inj h).symm⟩
        · rintro ⟨out, hout, -, -, -, rfl⟩
          obtain rfl := Option.some.inj hout
          rfl
    · have hbest : (some best).bind payable = none := if_neg hpos
      rw [hbest]
      constructor
      · intro h
        cases h
      · rintro ⟨out, hout, hpos', -⟩
        obtain rfl := Option.some.inj hout
        exact absurd hpos' hpos

/-- The outputs, and the lock time behind them. -/
theorem payoutOfOutputs_eq_some_iff {slen : Nat} {p : Bytes} {r : CoinbasePayout} :
    payoutOfOutputs slen p = some r ↔
      ∃ outs q best locktime, sv2ReadCompactSize p = some (outs.length, q) ∧ 1 ≤ outs.length ∧
        outs.length ≤ 0x100 ∧ readMany readOut outs.length q = some (outs, locktime) ∧
        locktime.length = 4 ∧ outs.argmax payoutValue = some best ∧ 0 ≤ payoutValue best ∧
        best.script ≠ [] ∧ best.script.length ≤ slen ∧
        r = ⟨outs.length, best.script, payoutValue best⟩ := by
  rw [payoutOfOutputs, readVarint_eq, Option.bind_eq_some_iff]
  constructor
  · rintro ⟨⟨count, q⟩, hcount, h⟩
    dsimp only at h
    split_ifs at h with hrange
    rw [payoutLoop_eq] at h
    obtain ⟨⟨best, locktime⟩, hloop, h⟩ := Option.bind_eq_some_iff.mp h
    obtain ⟨⟨outs, q'⟩, houts, heq⟩ := Option.map_eq_some_iff.mp hloop
    obtain ⟨hbest, hq⟩ := Prod.mk.inj heq
    dsimp only at h hbest hq
    split_ifs at h with hlock
    obtain rfl := length_readMany houts
    rw [← hbest, foldl_pickPayout] at h
    obtain ⟨out, hout⟩ := bind_storePayout_eq_some_iff.mp h
    exact ⟨outs, q, out, locktime, hcount, by omega, by omega, hq ▸ houts, not_not.mp hlock, hout⟩
  · rintro ⟨outs, q, best, locktime, hcount, hpos, hmax, houts, hlock, hbest⟩
    refine ⟨(outs.length, q), hcount, ?_⟩
    dsimp only
    rw [if_neg (by omega), payoutLoop_eq, houts, Option.map_some, Option.bind_some]
    dsimp only
    rw [if_neg (not_not.mpr hlock), foldl_pickPayout]
    exact bind_storePayout_eq_some_iff.mpr ⟨best, hbest⟩

/-- The parts that the function finds in the two sides. -/
theorem halves_of_reads {cb1 cb2 pre p q : Bytes} {holelen siglen count : Nat} {outs : List TxOut}
    (hcb1 : 42 ≤ cb1.length) (hone : (cb1.drop 4).head? = some 1)
    (hsig : sv2ReadCompactSize (cb1.drop 41) = some (siglen, pre))
    (hleft : pre.length + holelen ≤ siglen) (hcb2 : siglen - pre.length - holelen + 4 ≤ cb2.length)
    (hcount : sv2ReadCompactSize (cb2.drop (siglen - pre.length - holelen + 4)) = some (count, p))
    (houts : readMany readOut count p = some (outs, q)) (hq : q.length = 4) :
    Halves cb1 cb2 holelen siglen outs := by
  obtain ⟨c, hc, hspells⟩ := exactRead_sv2ReadCompactSize _ _ _ hsig
  obtain ⟨d, hd, hspells'⟩ := exactRead_sv2ReadCompactSize _ _ _ hcount
  obtain ⟨body, rfl, hbody⟩ := exactRead_readOut.readMany framedRead_readOut count p outs q houts
  have hlen : outs.length = count := length_readMany hbody
  generalize hk : siglen - pre.length - holelen = k at *
  refine ⟨cb1.take 4, (cb1.drop 5).take 36, c, pre, cb2.take k, (cb2.drop k).take 4, d, body, q, ?_,
    ?_, ?_, ?_, ?_, hq, ?_, hspells, hlen ▸ hspells', hlen ▸ hbody⟩
  · have hfive : cb1.drop 4 = 1 :: cb1.drop 5 := by
      rcases hdrop : cb1.drop 4 with - | ⟨b, rest⟩
      · rw [hdrop] at hone
        cases hone
      · rw [hdrop] at hone
        obtain rfl : b = 1 := Option.some.inj hone
        have htail := congrArg List.tail hdrop
        rw [List.tail_drop] at htail
        rw [htail]
        rfl
    have hprev : (cb1.drop 5).drop 36 = c ++ pre := by
      rw [List.drop_drop, ← hc]
    rw [← hprev, List.take_append_drop, ← hfive, List.take_append_drop]
  · have hseq : (cb2.drop k).drop 4 = d ++ (body ++ q) := by
      rw [List.drop_drop, ← hd]
    rw [← hseq, List.take_append_drop, List.take_append_drop]
  · exact List.length_take_of_le (by omega)
  · exact List.length_take_of_le (by rw [List.length_drop]; omega)
  · exact List.length_take_of_le (by rw [List.length_drop]; omega)
  · rw [List.length_take_of_le (by omega)]
    omega

/-- **The function on the two sides of a coinbase.** -/
theorem coinbasePayoutScript_eq_some_iff {slen holelen : Nat} {cb1 cb2 : Bytes}
    {r : CoinbasePayout} :
    coinbasePayoutScript slen cb1 holelen cb2 = some r ↔
      ∃ siglen outs best, Halves cb1 cb2 holelen siglen outs ∧ siglen ≤ 0x100 ∧ 1 ≤ outs.length ∧
        outs.length ≤ 0x100 ∧ outs.argmax payoutValue = some best ∧ 0 ≤ payoutValue best ∧
        best.script ≠ [] ∧ best.script.length ≤ slen ∧
        r = ⟨outs.length, best.script, payoutValue best⟩ := by
  constructor
  · intro h
    rw [coinbasePayoutScript] at h
    split_ifs at h with hlen hone
    rw [readVarint_eq] at h
    obtain ⟨⟨siglen, pre⟩, hsig, h⟩ := Option.bind_eq_some_iff.mp h
    dsimp only at h
    split_ifs at h with hsiglen hleft
    have hdrop : ((siglen : Int) - pre.length - holelen + 4).toNat =
        siglen - pre.length - holelen + 4 := by omega
    rw [hdrop] at h
    obtain ⟨outs, q, best, locktime, hcount, hpos, hmax, houts, hlock, hbest⟩ :=
      payoutOfOutputs_eq_some_iff.mp h
    have hhalves := halves_of_reads (by omega) (not_not.mp hone) hsig (by omega) (by omega) hcount
      houts hlock
    exact ⟨siglen, outs, best, hhalves, by omega, hpos, hmax, hbest⟩
  · rintro ⟨siglen, outs, best, ⟨version, prevout, c, pre, post, seq, d, body, locktime, rfl, rfl, hversion,
      hprev, hseq, hlock, rfl, hc, hd, hread⟩, hsiglen, hpos, hmax, hbest⟩
    have hclen : 0 < c.length := by simpa using sv2ReadCompactSize_length hc
    have hdlen : 0 < d.length := by simpa using sv2ReadCompactSize_length hd
    have hone : (version ++ 1 :: (prevout ++ (c ++ pre))).drop 4 = 1 :: (prevout ++ (c ++ pre)) := by
      rw [← hversion, List.drop_left]
    have hsig : (version ++ 1 :: (prevout ++ (c ++ pre))).drop 41 = c ++ pre := by
      have hlen : (version ++ 1 :: prevout).length = 41 := by
        rw [List.length_append, List.length_cons, hversion, hprev]
      rw [← List.cons_append, ← List.append_assoc, ← hlen, List.drop_left]
    have hrest : (post ++ (seq ++ (d ++ (body ++ locktime)))).drop (post.length + 4) =
        d ++ (body ++ locktime) := by
      rw [← List.append_assoc, ← hseq, ← List.length_append, List.drop_left]
    have hleft : ((pre.length + holelen + post.length : Nat) : Int) - pre.length - holelen =
        post.length := by omega
    have hlen1 : (version ++ 1 :: (prevout ++ (c ++ pre))).length =
        41 + c.length + pre.length := by
      simp only [List.length_append, List.length_cons, hversion, hprev]
      omega
    have hlen2 : (post ++ (seq ++ (d ++ (body ++ locktime)))).length =
        post.length + 4 + d.length + body.length + 4 := by
      simp only [List.length_append, hseq, hlock]
      omega
    rw [coinbasePayoutScript, if_neg (by omega), hone, if_neg (not_not.mpr List.head?_cons), hsig,
      readVarint_eq, hc.read, Option.bind_some]
    dsimp only
    rw [if_neg (Nat.not_lt.mpr hsiglen), hleft, if_neg (by omega)]
    have hdrop : ((post.length : Int) + 4).toNat = post.length + 4 := by omega
    rw [hdrop, hrest]
    exact payoutOfOutputs_eq_some_iff.mpr ⟨outs, body ++ locktime, best, locktime, hd.read _, hpos,
      hmax, framedRead_readOut.readMany _ _ _ _ locktime hread, hlock, hbest⟩

/-- **The payout of a coinbase in two parts.**  Whatever is in the hole, the function reports the
first output of the largest value and the number of outputs of the whole transaction, and
reports nothing exactly when the whole is no such transaction within the limits. -/
theorem coinbase_payout_script_pays (slen : Nat) (cb1 hole cb2 : Bytes) :
    (∀ r, coinbasePayoutScript slen cb1 hole.length cb2 = some r ↔
      PaysOut slen (cb1 ++ (hole ++ cb2)) cb1.length hole.length r) ∧
    (coinbasePayoutScript slen cb1 hole.length cb2 = none ↔
      ∀ r, ¬ PaysOut slen (cb1 ++ (hole ++ cb2)) cb1.length hole.length r) := by
  have hiff : ∀ r, coinbasePayoutScript slen cb1 hole.length cb2 = some r ↔
      PaysOut slen (cb1 ++ (hole ++ cb2)) cb1.length hole.length r := by
    intro r
    rw [coinbasePayoutScript_eq_some_iff]
    constructor
    · rintro ⟨siglen, outs, best, hhalves, hsiglen, hrest⟩
      obtain ⟨sig, rfl, hsplit⟩ := splitCoinbase_iff.mpr hhalves
      exact ⟨sig, outs, best, hsplit, hsiglen, hrest⟩
    · rintro ⟨sig, outs, best, hsplit, hsiglen, hrest⟩
      exact ⟨sig.length, outs, best, splitCoinbase_iff.mp ⟨sig, rfl, hsplit⟩, hsiglen, hrest⟩
  refine ⟨hiff, ?_⟩
  rw [Option.eq_none_iff_forall_ne_some]
  exact forall_congr' fun r => not_congr (hiff r)

/-- The part of a coinbase before its hole: a script of four bytes follows. -/
def holeyCb1 : Bytes := List.replicate 4 0 ++ 1 :: (List.replicate 36 0 ++ [4])

/-- `MAX_PAYOUT_SCRIPT`, the buffer of `check_payout`. -/
def maxPayoutScript : Nat := 128

/-- A script of one byte more than the buffer has. -/
def longPayout : Bytes := List.replicate (maxPayoutScript + 1) 0x51

/-- The part behind the hole: one output that pays that script. -/
def holeyCb2 : Bytes :=
  List.replicate 4 0xff ++ [1] ++ (List.replicate 8 0 ++ 129 :: longPayout) ++ List.replicate 4 0

/-- A script that the buffer is too small for: the function reports nothing of a transaction that
has the shape. -/
theorem payout_over_buffer_not_reported :
    coinbasePayoutScript maxPayoutScript holeyCb1 4 holeyCb2 = none ∧
      SplitCoinbase (holeyCb1 ++ ([7, 7, 7, 7] ++ holeyCb2)) holeyCb1.length 4 [7, 7, 7, 7]
        [⟨0, longPayout⟩] := by
  refine ⟨by decide +kernel, ?_⟩
  exact ⟨List.replicate 4 0, List.replicate 36 0, [4], List.replicate 4 0xff, [1],
    List.replicate 8 0 ++ 129 :: longPayout, List.replicate 4 0, rfl, rfl, rfl, rfl, rfl, rfl, rfl,
    by decide +kernel, by decide, by decide⟩

end CashStratum.LibCkpool
