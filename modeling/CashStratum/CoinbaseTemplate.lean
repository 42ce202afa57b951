/-
CashStratum/CoinbaseTemplate.lean

A job cut into the parts of a coinbase template (`coinbase_template.go`).

`splitCoinb2` walks a job by the lengths it declares.  What it accepts is `JobParts`, the parts of
the job with the sums the code makes of their lengths.  A job whose lengths stay in the range of
these sums (`JobParts.Plain`) is a transaction of one input from its scriptSig on, cut where the
parts are; no other accepted job is.
-/
import CashStratum.CoinbaseFinal
import CashStratum.GoBytes
import CashStratum.Sv2CbOutputs

namespace CashStratum

/-! ### The template -/

/-- `coinbaseTemplate`: one parsed job; the height and the time are Go `int`s. -/
structure CoinbaseTemplate where
  height : Int
  coinb1 : Bytes
  en1Sample : Bytes
  en2Size : Nat
  coinb2Head : Bytes
  coinb3 : Bytes
  networkBits : String
  network : Bytes
  fetchedAt : Int
deriving DecidableEq

/-- `assemble`: the whole coinbase that pays `script`. -/
def CoinbaseTemplate.assemble (t : CoinbaseTemplate) (script : Bytes) : Bytes :=
  t.coinb1 ++ t.en1Sample ++ List.replicate t.en2Size 0 ++ t.coinb2Head ++
    [UInt8.ofNat script.length] ++ script ++ t.coinb3

/-! ### The walk -/

/-- The little-endian number of `w` bytes behind the lead byte, and the offset past it. -/
def readVarintField (data : Bytes) (offset : Int) (w : Nat) :
    Except GoFail (Option (Nat × Int)) :=
  if goInt (offset + w) > data.length then .ok none
  else do
    let v ← goLe data offset w
    return some (v, goInt (offset + w))

/-- `readVarint` -/
def readVarint (data : Bytes) (offset : Int) : Except GoFail (Option (Nat × Int)) :=
  if offset < 0 ∨ offset ≥ data.length then .ok none
  else do
    let lead ← goIndex data offset
    let offset := goInt (offset + 1)
    if lead < 0xfd then return some (lead.toNat, offset)
    else if lead = 0xfd then readVarintField data offset 2
    else if lead = 0xfe then readVarintField data offset 4
    else readVarintField data offset 8

/-- `scriptSigLenOffset`: version, input count, prevout. -/
def scriptSigLenOffset : Nat := 4 + 1 + 32 + 4

/-- The first byte of `coinb2` as `%#x` prints it. -/
def hexVerb (b : UInt8) : String := "0x" ++ String.ofList (Nat.toDigits 16 b.toNat)

/-- What the scriptSig still needs of `coinb2`. -/
def sigRemainder (coinb1 : Bytes) (en1Size en2Size : Int) (coinb2 : Bytes) : Except GoFail Int := do
  match ← readVarint coinb1 scriptSigLenOffset with
  | none => throw (.error "coinb1 too short for a scriptSig length")
  | some (scriptLen, off) =>
    if off > coinb1.length then throw (.error "coinb1 too short for a scriptSig length")
    else
      let sigLen :=
        goInt (goInt (goInt (goInt scriptLen - goInt (coinb1.length - off)) - en1Size) - en2Size)
      if sigLen < 0 ∨ sigLen > coinb2.length then
        throw (.error s!"scriptSig length {scriptLen} does not fit coinb1/en1/en2/coinb2")
      else if sigLen > 0 then
        let push ← goIndex coinb2 0
        if (push.toNat : Int) ≠ goInt (sigLen - 1) then
          throw (.error s!"btcsig push byte {hexVerb push} does not match its {goInt (sigLen - 1)}-byte remainder")
        else return sigLen
      else return sigLen

/-- The position past the sequence. -/
def pastSequence (coinb2 : Bytes) (pos : Int) : Except GoFail Int :=
  if goInt (pos + 4) > coinb2.length then
    throw (.error "no ffffffff sequence after the btcsig push")
  else do
    let sequence ← goSlice coinb2 pos (goInt (pos + 4))
    if sequence ≠ [0xff, 0xff, 0xff, 0xff] then
      throw (.error "no ffffffff sequence after the btcsig push")
    else return goInt (pos + 4)

/-- The output count, then `coinb2` cut at the script of output 0: `head`, `script`, `coinb3`. -/
def splitOutputs (coinb2 : Bytes) (pos : Int) : Except GoFail (Nat × Bytes × Bytes × Bytes) := do
  match ← readVarint coinb2 pos with
  | none => throw (.error "bad output count")
  | some (count, pos) =>
    if count < 1 ∨ count > 3 then throw (.error "bad output count")
    else if goInt (pos + 8) > coinb2.length then throw (.error "truncated miner value")
    else
      let pos := goInt (pos + 8)
      let head ← goSlice coinb2 0 pos
      if pos ≥ coinb2.length then throw (.error "truncated miner script length")
      else
        let n ← goIndex coinb2 pos
        let pos := goInt (pos + 1)
        if n = 0 ∨ goInt (pos + n.toNat) > coinb2.length then
          throw (.error "bad miner script length")
        else
          let script ← goSlice coinb2 pos (goInt (pos + n.toNat))
          let coinb3 ← goSlice coinb2 (goInt (pos + n.toNat)) coinb2.length
          return (count, head, script, coinb3)

/-- The loop over the outputs of `coinb3`: the position past so many of them. -/
def tailEnd (coinb3 : Bytes) : Nat → Int → Except GoFail Int
  | 0, tail => .ok tail
  | n + 1, tail =>
    if goInt (tail + 8) > coinb3.length then
      throw (.error "truncated output value in coinb3")
    else do
      match ← readVarint coinb3 (goInt (tail + 8)) with
      | none => throw (.error "truncated output script in coinb3")
      | some (l, next) =>
        if goInt (next + goInt l) > coinb3.length then
          throw (.error "truncated output script in coinb3")
        else tailEnd coinb3 n (goInt (next + goInt l))

/-- `splitCoinb2`: `head`, `script` and `coinb3`. -/
def splitCoinb2 (coinb1 : Bytes) (en1Size en2Size : Int) (coinb2 : Bytes) :
    Except GoFail (Bytes × Bytes × Bytes) := do
  let pos ← sigRemainder coinb1 en1Size en2Size coinb2
  let pos ← pastSequence coinb2 pos
  let (count, head, script, coinb3) ← splitOutputs coinb2 pos
  let tail ← tailEnd coinb3 (count - 1) 0
  if goInt (coinb3.length - tail) ≠ 4 then
    throw (.error s!"coinb3 has {goInt (coinb3.length - tail)} bytes after its outputs, want a 4-byte locktime")
  else return (head, script, coinb3)

/-! ### The readers at a position -/

/-- A slice that reaches `k` bytes further has a piece of `k` bytes there. -/
theorem exists_piece {b : Bytes} {n k : Nat} (h : n + k ≤ b.length) :
    ∃ a, a.length = k ∧ b.drop n = a ++ b.drop (n + k) := by
  refine ⟨(b.drop n).take k, ?_, ?_⟩
  · rw [List.length_take, List.length_drop]
    omega
  · rw [← List.drop_drop, List.take_append_drop]

theorem readVarintField_eq {data : Bytes} {m w : Nat} (hlen : data.length ≤ 2 ^ 48)
    (hm : m ≤ data.length) (hw : w ≤ 8) :
    readVarintField data m w =
      .ok ((readLe w (data.drop m)).map fun r => (r.1, ((data.length - r.2.length : Nat) : Int))) := by
  rw [readVarintField, goInt_add_natCast (by omega), readLe, List.length_drop]
  by_cases hfit : m + w ≤ data.length
  · obtain ⟨a, rfl, ha⟩ := exists_piece hfit
    have hend : data.length - (data.drop (m + a.length)).length = m + a.length := by
      rw [List.length_drop]
      omega
    rw [if_neg (by omega), if_pos (by omega), goLe_eq ha, ok_bind, ha, List.take_left,
      List.drop_left, Option.map_some]
    dsimp only
    rw [hend]
    rfl
  · rw [if_pos (by omega), if_neg (by omega)]
    rfl

/-- A compact size is read at a position as it is read from the rest there. -/
theorem readVarint_eq {data : Bytes} {n : Nat} (hlen : data.length ≤ 2 ^ 48) :
    readVarint data n = .ok ((sv2ReadCompactSize (data.drop n)).map fun r =>
      (r.1, ((data.length - r.2.length : Nat) : Int))) := by
  rw [readVarint]
  cases hp : data.drop n with
  | nil =>
    have hn : data.length ≤ n := List.drop_eq_nil_iff.mp hp
    rw [if_pos (by omega)]
    rfl
  | cons lead p =>
    have hn : n < data.length := lt_of_drop_cons hp
    have hnext : data.drop (n + 1) = p := drop_succ_of_drop hp
    have hend : data.length - p.length = n + 1 := by
      rw [← hnext, List.length_drop]
      omega
    have hfield : ∀ w ≤ 8, readVarintField data ((n + 1 : Nat) : Int) w =
        .ok ((readLe w p).map fun r => (r.1, ((data.length - r.2.length : Nat) : Int))) := by
      intro w hw
      rw [readVarintField_eq hlen (by omega) hw, hnext]
    have hoffset : goInt ((n : Int) + 1) = ((n + 1 : Nat) : Int) :=
      goInt_add_natCast (n := 1) (by omega)
    rw [if_neg (by omega), goIndex_eq hp, ok_bind, sv2ReadCompactSize]
    dsimp only
    rw [hoffset]
    split_ifs with h1 h2 h3
    · rw [Option.map_some]
      dsimp only
      rw [hend]
      rfl
    · exact hfield 2 (by omega)
    · exact hfield 4 (by omega)
    · exact hfield 8 (by omega)

/-- Behind what spells a compact size the offset is past it. -/
theorem readVarint_spelled {data c q : Bytes} {n v : Nat} (hlen : data.length ≤ 2 ^ 48)
    (hn : n ≤ data.length) (h : data.drop n = c ++ q) (hc : SpellsCompactSize c v) :
    readVarint data n = .ok (some (v, ((n + c.length : Nat) : Int))) := by
  have hall := length_eq_of_drop h hn
  rw [List.length_append] at hall
  have hend : data.length - q.length = n + c.length := by omega
  rw [readVarint_eq hlen, h, hc.read, Option.map_some]
  dsimp only
  rw [hend]

/-- What a call that finds a number has read. -/
theorem readVarint_eq_some {data : Bytes} {n v : Nat} {next : Int} (hlen : data.length ≤ 2 ^ 48)
    (h : readVarint data n = .ok (some (v, next))) :
    ∃ c, SpellsCompactSize c v ∧ next = ((n + c.length : Nat) : Int) ∧
      n + c.length ≤ data.length ∧ data.drop n = c ++ data.drop (n + c.length) := by
  rw [readVarint_eq hlen] at h
  obtain ⟨⟨v', q⟩, hread, hr⟩ := Option.map_eq_some_iff.mp (Except.ok.inj h)
  obtain ⟨rfl, rfl⟩ := Prod.mk.inj hr
  obtain ⟨c, hdrop, hc⟩ := exactRead_sv2ReadCompactSize _ _ _ hread
  have hn : n < data.length := by
    by_contra hge
    rw [List.drop_eq_nil_of_le (Nat.le_of_not_lt hge)] at hread
    cases hread
  have hall := length_eq_of_drop hdrop (Nat.le_of_lt hn)
  rw [List.length_append] at hall
  have hend : data.length - q.length = n + c.length := by omega
  refine ⟨c, hc, ?_, by omega, ?_⟩
  · dsimp only
    rw [hend]
  · rw [drop_add_of_drop hdrop, hdrop]

theorem readVarint_negative {data : Bytes} {i : Int} (h : i < 0) :
    readVarint data i = .ok none := by
  rw [readVarint, if_pos (Or.inl h)]

/-- No offset makes it panic. -/
theorem readVarint_returns {data : Bytes} (hlen : data.length ≤ 2 ^ 48) (i : Int) :
    Returns (readVarint data i) := by
  rcases lt_or_ge i 0 with hneg | hpos
  · rw [readVarint_negative hneg]
    exact Returns.of_ok none
  · obtain ⟨n, rfl⟩ := Int.eq_ofNat_of_zero_le hpos
    rw [readVarint_eq hlen]
    exact Returns.of_ok _

/-! ### The scriptSig -/

/-- What `coinb2` holds of the scriptSig is nothing, or starts with a byte that says how much
follows. -/
def PushRest (sigRest : Bytes) : Prop := ∀ push ∈ sigRest.head?, push.toNat + 1 = sigRest.length

/-- The scriptSig of a job: the fixed bytes in front of it, its length, and its two ends, between
which the extranonces go.  The length is what the parts add up to in 64 bits. -/
structure SigParts where
  front : Bytes
  spelled : Bytes
  scriptLen : Nat
  sigFront : Bytes
  sigRest : Bytes
  length_front : front.length = scriptSigLenOffset
  spells : SpellsCompactSize spelled scriptLen
  push : PushRest sigRest

/-- The bytes of the scriptSig, as many of them as there are. -/
def SigParts.total (p : SigParts) (en1Size en2Size : Nat) : Nat :=
  p.sigFront.length + en1Size + en2Size + p.sigRest.length

/-- A compact size has 64 bits. -/
theorem SpellsCompactSize.lt {c : Bytes} {n : Nat} (h : SpellsCompactSize c n) : n < 2 ^ 64 := by
  have hfield : ∀ w ≤ 8, ∀ p, readLe w p = some (n, []) → n < 2 ^ 64 := by
    intro w hw p hp
    obtain ⟨a, rfl, rfl, -⟩ := readLe_eq_some_iff.mp hp
    calc leNat a < 256 ^ a.length := leNat_lt a
      _ ≤ 256 ^ 8 := Nat.pow_le_pow_right (by decide) hw
      _ = 2 ^ 64 := by norm_num
  rcases c with - | ⟨b, p⟩
  · cases h
  · rw [SpellsCompactSize, sv2ReadCompactSize] at h
    split_ifs at h
    · obtain ⟨rfl, -⟩ := Prod.mk.inj (Option.some.inj h)
      have hb := b.toNat_lt
      omega
    · exact hfield 2 (by decide) p h
    · exact hfield 4 (by decide) p h
    · exact hfield 8 (by decide) p h

theorem SpellsCompactSize.length_bounds {c : Bytes} {n : Nat} (h : SpellsCompactSize c n) :
    1 ≤ c.length ∧ c.length ≤ 9 := by
  have hfield : ∀ w ≤ 8, ∀ p, readLe w p = some (n, []) → p.length ≤ 8 := by
    intro w hw p hp
    obtain ⟨a, rfl, -, rfl⟩ := readLe_eq_some_iff.mp hp
    rw [List.append_nil]
    exact hw
  rcases c with - | ⟨b, p⟩
  · cases h
  · rw [List.length_cons]
    have hp : p.length ≤ 8 := by
      rw [SpellsCompactSize, sv2ReadCompactSize] at h
      split_ifs at h
      · obtain ⟨-, rfl⟩ := Prod.mk.inj (Option.some.inj h)
        exact Nat.zero_le 8
      · exact hfield 2 (by decide) p h
      · exact hfield 4 (by decide) p h
      · exact hfield 8 (by decide) p h
    omega

/-- The four subtractions of the code, when what they leave is a length. -/
theorem goInt_sigLen {scriptLen front en1Size en2Size k : Nat} (hs : scriptLen < 2 ^ 64)
    (hk : k ≤ 2 ^ 48) :
    goInt (goInt (goInt (goInt scriptLen - front) - en1Size) - en2Size) = k ↔
      (front + en1Size + en2Size + k) % 2 ^ 64 = scriptLen := by
  unfold goInt
  omega

theorem sigRemainder_eq_ok {coinb1 coinb2 : Bytes} {en1Size en2Size : Nat} {pos : Int}
    (hlen1 : coinb1.length ≤ 2 ^ 48) (hlen2 : coinb2.length ≤ 2 ^ 48)
    (h : sigRemainder coinb1 en1Size en2Size coinb2 = .ok pos) :
    ∃ p : SigParts, coinb1 = p.front ++ p.spelled ++ p.sigFront ∧
      p.total en1Size en2Size % 2 ^ 64 = p.scriptLen ∧
      coinb2 = p.sigRest ++ coinb2.drop p.sigRest.length ∧ pos = (p.sigRest.length : Int) := by
  obtain ⟨r, hread, h⟩ := bind_eq_ok.mp h
  cases r with
  | none => cases h
  | some r =>
    obtain ⟨scriptLen, off⟩ := r
    obtain ⟨c, hc, rfl, hfit, hdrop⟩ := readVarint_eq_some hlen1 hread
    dsimp only at h
    set n := scriptSigLenOffset + c.length with hn
    have hfront : goInt ((coinb1.length : Int) - (n : Int)) =
        ((coinb1.length - n : Nat) : Int) := by
      rw [goInt_of_range (by omega) (by omega)]
      omega
    rw [if_neg (by omega), hfront] at h
    set sigLen := goInt (goInt (goInt (goInt (scriptLen : Int) - ((coinb1.length - n : Nat) : Int)) -
      (en1Size : Int)) - (en2Size : Int)) with hsigLen
    by_cases hrange : sigLen < 0 ∨ sigLen > coinb2.length
    · rw [if_pos hrange] at h
      cases h
    rw [if_neg hrange] at h
    obtain ⟨k, hk⟩ := Int.eq_ofNat_of_zero_le (show 0 ≤ sigLen by omega)
    rw [hk] at h hrange
    have hkle : k ≤ coinb2.length := by omega
    obtain ⟨sigRest, hsigRest, hsplit⟩ := exists_piece (b := coinb2) (n := 0) (k := k) (by omega)
    rw [List.drop_zero, Nat.zero_add] at hsplit
    have hsum := (goInt_sigLen hc.lt (show k ≤ 2 ^ 48 by omega)).mp (hsigLen.symm.trans hk)
    have hpush : PushRest sigRest ∧ pos = (k : Int) := by
      cases sigRest with
      | nil =>
        have hzero : k = 0 := hsigRest.symm
        rw [hzero] at h ⊢
        refine ⟨?_, (Except.ok.inj h).symm⟩
        intro push hmem
        cases hmem
      | cons push rest =>
        have hpos : (k : Int) > 0 := by
          rw [List.length_cons] at hsigRest
          omega
        have hfirst : goIndex coinb2 0 = .ok push := by
          refine goIndex_eq (n := 0) (q := rest ++ coinb2.drop k) ?_
          rw [List.drop_zero, ← List.cons_append]
          exact hsplit
        rw [if_pos hpos, hfirst, ok_bind, goInt_of_range (by omega) (by omega)] at h
        by_cases hmatch : (push.toNat : Int) ≠ (k : Int) - 1
        · rw [if_pos hmatch] at h
          cases h
        · rw [if_neg hmatch] at h
          refine ⟨?_, (Except.ok.inj h).symm⟩
          intro push' hmem
          obtain rfl : push = push' := Option.some.inj hmem
          omega
    refine ⟨⟨coinb1.take scriptSigLenOffset, c, scriptLen, coinb1.drop n, sigRest, ?_, hc, hpush.1⟩,
      ?_, ?_, ?_, ?_⟩
    · rw [List.length_take]
      omega
    · dsimp only
      rw [List.append_assoc, ← hdrop, List.take_append_drop]
    · rw [SigParts.total]
      dsimp only
      rw [List.length_drop, hsigRest]
      exact hsum
    · dsimp only
      rw [hsigRest]
      exact hsplit
    · dsimp only
      rw [hsigRest]
      exact hpush.2

/-- The scriptSig of such a job is found. -/
theorem SigParts.sigRemainder (p : SigParts) {en1Size en2Size : Nat} {rest : Bytes}
    (hlen1 : (p.front ++ p.spelled ++ p.sigFront).length ≤ 2 ^ 48)
    (hlen2 : (p.sigRest ++ rest).length ≤ 2 ^ 48)
    (hsum : p.total en1Size en2Size % 2 ^ 64 = p.scriptLen) :
    CashStratum.sigRemainder (p.front ++ p.spelled ++ p.sigFront) en1Size en2Size
      (p.sigRest ++ rest) = .ok p.sigRest.length := by
  have hlength : (p.front ++ p.spelled ++ p.sigFront).length =
      scriptSigLenOffset + p.spelled.length + p.sigFront.length := by
    rw [List.length_append, List.length_append, p.length_front]
  have hdrop : (p.front ++ p.spelled ++ p.sigFront).drop scriptSigLenOffset =
      p.spelled ++ p.sigFront := by
    rw [List.append_assoc, ← p.length_front, List.drop_left]
  have hread := readVarint_spelled hlen1 (by omega) hdrop p.spells
  have hfront : goInt (((p.front ++ p.spelled ++ p.sigFront).length : Int) -
      ((scriptSigLenOffset + p.spelled.length : Nat) : Int)) = (p.sigFront.length : Int) := by
    rw [goInt_of_range (by omega) (by omega)]
    omega
  rw [List.length_append] at hlen2
  have hsigLen := (goInt_sigLen p.spells.lt (show p.sigRest.length ≤ 2 ^ 48 by omega)).mpr hsum
  rw [CashStratum.sigRemainder, hread, ok_bind]
  dsimp only
  have hrange : ¬ ((p.sigRest.length : Int) < 0 ∨
      (p.sigRest.length : Int) > ((p.sigRest.length + rest.length : Nat) : Int)) := by
    rw [not_or]
    exact ⟨not_lt.mpr (Int.natCast_nonneg _), not_lt.mpr (Int.ofNat_le.mpr (Nat.le_add_right _ _))⟩
  rw [hfront, hsigLen, if_neg (by omega), List.length_append, if_neg hrange]
  cases hrest : p.sigRest with
  | nil => rfl
  | cons push sigRest =>
    have hpush : push.toNat + 1 = (push :: sigRest).length := by
      rw [← hrest]
      refine p.push push ?_
      rw [hrest]
      rfl
    have hfirst : goIndex (push :: sigRest ++ rest) 0 = .ok push :=
      goIndex_eq (n := 0) (q := sigRest ++ rest) rfl
    rw [hrest, List.length_cons] at hlen2
    rw [List.length_cons] at hpush ⊢
    rw [if_pos (by omega), hfirst, ok_bind, goInt_of_range (by omega) (by omega)]
    rw [if_neg (by omega)]
    rfl

/-! ### The sequence and the outputs -/

theorem pastSequence_eq_ok {coinb2 : Bytes} {n : Nat} {pos : Int} (hlen : coinb2.length ≤ 2 ^ 48)
    (hn : n ≤ coinb2.length) (h : pastSequence coinb2 n = .ok pos) :
    pos = ((n + 4 : Nat) : Int) ∧ n + 4 ≤ coinb2.length ∧
      coinb2.drop n = [0xff, 0xff, 0xff, 0xff] ++ coinb2.drop (n + 4) := by
  have hpos : goInt ((n : Int) + 4) = ((n + 4 : Nat) : Int) := goInt_add_natCast (n := 4) (by omega)
  rw [pastSequence, hpos] at h
  by_cases hfit : n + 4 ≤ coinb2.length
  · obtain ⟨a, ha, hdrop⟩ := exists_piece hfit
    have hslice := goSlice_eq hn hdrop
    rw [ha] at hslice
    rw [if_neg (by omega), hslice, ok_bind] at h
    by_cases hff : a ≠ [0xff, 0xff, 0xff, 0xff]
    · rw [if_pos hff] at h
      cases h
    · rw [if_neg hff] at h
      rw [not_not] at hff
      rw [← hff]
      exact ⟨(Except.ok.inj h).symm, hfit, hdrop⟩
  · rw [if_pos (by omega)] at h
    cases h

theorem pastSequence_eq {coinb2 rest : Bytes} {n : Nat} (hlen : coinb2.length ≤ 2 ^ 48)
    (hn : n ≤ coinb2.length) (h : coinb2.drop n = [0xff, 0xff, 0xff, 0xff] ++ rest) :
    pastSequence coinb2 n = .ok ((n + 4 : Nat) : Int) := by
  have hpos : goInt ((n : Int) + 4) = ((n + 4 : Nat) : Int) := goInt_add_natCast (n := 4) (by omega)
  have hall := length_eq_of_drop h hn
  rw [List.length_append] at hall
  have hfour : ([0xff, 0xff, 0xff, 0xff] : Bytes).length = 4 := rfl
  have hslice := goSlice_eq hn h
  rw [hfour] at hslice
  rw [pastSequence, hpos, if_neg (by omega), hslice, ok_bind, if_neg (not_not.mpr rfl)]
  rfl

/-- The outputs of a job as `splitOutputs` cuts them. -/
structure OutputParts where
  countSpelled : Bytes
  count : Nat
  value : Bytes
  script : Bytes
  coinb3 : Bytes
  spells : SpellsCompactSize countSpelled count
  one_le_count : 1 ≤ count
  count_le : count ≤ 3
  length_value : value.length = 8
  script_ne_nil : script ≠ []
  length_script : script.length ≤ 255

/-- The byte in front of the script. -/
def OutputParts.lengthByte (p : OutputParts) : UInt8 := UInt8.ofNat p.script.length

def OutputParts.bytes (p : OutputParts) : Bytes :=
  p.countSpelled ++ p.value ++ [p.lengthByte] ++ p.script ++ p.coinb3

theorem OutputParts.lengthByte_toNat (p : OutputParts) : p.lengthByte.toNat = p.script.length := by
  have hlen := p.length_script
  rw [lengthByte, UInt8.toNat_ofNat']
  omega

theorem splitOutputs_eq_ok {coinb2 : Bytes} {n : Nat} {r : Nat × Bytes × Bytes × Bytes}
    (hlen : coinb2.length ≤ 2 ^ 48) (hn : n ≤ coinb2.length) (h : splitOutputs coinb2 n = .ok r) :
    ∃ p : OutputParts, coinb2.drop n = p.bytes ∧
      r = (p.count, coinb2.take n ++ p.countSpelled ++ p.value, p.script, p.coinb3) := by
  obtain ⟨found, hread, h⟩ := bind_eq_ok.mp h
  cases found with
  | none => cases h
  | some found =>
    -- the count of the outputs
    obtain ⟨count, pos⟩ := found
    obtain ⟨c, hc, rfl, hfit, hdrop⟩ := readVarint_eq_some hlen hread
    dsimp only at h
    set m := n + c.length with hm
    have hvalueEnd : goInt ((m : Int) + 8) = ((m + 8 : Nat) : Int) :=
      goInt_add_natCast (n := 8) (by omega)
    by_cases hcount : count < 1 ∨ count > 3
    · rw [if_pos hcount] at h
      cases h
    rw [if_neg hcount, hvalueEnd] at h
    -- the value of the first
    by_cases hvalueFit : m + 8 ≤ coinb2.length
    swap
    · rw [if_pos (by omega)] at h
      cases h
    obtain ⟨value, hvalue, hvalueDrop⟩ := exists_piece hvalueFit
    have hheadSplit : coinb2.take (m + 8) = coinb2.take n ++ c ++ value := by
      have hwhole : coinb2 = coinb2.take n ++ c ++ value ++ coinb2.drop (m + 8) := by
        rw [List.append_assoc, List.append_assoc, ← hvalueDrop, ← hdrop, List.take_append_drop]
      conv_lhs => rw [hwhole]
      refine List.take_left' ?_
      rw [List.length_append, List.length_append, List.length_take, hvalue]
      omega
    have hhead : goSlice coinb2 0 ((m + 8 : Nat) : Int) = .ok (coinb2.take (m + 8)) := by
      have hslice := goSlice_front (coinb2.take (m + 8)) (coinb2.drop (m + 8))
      rwa [List.length_take, Nat.min_eq_left hvalueFit, List.take_append_drop] at hslice
    rw [if_neg (by omega), hhead, ok_bind, hheadSplit] at h
    -- the length of its script
    by_cases hbyteFit : m + 8 < coinb2.length
    swap
    · rw [if_pos (by omega)] at h
      cases h
    obtain ⟨byte, hbyte, hbyteDrop⟩ := exists_piece (b := coinb2) (n := m + 8) (k := 1) hbyteFit
    obtain ⟨len, rfl⟩ := List.length_eq_one_iff.mp hbyte
    have hlenBound := len.toNat_lt
    have hscriptPos : goInt (((m + 8 : Nat) : Int) + 1) = ((m + 8 + 1 : Nat) : Int) :=
      goInt_add_natCast (n := 1) (by omega)
    rw [if_neg (by omega), goIndex_eq hbyteDrop, ok_bind, hscriptPos,
      goInt_add_natCast (by omega)] at h
    -- the script, and what follows it
    by_cases hscriptFit : len = 0 ∨ ((m + 8 + 1 + len.toNat : Nat) : Int) > coinb2.length
    · rw [if_pos hscriptFit] at h
      cases h
    rw [if_neg hscriptFit] at h
    rw [not_or] at hscriptFit
    obtain ⟨script, hscript, hscriptDrop⟩ := exists_piece (b := coinb2) (n := m + 8 + 1)
      (k := len.toNat) (by omega)
    have hslice := goSlice_eq (by omega) hscriptDrop
    rw [hscript] at hslice
    have hrest := goSlice_eq (b := coinb2) (n := m + 8 + 1 + len.toNat)
      (a := coinb2.drop (m + 8 + 1 + len.toNat)) (q := []) (by omega) (List.append_nil _).symm
    have hrestEnd : m + 8 + 1 + len.toNat + (coinb2.drop (m + 8 + 1 + len.toNat)).length =
        coinb2.length := by
      rw [List.length_drop]
      omega
    rw [hrestEnd] at hrest
    rw [hslice, ok_bind, hrest, ok_bind] at h
    have hlenByte : UInt8.ofNat script.length = len := by
      rw [hscript, UInt8.ofNat_toNat]
    have hnonempty : script ≠ [] := by
      rintro rfl
      exact hscriptFit.1 (by rw [← hlenByte]; rfl)
    refine ⟨{
      countSpelled := c
      count := count
      value := value
      script := script
      coinb3 := coinb2.drop (m + 8 + 1 + len.toNat)
      spells := hc
      one_le_count := by omega
      count_le := by omega
      length_value := hvalue
      script_ne_nil := hnonempty
      length_script := by omega }, ?_, (Except.ok.inj h).symm⟩
    rw [OutputParts.bytes, OutputParts.lengthByte]
    dsimp only
    rw [hlenByte, hdrop, hvalueDrop, hbyteDrop, hscriptDrop]
    simp only [List.append_assoc]

/-- Outputs of that shape are cut there. -/
theorem OutputParts.splitOutputs (p : OutputParts) {coinb2 : Bytes} {n : Nat}
    (hlen : coinb2.length ≤ 2 ^ 48) (hn : n ≤ coinb2.length) (h : coinb2.drop n = p.bytes) :
    CashStratum.splitOutputs coinb2 n =
      .ok (p.count, coinb2.take n ++ p.countSpelled ++ p.value, p.script, p.coinb3) := by
  have hall := length_eq_of_drop h hn
  have hvalue := p.length_value
  have hbyte := p.lengthByte_toNat
  have hcount := p.one_le_count
  have hcount' := p.count_le
  simp only [bytes, List.length_append, List.length_singleton] at hall
  simp only [bytes, List.append_assoc] at h
  set m := n + p.countSpelled.length with hm
  have hbound : m + 8 + 1 + p.script.length < 2 ^ 63 := by omega
  have hscriptFit : ¬ ((m + 8 + 1 + p.script.length : Nat) : Int) > coinb2.length :=
    not_lt.mpr (Int.ofNat_le.mpr (by omega))
  have hread : readVarint coinb2 n = .ok (some (p.count, (m : Int))) :=
    readVarint_spelled hlen hn h p.spells
  have hafterCount : coinb2.drop m = p.value ++ ([p.lengthByte] ++ (p.script ++ p.coinb3)) :=
    drop_add_of_drop h
  have hafterValue : coinb2.drop (m + 8) = p.lengthByte :: (p.script ++ p.coinb3) := by
    rw [← hvalue]
    exact drop_add_of_drop hafterCount
  have hafterByte : coinb2.drop (m + 8 + 1) = p.script ++ p.coinb3 := drop_succ_of_drop hafterValue
  have hafterScript : coinb2.drop (m + 8 + 1 + p.script.length) = p.coinb3 ++ [] := by
    rw [List.append_nil]
    exact drop_add_of_drop hafterByte
  have hheadSplit : coinb2 = coinb2.take n ++ p.countSpelled ++ p.value ++
      (p.lengthByte :: (p.script ++ p.coinb3)) := by
    rw [← hafterValue, List.append_assoc, List.append_assoc]
    conv_lhs => rw [← List.take_append_drop n coinb2, h, ← List.singleton_append]
    rw [hafterValue]
    rfl
  have hheadLen : (coinb2.take n ++ p.countSpelled ++ p.value).length = m + 8 := by
    rw [List.length_append, List.length_append, List.length_take, hvalue]
    omega
  have hhead := goSlice_front (coinb2.take n ++ p.countSpelled ++ p.value)
    (p.lengthByte :: (p.script ++ p.coinb3))
  rw [hheadLen, ← hheadSplit] at hhead
  have hscript := goSlice_eq (by omega) hafterByte
  have hcoinb3 := goSlice_eq (by omega) hafterScript
  have hend : m + 8 + 1 + p.script.length + p.coinb3.length = coinb2.length := by omega
  rw [hend] at hcoinb3
  have hvalueEnd : goInt ((m : Int) + 8) = ((m + 8 : Nat) : Int) :=
    goInt_add_natCast (n := 8) (by omega)
  have hscriptPos : goInt (((m + 8 : Nat) : Int) + 1) = ((m + 8 + 1 : Nat) : Int) :=
    goInt_add_natCast (n := 1) (by omega)
  have hnonempty : p.lengthByte ≠ 0 := by
    intro hzero
    rw [hzero] at hbyte
    exact p.script_ne_nil (List.length_eq_zero_iff.mp hbyte.symm)
  rw [CashStratum.splitOutputs, hread, ok_bind]
  dsimp only
  have hvalueFit : ¬ ((m + 8 : Nat) : Int) > coinb2.length :=
    not_lt.mpr (Int.ofNat_le.mpr (by omega))
  have hbyteFit : ¬ ((m + 8 : Nat) : Int) ≥ coinb2.length :=
    not_le.mpr (Int.ofNat_lt.mpr (by omega))
  rw [if_neg (by omega), hvalueEnd, if_neg hvalueFit, hhead, ok_bind, if_neg hbyteFit,
    goIndex_eq hafterValue, ok_bind, hscriptPos]
  rw [hbyte, goInt_add_natCast hbound, if_neg (not_or.mpr ⟨hnonempty, hscriptFit⟩), hscript,
    ok_bind, hcoinb3]
  rfl

/-! ### The outputs behind the first -/

/-- The lengths that so many outputs declare for their scripts, up to one that is cut off. -/
def declaredLengths : Nat → Bytes → List Nat
  | 0, _ => []
  | n + 1, p =>
    match sv2ReadCompactSize (p.drop 8) with
    | none => []
    | some (l, q) => l :: declaredLengths n (q.drop l)

/-- From a position in front of the slice the loop comes to no end that is accepted. -/
theorem tailEnd_negative {coinb3 : Bytes} {n : Nat} {i tail : Int}
    (hlen : coinb3.length ≤ 2 ^ 48) (hlow : -2 ^ 63 ≤ i) (hhigh : i < -2 ^ 48)
    (h : tailEnd coinb3 n i = .ok tail) : goInt (coinb3.length - tail) ≠ 4 := by
  cases n with
  | zero =>
    obtain rfl : i = tail := Except.ok.inj h
    unfold goInt
    omega
  | succ n =>
    have hnext : goInt (i + 8) = i + 8 := goInt_of_range (by omega) (by omega)
    rw [tailEnd, hnext, if_neg (by omega), readVarint_negative (by omega), ok_bind] at h
    cases h

/-- Where no length leaves the range of an `int`, what is accepted is so many outputs and a lock
time. -/
theorem tailEnd_accepted {coinb3 : Bytes} {n t : Nat} {tail : Int} (hlen : coinb3.length ≤ 2 ^ 48)
    (ht : t ≤ coinb3.length) (hrange : ∀ l ∈ declaredLengths n (coinb3.drop t), l < 2 ^ 63)
    (h : tailEnd coinb3 n t = .ok tail) (hfour : goInt (coinb3.length - tail) = 4) :
    ∃ (outs : List Bytes) (lockTime : Bytes), outs.length = n ∧ (∀ o ∈ outs, TxOutBytes o) ∧
      lockTime.length = 4 ∧ coinb3.drop t = outs.flatten ++ lockTime := by
  induction n generalizing t with
  | zero =>
    obtain rfl : (t : Int) = tail := Except.ok.inj h
    rw [goInt_of_range (by omega) (by omega)] at hfour
    refine ⟨[], coinb3.drop t, rfl, ?_, ?_, rfl⟩
    · intro o ho
      cases ho
    · rw [List.length_drop]
      omega
  | succ n ih =>
    have hvaluePos : goInt ((t : Int) + 8) = ((t + 8 : Nat) : Int) :=
      goInt_add_natCast (n := 8) (by omega)
    rw [tailEnd, hvaluePos] at h
    by_cases hvalueFit : t + 8 ≤ coinb3.length
    swap
    · rw [if_pos (by omega)] at h
      cases h
    rw [if_neg (by omega)] at h
    obtain ⟨value, hvalue, hvalueDrop⟩ := exists_piece hvalueFit
    obtain ⟨found, hread, h⟩ := bind_eq_ok.mp h
    cases found with
    | none => cases h
    | some found =>
      obtain ⟨l, next⟩ := found
      obtain ⟨c, hc, rfl, hfit, hdrop⟩ := readVarint_eq_some hlen hread
      dsimp only at h
      set m := t + 8 + c.length with hm
      have hlengths : declaredLengths (n + 1) (coinb3.drop t) =
          l :: declaredLengths n (coinb3.drop (m + l)) := by
        rw [declaredLengths, List.drop_drop, hdrop, hc.read]
        dsimp only
        rw [List.drop_drop]
      rw [hlengths] at hrange
      have hl : l < 2 ^ 63 := hrange l List.mem_cons_self
      rw [goInt_natCast hl] at h
      by_cases hwrap : m + l < 2 ^ 63
      · rw [goInt_add_natCast hwrap] at h
        by_cases hscriptFit : m + l ≤ coinb3.length
        swap
        · rw [if_pos (by omega)] at h
          cases h
        rw [if_neg (by omega)] at h
        obtain ⟨script, hscript, hscriptDrop⟩ := exists_piece hscriptFit
        obtain ⟨outs, lockTime, hcount, houts, hlock, hrest⟩ := ih hscriptFit
          (fun l' hl' => hrange l' (List.mem_cons_of_mem l hl')) h
        refine ⟨(value ++ c ++ script) :: outs, lockTime, ?_, ?_, hlock, ?_⟩
        · rw [List.length_cons, hcount]
        · intro o ho
          rcases List.mem_cons.mp ho with rfl | ho
          · exact TxOutBytes.mk value c script hvalue (by rwa [hscript])
          · exact houts o ho
        · rw [List.flatten_cons, hvalueDrop, hdrop, hscriptDrop, hrest]
          simp only [List.append_assoc]
      · -- the sum is past the last `int`, so the loop goes on far in front of the slice
        have hsum : goInt ((m : Int) + (l : Int)) = (m : Int) + l - 2 ^ 64 := by
          unfold goInt
          omega
        rw [hsum] at h
        rw [if_neg (by omega)] at h
        exact absurd hfour (tailEnd_negative hlen (by omega) (by omega) h)

theorem tailEnd_returns {coinb3 : Bytes} (hlen : coinb3.length ≤ 2 ^ 48) (n : Nat) (i : Int) :
    Returns (tailEnd coinb3 n i) := by
  induction n generalizing i with
  | zero => exact Returns.of_ok i
  | succ n ih =>
    rw [tailEnd]
    split
    · exact Returns.of_error _
    · refine (readVarint_returns hlen _).bind ?_
      intro found _
      cases found with
      | none => exact Returns.of_error _
      | some found =>
        dsimp only
        split
        · exact Returns.of_error _
        · exact ih _

/-- Outputs that are there declare no more than what there is. -/
theorem declaredLengths_le (outs : List Bytes) (lockTime : Bytes)
    (houts : ∀ o ∈ outs, TxOutBytes o) :
    ∀ l ∈ declaredLengths outs.length (outs.flatten ++ lockTime),
      l ≤ (outs.flatten ++ lockTime).length := by
  induction outs with
  | nil =>
    intro l hl
    cases hl
  | cons o outs ih =>
    intro l hl
    obtain ⟨value, c, script, hvalue, hc⟩ := houts o List.mem_cons_self
    have hparts : ((value ++ c ++ script) :: outs).flatten ++ lockTime =
        value ++ (c ++ (script ++ (outs.flatten ++ lockTime))) := by
      rw [List.flatten_cons]
      simp only [List.append_assoc]
    have hlengths : declaredLengths ((value ++ c ++ script) :: outs).length
        (value ++ (c ++ (script ++ (outs.flatten ++ lockTime)))) =
        script.length :: declaredLengths outs.length (outs.flatten ++ lockTime) := by
      rw [List.length_cons, declaredLengths, ← hvalue, List.drop_left, hc.read]
      dsimp only
      rw [List.drop_left]
    rw [hparts] at hl ⊢
    rw [hlengths] at hl
    simp only [List.length_append] at ih ⊢
    rcases List.mem_cons.mp hl with rfl | hl
    · omega
    · have hle := ih (fun o' ho' => houts o' (List.mem_cons_of_mem _ ho')) l hl
      omega

/-! ### What is accepted -/

theorem sigRemainder_returns {coinb1 coinb2 : Bytes} (hlen1 : coinb1.length ≤ 2 ^ 48)
    (en1Size en2Size : Int) :
    Returns (sigRemainder coinb1 en1Size en2Size coinb2) := by
  refine (readVarint_returns hlen1 _).bind ?_
  intro found _
  cases found with
  | none => exact Returns.of_error _
  | some found =>
    dsimp only
    split
    · exact Returns.of_error _
    split
    · exact Returns.of_error _
    split
    · next hrange hpos =>
        -- a remainder that is not empty is in the slice, and so is its first byte
        cases hbytes : coinb2 with
        | nil =>
          rw [hbytes] at hrange
          exact absurd (Or.inr hpos) hrange
        | cons push rest =>
          have hfirst : goIndex (push :: rest) 0 = .ok push :=
            goIndex_eq (n := 0) (q := rest) rfl
          rw [hfirst, ok_bind]
          split
          · exact Returns.of_error _
          · exact Returns.of_ok _
    · exact Returns.of_ok _

theorem pastSequence_returns {coinb2 : Bytes} {n : Nat} (hlen : coinb2.length ≤ 2 ^ 48)
    (hn : n ≤ coinb2.length) : Returns (pastSequence coinb2 n) := by
  have hpos : goInt ((n : Int) + 4) = ((n + 4 : Nat) : Int) := goInt_add_natCast (n := 4) (by omega)
  rw [pastSequence, hpos]
  by_cases hfit : n + 4 ≤ coinb2.length
  · obtain ⟨a, ha, hdrop⟩ := exists_piece hfit
    have hslice := goSlice_eq hn hdrop
    rw [ha] at hslice
    rw [if_neg (by omega), hslice, ok_bind]
    split
    · exact Returns.of_error _
    · exact Returns.of_ok _
  · rw [if_pos (by omega)]
    exact Returns.of_error _

theorem splitOutputs_returns {coinb2 : Bytes} {n : Nat} (hlen : coinb2.length ≤ 2 ^ 48) :
    Returns (splitOutputs coinb2 n) := by
  refine (readVarint_returns hlen _).bind ?_
  intro found hread
  cases found with
  | none => exact Returns.of_error _
  | some found =>
    obtain ⟨count, pos⟩ := found
    obtain ⟨c, -, rfl, hfit, -⟩ := readVarint_eq_some hlen hread
    dsimp only
    generalize n + c.length = m at hfit ⊢
    have hvalueEnd : goInt ((m : Int) + 8) = ((m + 8 : Nat) : Int) :=
      goInt_add_natCast (n := 8) (by omega)
    rw [hvalueEnd]
    split
    · exact Returns.of_error _
    split
    · exact Returns.of_error _
    · next hvalueFit =>
        have hhead := goSlice_front (coinb2.take (m + 8)) (coinb2.drop (m + 8))
        rw [List.length_take, Nat.min_eq_left (by omega), List.take_append_drop] at hhead
        rw [hhead, ok_bind]
        split
        · exact Returns.of_error _
        · next hbyteFit =>
            obtain ⟨byte, hbyte, hbyteDrop⟩ :=
              exists_piece (b := coinb2) (n := m + 8) (k := 1) (by omega)
            obtain ⟨len, rfl⟩ := List.length_eq_one_iff.mp hbyte
            have hlenBound := len.toNat_lt
            have hscriptPos : goInt (((m + 8 : Nat) : Int) + 1) = ((m + 8 + 1 : Nat) : Int) :=
              goInt_add_natCast (n := 1) (by omega)
            rw [goIndex_eq hbyteDrop, ok_bind, hscriptPos, goInt_add_natCast (by omega)]
            split
            · exact Returns.of_error _
            · next hscriptFit =>
                obtain ⟨script, hscript, hscriptDrop⟩ := exists_piece (b := coinb2)
                  (n := m + 8 + 1) (k := len.toNat) (by omega)
                have hslice := goSlice_eq (by omega) hscriptDrop
                have hrest := goSlice_eq (b := coinb2) (n := m + 8 + 1 + len.toNat)
                  (a := coinb2.drop (m + 8 + 1 + len.toNat)) (q := []) (by omega)
                  (List.append_nil _).symm
                have hrestEnd : m + 8 + 1 + len.toNat +
                    (coinb2.drop (m + 8 + 1 + len.toNat)).length = coinb2.length := by
                  rw [List.length_drop]
                  omega
                rw [hscript] at hslice
                rw [hrestEnd] at hrest
                rw [hslice, ok_bind, hrest]
                exact Returns.of_ok _

/-- The two strings of a job cut into their parts, where the code's own sums of the declared
lengths come out: the length of the scriptSig, and the end of the walk over `coinb3`. -/
structure JobParts (coinb1 coinb2 : Bytes) (en1Size en2Size : Nat) where
  sig : SigParts
  outputs : OutputParts
  tail : Int
  coinb1_eq : coinb1 = sig.front ++ sig.spelled ++ sig.sigFront
  coinb2_eq : coinb2 = sig.sigRest ++ ([0xff, 0xff, 0xff, 0xff] ++ outputs.bytes)
  total : sig.total en1Size en2Size % 2 ^ 64 = sig.scriptLen
  tailEnd_eq : tailEnd outputs.coinb3 (outputs.count - 1) 0 = .ok tail
  four : goInt (outputs.coinb3.length - tail) = 4

/-- `coinb2` up to the length byte of the script. -/
def JobParts.head {coinb1 coinb2 : Bytes} {en1Size en2Size : Nat}
    (p : JobParts coinb1 coinb2 en1Size en2Size) : Bytes :=
  p.sig.sigRest ++ [0xff, 0xff, 0xff, 0xff] ++ p.outputs.countSpelled ++ p.outputs.value

/-- `splitCoinb2` succeeds exactly on the jobs that have such parts, and returns them. -/
theorem splitCoinb2_eq_ok_iff {coinb1 coinb2 head script coinb3 : Bytes} {en1Size en2Size : Nat}
    (hlen1 : coinb1.length ≤ 2 ^ 48) (hlen2 : coinb2.length ≤ 2 ^ 48) :
    splitCoinb2 coinb1 en1Size en2Size coinb2 = .ok (head, script, coinb3) ↔
      ∃ p : JobParts coinb1 coinb2 en1Size en2Size,
        head = p.head ∧ script = p.outputs.script ∧ coinb3 = p.outputs.coinb3 := by
  constructor
  · intro h
    obtain ⟨pos, hsig, h⟩ := bind_eq_ok.mp h
    obtain ⟨sig, hcoinb1, htotal, hcoinb2, rfl⟩ := sigRemainder_eq_ok hlen1 hlen2 hsig
    have hrest : sig.sigRest.length ≤ coinb2.length := by
      conv_rhs => rw [hcoinb2]
      rw [List.length_append]
      exact Nat.le_add_right _ _
    obtain ⟨pos, hseq, h⟩ := bind_eq_ok.mp h
    obtain ⟨rfl, hseqFit, hseqDrop⟩ := pastSequence_eq_ok hlen2 hrest hseq
    obtain ⟨r, houts, h⟩ := bind_eq_ok.mp h
    obtain ⟨outputs, houtsDrop, rfl⟩ := splitOutputs_eq_ok hlen2 hseqFit houts
    obtain ⟨tail, htail, h⟩ := bind_eq_ok.mp h
    by_cases hfour : goInt (outputs.coinb3.length - tail) ≠ 4
    · rw [if_pos hfour] at h
      cases h
    rw [if_neg hfour] at h
    have hwhole : coinb2 = sig.sigRest ++ ([0xff, 0xff, 0xff, 0xff] ++ outputs.bytes) := by
      rw [← houtsDrop, ← hseqDrop]
      exact hcoinb2
    have htake : coinb2.take (sig.sigRest.length + 4) =
        sig.sigRest ++ [0xff, 0xff, 0xff, 0xff] := by
      rw [hwhole, ← List.append_assoc]
      exact List.take_left' List.length_append
    obtain ⟨hhead, hscript, hcoinb3⟩ : head = coinb2.take (sig.sigRest.length + 4) ++
        outputs.countSpelled ++ outputs.value ∧ script = outputs.script ∧
        coinb3 = outputs.coinb3 := by
      have hr := Except.ok.inj h
      exact ⟨(congrArg Prod.fst hr).symm, (congrArg (fun r => r.2.1) hr).symm,
        (congrArg (fun r => r.2.2) hr).symm⟩
    refine ⟨⟨sig, outputs, tail, hcoinb1, hwhole, htotal, htail, not_not.mp hfour⟩, ?_, hscript,
      hcoinb3⟩
    rw [JobParts.head, hhead, htake]
  · rintro ⟨⟨sig, outputs, tail, rfl, hsplit, htotal, htail, hfour⟩, rfl, rfl, rfl⟩
    have hlength := congrArg List.length hsplit
    rw [List.length_append, List.length_append] at hlength
    have hff : ([0xff, 0xff, 0xff, 0xff] : Bytes).length = 4 := rfl
    have hsig := sig.sigRemainder hlen1 (hsplit ▸ hlen2) htotal
    rw [← hsplit] at hsig
    have hseqDrop : coinb2.drop sig.sigRest.length =
        [0xff, 0xff, 0xff, 0xff] ++ outputs.bytes := by
      rw [hsplit, List.drop_left]
    have hseq := pastSequence_eq hlen2 (by omega) hseqDrop
    have houtsDrop : coinb2.drop (sig.sigRest.length + 4) = outputs.bytes :=
      drop_add_of_drop hseqDrop
    have houts := outputs.splitOutputs hlen2 (by omega) houtsDrop
    have htake : coinb2.take (sig.sigRest.length + 4) =
        sig.sigRest ++ [0xff, 0xff, 0xff, 0xff] := by
      rw [hsplit, ← List.append_assoc]
      exact List.take_left' List.length_append
    rw [splitCoinb2, hsig, ok_bind, hseq, ok_bind, houts, ok_bind]
    dsimp only
    rw [htail, ok_bind, if_neg (not_not.mpr hfour), htake]
    rfl

/-- **It never panics.** -/
theorem splitCoinb2_returns {coinb1 coinb2 : Bytes} {en1Size en2Size : Nat}
    (hlen1 : coinb1.length ≤ 2 ^ 48) (hlen2 : coinb2.length ≤ 2 ^ 48) :
    Returns (splitCoinb2 coinb1 en1Size en2Size coinb2) := by
  refine (sigRemainder_returns hlen1 _ _).bind ?_
  intro pos hsig
  obtain ⟨sig, -, -, hcoinb2, rfl⟩ := sigRemainder_eq_ok hlen1 hlen2 hsig
  have hrest : sig.sigRest.length ≤ coinb2.length := by
    conv_rhs => rw [hcoinb2]
    rw [List.length_append]
    exact Nat.le_add_right _ _
  refine (pastSequence_returns hlen2 hrest).bind ?_
  intro pos hseq
  obtain ⟨rfl, hseqFit, -⟩ := pastSequence_eq_ok hlen2 hrest hseq
  refine (splitOutputs_returns hlen2).bind ?_
  intro r houts
  obtain ⟨outputs, houtsDrop, rfl⟩ := splitOutputs_eq_ok hlen2 hseqFit houts
  have hcoinb3 : outputs.coinb3.length ≤ 2 ^ 48 := by
    have hlength := congrArg List.length houtsDrop
    simp only [OutputParts.bytes, List.length_append, List.length_drop] at hlength
    omega
  refine (tailEnd_returns hcoinb3 _ _).bind ?_
  intro tail _
  split
  · exact Returns.of_error _
  · exact Returns.of_ok _

/-! ### The transaction of a job -/

/-- The end of a transaction of one input, from the length of its scriptSig on, with its first
output apart from the others. -/
structure TxTail where
  scriptLen : Bytes
  scriptSig : Bytes
  count : Bytes
  value : Bytes
  lengthField : Bytes
  script : Bytes
  outs : List Bytes
  lockTime : Bytes
  spells_scriptSig : SpellsCompactSize scriptLen scriptSig.length
  spells_count : SpellsCompactSize count (outs.length + 1)
  length_value : value.length = 8
  spells_script : SpellsCompactSize lengthField script.length
  txOutBytes : ∀ o ∈ outs, TxOutBytes o
  length_lockTime : lockTime.length = 4

/-- The bytes, with the sequence `ffffffff`. -/
def TxTail.bytes (t : TxTail) : Bytes :=
  t.scriptLen ++ t.scriptSig ++ [0xff, 0xff, 0xff, 0xff] ++ t.count ++ t.value ++ t.lengthField ++
    t.script ++ (t.outs.flatten ++ t.lockTime)

/-- What a successful split promises: `coinb2` is what was returned around one length byte, and
with any two extranonces of the two sizes the job ends in the tail of a transaction whose output
0 has that length byte and the script, with `coinb3` behind it. -/
def WellSplit (coinb1 : Bytes) (en1Size en2Size : Nat) (coinb2 head script coinb3 : Bytes) : Prop :=
  ∃ lengthByte : UInt8, coinb2 = head ++ [lengthByte] ++ script ++ coinb3 ∧
    ∀ en1 en2 : Bytes, en1.length = en1Size → en2.length = en2Size →
      ∃ t : TxTail, coinb1 ++ en1 ++ en2 ++ coinb2 = coinb1.take scriptSigLenOffset ++ t.bytes ∧
        t.lengthField = [lengthByte] ∧ t.script = script ∧ t.outs.flatten ++ t.lockTime = coinb3

variable {coinb1 coinb2 : Bytes} {en1Size en2Size : Nat}

/-- The lengths of a job are what they say: the script has one of a single byte, no script behind
it has one that is negative as an `int`, and the scriptSig has one that 64 bits hold. -/
structure JobParts.Plain (p : JobParts coinb1 coinb2 en1Size en2Size) : Prop where
  script_lt : p.outputs.script.length < 0xfd
  declared_lt : ∀ l ∈ declaredLengths (p.outputs.count - 1) p.outputs.coinb3, l < 2 ^ 63
  total_lt : p.sig.total en1Size en2Size < 2 ^ 64

theorem JobParts.take_coinb1 (p : JobParts coinb1 coinb2 en1Size en2Size) :
    coinb1.take scriptSigLenOffset = p.sig.front := by
  have htake : (p.sig.front ++ (p.sig.spelled ++ p.sig.sigFront)).take scriptSigLenOffset =
      p.sig.front := List.take_left' p.sig.length_front
  rw [← List.append_assoc] at htake
  exact (congrArg (List.take scriptSigLenOffset) p.coinb1_eq).trans htake

/-- A job whose lengths are plain is well split. -/
theorem JobParts.Plain.wellSplit {p : JobParts coinb1 coinb2 en1Size en2Size} (h : p.Plain)
    (hlen : coinb2.length ≤ 2 ^ 48) :
    WellSplit coinb1 en1Size en2Size coinb2 p.head p.outputs.script p.outputs.coinb3 := by
  have hcoinb3 : p.outputs.coinb3.length ≤ 2 ^ 48 := by
    have hlength := congrArg List.length p.coinb2_eq
    simp only [OutputParts.bytes, List.length_append] at hlength
    omega
  obtain ⟨outs, lockTime, hcount, houts, hlock, hrest⟩ := tailEnd_accepted hcoinb3
    (Nat.zero_le _) h.declared_lt p.tailEnd_eq p.four
  rw [List.drop_zero] at hrest
  have hcountEq : p.outputs.count = outs.length + 1 := by
    have hone := p.outputs.one_le_count
    omega
  refine ⟨p.outputs.lengthByte, ?_, ?_⟩
  · conv_lhs => rw [p.coinb2_eq]
    simp only [JobParts.head, OutputParts.bytes, List.append_assoc]
  · intro en1 en2 hen1 hen2
    have hsig : p.sig.scriptLen = (p.sig.sigFront ++ en1 ++ en2 ++ p.sig.sigRest).length := by
      rw [← p.total, Nat.mod_eq_of_lt h.total_lt, SigParts.total]
      simp only [List.length_append, hen1, hen2]
    have hbyte : SpellsCompactSize [p.outputs.lengthByte] p.outputs.script.length := by
      have hlt : p.outputs.lengthByte < 0xfd := by
        rw [UInt8.lt_iff_toNat_lt, p.outputs.lengthByte_toNat]
        exact h.script_lt
      rw [SpellsCompactSize, sv2ReadCompactSize, if_pos hlt, p.outputs.lengthByte_toNat]
    refine ⟨{
      scriptLen := p.sig.spelled
      scriptSig := p.sig.sigFront ++ en1 ++ en2 ++ p.sig.sigRest
      count := p.outputs.countSpelled
      value := p.outputs.value
      lengthField := [p.outputs.lengthByte]
      script := p.outputs.script
      outs := outs
      lockTime := lockTime
      spells_scriptSig := hsig ▸ p.sig.spells
      spells_count := hcountEq ▸ p.outputs.spells
      length_value := p.outputs.length_value
      spells_script := hbyte
      txOutBytes := houts
      length_lockTime := hlock }, ?_, rfl, rfl, hrest.symm⟩
    rw [p.take_coinb1, TxTail.bytes]
    dsimp only
    rw [← hrest]
    refine (congrArg₂ (fun a b => a ++ en1 ++ en2 ++ b) p.coinb1_eq p.coinb2_eq).trans ?_
    simp only [OutputParts.bytes, List.append_assoc]

/-- A job that is well split has plain lengths. -/
theorem WellSplit.plain {p : JobParts coinb1 coinb2 en1Size en2Size} (hlen : coinb2.length ≤ 2 ^ 48)
    (h : WellSplit coinb1 en1Size en2Size coinb2 p.head p.outputs.script p.outputs.coinb3) :
    p.Plain := by
  obtain ⟨lengthByte, -, h⟩ := h
  obtain ⟨t, htx, hfield, hscript, hcoinb3⟩ := h (List.replicate en1Size 0)
    (List.replicate en2Size 0) List.length_replicate List.length_replicate
  have hshort : p.outputs.script.length < 0xfd := by
    rw [← hscript]
    refine (t.spells_script.one_byte ?_).1
    rw [hfield]
    rfl
  -- both sides start with the same length, so the bytes behind it are the same
  have hbehind : p.sig.scriptLen = t.scriptSig.length ∧
      p.sig.sigFront ++ List.replicate en1Size 0 ++ List.replicate en2Size 0 ++ p.sig.sigRest ++
          [0xff, 0xff, 0xff, 0xff] ++ p.outputs.countSpelled ++
          (p.outputs.value ++ [p.outputs.lengthByte] ++ p.outputs.script ++ p.outputs.coinb3) =
        t.scriptSig ++ [0xff, 0xff, 0xff, 0xff] ++ t.count ++
          (t.value ++ t.lengthField ++ t.script ++ (t.outs.flatten ++ t.lockTime)) := by
    have hparts : p.sig.front ++ (p.sig.spelled ++ (p.sig.sigFront ++ (List.replicate en1Size 0 ++
        (List.replicate en2Size 0 ++ (p.sig.sigRest ++ ([0xff, 0xff, 0xff, 0xff] ++
          p.outputs.bytes)))))) = p.sig.front ++ t.bytes := by
      rw [p.take_coinb1] at htx
      refine Eq.trans ?_ htx
      refine Eq.trans ?_ (congrArg₂ (fun a b => a ++ List.replicate en1Size 0 ++
        List.replicate en2Size 0 ++ b) p.coinb1_eq p.coinb2_eq).symm
      simp only [List.append_assoc]
    have hread := congrArg sv2ReadCompactSize (List.append_cancel_left hparts)
    simp only [TxTail.bytes, List.append_assoc] at hread
    rw [p.sig.spells.read, t.spells_scriptSig.read] at hread
    obtain ⟨hn, hq⟩ := Prod.mk.inj (Option.some.inj hread)
    refine ⟨hn, ?_⟩
    simp only [List.append_assoc]
    simpa only [OutputParts.bytes, List.append_assoc] using hq
  obtain ⟨hscriptLen, hbytes⟩ := hbehind
  have hrear : (p.outputs.value ++ [p.outputs.lengthByte] ++ p.outputs.script ++
      p.outputs.coinb3).length =
      (t.value ++ t.lengthField ++ t.script ++ (t.outs.flatten ++ t.lockTime)).length := by
    rw [hcoinb3, hscript, hfield]
    simp only [List.length_append, p.outputs.length_value, t.length_value, List.length_singleton]
  have hfront := (List.append_inj' hbytes hrear).1
  have hlength := congrArg List.length hfront
  have hmod := p.total
  have hcount := p.outputs.spells.length_bounds
  have hcount' := t.spells_count.length_bounds
  rw [hscriptLen] at hmod
  simp only [List.length_append, List.length_replicate] at hlength
  -- the two counts differ by few bytes, the sum and its remainder by none or by many
  have htotal : p.sig.total en1Size en2Size < 2 ^ 64 := by
    rw [SigParts.total] at hmod ⊢
    omega
  rw [Nat.mod_eq_of_lt htotal, SigParts.total] at hmod
  have hcountBytes : p.outputs.countSpelled = t.count :=
    (List.append_inj' hfront (by omega)).2
  have hcountEq : p.outputs.count = t.outs.length + 1 := by
    have hread := p.outputs.spells
    rw [SpellsCompactSize, hcountBytes, t.spells_count] at hread
    exact (Prod.mk.inj (Option.some.inj hread)).1.symm
  refine ⟨hshort, ?_, htotal⟩
  intro l hl
  rw [hcountEq, Nat.add_sub_cancel, ← hcoinb3] at hl
  have hle := declaredLengths_le t.outs t.lockTime t.txOutBytes l hl
  have hall := congrArg List.length p.coinb2_eq
  rw [hcoinb3] at hle
  simp only [OutputParts.bytes, List.length_append] at hall
  omega

/-- **`splitCoinb2` keeps its promise exactly on the jobs whose lengths are plain**: it never
panics, and what it accepts is well split unless the parts that it accepts have a script of 253
bytes or more, an output behind it that declares `2 ^ 63` bytes or more, or extranonce sizes that
wrap the length of the scriptSig. -/
theorem split_coinb2_sound_iff (coinb1 coinb2 : GoSlice) (en1Size en2Size : Nat) :
    (Returns (splitCoinb2 coinb1.bytes en1Size en2Size coinb2.bytes) ∧
      ∀ head script coinb3,
        splitCoinb2 coinb1.bytes en1Size en2Size coinb2.bytes = .ok (head, script, coinb3) →
        WellSplit coinb1.bytes en1Size en2Size coinb2.bytes head script coinb3) ↔
    ∀ p : JobParts coinb1.bytes coinb2.bytes en1Size en2Size, p.Plain := by
  have hok : ∀ head script coinb3,
      splitCoinb2 coinb1.bytes en1Size en2Size coinb2.bytes = .ok (head, script, coinb3) ↔
        ∃ p : JobParts coinb1.bytes coinb2.bytes en1Size en2Size,
          head = p.head ∧ script = p.outputs.script ∧ coinb3 = p.outputs.coinb3 := by
    intro head script coinb3
    exact splitCoinb2_eq_ok_iff coinb1.length_le coinb2.length_le
  constructor
  · rintro ⟨-, hsplit⟩ p
    refine WellSplit.plain coinb2.length_le (hsplit _ _ _ ?_)
    exact (hok _ _ _).mpr ⟨p, rfl, rfl, rfl⟩
  · intro hplain
    refine ⟨splitCoinb2_returns coinb1.length_le coinb2.length_le, ?_⟩
    intro head script coinb3 h
    obtain ⟨p, rfl, rfl, rfl⟩ := (hok head script coinb3).mp h
    exact (hplain p).wellSplit coinb2.length_le

/-- The first string of a job with a scriptSig of eight bytes, which are all extranonce. -/
def negativeCoinb1 : GoSlice := ⟨List.replicate 41 0 ++ [8], by decide⟩

/-- A second string of two outputs, where the script of the second has `2 ^ 64 - 4` bytes. -/
def negativeCoinb2 : GoSlice :=
  ⟨[0xff, 0xff, 0xff, 0xff] ++ ([2] ++ List.replicate 8 0 ++ [1] ++ [0x51] ++
    (List.replicate 8 0 ++ 0xff :: leBytes 8 (2 ^ 64 - 4))), by decide⟩

/-- The walk comes back to the length it has read, four bytes in front of the end. -/
def negativeParts : JobParts negativeCoinb1.bytes negativeCoinb2.bytes 4 4 where
  sig := {
    front := List.replicate 41 0
    spelled := [8]
    scriptLen := 8
    sigFront := []
    sigRest := []
    length_front := rfl
    spells := rfl
    push := by
      intro push hmem
      cases hmem }
  outputs := {
    countSpelled := [2]
    count := 2
    value := List.replicate 8 0
    script := [0x51]
    coinb3 := List.replicate 8 0 ++ 0xff :: leBytes 8 (2 ^ 64 - 4)
    spells := rfl
    one_le_count := by decide
    count_le := by decide
    length_value := rfl
    script_ne_nil := by decide
    length_script := by decide }
  tail := 13
  coinb1_eq := by decide
  coinb2_eq := by decide
  total := by decide
  tailEnd_eq := by decide
  four := by decide

/-- A length that is negative as an `int` is accepted, and so is a job that is no transaction. -/
theorem negative_length_accepted :
    ¬ ∀ (coinb1 coinb2 : GoSlice) (en1Size en2Size : Nat),
      Returns (splitCoinb2 coinb1.bytes en1Size en2Size coinb2.bytes) ∧
      ∀ head script coinb3,
        splitCoinb2 coinb1.bytes en1Size en2Size coinb2.bytes = .ok (head, script, coinb3) →
        WellSplit coinb1.bytes en1Size en2Size coinb2.bytes head script coinb3 := by
  intro h
  have hsplit := (h negativeCoinb1 negativeCoinb2 4 4).2 _ _ _
    ((splitCoinb2_eq_ok_iff negativeCoinb1.length_le negativeCoinb2.length_le).mpr
      ⟨negativeParts, rfl, rfl, rfl⟩)
  have hplain := WellSplit.plain negativeCoinb2.length_le hsplit
  have hlt := hplain.declared_lt (2 ^ 64 - 4) (by decide)
  omega

end CashStratum
