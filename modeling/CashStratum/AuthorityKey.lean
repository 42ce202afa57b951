/-
CashStratum/AuthorityKey.lean

The spelling of an SV2 authority key (`sv2_noise.c`): Base58 of the version, the 32 bytes of the
key and a checksum of four bytes, written by `bin_to_base58` and read by `base58_decode`.

Both keep a digit array that grows, least significant digit first, and both are one pass
(`mulAddDigits`) for each digit of the other base.  The writer is the encoding of `Base58`
(`binToBase58_eq`); the reader gives the bytes of the value, with a zero byte for every '1' in
front.  A payload starts with the version byte, which is not zero, so neither has anything in
front and the spelling is exact (`authority_b58_exact`).
-/
import CashStratum.Base58

namespace CashStratum

/-! ### The two conversions -/

/-- The digits of `bin_to_base58`, after the bytes. -/
def b58Digits (data : Bytes) : Bytes :=
  data.foldl (fun digits byte => mulAddDigits 58 256 byte.toNat digits) [0]

/-- `bin_to_base58` -/
def binToBase58 (data : Bytes) : Bytes :=
  let zeros := leadingZeros data
  let digits := b58Digits (data.drop zeros)
  -- from the top down, without the zero digits there
  List.replicate zeros 49 ++ (significant digits.reverse).map b58Char

/-- One character of `base58_decode`. -/
def pushB58Char (bytes : Bytes) (c : UInt8) : Option Bytes :=
  (b58Value c).map fun v => mulAddDigits 256 58 v.toNat bytes

/-- `base58_decode`, into a buffer of `outlen` bytes. -/
def base58Decode (s : Bytes) (outlen : Nat) : Option Bytes :=
  if s.length = 0 then none
  else
    let zeros := (s.takeWhile (· == 49)).length
    ((s.drop zeros).foldlM pushB58Char [0]).bind fun bytes =>
      if zeros + bytes.length > outlen then none
      else some (List.replicate zeros 0 ++ bytes.reverse)

/-! ### The spelling of a key -/

/-- An x-only public key, 32 bytes. -/
abbrev XonlyKey := Hash256

/-- The version, the key and the checksum. -/
def authorityPayload (xonly : XonlyKey) : Bytes :=
  let payload := [0x01, 0x00] ++ xonly.bytes
  payload ++ base58Checksum payload

/-- `sv2_noise_authority_xonly_to_b58` -/
def authorityXonlyToB58 (xonly : XonlyKey) : Bytes := binToBase58 (authorityPayload xonly)

/-- `sv2_noise_authority_b58_to_xonly` -/
def authorityB58ToXonly (b58 : Bytes) : Option XonlyKey :=
  (base58Decode b58 64).bind fun payload =>
    if h : payload.length = 2 + 32 + 4 then
      if payload.getD 0 0 ≠ 0x01 ∨ payload.getD 1 0 ≠ 0x00 then none
      else if base58Checksum (payload.take 34) ≠ payload.drop 34 then none
      else some ⟨(payload.drop 2).take 32, by rw [List.length_take, List.length_drop, h]; rfl⟩
    else none

/-! ### The writer -/

theorem numeral_b58Digits (data : Bytes) :
    numeral 58 (b58Digits data).reverse = numeral 256 data := by
  induction data using List.reverseRecOn with
  | nil => rfl
  | append_singleton data byte ih =>
    rw [b58Digits, List.foldl_append, List.foldl_cons, List.foldl_nil,
      numeral_mulAddDigits (by omega) (by omega), numeral_append_singleton, ← ih]
    rfl

theorem b58Digits_lt (data : Bytes) : ∀ d ∈ b58Digits data, d.toNat < 58 := by
  induction data using List.reverseRecOn with
  | nil =>
    intro d hd
    rw [List.mem_singleton.mp hd]
    decide
  | append_singleton data byte ih =>
    rw [b58Digits, List.foldl_append, List.foldl_cons, List.foldl_nil]
    exact mulAddDigits_lt (by omega) (by omega) 256 _ _

/-- `bin_to_base58` is the encoding. -/
theorem binToBase58_eq (data : Bytes) : binToBase58 data = base58Encode data := by
  have hdrop : data.drop (leadingZeros data) = significant data := by
    have hsplit : List.drop (List.replicate (leadingZeros data) (0 : UInt8)).length
        (List.replicate (leadingZeros data) 0 ++ significant data) = significant data :=
      List.drop_left
    rwa [List.length_replicate, replicate_append_significant] at hsplit
  have hvalue : numeral 58 (b58Digits (data.drop (leadingZeros data))).reverse =
      numeral 58 (digits 58 (2 * data.length) (numeral 256 data)) := by
    rw [numeral_b58Digits, hdrop, numeral_significant, numeral_digits (by omega) (by omega),
      Nat.mod_eq_of_lt (numeral_lt_pow58 data)]
  have hlt : ∀ d ∈ (b58Digits (data.drop (leadingZeros data))).reverse, d.toNat < 58 :=
    fun d hd => b58Digits_lt _ d (List.mem_reverse.mp hd)
  have hsame := significant_eq_of_numeral_eq (by omega) hlt (digits_lt (by omega) (by omega) _ _)
    hvalue
  rw [binToBase58, base58Encode, spellBase58, hsame]

/-! ### The reader -/

/-- What the loop over the characters has: the value of the characters, and no zero on top once
the value is not zero. -/
structure ReadBytes (n : Nat) (bytes : Bytes) : Prop where
  value : numeral 256 bytes.reverse = n
  top : n = 0 ∧ bytes = [0] ∨ bytes.getLast? ≠ some 0

theorem ReadBytes.push {n : Nat} {bytes : Bytes} (h : ReadBytes n bytes) (v : UInt8)
    (hv : n = 0 → v ≠ 0) : ReadBytes (n * 58 + v.toNat) (mulAddDigits 256 58 v.toNat bytes) where
  value := by rw [numeral_mulAddDigits (by omega) (by omega), h.value]
  top := by
    right
    rcases h.top with ⟨hn, rfl⟩ | htop
    · have hcarry : v.toNat ≠ 0 := fun hz => hv hn (UInt8.toNat_inj.mp hz)
      exact getLast?_mulAddDigits_one (by omega) (by omega) (by omega) (Or.inl hcarry)
    · exact getLast?_mulAddDigits (by omega) (by omega) (by omega) _ htop

/-- The loop reads the value of the characters, if the first of them is no '1'. -/
theorem foldlM_pushB58Char {n : Nat} {bytes : Bytes} (h : ReadBytes n bytes) (s : Bytes)
    (hhead : n = 0 → s.head? ≠ some 49) :
    (∀ out, s.foldlM pushB58Char bytes = some out →
      ∃ ds, s.mapM b58Value = some ds ∧ ReadBytes (n * 58 ^ ds.length + numeral 58 ds) out) ∧
    ∀ ds, s.mapM b58Value = some ds → ∃ out, s.foldlM pushB58Char bytes = some out := by
  induction s generalizing n bytes with
  | nil =>
    refine ⟨?_, fun ds _ => ⟨bytes, rfl⟩⟩
    rintro out hout
    rw [← show bytes = out from Option.some.inj hout]
    exact ⟨[], rfl, by simpa using h⟩
  | cons c s ih =>
    have hstep : ∀ v, b58Value c = some v →
        ReadBytes (n * 58 + v.toNat) (mulAddDigits 256 58 v.toNat bytes) ∧
          (n * 58 + v.toNat = 0 → s.head? ≠ some 49) := by
      intro v hv
      obtain ⟨-, hc⟩ := b58Char_b58Value hv
      have hzero : n = 0 → v ≠ 0 := by
        rintro hn rfl
        exact hhead hn (congrArg some hc)
      refine ⟨h.push v hzero, fun hsum => ?_⟩
      have hv0 : v.toNat = 0 := by omega
      exact absurd (UInt8.toNat_inj.mp hv0) (hzero (by omega))
    constructor
    · intro out hout
      rw [List.foldlM_cons] at hout
      obtain ⟨mid, hmid, hout⟩ := Option.bind_eq_some_iff.mp hout
      obtain ⟨v, hv, rfl⟩ := Option.map_eq_some_iff.mp hmid
      obtain ⟨hread, hnext⟩ := hstep v hv
      obtain ⟨ds, hds, hvalue⟩ := (ih hread hnext).1 out hout
      refine ⟨v :: ds, by simp [hv, hds], ?_⟩
      have hsum : n * 58 ^ (v :: ds).length + numeral 58 (v :: ds) =
          (n * 58 + v.toNat) * 58 ^ ds.length + numeral 58 ds := by
        rw [numeral_cons, List.length_cons, pow_succ]
        ring
      rw [hsum]
      exact hvalue
    · intro ds hds
      rw [List.mapM_cons] at hds
      obtain ⟨v, hv, hds⟩ := Option.bind_eq_some_iff.mp hds
      obtain ⟨vs, hvs, -⟩ := Option.bind_eq_some_iff.mp hds
      obtain ⟨hread, hnext⟩ := hstep v hv
      obtain ⟨out, hout⟩ := (ih hread hnext).2 vs hvs
      refine ⟨out, ?_⟩
      rw [List.foldlM_cons, pushB58Char, hv]
      exact hout

theorem readBytes_start : ReadBytes 0 [0] := ⟨rfl, Or.inl ⟨rfl, rfl⟩⟩

/-- Bytes without a zero on top are the bytes of their value. -/
theorem ReadBytes.eq {n : Nat} {bytes payload : Bytes} (h : ReadBytes n bytes) (hn : n ≠ 0)
    (hpayload : leadingZeros payload = 0) (hvalue : n = numeral 256 payload) :
    bytes.reverse = payload := by
  have htop : leadingZeros bytes.reverse = 0 := by
    have hlast := h.top.resolve_left fun hzero => hn hzero.1
    rcases hrev : bytes.reverse with - | ⟨d, ds⟩
    · rfl
    · have hd : bytes.getLast? = some d := by
        rw [← List.head?_reverse, hrev]
        rfl
      have hne : d ≠ 0 := fun hz => hlast (by rw [hd, hz])
      simp [leadingZeros, hne]
  have hsig := significant_eq_of_numeral_eq (by omega) (toNat_lt_256 bytes.reverse)
    (toNat_lt_256 payload) (h.value.trans hvalue)
  rw [← replicate_append_significant bytes.reverse, ← replicate_append_significant payload, htop,
    hpayload, hsig]

/-- **What the decoder reads of the bytes without a zero in front**: their encoding, and nothing
else. -/
theorem base58Decode_eq_some_iff {s payload : Bytes} {outlen : Nat}
    (hzeros : leadingZeros payload = 0) (hne : payload ≠ []) (hlen : payload.length ≤ outlen) :
    base58Decode s outlen = some payload ↔ s = base58Encode payload := by
  have hpos : numeral 256 payload ≠ 0 := by
    intro hzero
    have hsig : significant payload = significant [] :=
      significant_eq_of_numeral_eq (by omega) (toNat_lt_256 payload) (toNat_lt_256 []) hzero
    rw [← replicate_append_significant payload, hzeros, hsig] at hne
    exact hne rfl
  rw [base58Encode, hzeros, spellBase58_eq_map]
  constructor
  · intro h
    rw [base58Decode] at h
    split_ifs at h
    obtain ⟨bytes, hbytes, h⟩ := Option.bind_eq_some_iff.mp h
    split_ifs at h
    have hout := Option.some.inj h
    -- a '1' in front would be a zero byte in front
    have hnone : (s.takeWhile (· == 49)).length = 0 := by
      rcases hk : (s.takeWhile (· == 49)).length with - | k
      · rfl
      · rw [hk] at hout
        rw [← hout] at hzeros
        simp [leadingZeros, List.replicate_succ] at hzeros
    have hhead : s.head? ≠ some 49 := by
      rcases s with - | ⟨c, s⟩
      · exact fun hc => by cases hc
      · rintro hc
        rw [List.head?_cons, Option.some.injEq] at hc
        simp [hc] at hnone
    rw [hnone, List.replicate_zero, List.nil_append] at hout
    rw [hnone, List.drop_zero] at hbytes
    obtain ⟨ds, hds, hread⟩ := (foldlM_pushB58Char readBytes_start s fun _ => hhead).1 bytes hbytes
    obtain ⟨hsmall, hs⟩ := (mapM_b58Value_eq_some_iff s ds).mp hds
    have hvalue : numeral 58 ds = numeral 256 payload := by
      have hv := hread.value
      rw [hout] at hv
      omega
    have hlead : leadingZeros ds = 0 := by
      rcases ds with - | ⟨d, ds⟩
      · rfl
      · have hd : d ≠ 0 := by
          rintro rfl
          rw [hs] at hhead
          exact hhead rfl
        simp [leadingZeros, hd]
    rw [hs, eq_spellDigits hsmall hvalue, hlead]
  · rintro rfl
    have hsmall := spellDigits_lt 0 payload
    have hvalue := numeral_spellDigits 0 payload
    have hlead : leadingZeros (spellDigits 0 payload) = 0 := leadingZeros_replicate_append 0 _
    rcases hspell : spellDigits 0 payload with - | ⟨d, ds⟩
    · rw [hspell] at hvalue
      exact absurd hvalue.symm hpos
    have hd : d ≠ 0 := by
      rintro rfl
      rw [hspell] at hlead
      simp [leadingZeros] at hlead
    have hc : b58Char d ≠ 49 := by
      intro hc
      have hd58 : d.toNat < 58 := hsmall d (by rw [hspell]; exact List.mem_cons_self)
      have hback := (b58Value_eq_some_iff (b58Char d) d).mpr ⟨hd58, rfl⟩
      rw [hc] at hback
      exact hd (Option.some.inj (hback.symm.trans (by decide : b58Value 49 = some 0)))
    have hread := (mapM_b58Value_eq_some_iff ((d :: ds).map b58Char) (d :: ds)).mpr
      ⟨hspell ▸ hsmall, rfl⟩
    have hhead : ((d :: ds).map b58Char).head? ≠ some 49 := fun heq => hc (Option.some.inj heq)
    have hloop := foldlM_pushB58Char readBytes_start ((d :: ds).map b58Char) fun _ => hhead
    obtain ⟨out, hout⟩ := hloop.2 _ hread
    obtain ⟨ds', hds', hbytes⟩ := hloop.1 out hout
    rw [hread, Option.some.injEq] at hds'
    rw [← hds', ← hspell, hvalue, Nat.zero_mul, Nat.zero_add] at hbytes
    have hrev := hbytes.eq hpos hzeros rfl
    have htake : (((d :: ds).map b58Char).takeWhile (· == 49)).length = 0 := by
      rw [List.map_cons, List.takeWhile_cons_of_neg (by simpa using hc)]
      rfl
    have hfit : ¬ 0 + out.length > outlen := by
      rw [← hrev, List.length_reverse] at hlen
      omega
    rw [base58Decode, if_neg (by simp)]
    dsimp only
    rw [htake, List.drop_zero, hout, Option.bind_some, if_neg hfit, hrev]
    rfl

/-! ### Keys -/

/-- The version byte is not zero. -/
theorem leadingZeros_authorityPayload (xonly : XonlyKey) :
    leadingZeros (authorityPayload xonly) = 0 := rfl

theorem authorityPayload_ne_nil (xonly : XonlyKey) : authorityPayload xonly ≠ [] := by
  intro h
  cases h

theorem length_authorityPayload (xonly : XonlyKey) : (authorityPayload xonly).length = 38 := by
  have hlen := xonly.length_bytes
  simp [authorityPayload, length_base58Checksum, hlen]

/-- **The spelling of a key is exact**: every key is read back from its spelling, and a string
that is read as a key is the spelling of this key. -/
theorem authority_b58_exact :
    (∀ k, authorityB58ToXonly (authorityXonlyToB58 k) = some k) ∧
      ∀ s k, authorityB58ToXonly s = some k → s = authorityXonlyToB58 k := by
  have hspells : ∀ s k, base58Decode s 64 = some (authorityPayload k) ↔
      s = authorityXonlyToB58 k := by
    intro s k
    have hlen := length_authorityPayload k
    rw [authorityXonlyToB58, binToBase58_eq]
    exact base58Decode_eq_some_iff (leadingZeros_authorityPayload k) (authorityPayload_ne_nil k)
      (by omega)
  constructor
  · intro k
    have hlen := length_authorityPayload k
    have hdecode := (hspells _ k).mpr rfl
    have hfront : ([0x01, 0x00] ++ k.bytes).length = 34 := by
      rw [List.length_append, k.length_bytes]
      rfl
    have htake : (authorityPayload k).take 34 = [0x01, 0x00] ++ k.bytes := List.take_left' hfront
    have hdrop : (authorityPayload k).drop 34 = base58Checksum ([0x01, 0x00] ++ k.bytes) :=
      List.drop_left' hfront
    have hkey : ((authorityPayload k).drop 2).take 32 = k.bytes := List.take_left' k.length_bytes
    have hversion : ¬ ((authorityPayload k).getD 0 0 ≠ 0x01 ∨
        (authorityPayload k).getD 1 0 ≠ 0x00) := by
      simp [authorityPayload]
    rw [authorityB58ToXonly, hdecode, Option.bind_some, dif_pos hlen, if_neg hversion,
      if_neg (by rw [htake, hdrop]; exact not_not.mpr rfl)]
    exact congrArg some (Hash256.ext hkey)
  · intro s k h
    obtain ⟨payload, hdecode, h⟩ := Option.bind_eq_some_iff.mp h
    split_ifs at h with hlen hversion hsum
    rw [not_or, not_not, not_not] at hversion
    have hkey : k.bytes = (payload.drop 2).take 32 :=
      congrArg Hash256.bytes (Option.some.inj h).symm
    -- the payload is the one of the key
    have hpayload : payload = authorityPayload k := by
      rcases payload with - | ⟨a, - | ⟨b, rest⟩⟩
      · cases hlen
      · cases hlen
      · obtain ⟨ha, hb⟩ := hversion
        change a = 1 at ha
        change b = 0 at hb
        change k.bytes = rest.take 32 at hkey
        subst ha hb
        change ¬ base58Checksum ([1, 0] ++ rest.take 32) ≠ rest.drop 32 at hsum
        rw [authorityPayload, hkey, not_not.mp hsum, List.append_assoc, List.take_append_drop]
        rfl
    subst hpayload
    exact (hspells s k).mp hdecode

end CashStratum
