/-
CashStratum/GoCashaddr.lean

The CashAddr decoder of the API (`internal/cashaddr`), a second implementation
of the one of `cashaddr_simple.c`.

Behind the prefix it reads what the pool's decoder reads, but asks for a zero
size field: `decodeBody_eq_ok_iff` says that it accepts the payloads of 20-byte
hashes and nothing else.  In front, it compares the string with its Unicode case
forms.  A string that is its own upper case may hold a Kelvin sign for a `K`, or
a dotted capital I for an `I`, since these too have the lower case `k` and `i`
(`upper_iff`).  `decoders_agree_iff` compares the two decoders: they agree on a string
unless it is an address with size bits, which only the pool takes, or an address
in capitals with one of these two letters in it, which only the API takes.
-/
import CashStratum.Address
import CashStratum.Runes

namespace CashStratum

namespace Cashaddr

/-! ### cashaddr.go -/

/-- `TypeP2PKH` -/
def typeP2PKH : UInt8 := 0

/-- `TypeP2SH` -/
def typeP2SH : UInt8 := 8

/-- `DefaultPrefix`, "bitcoincash". -/
def defaultPrefix : Bytes := [98, 105, 116, 99, 111, 105, 110, 99, 97, 115, 104]

def hashLen : Nat := 20

def payloadVals : Nat := 34

def checksumLen : Nat := 8

/-- `polymod`: the turns of its loop are those of the pool's. -/
def polymod (v : Bytes) : Nat := v.foldl polymodStep 1 ^^^ 1

/-- `strings.IndexByte(charset, c)`, as the byte of `data`. -/
def charsetIndex (c : UInt8) : Option UInt8 := (charset.idxOf? c).map UInt8.ofNat

/-- The variables of the regrouping loop. -/
structure Regroup where
  acc : Nat
  bits : Nat
  raw : Bytes

/-- One turn of the regrouping loop. -/
def regroupStep (s : Regroup) (d : UInt8) : Regroup :=
  let acc := s.acc <<< 5 ||| d.toNat
  let bits := s.bits + 5
  if bits ≥ 8 then
    let bits := bits - 8
    { acc := acc &&& (1 <<< bits - 1), bits, raw := s.raw ++ [UInt8.ofNat (acc >>> bits)] }
  else { acc, bits, raw := s.raw }

/-- `raw`: the payload symbols in bytes. -/
def regroup (data : Bytes) : Bytes :=
  (data.foldl regroupStep { acc := 0, bits := 0, raw := [] }).raw

/-- `Decode` from the version byte on. -/
def readVersion (raw : Bytes) : Except String (UInt8 × Bytes) :=
  let version := raw.getD 0 0
  if version &&& 0x80 ≠ 0 then .error "cashaddr: reserved version bit set"
  else if version &&& 0x07 ≠ 0 then .error "cashaddr: unsupported hash size"
  else
    let typ := version &&& 0x78
    if typ ≠ typeP2PKH ∧ typ ≠ typeP2SH then .error "cashaddr: unsupported address type"
    else .ok (typ, raw.drop 1)

/-- `Decode` behind the prefix. -/
def decodeBody (pre body : Bytes) : Except String (UInt8 × Bytes) :=
  if body.length ≠ payloadVals + checksumLen then .error "cashaddr: bad length"
  else
    match body.mapM charsetIndex with
    | none => .error "cashaddr: invalid character"
    | some data =>
      if polymod (pre.map (· &&& 0x1f) ++ [0] ++ data) ≠ 0 then .error "cashaddr: bad checksum"
      else
        let data := data.take payloadVals
        if data.getD (payloadVals - 1) 0 &&& 0x03 ≠ 0 then .error "cashaddr: non-zero padding"
        else
          let raw := regroup data
          if raw.length ≠ 21 then .error "cashaddr: bad payload length" else readVersion raw

/-- `Decode`: the lower-case prefix, the address type and the hash. -/
def decode (addr : Bytes) : Except String (Bytes × UInt8 × Bytes) :=
  let lower := stringsToLower addr
  let upper := stringsToUpper addr
  if addr ≠ lower ∧ addr ≠ upper then .error "cashaddr: mixed case"
  else
    match lower.dropWhile (· ≠ 58) with
    | [] => (decodeBody defaultPrefix lower).map fun r => (defaultPrefix, r)
    | _ :: body =>
      let pre := lower.takeWhile (· ≠ 58)
      if pre = [] then .error "cashaddr: empty prefix"
      else (decodeBody pre body).map fun r => (pre, r)

/-- `OutputScript` -/
def outputScript (typ : UInt8) (hash : Bytes) : Except String Bytes :=
  if hash.length ≠ hashLen then .error "cashaddr: hash must be 20 bytes"
  else if typ = typeP2PKH then .ok ([0x76, 0xa9, 0x14] ++ hash ++ [0x88, 0xac])
  else if typ = typeP2SH then .ok ([0xa9, 0x14] ++ hash ++ [0x87])
  else .error "cashaddr: unsupported address type"

/-! ### Regrouping -/

/-- The bits that stay in the accumulator. -/
theorem accMask_eq (n k : Nat) : n &&& (1 <<< k - 1) = n % 2 ^ k := by
  rw [Nat.one_shiftLeft, Nat.and_two_pow_sub_one_eq_mod]

/-- **The state of the loop.**  After `n` symbols the accumulator holds the last
`5 n % 8` bits of their numeral, and the bytes written are the digits of the
rest. -/
theorem foldl_regroupStep (data : Bytes) (h : ∀ d ∈ data, d.toNat < 32) :
    data.foldl regroupStep { acc := 0, bits := 0, raw := [] } =
      { acc := numeral 32 data % 2 ^ (5 * data.length % 8)
        bits := 5 * data.length % 8
        raw := digits 256 (5 * data.length / 8)
          (numeral 32 data / 2 ^ (5 * data.length % 8)) } := by
  induction data using List.reverseRecOn with
  | nil => rfl
  | append_singleton data d ih =>
    have hd : d.toNat < 32 := h d (by simp)
    rw [List.foldl_append, ih fun e he => h e (by simp [he]), List.foldl_cons, List.foldl_nil,
      regroupStep, List.length_append, List.length_singleton, numeral_append_singleton]
    dsimp only
    set n := numeral 32 data
    set l := data.length
    have hmod : 5 * l % 8 < 8 := Nat.mod_lt _ (by omega)
    have hacc : (n % 2 ^ (5 * l % 8)) <<< 5 ||| d.toNat =
        (n * 32 + d.toNat) % 2 ^ (5 * l % 8 + 5) := by
      have hlow : (n * 32 + d.toNat) % 2 ^ 5 = d.toNat := by omega
      have hhigh : (n * 32 + d.toNat) / 2 ^ 5 = n := by omega
      rw [← Nat.shiftLeft_add_eq_or_of_lt hd, Nat.shiftLeft_eq, pow_add,
        Nat.mul_comm (2 ^ (5 * l % 8)), Nat.mod_mul, hlow, hhigh, Nat.add_comm, Nat.mul_comm]
    have hdrop : (n * 32 + d.toNat) / 2 ^ (5 * l % 8 + 5) = n / 2 ^ (5 * l % 8) := by
      rw [pow_add, Nat.mul_comm _ (2 ^ 5), ← Nat.div_div_eq_div_mul]
      congr 1
      omega
    rw [hacc]
    by_cases hfull : 5 * l % 8 + 5 ≥ 8
    · obtain ⟨k, hk⟩ : ∃ k, 5 * l % 8 + 5 = k + 8 := ⟨5 * l % 8 + 5 - 8, by omega⟩
      have hbits : 5 * (l + 1) % 8 = k := by omega
      have hlen : 5 * (l + 1) / 8 = 5 * l / 8 + 1 := by omega
      rw [if_pos hfull, hbits, hlen, digits, accMask_eq, ← hdrop, hk, Nat.add_sub_cancel, pow_add,
        Nat.mod_mul_right_mod, Nat.shiftRight_eq_div_pow, Nat.mod_mul_right_div_self,
        Nat.div_div_eq_div_mul]
      rfl
    · have hbits : 5 * (l + 1) % 8 = 5 * l % 8 + 5 := by omega
      have hlen : 5 * (l + 1) / 8 = 5 * l / 8 := by omega
      rw [if_neg hfull, hbits, hlen, hdrop]

/-- The padding check reads the last two bits of the numeral. -/
theorem padding_eq_zero_iff {data : Bytes} (hlen : data.length = payloadVals) :
    data.getD (payloadVals - 1) 0 &&& 0x03 = 0 ↔ numeral 32 data % 4 = 0 := by
  obtain ⟨front, d, rfl⟩ : ∃ front d, data = front ++ [d] := by
    refine ⟨data.dropLast, data.getLast ?_, (List.dropLast_append_getLast _).symm⟩
    rintro rfl
    cases hlen
  have hfront : front.length = payloadVals - 1 := by
    rw [List.length_append, List.length_singleton] at hlen
    omega
  have hlast : (front ++ [d]).getD (payloadVals - 1) 0 = d := by
    rw [← hfront]
    simp
  have hand : ∀ x : Nat, x &&& UInt8.toNat 3 = x % 4 := fun x =>
    Nat.and_two_pow_sub_one_eq_mod x 2
  rw [hlast, numeral_append_singleton, ← UInt8.toNat_inj, UInt8.toNat_and, hand]
  have hz : (0 : UInt8).toNat = 0 := rfl
  rw [hz]
  omega

/-- The two regroupings agree on payload symbols without padding bits. -/
theorem convertBits5to8_eq_regroup {data : Bytes} (h : ∀ d ∈ data, d.toNat < 32)
    (hlen : data.length = payloadVals) (hpad : numeral 32 data % 4 = 0) :
    convertBits5to8 data = some (regroup data) := by
  rw [convertBits5to8_eq_some_iff data _ h, regroup, foldl_regroupStep data h, hlen]
  exact ⟨by decide, hpad, rfl⟩

theorem length_regroup {data : Bytes} (h : ∀ d ∈ data, d.toNat < 32)
    (hlen : data.length = payloadVals) : (regroup data).length = 21 := by
  rw [regroup, foldl_regroupStep data h, hlen]
  exact length_digits _ _

/-- **The payload symbols of a hash** are those that pass the padding check and
regroup to its version byte and to it. -/
theorem regroup_eq_version_iff {data : Bytes} (h : ∀ d ∈ data, d.toNat < 32)
    (hlen : data.length = payloadVals) (version : UInt8) {hash : Bytes} (hhash : hash.length = 20) :
    (data.getD (payloadVals - 1) 0 &&& 0x03 = 0 ∧ regroup data = version :: hash) ↔
      data = payloadSymbols version hash := by
  rw [padding_eq_zero_iff hlen, ← convertBits5to8_eq_version_iff data version hash h hhash]
  constructor
  · rintro ⟨hpad, hraw⟩
    rw [convertBits5to8_eq_regroup h hlen hpad, hraw]
  · intro hconv
    have hpad : numeral 32 data % 4 = 0 := by
      have hspec := ((convertBits5to8_eq_some_iff data _ h).mp hconv).2.1
      rwa [hlen] at hspec
    refine ⟨hpad, Option.some.inj ?_⟩
    rw [← convertBits5to8_eq_regroup h hlen hpad, hconv]

/-! ### Behind the prefix -/

/-- The type byte of an address. -/
def typeOf (isP2sh : Bool) : UInt8 := if isP2sh then typeP2SH else typeP2PKH

theorem versionByte_typeOf (isP2sh : Bool) : versionByte isP2sh 0 = typeOf isP2sh := by
  cases isP2sh <;> rfl

set_option maxRecDepth 20000 in
theorem version_table : ∀ n < 256, UInt8.ofNat n &&& 0x80 = 0 → UInt8.ofNat n &&& 0x07 = 0 →
    (UInt8.ofNat n &&& 0x78 = typeP2PKH → UInt8.ofNat n = typeOf false) ∧
      (UInt8.ofNat n &&& 0x78 = typeP2SH → UInt8.ofNat n = typeOf true) := by
  decide

/-- The version byte has to be the type. -/
theorem readVersion_eq_ok_iff (version : UInt8) (rest : Bytes) (typ : UInt8) (hash : Bytes) :
    readVersion (version :: rest) = .ok (typ, hash) ↔
      hash = rest ∧ typ = version ∧ ∃ isP2sh, typ = typeOf isP2sh := by
  have htable := version_table version.toNat version.toNat_lt
  rw [UInt8.ofNat_toNat] at htable
  simp only [readVersion, List.getD_cons_zero, List.drop_one, List.tail_cons]
  constructor
  · intro h
    split_ifs at h with h80 h07 htype
    obtain ⟨rfl, rfl⟩ := Prod.mk.inj (Except.ok.inj h)
    obtain ⟨hpkh, hsh⟩ := htable (not_not.mp h80) (not_not.mp h07)
    rw [not_and_or, not_not, not_not] at htype
    rcases htype with htype | htype
    · refine ⟨rfl, ?_, false, htype⟩
      rw [hpkh htype]
      rfl
    · refine ⟨rfl, ?_, true, htype⟩
      rw [hsh htype]
      rfl
  · rintro ⟨rfl, rfl, isP2sh, rfl⟩
    cases isP2sh <;> rfl

set_option maxRecDepth 20000 in
theorem charsetChar_charsetIndex {c v : UInt8} (h : charsetIndex c = some v) :
    v.toNat < 32 ∧ c = charsetChar v :=
  forall_byte_some (P := fun c v => v.toNat < 32 ∧ c = charsetChar v) (by decide) h

theorem charsetIndex_charsetChar_table : ∀ v < 32,
    charsetIndex (charsetChar (UInt8.ofNat v)) = some (UInt8.ofNat v) := by
  decide

theorem charsetIndex_eq_some_iff (c v : UInt8) :
    charsetIndex c = some v ↔ v.toNat < 32 ∧ c = charsetChar v := by
  constructor
  · intro h
    exact charsetChar_charsetIndex h
  · rintro ⟨hv, rfl⟩
    have h := charsetIndex_charsetChar_table v.toNat hv
    rwa [UInt8.ofNat_toNat] at h

theorem mapM_charsetIndex_eq_some_iff (body data : Bytes) :
    body.mapM charsetIndex = some data ↔
      (∀ d ∈ data, d.toNat < 32) ∧ body = data.map charsetChar := by
  simpa only [List.map_id'] using mapM_eq_some_iff_map charsetIndex_eq_some_iff body data

theorem polymod_eq_zero_iff (v : Bytes) : polymod v = 0 ↔ CashStratum.polymod v = 1 :=
  Nat.xor_eq_zero_iff

/-- **What `Decode` accepts behind the prefix**: the payloads of 20-byte hashes
in lower case, their size field being zero. -/
theorem decodeBody_eq_ok_iff (p : NetworkPrefix) (body : Bytes) (typ : UInt8) (hash : Bytes) :
    decodeBody p.chars body = .ok (typ, hash) ↔
      hash.length = 20 ∧ ∃ isP2sh, typ = typeOf isP2sh ∧ body = encodePayload p isP2sh 0 hash := by
  constructor
  · intro h
    rw [decodeBody] at h
    split_ifs at h with hlen
    rw [not_not] at hlen
    split at h
    · cases h
    · next data hdata =>
        obtain ⟨hlt, hbody⟩ := (mapM_charsetIndex_eq_some_iff body data).mp hdata
        have hdlen : data.length = payloadVals + checksumLen := by
          rw [← hlen, hbody, List.length_map]
        have htlen : (data.take payloadVals).length = payloadVals := by
          rw [List.length_take, hdlen]
          rfl
        have htlt : ∀ d ∈ data.take payloadVals, d.toNat < 32 := fun d hd =>
          hlt d (List.mem_of_mem_take hd)
        have hclt : ∀ d ∈ data.drop payloadVals, d.toNat < 32 := fun d hd =>
          hlt d (List.mem_of_mem_drop hd)
        split_ifs at h with hsum
        dsimp only at h
        split_ifs at h with hpad hraw
        obtain ⟨version, rest, hsplit⟩ : ∃ version rest,
            regroup (data.take payloadVals) = version :: rest :=
          List.exists_cons_of_length_eq_add_one (length_regroup htlt htlen)
        have hrest : rest.length = 20 := by
          have hlength := length_regroup htlt htlen
          rw [hsplit, List.length_cons] at hlength
          omega
        rw [hsplit, readVersion_eq_ok_iff] at h
        obtain ⟨rfl, rfl, isP2sh, rfl⟩ := h
        have htake := (regroup_eq_version_iff htlt htlen _ hrest).mp ⟨not_not.mp hpad, hsplit⟩
        have hdrop : data.drop payloadVals = checksumSymbols p.chars (data.take payloadVals) := by
          refine (polymod_eq_one_iff _ _ (by rw [List.length_drop, hdlen]; rfl) hclt).mp ?_
          rw [expandPrefix, List.append_assoc _ _ (data.drop _), List.take_append_drop]
          exact (polymod_eq_zero_iff _).mp (not_not.mp hsum)
        refine ⟨hrest, isP2sh, rfl, ?_⟩
        rw [hbody, encodePayload, versionByte_typeOf, ← htake, ← hdrop, List.take_append_drop]
  · rintro ⟨hhash, isP2sh, rfl, hbody⟩
    have hlen : body.length = payloadVals + checksumLen := by
      rw [hbody]
      exact length_encodePayload _ _ _ _
    rw [encodePayload, versionByte_typeOf] at hbody
    set data := payloadSymbols (typeOf isP2sh) hash with hdata
    have hmap := (mapM_charsetIndex_eq_some_iff body (data ++ checksumSymbols p.chars data)).mpr
      ⟨completedSymbols_lt p.chars (typeOf isP2sh) hash, hbody⟩
    have hsum : polymod (p.chars.map (· &&& 0x1f) ++ [0] ++
        (data ++ checksumSymbols p.chars data)) = 0 := by
      rw [polymod_eq_zero_iff, ← List.append_assoc]
      exact (polymod_eq_one_iff _ _ (length_checksumSymbols _ _) (checksumSymbols_lt _ _)).mpr rfl
    have htake : (data ++ checksumSymbols p.chars data).take payloadVals = data := by
      exact List.take_left' (length_payloadSymbols (typeOf isP2sh) hash)
    obtain ⟨hpad, hraw⟩ := (regroup_eq_version_iff (payloadSymbols_lt _ _)
      (length_payloadSymbols _ _) (typeOf isP2sh) hhash).mpr hdata
    rw [decodeBody, if_neg (not_not.mpr hlen), hmap]
    dsimp only
    rw [if_neg (not_not.mpr hsum), htake, if_neg (not_not.mpr hpad), hraw,
      if_neg (by rw [List.length_cons, hhash]; decide), readVersion_eq_ok_iff]
    exact ⟨rfl, rfl, isP2sh, rfl⟩

/-! ### In front of it -/

/-- The lower-case strings an address stands for: with or without its prefix,
which only the default prefix can do without. -/
def AddressForm (p : NetworkPrefix) (payload lower : Bytes) : Prop :=
  lower = p.chars ++ 58 :: payload ∨ p.chars = defaultPrefix ∧ lower = payload

/-- A string and what stands behind its first colon. -/
theorem split_colon {pre : Bytes} (hpre : 58 ∉ pre) (body : Bytes) :
    (pre ++ 58 :: body).takeWhile (· ≠ 58) = pre ∧
      (pre ++ 58 :: body).dropWhile (· ≠ 58) = 58 :: body := by
  have hall : ∀ c ∈ pre, decide (c ≠ 58) = true := by
    intro c hc
    rw [decide_eq_true_eq]
    rintro rfl
    exact hpre hc
  rw [List.takeWhile_append_of_pos hall, List.dropWhile_append_of_pos hall]
  simp

theorem dropWhile_colon_eq_nil_iff (s : Bytes) : s.dropWhile (· ≠ 58) = [] ↔ 58 ∉ s := by
  rw [List.dropWhile_eq_nil_iff]
  constructor
  · intro h hmem
    have hne := h 58 hmem
    simp at hne
  · intro h c hc
    rw [decide_eq_true_eq]
    rintro rfl
    exact h hc

theorem map_prefix_eq_ok_iff {e : Except String (UInt8 × Bytes)} {pre pre' : Bytes}
    {r : UInt8 × Bytes} :
    (e.map fun r => (pre, r)) = .ok (pre', r) ↔ pre = pre' ∧ e = .ok r := by
  cases e <;> simp [Except.map]

/-- An address with a colon is the one behind its prefix. -/
theorem addressForm_colon_iff {p : NetworkPrefix} {pre body payload : Bytes} (hpre : 58 ∉ pre)
    (hpayload : 58 ∉ payload) :
    AddressForm p payload (pre ++ 58 :: body) ↔ pre = p.chars ∧ body = payload := by
  constructor
  · rintro (heq | ⟨-, heq⟩)
    · obtain ⟨htake, hdrop⟩ := split_colon hpre body
      obtain ⟨htake', hdrop'⟩ := split_colon p.colon_not_mem payload
      rw [← htake, ← htake', heq]
      rw [heq, hdrop'] at hdrop
      exact ⟨rfl, (List.cons.inj hdrop).2.symm⟩
    · rw [← heq] at hpayload
      exact absurd (List.mem_append_right pre List.mem_cons_self) hpayload
  · rintro ⟨rfl, rfl⟩
    exact Or.inl rfl

/-- **What `Decode` accepts on a network**: strings of one case whose lower case
is the form of an address. -/
theorem decode_eq_ok_iff (p : NetworkPrefix) (hp : p.chars ≠ []) (s : Bytes) (typ : UInt8)
    (hash : Bytes) :
    decode s = .ok (p.chars, typ, hash) ↔
      (s = stringsToLower s ∨ s = stringsToUpper s) ∧ hash.length = 20 ∧
        ∃ isP2sh, typ = typeOf isP2sh ∧
          AddressForm p (encodePayload p isP2sh 0 hash) (stringsToLower s) := by
  have hcolon : ∀ isP2sh, 58 ∉ encodePayload p isP2sh 0 hash := fun isP2sh hmem =>
    (encodePayload_lower p isP2sh 0 hash 58 hmem).1 rfl
  rw [decode]
  dsimp only
  by_cases hcase : s ≠ stringsToLower s ∧ s ≠ stringsToUpper s
  · rw [if_pos hcase]
    refine iff_of_false (by simp) ?_
    rintro ⟨hlower | hupper, -⟩
    · exact hcase.1 hlower
    · exact hcase.2 hupper
  · rw [if_neg hcase]
    rw [not_and_or, not_not, not_not] at hcase
    rw [and_iff_right hcase]
    generalize stringsToLower s = l
    by_cases hmem : 58 ∈ l
    · obtain ⟨pre, body, hl, hpre⟩ := List.eq_append_cons_of_mem hmem
      obtain ⟨htake, hdrop⟩ := split_colon hpre body
      rw [hl, hdrop, htake]
      simp only [addressForm_colon_iff hpre (hcolon _)]
      by_cases hnil : pre = []
      · rw [if_pos hnil]
        refine iff_of_false (by simp) ?_
        rintro ⟨-, -, -, hchars, -⟩
        exact hp (hchars.symm.trans hnil)
      · rw [if_neg hnil, map_prefix_eq_ok_iff]
        constructor
        · rintro ⟨rfl, hbody⟩
          obtain ⟨hhash, isP2sh, htyp, hpayload⟩ := (decodeBody_eq_ok_iff p body typ hash).mp hbody
          exact ⟨hhash, isP2sh, htyp, rfl, hpayload⟩
        · rintro ⟨hhash, isP2sh, htyp, rfl, hpayload⟩
          exact ⟨rfl, (decodeBody_eq_ok_iff p body typ hash).mpr ⟨hhash, isP2sh, htyp, hpayload⟩⟩
    · rw [(dropWhile_colon_eq_nil_iff l).mpr hmem]
      dsimp only
      rw [map_prefix_eq_ok_iff]
      constructor
      · rintro ⟨hchars, hbody⟩
        rw [hchars] at hbody
        obtain ⟨hhash, isP2sh, htyp, hpayload⟩ := (decodeBody_eq_ok_iff p l typ hash).mp hbody
        exact ⟨hhash, isP2sh, htyp, Or.inr ⟨hchars.symm, hpayload⟩⟩
      · rintro ⟨hhash, isP2sh, htyp, hform | ⟨hchars, hpayload⟩⟩
        · rw [hform] at hmem
          exact absurd (List.mem_append_right _ List.mem_cons_self) hmem
        · refine ⟨hchars.symm, ?_⟩
          rw [← hchars]
          exact (decodeBody_eq_ok_iff p l typ hash).mpr ⟨hhash, isP2sh, htyp, hpayload⟩

/-! ### Case forms -/

/-- `s` reads as the upper-case string `x`, with Kelvin signs for some `K` and
dotted capitals for some `I`. -/
inductive ReadsCapital : Bytes → Bytes → Prop where
  | nil : ReadsCapital [] []
  | same (c : UInt8) {x s : Bytes} : ReadsCapital x s → ReadsCapital (c :: x) (c :: s)
  | kelvin {x s : Bytes} : ReadsCapital x s → ReadsCapital (75 :: x) (0xe2 :: 0x84 :: 0xaa :: s)
  | dotted {x s : Bytes} : ReadsCapital x s → ReadsCapital (73 :: x) (0xc4 :: 0xb0 :: s)

theorem ReadsCapital.refl (x : Bytes) : ReadsCapital x x := by
  induction x with
  | nil => exact ReadsCapital.nil
  | cons c x ih => exact ih.same c

/-- Only the string itself reads as it in ASCII. -/
theorem ReadsCapital.eq_of_isAscii {x s : Bytes} (h : ReadsCapital x s) (hs : IsAscii s) :
    s = x := by
  induction h with
  | nil => rfl
  | same c _ ih => rw [ih fun b hb => hs b (List.mem_cons_of_mem c hb)]
  | kelvin _ _ => exact absurd (hs 0xe2 List.mem_cons_self) (by decide)
  | dotted _ _ => exact absurd (hs 0xc4 List.mem_cons_self) (by decide)

/-- The lower case of a rune that has an ASCII one. -/
def lowerByte (c : Char) : UInt8 := UInt8.ofNat (unicodeToLower c).toNat

theorem lowerByte_of_lt {c : Char} (h : c.toNat < 128) :
    (unicodeToLower c).toNat < 128 ∧ lowerByte c = tolower (UInt8.ofNat c.toNat) := by
  rw [lowerByte, toNat_unicodeToLower, caseMap_lowerRuns h, tolower]
  simp only [UInt8.le_iff_toNat_le, UInt8.toNat_ofNat', UInt8.reduceToNat]
  have hmod : c.toNat % 2 ^ 8 = c.toNat := by omega
  rw [hmod]
  split_ifs with hupper
  · refine ⟨by omega, ?_⟩
    apply UInt8.toNat_inj.mp
    have h32 : (32 : UInt8).toNat = 32 := rfl
    rw [UInt8.toNat_add, UInt8.toNat_ofNat', UInt8.toNat_ofNat', h32]
    omega
  · exact ⟨h, rfl⟩

/-- A rune of a string in capitals: it is its own upper case, and has an ASCII
lower case. -/
def IsCapital (c : Char) : Prop := (unicodeToLower c).toNat < 128 ∧ unicodeToUpper c = c

theorem isCapital_of_lt {c : Char} (h : c.toNat < 128) :
    IsCapital c ↔ ¬(97 ≤ UInt8.ofNat c.toNat ∧ UInt8.ofNat c.toNat ≤ 122) := by
  have hlower := (lowerByte_of_lt h).1
  rw [IsCapital, and_iff_right hlower, ← Char.toNat_inj, toNat_unicodeToUpper, caseMap_upperRuns h]
  simp only [UInt8.le_iff_toNat_le, UInt8.toNat_ofNat', UInt8.reduceToNat]
  have hmod : c.toNat % 2 ^ 8 = c.toNat := by omega
  rw [hmod]
  split_ifs with hletter <;> omega

/-- A rune of a string in capitals reads as the upper case of its lower case. -/
theorem IsCapital.reads {c : Char} (h : IsCapital c) {x s : Bytes} (hx : ReadsCapital x s) :
    ReadsCapital (toupper (lowerByte c) :: x) (String.utf8EncodeChar c ++ s) := by
  rcases ascii_of_unicodeToLower h.1 with hlt | rfl | rfl
  · rw [(lowerByte_of_lt hlt).2, toupper_tolower ((isCapital_of_lt hlt).mp h),
      utf8EncodeChar_of_lt hlt]
    exact hx.same _
  · have hbyte : toupper (lowerByte '\u0130') = 73 := by decide
    have hbytes : String.utf8EncodeChar '\u0130' = [0xc4, 0xb0] := by decide
    rw [hbyte, hbytes]
    exact hx.dotted
  · have hbyte : toupper (lowerByte '\u212A') = 75 := by decide
    have hbytes : String.utf8EncodeChar '\u212A' = [0xe2, 0x84, 0xaa] := by decide
    rw [hbyte, hbytes]
    exact hx.kelvin

/-- The rune of a byte that is no lower-case letter. -/
theorem isCapital_ofNat {b : UInt8} (hlt : b.toNat < 128) (h : ¬(97 ≤ b ∧ b ≤ 122)) :
    IsCapital (Char.ofNat b.toNat) ∧ lowerByte (Char.ofNat b.toNat) = tolower b ∧
      String.utf8EncodeChar (Char.ofNat b.toNat) = [b] := by
  have hnat := toNat_ofNat_byte b
  have hlt' : (Char.ofNat b.toNat).toNat < 128 := by rwa [hnat]
  rw [isCapital_of_lt hlt', (lowerByte_of_lt hlt').2, utf8EncodeChar_of_lt hlt', hnat,
    UInt8.ofNat_toNat]
  exact ⟨h, rfl, rfl⟩

theorem toupper_lt {b : UInt8} (h : b.toNat < 128) : (toupper b).toNat < 128 := by
  rw [toupper]
  split_ifs with hletter
  · rw [UInt8.toNat_sub_of_le _ _ (UInt8.le_trans (by decide) hletter.1)]
    omega
  · exact h

/-- **The strings that read as a string in capitals** are those of such runes. -/
theorem readsCapital_iff {x s : Bytes} (hascii : IsAscii x) (hx : ∀ c ∈ x, ¬(65 ≤ c ∧ c ≤ 90)) :
    ReadsCapital (x.map toupper) s ↔
      ∃ cs : List Char, s = encodeRunes cs ∧ (∀ c ∈ cs, IsCapital c) ∧ x = cs.map lowerByte := by
  constructor
  · intro h
    generalize hy : x.map toupper = y at h
    induction h generalizing x with
    | nil =>
      obtain rfl := List.map_eq_nil_iff.mp hy
      exact ⟨[], rfl, by simp, rfl⟩
    | same c _ ih =>
      obtain ⟨b, x, rfl, rfl, rfl⟩ := List.map_eq_cons_iff.mp hy
      obtain ⟨hb, hrest⟩ := List.forall_mem_cons.mp hx
      obtain ⟨hlt, hascii⟩ := List.forall_mem_cons.mp hascii
      obtain ⟨cs, rfl, hcs, rfl⟩ := ih hascii hrest rfl
      obtain ⟨hcapital, hlower, hbytes⟩ := isCapital_ofNat (toupper_lt hlt) (toupper_not_lower b)
      refine ⟨Char.ofNat (toupper b).toNat :: cs, ?_,
        List.forall_mem_cons.mpr ⟨hcapital, hcs⟩, ?_⟩
      · rw [encodeRunes_cons, hbytes]
        rfl
      · rw [List.map_cons, hlower, tolower_toupper hb]
    | kelvin _ ih =>
      obtain ⟨b, x, rfl, hK, rfl⟩ := List.map_eq_cons_iff.mp hy
      obtain ⟨hb, hrest⟩ := List.forall_mem_cons.mp hx
      obtain ⟨-, hascii⟩ := List.forall_mem_cons.mp hascii
      obtain ⟨cs, rfl, hcs, rfl⟩ := ih hascii hrest rfl
      have hcapital : IsCapital '\u212A' := by
        rw [IsCapital]
        decide
      refine ⟨'\u212A' :: cs, ?_, List.forall_mem_cons.mpr ⟨hcapital, hcs⟩, ?_⟩
      · rw [encodeRunes_cons]
        rfl
      · rw [← tolower_toupper hb, hK, List.map_cons]
        have hlower : lowerByte '\u212A' = tolower 75 := by decide
        rw [hlower]
    | dotted _ ih =>
      obtain ⟨b, x, rfl, hI, rfl⟩ := List.map_eq_cons_iff.mp hy
      obtain ⟨hb, hrest⟩ := List.forall_mem_cons.mp hx
      obtain ⟨-, hascii⟩ := List.forall_mem_cons.mp hascii
      obtain ⟨cs, rfl, hcs, rfl⟩ := ih hascii hrest rfl
      have hcapital : IsCapital '\u0130' := by
        rw [IsCapital]
        decide
      refine ⟨'\u0130' :: cs, ?_, List.forall_mem_cons.mpr ⟨hcapital, hcs⟩, ?_⟩
      · rw [encodeRunes_cons]
        rfl
      · rw [← tolower_toupper hb, hI, List.map_cons]
        have hlower : lowerByte '\u0130' = tolower 73 := by decide
        rw [hlower]
  · rintro ⟨cs, rfl, hcs, rfl⟩
    clear hascii hx
    induction cs with
    | nil => exact ReadsCapital.nil
    | cons c cs ih =>
      obtain ⟨hc, hrest⟩ := List.forall_mem_cons.mp hcs
      exact hc.reads (ih hrest)

/-- In ASCII `strings.ToLower` is `tolower`. -/
theorem stringsToLower_of_isAscii {s : Bytes} (h : IsAscii s) :
    stringsToLower s = s.map tolower := by
  rw [stringsToLower, mapRunes, runes_of_isAscii h, List.map_map, encodeRunes_of_lt, List.map_map]
  · apply List.map_congr_left
    intro b hb
    show lowerByte (Char.ofNat b.toNat) = tolower b
    have hnat := toNat_ofNat_byte b
    rw [(lowerByte_of_lt (hnat.trans_lt (h b hb))).2, hnat, UInt8.ofNat_toNat]
  · intro c hc
    obtain ⟨b, hb, rfl⟩ := List.mem_map.mp hc
    exact (lowerByte_of_lt ((toNat_ofNat_byte b).trans_lt (h b hb))).1

/-- A string with an ASCII lower case is spelled by runes that have one. -/
theorem stringsToLower_eq_iff {x : Bytes} (hascii : IsAscii x) (s : Bytes) :
    stringsToLower s = x ↔ ∃ cs : List Char, s = encodeRunes cs ∧
      (∀ c ∈ cs, (unicodeToLower c).toNat < 128) ∧ x = cs.map lowerByte := by
  constructor
  · rintro rfl
    have hlt := isAscii_encodeRunes_iff.mp hascii
    have hcs : ∀ c ∈ runes s, (unicodeToLower c).toNat < 128 := fun c hc =>
      hlt _ (List.mem_map_of_mem hc)
    have herror : runeError ∉ runes s := by
      intro hmem
      have hno : ¬(unicodeToLower runeError).toNat < 128 := by decide
      exact hno (hcs runeError hmem)
    refine ⟨runes s, (encodeRunes_runes herror).symm, hcs, ?_⟩
    rw [stringsToLower, mapRunes, encodeRunes_of_lt hlt, List.map_map]
    rfl
  · rintro ⟨cs, rfl, hcs, rfl⟩
    rw [stringsToLower, mapRunes, runes_encodeRunes, encodeRunes_of_lt, List.map_map]
    · rfl
    · exact List.forall_mem_map.mpr hcs

/-- A string that is its own lower case. -/
theorem lower_iff {s x : Bytes} (hascii : IsAscii x) (hx : ∀ c ∈ x, ¬(65 ≤ c ∧ c ≤ 90)) :
    s = stringsToLower s ∧ stringsToLower s = x ↔ s = x := by
  constructor
  · rintro ⟨hs, hlower⟩
    exact hs.trans hlower
  · rintro rfl
    have hfix : stringsToLower s = s := by
      rw [stringsToLower_of_isAscii hascii]
      conv_rhs => rw [← List.map_id s]
      exact List.map_congr_left fun c hc => tolower_of_not_upper (hx c hc)
    exact ⟨hfix.symm, hfix⟩

/-- **A string that is its own upper case** reads as the upper case of its lower
case. -/
theorem upper_iff {s x : Bytes} (hascii : IsAscii x) (hx : ∀ c ∈ x, ¬(65 ≤ c ∧ c ≤ 90)) :
    s = stringsToUpper s ∧ stringsToLower s = x ↔ ReadsCapital (x.map toupper) s := by
  rw [stringsToLower_eq_iff hascii, readsCapital_iff hascii hx]
  constructor
  · rintro ⟨hupper, cs, rfl, hcs, rfl⟩
    refine ⟨cs, rfl, ?_, rfl⟩
    rw [stringsToUpper, mapRunes, runes_encodeRunes] at hupper
    have hfix : cs.map unicodeToUpper = cs.map id := by
      rw [List.map_id]
      exact (encodeRunes_injective hupper).symm
    intro c hc
    exact ⟨hcs c hc, List.map_inj_left.mp hfix c hc⟩
  · rintro ⟨cs, rfl, hcs, rfl⟩
    refine ⟨?_, cs, rfl, fun c hc => (hcs c hc).1, rfl⟩
    rw [stringsToUpper, mapRunes, runes_encodeRunes]
    congr 1
    conv_lhs => rw [← List.map_id cs]
    exact List.map_congr_left fun c hc => (hcs c hc).2.symm

/-! ### The two decoders -/

theorem charsetChar_lt_table : ∀ v < 32, (charsetChar (UInt8.ofNat v)).toNat < 128 := by decide

theorem isAscii_encodePayload (p : NetworkPrefix) (isP2sh : Bool) (size : Nat) (hash : Bytes) :
    IsAscii (encodePayload p isP2sh size hash) := by
  intro c hc
  obtain ⟨d, hd, rfl⟩ := List.mem_map.mp hc
  have hlt := charsetChar_lt_table d.toNat (completedSymbols_lt p.chars _ hash d hd)
  rwa [UInt8.ofNat_toNat] at hlt

/-- The forms of an address are in ASCII, without a capital. -/
theorem AddressForm.plain {p : NetworkPrefix} {isP2sh : Bool} {size : Nat} {hash x : Bytes}
    (h : AddressForm p (encodePayload p isP2sh size hash) x) :
    IsAscii x ∧ ∀ c ∈ x, ¬(65 ≤ c ∧ c ≤ 90) := by
  have hpayload : ∀ c ∈ encodePayload p isP2sh size hash, ¬(65 ≤ c ∧ c ≤ 90) := fun c hc =>
    (encodePayload_lower p isP2sh size hash c hc).2
  rcases h with heq | ⟨-, heq⟩
  · rw [heq]
    constructor
    · intro c hc
      rcases List.mem_append.mp hc with hc | hc
      · have hz := UInt8.le_iff_toNat_le.mp (p.lower c hc).2
        exact hz.trans_lt (by decide)
      · rcases List.mem_cons.mp hc with rfl | hc
        · decide
        · exact isAscii_encodePayload _ _ _ _ c hc
    · intro c hc
      rcases List.mem_append.mp hc with hc | hc
      · exact p.not_upper c hc
      · rcases List.mem_cons.mp hc with rfl | hc
        · decide
        · exact hpayload c hc
  · rw [heq]
    exact ⟨isAscii_encodePayload _ _ _ _, hpayload⟩

/-- **What `Decode` accepts on the main network**: the forms of an address, and
what reads as one of them in capitals. -/
theorem decode_bitcoincash_iff (s : Bytes) (typ : UInt8) (hash : Bytes) :
    decode s = .ok (bitcoincash.chars, typ, hash) ↔
      hash.length = 20 ∧ ∃ isP2sh, typ = typeOf isP2sh ∧
        ∃ x, AddressForm bitcoincash (encodePayload bitcoincash isP2sh 0 hash) x ∧
          (s = x ∨ ReadsCapital (x.map toupper) s) := by
  rw [decode_eq_ok_iff bitcoincash (by decide)]
  constructor
  · rintro ⟨hcase, hhash, isP2sh, htyp, hform⟩
    refine ⟨hhash, isP2sh, htyp, stringsToLower s, hform, ?_⟩
    exact hcase.imp_right fun hupper => (upper_iff hform.plain.1 hform.plain.2).mp ⟨hupper, rfl⟩
  · rintro ⟨hhash, isP2sh, htyp, x, hform, hs | hs⟩
    · obtain ⟨hlower, hx⟩ := (lower_iff hform.plain.1 hform.plain.2).mpr hs
      exact ⟨Or.inl hlower, hhash, isP2sh, htyp, hx ▸ hform⟩
    · obtain ⟨hupper, hx⟩ := (upper_iff hform.plain.1 hform.plain.2).mpr hs
      exact ⟨Or.inr hupper, hhash, isP2sh, htyp, hx ▸ hform⟩

/-- The spellings the pool knows are the forms, in lower case or in capitals. -/
theorem spells_iff_form (s payload : Bytes) :
    Spells s bitcoincash payload ↔
      ∃ x, AddressForm bitcoincash payload x ∧ (s = x ∨ s = x.map toupper) := by
  constructor
  · rintro (h | h | h | h)
    · exact ⟨_, Or.inl rfl, Or.inl h⟩
    · exact ⟨_, Or.inl rfl, Or.inr h⟩
    · exact ⟨_, Or.inr ⟨rfl, rfl⟩, Or.inl h⟩
    · exact ⟨_, Or.inr ⟨rfl, rfl⟩, Or.inr h⟩
  · rintro ⟨x, rfl | ⟨-, rfl⟩, h | h⟩
    · exact Or.inl h
    · exact Or.inr (Or.inl h)
    · exact Or.inr (Or.inr (Or.inl h))
    · exact Or.inr (Or.inr (Or.inr h))

/-- An address in capitals with a Kelvin sign for a `K` or a dotted capital for
an `I`. -/
def ForeignCapitals (s : Bytes) : Prop :=
  ∃ isP2sh hash x, hash.length = 20 ∧
    AddressForm bitcoincash (encodePayload bitcoincash isP2sh 0 hash) x ∧
      ReadsCapital (x.map toupper) s ∧ s ≠ x.map toupper

/-- The two decoders agree on a string: both accept it or neither does, with one
type and one hash, and the script of the API is the payout script of the pool. -/
structure Agrees (s : Bytes) : Prop where
  accepted : (∃ typ hash, decode s = .ok (bitcoincash.chars, typ, hash)) ↔
    (cashaddrDecodeChecked s bitcoincash.chars).isSome
  same : ∀ typ hash isP2sh hash', decode s = .ok (bitcoincash.chars, typ, hash) →
    cashaddrDecodeChecked s bitcoincash.chars = some (isP2sh, hash') →
      typ = typeOf isP2sh ∧ hash = hash'
  script : ∀ typ hash, decode s = .ok (bitcoincash.chars, typ, hash) →
    (cashaddrDecodeChecked s bitcoincash.chars).isSome →
      ∃ script, outputScript typ hash = .ok script ∧ addressToTxn .main s = some script

theorem isAscii_map_toupper {x : Bytes} (h : IsAscii x) : IsAscii (x.map toupper) := by
  intro c hc
  obtain ⟨b, hb, rfl⟩ := List.mem_map.mp hc
  exact toupper_lt (h b hb)

/-- A spelling of the pool's is in ASCII, and its lower case is the form. -/
theorem spells_lower {s : Bytes} {isP2sh : Bool} {size : Nat} {hash : Bytes}
    (h : Spells s bitcoincash (encodePayload bitcoincash isP2sh size hash)) :
    IsAscii s ∧
      AddressForm bitcoincash (encodePayload bitcoincash isP2sh size hash) (s.map tolower) := by
  obtain ⟨x, hform, hs⟩ := (spells_iff_form _ _).mp h
  have hlower := ((caseIsConsistent_and_lower_iff hform.plain.2).mpr hs).2
  refine ⟨?_, hlower ▸ hform⟩
  rcases hs with rfl | rfl
  · exact hform.plain.1
  · exact isAscii_map_toupper hform.plain.1

/-- One string is the form of one payload. -/
theorem AddressForm.unique {p : NetworkPrefix} {payload payload' x : Bytes}
    (hcolon : 58 ∉ payload) (hcolon' : 58 ∉ payload') (h : AddressForm p payload x)
    (h' : AddressForm p payload' x) : payload = payload' := by
  have hmem : ∀ w : Bytes, 58 ∈ p.chars ++ 58 :: w := fun w =>
    List.mem_append_right _ List.mem_cons_self
  rcases h with rfl | ⟨-, rfl⟩
  · exact ((addressForm_colon_iff p.colon_not_mem hcolon').mp h').2
  · rcases h' with rfl | ⟨-, heq⟩
    · exact absurd (hmem _) hcolon
    · exact heq

theorem colon_not_mem_encodePayload (p : NetworkPrefix) (isP2sh : Bool) (size : Nat)
    (hash : Bytes) : 58 ∉ encodePayload p isP2sh size hash := fun hmem =>
  (encodePayload_lower p isP2sh size hash 58 hmem).1 rfl

/-- What the API accepts of the pool's spellings. -/
theorem Spells.decode {s : Bytes} {isP2sh : Bool} {hash : Bytes} (hhash : hash.length = 20)
    (h : Spells s bitcoincash (encodePayload bitcoincash isP2sh 0 hash)) :
    decode s = .ok (bitcoincash.chars, typeOf isP2sh, hash) := by
  obtain ⟨x, hform, hs⟩ := (spells_iff_form _ _).mp h
  refine (decode_bitcoincash_iff _ _ _).mpr ⟨hhash, isP2sh, rfl, x, hform, ?_⟩
  rcases hs with hs | rfl
  · exact Or.inl hs
  · exact Or.inr (ReadsCapital.refl _)

/-- What the API accepts beyond them. -/
theorem decode_cases {s : Bytes} {typ : UInt8} {hash : Bytes}
    (h : decode s = .ok (bitcoincash.chars, typ, hash)) :
    hash.length = 20 ∧ ∃ isP2sh, typ = typeOf isP2sh ∧
      (Spells s bitcoincash (encodePayload bitcoincash isP2sh 0 hash) ∨ ForeignCapitals s) := by
  obtain ⟨hhash, isP2sh, htyp, x, hform, hs⟩ := (decode_bitcoincash_iff _ _ _).mp h
  refine ⟨hhash, isP2sh, htyp, ?_⟩
  rcases hs with hs | hs
  · exact Or.inl ((spells_iff_form _ _).mpr ⟨x, hform, Or.inl hs⟩)
  · by_cases heq : s = x.map toupper
    · exact Or.inl ((spells_iff_form _ _).mpr ⟨x, hform, Or.inr heq⟩)
    · exact Or.inr ⟨isP2sh, hash, x, hhash, hform, hs, heq⟩

/-- The two scripts of a type and a hash are one. -/
theorem outputScript_eq (isP2sh : Bool) {hash : Bytes} (h : hash.length = 20) :
    outputScript (typeOf isP2sh) hash =
      .ok (if isP2sh then hash160ToP2shScript hash else hash160ToP2pkhScript hash) := by
  have hlen : ¬hash.length ≠ hashLen := not_not.mpr h
  cases isP2sh
  · rw [outputScript, if_neg hlen]
    rfl
  · rw [outputScript, if_neg hlen]
    rfl

/-- The payout script of a spelling. -/
theorem Spells.addressToTxn {s : Bytes} {isP2sh : Bool} {hash : Bytes} (hhash : hash.length = 20)
    (h : Spells s bitcoincash (encodePayload bitcoincash isP2sh 0 hash)) :
    addressToTxn .main s =
      some (if isP2sh then hash160ToP2shScript hash else hash160ToP2pkhScript hash) := by
  have hclass : classifyAddress s bitcoincash.chars = some (cashaddrKind isP2sh, hash) :=
    (classifyAddress_eq_some_iff .main s _ hash).mpr
      (Or.inl ⟨hhash, isP2sh, rfl, 0, by decide, h⟩)
  have hchain : Chain.main.cashaddrPrefix.chars = bitcoincash.chars := rfl
  rw [CashStratum.addressToTxn, hchain, hclass]
  cases isP2sh <;> rfl

/-- **Exactly when the decoders agree**: on every string that is neither an
address with size bits nor one in capitals with a foreign letter. -/
theorem decoders_agree_iff (s : Bytes) :
    Agrees s ↔ ¬HasSizeBits bitcoincash s ∧ ¬ForeignCapitals s := by
  constructor
  · intro h
    constructor
    · rintro ⟨isP2sh, size, hash, hpos, hsize, hhash, hspell⟩
      have hpool := (cashaddrDecodeChecked_eq_some_iff bitcoincash s isP2sh hash).mpr
        ⟨hhash, size, hsize, hspell⟩
      obtain ⟨typ, hash', hgo⟩ := h.accepted.mpr (by rw [hpool]; rfl)
      obtain ⟨hascii, hform⟩ := spells_lower hspell
      obtain ⟨-, hhash', isP2sh', -, hform'⟩ :=
        (decode_eq_ok_iff bitcoincash (by decide) _ _ _).mp hgo
      rw [stringsToLower_of_isAscii hascii] at hform'
      have heq := hform.unique (colon_not_mem_encodePayload _ _ _ _)
        (colon_not_mem_encodePayload _ _ _ _) hform'
      have hzero := (encodePayload_inj hsize (by omega) hhash hhash' heq).2.1
      omega
    · rintro ⟨isP2sh, hash, x, hhash, hform, hreads, hne⟩
      have hgo := (decode_bitcoincash_iff s (typeOf isP2sh) hash).mpr
        ⟨hhash, isP2sh, rfl, x, hform, Or.inr hreads⟩
      obtain ⟨⟨isP2sh', hash'⟩, hpool⟩ := Option.isSome_iff_exists.mp (h.accepted.mp ⟨_, _, hgo⟩)
      obtain ⟨-, size, -, hspell⟩ := (cashaddrDecodeChecked_eq_some_iff _ _ _ _).mp hpool
      exact hne (hreads.eq_of_isAscii (spells_lower hspell).1)
  · rintro ⟨hsize, hforeign⟩
    -- what the pool accepts has size 0, so both accept the same spellings
    have hpool : ∀ isP2sh hash, cashaddrDecodeChecked s bitcoincash.chars = some (isP2sh, hash) ↔
        hash.length = 20 ∧ Spells s bitcoincash (encodePayload bitcoincash isP2sh 0 hash) :=
      ((decodes_exactly_iff bitcoincash).1 s).mpr hsize
    have hgo : ∀ typ hash, decode s = .ok (bitcoincash.chars, typ, hash) →
        ∃ isP2sh, typ = typeOf isP2sh ∧ hash.length = 20 ∧
          Spells s bitcoincash (encodePayload bitcoincash isP2sh 0 hash) := by
      intro typ hash h
      obtain ⟨hhash, isP2sh, htyp, hspell | habsurd⟩ := decode_cases h
      · exact ⟨isP2sh, htyp, hhash, hspell⟩
      · exact absurd habsurd hforeign
    refine ⟨⟨?_, ?_⟩, ?_, ?_⟩
    · rintro ⟨typ, hash, h⟩
      obtain ⟨isP2sh, -, hhash, hspell⟩ := hgo typ hash h
      rw [(hpool isP2sh hash).mpr ⟨hhash, hspell⟩]
      rfl
    · intro h
      obtain ⟨⟨isP2sh, hash⟩, hsome⟩ := Option.isSome_iff_exists.mp h
      obtain ⟨hhash, hspell⟩ := (hpool isP2sh hash).mp hsome
      exact ⟨_, _, Spells.decode hhash hspell⟩
    · intro typ hash isP2sh hash' h hsome
      obtain ⟨isP2sh', htyp, hhash, hspell⟩ := hgo typ hash h
      have hsame := (hpool isP2sh' hash).mpr ⟨hhash, hspell⟩
      obtain ⟨rfl, rfl⟩ := Prod.mk.inj (Option.some.inj (hsame.symm.trans hsome))
      exact ⟨htyp, rfl⟩
    · intro typ hash h _
      obtain ⟨isP2sh, rfl, hhash, hspell⟩ := hgo typ hash h
      exact ⟨_, outputScript_eq isP2sh hhash, Spells.addressToTxn hhash hspell⟩

/-- An address in capitals with a Kelvin sign is one to the API alone. -/
example : (decode "QPM2QSZNH\u212AS23Z7629MMS6S4CWEF74VCWVY22GDX6A".toUTF8.data.toList).isOk ∧
    cashaddrDecodeChecked "QPM2QSZNH\u212AS23Z7629MMS6S4CWEF74VCWVY22GDX6A".toUTF8.data.toList
      bitcoincash.chars = none := by
  decide +kernel

/-- `sizeBitAddress` is an address to the pool alone. -/
theorem sizeBitAddress_disagree : ¬∀ s, Agrees s := by
  intro hall
  have hpool : (cashaddrDecodeChecked sizeBitAddress bitcoincash.chars).isSome := by decide +kernel
  obtain ⟨typ, hash, hgo⟩ := (hall sizeBitAddress).accepted.mpr hpool
  have herror : decode sizeBitAddress = .error "cashaddr: unsupported hash size" := by
    decide +kernel
  rw [herror] at hgo
  cases hgo

end Cashaddr

end CashStratum
