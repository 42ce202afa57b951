/-
CashStratum/TxnAddress.lean

From an output script back to an address (`txn_to_address` of `libckpool.c`).

A script does not name its network, so a reference address does.  The writer takes the test
networks only from a legacy reference of at most 35 characters, or from a bech32 one, which is
no address here; any other reference is taken for one of mainnet (`refTest`).  It always writes
the legacy address, which is read back to the script exactly on the network that was taken
(`addressToTxn_legacy_iff`).  So the round trip holds on mainnet, and on the test networks for
the legacy references alone (`txn_to_address_round_trips`).
-/
import CashStratum.Address
import CashStratum.AuthorityKey

namespace CashStratum

/-! ### Base58Check -/

/-- `b58tobin_tbl`: the digit of a character, or -1. -/
def b58tobinDigit (c : UInt8) : Nat :=
  match b58Value c with
  | none => 0xffffffff
  | some v => v.toNat

/-- The inner loop of `b58tobin`, from the last word to the first. -/
def mulAddWords (c : Nat) : List UInt32 → List UInt32 × Nat
  | [] => ([], c)
  | word :: rest =>
    let (rest, c) := mulAddWords c rest
    let t := word.toNat * 58 + c
    (UInt32.ofNat t :: rest, (t &&& 0x3f00000000) >>> 32)

/-- The seven words of `b58tobin`. -/
def b58tobinWords (s : Bytes) : List UInt32 :=
  s.foldl (fun bin32 c => (mulAddWords (b58tobinDigit c) bin32).1) (List.replicate 7 0)

/-- `b58tobin`: the last byte of the first word, and the others. -/
def b58tobin (s : Bytes) : Bytes :=
  let bin32 := b58tobinWords s
  (bin32.getD 0 0).toUInt8 :: (bin32.drop 1).flatMap fun word => digits 256 4 word.toNat

/-- `b58check_encode`, into a buffer of `outsz` bytes. -/
def b58checkEncode (outsz : Nat) (ver : UInt8) (hash20 : Bytes) : Option Bytes :=
  let s := binToBase58 (checkPayload ver hash20)
  if s.length ≥ outsz then none else some s

/-- `b58check_version`; `none` is -1. -/
def b58checkVersion (s : Bytes) : Option UInt8 :=
  if s.length < 26 ∨ s.length > 35 then none
  else if ¬s.all b58Alphabet.contains then none
  else
    let bin := b58tobin s
    if base58Checksum (bin.take 21) ≠ bin.drop 21 then none else bin.head?

/-! ### Bech32 -/

/-- `bech32_polymod_step` -/
def bech32PolymodStep (pre : UInt32) : UInt32 :=
  let b := pre >>> 25
  ((pre &&& 0x1ffffff) <<< 5) ^^^
    (if (b >>> 0) &&& 1 = 1 then 0x3b6a57b2 else 0) ^^^
    (if (b >>> 1) &&& 1 = 1 then 0x26508e6d else 0) ^^^
    (if (b >>> 2) &&& 1 = 1 then 0x1ea119fa else 0) ^^^
    (if (b >>> 3) &&& 1 = 1 then 0x3d4233dd else 0) ^^^
    (if (b >>> 4) &&& 1 = 1 then 0x2a1462b3 else 0)

/-- The checksum of the human readable part. -/
def bech32HrpChk (hrp : Bytes) : UInt32 :=
  let high := hrp.foldl (fun chk (c : UInt8) => bech32PolymodStep chk ^^^ (c >>> 5).toUInt32) 1
  hrp.foldl (fun chk (c : UInt8) => bech32PolymodStep chk ^^^ (c &&& 0x1f).toUInt32)
    (bech32PolymodStep high)

/-- `bech32_hrp_is`; the alphabet is that of CashAddr. -/
def bech32HrpIs (s hrp : Bytes) : Bool :=
  if s.length < hrp.length + 8 ∨ s.length > 90 then false
  else if (s.take hrp.length).map tolower ≠ hrp.map tolower ∨ s.getD hrp.length 0 ≠ 49 then false
  else
    let chk := (s.drop (hrp.length + 1)).foldlM (fun chk c =>
      (charset.idxOf? (tolower c)).map fun pos => bech32PolymodStep chk ^^^ UInt32.ofNat pos)
      (bech32HrpChk hrp)
    chk.any fun chk => chk = 1 ∨ chk = 0x2bc830a3

/-- `while (bits >= 5)` -/
def drainBits5 (val : UInt32) (bits : Nat) (out : Bytes) : Nat × Bytes :=
  if 5 ≤ bits then
    drainBits5 val (bits - 5) (out ++ [((val >>> UInt32.ofNat (bits - 5)) &&& 0x1f).toUInt8])
  else (bits, out)
termination_by bits
decreasing_by omega

/-- `convert_bits_to5` -/
def convertBitsTo5 (data : Bytes) : Bytes :=
  let s := data.foldl (fun (s : BitBuffer) byte =>
    let val := (s.acc <<< 8) ||| byte.toUInt32
    let (bits, out) := drainBits5 val (s.bits + 8) s.out
    { acc := val, bits, out }) { acc := 0, bits := 0, out := [] }
  if s.bits = 0 then s.out
  else s.out ++ [((s.acc <<< UInt32.ofNat (5 - s.bits)) &&& 0x1f).toUInt8]

/-- `bech32_encode`, into a buffer of `outsz` bytes. -/
def bech32Encode (outsz : Nat) (hrp data : Bytes) (xorval : UInt32) : Option Bytes :=
  if hrp.length + 1 + data.length + 6 ≥ outsz then none
  else
    let chk := data.foldl (fun chk d => bech32PolymodStep chk ^^^ d.toUInt32) (bech32HrpChk hrp)
    let chk := (List.range 6).foldl (fun chk _ => bech32PolymodStep chk) chk ^^^ xorval
    some (hrp ++ 49 :: data.map charsetChar ++
      (List.range 6).map fun i =>
        charsetChar ((chk >>> UInt32.ofNat ((5 - i) * 5)) &&& 0x1f).toUInt8)

/-! ### The address of a script -/

/-- What is written for a network. -/
structure AddressChars where
  hrp : Bytes
  p2pkh : UInt8
  p2sh : UInt8

/-- "bc", which is assumed. -/
def mainChars : AddressChars where
  hrp := [98, 99]
  p2pkh := 0x00
  p2sh := 0x05

/-- The test networks, as "bcrt" or "tb". -/
def testChars (hrp : Bytes) : AddressChars where
  hrp := hrp
  p2pkh := 0x6f
  p2sh := 0xc4

/-- The network that a reference is taken for. -/
def refChars (ref : Bytes) : AddressChars :=
  if ref = [] then mainChars
  else
    let refver := b58checkVersion ref
    if bech32HrpIs ref [98, 99, 114, 116] then testChars [98, 99, 114, 116]
    else if bech32HrpIs ref [116, 98] ∨ refver = some 0x6f ∨ refver = some 0xc4 then
      testChars [116, 98]
    else mainChars

/-- `txn_to_address`, into a buffer of `alen` bytes. -/
def txnToAddress (alen : Nat) (script ref : Bytes) : Option Bytes :=
  let chars := refChars ref
  if script.length = 25 ∧ script.take 3 = [0x76, 0xa9, 0x14] ∧ script.drop 23 = [0x88, 0xac] then
    b58checkEncode alen chars.p2pkh ((script.drop 3).take 20)
  else if script.length = 23 ∧ script.take 2 = [0xa9, 0x14] ∧ script.drop 22 = [0x87] then
    b58checkEncode alen chars.p2sh ((script.drop 2).take 20)
  else
    -- a witness program: the version, then one push of 2 to 40 bytes
    let opcode := script.getD 0 0
    let plen := (script.getD 1 0).toNat
    if script.length < 4 then none
    else if opcode ≠ 0 ∧ (opcode < 0x51 ∨ opcode > 0x60) then none
    else
      let ver := if opcode ≠ 0 then opcode - 0x50 else 0
      if plen < 2 ∨ plen > 40 ∨ plen ≠ script.length - 2 then none
      else if ver = 0 ∧ plen ≠ 20 ∧ plen ≠ 32 then none
      else
        bech32Encode alen chars.hrp (ver :: convertBitsTo5 (script.drop 2))
          (if ver ≠ 0 then 0x2bc830a3 else 1)

/-! ### The words of the reader -/

/-- The value of words, the first one on top. -/
def wordsValue (words : List UInt32) : Nat :=
  words.foldl (fun n word => n * 2 ^ 32 + word.toNat) 0

theorem wordsValue_append_singleton (words : List UInt32) (word : UInt32) :
    wordsValue (words ++ [word]) = wordsValue words * 2 ^ 32 + word.toNat := by
  simp [wordsValue]

theorem wordsValue_cons (word : UInt32) (words : List UInt32) :
    wordsValue (word :: words) = word.toNat * (2 ^ 32) ^ words.length + wordsValue words := by
  induction words using List.reverseRecOn with
  | nil => simp [wordsValue]
  | append_singleton words last ih =>
    rw [← List.cons_append, wordsValue_append_singleton, ih, wordsValue_append_singleton,
      List.length_append, List.length_singleton, pow_succ (2 ^ 32) words.length]
    ring

theorem length_mulAddWords (c : Nat) (words : List UInt32) :
    (mulAddWords c words).1.length = words.length := by
  induction words with
  | nil => rfl
  | cons word rest ih => simp [mulAddWords, ih]

/-- The mask keeps the whole carry. -/
theorem carry_eq_div {t : Nat} (h : t < 58 * 2 ^ 32) :
    (t &&& 0x3f00000000) >>> 32 = t / 2 ^ 32 := by
  have hmask : (0x3f00000000 : Nat) >>> 32 = 2 ^ 6 - 1 := by decide
  rw [Nat.shiftRight_and_distrib, hmask, Nat.and_two_pow_sub_one_eq_mod, Nat.shiftRight_eq_div_pow]
  exact Nat.mod_eq_of_lt (by omega)

/-- One pass multiplies the value by 58 and adds the digit. -/
theorem mulAddWords_value {c : Nat} (hc : c < 58) (words : List UInt32) :
    (mulAddWords c words).2 < 58 ∧
      wordsValue (mulAddWords c words).1 + (mulAddWords c words).2 * (2 ^ 32) ^ words.length =
        wordsValue words * 58 + c := by
  induction words with
  | nil => exact ⟨hc, by simp [mulAddWords, wordsValue]⟩
  | cons word rest ih =>
    rw [mulAddWords]
    have hlen := length_mulAddWords c rest
    rcases hstep : mulAddWords c rest with ⟨out, carry⟩
    rw [hstep] at ih hlen
    obtain ⟨hcarry, hvalue⟩ := ih
    dsimp only at hcarry hvalue hlen ⊢
    have hword := word.toNat_lt
    have ht : word.toNat * 58 + carry < 58 * 2 ^ 32 := by omega
    have hsplit := Nat.mod_add_div (word.toNat * 58 + carry) (2 ^ 32)
    rw [carry_eq_div ht]
    refine ⟨by omega, ?_⟩
    rw [wordsValue_cons, wordsValue_cons, hlen, UInt32.toNat_ofNat', List.length_cons,
      pow_succ (2 ^ 32) rest.length]
    generalize (word.toNat * 58 + carry) % 2 ^ 32 = low at hsplit ⊢
    generalize (word.toNat * 58 + carry) / 2 ^ 32 = high at hsplit ⊢
    generalize (2 ^ 32) ^ rest.length = unit at hvalue ⊢
    calc low * unit + wordsValue out + high * (unit * 2 ^ 32)
        = (low + 2 ^ 32 * high) * unit + wordsValue out := by ring
      _ = (word.toNat * 58 + carry) * unit + wordsValue out := by rw [hsplit]
      _ = word.toNat * 58 * unit + (wordsValue out + carry * unit) := by ring
      _ = word.toNat * 58 * unit + (wordsValue rest * 58 + c) := by rw [hvalue]
      _ = (word.toNat * unit + wordsValue rest) * 58 + c := by ring

/-- The words after a string of the alphabet, unless the value is too large for them. -/
theorem b58tobinWords_eq {ds : Bytes} (hds : ∀ d ∈ ds, d.toNat < 58)
    (hlt : numeral 58 ds < (2 ^ 32) ^ 7) :
    (b58tobinWords (ds.map b58Char)).length = 7 ∧
      wordsValue (b58tobinWords (ds.map b58Char)) = numeral 58 ds := by
  induction ds using List.reverseRecOn with
  | nil => exact ⟨rfl, rfl⟩
  | append_singleton ds d ih =>
    have hd : d.toNat < 58 := hds d (by simp)
    rw [numeral_append_singleton] at hlt ⊢
    obtain ⟨hlen, hvalue⟩ := ih (fun e he => hds e (by simp [he])) (by omega)
    have hdigit : b58tobinDigit (b58Char d) = d.toNat := by
      rw [b58tobinDigit, (b58Value_eq_some_iff _ _).mpr ⟨hd, rfl⟩]
    rw [List.map_append, b58tobinWords, List.foldl_append]
    show (mulAddWords (b58tobinDigit (b58Char d)) (b58tobinWords (ds.map b58Char))).1.length = 7 ∧
      wordsValue (mulAddWords (b58tobinDigit (b58Char d)) (b58tobinWords (ds.map b58Char))).1 = _
    rw [hdigit]
    obtain ⟨-, hstep⟩ := mulAddWords_value hd (b58tobinWords (ds.map b58Char))
    rw [length_mulAddWords]
    refine ⟨hlen, ?_⟩
    rw [hlen, hvalue] at hstep
    -- nothing is carried out of the top word
    have hzero : (mulAddWords d.toNat (b58tobinWords (ds.map b58Char))).2 = 0 := by
      by_contra hne
      have := Nat.le_mul_of_pos_left ((2 ^ 32) ^ 7) (Nat.pos_of_ne_zero hne)
      omega
    rw [hzero] at hstep
    omega

/-- The bytes of words. -/
theorem numeral_flatMap_words (words : List UInt32) :
    (words.flatMap fun word => digits 256 4 word.toNat).length = 4 * words.length ∧
      numeral 256 (words.flatMap fun word => digits 256 4 word.toNat) = wordsValue words := by
  induction words using List.reverseRecOn with
  | nil => exact ⟨rfl, rfl⟩
  | append_singleton words word ih =>
    obtain ⟨hlen, hvalue⟩ := ih
    have hword := word.toNat_lt
    rw [List.flatMap_append, List.flatMap_singleton, List.length_append, hlen, numeral_append,
      hvalue, wordsValue_append_singleton, length_digits, numeral_digits (by omega) (by omega),
      List.length_append, List.length_singleton]
    refine ⟨by omega, ?_⟩
    rw [Nat.mod_eq_of_lt (by omega)]
    norm_num

/-- **`b58tobin` reads back every spelling of 25 bytes.** -/
theorem b58tobin_spellBase58 (k : Nat) {payload : Bytes} (hlen : payload.length = 25) :
    b58tobin (spellBase58 k payload) = payload := by
  have hfits : numeral 256 payload < 256 ^ 25 := by
    rw [← hlen]
    exact numeral_lt payload (toNat_lt_256 payload)
  obtain ⟨hwords, hvalue⟩ := b58tobinWords_eq (spellDigits_lt k payload)
    (by rw [numeral_spellDigits]; exact hfits.trans (by norm_num))
  rw [← spellBase58_eq_map, numeral_spellDigits] at hvalue
  rw [← spellBase58_eq_map] at hwords
  rcases hsplit : b58tobinWords (spellBase58 k payload) with - | ⟨top, rest⟩
  · rw [hsplit] at hwords
    cases hwords
  · rw [hsplit] at hwords hvalue
    have hrest : rest.length = 6 := by simpa using hwords
    rw [wordsValue_cons, hrest] at hvalue
    obtain ⟨hbytes, hlow⟩ := numeral_flatMap_words rest
    -- the value fits in 25 bytes, so the top word is one byte
    have htop : top.toNat < 256 := by
      by_contra hge
      have := Nat.mul_le_mul_right ((2 ^ 32) ^ 6) (Nat.not_lt.mp hge)
      omega
    have hbyte : top.toUInt8.toNat = top.toNat := by
      rw [UInt32.toNat_toUInt8, Nat.mod_eq_of_lt htop]
    rw [b58tobin, hsplit]
    refine numeral_injOn (by omega) (toNat_lt_256 _) (toNat_lt_256 _) ?_ ?_
    · simp [hbytes, hrest, hlen]
    · show numeral 256 (top.toUInt8 :: rest.flatMap _) = _
      rw [numeral_cons, hbytes, hrest, hbyte, hlow, ← hvalue]
      norm_num

/-! ### Lengths -/

/-- A value has no more digits than its bound. -/
theorem length_significant_le {b m : Nat} {ds : Bytes} (hpos : 0 < b)
    (h : numeral b ds < b ^ m) : (significant ds).length ≤ m := by
  rcases hs : significant ds with - | ⟨d, rest⟩
  · exact Nat.zero_le m
  · have hd : d ≠ 0 := by
      have hhead := List.head?_dropWhile_not (fun d : UInt8 => d == 0) ds
      rw [significant] at hs
      rw [hs] at hhead
      simpa using hhead
    have hdpos : 0 < d.toNat := Nat.pos_of_ne_zero fun hzero => hd (UInt8.toNat_inj.mp hzero)
    rw [← numeral_significant, hs, numeral_cons] at h
    have hle := Nat.le_mul_of_pos_left (b ^ rest.length) hdpos
    by_contra hgt
    rw [List.length_cons] at hgt
    have hpow : b ^ m ≤ b ^ rest.length := Nat.pow_le_pow_right hpos (by omega)
    omega

/-- How many characters a spelling has. -/
theorem length_spellBase58 (k : Nat) (payload : Bytes) :
    (spellBase58 k payload).length =
      k + (significant (digits 58 (2 * payload.length) (numeral 256 payload))).length := by
  simp [spellBase58]

theorem numeral_digits58 (payload : Bytes) :
    numeral 58 (digits 58 (2 * payload.length) (numeral 256 payload)) = numeral 256 payload := by
  rw [numeral_digits (by omega) (by omega), Nat.mod_eq_of_lt (numeral_lt_pow58 payload)]

/-- 25 bytes are at most 35 digits. -/
theorem length_digits58_le {payload : Bytes} (hlen : payload.length = 25) :
    (significant (digits 58 (2 * payload.length) (numeral 256 payload))).length ≤ 35 := by
  refine length_significant_le (b := 58) (by omega) ?_
  rw [numeral_digits58]
  have hlt := numeral_lt payload (toNat_lt_256 payload)
  rw [hlen] at hlt
  exact hlt.trans (by norm_num)

/-- **An address is at most 35 characters long**: a zero byte in front is one character, and takes
more than one digit off the others. -/
theorem length_base58Encode_25 {payload : Bytes} (hlen : payload.length = 25) :
    (base58Encode payload).length ≤ 35 := by
  have hsplit := replicate_append_significant payload
  have hparts := congrArg List.length hsplit
  rw [List.length_append, List.length_replicate, hlen] at hparts
  have hvalue : numeral 256 payload < 256 ^ (25 - leadingZeros payload) := by
    have hlt := numeral_lt (significant payload) (toNat_lt_256 _)
    rw [numeral_significant] at hlt
    have hsig : (significant payload).length = 25 - leadingZeros payload := by omega
    rwa [hsig] at hlt
  have hdigits : (significant (digits 58 (2 * payload.length) (numeral 256 payload))).length ≤
      35 - leadingZeros payload := by
    refine length_significant_le (b := 58) (by omega) ?_
    rw [numeral_digits58]
    generalize leadingZeros payload = zeros at hparts hvalue ⊢
    have hzeros : zeros ≤ 25 := by omega
    have hshift : 256 ^ (25 - zeros) * 58 ^ zeros < 58 ^ (35 - zeros) * 58 ^ zeros :=
      calc 256 ^ (25 - zeros) * 58 ^ zeros
          ≤ 256 ^ (25 - zeros) * 256 ^ zeros :=
            Nat.mul_le_mul_left _ (Nat.pow_le_pow_left (by omega) _)
        _ = 256 ^ 25 := by rw [← pow_add, Nat.sub_add_cancel hzeros]
        _ < 58 ^ 35 := by norm_num
        _ = 58 ^ (35 - zeros) * 58 ^ zeros := by
            rw [← pow_add, Nat.sub_add_cancel (by omega)]
    exact hvalue.trans (Nat.lt_of_mul_lt_mul_right hshift)
  rw [base58Encode, length_spellBase58]
  omega

/-! ### What a reference is taken for -/

/-- The reference is taken for one of a test network. -/
def refTest (ref : Bytes) : Bool :=
  bech32HrpIs ref [98, 99, 114, 116] || bech32HrpIs ref [116, 98] ||
    b58checkVersion ref = some 0x6f || b58checkVersion ref = some 0xc4

theorem refChars_of_not_refTest {ref : Bytes} (h : refTest ref = false) :
    refChars ref = mainChars := by
  simp only [refTest, Bool.or_eq_false_iff, decide_eq_false_iff_not] at h
  obtain ⟨⟨⟨hbcrt, htb⟩, hp2pkh⟩, hp2sh⟩ := h
  simp [refChars, hbcrt, htb, hp2pkh, hp2sh]

theorem refChars_of_refTest {ref : Bytes} (h : refTest ref = true) :
    ∃ hrp, refChars ref = testChars hrp := by
  have hne : ref ≠ [] := by
    rintro rfl
    exact absurd h (by decide)
  rw [refChars, if_neg hne]
  dsimp only
  by_cases hbcrt : bech32HrpIs ref [98, 99, 114, 116] = true
  · exact ⟨_, if_pos hbcrt⟩
  · have htest : bech32HrpIs ref [116, 98] = true ∨ b58checkVersion ref = some 0x6f ∨
        b58checkVersion ref = some 0xc4 := by
      simpa [refTest, hbcrt, or_assoc] using h
    rw [if_neg hbcrt, if_pos htest]
    exact ⟨_, rfl⟩

theorem b58Alphabet_contains_b58Char {d : UInt8} (hd : d.toNat < 58) :
    b58Alphabet.contains (b58Char d) = true := by
  have hlen : d.toNat < b58Alphabet.length := hd
  rw [b58Char, List.getD_eq_getElem _ _ hlen, List.contains_iff_mem]
  exact List.getElem_mem hlen

/-- The version of a legacy address, when its length is right. -/
theorem b58checkVersion_spellBase58 (k : Nat) (version : UInt8) {hash : Bytes}
    (hhash : hash.length = 20) :
    b58checkVersion (spellBase58 k (checkPayload version hash)) =
      if (spellBase58 k (checkPayload version hash)).length < 26 ∨
          (spellBase58 k (checkPayload version hash)).length > 35 then none
      else some version := by
  have hlen := length_checkPayload version hhash
  have hall : (spellBase58 k (checkPayload version hash)).all b58Alphabet.contains = true := by
    rw [List.all_eq_true, spellBase58_eq_map]
    intro c hc
    obtain ⟨d, hd, rfl⟩ := List.mem_map.mp hc
    exact b58Alphabet_contains_b58Char (spellDigits_lt _ _ d hd)
  obtain ⟨hsum, hversion, -⟩ := (eq_checkPayload_iff hlen version hash).mp ⟨hhash, rfl⟩
  rw [b58checkVersion, if_neg (not_not.mpr hall), b58tobin_spellBase58 k hlen]
  dsimp only
  rw [if_neg (not_not.mpr hsum)]
  rfl

/-- A reference that is read as bech32 starts like it. -/
theorem head_of_bech32HrpIs {s hrp : Bytes} (h : bech32HrpIs s hrp = true) :
    (s.take hrp.length).map tolower = hrp.map tolower := by
  unfold bech32HrpIs at h
  split at h
  case isTrue => cases h
  case isFalse =>
    split at h
    case isTrue => cases h
    case isFalse hhead => exact not_not.mp (not_or.mp hhead).1

theorem not_bech32HrpIs_of_head {s : Bytes} (hrp : Bytes) {c d : UInt8} {rest : Bytes}
    (hs : (s.map tolower).head? = some c) (hhrp : hrp.map tolower = d :: rest) (hne : c ≠ d) :
    bech32HrpIs s hrp = false := by
  by_contra htrue
  have hstart := head_of_bech32HrpIs (Bool.not_eq_false _ ▸ htrue)
  have hlen : hrp.length = rest.length + 1 := by
    have hmap := congrArg List.length hhrp
    rwa [List.length_map, List.length_cons] at hmap
  rw [List.map_take, hhrp, hlen] at hstart
  have hhead := congrArg List.head? hstart
  rw [List.head?_take, if_neg (by omega), hs, List.head?_cons] at hhead
  exact hne (Option.some.inj hhead)

/-- The top digit. -/
theorem head?_digits (b w n : Nat) :
    (digits b (w + 1) n).head? = some (UInt8.ofNat (n / b ^ w % b)) := by
  induction w generalizing n with
  | zero => simp [digits]
  | succ w ih =>
    have hhead : (digits b (w + 2) n).head? = (digits b (w + 1) (n / b)).head? := by
      rw [digits, List.head?_append_of_ne_nil]
      exact List.ne_nil_of_length_pos (by simp)
    rw [hhead, ih, Nat.div_div_eq_div_mul, ← pow_succ']

/-- A CashAddr payload starts with 'q' or 'p'. -/
theorem head?_encodePayload (p : NetworkPrefix) (isP2sh : Bool) {size : Nat} (hsize : size < 8)
    {hash : Bytes} (hhash : hash.length = 20) :
    (encodePayload p isP2sh size hash).head? = some 113 ∨
      (encodePayload p isP2sh size hash).head? = some 112 := by
  have hversion : (versionByte isP2sh size).toNat < 16 := by
    rw [versionByte, UInt8.toNat_ofNat']
    split <;> omega
  have hvalue : numeral 256 (versionByte isP2sh size :: hash) < 16 * 256 ^ 20 := by
    have hlow := numeral_lt hash (toNat_lt_256 hash)
    rw [hhash] at hlow
    have hhigh := Nat.mul_le_mul_right (256 ^ 20) (Nat.le_of_lt_succ hversion)
    rw [numeral_cons, hhash]
    omega
  have htop : numeral 256 (versionByte isP2sh size :: hash) * 4 / 32 ^ 33 < 2 :=
    Nat.div_lt_of_lt_mul (by omega)
  have hsymbol : (payloadSymbols (versionByte isP2sh size) hash).head? = some 0 ∨
      (payloadSymbols (versionByte isP2sh size) hash).head? = some 1 := by
    rw [payloadSymbols, head?_digits]
    generalize numeral 256 (versionByte isP2sh size :: hash) * 4 / 32 ^ 33 = top at htop
    interval_cases top
    · exact .inl rfl
    · exact .inr rfl
  have hhead : (encodePayload p isP2sh size hash).head? =
      (payloadSymbols (versionByte isP2sh size) hash).head?.map charsetChar := by
    rw [encodePayload, List.head?_map, List.head?_append_of_ne_nil]
    exact List.ne_nil_of_length_pos (by simp [payloadSymbols])
  rw [hhead]
  rcases hsymbol with hsymbol | hsymbol
  · left
    rw [hsymbol]
    rfl
  · right
    rw [hsymbol]
    rfl

/-- **A CashAddr is taken for one of mainnet**, on whatever network it is. -/
theorem not_refTest_of_spellsAddress {chain : Chain} {ref payload : Bytes}
    (h : SpellsAddress chain ref payload) : refTest ref = false := by
  have hpayload := h.lower.1
  have hlower := h.map_tolower
  obtain ⟨isP2sh, size, hash, hsize, hhash, hencode, -⟩ := h
  have hhead := head?_encodePayload chain.cashaddrPrefix isP2sh hsize hhash
  rw [← hencode] at hhead
  obtain ⟨c, rest, rfl⟩ := List.exists_cons_of_length_pos (by omega : 0 < payload.length)
  have hc : c = 113 ∨ c = 112 := by simpa using hhead
  have hnot : bech32HrpIs ref [98, 99, 114, 116] = false ∧ bech32HrpIs ref [116, 98] = false := by
    rcases hlower with ⟨-, hlower⟩ | ⟨-, hlower⟩
    · -- the prefixes of CashAddr are others
      constructor <;>
      · by_contra htrue
        have hstart := head_of_bech32HrpIs (Bool.not_eq_false _ ▸ htrue)
        rw [List.map_take, hlower] at hstart
        cases chain <;>
          simp [Chain.cashaddrPrefix, bitcoincash, bchtest, bchreg, tolower] at hstart
    · have hfirst : (ref.map tolower).head? = some c := by rw [hlower]; rfl
      exact ⟨not_bech32HrpIs_of_head _ hfirst rfl (by rcases hc with rfl | rfl <;> decide),
        not_bech32HrpIs_of_head _ hfirst rfl (by rcases hc with rfl | rfl <;> decide)⟩
  have hlong : ref.length > 35 := by
    have hlen : ref.length = (ref.map tolower).length := (List.length_map _).symm
    rcases hlower with ⟨-, hlower⟩ | ⟨-, hlower⟩
    · rw [hlen, hlower, List.length_append, List.length_cons]
      omega
    · rw [hlen, hlower]
      omega
  have hversion : b58checkVersion ref = none := if_pos (Or.inr hlong)
  simp [refTest, hnot.1, hnot.2, hversion]

/-- A test address has at least 26 characters. -/
theorem le_length_spellBase58 (k : Nat) {version : UInt8} {hash : Bytes} (hhash : hash.length = 20)
    (hversion : version ≠ 0) : 26 ≤ (spellBase58 k (checkPayload version hash)).length := by
  have hvalue : 256 ^ 24 ≤ numeral 256 (checkPayload version hash) := by
    have hpos : 0 < version.toNat :=
      Nat.pos_of_ne_zero fun hzero => hversion (UInt8.toNat_inj.mp hzero)
    have htop := Nat.le_mul_of_pos_left (256 ^ 24) hpos
    have hlow : (hash ++ base58Checksum (version :: hash)).length = 24 := by
      simp [hhash, length_base58Checksum]
    rw [checkPayload, List.cons_append, numeral_cons, hlow]
    exact htop.trans (Nat.le_add_right _ _)
  have hlt := numeral_lt (b := 58) (significant (digits 58 (2 * (checkPayload version hash).length)
    (numeral 256 (checkPayload version hash))))
    fun d hd => digits_lt (by omega) (by omega) _ _ d (List.dropWhile_sublist _ |>.subset hd)
  rw [numeral_significant, numeral_digits58] at hlt
  rw [length_spellBase58]
  by_contra hshort
  have hpow : 58 ^ (significant (digits 58 (2 * (checkPayload version hash).length)
      (numeral 256 (checkPayload version hash)))).length ≤ 58 ^ 25 :=
    Nat.pow_le_pow_right (by omega) (by omega)
  have hbig : (58 : Nat) ^ 25 < 256 ^ 24 := by norm_num
  omega

/-- **A legacy reference of a test network** is taken for one unless it is too long, which it is
when it has more '1' characters in front than it should. -/
theorem refTest_legacy_test_iff {ref pre : Bytes} {r : BchAddrType × Bytes}
    (hpre : isMainnet pre = false) (h : classifyLegacy ref pre = some r) :
    refTest ref = true ↔ ref.length ≤ 35 := by
  obtain ⟨type, hash⟩ := r
  obtain ⟨-, hhash, isP2sh, k, -, hspell⟩ := (classifyLegacy_eq_some_iff _ _ _ _).mp h
  rw [hpre] at hspell
  have hne : legacyVersion false isP2sh ≠ 0 := by cases isP2sh <;> decide
  have hversion := b58checkVersion_spellBase58 k (legacyVersion false isP2sh) hhash
  have hlong := le_length_spellBase58 k hhash hne
  rw [← hspell] at hversion hlong
  constructor
  · intro htest
    by_contra hgt
    have hlen := length_digits58_le (length_checkPayload (legacyVersion false isP2sh) hhash)
    have hcount := length_spellBase58 k (checkPayload (legacyVersion false isP2sh) hash)
    rw [← hspell] at hcount
    obtain ⟨k, rfl⟩ := Nat.exists_eq_add_of_lt (by omega : 0 < k)
    rw [if_pos (by omega)] at hversion
    have hfirst : (ref.map tolower).head? = some 49 := by
      rw [hspell, spellBase58, Nat.zero_add, List.replicate_succ]
      rfl
    have hbcrt := not_bech32HrpIs_of_head [98, 99, 114, 116] hfirst rfl (by decide)
    have htb := not_bech32HrpIs_of_head [116, 98] hfirst rfl (by decide)
    simp [refTest, hbcrt, htb, hversion] at htest
  · intro hle
    rw [if_neg (by omega)] at hversion
    cases isP2sh <;> simp [refTest, hversion, legacyVersion]

/-- A legacy reference of mainnet is taken for one, but it might happen to be bech32 as well. -/
theorem refTest_legacy_main_iff {ref pre : Bytes} {r : BchAddrType × Bytes}
    (hpre : isMainnet pre = true) (h : classifyLegacy ref pre = some r) :
    refTest ref = true ↔
      bech32HrpIs ref [98, 99, 114, 116] = true ∨ bech32HrpIs ref [116, 98] = true := by
  obtain ⟨type, hash⟩ := r
  obtain ⟨-, hhash, isP2sh, k, -, hspell⟩ := (classifyLegacy_eq_some_iff _ _ _ _).mp h
  rw [hpre] at hspell
  have hversion := b58checkVersion_spellBase58 k (legacyVersion true isP2sh) hhash
  rw [← hspell] at hversion
  have hp2pkh : b58checkVersion ref ≠ some 0x6f := by
    rw [hversion]
    split <;> cases isP2sh <;> simp [legacyVersion]
  have hp2sh : b58checkVersion ref ≠ some 0xc4 := by
    rw [hversion]
    split <;> cases isP2sh <;> simp [legacyVersion]
  simp [refTest, hp2pkh, hp2sh]

/-! ### The round trip -/

/-- The script of an address. -/
def hashScript (isP2sh : Bool) (hash : Bytes) : Bytes :=
  if isP2sh then hash160ToP2shScript hash else hash160ToP2pkhScript hash

/-- **The address that is written** is the legacy one of the network that was taken. -/
theorem txnToAddress_hashScript {alen : Nat} (halen : 36 ≤ alen) (isP2sh : Bool) {hash : Bytes}
    (hhash : hash.length = 20) (ref : Bytes) :
    txnToAddress alen (hashScript isP2sh hash) ref =
      some (base58Encode (checkPayload (legacyVersion (!refTest ref) isP2sh) hash)) := by
  have hlen := length_base58Encode_25
    (length_checkPayload (legacyVersion (!refTest ref) isP2sh) hhash)
  have hchars : (if isP2sh then (refChars ref).p2sh else (refChars ref).p2pkh) =
      legacyVersion (!refTest ref) isP2sh := by
    cases htest : refTest ref with
    | false =>
      rw [refChars_of_not_refTest htest]
      cases isP2sh <;> rfl
    | true =>
      obtain ⟨hrp, hhrp⟩ := refChars_of_refTest htest
      rw [hhrp]
      cases isP2sh <;> rfl
  have hencode : b58checkEncode alen (legacyVersion (!refTest ref) isP2sh) hash =
      some (base58Encode (checkPayload (legacyVersion (!refTest ref) isP2sh) hash)) := by
    rw [b58checkEncode, binToBase58_eq]
    exact if_neg (by omega)
  rw [← hencode, ← hchars]
  cases isP2sh with
  | false => simp [txnToAddress, hashScript, hash160ToP2pkhScript, hhash]
  | true => simp [txnToAddress, hashScript, hash160ToP2shScript, hhash]

/-- A legacy address is not shaped like a CashAddr. -/
theorem not_shaped_base58Encode (main isP2sh : Bool) {hash : Bytes} (hhash : hash.length = 20) :
    addrIsCashaddrShaped (base58Encode (checkPayload (legacyVersion main isP2sh) hash)) =
      false := by
  obtain ⟨pre, rfl⟩ : ∃ pre, main = isMainnet pre := by
    cases main with
    | false => exact ⟨bchtest.chars, by decide⟩
    | true => exact ⟨bitcoincash.chars, by decide⟩
  have hcolon := (classifyLegacy_chars (classifyLegacy_base58Encode pre isP2sh hhash)).1
  have hlen := length_base58Encode_25 (length_checkPayload (legacyVersion (isMainnet pre) isP2sh)
    hhash)
  rw [addrIsCashaddrShaped, if_neg hcolon]
  exact decide_eq_false (by omega)

/-- **What is written is read back on the network that was taken**, and on no other. -/
theorem addressToTxn_legacy_iff (chain : Chain) (main isP2sh : Bool) {hash : Bytes}
    (hhash : hash.length = 20) :
    addressToTxn chain (base58Encode (checkPayload (legacyVersion main isP2sh) hash)) =
        some (hashScript isP2sh hash) ↔
      main = isMainnet chain.cashaddrPrefix.chars := by
  have hshaped := not_shaped_base58Encode main isP2sh hhash
  rw [addressToTxn, classifyAddress, hshaped, if_neg Bool.false_ne_true]
  constructor
  · intro hread
    obtain ⟨⟨type, hash'⟩, hclass, -⟩ := Option.map_eq_some_iff.mp hread
    obtain ⟨-, hhash', isP2sh', k, -, hspell⟩ := (classifyLegacy_eq_some_iff _ _ _ _).mp hclass
    obtain ⟨-, hpayload⟩ := spellBase58_inj (length_checkPayload _ hhash)
      (length_checkPayload _ hhash') hspell
    have hversion : legacyVersion main isP2sh =
        legacyVersion (isMainnet chain.cashaddrPrefix.chars) isP2sh' := by
      have hhead := congrArg List.head? hpayload
      exact Option.some.inj hhead
    revert hversion
    generalize isMainnet chain.cashaddrPrefix.chars = main'
    cases main <;> cases isP2sh <;> cases main' <;> cases isP2sh' <;> decide
  · rintro rfl
    rw [classifyLegacy_base58Encode _ isP2sh hhash]
    cases isP2sh <;> rfl

/-- The reference names its network: on mainnet it is not bech32 by chance, and on a test network
it is a legacy address of at most 35 characters. -/
def NamesNetwork (chain : Chain) (ref : Bytes) : Prop :=
  match chain with
  | .main => bech32HrpIs ref [98, 99, 114, 116] = false ∧ bech32HrpIs ref [116, 98] = false
  | .test | .regtest => addrIsCashaddrShaped ref = false ∧ ref.length ≤ 35

/-- **What a valid reference is taken for.** -/
theorem refTest_eq_iff {chain : Chain} {ref : Bytes} {r : BchAddrType × Bytes}
    (h : classifyAddress ref chain.cashaddrPrefix.chars = some r) :
    (!refTest ref) = isMainnet chain.cashaddrPrefix.chars ↔ NamesNetwork chain ref := by
  obtain ⟨type, hash⟩ := r
  obtain ⟨hhash, isP2sh, -, size, hsize, hspells⟩ | ⟨hshaped, hlegacy⟩ :=
    (classifyAddress_eq_some_iff chain ref type hash).mp h
  · -- a CashAddr
    have hspells : SpellsAddress chain ref (encodePayload chain.cashaddrPrefix isP2sh size hash) :=
      ⟨isP2sh, size, hash, hsize, hhash, rfl, hspells⟩
    have htest := not_refTest_of_spellsAddress hspells
    rw [htest]
    cases chain with
    | main =>
      simp only [refTest, Bool.or_eq_false_iff] at htest
      exact iff_of_true (by decide) ⟨htest.1.1.1, htest.1.1.2⟩
    | test | regtest =>
      refine iff_of_false (by decide) fun hnames => ?_
      have hshaped : addrIsCashaddrShaped ref = false := hnames.1
      rw [hspells.shaped] at hshaped
      cases hshaped
  · cases chain with
    | main =>
      have hmain : isMainnet (Chain.main.cashaddrPrefix.chars) = true := by decide
      have htest := refTest_legacy_main_iff hmain hlegacy
      rw [hmain, Bool.not_eq_true', ← Bool.not_eq_true, htest, not_or, Bool.not_eq_true,
        Bool.not_eq_true]
      rfl
    | test =>
      have hpre : isMainnet (Chain.test.cashaddrPrefix.chars) = false := by decide
      rw [hpre, Bool.not_eq_false', refTest_legacy_test_iff hpre hlegacy]
      exact (and_iff_right hshaped).symm
    | regtest =>
      have hpre : isMainnet (Chain.regtest.cashaddrPrefix.chars) = false := by decide
      rw [hpre, Bool.not_eq_false', refTest_legacy_test_iff hpre hlegacy]
      exact (and_iff_right hshaped).symm

/-- The script is written as an address that is read back to it. -/
def RoundTrips (chain : Chain) (alen : Nat) (script ref : Bytes) : Prop :=
  ∃ addr, txnToAddress alen script ref = some addr ∧ addressToTxn chain addr = some script

theorem roundTrips_iff {chain : Chain} {alen : Nat} (halen : 36 ≤ alen) (isP2sh : Bool)
    {hash ref : Bytes} (hhash : hash.length = 20) {r : BchAddrType × Bytes}
    (href : classifyAddress ref chain.cashaddrPrefix.chars = some r) :
    RoundTrips chain alen (hashScript isP2sh hash) ref ↔ NamesNetwork chain ref := by
  rw [← refTest_eq_iff href, ← addressToTxn_legacy_iff chain _ isP2sh hhash, RoundTrips,
    txnToAddress_hashScript halen isP2sh hhash]
  simp

/-- **The round trip of a script.**  With a valid reference address, and so also with the address
of the script itself, it holds exactly when the reference names its network. -/
theorem txn_to_address_round_trips {chain : Chain} {alen : Nat} (halen : 36 ≤ alen) {ref : Bytes}
    (href : (classifyAddress ref chain.cashaddrPrefix.chars).isSome) :
    (∀ hash : Bytes, hash.length = 20 →
      (RoundTrips chain alen (hash160ToP2pkhScript hash) ref ↔ NamesNetwork chain ref) ∧
      (RoundTrips chain alen (hash160ToP2shScript hash) ref ↔ NamesNetwork chain ref)) ∧
    ∀ script, addressToTxn chain ref = some script →
      (RoundTrips chain alen script ref ↔ NamesNetwork chain ref) := by
  obtain ⟨⟨type, hash⟩, href⟩ := Option.isSome_iff_exists.mp href
  refine ⟨fun hash hhash => ⟨roundTrips_iff halen false hhash href,
    roundTrips_iff halen true hhash href⟩, fun script hscript => ?_⟩
  have hhash : hash.length = 20 := by
    obtain ⟨hhash, -⟩ | ⟨-, hlegacy⟩ := (classifyAddress_eq_some_iff chain ref type hash).mp href
    · exact hhash
    · exact ((classifyLegacy_eq_some_iff _ _ _ _).mp hlegacy).2.1
  have hpay : script = hashScript type.isScript hash := by
    rw [addressToTxn, href] at hscript
    exact (Option.some.inj hscript).symm
  rw [hpay]
  exact roundTrips_iff halen _ hhash href

/-- The CashAddr of the zero hash. -/
def zeroHashAddress (chain : Chain) : Bytes :=
  chain.cashaddrPrefix.chars ++ 58 ::
    encodePayload chain.cashaddrPrefix false 0 (List.replicate 20 0)

/-- "bchreg:qqqqqqqqqqqqqqqqqqqqqqqqqqqqqqqqqqha9s37tt" -/
example : zeroHashAddress .regtest =
    [98, 99, 104, 114, 101, 103, 58] ++ List.replicate 34 113 ++
      [104, 97, 57, 115, 51, 55, 116, 116] := by
  decide +kernel

theorem classifyAddress_zeroAddress (chain : Chain) :
    classifyAddress (zeroHashAddress chain) chain.cashaddrPrefix.chars =
      some (.cashaddrP2pkh, List.replicate 20 0) :=
  (classifyAddress_eq_some_iff chain _ _ _).mpr
    (.inl ⟨List.length_replicate, false, rfl, 0, by decide, .inl rfl⟩)

theorem spellsAddress_zeroAddress (chain : Chain) :
    SpellsAddress chain (zeroHashAddress chain)
      (encodePayload chain.cashaddrPrefix false 0 (List.replicate 20 0)) :=
  ⟨false, 0, _, by decide, List.length_replicate, rfl, .inl rfl⟩

/-- On mainnet the script of the zero hash comes back. -/
theorem txn_to_address_main_round_trips :
    RoundTrips .main 128 (hash160ToP2pkhScript (List.replicate 20 0)) (zeroHashAddress .main) := by
  have href : (classifyAddress (zeroHashAddress .main) Chain.main.cashaddrPrefix.chars).isSome := by
    rw [classifyAddress_zeroAddress]
    rfl
  have hround := txn_to_address_round_trips (by decide : 36 ≤ 128) href
  refine (hround.1 _ List.length_replicate).1.mpr ((refTest_eq_iff
    (classifyAddress_zeroAddress .main)).mp ?_)
  rw [not_refTest_of_spellsAddress (spellsAddress_zeroAddress .main)]
  decide

/-- On regtest it does not: the address that is written is one of mainnet. -/
theorem regtest_cashaddr_not_round_trips :
    (classifyAddress (zeroHashAddress .regtest) Chain.regtest.cashaddrPrefix.chars).isSome = true ∧
      ¬RoundTrips .regtest 128 (hash160ToP2pkhScript (List.replicate 20 0))
        (zeroHashAddress .regtest) := by
  refine ⟨by rw [classifyAddress_zeroAddress]; rfl, fun hround => ?_⟩
  have hnames := (roundTrips_iff (by decide) false List.length_replicate
    (classifyAddress_zeroAddress .regtest)).mp hround
  have hshaped : addrIsCashaddrShaped (zeroHashAddress .regtest) = false := hnames.1
  rw [(spellsAddress_zeroAddress .regtest).shaped] at hshaped
  cases hshaped

end CashStratum
