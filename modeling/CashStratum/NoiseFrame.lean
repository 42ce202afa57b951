/-
CashStratum/NoiseFrame.lean

The transport of a Noise session (`sv2_noise.c`).  A frame is sealed as its header and then
its payload in chunks, each with the nonce that the cipher state counts to.  Who receives
them counts along: a header that has come without its payload is deciphered once and kept
(`hdr_pending`), for the next try must not count it again.

The cipher is a parameter, of which a session needs what `Aead` says.  `frameCipher` is the
text of a frame from a nonce on; what the sender makes is that text
(`encryptFrame_eq`), and the receiver makes the frame of it when all of it has come
(`decryptFrame_eq`).

`used` is the list of the nonces that a cipher state has sealed with.  Nothing reads it.
-/
import CashStratum.Sv2Codec

namespace CashStratum

/-! ### Lengths -/

/-- `SV2_FRAME_HEADER_LEN` -/
def frameHeaderLen : Nat := 6

/-- `SV2_NOISE_MAX_CT_LEN` -/
def noiseMaxCtLen : Nat := 65535

/-- `SV2_NOISE_MAC_LEN` -/
def noiseMacLen : Nat := 16

/-- `SV2_NOISE_MAX_PT_CHUNK` -/
def noiseMaxPtChunk : Nat := noiseMaxCtLen - noiseMacLen

/-- `SV2_ENCRYPTED_HEADER_LEN` -/
def encryptedHeaderLen : Nat := frameHeaderLen + noiseMacLen

/-- `sv2_pt_len_to_ct_len` -/
def ptLenToCtLen (ptLen : Nat) : Nat :=
  ptLen / noiseMaxPtChunk * noiseMaxCtLen +
    if 0 < ptLen % noiseMaxPtChunk then ptLen % noiseMaxPtChunk + noiseMacLen else 0

/-- `noise_frame_chunk_count` -/
def noiseFrameChunkCount (ptLen : Nat) : Nat :=
  1 + if ptLen = 0 then 0 else (ptLen + noiseMaxPtChunk - 1) / noiseMaxPtChunk

/-- `SV2_NOISE_NONCE_WATERMARK` -/
def noiseNonceWatermark : Nat := 2 ^ 64 - 1 - 2 ^ 20

/-! ### Headers -/

/-- The header of a `struct sv2_frame`. -/
structure FrameHeader where
  extensionType : UInt16
  msgType : UInt8
  msgLength : Nat
deriving DecidableEq

/-- `sv2_decode_header` -/
def decodeHeader (buf : Bytes) : Option FrameHeader := do
  let (extensionType, p) ← readU16 buf
  let (msgType, p) ← readU8 p
  let (msgLength, _) ← readLe 3 p
  if maxPayload < msgLength then none else some ⟨extensionType, msgType, msgLength⟩

/-! ### Cipher states -/

/-- An authenticated cipher with a key, a nonce and associated data: what was sealed is
opened by the same three, and a seal adds the tag. -/
structure Aead (κ : Type) where
  encrypt : κ → Bytes → Bytes → Bytes → Bytes
  decrypt : κ → Bytes → Bytes → Bytes → Option Bytes
  length_encrypt : ∀ k nonce ad pt, (encrypt k nonce ad pt).length = pt.length + noiseMacLen
  decrypt_encrypt : ∀ k nonce ad pt, decrypt k nonce ad (encrypt k nonce ad pt) = some pt

/-- `struct cipher_state`, and the nonces it has sealed with. -/
structure CipherState (κ : Type) where
  k : κ
  n : Nat
  hasKey : Bool
  used : List Bytes

/-- `noise_nonce` -/
def noiseNonce (n : Nat) : Bytes := [0, 0, 0, 0] ++ leBytes 8 n

variable {κ : Type} (A : Aead κ)

/-- `noise_nonce_has_budget` -/
def noiseNonceHasBudget (c : CipherState κ) (need : Nat) : Bool :=
  if !c.hasKey || need < 1 then false
  else if noiseNonceWatermark ≤ c.n then false
  else if noiseNonceWatermark - c.n < need then false
  else true

/-- `cs_encrypt` -/
def csEncrypt (c : CipherState κ) (ad pt : Bytes) : Option (Bytes × CipherState κ) :=
  if !c.hasKey then none
  else some (A.encrypt c.k (noiseNonce c.n) ad pt,
    { c with n := (c.n + 1) % 2 ^ 64, used := c.used ++ [noiseNonce c.n] })

/-- `cs_decrypt` -/
def csDecrypt (c : CipherState κ) (ad ct : Bytes) : Option (Bytes × CipherState κ) :=
  if !c.hasKey then none
  else if ct.length < noiseMacLen then none
  else (A.decrypt c.k (noiseNonce c.n) ad ct).map fun pt =>
    (pt, { c with n := (c.n + 1) % 2 ^ 64 })

/-! ### Sessions -/

/-- `struct sv2_noise_session`, without what the handshake alone uses. -/
structure NoiseSession (κ : Type) where
  sendCs : CipherState κ
  recvCs : CipherState κ
  handshakeDone : Bool
  hdrPending : Bool
  hdrPt : Bytes
  pendingPtLen : Nat
  pendingNeed : Nat

theorem length_drop_chunk_lt {p : Bytes} (h : p ≠ []) :
    (p.drop noiseMaxPtChunk).length < p.length := by
  rw [List.length_drop]
  exact Nat.sub_lt (List.length_pos_iff.mpr h) (by decide)

/-- The loop of `sv2_noise_encrypt_frame` over what is left of the payload. -/
def encryptChunks (c : CipherState κ) (pp : Bytes) : Option Bytes × CipherState κ :=
  if _h : pp = [] then (some [], c)
  else
    match csEncrypt A c [] (pp.take noiseMaxPtChunk) with
    | none => (none, c)
    | some (ct, c) =>
      let (rest, c) := encryptChunks c (pp.drop noiseMaxPtChunk)
      (rest.map (ct ++ ·), c)
termination_by pp.length
decreasing_by exact length_drop_chunk_lt _h

/-- `sv2_noise_encrypt_frame` -/
def encryptFrame (s : NoiseSession κ) (plain : Bytes) : Option Bytes × NoiseSession κ :=
  if !s.handshakeDone || plain.length < frameHeaderLen then (none, s)
  else
    match decodeHeader plain with
    | none => (none, s)
    | some fr =>
      if plain.length ≠ frameHeaderLen + fr.msgLength then (none, s)
      else if !noiseNonceHasBudget s.sendCs (noiseFrameChunkCount fr.msgLength) then (none, s)
      else
        match csEncrypt A s.sendCs [] (plain.take frameHeaderLen) with
        | none => (none, s)
        | some (hdr, c) =>
          if hdr.length ≠ encryptedHeaderLen then (none, { s with sendCs := c })
          else
            let (ct, c) := encryptChunks A c (plain.drop frameHeaderLen)
            (ct.map (hdr ++ ·), { s with sendCs := c })

/-- The loop of `sv2_noise_decrypt_frame` over what is left of the payload. -/
def decryptChunks (c : CipherState κ) (remaining : Nat) (cp : Bytes) :
    Option (Bytes × CipherState κ) :=
  if _h : remaining = 0 then some ([], c)
  else
    let chunkPt := min remaining noiseMaxPtChunk
    match csDecrypt A c [] (cp.take (chunkPt + noiseMacLen)) with
    | none => none
    | some (pt, c) =>
      if pt.length ≠ chunkPt then none
      else
        (decryptChunks c (remaining - chunkPt) (cp.drop (chunkPt + noiseMacLen))).map fun r =>
          (pt ++ r.1, r.2)
termination_by remaining
decreasing_by
  exact Nat.sub_lt (Nat.pos_of_ne_zero _h) (Nat.lt_min.mpr ⟨Nat.pos_of_ne_zero _h, by decide⟩)

/-- What `sv2_noise_decrypt_frame` returns: 0, -1 or -2. -/
inductive FrameResult (κ : Type)
  | frame (consumed : Nat) (plain : Bytes) (s : NoiseSession κ)
  | needMore (s : NoiseSession κ)
  /-- The session is dropped. -/
  | fatal

/-- The second half of `sv2_noise_decrypt_frame`: all of the frame has come. -/
def decryptPayload (s : NoiseSession κ) (hdrPt : Bytes) (ptLen need : Nat) (inp : Bytes) :
    FrameResult κ :=
  match decryptChunks A s.recvCs ptLen (inp.drop encryptedHeaderLen) with
  | none => .fatal
  | some (payload, c) => .frame need (hdrPt ++ payload) { s with recvCs := c }

/-- `sv2_noise_decrypt_frame` -/
def decryptFrame (s : NoiseSession κ) (inp : Bytes) : FrameResult κ :=
  if !s.handshakeDone then .fatal
  else if s.hdrPending then
    if inp.length < s.pendingNeed then .needMore s
    else
      let payChunks := noiseFrameChunkCount s.pendingPtLen - 1
      if payChunks ≠ 0 && !noiseNonceHasBudget s.recvCs payChunks then .fatal
      else
        decryptPayload A { s with hdrPending := false, pendingNeed := 0, pendingPtLen := 0 }
          s.hdrPt s.pendingPtLen s.pendingNeed inp
  else if inp.length < encryptedHeaderLen then .needMore s
  else if !noiseNonceHasBudget s.recvCs 1 then .fatal
  else
    match csDecrypt A s.recvCs [] (inp.take encryptedHeaderLen) with
    | none => .fatal
    | some (hdrPt, c) =>
      if hdrPt.length ≠ frameHeaderLen then .fatal
      else
        match decodeHeader hdrPt with
        | none => .fatal
        | some fr =>
          let need := encryptedHeaderLen + ptLenToCtLen fr.msgLength
          let payChunks := noiseFrameChunkCount fr.msgLength - 1
          if payChunks ≠ 0 && !noiseNonceHasBudget c payChunks then .fatal
          else if inp.length < need then
            .needMore { s with
              recvCs := c, hdrPt := hdrPt, pendingPtLen := fr.msgLength, pendingNeed := need
              hdrPending := true }
          else decryptPayload A { s with recvCs := c } hdrPt fr.msgLength need inp

/-! ### Headers and lengths -/

/-- `sv2_encode_header` -/
def encodeHeader (fr : FrameHeader) : Bytes :=
  writeU16 fr.extensionType ++ (writeU8 fr.msgType ++ leBytes 3 fr.msgLength)

theorem length_encodeHeader (fr : FrameHeader) : (encodeHeader fr).length = frameHeaderLen := by
  simp [encodeHeader, frameHeaderLen]

theorem decodeHeader_eq_some_iff {buf : Bytes} {fr : FrameHeader} :
    decodeHeader buf = some fr ↔
      fr.msgLength ≤ maxPayload ∧ ∃ rest, buf = encodeHeader fr ++ rest := by
  obtain ⟨extensionType, msgType, msgLength⟩ := fr
  constructor
  · intro h
    obtain ⟨⟨ext, p₁⟩, h₁, h'⟩ := Option.bind_eq_some_iff.mp h
    obtain ⟨⟨ty, p₂⟩, h₂, h''⟩ := Option.bind_eq_some_iff.mp h'
    obtain ⟨⟨len, rest⟩, h₃, hend⟩ := Option.bind_eq_some_iff.mp h''
    obtain ⟨a, hlen, hnat, hp₂⟩ := readLe_eq_some_iff.mp h₃
    rw [readU8_eq_some_iff, hp₂] at h₂
    rw [readU16_eq_some_iff] at h₁
    dsimp only at hend
    split_ifs at hend with hmax
    obtain ⟨rfl, rfl, rfl⟩ := FrameHeader.mk.inj (Option.some.inj hend)
    refine ⟨not_lt.mp hmax, rest, ?_⟩
    rw [h₁, h₂, encodeHeader, ← hnat, ← hlen, leBytes_leNat]
    simp only [List.append_assoc]
  · rintro ⟨hmax, rest, rfl⟩
    have hlt : msgLength < 256 ^ 3 := lt_of_le_of_lt hmax (by decide)
    have h₃ := readLe_append (leBytes 3 msgLength) rest
    rw [length_leBytes, leNat_leBytes_of_lt hlt] at h₃
    simp only [encodeHeader, List.append_assoc]
    dsimp only [decodeHeader, Option.bind_eq_bind]
    refine Option.bind_eq_some_iff.mpr ⟨_, readU16_eq_some_iff.mpr rfl, ?_⟩
    refine Option.bind_eq_some_iff.mpr ⟨_, readU8_eq_some_iff.mpr rfl, ?_⟩
    refine Option.bind_eq_some_iff.mpr ⟨_, h₃, ?_⟩
    exact if_neg (not_lt.mpr hmax)

/-- A frame as its sender has it: a header, and the payload that it announces, of at most
`max` bytes. -/
def WellFormedFrame (max : Nat) (plain : Bytes) : Prop :=
  ∃ fr, decodeHeader plain = some fr ∧ plain.length = frameHeaderLen + fr.msgLength ∧
    fr.msgLength ≤ max

/-- The nonces that a payload takes. -/
def payloadChunks (ptLen : Nat) : Nat := noiseFrameChunkCount ptLen - 1

theorem noiseFrameChunkCount_eq (ptLen : Nat) :
    noiseFrameChunkCount ptLen = payloadChunks ptLen + 1 := by
  rw [payloadChunks, noiseFrameChunkCount]
  omega

theorem payloadChunks_zero : payloadChunks 0 = 0 := rfl

theorem noiseMaxPtChunk_eq : noiseMaxPtChunk = 65519 := rfl

theorem payloadChunks_eq (ptLen : Nat) : payloadChunks ptLen = (ptLen + 65518) / 65519 := by
  rw [payloadChunks, noiseFrameChunkCount, noiseMaxPtChunk_eq, Nat.add_sub_cancel_left]
  split_ifs with h
  · rw [h]
  · rfl

/-- The first chunk of a payload takes one nonce. -/
theorem payloadChunks_step {ptLen : Nat} (h : 0 < ptLen) :
    payloadChunks ptLen = payloadChunks (ptLen - noiseMaxPtChunk) + 1 := by
  rw [payloadChunks_eq, payloadChunks_eq, noiseMaxPtChunk_eq]
  omega

/-- The first chunk of a payload takes its bytes and a tag. -/
theorem ptLenToCtLen_step {ptLen : Nat} (h : 0 < ptLen) :
    ptLenToCtLen ptLen
      = min noiseMaxPtChunk ptLen + noiseMacLen + ptLenToCtLen (ptLen - noiseMaxPtChunk) := by
  rw [ptLenToCtLen, ptLenToCtLen, noiseMaxPtChunk_eq, show noiseMaxCtLen = 65535 from rfl,
    show noiseMacLen = 16 from rfl]
  split_ifs <;> omega

/-! ### The text of a frame -/

section Text

/-- The chunks of a payload, sealed from nonce `n` on. -/
def chunksCipher (k : κ) (n : Nat) (payload : Bytes) : Bytes :=
  if _h : payload = [] then []
  else
    A.encrypt k (noiseNonce n) [] (payload.take noiseMaxPtChunk) ++
      chunksCipher k (n + 1) (payload.drop noiseMaxPtChunk)
termination_by payload.length
decreasing_by exact length_drop_chunk_lt _h

/-- A frame, sealed from nonce `n` on. -/
def frameCipher (k : κ) (n : Nat) (plain : Bytes) : Bytes :=
  A.encrypt k (noiseNonce n) [] (plain.take frameHeaderLen) ++
    chunksCipher A k (n + 1) (plain.drop frameHeaderLen)

/-- The nonces that a frame takes. -/
def frameNonces (plain : Bytes) : Nat :=
  noiseFrameChunkCount (plain.length - frameHeaderLen)

/-- The length of a frame when it is sealed. -/
def frameCipherLen (plain : Bytes) : Nat :=
  encryptedHeaderLen + ptLenToCtLen (plain.length - frameHeaderLen)

theorem chunksCipher_nil (k : κ) (n : Nat) : chunksCipher A k n [] = [] := by
  rw [chunksCipher, dif_pos rfl]

theorem chunksCipher_of_ne_nil (k : κ) (n : Nat) {payload : Bytes} (h : payload ≠ []) :
    chunksCipher A k n payload
      = A.encrypt k (noiseNonce n) [] (payload.take noiseMaxPtChunk) ++
        chunksCipher A k (n + 1) (payload.drop noiseMaxPtChunk) := by
  rw [chunksCipher, dif_neg h]

theorem length_chunksCipher (k : κ) (n : Nat) (payload : Bytes) :
    (chunksCipher A k n payload).length = ptLenToCtLen payload.length := by
  induction hlen : payload.length using Nat.strong_induction_on generalizing n payload with
  | _ len ih =>
    by_cases h : payload = []
    · rw [h, chunksCipher_nil, ← hlen, h]
      rfl
    · have hrest := ih _ (hlen ▸ length_drop_chunk_lt h) (n + 1) _ rfl
      have hpos : 0 < payload.length := List.length_pos_iff.mpr h
      rw [chunksCipher_of_ne_nil A k n h, List.length_append, A.length_encrypt, hrest,
        List.length_take, List.length_drop, ← hlen, ptLenToCtLen_step hpos]

theorem length_frameCipher (k : κ) (n : Nat) {plain : Bytes} (h : frameHeaderLen ≤ plain.length) :
    (frameCipher A k n plain).length = frameCipherLen plain := by
  rw [frameCipher, List.length_append, A.length_encrypt, length_chunksCipher, List.length_take,
    List.length_drop, min_eq_left h]
  rfl

end Text

/-! ### Sealing -/

/-- The state after `j` seals. -/
def CipherState.advance (c : CipherState κ) (j : Nat) : CipherState κ :=
  { c with n := c.n + j, used := c.used ++ (List.range' c.n j).map noiseNonce }

@[simp] theorem CipherState.advance_k (c : CipherState κ) (j : Nat) : (c.advance j).k = c.k := rfl

@[simp] theorem CipherState.advance_n (c : CipherState κ) (j : Nat) :
    (c.advance j).n = c.n + j := rfl

@[simp] theorem CipherState.advance_hasKey (c : CipherState κ) (j : Nat) :
    (c.advance j).hasKey = c.hasKey := rfl

theorem CipherState.advance_zero (c : CipherState κ) : c.advance 0 = c := by
  simp [CipherState.advance]

theorem CipherState.advance_advance (c : CipherState κ) (i j : Nat) :
    (c.advance i).advance j = c.advance (i + j) := by
  simp only [CipherState.advance, Nat.add_assoc, List.append_assoc, ← List.map_append,
    List.range'_append_1]

section Seal

variable {A} {c : CipherState κ} {need : Nat}

theorem noiseNonceHasBudget_iff (hkey : c.hasKey = true) (hneed : 0 < need) :
    noiseNonceHasBudget c need = true ↔ c.n + need ≤ noiseNonceWatermark := by
  rw [noiseNonceHasBudget, hkey]
  have hno : (!true || decide (need < 1)) = false := by
    simpa using Nat.pos_iff_ne_zero.mp hneed
  rw [hno, if_neg Bool.false_ne_true]
  split_ifs with hmark hshort
  · exact iff_of_false not_false (by omega)
  · exact iff_of_false not_false (by omega)
  · exact iff_of_true rfl (by omega)

theorem csEncrypt_eq (hkey : c.hasKey = true) (hn : c.n + 1 < 2 ^ 64) (ad pt : Bytes) :
    csEncrypt A c ad pt = some (A.encrypt c.k (noiseNonce c.n) ad pt, c.advance 1) := by
  have hno : ¬ (!c.hasKey) = true := by simp [hkey]
  rw [csEncrypt, if_neg hno, Nat.mod_eq_of_lt hn]
  rfl

theorem csDecrypt_eq (hkey : c.hasKey = true) (hn : c.n + 1 < 2 ^ 64) (ad pt : Bytes) :
    csDecrypt A c ad (A.encrypt c.k (noiseNonce c.n) ad pt)
      = some (pt, { c with n := c.n + 1 }) := by
  have hlen : ¬ (A.encrypt c.k (noiseNonce c.n) ad pt).length < noiseMacLen := by
    rw [A.length_encrypt]
    exact not_lt.mpr (Nat.le_add_left _ _)
  have hno : ¬ (!c.hasKey) = true := by simp [hkey]
  rw [csDecrypt, if_neg hno, if_neg hlen, A.decrypt_encrypt, Nat.mod_eq_of_lt hn]
  rfl

/-- A payload is sealed chunk by chunk. -/
theorem encryptChunks_eq {pp : Bytes} (hkey : c.hasKey = true)
    (hn : c.n + payloadChunks pp.length < 2 ^ 64) :
    encryptChunks A c pp
      = (some (chunksCipher A c.k c.n pp), c.advance (payloadChunks pp.length)) := by
  induction hlen : pp.length using Nat.strong_induction_on generalizing c pp with
  | _ len ih =>
    by_cases h : pp = []
    · rw [encryptChunks, dif_pos h, h, chunksCipher_nil, ← hlen, h, List.length_nil,
        payloadChunks_zero, CipherState.advance_zero]
    · have hstep := payloadChunks_step (List.length_pos_iff.mpr h)
      rw [← List.length_drop] at hstep
      have hone : c.n + 1 < 2 ^ 64 := by omega
      have hrest : (c.advance 1).n + payloadChunks (pp.drop noiseMaxPtChunk).length < 2 ^ 64 := by
        rw [CipherState.advance_n]
        omega
      rw [encryptChunks, dif_neg h, csEncrypt_eq hkey hone]
      dsimp only
      rw [ih _ (hlen ▸ length_drop_chunk_lt h) (c := c.advance 1) hkey hrest rfl, ← hlen,
        CipherState.advance_advance, hstep, Nat.add_comm 1, chunksCipher_of_ne_nil A c.k c.n h]
      rfl

/-- A payload is opened chunk by chunk. -/
theorem decryptChunks_eq (payload rest : Bytes) (hkey : c.hasKey = true)
    (hn : c.n + payloadChunks payload.length < 2 ^ 64) :
    decryptChunks A c payload.length (chunksCipher A c.k c.n payload ++ rest)
      = some (payload, { c with n := c.n + payloadChunks payload.length }) := by
  induction hlen : payload.length using Nat.strong_induction_on generalizing c payload with
  | _ len ih =>
    by_cases h : payload = []
    · rw [← hlen, h, decryptChunks, dif_pos List.length_nil, List.length_nil,
        payloadChunks_zero, Nat.add_zero]
    · have hpos : 0 < payload.length := List.length_pos_iff.mpr h
      have hstep := payloadChunks_step hpos
      rw [← List.length_drop] at hstep
      have hone : c.n + 1 < 2 ^ 64 := by omega
      have hnext : c.n + 1 + payloadChunks (payload.drop noiseMaxPtChunk).length < 2 ^ 64 := by
        omega
      have hchunk : (payload.take noiseMaxPtChunk).length
          = min payload.length noiseMaxPtChunk := by
        rw [List.length_take, Nat.min_comm]
      have hct := A.length_encrypt c.k (noiseNonce c.n) [] (payload.take noiseMaxPtChunk)
      rw [hchunk] at hct
      have hleft : payload.length - min payload.length noiseMaxPtChunk
          = (payload.drop noiseMaxPtChunk).length := by
        rw [List.length_drop]
        omega
      rw [← hlen, decryptChunks, dif_neg hpos.ne', chunksCipher_of_ne_nil A c.k c.n h,
        List.append_assoc]
      dsimp only
      rw [List.take_left' hct, List.drop_left' hct, csDecrypt_eq hkey hone]
      dsimp only
      rw [if_neg (not_not.mpr hchunk), hleft,
        ih _ (hlen ▸ length_drop_chunk_lt h) (c := { c with n := c.n + 1 }) _ hkey hnext rfl,
        Option.map_some, List.take_append_drop, hstep]
      simp only [Nat.add_assoc, Nat.add_comm 1]

end Seal

/-! ### Frames -/

section Frame

variable {A} {s : NoiseSession κ} {plain : Bytes} {max : Nat}

theorem WellFormedFrame.header_le (h : WellFormedFrame max plain) :
    frameHeaderLen ≤ plain.length := by
  obtain ⟨fr, -, hlen, -⟩ := h
  omega

theorem WellFormedFrame.payload_le (h : WellFormedFrame max plain) :
    plain.length - frameHeaderLen ≤ max := by
  obtain ⟨fr, -, hlen, hmax⟩ := h
  omega

/-- The header of a frame is read without its payload. -/
theorem decodeHeader_take {fr : FrameHeader} (h : decodeHeader plain = some fr) :
    decodeHeader (plain.take frameHeaderLen) = some fr := by
  obtain ⟨hmax, rest, rfl⟩ := decodeHeader_eq_some_iff.mp h
  rw [List.take_left' (length_encodeHeader fr)]
  exact decodeHeader_eq_some_iff.mpr ⟨hmax, [], (List.append_nil _).symm⟩

theorem noiseNonceWatermark_lt : noiseNonceWatermark < 2 ^ 64 := by decide

theorem length_drop_header (plain : Bytes) :
    (plain.drop frameHeaderLen).length = plain.length - frameHeaderLen := List.length_drop

theorem frameNonces_eq (plain : Bytes) :
    frameNonces plain = 1 + payloadChunks (plain.drop frameHeaderLen).length := by
  rw [frameNonces, noiseFrameChunkCount_eq, length_drop_header, Nat.add_comm]

theorem noiseFrameChunkCount_pos (ptLen : Nat) : 0 < noiseFrameChunkCount ptLen := by
  rw [noiseFrameChunkCount_eq]
  exact Nat.succ_pos _

/-- A frame is sealed while there are nonces for it. -/
theorem encryptFrame_eq (hdone : s.handshakeDone = true) (hkey : s.sendCs.hasKey = true)
    (hplain : WellFormedFrame max plain)
    (hbudget : s.sendCs.n + frameNonces plain ≤ noiseNonceWatermark) :
    encryptFrame A s plain = (some (frameCipher A s.sendCs.k s.sendCs.n plain),
      { s with sendCs := s.sendCs.advance (frameNonces plain) }) := by
  have hheader := hplain.header_le
  obtain ⟨fr, hdec, hlen, -⟩ := hplain
  have hpayload : plain.length - frameHeaderLen = fr.msgLength := by omega
  have hready : ¬ (!s.handshakeDone || decide (plain.length < frameHeaderLen)) = true := by
    simpa [hdone] using hheader
  have hhas : ¬ (!noiseNonceHasBudget s.sendCs (noiseFrameChunkCount fr.msgLength)) = true := by
    rw [frameNonces, hpayload] at hbudget
    simp [(noiseNonceHasBudget_iff hkey (noiseFrameChunkCount_pos _)).mpr hbudget]
  have hnonces := frameNonces_eq plain
  have hmark := noiseNonceWatermark_lt
  have hone : s.sendCs.n + 1 < 2 ^ 64 := by omega
  have hrest : (s.sendCs.advance 1).n + payloadChunks (plain.drop frameHeaderLen).length
      < 2 ^ 64 := by
    rw [CipherState.advance_n]
    omega
  have hhdr : (A.encrypt s.sendCs.k (noiseNonce s.sendCs.n) []
      (plain.take frameHeaderLen)).length = encryptedHeaderLen := by
    rw [A.length_encrypt, List.length_take_of_le hheader]
    rfl
  rw [encryptFrame, if_neg hready, hdec]
  dsimp only
  rw [if_neg (not_not.mpr hlen), if_neg hhas, csEncrypt_eq hkey hone]
  dsimp only
  rw [if_neg (not_not.mpr hhdr), encryptChunks_eq (c := s.sendCs.advance 1) hkey hrest,
    CipherState.advance_advance, ← hnonces]
  rfl

/-- At the watermark a frame is refused, and no nonce is counted. -/
theorem encryptFrame_refused (hplain : WellFormedFrame max plain)
    (hbudget : ¬ s.sendCs.n + frameNonces plain ≤ noiseNonceWatermark) :
    encryptFrame A s plain = (none, s) := by
  obtain ⟨fr, hdec, hlen, -⟩ := hplain
  have hpayload : plain.length - frameHeaderLen = fr.msgLength := by omega
  have hno : noiseNonceHasBudget s.sendCs (noiseFrameChunkCount fr.msgLength) = false := by
    cases hkey : s.sendCs.hasKey with
    | false => rw [noiseNonceHasBudget, hkey]; rfl
    | true =>
      rw [frameNonces, hpayload] at hbudget
      refine Bool.eq_false_iff.mpr fun hhas => hbudget ?_
      exact (noiseNonceHasBudget_iff hkey (noiseFrameChunkCount_pos _)).mp hhas
  rw [encryptFrame, hdec]
  dsimp only
  by_cases hready : (!s.handshakeDone || decide (plain.length < frameHeaderLen)) = true
  · rw [if_pos hready]
  · rw [if_neg hready, if_neg (not_not.mpr hlen), hno]
    rfl

/-- What a receiver has of the frames `fs`, which were sealed with `k` from nonce `n` on:
nothing, or the header of the first. -/
structure NoiseSession.Expects (s : NoiseSession κ) (k : κ) (n : Nat) (fs : List Bytes) : Prop where
  done : s.handshakeDone = true
  hasKey : s.recvCs.hasKey = true
  key : s.recvCs.k = k
  count : s.recvCs.n = n + if s.hdrPending then 1 else 0
  pending : s.hdrPending = true → ∃ f rest, fs = f :: rest ∧
    s.hdrPt = f.take frameHeaderLen ∧ s.pendingPtLen = f.length - frameHeaderLen ∧
    s.pendingNeed = frameCipherLen f

/-- The chunks of the frame that has come. -/
theorem decryptPayload_eq {k : κ} {n : Nat} {inp rest : Bytes}
    (hkey : s.recvCs.hasKey = true) (hk : s.recvCs.k = k) (hn : s.recvCs.n = n + 1)
    (hheader : frameHeaderLen ≤ plain.length)
    (hbudget : n + frameNonces plain ≤ noiseNonceWatermark)
    (hinp : inp = frameCipher A k n plain ++ rest) :
    decryptPayload A s (plain.take frameHeaderLen) (plain.length - frameHeaderLen)
        (frameCipherLen plain) inp
      = .frame (frameCipherLen plain) plain
          { s with recvCs := { s.recvCs with n := n + frameNonces plain } } := by
  subst hk
  have hnonces := frameNonces_eq plain
  have hmark := noiseNonceWatermark_lt
  have hhdr : (A.encrypt s.recvCs.k (noiseNonce n) [] (plain.take frameHeaderLen)).length
      = encryptedHeaderLen := by
    rw [A.length_encrypt, List.length_take_of_le hheader]
    rfl
  have hchunks := decryptChunks_eq (A := A) (plain.drop frameHeaderLen) rest hkey
    (by rw [hn]; omega)
  rw [hn, length_drop_header] at hchunks
  rw [decryptPayload, hinp, frameCipher, List.append_assoc, List.drop_left' hhdr, hchunks]
  dsimp only
  rw [List.take_append_drop, hnonces, length_drop_header, Nat.add_assoc]

/-- There is a nonce for each chunk of a payload. -/
theorem noiseNonceHasBudget_chunks {c : CipherState κ} {j : Nat} (hkey : c.hasKey = true)
    (hbudget : c.n + j ≤ noiseNonceWatermark) :
    ¬ (decide (j ≠ 0) && !noiseNonceHasBudget c j) = true := by
  intro hfails
  obtain ⟨hpos, hno⟩ := Bool.and_eq_true_iff.mp hfails
  have hhas := (noiseNonceHasBudget_iff hkey (Nat.pos_of_ne_zero (of_decide_eq_true hpos))).mpr
    hbudget
  rw [hhas] at hno
  cases hno

section Receive

variable {k : κ} {n : Nat} {f inp wire tail : Bytes} {fs : List Bytes}

/-- The header comes first. -/
theorem take_header_of_stream (hheader : frameHeaderLen ≤ f.length)
    (hstream : inp ++ wire = frameCipher A k n f ++ tail) (hlen : encryptedHeaderLen ≤ inp.length) :
    inp.take encryptedHeaderLen = A.encrypt k (noiseNonce n) [] (f.take frameHeaderLen) := by
  have hhdr : (A.encrypt k (noiseNonce n) [] (f.take frameHeaderLen)).length
      = encryptedHeaderLen := by
    rw [A.length_encrypt, List.length_take_of_le hheader]
    rfl
  rw [← List.take_append_of_le_length hlen, hstream, frameCipher, List.append_assoc]
  exact List.take_left' hhdr

/-- A header that has come is opened once. -/
theorem decryptFrame_header (h : s.Expects k n (f :: fs)) (hno : s.hdrPending = false)
    (hplain : WellFormedFrame max f) (hbudget : n + frameNonces f ≤ noiseNonceWatermark)
    (hstream : inp ++ wire = frameCipher A k n f ++ tail)
    (hlen : encryptedHeaderLen ≤ inp.length) :
    decryptFrame A s inp =
      if inp.length < frameCipherLen f then
        .needMore { s with
          recvCs := { s.recvCs with n := n + 1 }, hdrPt := f.take frameHeaderLen
          pendingPtLen := f.length - frameHeaderLen, pendingNeed := frameCipherLen f
          hdrPending := true }
      else
        decryptPayload A { s with recvCs := { s.recvCs with n := n + 1 } } (f.take frameHeaderLen)
          (f.length - frameHeaderLen) (frameCipherLen f) inp := by
  obtain ⟨fr, hdec, hflen, -⟩ := hplain
  have hheader : frameHeaderLen ≤ f.length := by omega
  have hpayload : fr.msgLength = f.length - frameHeaderLen := by omega
  have hnonces := frameNonces_eq f
  rw [length_drop_header] at hnonces
  have hmark := noiseNonceWatermark_lt
  have hcount : s.recvCs.n = n := by
    rw [h.count, hno]
    rfl
  have hk := h.key
  subst hk
  have hdone : ¬ (!s.handshakeDone) = true := by simp [h.done]
  have hone : ¬ (!noiseNonceHasBudget s.recvCs 1) = true := by
    have hhas := (noiseNonceHasBudget_iff h.hasKey Nat.zero_lt_one).mpr
      (by rw [hcount]; omega : s.recvCs.n + 1 ≤ noiseNonceWatermark)
    simp [hhas]
  have hopen : csDecrypt A s.recvCs [] (inp.take encryptedHeaderLen)
      = some (f.take frameHeaderLen, { s.recvCs with n := n + 1 }) := by
    rw [take_header_of_stream hheader hstream hlen, ← hcount]
    exact csDecrypt_eq h.hasKey (by omega) [] _
  have hhas := noiseNonceHasBudget_chunks (c := { s.recvCs with n := n + 1 })
    (j := payloadChunks (f.length - frameHeaderLen)) h.hasKey
    (show n + 1 + payloadChunks (f.length - frameHeaderLen) ≤ noiseNonceWatermark by omega)
  have hhdr : (f.take frameHeaderLen).length = frameHeaderLen := List.length_take_of_le hheader
  rw [decryptFrame, if_neg hdone, hno, if_neg Bool.false_ne_true, if_neg (not_lt.mpr hlen),
    if_neg hone, hopen]
  dsimp only
  rw [if_neg (not_not.mpr hhdr), decodeHeader_take hdec]
  dsimp only
  rw [hpayload]
  exact if_neg hhas

/-- Without all of the frame its receiver waits, with the header when it has come. -/
theorem decryptFrame_needMore (h : s.Expects k n (f :: fs)) (hplain : WellFormedFrame max f)
    (hbudget : n + frameNonces f ≤ noiseNonceWatermark)
    (hstream : inp ++ wire = frameCipher A k n f ++ tail) (hshort : inp.length < frameCipherLen f) :
    ∃ s', decryptFrame A s inp = .needMore s' ∧ s'.Expects k n (f :: fs) ∧
      s'.sendCs = s.sendCs := by
  have hdone : ¬ (!s.handshakeDone) = true := by simp [h.done]
  cases hpending : s.hdrPending with
  | true =>
    obtain ⟨f', rest', heq, -, -, hneed⟩ := h.pending hpending
    obtain ⟨rfl, -⟩ := List.cons.inj heq
    refine ⟨s, ?_, h, rfl⟩
    rw [decryptFrame, if_neg hdone, hpending, if_pos rfl, hneed, if_pos hshort]
  | false =>
    by_cases hlen : encryptedHeaderLen ≤ inp.length
    · rw [decryptFrame_header h hpending hplain hbudget hstream hlen, if_pos hshort]
      exact ⟨_, rfl, ⟨h.done, h.hasKey, h.key, rfl, fun _ => ⟨f, fs, rfl, rfl, rfl, rfl⟩⟩, rfl⟩
    · refine ⟨s, ?_, h, rfl⟩
      rw [decryptFrame, if_neg hdone, hpending, if_neg Bool.false_ne_true,
        if_pos (not_le.mp hlen)]

/-- When all of a frame has come, its receiver has the frame. -/
theorem decryptFrame_eq (h : s.Expects k n (f :: fs)) (hplain : WellFormedFrame max f)
    (hbudget : n + frameNonces f ≤ noiseNonceWatermark)
    (hstream : inp ++ wire = frameCipher A k n f ++ tail)
    (hwhole : frameCipherLen f ≤ inp.length) :
    ∃ s', decryptFrame A s inp = .frame (frameCipherLen f) f s' ∧
      s'.Expects k (n + frameNonces f) fs ∧ s'.sendCs = s.sendCs := by
  have hheader := hplain.header_le
  obtain ⟨rest, hinp⟩ : ∃ rest, inp = frameCipher A k n f ++ rest := by
    have hfront : frameCipher A k n f <+: inp := by
      refine List.prefix_of_prefix_length_le (List.prefix_append _ tail)
        (hstream ▸ List.prefix_append inp wire) ?_
      rwa [length_frameCipher A k n hheader]
    obtain ⟨rest, hrest⟩ := hfront
    exact ⟨rest, hrest.symm⟩
  have hnonces := frameNonces_eq f
  rw [length_drop_header] at hnonces
  have hdone : ¬ (!s.handshakeDone) = true := by simp [h.done]
  cases hpending : s.hdrPending with
  | true =>
    obtain ⟨f', rest', heq, hhdr, hptLen, hneed⟩ := h.pending hpending
    obtain ⟨rfl, -⟩ := List.cons.inj heq
    have hcount : s.recvCs.n = n + 1 := by
      rw [h.count, hpending]
      rfl
    have hhas := noiseNonceHasBudget_chunks (j := payloadChunks (f.length - frameHeaderLen))
      h.hasKey (by rw [hcount]; omega)
    refine ⟨{ s with
      hdrPending := false, pendingNeed := 0, pendingPtLen := 0
      recvCs := { s.recvCs with n := n + frameNonces f } }, ?_, ?_, rfl⟩
    · have hpayload := decryptPayload_eq (s := { s with
        hdrPending := false, pendingNeed := 0, pendingPtLen := 0 }) h.hasKey h.key hcount
        hheader hbudget hinp
      rw [← hhdr] at hpayload
      rw [decryptFrame, if_neg hdone, hpending, if_pos rfl, hneed, if_neg (not_lt.mpr hwhole),
        hptLen]
      exact (if_neg hhas).trans hpayload
    · exact ⟨h.done, h.hasKey, h.key, rfl, fun hno => by cases hno⟩
  | false =>
    have hlen : encryptedHeaderLen ≤ inp.length := (Nat.le_add_right _ _).trans hwhole
    rw [decryptFrame_header h hpending hplain hbudget hstream hlen,
      if_neg (not_lt.mpr hwhole)]
    refine ⟨_, decryptPayload_eq (s := { s with recvCs := { s.recvCs with n := n + 1 } })
      h.hasKey h.key rfl hheader hbudget hinp, ?_, rfl⟩
    exact ⟨h.done, h.hasKey, h.key, by rw [hpending]; rfl, fun hyes => by cases hpending ▸ hyes⟩

end Receive

end Frame

end CashStratum
