/-
CashStratum/NoiseHandshake.lean

The handshake of a Noise session (`sv2_noise.c`): the pool's side answers, `csproxy`'s side
begins.  Each side has its own sequence of mixes, and the two have to agree in order and in
content, for the key of a seal is made of all that was mixed before it.

The cipher and the calls of libsecp256k1 are parameters, of which the handshake needs what
`Aead` and `Secp` say; the keyed hash of the key derivation is any function at all.  A *leg*
is a secret that both sides mix in and a text that one seals and the other opens: after a
leg the two sides have one hash and one chaining key (`leg_agrees`), and a handshake is two
legs.
-/
import CashStratum.Sv2Conn
import CashStratum.Sha2
import CashStratum.PoolEvents

namespace CashStratum

/-! ### Key material -/

/-- The calls of libsecp256k1 on its two types of key.  Both ends of an exchange compute one
secret, an ElligatorSwift text is of the key that it was made of, and a signature verifies
under the key that signed. -/
structure Secp (π χ : Type) where
  seckeyVerify : Bytes → Bool
  pubkeyCreate : Bytes → Option π
  ellswiftEncode : π → Bytes → Bytes
  ellswiftDecode : Bytes → π
  xonlyFromPubkey : π → χ
  xonlySerialize : χ → Bytes
  xonlyParse : Bytes → Option χ
  ellswiftXdh : Bytes → Bytes → Bytes → Bool → Option Bytes
  schnorrsigSign : Bytes → Bytes → Option Bytes
  schnorrsigVerify : Bytes → Bytes → χ → Bool
  length_ellswiftEncode : ∀ pub rnd32, (ellswiftEncode pub rnd32).length = 64
  ellswiftDecode_encode : ∀ pub rnd32, ellswiftDecode (ellswiftEncode pub rnd32) = pub
  xonlyParse_serialize : ∀ x, xonlyParse (xonlySerialize x) = some x
  ellswiftXdh_agree : ∀ {a b skA skB}, pubkeyCreate skA = some (ellswiftDecode a) →
    pubkeyCreate skB = some (ellswiftDecode b) →
    ∃ shared, ellswiftXdh a b skA false = some shared ∧ ellswiftXdh a b skB true = some shared
  schnorrsigVerify_sign : ∀ {sk pub} msg, pubkeyCreate sk = some pub →
    ∃ sig, schnorrsigSign sk msg = some sig ∧ sig.length = 64 ∧
      schnorrsigVerify sig msg (xonlyFromPubkey pub) = true

/-- A secret key and what `seckey_to_pubs` derives from it. -/
structure Keypair where
  sk : Bytes
  ellswift : Bytes
  xonly : Bytes

/-- Where a key comes from: what `read_seckey_file` read, if it read one, and otherwise what
`randombytes_buf` gives, draw after draw; the last is for the ElligatorSwift text. -/
structure KeySource where
  file : Option Bytes
  draws : List Bytes
  rnd32 : Bytes

/-- `struct sv2_noise_server_keys` -/
structure ServerKeys where
  staticSk : Bytes
  staticEllswift : Bytes
  staticXonly : Bytes
  authoritySk : Bytes
  authorityXonly : Bytes
  certValidFrom : UInt32
  certNotValidAfter : UInt32
  certVersion : UInt16

/-- `SV2_NOISE_CERT_VERSION` -/
def noiseCertVersion : UInt16 := 0

/-- `UINT32_MAX` -/
def uint32Max : Nat := 2 ^ 32 - 1

section Keys

variable {π χ : Type} (S : Secp π χ)

/-- `seckey_to_pubs` -/
def seckeyToPubs (sk rnd32 : Bytes) : Option Keypair :=
  if !S.seckeyVerify sk then none
  else (S.pubkeyCreate sk).map fun pub =>
    ⟨sk, S.ellswiftEncode pub rnd32, S.xonlySerialize (S.xonlyFromPubkey pub)⟩

/-- `generate_ellswift_keypair`: it draws until a draw is a secret key. -/
def generateEllswiftKeypair (draws : List Bytes) (rnd32 : Bytes) : Option Keypair :=
  (draws.find? S.seckeyVerify).bind fun sk => seckeyToPubs S sk rnd32

/-- What `sv2_noise_load_server_keys` does for either of its two keys. -/
def loadKeypair (src : KeySource) : Option Keypair :=
  match src.file with
  | some sk => seckeyToPubs S sk src.rnd32
  | none => generateEllswiftKeypair S src.draws src.rnd32

/-- `sv2_noise_load_server_keys` -/
def loadServerKeys (now : Int) (validDays : UInt32) (authority static : KeySource) :
    Option ServerKeys :=
  if now < 0 || uint32Max ≤ now.toNat then none
  else do
    let days := if validDays = 0 then 365 else validDays.toNat
    let expiry := now.toNat + days * 86400
    let authority ← loadKeypair S authority
    let static ← loadKeypair S static
    some
      { staticSk := static.sk
        staticEllswift := static.ellswift
        staticXonly := static.xonly
        authoritySk := authority.sk
        authorityXonly := authority.xonly
        certValidFrom := UInt32.ofNat now.toNat
        certNotValidAfter := UInt32.ofNat (if uint32Max < expiry then uint32Max else expiry)
        certVersion := noiseCertVersion }

/-! ### The certificate -/

/-- The dates that `build_signature_noise_message` signs: those of the keys, or within a day
of their end new ones of the same length. -/
def certWindow (keys : ServerKeys) (now : Int) : Option (UInt32 × UInt32) :=
  if now < 0 || uint32Max ≤ now.toNat || keys.certNotValidAfter ≤ keys.certValidFrom then none
  else if keys.certNotValidAfter.toNat ≤ now.toNat + 86400 then
    let expiry := now.toNat + (keys.certNotValidAfter - keys.certValidFrom).toNat
    some (UInt32.ofNat now.toNat,
      UInt32.ofNat (if uint32Max < expiry then uint32Max else expiry))
  else some (keys.certValidFrom, keys.certNotValidAfter)

/-- The first ten bytes of the message, and of what is signed. -/
def certFields (version : UInt16) (validFrom notValidAfter : UInt32) : Bytes :=
  leBytes 2 version.toNat ++ (leBytes 4 validFrom.toNat ++ leBytes 4 notValidAfter.toNat)

/-- `build_signature_noise_message` -/
def buildSignatureNoiseMessage (keys : ServerKeys) (now : Int) : Option Bytes := do
  let (validFrom, notValidAfter) ← certWindow keys now
  let fields := certFields keys.certVersion validFrom notValidAfter
  let sig ← S.schnorrsigSign keys.authoritySk (sha256 (fields ++ keys.staticXonly)).bytes
  some (fields ++ sig)

/-- The version of a certificate, as its reader has it. -/
def certVersionOf (sigmsg : Bytes) : Nat := leNat (sigmsg.take 2)

/-- `valid_from` of a certificate, as its reader has it. -/
def certFromOf (sigmsg : Bytes) : Nat := leNat ((sigmsg.drop 2).take 4)

/-- `not_valid_after` of a certificate, as its reader has it. -/
def certAfterOf (sigmsg : Bytes) : Nat := leNat ((sigmsg.drop 6).take 4)

/-- The time is inside the window of a certificate. -/
def CertCovers (sigmsg : Bytes) (now : Int) : Prop :=
  (certFromOf sigmsg : Int) ≤ now ∧ now ≤ (certAfterOf sigmsg : Int)

/-- `client_verify_certificate`, with what it reads of the session. -/
def clientVerifyCertificate (authorityXonly rsEllswift sigmsg : Bytes) (now : Int) : Bool :=
  if certVersionOf sigmsg ≠ noiseCertVersion.toNat then false
  else
    let xonly := S.xonlySerialize (S.xonlyFromPubkey (S.ellswiftDecode rsEllswift))
    let mhash := (sha256 (sigmsg.take 10 ++ xonly)).bytes
    match S.xonlyParse authorityXonly with
    | none => false
    | some auth =>
      if !S.schnorrsigVerify (sigmsg.drop 10) mhash auth then false
      else
        let now32 := (now % 2 ^ 32).toNat
        if now32 < certFromOf sigmsg || certAfterOf sigmsg < now32 then false else true

end Keys

/-! ### Hash and chaining key -/

/-- What both sides chain through a handshake: three fields of `struct sv2_noise_session`. -/
structure SymmetricState where
  ck : Bytes
  h : Bytes
  cs : CipherState Bytes

/-- A field that was cleared. -/
def zeros32 : Bytes := List.replicate 32 0

/-- `cs_init_empty` -/
def csInitEmpty : CipherState Bytes := ⟨zeros32, 0, false, []⟩

/-- `cs_init_key` -/
def csInitKey (key : Bytes) : CipherState Bytes := ⟨key, 0, true, []⟩

/-- `noise_protocol_name` -/
def noiseProtocolName : Bytes := ascii "Noise_NX_Secp256k1+EllSwift_ChaChaPoly_SHA256"

/-- `handshake_init_hash` -/
def handshakeInitHash : SymmetricState :=
  let name := noiseProtocolName
  let h := if name.length ≤ 32 then name ++ List.replicate (32 - name.length) 0
    else (sha256 name).bytes
  { ck := h, h := (sha256 h).bytes, cs := csInitEmpty }

/-- `mix_hash` -/
def mixHash (s : SymmetricState) (data : Bytes) : SymmetricState :=
  { s with h := (sha256 (s.h ++ data)).bytes }

section Symmetric

variable (A : Aead Bytes) (hmac : Bytes → Bytes → Bytes)

/-- `hkdf_sha256` over the keyed hash `hmac`. -/
def hkdfSha256 (chainingKey ikm : Bytes) : Bytes × Bytes :=
  let tempKey := hmac chainingKey ikm
  let out1 := hmac tempKey [1]
  (out1, hmac tempKey (out1 ++ [2]))

/-- `mix_key` -/
def mixKey (s : SymmetricState) (ikm : Bytes) : SymmetricState :=
  let (ck, tempK) := hkdfSha256 hmac s.ck ikm
  { s with ck := ck, cs := csInitKey tempK }

/-- `encrypt_and_hash` -/
def encryptAndHash (s : SymmetricState) (pt : Bytes) : Option (Bytes × SymmetricState) :=
  (csEncrypt A s.cs s.h pt).map fun r => (r.1, mixHash { s with cs := r.2 } r.1)

/-- `decrypt_and_hash` -/
def decryptAndHash (s : SymmetricState) (ct : Bytes) : Option (Bytes × SymmetricState) :=
  (csDecrypt A s.cs s.h ct).map fun r => (r.1, mixHash { s with cs := r.2 } ct)

end Symmetric

/-! ### The two sides -/

/-- `struct sv2_noise_session`, with what the handshake uses. -/
structure HandshakeSession extends NoiseSession Bytes, SymmetricState where
  keys : Option ServerKeys
  initiator : Bool
  authorityXonly : Bytes
  eSk : Bytes
  eEllswift : Bytes
  reEllswift : Bytes
  rsEllswift : Bytes
  gotE : Bool
  hsBuf : Bytes

/-- A session as `ckzalloc` and `handshake_init_hash` leave it, with its ephemeral key. -/
def HandshakeSession.fresh (e : Keypair) : HandshakeSession where
  sendCs := csInitEmpty
  recvCs := csInitEmpty
  handshakeDone := false
  hdrPending := false
  hdrPt := List.replicate frameHeaderLen 0
  pendingPtLen := 0
  pendingNeed := 0
  toSymmetricState := handshakeInitHash
  keys := none
  initiator := false
  authorityXonly := zeros32
  eSk := e.sk
  eEllswift := e.ellswift
  reEllswift := zeros32 ++ zeros32
  rsEllswift := zeros32 ++ zeros32
  gotE := false
  hsBuf := []

/-- The end of either side's act 2: the keys of the transport are set, and what the
handshake alone used is cleared. -/
def HandshakeSession.split (s : HandshakeSession) (sendKey recvKey : Bytes) : HandshakeSession :=
  { s with
    sendCs := csInitKey sendKey, recvCs := csInitKey recvKey
    eSk := zeros32, ck := zeros32, cs := csInitEmpty
    handshakeDone := true }

section Sides

variable {π χ : Type} (S : Secp π χ) (A : Aead Bytes) (hmac : Bytes → Bytes → Bytes)

/-- `ellswift_ecdh` -/
def ellswiftEcdh (ourSk ourEllswift theirEllswift : Bytes) (weAreInitiator : Bool) :
    Option Bytes :=
  if weAreInitiator then S.ellswiftXdh ourEllswift theirEllswift ourSk false
  else S.ellswiftXdh theirEllswift ourEllswift ourSk true

/-- `sv2_noise_session_new` -/
def sessionNew (keys : ServerKeys) (draws : List Bytes) (rnd32 : Bytes) :
    Option HandshakeSession :=
  (generateEllswiftKeypair S draws rnd32).map fun e =>
    { HandshakeSession.fresh e with keys := some keys }

/-- `sv2_noise_client_session_new` -/
def clientSessionNew (authorityXonly : Bytes) (draws : List Bytes) (rnd32 : Bytes) :
    Option HandshakeSession :=
  (generateEllswiftKeypair S draws rnd32).map fun e =>
    { HandshakeSession.fresh e with initiator := true, authorityXonly := authorityXonly }

/-- `handshake_act2` -/
def handshakeAct2 (s : HandshakeSession) (now : Int) : Option (Bytes × HandshakeSession) := do
  let keys ← s.keys
  let sym := mixHash s.toSymmetricState s.eEllswift
  -- ee
  let shared ← ellswiftEcdh S s.eSk s.eEllswift s.reEllswift false
  let sym := mixKey hmac sym shared
  let (encStatic, sym) ← encryptAndHash A sym keys.staticEllswift
  -- es
  let shared ← ellswiftEcdh S keys.staticSk keys.staticEllswift s.reEllswift false
  let sym := mixKey hmac sym shared
  let sigmsg ← buildSignatureNoiseMessage S keys now
  let (encSig, sym) ← encryptAndHash A sym sigmsg
  let (k1, k2) := hkdfSha256 hmac sym.ck []
  some (s.eEllswift ++ (encStatic ++ encSig),
    HandshakeSession.split { s with toSymmetricState := sym } k2 k1)

/-- `sv2_noise_handshake_read`, with the clock as its second half reads it; the bytes are
those of `*out`. -/
def handshakeRead (s : HandshakeSession) (now : Int) (inp : Bytes) :
    Option (Bytes × HandshakeSession) :=
  if s.handshakeDone then none
  else if 256 < s.hsBuf.length + inp.length then none
  else
    let buf := s.hsBuf ++ inp
    if s.gotE then none
    else if buf.length < 64 then some ([], { s with hsBuf := buf })
    else
      let re := buf.take 64
      handshakeAct2 S A hmac
        { s with
          toSymmetricState := mixHash (mixHash s.toSymmetricState re) []
          reEllswift := re, gotE := true, hsBuf := [] } now

/-- The reads of a socket one after another, each with its clock. -/
def handshakeReads : HandshakeSession → List (Int × Bytes) → Option (Bytes × HandshakeSession)
  | s, [] => some ([], s)
  | s, (now, inp) :: rest => do
    let (out, s) ← handshakeRead S A hmac s now inp
    let (out', s) ← handshakeReads s rest
    some (out ++ out', s)

/-- `sv2_noise_client_act1` -/
def clientAct1 (s : HandshakeSession) : Option (Bytes × HandshakeSession) :=
  if !s.initiator || s.handshakeDone || s.gotE then none
  else some (s.eEllswift,
    { s with
      toSymmetricState := mixHash (mixHash s.toSymmetricState s.eEllswift) []
      gotE := true })

/-- `SV2_SIG_NOISE_MSG_LEN` -/
def sigNoiseMsgLen : Nat := 74

/-- `sv2_noise_client_act2` -/
def clientAct2 (s : HandshakeSession) (now : Int) (inp : Bytes) : Option HandshakeSession :=
  if !s.initiator || !s.gotE || s.handshakeDone then none
  else if inp.length < 64 + 64 + noiseMacLen + sigNoiseMsgLen + noiseMacLen then none
  else do
    let re := inp.take 64
    let p := inp.drop 64
    let sym := mixHash s.toSymmetricState re
    -- ee
    let shared ← ellswiftEcdh S s.eSk s.eEllswift re true
    let sym := mixKey hmac sym shared
    let (rs, sym) ← decryptAndHash A sym (p.take (64 + noiseMacLen))
    if rs.length ≠ 64 then none else do
    let p := p.drop (64 + noiseMacLen)
    -- es
    let shared ← ellswiftEcdh S s.eSk s.eEllswift rs true
    let sym := mixKey hmac sym shared
    let (sigmsg, sym) ← decryptAndHash A sym (p.take (sigNoiseMsgLen + noiseMacLen))
    if sigmsg.length ≠ sigNoiseMsgLen then none
    else if !clientVerifyCertificate S s.authorityXonly rs sigmsg now then none
    else
      let (k1, k2) := hkdfSha256 hmac sym.ck []
      some (HandshakeSession.split
        { s with toSymmetricState := sym, reEllswift := re, rsEllswift := rs } k1 k2)

end Sides

/-! ### Certificates cover their time -/

variable {keys : ServerKeys}

section Keys

variable {π χ : Type} {S : Secp π χ}

theorem seckeyToPubs_eq_some {sk rnd32 : Bytes} {k : Keypair}
    (h : seckeyToPubs S sk rnd32 = some k) :
    ∃ pub, S.pubkeyCreate k.sk = some pub ∧ k.ellswift = S.ellswiftEncode pub rnd32 ∧
      k.xonly = S.xonlySerialize (S.xonlyFromPubkey pub) := by
  rw [seckeyToPubs] at h
  split_ifs at h
  obtain ⟨pub, hpub, rfl⟩ := Option.map_eq_some_iff.mp h
  exact ⟨pub, hpub, rfl, rfl⟩

/-- A pair of keys as every one is that the source makes. -/
structure Keypair.Sound (S : Secp π χ) (k : Keypair) : Prop where
  pubkey : S.pubkeyCreate k.sk = some (S.ellswiftDecode k.ellswift)
  length : k.ellswift.length = 64
  xonly : k.xonly = S.xonlySerialize (S.xonlyFromPubkey (S.ellswiftDecode k.ellswift))

theorem seckeyToPubs_sound {sk rnd32 : Bytes} {k : Keypair}
    (h : seckeyToPubs S sk rnd32 = some k) : k.Sound S := by
  obtain ⟨pub, hpub, hell, hxonly⟩ := seckeyToPubs_eq_some h
  have hdecode : S.ellswiftDecode k.ellswift = pub := by rw [hell, S.ellswiftDecode_encode]
  refine ⟨?_, ?_, ?_⟩
  · rw [hdecode, hpub]
  · rw [hell, S.length_ellswiftEncode]
  · rw [hdecode, hxonly]

theorem generateEllswiftKeypair_sound {draws : List Bytes} {rnd32 : Bytes} {k : Keypair}
    (h : generateEllswiftKeypair S draws rnd32 = some k) : k.Sound S := by
  obtain ⟨sk, -, hsk⟩ := Option.bind_eq_some_iff.mp h
  exact seckeyToPubs_sound hsk

theorem loadKeypair_sound {src : KeySource} {k : Keypair} (h : loadKeypair S src = some k) :
    k.Sound S := by
  rw [loadKeypair] at h
  split at h
  · exact seckeyToPubs_sound h
  · exact generateEllswiftKeypair_sound h

/-- Keys as they are after they were loaded at `loaded`: the window of the certificate begins
there and is not empty. -/
structure ServerKeys.Sound (S : Secp π χ) (keys : ServerKeys) (loaded : Int) : Prop where
  static : Keypair.Sound S ⟨keys.staticSk, keys.staticEllswift, keys.staticXonly⟩
  authority : ∃ pub, S.pubkeyCreate keys.authoritySk = some pub ∧
    keys.authorityXonly = S.xonlySerialize (S.xonlyFromPubkey pub)
  version : keys.certVersion = noiseCertVersion
  validFrom : (keys.certValidFrom.toNat : Int) = loaded
  window : keys.certValidFrom < keys.certNotValidAfter

theorem toNat_ofNat_clock {now : Int} (h : now.toNat < uint32Max) :
    (UInt32.ofNat now.toNat).toNat = now.toNat := by
  rw [UInt32.toNat_ofNat']
  exact Nat.mod_eq_of_lt (h.trans (by decide))

theorem toNat_ofNat_expiry (expiry : Nat) :
    (UInt32.ofNat (if uint32Max < expiry then uint32Max else expiry)).toNat
      = min expiry uint32Max := by
  rw [UInt32.toNat_ofNat', uint32Max]
  split_ifs <;> omega

theorem loadServerKeys_sound {now : Int} {validDays : UInt32} {authority static : KeySource}
    (h : loadServerKeys S now validDays authority static = some keys) :
    keys.Sound S now := by
  have hdays : 0 < if validDays = 0 then 365 else validDays.toNat := by
    split_ifs with hzero
    · decide
    · exact Nat.pos_of_ne_zero fun h0 => hzero (UInt32.toNat_inj.mp h0)
  rw [loadServerKeys] at h
  by_cases hclock : (now < 0 || uint32Max ≤ now.toNat) = true
  · rw [if_pos hclock] at h
    cases h
  rw [if_neg hclock] at h
  obtain ⟨auth, hauth, h⟩ := Option.bind_eq_some_iff.mp h
  obtain ⟨stat, hstat, h⟩ := Option.bind_eq_some_iff.mp h
  obtain rfl := Option.some.inj h
  simp only [Bool.or_eq_true, decide_eq_true_eq, not_or, not_lt, not_le] at hclock
  have hsound := loadKeypair_sound hauth
  refine ⟨loadKeypair_sound hstat, ⟨_, hsound.pubkey, hsound.xonly⟩, rfl, ?_, ?_⟩
  · show ((UInt32.ofNat now.toNat).toNat : Int) = now
    rw [toNat_ofNat_clock hclock.2]
    exact Int.toNat_of_nonneg hclock.1
  · refine UInt32.lt_iff_toNat_lt.mpr ?_
    show (UInt32.ofNat now.toNat).toNat < (UInt32.ofNat _).toNat
    rw [toNat_ofNat_clock hclock.2, toNat_ofNat_expiry]
    exact lt_min (Nat.lt_add_of_pos_right (Nat.mul_pos hdays (by decide))) hclock.2

/-- A certificate is issued at every time that its dates can name. -/
theorem certWindow_isSome_iff {now : Int} (hwindow : keys.certValidFrom < keys.certNotValidAfter) :
    (certWindow keys now).isSome ↔ 0 ≤ now ∧ now < uint32Max := by
  have hle : ¬ keys.certNotValidAfter ≤ keys.certValidFrom := UInt32.not_le.mpr hwindow
  rw [certWindow]
  simp only [hle, decide_false, Bool.or_false, Bool.or_eq_true, decide_eq_true_eq]
  split_ifs with hclock hrenew
  · exact iff_of_false Bool.false_ne_true (by omega)
  all_goals exact iff_of_true rfl (by omega)

/-- New dates begin now, and the old ones have a day left. -/
theorem certWindow_covers {loaded now : Int} (hkeys : keys.Sound S loaded)
    (hage : loaded ≤ now) {validFrom notValidAfter : UInt32}
    (h : certWindow keys now = some (validFrom, notValidAfter)) :
    (validFrom.toNat : Int) ≤ now ∧ now ≤ (notValidAfter.toNat : Int) := by
  have hfrom := hkeys.validFrom
  rw [certWindow] at h
  split_ifs at h with hclock hrenew
  · obtain ⟨rfl, rfl⟩ := Prod.mk.inj (Option.some.inj h)
    simp only [Bool.or_eq_true, decide_eq_true_eq, not_or, not_lt, not_le] at hclock
    rw [toNat_ofNat_clock hclock.1.2, toNat_ofNat_expiry]
    omega
  · obtain ⟨rfl, rfl⟩ := Prod.mk.inj (Option.some.inj h)
    omega

theorem length_certFields (version : UInt16) (validFrom notValidAfter : UInt32) :
    (certFields version validFrom notValidAfter).length = 10 := by
  simp [certFields]

section Fields

variable (version : UInt16) (validFrom notValidAfter : UInt32) (sig : Bytes)

theorem certVersionOf_certFields :
    certVersionOf (certFields version validFrom notValidAfter ++ sig) = version.toNat := by
  rw [certVersionOf, certFields, List.append_assoc, List.take_left' (length_leBytes ..)]
  exact leNat_leBytes_of_lt version.toNat_lt

theorem certFromOf_certFields :
    certFromOf (certFields version validFrom notValidAfter ++ sig) = validFrom.toNat := by
  rw [certFromOf, certFields, List.append_assoc, List.drop_left' (length_leBytes ..),
    List.append_assoc, List.take_left' (length_leBytes ..)]
  exact leNat_leBytes_of_lt validFrom.toNat_lt

theorem certAfterOf_certFields :
    certAfterOf (certFields version validFrom notValidAfter ++ sig) = notValidAfter.toNat := by
  have hlen : (leBytes 2 version.toNat ++ leBytes 4 validFrom.toNat).length = 6 := by simp
  rw [certAfterOf, certFields, ← List.append_assoc, List.append_assoc, List.drop_left' hlen,
    List.take_left' (length_leBytes ..)]
  exact leNat_leBytes_of_lt notValidAfter.toNat_lt

end Fields

/-- The certificate that is issued: it covers its time, and the client that has the
authority's key takes it at every time that it covers. -/
theorem buildSignatureNoiseMessage_eq {loaded now : Int}
    (hkeys : keys.Sound S loaded) (hnow : 0 ≤ now ∧ now < uint32Max) :
    ∃ sigmsg, buildSignatureNoiseMessage S keys now = some sigmsg ∧
      sigmsg.length = sigNoiseMsgLen ∧ (loaded ≤ now → CertCovers sigmsg now) ∧
      ∀ clock, CertCovers sigmsg clock →
        clientVerifyCertificate S keys.authorityXonly keys.staticEllswift sigmsg clock = true := by
  obtain ⟨⟨validFrom, notValidAfter⟩, hdates⟩ :=
    Option.isSome_iff_exists.mp ((certWindow_isSome_iff hkeys.window).mpr hnow)
  obtain ⟨pub, hpub, hauthority⟩ := hkeys.authority
  have hlen := length_certFields keys.certVersion validFrom notValidAfter
  obtain ⟨sig, hsign, hsig, hverify⟩ := S.schnorrsigVerify_sign
    (sha256 (certFields keys.certVersion validFrom notValidAfter ++ keys.staticXonly)).bytes hpub
  refine ⟨certFields keys.certVersion validFrom notValidAfter ++ sig, ?_, ?_, ?_, ?_⟩
  · simp only [buildSignatureNoiseMessage, hdates, hsign, Option.bind_eq_bind, Option.bind_some]
  · rw [List.length_append, hlen, hsig]
    rfl
  · intro hage
    rw [CertCovers, certFromOf_certFields, certAfterOf_certFields]
    exact certWindow_covers hkeys hage hdates
  · intro clock hcovers
    have hversion : ¬ certVersionOf (certFields keys.certVersion validFrom notValidAfter ++ sig)
        ≠ noiseCertVersion.toNat := by
      rw [certVersionOf_certFields, hkeys.version]
      exact not_not_intro rfl
    have hstatic := hkeys.static.xonly
    dsimp only at hstatic
    have hbound := notValidAfter.toNat_lt
    rw [CertCovers, certFromOf_certFields, certAfterOf_certFields] at hcovers
    have hclock : ¬ ((clock % 2 ^ 32).toNat < validFrom.toNat ||
        notValidAfter.toNat < (clock % 2 ^ 32).toNat) = true := by
      have hmod : clock % 2 ^ 32 = clock := Int.emod_eq_of_lt (by omega) (by omega)
      rw [hmod, Bool.or_eq_true, decide_eq_true_eq, decide_eq_true_eq]
      omega
    rw [clientVerifyCertificate, if_neg hversion, List.take_left' hlen, List.drop_left' hlen,
      certFromOf_certFields, certAfterOf_certFields, hauthority, S.xonlyParse_serialize,
      ← hstatic]
    dsimp only
    rw [hverify, if_neg (by decide), if_neg hclock]

end Keys

/-! ### Legs -/

section Legs

variable {A : Aead Bytes} {hmac : Bytes → Bytes → Bytes}

/-- The two sides have one hash and one chaining key.  Their cipher states need not be equal:
a state notes what it sealed with. -/
structure SymmetricState.Agrees (s t : SymmetricState) : Prop where
  ck : s.ck = t.ck
  h : s.h = t.h

/-- What is mixed in next leaves nothing of the cipher states. -/
theorem SymmetricState.Agrees.mixKey_eq {s t : SymmetricState} (h : s.Agrees t) (ikm : Bytes) :
    mixKey hmac s ikm = mixKey hmac t ikm := by
  rw [mixKey, mixKey, h.ck, h.h]

variable (A hmac) in
/-- A secret is mixed in on both sides, and what one then seals the other opens. -/
theorem leg_agrees (s : SymmetricState) (shared pt : Bytes) :
    ∃ ct sealer opener, encryptAndHash A (mixKey hmac s shared) pt = some (ct, sealer) ∧
      decryptAndHash A (mixKey hmac s shared) ct = some (pt, opener) ∧
      ct.length = pt.length + noiseMacLen ∧ sealer.Agrees opener := by
  have hkey : (mixKey hmac s shared).cs.hasKey = true := rfl
  have hn : (mixKey hmac s shared).cs.n + 1 < 2 ^ 64 := by
    show 0 + 1 < 2 ^ 64
    decide
  generalize mixKey hmac s shared = keyed at hkey hn ⊢
  let ct := A.encrypt keyed.cs.k (noiseNonce keyed.cs.n) keyed.h pt
  refine ⟨ct, mixHash { keyed with cs := keyed.cs.advance 1 } ct,
    mixHash { keyed with cs := { keyed.cs with n := keyed.cs.n + 1 } } ct,
    ?_, ?_, A.length_encrypt .., ⟨rfl, rfl⟩⟩
  · rw [encryptAndHash, csEncrypt_eq hkey hn]
    rfl
  · rw [decryptAndHash, csDecrypt_eq hkey hn]
    rfl

end Legs

/-! ### Runs -/

section Run

variable {π χ : Type} {S : Secp π χ} {A : Aead Bytes} {hmac : Bytes → Bytes → Bytes}

/-- The two sides' ends of an exchange compute one secret. -/
theorem ellswiftEcdh_agree {a b : Bytes} {skA skB : Bytes}
    (hA : S.pubkeyCreate skA = some (S.ellswiftDecode a))
    (hB : S.pubkeyCreate skB = some (S.ellswiftDecode b)) :
    ∃ shared, ellswiftEcdh S skA a b true = some shared ∧
      ellswiftEcdh S skB b a false = some shared :=
  S.ellswiftXdh_agree hA hB

/-- The responder's session when all of act 1 has come. -/
def HandshakeSession.afterAct1 (s : HandshakeSession) (act1 : Bytes) : HandshakeSession :=
  { s with
    toSymmetricState := mixHash (mixHash s.toSymmetricState act1) []
    reEllswift := act1, gotE := true, hsBuf := [] }

/-- However act 1 is cut, the responder goes on with the whole of it. -/
theorem handshakeReads_eq {now : Int} {last : Bytes} (hlast : last ≠ [])
    (earlier : List (Int × Bytes)) (s : HandshakeSession) (hdone : s.handshakeDone = false)
    (hgot : s.gotE = false)
    (hlen : (s.hsBuf ++ ((earlier.map Prod.snd).flatten ++ last)).length = 64) :
    handshakeReads S A hmac s (earlier ++ [(now, last)])
      = handshakeAct2 S A hmac
        (s.afterAct1 (s.hsBuf ++ ((earlier.map Prod.snd).flatten ++ last))) now := by
  have hno : ¬ s.handshakeDone = true := by simp [hdone]
  have hnot : ¬ s.gotE = true := by simp [hgot]
  have hpos : 0 < last.length := List.length_pos_iff.mpr hlast
  induction earlier generalizing s with
  | nil =>
    rw [List.map_nil, List.flatten_nil, List.nil_append] at hlen ⊢
    have hfits : ¬ 256 < s.hsBuf.length + last.length := by
      rw [← List.length_append]
      omega
    have hread : handshakeRead S A hmac s now last
        = handshakeAct2 S A hmac (s.afterAct1 (s.hsBuf ++ last)) now := by
      rw [handshakeRead, if_neg hno, if_neg hfits]
      dsimp only
      rw [if_neg hnot, if_neg (by omega), List.take_of_length_le hlen.le]
      rfl
    rw [List.nil_append, handshakeReads, hread]
    -- the bytes are those of the one read that answers
    cases handshakeAct2 S A hmac (s.afterAct1 (s.hsBuf ++ last)) now with
    | none => rfl
    | some r => exact congrArg (fun out => some (out, r.2)) (List.append_nil r.1)
  | cons read earlier ih =>
    obtain ⟨clock, piece⟩ := read
    have hall : s.hsBuf ++ ((((clock, piece) :: earlier).map Prod.snd).flatten ++ last)
        = (s.hsBuf ++ piece) ++ ((earlier.map Prod.snd).flatten ++ last) := by
      simp only [List.map_cons, List.flatten_cons, List.append_assoc]
    rw [hall] at hlen ⊢
    have hshort : (s.hsBuf ++ piece).length < 64 := by
      simp only [List.length_append] at hlen ⊢
      omega
    have hfits : ¬ 256 < s.hsBuf.length + piece.length := by
      rw [← List.length_append]
      omega
    have hread : handshakeRead S A hmac s clock piece
        = some ([], { s with hsBuf := s.hsBuf ++ piece }) := by
      rw [handshakeRead, if_neg hno, if_neg hfits]
      dsimp only
      rw [if_neg hnot, if_pos hshort]
    rw [List.cons_append, handshakeReads, hread]
    dsimp only [Option.bind_eq_bind, Option.bind_some]
    rw [ih { s with hsBuf := s.hsBuf ++ piece } hdone hgot hlen hno hnot]
    show Option.bind (handshakeAct2 S A hmac (s.afterAct1 _) now) _ = _
    cases handshakeAct2 S A hmac (s.afterAct1 _) now with
    | none => rfl
    | some r => rfl

/-- What the two sides have in common after the handshake, and the transport that each has. -/
structure HandshakeSession.Agreed (responder client : HandshakeSession) : Prop where
  ck : responder.ck = client.ck
  h : responder.h = client.h
  send : client.sendCs = responder.recvCs
  recv : responder.sendCs = client.recvCs
  transport : ∃ k1 k2, responder.toNoiseSession = transportSession k2 k1 ∧
    client.toNoiseSession = transportSession k1 k2

/-- The responder's session as it begins act 2. -/
def responderAt (eR : Keypair) (keys : ServerKeys) (sym : SymmetricState) (re : Bytes) :
    HandshakeSession :=
  { HandshakeSession.fresh eR with
    keys := some keys, toSymmetricState := sym, reEllswift := re, gotE := true }

/-- The client's session as it waits for act 2. -/
def clientAt (eC : Keypair) (authorityXonly : Bytes) (sym : SymmetricState) :
    HandshakeSession :=
  { HandshakeSession.fresh eC with
    initiator := true, authorityXonly := authorityXonly, toSymmetricState := sym
    gotE := true }

variable (A hmac) in
/-- Act 2, on the two sides: two legs, and the split. -/
theorem act2_agrees {loaded now : Int} (hkeys : keys.Sound S loaded)
    (hnow : 0 ≤ now ∧ now < uint32Max) {eR eC : Keypair} (hR : eR.Sound S) (hC : eC.Sound S)
    (sym : SymmetricState) :
    ∃ act2 responder sigmsg,
      handshakeAct2 S A hmac (responderAt eR keys sym eC.ellswift) now
        = some (act2, responder) ∧
      responder.handshakeDone = true ∧
      buildSignatureNoiseMessage S keys now = some sigmsg ∧
      (loaded ≤ now → CertCovers sigmsg now) ∧
      ∀ clock, CertCovers sigmsg clock →
        ∃ client, clientAct2 S A hmac (clientAt eC keys.authorityXonly sym) clock act2
            = some client ∧ responder.Agreed client := by
  obtain ⟨sigmsg, hsigmsg, hlen, hcovers, haccepts⟩ := buildSignatureNoiseMessage_eq hkeys hnow
  obtain ⟨ee, heeC, heeR⟩ := ellswiftEcdh_agree (S := S) hC.pubkey hR.pubkey
  obtain ⟨es, hesC, hesR⟩ := ellswiftEcdh_agree (S := S) hC.pubkey hkeys.static.pubkey
  dsimp only at hesC hesR
  obtain ⟨encStatic, symR, symC, hsealStatic, hopenStatic, hlenStatic, hagree⟩ :=
    leg_agrees A hmac (mixHash sym eR.ellswift) ee keys.staticEllswift
  have hmix : mixKey hmac symC es = mixKey hmac symR es := (hagree.mixKey_eq es).symm
  obtain ⟨encSig, endR, endC, hsealSig, hopenSig, hlenSig, hend⟩ :=
    leg_agrees A hmac symR es sigmsg
  have hstatic : keys.staticEllswift.length = 64 := hkeys.static.length
  rw [hstatic] at hlenStatic
  rw [hlen] at hlenSig
  let k := hkdfSha256 hmac endR.ck []
  refine ⟨eR.ellswift ++ (encStatic ++ encSig), HandshakeSession.split
    { responderAt eR keys sym eC.ellswift with toSymmetricState := endR } k.2 k.1,
    sigmsg, ?_, rfl, hsigmsg, hcovers, ?_⟩
  · simp only [handshakeAct2, responderAt, HandshakeSession.fresh, heeR, hesR, hsealStatic,
      hsigmsg, hsealSig, Option.bind_eq_bind, Option.bind_some]
    rfl
  · intro clock hclock
    refine ⟨HandshakeSession.split
      { clientAt eC keys.authorityXonly sym with
        toSymmetricState := endC, reEllswift := eR.ellswift
        rsEllswift := keys.staticEllswift } k.1 k.2, ?_,
      ⟨rfl, hend.h, rfl, rfl, ⟨k.1, k.2, rfl, rfl⟩⟩⟩
    have hlong : ¬ (eR.ellswift ++ (encStatic ++ encSig)).length
        < 64 + 64 + noiseMacLen + sigNoiseMsgLen + noiseMacLen := by
      simp only [List.length_append, hR.length, hlenStatic, hlenSig]
      omega
    have hfresh : ¬ (!(clientAt eC keys.authorityXonly sym).initiator ||
        !(clientAt eC keys.authorityXonly sym).gotE ||
        (clientAt eC keys.authorityXonly sym).handshakeDone) = true := Bool.false_ne_true
    have hsig : encSig.take (sigNoiseMsgLen + noiseMacLen) = encSig :=
      List.take_of_length_le hlenSig.le
    have htake : (encStatic ++ encSig).take (64 + noiseMacLen) = encStatic :=
      List.take_left' hlenStatic
    have hdrop : (encStatic ++ encSig).drop (64 + noiseMacLen) = encSig :=
      List.drop_left' hlenStatic
    have hck : hkdfSha256 hmac endC.ck [] = k := congrArg (hkdfSha256 hmac · []) hend.ck.symm
    rw [clientAct2, if_neg hfresh, if_neg hlong, List.take_left' hR.length,
      List.drop_left' hR.length]
    simp only [clientAt, HandshakeSession.fresh, htake, hdrop, hsig, heeC, hesC, hopenStatic,
      hmix, hopenSig, hstatic, hlen, haccepts clock hclock, hck, ne_eq, not_true_eq_false,
      Bool.not_true, Bool.false_eq_true, if_false, Option.bind_eq_bind, Option.bind_some]

theorem buildSignatureNoiseMessage_isSome_iff {loaded now : Int} (hkeys : keys.Sound S loaded) :
    (buildSignatureNoiseMessage S keys now).isSome ↔ 0 ≤ now ∧ now < uint32Max := by
  constructor
  · intro h
    obtain ⟨sigmsg, hsigmsg⟩ := Option.isSome_iff_exists.mp h
    obtain ⟨dates, hdates, -⟩ := Option.bind_eq_some_iff.mp hsigmsg
    exact (certWindow_isSome_iff hkeys.window).mp (Option.isSome_iff_exists.mpr ⟨dates, hdates⟩)
  · intro hnow
    obtain ⟨sigmsg, hsigmsg, -⟩ := buildSignatureNoiseMessage_eq hkeys hnow
    exact Option.isSome_iff_exists.mpr ⟨sigmsg, hsigmsg⟩

/-- However act 1 is cut, the handshake comes to its end on both sides at every time for
which a certificate is issued, and a certificate is issued up to the end of 32-bit time.  It
covers the time it was issued at, and for the client any time that it covers will do. -/
theorem noise_handshake_agrees (S : Secp π χ) (A : Aead Bytes) (hmac : Bytes → Bytes → Bytes)
    {loaded : Int} {validDays : UInt32} {authority static : KeySource} {keys : ServerKeys}
    {draws draws' : List Bytes} {rnd32 rnd32' : Bytes} {responder client : HandshakeSession}
    (hload : loadServerKeys S loaded validDays authority static = some keys)
    (hresponder : sessionNew S keys draws rnd32 = some responder)
    (hclient : clientSessionNew S keys.authorityXonly draws' rnd32' = some client) :
    ∃ act1 client₁, clientAct1 client = some (act1, client₁) ∧
      ∀ (earlier : List (Int × Bytes)) (now : Int) (last : Bytes), last ≠ [] →
        (earlier.map Prod.snd).flatten ++ last = act1 →
        ((buildSignatureNoiseMessage S keys now).isSome ↔ 0 ≤ now ∧ now < uint32Max) ∧
        ∀ sigmsg, buildSignatureNoiseMessage S keys now = some sigmsg →
          (loaded ≤ now → CertCovers sigmsg now) ∧
          ∃ act2 responder', handshakeReads S A hmac responder (earlier ++ [(now, last)])
              = some (act2, responder') ∧ responder'.handshakeDone = true ∧
            ∀ clock, CertCovers sigmsg clock →
              ∃ client₂, clientAct2 S A hmac client₁ clock act2 = some client₂ ∧
                client₂.handshakeDone = true ∧ responder'.Agreed client₂ := by
  have hkeys := loadServerKeys_sound hload
  obtain ⟨eR, heR, rfl⟩ := Option.map_eq_some_iff.mp hresponder
  obtain ⟨eC, heC, rfl⟩ := Option.map_eq_some_iff.mp hclient
  have hR := generateEllswiftKeypair_sound heR
  have hC := generateEllswiftKeypair_sound heC
  let sym := mixHash (mixHash handshakeInitHash eC.ellswift) []
  refine ⟨eC.ellswift, clientAt eC keys.authorityXonly sym, rfl, ?_⟩
  intro earlier now last hlast hact1
  refine ⟨buildSignatureNoiseMessage_isSome_iff hkeys, ?_⟩
  intro sigmsg hsigmsg
  have hnow := (buildSignatureNoiseMessage_isSome_iff hkeys).mp
    (Option.isSome_iff_exists.mpr ⟨sigmsg, hsigmsg⟩)
  obtain ⟨act2, responder', sigmsg', hact2, hdone, hsigmsg', hcovers, haccepts⟩ :=
    act2_agrees A hmac hkeys hnow hR hC sym
  obtain rfl := Option.some.inj (hsigmsg.symm.trans hsigmsg')
  refine ⟨hcovers, act2, responder', ?_, hdone, ?_⟩
  · have hlen : ([] ++ ((earlier.map Prod.snd).flatten ++ last) : Bytes).length = 64 := by
      rw [List.nil_append, hact1, hC.length]
    rw [handshakeReads_eq hlast earlier _ rfl rfl hlen, ← hact2, hact1]
    rfl
  · intro clock hclock
    obtain ⟨client₂, hclient₂, hagreed⟩ := haccepts clock hclock
    obtain ⟨k1, k2, -, htransport⟩ := hagreed.transport
    exact ⟨client₂, hclient₂, by rw [htransport]; rfl, hagreed⟩

end Run

/-! ### A run -/

/-- A cipher that shows its nonce and its key. -/
def openAead : Aead Bytes where
  encrypt k nonce _ pt := (nonce ++ (k ++ List.replicate 16 0)).take 16 ++ pt
  decrypt k nonce _ ct :=
    if ct.take 16 = (nonce ++ (k ++ List.replicate 16 0)).take 16 then some (ct.drop 16) else none
  length_encrypt k nonce ad pt := by
    simp [noiseMacLen]
    omega
  decrypt_encrypt k nonce ad pt := by
    have hlen : ((nonce ++ (k ++ List.replicate 16 0)).take 16 : Bytes).length = 16 := by
      simp
      omega
    rw [List.take_left' hlen, if_pos rfl, List.drop_left' hlen]

/-- The group of the integers: a public key is its secret key, and the secret of an exchange
is a digest of the product. -/
def openSecp : Secp Hash256 Hash256 where
  seckeyVerify sk := sk.length = 32
  pubkeyCreate sk := if h : sk.length = 32 then some ⟨sk, h⟩ else none
  ellswiftEncode pub _ := pub.bytes ++ zeros32
  ellswiftDecode b := ⟨(b ++ zeros32).take 32, by simp [zeros32]⟩
  xonlyFromPubkey := id
  xonlySerialize := Hash256.bytes
  xonlyParse b := if h : b.length = 32 then some ⟨b, h⟩ else none
  ellswiftXdh a b sk party := some (sha256 (a ++ (b ++
    leBytes 64 (leNat sk * leNat (((if party then a else b) ++ zeros32).take 32))))).bytes
  schnorrsigSign sk msg := some ((sha256 (sk ++ msg)).bytes ++ zeros32)
  schnorrsigVerify sig msg x := sig = (sha256 (x.bytes ++ msg)).bytes ++ zeros32
  length_ellswiftEncode pub rnd32 := by simp [zeros32]
  ellswiftDecode_encode pub rnd32 := by
    apply Subtype.ext
    exact (congrArg (List.take 32) (List.append_assoc ..)).trans (List.take_left' pub.2)
  xonlyParse_serialize x := dif_pos x.2
  ellswiftXdh_agree {a b skA skB} hA hB := by
    split_ifs at hA hB
    have hskA : skA = (a ++ zeros32).take 32 := congrArg Subtype.val (Option.some.inj hA)
    have hskB : skB = (b ++ zeros32).take 32 := congrArg Subtype.val (Option.some.inj hB)
    refine ⟨_, rfl, ?_⟩
    rw [if_pos rfl, if_neg Bool.false_ne_true, ← hskA, ← hskB, Nat.mul_comm]
  schnorrsigVerify_sign {sk pub} msg h := by
    split_ifs at h
    obtain rfl := Option.some.inj h
    exact ⟨_, rfl, by simp [zeros32], decide_eq_true rfl⟩

/-- Keys that were loaded a year ago, act 1 in two pieces, and the certificate a new one. -/
theorem year_old_keys_agree :
    ∃ keys responder client act1 client₁ sigmsg act2 responder' client₂,
      loadServerKeys openSecp 1700000000 365 ⟨none, [[1], List.replicate 32 1], []⟩
        ⟨some (List.replicate 32 2), [], []⟩ = some keys ∧
      sessionNew openSecp keys [List.replicate 32 3] [] = some responder ∧
      clientSessionNew openSecp keys.authorityXonly [List.replicate 32 4] [] = some client ∧
      clientAct1 client = some (act1, client₁) ∧
      buildSignatureNoiseMessage openSecp keys 1731536000 = some sigmsg ∧
      CertCovers sigmsg 1731536000 ∧
      handshakeReads openSecp openAead (· ++ ·) responder
        [(1731535000, act1.take 10), (1731536000, act1.drop 10)] = some (act2, responder') ∧
      clientAct2 openSecp openAead (· ++ ·) client₁ 1731536000 act2 = some client₂ ∧
      responder'.Agreed client₂ := by
  obtain ⟨keys, hload⟩ := Option.isSome_iff_exists.mp
    (show (loadServerKeys openSecp 1700000000 365 ⟨none, [[1], List.replicate 32 1], []⟩
      ⟨some (List.replicate 32 2), [], []⟩).isSome by decide)
  obtain ⟨responder, hresponder⟩ := Option.isSome_iff_exists.mp
    (show (sessionNew openSecp keys [List.replicate 32 3] []).isSome from rfl)
  have hclient : clientSessionNew openSecp keys.authorityXonly [List.replicate 32 4] []
      = some { HandshakeSession.fresh ⟨List.replicate 32 4, List.replicate 32 4 ++ zeros32,
        List.replicate 32 4⟩ with initiator := true, authorityXonly := keys.authorityXonly } := rfl
  obtain ⟨act1, client₁, hact1, hall⟩ := noise_handshake_agrees openSecp openAead (· ++ ·)
    hload hresponder hclient
  obtain ⟨rfl, -⟩ := Prod.mk.inj (Option.some.inj hact1)
  obtain ⟨hissued, hcert⟩ := hall [(1731535000, _)] 1731536000 _
    (show (List.replicate 32 4 ++ zeros32).drop 10 ≠ [] by decide)
    ((congrArg (· ++ _) List.flatten_singleton).trans (List.take_append_drop 10 _))
  obtain ⟨sigmsg, hsigmsg⟩ := Option.isSome_iff_exists.mp (hissued.mpr (by decide))
  obtain ⟨hcovers, act2, responder', hreads, -, haccepts⟩ := hcert sigmsg hsigmsg
  obtain ⟨client₂, hclient₂, -, hagreed⟩ := haccepts 1731536000 (hcovers (by decide))
  exact ⟨keys, responder, _, _, client₁, sigmsg, act2, responder', client₂, hload, hresponder,
    hclient, hact1, hsigmsg, hcovers (by decide), hreads, hclient₂, hagreed⟩

end CashStratum
