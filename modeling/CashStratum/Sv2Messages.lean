/-
CashStratum/Sv2Messages.lean

The messages of the common and the mining protocol (`sv2_codec.c`).  The two halves of a
message type are written apart, as in the source: `need` and the `fields` of the encoder,
and the reads of the decoder.

What the halves have to agree on is `Sv2Codec.Exact`: the size is the size of the fields,
the encoder has no objection to a message within the limits, and the decoder takes exactly
the bytes of the fields.  Round trips in both directions follow from it for any message
type.

A SubmitSharesExtended and a SubmitSharesSuccess are those of the pool.
-/
import CashStratum.Pool
import CashStratum.Sv2Batch

namespace CashStratum

/-! ### The two halves of a message -/

/-- The encoding half: the limits of the fields, what is asked of the message as a whole, the
size, and the encoder, which is given the size of its buffer. -/
structure Sv2Encoder where
  Msg : Type
  Fits : Msg → Prop := fun _ => True
  FitsFrame : Msg → Prop := fun _ => True
  need : Msg → Nat
  encode : Nat → Msg → Option Bytes

/-- The fields are written one after another, and `need` is their size. -/
structure Sv2Encoder.Exact (e : Sv2Encoder) (fields : e.Msg → List Bytes) : Prop where
  encode_need : ∀ m, e.Fits m → e.FitsFrame m →
    e.encode (e.need m) m = encodeFields (e.need m) (e.need m) (fields m)
  length_fields : ∀ m, e.Fits m → (fields m).flatten.length = e.need m

/-- Both halves.  A decoder leaves the bytes that it did not read. -/
structure Sv2Codec extends Sv2Encoder where
  strings : Msg → List Bytes := fun _ => []
  decode : Bytes → Option (Msg × Bytes)

namespace Sv2Codec

/-- The strings of a message without NUL. -/
def NoNul (c : Sv2Codec) (m : c.Msg) : Prop := ∀ s ∈ c.strings m, 0 ∉ s

/-- The decoder accepts what the encoder writes, and nothing else. -/
structure Exact (c : Sv2Codec) (fields : c.Msg → List Bytes) : Prop
    extends c.toSv2Encoder.Exact fields where
  decode_iff : ∀ p q m, c.NoNul m →
    (c.decode p = some (m, q) ↔ p = (fields m).flatten ++ q ∧ c.Fits m)

end Sv2Codec

section RoundTrips

variable {e : Sv2Encoder} {c : Sv2Codec}

/-- A buffer of the size that is asked for is enough, and is filled. -/
theorem Sv2Encoder.Exact.encode_eq {fields : e.Msg → List Bytes} (h : e.Exact fields) {m : e.Msg}
    (hfits : e.Fits m) (hframe : e.FitsFrame m) :
    e.encode (e.need m) m = some (fields m).flatten := by
  rw [h.encode_need m hfits hframe, encodeFields_need (h.length_fields m hfits)]

theorem Sv2Codec.Exact.decode_encode {fields : c.Msg → List Bytes} (h : c.Exact fields)
    {m : c.Msg} (hfits : c.Fits m) (hframe : c.FitsFrame m) (hnul : c.NoNul m) :
    ∃ bytes, c.encode (c.need m) m = some bytes ∧ bytes.length = c.need m ∧
      ∀ rest, c.decode (bytes ++ rest) = some (m, rest) := by
  refine ⟨(fields m).flatten, h.toExact.encode_eq hfits hframe, h.length_fields m hfits, ?_⟩
  intro rest
  exact (h.decode_iff _ _ _ hnul).mpr ⟨rfl, hfits⟩

theorem Sv2Codec.Exact.encode_decode {fields : c.Msg → List Bytes} (h : c.Exact fields)
    {p rest : Bytes} {m : c.Msg} (hdec : c.decode p = some (m, rest)) (hframe : c.FitsFrame m)
    (hnul : c.NoNul m) :
    ∃ consumed, p = consumed ++ rest ∧ c.encode (c.need m) m = some consumed := by
  obtain ⟨hp, hfits⟩ := (h.decode_iff _ _ _ hnul).mp hdec
  exact ⟨(fields m).flatten, hp, h.toExact.encode_eq hfits hframe⟩

end RoundTrips

namespace Sv2

/-! ### SetupConnection -/

/-- `struct sv2_setup_connection` -/
structure SetupConnection where
  protocol : UInt8
  minVersion : UInt16
  maxVersion : UInt16
  flags : UInt32
  endpointHost : Bytes
  endpointPort : UInt16
  vendor : Bytes
  hardwareVersion : Bytes
  firmware : Bytes
  deviceId : Bytes

/-- The size of the payload. -/
def SetupConnection.need (m : SetupConnection) : Nat :=
  1 + 2 + 2 + 4 + (1 + strlen m.endpointHost) + 2 + (1 + strlen m.vendor) +
    (1 + strlen m.hardwareVersion) + (1 + strlen m.firmware) + (1 + strlen m.deviceId)

/-- In wire order. -/
def SetupConnection.fields (m : SetupConnection) : List Bytes :=
  [writeU8 m.protocol, writeU16 m.minVersion, writeU16 m.maxVersion, writeU32 m.flags,
    writeStr m.endpointHost, writeU16 m.endpointPort, writeStr m.vendor,
    writeStr m.hardwareVersion, writeStr m.firmware, writeStr m.deviceId]

/-- `sv2_encode_setup_connection` -/
def encodeSetupConnection (bufsz : Nat) (m : SetupConnection) : Option Bytes :=
  encodeFields bufsz m.need m.fields

/-- `sv2_decode_setup_connection` -/
def decodeSetupConnection (p : Bytes) : Option (SetupConnection × Bytes) := do
  let (protocol, p) ← readU8 p
  let (minVersion, p) ← readU16 p
  let (maxVersion, p) ← readU16 p
  let (flags, p) ← readU32 p
  let (endpointHost, p) ← readStr p
  let (endpointPort, p) ← readU16 p
  let (vendor, p) ← readStr p
  let (hardwareVersion, p) ← readStr p
  let (firmware, p) ← readStr p
  let (deviceId, p) ← readStr p
  some (⟨protocol, minVersion, maxVersion, flags, endpointHost, endpointPort, vendor,
    hardwareVersion, firmware, deviceId⟩, p)

/-- Its codec. -/
def setupConnection : Sv2Codec where
  Msg := SetupConnection
  Fits m := m.endpointHost.length ≤ maxStrLen ∧ m.vendor.length ≤ maxStrLen ∧
    m.hardwareVersion.length ≤ maxStrLen ∧ m.firmware.length ≤ maxStrLen ∧
    m.deviceId.length ≤ maxStrLen
  strings m := [m.endpointHost, m.vendor, m.hardwareVersion, m.firmware, m.deviceId]
  need := SetupConnection.need
  encode := encodeSetupConnection
  decode := decodeSetupConnection

theorem setupConnection_exact : setupConnection.Exact SetupConnection.fields where
  encode_need _ _ _ := rfl
  length_fields := by
    rintro m ⟨hhost, hvendor, hhardware, hfirmware, hdevice⟩
    simp only [SetupConnection.fields, setupConnection, SetupConnection.need, List.flatten_cons,
      List.flatten_nil, List.length_append, List.length_nil, length_writeU8, length_writeU16,
      length_writeU32, length_writeStr hhost, length_writeStr hvendor, length_writeStr hhardware,
      length_writeStr hfirmware, length_writeStr hdevice]
    omega
  decode_iff := by
    rintro p q ⟨protocol, minVersion, maxVersion, flags, host, port, vendor, hardware, firmware,
      device⟩ hnul
    simp [Sv2Codec.NoNul, setupConnection] at hnul
    simp [setupConnection, decodeSetupConnection, SetupConnection.fields,
      Option.bind_eq_some_iff, readStr_eq_some_iff, hnul]

/-! ### SetupConnection.Success and SetupConnection.Error -/

/-- `struct sv2_setup_connection_success` -/
structure SetupConnectionSuccess where
  usedVersion : UInt16
  flags : UInt32

/-- In wire order. -/
def SetupConnectionSuccess.fields (m : SetupConnectionSuccess) : List Bytes :=
  [writeU16 m.usedVersion, writeU32 m.flags]

/-- `sv2_encode_setup_connection_success` -/
def encodeSetupConnectionSuccess (bufsz : Nat) (m : SetupConnectionSuccess) : Option Bytes :=
  encodeFields bufsz 6 m.fields

/-- `sv2_decode_setup_connection_success` -/
def decodeSetupConnectionSuccess (p : Bytes) : Option (SetupConnectionSuccess × Bytes) := do
  let (usedVersion, p) ← readU16 p
  let (flags, p) ← readU32 p
  some (⟨usedVersion, flags⟩, p)

/-- Its codec. -/
def setupConnectionSuccess : Sv2Codec where
  Msg := SetupConnectionSuccess
  need _ := 6
  encode := encodeSetupConnectionSuccess
  decode := decodeSetupConnectionSuccess

theorem setupConnectionSuccess_exact :
    setupConnectionSuccess.Exact SetupConnectionSuccess.fields where
  encode_need _ _ _ := rfl
  length_fields m _ := by simp [SetupConnectionSuccess.fields, setupConnectionSuccess]
  decode_iff := by
    rintro p q ⟨usedVersion, flags⟩ -
    simp [setupConnectionSuccess, decodeSetupConnectionSuccess, SetupConnectionSuccess.fields,
      Option.bind_eq_some_iff]

/-- `struct sv2_setup_connection_error` -/
structure SetupConnectionError where
  flags : UInt32
  errorCode : Bytes

/-- The size of the payload. -/
def SetupConnectionError.need (m : SetupConnectionError) : Nat := 4 + 1 + strlen m.errorCode

/-- In wire order. -/
def SetupConnectionError.fields (m : SetupConnectionError) : List Bytes :=
  [writeU32 m.flags, writeStr m.errorCode]

/-- `sv2_encode_setup_connection_error` -/
def encodeSetupConnectionError (bufsz : Nat) (m : SetupConnectionError) : Option Bytes :=
  encodeFields bufsz m.need m.fields

/-- `sv2_decode_setup_connection_error` -/
def decodeSetupConnectionError (p : Bytes) : Option (SetupConnectionError × Bytes) := do
  let (flags, p) ← readU32 p
  let (errorCode, p) ← readStr p
  some (⟨flags, errorCode⟩, p)

/-- Its codec. -/
def setupConnectionError : Sv2Codec where
  Msg := SetupConnectionError
  Fits m := m.errorCode.length ≤ maxStrLen
  strings m := [m.errorCode]
  need := SetupConnectionError.need
  encode := encodeSetupConnectionError
  decode := decodeSetupConnectionError

theorem setupConnectionError_exact : setupConnectionError.Exact SetupConnectionError.fields where
  encode_need _ _ _ := rfl
  length_fields := by
    intro m hcode
    simp [SetupConnectionError.fields, setupConnectionError, SetupConnectionError.need,
      length_writeStr hcode]
    omega
  decode_iff := by
    rintro p q ⟨flags, errorCode⟩ hnul
    simp [Sv2Codec.NoNul, setupConnectionError] at hnul
    simp [setupConnectionError, decodeSetupConnectionError, SetupConnectionError.fields,
      Option.bind_eq_some_iff, readStr_eq_some_iff, hnul]

/-! ### Opening a channel -/

/-- `struct sv2_open_standard_channel_success` -/
structure OpenStandardChannelSuccess where
  requestId : UInt32
  channelId : UInt32
  target : Hash256
  extranoncePrefix : Bytes
  groupChannelId : UInt32

/-- The size of the payload. -/
def OpenStandardChannelSuccess.need (m : OpenStandardChannelSuccess) : Nat :=
  4 + 4 + 32 + 1 + m.extranoncePrefix.length + 4

/-- In wire order. -/
def OpenStandardChannelSuccess.fields (m : OpenStandardChannelSuccess) : List Bytes :=
  [writeU32 m.requestId, writeU32 m.channelId, writeU256 m.target,
    writeB032 m.extranoncePrefix, writeU32 m.groupChannelId]

/-- `sv2_encode_open_standard_channel_success` -/
def encodeOpenStandardChannelSuccess (bufsz : Nat) (m : OpenStandardChannelSuccess) :
    Option Bytes :=
  encodeFields bufsz m.need m.fields

/-- Its encoder. -/
def openStandardChannelSuccess : Sv2Encoder where
  Msg := OpenStandardChannelSuccess
  Fits m := m.extranoncePrefix.length ≤ maxB032
  need := OpenStandardChannelSuccess.need
  encode := encodeOpenStandardChannelSuccess

theorem openStandardChannelSuccess_exact :
    openStandardChannelSuccess.Exact OpenStandardChannelSuccess.fields where
  encode_need _ _ _ := rfl
  length_fields := by
    intro m hpre
    simp [OpenStandardChannelSuccess.fields, openStandardChannelSuccess,
      OpenStandardChannelSuccess.need, length_writeB032 hpre]
    omega

/-- `struct sv2_open_extended_channel`; the hash rate is the bits of a float. -/
structure OpenExtendedChannel where
  requestId : UInt32
  userIdentity : Bytes
  nominalHashRate : UInt32
  maxTarget : Hash256
  minExtranonceSize : UInt16

/-- The size of the payload. -/
def OpenExtendedChannel.need (m : OpenExtendedChannel) : Nat :=
  4 + (1 + strlen m.userIdentity) + 4 + 32 + 2

/-- In wire order. -/
def OpenExtendedChannel.fields (m : OpenExtendedChannel) : List Bytes :=
  [writeU32 m.requestId, writeStr m.userIdentity, writeF32 m.nominalHashRate,
    writeU256 m.maxTarget, writeU16 m.minExtranonceSize]

/-- `sv2_encode_open_extended_channel` -/
def encodeOpenExtendedChannel (bufsz : Nat) (m : OpenExtendedChannel) : Option Bytes :=
  encodeFields bufsz m.need m.fields

/-- `sv2_decode_open_extended_channel` -/
def decodeOpenExtendedChannel (p : Bytes) : Option (OpenExtendedChannel × Bytes) := do
  let (requestId, p) ← readU32 p
  let (userIdentity, p) ← readStr p
  let (nominalHashRate, p) ← readF32 p
  let (maxTarget, p) ← readU256 p
  let (minExtranonceSize, p) ← readU16 p
  some (⟨requestId, userIdentity, nominalHashRate, maxTarget, minExtranonceSize⟩, p)

/-- Its codec. -/
def openExtendedChannel : Sv2Codec where
  Msg := OpenExtendedChannel
  Fits m := m.userIdentity.length ≤ maxStrLen
  strings m := [m.userIdentity]
  need := OpenExtendedChannel.need
  encode := encodeOpenExtendedChannel
  decode := decodeOpenExtendedChannel

theorem openExtendedChannel_exact : openExtendedChannel.Exact OpenExtendedChannel.fields where
  encode_need _ _ _ := rfl
  length_fields := by
    intro m hidentity
    simp [OpenExtendedChannel.fields, openExtendedChannel, OpenExtendedChannel.need,
      length_writeStr hidentity]
    omega
  decode_iff := by
    rintro p q ⟨requestId, userIdentity, nominalHashRate, maxTarget, minExtranonceSize⟩ hnul
    simp [Sv2Codec.NoNul, openExtendedChannel] at hnul
    simp [openExtendedChannel, decodeOpenExtendedChannel, OpenExtendedChannel.fields,
      Option.bind_eq_some_iff, readStr_eq_some_iff, hnul]

/-- `struct sv2_open_extended_channel_success` -/
structure OpenExtendedChannelSuccess where
  requestId : UInt32
  channelId : UInt32
  target : Hash256
  extranonceSize : UInt16
  extranoncePrefix : Bytes
  groupChannelId : UInt32

/-- The size of the payload. -/
def OpenExtendedChannelSuccess.need (m : OpenExtendedChannelSuccess) : Nat :=
  4 + 4 + 32 + 2 + 1 + m.extranoncePrefix.length + 4

/-- In wire order. -/
def OpenExtendedChannelSuccess.fields (m : OpenExtendedChannelSuccess) : List Bytes :=
  [writeU32 m.requestId, writeU32 m.channelId, writeU256 m.target, writeU16 m.extranonceSize,
    writeB032 m.extranoncePrefix, writeU32 m.groupChannelId]

/-- `sv2_encode_open_extended_channel_success` -/
def encodeOpenExtendedChannelSuccess (bufsz : Nat) (m : OpenExtendedChannelSuccess) :
    Option Bytes :=
  encodeFields bufsz m.need m.fields

/-- `sv2_decode_open_extended_channel_success` -/
def decodeOpenExtendedChannelSuccess (p : Bytes) :
    Option (OpenExtendedChannelSuccess × Bytes) := do
  let (requestId, p) ← readU32 p
  let (channelId, p) ← readU32 p
  let (target, p) ← readU256 p
  let (extranonceSize, p) ← readU16 p
  let (extranoncePrefix, p) ← readB032 p
  let (groupChannelId, p) ← readU32 p
  some (⟨requestId, channelId, target, extranonceSize, extranoncePrefix, groupChannelId⟩, p)

/-- Its codec. -/
def openExtendedChannelSuccess : Sv2Codec where
  Msg := OpenExtendedChannelSuccess
  Fits m := m.extranoncePrefix.length ≤ maxB032
  need := OpenExtendedChannelSuccess.need
  encode := encodeOpenExtendedChannelSuccess
  decode := decodeOpenExtendedChannelSuccess

theorem openExtendedChannelSuccess_exact :
    openExtendedChannelSuccess.Exact OpenExtendedChannelSuccess.fields where
  encode_need _ _ _ := rfl
  length_fields := by
    intro m hpre
    simp [OpenExtendedChannelSuccess.fields, openExtendedChannelSuccess,
      OpenExtendedChannelSuccess.need, length_writeB032 hpre]
    omega
  decode_iff := by
    rintro p q ⟨requestId, channelId, target, extranonceSize, extranoncePrefix, groupId⟩ -
    simp [openExtendedChannelSuccess, decodeOpenExtendedChannelSuccess,
      OpenExtendedChannelSuccess.fields, Option.bind_eq_some_iff]

/-- `struct sv2_open_channel_error` -/
structure OpenChannelError where
  requestId : UInt32
  errorCode : Bytes

/-- The size of the payload. -/
def OpenChannelError.need (m : OpenChannelError) : Nat := 4 + 1 + strlen m.errorCode

/-- In wire order. -/
def OpenChannelError.fields (m : OpenChannelError) : List Bytes :=
  [writeU32 m.requestId, writeStr m.errorCode]

/-- `sv2_encode_open_channel_error` -/
def encodeOpenChannelError (bufsz : Nat) (m : OpenChannelError) : Option Bytes :=
  encodeFields bufsz m.need m.fields

/-- `sv2_decode_open_channel_error` -/
def decodeOpenChannelError (p : Bytes) : Option (OpenChannelError × Bytes) := do
  let (requestId, p) ← readU32 p
  let (errorCode, p) ← readStr p
  some (⟨requestId, errorCode⟩, p)

/-- Its codec. -/
def openChannelError : Sv2Codec where
  Msg := OpenChannelError
  Fits m := m.errorCode.length ≤ maxStrLen
  strings m := [m.errorCode]
  need := OpenChannelError.need
  encode := encodeOpenChannelError
  decode := decodeOpenChannelError

theorem openChannelError_exact : openChannelError.Exact OpenChannelError.fields where
  encode_need _ _ _ := rfl
  length_fields := by
    intro m hcode
    simp [OpenChannelError.fields, openChannelError, OpenChannelError.need, length_writeStr hcode]
    omega
  decode_iff := by
    rintro p q ⟨requestId, errorCode⟩ hnul
    simp [Sv2Codec.NoNul, openChannelError] at hnul
    simp [openChannelError, decodeOpenChannelError, OpenChannelError.fields,
      Option.bind_eq_some_iff, readStr_eq_some_iff, hnul]

/-! ### UpdateChannel, SetTarget and SetNewPrevHash -/

/-- `struct sv2_update_channel`; the hash rate is the bits of a float. -/
structure UpdateChannel where
  channelId : UInt32
  nominalHashRate : UInt32
  maximumTarget : Hash256

/-- In wire order. -/
def UpdateChannel.fields (m : UpdateChannel) : List Bytes :=
  [writeU32 m.channelId, writeF32 m.nominalHashRate, writeU256 m.maximumTarget]

/-- `sv2_encode_update_channel` -/
def encodeUpdateChannel (bufsz : Nat) (m : UpdateChannel) : Option Bytes :=
  encodeFields bufsz (4 + 4 + 32) m.fields

/-- The reads of `sv2_strat_handle_frame` for an UpdateChannel. -/
def decodeUpdateChannel (p : Bytes) : Option (UpdateChannel × Bytes) := do
  let (channelId, p) ← readU32 p
  let (nominalHashRate, p) ← readF32 p
  let (maximumTarget, p) ← readU256 p
  some (⟨channelId, nominalHashRate, maximumTarget⟩, p)

/-- Its codec. -/
def updateChannel : Sv2Codec where
  Msg := UpdateChannel
  need _ := 4 + 4 + 32
  encode := encodeUpdateChannel
  decode := decodeUpdateChannel

theorem updateChannel_exact : updateChannel.Exact UpdateChannel.fields where
  encode_need _ _ _ := rfl
  length_fields m _ := by simp [UpdateChannel.fields, updateChannel]
  decode_iff := by
    rintro p q ⟨channelId, nominalHashRate, maximumTarget⟩ -
    simp [updateChannel, decodeUpdateChannel, UpdateChannel.fields, Option.bind_eq_some_iff]

/-- `struct sv2_update_channel_error` -/
structure UpdateChannelError where
  channelId : UInt32
  errorCode : Bytes

/-- The size of the payload. -/
def UpdateChannelError.need (m : UpdateChannelError) : Nat := 4 + 1 + strlen m.errorCode

/-- In wire order. -/
def UpdateChannelError.fields (m : UpdateChannelError) : List Bytes :=
  [writeU32 m.channelId, writeStr m.errorCode]

/-- `sv2_encode_update_channel_error` -/
def encodeUpdateChannelError (bufsz : Nat) (m : UpdateChannelError) : Option Bytes :=
  encodeFields bufsz m.need m.fields

/-- Its encoder. -/
def updateChannelError : Sv2Encoder where
  Msg := UpdateChannelError
  Fits m := m.errorCode.length ≤ maxStrLen
  need := UpdateChannelError.need
  encode := encodeUpdateChannelError

theorem updateChannelError_exact : updateChannelError.Exact UpdateChannelError.fields where
  encode_need _ _ _ := rfl
  length_fields := by
    intro m hcode
    simp [UpdateChannelError.fields, updateChannelError, UpdateChannelError.need,
      length_writeStr hcode]
    omega

/-- `struct sv2_set_target` -/
structure SetTarget where
  channelId : UInt32
  maximumTarget : Hash256

/-- In wire order. -/
def SetTarget.fields (m : SetTarget) : List Bytes :=
  [writeU32 m.channelId, writeU256 m.maximumTarget]

/-- `sv2_encode_set_target` -/
def encodeSetTarget (bufsz : Nat) (m : SetTarget) : Option Bytes :=
  encodeFields bufsz (4 + 32) m.fields

/-- `sv2_decode_set_target` -/
def decodeSetTarget (p : Bytes) : Option (SetTarget × Bytes) := do
  let (channelId, p) ← readU32 p
  let (maximumTarget, p) ← readU256 p
  some (⟨channelId, maximumTarget⟩, p)

/-- Its codec. -/
def setTarget : Sv2Codec where
  Msg := SetTarget
  need _ := 4 + 32
  encode := encodeSetTarget
  decode := decodeSetTarget

theorem setTarget_exact : setTarget.Exact SetTarget.fields where
  encode_need _ _ _ := rfl
  length_fields m _ := by simp [SetTarget.fields, setTarget]
  decode_iff := by
    rintro p q ⟨channelId, maximumTarget⟩ -
    simp [setTarget, decodeSetTarget, SetTarget.fields, Option.bind_eq_some_iff]

/-- `struct sv2_set_new_prev_hash` -/
structure SetNewPrevHash where
  channelId : UInt32
  jobId : UInt32
  prevHash : Hash256
  minNtime : UInt32
  nbits : UInt32

/-- In wire order. -/
def SetNewPrevHash.fields (m : SetNewPrevHash) : List Bytes :=
  [writeU32 m.channelId, writeU32 m.jobId, writeU256 m.prevHash, writeU32 m.minNtime,
    writeU32 m.nbits]

/-- `sv2_encode_set_new_prev_hash` -/
def encodeSetNewPrevHash (bufsz : Nat) (m : SetNewPrevHash) : Option Bytes :=
  encodeFields bufsz (4 + 4 + 32 + 4 + 4) m.fields

/-- `sv2_decode_set_new_prev_hash` -/
def decodeSetNewPrevHash (p : Bytes) : Option (SetNewPrevHash × Bytes) := do
  let (channelId, p) ← readU32 p
  let (jobId, p) ← readU32 p
  let (prevHash, p) ← readU256 p
  let (minNtime, p) ← readU32 p
  let (nbits, p) ← readU32 p
  some (⟨channelId, jobId, prevHash, minNtime, nbits⟩, p)

/-- Its codec. -/
def setNewPrevHash : Sv2Codec where
  Msg := SetNewPrevHash
  need _ := 4 + 4 + 32 + 4 + 4
  encode := encodeSetNewPrevHash
  decode := decodeSetNewPrevHash

theorem setNewPrevHash_exact : setNewPrevHash.Exact SetNewPrevHash.fields where
  encode_need _ _ _ := rfl
  length_fields m _ := by simp [SetNewPrevHash.fields, setNewPrevHash]
  decode_iff := by
    rintro p q ⟨channelId, jobId, prevHash, minNtime, nbits⟩ -
    simp [setNewPrevHash, decodeSetNewPrevHash, SetNewPrevHash.fields, Option.bind_eq_some_iff]

/-! ### Shares -/

/-- The size of the payload. -/
def SubmitSharesExtended.need (m : SubmitSharesExtended) : Nat :=
  4 + 4 + 4 + 4 + 4 + 4 + 1 + m.extranonce.length

/-- In wire order. -/
def SubmitSharesExtended.fields (m : SubmitSharesExtended) : List Bytes :=
  [writeU32 m.channelId, writeU32 m.sequenceNumber, writeU32 m.jobId, writeU32 m.nonce,
    writeU32 m.ntime, writeU32 m.version, writeB032 m.extranonce]

/-- `sv2_encode_submit_shares_extended` -/
def encodeSubmitSharesExtended (bufsz : Nat) (m : SubmitSharesExtended) : Option Bytes :=
  encodeFields bufsz (SubmitSharesExtended.need m) (SubmitSharesExtended.fields m)

/-- `sv2_decode_submit_shares_extended` -/
def decodeSubmitSharesExtended (p : Bytes) : Option (SubmitSharesExtended × Bytes) := do
  let (channelId, p) ← readU32 p
  let (sequenceNumber, p) ← readU32 p
  let (jobId, p) ← readU32 p
  let (nonce, p) ← readU32 p
  let (ntime, p) ← readU32 p
  let (version, p) ← readU32 p
  let (extranonce, p) ← readB032 p
  some (⟨channelId, sequenceNumber, jobId, nonce, ntime, version, extranonce⟩, p)

/-- Its codec. -/
def submitSharesExtended : Sv2Codec where
  Msg := SubmitSharesExtended
  Fits m := m.extranonce.length ≤ maxB032
  need := SubmitSharesExtended.need
  encode := encodeSubmitSharesExtended
  decode := decodeSubmitSharesExtended

theorem submitSharesExtended_exact : submitSharesExtended.Exact SubmitSharesExtended.fields where
  encode_need _ _ _ := rfl
  length_fields := by
    intro m hextranonce
    simp [SubmitSharesExtended.fields, submitSharesExtended, SubmitSharesExtended.need,
      length_writeB032 hextranonce]
    omega
  decode_iff := by
    rintro p q ⟨channelId, sequenceNumber, jobId, nonce, ntime, version, extranonce⟩ -
    simp [submitSharesExtended, decodeSubmitSharesExtended, SubmitSharesExtended.fields,
      Option.bind_eq_some_iff]

/-- In wire order. -/
def SubmitSharesSuccess.fields (m : SubmitSharesSuccess) : List Bytes :=
  [writeU32 m.channelId, writeU32 m.lastSequenceNumber, writeU32 m.newSubmitsAcceptedCount,
    writeU64 m.newSharesSum]

/-- `sv2_encode_submit_shares_success` -/
def encodeSubmitSharesSuccess (bufsz : Nat) (m : SubmitSharesSuccess) : Option Bytes :=
  encodeFields bufsz (4 + 4 + 4 + 8) (SubmitSharesSuccess.fields m)

/-- `sv2_decode_submit_shares_success` -/
def decodeSubmitSharesSuccess (p : Bytes) : Option (SubmitSharesSuccess × Bytes) := do
  let (channelId, p) ← readU32 p
  let (lastSequenceNumber, p) ← readU32 p
  let (newSubmitsAcceptedCount, p) ← readU32 p
  let (newSharesSum, p) ← readU64 p
  some (⟨channelId, lastSequenceNumber, newSubmitsAcceptedCount, newSharesSum⟩, p)

/-- Its codec. -/
def submitSharesSuccess : Sv2Codec where
  Msg := SubmitSharesSuccess
  need _ := 4 + 4 + 4 + 8
  encode := encodeSubmitSharesSuccess
  decode := decodeSubmitSharesSuccess

theorem submitSharesSuccess_exact : submitSharesSuccess.Exact SubmitSharesSuccess.fields where
  encode_need _ _ _ := rfl
  length_fields m _ := by simp [SubmitSharesSuccess.fields, submitSharesSuccess]
  decode_iff := by
    rintro p q ⟨channelId, lastSequenceNumber, acceptedCount, sharesSum⟩ -
    simp [submitSharesSuccess, decodeSubmitSharesSuccess, SubmitSharesSuccess.fields,
      Option.bind_eq_some_iff]

/-- `struct sv2_submit_shares_error` -/
structure SubmitSharesError where
  channelId : UInt32
  sequenceNumber : UInt32
  errorCode : Bytes

/-- The size of the payload. -/
def SubmitSharesError.need (m : SubmitSharesError) : Nat := 4 + 4 + 1 + strlen m.errorCode

/-- In wire order. -/
def SubmitSharesError.fields (m : SubmitSharesError) : List Bytes :=
  [writeU32 m.channelId, writeU32 m.sequenceNumber, writeStr m.errorCode]

/-- `sv2_encode_submit_shares_error` -/
def encodeSubmitSharesError (bufsz : Nat) (m : SubmitSharesError) : Option Bytes :=
  encodeFields bufsz m.need m.fields

/-- `sv2_decode_submit_shares_error` -/
def decodeSubmitSharesError (p : Bytes) : Option (SubmitSharesError × Bytes) := do
  let (channelId, p) ← readU32 p
  let (sequenceNumber, p) ← readU32 p
  let (errorCode, p) ← readStr p
  some (⟨channelId, sequenceNumber, errorCode⟩, p)

/-- Its codec. -/
def submitSharesError : Sv2Codec where
  Msg := SubmitSharesError
  Fits m := m.errorCode.length ≤ maxStrLen
  strings m := [m.errorCode]
  need := SubmitSharesError.need
  encode := encodeSubmitSharesError
  decode := decodeSubmitSharesError

theorem submitSharesError_exact : submitSharesError.Exact SubmitSharesError.fields where
  encode_need _ _ _ := rfl
  length_fields := by
    intro m hcode
    simp [SubmitSharesError.fields, submitSharesError, SubmitSharesError.need,
      length_writeStr hcode]
    omega
  decode_iff := by
    rintro p q ⟨channelId, sequenceNumber, errorCode⟩ hnul
    simp [Sv2Codec.NoNul, submitSharesError] at hnul
    simp [submitSharesError, decodeSubmitSharesError, SubmitSharesError.fields,
      Option.bind_eq_some_iff, readStr_eq_some_iff, hnul]

/-! ### Jobs -/

/-- `struct sv2_new_mining_job` -/
structure NewMiningJob where
  channelId : UInt32
  jobId : UInt32
  minNtimePresent : Bool
  minNtime : UInt32
  version : UInt32
  merkleRoot : Hash256

/-- The size of the payload. -/
def NewMiningJob.need (m : NewMiningJob) : Nat :=
  4 + 4 + 1 + (if m.minNtimePresent then 4 else 0) + 4 + 32

/-- In wire order. -/
def NewMiningJob.fields (m : NewMiningJob) : List Bytes :=
  [writeU32 m.channelId, writeU32 m.jobId, writeOptionU32 m.minNtimePresent m.minNtime,
    writeU32 m.version, writeU256 m.merkleRoot]

/-- `sv2_encode_new_mining_job` -/
def encodeNewMiningJob (bufsz : Nat) (m : NewMiningJob) : Option Bytes :=
  encodeFields bufsz m.need m.fields

/-- Its encoder. -/
def newMiningJob : Sv2Encoder where
  Msg := NewMiningJob
  need := NewMiningJob.need
  encode := encodeNewMiningJob

theorem newMiningJob_exact : newMiningJob.Exact NewMiningJob.fields where
  encode_need _ _ _ := rfl
  length_fields m _ := by
    simp [NewMiningJob.fields, newMiningJob, NewMiningJob.need]
    omega

/-- `struct sv2_new_extended_mining_job` -/
structure NewExtendedMiningJob where
  channelId : UInt32
  jobId : UInt32
  minNtimePresent : Bool
  minNtime : UInt32
  version : UInt32
  versionRollingAllowed : Bool
  merklePath : List Hash256
  coinbaseTxPrefix : Bytes
  coinbaseTxSuffix : Bytes
deriving DecidableEq

/-- The size of the payload. -/
def NewExtendedMiningJob.need (m : NewExtendedMiningJob) : Nat :=
  4 + 4 + 1 + (if m.minNtimePresent then 4 else 0) + 4 + 1 + 1 + m.merklePath.length * 32 +
    2 + m.coinbaseTxPrefix.length + 2 + m.coinbaseTxSuffix.length

/-- In wire order. -/
def NewExtendedMiningJob.fields (m : NewExtendedMiningJob) : List Bytes :=
  [writeU32 m.channelId, writeU32 m.jobId, writeOptionU32 m.minNtimePresent m.minNtime,
    writeU32 m.version, writeBool m.versionRollingAllowed, writeMerklePath m.merklePath,
    writeB064k m.coinbaseTxPrefix, writeB064k m.coinbaseTxSuffix]

/-- `sv2_encode_new_extended_mining_job` -/
def encodeNewExtendedMiningJob (bufsz : Nat) (m : NewExtendedMiningJob) : Option Bytes :=
  if maxMerklePath < m.merklePath.length then none else encodeFields bufsz m.need m.fields

/-- `sv2_decode_new_extended_mining_job` -/
def decodeNewExtendedMiningJob (p : Bytes) : Option (NewExtendedMiningJob × Bytes) := do
  let (channelId, p) ← readU32 p
  let (jobId, p) ← readU32 p
  let ((minNtimePresent, minNtime), p) ← readOptionU32 p
  let (version, p) ← readU32 p
  let (versionRollingAllowed, p) ← readBool p
  let (merklePath, p) ← readMerklePath p
  let (coinbaseTxPrefix, p) ← readB064k p
  let (coinbaseTxSuffix, p) ← readB064k p
  some (⟨channelId, jobId, minNtimePresent, minNtime, version, versionRollingAllowed, merklePath,
    coinbaseTxPrefix, coinbaseTxSuffix⟩, p)

/-- Its codec. -/
def newExtendedMiningJob : Sv2Codec where
  Msg := NewExtendedMiningJob
  Fits m := m.merklePath.length ≤ maxMerklePath ∧ m.coinbaseTxPrefix.length ≤ 65535 ∧
    m.coinbaseTxSuffix.length ≤ 65535
  need := NewExtendedMiningJob.need
  encode := encodeNewExtendedMiningJob
  decode := decodeNewExtendedMiningJob

theorem newExtendedMiningJob_exact :
    newExtendedMiningJob.toSv2Encoder.Exact NewExtendedMiningJob.fields where
  encode_need m hfits _ := if_neg (not_lt.mpr hfits.1)
  length_fields m _ := by
    simp [NewExtendedMiningJob.fields, newExtendedMiningJob, NewExtendedMiningJob.need]
    omega

/-- The fields before `version_rolling_allowed`. -/
def NewExtendedMiningJob.before (m : NewExtendedMiningJob) : List Bytes :=
  [writeU32 m.channelId, writeU32 m.jobId, writeOptionU32 m.minNtimePresent m.minNtime,
    writeU32 m.version]

/-- The fields after `version_rolling_allowed`. -/
def NewExtendedMiningJob.after (m : NewExtendedMiningJob) : List Bytes :=
  [writeMerklePath m.merklePath, writeB064k m.coinbaseTxPrefix, writeB064k m.coinbaseTxSuffix]

/-- Where the byte of `version_rolling_allowed` is. -/
def NewExtendedMiningJob.flagAt (m : NewExtendedMiningJob) : Nat :=
  4 + 4 + (1 + if m.minNtimePresent then 4 else 0) + 4

/-- A min_ntime that is absent reads as 0. -/
def NewExtendedMiningJob.read (m : NewExtendedMiningJob) : NewExtendedMiningJob :=
  { m with minNtime := if m.minNtimePresent then m.minNtime else 0 }

/-- The decoder takes any byte with the right lowest bit for `version_rolling_allowed`. -/
theorem decodeNewExtendedMiningJob_eq_some_iff {p q : Bytes} {m : NewExtendedMiningJob} :
    decodeNewExtendedMiningJob p = some (m, q) ↔
      (∃ b : UInt8, (b &&& 1 != 0) = m.versionRollingAllowed ∧
        p = m.before.flatten ++ (writeU8 b ++ (m.after.flatten ++ q))) ∧
      (m.minNtimePresent = false → m.minNtime = 0) ∧ newExtendedMiningJob.Fits m := by
  obtain ⟨channelId, jobId, present, minNtime, version, allowed, merklePath, pre, suf⟩ := m
  simp [-Bool.exists_bool, newExtendedMiningJob, decodeNewExtendedMiningJob,
    NewExtendedMiningJob.before, NewExtendedMiningJob.after, Option.bind_eq_some_iff,
    readBool_eq_some_iff]
  constructor
  · rintro ⟨b, hp, habsent, hmerkle, hpre, hsuf, hbit⟩
    exact ⟨⟨b, hbit, hp⟩, habsent, hmerkle, hpre, hsuf⟩
  · rintro ⟨⟨b, hbit, hp⟩, habsent, hmerkle, hpre, hsuf⟩
    exact ⟨b, hp, habsent, hmerkle, hpre, hsuf, hbit⟩

theorem NewExtendedMiningJob.flatten_fields (m : NewExtendedMiningJob) :
    m.fields.flatten
      = m.before.flatten ++ (writeBool m.versionRollingAllowed ++ m.after.flatten) := by
  simp [NewExtendedMiningJob.fields, NewExtendedMiningJob.before, NewExtendedMiningJob.after]

theorem NewExtendedMiningJob.length_before (m : NewExtendedMiningJob) :
    m.before.flatten.length = m.flagAt := by
  simp [NewExtendedMiningJob.before, NewExtendedMiningJob.flagAt]
  omega

theorem NewExtendedMiningJob.fields_read (m : NewExtendedMiningJob) : m.read.fields = m.fields := by
  obtain ⟨channelId, jobId, present, minNtime, version, allowed, merklePath, pre, suf⟩ := m
  cases present with
  | false => rfl
  | true => rfl

/-- The job is read back, but for a min_ntime that it does not have. -/
theorem decodeNewExtendedMiningJob_fields {m : NewExtendedMiningJob}
    (hfits : newExtendedMiningJob.Fits m) (rest : Bytes) :
    decodeNewExtendedMiningJob (m.fields.flatten ++ rest) = some (m.read, rest) := by
  refine decodeNewExtendedMiningJob_eq_some_iff.mpr
    ⟨⟨if m.versionRollingAllowed then 1 else 0, ?_, ?_⟩, ?_, hfits⟩
  · show ((if m.versionRollingAllowed then (1 : UInt8) else 0) &&& 1 != 0)
      = m.versionRollingAllowed
    cases m.versionRollingAllowed with
    | false => rfl
    | true => rfl
  · rw [← NewExtendedMiningJob.fields_read, NewExtendedMiningJob.flatten_fields,
      List.append_assoc, List.append_assoc]
    rfl
  · intro habsent
    show (if m.minNtimePresent then m.minNtime else 0) = 0
    rw [show m.minNtimePresent = false from habsent]
    rfl

/-- `sv2_write_bool` of what `sv2_read_bool` made of a byte is its lowest bit. -/
theorem writeBool_of_bit {b : UInt8} {v : Bool} (h : (b &&& 1 != 0) = v) :
    writeBool v = [b &&& 1] := by
  have hbit : b &&& 1 = 0 ∨ b &&& 1 = 1 := by
    have hand : (b &&& 1).toNat = b.toNat % 2 := by
      rw [UInt8.toNat_and]
      exact Nat.and_one_is_mod b.toNat
    rcases Nat.mod_two_eq_zero_or_one b.toNat with hzero | hone
    · exact Or.inl (UInt8.toNat_inj.mp (hand.trans hzero))
    · exact Or.inr (UInt8.toNat_inj.mp (hand.trans hone))
  rcases hbit with hb | hb <;> rw [← h, hb] <;> rfl

/-- The byte behind a prefix is changed. -/
theorem modify_append_length {α : Type} (f : α → α) (l : List α) (a : α) (r : List α) :
    (l ++ a :: r).modify l.length f = l ++ f a :: r := by
  induction l with
  | nil => rfl
  | cons b l ih => exact congrArg (b :: ·) ih

/-- What is read is written again, but for the bits of `version_rolling_allowed` that are
not looked at. -/
theorem NewExtendedMiningJob.fields_of_decode {p rest : Bytes} {m : NewExtendedMiningJob}
    (hdec : decodeNewExtendedMiningJob p = some (m, rest)) :
    ∃ consumed, p = consumed ++ rest ∧
      m.fields.flatten = consumed.modify m.flagAt (· &&& 1) := by
  obtain ⟨⟨b, hbit, hp⟩, -, -⟩ := decodeNewExtendedMiningJob_eq_some_iff.mp hdec
  refine ⟨m.before.flatten ++ (writeU8 b ++ m.after.flatten), ?_, ?_⟩
  · rw [hp, List.append_assoc, List.append_assoc]
  · have hbyte : writeU8 b = [b] := congrArg (· :: []) (UInt8.ofNat_toNat)
    rw [NewExtendedMiningJob.flatten_fields, writeBool_of_bit hbit, hbyte, ← m.length_before]
    exact (modify_append_length (· &&& 1) _ b _).symm

end Sv2

end CashStratum
