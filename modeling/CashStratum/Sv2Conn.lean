/-
CashStratum/Sv2Conn.lean

Frames over a connection (`sv2_conn.c`).  What is read from a socket is kept in a buffer of
bounded size, and the frames that have come are taken off its front.  Two ends that finished
a handshake seal frames for each other, and read what has come in pieces of any size up to
`rxReadChunk`.

The buffer never holds a whole frame between two reads (`InStep.short`), and so it has room
for the next one: no cut of the stream is refused.  What is in the buffer and on the wire is
the text of the frames that were sealed and not delivered (`InStep.stream`), from the nonce
on that the receiver has counted to.  Each step keeps this, so every run does.
-/
import CashStratum.NoiseFrame
import CashStratum.Run
import Mathlib.Data.List.Nodup
import Mathlib.Logic.Function.Basic

namespace CashStratum

open Function

/-! ### The buffer -/

/-- `SV2_RX_READ_CHUNK` -/
def rxReadChunk : Nat := 8192

/-- `SV2_RX_CAP_INITIAL` -/
def rxCapInitial : Nat := 8192

/-- `SV2_MAX_MINING_PAYLOAD` -/
def maxMiningPayload : Nat := 2 ^ 20

/-- `sv2_rx_max_for_payload` -/
def rxMaxForPayload (ptMax : Nat) : Nat := encryptedHeaderLen + ptLenToCtLen ptMax + rxReadChunk

/-- `struct sv2_conn`, without what bounds the handshakes. -/
structure Sv2Conn (κ : Type) where
  noise : NoiseSession κ
  rx : Bytes
  rxCap : Nat
  rxMax : Nat

variable {κ : Type}

/-- `sv2_conn_new` -/
def sv2ConnNew (noise : NoiseSession κ) : Sv2Conn κ :=
  ⟨noise, [], rxCapInitial, rxMaxForPayload maxMiningPayload⟩

/-- `sv2_conn_set_rx_max` -/
def sv2ConnSetRxMax (c : Sv2Conn κ) (rxMax : Nat) : Sv2Conn κ :=
  if rxMax < rxCapInitial then c
  else { c with rxMax := rxMax, rxCap := if rxMax < c.rxCap then rxMax else c.rxCap }

/-- The loop of `rx_append` that doubles the room.  No connection has a room of 0. -/
def doubleCap (want ncap : Nat) : Nat :=
  if _h : 0 < ncap ∧ ncap < want then doubleCap want (ncap * 2) else ncap
termination_by want - ncap
decreasing_by omega

/-- `rx_append` -/
def rxAppend (c : Sv2Conn κ) (data : Bytes) : Option (Sv2Conn κ) :=
  if c.rxMax < c.rx.length + data.length then none
  else if c.rxCap < c.rx.length + data.length then
    let ncap := min (doubleCap (c.rx.length + data.length) c.rxCap) c.rxMax
    if ncap < c.rx.length + data.length then none
    else some { c with rx := c.rx ++ data, rxCap := ncap }
  else some { c with rx := c.rx ++ data }

variable (A : Aead κ)

/-- The loop of `sv2_conn_feed`: as many frames as there are.  A frame takes at least a byte,
so that it turns no more often than there are bytes. -/
def decryptFrames : Nat → Sv2Conn κ → Option (List Bytes × Sv2Conn κ)
  | 0, c => some ([], c)
  | turns + 1, c =>
    if c.rx = [] then some ([], c)
    else
      match decryptFrame A c.noise c.rx with
      | .fatal => none
      | .needMore noise => some ([], { c with noise := noise })
      | .frame consumed plain noise =>
        (decryptFrames turns { c with noise := noise, rx := c.rx.drop consumed }).map fun r =>
          (plain :: r.1, r.2)

/-- The end of `sv2_conn_feed`: a buffer that has drained gives its room back. -/
def releaseRx (c : Sv2Conn κ) : Sv2Conn κ :=
  if c.rx = [] ∧ rxCapInitial < c.rxCap then { c with rxCap := rxCapInitial } else c

/-- `sv2_conn_feed`, after the handshake. -/
def sv2ConnFeed (c : Sv2Conn κ) (data : Bytes) : Option (List Bytes × Sv2Conn κ) :=
  (rxAppend c data).bind fun c =>
    (decryptFrames A c.rx.length c).map fun r => (r.1, releaseRx r.2)

/-! ### Two ends -/

/-- Two connections, what is on the wire from each to the other, the frames that each has
sealed, and those that were delivered to each. -/
structure NoisePair (κ : Type) where
  conn : Bool → Sv2Conn κ
  wire : Bool → Bytes
  sent : Bool → List Bytes
  delivered : Bool → List Bytes
  dropped : Bool → Bool

inductive PairEvent
  | send (i : Bool) (plain : Bytes)
  /-- A read of at most `len` bytes. -/
  | read (i : Bool) (len : Nat)

/-- `sv2_conn_encrypt` and `sv2_conn_feed` on one of the ends, which is dropped when it
refuses what it is fed. -/
def NoisePair.step (s : NoisePair κ) : PairEvent → NoisePair κ
  | .send i plain =>
    match encryptFrame A (s.conn i).noise plain with
    | (none, noise) => { s with conn := update s.conn i { s.conn i with noise := noise } }
    | (some ct, noise) =>
      { s with
        conn := update s.conn i { s.conn i with noise := noise }
        wire := update s.wire i (s.wire i ++ ct)
        sent := update s.sent i (s.sent i ++ [plain]) }
  | .read i len =>
    match sv2ConnFeed A (s.conn i) ((s.wire !i).take len) with
    | none => { s with dropped := update s.dropped i true }
    | some (frames, c) =>
      { s with
        conn := update s.conn i c
        wire := update s.wire (!i) ((s.wire !i).drop len)
        delivered := update s.delivered i (s.delivered i ++ frames) }

/-- The policy of the mining or of the job declaration protocol. -/
def maxFramePayload (jd : Bool) : Nat := if jd then maxJdPayload else maxMiningPayload

/-- What the connector makes of an accepted socket. -/
def acceptConn (jd : Bool) (noise : NoiseSession κ) : Sv2Conn κ :=
  if jd then sv2ConnSetRxMax (sv2ConnNew noise) (rxMaxForPayload maxJdPayload)
  else sv2ConnNew noise

/-- A session whose handshake is done. -/
def transportSession (send recv : κ) : NoiseSession κ where
  sendCs := ⟨send, 0, true, []⟩
  recvCs := ⟨recv, 0, true, []⟩
  handshakeDone := true
  hdrPending := false
  hdrPt := List.replicate frameHeaderLen 0
  pendingPtLen := 0
  pendingNeed := 0

/-- The two ends after a handshake that split into the keys `k`. -/
def afterHandshake (jd : Bool) (k : Bool → κ) : NoisePair κ where
  conn i := acceptConn jd (transportSession (k i) (k !i))
  wire _ := []
  sent _ := []
  delivered _ := []
  dropped _ := false

/-- The frames are well formed and within the policy, and a read is of the usual size. -/
def PairEvent.Allowed (jd : Bool) : PairEvent → Prop
  | .send _ plain => WellFormedFrame (maxFramePayload jd) plain
  | .read _ len => len ≤ rxReadChunk

/-! ### The stream -/

section Stream

/-- The nonces that frames take. -/
def totalNonces (fs : List Bytes) : Nat := (fs.map frameNonces).sum

/-- Frames sealed one after another, from nonce `n` on. -/
def streamCipher (k : κ) : Nat → List Bytes → Bytes
  | _, [] => []
  | n, f :: fs => frameCipher A k n f ++ streamCipher k (n + frameNonces f) fs

@[simp] theorem totalNonces_nil : totalNonces [] = 0 := rfl

@[simp] theorem totalNonces_cons (f : Bytes) (fs : List Bytes) :
    totalNonces (f :: fs) = frameNonces f + totalNonces fs := List.sum_cons

@[simp] theorem totalNonces_append (fs fs' : List Bytes) :
    totalNonces (fs ++ fs') = totalNonces fs + totalNonces fs' := by
  rw [totalNonces, List.map_append, List.sum_append]
  rfl

theorem streamCipher_append (k : κ) (n : Nat) (fs fs' : List Bytes) :
    streamCipher A k n (fs ++ fs')
      = streamCipher A k n fs ++ streamCipher A k (n + totalNonces fs) fs' := by
  induction fs generalizing n with
  | nil => rfl
  | cons f fs ih =>
    rw [List.cons_append, streamCipher, ih, streamCipher, List.append_assoc, totalNonces_cons,
      Nat.add_assoc]

theorem ptLenToCtLen_eq (ptLen : Nat) : ptLenToCtLen ptLen = ptLen + 16 * payloadChunks ptLen := by
  rw [ptLenToCtLen, payloadChunks_eq, noiseMaxPtChunk_eq, show noiseMaxCtLen = 65535 from rfl,
    show noiseMacLen = 16 from rfl]
  split_ifs <;> omega

theorem ptLenToCtLen_mono {m n : Nat} (h : m ≤ n) : ptLenToCtLen m ≤ ptLenToCtLen n := by
  rw [ptLenToCtLen_eq, ptLenToCtLen_eq, payloadChunks_eq, payloadChunks_eq]
  omega

theorem frameCipherLen_pos (f : Bytes) : 0 < frameCipherLen f :=
  Nat.lt_of_lt_of_le (by decide : 0 < encryptedHeaderLen) (Nat.le_add_right _ _)

/-- A frame within the policy and a read have room in the buffer. -/
theorem frameCipherLen_add_read_le {max : Nat} {f : Bytes} (h : WellFormedFrame max f) :
    frameCipherLen f + rxReadChunk ≤ rxMaxForPayload max := by
  rw [frameCipherLen, rxMaxForPayload]
  exact Nat.add_le_add_right (Nat.add_le_add_left (ptLenToCtLen_mono h.payload_le) _) _

end Stream

/-! ### The buffer -/

section Buffer

variable {A} {c : Sv2Conn κ} {data : Bytes}

theorem le_doubleCap (want : Nat) {ncap : Nat} (h : 0 < ncap) : want ≤ doubleCap want ncap := by
  induction hgap : want - ncap using Nat.strong_induction_on generalizing ncap with
  | _ gap ih =>
    rw [doubleCap]
    split_ifs with hless
    · exact ih (want - ncap * 2) (by omega) (by omega) rfl
    · omega

/-- Nothing is refused that the limit has room for. -/
theorem rxAppend_eq (hcap : 0 < c.rxCap) (hmax : c.rx.length + data.length ≤ c.rxMax) :
    ∃ ncap, rxAppend c data = some { c with rx := c.rx ++ data, rxCap := ncap } ∧
      0 < ncap ∧ (c.rxCap ≤ c.rxMax → ncap ≤ c.rxMax) ∧ c.rx.length + data.length ≤ ncap := by
  rw [rxAppend, if_neg (not_lt.mpr hmax)]
  by_cases hroom : c.rxCap < c.rx.length + data.length
  · have hgrown := le_doubleCap (c.rx.length + data.length) hcap
    have hle := le_min hgrown hmax
    rw [if_pos hroom]
    dsimp only
    rw [if_neg (not_lt.mpr hle)]
    exact ⟨_, rfl, by omega, fun _ => min_le_right _ _, hle⟩
  · rw [if_neg hroom]
    exact ⟨c.rxCap, rfl, hcap, id, not_lt.mp hroom⟩

@[simp] theorem releaseRx_noise (c : Sv2Conn κ) : (releaseRx c).noise = c.noise := by
  rw [releaseRx]
  split_ifs <;> rfl

@[simp] theorem releaseRx_rx (c : Sv2Conn κ) : (releaseRx c).rx = c.rx := by
  rw [releaseRx]
  split_ifs <;> rfl

@[simp] theorem releaseRx_rxMax (c : Sv2Conn κ) : (releaseRx c).rxMax = c.rxMax := by
  rw [releaseRx]
  split_ifs <;> rfl

/-- The room that is given back is not in use. -/
theorem releaseRx_rxCap (hpos : 0 < c.rxCap) (hmax : c.rxCap ≤ c.rxMax)
    (hlen : c.rx.length ≤ c.rxCap) :
    (0 < (releaseRx c).rxCap ∧ (releaseRx c).rxCap ≤ (releaseRx c).rxMax) ∧
      (releaseRx c).rx.length ≤ (releaseRx c).rxCap := by
  rw [releaseRx_rxMax, releaseRx_rx, releaseRx]
  split_ifs with hdrained
  · refine ⟨⟨(by decide : 0 < rxCapInitial), hdrained.2.le.trans hmax⟩, ?_⟩
    rw [hdrained.1]
    exact Nat.zero_le _
  · exact ⟨⟨hpos, hmax⟩, hlen⟩

end Buffer

/-! ### One direction -/

section Direction

variable {A} {k : κ} {n max : Nat} {wire : Bytes} {fs : List Bytes}

/-- Only what a session receives with matters for what it expects. -/
theorem NoiseSession.Expects.of_sendCs {s : NoiseSession κ} (h : s.Expects k n fs)
    (c : CipherState κ) : { s with sendCs := c }.Expects k n fs :=
  ⟨h.done, h.hasKey, h.key, h.count, h.pending⟩

/-- A frame more is expected behind the others. -/
theorem NoiseSession.Expects.append {s : NoiseSession κ} (h : s.Expects k n fs) (plain : Bytes) :
    s.Expects k n (fs ++ [plain]) := by
  refine ⟨h.done, h.hasKey, h.key, h.count, fun hpending => ?_⟩
  obtain ⟨f, rest, rfl, hhdr, hptLen, hneed⟩ := h.pending hpending
  exact ⟨f, rest ++ [plain], rfl, hhdr, hptLen, hneed⟩

/-- The frames of which all has come are taken off the buffer, and no others. -/
theorem decryptFrames_eq {c : Sv2Conn κ} {turns : Nat} (hturns : c.rx.length ≤ turns)
    (hexpects : c.noise.Expects k n fs) (hstream : c.rx ++ wire = streamCipher A k n fs)
    (hformed : ∀ f ∈ fs, WellFormedFrame max f)
    (hbudget : n + totalNonces fs ≤ noiseNonceWatermark) :
    ∃ out rest noise rx, fs = out ++ rest ∧
      decryptFrames A turns c = some (out, { c with noise := noise, rx := rx }) ∧
      noise.Expects k (n + totalNonces out) rest ∧ noise.sendCs = c.noise.sendCs ∧
      rx ++ wire = streamCipher A k (n + totalNonces out) rest ∧
      (∀ f ∈ rest.head?, rx.length < frameCipherLen f) ∧ rx.length ≤ c.rx.length := by
  induction fs generalizing c n turns with
  | nil =>
    have hrx : c.rx = [] := (List.append_eq_nil_iff.mp hstream).1
    refine ⟨[], [], c.noise, c.rx, rfl, ?_, hexpects, rfl, hstream, ?_, le_rfl⟩
    · cases turns with
      | zero => rfl
      | succ turns => rw [decryptFrames, if_pos hrx]
    · intro f hf
      cases hf
  | cons f fs ih =>
    have hf : WellFormedFrame max f := hformed f List.mem_cons_self
    rw [totalNonces_cons] at hbudget
    have hbudgetHead : n + frameNonces f ≤ noiseNonceWatermark := by omega
    by_cases hrx : c.rx = []
    · refine ⟨[], f :: fs, c.noise, c.rx, rfl, ?_, hexpects, rfl, hstream, ?_, le_rfl⟩
      · cases turns with
        | zero => rfl
        | succ turns => rw [decryptFrames, if_pos hrx]
      · intro f' _
        rw [hrx]
        exact frameCipherLen_pos f'
    · obtain ⟨turns, rfl⟩ : ∃ m, turns = m + 1 :=
        Nat.exists_eq_succ_of_ne_zero (by have := List.length_pos_iff.mpr hrx; omega)
      rw [decryptFrames, if_neg hrx]
      by_cases hwhole : frameCipherLen f ≤ c.rx.length
      · -- the frame goes, and the rest is the stream of the other frames
        obtain ⟨noise, hdec, hnoise, hsend⟩ :=
          decryptFrame_eq hexpects hf hbudgetHead hstream hwhole
        have hrest : c.rx.drop (frameCipherLen f) ++ wire
            = streamCipher A k (n + frameNonces f) fs := by
          rw [← List.drop_append_of_le_length hwhole, hstream, streamCipher]
          exact List.drop_left' (length_frameCipher A k n hf.header_le)
        have hfewer : (c.rx.drop (frameCipherLen f)).length ≤ turns := by
          have hpos := frameCipherLen_pos f
          rw [List.length_drop]
          omega
        obtain ⟨out, rest, noise', rx, rfl, hframes, hnoise', hsend', hrx', hshort, hle⟩ :=
          ih (c := { c with noise := noise, rx := c.rx.drop (frameCipherLen f) }) hfewer hnoise
            hrest (fun f' hf' => hformed f' (List.mem_cons_of_mem f hf')) (by omega)
        rw [Nat.add_assoc] at hnoise' hrx'
        refine ⟨f :: out, rest, noise', rx, rfl, ?_, hnoise', hsend'.trans hsend, hrx', hshort,
          ?_⟩
        · rw [hdec]
          dsimp only
          rw [hframes]
          rfl
        · refine hle.trans ?_
          rw [List.length_drop]
          exact Nat.sub_le _ _
      · obtain ⟨noise, hdec, hnoise, hsend⟩ :=
          decryptFrame_needMore hexpects hf hbudgetHead hstream (not_le.mp hwhole)
        refine ⟨[], f :: fs, noise, c.rx, rfl, ?_, hnoise, hsend, hstream, ?_, le_rfl⟩
        · rw [hdec]
        · intro f' hf'
          obtain rfl := Option.some.inj hf'
          exact not_le.mp hwhole

/-- The two ends of a direction, of which `delivered` was received, and `pending` was sealed
and is in the buffer or on the wire. -/
structure InStep (A : Aead κ) (max : Nat) (k : κ) (sender : NoiseSession κ) (receiver : Sv2Conn κ)
    (wire : Bytes) (delivered pending : List Bytes) : Prop where
  done : sender.handshakeDone = true
  hasKey : sender.sendCs.hasKey = true
  key : sender.sendCs.k = k
  count : sender.sendCs.n = totalNonces delivered + totalNonces pending
  budget : sender.sendCs.n ≤ noiseNonceWatermark
  used : sender.sendCs.used = (List.range sender.sendCs.n).map noiseNonce
  expects : receiver.noise.Expects k (totalNonces delivered) pending
  stream : receiver.rx ++ wire = streamCipher A k (totalNonces delivered) pending
  formed : ∀ f ∈ pending, WellFormedFrame max f
  short : ∀ f ∈ pending.head?, receiver.rx.length < frameCipherLen f
  rxMax : receiver.rxMax = rxMaxForPayload max
  rxCap : 0 < receiver.rxCap ∧ receiver.rxCap ≤ receiver.rxMax
  rxLen : receiver.rx.length ≤ receiver.rxCap

variable {sender : NoiseSession κ} {receiver : Sv2Conn κ} {delivered pending : List Bytes}

theorem InStep.rx_eq_nil (h : InStep A max k sender receiver wire delivered []) :
    receiver.rx = [] :=
  (List.append_eq_nil_iff.mp h.stream).1

/-- With nothing on the wire nothing is pending. -/
theorem InStep.pending_eq_nil (h : InStep A max k sender receiver [] delivered pending) :
    pending = [] := by
  cases pending with
  | nil => rfl
  | cons f rest =>
    have hstream := congrArg List.length h.stream
    rw [List.append_nil, streamCipher, List.length_append,
      length_frameCipher A k _ (h.formed f List.mem_cons_self).header_le] at hstream
    have hshort := h.short f rfl
    omega

/-- What is in the buffer and a read fit it. -/
theorem InStep.room (h : InStep A max k sender receiver wire delivered pending) {data : Bytes}
    (hdata : data.length ≤ rxReadChunk) :
    receiver.rx.length + data.length ≤ receiver.rxMax := by
  rw [h.rxMax]
  cases pending with
  | nil =>
    rw [h.rx_eq_nil]
    exact (Nat.add_le_add (Nat.zero_le _) hdata).trans (Nat.add_le_add_right (Nat.zero_le _) _)
  | cons f rest =>
    have hshort := h.short f rfl
    have hroom := frameCipherLen_add_read_le (h.formed f List.mem_cons_self)
    omega

/-- A frame is sealed behind the others, or refused for want of nonces. -/
theorem InStep.send (h : InStep A max k sender receiver wire delivered pending) {plain : Bytes}
    (hplain : WellFormedFrame max plain)
    (hbudget : sender.sendCs.n + frameNonces plain ≤ noiseNonceWatermark) :
    ∃ ct c, encryptFrame A sender plain = (some ct, { sender with sendCs := c }) ∧
      InStep A max k { sender with sendCs := c } receiver (wire ++ ct) delivered
        (pending ++ [plain]) := by
  refine ⟨_, _, encryptFrame_eq h.done h.hasKey hplain hbudget, ?_⟩
  exact
    { done := h.done
      hasKey := h.hasKey
      key := h.key
      count := by
        show sender.sendCs.n + frameNonces plain = _
        rw [h.count, totalNonces_append, totalNonces_cons, totalNonces_nil, Nat.add_zero,
          Nat.add_assoc]
      budget := hbudget
      used := by
        show sender.sendCs.used ++ _ = (List.range (sender.sendCs.n + frameNonces plain)).map _
        rw [h.used, List.range_eq_range', List.range_eq_range', ← List.range'_append_1,
          List.map_append, Nat.zero_add]
      expects := h.expects.append plain
      stream := by
        rw [← List.append_assoc, h.stream, streamCipher_append, h.key, h.count]
        simp [streamCipher]
      formed := by
        intro f hf
        rcases List.mem_append.mp hf with hold | hnew
        · exact h.formed f hold
        · exact List.mem_singleton.mp hnew ▸ hplain
      short := by
        cases pending with
        | nil =>
          intro f _
          rw [h.rx_eq_nil]
          exact frameCipherLen_pos f
        | cons f rest => exact h.short
      rxMax := h.rxMax
      rxCap := h.rxCap
      rxLen := h.rxLen }

/-- What is read is taken, and the frames of which all has come are delivered. -/
theorem InStep.read {data : Bytes}
    (h : InStep A max k sender receiver (data ++ wire) delivered pending)
    (hdata : data.length ≤ rxReadChunk) :
    ∃ out rest c, pending = out ++ rest ∧ sv2ConnFeed A receiver data = some (out, c) ∧
      c.noise.sendCs = receiver.noise.sendCs ∧
      InStep A max k sender c wire (delivered ++ out) rest := by
  obtain ⟨ncap, happend, hpos, hmax, hlen⟩ := rxAppend_eq h.rxCap.1 (h.room hdata)
  have hbudget : totalNonces delivered + totalNonces pending ≤ noiseNonceWatermark :=
    h.count ▸ h.budget
  obtain ⟨out, rest, noise, rx, rfl, hframes, hnoise, hsend, hstream, hshort, hle⟩ :=
    decryptFrames_eq (c := { receiver with rx := receiver.rx ++ data, rxCap := ncap }) le_rfl
      h.expects ((List.append_assoc _ _ _).trans h.stream) h.formed hbudget
  refine ⟨out, rest, releaseRx { receiver with noise := noise, rx := rx, rxCap := ncap }, rfl, ?_,
    ?_, ?_⟩
  · rw [sv2ConnFeed, happend, Option.bind_some, hframes]
    rfl
  · rw [releaseRx_noise]
    exact hsend
  · have hroom : rx.length ≤ ncap := by
      refine hle.trans ?_
      rw [List.length_append]
      exact hlen
    have hcap := releaseRx_rxCap (c := { receiver with noise := noise, rx := rx, rxCap := ncap })
      hpos (hmax h.rxCap.2) hroom
    exact
      { done := h.done
        hasKey := h.hasKey
        key := h.key
        count := by rw [h.count, totalNonces_append, totalNonces_append, Nat.add_assoc]
        budget := h.budget
        used := h.used
        expects := by rwa [releaseRx_noise, totalNonces_append]
        stream := by rwa [releaseRx_rx, totalNonces_append]
        formed := fun f hf => h.formed f (List.mem_append_right out hf)
        short := by rwa [releaseRx_rx]
        rxMax := (releaseRx_rxMax _).trans h.rxMax
        rxCap := hcap.1
        rxLen := hcap.2 }

end Direction

/-! ### Both directions -/

section Pair

variable {A} {jd : Bool} {k : Bool → κ} {s : NoisePair κ}

/-- Both directions are in step, and no end was dropped. -/
structure NoisePair.Inv (A : Aead κ) (jd : Bool) (k : Bool → κ) (s : NoisePair κ) : Prop where
  inStep : ∀ i, ∃ pending, s.sent i = s.delivered (!i) ++ pending ∧
    InStep A (maxFramePayload jd) (k i) (s.conn i).noise (s.conn !i) (s.wire i) (s.delivered !i)
      pending
  alive : ∀ i, s.dropped i = false

theorem acceptConn_eq (jd : Bool) (noise : NoiseSession κ) :
    acceptConn jd noise = ⟨noise, [], rxCapInitial, rxMaxForPayload (maxFramePayload jd)⟩ := by
  cases jd with
  | false => rfl
  | true => rfl

theorem afterHandshake_inv (A : Aead κ) (jd : Bool) (k : Bool → κ) :
    (afterHandshake jd k).Inv A jd k := by
  refine ⟨fun i => ⟨[], rfl, ?_⟩, fun _ => rfl⟩
  have hconn : ∀ j, (afterHandshake jd k).conn j
      = ⟨transportSession (k j) (k !j), [], rxCapInitial, rxMaxForPayload (maxFramePayload jd)⟩ :=
    fun j => acceptConn_eq jd _
  rw [hconn, hconn, Bool.not_not]
  exact
    { done := rfl
      hasKey := rfl
      key := rfl
      count := rfl
      budget := Nat.zero_le _
      used := rfl
      expects := ⟨rfl, rfl, rfl, rfl, fun hno => by cases hno⟩
      stream := rfl
      formed := fun f hf => absurd hf List.not_mem_nil
      short := fun f hf => by cases hf
      rxMax := rfl
      rxCap := ⟨(by decide : 0 < rxCapInitial),
        (by decide : rxCapInitial ≤ rxReadChunk).trans (Nat.le_add_left _ _)⟩
      rxLen := Nat.zero_le _ }

/-- What an end does to what it sends with leaves what it receives alone. -/
theorem InStep.of_receiver {max : Nat} {key : κ} {sender : NoiseSession κ} {receiver : Sv2Conn κ}
    {wire : Bytes} {delivered pending : List Bytes}
    (h : InStep A max key sender receiver wire delivered pending) (c : CipherState κ) :
    InStep A max key sender { receiver with noise := { receiver.noise with sendCs := c } } wire
      delivered pending :=
  { h with expects := h.expects.of_sendCs c }

/-- What an end receives leaves what it sends with alone. -/
theorem InStep.of_sender {max : Nat} {key : κ} {sender sender' : NoiseSession κ}
    {receiver : Sv2Conn κ} {wire : Bytes} {delivered pending : List Bytes}
    (h : InStep A max key sender receiver wire delivered pending)
    (hdone : sender'.handshakeDone = true) (hsend : sender'.sendCs = sender.sendCs) :
    InStep A max key sender' receiver wire delivered pending :=
  { h with
    done := hdone
    hasKey := hsend ▸ h.hasKey
    key := hsend ▸ h.key
    count := hsend ▸ h.count
    budget := hsend ▸ h.budget
    used := hsend ▸ h.used }

theorem NoisePair.Inv.send (h : s.Inv A jd k) {plain : Bytes}
    (hplain : WellFormedFrame (maxFramePayload jd) plain) (i : Bool) :
    (s.step A (.send i plain)).Inv A jd k := by
  obtain ⟨pending, hsent, hstep⟩ := h.inStep i
  obtain ⟨pending', hsent', hstep'⟩ := h.inStep (!i)
  rw [Bool.not_not] at hsent' hstep'
  by_cases hbudget : (s.conn i).noise.sendCs.n + frameNonces plain ≤ noiseNonceWatermark
  · obtain ⟨ct, c, henc, hnext⟩ := hstep.send hplain hbudget
    rw [NoisePair.step, henc]
    refine ⟨fun j => ?_, h.alive⟩
    rcases Bool.eq_or_eq_not j i with rfl | rfl
    · refine ⟨pending ++ [plain], ?_, ?_⟩
      · simp [hsent]
      · simpa using hnext
    · refine ⟨pending', ?_, ?_⟩
      · simpa using hsent'
      · simpa using hstep'.of_receiver c
  · rw [NoisePair.step, encryptFrame_refused hplain hbudget]
    dsimp only
    rw [update_eq_self]
    exact h

theorem NoisePair.Inv.read (h : s.Inv A jd k) {len : Nat} (hlen : len ≤ rxReadChunk) (i : Bool) :
    (s.step A (.read i len)).Inv A jd k := by
  obtain ⟨pending, hsent, hstep⟩ := h.inStep (!i)
  obtain ⟨pending', hsent', hstep'⟩ := h.inStep i
  rw [Bool.not_not] at hsent hstep
  rw [← List.take_append_drop len (s.wire !i)] at hstep
  obtain ⟨out, rest, c, rfl, hfeed, hsend, hnext⟩ :=
    hstep.read ((List.length_take_le _ _).trans hlen)
  rw [NoisePair.step, hfeed]
  refine ⟨fun j => ?_, h.alive⟩
  rcases Bool.eq_or_eq_not j i with rfl | rfl
  · refine ⟨pending', ?_, ?_⟩
    · simpa using hsent'
    · simpa using hstep'.of_sender hnext.expects.done hsend
  · refine ⟨rest, ?_, ?_⟩
    · simp [hsent]
    · simpa using hnext

theorem NoisePair.Inv.run {events : List PairEvent} (hallowed : ∀ e ∈ events, e.Allowed jd)
    (h : s.Inv A jd k) : (run (NoisePair.step A) s events).Inv A jd k := by
  refine run_invariant_of (fun s e he hinv => ?_) hallowed h
  cases e with
  | send i plain => exact hinv.send he i
  | read i len => exact hinv.read he i

end Pair

/-! ### Every run -/

section Run

variable {A : Aead κ} {jd : Bool} {k : Bool → κ}

theorem noiseNonce_inj {m n : Nat} (hm : m < 2 ^ 64) (hn : n < 2 ^ 64)
    (h : noiseNonce m = noiseNonce n) : m = n :=
  leBytes_injOn (w := 8) hm hn (List.append_cancel_left h)

/-- The nonces that a cipher state counts through are different. -/
theorem nodup_used {n : Nat} (hn : n ≤ noiseNonceWatermark) :
    ((List.range n).map noiseNonce).Nodup := by
  refine List.Nodup.map_on (fun i hi j hj heq => ?_) List.nodup_range
  have hmark := noiseNonceWatermark_lt
  have hi := List.mem_range.mp hi
  have hj := List.mem_range.mp hj
  exact noiseNonce_inj (by omega) (by omega) heq

/-- The keys and the nonces that the two ends have sealed with. -/
def NoisePair.uses (k : Bool → κ) (s : NoisePair κ) : List (κ × Bytes) :=
  (s.conn false).noise.sendCs.used.map (Prod.mk (k false)) ++
    (s.conn true).noise.sendCs.used.map (Prod.mk (k true))

theorem NoisePair.Inv.nodup_uses {s : NoisePair κ} (h : s.Inv A jd k) (hk : k false ≠ k true) :
    (s.uses k).Nodup := by
  have hside : ∀ i, ((s.conn i).noise.sendCs.used.map (Prod.mk (k i))).Nodup := by
    intro i
    obtain ⟨pending, -, hstep⟩ := h.inStep i
    rw [hstep.used]
    exact (nodup_used hstep.budget).map fun _ _ heq => (Prod.mk.inj heq).2
  refine List.nodup_append.mpr ⟨hside false, hside true, ?_⟩
  intro a ha b hb heq
  obtain ⟨x, -, rfl⟩ := List.mem_map.mp ha
  obtain ⟨y, -, rfl⟩ := List.mem_map.mp hb
  exact hk (Prod.mk.inj heq).1

/-- Whatever the two ends send, and however the stream is cut into reads: no end is dropped,
what was delivered are the first of the frames that were sent, and all of them once nothing is
on the wire.  The receiver has counted the nonces of the frames that it has opened, and no
nonce is used twice.  A frame is refused only at the watermark, and then no nonce is counted. -/
theorem frames_delivered_exactly (A : Aead κ) (jd : Bool) (k : Bool → κ)
    (events : List PairEvent) (hallowed : ∀ e ∈ events, e.Allowed jd) (i : Bool) :
    let s := run (NoisePair.step A) (afterHandshake jd k) events
    let sender := (s.conn i).noise
    let receiver := (s.conn !i).noise
    s.dropped i = false ∧
    (∃ pending, s.sent i = s.delivered (!i) ++ pending ∧
      sender.sendCs.n + (if receiver.hdrPending then 1 else 0)
        = receiver.recvCs.n + totalNonces pending) ∧
    (s.wire i = [] → s.delivered (!i) = s.sent i ∧ receiver.recvCs.n = sender.sendCs.n) ∧
    sender.sendCs.used.Nodup ∧ (k false ≠ k true → (s.uses k).Nodup) ∧
    ∀ plain, WellFormedFrame (maxFramePayload jd) plain →
      (sender.sendCs.n + frameNonces plain ≤ noiseNonceWatermark →
        (encryptFrame A sender plain).1.isSome) ∧
      (noiseNonceWatermark < sender.sendCs.n + frameNonces plain →
        encryptFrame A sender plain = (none, sender)) := by
  intro s sender receiver
  have hinv : s.Inv A jd k := (afterHandshake_inv A jd k).run hallowed
  obtain ⟨pending, hsent, hstep⟩ := hinv.inStep i
  have hcount := hstep.expects.count
  refine ⟨hinv.alive i, ⟨pending, hsent, ?_⟩, ?_, ?_, hinv.nodup_uses, ?_⟩
  · show (s.conn i).noise.sendCs.n + (if (s.conn !i).noise.hdrPending then 1 else 0)
      = (s.conn !i).noise.recvCs.n + totalNonces pending
    rw [hstep.count, hcount]
    omega
  · intro hwire
    rw [hwire] at hstep
    have hpending := hstep.pending_eq_nil
    refine ⟨by rw [hsent, hpending, List.append_nil], ?_⟩
    have hnone : (s.conn !i).noise.hdrPending = false := by
      refine Bool.eq_false_iff.mpr fun hheader => ?_
      obtain ⟨f, rest, heq, -⟩ := hstep.expects.pending hheader
      rw [hpending] at heq
      cases heq
    show (s.conn !i).noise.recvCs.n = (s.conn i).noise.sendCs.n
    rw [hcount, hstep.count, hpending, hnone]
    rfl
  · show (s.conn i).noise.sendCs.used.Nodup
    rw [hstep.used]
    exact nodup_used hstep.budget
  · intro plain hplain
    constructor
    · intro hbudget
      obtain ⟨ct, c, henc, -⟩ := hstep.send hplain hbudget
      exact congrArg (fun r => r.1.isSome) henc
    · intro hmark
      exact encryptFrame_refused hplain (not_le.mpr hmark)

/-- A cipher that shows its key and its nonce. -/
def plainAead : Aead Bool where
  encrypt k nonce _ pt := ([if k then 1 else 0] ++ nonce ++ List.replicate 15 0).take 16 ++ pt
  decrypt k nonce _ ct :=
    if ct.take 16 = ([if k then 1 else 0] ++ nonce ++ List.replicate 15 0).take 16 then
      some (ct.drop 16)
    else none
  length_encrypt k nonce ad pt := by
    simp [noiseMacLen]
    omega
  decrypt_encrypt k nonce ad pt := by
    have hlen : (([if k then 1 else 0] ++ nonce ++ List.replicate 15 0).take 16 : Bytes).length
        = 16 := by
      simp
    rw [List.take_left' hlen, if_pos rfl, List.drop_left' hlen]

/-- A frame is cut inside its header and inside its payload, with another behind it. -/
theorem cut_frames_delivered :
    let events := [PairEvent.send false [0, 0, 0x1b, 2, 0, 0, 7, 9], .send false [0, 0, 4, 0, 0, 0],
      .read true 10, .read true 30, .send true [0, 0, 0x1c, 1, 0, 0, 5], .read true 100]
    (∀ e ∈ events, e.Allowed false) ∧
    (run (NoisePair.step plainAead) (afterHandshake false id) events).delivered true
      = [[0, 0, 0x1b, 2, 0, 0, 7, 9], [0, 0, 4, 0, 0, 0]] := by
  intro events
  have hallowed : ∀ e ∈ events, e.Allowed false := by
    simp only [events, List.forall_mem_cons]
    refine ⟨⟨_, rfl, rfl, by decide⟩, ⟨_, rfl, rfl, by decide⟩, ?_, ?_, ⟨_, rfl, rfl, by decide⟩,
      ?_, fun e he => absurd he List.not_mem_nil⟩
    · exact (by decide : 10 ≤ rxReadChunk)
    · exact (by decide : 30 ≤ rxReadChunk)
    · exact (by decide : 100 ≤ rxReadChunk)
  refine ⟨hallowed, ?_⟩
  have hall := frames_delivered_exactly plainAead false id events hallowed false
  exact (hall.2.2.1 (by decide +kernel)).1.trans (by decide +kernel)

end Run

end CashStratum
