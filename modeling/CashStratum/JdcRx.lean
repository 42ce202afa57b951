/-
CashStratum/JdcRx.lean

What the job declaration client reads (`sv2_jdc.c`).  It keeps its stream in a buffer as a
connection does, under the limit that the other end has for the same policy.  But where
`rx_append` stops doubling at the limit, `sess_rx_append` gives up when the next double is over
it: the room is `rxCapInitial` doubled at most ten times (`JdcSess.Room`), and what does not fit
that is refused, though the limit has room for it.

So a read is refused exactly when it brings the buffer over `2 ^ 23` bytes
(`sessRxAppend_cases`), and a frame that is longer than this when it is sealed is never
delivered (`JdcLink.Inv.short`), however its stream is cut into reads.
-/
import CashStratum.Sv2Conn
import CashStratum.Sv2Messages

namespace CashStratum

variable {κ : Type}

/-- What `sess` keeps of its stream. -/
structure JdcSess (κ : Type) where
  noise : NoiseSession κ
  rx : Bytes
  rxCap : Nat

/-- `sess_rx_append` -/
def sessRxAppend (sess : JdcSess κ) (data : Bytes) : Option (JdcSess κ) :=
  if sess.rxCap < sess.rx.length + data.length then
    let ncap := doubleCap (sess.rx.length + data.length)
      (if sess.rxCap = 0 then rxCapInitial else sess.rxCap)
    -- no clamp: a double that is over the limit is given up
    if rxMaxForPayload maxJdPayload < ncap then none
    else some { sess with rx := sess.rx ++ data, rxCap := ncap }
  else some { sess with rx := sess.rx ++ data }

/-- What `sess_rx_next` returns. -/
inductive RxNext (κ : Type)
  | frame (plain : Bytes) (sess : JdcSess κ)
  | needMore (sess : JdcSess κ)
  | fatal

/-- The end of `sess_rx_next`: a buffer that has drained gives its room back. -/
def releaseSessRx (sess : JdcSess κ) : JdcSess κ :=
  if sess.rx = [] ∧ rxCapInitial < sess.rxCap then { sess with rxCap := rxCapInitial } else sess

variable (A : Aead κ)

/-- `sess_rx_next` -/
def sessRxNext (sess : JdcSess κ) : RxNext κ :=
  match decryptFrame A sess.noise sess.rx with
  | .frame consumed plain noise =>
    .frame plain (releaseSessRx { sess with noise := noise, rx := sess.rx.drop consumed })
  | .needMore noise => .needMore { sess with noise := noise }
  | .fatal => .fatal

/-- The loop of `sess_service`.  A frame takes at least a byte, so that it turns once more than
there are bytes at most. -/
def sessDrain : Nat → JdcSess κ → List Bytes × Option (JdcSess κ)
  | 0, sess => ([], some sess)
  | turns + 1, sess =>
    match sessRxNext A sess with
    | .fatal => ([], none)
    | .needMore sess => ([], some sess)
    | .frame plain sess =>
      let r := sessDrain turns sess
      (plain :: r.1, r.2)

/-! ### A session -/

inductive JdcPhase
  /-- In `sess_setup`, which reads one frame after the other. -/
  | setup
  | up
  /-- `sess_rx_append` has failed. -/
  | refused
  /-- A frame did not open. -/
  | fatal
  /-- The other end has not agreed to the session. -/
  | declined
deriving DecidableEq

/-- What `sess_setup` makes of a frame. -/
def setupPhase (plain : Bytes) : JdcPhase :=
  match decodeHeader plain with
  | none => .declined
  | some fr =>
    if fr.msgType = 0x01 then
      match Sv2.decodeSetupConnectionSuccess ((plain.drop frameHeaderLen).take fr.msgLength) with
      | none => .declined
      | some (ok, _) => if ok.usedVersion = 2 then .up else .declined
    else if fr.msgType = 0x02 then .declined
    else .setup

/-- A client's session, the end it talks to, and what is on the wire from there. -/
structure JdcLink (κ : Type) where
  jds : NoiseSession κ
  wire : Bytes
  sent : List Bytes
  sess : JdcSess κ
  phase : JdcPhase
  delivered : List Bytes

/-- A read of at most `len` bytes, and `sess_rx_append`. -/
def JdcLink.append (s : JdcLink κ) (len : Nat) : JdcLink κ :=
  match sessRxAppend s.sess (s.wire.take len) with
  | none => { s with phase := .refused }
  | some sess => { s with sess := sess, wire := s.wire.drop len }

/-- A turn of `sess_readframe`, as `sess_setup` calls it. -/
def JdcLink.readframe (s : JdcLink κ) (len : Nat) : JdcLink κ :=
  match sessRxNext A s.sess with
  | .fatal => { s with phase := .fatal }
  | .frame plain sess =>
    { s with sess := sess, delivered := s.delivered ++ [plain], phase := setupPhase plain }
  | .needMore sess => { s with sess := sess }.append len

/-- The loop of `sess_service`, once what was read is in the buffer. -/
def JdcLink.drain (s : JdcLink κ) : JdcLink κ :=
  if s.phase = .refused then s
  else
    match sessDrain A (s.sess.rx.length + 1) s.sess with
    | (frames, none) => { s with delivered := s.delivered ++ frames, phase := .fatal }
    | (frames, some sess) => { s with sess := sess, delivered := s.delivered ++ frames }

inductive JdcLinkEvent
  | send (plain : Bytes)
  /-- The session's turn, of which a read takes at most `len` bytes. -/
  | recv (len : Nat)

/-- `sess_service` is called when there is something to read. -/
def JdcLink.step (s : JdcLink κ) : JdcLinkEvent → JdcLink κ
  | .send plain =>
    match encryptFrame A s.jds plain with
    | (none, noise) => { s with jds := noise }
    | (some ct, noise) => { s with jds := noise, wire := s.wire ++ ct, sent := s.sent ++ [plain] }
  | .recv len =>
    match s.phase with
    | .setup => s.readframe A len
    | .up => if s.wire.take len = [] then s else (s.append len).drain A
    | _ => s

/-- The two ends after a handshake: the one seals with `k`, the other opens with it. -/
def JdcLink.connected (k k' : κ) : JdcLink κ where
  jds := transportSession k k'
  wire := []
  sent := []
  sess := ⟨transportSession k' k, [], 0⟩
  phase := .setup
  delivered := []

/-- The frames are well formed and within the policy, and a read is of the usual size. -/
def JdcLinkEvent.Allowed : JdcLinkEvent → Prop
  | .send plain => WellFormedFrame maxJdPayload plain
  | .recv len => len ≤ rxReadChunk

/-- Whether a turn of the session comes to `sess_rx_append`. -/
def JdcLink.Appends (s : JdcLink κ) : Prop :=
  s.phase = .up ∨ s.phase = .setup ∧ ∃ sess, sessRxNext A s.sess = .needMore sess

/-- What is in the buffer and what is read are `2 ^ 23` bytes at most. -/
def JdcLink.Fits (s : JdcLink κ) : JdcLinkEvent → Prop
  | .send _ => True
  | .recv len => s.Appends A → s.sess.rx.length + (s.wire.take len).length ≤ 2 ^ 23

/-! ### The room -/

section Room

/-- Doubling a room stops at the first that is wanted. -/
theorem doubleCap_pow (want j : Nat) {c : Nat} (hc : 0 < c) :
    ∃ i, doubleCap want (c * 2 ^ j) = c * 2 ^ i ∧ want ≤ c * 2 ^ i ∧
      ∀ b, j ≤ b → want ≤ c * 2 ^ b → i ≤ b := by
  induction hgap : want - c * 2 ^ j using Nat.strong_induction_on generalizing j with
  | _ gap ih =>
    have hpos : 0 < c * 2 ^ j := Nat.mul_pos hc (Nat.two_pow_pos j)
    by_cases hless : c * 2 ^ j < want
    · have hnext : c * 2 ^ j * 2 = c * 2 ^ (j + 1) := by rw [Nat.pow_succ, Nat.mul_assoc]
      obtain ⟨i, heq, hwant, hleast⟩ := ih (want - c * 2 ^ (j + 1)) (by omega) (j + 1) rfl
      refine ⟨i, ?_, hwant, fun b hjb hb => hleast b ?_ hb⟩
      · rw [doubleCap, dif_pos ⟨hpos, hless⟩, hnext, heq]
      · rcases hjb.lt_or_eq with hlt | rfl
        · exact hlt
        · omega
    · refine ⟨j, ?_, by omega, fun b hjb _ => hjb⟩
      rw [doubleCap, dif_neg (fun h => hless h.2)]

theorem rxMaxForPayload_jd : rxMaxForPayload maxJdPayload = 8398886 := by decide

/-- A buffer that has never held anything, or one that was doubled at most ten times. -/
structure JdcSess.Room (sess : JdcSess κ) : Prop where
  cap : sess.rxCap = 0 ∨ ∃ j ≤ 10, sess.rxCap = rxCapInitial * 2 ^ j
  fits : sess.rx.length ≤ sess.rxCap

theorem JdcSess.Room.le {sess : JdcSess κ} (h : sess.Room) : sess.rx.length ≤ 2 ^ 23 := by
  refine h.fits.trans ?_
  rcases h.cap with hzero | ⟨j, hj, hcap⟩
  · rw [hzero]
    exact Nat.zero_le _
  · rw [hcap]
    exact Nat.mul_le_mul_left rxCapInitial (Nat.pow_le_pow_right (by decide) hj)

/-- What is refused, and what is not. -/
theorem sessRxAppend_cases {sess : JdcSess κ} (h : sess.Room) (data : Bytes) :
    (2 ^ 23 < sess.rx.length + data.length ∧ sessRxAppend sess data = none) ∨
    (sess.rx.length + data.length ≤ 2 ^ 23 ∧
      ∃ ncap, sessRxAppend sess data = some { sess with rx := sess.rx ++ data, rxCap := ncap } ∧
        JdcSess.Room { sess with rx := sess.rx ++ data, rxCap := ncap }) := by
  have hle := h.le
  by_cases hgrow : sess.rxCap < sess.rx.length + data.length
  · obtain ⟨j, hj, hstart⟩ : ∃ j ≤ 10,
        (if sess.rxCap = 0 then rxCapInitial else sess.rxCap) = rxCapInitial * 2 ^ j := by
      rcases h.cap with hzero | ⟨j, hj, hcap⟩
      · exact ⟨0, Nat.zero_le _, by rw [if_pos hzero, Nat.pow_zero, Nat.mul_one]⟩
      · refine ⟨j, hj, ?_⟩
        rw [if_neg, hcap]
        rw [hcap]
        exact (Nat.mul_pos (by decide : 0 < rxCapInitial) (Nat.two_pow_pos j)).ne'
    obtain ⟨i, hdouble, hwant, hleast⟩ := doubleCap_pow (sess.rx.length + data.length) j
      (by decide : 0 < rxCapInitial)
    rw [sessRxAppend, if_pos hgrow, hstart, hdouble]
    dsimp only
    rw [rxMaxForPayload_jd]
    by_cases hfits : sess.rx.length + data.length ≤ 2 ^ 23
    · have hi : i ≤ 10 := hleast 10 hj hfits
      have hcap : rxCapInitial * 2 ^ i ≤ rxCapInitial * 2 ^ 10 :=
        Nat.mul_le_mul_left rxCapInitial (Nat.pow_le_pow_right (by decide) hi)
      have hmax : ¬ 8398886 < rxCapInitial * 2 ^ i :=
        not_lt.mpr (hcap.trans (by decide : rxCapInitial * 2 ^ 10 ≤ 8398886))
      rw [if_neg hmax]
      refine Or.inr ⟨hfits, _, rfl, Or.inr ⟨i, hi, rfl⟩, ?_⟩
      rw [List.length_append]
      exact hwant
    · have hi : 11 ≤ i := by
        by_contra hno
        have hcap : rxCapInitial * 2 ^ i ≤ rxCapInitial * 2 ^ 10 :=
          Nat.mul_le_mul_left rxCapInitial (Nat.pow_le_pow_right (by decide) (by omega))
        exact hfits (hwant.trans hcap)
      have hcap : rxCapInitial * 2 ^ 11 ≤ rxCapInitial * 2 ^ i :=
        Nat.mul_le_mul_left rxCapInitial (Nat.pow_le_pow_right (by decide) hi)
      rw [if_pos ((by decide : 8398886 < rxCapInitial * 2 ^ 11).trans_le hcap)]
      exact Or.inl ⟨not_le.mp hfits, rfl⟩
  · have hroom : JdcSess.Room { sess with rx := sess.rx ++ data } := by
      refine ⟨h.cap, ?_⟩
      rw [List.length_append]
      exact not_lt.mp hgrow
    rw [sessRxAppend, if_neg hgrow]
    refine Or.inr ⟨?_, sess.rxCap, rfl, hroom⟩
    have hnow := hroom.le
    rwa [List.length_append] at hnow

@[simp] theorem releaseSessRx_noise (sess : JdcSess κ) :
    (releaseSessRx sess).noise = sess.noise := by
  rw [releaseSessRx]
  split_ifs <;> rfl

@[simp] theorem releaseSessRx_rx (sess : JdcSess κ) : (releaseSessRx sess).rx = sess.rx := by
  rw [releaseSessRx]
  split_ifs <;> rfl

theorem JdcSess.Room.release {sess : JdcSess κ} (h : sess.Room) : (releaseSessRx sess).Room := by
  rw [releaseSessRx]
  split_ifs with hdrained
  · refine ⟨Or.inr ⟨0, Nat.zero_le _, rfl⟩, ?_⟩
    show sess.rx.length ≤ rxCapInitial
    rw [hdrained.1]
    exact Nat.zero_le _
  · exact h

end Room

/-! ### The stream -/

section Stream

variable {A} {k : κ} {jds : NoiseSession κ} {sess : JdcSess κ} {wire : Bytes}
  {delivered pending : List Bytes}

/-- The two ends, of which `delivered` was opened, and `pending` was sealed and is in the buffer
or on the wire. -/
structure JdcInStep (A : Aead κ) (k : κ) (jds : NoiseSession κ) (sess : JdcSess κ) (wire : Bytes)
    (delivered pending : List Bytes) : Prop where
  done : jds.handshakeDone = true
  hasKey : jds.sendCs.hasKey = true
  key : jds.sendCs.k = k
  count : jds.sendCs.n = totalNonces delivered + totalNonces pending
  budget : jds.sendCs.n ≤ noiseNonceWatermark
  expects : sess.noise.Expects k (totalNonces delivered) pending
  stream : sess.rx ++ wire = streamCipher A k (totalNonces delivered) pending
  formed : ∀ f ∈ pending, WellFormedFrame maxJdPayload f
  room : sess.Room
  short : ∀ f ∈ delivered, frameCipherLen f ≤ 2 ^ 23

theorem JdcInStep.rx_eq_nil (h : JdcInStep A k jds sess wire delivered []) : sess.rx = [] :=
  (List.append_eq_nil_iff.mp h.stream).1

/-- A frame is sealed behind the others, or refused for want of nonces. -/
theorem JdcInStep.send (h : JdcInStep A k jds sess wire delivered pending) {plain : Bytes}
    (hplain : WellFormedFrame maxJdPayload plain)
    (hbudget : jds.sendCs.n + frameNonces plain ≤ noiseNonceWatermark) :
    ∃ ct c, encryptFrame A jds plain = (some ct, { jds with sendCs := c }) ∧
      JdcInStep A k { jds with sendCs := c } sess (wire ++ ct) delivered (pending ++ [plain]) := by
  refine ⟨_, _, encryptFrame_eq h.done h.hasKey hplain hbudget, ?_⟩
  exact
    { done := h.done
      hasKey := h.hasKey
      key := h.key
      count := by
        show jds.sendCs.n + frameNonces plain = _
        rw [h.count, totalNonces_append, totalNonces_cons, totalNonces_nil, Nat.add_zero,
          Nat.add_assoc]
      budget := hbudget
      expects := h.expects.append plain
      stream := by
        rw [← List.append_assoc, h.stream, streamCipher_append, h.key, h.count]
        simp [streamCipher]
      formed := by
        intro f hf
        rcases List.mem_append.mp hf with hold | hnew
        · exact h.formed f hold
        · exact List.mem_singleton.mp hnew ▸ hplain
      room := h.room
      short := h.short }

/-- What is read goes from the wire into the buffer. -/
theorem JdcInStep.append {data : Bytes}
    (h : JdcInStep A k jds sess (data ++ wire) delivered pending) {ncap : Nat}
    (hroom : JdcSess.Room { sess with rx := sess.rx ++ data, rxCap := ncap }) :
    JdcInStep A k jds { sess with rx := sess.rx ++ data, rxCap := ncap } wire delivered pending :=
  { h with
    expects := h.expects
    stream := (List.append_assoc _ _ _).trans h.stream
    room := hroom }

/-- The frame at the front of the buffer is opened once all of it has come. -/
theorem JdcInStep.next (h : JdcInStep A k jds sess wire delivered pending) :
    (∃ f rest sess', pending = f :: rest ∧ sessRxNext A sess = .frame f sess' ∧
      sess'.rx.length + frameCipherLen f = sess.rx.length ∧
      JdcInStep A k jds sess' wire (delivered ++ [f]) rest) ∨
    (∃ noise, sessRxNext A sess = .needMore { sess with noise := noise } ∧
      (∀ f ∈ pending.head?, sess.rx.length < frameCipherLen f) ∧
      JdcInStep A k jds { sess with noise := noise } wire delivered pending) := by
  have hbudget : totalNonces delivered + totalNonces pending ≤ noiseNonceWatermark :=
    h.count ▸ h.budget
  cases pending with
  | nil =>
    -- nothing has come, and nothing is awaited
    have hpending : sess.noise.hdrPending = false := by
      refine Bool.eq_false_iff.mpr fun hheader => ?_
      obtain ⟨f, rest, heq, -⟩ := h.expects.pending hheader
      cases heq
    have hdec : decryptFrame A sess.noise sess.rx = .needMore sess.noise := by
      rw [decryptFrame, h.rx_eq_nil, h.expects.done, hpending]
      rfl
    refine Or.inr ⟨sess.noise, ?_, fun f hf => (by cases hf), h⟩
    rw [sessRxNext, hdec]
  | cons f rest =>
    have hf : WellFormedFrame maxJdPayload f := h.formed f List.mem_cons_self
    rw [totalNonces_cons] at hbudget
    have hhead : totalNonces delivered + frameNonces f ≤ noiseNonceWatermark := by omega
    by_cases hwhole : frameCipherLen f ≤ sess.rx.length
    · obtain ⟨noise, hdec, hnoise, -⟩ := decryptFrame_eq h.expects hf hhead h.stream hwhole
      have hcount : totalNonces (delivered ++ [f]) = totalNonces delivered + frameNonces f := by
        rw [totalNonces_append, totalNonces_cons, totalNonces_nil, Nat.add_zero]
      have hrest : sess.rx.drop (frameCipherLen f) ++ wire
          = streamCipher A k (totalNonces delivered + frameNonces f) rest := by
        rw [← List.drop_append_of_le_length hwhole, h.stream, streamCipher]
        exact List.drop_left' (length_frameCipher A k _ hf.header_le)
      have hroom : JdcSess.Room
          { sess with noise := noise, rx := sess.rx.drop (frameCipherLen f) } := by
        refine ⟨h.room.cap, ?_⟩
        rw [List.length_drop]
        exact (Nat.sub_le _ _).trans h.room.fits
      refine Or.inl ⟨f, rest, releaseSessRx
        { sess with noise := noise, rx := sess.rx.drop (frameCipherLen f) }, rfl, ?_, ?_, ?_⟩
      · rw [sessRxNext, hdec]
      · rw [releaseSessRx_rx, List.length_drop]
        exact Nat.sub_add_cancel hwhole
      · exact
          { done := h.done
            hasKey := h.hasKey
            key := h.key
            count := by rw [h.count, hcount, totalNonces_cons, Nat.add_assoc]
            budget := h.budget
            expects := by rwa [releaseSessRx_noise, hcount]
            stream := by rwa [releaseSessRx_rx, hcount]
            formed := fun f' hf' => h.formed f' (List.mem_cons_of_mem f hf')
            room := hroom.release
            short := by
              intro f' hf'
              rcases List.mem_append.mp hf' with hold | hnew
              · exact h.short f' hold
              · rw [List.mem_singleton.mp hnew]
                exact hwhole.trans h.room.le }
    · obtain ⟨noise, hdec, hnoise, -⟩ :=
        decryptFrame_needMore h.expects hf hhead h.stream (not_le.mp hwhole)
      refine Or.inr ⟨noise, ?_, ?_,
        { h with expects := hnoise, room := ⟨h.room.cap, h.room.fits⟩ }⟩
      · rw [sessRxNext, hdec]
      · intro f' hf'
        obtain rfl := Option.some.inj hf'
        exact not_le.mp hwhole

/-- `sess_service` opens the frames of which all has come, and no others. -/
theorem JdcInStep.drain {turns : Nat} (hturns : sess.rx.length < turns)
    (h : JdcInStep A k jds sess wire delivered pending) :
    ∃ out rest sess', pending = out ++ rest ∧ sessDrain A turns sess = (out, some sess') ∧
      (∀ f ∈ rest.head?, sess'.rx.length < frameCipherLen f) ∧
      JdcInStep A k jds sess' wire (delivered ++ out) rest := by
  induction turns generalizing sess delivered pending with
  | zero => exact absurd hturns (Nat.not_lt_zero _)
  | succ turns ih =>
    rcases h.next with ⟨f, rest, sess', rfl, hnext, hlen, hstep⟩ | ⟨noise, hnext, hshort, hstep⟩
    · have hpos := frameCipherLen_pos f
      obtain ⟨out, rest, sess'', rfl, hdrain, hshort, hlast⟩ := ih (by omega) hstep
      refine ⟨f :: out, rest, sess'', rfl, ?_, hshort, ?_⟩
      · rw [sessDrain, hnext]
        dsimp only
        rw [hdrain]
      · rwa [List.append_assoc] at hlast
    · refine ⟨[], pending, { sess with noise := noise }, rfl, ?_, hshort, ?_⟩
      · rw [sessDrain, hnext]
      · rwa [List.append_nil]

/-- With nothing left on the wire, every frame is short. -/
theorem JdcInStep.short_of_read (h : JdcInStep A k jds sess [] delivered pending) {f : Bytes}
    (hf : f ∈ delivered ++ pending) : frameCipherLen f ≤ 2 ^ 23 := by
  rcases List.mem_append.mp hf with hold | hnew
  · exact h.short f hold
  · -- the whole of it is in the buffer
    obtain ⟨front, back, rfl⟩ := List.append_of_mem hnew
    have hlen := congrArg List.length h.stream
    have hroom := h.room.le
    rw [List.append_nil, streamCipher_append, streamCipher, List.length_append, List.length_append,
      length_frameCipher A k _ (h.formed f hnew).header_le] at hlen
    omega

end Stream

/-! ### Every run -/

section Link

variable {A} {k k' : κ} {s : JdcLink κ} {pending : List Bytes} {len : Nat}

/-- What the buffer holds of the frame that is awaited, and of what came behind another. -/
structure JdcHeld (phase : JdcPhase) (rx : Bytes) (pending : List Bytes) : Prop where
  setup : phase = .setup → ∀ f ∈ pending.head?, rx.length < frameCipherLen f + rxReadChunk
  up : phase = .up → ∀ f ∈ pending.head?, rx.length < max (frameCipherLen f) rxReadChunk

/-- A read is refused, or it is in the buffer. -/
theorem JdcLink.append_cases (h : JdcInStep A k s.jds s.sess s.wire s.delivered pending)
    (len : Nat) :
    (2 ^ 23 < s.sess.rx.length + (s.wire.take len).length ∧
      s.append len = { s with phase := .refused }) ∨
    (s.sess.rx.length + (s.wire.take len).length ≤ 2 ^ 23 ∧
      ∃ sess', s.append len = { s with sess := sess', wire := s.wire.drop len } ∧
        sess'.rx.length = s.sess.rx.length + (s.wire.take len).length ∧
        JdcInStep A k s.jds sess' (s.wire.drop len) s.delivered pending) := by
  rcases sessRxAppend_cases h.room (s.wire.take len) with ⟨hover, hnone⟩ | ⟨hfits, ncap, hsome, hroom⟩
  · refine Or.inl ⟨hover, ?_⟩
    rw [JdcLink.append, hnone]
  · rw [← List.take_append_drop len s.wire] at h
    refine Or.inr ⟨hfits, _, ?_, List.length_append, h.append hroom⟩
    rw [JdcLink.append, hsome]

/-- A refused read was of a frame that is too long. -/
theorem JdcInStep.blame {jds : NoiseSession κ} {sess : JdcSess κ} {wire data : Bytes}
    {delivered : List Bytes} (h : JdcInStep A k jds sess wire delivered pending)
    (hheld : ∀ f ∈ pending.head?, sess.rx.length < max (frameCipherLen f) rxReadChunk)
    (hdata : data.length ≤ rxReadChunk) (hover : 2 ^ 23 < sess.rx.length + data.length) :
    ∃ f ∈ delivered ++ pending, 2 ^ 23 < frameCipherLen f + rxReadChunk := by
  have hchunk : rxReadChunk = 8192 := rfl
  cases pending with
  | nil =>
    rw [h.rx_eq_nil, List.length_nil] at hover
    omega
  | cons f rest =>
    have hf := hheld f rfl
    exact ⟨f, List.mem_append_right _ List.mem_cons_self, by omega⟩

/-- What the other end has room for under the same limit. -/
theorem JdcInStep.rxAppend {jds : NoiseSession κ} {sess : JdcSess κ} {wire data : Bytes}
    {delivered : List Bytes} (h : JdcInStep A k jds sess wire delivered pending)
    (hheld : ∀ f ∈ pending.head?, sess.rx.length < max (frameCipherLen f) rxReadChunk)
    (hdata : data.length ≤ rxReadChunk) (noise : NoiseSession κ) {cap : Nat} (hcap : 0 < cap) :
    (rxAppend ⟨noise, sess.rx, cap, rxMaxForPayload maxJdPayload⟩ data).isSome := by
  have hchunk : rxReadChunk = 8192 := rfl
  have hmax : sess.rx.length + data.length ≤ rxMaxForPayload maxJdPayload := by
    cases pending with
    | nil =>
      rw [h.rx_eq_nil, List.length_nil, rxMaxForPayload_jd]
      omega
    | cons f rest =>
      have hf := hheld f rfl
      have hroom := frameCipherLen_add_read_le (h.formed f List.mem_cons_self)
      have hlimit := rxMaxForPayload_jd
      omega
  obtain ⟨ncap, hsome, -⟩ :=
    rxAppend_eq (c := ⟨noise, sess.rx, cap, rxMaxForPayload maxJdPayload⟩) hcap hmax
  rw [hsome]
  rfl

/-- The two ends are in step, nothing has failed to open, and what was refused was too long. -/
structure JdcLink.Inv (A : Aead κ) (k : κ) (s : JdcLink κ) : Prop where
  inStep : ∃ pending, s.sent = s.delivered ++ pending ∧
    JdcInStep A k s.jds s.sess s.wire s.delivered pending ∧
      JdcHeld s.phase s.sess.rx pending
  opens : s.phase ≠ .fatal
  blame : s.phase = .refused → ∃ f ∈ s.sent, 2 ^ 23 < frameCipherLen f + rxReadChunk

theorem connected_inv (A : Aead κ) (k k' : κ) : (JdcLink.connected k k').Inv A k := by
  refine ⟨⟨[], rfl, ?_, ?_⟩, JdcPhase.noConfusion, JdcPhase.noConfusion⟩
  · exact
      { done := rfl
        hasKey := rfl
        key := rfl
        count := rfl
        budget := Nat.zero_le _
        expects := ⟨rfl, rfl, rfl, rfl, fun hno => by cases hno⟩
        stream := rfl
        formed := fun f hf => absurd hf List.not_mem_nil
        room := ⟨Or.inl rfl, le_rfl⟩
        short := fun f hf => absurd hf List.not_mem_nil }
  · constructor <;>
    · intro _ f hf
      cases hf

/-- What is held of the frame that is awaited stays when another is sealed behind it. -/
theorem JdcHeld.send {phase : JdcPhase} (h : JdcHeld phase s.sess.rx pending)
    (hstep : JdcInStep A k s.jds s.sess s.wire s.delivered pending) (plain : Bytes) :
    JdcHeld phase s.sess.rx (pending ++ [plain]) := by
  cases pending with
  | nil =>
    have hpos := frameCipherLen_pos plain
    have hempty : s.sess.rx.length = 0 := by rw [hstep.rx_eq_nil, List.length_nil]
    constructor <;>
    · intro _ f hf
      obtain rfl := Option.some.inj hf
      omega
  | cons f rest => exact ⟨h.setup, h.up⟩

theorem JdcLink.Inv.send (h : s.Inv A k) {plain : Bytes}
    (hplain : WellFormedFrame maxJdPayload plain) : (s.step A (.send plain)).Inv A k := by
  obtain ⟨pending, hsent, hstep, hheld⟩ := h.inStep
  by_cases hbudget : s.jds.sendCs.n + frameNonces plain ≤ noiseNonceWatermark
  · obtain ⟨ct, c, henc, hnext⟩ := hstep.send hplain hbudget
    rw [JdcLink.step, henc]
    refine ⟨⟨pending ++ [plain], ?_, hnext, hheld.send hstep plain⟩, h.opens, ?_⟩
    · show s.sent ++ [plain] = s.delivered ++ (pending ++ [plain])
      rw [hsent, List.append_assoc]
    · intro hrefused
      obtain ⟨f, hf, hlong⟩ := h.blame hrefused
      exact ⟨f, List.mem_append_left _ hf, hlong⟩
  · rw [JdcLink.step, encryptFrame_refused hplain hbudget]
    exact h

theorem setupPhase_ne (plain : Bytes) :
    setupPhase plain ≠ .refused ∧ setupPhase plain ≠ .fatal := by
  rw [setupPhase]
  split
  · decide
  · split_ifs
    · split
      · decide
      · split_ifs <;> decide
    · decide
    · decide

/-- What a turn reads is refused exactly when it does not fit. -/
theorem JdcLink.Inv.recv (h : s.Inv A k) (hlen : len ≤ rxReadChunk) :
    (s.step A (.recv len)).Inv A k ∧
      (s.phase ≠ .refused → ((s.step A (.recv len)).phase ≠ .refused ↔ s.Fits A (.recv len))) := by
  obtain ⟨pending, hsent, hstep, hheld⟩ := h.inStep
  have hdata : (s.wire.take len).length ≤ rxReadChunk := (List.length_take_le _ _).trans hlen
  cases hphase : s.phase with
  | setup =>
    have hlead := hheld.setup hphase
    rw [JdcLink.step, hphase]
    dsimp only
    rcases hstep.next with ⟨f, rest, sess', rfl, hnext, hrx, hrest⟩ | ⟨noise, hnext, hshort, hsame⟩
    · -- a frame: nothing is read
      have hf := hlead f rfl
      rw [JdcLink.readframe, hnext]
      refine ⟨⟨⟨rest, ?_, hrest, ?_, ?_⟩, (setupPhase_ne f).2, ?_⟩, fun _ => ?_⟩
      · show s.sent = s.delivered ++ [f] ++ rest
        rw [hsent, List.append_assoc]
        rfl
      · intro _ f' _
        show sess'.rx.length < frameCipherLen f' + rxReadChunk
        omega
      · intro _ f' _
        show sess'.rx.length < max (frameCipherLen f') rxReadChunk
        omega
      · exact fun hrefused => absurd hrefused (setupPhase_ne f).1
      · refine ⟨fun _ happends => ?_, fun _ => (setupPhase_ne f).1⟩
        rcases happends with hup | ⟨-, sess, hmore⟩
        · rw [hphase] at hup
          cases hup
        · rw [hnext] at hmore
          cases hmore
    · rw [JdcLink.readframe, hnext]
      have happends : s.Appends A := Or.inr ⟨hphase, _, hnext⟩
      have hmax : ∀ f ∈ pending.head?, s.sess.rx.length < max (frameCipherLen f) rxReadChunk :=
        fun f hf => lt_max_of_lt_left (hshort f hf)
      rcases JdcLink.append_cases (s := { s with sess := { s.sess with noise := noise } }) hsame len
        with ⟨hover, heq⟩ | ⟨hfits, sess', heq, hrx, hrest⟩
      · dsimp only at heq ⊢
        rw [heq]
        refine ⟨⟨⟨pending, hsent, hsame, JdcPhase.noConfusion, JdcPhase.noConfusion⟩,
          JdcPhase.noConfusion, fun _ => ?_⟩, fun _ => ?_⟩
        · show ∃ f ∈ s.sent, _
          rw [hsent]
          exact hstep.blame hmax hdata hover
        · refine ⟨fun hno => absurd rfl hno, fun hfits => ?_⟩
          exact absurd (hfits happends) (not_le.mpr hover)
      · dsimp only at heq ⊢
        rw [heq]
        refine ⟨⟨⟨pending, hsent, hrest, ?_, ?_⟩, h.opens, h.blame⟩, fun _ => ?_⟩
        · intro _ f hf
          have hf := hshort f hf
          show sess'.rx.length < frameCipherLen f + rxReadChunk
          rw [hrx]
          exact Nat.add_lt_add_of_lt_of_le hf hdata
        · intro hup
          exact absurd (hphase.symm.trans hup) JdcPhase.noConfusion
        · exact ⟨fun _ _ => hfits, fun _ => by rw [hphase]; exact JdcPhase.noConfusion⟩
  | up =>
    have hmax := hheld.up hphase
    have happends : s.Appends A := Or.inl hphase
    rw [JdcLink.step, hphase]
    dsimp only
    by_cases hnothing : s.wire.take len = []
    · rw [if_pos hnothing]
      refine ⟨h, fun _ => ⟨fun _ _ => ?_, fun _ => by rw [hphase]; exact JdcPhase.noConfusion⟩⟩
      rw [hnothing]
      exact hstep.room.le
    · rw [if_neg hnothing]
      rcases JdcLink.append_cases hstep len with ⟨hover, heq⟩ | ⟨hfits, sess', heq, hrx, hrest⟩
      · rw [heq, JdcLink.drain, if_pos rfl]
        refine ⟨⟨⟨pending, hsent, hstep, JdcPhase.noConfusion, JdcPhase.noConfusion⟩,
          JdcPhase.noConfusion, fun _ => ?_⟩, fun _ => ?_⟩
        · show ∃ f ∈ s.sent, _
          rw [hsent]
          exact hstep.blame hmax hdata hover
        · refine ⟨fun hno => absurd rfl hno, fun hfits => ?_⟩
          exact absurd (hfits happends) (not_le.mpr hover)
      · obtain ⟨out, rest, sess'', rfl, hdrain, hshort, hlast⟩ := hrest.drain (Nat.lt_succ_self _)
        have hup : ¬ s.phase = .refused := by rw [hphase]; exact JdcPhase.noConfusion
        rw [heq, JdcLink.drain, if_neg hup, hdrain]
        refine ⟨⟨⟨rest, ?_, hlast, ?_, ?_⟩, h.opens, h.blame⟩, fun _ => ?_⟩
        · show s.sent = s.delivered ++ out ++ rest
          rw [hsent, List.append_assoc]
        · intro hsetup
          exact absurd (hphase.symm.trans hsetup) JdcPhase.noConfusion
        · exact fun _ f hf => lt_max_of_lt_left (hshort f hf)
        · exact ⟨fun _ _ => hfits, fun _ => hup⟩
  | _ =>
    -- the session is over
    rw [JdcLink.step, hphase]
    refine ⟨h, fun hno => ⟨fun _ happends => ?_, fun _ => ?_⟩⟩
    · rcases happends with hup | ⟨hsetup, -⟩
      · exact absurd (hphase.symm.trans hup) JdcPhase.noConfusion
      · exact absurd (hphase.symm.trans hsetup) JdcPhase.noConfusion
    · rwa [hphase]

theorem JdcLink.Inv.step {e : JdcLinkEvent} (he : e.Allowed) (h : s.Inv A k) :
    (s.step A e).Inv A k := by
  cases e with
  | send plain => exact h.send he
  | recv len => exact (h.recv he).1

theorem JdcLink.step_send_phase (s : JdcLink κ) (plain : Bytes) :
    (s.step A (.send plain)).phase = s.phase := by
  rw [JdcLink.step]
  split <;> rfl

/-- Whatever frames within the policy a client is sent, and however its stream is cut into reads:
`sess_rx_append` has not failed exactly when no read brought the buffer over `2 ^ 23` bytes, while
`rx_append` has room for what is read under the same limit.  No longer frame is delivered, and
what is refused belongs to one that is longer with a read behind it.  What was delivered are the
first of the frames that were sent. -/
theorem sess_rx_append_never_fails_iff (A : Aead κ) (k k' : κ) (events : List JdcLinkEvent)
    (hallowed : ∀ e ∈ events, e.Allowed) :
    let s := run (JdcLink.step A) (JdcLink.connected k k') events
    ((∀ before, before <+: events →
        (run (JdcLink.step A) (JdcLink.connected k k') before).phase ≠ .refused) ↔
      Along (JdcLink.step A) (JdcLink.Fits A) (JdcLink.connected k k') events) ∧
    (∀ len ≤ rxReadChunk, s.Appends A → ∀ (noise : NoiseSession κ) cap, 0 < cap →
      (rxAppend ⟨noise, s.sess.rx, cap, rxMaxForPayload maxJdPayload⟩ (s.wire.take len)).isSome) ∧
    (∀ f ∈ s.delivered, frameCipherLen f ≤ 2 ^ 23) ∧
    (s.phase = .refused → ∃ f ∈ s.sent, 2 ^ 23 < frameCipherLen f + rxReadChunk) ∧
    s.phase ≠ .fatal ∧ s.delivered <+: s.sent := by
  intro s
  have hinv : s.Inv A k :=
    run_invariant_of (fun _ _ he hinv => hinv.step he) hallowed (connected_inv A k k')
  obtain ⟨pending, hsent, hstep, hheld⟩ := hinv.inStep
  refine ⟨?_, ?_, hstep.short, hinv.blame, hinv.opens, ⟨pending, hsent.symm⟩⟩
  · apply run_always_iff (I := fun s : JdcLink κ => s.Inv A k)
      (P := fun s : JdcLink κ => s.phase ≠ .refused) (Q := JdcLinkEvent.Allowed)
    · intro s e he hinv
      exact hinv.step he
    · intro s e he hinv hphase
      cases e with
      | send plain =>
        rw [JdcLink.step_send_phase]
        exact iff_of_true hphase trivial
      | recv len => exact (hinv.recv he).2 hphase
    · exact hallowed
    · exact connected_inv A k k'
    · exact JdcPhase.noConfusion
  · intro len hlen happends noise cap hcap
    refine hstep.rxAppend ?_ ((List.length_take_le _ _).trans hlen) noise hcap
    rcases happends with hup | ⟨-, sess, hmore⟩
    · exact hheld.up hup
    · rcases hstep.next with ⟨f, rest, sess', -, hnext, -⟩ | ⟨noise, -, hshort, -⟩
      · rw [hnext] at hmore
        cases hmore
      · exact fun f hf => lt_max_of_lt_left (hshort f hf)

end Link

/-! ### A frame of the greatest payload -/

section Witness

/-- `SetupConnection.Success` with version 2. -/
def setupSuccessFrame : Bytes := [0, 0, 1, 6, 0, 0, 2, 0, 0, 0, 0, 0]

/-- A frame with `SV2_MAX_JD_PAYLOAD` bytes of payload. -/
def greatestFrame : Bytes := [0, 0, 0x51, 0, 0, 0x80] ++ List.replicate (2 ^ 23) 0

theorem wellFormed_greatestFrame : WellFormedFrame maxJdPayload greatestFrame := by
  refine ⟨⟨0, 0x51, 2 ^ 23⟩, decodeHeader_eq_some_iff.mpr ⟨by decide, _, rfl⟩, ?_, by decide⟩
  rw [greatestFrame, List.length_append, List.length_replicate]
  rfl

theorem length_greatestFrame : greatestFrame.length - frameHeaderLen = 2 ^ 23 := by
  rw [greatestFrame, List.length_append, List.length_replicate]
  exact Nat.add_sub_cancel_left 6 (2 ^ 23)

theorem frameCipherLen_greatestFrame : frameCipherLen greatestFrame = 8390694 := by
  rw [frameCipherLen, length_greatestFrame, ptLenToCtLen_eq, payloadChunks_eq]
  rfl

theorem frameNonces_greatestFrame : frameNonces greatestFrame = 130 := by
  rw [frameNonces, length_greatestFrame, noiseFrameChunkCount_eq, payloadChunks_eq]
  rfl

/-- The end of `sess_setup`. -/
def setupEvents : List JdcLinkEvent := [.send setupSuccessFrame, .recv 100, .recv 100]

theorem setupEvents_allowed : ∀ e ∈ setupEvents, e.Allowed := by
  simp only [setupEvents, List.forall_mem_cons]
  refine ⟨⟨_, rfl, rfl, by decide⟩, ?_, ?_, fun e he => absurd he List.not_mem_nil⟩ <;>
  exact (by decide : 100 ≤ rxReadChunk)

example : (run (JdcLink.step plainAead) (JdcLink.connected true false) setupEvents).wire = [] := by
  decide +kernel

/-- The session comes up, and no read was refused. -/
theorem setup_not_refused :
    (run (JdcLink.step plainAead) (JdcLink.connected true false) setupEvents).phase = .up ∧
    Along (JdcLink.step plainAead) (JdcLink.Fits plainAead) (JdcLink.connected true false)
      setupEvents := by
  have hup : (run (JdcLink.step plainAead) (JdcLink.connected true false) setupEvents).phase
      = .up := by
    decide +kernel
  have hall := sess_rx_append_never_fails_iff plainAead true false setupEvents setupEvents_allowed
  refine ⟨hup, hall.1.mp fun before hbefore => ?_⟩
  rw [setupEvents] at hbefore
  simp only [List.prefix_cons_iff, List.prefix_nil] at hbefore
  obtain rfl | ⟨_, rfl, rfl | ⟨_, rfl, rfl | ⟨_, rfl, rfl⟩⟩⟩ := hbefore <;> decide +kernel

/-- A turn of a session that is up takes what it reads off the wire. -/
theorem JdcLink.Inv.recv_up {A : Aead κ} {k : κ} {s : JdcLink κ} {len : Nat} (h : s.Inv A k)
    (hlen : len ≤ rxReadChunk) (hup : s.phase = .up)
    (hnext : (s.step A (.recv len)).phase ≠ .refused) :
    (s.step A (.recv len)).phase = .up ∧ (s.step A (.recv len)).wire = s.wire.drop len ∧
      (s.step A (.recv len)).sent = s.sent := by
  obtain ⟨pending, -, hstep, -⟩ := h.inStep
  have hfits := ((h.recv hlen).2 (hup ▸ JdcPhase.noConfusion)).mp hnext (Or.inl hup)
  rw [JdcLink.step, hup]
  dsimp only
  by_cases hnothing : s.wire.take len = []
  · rw [if_pos hnothing]
    refine ⟨hup, ?_, rfl⟩
    rcases List.take_eq_nil_iff.mp hnothing with rfl | hempty
    · exact List.drop_zero.symm
    · rw [hempty, List.drop_nil]
  · rw [if_neg hnothing]
    rcases JdcLink.append_cases hstep len with ⟨hover, -⟩ | ⟨-, sess', heq, -, hrest⟩
    · exact absurd hfits (not_le.mpr hover)
    · obtain ⟨out, rest, sess'', -, hdrain, -⟩ := hrest.drain (Nat.lt_succ_self _)
      have hne : ¬ s.phase = .refused := by rw [hup]; exact JdcPhase.noConfusion
      rw [heq, JdcLink.drain, if_neg hne, hdrain]
      exact ⟨hup, rfl, rfl⟩

/-- A frame that is too long is refused before all of it is read. -/
theorem JdcLink.Inv.long_refused {A : Aead κ} {k : κ} {s : JdcLink κ} (h : s.Inv A k)
    (hup : s.phase = .up) {f : Bytes} (hf : f ∈ s.sent) (hlong : 2 ^ 23 < frameCipherLen f) :
    ∃ m, (run (JdcLink.step A) s (List.replicate m (.recv rxReadChunk))).phase = .refused := by
  by_contra hnever
  have hreads : ∀ m, let t := run (JdcLink.step A) s (List.replicate m (.recv rxReadChunk))
      t.Inv A k ∧ t.phase = .up ∧ t.wire = s.wire.drop (m * rxReadChunk) ∧ t.sent = s.sent := by
    intro m
    induction m with
    | zero => exact ⟨h, hup, by rw [Nat.zero_mul]; rfl, rfl⟩
    | succ m ih =>
      obtain ⟨hinv, hphase, hdrop, hsame⟩ := ih
      have hnext := fun hrefused => hnever ⟨m + 1, hrefused⟩
      rw [List.replicate_succ', run_append] at hnext ⊢
      obtain ⟨hphase', hwire', hsent'⟩ := hinv.recv_up le_rfl hphase hnext
      refine ⟨(hinv.recv le_rfl).1, hphase', hwire'.trans ?_, hsent'.trans hsame⟩
      rw [hdrop, List.drop_drop, Nat.succ_mul]
  -- so many reads empty the wire
  obtain ⟨hinv, -, hread, hsame⟩ := hreads s.wire.length
  obtain ⟨pending, hsent, hstep, -⟩ := hinv.inStep
  rw [List.drop_eq_nil_of_le (Nat.le_mul_of_pos_right _ (by decide))] at hread
  rw [hread] at hstep
  rw [hsame] at hsent
  exact absurd (hstep.short_of_read (hsent ▸ hf)) (not_le.mpr hlong)

/-- A frame is on the wire while there are nonces for it. -/
theorem JdcLink.Inv.mem_sent {A : Aead κ} {k : κ} {s : JdcLink κ} (h : s.Inv A k) {plain : Bytes}
    (hplain : WellFormedFrame maxJdPayload plain)
    (hbudget : s.jds.sendCs.n + frameNonces plain ≤ noiseNonceWatermark) :
    plain ∈ (s.step A (.send plain)).sent := by
  obtain ⟨pending, -, hstep, -⟩ := h.inStep
  obtain ⟨ct, c, henc, -⟩ := hstep.send hplain hbudget
  rw [JdcLink.step, henc]
  exact List.mem_append_right _ (List.mem_singleton_self _)

/-- A frame of the greatest payload is refused before all of it is read. -/
theorem greatest_frame_refused :
    ¬ ∀ events : List JdcLinkEvent, (∀ e ∈ events, e.Allowed) →
      (run (JdcLink.step plainAead) (JdcLink.connected true false) events).phase ≠ .refused := by
  intro hall
  have hinv : (run (JdcLink.step plainAead) (JdcLink.connected true false)
      setupEvents).Inv plainAead true :=
    run_invariant_of (fun _ _ he hinv => hinv.step he) setupEvents_allowed
      (connected_inv plainAead true false)
  have hcount : (run (JdcLink.step plainAead) (JdcLink.connected true false)
      setupEvents).jds.sendCs.n = 2 := by
    decide +kernel
  have hbudget : (run (JdcLink.step plainAead) (JdcLink.connected true false)
      setupEvents).jds.sendCs.n + frameNonces greatestFrame ≤ noiseNonceWatermark := by
    rw [hcount, frameNonces_greatestFrame]
    decide
  have hmem := hinv.mem_sent wellFormed_greatestFrame hbudget
  have hup := (JdcLink.step_send_phase (A := plainAead) _ greatestFrame).trans
    setup_not_refused.1
  obtain ⟨m, hrefused⟩ := (hinv.send wellFormed_greatestFrame).long_refused hup hmem
    (by rw [frameCipherLen_greatestFrame]; decide)
  refine hall (setupEvents ++ (.send greatestFrame :: List.replicate m (.recv rxReadChunk))) ?_ ?_
  · intro e he
    rcases List.mem_append.mp he with hsetup | hrest
    · exact setupEvents_allowed e hsetup
    · rcases List.mem_cons.mp hrest with rfl | hread
      · exact wellFormed_greatestFrame
      · rw [List.eq_of_mem_replicate hread]
        exact (le_rfl : rxReadChunk ≤ rxReadChunk)
  · rw [run_append, run_cons]
    exact hrefused

end Witness

end CashStratum
