/-
CashStratum/Sv2Codec.lean

The fields of SV2 messages (`sv2_codec.c`).  A reader takes the bytes between `p` and
`end`, and leaves what is unread; a writer gives the bytes it puts at `p`.  The spec of a
reader says exactly which bytes it takes for a value, and each is stated beside the writer
of its field.

A string of the wire is a C string in the message: it is written up to its first NUL.  A
BOOL is its lowest bit, the others are for the sender to set as it likes.
-/
import CashStratum.ByteReader
import Mathlib.Data.List.TakeWhile

namespace CashStratum

/-! ### Limits -/

/-- `SV2_MAX_STR_LEN` -/
def maxStrLen : Nat := 255

/-- `SV2_MAX_B0_32` -/
def maxB032 : Nat := 32

/-- `SV2_MAX_MERKLE_PATH` -/
def maxMerklePath : Nat := 32

/-- `SV2_MAX_PAYLOAD` -/
def maxPayload : Nat := 0xFFFFFF

/-- `SV2_MAX_TX_BYTES` -/
def maxTxBytes : Nat := 4 * 2 ^ 20

/-- `SV2_MAX_JD_PAYLOAD` -/
def maxJdPayload : Nat := 8 * 2 ^ 20

/-- `SV2_MAX_JD_TXNS` -/
def maxJdTxns : Nat := 25000

/-! ### Integers -/

/-- `sv2_read_u8` -/
def readU8 (p : Bytes) : Option (UInt8 × Bytes) :=
  (readLe 1 p).map fun r => (UInt8.ofNat r.1, r.2)

/-- `sv2_read_u16` -/
def readU16 (p : Bytes) : Option (UInt16 × Bytes) :=
  (readLe 2 p).map fun r => (UInt16.ofNat r.1, r.2)

/-- `sv2_read_u32` -/
def readU32 (p : Bytes) : Option (UInt32 × Bytes) :=
  (readLe 4 p).map fun r => (UInt32.ofNat r.1, r.2)

/-- `sv2_read_u64` -/
def readU64 (p : Bytes) : Option (UInt64 × Bytes) :=
  (readLe 8 p).map fun r => (UInt64.ofNat r.1, r.2)

/-- `sv2_read_f32`: the bits of a float. -/
def readF32 (p : Bytes) : Option (UInt32 × Bytes) := readU32 p

/-- `sv2_read_u256` -/
def readU256 (p : Bytes) : Option (Hash256 × Bytes) :=
  if h : 32 ≤ p.length then some (⟨p.take 32, List.length_take_of_le h⟩, p.drop 32) else none

/-- `sv2_write_u8` -/
def writeU8 (v : UInt8) : Bytes := leBytes 1 v.toNat

/-- `sv2_write_u16` -/
def writeU16 (v : UInt16) : Bytes := leBytes 2 v.toNat

/-- `sv2_write_u32` -/
def writeU32 (v : UInt32) : Bytes := leBytes 4 v.toNat

/-- `sv2_write_u64` -/
def writeU64 (v : UInt64) : Bytes := leBytes 8 v.toNat

/-- `sv2_write_f32` -/
def writeF32 (v : UInt32) : Bytes := writeU32 v

/-- `sv2_write_u256` -/
def writeU256 (h : Hash256) : Bytes := h.bytes

section Integers

variable {p q : Bytes}

/-- An integer of a machine type is read from its bytes. -/
theorem readLe_map_eq_some_iff {α : Type} {w : Nat} {ofNat : Nat → α} {toNat : α → Nat}
    (hlt : ∀ v, toNat v < 256 ^ w) (hinv : ∀ v, ofNat (toNat v) = v)
    (hcut : ∀ n, n < 256 ^ w → toNat (ofNat n) = n) {v : α} :
    (readLe w p).map (fun r => (ofNat r.1, r.2)) = some (v, q) ↔ p = leBytes w (toNat v) ++ q := by
  constructor
  · intro h
    obtain ⟨⟨n, r⟩, hr, heq⟩ := Option.map_eq_some_iff.mp h
    obtain ⟨a, rfl, rfl, rfl⟩ := readLe_eq_some_iff.mp hr
    obtain ⟨rfl, rfl⟩ := Prod.mk.inj heq
    show a ++ r = leBytes a.length (toNat (ofNat (leNat a))) ++ r
    rw [hcut _ (leNat_lt a), leBytes_leNat]
  · rintro rfl
    have hread := readLe_append (leBytes w (toNat v)) q
    rw [length_leBytes, leNat_leBytes_of_lt (hlt v)] at hread
    rw [hread, Option.map_some, hinv]

@[simp] theorem readU8_eq_some_iff {v : UInt8} : readU8 p = some (v, q) ↔ p = writeU8 v ++ q :=
  readLe_map_eq_some_iff (fun v => v.toNat_lt) (fun _ => UInt8.ofNat_toNat)
    fun _ hn => UInt8.toNat_ofNat_of_lt' hn

@[simp] theorem readU16_eq_some_iff {v : UInt16} :
    readU16 p = some (v, q) ↔ p = writeU16 v ++ q :=
  readLe_map_eq_some_iff (fun v => v.toNat_lt) (fun _ => UInt16.ofNat_toNat)
    fun _ hn => UInt16.toNat_ofNat_of_lt' hn

@[simp] theorem readU32_eq_some_iff {v : UInt32} :
    readU32 p = some (v, q) ↔ p = writeU32 v ++ q :=
  readLe_map_eq_some_iff (fun v => v.toNat_lt) (fun _ => UInt32.ofNat_toNat)
    fun _ hn => UInt32.toNat_ofNat_of_lt' hn

@[simp] theorem readU64_eq_some_iff {v : UInt64} :
    readU64 p = some (v, q) ↔ p = writeU64 v ++ q :=
  readLe_map_eq_some_iff (fun v => v.toNat_lt) (fun _ => UInt64.ofNat_toNat)
    fun _ hn => UInt64.toNat_ofNat_of_lt' hn

@[simp] theorem readF32_eq_some_iff {v : UInt32} :
    readF32 p = some (v, q) ↔ p = writeF32 v ++ q :=
  readU32_eq_some_iff

@[simp] theorem readU256_eq_some_iff {h : Hash256} :
    readU256 p = some (h, q) ↔ p = writeU256 h ++ q := by
  constructor
  · intro hread
    rw [readU256] at hread
    split at hread
    · obtain ⟨rfl, rfl⟩ := Prod.mk.inj (Option.some.inj hread)
      exact (List.take_append_drop 32 p).symm
    · cases hread
  · rintro rfl
    have hlen := h.length_bytes
    have hle : 32 ≤ (writeU256 h ++ q).length := by
      rw [List.length_append, writeU256]
      omega
    rw [readU256, dif_pos hle]
    refine congrArg some (Prod.ext (Hash256.ext ?_) ?_)
    · exact List.take_left' hlen
    · exact List.drop_left' hlen

@[simp] theorem length_writeU8 (v : UInt8) : (writeU8 v).length = 1 := length_leBytes ..

@[simp] theorem length_writeU16 (v : UInt16) : (writeU16 v).length = 2 := length_leBytes ..

@[simp] theorem length_writeU32 (v : UInt32) : (writeU32 v).length = 4 := length_leBytes ..

@[simp] theorem length_writeU64 (v : UInt64) : (writeU64 v).length = 8 := length_leBytes ..

@[simp] theorem length_writeF32 (v : UInt32) : (writeF32 v).length = 4 := length_leBytes ..

@[simp] theorem length_writeU256 (h : Hash256) : (writeU256 h).length = 32 := h.length_bytes

end Integers

/-! ### Byte strings -/

/-- A length of `w` bytes, at most `cap`, and that many bytes. -/
def readBlob (w cap : Nat) (p : Bytes) : Option (Bytes × Bytes) := do
  let (n, p) ← readLe w p
  if cap < n then none else takeBytes n p

/-- A length of `w` bytes, and the bytes. -/
def writeBlob (w : Nat) (data : Bytes) : Bytes := leBytes w data.length ++ data

/-- `sv2_read_str0_255`, into a buffer with room for the NUL. -/
def readStr (p : Bytes) : Option (Bytes × Bytes) := readBlob 1 maxStrLen p

/-- `sv2_read_b0_32` -/
def readB032 (p : Bytes) : Option (Bytes × Bytes) := readBlob 1 maxB032 p

/-- `sv2_read_b0_255`, into a buffer of 255 bytes. -/
def readB0255 (p : Bytes) : Option (Bytes × Bytes) := readBlob 1 255 p

/-- `sv2_read_b0_64k`, and `read_b0_64k_ref`, which does not copy. -/
def readB064k (p : Bytes) : Option (Bytes × Bytes) := readBlob 2 65535 p

/-- `sv2_read_b0_16m` -/
def readB016m (p : Bytes) : Option (Bytes × Bytes) := readBlob 3 (min maxTxBytes maxPayload) p

/-- `sv2_write_str0_255` -/
def writeStr (s : Bytes) : Bytes := writeBlob 1 ((cstr s).take maxStrLen)

/-- `sv2_write_b0_32` -/
def writeB032 (data : Bytes) : Bytes := writeBlob 1 (data.take maxB032)

/-- `sv2_write_b0_255` -/
def writeB0255 (data : Bytes) : Bytes := writeBlob 1 data

/-- `sv2_write_b0_64k` -/
def writeB064k (data : Bytes) : Bytes := writeBlob 2 data

/-- `sv2_write_b0_16m` -/
def writeB016m (data : Bytes) : Bytes := writeBlob 3 data

section Blobs

variable {p q a : Bytes}

theorem readBlob_eq_some_iff {w cap : Nat} (hcap : cap < 256 ^ w) :
    readBlob w cap p = some (a, q) ↔ a.length ≤ cap ∧ p = writeBlob w a ++ q := by
  constructor
  · intro h
    obtain ⟨⟨n, r⟩, hr, htake⟩ := Option.bind_eq_some_iff.mp h
    obtain ⟨b, rfl, rfl, rfl⟩ := readLe_eq_some_iff.mp hr
    obtain ⟨hle, htake⟩ : ¬ cap < leNat b ∧ takeBytes (leNat b) r = some (a, q) := by
      simpa using htake
    obtain ⟨hlen, rfl⟩ := takeBytes_eq_some_iff.mp htake
    refine ⟨hlen ▸ not_lt.mp hle, ?_⟩
    rw [writeBlob, hlen, leBytes_leNat, List.append_assoc]
  · rintro ⟨hle, rfl⟩
    have hread := readLe_append (leBytes w a.length) (a ++ q)
    rw [length_leBytes, leNat_leBytes_of_lt (lt_of_le_of_lt hle hcap)] at hread
    rw [readBlob, writeBlob, List.append_assoc, hread]
    show (if cap < a.length then none else takeBytes a.length (a ++ q)) = some (a, q)
    rw [if_neg (not_lt.mpr hle)]
    exact takeBytes_eq_some_iff.mpr ⟨rfl, rfl⟩

@[simp] theorem readB0255_eq_some_iff :
    readB0255 p = some (a, q) ↔ a.length ≤ 255 ∧ p = writeB0255 a ++ q :=
  readBlob_eq_some_iff (by decide)

@[simp] theorem readB064k_eq_some_iff :
    readB064k p = some (a, q) ↔ a.length ≤ 65535 ∧ p = writeB064k a ++ q :=
  readBlob_eq_some_iff (by decide)

@[simp] theorem readB016m_eq_some_iff :
    readB016m p = some (a, q) ↔ a.length ≤ maxTxBytes ∧ p = writeB016m a ++ q :=
  readBlob_eq_some_iff (by decide)

@[simp] theorem length_writeBlob (w : Nat) (data : Bytes) :
    (writeBlob w data).length = w + data.length := by
  rw [writeBlob, List.length_append, length_leBytes]

/-- A string without NUL is written whole. -/
theorem cstr_eq {s : Bytes} (h : 0 ∉ s) : cstr s = s := by
  refine List.takeWhile_eq_self_iff.mpr fun b hb => decide_eq_true fun hzero => ?_
  rw [hzero] at hb
  exact h hb

theorem readStr_eq_some_iff (hnul : 0 ∉ a) :
    readStr p = some (a, q) ↔ a.length ≤ maxStrLen ∧ p = writeStr a ++ q := by
  rw [readStr, readBlob_eq_some_iff (by decide)]
  refine and_congr_right fun hlen => ?_
  rw [writeStr, cstr_eq hnul, List.take_of_length_le hlen]

@[simp] theorem readB032_eq_some_iff :
    readB032 p = some (a, q) ↔ a.length ≤ maxB032 ∧ p = writeB032 a ++ q := by
  rw [readB032, readBlob_eq_some_iff (by decide)]
  refine and_congr_right fun hlen => ?_
  rw [writeB032, List.take_of_length_le hlen]

/-- `strlen` -/
def strlen (s : Bytes) : Nat := (cstr s).length

theorem strlen_le (s : Bytes) : strlen s ≤ s.length :=
  (List.takeWhile_sublist _).length_le

theorem length_writeStr (h : a.length ≤ maxStrLen) : (writeStr a).length = 1 + strlen a := by
  rw [writeStr, length_writeBlob, List.take_of_length_le ((strlen_le a).trans h), strlen]

theorem length_writeB032 (h : a.length ≤ maxB032) : (writeB032 a).length = 1 + a.length := by
  rw [writeB032, length_writeBlob, List.take_of_length_le h]

@[simp] theorem length_writeB0255 (data : Bytes) : (writeB0255 data).length = 1 + data.length :=
  length_writeBlob 1 data

@[simp] theorem length_writeB064k (data : Bytes) : (writeB064k data).length = 2 + data.length :=
  length_writeBlob 2 data

end Blobs

/-! ### Lists -/

/-- A count of `w` bytes, at most `cap`, and that many items.  `item` is the length that
each must have at least: it is looked for first, so that no room is made for items that
cannot be there. -/
def readList {α : Type} (w cap item : Nat) (read : Bytes → Option (α × Bytes)) (p : Bytes) :
    Option (List α × Bytes) := do
  let (n, p) ← readLe w p
  if cap < n then none
  else if p.length < n * item then none
  else readMany read n p

/-- A count of `w` bytes, and the items. -/
def writeList {α : Type} (w : Nat) (write : α → Bytes) (l : List α) : Bytes :=
  leBytes w l.length ++ (l.map write).flatten

/-- `merkle_path`, of which the decoders do not check the length first. -/
def readMerklePath (p : Bytes) : Option (List Hash256 × Bytes) :=
  readList 1 maxMerklePath 0 readU256 p

/-- The list of `sv2_decode_declare_mining_job`. -/
def readWtxidList (p : Bytes) : Option (List Hash256 × Bytes) :=
  readList 2 maxJdTxns 32 readU256 p

/-- The list of `sv2_decode_provide_missing_transactions`. -/
def readPositionList (p : Bytes) : Option (List UInt16 × Bytes) :=
  readList 2 maxJdTxns 2 readU16 p

/-- The list of `sv2_decode_provide_missing_transactions_success`. -/
def readTransactions (p : Bytes) : Option (List Bytes × Bytes) :=
  readList 2 maxJdTxns 3 readB016m p

/-- A count byte, then the hashes. -/
def writeMerklePath (l : List Hash256) : Bytes := writeList 1 writeU256 l

/-- Hashes after a 16-bit count. -/
def writeWtxidList (l : List Hash256) : Bytes := writeList 2 writeU256 l

/-- Positions after a 16-bit count. -/
def writePositionList (l : List UInt16) : Bytes := writeList 2 writeU16 l

/-- Transactions after a 16-bit count. -/
def writeTransactions (l : List Bytes) : Bytes := writeList 2 writeB016m l

section Lists

variable {p q : Bytes}

/-- Items of at least `item` bytes take that much room. -/
theorem length_flatten_ge {α : Type} {write : α → Bytes} {item : Nat}
    (hitem : ∀ a, item ≤ (write a).length) (l : List α) :
    l.length * item ≤ (l.map write).flatten.length := by
  induction l with
  | nil => rw [List.length_nil, Nat.zero_mul]; exact Nat.zero_le _
  | cons a l ih =>
    rw [List.length_cons, Nat.succ_mul, List.map_cons, List.flatten_cons, List.length_append,
      Nat.add_comm]
    exact Nat.add_le_add (hitem a) ih

theorem readList_eq_some_iff {α : Type} {w cap item : Nat} {read : Bytes → Option (α × Bytes)}
    {write : α → Bytes} {Fits : α → Prop} (hcap : cap < 256 ^ w)
    (hread : ∀ p a q, read p = some (a, q) ↔ Fits a ∧ p = write a ++ q)
    (hitem : ∀ a, item ≤ (write a).length) {l : List α} :
    readList w cap item read p = some (l, q) ↔
      l.length ≤ cap ∧ (∀ a ∈ l, Fits a) ∧ p = writeList w write l ++ q := by
  constructor
  · intro h
    obtain ⟨⟨n, r⟩, hr, hitems⟩ := Option.bind_eq_some_iff.mp h
    obtain ⟨b, rfl, rfl, rfl⟩ := readLe_eq_some_iff.mp hr
    dsimp only at hitems
    split_ifs at hitems with hmany hshort
    obtain ⟨hlen, hfits, rfl⟩ := (readMany_eq_some_iff hread).mp hitems
    refine ⟨hlen ▸ not_lt.mp hmany, hfits, ?_⟩
    rw [writeList, hlen, leBytes_leNat, List.append_assoc]
  · rintro ⟨hle, hfits, rfl⟩
    have hcount := readLe_append (leBytes w l.length) ((l.map write).flatten ++ q)
    rw [length_leBytes, leNat_leBytes_of_lt (lt_of_le_of_lt hle hcap)] at hcount
    rw [readList, writeList, List.append_assoc, hcount]
    show (if cap < l.length then none
      else if ((l.map write).flatten ++ q).length < l.length * item then none
      else readMany read l.length ((l.map write).flatten ++ q)) = some (l, q)
    have hroom : l.length * item ≤ ((l.map write).flatten ++ q).length := by
      rw [List.length_append]
      exact (length_flatten_ge hitem l).trans (Nat.le_add_right _ _)
    rw [if_neg (not_lt.mpr hle), if_neg (not_lt.mpr hroom)]
    exact (readMany_eq_some_iff hread).mpr ⟨rfl, hfits, rfl⟩

/-- A list of items that every value fits. -/
theorem readList_eq_some_iff_of_forall {α : Type} {w cap item : Nat}
    {read : Bytes → Option (α × Bytes)} {write : α → Bytes} (hcap : cap < 256 ^ w)
    (hread : ∀ p a q, read p = some (a, q) ↔ p = write a ++ q)
    (hitem : ∀ a, item ≤ (write a).length) {l : List α} :
    readList w cap item read p = some (l, q) ↔ l.length ≤ cap ∧ p = writeList w write l ++ q := by
  have hfits : ∀ p a q, read p = some (a, q) ↔ True ∧ p = write a ++ q := by
    intro p a q
    rw [hread, true_and]
  rw [readList_eq_some_iff hcap hfits hitem]
  exact and_congr_right fun _ => and_iff_right fun _ _ => trivial

@[simp] theorem readMerklePath_eq_some_iff {l : List Hash256} :
    readMerklePath p = some (l, q) ↔ l.length ≤ maxMerklePath ∧ p = writeMerklePath l ++ q :=
  readList_eq_some_iff_of_forall (by decide) (fun _ _ _ => readU256_eq_some_iff)
    fun _ => Nat.zero_le _

@[simp] theorem readWtxidList_eq_some_iff {l : List Hash256} :
    readWtxidList p = some (l, q) ↔ l.length ≤ maxJdTxns ∧ p = writeWtxidList l ++ q :=
  readList_eq_some_iff_of_forall (by decide) (fun _ _ _ => readU256_eq_some_iff)
    fun a => (length_writeU256 a).ge

@[simp] theorem readPositionList_eq_some_iff {l : List UInt16} :
    readPositionList p = some (l, q) ↔ l.length ≤ maxJdTxns ∧ p = writePositionList l ++ q :=
  readList_eq_some_iff_of_forall (by decide) (fun _ _ _ => readU16_eq_some_iff)
    fun a => (length_writeU16 a).ge

@[simp] theorem readTransactions_eq_some_iff {l : List Bytes} :
    readTransactions p = some (l, q) ↔
      l.length ≤ maxJdTxns ∧ (∀ tx ∈ l, tx.length ≤ maxTxBytes) ∧ p = writeTransactions l ++ q :=
  readList_eq_some_iff (by decide) (fun _ _ _ => readB016m_eq_some_iff) fun a => by
    rw [writeB016m, length_writeBlob]
    exact Nat.le_add_right 3 _

theorem length_writeList {α : Type} (w : Nat) (write : α → Bytes) (l : List α) :
    (writeList w write l).length = w + (l.map fun a => (write a).length).sum := by
  rw [writeList, List.length_append, length_leBytes, List.length_flatten, List.map_map]
  rfl

/-- A list of items of one length. -/
theorem length_writeList_const {α : Type} (w : Nat) {write : α → Bytes} {n : Nat}
    (h : ∀ a, (write a).length = n) (l : List α) :
    (writeList w write l).length = w + l.length * n := by
  rw [length_writeList, funext h, List.map_const', List.sum_replicate_nat]

@[simp] theorem length_writeMerklePath (l : List Hash256) :
    (writeMerklePath l).length = 1 + l.length * 32 :=
  length_writeList_const 1 length_writeU256 l

@[simp] theorem length_writeWtxidList (l : List Hash256) :
    (writeWtxidList l).length = 2 + l.length * 32 :=
  length_writeList_const 2 length_writeU256 l

@[simp] theorem length_writePositionList (l : List UInt16) :
    (writePositionList l).length = 2 + l.length * 2 :=
  length_writeList_const 2 length_writeU16 l

theorem length_writeTransactions (l : List Bytes) :
    (writeTransactions l).length = 2 + (l.map fun tx => 3 + tx.length).sum := by
  rw [writeTransactions, length_writeList]
  simp only [writeB016m, length_writeBlob]

end Lists

/-! ### Options and bits -/

/-- `sv2_read_option_u32`: the value of an option that is absent is 0. -/
def readOptionU32 (p : Bytes) : Option ((Bool × UInt32) × Bytes) := do
  let (n, p) ← readU8 p
  if 1 < n then none
  else if n = 0 then some ((false, 0), p)
  else do
    let (v, p) ← readU32 p
    some ((true, v), p)

/-- `sv2_write_option_u32` -/
def writeOptionU32 (present : Bool) (v : UInt32) : Bytes :=
  if present then writeU8 1 ++ writeU32 v else writeU8 0

/-- `sv2_read_bool` -/
def readBool (p : Bytes) : Option (Bool × Bytes) := do
  let (b, p) ← readU8 p
  some (b &&& 1 != 0, p)

/-- `sv2_write_bool` -/
def writeBool (v : Bool) : Bytes := writeU8 (if v then 1 else 0)

section Options

variable {p q : Bytes} {v : UInt32}

@[simp] theorem readOptionU32_eq_some_iff {present : Bool} :
    readOptionU32 p = some ((present, v), q) ↔
      (present = false → v = 0) ∧ p = writeOptionU32 present v ++ q := by
  constructor
  · intro h
    obtain ⟨⟨n, r⟩, hr, h⟩ := Option.bind_eq_some_iff.mp h
    rw [readU8_eq_some_iff] at hr
    dsimp only at h
    split_ifs at h with hmany habsent
    · obtain ⟨hoption, rfl⟩ := Prod.mk.inj (Option.some.inj h)
      obtain ⟨rfl, rfl⟩ := Prod.mk.inj hoption
      refine ⟨fun _ => rfl, ?_⟩
      rw [hr, habsent]
      rfl
    · obtain ⟨⟨v', r'⟩, hr', h⟩ := Option.bind_eq_some_iff.mp h
      obtain ⟨hoption, rfl⟩ := Prod.mk.inj (Option.some.inj h)
      obtain ⟨rfl, rfl⟩ := Prod.mk.inj hoption
      have hone : n = 1 := UInt8.le_antisymm (UInt8.not_lt.mp hmany)
        (UInt8.not_lt.mp fun hlt => habsent (UInt8.lt_one_iff.mp hlt))
      rw [readU32_eq_some_iff] at hr'
      refine ⟨(fun hno => by cases hno), ?_⟩
      rw [hr, hr', hone, writeOptionU32, if_pos rfl, List.append_assoc]
  · rintro ⟨habsent, rfl⟩
    cases present with
    | false =>
      have hr := readU8_eq_some_iff.mpr (rfl : writeU8 0 ++ q = writeU8 0 ++ q)
      rw [readOptionU32, writeOptionU32, if_neg Bool.false_ne_true, hr, habsent rfl]
      rfl
    | true =>
      have hr := readU8_eq_some_iff.mpr
        (rfl : writeU8 1 ++ (writeU32 v ++ q) = writeU8 1 ++ (writeU32 v ++ q))
      have hr' := readU32_eq_some_iff.mpr (rfl : writeU32 v ++ q = writeU32 v ++ q)
      rw [readOptionU32, writeOptionU32, if_pos rfl, List.append_assoc, hr]
      refine Option.bind_eq_some_iff.mpr ⟨(1, writeU32 v ++ q), rfl, ?_⟩
      dsimp only
      rw [if_neg (by decide), if_neg (by decide), hr']
      rfl

@[simp] theorem length_writeOptionU32 (present : Bool) (v : UInt32) :
    (writeOptionU32 present v).length = 1 + if present then 4 else 0 := by
  cases present with
  | false => exact length_writeU8 0
  | true =>
    rw [writeOptionU32, if_pos rfl, List.length_append, length_writeU8, length_writeU32]
    rfl

@[simp] theorem length_writeBool (v : Bool) : (writeBool v).length = 1 := length_writeU8 _

theorem readBool_eq_some_iff {v : Bool} :
    readBool p = some (v, q) ↔ ∃ b : UInt8, (b &&& 1 != 0) = v ∧ p = writeU8 b ++ q := by
  rw [readBool, Option.bind_eq_bind, Option.bind_eq_some_iff]
  constructor
  · rintro ⟨⟨b, r⟩, hr, heq⟩
    obtain ⟨rfl, rfl⟩ := Prod.mk.inj (Option.some.inj heq)
    exact ⟨b, rfl, readU8_eq_some_iff.mp hr⟩
  · rintro ⟨b, rfl, hp⟩
    exact ⟨(b, q), readU8_eq_some_iff.mpr hp, rfl⟩

end Options

/-! ### Encoders -/

/-- `finish_encode` -/
def finishEncode (bufsz : Nat) (out : Bytes) : Option Bytes :=
  if bufsz < out.length then none else some out

/-- An encoder: with room for `need` bytes the fields are written one after another. -/
def encodeFields (bufsz need : Nat) (fields : List Bytes) : Option Bytes :=
  if bufsz < need then none else finishEncode bufsz fields.flatten

/-- Where the size is the right one, a buffer with room for it is enough. -/
theorem encodeFields_of_le {bufsz need : Nat} {fields : List Bytes}
    (h : fields.flatten.length = need) (hle : need ≤ bufsz) :
    encodeFields bufsz need fields = some fields.flatten := by
  rw [encodeFields, if_neg (not_lt.mpr hle), finishEncode, h, if_neg (not_lt.mpr hle)]

theorem encodeFields_need {need : Nat} {fields : List Bytes} (h : fields.flatten.length = need) :
    encodeFields need need fields = some fields.flatten :=
  encodeFields_of_le h le_rfl

end CashStratum
