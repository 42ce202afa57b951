/-
CashStratum/Sha2Stream.lean

The streaming interface of `sha2.c` against the standard.

`sha256_update` hashes whole blocks as they fill and buffers the rest, and `sha256_final` closes
the buffer with one block or two.  The digest is the fold of the compression over the message and
its padding, in whatever pieces the message came (`sha256_chunks`).  The bit length has 32 bits
only, so this is the padding of the standard below `2 ^ 29` bytes; that far no length and no index
of the source wraps either.
-/
import CashStratum.BlockBuffer
import CashStratum.Sha2

namespace CashStratum

/-! ### The padding of the standard -/

/-- The message, a bit, zeros up to the last eight bytes of a block, and the length in bits. -/
def paddedMessage (message : Bytes) : Bytes :=
  message ++ 0x80 :: List.replicate ((119 - message.length % 64) % 64) 0 ++
    beBytes 8 (8 * message.length)

/-- The digest of the standard: the compression of block after block. -/
def standardSha256 (message : Bytes) : Bytes :=
  unpackWords (absorb sha256Block 64 ((paddedMessage message).length / 64) sha256H0
    (paddedMessage message))

theorem sha256Transf_eq (s : Sha256State) (message : Bytes) (n : Nat) :
    sha256Transf s message n = absorb sha256Block 64 n s message := by
  induction n generalizing s message with
  | zero => rfl
  | succ n ih => rw [sha256Transf, absorb, ih]

/-! ### Streaming -/

/-- The context has taken `message`. -/
structure Streams (ctx : Sha256Ctx) (message : Bytes) : Prop where
  buffered : Buffered sha256Block 64 sha256H0 ctx.h ctx.block message
  totLen : ctx.totLen = UInt32.ofNat (message.length - ctx.block.length)
  block_le : ctx.block.length ≤ message.length

theorem streams_init : Streams sha256Init [] := ⟨Buffered.nil (by decide), rfl, le_rfl⟩

/-- A piece is kept, or it fills the buffer. -/
theorem Streams.update {ctx : Sha256Ctx} {message : Bytes} (h : Streams ctx message)
    (piece : Bytes) : Streams (sha256Update ctx piece) (message ++ piece) := by
  have hshort := h.buffered.short
  have hle := h.block_le
  rw [sha256Update]
  dsimp only
  by_cases hkeep : ctx.block.length + piece.length < 64
  -- the early return: the piece does not fill the buffer
  · have hrem : (if piece.length < 64 - ctx.block.length then piece.length
        else 64 - ctx.block.length) = piece.length := if_pos (by omega)
    rw [if_pos hkeep, hrem, List.take_length]
    refine ⟨h.buffered.keep hkeep, ?_, ?_⟩
    · dsimp only
      rw [h.totLen, List.length_append, List.length_append, Nat.add_sub_add_right]
    · dsimp only
      rw [List.length_append, List.length_append]
      omega
  -- the buffer is hashed, then the whole blocks of the piece, and the rest is kept
  · have hrem : (if piece.length < 64 - ctx.block.length then piece.length
        else 64 - ctx.block.length) = 64 - ctx.block.length := if_neg (by omega)
    rw [if_neg hkeep, hrem]
    have hblocks : (piece.length - (64 - ctx.block.length)) / 64 =
        (piece.drop (64 - ctx.block.length)).length / 64 := by rw [List.length_drop]
    have hflush := h.buffered.flush (Nat.not_lt.mp hkeep) rfl hblocks
    have hlen := congrArg List.length hflush.split.choose_spec.choose_spec.1
    have hdiv := Nat.div_mul_le_self (piece.length - (64 - ctx.block.length)) 64
    refine ⟨?_, ?_, ?_⟩
    · dsimp only
      rw [sha256Transf_eq, sha256Transf_eq]
      exact hflush
    · dsimp only
      rw [h.totLen, ← UInt32.ofNat_add, List.length_append, List.length_drop, List.length_drop]
      congr 1
      omega
    · dsimp only
      rw [List.length_append, List.length_drop, List.length_drop]
      omega

theorem Streams.updates {ctx : Sha256Ctx} {message : Bytes} (h : Streams ctx message)
    (chunks : List Bytes) :
    Streams (chunks.foldl sha256Update ctx) (message ++ chunks.flatten) := by
  induction chunks generalizing ctx message with
  | nil =>
    rw [List.flatten_nil, List.append_nil]
    exact h
  | cons chunk chunks ih =>
    rw [List.foldl_cons, List.flatten_cons, ← List.append_assoc]
    exact ih (h.update chunk)

theorem sha256Ctx_ext {ctx ctx' : Sha256Ctx} (htotLen : ctx.totLen = ctx'.totLen)
    (hblock : ctx.block = ctx'.block) (hh : ctx.h = ctx'.h) : ctx = ctx' := by
  cases ctx
  cases ctx'
  dsimp only at htotLen hblock hh
  rw [htotLen, hblock, hh]

/-- The context does not depend on the pieces. -/
theorem Streams.unique {ctx ctx' : Sha256Ctx} {message : Bytes} (h : Streams ctx message)
    (h' : Streams ctx' message) : ctx = ctx' := by
  have hblock : ctx.block = ctx'.block := h.buffered.eq.2.trans h'.buffered.eq.2.symm
  refine sha256Ctx_ext ?_ hblock (h.buffered.eq.1.trans h'.buffered.eq.1.symm)
  rw [h.totLen, h'.totLen, hblock]

/-! ### The last blocks -/

/-- The blocks that `sha256_final` closes the buffer with. -/
def lastCount (ctx : Sha256Ctx) : Nat := if 64 - 9 < ctx.block.length % 64 then 2 else 1

/-- What `sha256_final` makes of the buffer. -/
def lastBlocks (ctx : Sha256Ctx) : Bytes :=
  ctx.block ++ (0x80 : UInt8) :: List.replicate (lastCount ctx * 64 - ctx.block.length - 5) 0 ++
    beBytes 4 ((ctx.totLen + UInt32.ofNat ctx.block.length) <<< 3).toNat

theorem leBytes_add (w v n : Nat) : leBytes (w + v) n = leBytes w n ++ leBytes v (n / 256 ^ w) := by
  induction w generalizing n with
  | zero => simp [leBytes]
  | succ w ih =>
    rw [Nat.succ_add, leBytes, leBytes, ih, List.cons_append, Nat.div_div_eq_div_mul, pow_succ',
      Nat.mul_comm]

theorem leBytes_zero (w : Nat) : leBytes w 0 = List.replicate w 0 := by
  induction w with
  | zero => rfl
  | succ w ih => rw [leBytes, Nat.zero_div, ih, List.replicate_succ]; rfl

/-- A short number leaves the first half of eight bytes zero. -/
theorem beBytes_eight {n : Nat} (h : n < 2 ^ 32) :
    beBytes 8 n = List.replicate 4 0 ++ beBytes 4 n := by
  have hhigh : n / 256 ^ 4 = 0 := Nat.div_eq_of_lt (by omega)
  rw [beBytes, leBytes_add 4 4, hhigh, leBytes_zero, List.reverse_append, List.reverse_replicate,
    beBytes]

/-- The bit length that the last block gets. -/
theorem toNat_bitLength {n : Nat} (h : n < 2 ^ 29) : (UInt32.ofNat n <<< 3).toNat = 8 * n := by
  have hmod : n % 4294967296 = n := Nat.mod_eq_of_lt (by omega)
  have h8 : 8 * n % 4294967296 = 8 * n := Nat.mod_eq_of_lt (by omega)
  rw [UInt32.toNat_shiftLeft, UInt32.toNat_ofNat', hmod]
  simp only [UInt32.reduceToNat, Nat.shiftLeft_eq]
  rw [show n * 2 ^ (3 % 32) = 8 * n from Nat.mul_comm n 8]
  exact h8

/-- What is buffered, closed as the source does it, ends the padded message. -/
theorem Streams.padded {ctx : Sha256Ctx} {message : Bytes} (h : Streams ctx message)
    (hlen : message.length < 2 ^ 29) :
    ∃ k whole, whole.length = k * 64 ∧ ctx.h = absorb sha256Block 64 k sha256H0 whole ∧
      paddedMessage message = whole ++ lastBlocks ctx := by
  have hshort := h.buffered.short
  have hle := h.block_le
  obtain ⟨k, whole, hmessage, hwhole, hstate⟩ := h.buffered.split
  have hbits : ((ctx.totLen + UInt32.ofNat ctx.block.length) <<< 3).toNat = 8 * message.length := by
    rw [h.totLen, ← UInt32.ofNat_add, Nat.sub_add_cancel hle, toNat_bitLength hlen]
  have hmod : message.length % 64 = ctx.block.length := by
    rw [hmessage, List.length_append, hwhole]
    omega
  -- the source writes the last four of the eight bytes of the length
  have hzeros : lastCount ctx * 64 - ctx.block.length - 5 =
      (119 - message.length % 64) % 64 + 4 := by
    rw [hmod, lastCount, Nat.mod_eq_of_lt hshort]
    split_ifs <;> omega
  refine ⟨k, whole, hwhole, hstate, ?_⟩
  rw [lastBlocks, hbits, hzeros, paddedMessage, beBytes_eight (by omega), List.replicate_add]
  simp only [List.append_assoc, List.cons_append]
  generalize (128 : UInt8) :: (List.replicate ((119 - message.length % 64) % 64) 0 ++
    (List.replicate 4 0 ++ beBytes 4 (8 * message.length))) = ending
  rw [hmessage, List.append_assoc]

/-- **The digest of a context** is the one of the standard. -/
theorem Streams.final {ctx : Sha256Ctx} {message : Bytes} (h : Streams ctx message)
    (hlen : message.length < 2 ^ 29) : (sha256Final ctx).bytes = standardSha256 message := by
  have hshort := h.buffered.short
  obtain ⟨k, whole, hwhole, hstate, hpadded⟩ := h.padded hlen
  have hlast : (lastBlocks ctx).length = lastCount ctx * 64 := by
    rw [lastBlocks, lastCount, List.length_append, List.length_append, List.length_cons,
      List.length_replicate, length_beBytes, Nat.mod_eq_of_lt hshort]
    split_ifs <;> omega
  have hblocks : (paddedMessage message).length / 64 =
      k + lastCount ctx := by
    rw [hpadded, List.length_append, hlast, hwhole, ← Nat.add_mul, Nat.mul_div_cancel _ (by decide)]
  rw [standardSha256, hblocks, absorb_add, hpadded, absorb_append _ _ hwhole.ge,
    List.drop_left' hwhole, ← hstate, ← sha256Transf_eq]
  rfl

/-- **The digest is the one of the standard, in whatever pieces the message comes.**  Below `2 ^ 29`
bytes the pieces do not matter, and the digest is that of the padded message. -/
theorem sha256_chunks (chunks : List Bytes) (hlen : chunks.flatten.length < 2 ^ 29) :
    sha256Final (chunks.foldl sha256Update sha256Init) = sha256 chunks.flatten ∧
      (sha256Final (chunks.foldl sha256Update sha256Init)).bytes =
        standardSha256 chunks.flatten := by
  have hchunks : Streams (chunks.foldl sha256Update sha256Init) chunks.flatten :=
    streams_init.updates chunks
  have hwhole : Streams (sha256Update sha256Init chunks.flatten) chunks.flatten :=
    streams_init.update chunks.flatten
  refine ⟨?_, hchunks.final hlen⟩
  rw [hchunks.unique hwhole]
  unfold sha256
  rfl

/-- The letters `abc` in two pieces. -/
theorem sha256_chunks_abc :
    sha256Final ([[97], [98, 99]].foldl sha256Update sha256Init) = sha256 [97, 98, 99] ∧
      (sha256Final ([[97], [98, 99]].foldl sha256Update sha256Init)).bytes =
        standardSha256 [97, 98, 99] :=
  sha256_chunks [[97], [98, 99]] (by decide)

end CashStratum
