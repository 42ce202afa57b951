/-
CashStratum/Sha2.lean

The SHA-256 of `sha2.c` (its portable branch; the assembly variants compute the
same function) and the double hash `gen_hash` of `libckpool.c`, which every
other module calls.  A context carries the chaining words, the bytes buffered
in `block` and the two counters; `sha256` runs init, one update and final, as
the C function does.

`sha256` is marked irreducible: no theorem about the pool looks inside the
compression function, but closed instances can still be evaluated.
-/
import CashStratum.ByteString

namespace CashStratum

/-! ### The compression function -/

/-- The eight chaining words `h[8]`, and the working variables `wv[8]`. -/
structure Sha256State where
  a : UInt32
  b : UInt32
  c : UInt32
  d : UInt32
  e : UInt32
  f : UInt32
  g : UInt32
  h : UInt32
  deriving DecidableEq

/-- `sha256_h0`. -/
def sha256H0 : Sha256State where
  a := 0x6a09e667
  b := 0xbb67ae85
  c := 0x3c6ef372
  d := 0xa54ff53a
  e := 0x510e527f
  f := 0x9b05688c
  g := 0x1f83d9ab
  h := 0x5be0cd19

/-- `sha256_k`. -/
def sha256K : List UInt32 :=
  [0x428a2f98, 0x71374491, 0xb5c0fbcf, 0xe9b5dba5, 0x3956c25b, 0x59f111f1, 0x923f82a4, 0xab1c5ed5,
   0xd807aa98, 0x12835b01, 0x243185be, 0x550c7dc3, 0x72be5d74, 0x80deb1fe, 0x9bdc06a7, 0xc19bf174,
   0xe49b69c1, 0xefbe4786, 0x0fc19dc6, 0x240ca1cc, 0x2de92c6f, 0x4a7484aa, 0x5cb0a9dc, 0x76f988da,
   0x983e5152, 0xa831c66d, 0xb00327c8, 0xbf597fc7, 0xc6e00bf3, 0xd5a79147, 0x06ca6351, 0x14292967,
   0x27b70a85, 0x2e1b2138, 0x4d2c6dfc, 0x53380d13, 0x650a7354, 0x766a0abb, 0x81c2c92e, 0x92722c85,
   0xa2bfe8a1, 0xa81a664b, 0xc24b8b70, 0xc76c51a3, 0xd192e819, 0xd6990624, 0xf40e3585, 0x106aa070,
   0x19a4c116, 0x1e376c08, 0x2748774c, 0x34b0bcb5, 0x391c0cb3, 0x4ed8aa4a, 0x5b9cca4f, 0x682e6ff3,
   0x748f82ee, 0x78a5636f, 0x84c87814, 0x8cc70208, 0x90befffa, 0xa4506ceb, 0xbef9a3f7, 0xc67178f2]

/-- `ROTR(x, n)` on 32-bit words. -/
def rotr (x n : UInt32) : UInt32 := (x >>> n) ||| (x <<< (32 - n))

/-- `CH(x, y, z)`. -/
def ch (x y z : UInt32) : UInt32 := (x &&& y) ^^^ (~~~x &&& z)

/-- `MAJ(x, y, z)`. -/
def maj (x y z : UInt32) : UInt32 := (x &&& y) ^^^ (x &&& z) ^^^ (y &&& z)

/-- `SHA256_F1(x)`. -/
def sha256F1 (x : UInt32) : UInt32 := rotr x 2 ^^^ rotr x 13 ^^^ rotr x 22

/-- `SHA256_F2(x)`. -/
def sha256F2 (x : UInt32) : UInt32 := rotr x 6 ^^^ rotr x 11 ^^^ rotr x 25

/-- `SHA256_F3(x)`. -/
def sha256F3 (x : UInt32) : UInt32 := rotr x 7 ^^^ rotr x 18 ^^^ (x >>> 3)

/-- `SHA256_F4(x)`. -/
def sha256F4 (x : UInt32) : UInt32 := rotr x 17 ^^^ rotr x 19 ^^^ (x >>> 10)

/-- The words `PACK32` reads off a block, in order. -/
def packWords : Bytes → List UInt32
  | b0 :: b1 :: b2 :: b3 :: bs => UInt32.ofNat (beNat [b0, b1, b2, b3]) :: packWords bs
  | _ => []

/-- `SHA256_SCR`, `n` times: the schedule is kept newest word first, so
`w[i - k]` is its entry `k - 1`. -/
def sha256Scr : Nat → List UInt32 → List UInt32
  | 0, w => w
  | n + 1, w =>
    sha256Scr n ((sha256F4 (w.getD 1 0) + w.getD 6 0 + sha256F3 (w.getD 14 0) + w.getD 15 0) :: w)

/-- One of the 64 rounds. -/
def sha256Round (s : Sha256State) (kw : UInt32 × UInt32) : Sha256State :=
  let t1 := s.h + sha256F2 s.e + ch s.e s.f s.g + kw.1 + kw.2
  let t2 := sha256F1 s.a + maj s.a s.b s.c
  { a := t1 + t2, b := s.a, c := s.b, d := s.c, e := s.d + t1, f := s.e, g := s.f, h := s.g }

/-- One block of `sha256_transf`. -/
def sha256Block (s : Sha256State) (block : Bytes) : Sha256State :=
  let w := (sha256Scr 48 (packWords block).reverse).reverse
  let v := (sha256K.zip w).foldl sha256Round s
  { a := s.a + v.a, b := s.b + v.b, c := s.c + v.c, d := s.d + v.d,
    e := s.e + v.e, f := s.f + v.f, g := s.g + v.g, h := s.h + v.h }

/-- `sha256_transf(ctx, message, block_nb)`, below `2 ^ 25` blocks: from there on the `i << 6` of
the source leaves its `int`. -/
def sha256Transf : Sha256State → Bytes → Nat → Sha256State
  | s, _, 0 => s
  | s, message, n + 1 => sha256Transf (sha256Block s (message.take 64)) (message.drop 64) n

/-! ### The streaming interface -/

/-- `sha256_ctx`: `ctx->len` is the length of the buffered bytes. -/
structure Sha256Ctx where
  totLen : UInt32
  block : Bytes
  h : Sha256State

/-- `sha256_init`. -/
def sha256Init : Sha256Ctx where
  totLen := 0
  block := []
  h := sha256H0

/-- `sha256_update`, for a message that does not take `ctx->len + len` to `2 ^ 32`: the sum is an
`unsigned int` in the source. -/
def sha256Update (ctx : Sha256Ctx) (message : Bytes) : Sha256Ctx :=
  let tmpLen := 64 - ctx.block.length
  let remLen := if message.length < tmpLen then message.length else tmpLen
  let block := ctx.block ++ message.take remLen
  if ctx.block.length + message.length < 64 then
    { ctx with block := block }
  else
    let shifted := message.drop remLen
    let blockNb := (message.length - remLen) / 64
    { totLen := ctx.totLen + UInt32.ofNat ((blockNb + 1) * 64)
      block := shifted.drop (blockNb * 64)
      h := sha256Transf (sha256Transf ctx.h block 1) shifted blockNb }

/-- The digest bytes `UNPACK32` writes. -/
def unpackWords (s : Sha256State) : Bytes :=
  beBytes 4 s.a.toNat ++ beBytes 4 s.b.toNat ++ beBytes 4 s.c.toNat ++ beBytes 4 s.d.toNat ++
    (beBytes 4 s.e.toNat ++ beBytes 4 s.f.toNat ++ beBytes 4 s.g.toNat ++ beBytes 4 s.h.toNat)

/-- `sha256_final`: the bit length has 32 bits and fills the last four bytes
only. -/
def sha256Final (ctx : Sha256Ctx) : Hash256 :=
  let blockNb := if 64 - 9 < ctx.block.length % 64 then 2 else 1
  let lenB := (ctx.totLen + UInt32.ofNat ctx.block.length) <<< 3
  let pmLen := blockNb * 64
  let padded := ctx.block ++ 0x80 :: List.replicate (pmLen - ctx.block.length - 5) 0 ++
    beBytes 4 lenB.toNat
  ⟨unpackWords (sha256Transf ctx.h padded blockNb), by simp [unpackWords]⟩

/-- `sha256(message, len, digest)`. -/
@[irreducible] def sha256 (message : Bytes) : Hash256 :=
  sha256Final (sha256Update sha256Init message)

/-- `gen_hash(data, hash, len)`: the double hash of transaction ids, merkle
nodes and block headers. -/
def genHash (data : Bytes) : Hash256 := sha256 (sha256 data).bytes

example : (sha256 [97, 98, 99]).bytes =
    [0xba, 0x78, 0x16, 0xbf, 0x8f, 0x01, 0xcf, 0xea, 0x41, 0x41, 0x40, 0xde, 0x5d, 0xae, 0x22, 0x23,
     0xb0, 0x03, 0x61, 0xa3, 0x96, 0x17, 0x7a, 0x9c, 0xb4, 0x10, 0xff, 0x61, 0xf2, 0x00, 0x15,
     0xad] := by
  decide +kernel

end CashStratum
