/-
CashStratum/ByteString.lean

Byte strings and fixed-width integers in them.  A byte string is a list of
octets; a `w`-byte field holding the number `n` is `leBytes w n` (least
significant byte first) or `beBytes w n`.  Reading a field back is `leNat` /
`beNat`, and the two directions are inverse on fields of the right width.

A digest is a byte string that carries its own length (`Hash256`), so no later
statement has to assume that a node of a merkle tree has 32 bytes.
-/
import Mathlib.Data.List.Basic
import Mathlib.Tactic.Ring

namespace CashStratum

/-- A string of octets. -/
abbrev Bytes := List UInt8

/-! ### Fixed-width integers -/

/-- The low `w` bytes of `n`, least significant first. -/
@[grind =] def leBytes : Nat → Nat → Bytes
  | 0, _ => []
  | w + 1, n => UInt8.ofNat n :: leBytes w (n / 256)

/-- The low `w` bytes of `n`, most significant first. -/
@[grind =] def beBytes (w n : Nat) : Bytes := (leBytes w n).reverse

/-- The number whose bytes, least significant first, are `bs`. -/
@[grind =] def leNat : Bytes → Nat
  | [] => 0
  | b :: bs => b.toNat + 256 * leNat bs

/-- The number whose bytes, most significant first, are `bs`. -/
@[grind =] def beNat (bs : Bytes) : Nat := leNat bs.reverse

@[simp] theorem length_leBytes (w n : Nat) : (leBytes w n).length = w := by
  induction w generalizing n with
  | zero => rfl
  | succ w ih => simp [leBytes, ih]

@[simp] theorem length_beBytes (w n : Nat) : (beBytes w n).length = w := by
  simp [beBytes]

theorem leNat_lt (bs : Bytes) : leNat bs < 256 ^ bs.length := by
  induction bs with
  | nil => simp [leNat]
  | cons b bs ih =>
    have hb : b.toNat < 256 := b.toNat_lt
    have hstep : b.toNat + 256 * leNat bs < 256 * (leNat bs + 1) := by omega
    calc leNat (b :: bs) = b.toNat + 256 * leNat bs := rfl
      _ < 256 * (leNat bs + 1) := hstep
      _ ≤ 256 * 256 ^ bs.length := Nat.mul_le_mul_left _ ih
      _ = 256 ^ (b :: bs).length := by rw [List.length_cons, pow_succ]; ring

/-- Reading a field back gives the number it was written from, up to what the
width cuts off. -/
theorem leNat_leBytes (w n : Nat) : leNat (leBytes w n) = n % 256 ^ w := by
  induction w generalizing n with
  | zero => simp [leBytes, leNat, Nat.mod_one]
  | succ w ih =>
    have hb : (UInt8.ofNat n).toNat = n % 256 := by simp
    rw [leBytes, leNat, ih, hb, pow_succ, Nat.mul_comm (256 ^ w) 256, Nat.mod_mul]

theorem leNat_leBytes_of_lt {w n : Nat} (h : n < 256 ^ w) : leNat (leBytes w n) = n := by
  rw [leNat_leBytes, Nat.mod_eq_of_lt h]

/-- A byte string is the field of the number it spells. -/
theorem leBytes_leNat (bs : Bytes) : leBytes bs.length (leNat bs) = bs := by
  induction bs with
  | nil => rfl
  | cons b bs ih =>
    have hb : b.toNat < 256 := b.toNat_lt
    have hlow : UInt8.ofNat (b.toNat + 256 * leNat bs) = b := by
      apply UInt8.toNat_inj.mp
      rw [UInt8.toNat_ofNat']
      omega
    have hhigh : (b.toNat + 256 * leNat bs) / 256 = leNat bs := by omega
    rw [List.length_cons, leBytes, leNat, hlow, hhigh, ih]

theorem leBytes_mod (w n : Nat) : leBytes w (n % 256 ^ w) = leBytes w n := by
  rw [← leNat_leBytes]
  simpa only [length_leBytes] using leBytes_leNat (leBytes w n)

/-- A field one byte wider has one more byte at the end. -/
theorem leBytes_succ_last (w n : Nat) :
    leBytes (w + 1) n = leBytes w n ++ [UInt8.ofNat (n / 256 ^ w)] := by
  induction w generalizing n with
  | zero => simp [leBytes]
  | succ w ih =>
    rw [leBytes, ih, leBytes, List.cons_append, Nat.div_div_eq_div_mul, pow_succ, Nat.mul_comm 256]

theorem beNat_lt (bs : Bytes) : beNat bs < 256 ^ bs.length := by
  simpa [beNat] using leNat_lt bs.reverse

theorem beNat_beBytes (w n : Nat) : beNat (beBytes w n) = n % 256 ^ w := by
  rw [beNat, beBytes, List.reverse_reverse, leNat_leBytes]

theorem beBytes_beNat (bs : Bytes) : beBytes bs.length (beNat bs) = bs := by
  have h := leBytes_leNat bs.reverse
  rw [List.length_reverse] at h
  rw [beBytes, beNat, h, List.reverse_reverse]

theorem leBytes_injOn {w m n : Nat} (hm : m < 256 ^ w) (hn : n < 256 ^ w)
    (h : leBytes w m = leBytes w n) : m = n := by
  rw [← leNat_leBytes_of_lt hm, ← leNat_leBytes_of_lt hn, h]

/-! ### Bitwise or -/

/-- Two strings, or-ed byte by byte. -/
def orBytes (a b : Bytes) : Bytes := List.zipWith (· ||| ·) a b

theorem leBytes_or (w m n : Nat) : leBytes w (m ||| n) = orBytes (leBytes w m) (leBytes w n) := by
  induction w generalizing m n with
  | zero => rfl
  | succ w ih =>
    have hdiv : (m ||| n) / 256 = m / 256 ||| n / 256 := Nat.or_div_two_pow (n := 8)
    rw [leBytes, UInt8.ofNat_or, hdiv, ih]
    rfl

/-- The bytes of a field can be or-ed in either order. -/
theorem beBytes_or (w m n : Nat) : beBytes w (m ||| n) = orBytes (beBytes w m) (beBytes w n) := by
  rw [beBytes, leBytes_or, orBytes, List.reverse_zipWith (by simp)]
  rfl

/-! ### Stores into a buffer -/

/-- `memcpy(data + ofs, bytes, …)`. -/
def overwrite (data : Bytes) (ofs : Nat) (bytes : Bytes) : Bytes :=
  data.take ofs ++ bytes ++ data.drop (ofs + bytes.length)

/-- A store replaces what stood at its place and nothing else. -/
theorem overwrite_append {a x y : Bytes} {ofs : Nat} (hofs : a.length = ofs)
    (hlen : x.length = y.length) (b : Bytes) :
    overwrite (a ++ (x ++ b)) ofs y = a ++ (y ++ b) := by
  subst hofs
  rw [overwrite, List.take_left, ← hlen, ← List.append_assoc a x b, ← List.length_append,
    List.drop_left, List.append_assoc]

/-! ### C strings -/

/-- A string as C sees it, up to its first zero byte. -/
def cstr (bytes : Bytes) : Bytes := bytes.takeWhile (· ≠ 0)

/-! ### Digests -/

/-- A 32-byte string: a digest, a node of a merkle tree, a block hash. -/
def Hash256 := { b : Bytes // b.length = 32 }

namespace Hash256

/-- The bytes of a digest. -/
def bytes (h : Hash256) : Bytes := h.1

@[simp] theorem length_bytes (h : Hash256) : h.bytes.length = 32 := h.2

@[ext] theorem ext {a b : Hash256} (h : a.bytes = b.bytes) : a = b := Subtype.ext h

instance : DecidableEq Hash256 := inferInstanceAs (DecidableEq { b : Bytes // b.length = 32 })

/-- The 32 zero bytes. -/
def zero : Hash256 := ⟨List.replicate 32 0, by simp⟩

instance : Inhabited Hash256 := ⟨zero⟩

end Hash256

end CashStratum
