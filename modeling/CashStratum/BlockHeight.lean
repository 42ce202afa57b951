/-
CashStratum/BlockHeight.lean

The height at the start of a coinbase: `ser_number` (libckpool.c) writes it on the main
network, `ser_bip34_height` (stratifier.c) on a regtest one, and `get_sernumber` reads
it back.

What validation expects is the shortest push of the height.  `pushedNumber` is what a
push leaves on the stack of the script language, so the shortest push can be stated
without either serialiser: `IsShortestPush`.  `ser_bip34_height` writes it for every
height, `ser_number` for those above 16.
-/
import CashStratum.Coinbase
import CashStratum.Sv2ProxyShare

namespace CashStratum

/-! ### Numbers on the stack -/

/-- The number of a byte string: little-endian, with the sign in the top bit of its last
byte. -/
def scriptNum (data : Bytes) : Int :=
  if (data.getLastD 0).toNat < 128 then leNat data
  else (128 * 256 ^ (data.length - 1) : Nat) - (leNat data : Int)

/-- The number that one push puts on the stack: a push of at most 75 bytes, or one of the
opcodes for small numbers. -/
def pushedNumber : Bytes → Option Int
  | [] => none
  | op :: data =>
    if op.toNat ≤ 75 ∧ data.length = op.toNat then some (scriptNum data)
    else if op = 0x4f ∧ data = [] then some (-1)
    else if 0x51 ≤ op.toNat ∧ op.toNat ≤ 0x60 ∧ data = [] then some (op.toNat - 0x50)
    else none

/-- `push` puts `n` on the stack, and every other push that does is longer. -/
def IsShortestPush (push : Bytes) (n : Int) : Prop :=
  pushedNumber push = some n ∧
    ∀ other, pushedNumber other = some n → other = push ∨ push.length < other.length

theorem IsShortestPush.unique {push push' : Bytes} {n : Int} (h : IsShortestPush push n)
    (h' : IsShortestPush push' n) : push = push' := by
  rcases h.2 push' h'.1 with heq | hlt
  · exact heq.symm
  · rcases h'.2 push h.1 with heq | hlt'
    · exact heq
    · exact absurd hlt (Nat.lt_asymm hlt')

/-- The last byte holds the top of the number. -/
theorem toNat_getLastD {data : Bytes} {k : Nat} (hlen : data.length = k + 1) :
    (data.getLastD 0).toNat = leNat data / 256 ^ k := by
  have hlt : leNat data / 256 ^ k < 256 := by
    refine Nat.div_lt_of_lt_mul ?_
    rw [← pow_succ, ← hlen]
    exact leNat_lt data
  have hlast : data.getLastD 0 = UInt8.ofNat (leNat data / 256 ^ k) := by
    conv_lhs => rw [← leBytes_leNat data, hlen, leBytes_succ_last, List.getLastD_concat]
  rw [hlast]
  exact Nat.mod_eq_of_lt hlt

/-- A number whose top bit is clear. -/
theorem scriptNum_of_lt {data : Bytes} {k : Nat} (hlen : data.length = k + 1)
    (hlt : leNat data < 128 * 256 ^ k) : scriptNum data = leNat data := by
  rw [scriptNum, if_pos]
  rw [toNat_getLastD hlen]
  exact Nat.div_lt_of_lt_mul (by rwa [Nat.mul_comm])

/-- A positive number has its top bit clear. -/
theorem leNat_of_scriptNum {data : Bytes} {n : Nat} (hn : 0 < n) (h : scriptNum data = n) :
    ∃ k, data.length = k + 1 ∧ leNat data = n ∧ n < 128 * 256 ^ k := by
  rcases hlen : data.length with - | k
  · obtain rfl := List.length_eq_zero_iff.mp hlen
    have hzero : (0 : Int) = n := h
    omega
  · have htop := toNat_getLastD hlen
    have hpos : 0 < 256 ^ k := by positivity
    rcases Nat.lt_or_ge (leNat data) (128 * 256 ^ k) with hlt | hge
    · rw [scriptNum_of_lt hlen hlt] at h
      have hnat : leNat data = n := by exact_mod_cast h
      exact ⟨k, rfl, hnat, hnat ▸ hlt⟩
    · -- the sign is set, so the number is not positive
      have hneg : ¬ (data.getLastD 0).toNat < 128 := by
        rw [htop, Nat.not_lt]
        exact (Nat.le_div_iff_mul_le hpos).mpr hge
      rw [scriptNum, if_neg hneg, hlen, Nat.add_sub_cancel] at h
      omega

/-! ### `ser_number` -/

/-- `ser_number` of a height, and the sign bit that it leaves clear. -/
theorem serNumber_height {h : Nat} (hlt : h < 2 ^ 31) :
    ∃ k, k < 4 ∧ serNumber h = pushData (leBytes (k + 1) h) ∧ h < 128 * 256 ^ k ∧
      ∀ j < k, 128 * 256 ^ j ≤ h := by
  have hmod : ((h : Int) % 2 ^ 32).toNat = h := by omega
  have hlen := serNumberLen_pos h
  obtain ⟨k, hk⟩ : ∃ k, serNumberLen h = k + 1 := ⟨serNumberLen h - 1, by omega⟩
  refine ⟨k, by omega, ?_, ?_, ?_⟩
  · rw [serNumber_eq_pushData, hmod, hk]
  · unfold serNumberLen at hk
    split_ifs at hk <;> obtain rfl := Nat.succ.inj hk <;> norm_num <;> omega
  · intro j hj
    unfold serNumberLen at hk
    split_ifs at hk <;> obtain rfl := Nat.succ.inj hk <;> interval_cases j <;> norm_num <;> omega

/-- A push of at most 75 bytes. -/
theorem pushedNumber_pushData {data : Bytes} (hlen : data.length ≤ 75) :
    pushedNumber (pushData data) = some (scriptNum data) := by
  have hop : (UInt8.ofNat data.length).toNat = data.length := Nat.mod_eq_of_lt (by omega)
  rw [pushData, pushedNumber, hop, if_pos ⟨hlen, rfl⟩]

theorem pushedNumber_serNumber {h : Nat} (hlt : h < 2 ^ 31) :
    pushedNumber (serNumber h) = some (h : Int) := by
  obtain ⟨k, hk, hpush, htop, -⟩ := serNumber_height hlt
  have hlen : (leBytes (k + 1) h).length = k + 1 := length_leBytes _ _
  have hread : leNat (leBytes (k + 1) h) = h := by
    refine leNat_leBytes_of_lt (htop.trans ?_)
    rw [pow_succ]
    omega
  have hsign : leNat (leBytes (k + 1) h) < 128 * 256 ^ k := by
    rw [hread]
    exact htop
  rw [hpush, pushedNumber_pushData (by omega), scriptNum_of_lt hlen hsign, hread]

/-- Above the small numbers `ser_number` is as short as can be: a shorter string has no room
for the sign. -/
theorem isShortestPush_serNumber {h : Nat} (h17 : 17 ≤ h) (hlt : h < 2 ^ 31) :
    IsShortestPush (serNumber h) h := by
  refine ⟨pushedNumber_serNumber hlt, ?_⟩
  obtain ⟨k, hk, hpush, htop, hshort⟩ := serNumber_height hlt
  rintro (- | ⟨op, data⟩) hother
  · simp [pushedNumber] at hother
  · simp only [pushedNumber] at hother
    split_ifs at hother with hdirect hneg hsmall
    · obtain ⟨k', hlen, hdata, htop'⟩ :=
        leNat_of_scriptNum (by omega) (Option.some.inj hother)
      have hle : k ≤ k' := by
        by_contra hgt
        have := hshort k' (by omega)
        omega
      rcases hle.eq_or_lt with rfl | hlt'
      · left
        have hop : op = UInt8.ofNat data.length := by
          rw [hdirect.2, UInt8.ofNat_toNat]
        rw [hpush, pushData, length_leBytes, ← hlen, ← hop, ← hdata, leBytes_leNat]
      · right
        rw [hpush, pushData, List.length_cons, List.length_cons, length_leBytes, hlen]
        omega
    · have := Option.some.inj hother
      omega
    · have := Option.some.inj hother
      omega

/-! ### `ser_bip34_height` -/

theorem serBip34Height_small {h : Nat} (h16 : h ≤ 16) : (serBip34Height h).length = 1 := by
  rw [serBip34Height]
  split_ifs <;> rfl

/-- The opcodes for small numbers. -/
theorem pushedNumber_small {h : Nat} (h16 : h ≤ 16) :
    pushedNumber (serBip34Height h) = some (h : Int) := by
  interval_cases h <;> rfl

theorem isShortestPush_small {h : Nat} (h16 : h ≤ 16) : IsShortestPush (serBip34Height h) h := by
  refine ⟨pushedNumber_small h16, ?_⟩
  rintro (- | ⟨op, - | ⟨c, data⟩⟩) hother
  · simp [pushedNumber] at hother
  · -- a single byte is an opcode that stands for one number only
    left
    simp only [pushedNumber, List.length_nil] at hother
    split_ifs at hother with hdirect hneg hsmall
    · have hop : op = 0 := UInt8.toNat.inj hdirect.2.symm
      have hzero : (0 : Int) = h := Option.some.inj hother
      obtain rfl : h = 0 := by omega
      rw [hop]
      rfl
    · have := Option.some.inj hother
      omega
    · have hvalue := Option.some.inj hother
      have hop : 0x50 + h = op.toNat := by omega
      rw [serBip34Height, if_neg (by omega), if_pos h16, hop, UInt8.ofNat_toNat]
  · right
    rw [serBip34Height_small h16, List.length_cons, List.length_cons]
    omega

/-- **`ser_bip34_height` writes the shortest push** of every height. -/
theorem isShortestPush_serBip34Height {h : Nat} (hlt : h < 2 ^ 31) :
    IsShortestPush (serBip34Height h) h := by
  rcases Nat.lt_or_ge h 17 with h16 | h17
  · exact isShortestPush_small (Nat.le_of_lt_succ h16)
  · rw [serBip34Height_eq_serNumber h17 hlt]
    exact isShortestPush_serNumber h17 hlt

/-- The serialisers differ on the small numbers, where `ser_number` spends two bytes. -/
theorem serBip34Height_eq_serNumber_iff {h : Nat} (hlt : h < 2 ^ 31) :
    serBip34Height h = serNumber h ↔ 17 ≤ h := by
  constructor
  · intro heq
    by_contra hsmall
    have hlen := congrArg List.length heq
    have hpos := serNumberLen_pos h
    rw [serBip34Height_small (by omega), length_serNumber] at hlen
    omega
  · intro h17
    exact serBip34Height_eq_serNumber h17 hlt

/-! ### Reading back -/

theorem getSernumber_serNumber {h : Nat} (hlt : h < 2 ^ 31) (rest : Bytes) :
    getSernumber (serNumber h ++ rest) = h := by
  obtain ⟨k, hk, hpush, htop, -⟩ := serNumber_height hlt
  have hop : (UInt8.ofNat (k + 1)).toNat = k + 1 := Nat.mod_eq_of_lt (by omega)
  have hrange : ¬ (UInt8.ofNat (k + 1) < 1 ∨ UInt8.ofNat (k + 1) > 4) := by
    interval_cases k <;> decide
  have htake : (leBytes (k + 1) h ++ rest).take (k + 1) = leBytes (k + 1) h := by
    rw [List.take_append_of_le_length (by simp), List.take_of_length_le (by simp)]
  rw [hpush, pushData, length_leBytes, List.cons_append, getSernumber, if_neg hrange, hop, htake]
  refine leNat_leBytes_of_lt (htop.trans ?_)
  rw [pow_succ]
  omega

/-- `get_sernumber` does not know the opcodes for small numbers. -/
theorem getSernumber_serBip34Height {h : Nat} (hlt : h < 2 ^ 31) (rest : Bytes) :
    getSernumber (serBip34Height h ++ rest) = h ↔ h = 0 ∨ 17 ≤ h := by
  rcases Nat.lt_or_ge h 17 with h16 | h17
  · have hread : getSernumber (serBip34Height h ++ rest) = 0 := by
      interval_cases h <;> rfl
    omega
  · rw [serBip34Height_eq_serNumber h17 hlt, getSernumber_serNumber hlt]
    simp [h17]

/-! ### Heights -/

/-- **The height of a coinbase.**  `ser_bip34_height` writes the shortest push of every height,
and `ser_number` the same bytes exactly above the small numbers, below which it still
pushes the height, only not in the shortest way.  `get_sernumber` reads every height back
from `ser_number`, and from `ser_bip34_height` all but those with an opcode of their own. -/
theorem height_serialisers (h : Nat) (hlt : h < 2 ^ 31) :
    IsShortestPush (serBip34Height h) h ∧
      pushedNumber (serNumber h) = some (h : Int) ∧
      (serBip34Height h = serNumber h ↔ 17 ≤ h) ∧
      (IsShortestPush (serNumber h) h ↔ 17 ≤ h) ∧
      ∀ rest, getSernumber (serNumber h ++ rest) = h ∧
        (getSernumber (serBip34Height h ++ rest) = h ↔ h = 0 ∨ 17 ≤ h) := by
  have hshort := isShortestPush_serBip34Height hlt
  have hsame := serBip34Height_eq_serNumber_iff hlt
  refine ⟨hshort, pushedNumber_serNumber hlt, hsame, ?_, fun rest =>
    ⟨getSernumber_serNumber hlt rest, getSernumber_serBip34Height hlt rest⟩⟩
  rw [← hsame]
  exact ⟨fun hser => hshort.unique hser, fun heq => heq ▸ hshort⟩

theorem height_serialisers_at_900000 :
    IsShortestPush (serNumber 900000) 900000 ∧
      getSernumber (serNumber 900000 ++ [0x08]) = 900000 :=
  have h := height_serialisers 900000 (by decide)
  ⟨h.2.2.2.1.mpr (by decide), (h.2.2.2.2 [0x08]).1⟩

/-- At height 1 the two networks differ. -/
theorem height_one_serialisers_differ : serBip34Height 1 ≠ serNumber 1 := by
  decide

end CashStratum
