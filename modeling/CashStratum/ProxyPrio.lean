/-
CashStratum/ProxyPrio.lean

A priority is set.  `__set_proxy_prio` packs the userid of the proxy and the priority that is
asked for into one number, and where another proxy has that number it pushes up that one and
those behind it, as many as it takes to find a gap.

Its loops stop at the first entry of a higher priority, so they take the list to be in order.
Where the others are, and the proxy that is set is not in the way (`Hinders`), what the loops do to
the others is one function of the priority (`shift`): up by one in a run that ends at a gap
(`pushes_of_fits`).  That keeps every two of them apart and as they were (`shift_lt_shift`), and the
sort has nothing to move but the proxy that is set.

The priority is an `int` that is made 64 bits wide before the userid is put over it: a
negative one has all its high bits set, and the userid is lost (`requested_neg`).
-/
import CashStratum.ProxyTable

namespace CashStratum

open ProxySdata

/-! ### The number of a priority -/

/-- The mask of `__set_proxy_prio`. -/
def userMask (userid : Int) : Int64 := Int64.ofInt userid <<< 32

/-- The priority that `__set_proxy_prio` gives. -/
def requested (userid priority : Int) : Int64 := Int64.ofInt priority ||| userMask userid

theorem toBitVec_ofInt (n : Nat) : (Int64.ofInt n).toBitVec = BitVec.ofNat 64 n := by
  rw [Int64.toBitVec_ofInt]
  exact BitVec.ofInt_natCast 64 n

theorem userMask_toBitVec (u : Nat) :
    (userMask u).toBitVec = BitVec.ofNat 64 u <<< 32 := by
  rw [userMask, Int64.toBitVec_shiftLeft, toBitVec_ofInt]
  rfl

/-- The low half of a priority and the userid in the high half do not meet. -/
theorem low_and_userMask (u : Nat) {l : Nat} (hl : l < 2 ^ 32) :
    Int64.ofInt l &&& userMask u = 0 := by
  apply Int64.toBitVec_inj.mp
  rw [Int64.toBitVec_and, toBitVec_ofInt, userMask_toBitVec]
  apply BitVec.eq_of_getLsbD_eq
  intro i hi
  simp only [BitVec.getLsbD_and, BitVec.getLsbD_ofNat, BitVec.getLsbD_shiftLeft]
  by_cases h : i < 32
  · simp [h]
  · have hbit : l.testBit i = false :=
      Nat.testBit_lt_two_pow (hl.trans_le (Nat.pow_le_pow_right (by decide) (by omega)))
    simp [hbit]

theorem requested_toInt {u l : Nat} (hu : u < 2 ^ 31) (hl : l < 2 ^ 32) :
    (requested u l).toInt = u * 2 ^ 32 + l := by
  have hor : (requested u l).toBitVec.toNat = u * 2 ^ 32 + l := by
    rw [requested, Int64.toBitVec_or, toBitVec_ofInt, userMask_toBitVec, BitVec.toNat_or,
      BitVec.toNat_shiftLeft, BitVec.toNat_ofNat, BitVec.toNat_ofNat,
      Nat.mod_eq_of_lt (a := l) (by omega), Nat.mod_eq_of_lt (a := u) (by omega), Nat.shiftLeft_eq,
      Nat.mod_eq_of_lt (by omega), Nat.or_comm, ← Nat.shiftLeft_eq,
      ← Nat.shiftLeft_add_eq_or_of_lt hl]
  rw [← Int64.toInt_toBitVec, BitVec.toInt_eq_toNat_of_lt (by omega), hor]
  norm_cast

/-- A negative priority stays negative, whatever the userid. -/
theorem requested_neg (u : Int) {priority : Int} (hlow : -2 ^ 31 ≤ priority)
    (hneg : priority < 0) : (requested u priority).toInt < 0 := by
  have hprio : (Int64.ofInt priority).toInt = priority :=
    Int64.toInt_ofInt_of_le (by omega) (by omega)
  have hmsb : (Int64.ofInt priority).toBitVec.msb = true := by
    rw [BitVec.msb_eq_toInt, Int64.toInt_toBitVec, hprio]
    exact decide_eq_true hneg
  have hor : (requested u priority).toBitVec.msb = true := by
    rw [requested, Int64.toBitVec_or, BitVec.msb_or, hmsb, Bool.true_or]
  rw [BitVec.msb_eq_toInt] at hor
  exact of_decide_eq_true hor

theorem and_or_distrib (a b c : Int64) : a &&& (b ||| c) = a &&& b ||| a &&& c :=
  Int64.toBitVec_inj.mp BitVec.and_or_distrib_left

/-- The masked increment of a priority of the same user: the next one. -/
theorem maskedInc_requested (u : Nat) {l : Nat} (hl : l < 2 ^ 32) :
    maskedInc (requested u l) (userMask u) = requested u (l + 1 : Nat) := by
  have hlow : requested u l &&& ~~~userMask u = Int64.ofInt l := by
    have hsame : Int64.ofInt l &&& ~~~userMask u = Int64.ofInt l := by
      have hsplit : Int64.ofInt l &&& userMask u ||| Int64.ofInt l &&& ~~~userMask u =
          Int64.ofInt l := by
        rw [← and_or_distrib, Int64.or_not_self, Int64.and_neg_one]
      rwa [low_and_userMask u hl, Int64.zero_or] at hsplit
    rw [requested, Int64.and_comm, and_or_distrib, Int64.and_comm _ (Int64.ofInt l), hsame,
      Int64.and_comm, Int64.and_not_self, Int64.or_zero]
  rw [maskedInc, hlow, requested, Nat.cast_succ, Int64.ofInt_add]
  rfl

/-- A priority of the user goes up by one, and stays one of the user. -/
theorem maskedInc_toInt {userid : Int} (huser : 0 ≤ userid) (huser' : userid < 2 ^ 31)
    {v : Int64} (hlow : userid * 2 ^ 32 ≤ v.toInt) (hhigh : v.toInt + 1 < (userid + 1) * 2 ^ 32) :
    (maskedInc v (userMask userid)).toInt = v.toInt + 1 := by
  obtain ⟨u, rfl⟩ := Int.eq_ofNat_of_zero_le huser
  obtain ⟨l, hl⟩ := Int.eq_ofNat_of_zero_le (Int.sub_nonneg.mpr hlow)
  have hv : v = requested u l := by
    apply Int64.toInt_inj.mp
    rw [requested_toInt (by omega) (by omega)]
    omega
  rw [hv, maskedInc_requested u (by omega), requested_toInt (by omega) (by omega),
    requested_toInt (by omega) (by omega)]
  omega

/-! ### The others -/

/-- The entry that a call for `id` and `subid` sets.  A subproxy is not on the list. -/
def IsSet (id subid : Int) (p : ParentProxy) : Prop := subid = 0 ∧ p.id = id

instance (id subid : Int) : DecidablePred (IsSet id subid) :=
  fun p => inferInstanceAs (Decidable (subid = 0 ∧ p.id = id))

@[simp] theorem isSet_priority (id subid : Int) (p : ParentProxy) (priority : Int64) :
    IsSet id subid { p with priority } ↔ IsSet id subid p :=
  Iff.rfl

/-- The entries that it does not set. -/
def others (id subid : Int) (proxies : List ParentProxy) : List ParentProxy :=
  proxies.filter fun p => ¬IsSet id subid p

/-- The entries before the one that is set, -/
def ahead (id subid : Int) (proxies : List ParentProxy) : List ParentProxy :=
  proxies.takeWhile fun p => ¬IsSet id subid p

/-- and from it on. -/
def fromSet (id subid : Int) (proxies : List ParentProxy) : List ParentProxy :=
  proxies.dropWhile fun p => ¬IsSet id subid p

/-- The first loop stops at the entry that is set, and one behind it has the number. -/
def Hides (prio : Int64) (ahead : List ParentProxy) (entry : ParentProxy)
    (behind : List ParentProxy) : Prop :=
  (∀ p ∈ ahead, p.priority < prio) ∧ prio < entry.priority ∧ ∃ q ∈ behind, q.priority = prio

/-- The number that the second loop has come to behind `ahead`, if it pushes all from the one that
has the number on. -/
def nextNumber (prio : Int64) (ahead : List ParentProxy) : Int :=
  prio.toInt + 1 + (ahead.filter fun p => prio ≤ p.priority).length

/-- The second loop stops at the entry that is set, and the one behind it has the number to which
the last one before it is pushed. -/
def Cuts (prio : Int64) (ahead : List ParentProxy) (entry : ParentProxy)
    (behind : List ParentProxy) : Prop :=
  (∃ p ∈ ahead, p.priority = prio) ∧ nextNumber prio ahead < entry.priority.toInt ∧
    ∃ p ∈ ahead, p.priority.toInt < nextNumber prio ahead ∧
      ∃ q ∈ behind, q.priority.toInt = p.priority.toInt + 1

/-- The entry that is set has the number, and the loops push from it on. -/
def Owns (prio : Int64) (ahead : List ParentProxy) (entry : ParentProxy) : Prop :=
  (∀ p ∈ ahead, p.priority < prio) ∧ entry.priority = prio

/-- One behind it is pushed to the number. -/
def Meets (prio : Int64) (ahead : List ParentProxy) (entry : ParentProxy)
    (behind : List ParentProxy) : Prop :=
  Owns prio ahead entry ∧ ∃ q ∈ behind, q.priority.toInt + 1 = prio.toInt

/-- The entry that is set is in the way of the loops. -/
def Hinders (prio : Int64) (ahead : List ParentProxy) : List ParentProxy → Prop
  | [] => False
  | entry :: behind =>
    Hides prio ahead entry behind ∨ Cuts prio ahead entry behind ∨ Meets prio ahead entry behind

/-- One behind it that is below the numbers of the user is pushed. -/
def Strays (userid : Int) (prio : Int64) (ahead : List ParentProxy) : List ParentProxy → Prop
  | [] => False
  | entry :: behind =>
    Owns prio ahead entry ∧ ∃ q ∈ behind, q.priority.toInt < userid * 2 ^ 32

instance (prio : Int64) (ahead : List ParentProxy) : DecidablePred (Hinders prio ahead)
  | [] => isFalse id
  | _ :: _ => inferInstanceAs (Decidable ((_ ∧ _ ∧ _) ∨ (_ ∧ _ ∧ _) ∨ (_ ∧ _) ∧ _))

instance (userid : Int) (prio : Int64) (ahead : List ParentProxy) :
    DecidablePred (Strays userid prio ahead)
  | [] => isFalse id
  | _ :: _ => inferInstanceAs (Decidable ((_ ∧ _) ∧ _))

/-- The others are in order, and the entry that is set is not in the way. -/
def Fits (id subid : Int) (prio : Int64) (proxies : List ParentProxy) : Prop :=
  ((others id subid proxies).Pairwise fun p q => p.priority ≤ q.priority) ∧
    ¬Hinders prio (ahead id subid proxies) (fromSet id subid proxies)

instance (id subid : Int) (prio : Int64) (proxies : List ParentProxy) :
    Decidable (Fits id subid prio proxies) :=
  inferInstanceAs (Decidable (_ ∧ _))

/-- What the loops do to a priority: from `low`, the first one that is pushed, to `top`, the last
one before a gap, it goes up. -/
def shift (low top v : Int) : Int := if low ≤ v ∧ v ≤ top then v + 1 else v

/-- Where `top` is the last one before a gap, no two change places or meet. -/
theorem shift_lt_shift {low top v w : Int} (hw : w ≠ top + 1) (h : v < w) :
    shift low top v < shift low top w := by
  rw [shift, shift]
  split <;> split <;> omega

/-- And the one that is asked for is free. -/
theorem shift_ne {prio low top v : Int} (hlow : low ≤ prio) (htop : prio - 1 ≤ top)
    (hv : v ≠ top + 1) (hoff : low ≤ v → v + 1 ≠ prio) : shift low top v ≠ prio := by
  rw [shift]
  split
  · rename_i h
    exact hoff h.1
  · omega

/-! ### The list around the entry that is set -/

section Around

variable {id subid : Int} {proxies front behind : List ParentProxy} {entry : ParentProxy}

theorem mem_others {p : ParentProxy} :
    p ∈ others id subid proxies ↔ p ∈ proxies ∧ ¬IsSet id subid p := by
  rw [others, List.mem_filter, decide_eq_true_iff]

/-- The list is cut at the entry that is set. -/
theorem eq_append_of_fromSet (h : fromSet id subid proxies = entry :: behind) :
    proxies = ahead id subid proxies ++ entry :: behind ∧ IsSet id subid entry ∧
      ∀ p ∈ ahead id subid proxies, ¬IsSet id subid p := by
  refine ⟨?_, ?_, fun p hp => of_decide_eq_true (List.all_eq_true.mp List.all_takeWhile p hp)⟩
  · rw [← h, ahead, fromSet, List.takeWhile_append_dropWhile]
  · have hne : fromSet id subid proxies ≠ [] := by simp [h]
    have hhead := List.head_dropWhile_not (fun p => decide (¬IsSet id subid p)) hne
    have hentry : (fromSet id subid proxies).head hne = entry := by simp [h]
    rw [← hentry]
    exact not_not.mp (of_decide_eq_false hhead)

/-- There is one entry that is set at most. -/
theorem not_isSet_of_nodup (hids : ((front ++ entry :: behind).map fun p => p.id).Nodup)
    (hset : IsSet id subid entry) : ∀ p, p ∈ front ∨ p ∈ behind → ¬IsSet id subid p := by
  intro p hp hset'
  have hmem : p ∈ front ++ entry :: behind := by
    rw [List.mem_append, List.mem_cons]
    tauto
  obtain rfl := List.inj_on_of_nodup_map hids hmem (by simp) (hset'.2.trans hset.2.symm)
  have hnodup := List.Nodup.of_map _ hids
  rw [List.nodup_append, List.nodup_cons] at hnodup
  obtain ⟨-, ⟨hbehind, -⟩, hdisjoint⟩ := hnodup
  rcases hp with hp | hp
  · exact hdisjoint p hp p List.mem_cons_self rfl
  · exact hbehind hp

/-- The list is cut at it. -/
theorem around_append (hids : ((front ++ entry :: behind).map fun p => p.id).Nodup)
    (hset : IsSet id subid entry) :
    ahead id subid (front ++ entry :: behind) = front ∧
      fromSet id subid (front ++ entry :: behind) = entry :: behind := by
  have hfront : ∀ p ∈ front, decide (¬IsSet id subid p) = true :=
    fun p hp => decide_eq_true (not_isSet_of_nodup hids hset p (Or.inl hp))
  constructor
  · rw [ahead, List.takeWhile_append_of_pos hfront,
      List.takeWhile_cons_of_neg (by simpa using hset), List.append_nil]
  · rw [fromSet, List.dropWhile_append_of_pos hfront,
      List.dropWhile_cons_of_neg (by simpa using hset)]

/-- The others are those before it and those behind it. -/
theorem others_append (hids : ((front ++ entry :: behind).map fun p => p.id).Nodup)
    (hset : IsSet id subid entry) :
    others id subid (front ++ entry :: behind) = front ++ behind := by
  have hnots := not_isSet_of_nodup hids hset
  rw [others, List.filter_append, List.filter_cons_of_neg (by simpa using hset),
    List.filter_eq_self.mpr fun p hp => by simpa using hnots p (Or.inl hp),
    List.filter_eq_self.mpr fun p hp => by simpa using hnots p (Or.inr hp)]

/-- Those before the entry that is set, cut at the number. -/
theorem nextNumber_append {prio : Int64} {lower : List ParentProxy}
    (hlower : ∀ p ∈ lower, p.priority < prio) (hfront : ∀ p ∈ front, prio ≤ p.priority) :
    nextNumber prio (lower ++ front) = prio.toInt + 1 + front.length := by
  have hnone : lower.filter (fun p => prio ≤ p.priority) = [] :=
    List.filter_eq_nil_iff.mpr fun p hp => by simpa using Int64.not_le.mpr (hlower p hp)
  have hall : front.filter (fun p => prio ≤ p.priority) = front :=
    List.filter_eq_self.mpr fun p hp => by simpa using hfront p hp
  rw [nextNumber, List.filter_append, hnone, hall, List.nil_append]

end Around

/-! ### The loops -/

section Loops

variable {id subid userid : Int} {prio : Int64} {low top : Int} {proxies : List ParentProxy}

/-- What becomes of an entry. -/
def raised (id subid userid priority low top : Int) (p : ParentProxy) : ParentProxy :=
  if IsSet id subid p then { p with priority := requested userid priority }
  else if low ≤ p.priority.toInt ∧ p.priority.toInt ≤ top then
    { p with priority := maskedInc p.priority (userMask userid) }
  else p

/-- The entry that is set gets its priority after the loops. -/
def given (id subid userid priority : Int) (p : ParentProxy) : ParentProxy :=
  if IsSet id subid p then { p with priority := requested userid priority } else p

theorem given_eq_raised {p : ParentProxy}
    (h : ¬IsSet id subid p → ¬(low ≤ p.priority.toInt ∧ p.priority.toInt ≤ top)) :
    given id subid userid priority p = raised id subid userid priority low top p := by
  rw [given, raised]
  by_cases hset : IsSet id subid p
  · rw [if_pos hset, if_pos hset]
  · rw [if_neg hset, if_neg hset, if_neg (h hset)]

theorem given_maskedInc_eq_raised {p : ParentProxy}
    (h : ¬IsSet id subid p → low ≤ p.priority.toInt ∧ p.priority.toInt ≤ top) :
    given id subid userid priority { p with priority := maskedInc p.priority (userMask userid) } =
      raised id subid userid priority low top p := by
  rw [given, raised]
  by_cases hset : IsSet id subid p
  · rw [if_pos hset, if_pos ((isSet_priority id subid p _).mpr hset)]
  · rw [if_neg hset, if_neg (mt (isSet_priority id subid p _).mp hset), if_pos (h hset)]

/-- The next number, where there is room for it. -/
theorem toInt_succ (next : Int64) (h : next.toInt + 1 < 2 ^ 63) :
    (next + 1).toInt = next.toInt + 1 := by
  have := Int64.le_toInt next
  rw [Int64.toInt_add]
  exact Int.bmod_eq_of_le (by show _ ≤ next.toInt + 1; omega) (by show next.toInt + 1 < _; omega)

/-- **The second loop.**  It pushes from `low` up to a gap, unless it stops at the entry that is
set: then `last` is the last one that is pushed, and what is behind it is not in the way. -/
theorem pushPrios_eq_raised (id subid userid priority : Int) (next : Int64) (low last : Int)
    (hord : (others id subid proxies).Pairwise fun p q => p.priority < q.priority)
    (hlow : ∀ p ∈ proxies, ¬IsSet id subid p → low ≤ p.priority.toInt)
    (hlast : last < next.toInt)
    (hafter : ∀ p ∈ proxies, ¬IsSet id subid p → last < p.priority.toInt)
    (hnext : next.toInt + proxies.length < 2 ^ 63)
    (hcut : ∀ front entry behind, proxies = front ++ entry :: behind → IsSet id subid entry →
      next.toInt + front.length < entry.priority.toInt →
        ∀ v, v = last ∨ v ∈ front.map (fun p => p.priority.toInt) →
          v < next.toInt + front.length →
            ∀ q ∈ behind, ¬IsSet id subid q → q.priority.toInt ≠ v + 1) :
    ∃ top, last ≤ top ∧ top < next.toInt + proxies.length ∧
      ((∀ p ∈ proxies, ¬IsSet id subid p) → next.toInt - 1 ≤ top) ∧
      (∀ p ∈ proxies, ¬IsSet id subid p → p.priority.toInt ≠ top + 1) ∧
      (pushPrios (userMask userid) next proxies).map (given id subid userid priority) =
        proxies.map (raised id subid userid priority low top) := by
  induction proxies generalizing next last with
  | nil => exact ⟨next.toInt - 1, by omega, by simp, fun _ => le_refl _, by simp, rfl⟩
  | cons p rest ih =>
    rw [pushPrios]
    split
    · rename_i hgt
      have hgt := Int64.lt_iff_toInt_lt.mp hgt
      by_cases hset : IsSet id subid p
      · -- the loop stops at the entry that is set
        have hgap := hcut [] p rest rfl hset (by simpa using hgt) last (Or.inl rfl)
          (by simpa using hlast)
        refine ⟨last, le_refl _, by rw [List.length_cons]; omega, fun h => ?_, ?_, ?_⟩
        · exact absurd hset (h p List.mem_cons_self)
        · intro q hq hnot
          obtain rfl | hq := List.mem_cons.mp hq
          · exact absurd hset hnot
          · exact hgap q hq hnot
        · refine List.map_congr_left fun q hq => given_eq_raised fun hnot => ?_
          have := hafter q hq hnot
          omega
      · -- the gap is here
        have hfar : ∀ q ∈ p :: rest, ¬IsSet id subid q → next.toInt < q.priority.toInt := by
          intro q hq hnot
          obtain rfl | hq := List.mem_cons.mp hq
          · exact hgt
          · rw [others, List.filter_cons_of_pos (by simpa using hset)] at hord
            have hlt := List.rel_of_pairwise_cons hord (mem_others.mpr ⟨hq, hnot⟩)
            exact hgt.trans (Int64.lt_iff_toInt_lt.mp hlt)
        refine ⟨next.toInt - 1, by omega, by rw [List.length_cons]; omega, fun _ => le_refl _,
          ?_, ?_⟩
        · intro q hq hnot
          have := hfar q hq hnot
          omega
        · refine List.map_congr_left fun q hq => given_eq_raised fun hnot => ?_
          have := hfar q hq hnot
          omega
    · rename_i hle
      have hle : p.priority.toInt ≤ next.toInt :=
        Int64.le_iff_toInt_le.mp (Int64.not_lt.mp hle)
      rw [List.length_cons, Nat.cast_succ] at hnext
      have hsucc : (next + 1).toInt = next.toInt + 1 := toInt_succ next (by omega)
      by_cases hset : IsSet id subid p
      · -- the entry that is set is pushed for now
        rw [others, List.filter_cons_of_neg (by simpa using hset)] at hord
        obtain ⟨top, htop, hhigh, hplain, hgap, hmap⟩ := ih (next + 1) last hord
          (fun q hq => hlow q (List.mem_cons_of_mem _ hq)) (by omega)
          (fun q hq => hafter q (List.mem_cons_of_mem _ hq)) (by omega)
          (fun front entry behind heq hentry hlt v hv hvlt =>
            hcut (p :: front) entry behind (by rw [heq]; rfl) hentry
              (by rw [List.length_cons]; omega) v
              (hv.imp (fun h => h) fun h => by rw [List.map_cons]; exact List.mem_cons_of_mem _ h)
              (by rw [List.length_cons]; omega))
        refine ⟨top, htop, by rw [List.length_cons]; omega, fun h => ?_, ?_, ?_⟩
        · exact absurd hset (h p List.mem_cons_self)
        · intro q hq hnot
          obtain rfl | hq := List.mem_cons.mp hq
          · exact absurd hset hnot
          · exact hgap q hq hnot
        · rw [List.map_cons, List.map_cons, hmap,
            given_maskedInc_eq_raised fun hnot => absurd hset hnot]
      · -- another one is
        rw [others, List.filter_cons_of_pos (by simpa using hset)] at hord
        have hbehind : ∀ q ∈ rest, ¬IsSet id subid q → p.priority.toInt < q.priority.toInt :=
          fun q hq hnot => Int64.lt_iff_toInt_lt.mp
            (List.rel_of_pairwise_cons hord (mem_others.mpr ⟨hq, hnot⟩))
        obtain ⟨top, htop, hhigh, hplain, hgap, hmap⟩ := ih (next + 1) p.priority.toInt
          (List.Pairwise.of_cons hord) (fun q hq => hlow q (List.mem_cons_of_mem _ hq))
          (by omega) hbehind (by omega)
          (fun front entry behind heq hentry hlt v hv hvlt =>
            hcut (p :: front) entry behind (by rw [heq]; rfl) hentry
              (by rw [List.length_cons]; omega) v
              (Or.inr (by rw [List.map_cons, List.mem_cons]; exact hv))
              (by rw [List.length_cons]; omega))
        have hpafter := hafter p List.mem_cons_self hset
        refine ⟨top, by omega, by rw [List.length_cons]; omega, fun h => ?_, ?_, ?_⟩
        · have := hplain fun q hq => h q (List.mem_cons_of_mem _ hq)
          omega
        · intro q hq hnot
          obtain rfl | hq := List.mem_cons.mp hq
          · omega
          · exact hgap q hq hnot
        · rw [List.map_cons, List.map_cons, hmap, given_maskedInc_eq_raised]
          exact fun hnot => ⟨hlow p List.mem_cons_self hnot, htop⟩

/-- A run without room: the last one is as far above the first as there are between. -/
theorem add_length_lt {front : List ParentProxy} {p : ParentProxy} {bound : Int}
    (hord : (p :: front).Pairwise fun p q => p.priority < q.priority)
    (hlt : ∀ q ∈ p :: front, q.priority.toInt < bound) :
    p.priority.toInt + front.length < bound := by
  induction front generalizing p with
  | nil => simpa using hlt p List.mem_cons_self
  | cons q front ih =>
    have hpq := Int64.lt_iff_toInt_lt.mp (List.rel_of_pairwise_cons hord List.mem_cons_self)
    have := ih (List.Pairwise.of_cons hord) fun r hr => hlt r (List.mem_cons_of_mem _ hr)
    rw [List.length_cons]
    omega

/-- All of a dense run are pushed. -/
theorem pushPrios_append (mask next : Int64) {front : List ParentProxy} (rest : List ParentProxy)
    (hord : front.Pairwise fun p q => p.priority < q.priority)
    (hlt : ∀ p ∈ front, p.priority.toInt < next.toInt + front.length)
    (hnext : next.toInt + front.length < 2 ^ 63) :
    ∃ next', next'.toInt = next.toInt + front.length ∧
      pushPrios mask next (front ++ rest) =
        front.map (fun p => { p with priority := maskedInc p.priority mask }) ++
          pushPrios mask next' rest := by
  induction front generalizing next with
  | nil => exact ⟨next, by simp, rfl⟩
  | cons p front ih =>
    have hchain := add_length_lt hord hlt
    rw [List.length_cons, Nat.cast_succ] at hchain hnext
    have hle : ¬ p.priority > next := by
      rw [gt_iff_lt, Int64.lt_iff_toInt_lt]
      omega
    have hsucc : (next + 1).toInt = next.toInt + 1 := toInt_succ next (by omega)
    obtain ⟨next', hnext', heq⟩ := ih (next + 1) (List.Pairwise.of_cons hord)
      (fun q hq => by
        have := hlt q (List.mem_cons_of_mem _ hq)
        rw [List.length_cons] at this
        omega) (by omega)
    refine ⟨next', by rw [List.length_cons]; omega, ?_⟩
    rw [List.cons_append, pushPrios, if_neg hle, heq]
    rfl

/-- Lower entries are passed over. -/
theorem makeRoom_append (mask : Int64) {lower : List ParentProxy} (rest : List ParentProxy)
    (h : ∀ p ∈ lower, p.priority < prio) :
    makeRoom mask prio (lower ++ rest) = lower ++ makeRoom mask prio rest := by
  induction lower with
  | nil => rfl
  | cons p lower ih =>
    have hlt := h p List.mem_cons_self
    rw [List.cons_append, makeRoom, if_neg (Int64.not_lt.mpr (Int64.le_of_lt hlt)),
      if_neg (Int64.ne_of_lt hlt), ih fun q hq => h q (List.mem_cons_of_mem _ hq)]
    rfl

end Loops

/-! ### A call -/

/-- No difference that the sort takes overflows, whatever priority of the user is given out. -/
def Spans (userid : Int) (proxies : List ParentProxy) : Prop :=
  ∀ p ∈ proxies, (userid + 1) * 2 ^ 32 - p.priority.toInt ≤ 2 ^ 63 ∧
    ∀ q ∈ proxies, p.priority.toInt - q.priority.toInt < 2 ^ 63

/-- Priorities that are not negative are never too far apart. -/
theorem spans_of_nonneg {userid : Int} (huser : userid < 2 ^ 31) {proxies : List ParentProxy}
    (h : ∀ p ∈ proxies, 0 ≤ p.priority.toInt) : Spans userid proxies := by
  intro p hp
  refine ⟨?_, fun q hq => ?_⟩
  · have := h p hp
    omega
  · have := h q hq
    have := Int64.toInt_lt p.priority
    omega

/-- What a call for a proxy of `userid` is to make of the list. -/
structure PrioSet (id subid userid priority : Int) (before after : List ParentProxy) : Prop where
  distinct : (after.map fun p => p.priority).Nodup
  given : ∀ p ∈ after, IsSet id subid p → p.priority = requested userid priority
  value : (requested userid priority).toInt = userid * 2 ^ 32 + priority
  range : userid * 2 ^ 32 ≤ (requested userid priority).toInt ∧
    (requested userid priority).toInt < (userid + 1) * 2 ^ 32
  /-- The others are in the order of the list that they were in, -/
  list : (others id subid after).map (fun p => p.id) = (others id subid before).map fun p => p.id
  /-- and in the order of priority that they were in; -/
  order : ∀ p ∈ others id subid before, ∀ q ∈ others id subid before,
    ∀ p' ∈ others id subid after, ∀ q' ∈ others id subid after, p'.id = p.id → q'.id = q.id →
      (p'.priority < q'.priority ↔ p.priority < q.priority)
  /-- and these orders are one. -/
  inOrder : after.Pairwise fun p q => p.priority ≤ q.priority

section Call

variable {id subid userid priority : Int} {proxies : List ParentProxy}

theorem raised_id (low top : Int) (p : ParentProxy) :
    (raised id subid userid priority low top p).id = p.id := by
  rw [raised]
  split
  · rfl
  · split <;> rfl

theorem isSet_raised (low top : Int) (p : ParentProxy) :
    IsSet id subid (raised id subid userid priority low top p) ↔ IsSet id subid p := by
  rw [IsSet, raised_id, IsSet]

/-- The others of what the loops leave. -/
theorem others_map_raised (low top : Int) :
    others id subid (proxies.map (raised id subid userid priority low top)) =
      (others id subid proxies).map (raised id subid userid priority low top) := by
  rw [others, List.filter_map]
  congr 1
  refine List.filter_congr fun p _ => ?_
  rw [Function.comp_apply, decide_eq_decide, isSet_raised]

theorem requested_value (huser : 0 ≤ userid) (huser' : userid < 2 ^ 31) (hprio : 0 ≤ priority)
    (hprio' : priority < 2 ^ 31) :
    (requested userid priority).toInt = userid * 2 ^ 32 + priority := by
  obtain ⟨u, rfl⟩ := Int.eq_ofNat_of_zero_le huser
  obtain ⟨l, rfl⟩ := Int.eq_ofNat_of_zero_le hprio
  exact requested_toInt (by omega) (by omega)

/-- What the loops do, where nothing is in their way: they push the others from `low` up to a gap in
their priorities, `top + 1`, which is not below the priority that is given, and still in the range
of the user.  None is pushed to the priority that is given. -/
structure Pushed (id subid userid priority : Int) (proxies : List ParentProxy) (low top : Int) :
    Prop where
  user : 0 ≤ userid ∧ userid < 2 ^ 31
  value : (requested userid priority).toInt = userid * 2 ^ 32 + priority
  range : 0 ≤ priority ∧ priority < 2 ^ 31
  le_low : userid * 2 ^ 32 ≤ low
  low_le : low ≤ (requested userid priority).toInt
  le_top : (requested userid priority).toInt - 1 ≤ top
  top_lt : top + 1 < (userid + 1) * 2 ^ 32
  gap : ∀ p ∈ proxies, ¬IsSet id subid p → p.priority.toInt ≠ top + 1
  off : ∀ p ∈ proxies, ¬IsSet id subid p → low ≤ p.priority.toInt →
    p.priority.toInt + 1 ≠ (requested userid priority).toInt

namespace Pushed

variable {low top : Int}

/-- The others are pushed up where they are in the run. -/
theorem raised_toInt_eq (h : Pushed id subid userid priority proxies low top) {p : ParentProxy}
    (hset : ¬IsSet id subid p) :
    (raised id subid userid priority low top p).priority.toInt =
      shift low top p.priority.toInt := by
  rw [raised, if_neg hset, shift]
  split
  · rename_i hrun
    have := h.top_lt
    exact maskedInc_toInt h.user.1 h.user.2 (h.le_low.trans hrun.1) (by omega)
  · rfl

/-- The others keep their order of priority. -/
theorem raised_lt_raised (h : Pushed id subid userid priority proxies low top) {p q : ParentProxy}
    (hp : p ∈ others id subid proxies) (hq : q ∈ others id subid proxies) :
    (raised id subid userid priority low top p).priority <
        (raised id subid userid priority low top q).priority ↔
      p.priority < q.priority := by
  obtain ⟨hp, hpset⟩ := mem_others.mp hp
  obtain ⟨hq, hqset⟩ := mem_others.mp hq
  rw [Int64.lt_iff_toInt_lt, Int64.lt_iff_toInt_lt, h.raised_toInt_eq hpset,
    h.raised_toInt_eq hqset]
  obtain hlt | heq | hgt := lt_trichotomy p.priority.toInt q.priority.toInt
  · exact iff_of_true (shift_lt_shift (h.gap q hq hqset) hlt) hlt
  · rw [heq]
    exact iff_of_false (lt_irrefl _) (lt_irrefl _)
  · exact iff_of_false (shift_lt_shift (h.gap p hp hpset) hgt).asymm hgt.asymm

/-- None of the others has the priority that is given. -/
theorem raised_ne (h : Pushed id subid userid priority proxies low top) {p : ParentProxy}
    (hp : p ∈ others id subid proxies) :
    (raised id subid userid priority low top p).priority ≠ requested userid priority := by
  obtain ⟨hp, hset⟩ := mem_others.mp hp
  intro heq
  have hshift := h.raised_toInt_eq hset
  rw [heq] at hshift
  exact shift_ne h.low_le h.le_top (h.gap p hp hset) (h.off p hp hset) hshift.symm

/-- No two entries are left with one priority. -/
theorem raised_inj (h : Pushed id subid userid priority proxies low top)
    (hids : (proxies.map fun p => p.id).Nodup)
    (hdistinct : ((others id subid proxies).map fun p => p.priority).Nodup) {p q : ParentProxy}
    (hp : p ∈ proxies) (hq : q ∈ proxies)
    (heq : (raised id subid userid priority low top p).priority =
      (raised id subid userid priority low top q).priority) : p = q := by
  have hgiven : ∀ {r : ParentProxy}, IsSet id subid r →
      (raised id subid userid priority low top r).priority = requested userid priority := by
    intro r hr
    rw [raised, if_pos hr]
  by_cases hpset : IsSet id subid p <;> by_cases hqset : IsSet id subid q
  · exact List.inj_on_of_nodup_map hids hp hq (hpset.2.trans hqset.2.symm)
  · exact absurd (heq.symm.trans (hgiven hpset)) (h.raised_ne (mem_others.mpr ⟨hq, hqset⟩))
  · exact absurd (heq.trans (hgiven hqset)) (h.raised_ne (mem_others.mpr ⟨hp, hpset⟩))
  · have hp' := mem_others.mpr ⟨hp, hpset⟩
    have hq' := mem_others.mpr ⟨hq, hqset⟩
    have hnlt := mt (h.raised_lt_raised hp' hq').mpr (heq ▸ Int64.lt_irrefl)
    have hngt := mt (h.raised_lt_raised hq' hp').mpr (heq ▸ Int64.lt_irrefl)
    exact List.inj_on_of_nodup_map hdistinct hp' hq'
      (Int64.le_antisymm (Int64.not_lt.mp hngt) (Int64.not_lt.mp hnlt))

/-- The sort can compare what the loops leave. -/
theorem comparable (h : Pushed id subid userid priority proxies low top)
    (hspan : Spans userid proxies) :
    Comparable (proxies.map (raised id subid userid priority low top)) := by
  have hvalue := h.value
  have hrange := h.range
  have hlow := h.le_low
  have hhigh := h.top_lt
  have huser := h.user.1
  -- a priority is of the user, or as it was
  have hcases : ∀ p ∈ proxies,
      let v := (raised id subid userid priority low top p).priority.toInt
      (userid * 2 ^ 32 ≤ v ∧ v < (userid + 1) * 2 ^ 32) ∨ v = p.priority.toInt := by
    intro p hp
    by_cases hset : IsSet id subid p
    · left
      rw [raised, if_pos hset]
      dsimp only
      omega
    · dsimp only
      rw [h.raised_toInt_eq hset, shift]
      split
      · left
        omega
      · exact .inr rfl
  intro x hx y hy
  obtain ⟨p, hp, rfl⟩ := List.mem_map.mp hx
  obtain ⟨q, hq, rfl⟩ := List.mem_map.mp hy
  have hpq := (hspan p hp).2 q hq
  have hqp := (hspan q hq).2 p hp
  have hp' := (hspan p hp).1
  have hq' := (hspan q hq).1
  have hpmax := Int64.toInt_lt p.priority
  have hqmax := Int64.toInt_lt q.priority
  obtain hpv | hpv := hcases p hp <;> obtain hqv | hqv := hcases q hq <;> omega

end Pushed

/-- The sort leaves the others as they are, where they are in order. -/
theorem others_prioSort (hcmp : Comparable proxies)
    (hordered : (others id subid proxies).Pairwise fun p q => p.priority < q.priority) :
    others id subid (prioSort proxies) = others id subid proxies := by
  have hperm : (others id subid (prioSort proxies)).Perm (others id subid proxies) :=
    (perm_prioSort proxies).filter _
  have hle : (others id subid proxies).Pairwise fun p q => p.priority ≤ q.priority :=
    hordered.imp Int64.le_of_lt
  refine List.Perm.eq_of_pairwise ?_ ((prioSort_ordered hcmp).filter _) hle hperm
  intro p q hp hq hpq hqp
  have hinj := List.inj_on_of_nodup_map (f := ParentProxy.priority)
    ((List.pairwise_map.mpr (hordered.imp Int64.ne_of_lt)))
  exact hinj (hperm.mem_iff.mp hp) hq (Int64.le_antisymm hpq hqp)

/-- **A call that pushes the others to a gap** does what it is to do. -/
theorem Pushed.prioSet {low top : Int} (h : Pushed id subid userid priority proxies low top)
    (hids : (proxies.map fun p => p.id).Nodup) (hspan : Spans userid proxies)
    (hord : (others id subid proxies).Pairwise fun p q => p.priority < q.priority) :
    PrioSet id subid userid priority proxies
      (prioSort (proxies.map (raised id subid userid priority low top))) := by
  have hdistinct : ((others id subid proxies).map fun p => p.priority).Nodup :=
    List.pairwise_map.mpr (hord.imp Int64.ne_of_lt)
  -- the sort moves none of the others
  have hothers : others id subid
      (prioSort (proxies.map (raised id subid userid priority low top))) =
        (others id subid proxies).map (raised id subid userid priority low top) := by
    rw [others_prioSort (h.comparable hspan), others_map_raised]
    rw [others_map_raised, List.pairwise_map]
    exact hord.imp_of_mem fun hp hq => (h.raised_lt_raised hp hq).mpr
  have hmem : ∀ {p' : ParentProxy},
      p' ∈ prioSort (proxies.map (raised id subid userid priority low top)) →
        ∃ p ∈ proxies, raised id subid userid priority low top p = p' := fun hp' =>
    List.mem_map.mp ((perm_prioSort _).mem_iff.mp hp')
  have hvalue := h.value
  have hrange := h.range
  refine ⟨?_, ?_, h.value, by omega, ?_, ?_, prioSort_ordered (h.comparable hspan)⟩
  · refine ((perm_prioSort _).map _).nodup_iff.mpr ?_
    rw [List.map_map]
    exact List.Nodup.map_on (fun p hp q hq => h.raised_inj hids hdistinct hp hq)
      (List.Nodup.of_map _ hids)
  · intro p' hp' hset
    obtain ⟨p, hp, rfl⟩ := hmem hp'
    rw [isSet_raised] at hset
    rw [raised, if_pos hset]
  · rw [hothers, List.map_map]
    exact List.map_congr_left fun p _ => raised_id _ _ p
  · intro p hp q hq p' hp' q' hq' hpid hqid
    rw [hothers] at hp' hq'
    obtain ⟨r, hr, rfl⟩ := List.mem_map.mp hp'
    obtain ⟨t, ht, rfl⟩ := List.mem_map.mp hq'
    rw [raised_id] at hpid hqid
    obtain rfl := List.inj_on_of_nodup_map hids (mem_others.mp hr).1 (mem_others.mp hp).1 hpid
    obtain rfl := List.inj_on_of_nodup_map hids (mem_others.mp ht).1 (mem_others.mp hq).1 hqid
    exact h.raised_lt_raised hr ht

theorem strict_of_ordered
    (h : (others id subid proxies).Pairwise fun p q => p.priority ≤ q.priority)
    (hdistinct : ((others id subid proxies).map fun p => p.priority).Nodup) :
    (others id subid proxies).Pairwise fun p q => p.priority < q.priority :=
  (h.and (List.pairwise_map.mp hdistinct)).imp fun hboth => Int64.lt_of_le_of_ne hboth.1 hboth.2

/-- What a call is to do it does only where the priority is not negative, and the others were in
order. -/
theorem PrioSet.nonneg {after : List ParentProxy} (hlow : -2 ^ 31 ≤ priority)
    (huser : 0 ≤ userid) (h : PrioSet id subid userid priority proxies after) :
    0 ≤ priority := by
  by_contra hneg
  have hsign := requested_neg userid hlow (Int.not_le.mp hneg)
  have := h.range.1
  omega

theorem PrioSet.ordered {after : List ParentProxy}
    (h : PrioSet id subid userid priority proxies after) :
    (others id subid proxies).Pairwise fun p q => p.priority ≤ q.priority := by
  have hlength : (others id subid after).length = (others id subid proxies).length := by
    rw [← List.length_map (f := fun p : ParentProxy => p.id), h.list, List.length_map]
  have hsame : ∀ i (hi : i < (others id subid proxies).length),
      (others id subid after)[i].id = (others id subid proxies)[i].id := by
    intro i hi
    have hget := List.getElem_of_eq h.list (i := i) (by rwa [List.length_map, hlength])
    rwa [List.getElem_map, List.getElem_map] at hget
  have hsorted := List.pairwise_iff_getElem.mp (h.inOrder.filter fun p => ¬IsSet id subid p)
  refine List.pairwise_iff_getElem.mpr fun i j hi hj hij => ?_
  have hle := hsorted i j (hlength ▸ hi) (hlength ▸ hj) hij
  have horder := h.order _ (List.getElem_mem hj) _ (List.getElem_mem hi) _
    (List.getElem_mem (hlength ▸ hj)) _ (List.getElem_mem (hlength ▸ hi)) (hsame j hj) (hsame i hi)
  exact Int64.not_lt.mp (mt horder.mpr (Int64.not_lt.mpr hle))

theorem assignPrio_eq (id subid userid priority : Int) (proxies : List ParentProxy) :
    assignPrio id subid userid priority proxies =
      (makeRoom (userMask userid) (requested userid priority) proxies).map
        (given id subid userid priority) :=
  rfl

/-- The loops push the others to a gap. -/
def Pushes (id subid userid priority : Int) (proxies : List ParentProxy) : Prop :=
  ∃ low top, Pushed id subid userid priority proxies low top ∧
    assignPrio id subid userid priority proxies =
      proxies.map (raised id subid userid priority low top)

section Pushes

variable {lower rest : List ParentProxy} {e : ParentProxy}
  (huser : 0 ≤ userid ∧ userid < 2 ^ 31) (hprio : 0 ≤ priority ∧ priority < 2 ^ 31)

include huser hprio

/-- Nobody has the number, and nothing is pushed. -/
theorem pushes_of_free
    (hmake : makeRoom (userMask userid) (requested userid priority) proxies = proxies)
    (hne : ∀ p ∈ proxies, ¬IsSet id subid p → p.priority ≠ requested userid priority) :
    Pushes id subid userid priority proxies := by
  have hvalue := requested_value huser.1 huser.2 hprio.1 hprio.2
  refine ⟨(requested userid priority).toInt, (requested userid priority).toInt - 1,
    ⟨huser, hvalue, hprio, by omega, le_refl _, le_refl _, by omega, ?_, ?_⟩, ?_⟩
  · intro p hp hset heq
    exact hne p hp hset (Int64.toInt_inj.mp (by omega))
  · intro p _ _ hle
    omega
  · rw [assignPrio_eq, hmake]
    exact List.map_congr_left fun p _ => given_eq_raised fun _ => by omega

/-- Another proxy has the number, and the entry that is set does not cut the run from there on. -/
theorem pushes_of_taken (hids : ((lower ++ e :: rest).map fun p => p.id).Nodup)
    (hlen : (lower ++ e :: rest).length < 2 ^ 31)
    (hlower : ∀ p ∈ lower, p.priority < requested userid priority)
    (heq : e.priority = requested userid priority) (hentry : ¬IsSet id subid e)
    (hord : (others id subid (e :: rest)).Pairwise fun p q => p.priority < q.priority)
    (hmake : makeRoom (userMask userid) (requested userid priority) (lower ++ e :: rest) =
      lower ++ pushPrios (userMask userid)
        (maskedInc (requested userid priority) (userMask userid)) (e :: rest))
    (hfree : ¬Hinders (requested userid priority) (ahead id subid (lower ++ e :: rest))
      (fromSet id subid (lower ++ e :: rest))) :
    Pushes id subid userid priority (lower ++ e :: rest) := by
  have hvalue := requested_value huser.1 huser.2 hprio.1 hprio.2
  rw [List.length_append] at hlen
  set prio := requested userid priority with hrequested
  have hint : (requested userid priority).toInt = prio.toInt := rfl
  have hnext := maskedInc_toInt huser.1 huser.2 (v := prio) (by omega) (by omega)
  have hbehind : ∀ q ∈ rest, ¬IsSet id subid q → prio < q.priority := by
    intro q hq hnot
    rw [others, List.filter_cons_of_pos (by simpa using hentry)] at hord
    exact heq ▸ List.rel_of_pairwise_cons hord (mem_others.mpr ⟨hq, hnot⟩)
  have hfrom : ∀ q ∈ e :: rest, ¬IsSet id subid q → prio.toInt ≤ q.priority.toInt := by
    intro q hq hnot
    obtain rfl | hq := List.mem_cons.mp hq
    · rw [heq]
    · exact (Int64.lt_iff_toInt_lt.mp (hbehind q hq hnot)).le
  -- the entry that is set does not cut the run
  have hcut : ∀ front entry behind, e :: rest = front ++ entry :: behind → IsSet id subid entry →
      (maskedInc prio (userMask userid)).toInt + front.length < entry.priority.toInt →
        ∀ v, v = prio.toInt - 1 ∨ v ∈ front.map (fun p => p.priority.toInt) →
          v < (maskedInc prio (userMask userid)).toInt + front.length →
            ∀ q ∈ behind, ¬IsSet id subid q → q.priority.toInt ≠ v + 1 := by
    intro front entry behind hsplit hset hlt v hv hvlt q hq hnot hqv
    obtain ⟨front, rfl, rfl⟩ : ∃ front', front = e :: front' ∧
        rest = front' ++ entry :: behind := by
      cases front with
      | nil =>
        obtain ⟨rfl, -⟩ := List.cons.inj hsplit
        exact absurd hset hentry
      | cons a front' =>
        obtain ⟨rfl, rfl⟩ := List.cons.inj hsplit
        exact ⟨front', rfl, rfl⟩
    rw [hsplit, ← List.append_assoc] at hids hfree
    have hnots := not_isSet_of_nodup hids hset
    rw [(around_append hids hset).1, (around_append hids hset).2] at hfree
    have hnumber : nextNumber prio (lower ++ e :: front) = prio.toInt + 1 + (e :: front).length :=
      nextNumber_append hlower fun p hp => Int64.le_iff_toInt_le.mpr
        (hfrom p (hsplit ▸ List.mem_append_left _ hp)
          (hnots p (Or.inl (List.mem_append_right _ hp))))
    refine hfree (Or.inr (Or.inl ⟨⟨e, by simp, heq⟩, by omega, ?_⟩))
    rcases hv with rfl | hv
    · have := Int64.lt_iff_toInt_lt.mp (hbehind q (by simp [hq]) hnot)
      omega
    · obtain ⟨p, hp, rfl⟩ := List.mem_map.mp hv
      exact ⟨p, List.mem_append_right _ hp, by omega, q, hq, hqv⟩
  obtain ⟨top, htop, hhigh, -, hgap, hmap⟩ := pushPrios_eq_raised id subid userid priority
    (maskedInc prio (userMask userid)) prio.toInt (prio.toInt - 1) hord hfrom (by omega)
    (fun q hq hnot => by have := hfrom q hq hnot; omega) (by omega) hcut
  have hlowerInt : ∀ p ∈ lower, p.priority.toInt < prio.toInt :=
    fun p hp => Int64.lt_iff_toInt_lt.mp (hlower p hp)
  refine ⟨prio.toInt, top, ⟨huser, hvalue, hprio, by omega, le_refl _, htop, by omega, ?_, ?_⟩, ?_⟩
  · intro p hp hset
    obtain hp | hp := List.mem_append.mp hp
    · have := hlowerInt p hp
      omega
    · exact hgap p hp hset
  · intro p _ _ hle
    omega
  · rw [assignPrio_eq, ← hrequested, hmake, List.map_append, List.map_append, hmap]
    congr 1
    refine List.map_congr_left fun p hp => given_eq_raised fun _ => ?_
    have := hlowerInt p hp
    omega

/-- The entry that is set has the number: what is behind it is pushed, as far as it is dense, and
that is not pushed to the number. -/
theorem pushes_of_owned (hids : ((lower ++ e :: rest).map fun p => p.id).Nodup)
    (hlen : (lower ++ e :: rest).length < 2 ^ 31)
    (hlower : ∀ p ∈ lower, p.priority < requested userid priority)
    (heq : e.priority = requested userid priority) (hentry : IsSet id subid e)
    (hord : (others id subid (lower ++ e :: rest)).Pairwise fun p q => p.priority < q.priority)
    (hmake : makeRoom (userMask userid) (requested userid priority) (lower ++ e :: rest) =
      lower ++ pushPrios (userMask userid)
        (maskedInc (requested userid priority) (userMask userid)) (e :: rest))
    (hfree : ∀ q ∈ rest, q.priority.toInt + 1 ≠ (requested userid priority).toInt)
    (hkept : ∀ q ∈ rest, userid * 2 ^ 32 ≤ q.priority.toInt) :
    Pushes id subid userid priority (lower ++ e :: rest) := by
  have hvalue := requested_value huser.1 huser.2 hprio.1 hprio.2
  rw [List.length_append, List.length_cons] at hlen
  set prio := requested userid priority with hrequested
  have hint : (requested userid priority).toInt = prio.toInt := rfl
  have hnext := maskedInc_toInt huser.1 huser.2 (v := prio) (by omega) (by omega)
  have hsucc := toInt_succ (maskedInc prio (userMask userid)) (by omega)
  have hnots := not_isSet_of_nodup hids hentry
  rw [others_append hids hentry] at hord
  obtain ⟨-, hordRest, hacross⟩ := List.pairwise_append.mp hord
  have hlowerInt : ∀ p ∈ lower, p.priority.toInt < prio.toInt :=
    fun p hp => Int64.lt_iff_toInt_lt.mp (hlower p hp)
  -- the first one that is pushed
  obtain ⟨low, hle, huserLow, hrestLow, hlowerLow⟩ : ∃ low, low ≤ prio.toInt ∧
      userid * 2 ^ 32 ≤ low ∧ (∀ q ∈ rest, low ≤ q.priority.toInt) ∧
      ∀ p ∈ lower, p.priority.toInt < low := by
    cases rest with
    | nil => exact ⟨prio.toInt, le_refl _, by omega, by simp, hlowerInt⟩
    | cons b rest =>
      refine ⟨min b.priority.toInt prio.toInt, min_le_right _ _,
        le_min (hkept b List.mem_cons_self) (by omega), fun q hq => ?_, fun p hp => ?_⟩
      · refine (min_le_left _ _).trans ?_
        obtain rfl | hq := List.mem_cons.mp hq
        · exact le_refl _
        · exact (Int64.lt_iff_toInt_lt.mp (List.rel_of_pairwise_cons hordRest hq)).le
      · exact lt_min (Int64.lt_iff_toInt_lt.mp (hacross p hp b List.mem_cons_self))
          (hlowerInt p hp)
  have hothers : others id subid rest = rest :=
    List.filter_eq_self.mpr fun p hp => by simpa using hnots p (Or.inr hp)
  obtain ⟨top, -, hhigh, hplain, hgap, hmap⟩ := pushPrios_eq_raised id subid userid priority
    (maskedInc prio (userMask userid) + 1) low (low - 1) (by rwa [hothers])
    (fun q hq _ => hrestLow q hq) (by omega)
    (fun q hq _ => by have := hrestLow q hq; omega) (by omega)
    (fun front entry behind hsplit hset => by
      exact absurd hset (hnots entry (Or.inr (by simp [hsplit]))))
  have hplain := hplain fun p hp => hnots p (Or.inr hp)
  refine ⟨low, top, ⟨huser, hvalue, hprio, huserLow, hle, by omega, by omega, ?_, ?_⟩, ?_⟩
  · intro p hp hset
    obtain hp | hp := List.mem_append.mp hp
    · have := hlowerInt p hp
      omega
    · obtain rfl | hp := List.mem_cons.mp hp
      · exact absurd hentry hset
      · exact hgap p hp hset
  · intro p hp hset hlow
    obtain hp | hp := List.mem_append.mp hp
    · have := hlowerLow p hp
      omega
    · obtain rfl | hp := List.mem_cons.mp hp
      · exact absurd hentry hset
      · exact hfree p hp
  · have hle' : ¬ e.priority > maskedInc prio (userMask userid) := by
      rw [gt_iff_lt, Int64.lt_iff_toInt_lt, heq]
      omega
    rw [assignPrio_eq, ← hrequested, hmake, pushPrios, if_neg hle', List.map_append,
      List.map_append, List.map_cons, List.map_cons, hmap,
      given_maskedInc_eq_raised fun hset => absurd hentry hset]
    congr 1
    refine List.map_congr_left fun p hp => given_eq_raised fun _ => ?_
    have := hlowerLow p hp
    omega

/-- **The entry that is set is in no one's way**: the others are pushed to a gap. -/
theorem pushes_of_fits (hids : (proxies.map fun p => p.id).Nodup)
    (hlen : proxies.length < 2 ^ 31)
    (hord : (others id subid proxies).Pairwise fun p q => p.priority < q.priority)
    (hfree : ¬Hinders (requested userid priority) (ahead id subid proxies)
      (fromSet id subid proxies))
    (hkept : ¬Strays userid (requested userid priority) (ahead id subid proxies)
      (fromSet id subid proxies)) :
    Pushes id subid userid priority proxies := by
  set prio := requested userid priority with hrequested
  -- the first entry that is not below the number
  obtain ⟨lower, rest, rfl, hlower, hrest⟩ : ∃ lower rest, proxies = lower ++ rest ∧
      (∀ p ∈ lower, p.priority < prio) ∧ ∀ e ∈ rest.head?, prio ≤ e.priority := by
    refine ⟨proxies.takeWhile (·.priority < prio), proxies.dropWhile (·.priority < prio),
      List.takeWhile_append_dropWhile.symm, ?_, ?_⟩
    · exact fun p hp => of_decide_eq_true (List.all_eq_true.mp List.all_takeWhile p hp)
    · intro e he
      have hnot := List.head?_dropWhile_not (fun p : ParentProxy => decide (p.priority < prio))
        proxies
      rw [Option.mem_def.mp he] at hnot
      exact Int64.not_lt.mp (of_decide_eq_false (by simpa using hnot))
  have hmake := makeRoom_append (userMask userid) rest hlower
  cases rest with
  | nil =>
    refine pushes_of_free huser hprio hmake fun p hp _ => ?_
    rw [List.append_nil] at hp
    exact Int64.ne_of_lt (hlower p hp)
  | cons e rest =>
    have hordRest : (others id subid (e :: rest)).Pairwise
        fun p q => p.priority < q.priority := by
      rw [others, List.filter_append] at hord
      exact (List.pairwise_append.mp hord).2.1
    have haround : IsSet id subid e →
        ¬Hinders prio lower (e :: rest) ∧ ¬Strays userid prio lower (e :: rest) := by
      intro hentry
      rw [(around_append hids hentry).1, (around_append hids hentry).2] at hfree hkept
      exact ⟨hfree, hkept⟩
    by_cases hgt : e.priority > prio
    · -- it is above the number
      rw [makeRoom, if_pos hgt] at hmake
      refine pushes_of_free huser hprio hmake fun p hp hset heq => ?_
      obtain hp | hp := List.mem_append.mp hp
      · exact Int64.ne_of_lt (hlower p hp) heq
      · obtain rfl | hp := List.mem_cons.mp hp
        · exact Int64.ne_of_lt hgt heq.symm
        · by_cases hentry : IsSet id subid e
          · exact (haround hentry).1 (Or.inl ⟨hlower, hgt, p, hp, heq⟩)
          · rw [others, List.filter_cons_of_pos (by simpa using hentry)] at hordRest
            have hlt := List.rel_of_pairwise_cons hordRest (mem_others.mpr ⟨hp, hset⟩)
            exact Int64.ne_of_lt (Int64.lt_trans hgt hlt) heq.symm
    · have heq : e.priority = prio := Int64.le_antisymm (Int64.not_lt.mp hgt) (hrest e rfl)
      rw [makeRoom, if_neg hgt, if_pos heq] at hmake
      by_cases hentry : IsSet id subid e
      · obtain ⟨hfree, hkept⟩ := haround hentry
        refine pushes_of_owned huser hprio hids hlen hlower heq hentry hord hmake ?_ ?_
        · exact fun q hq hmeets => hfree (Or.inr (Or.inr ⟨⟨hlower, heq⟩, q, hq, hmeets⟩))
        · exact fun q hq => Int.not_lt.mp fun hlt => hkept ⟨⟨hlower, heq⟩, q, hq, hlt⟩
      · exact pushes_of_taken huser hprio hids hlen hlower heq hentry hordRest hmake hfree

end Pushes

/-! ### In the way -/

section Converse

variable {entry : ParentProxy} {front behind : List ParentProxy}

theorem given_of_isSet {p : ParentProxy} (h : IsSet id subid p) :
    given id subid userid priority p = { p with priority := requested userid priority } := if_pos h

theorem given_of_not_isSet {p : ParentProxy} (h : ¬IsSet id subid p) :
    given id subid userid priority p = p := if_neg h

/-- No two proxies are left with one priority. -/
theorem id_eq_of_prioSet
    (h : PrioSet id subid userid priority proxies
      (prioSort (assignPrio id subid userid priority proxies)))
    {p q : ParentProxy}
    (hp : p ∈ makeRoom (userMask userid) (requested userid priority) proxies)
    (hq : q ∈ makeRoom (userMask userid) (requested userid priority) proxies)
    (heq : (given id subid userid priority p).priority =
      (given id subid userid priority q).priority) :
    (given id subid userid priority p).id = (given id subid userid priority q).id := by
  have hnodup := (((perm_prioSort _).map _).nodup_iff).mp h.distinct
  exact congrArg (fun p : ParentProxy => p.id)
    (List.inj_on_of_nodup_map hnodup (List.mem_map_of_mem hp) (List.mem_map_of_mem hq) heq)

/-- The loops leave the number to the entry that is set. -/
theorem PrioSet.ne_requested
    (h : PrioSet id subid userid priority proxies
      (prioSort (assignPrio id subid userid priority proxies)))
    {p q : ParentProxy}
    (hp : p ∈ makeRoom (userMask userid) (requested userid priority) proxies)
    (hset : IsSet id subid p)
    (hq : q ∈ makeRoom (userMask userid) (requested userid priority) proxies)
    (hnot : ¬IsSet id subid q) : q.priority ≠ requested userid priority := by
  intro heq
  have hid := id_eq_of_prioSet h hp hq (by rw [given_of_isSet hset, given_of_not_isSet hnot, heq])
  rw [given_of_isSet hset, given_of_not_isSet hnot] at hid
  exact hnot ⟨hset.1, hid.symm.trans hset.2⟩

variable (hids : ((front ++ entry :: behind).map fun p => p.id).Nodup)
  (hset : IsSet id subid entry)
  (h : PrioSet id subid userid priority (front ++ entry :: behind)
    (prioSort (assignPrio id subid userid priority (front ++ entry :: behind))))

include hids hset h

/-- Where the entry that is set hides the one that has the number, both are left with it. -/
theorem PrioSet.not_hides : ¬Hides (requested userid priority) front entry behind := by
  rintro ⟨hfront, hgt, q, hq, heq⟩
  have hnots := not_isSet_of_nodup hids hset
  have hmake := makeRoom_append (userMask userid) (entry :: behind) hfront
  rw [makeRoom, if_pos hgt] at hmake
  exact h.ne_requested (by rw [hmake]; simp) hset (by rw [hmake]; simp [hq])
    (hnots q (Or.inr hq)) heq

variable (huser : 0 ≤ userid ∧ userid < 2 ^ 31) (hprio : 0 ≤ priority ∧ priority < 2 ^ 31)
  (hlen : (front ++ entry :: behind).length < 2 ^ 31)
  (hord : (front ++ behind).Pairwise fun p q => p.priority < q.priority)

include huser hprio hlen hord

/-- Where it has the number itself, the one behind it that is one below gets it too. -/
theorem PrioSet.not_meets
    (hkept : ∀ q ∈ behind, userid * 2 ^ 32 ≤ q.priority.toInt) :
    ¬Meets (requested userid priority) front entry behind := by
  rintro ⟨⟨hfront, heq⟩, q, hq, hbelow⟩
  have hvalue := requested_value huser.1 huser.2 hprio.1 hprio.2
  have hnots := not_isSet_of_nodup hids hset
  have hnext := maskedInc_toInt huser.1 huser.2 (v := requested userid priority) (by omega)
    (by omega)
  have hsucc := toInt_succ (maskedInc (requested userid priority) (userMask userid))
    (by omega)
  have hle : ¬ entry.priority > maskedInc (requested userid priority) (userMask userid) := by
    rw [gt_iff_lt, Int64.lt_iff_toInt_lt, heq]
    omega
  have hmake := makeRoom_append (userMask userid) (entry :: behind) hfront
  obtain ⟨before, after, rfl⟩ := List.append_of_mem hq
  rw [List.length_append, List.length_cons, List.length_append, List.length_cons] at hlen
  have hrun : (before ++ [q]).Pairwise fun p q => p.priority < q.priority := by
    have hrest := (List.pairwise_append.mp hord).2.1
    rw [← List.singleton_append, ← List.append_assoc] at hrest
    exact (List.pairwise_append.mp hrest).1
  have hq' : q ∈ before ++ [q] := List.mem_append_right _ (List.mem_singleton_self q)
  have hlow : ∀ p ∈ before ++ [q], p.priority.toInt < (requested userid priority).toInt := by
    intro p hp
    obtain hp | hp := List.mem_append.mp hp
    · have hlt := (List.pairwise_append.mp hrun).2.2 p hp q (List.mem_singleton_self q)
      have := Int64.lt_iff_toInt_lt.mp hlt
      omega
    · rw [List.mem_singleton.mp hp]
      omega
  obtain ⟨next', -, hpush⟩ := pushPrios_append (userMask userid)
    (maskedInc (requested userid priority) (userMask userid) + 1) after hrun
    (fun p hp => by have := hlow p hp; omega)
    (by rw [List.length_append, List.length_singleton]; omega)
  rw [List.append_assoc, List.singleton_append] at hpush
  rw [makeRoom, if_neg (by rw [heq]; exact Int64.lt_irrefl), if_pos heq, pushPrios, if_neg hle,
    hpush] at hmake
  have hinc := maskedInc_toInt huser.1 huser.2 (hkept q hq) (by omega)
  refine h.ne_requested (p := { entry with priority := maskedInc entry.priority (userMask userid) })
    (q := { q with priority := maskedInc q.priority (userMask userid) }) ?_ hset ?_
    (hnots q (Or.inr hq)) (Int64.toInt_inj.mp (by dsimp only; omega))
  · rw [hmake]
    exact List.mem_append_right _ List.mem_cons_self
  · rw [hmake]
    exact List.mem_append_right _ (List.mem_cons_of_mem _
      (List.mem_append_left _ (List.mem_map_of_mem hq')))

/-- Where it cuts the run, the last one that is pushed gets the number of the one behind it. -/
theorem PrioSet.not_cuts : ¬Cuts (requested userid priority) front entry behind := by
  rintro ⟨⟨e, he, heq⟩, hnext, p, hp, hpnext, q, hq, hpq⟩
  have hvalue := requested_value huser.1 huser.2 hprio.1 hprio.2
  have hnots := not_isSet_of_nodup hids hset
  have hinc := maskedInc_toInt huser.1 huser.2 (v := requested userid priority) (by omega)
    (by omega)
  obtain ⟨hordFront, -, hacross⟩ := List.pairwise_append.mp hord
  obtain ⟨lower, run, rfl⟩ := List.append_of_mem he
  obtain ⟨-, hordRun, hlower⟩ := List.pairwise_append.mp hordFront
  have hlower : ∀ r ∈ lower, r.priority < requested userid priority :=
    fun r hr => heq ▸ hlower r hr e List.mem_cons_self
  have hrun : ∀ r ∈ e :: run, requested userid priority ≤ r.priority := by
    intro r hr
    obtain rfl | hr := List.mem_cons.mp hr
    · exact heq ▸ Int64.le_refl _
    · exact heq ▸ Int64.le_of_lt (List.rel_of_pairwise_cons hordRun hr)
  have hnumber := nextNumber_append hlower hrun
  have hbefore : ∀ r ∈ lower ++ e :: run, r.priority.toInt < q.priority.toInt :=
    fun r hr => Int64.lt_iff_toInt_lt.mp (hacross r hr q hq)
  rw [List.length_append, List.length_append] at hlen
  -- all of the run is pushed, and the loop stops at the entry that is set
  obtain ⟨next', hnext', hpush⟩ := pushPrios_append (userMask userid)
    (maskedInc (requested userid priority) (userMask userid)) (entry :: behind) hordRun
    (fun r hr => by have := hbefore r (List.mem_append_right _ hr); omega) (by omega)
  have hgt : entry.priority > next' := by
    rw [gt_iff_lt, Int64.lt_iff_toInt_lt]
    omega
  have hmake := makeRoom_append (userMask userid) (e :: run ++ entry :: behind) hlower
  rw [List.cons_append, makeRoom, if_neg (by rw [heq]; exact Int64.lt_irrefl), if_pos heq,
    ← List.cons_append, hpush, pushPrios, if_pos hgt, ← List.append_assoc] at hmake
  have hmem : p ∈ e :: run := by
    refine (List.mem_append.mp hp).resolve_left fun hlow => ?_
    have := Int64.lt_iff_toInt_lt.mp (hlower p hlow)
    have := hbefore e (by simp)
    rw [heq] at this
    omega
  have hge := Int64.le_iff_toInt_le.mp (hrun p hmem)
  have hpinc := maskedInc_toInt huser.1 huser.2 (v := p.priority) (by omega) (by omega)
  have hnotp : ¬IsSet id subid { p with priority := maskedInc p.priority (userMask userid) } :=
    hnots p (Or.inl hp)
  have hnotq := hnots q (Or.inr hq)
  have hid := id_eq_of_prioSet h
    (p := { p with priority := maskedInc p.priority (userMask userid) }) (q := q)
    (by
      rw [hmake]
      exact List.mem_append_right _ (List.mem_append_left _ (List.mem_map_of_mem hmem)))
    (by rw [hmake]; simp [hq])
    (by
      rw [given_of_not_isSet hnotp, given_of_not_isSet hnotq]
      exact Int64.toInt_inj.mp (by dsimp only; omega))
  rw [given_of_not_isSet hnotp, given_of_not_isSet hnotq] at hid
  have hsame := List.inj_on_of_nodup_map hids (List.mem_append_left _ hp) (by simp [hq]) hid
  rw [hsame] at hpq
  omega

end Converse

/-- **What a call is to do, it does only where the entry that is set is not in the way.** -/
theorem PrioSet.fits
    (h : PrioSet id subid userid priority proxies
      (prioSort (assignPrio id subid userid priority proxies)))
    (hids : (proxies.map fun p => p.id).Nodup) (hlen : proxies.length < 2 ^ 31)
    (huser : 0 ≤ userid ∧ userid < 2 ^ 31) (hprio : 0 ≤ priority ∧ priority < 2 ^ 31)
    (hdistinct : ((others id subid proxies).map fun p => p.priority).Nodup)
    (hkept : ¬Strays userid (requested userid priority) (ahead id subid proxies)
      (fromSet id subid proxies)) :
    Fits id subid (requested userid priority) proxies := by
  refine ⟨h.ordered, fun hhinders => ?_⟩
  cases hfrom : fromSet id subid proxies with
  | nil =>
    rw [hfrom] at hhinders
    exact hhinders
  | cons entry behind =>
    rw [hfrom] at hhinders hkept
    obtain ⟨hsplit, hset, -⟩ := eq_append_of_fromSet hfrom
    have hord := strict_of_ordered h.ordered hdistinct
    generalize ahead id subid proxies = front at hsplit hhinders hkept
    subst hsplit
    rw [others_append hids hset] at hord
    rcases hhinders with hhides | hcuts | hmeets
    · exact h.not_hides hids hset hhides
    · exact h.not_cuts hids hset huser hprio hlen hord hcuts
    · refine h.not_meets hids hset huser hprio hlen hord (fun q hq => ?_) hmeets
      exact Int.not_lt.mp fun hlt => hkept ⟨hmeets.1, q, hq, hlt⟩

end Call

/-- **A priority is set.**  A call does what it is to do exactly where the priority is not negative,
the others are in order, and the entry that is set is not in the way of the loops; but for the calls
that push a proxy of a lower user (`Strays`).  It never does where the priority is negative or the
others are out of order. -/
theorem set_proxy_prio_keeps_order (s : ProxySdata) (id subid userid priority : Int)
    (hids : (s.proxies.map fun p => p.id).Nodup) (hlen : s.proxies.length < 2 ^ 31)
    (huser : 0 ≤ userid ∧ userid < 2 ^ 31) (hprio : -2 ^ 31 ≤ priority ∧ priority < 2 ^ 31)
    (hspan : Spans userid s.proxies)
    (hdistinct : ((others id subid s.proxies).map fun p => p.priority).Nodup) :
    let prio := requested userid priority
    let after := (s.setProxyPrio id subid userid priority).proxies
    (¬Strays userid prio (ahead id subid s.proxies) (fromSet id subid s.proxies) →
      (PrioSet id subid userid priority s.proxies after ↔
        0 ≤ priority ∧ Fits id subid prio s.proxies)) ∧
    (PrioSet id subid userid priority s.proxies after →
      0 ≤ priority ∧
        (others id subid s.proxies).Pairwise fun p q => p.priority ≤ q.priority) := by
  intro prio after
  refine ⟨fun hkept => ⟨fun h => ?_, fun hfits => ?_⟩,
    fun h => ⟨h.nonneg hprio.1 huser.1, h.ordered⟩⟩
  · have hnonneg := h.nonneg hprio.1 huser.1
    exact ⟨hnonneg, h.fits hids hlen huser ⟨hnonneg, hprio.2⟩ hdistinct hkept⟩
  · obtain ⟨hnonneg, hordered, hfree⟩ := hfits
    have hord := strict_of_ordered hordered hdistinct
    obtain ⟨low, top, hpushed, heq⟩ :=
      pushes_of_fits huser ⟨hnonneg, hprio.2⟩ hids hlen hord hfree hkept
    show PrioSet _ _ _ _ _ (prioSort (assignPrio id subid userid priority s.proxies))
    rw [heq]
    exact hpushed.prioSet hids hspan hord

/-- Two global proxies, and the second is put before the first. -/
def twoGlobal : ProxySdata where
  enonce1_64 := 0
  proxies := [⟨0, 0, 1⟩, ⟨1, 1, 1⟩]

theorem set_proxy_prio_of_two :
    PrioSet 1 0 0 0 twoGlobal.proxies (twoGlobal.setProxyPrio 1 0 0 0).proxies :=
  ((set_proxy_prio_keeps_order twoGlobal 1 0 0 0 (by decide) (by decide) (by decide) (by decide)
    (spans_of_nonneg (by decide) (by decide)) (by decide)).1 (by decide)).mpr (by decide)

/-- A proxy of the user 1 and one of the user 2. -/
def twoUsers : ProxySdata where
  enonce1_64 := 0
  proxies := [⟨0, 0x100000000, 1⟩, ⟨1, 0x200000001, 1⟩]

/-- Each is given the priority -1, and it is the same for both. -/
theorem negative_priorities_meet :
    let s := twoUsers.setProxyPrio 0 0 1 (-1)
    (s.proxies.map fun p => p.priority).Nodup ∧
      ((s.setProxyPrio 1 0 2 (-1)).proxies.map fun p => p.priority) = [-1, -1] ∧
      ¬PrioSet 1 0 2 (-1) s.proxies (s.setProxyPrio 1 0 2 (-1)).proxies := by
  have hsame : (((twoUsers.setProxyPrio 0 0 1 (-1)).setProxyPrio 1 0 2 (-1)).proxies.map
      fun p => p.priority) = [-1, -1] := by
    decide
  refine ⟨by decide, hsame, fun h => ?_⟩
  have hdistinct := h.distinct
  rw [hsame] at hdistinct
  exact absurd hdistinct (by decide)

end CashStratum
