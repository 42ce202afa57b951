/-
CashStratum/ByteReader.lean

Readers of byte strings.  A C parser that walks a pointer `p` towards `end` is a
function of the bytes between the two: it fails, or it leaves the bytes that are
still unread.  `skipBytes n` advances over `n` bytes, `readLe w` reads a
little-endian integer of `w` bytes; `skipMany f n` runs `f` a given number of times
and `readMany f n` keeps what it reads.

The *frame rule* (`Framed`) says that a reader which succeeds does not look at
what follows: bytes appended to its input are appended to what it leaves.  It is
proved for each combinator, so that a parse of the parts of a message gives the
parse of the message.  The other direction is `Exact`: a reader that succeeds has read
a part of its input which it also accepts alone.
-/
import CashStratum.ByteString

namespace CashStratum

/-! ### Combinators -/

/-- Advance over `n` bytes. -/
@[grind =] def skipBytes (n : Nat) (p : Bytes) : Option Bytes :=
  if n ≤ p.length then some (p.drop n) else none

/-- Read a little-endian integer of `w` bytes. -/
@[grind =] def readLe (w : Nat) (p : Bytes) : Option (Nat × Bytes) :=
  if w ≤ p.length then some (leNat (p.take w), p.drop w) else none

/-- Run `f` a given number of times. -/
@[grind =] def skipMany (f : Bytes → Option Bytes) : Nat → Bytes → Option Bytes
  | 0, p => some p
  | n + 1, p => (f p).bind (skipMany f n)

theorem skipBytes_append (a p : Bytes) : skipBytes a.length (a ++ p) = some p := by
  simp [skipBytes]

theorem readLe_append (a p : Bytes) : readLe a.length (a ++ p) = some (leNat a, p) := by
  simp [readLe]

theorem skipBytes_eq_some_iff {n : Nat} {p q : Bytes} :
    skipBytes n p = some q ↔ ∃ a, a.length = n ∧ p = a ++ q := by
  constructor
  · intro h
    rw [skipBytes] at h
    split at h
    · next hn =>
        refine ⟨p.take n, by simpa using hn, ?_⟩
        rw [← Option.some.inj h, List.take_append_drop]
    · cases h
  · rintro ⟨a, rfl, rfl⟩
    exact skipBytes_append a q

theorem readLe_eq_some_iff {w n : Nat} {p q : Bytes} :
    readLe w p = some (n, q) ↔ ∃ a, a.length = w ∧ leNat a = n ∧ p = a ++ q := by
  constructor
  · intro h
    rw [readLe] at h
    split at h
    · next hw =>
        simp only [Option.some.injEq, Prod.mk.injEq] at h
        refine ⟨p.take w, by simpa using hw, h.1, ?_⟩
        rw [← h.2, List.take_append_drop]
    · cases h
  · rintro ⟨a, rfl, rfl, rfl⟩
    exact readLe_append a q

/-! ### The frame rule -/

/-- A reader that succeeds does not look at what follows. -/
def Framed (f : Bytes → Option Bytes) : Prop :=
  ∀ p q x, f p = some q → f (p ++ x) = some (q ++ x)

/-- The frame rule for readers that return a value. -/
def FramedRead {α : Type*} (f : Bytes → Option (α × Bytes)) : Prop :=
  ∀ p a q x, f p = some (a, q) → f (p ++ x) = some (a, q ++ x)

theorem framed_skipBytes (n : Nat) : Framed (skipBytes n) := by
  intro p q x h
  obtain ⟨a, ha, rfl⟩ := skipBytes_eq_some_iff.mp h
  exact skipBytes_eq_some_iff.mpr ⟨a, ha, by rw [List.append_assoc]⟩

theorem framedRead_readLe (w : Nat) : FramedRead (readLe w) := by
  intro p n q x h
  obtain ⟨a, ha, hn, rfl⟩ := readLe_eq_some_iff.mp h
  exact readLe_eq_some_iff.mpr ⟨a, ha, hn, by rw [List.append_assoc]⟩

/-- Sequencing a value reader with a reader that depends on the value. -/
theorem FramedRead.bind {α : Type*} {f : Bytes → Option (α × Bytes)}
    {g : α → Bytes → Option Bytes} (hf : FramedRead f) (hg : ∀ a, Framed (g a)) :
    Framed fun p => (f p).bind fun r => g r.1 r.2 := by
  intro p q x h
  obtain ⟨⟨a, r⟩, hr, hq⟩ := Option.bind_eq_some_iff.mp h
  exact Option.bind_eq_some_iff.mpr ⟨(a, r ++ x), hf p a r x hr, hg a r q x hq⟩

theorem Framed.bind {f g : Bytes → Option Bytes} (hf : Framed f) (hg : Framed g) :
    Framed fun p => (f p).bind g := by
  intro p q x h
  obtain ⟨r, hr, hq⟩ := Option.bind_eq_some_iff.mp h
  exact Option.bind_eq_some_iff.mpr ⟨r ++ x, hf p r x hr, hg r q x hq⟩

/-! ### What a reader reads -/

/-- A reader that succeeds has read a part of its input, and that part alone decides. -/
def Exact (f : Bytes → Option Bytes) : Prop :=
  ∀ p q, f p = some q → ∃ a, p = a ++ q ∧ f a = some []

/-- The same for readers that return a value. -/
def ExactRead {α : Type*} (f : Bytes → Option (α × Bytes)) : Prop :=
  ∀ p v q, f p = some (v, q) → ∃ a, p = a ++ q ∧ f a = some (v, [])

theorem exact_skipBytes (n : Nat) : Exact (skipBytes n) := by
  intro p q h
  obtain ⟨a, rfl, rfl⟩ := skipBytes_eq_some_iff.mp h
  refine ⟨a, rfl, ?_⟩
  simpa using skipBytes_append a []

theorem exactRead_readLe (w : Nat) : ExactRead (readLe w) := by
  intro p n q h
  obtain ⟨a, rfl, rfl, rfl⟩ := readLe_eq_some_iff.mp h
  refine ⟨a, rfl, ?_⟩
  simpa using readLe_append a []

/-- What two readers read is read by the one after the other. -/
theorem Exact.bind {f g : Bytes → Option Bytes} (hf : Framed f) (hf' : Exact f) (hg : Exact g) :
    Exact fun p => (f p).bind g := by
  intro p q h
  obtain ⟨r, hr, hq⟩ := Option.bind_eq_some_iff.mp h
  obtain ⟨a, rfl, ha⟩ := hf' p r hr
  obtain ⟨b, rfl, hb⟩ := hg r q hq
  refine ⟨a ++ b, by rw [List.append_assoc], ?_⟩
  show (f (a ++ b)).bind g = some []
  rw [hf a [] b ha]
  exact hb

theorem ExactRead.bind {α : Type*} {f : Bytes → Option (α × Bytes)}
    {g : α → Bytes → Option Bytes} (hf : FramedRead f) (hf' : ExactRead f)
    (hg : ∀ v, Exact (g v)) : Exact fun p => (f p).bind fun r => g r.1 r.2 := by
  intro p q h
  obtain ⟨⟨v, r⟩, hr, hq⟩ := Option.bind_eq_some_iff.mp h
  obtain ⟨a, rfl, ha⟩ := hf' p v r hr
  obtain ⟨b, rfl, hb⟩ := hg v r q hq
  refine ⟨a ++ b, by rw [List.append_assoc], ?_⟩
  show ((f (a ++ b)).bind fun r => g r.1 r.2) = some []
  rw [hf a v [] b ha]
  exact hb

/-! ### Repetition -/

@[simp] theorem skipMany_zero (f : Bytes → Option Bytes) (p : Bytes) :
    skipMany f 0 p = some p := rfl

theorem skipMany_succ (f : Bytes → Option Bytes) (n : Nat) (p : Bytes) :
    skipMany f (n + 1) p = (f p).bind (skipMany f n) := rfl

theorem skipMany_one (f : Bytes → Option Bytes) (p : Bytes) : skipMany f 1 p = f p := by
  rw [skipMany_succ]
  rcases f p with - | q <;> rfl

theorem Framed.skipMany {f : Bytes → Option Bytes} (hf : Framed f) (n : Nat) :
    Framed (skipMany f n) := by
  induction n with
  | zero =>
    intro p q x h
    rw [skipMany_zero, Option.some.injEq] at h
    rw [h, skipMany_zero]
  | succ n ih => exact hf.bind ih

theorem Exact.skipMany {f : Bytes → Option Bytes} (hf : Framed f) (hf' : Exact f) (n : Nat) :
    Exact (skipMany f n) := by
  induction n with
  | zero =>
    intro p q h
    obtain rfl := Option.some.inj h
    exact ⟨[], rfl, rfl⟩
  | succ n ih => exact Exact.bind hf hf' ih

/-- A framed reader that consumes each item of a list consumes their
concatenation. -/
theorem Framed.skipMany_flatten {f : Bytes → Option Bytes} (hf : Framed f) {items : List Bytes}
    (h : ∀ a ∈ items, f a = some []) (x : Bytes) :
    CashStratum.skipMany f items.length (items.flatten ++ x) = some x := by
  induction items with
  | nil => rfl
  | cons a items ih =>
    have ha : f (a ++ (items.flatten ++ x)) = some (items.flatten ++ x) :=
      hf a [] _ (h a List.mem_cons_self)
    rw [List.flatten_cons, List.append_assoc, List.length_cons, skipMany_succ, ha,
      Option.bind_some]
    exact ih fun b hb => h b (List.mem_cons_of_mem a hb)

/-- Read a given number of values. -/
@[grind =] def readMany {α : Type*} (f : Bytes → Option (α × Bytes)) : Nat → Bytes → Option (List α × Bytes)
  | 0, p => some ([], p)
  | n + 1, p => (f p).bind fun r => (readMany f n r.2).map fun rs => (r.1 :: rs.1, rs.2)

/-- Read `n` bytes. -/
@[grind =] def takeBytes (n : Nat) (p : Bytes) : Option (Bytes × Bytes) :=
  if n ≤ p.length then some (p.take n, p.drop n) else none

theorem takeBytes_eq_some_iff {n : Nat} {p a q : Bytes} :
    takeBytes n p = some (a, q) ↔ a.length = n ∧ p = a ++ q := by
  constructor
  · intro h
    rw [takeBytes] at h
    split at h
    · next hn =>
        simp only [Option.some.injEq, Prod.mk.injEq] at h
        rw [← h.1, ← h.2, List.take_append_drop]
        exact ⟨List.length_take_of_le hn, rfl⟩
    · cases h
  · rintro ⟨rfl, rfl⟩
    simp [takeBytes]

/-- A list of values is read when each of them is. -/
theorem readMany_eq_some_iff {α : Type*} {f : Bytes → Option (α × Bytes)} {w : α → Bytes}
    {Fits : α → Prop} (hf : ∀ p a q, f p = some (a, q) ↔ Fits a ∧ p = w a ++ q) {n : Nat}
    {p q : Bytes} {l : List α} :
    readMany f n p = some (l, q) ↔
      l.length = n ∧ (∀ a ∈ l, Fits a) ∧ p = (l.map w).flatten ++ q := by
  induction n generalizing p l with
  | zero =>
    constructor
    · intro h
      obtain ⟨rfl, rfl⟩ := Prod.mk.inj (Option.some.inj h)
      exact ⟨rfl, fun a ha => absurd ha List.not_mem_nil, rfl⟩
    · rintro ⟨hlen, -, rfl⟩
      rw [List.length_eq_zero_iff.mp hlen]
      rfl
  | succ n ih =>
    rw [readMany, Option.bind_eq_some_iff]
    constructor
    · rintro ⟨⟨a, r⟩, hr, htail⟩
      obtain ⟨⟨l', q'⟩, hl', heq⟩ := Option.map_eq_some_iff.mp htail
      obtain ⟨ha, rfl⟩ := (hf p a r).mp hr
      obtain ⟨rfl, rfl⟩ := Prod.mk.inj heq
      obtain ⟨hlen, hfits, rfl⟩ := ih.mp hl'
      refine ⟨congrArg Nat.succ hlen, List.forall_mem_cons.mpr ⟨ha, hfits⟩, ?_⟩
      rw [List.map_cons, List.flatten_cons, List.append_assoc]
    · rintro ⟨hlen, hfits, rfl⟩
      cases l with
      | nil => cases hlen
      | cons a l =>
        obtain ⟨ha, hfits⟩ := List.forall_mem_cons.mp hfits
        refine ⟨(a, (l.map w).flatten ++ q), (hf _ _ _).mpr ⟨ha, ?_⟩, ?_⟩
        · rw [List.map_cons, List.flatten_cons, List.append_assoc]
        · rw [ih.mpr ⟨Nat.succ.inj hlen, hfits, rfl⟩]
          rfl

theorem FramedRead.readMany {α : Type*} {f : Bytes → Option (α × Bytes)} (hf : FramedRead f)
    (n : Nat) : FramedRead (readMany f n) := by
  induction n with
  | zero =>
    intro p l q x h
    obtain ⟨rfl, rfl⟩ := Prod.mk.inj (Option.some.inj h)
    rfl
  | succ n ih =>
    intro p l q x h
    obtain ⟨⟨a, r⟩, hr, htail⟩ := Option.bind_eq_some_iff.mp h
    obtain ⟨⟨l', q'⟩, hl', heq⟩ := Option.map_eq_some_iff.mp htail
    obtain ⟨rfl, rfl⟩ := Prod.mk.inj heq
    show ((f (p ++ x)).bind fun r => _) = _
    rw [hf p a r x hr, Option.bind_some, ih r l' _ x hl']
    rfl

theorem ExactRead.readMany {α : Type*} {f : Bytes → Option (α × Bytes)} (hf : FramedRead f)
    (hf' : ExactRead f) (n : Nat) : ExactRead (readMany f n) := by
  induction n with
  | zero =>
    intro p l q h
    obtain ⟨rfl, rfl⟩ := Prod.mk.inj (Option.some.inj h)
    exact ⟨[], rfl, rfl⟩
  | succ n ih =>
    intro p l q h
    obtain ⟨⟨v, r⟩, hr, htail⟩ := Option.bind_eq_some_iff.mp h
    obtain ⟨⟨l', q'⟩, hl', heq⟩ := Option.map_eq_some_iff.mp htail
    obtain ⟨rfl, rfl⟩ := Prod.mk.inj heq
    obtain ⟨a, rfl, ha⟩ := hf' p v r hr
    obtain ⟨b, rfl, hb⟩ := ih r l' _ hl'
    refine ⟨a ++ b, by rw [List.append_assoc], ?_⟩
    show ((f (a ++ b)).bind fun r => _) = _
    rw [hf a v [] b ha, Option.bind_some, List.nil_append, hb]
    rfl

theorem length_readMany {α : Type*} {f : Bytes → Option (α × Bytes)} {n : Nat} {p q : Bytes}
    {l : List α} (h : readMany f n p = some (l, q)) : l.length = n := by
  induction n generalizing p l with
  | zero =>
    obtain ⟨rfl, -⟩ := Prod.mk.inj (Option.some.inj h)
    rfl
  | succ n ih =>
    obtain ⟨⟨a, r⟩, -, htail⟩ := Option.bind_eq_some_iff.mp h
    obtain ⟨⟨l', q'⟩, hl', heq⟩ := Option.map_eq_some_iff.mp htail
    obtain ⟨rfl, rfl⟩ := Prod.mk.inj heq
    exact congrArg Nat.succ (ih hl')

/-- One list of values after another. -/
theorem readMany_append {α : Type*} {f : Bytes → Option (α × Bytes)} {m n : Nat} {p q r : Bytes}
    {l l' : List α} (h : readMany f m p = some (l, q)) (h' : readMany f n q = some (l', r)) :
    readMany f (m + n) p = some (l ++ l', r) := by
  induction m generalizing p l with
  | zero =>
    obtain ⟨rfl, rfl⟩ := Prod.mk.inj (Option.some.inj h)
    rwa [Nat.zero_add]
  | succ m ih =>
    obtain ⟨⟨a, p'⟩, hp', htail⟩ := Option.bind_eq_some_iff.mp h
    obtain ⟨⟨l₁, q₁⟩, hl₁, heq⟩ := Option.map_eq_some_iff.mp htail
    obtain ⟨rfl, rfl⟩ := Prod.mk.inj heq
    rw [Nat.succ_add, readMany, hp', Option.bind_some, ih hl₁]
    rfl

/-- The values one by one: skip so many, and read the next. -/
theorem readMany_getElem {α : Type*} {f : Bytes → Option (α × Bytes)} {n : Nat} {p q : Bytes}
    {l : List α} (h : readMany f n p = some (l, q)) {i : Nat} (hi : i < n) :
    ((skipMany (fun p => (f p).map Prod.snd) i p).bind fun p => (f p).map Prod.fst) = l[i]? := by
  induction n generalizing p l i with
  | zero => exact absurd hi (Nat.not_lt_zero i)
  | succ n ih =>
    obtain ⟨⟨a, r⟩, hr, htail⟩ := Option.bind_eq_some_iff.mp h
    obtain ⟨⟨l', q'⟩, hl', heq⟩ := Option.map_eq_some_iff.mp htail
    obtain ⟨rfl, rfl⟩ := Prod.mk.inj heq
    cases i with
    | zero => simp [hr]
    | succ i =>
      rw [skipMany_succ, hr, List.getElem?_cons_succ]
      exact ih hl' (Nat.lt_of_succ_lt_succ hi)

end CashStratum
