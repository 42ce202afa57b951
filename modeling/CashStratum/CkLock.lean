/-
CashStratum/CkLock.lean

The lock of the program (`cklock_t` in `libckpool.c`): a mutex in front of a read-write lock.

A reader takes the mutex, the read lock, and gives the mutex back; a writer keeps both.  A thread
is at the next call of pthread that it makes, so that other threads may come in between any two
of them.  What the other modules rest on is that a locked section is one step: nobody else is
inside while a thread writes, and the data stays as it is while one reads
(`locked_sections_are_atomic`).  A writer that steps down with `ck_dwlock` holds no read-write
lock for a moment; it is the mutex that keeps the other writers out then.  Somebody always goes on
(`lock_never_blocks`), and a thread that has waited for a minute ends the program, and with it the
run.

A thread inside a section makes no lock call but the one that leaves it or steps down.  The lock is
not recursive: a thread that asked for it again would wait for itself.
-/
import CashStratum.Run
import Mathlib.Data.Finset.Basic

namespace CashStratum

open Function

/-! ### The functions -/

/-- Where a thread is. -/
inductive LockPc
  | outside
  /-- In `_ck_rlock`, at `_mutex_lock`. -/
  | rlockMutex
  /-- In `_ck_rlock`, at `_rd_lock`. -/
  | rlockRd
  /-- In `_ck_rlock` or `_ck_dwlock`, at `_mutex_unlock`. -/
  | rlockUnmutex
  | reading
  /-- In `_ck_wlock`, at `_mutex_lock`. -/
  | wlockMutex
  /-- In `_ck_wlock`, at `_wr_lock`. -/
  | wlockWr
  | writing
  /-- In `_ck_wunlock`, at `_mutex_unlock`. -/
  | wunlockMutex
  /-- In `_ck_dwlock`, at `_rd_lock`. -/
  | dwlockRd
  /-- Behind `_ck_dwilock`; no function leaves it. -/
  | intermediate
  deriving DecidableEq

/-- A thread there holds the mutex. -/
@[grind =] def LockPc.hasMutex : LockPc → Bool
  | .rlockRd | .rlockUnmutex | .wlockWr | .writing | .wunlockMutex | .dwlockRd
  | .intermediate => true
  | _ => false

/-- A thread there holds the read lock. -/
@[grind =] def LockPc.hasRead : LockPc → Bool
  | .rlockUnmutex | .reading => true
  | _ => false

/-- A thread there has the write lock. -/
@[grind =] def LockPc.hasWrite : LockPc → Bool
  | .writing => true
  | _ => false

/-- `cklock_t`, where the threads are, and what the lock is for. -/
structure LockState (τ α : Type*) where
  mutex : Option τ
  writer : Option τ
  readers : Finset τ
  pc : τ → LockPc
  data : α

/-- The calls of the threads, the next step of a call, and a write of a thread. -/
inductive LockEvent (τ α : Type*)
  /-- `_ck_rlock` -/
  | rlock (t : τ)
  /-- `_ck_wlock` -/
  | wlock (t : τ)
  /-- `_ck_runlock` -/
  | runlock (t : τ)
  /-- `_ck_wunlock` -/
  | wunlock (t : τ)
  /-- `_ck_dwlock` -/
  | dwlock (t : τ)
  /-- `_ck_dwilock` -/
  | dwilock (t : τ)
  | go (t : τ)
  | write (t : τ) (f : α → α)

namespace LockState

variable {τ α : Type*} [DecidableEq τ]

/-- A thread goes on. -/
def goTo (s : LockState τ α) (t : τ) (p : LockPc) : LockState τ α :=
  { s with pc := update s.pc t p }

/-- Before the first call. -/
def start (data : α) : LockState τ α where
  mutex := none
  writer := none
  readers := ∅
  pc := fun _ => .outside
  data := data

/-- The next call of pthread: it waits, or it gets what it asks for. -/
def goOn (s : LockState τ α) (t : τ) : LockState τ α :=
  match s.pc t with
  | .rlockMutex => if s.mutex = none then { s with mutex := some t }.goTo t .rlockRd else s
  | .wlockMutex => if s.mutex = none then { s with mutex := some t }.goTo t .wlockWr else s
  | .rlockRd | .dwlockRd =>
    if s.writer = none then { s with readers := insert t s.readers }.goTo t .rlockUnmutex else s
  | .wlockWr =>
    if s.writer = none ∧ s.readers = ∅ then { s with writer := some t }.goTo t .writing else s
  | .rlockUnmutex => { s with mutex := none }.goTo t .reading
  | .wunlockMutex => { s with mutex := none }.goTo t .outside
  | _ => s

/-- One step.  A function starts with its first call, but for those that let go first.  A call of a
thread that is not where the function may be called is none that the program makes, and does
nothing. -/
def step (s : LockState τ α) : LockEvent τ α → LockState τ α
  | .rlock t => if s.pc t = .outside then s.goTo t .rlockMutex else s
  | .wlock t => if s.pc t = .outside then s.goTo t .wlockMutex else s
  | .runlock t =>
    if s.pc t = .reading then { s with readers := s.readers.erase t }.goTo t .outside else s
  | .wunlock t => if s.pc t = .writing then { s with writer := none }.goTo t .wunlockMutex else s
  -- from here to the read lock the thread holds nothing but the mutex
  | .dwlock t => if s.pc t = .writing then { s with writer := none }.goTo t .dwlockRd else s
  | .dwilock t => if s.pc t = .writing then { s with writer := none }.goTo t .intermediate else s
  | .go t => s.goOn t
  | .write t f => if s.pc t = .writing then { s with data := f s.data } else s

/-! ### What a step does -/

/-- What a step can do. -/
inductive Moves (s : LockState τ α) : LockState τ α → Prop
  | stay : Moves s s
  | call (t : τ) (p : LockPc) (hpc : s.pc t = .outside)
      (hp : p = .rlockMutex ∨ p = .wlockMutex) : Moves s (s.goTo t p)
  | takeMutex (t : τ) (p : LockPc)
      (hpc : s.pc t = .rlockMutex ∧ p = .rlockRd ∨ s.pc t = .wlockMutex ∧ p = .wlockWr)
      (hfree : s.mutex = none) : Moves s ({ s with mutex := some t }.goTo t p)
  | takeRead (t : τ) (hpc : s.pc t = .rlockRd ∨ s.pc t = .dwlockRd)
      (hfree : s.writer = none) :
      Moves s ({ s with readers := insert t s.readers }.goTo t .rlockUnmutex)
  | takeWrite (t : τ) (hpc : s.pc t = .wlockWr) (hfree : s.writer = none)
      (hempty : s.readers = ∅) : Moves s ({ s with writer := some t }.goTo t .writing)
  | giveMutex (t : τ) (p : LockPc)
      (hpc : s.pc t = .rlockUnmutex ∧ p = .reading ∨ s.pc t = .wunlockMutex ∧ p = .outside) :
      Moves s ({ s with mutex := none }.goTo t p)
  | giveRead (t : τ) (hpc : s.pc t = .reading) :
      Moves s ({ s with readers := s.readers.erase t }.goTo t .outside)
  | giveWrite (t : τ) (p : LockPc) (hpc : s.pc t = .writing)
      (hp : p = .wunlockMutex ∨ p = .dwlockRd ∨ p = .intermediate) :
      Moves s ({ s with writer := none }.goTo t p)
  | write (t : τ) (f : α → α) (hpc : s.pc t = .writing) :
      Moves s { s with data := f s.data }

theorem goOn_moves (s : LockState τ α) (t : τ) : s.Moves (s.goOn t) := by
  rw [goOn]
  split
  case h_1 hpc =>
    split_ifs with hfree
    · exact .takeMutex t _ (Or.inl ⟨hpc, rfl⟩) hfree
    · exact .stay
  case h_2 hpc =>
    split_ifs with hfree
    · exact .takeMutex t _ (Or.inr ⟨hpc, rfl⟩) hfree
    · exact .stay
  case h_3 hpc =>
    split_ifs with hfree
    · exact .takeRead t (Or.inl hpc) hfree
    · exact .stay
  case h_4 hpc =>
    split_ifs with hfree
    · exact .takeRead t (Or.inr hpc) hfree
    · exact .stay
  case h_5 hpc =>
    split_ifs with hfree
    · exact .takeWrite t hpc hfree.1 hfree.2
    · exact .stay
  case h_6 hpc => exact .giveMutex t _ (Or.inl ⟨hpc, rfl⟩)
  case h_7 hpc => exact .giveMutex t _ (Or.inr ⟨hpc, rfl⟩)
  case h_8 => exact .stay

theorem goOn_data (s : LockState τ α) (t : τ) : (s.goOn t).data = s.data := by
  rw [goOn]
  split <;> (try split_ifs) <;> rfl

theorem step_moves (s : LockState τ α) (e : LockEvent τ α) : s.Moves (s.step e) := by
  cases e with
  | go t => exact goOn_moves s t
  | rlock t =>
    rw [step]
    split_ifs with hpc
    · exact .call t _ hpc (Or.inl rfl)
    · exact .stay
  | wlock t =>
    rw [step]
    split_ifs with hpc
    · exact .call t _ hpc (Or.inr rfl)
    · exact .stay
  | runlock t =>
    rw [step]
    split_ifs with hpc
    · exact .giveRead t hpc
    · exact .stay
  | wunlock t =>
    rw [step]
    split_ifs with hpc
    · exact .giveWrite t _ hpc (Or.inl rfl)
    · exact .stay
  | dwlock t =>
    rw [step]
    split_ifs with hpc
    · exact .giveWrite t _ hpc (Or.inr (Or.inl rfl))
    · exact .stay
  | dwilock t =>
    rw [step]
    split_ifs with hpc
    · exact .giveWrite t _ hpc (Or.inr (Or.inr rfl))
    · exact .stay
  | write t f =>
    rw [step]
    split_ifs with hpc
    · exact .write t f hpc
    · exact .stay

/-! ### Who holds what -/

/-- What is held is held by the thread that is where one holds it, and a writer is alone. -/
structure Inv (s : LockState τ α) : Prop where
  mutex : ∀ t, s.mutex = some t ↔ (s.pc t).hasMutex = true
  writer : ∀ t, s.writer = some t ↔ (s.pc t).hasWrite = true
  readers : ∀ t, t ∈ s.readers ↔ (s.pc t).hasRead = true
  alone : ∀ t, s.writer = some t → s.readers = ∅

omit [DecidableEq τ] in
theorem inv_start (data : α) : (start data : LockState τ α).Inv where
  mutex t := by simp [start, LockPc.hasMutex]
  writer t := by simp [start, LockPc.hasWrite]
  readers t := by simp [start, LockPc.hasRead]
  alone t h := by cases h

section Owner

variable {pc : τ → LockPc} {has : LockPc → Bool} {owner : Option τ} {t : τ} {p : LockPc}

/-- The owner stays when a thread moves between places alike. -/
theorem owner_stays (h : ∀ u, owner = some u ↔ has (pc u) = true) (hsame : has p = has (pc t))
    (u : τ) : owner = some u ↔ has (update pc t p u) = true := by
  by_cases hu : u = t
  · subst hu
    rw [update_self, hsame]
    exact h u
  · rw [update_of_ne hu]
    exact h u

/-- A thread takes what is free. -/
theorem owner_takes (h : ∀ u, owner = some u ↔ has (pc u) = true) (hfree : owner = none)
    (hp : has p = true) (u : τ) : some t = some u ↔ has (update pc t p u) = true := by
  by_cases hu : u = t
  · subst hu
    simp [hp]
  · have hnot : ¬has (pc u) = true := fun hhas => by
      cases hfree.symm.trans ((h u).mpr hhas)
    rw [update_of_ne hu, iff_false_right hnot, Option.some.injEq]
    exact fun heq => hu heq.symm

/-- A thread gives back what it has. -/
theorem owner_gives (h : ∀ u, owner = some u ↔ has (pc u) = true) (hhas : has (pc t) = true)
    (hp : has p = false) (u : τ) :
    (none : Option τ) = some u ↔ has (update pc t p u) = true := by
  by_cases hu : u = t
  · subst hu
    simp [hp]
  · have hnot : ¬has (pc u) = true := fun hother =>
      hu (Option.some.inj (((h u).mpr hother).symm.trans ((h t).mpr hhas)))
    rw [update_of_ne hu, iff_false_right hnot]
    exact fun heq => by cases heq

variable {readers : Finset τ}

theorem readers_stay (h : ∀ u, u ∈ readers ↔ has (pc u) = true) (hsame : has p = has (pc t))
    (u : τ) : u ∈ readers ↔ has (update pc t p u) = true := by
  by_cases hu : u = t
  · subst hu
    rw [update_self, hsame]
    exact h u
  · rw [update_of_ne hu]
    exact h u

end Owner

/-- **A step keeps who holds what.** -/
theorem Inv.step {s : LockState τ α} (h : s.Inv) (e : LockEvent τ α) : (s.step e).Inv := by
  have hmoves := step_moves s e
  generalize s.step e = s' at hmoves ⊢
  cases hmoves with
  | stay => exact h
  | call t p hpc hp =>
    refine ⟨owner_stays h.mutex ?_, owner_stays h.writer ?_, readers_stay h.readers ?_, h.alone⟩
    all_goals rw [hpc]; rcases hp with rfl | rfl <;> rfl
  | takeMutex t p hpc hfree =>
    refine ⟨owner_takes h.mutex hfree ?_, owner_stays h.writer ?_, readers_stay h.readers ?_,
      h.alone⟩
    all_goals obtain ⟨hpc, rfl⟩ | ⟨hpc, rfl⟩ := hpc
    all_goals first | rfl | (rw [hpc]; rfl)
  | takeRead t hpc hfree =>
    refine ⟨owner_stays h.mutex ?_, owner_stays h.writer ?_, fun u => ?_, fun u hu => ?_⟩
    · rcases hpc with hpc | hpc <;> rw [hpc] <;> rfl
    · rcases hpc with hpc | hpc <;> rw [hpc] <;> rfl
    -- a reader comes in only while nobody writes
    · by_cases hu : u = t
      · subst hu
        simp [goTo, LockPc.hasRead]
      · simp only [goTo, update_of_ne hu, Finset.mem_insert, hu, false_or]
        exact h.readers u
    · cases hfree.symm.trans hu
  | takeWrite t hpc hfree hempty =>
    refine ⟨owner_stays h.mutex ?_, owner_takes h.writer hfree rfl, readers_stay h.readers ?_,
      fun _ _ => hempty⟩
    all_goals rw [hpc]; rfl
  | giveMutex t p hpc =>
    refine ⟨owner_gives h.mutex ?_ ?_, owner_stays h.writer ?_, readers_stay h.readers ?_,
      h.alone⟩
    all_goals obtain ⟨hpc, rfl⟩ | ⟨hpc, rfl⟩ := hpc
    all_goals first | rfl | (rw [hpc]; rfl)
  | giveRead t hpc =>
    refine ⟨owner_stays h.mutex ?_, owner_stays h.writer ?_, fun u => ?_, fun u hu => ?_⟩
    · rw [hpc]; rfl
    · rw [hpc]; rfl
    · by_cases hu : u = t
      · subst hu
        simp [goTo, LockPc.hasRead]
      · simp only [goTo, update_of_ne hu, Finset.mem_erase, hu, ne_eq, not_false_eq_true,
          true_and]
        exact h.readers u
    · show s.readers.erase t = ∅
      rw [h.alone u hu, Finset.erase_empty]
  | giveWrite t p hpc hp =>
    refine ⟨owner_stays h.mutex ?_, owner_gives h.writer ?_ ?_, readers_stay h.readers ?_,
      fun u hu => by cases hu⟩
    · rw [hpc]; rcases hp with rfl | rfl | rfl <;> rfl
    · rw [hpc]; rfl
    · rcases hp with rfl | rfl | rfl <;> rfl
    · rw [hpc]; rcases hp with rfl | rfl | rfl <;> rfl
  | write t f hpc => exact ⟨h.mutex, h.writer, h.readers, h.alone⟩

/-! ### Sections -/

/-- A thread there relies on the data: it reads, or it has stepped down and will. -/
def Relies (p : LockPc) : Prop := p = .dwlockRd ∨ p.hasRead = true

/-- Nobody but `t` is inside. -/
def Alone (s : LockState τ α) (t : τ) : Prop :=
  ∀ u, u ≠ t → s.pc u ≠ .writing ∧ ¬Relies (s.pc u)

/-- The writes of one thread. -/
def ownWrite (t : τ) : LockEvent τ α → Option (α → α)
  | .write u f => if u = t then some f else none
  | _ => none

section Sections

variable {s : LockState τ α} (h : s.Inv)

include h

omit [DecidableEq τ] in
theorem Inv.mutex_unique {t u : τ} (ht : (s.pc t).hasMutex = true)
    (hu : (s.pc u).hasMutex = true) : t = u :=
  Option.some.inj (((h.mutex t).mpr ht).symm.trans ((h.mutex u).mpr hu))

omit [DecidableEq τ] in
theorem Inv.no_reader {t u : τ} (ht : s.pc t = .writing) : (s.pc u).hasRead = false := by
  have hempty := h.alone t ((h.writer t).mpr (by rw [ht]; rfl))
  by_contra hread
  have hmem : u ∈ s.readers := (h.readers u).mpr (by simpa using hread)
  rw [hempty] at hmem
  exact absurd hmem (Finset.notMem_empty u)

omit [DecidableEq τ] in
/-- **A writer is alone.** -/
theorem Inv.writer_alone {t : τ} (ht : s.pc t = .writing) : s.Alone t := by
  have hmutex : (s.pc t).hasMutex = true := by rw [ht]; rfl
  intro u hu
  -- another writer, and one that steps down, would have the mutex; a reader would be in `readers`
  refine ⟨fun hwriting => hu (h.mutex_unique (by rw [hwriting]; rfl) hmutex), ?_⟩
  rintro (hdown | hread)
  · exact hu (h.mutex_unique (by rw [hdown]; rfl) hmutex)
  · cases hread.symm.trans (h.no_reader ht)

/-- **Nobody writes while a thread relies on the data.** -/
theorem Inv.no_writer {t : τ} (ht : Relies (s.pc t)) (u : τ) : s.pc u ≠ .writing := by
  intro hwriting
  by_cases htu : t = u
  · subst htu
    rw [hwriting] at ht
    rcases ht with ht | ht <;> cases ht
  · exact (h.writer_alone hwriting t htu).2 ht

/-- Only a writer changes the data. -/
theorem Inv.data_of_relies {t : τ} (ht : Relies (s.pc t)) (e : LockEvent τ α) :
    (s.step e).data = s.data := by
  have hmoves := step_moves s e
  generalize s.step e = s' at hmoves ⊢
  cases hmoves with
  | write u f hpc => exact absurd hpc (h.no_writer ht u)
  | _ => rfl

/-- While a thread writes, its writes are the only ones. -/
theorem Inv.data_of_writing {t : τ} (ht : s.pc t = .writing) (e : LockEvent τ α) :
    (s.step e).data = (ownWrite t e).elim s.data fun f => f s.data := by
  cases e with
  | write u f =>
    by_cases hu : u = t
    · subst hu
      simp [LockState.step, ht, ownWrite]
    · have hother : s.pc u ≠ .writing := (h.writer_alone ht u hu).1
      simp [LockState.step, hother, ownWrite, hu]
  | go u => exact goOn_data s u
  | _ =>
    simp only [LockState.step, ownWrite, Option.elim_none]
    split_ifs <;> rfl

/-- No reader comes in while a writer waits for the read-write lock: it has the mutex by then. -/
theorem Inv.readers_of_waiting {t : τ} (ht : s.pc t = .wlockWr) (e : LockEvent τ α) :
    (s.step e).readers ⊆ s.readers := by
  have hmutex : (s.pc t).hasMutex = true := by rw [ht]; rfl
  have hmoves := step_moves s e
  generalize s.step e = s' at hmoves ⊢
  cases hmoves with
  | takeRead u hpc hfree =>
    -- it would have the mutex, which the writer took before it waits
    have hu : (s.pc u).hasMutex = true := by rcases hpc with hpc | hpc <;> rw [hpc] <;> rfl
    obtain rfl := h.mutex_unique hmutex hu
    rw [ht] at hpc
    rcases hpc with hpc | hpc <;> cases hpc
  | giveRead u hpc => exact Finset.erase_subset u s.readers
  | _ => exact Finset.Subset.refl _

/-- A writer that waits gets in when the last reader is out. -/
theorem Inv.go_of_waiting {t : τ} (ht : s.pc t = .wlockWr) (hempty : s.readers = ∅) :
    (s.step (.go t)).pc t = .writing := by
  have hfree : s.writer = none := by
    by_contra hwriter
    obtain ⟨u, hu⟩ := Option.ne_none_iff_exists'.mp hwriter
    have hwrite := (h.writer u).mp hu
    have huw : s.pc u = .writing := by
      cases hpc : s.pc u <;> rw [hpc] at hwrite <;> first | rfl | cases hwrite
    have hmutex : (s.pc t).hasMutex = true := by rw [ht]; rfl
    obtain rfl := h.mutex_unique hmutex (by rw [huw]; rfl)
    cases ht.symm.trans huw
  simp [LockState.step, goOn, ht, hfree, hempty, goTo]

end Sections

/-! ### Every run -/

/-- While a thread writes, the data becomes what its own writes make of it. -/
theorem data_run_of_writing {s : LockState τ α} {t : τ} {during : List (LockEvent τ α)}
    (h : s.Inv) (halong : Along step (fun s _ => s.pc t = .writing) s during) :
    (run step s during).data =
      (during.filterMap (ownWrite t)).foldl (fun data f => f data) s.data := by
  induction during generalizing s with
  | nil => rfl
  | cons e during ih =>
    obtain ⟨hwriting, hrest⟩ := halong
    rw [run_cons, ih (h.step e) hrest, h.data_of_writing hwriting e]
    cases hown : ownWrite t e with
    | none => rw [List.filterMap_cons_none hown, Option.elim_none]
    | some f => rw [List.filterMap_cons_some hown, Option.elim_some, List.foldl_cons]

/-- While a thread relies on the data, it stays. -/
theorem data_run_of_relies {s : LockState τ α} {t : τ} {during : List (LockEvent τ α)}
    (h : s.Inv) (halong : Along step (fun s _ => Relies (s.pc t)) s during) :
    (run step s during).data = s.data := by
  induction during generalizing s with
  | nil => rfl
  | cons e during ih =>
    rw [run_cons, ih (h.step e) halong.2]
    exact h.data_of_relies halong.1 e

/-- While a writer that has the mutex waits, readers only leave. -/
theorem readers_run_of_waiting {s : LockState τ α} {t : τ} {during : List (LockEvent τ α)}
    (h : s.Inv) (halong : Along step (fun s _ => s.pc t = .wlockWr) s during) :
    (run step s during).readers ⊆ s.readers := by
  induction during generalizing s with
  | nil => exact Finset.Subset.refl _
  | cons e during ih =>
    exact (ih (h.step e) halong.2).trans (h.readers_of_waiting halong.1 e)

theorem inv_run (data : α) (events : List (LockEvent τ α)) :
    (run step (start data : LockState τ α) events).Inv :=
  run_invariant_of (Q := fun _ => True) (fun _ e _ h => h.step e) (fun _ _ => trivial)
    (inv_start data)

/-- **A locked section is one step.**  After any calls of any threads, in any order: a thread
that writes is alone; as long as it writes, what becomes of the data is what its own writes make
of it; as long as a thread reads, or steps down from writing to reading, the data stays as it is;
and as long as a writer that has the mutex waits, no reader comes in, and it gets in when none is
left. -/
theorem locked_sections_are_atomic (data : α) (before during : List (LockEvent τ α)) (t : τ) :
    let s := run step (start data) before
    (s.pc t = .writing → s.Alone t) ∧
    (Along step (fun s _ => s.pc t = .writing) s during →
      (run step s during).data =
        (during.filterMap (ownWrite t)).foldl (fun data f => f data) s.data) ∧
    (Along step (fun s _ => Relies (s.pc t)) s during → (run step s during).data = s.data) ∧
    (Along step (fun s _ => s.pc t = .wlockWr) s during →
      (run step s during).readers ⊆ s.readers) ∧
    (s.pc t = .wlockWr → s.readers = ∅ → (s.step (.go t)).pc t = .writing) := by
  intro s
  have h : s.Inv := inv_run data before
  exact ⟨h.writer_alone, data_run_of_writing h, data_run_of_relies h, readers_run_of_waiting h,
    h.go_of_waiting⟩

/-! ### No deadlock -/

/-- A thread there is in its locked section: its next step is a call of its own. -/
def Inside (p : LockPc) : Prop := p = .reading ∨ p = .writing ∨ p = .intermediate

/-- A thread is in its section, or the next call of a thread gets what it asks for. -/
def Live (s : LockState τ α) : Prop :=
  (∃ u, Inside (s.pc u)) ∨ ∃ u, (s.step (.go u)).pc u ≠ s.pc u

section Live

variable {s : LockState τ α} {t : τ}

theorem live_of_goOn (h : (s.goOn t).pc t ≠ s.pc t) : s.Live := Or.inr ⟨t, h⟩

theorem live_of_writer (h : s.Inv) (hwriter : s.writer ≠ none) : s.Live := by
  obtain ⟨u, hu⟩ := Option.ne_none_iff_exists'.mp hwriter
  have hwrite := (h.writer u).mp hu
  refine Or.inl ⟨u, Or.inr (Or.inl ?_)⟩
  cases hpc : s.pc u <;> rw [hpc] at hwrite <;> first | rfl | cases hwrite

/-- Who reads is in its section, or gives the mutex back. -/
theorem live_of_reader (h : s.Inv) (hreader : t ∈ s.readers) : s.Live := by
  have hread := (h.readers t).mp hreader
  cases hpc : s.pc t with
  | reading => exact Or.inl ⟨t, Or.inl hpc⟩
  | rlockUnmutex => exact live_of_goOn (t := t) (by simp [goOn, goTo, hpc])
  | _ => rw [hpc] at hread; cases hread

/-- Who has the mutex goes on, unless a section is in its way. -/
theorem live_of_mutex (h : s.Inv) (hmutex : (s.pc t).hasMutex = true) : s.Live := by
  by_cases hwriter : s.writer = none
  · cases hpc : s.pc t with
    | rlockRd | dwlockRd => exact live_of_goOn (t := t) (by simp [goOn, goTo, hpc, hwriter])
    | rlockUnmutex | wunlockMutex => exact live_of_goOn (t := t) (by simp [goOn, goTo, hpc])
    | writing => exact Or.inl ⟨t, Or.inr (Or.inl hpc)⟩
    | intermediate => exact Or.inl ⟨t, Or.inr (Or.inr hpc)⟩
    | wlockWr =>
      obtain hempty | ⟨u, hu⟩ := s.readers.eq_empty_or_nonempty
      · exact live_of_goOn (t := t) (by simp [goOn, goTo, hpc, hwriter, hempty])
      · exact live_of_reader h hu
    | _ => rw [hpc] at hmutex; cases hmutex
  · exact live_of_writer h hwriter

/-- Who waits for the mutex gets it, or waits for a thread that goes on. -/
theorem live_of_waiting (h : s.Inv) (hwaits : s.pc t = .rlockMutex ∨ s.pc t = .wlockMutex) :
    s.Live := by
  cases hmutex : s.mutex with
  | none =>
    refine live_of_goOn (t := t) ?_
    rcases hwaits with hpc | hpc <;> simp [goOn, goTo, hpc, hmutex]
  | some u => exact live_of_mutex h ((h.mutex u).mp hmutex)

end Live

/-- **The lock never blocks.**  After any calls of any threads that are outside or leave or step
down, as long as one is in a call, a thread is in its section or one can go on. -/
theorem lock_never_blocks (data : α) (events : List (LockEvent τ α)) :
    let s := run step (start data) events
    (∀ t, s.pc t = .outside) ∨ s.Live := by
  intro s
  have h : s.Inv := inv_run data events
  by_cases hall : ∀ t, s.pc t = .outside
  · exact Or.inl hall
  · obtain ⟨t, ht⟩ := not_forall.mp hall
    refine Or.inr ?_
    cases hpc : s.pc t with
    | outside => exact absurd hpc ht
    | rlockMutex => exact live_of_waiting h (Or.inl hpc)
    | wlockMutex => exact live_of_waiting h (Or.inr hpc)
    | reading => exact Or.inl ⟨t, Or.inl hpc⟩
    | _ => exact live_of_mutex (t := t) h (by rw [hpc]; rfl)

end LockState

end CashStratum
