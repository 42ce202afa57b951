/-
CashStratum/LruMap.lean

Least-recently-used maps.  A map of capacity `cap` is the list of its entries, from the
one used least recently to the one used last.  A lookup uses its entry, unless that has
expired, and then takes it out; a lookup of the other kind knows no expiry; a set of a
new key at capacity takes the head of the list out.

The keys stand once each (`KeysNodup.step`) and there are at most `cap` of them
(`length_step_le`).  Their order is that of their last use (`recent_run`).  What a key
holds is what was last set for it, if since then the key has not been lost, that is
evicted or found expired (`holds_run_iff`).
-/
import CashStratum.KeyedList
import CashStratum.Run
import Mathlib.Data.List.Dedup

namespace CashStratum

namespace Lru

variable {κ α τ : Type*}

/-- An entry, with the time of its set. -/
structure Entry (κ α τ : Type*) where
  key : κ
  value : α
  stamp : τ

/-- What can be asked of a map, with the time where it matters. -/
inductive Op (κ α τ : Type*) where
  | get (key : κ) (now : τ)
  | getPersistent (key : κ)
  | set (key : κ) (value : α) (now : τ)

/-- The key of an operation. -/
def Op.key : Op κ α τ → κ
  | .get key _ => key
  | .getPersistent key => key
  | .set key _ _ => key

/-- What an operation sets. -/
def Op.sets : Op κ α τ → Option (α × τ)
  | .set _ value now => some (value, now)
  | _ => none

variable [DecidableEq κ] (cap : Nat) (expired : τ → τ → Bool)

/-- The entry of a key. -/
def find (l : List (Entry κ α τ)) (key : κ) : Option (Entry κ α τ) :=
  l.find? fun entry => entry.key = key

/-- The map without a key. -/
def erase (l : List (Entry κ α τ)) (key : κ) : List (Entry κ α τ) :=
  l.filter fun entry => entry.key ≠ key

/-- The map with an entry used last. -/
def use (l : List (Entry κ α τ)) (entry : Entry κ α τ) : List (Entry κ α τ) :=
  erase l entry.key ++ [entry]

/-- What becomes of a map. -/
def step (l : List (Entry κ α τ)) : Op κ α τ → List (Entry κ α τ)
  | .get key now =>
    match find l key with
    | none => l
    | some entry => if expired entry.stamp now then erase l key else use l entry
  | .getPersistent key =>
    match find l key with
    | none => l
    | some entry => use l entry
  | .set key value now =>
    if cap = 0 then l
    else
      match find l key with
      | some _ => use l ⟨key, value, now⟩
      | none => (if l.length < cap then l else l.tail) ++ [⟨key, value, now⟩]

/-- What an operation returns. -/
def output (l : List (Entry κ α τ)) : Op κ α τ → Option α
  | .get key now =>
    (find l key).bind fun entry => if expired entry.stamp now then none else some entry.value
  | .getPersistent key => (find l key).map Entry.value
  | .set _ _ _ => none

/-- The key that an operation finds expired. -/
def lapsed (l : List (Entry κ α τ)) : Op κ α τ → Option κ
  | .get key now =>
    (find l key).bind fun entry => if expired entry.stamp now then some key else none
  | _ => none

/-- The key that an operation takes out to make room. -/
def evicted (l : List (Entry κ α τ)) : Op κ α τ → Option κ
  | .set key _ _ =>
    if 0 < cap ∧ (find l key).isNone ∧ cap ≤ l.length then l.head?.map Entry.key else none
  | _ => none

/-- What the operations of a run return. -/
def outputs : List (Entry κ α τ) → List (Op κ α τ) → List (Option α)
  | _, [] => []
  | l, op :: ops => output expired l op :: outputs (step cap expired l op) ops

variable {cap expired} {l : List (Entry κ α τ)}

/-! ### What an operation can do -/

/-- What an operation can do to a map. -/
inductive Effect (cap : Nat) (expired : τ → τ → Bool) (l : List (Entry κ α τ)) :
    Op κ α τ → List (Entry κ α τ) → Prop
  | miss (op : Op κ α τ) (hget : op.sets = none) (hfind : find l op.key = none) :
      Effect cap expired l op l
  | closed (key : κ) (value : α) (now : τ) (hcap : cap = 0) :
      Effect cap expired l (.set key value now) l
  | lapse (key : κ) (now : τ) (entry : Entry κ α τ) (hfind : find l key = some entry)
      (hexpired : expired entry.stamp now = true) :
      Effect cap expired l (.get key now) (erase l key)
  | hit (op : Op κ α τ) (entry : Entry κ α τ) (hget : op.sets = none)
      (hfind : find l op.key = some entry) (hout : output expired l op = some entry.value) :
      Effect cap expired l op (use l entry)
  | replace (key : κ) (value : α) (now : τ) (old : Entry κ α τ) (hcap : 0 < cap)
      (hfind : find l key = some old) :
      Effect cap expired l (.set key value now) (use l ⟨key, value, now⟩)
  | add (key : κ) (value : α) (now : τ) (hfind : find l key = none) (hlt : l.length < cap) :
      Effect cap expired l (.set key value now) (l ++ [⟨key, value, now⟩])
  | evict (key : κ) (value : α) (now : τ) (hcap : 0 < cap) (hfind : find l key = none)
      (hge : cap ≤ l.length) :
      Effect cap expired l (.set key value now) (l.tail ++ [⟨key, value, now⟩])

/-- **Every operation has one of these effects.** -/
theorem step_effect (cap : Nat) (expired : τ → τ → Bool) (l : List (Entry κ α τ))
    (op : Op κ α τ) : Effect cap expired l op (step cap expired l op) := by
  cases op with
  | get key now =>
    rcases hfind : find l key with - | entry
    · have hstep : step cap expired l (.get key now) = l := by simp [step, hfind]
      rw [hstep]
      exact .miss _ rfl hfind
    · by_cases hexpired : expired entry.stamp now = true
      · have hstep : step cap expired l (.get key now) = erase l key := by
          simp [step, hfind, hexpired]
        rw [hstep]
        exact .lapse key now entry hfind hexpired
      · have hstep : step cap expired l (.get key now) = use l entry := by
          simp [step, hfind, hexpired]
        rw [hstep]
        exact .hit _ entry rfl hfind (by simp [output, hfind, hexpired])
  | getPersistent key =>
    rcases hfind : find l key with - | entry
    · have hstep : step cap expired l (.getPersistent key) = l := by simp [step, hfind]
      rw [hstep]
      exact .miss _ rfl hfind
    · have hstep : step cap expired l (.getPersistent key) = use l entry := by simp [step, hfind]
      rw [hstep]
      exact .hit _ entry rfl hfind (by simp [output, hfind])
  | set key value now =>
    rcases Nat.eq_zero_or_pos cap with hcap | hcap
    · have hstep : step cap expired l (.set key value now) = l := by simp [step, hcap]
      rw [hstep]
      exact .closed key value now hcap
    · rcases hfind : find l key with - | old
      · by_cases hlt : l.length < cap
        · have hstep : step cap expired l (.set key value now) = l ++ [⟨key, value, now⟩] := by
            simp [step, hcap.ne', hfind, hlt]
          rw [hstep]
          exact .add key value now hfind hlt
        · have hstep : step cap expired l (.set key value now) =
              l.tail ++ [⟨key, value, now⟩] := by
            simp [step, hcap.ne', hfind, hlt]
          rw [hstep]
          exact .evict key value now hcap hfind (Nat.not_lt.mp hlt)
      · have hstep : step cap expired l (.set key value now) = use l ⟨key, value, now⟩ := by
          simp [step, hcap.ne', hfind]
        rw [hstep]
        exact .replace key value now old hcap hfind

/-! ### Keys -/

/-- Each key stands once. -/
def KeysNodup (l : List (Entry κ α τ)) : Prop := (l.map Entry.key).Nodup

theorem find_eq_none_iff {key : κ} : find l key = none ↔ key ∉ l.map Entry.key := by
  rw [find, find?_key_eq_none_iff, List.mem_map]
  constructor
  · rintro h ⟨entry, hmem, hkey⟩
    exact h entry hmem hkey
  · intro h entry hmem hkey
    exact h ⟨entry, hmem, hkey⟩

theorem find_key {key : κ} {entry : Entry κ α τ} (h : find l key = some entry) :
    entry.key = key ∧ entry ∈ l := by
  refine ⟨?_, List.mem_of_find?_eq_some h⟩
  have hkey := List.find?_some h
  exact of_decide_eq_true hkey

/-- The keys without one of them. -/
theorem map_key_erase (l : List (Entry κ α τ)) (key : κ) :
    (erase l key).map Entry.key = (l.map Entry.key).filter (· ≠ key) := by
  rw [erase, List.filter_map]
  rfl

theorem map_key_use (l : List (Entry κ α τ)) (entry : Entry κ α τ) :
    (use l entry).map Entry.key = (l.map Entry.key).filter (· ≠ entry.key) ++ [entry.key] := by
  rw [use, List.map_append, map_key_erase]
  rfl

omit [DecidableEq κ] in
theorem nodup_append_new {keys : List κ} {key : κ} (h : keys.Nodup) (hnew : key ∉ keys) :
    (keys ++ [key]).Nodup := by
  rw [List.nodup_append]
  refine ⟨h, List.nodup_singleton _, ?_⟩
  rintro key' hkey' _ hmem rfl
  exact hnew (List.mem_singleton.mp hmem ▸ hkey')

theorem KeysNodup.use (h : KeysNodup l) (entry : Entry κ α τ) : KeysNodup (use l entry) := by
  rw [KeysNodup, map_key_use]
  exact nodup_append_new (h.filter _) (by simp)

/-- **Every operation keeps the keys apart.** -/
theorem KeysNodup.step (h : KeysNodup l) (op : Op κ α τ) : KeysNodup (step cap expired l op) := by
  have heffect := step_effect cap expired l op
  generalize Lru.step cap expired l op = l' at heffect ⊢
  cases heffect with
  | miss | closed => exact h
  | lapse key now entry =>
    rw [KeysNodup, map_key_erase]
    exact h.filter _
  | hit _ entry => exact h.use entry
  | replace key value now => exact h.use ⟨key, value, now⟩
  | add key value now hfind =>
    rw [KeysNodup, List.map_append]
    exact nodup_append_new h (find_eq_none_iff.mp hfind)
  | evict key value now _ hfind =>
    rw [KeysNodup, List.map_append, List.map_tail]
    refine nodup_append_new h.tail fun hmem => ?_
    exact find_eq_none_iff.mp hfind (List.mem_of_mem_tail hmem)

/-! ### Size -/

theorem length_erase_lt {key : κ} {entry : Entry κ α τ} (h : find l key = some entry) :
    (erase l key).length < l.length := by
  obtain ⟨hkey, hmem⟩ := find_key h
  exact List.length_filter_lt_length_iff_exists.mpr ⟨entry, hmem, by simp [hkey]⟩

theorem length_use_le (entry : Entry κ α τ) {old : Entry κ α τ} (h : find l entry.key = some old) :
    (use l entry).length ≤ l.length := by
  rw [use, List.length_append, List.length_singleton]
  exact length_erase_lt h

/-- **The capacity is kept.** -/
theorem length_step_le (h : l.length ≤ cap) (op : Op κ α τ) :
    (step cap expired l op).length ≤ cap := by
  have heffect := step_effect cap expired l op
  generalize step cap expired l op = l' at heffect ⊢
  cases heffect with
  | miss | closed => exact h
  | lapse key now entry hfind => exact (length_erase_lt hfind).le.trans h
  | hit _ entry _ hfind => exact (length_use_le entry ((find_key hfind).1.symm ▸ hfind)).trans h
  | replace key value now old _ hfind =>
    exact (length_use_le ⟨key, value, now⟩ hfind).trans h
  | add key value now _ hlt =>
    rw [List.length_append, List.length_singleton]
    exact hlt
  | evict key value now hcap =>
    rw [List.length_append, List.length_singleton, List.length_tail]
    omega

/-! ### Order -/

/-- The keys of a run, each where it came last. -/
theorem dedup_concat (keys : List κ) (key : κ) :
    (keys ++ [key]).dedup = keys.dedup.filter (· ≠ key) ++ [key] := by
  induction keys with
  | nil => rfl
  | cons first rest ih =>
    rw [List.cons_append]
    by_cases hrest : first ∈ rest
    · rw [List.dedup_cons_of_mem (List.mem_append_left _ hrest), List.dedup_cons_of_mem hrest, ih]
    · rw [List.dedup_cons_of_notMem hrest]
      by_cases hkey : first = key
      · rw [List.dedup_cons_of_mem (by simp [hkey]), ih, List.filter_cons_of_neg (by simp [hkey])]
      · rw [List.dedup_cons_of_notMem (by simp [hrest, hkey]), ih,
          List.filter_cons_of_pos (by simpa using hkey), List.cons_append]

/-- The keys stand in the order in which the operations came to them last. -/
def Recent (l : List (Entry κ α τ)) (ops : List (Op κ α τ)) : Prop :=
  (l.map Entry.key).Sublist (ops.map Op.key).dedup

/-- **The order is that of the last use.** -/
theorem Recent.step {ops : List (Op κ α τ)} (h : Recent l ops) (hlength : l.length ≤ cap)
    (op : Op κ α τ) : Recent (step cap expired l op) (ops ++ [op]) := by
  have heffect := step_effect cap expired l op
  generalize Lru.step cap expired l op = l' at heffect ⊢
  rw [Recent, List.map_append, List.map_singleton, dedup_concat]
  -- the key of the operation goes to the end, or is not there
  have hothers : ∀ keys : List κ, keys.Sublist (l.map Entry.key) → op.key ∉ keys →
      keys.Sublist ((ops.map Op.key).dedup.filter (· ≠ op.key)) := by
    intro keys hsub hnew
    have hfilter := (hsub.trans h).filter (· ≠ op.key)
    rwa [List.filter_eq_self.mpr] at hfilter
    intro key hkey
    exact decide_eq_true fun heq => hnew (heq ▸ hkey)
  have hsame : op.key ∉ l.map Entry.key → (l.map Entry.key).Sublist
      ((ops.map Op.key).dedup.filter (· ≠ op.key) ++ [op.key]) := fun hnew =>
    (hothers _ (List.Sublist.refl _) hnew).trans (List.sublist_append_left _ _)
  have huse : ∀ entry : Entry κ α τ, entry.key = op.key → ((use l entry).map Entry.key).Sublist
      ((ops.map Op.key).dedup.filter (· ≠ op.key) ++ [op.key]) := by
    intro entry hkey
    rw [map_key_use, hkey]
    exact (hothers _ List.filter_sublist (by simp)).append (List.Sublist.refl _)
  cases heffect with
  | miss _ _ hfind => exact hsame (find_eq_none_iff.mp hfind)
  | closed key value now hcap =>
    obtain rfl : l = [] := List.eq_nil_of_length_eq_zero (Nat.le_zero.mp (hcap ▸ hlength))
    exact List.nil_sublist _
  | lapse key now entry hfind =>
    rw [map_key_erase]
    exact (hothers _ List.filter_sublist (by simp [Op.key])).trans (List.sublist_append_left _ _)
  | hit _ entry _ hfind => exact huse entry (find_key hfind).1
  | replace key value now => exact huse ⟨key, value, now⟩ rfl
  | add key value now hfind =>
    rw [List.map_append]
    have hnew : key ∉ l.map Entry.key := find_eq_none_iff.mp hfind
    exact (hothers _ (List.Sublist.refl _) hnew).append (List.Sublist.refl _)
  | evict key value now _ hfind =>
    rw [List.map_append, List.map_tail]
    refine (hothers _ (List.tail_sublist _) fun hmem => ?_).append (List.Sublist.refl _)
    exact find_eq_none_iff.mp hfind (List.mem_of_mem_tail hmem)

/-- The map after a run. -/
theorem recent_run (ops : List (Op κ α τ)) :
    (run (step cap expired) [] ops).length ≤ cap ∧ Recent (run (step cap expired) [] ops) ops := by
  induction ops using List.reverseRecOn with
  | nil => exact ⟨Nat.zero_le _, List.nil_sublist _⟩
  | append_singleton ops op ih =>
    rw [run_append]
    exact ⟨length_step_le ih.1 op, ih.2.step ih.1 op⟩

theorem keysNodup_run (ops : List (Op κ α τ)) : KeysNodup (run (step cap expired) [] ops) :=
  run_invariant_always (I := KeysNodup) (fun _ op h => h.step op) ops List.nodup_nil

/-! ### What a key holds -/

theorem find_erase (l : List (Entry κ α τ)) (key key' : κ) :
    find (erase l key) key' = if key' = key then none else find l key' := by
  rw [find, erase, List.find?_filter]
  split
  case isTrue h => exact List.find?_eq_none.mpr fun entry _ => by simp [h]
  case isFalse h =>
    congr 1
    funext entry
    by_cases hkey : entry.key = key'
    · simp [hkey, h]
    · simp [hkey]

/-- The head taken out. -/
theorem erase_head {first : Entry κ α τ} {rest : List (Entry κ α τ)}
    (h : KeysNodup (first :: rest)) : erase (first :: rest) first.key = rest := by
  have hfirst := (List.nodup_cons.mp h).1
  rw [erase, List.filter_cons_of_neg (by simp), List.filter_eq_self]
  intro entry hentry
  exact decide_eq_true fun hkey => hfirst (List.mem_map.mpr ⟨entry, hentry, hkey⟩)

theorem find_append_new (entry : Entry κ α τ) (h : find l entry.key = none) (key : κ) :
    find (l ++ [entry]) key = if key = entry.key then some entry else find l key := by
  rw [find, List.find?_append]
  split
  case isTrue hkey =>
    have hnone : (l.find? fun entry => entry.key = key) = none := hkey ▸ h
    rw [hnone, Option.none_or]
    exact List.find?_cons_of_pos (decide_eq_true hkey.symm)
  case isFalse hkey =>
    have hnone : ([entry].find? fun entry => entry.key = key) = none := by simp [Ne.symm hkey]
    rw [hnone, Option.or_none]
    rfl

theorem find_use (l : List (Entry κ α τ)) (entry : Entry κ α τ) (key : κ) :
    find (use l entry) key = if key = entry.key then some entry else find l key := by
  have hnone : find (erase l entry.key) entry.key = none := by rw [find_erase, if_pos rfl]
  rw [use, find_append_new entry hnone, find_erase]
  split <;> rfl

theorem find_tail (h : KeysNodup l) (key : κ) :
    find l.tail key = if l.head?.map Entry.key = some key then none else find l key := by
  cases l with
  | nil => rfl
  | cons first rest =>
    have hfirst := (List.nodup_cons.mp h).1
    by_cases hkey : first.key = key
    · subst hkey
      simpa using find_eq_none_iff.mpr hfirst
    · simp [find, hkey]

/-- What a key holds stays: nothing is set for it, and it is not lost. -/
def Keeps (cap : Nat) (expired : τ → τ → Bool) (key : κ) (l : List (Entry κ α τ))
    (op : Op κ α τ) : Prop :=
  (op.key = key → op.sets = none) ∧ lapsed expired l op ≠ some key ∧ evicted cap l op ≠ some key

theorem find_step_set (hcap : 0 < cap) (h : KeysNodup l) (key : κ) (value : α) (now : τ)
    (key' : κ) :
    find (step cap expired l (.set key value now)) key' =
      if key' = key then some ⟨key, value, now⟩
      else if evicted cap l (.set key value now) = some key' then none
      else find l key' := by
  have heffect := step_effect cap expired l (.set key value now)
  generalize step cap expired l (.set key value now) = l' at heffect ⊢
  cases heffect with
  | miss _ hget | hit _ _ hget => cases hget
  | closed _ _ _ hzero => omega
  | replace _ _ _ _ _ hfind =>
    have hnone : evicted cap l (.set key value now) = none := by simp [evicted, hfind]
    simp [find_use, hnone]
  | add _ _ _ hfind hlt =>
    have hnone : evicted cap l (.set key value now) = none := by
      simp [evicted, Nat.not_le.mpr hlt]
    rw [find_append_new ⟨key, value, now⟩ hfind]
    simp [hnone]
  | evict _ _ _ _ hfind hge =>
    have hhead : evicted cap l (.set key value now) = l.head?.map Entry.key := by
      simp [evicted, hcap, hfind, hge]
    have htail : find l.tail key = none := by rw [find_tail h, hfind, ite_self]
    rw [find_append_new ⟨key, value, now⟩ htail, find_tail h, hhead]

/-- **A key holds what is set for it now, or what it held.** -/
theorem find_step_eq_some_iff (hcap : 0 < cap) (h : KeysNodup l) {op : Op κ α τ}
    {entry : Entry κ α τ} :
    find (step cap expired l op) entry.key = some entry ↔
      op = .set entry.key entry.value entry.stamp ∨
        find l entry.key = some entry ∧ Keeps cap expired entry.key l op := by
  rcases hsets : op.sets with - | ⟨value, now⟩
  · have hset : op ≠ .set entry.key entry.value entry.stamp := by
      rintro rfl
      cases hsets
    rw [or_iff_right hset]
    have heffect := step_effect cap expired l op
    generalize step cap expired l op = l' at heffect ⊢
    cases heffect with
    | miss _ _ hfind => cases op <;> simp_all [Keeps, lapsed, evicted, Op.key, Op.sets]
    | lapse key now old hfind hexpired =>
      rw [find_erase]
      by_cases hkey : entry.key = key
      · simp [Keeps, lapsed, hfind, hexpired, hkey]
      · simp [Keeps, lapsed, evicted, Op.sets, hfind, hexpired, hkey, Ne.symm hkey]
    | hit _ old _ hfind hout =>
      have hkeeps : Keeps cap expired entry.key l op := by
        cases op <;> simp_all [Keeps, lapsed, evicted, output, Op.key, Op.sets]
      have hsame : find (use l old) entry.key = find l entry.key := by
        rw [find_use, (find_key hfind).1]
        split
        case isTrue hkey => rw [hkey, hfind]
        case isFalse => rfl
      rw [hsame, and_iff_left hkeeps]
    | closed | replace | add | evict => cases hsets
  · cases op with
    | get | getPersistent => cases hsets
    | set key value now =>
      obtain ⟨key', value', now'⟩ := entry
      rw [find_step_set hcap h]
      by_cases hkey : key' = key
      · simp [Keeps, Op.key, Op.sets, hkey]
      · by_cases hevicted : evicted cap l (.set key value now) = some key'
        · simp [Keeps, hkey, hevicted, Ne.symm hkey]
        · simp [Keeps, lapsed, Op.key, hkey, hevicted, Ne.symm hkey]

/-- **What a key holds after a run is what was last set for it, if it has not been lost since.** -/
theorem holds_run_iff (hcap : 0 < cap) (ops : List (Op κ α τ)) (entry : Entry κ α τ) :
    find (run (step cap expired) [] ops) entry.key = some entry ↔
      Since (step cap expired) (Keeps cap expired entry.key) [] ops
        (.set entry.key entry.value entry.stamp) := by
  induction ops using List.reverseRecOn with
  | nil =>
    refine iff_of_false (fun h => ?_) not_since_nil
    cases h
  | append_singleton ops op ih =>
    rw [since_concat_iff, run_append, ← ih]
    exact find_step_eq_some_iff hcap (keysNodup_run ops)

/-- **A lookup returns what was last set, if it is neither lost nor expired.** -/
theorem output_get_run_iff (hcap : 0 < cap) (ops : List (Op κ α τ)) (key : κ) (now : τ)
    (value : α) :
    output expired (run (step cap expired) [] ops) (.get key now) = some value ↔
      ∃ stamp, Since (step cap expired) (Keeps cap expired key) [] ops (.set key value stamp) ∧
        expired stamp now = false := by
  rw [output, Option.bind_eq_some_iff]
  constructor
  · rintro ⟨entry, hfind, hvalue⟩
    obtain ⟨rfl, -⟩ := find_key hfind
    split at hvalue
    case isTrue => cases hvalue
    case isFalse hexpired =>
      obtain rfl := Option.some.inj hvalue
      exact ⟨entry.stamp, (holds_run_iff hcap ops entry).mp hfind, by simpa using hexpired⟩
  · rintro ⟨stamp, hsince, hexpired⟩
    exact ⟨⟨key, value, stamp⟩, (holds_run_iff hcap ops ⟨key, value, stamp⟩).mpr hsince,
      by simp [hexpired]⟩

theorem output_getPersistent_run_iff (hcap : 0 < cap) (ops : List (Op κ α τ)) (key : κ)
    (value : α) :
    output expired (run (step cap expired) [] ops) (.getPersistent key) = some value ↔
      ∃ stamp, Since (step cap expired) (Keeps cap expired key) [] ops (.set key value stamp) := by
  rw [output, Option.map_eq_some_iff]
  constructor
  · rintro ⟨entry, hfind, rfl⟩
    obtain ⟨rfl, -⟩ := find_key hfind
    exact ⟨entry.stamp, (holds_run_iff hcap ops entry).mp hfind⟩
  · rintro ⟨stamp, hsince⟩
    exact ⟨⟨key, value, stamp⟩, (holds_run_iff hcap ops ⟨key, value, stamp⟩).mpr hsince, rfl⟩

end Lru

end CashStratum
