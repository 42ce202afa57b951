/-
CashStratum/LruCache.lean

The `LRUCache` of the API: a map of entries, and beside it the keys in the order of their use.
The two are kept in step by hand.  A lookup with a time to live (`Get`), one without
(`GetPersistent`) and a set (`Set`) act on the two as on one least-recently-used map
(`LRUCache.Abs.exec`), in every run and on every clock (`lruCache_is_lru_map`).
-/
import CashStratum.ByteString
import CashStratum.LruMap
import Mathlib.Data.Finmap

namespace CashStratum

open Lru

variable {α : Type*}

/-! ### The cache -/

/-- `CacheTTL`, in nanoseconds. -/
def cacheTTL : Int := 60 * 1000000000

structure CacheEntry (α : Type*) where
  data : α
  timestamp : Int

structure LRUCache (α : Type*) where
  capacity : Int
  cache : Finmap fun _ : Bytes => CacheEntry α
  order : List Bytes

/-- `NewLRUCache`.  A slice of negative capacity is a panic, and so is one beyond the address
space, with sixteen bytes a string. -/
def newLRUCache (capacity : Int) : Option (LRUCache α) :=
  if capacity < 0 ∨ 2 ^ 48 < 16 * capacity then none
  else some { capacity := capacity, cache := ∅, order := [] }

/-- `touchLocked` -/
def LRUCache.touchLocked (c : LRUCache α) (key : Bytes) : LRUCache α :=
  { c with order := c.order.erase key ++ [key] }

/-- `removeLocked` -/
def LRUCache.removeLocked (c : LRUCache α) (key : Bytes) : LRUCache α :=
  { c with cache := c.cache.erase key, order := c.order.erase key }

/-- `time.Since(timestamp) > CacheTTL` -/
def cacheExpired (timestamp now : Int) : Bool := now - timestamp > cacheTTL

/-- `Get` -/
def LRUCache.get (c : LRUCache α) (key : Bytes) (now : Int) : LRUCache α × Option α :=
  match c.cache.lookup key with
  | none => (c, none)
  | some entry =>
    if cacheExpired entry.timestamp now then (c.removeLocked key, none)
    else (c.touchLocked key, some entry.data)

/-- `GetPersistent` -/
def LRUCache.getPersistent (c : LRUCache α) (key : Bytes) : LRUCache α × Option α :=
  match c.cache.lookup key with
  | none => (c, none)
  | some entry => (c.touchLocked key, some entry.data)

/-- `Set`.  An empty `order` has no first key, which is a panic. -/
def LRUCache.set (c : LRUCache α) (key : Bytes) (data : α) (now : Int) : Option (LRUCache α) :=
  if c.capacity ≤ 0 then some c
  else if (c.cache.lookup key).isSome then
    some ({ c with cache := c.cache.insert key ⟨data, now⟩ }.touchLocked key)
  else do
    let c ← if c.cache.keys.card ≥ c.capacity then c.order.head?.map c.removeLocked else some c
    some { c with cache := c.cache.insert key ⟨data, now⟩, order := c.order ++ [key] }

/-- A call, with what it returns. -/
def LRUCache.exec (c : LRUCache α) : Op Bytes α Int → Option (LRUCache α × Option α)
  | .get key now => some (c.get key now)
  | .getPersistent key => some (c.getPersistent key)
  | .set key data now => (c.set key data now).map fun c => (c, none)

/-- Calls one after another. -/
def LRUCache.execs (c : LRUCache α) : List (Op Bytes α Int) → Option (LRUCache α × List (Option α))
  | [] => some (c, [])
  | op :: ops => do
      let (c, out) ← c.exec op
      let (c, outs) ← c.execs ops
      some (c, out :: outs)

/-! ### The map -/

/-- The cache is a least-recently-used map: the entries in the order of `order`. -/
structure LRUCache.Abs (c : LRUCache α) (l : List (Entry Bytes α Int)) : Prop where
  nodup : KeysNodup l
  order : c.order = l.map Entry.key
  lookup (key : Bytes) : c.cache.lookup key = (find l key).map fun e => ⟨e.value, e.stamp⟩

namespace LRUCache.Abs

variable {c : LRUCache α} {l : List (Entry Bytes α Int)}

theorem keys_eq (h : c.Abs l) : c.cache.keys = (l.map Entry.key).toFinset := by
  ext key
  rw [Finmap.mem_keys, ← Finmap.lookup_isSome, h.lookup, Option.isSome_map, List.mem_toFinset,
    ← not_iff_not, ← find_eq_none_iff, Bool.not_eq_true, Option.isSome_eq_false_iff,
    Option.isNone_iff_eq_none]

/-- The length of the map is that of the list. -/
theorem card_keys (h : c.Abs l) : c.cache.keys.card = l.length := by
  rw [h.keys_eq, List.toFinset_card_of_nodup h.nodup, List.length_map]

theorem order_erase (h : c.Abs l) (key : Bytes) :
    c.order.erase key = (erase l key).map Entry.key := by
  rw [h.order, map_key_erase, List.Nodup.erase_eq_filter h.nodup]
  refine List.filter_congr fun key' _ => ?_
  by_cases hkey : key' = key <;> simp [hkey]

theorem removeLocked (h : c.Abs l) (key : Bytes) : (c.removeLocked key).Abs (erase l key) where
  nodup := by
    rw [KeysNodup, map_key_erase]
    exact List.Nodup.filter _ h.nodup
  order := h.order_erase key
  lookup key' := by
    show (c.cache.erase key).lookup key' = _
    rw [find_erase]
    by_cases hkey : key' = key
    · rw [if_pos hkey, hkey, Finmap.lookup_erase]
      rfl
    · rw [if_neg hkey, Finmap.lookup_erase_ne hkey, h.lookup]

/-- An entry is used: its key goes to the end of `order`. -/
theorem use (h : c.Abs l) (entry : Entry Bytes α Int) {c' : LRUCache α}
    (horder : c'.order = c.order.erase entry.key ++ [entry.key])
    (hlookup : ∀ key, c'.cache.lookup key =
      if key = entry.key then some ⟨entry.value, entry.stamp⟩ else c.cache.lookup key) :
    c'.Abs (use l entry) where
  nodup := h.nodup.use entry
  order := by
    rw [horder, h.order_erase, Lru.use, List.map_append]
    rfl
  lookup key := by
    rw [hlookup, find_use, h.lookup]
    split <;> rfl

theorem touchLocked (h : c.Abs l) {key : Bytes} {entry : Entry Bytes α Int}
    (hfind : find l key = some entry) : (c.touchLocked key).Abs (Lru.use l entry) := by
  obtain ⟨rfl, -⟩ := find_key hfind
  refine h.use entry rfl fun key => ?_
  show c.cache.lookup key = _
  split
  case isTrue hkey =>
    rw [hkey, h.lookup, hfind]
    rfl
  case isFalse => rfl

/-- An entry of a new key is added behind the others. -/
theorem append (h : c.Abs l) (entry : Entry Bytes α Int) (hnew : find l entry.key = none)
    {c' : LRUCache α} (horder : c'.order = c.order ++ [entry.key])
    (hcache : c'.cache = c.cache.insert entry.key ⟨entry.value, entry.stamp⟩) :
    c'.Abs (l ++ [entry]) where
  nodup := by
    rw [KeysNodup, List.map_append]
    exact nodup_append_new h.nodup (find_eq_none_iff.mp hnew)
  order := by
    rw [horder, h.order, List.map_append]
    rfl
  lookup key := by
    rw [hcache, find_append_new entry hnew]
    split
    case isTrue hkey =>
      rw [hkey, Finmap.lookup_insert]
      rfl
    case isFalse hkey => rw [Finmap.lookup_insert_of_ne _ hkey, h.lookup]

theorem get (h : c.Abs l) (key : Bytes) (now : Int) :
    (c.get key now).2 = output cacheExpired l (.get key now) ∧
      ∀ cap, (c.get key now).1.Abs (step cap cacheExpired l (.get key now)) := by
  have hlookup := h.lookup key
  rcases hfind : find l key with - | entry
  · rw [hfind] at hlookup
    simp [LRUCache.get, output, step, hlookup, hfind, h]
  · rw [hfind] at hlookup
    by_cases hexpired : cacheExpired entry.stamp now = true
    · simp [LRUCache.get, output, step, hlookup, hfind, hexpired, h.removeLocked]
    · simp [LRUCache.get, output, step, hlookup, hfind, hexpired, h.touchLocked hfind]

theorem getPersistent (h : c.Abs l) (key : Bytes) :
    (c.getPersistent key).2 = output cacheExpired l (.getPersistent key) ∧
      ∀ cap, (c.getPersistent key).1.Abs (step cap cacheExpired l (.getPersistent key)) := by
  have hlookup := h.lookup key
  rcases hfind : find l key with - | entry
  · rw [hfind] at hlookup
    simp [LRUCache.getPersistent, output, step, hlookup, hfind, h]
  · rw [hfind] at hlookup
    simp [LRUCache.getPersistent, output, step, hlookup, hfind, h.touchLocked hfind]

/-- **A set does not panic and acts on the map.** -/
theorem set (h : c.Abs l) (key : Bytes) (data : α) (now : Int) :
    ∃ c', c.set key data now = some c' ∧ c'.capacity = c.capacity ∧
      c'.Abs (step c.capacity.toNat cacheExpired l (.set key data now)) := by
  have heffect := step_effect c.capacity.toNat cacheExpired l (.set key data now)
  generalize step c.capacity.toNat cacheExpired l (.set key data now) = l' at heffect ⊢
  have hlookup := h.lookup key
  have hcard := h.card_keys
  cases heffect with
  | miss _ hget | hit _ _ hget => cases hget
  | closed _ _ _ hcap => exact ⟨c, if_pos (by omega), rfl, h⟩
  | replace _ _ _ old hcap hfind =>
    have hopen : ¬c.capacity ≤ 0 := by omega
    rw [hfind] at hlookup
    refine ⟨{ c with cache := c.cache.insert key ⟨data, now⟩ }.touchLocked key, ?_, rfl, ?_⟩
    · simp [LRUCache.set, hopen, hlookup]
    · refine h.use ⟨key, data, now⟩ rfl fun key' => ?_
      show (c.cache.insert key ⟨data, now⟩).lookup key' = _
      split
      case isTrue hkey => rw [hkey, Finmap.lookup_insert]
      case isFalse hkey => rw [Finmap.lookup_insert_of_ne _ hkey]
  | add _ _ _ hfind hlt =>
    have hopen : ¬c.capacity ≤ 0 := by omega
    have hroom : ¬(c.cache.keys.card : Int) ≥ c.capacity := by omega
    rw [hfind] at hlookup
    refine ⟨{ c with
      cache := c.cache.insert key ⟨data, now⟩, order := c.order ++ [key] }, ?_, rfl, ?_⟩
    · simp only [LRUCache.set, if_neg hopen, hlookup, if_neg hroom]
      rfl
    · exact h.append ⟨key, data, now⟩ hfind rfl rfl
  | evict _ _ _ hcap hfind hge =>
    have hopen : ¬c.capacity ≤ 0 := by omega
    have hfull : (c.cache.keys.card : Int) ≥ c.capacity := by omega
    rw [hfind] at hlookup
    obtain ⟨first, rest, rfl⟩ := List.exists_cons_of_length_pos (hcap.trans_le hge)
    have hhead : c.order.head? = some first.key := by rw [h.order]; rfl
    have hrest : (c.removeLocked first.key).Abs rest :=
      erase_head h.nodup ▸ h.removeLocked first.key
    have hnew : find rest key = none := by
      rw [← erase_head h.nodup, find_erase, hfind, ite_self]
    refine ⟨{ c.removeLocked first.key with
      cache := (c.cache.erase first.key).insert key ⟨data, now⟩
      order := (c.removeLocked first.key).order ++ [key] }, ?_, rfl, ?_⟩
    · simp only [LRUCache.set, if_neg hopen, hlookup, if_pos hfull, hhead]
      rfl
    · exact hrest.append ⟨key, data, now⟩ hnew rfl rfl

/-- **Every call acts on the map, and returns what the map returns.** -/
theorem exec (h : c.Abs l) (op : Op Bytes α Int) :
    ∃ c', c.exec op = some (c', output cacheExpired l op) ∧ c'.capacity = c.capacity ∧
      c'.Abs (step c.capacity.toNat cacheExpired l op) := by
  cases op with
  | get key now =>
    obtain ⟨hout, habs⟩ := h.get key now
    refine ⟨(c.get key now).1, ?_, ?_, habs _⟩
    · rw [← hout]
      rfl
    · unfold LRUCache.get
      repeat' split
      all_goals rfl
  | getPersistent key =>
    obtain ⟨hout, habs⟩ := h.getPersistent key
    refine ⟨(c.getPersistent key).1, ?_, ?_, habs _⟩
    · rw [← hout]
      rfl
    · unfold LRUCache.getPersistent
      split <;> rfl
  | set key data now =>
    obtain ⟨c', hset, hcap, habs⟩ := h.set key data now
    refine ⟨c', ?_, hcap, habs⟩
    rw [LRUCache.exec, hset]
    rfl

/-- And so do the calls of a run. -/
theorem execs (h : c.Abs l) (ops : List (Op Bytes α Int)) :
    ∃ c', c.execs ops = some (c', outputs c.capacity.toNat cacheExpired l ops) ∧
      c'.capacity = c.capacity ∧
      c'.Abs (run (step c.capacity.toNat cacheExpired) l ops) := by
  induction ops generalizing c l with
  | nil => exact ⟨c, rfl, rfl, h⟩
  | cons op ops ih =>
    obtain ⟨c₁, hexec, hcap₁, habs₁⟩ := h.exec op
    obtain ⟨c₂, hexecs, hcap₂, habs₂⟩ := ih habs₁
    rw [hcap₁] at hexecs habs₂
    refine ⟨c₂, ?_, hcap₂.trans hcap₁, habs₂⟩
    simp only [LRUCache.execs, hexec, hexecs, Option.bind_eq_bind, Option.bind_some]
    rfl

/-- **A set of a new key in a full cache takes out the key used least recently, and no other.** -/
theorem set_evicts (h : c.Abs l) (hcap : 0 < c.capacity) (hfull : c.cache.keys.card = c.capacity)
    {key : Bytes} (hnew : c.cache.lookup key = none) (data : α) (now : Int) :
    ∃ oldest rest c', c.order = oldest :: rest ∧ c.set key data now = some c' ∧
      c'.order = rest ++ [key] ∧
      ∀ key', c'.cache.lookup key' =
        if key' = key then some ⟨data, now⟩
        else if key' = oldest then none
        else c.cache.lookup key' := by
  rw [h.card_keys] at hfull
  obtain ⟨first, rest, rfl⟩ := List.exists_cons_of_length_pos (by omega : 0 < l.length)
  obtain ⟨c', hset, -, habs⟩ := h.set key data now
  have hfind : find (first :: rest) key = none := Option.map_eq_none_iff.mp (h.lookup key ▸ hnew)
  have hnew : c.capacity.toNat ≠ 0 := by omega
  have hge : ¬(first :: rest).length < c.capacity.toNat := by omega
  have hevicted : evicted c.capacity.toNat (first :: rest) (.set key data now) =
      some first.key := by
    rw [evicted, if_pos ⟨by omega, by simp [hfind], by omega⟩]
    rfl
  refine ⟨first.key, rest.map Entry.key, c', h.order, hset, ?_, fun key' => ?_⟩
  · rw [habs.order]
    simp only [step, if_neg hnew, hfind, if_neg hge, List.tail_cons, List.map_append, List.map_cons,
      List.map_nil]
  · rw [habs.lookup, find_step_set (by omega) h.nodup, hevicted, h.lookup]
    by_cases hkey : key' = key
    · rw [if_pos hkey, if_pos hkey]
      rfl
    · rw [if_neg hkey, if_neg hkey]
      by_cases hfirst : key' = first.key
      · rw [if_pos hfirst, if_pos (congrArg some hfirst.symm)]
        rfl
      · rw [if_neg hfirst, if_neg fun h => hfirst (Option.some.inj h).symm]

end LRUCache.Abs

theorem abs_newLRUCache {capacity : Int} {c : LRUCache α} (h : newLRUCache capacity = some c) :
    c.capacity = capacity ∧ c.Abs [] := by
  unfold newLRUCache at h
  split at h
  case isTrue => cases h
  case isFalse =>
    cases h
    exact ⟨rfl, List.nodup_nil, rfl, fun key => Finmap.lookup_empty key⟩

/-- **The cache is the least-recently-used map of its capacity**, with a time to live that only
`Get` knows: whatever is called on whatever clock, nothing panics and every call returns what the
map returns; `order` has the keys of the map once each, from the one used least recently on; there
are at most as many as the capacity; a set of a new key takes out the first of a full cache and no
other; and a lookup returns what was last set for its key, if since then it has neither been taken
out to make room nor found expired. -/
theorem lruCache_is_lru_map (capacity : Int) (c : LRUCache α)
    (hnew : newLRUCache capacity = some c) (ops : List (Op Bytes α Int)) :
    let cap := capacity.toNat
    ∃ c', c.execs ops = some (c', outputs cap cacheExpired [] ops) ∧
      c'.Abs (run (step cap cacheExpired) [] ops) ∧
      (c'.order.Nodup ∧ c'.order.toFinset = c'.cache.keys ∧
        c'.order.Sublist (ops.map Op.key).dedup) ∧
      c'.cache.keys.card ≤ cap ∧
      (0 < capacity → c'.cache.keys.card = capacity →
        ∀ key data now, c'.cache.lookup key = none →
          ∃ oldest rest c'', c'.order = oldest :: rest ∧ c'.set key data now = some c'' ∧
            c''.order = rest ++ [key] ∧
            ∀ key', c''.cache.lookup key' =
              if key' = key then some ⟨data, now⟩
              else if key' = oldest then none
              else c'.cache.lookup key') ∧
      (0 < capacity → ∀ key value,
        (∀ now, (c'.get key now).2 = some value ↔
          ∃ timestamp, Since (step cap cacheExpired) (Keeps cap cacheExpired key) [] ops
            (.set key value timestamp) ∧ cacheExpired timestamp now = false) ∧
        ((c'.getPersistent key).2 = some value ↔
          ∃ timestamp, Since (step cap cacheExpired) (Keeps cap cacheExpired key) [] ops
            (.set key value timestamp))) := by
  obtain ⟨rfl, hempty⟩ := abs_newLRUCache hnew
  obtain ⟨c', hexecs, hcap, habs⟩ := hempty.execs ops
  obtain ⟨hlength, hrecent⟩ :
      (run (step c.capacity.toNat cacheExpired) [] ops).length ≤ c.capacity.toNat ∧
        Recent (run (step c.capacity.toNat cacheExpired) [] ops) ops := recent_run ops
  refine ⟨c', hexecs, habs, ⟨?_, ?_, ?_⟩, ?_, ?_, ?_⟩
  · exact habs.order ▸ habs.nodup
  · rw [habs.order, habs.keys_eq]
  · exact habs.order ▸ hrecent
  · exact habs.card_keys ▸ hlength
  · intro hpos hfull key data now hfind
    exact habs.set_evicts (hcap.symm ▸ hpos) (hcap.symm ▸ hfull) hfind data now
  · intro hpos key value
    have hcap' : 0 < c.capacity.toNat := by omega
    refine ⟨fun now => ?_, ?_⟩
    · rw [(habs.get key now).1]
      exact output_get_run_iff hcap' ops key now value
    · rw [(habs.getPersistent key).1]
      exact output_getPersistent_run_iff hcap' ops key value

/-- The cache of two that is set four times. -/
theorem lruCache_of_two : ∃ c c' : LRUCache Nat, newLRUCache 2 = some c ∧
    c.execs [.set [97] 1 0, .set [98] 2 0, .set [97] 10 0, .set [99] 3 0, .get [98] 0,
        .get [97] 0] =
      some (c', [none, none, none, none, none, some 10]) ∧ c'.order = [[99], [97]] := by
  obtain ⟨c', hexecs, habs, -⟩ := lruCache_is_lru_map 2 (⟨2, ∅, []⟩ : LRUCache Nat) rfl
    [.set [97] 1 0, .set [98] 2 0, .set [97] 10 0, .set [99] 3 0, .get [98] 0, .get [97] 0]
  exact ⟨⟨2, ∅, []⟩, c', rfl, hexecs, habs.order⟩

end CashStratum
