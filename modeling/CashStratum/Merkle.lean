/-
CashStratum/Merkle.lean

The three merkle routines of the pool.  `cashstratum_merkle_branch` (merkle.c)
computes the coinbase branch of a template in place: it works on a buffer of
`leaves + 1` slots of 32 bytes, appends slot 1 to the branch, copies an odd last
node into the spare slot, hashes the pairs after the coinbase pair and stores
them from slot 1 on.  `sv2_merkle_root_from_txids` and
`sv2_merkle_root_from_path` (sv2_tx.c) build whole layers, and fold a branch.
The first of them has its number of nodes and its byte offsets in an `int`, which
`2 ^ 26` nodes fill; above that it has no value here (`merkle_root_needs_int`).

The live slots of the buffer at a level are exactly the nodes after the first
one of that level (`Live`), and one turn of the loop is one `MerkleTree.layer`
(`Live.hashSiblings`); hence the branch written is `MerkleTree.branch`
(`cashstratumMerkleBranch_eq`), and the two roots agree
(`merkleBranch_rebuilds_root`).
-/
import CashStratum.MerkleTree
import CashStratum.Sha2
import Mathlib.Data.List.Basic

namespace CashStratum

open MerkleTree

/-- `GENWORK_MAX_MERKLE_DEPTH`. -/
def genworkMaxMerkleDepth : Nat := 32

/-- `SIZE_MAX` of the 64-bit targets. -/
def sizeMax : Nat := 2 ^ 64 - 1

/-- `gen_hash` of two nodes side by side. -/
def merkleNode (a b : Hash256) : Hash256 := genHash (a.bytes ++ b.bytes)

/-! ### merkle.c -/

/-- `while (n > 1) { n = n / 2 + n % 2; required++; }` -/
def requiredDepth (n : Nat) : Nat :=
  if 1 < n then requiredDepth (n / 2 + n % 2) + 1 else 0
termination_by n
decreasing_by omega

/-- The body of the inner loop: the pair in slots `i`, `i + 1` is hashed into
slot `i / 2`. -/
def hashPair (hashes : List Hash256) (i : Nat) : List Hash256 :=
  hashes.set (i / 2) (merkleNode (hashes.getD i .zero) (hashes.getD (i + 1) .zero))

/-- `for (i = 2; i < leaves; i += 2)` -/
def hashSiblings (hashes : List Hash256) (leaves : Nat) : List Hash256 :=
  (List.range' 2 ((leaves - 1) / 2) 2).foldl hashPair hashes

/-- `memcpy(hashes + leaves * 32, hashes + (leaves - 1) * 32, 32)`, on an odd
level. -/
def copyOddLast (hashes : List Hash256) (leaves : Nat) : List Hash256 :=
  if leaves % 2 = 1 then hashes.set leaves (hashes.getD (leaves - 1) .zero) else hashes

/-- `while (leaves > 1)`: `branch` holds the `*depth` entries written so far. -/
def merkleBranchLoop (hashes : List Hash256) (leaves : Nat) (branch : List Hash256) :
    List Hash256 :=
  if 1 < leaves then
    let branch := branch ++ [hashes.getD 1 .zero]
    let hashes := copyOddLast hashes leaves
    let even := leaves + leaves % 2
    merkleBranchLoop (hashSiblings hashes even) (even / 2) branch
  else branch
termination_by leaves
decreasing_by omega

/-- `cashstratum_merkle_branch`: `none` is the `false` return. -/
def cashstratumMerkleBranch (hashes : List Hash256) (leaves : Nat) : Option (List Hash256) :=
  if leaves = 0 ∨ leaves > sizeMax / 32 - 1 then none
  else if requiredDepth leaves > genworkMaxMerkleDepth then none
  else some (merkleBranchLoop hashes leaves [])

/-! ### A loop that may fail -/

section MapM

variable {α β : Type} {f : α → Option β} {l : List α}

theorem length_of_mapM_eq_some {out : List β} (h : l.mapM f = some out) :
    out.length = l.length := by
  induction l generalizing out with
  | nil =>
    obtain rfl := Option.some.inj h
    rfl
  | cons a l ih =>
    rw [List.mapM_cons] at h
    obtain ⟨b, -, h⟩ := Option.bind_eq_some_iff.mp h
    obtain ⟨rest, hrest, h⟩ := Option.bind_eq_some_iff.mp h
    obtain rfl := Option.some.inj h
    rw [List.length_cons, List.length_cons, ih hrest]

theorem mapM_eq_some_map {g : α → β} (h : ∀ a ∈ l, f a = some (g a)) :
    l.mapM f = some (l.map g) := by
  induction l with
  | nil => rfl
  | cons a l ih =>
    rw [List.mapM_cons, h a List.mem_cons_self, ih fun b hb => h b (List.mem_cons_of_mem a hb)]
    rfl

theorem mapM_eq_none {a : α} (ha : a ∈ l) (h : f a = none) : l.mapM f = none := by
  by_contra hsome
  obtain ⟨out, hout⟩ := Option.ne_none_iff_exists'.mp hsome
  induction l generalizing out with
  | nil => cases ha
  | cons b l ih =>
    rw [List.mapM_cons] at hout
    obtain ⟨c, hb, hout⟩ := Option.bind_eq_some_iff.mp hout
    obtain ⟨rest, hrest, -⟩ := Option.bind_eq_some_iff.mp hout
    obtain rfl | hmem := List.mem_cons.mp ha
    · rw [h] at hb
      cases hb
    · exact ih hmem (by rw [hrest]; exact Option.some_ne_none rest) rest hrest

end MapM

/-! ### sv2_tx.c -/

/-- `layer + a * 32`, an `int` product: no node where it overflows. -/
def layerNode (layer : List Hash256) (a : Nat) : Option Hash256 :=
  if a * 32 < 2 ^ 31 then layer[a]? else none

/-- One turn of `while (count > 1)`: the next layer, an odd last node paired
with itself. -/
def nextLayer (layer : List Hash256) : Option (List Hash256) :=
  (List.range ((layer.length + 1) / 2)).mapM fun i => do
    let a := i * 2
    let b := a + 1
    let first ← layerNode layer a
    let second ← layerNode layer (if b < layer.length then b else a)
    return merkleNode first second

theorem length_nextLayer {layer next : List Hash256} (h : nextLayer layer = some next) :
    next.length = (layer.length + 1) / 2 := by
  have hlen := length_of_mapM_eq_some h
  rwa [List.length_range] at hlen

/-- `while (count > 1)`, then the first node left. -/
def merkleRootLoop (layer : List Hash256) : Option Hash256 :=
  if 1 < layer.length then
    match _hnext : nextLayer layer with
    | some next => merkleRootLoop next
    | none => none
  else layer[0]?
termination_by layer.length
decreasing_by
  rw [length_nextLayer _hnext]
  omega

/-- `sv2_merkle_root_from_txids`, of as many ids as its `int n` says. -/
def sv2MerkleRootFromTxids (txids : List Hash256) : Option Hash256 :=
  let n := Int32.ofNat txids.length
  if n < 1 then some .zero else merkleRootLoop (txids.take n.toInt.toNat)

/-- `sv2_merkle_root_from_path`. -/
def sv2MerkleRootFromPath (coinbaseTxid : Hash256) (path : List Hash256) : Hash256 :=
  path.foldl merkleNode coinbaseTxid

/-! ### The reference root -/

/-- `2 ^ 26` nodes are as many as an `int` can address. -/
theorem nextLayer_eq_layer {l : List Hash256} (h : l.length ≤ 2 ^ 26) :
    nextLayer l = some (layer merkleNode l) := by
  have hnode : ∀ a, a < l.length → layerNode l a = l[a]? := fun a ha => if_pos (by omega)
  rw [nextLayer, mapM_eq_some_map (g := fun i =>
    merkleNode (l.getD (2 * i) .zero) (l[2 * i + 1]?.getD (l.getD (2 * i) .zero)))]
  · congr 1
    apply List.ext_getElem?
    intro i
    rw [getElem?_layer, List.getElem?_map]
    by_cases hi : i < (l.length + 1) / 2
    · have ha : 2 * i < l.length := by omega
      rw [List.getElem?_range hi, Option.map_some, List.getElem?_eq_getElem ha, Option.map_some,
        List.getD_eq_getElem?_getD, List.getElem?_eq_getElem ha, Option.getD_some]
    · have ha : l.length ≤ 2 * i := by omega
      rw [List.getElem?_eq_none (by simpa using hi), List.getElem?_eq_none ha]
      rfl
  · intro i hi
    have ha : 2 * i < l.length := by
      have := List.mem_range.mp hi
      omega
    dsimp only
    rw [Nat.mul_comm i 2, hnode _ ha, List.getD_eq_getElem?_getD, List.getElem?_eq_getElem ha]
    by_cases hb : 2 * i + 1 < l.length
    · rw [if_pos hb, hnode _ hb, List.getElem?_eq_getElem hb]
      rfl
    · rw [if_neg hb, hnode _ ha, List.getElem?_eq_getElem ha, List.getElem?_eq_none (by omega)]
      rfl

/-- One layer too many: a node whose offset is no `int`. -/
theorem nextLayer_eq_none {l : List Hash256} (h : 2 ^ 26 < l.length) : nextLayer l = none := by
  refine mapM_eq_none (List.mem_range.mpr (by omega : 2 ^ 25 < (l.length + 1) / 2)) ?_
  simp [layerNode]

/-- The layered root is the root of the tree. -/
theorem merkleRootLoop_eq_root (l : List Hash256) (hlen : l.length ≤ 2 ^ 26) :
    merkleRootLoop l = root merkleNode l := by
  induction hn : l.length using Nat.strong_induction_on generalizing l with
  | _ n ih =>
    rw [merkleRootLoop]
    match l with
    | [] => rw [if_neg (by simp), root]; rfl
    | [a] => rw [if_neg (by simp), root_singleton]; rfl
    | a :: b :: t =>
      rw [if_pos (by simp), nextLayer_eq_layer hlen, root_cons_cons]
      have hlayer := @length_layer _ merkleNode (a :: b :: t)
      simp only [List.length_cons] at hn hlen hlayer
      exact ih _ (by omega) _ (by omega) rfl

/-- **The layered root folds the branch of the tree**, as far as an `int` goes. -/
theorem sv2MerkleRootFromTxids_cons (c : Hash256) {l : List Hash256} (h : l.length < 2 ^ 26) :
    sv2MerkleRootFromTxids (c :: l) = some (sv2MerkleRootFromPath c (branch merkleNode l)) := by
  have hn : (Int32.ofNat (c :: l).length).toInt = l.length + 1 := by
    rw [List.length_cons, Int32.toInt_ofNat_of_lt (by omega)]
    rfl
  have hpos : ¬ Int32.ofNat (c :: l).length < 1 := by
    rw [Int32.lt_iff_toInt_lt, hn]
    show ¬ (l.length + 1 : Int) < 1
    omega
  have hall : (c :: l).take (Int32.ofNat (c :: l).length).toInt.toNat = c :: l := by
    rw [hn]
    exact List.take_of_length_le (by simp)
  have hlen : (c :: l).length ≤ 2 ^ 26 := by
    rw [List.length_cons]
    omega
  rw [sv2MerkleRootFromTxids, if_neg hpos, hall, merkleRootLoop_eq_root _ hlen,
    root_eq_foldl_branch, sv2MerkleRootFromPath]

/-- Above `2 ^ 26` ids there is no root. -/
theorem sv2MerkleRootFromTxids_eq_none {l : List Hash256} (h : 2 ^ 26 < l.length)
    (h' : l.length < 2 ^ 31) : sv2MerkleRootFromTxids l = none := by
  have hn : (Int32.ofNat l.length).toInt = l.length := Int32.toInt_ofNat_of_lt h'
  have hpos : ¬ Int32.ofNat l.length < 1 := by
    rw [Int32.lt_iff_toInt_lt, hn]
    show ¬ (l.length : Int) < 1
    omega
  have hall : l.take (Int32.ofNat l.length).toInt.toNat = l := by
    rw [hn]
    exact List.take_of_length_le (by simp)
  rw [sv2MerkleRootFromTxids, if_neg hpos, hall, merkleRootLoop, if_pos (by omega), nextLayer_eq_none h]

/-! ### The buffer -/

theorem length_hashPair (ws : List Hash256) (i : Nat) : (hashPair ws i).length = ws.length := by
  simp [hashPair]

/-- After `k` turns of the inner loop, slots `1 … k` hold the hashed pairs and
the slots above them are untouched: a pair is read before it is overwritten. -/
theorem foldl_hashPair (ws : List Hash256) (k : Nat) (hk : 2 * k + 1 < ws.length) :
    ((List.range' 2 k 2).foldl hashPair ws).length = ws.length ∧
      ∀ j, ((List.range' 2 k 2).foldl hashPair ws)[j]? =
        if 1 ≤ j ∧ j ≤ k then
          some (merkleNode (ws.getD (2 * j) .zero) (ws.getD (2 * j + 1) .zero))
        else ws[j]? := by
  induction k with
  | zero =>
    refine ⟨rfl, fun j => ?_⟩
    rw [if_neg (by omega)]
    rfl
  | succ k ih =>
    obtain ⟨hlen, hget⟩ := ih (by omega)
    rw [List.range'_concat, List.foldl_append]
    simp only [List.foldl_cons, List.foldl_nil]
    set r := (List.range' 2 k 2).foldl hashPair ws with hr
    refine ⟨by rw [length_hashPair, hlen], fun j => ?_⟩
    have hslot : (2 + 2 * k) / 2 = k + 1 := by omega
    have hread : ∀ i, k < i → r.getD i .zero = ws.getD i .zero := by
      intro i hi
      rw [List.getD_eq_getElem?_getD, hget, if_neg (by omega), List.getD_eq_getElem?_getD]
    rw [hashPair, hslot, List.getElem?_set, hlen, hread _ (by omega), hread _ (by omega)]
    by_cases hj : k + 1 = j
    · subst hj
      rw [if_pos rfl, if_pos (by omega), if_pos (by omega)]
      congr 3 <;> ring_nf
    · rw [if_neg hj, hget]
      by_cases hj' : 1 ≤ j ∧ j ≤ k
      · rw [if_pos hj', if_pos (by omega)]
      · rw [if_neg hj', if_neg (by omega)]

/-- The buffer of a level: slots `1 … leaves - 1` hold the nodes after the
first one, and there is a spare slot behind them. -/
structure Live (hashes : List Hash256) (leaves : Nat) (t : List Hash256) : Prop where
  leaves_eq : leaves = t.length + 1
  spare : leaves < hashes.length
  slots : ∀ i, i < t.length → hashes[i + 1]? = t[i]?

/-- Once an odd level is padded, slot `i + 1` of an even level holds the node
after the first, or the last one again. -/
theorem Live.copyOddLast_getD {ws : List Hash256} {n : Nat} {t : List Hash256}
    (h : Live ws n t) (i : Nat) (hi : i < t.length) :
    (copyOddLast ws n).getD (i + 1) .zero = t[i] := by
  have hslot := h.slots i hi
  have hn := h.leaves_eq
  rw [List.getElem?_eq_getElem hi] at hslot
  rw [List.getD_eq_getElem?_getD, copyOddLast]
  split
  · rw [List.getElem?_set_ne (by omega), hslot, Option.getD_some]
  · rw [hslot, Option.getD_some]

theorem Live.copyOddLast_spare {ws : List Hash256} {n : Nat} {t : List Hash256}
    (h : Live ws n t) (hodd : n % 2 = 1) (ht : t ≠ []) :
    (copyOddLast ws n).getD n .zero = t.getLast ht := by
  have hpos : 0 < t.length := List.length_pos_of_ne_nil ht
  have hlast := h.slots (t.length - 1) (by omega)
  have hn := h.leaves_eq
  rw [List.getElem?_eq_getElem (l := t) (by omega), Nat.sub_add_cancel hpos] at hlast
  rw [copyOddLast, if_pos hodd, List.getD_eq_getElem?_getD, List.getElem?_set_self h.spare,
    Option.getD_some, List.getD_eq_getElem?_getD, hn, Nat.add_sub_cancel, hlast,
    Option.getD_some, List.getLast_eq_getElem]

/-- **One turn of the loop is one layer.**  The case split is on whether the
last pair of the level is the duplicated one. -/
theorem Live.hashSiblings {ws : List Hash256} {n : Nat} {b : Hash256} {t : List Hash256}
    (h : Live ws n (b :: t)) :
    Live (hashSiblings (copyOddLast ws n) (n + n % 2)) ((n + n % 2) / 2) (layer merkleNode t) := by
  have hn : n = t.length + 2 := by simpa using h.leaves_eq
  have hspare := h.spare
  have hlen : (copyOddLast ws n).length = ws.length := by
    rw [copyOddLast]
    split <;> simp
  obtain ⟨hlen', hget⟩ := foldl_hashPair (copyOddLast ws n) ((n + n % 2 - 1) / 2) (by rw [hlen]; omega)
  refine ⟨?_, ?_, ?_⟩
  · rw [length_layer]
    omega
  · rw [CashStratum.hashSiblings, hlen', hlen]
    omega
  · intro i hi
    rw [length_layer] at hi
    have ha : 2 * i < t.length := by omega
    have hfirst : (copyOddLast ws n).getD (2 * (i + 1)) .zero = t[2 * i] :=
      h.copyOddLast_getD (2 * i + 1) (by simp; omega)
    rw [CashStratum.hashSiblings, hget, if_pos (by omega), getElem?_layer,
      List.getElem?_eq_getElem ha, Option.map_some, hfirst]
    congr 2
    by_cases hb : 2 * i + 1 < t.length
    · rw [List.getElem?_eq_getElem hb, Option.getD_some]
      exact h.copyOddLast_getD (2 * i + 2) (by simp; omega)
    · -- the level is odd and this is its last pair
      have hodd : n % 2 = 1 := by omega
      have hend : 2 * (i + 1) + 1 = n := by omega
      rw [hend, h.copyOddLast_spare hodd (by simp), List.getElem?_eq_none (by omega),
        Option.getD_none, List.getLast_eq_getElem]
      have hlast : (b :: t).length - 1 = 2 * i + 1 := by simp; omega
      simp only [hlast, List.getElem_cons_succ]

/-- The loop appends the branch of the live slots. -/
theorem merkleBranchLoop_eq {ws : List Hash256} {n : Nat} {t : List Hash256}
    (h : Live ws n t) (acc : List Hash256) :
    merkleBranchLoop ws n acc = acc ++ branch merkleNode t := by
  induction t using branch.induct merkleNode generalizing ws n acc with
  | case1 =>
    have hn : n = 1 := by simpa using h.leaves_eq
    rw [merkleBranchLoop, if_neg (by omega), branch_nil, List.append_nil]
  | case2 b t ih =>
    have hn : n = t.length + 2 := by simpa using h.leaves_eq
    have hb : ws.getD 1 .zero = b := by
      rw [List.getD_eq_getElem?_getD, h.slots 0 (by simp)]
      rfl
    rw [merkleBranchLoop, if_pos (by omega)]
    simp only [hb]
    rw [ih h.hashSiblings, branch_cons, List.append_assoc, List.singleton_append]

theorem requiredDepth_eq_depth (n : Nat) : requiredDepth n = depth n := by
  induction n using requiredDepth.induct with
  | case1 n h ih =>
    rw [requiredDepth, if_pos h, ih, depth_of_one_lt h]
    congr 2
    omega
  | case2 n h => rw [requiredDepth, if_neg h, depth_of_le_one (by omega)]

/-- A tree within the depth limit passes the overflow check of the buffer. -/
theorem le_of_requiredDepth_le {n : Nat} (h : requiredDepth n ≤ genworkMaxMerkleDepth) :
    n ≤ sizeMax / 32 - 1 := by
  have hle : n ≤ 2 ^ depth n := le_two_pow_depth n
  have hpow : 2 ^ depth n ≤ 2 ^ 32 := by
    apply Nat.pow_le_pow_right (by omega)
    rwa [requiredDepth_eq_depth] at h
  calc n ≤ 2 ^ 32 := hle.trans hpow
    _ ≤ sizeMax / 32 - 1 := by decide

theorem length_merkleBranchLoop (hashes : List Hash256) (leaves : Nat) (branch : List Hash256) :
    (merkleBranchLoop hashes leaves branch).length = branch.length + requiredDepth leaves := by
  induction hashes, leaves, branch using merkleBranchLoop.induct with
  | case1 hashes leaves branch h _ _ _ ih =>
    have hhalf : (leaves + leaves % 2) / 2 = leaves / 2 + leaves % 2 := by omega
    have hrest : (merkleBranchLoop (hashSiblings (copyOddLast hashes leaves) (leaves + leaves % 2))
        ((leaves + leaves % 2) / 2) (branch ++ [hashes.getD 1 .zero])).length =
          (branch ++ [hashes.getD 1 .zero]).length +
            requiredDepth ((leaves + leaves % 2) / 2) := ih
    rw [List.length_append, List.length_singleton, hhalf] at hrest
    rw [merkleBranchLoop, if_pos h, requiredDepth, if_pos h]
    simp only [hhalf]
    omega
  | case2 hashes leaves branch h =>
    rw [merkleBranchLoop, if_neg h, requiredDepth, if_neg h, Nat.add_zero]

/-- No branch is longer than the limit. -/
theorem length_cashstratumMerkleBranch {hashes : List Hash256} {leaves : Nat}
    {branch : List Hash256} (h : cashstratumMerkleBranch hashes leaves = some branch) :
    branch.length ≤ genworkMaxMerkleDepth := by
  rw [cashstratumMerkleBranch] at h
  split_ifs at h with h0 hdepth
  obtain rfl := Option.some.inj h
  rw [length_merkleBranchLoop, List.length_nil, Nat.zero_add]
  exact Nat.not_lt.mp hdepth

/-- The branch written for a template, from its transaction ids after the
coinbase and whatever the first and the spare slot hold. -/
theorem cashstratumMerkleBranch_eq (placeholder spare : Hash256) (txids : List Hash256)
    (h : requiredDepth (txids.length + 1) ≤ genworkMaxMerkleDepth) :
    cashstratumMerkleBranch (placeholder :: txids ++ [spare]) (txids.length + 1)
      = some (branch merkleNode txids) := by
  have hlive : Live (placeholder :: txids ++ [spare]) (txids.length + 1) txids := by
    refine ⟨rfl, by simp, fun i hi => ?_⟩
    rw [List.cons_append, List.getElem?_cons_succ, List.getElem?_append_left hi]
  rw [cashstratumMerkleBranch, if_neg (by have := le_of_requiredDepth_le h; omega),
    if_neg (by omega), merkleBranchLoop_eq hlive, List.nil_append]

/-! ### The branch rebuilds the root -/

/-- **Branch and root agree.**  Whatever bytes the coinbase placeholder (leaf 0)
and the spare slot hold, `cashstratum_merkle_branch` writes one and the same
branch, and folding it over any coinbase id gives the root of the full list with
that id as its first leaf, for as many leaves as an `int` can address. -/
theorem merkleBranch_rebuilds_root (txids : List Hash256) (hne : txids ≠ [])
    (hdepth : requiredDepth txids.length ≤ genworkMaxMerkleDepth)
    (hlen : txids.length ≤ 2 ^ 26) :
    ∃ path : List Hash256,
      (∀ placeholder spare : Hash256,
        cashstratumMerkleBranch (txids.set 0 placeholder ++ [spare]) txids.length = some path) ∧
      ∀ coinbaseTxid : Hash256,
        sv2MerkleRootFromTxids (txids.set 0 coinbaseTxid)
          = some (sv2MerkleRootFromPath coinbaseTxid path) := by
  obtain ⟨t, ts, rfl⟩ := List.exists_cons_of_ne_nil hne
  refine ⟨branch merkleNode ts, fun placeholder spare => ?_, fun c => ?_⟩
  · exact cashstratumMerkleBranch_eq placeholder spare ts hdepth
  · exact sv2MerkleRootFromTxids_cons c hlen

/-- Three leaves: the level above them is odd. -/
theorem merkleBranch_rebuilds_root_three :
    ∃ path : List Hash256,
      (∀ placeholder spare : Hash256,
        cashstratumMerkleBranch
          (([.zero, genHash [1], genHash [2]] : List Hash256).set 0 placeholder ++ [spare]) 3
            = some path) ∧
      ∀ coinbaseTxid : Hash256,
        sv2MerkleRootFromTxids ([.zero, genHash [1], genHash [2]].set 0 coinbaseTxid)
          = some (sv2MerkleRootFromPath coinbaseTxid path) :=
  merkleBranch_rebuilds_root [.zero, genHash [1], genHash [2]] (by simp)
    (by simp [requiredDepth, genworkMaxMerkleDepth]) (by simp)

/-- One leaf more than `2 ^ 26` has a branch, but the offset of the last one is no `int`. -/
theorem merkle_root_needs_int :
    ¬ ∀ txids : List Hash256, txids ≠ [] →
      requiredDepth txids.length ≤ genworkMaxMerkleDepth →
      ∃ path : List Hash256,
        (∀ placeholder spare : Hash256,
          cashstratumMerkleBranch (txids.set 0 placeholder ++ [spare]) txids.length = some path) ∧
        ∀ coinbaseTxid : Hash256,
          sv2MerkleRootFromTxids (txids.set 0 coinbaseTxid)
            = some (sv2MerkleRootFromPath coinbaseTxid path) := by
  intro h
  have hlen : (List.replicate (2 ^ 26 + 1) Hash256.zero).length = 2 ^ 26 + 1 :=
    List.length_replicate
  obtain ⟨path, -, hroot⟩ := h (List.replicate (2 ^ 26 + 1) .zero)
    (List.ne_nil_of_length_pos (by omega))
    (by rw [hlen]; simp [requiredDepth, genworkMaxMerkleDepth])
  have hset : ((List.replicate (2 ^ 26 + 1) Hash256.zero).set 0 .zero).length = 2 ^ 26 + 1 := by
    rw [List.length_set, hlen]
  have hnone := sv2MerkleRootFromTxids_eq_none (by omega) (by omega) |>.symm.trans (hroot .zero)
  cases hnone

end CashStratum
