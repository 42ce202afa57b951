/-
CashStratum/SharelogIndex.lean

What cashtop sums up from the sharelogs (`work.go` of its index): the accepted work of each
address in the newest height directory, and the best share of each worker since the last block
that the pool found.  Each sync reads the files from where the last one stopped.

Both scanners are the reader of `GrowingFiles` with a fold behind it, so that what an index has
read does not depend on when it came, but in what order it read it does.  The order is seen in
the rounding of the sums, and in the time of a best share that two shares tie for; and the
difficulty of the network, by which a share is kept out of the round, is the one that is known
when the share is read.

The changes that are noted for the next flush, and what the scan notes of workers, are left out:
nothing here reads them.
-/
import CashStratum.GrowingFiles
import CashStratum.ShareFeed
import CashStratum.IndexState
import CashStratum.GoBytes
import CashStratum.Numeral
import CashStratum.FloatOrder
import Mathlib

namespace CashStratum.Cashtop

open Poolfmt ShareFeed

/-! ### Trees that grow -/

/-- The directories and files of a tree are in another, where the files may be longer. -/
structure Grows {D F : Type*} [LinearOrder D] [LinearOrder F] (t t' : Tree D F) : Prop where
  dirs : ∀ d ∈ t.dirs, d ∈ t'.dirs
  names : ∀ d, ∀ n ∈ t.names d, n ∈ t'.names d
  content : ∀ d n, t.content d n <+: t'.content d n

section Grows

variable {D F : Type*} [LinearOrder D] [LinearOrder F]

theorem grows_refl (t : Tree D F) : Grows t t :=
  ⟨fun _ h => h, fun _ _ h => h, fun _ _ => List.prefix_rfl⟩

theorem grows_mkdir (t : Tree D F) (d : D) : Grows t (t.mkdir d) := by
  rw [Tree.mkdir]
  split_ifs with h
  · exact grows_refl t
  · exact ⟨fun e he => (List.mem_orderedInsert _).mpr (Or.inr he), fun _ _ h => h,
      fun _ _ => List.prefix_rfl⟩

theorem grows_create (t : Tree D F) (d : D) (n : F) : Grows t (t.create d n) := by
  rw [Tree.create]
  split_ifs with h
  · refine ⟨fun _ h => h, ?_, fun _ _ => List.prefix_rfl⟩
    intro e m hm
    dsimp only
    by_cases he : e = d
    · subst he
      rw [Function.update_self]
      exact (List.mem_orderedInsert _).mpr (Or.inr hm)
    · rwa [Function.update_of_ne he]
  · exact grows_refl t

theorem grows_write (t : Tree D F) (d : D) (n : F) (bytes : Bytes) :
    Grows t (t.write d n bytes) := by
  rw [Tree.write]
  split_ifs with h
  · refine ⟨fun _ h => h, fun _ _ h => h, ?_⟩
    intro e m
    dsimp only
    by_cases he : e = d
    · subst he
      rw [Function.update_self]
      by_cases hm : m = n
      · subst hm
        rw [Function.update_self]
        exact List.prefix_append ..
      · rw [Function.update_of_ne hm]
    · rw [Function.update_of_ne he]
  · exact grows_refl t

end Grows

/-- The order of file names. -/
local instance byteOrder : LinearOrder UInt8 :=
  LinearOrder.lift' UInt8.toNat fun _ _ => UInt8.toNat_inj.mp

/-! ### Shares -/

/-- A record of a sharelog, with the fields that are summed up. -/
structure Share where
  diff : Float
  sdiff : Float
  result : Bool
  createDate : Bytes
  workerName : Bytes
  userName : Bytes
  deriving DecidableEq

/-- `json.Unmarshal` into a share.  A number of JSON is never a NaN. -/
structure ShareJson where
  unmarshal : Bytes → Option Share
  number : ∀ {line sh}, unmarshal line = some sh → ¬ sh.sdiff ≤ 0 → 0 < sh.sdiff

/-- `ParseSharelogLine`, on a line with its end. -/
def parseSharelogLine (json : ShareJson) (line : Bytes) : Option Share :=
  let line := trimSpace line.dropLast
  if line = [] then none else json.unmarshal line

/-- `PayoutAddress` -/
def payoutAddress (sh : Share) : Bytes :=
  normalizeAddress (if sh.userName ≠ [] then sh.userName else (splitWorker sh.workerName).1)

/-- `RoundKey` -/
def roundKey (sh : Share) : Bytes :=
  let rig := (splitWorker sh.workerName).2
  let addr := payoutAddress sh
  if addr = [] then [] else if rig = [] then addr else addr ++ ascii "." ++ rig

/-- `IsBlock` -/
def Share.isBlock (sh : Share) (networkDiff : Float) : Bool :=
  sh.result && 0 < networkDiff && networkDiff ≤ sh.sdiff

/-- What `strconv.ParseInt` gives when nobody looks at its error.  It stops at what is no digit, or
where the number passes 64 bits, whichever comes first. -/
def parseIntValue (s : Bytes) : Int :=
  let (neg, digits) := splitSign s
  match scanNat digits with
  | some n =>
    if n < 2 ^ 64 ∧ !digits.all isDigit then 0
    else if neg then -(min n (2 ^ 63)) else min n (2 ^ 63 - 1)
  | none => 0

/-- `time.Unix` -/
def unixTime (sec nsec : Int) : Int :=
  (goInt (sec + nsec / 10 ^ 9 + 62135596800) - 62135596800) * 10 ^ 9 + nsec % 10 ^ 9

/-- `shareTime` -/
def shareTime (sh : Share) : Option Int :=
  let sec := sh.createDate.takeWhile (· ≠ 44)
  let nsec := (sh.createDate.dropWhile (· ≠ 44)).tail
  (parseInt64 sec).bind fun n => if n ≤ 0 then none else some (unixTime n (parseIntValue nsec))

/-! ### Directories -/

/-- A digit of `strconv.ParseInt` with base 16, in lower case. -/
def isLowerHex (c : UInt8) : Bool :=
  (48 ≤ c.toNat && c.toNat ≤ 57) || (97 ≤ c.toNat && c.toNat ≤ 102)

/-- The value of such a digit. -/
def hexValue (c : UInt8) : UInt8 := if c.toNat ≤ 57 then c - 48 else c - 87

/-- The height of a directory, for a name of eight characters that is in lower case. -/
def heightOf (n : Bytes) : Option Int :=
  if n.length ≠ 8 then none
  else
    let (neg, digits) := splitSign n
    if !digits.all isLowerHex then none
    else
      let v := numeral 16 (digits.map hexValue)
      some (if neg then -(v : Int) else v)

/-- `newestHeightDir` -/
def newestHeightDir (t : Tree Bytes Bytes) : Option (Int × Bytes) :=
  let best := t.dirs.foldl (fun best n =>
    match heightOf n with
    | some v => if best.1 < v then (v, n) else best
    | none => best) ((-1, []) : Int × Bytes)
  if best.1 < 0 then none else some best

/-- The sharelogs of a directory. -/
def sharelogs (t : Tree Bytes Bytes) (dir : Bytes) : List Bytes :=
  (t.names dir).filter fun n => ascii ".sharelog" <:+ n

variable (json : ShareJson)

/-! ### The work -/

/-- A share as the work counts it: an address and a difficulty. -/
def workShare (sh : Share) : Option (Bytes × Float) :=
  if sh.result ∧ payoutAddress sh ≠ [] then some (payoutAddress sh, sh.diff) else none

/-- `s.Work.Sums[addr] += sh.Diff` -/
def addWork (sums : Finmap fun _ : Bytes => Float) (credit : Bytes × Float) :
    Finmap fun _ : Bytes => Float :=
  sums.insert credit.1 ((sums.lookup credit.1).getD 0 + credit.2)

/-- One file of `scanHeightDir`; `none` is a file that shrank. -/
def scanWorkFile (w : Work) (n content : Bytes) : Option Work :=
  let off := (w.files.lookup n).getD 0
  if (content.length : Int) < off then none
  else if content.length = off then some w
  else
    let data := content.drop off.toNat
    let stop := lineEnd 10 data
    let shares := records 10 (parseSharelogLine json) data
    some { w with
      sums := (shares.filterMap workShare).foldl addWork w.sums
      files := if 0 < stop then w.files.insert n (off + stop) else w.files }

/-- `scanHeightDir` -/
def scanHeightDir (t : Tree Bytes Bytes) (dir : Bytes) (w : Work) : Option Work :=
  (sharelogs t dir).foldlM (fun w n => scanWorkFile json w n (t.content dir n)) w

/-- The loop of `syncWork`, with the attempts that are left. -/
def attemptWork (t : Tree Bytes Bytes) (h : Int) (dir : Bytes) : Nat → Work → Work
  | 0, w => w
  | attempts + 1, w =>
    let w := if w.height ≠ h then { height := h } else w
    match scanHeightDir json t dir w with
    | some w => w
    | none => attemptWork t h dir attempts { height := -1 }

/-- `syncWork` -/
def syncWork (t : Tree Bytes Bytes) (w : Work) : Work :=
  match newestHeightDir t with
  | none => w
  | some (h, dir) => attemptWork json t h dir 2 w

/-! ### The round -/

/-- `lastAccepted`: the height and the time of the newest block that was accepted. -/
def lastAccepted (blocks : Finmap fun _ : Int => Block) : Option (Int × Int) :=
  match (blocks.keys.filter fun h => (blocks.lookup h).any (·.status = statusAccepted)).max with
  | none => none
  | some (h : Int) => (blocks.lookup h).map fun b => (h, b.time)

/-- A share as the round judges it. -/
def roundShare (since : Int) (networkDiff : Float) (sh : Share) : Option BestShare :=
  if !sh.result ∨ sh.sdiff ≤ 0 then none
  else
    match shareTime sh with
    | none => none
    | some t =>
      if ¬ since < t ∨ roundKey sh = [] ∨ sh.isBlock networkDiff then none
      else some ⟨roundKey sh, sh.sdiff, t⟩

/-- The better of a share and the one that is kept. -/
def keepBest (best : Finmap fun _ : Bytes => BestShare) (b : BestShare) :
    Finmap fun _ : Bytes => BestShare :=
  match best.lookup b.address with
  | some cur => if cur.diff < b.diff then best.insert b.address b else best
  | none => best.insert b.address b

/-- `scanRoundFile` -/
def scanRoundFile (networkDiff : Float) (r : Round) (key content : Bytes) : Round :=
  let off := (r.files.lookup key).getD 0
  let off := if (content.length : Int) < off then 0 else off
  if content.length = off then r
  else
    let data := content.drop off.toNat
    let stop := lineEnd 10 data
    let shares := records 10 (parseSharelogLine json) data
    { r with
      best := (shares.filterMap (roundShare r.since networkDiff)).foldl keepBest r.best
      files := if 0 < stop then r.files.insert key (off + stop) else r.files }

/-- The directories that `syncRound` reads, for the last block. -/
def roundDirs (t : Tree Bytes Bytes) (latest : Option (Int × Int)) : List Bytes :=
  let h := (latest.map Prod.fst).getD 0
  let dirs := t.dirs.filter fun n => (heightOf n).any fun v => h ≤ v ∧ ¬ (latest.isSome ∧ v = h)
  dirs.mergeSort fun a b => (heightOf a).getD 0 ≤ (heightOf b).getD 0

/-- The key of a file in the offsets of a round. -/
def roundFileKey (file : Bytes × Bytes) : Bytes := file.1 ++ ascii "/" ++ file.2

/-- The files that `syncRound` reads. -/
def roundFiles (t : Tree Bytes Bytes) (latest : Option (Int × Int)) : List (Bytes × Bytes) :=
  (roundDirs t latest).flatMap fun dir => (sharelogs t dir).map fun n => (dir, n)

/-- `syncRound` -/
def syncRound (t : Tree Bytes Bytes) (latest : Option (Int × Int)) (networkDiff : Float)
    (r : Round) : Round :=
  let h := (latest.map Prod.fst).getD 0
  let since := (latest.map Prod.snd).getD zeroTime
  let r := if r.height ≠ h ∨ r.since ≠ since then { height := h, since := since } else r
  let old := r.best.keys.filter fun k => (r.best.lookup k).any fun b => ¬ r.since < b.time
  let r := { r with best := (old.sort (· ≤ ·)).foldl (fun best k => best.erase k) r.best }
  let r := if roundDirs t latest ≠ [] then { r with seen := true } else r
  (roundFiles t latest).foldl
    (fun r file => scanRoundFile json networkDiff r (roundFileKey file) (t.content file.1 file.2)) r

/-! ### Histories -/

/-- The sharelogs, and what the index remembers. -/
structure Watch where
  tree : Tree Bytes Bytes
  st : State

/-- What happens to the sharelogs, to what is known of blocks and of the network, and syncs. -/
inductive WatchEvent where
  | mkdir (dir : Bytes)
  | create (dir file : Bytes)
  | write (dir file bytes : Bytes)
  | blocks (blocks : Finmap fun _ : Int => Block)
  | netDiff (d : Float)
  | sync

/-- The parts of `syncLocked` that read sharelogs. -/
def syncSharelogs (t : Tree Bytes Bytes) (st : State) : State :=
  { st with
    work := syncWork json t st.work
    round := syncRound json t (lastAccepted st.blocks) st.netDiff st.round }

/-- What happens next. -/
def Watch.step (s : Watch) : WatchEvent → Watch
  | .mkdir dir => { s with tree := s.tree.mkdir dir }
  | .create dir file => { s with tree := s.tree.create dir file }
  | .write dir file bytes => { s with tree := s.tree.write dir file bytes }
  | .blocks blocks => { s with st := { s.st with blocks } }
  | .netDiff d => { s with st := { s.st with netDiff := d } }
  | .sync => { s with st := syncSharelogs json s.tree s.st }

/-- No directory, and an index that knows nothing. -/
def Watch.start : Watch where
  tree :=
    { dirs := [], names := fun _ => [], content := fun _ _ => []
      dirs_sorted := List.Pairwise.nil, names_sorted := fun _ => List.Pairwise.nil
      mem_dirs := fun h => absurd h List.not_mem_nil, content_nil := fun _ => rfl }
  st := {}

/-- A fresh index with the blocks and the difficulty that an index knows. -/
def freshState (st : State) : State := { blocks := st.blocks, netDiff := st.netDiff }

/-! ### What the folds keep -/

/-- The difficulties that an address is credited with. -/
def creditsOf (addr : Bytes) (credits : List (Bytes × Float)) : List Float :=
  (credits.filter fun c => c.1 = addr).map Prod.snd

/-- The sum of difficulties, added up in their order. -/
def total (ds : List Float) : Option Float :=
  if ds = [] then none else some (ds.foldl (· + ·) 0)

theorem getD_total (ds : List Float) : (total ds).getD 0 = ds.foldl (· + ·) 0 := by
  rw [total]
  split_ifs with h
  · rw [h]
    rfl
  · rfl

theorem lookup_foldl_addWork (credits : List (Bytes × Float)) (addr : Bytes) :
    (credits.foldl addWork ∅).lookup addr = total (creditsOf addr credits) := by
  induction credits using List.reverseRecOn with
  | nil => exact Finmap.lookup_empty addr
  | append_singleton credits c ih =>
    rw [List.foldl_concat, addWork, creditsOf, List.filter_append, List.map_append]
    by_cases hc : c.1 = addr
    · subst hc
      rw [Finmap.lookup_insert, ih, getD_total, total, List.filter_cons_of_pos (by simp)]
      simp [creditsOf]
    · rw [Finmap.lookup_insert_of_ne _ (Ne.symm hc), ih,
        List.filter_cons_of_neg (by simpa using hc), List.filter_nil, List.map_nil,
        List.append_nil]
      rfl

/-- A share that none of the same worker is above. -/
structure IsBest (shares : List BestShare) (k : Bytes) (b : BestShare) : Prop where
  mem : b ∈ shares
  address : b.address = k
  le : ∀ c ∈ shares, c.address = k → ¬ b.diff < c.diff

/-- What is kept for a worker: one of its best shares, and nothing if it has none. -/
def Kept (shares : List BestShare) (k : Bytes) : Option BestShare → Prop
  | none => ∀ c ∈ shares, c.address ≠ k
  | some b => IsBest shares k b

section Kept

variable {shares : List BestShare} {k : Bytes} {c : BestShare}

/-- A share of another worker changes nothing. -/
theorem Kept.concat_of_ne {o : Option BestShare} (h : Kept shares k o) (hne : c.address ≠ k) :
    Kept (shares ++ [c]) k o := by
  cases o with
  | none =>
    intro d hd
    rcases List.mem_append.mp hd with hin | hlast
    · exact h d hin
    · exact List.mem_singleton.mp hlast ▸ hne
  | some b =>
    refine ⟨List.mem_append_left _ h.mem, h.address, ?_⟩
    intro d hd hdk
    rcases List.mem_append.mp hd with hin | hlast
    · exact h.le d hin hdk
    · exact absurd (List.mem_singleton.mp hlast ▸ hdk) hne

theorem not_lt_self {a : Float} (h : 0 < a) : ¬ a < a := by
  rw [lt_iff_rank h h]
  exact lt_irrefl _

/-- A share that is above all others of its worker is its best. -/
theorem isBest_new (hc : 0 < c.diff)
    (h : ∀ d ∈ shares, d.address = c.address → ¬ c.diff < d.diff) :
    IsBest (shares ++ [c]) c.address c := by
  refine ⟨List.mem_append_right _ List.mem_cons_self, rfl, ?_⟩
  intro d hd hdk
  rcases List.mem_append.mp hd with hin | hlast
  · exact h d hin hdk
  · rw [List.mem_singleton.mp hlast]
    exact not_lt_self hc

/-- A share that is not above the best leaves it. -/
theorem IsBest.concat {b : BestShare} (h : IsBest shares k b) (hc : ¬ b.diff < c.diff) :
    IsBest (shares ++ [c]) k b := by
  refine ⟨List.mem_append_left _ h.mem, h.address, ?_⟩
  intro d hd hdk
  rcases List.mem_append.mp hd with hin | hlast
  · exact h.le d hin hdk
  · exact List.mem_singleton.mp hlast ▸ hc

theorem lookup_keepBest_of_ne (best : Finmap fun _ : Bytes => BestShare) (hne : c.address ≠ k) :
    (keepBest best c).lookup k = best.lookup k := by
  rw [keepBest]
  split
  · split_ifs
    · exact Finmap.lookup_insert_of_ne _ (Ne.symm hne)
    · rfl
  · exact Finmap.lookup_insert_of_ne _ (Ne.symm hne)

/-- Each worker with a share has one of its best. -/
theorem kept_foldl_keepBest (hpos : ∀ b ∈ shares, 0 < b.diff) (k : Bytes) :
    Kept shares k ((shares.foldl keepBest ∅).lookup k) := by
  induction shares using List.reverseRecOn with
  | nil =>
    rw [List.foldl_nil, Finmap.lookup_empty]
    exact fun b hb => absurd hb List.not_mem_nil
  | append_singleton shares c ih =>
    have hposc : 0 < c.diff := hpos c (List.mem_append_right _ List.mem_cons_self)
    have hpos' : ∀ b ∈ shares, 0 < b.diff := fun b hb => hpos b (List.mem_append_left _ hb)
    have hkept := ih hpos'
    rw [List.foldl_concat]
    by_cases hk : c.address = k
    · subst hk
      rw [keepBest]
      cases hcur : (shares.foldl keepBest ∅).lookup c.address with
      | none =>
        dsimp only
        rw [Finmap.lookup_insert]
        rw [hcur] at hkept
        exact isBest_new hposc fun d hd hdk => absurd hdk (hkept d hd)
      | some cur =>
        rw [hcur] at hkept
        have hposcur := hpos' cur hkept.mem
        dsimp only
        split_ifs with hbetter
        · rw [Finmap.lookup_insert]
          refine isBest_new hposc ?_
          intro d hd hdk
          have hle := hkept.le d hd hdk
          rw [lt_iff_rank hposcur (hpos' d hd)] at hle
          rw [lt_iff_rank hposcur hposc] at hbetter
          rw [lt_iff_rank hposc (hpos' d hd)]
          exact not_lt.mpr ((not_lt.mp hle).trans hbetter.le)
        · rw [hcur]
          exact hkept.concat hbetter
    · rw [lookup_keepBest_of_ne _ hk]
      exact hkept.concat_of_ne hk

end Kept

/-- Two tables that keep a best share of the same shares: the same workers, and for each the
same difficulty. -/
structure SameBest (shares : List BestShare) (best best' : Finmap fun _ : Bytes => BestShare) :
    Prop where
  keys : ∀ k, best.lookup k = none ↔ best'.lookup k = none
  diff : ∀ k b b', best.lookup k = some b → best'.lookup k = some b' → (b.diff == b'.diff) = true
  mem : ∀ k b, best.lookup k = some b → b ∈ shares ∧ b.address = k
  mem' : ∀ k b, best'.lookup k = some b → b ∈ shares ∧ b.address = k

/-- No two shares of a worker tie. -/
def NoTies (shares : List BestShare) : Prop :=
  ∀ b ∈ shares, ∀ c ∈ shares, b.address = c.address → (b.diff == c.diff) = true → b = c

theorem SameBest.eq {shares : List BestShare} {best best' : Finmap fun _ : Bytes => BestShare}
    (h : SameBest shares best best') (hties : NoTies shares) : best = best' := by
  apply Finmap.ext_lookup
  intro k
  cases hb : best.lookup k with
  | none => exact ((h.keys k).mp hb).symm
  | some b =>
    cases hb' : best'.lookup k with
    | none =>
      rw [(h.keys k).mpr hb'] at hb
      cases hb
    | some b' =>
      obtain ⟨hmem, haddr⟩ := h.mem k b hb
      obtain ⟨hmem', haddr'⟩ := h.mem' k b' hb'
      exact congrArg some (hties b hmem b' hmem' (haddr.trans haddr'.symm)
        (h.diff k b b' hb hb'))

/-- The order in which shares come does not change what is kept, but for ties. -/
theorem sameBest_of_perm {shares one other : List BestShare} (hone : one.Perm shares)
    (hother : other.Perm shares) (hpos : ∀ b ∈ shares, 0 < b.diff) :
    SameBest shares (one.foldl keepBest ∅) (other.foldl keepBest ∅) := by
  have hpos₁ : ∀ b ∈ one, 0 < b.diff := fun b hb => hpos b (hone.mem_iff.mp hb)
  have hpos₂ : ∀ b ∈ other, 0 < b.diff := fun b hb => hpos b (hother.mem_iff.mp hb)
  have hkept₁ := kept_foldl_keepBest hpos₁
  have hkept₂ := kept_foldl_keepBest hpos₂
  have hmem : ∀ b, b ∈ one ↔ b ∈ other := fun b => (hone.trans hother.symm).mem_iff
  refine ⟨?_, ?_, ?_, ?_⟩
  · intro k
    have h₁ := hkept₁ k
    have h₂ := hkept₂ k
    constructor <;> intro hnone
    · rw [hnone] at h₁
      cases hsome : (other.foldl keepBest ∅).lookup k with
      | none => rfl
      | some b =>
        rw [hsome] at h₂
        exact absurd h₂.address (h₁ b ((hmem b).mpr h₂.mem))
    · rw [hnone] at h₂
      cases hsome : (one.foldl keepBest ∅).lookup k with
      | none => rfl
      | some b =>
        rw [hsome] at h₁
        exact absurd h₁.address (h₂ b ((hmem b).mp h₁.mem))
  · intro k b b' hb hb'
    have h₁ := hkept₁ k
    have h₂ := hkept₂ k
    rw [hb] at h₁
    rw [hb'] at h₂
    have hle := h₁.le b' ((hmem b').mpr h₂.mem) h₂.address
    have hle' := h₂.le b ((hmem b).mp h₁.mem) h₁.address
    rw [lt_iff_rank (hpos₁ b h₁.mem) (hpos₂ b' h₂.mem)] at hle
    rw [lt_iff_rank (hpos₂ b' h₂.mem) (hpos₁ b h₁.mem)] at hle'
    rw [beq_iff_rank (hpos₁ b h₁.mem) (hpos₂ b' h₂.mem)]
    exact le_antisymm (not_lt.mp hle') (not_lt.mp hle)
  · intro k b hb
    have h₁ := hkept₁ k
    rw [hb] at h₁
    exact ⟨hone.mem_iff.mp h₁.mem, h₁.address⟩
  · intro k b hb
    have h₂ := hkept₂ k
    rw [hb] at h₂
    exact ⟨hother.mem_iff.mp h₂.mem, h₂.address⟩

/-! ### Files and ledgers -/

variable {r : Round} {w : Work}

section Files

variable {json} {t : Tree Bytes Bytes}

/-- The work of an index is the fold over what a reader has read. -/
structure WorkHolds (w : Work) (l : Ledger Bytes Unit Share) : Prop where
  sums : w.sums = ((l.log.map Prod.snd).filterMap workShare).foldl addWork ∅
  files : ∀ n, (w.files.lookup n).getD 0 = (l.off n : Int)

theorem lineEnd_nil : lineEnd 10 ([] : Bytes) = 0 := Nat.zero_sub _

/-- A stop that moved, and one that stayed because no line ended. -/
theorem lookup_stop_self (files : Finmap fun _ : Bytes => Int) (key : Bytes) {off : Nat}
    (h : (files.lookup key).getD 0 = off) (stop : Nat) :
    ((if 0 < stop then files.insert key ((off : Int) + stop) else files).lookup key).getD 0
      = ((off + stop : Nat) : Int) := by
  split_ifs with hstop
  · rw [Finmap.lookup_insert]
    push_cast
    rfl
  · rw [h]
    omega

theorem lookup_stop_of_ne (files : Finmap fun _ : Bytes => Int) {key other : Bytes}
    (h : other ≠ key) (off : Int) (stop : Nat) :
    (if 0 < stop then files.insert key (off + stop) else files).lookup other
      = files.lookup other := by
  split_ifs
  · exact Finmap.lookup_insert_of_ne _ h
  · rfl

theorem records_nil {α : Type} (parse : Bytes → Option α) : records 10 parse [] = [] := by
  rw [records, completeLines_nil]
  rfl

/-- A file at whose end the reader is gives nothing. -/
theorem Ledger.read_of_end {κ τ α : Type} [DecidableEq κ] {parse : Bytes → Option α} {tag : τ}
    {content : κ → Bytes} {l : Ledger κ τ α} {k : κ} (h : (content k).length = l.off k) :
    l.read 10 parse tag content k = l := by
  have hdata : (content k).drop (l.off k) = [] := List.drop_of_length_le h.le
  rw [Ledger.read, hdata, records_nil, lineEnd_nil, Nat.add_zero, Function.update_eq_self,
    List.map_nil, List.append_nil]

theorem WorkHolds.scanWorkFile {l : Ledger Bytes Unit Share} (h : WorkHolds w l)
    {content : Bytes → Bytes} {n : Bytes} (hoff : l.off n ≤ (content n).length) :
    ∃ w', scanWorkFile json w n (content n) = some w' ∧ w'.height = w.height ∧
      WorkHolds w' (l.read 10 (parseSharelogLine json) () content n) := by
  have hfits : ¬ ((content n).length : Int) < (w.files.lookup n).getD 0 := by
    rw [h.files]
    omega
  rw [Cashtop.scanWorkFile]
  dsimp only
  rw [if_neg hfits, h.files]
  by_cases hend : ((content n).length : Int) = (l.off n : Int)
  · rw [if_pos hend, Ledger.read_of_end (by omega)]
    exact ⟨w, rfl, rfl, h⟩
  · rw [if_neg hend, Int.toNat_natCast]
    refine ⟨_, rfl, rfl, ?_, ?_⟩
    · dsimp only [Ledger.read]
      rw [List.map_append, List.filterMap_append, List.foldl_append, ← h.sums, List.map_map,
        show (Prod.snd ∘ fun sh : Share => ((), sh)) = id from rfl, List.map_id]
    · intro m
      dsimp only
      by_cases hm : m = n
      · subst hm
        rw [Ledger.read_off_self]
        exact lookup_stop_self _ _ (h.files m) _
      · rw [Ledger.read_off_of_ne _ hm, lookup_stop_of_ne _ hm]
        exact h.files m

/-- No file shrank, so the whole directory is read. -/
theorem WorkHolds.scan {l : Ledger Bytes Unit Share} (h : WorkHolds w l)
    {content : Bytes → Bytes} {keys files : List Bytes}
    (hsound : l.Sound 10 (parseSharelogLine json) content keys) (hnodup : keys.Nodup)
    (hfiles : ∀ n ∈ files, n ∈ keys) :
    ∃ w', files.foldlM (fun w n => Cashtop.scanWorkFile json w n (content n)) w = some w' ∧
      w'.height = w.height ∧
      WorkHolds w' (l.scan 10 (parseSharelogLine json) () content files) := by
  induction files generalizing w l with
  | nil => exact ⟨w, rfl, rfl, h⟩
  | cons n files ih =>
    obtain ⟨hn, hrest⟩ := List.forall_mem_cons.mp hfiles
    obtain ⟨w₁, hw₁, hheight₁, hholds₁⟩ := h.scanWorkFile (hsound.atLineStart n).1
    obtain ⟨w₂, hw₂, hheight₂, hholds₂⟩ := ih hholds₁ (hsound.read hnodup () hn) hrest
    refine ⟨w₂, ?_, hheight₂.trans hheight₁, hholds₂⟩
    rw [List.foldlM_cons, hw₁]
    exact hw₂

/-- The round of an index is the fold over what a reader has read, each share as it was judged
then. -/
structure RoundHolds (r : Round) (l : Ledger (Bytes × Bytes) Float Share) : Prop where
  best : r.best = (l.log.filterMap fun p => roundShare r.since p.1 p.2).foldl keepBest ∅
  files : ∀ file : Bytes × Bytes, file.1.length = 8 →
    (r.files.lookup (roundFileKey file)).getD 0 = (l.off file : Int)

theorem roundFileKey_inj {f g : Bytes × Bytes} (hf : f.1.length = 8) (hg : g.1.length = 8)
    (h : roundFileKey f = roundFileKey g) : f = g := by
  rw [roundFileKey, roundFileKey, List.append_assoc, List.append_assoc] at h
  obtain ⟨hdir, hname⟩ := List.append_inj h (hf.trans hg.symm)
  exact Prod.ext hdir (List.append_cancel_left hname)

variable (json) in
theorem RoundHolds.scanRoundFile {l : Ledger (Bytes × Bytes) Float Share}
    (h : RoundHolds r l) {content : Bytes × Bytes → Bytes} {file : Bytes × Bytes}
    (hlen : file.1.length = 8) (hoff : l.off file ≤ (content file).length) (nd : Float) :
    (scanRoundFile json nd r (roundFileKey file) (content file)).height = r.height ∧
      (scanRoundFile json nd r (roundFileKey file) (content file)).since = r.since ∧
      RoundHolds (scanRoundFile json nd r (roundFileKey file) (content file))
        (l.read 10 (parseSharelogLine json) nd content file) := by
  have hfits : ¬ ((content file).length : Int) < (r.files.lookup (roundFileKey file)).getD 0 := by
    rw [h.files file hlen]
    omega
  rw [Cashtop.scanRoundFile]
  dsimp only
  rw [if_neg hfits, h.files file hlen]
  by_cases hend : ((content file).length : Int) = (l.off file : Int)
  · rw [if_pos hend, Ledger.read_of_end (by omega)]
    exact ⟨rfl, rfl, h⟩
  · rw [if_neg hend, Int.toNat_natCast]
    refine ⟨rfl, rfl, ?_, ?_⟩
    · dsimp only [Ledger.read]
      rw [List.filterMap_append, List.foldl_append, ← h.best, List.filterMap_map]
      rfl
    · intro other hother
      dsimp only
      by_cases hsame : other = file
      · subst hsame
        rw [Ledger.read_off_self]
        exact lookup_stop_self _ _ (h.files other hother) _
      · have hkey : roundFileKey other ≠ roundFileKey file := fun heq =>
          hsame (roundFileKey_inj hother hlen heq)
        rw [Ledger.read_off_of_ne _ hsame, lookup_stop_of_ne _ hkey]
        exact h.files other hother

theorem RoundHolds.scan {l : Ledger (Bytes × Bytes) Float Share}
    (h : RoundHolds r l) {content : Bytes × Bytes → Bytes} {keys files : List (Bytes × Bytes)}
    (hsound : l.Sound 10 (parseSharelogLine json) content keys) (hnodup : keys.Nodup)
    (hfiles : ∀ f ∈ files, f ∈ keys ∧ f.1.length = 8) (nd : Float) :
    let r' := files.foldl
      (fun r file => Cashtop.scanRoundFile json nd r (roundFileKey file) (content file)) r
    r'.height = r.height ∧ r'.since = r.since ∧
      RoundHolds r' (l.scan 10 (parseSharelogLine json) nd content files) := by
  induction files generalizing r l with
  | nil => exact ⟨rfl, rfl, h⟩
  | cons f files ih =>
    obtain ⟨⟨hf, hlen⟩, hrest⟩ := List.forall_mem_cons.mp hfiles
    obtain ⟨hheight, hsince, hholds⟩ :=
      h.scanRoundFile json hlen (hsound.atLineStart f).1 nd
    obtain ⟨hheight', hsince', hholds'⟩ := ih hholds (hsound.read hnodup nd hf) hrest
    exact ⟨hheight'.trans hheight, hsince'.trans hsince, hholds'⟩

end Files

/-! ### Names of directories -/

/-- A name as the pool gives it to the directory of a height. -/
def HeightName (n : Bytes) : Prop := n.length = 8 ∧ ∀ c ∈ n, isLowerHex c = true

theorem toNat_hexValue {c : UInt8} (h : isLowerHex c = true) :
    (hexValue c).toNat = if c.toNat ≤ 57 then c.toNat - 48 else c.toNat - 87 := by
  have hc : (48 ≤ c.toNat ∧ c.toNat ≤ 57) ∨ (97 ≤ c.toNat ∧ c.toNat ≤ 102) := by
    simpa [isLowerHex] using h
  rw [hexValue]
  split_ifs with hdigit
  · rw [UInt8.toNat_sub_of_le]
    · rfl
    · rw [UInt8.le_iff_toNat_le]
      show 48 ≤ c.toNat
      omega
  · rw [UInt8.toNat_sub_of_le]
    · rfl
    · rw [UInt8.le_iff_toNat_le]
      show 87 ≤ c.toNat
      omega

theorem hexValue_lt {c : UInt8} (h : isLowerHex c = true) : (hexValue c).toNat < 16 := by
  have hc : (48 ≤ c.toNat ∧ c.toNat ≤ 57) ∨ (97 ≤ c.toNat ∧ c.toNat ≤ 102) := by
    simpa [isLowerHex] using h
  rw [toNat_hexValue h]
  split_ifs <;> omega

theorem hexValue_inj {c d : UInt8} (hc : isLowerHex c = true) (hd : isLowerHex d = true)
    (h : hexValue c = hexValue d) : c = d := by
  have hnat := congrArg UInt8.toNat h
  rw [toNat_hexValue hc, toNat_hexValue hd] at hnat
  simp only [isLowerHex, Bool.or_eq_true, Bool.and_eq_true, decide_eq_true_eq] at hc hd
  apply UInt8.toNat_inj.mp
  split_ifs at hnat <;> omega

theorem splitSign_of_heightName {n : Bytes} (h : HeightName n) : splitSign n = (false, n) := by
  cases n with
  | nil => rfl
  | cons c n =>
    have hc := h.2 c List.mem_cons_self
    rw [splitSign]
    · rintro s ⟨⟩
      exact absurd hc (by decide)
    · rintro s ⟨⟩
      exact absurd hc (by decide)

theorem heightOf_of_heightName {n : Bytes} (h : HeightName n) :
    heightOf n = some (numeral 16 (n.map hexValue) : Int) := by
  have hlen : ¬ n.length ≠ 8 := not_not_intro h.1
  have hall : ¬ (!n.all isLowerHex) = true := by
    simpa using h.2
  rw [heightOf, if_neg hlen, splitSign_of_heightName h]
  dsimp only
  rw [if_neg hall]
  rfl

/-- A height has one directory. -/
theorem heightOf_inj {m n : Bytes} (hm : HeightName m) (hn : HeightName n)
    (h : heightOf m = heightOf n) : m = n := by
  rw [heightOf_of_heightName hm, heightOf_of_heightName hn] at h
  have hnat : numeral 16 (m.map hexValue) = numeral 16 (n.map hexValue) := by
    exact_mod_cast Option.some.inj h
  have hvalues : m.map hexValue = n.map hexValue := by
    refine numeral_injOn (by decide) ?_ ?_ ?_ hnat
    · intro d hd
      obtain ⟨c, hc, rfl⟩ := List.mem_map.mp hd
      exact hexValue_lt (hm.2 c hc)
    · intro d hd
      obtain ⟨c, hc, rfl⟩ := List.mem_map.mp hd
      exact hexValue_lt (hn.2 c hc)
    · rw [List.length_map, List.length_map, hm.1, hn.1]
  apply List.ext_getElem (hm.1.trans hn.1.symm)
  intro i hi hi'
  apply hexValue_inj (hm.2 _ (List.getElem_mem hi)) (hn.2 _ (List.getElem_mem hi'))
  have hget := congrArg (fun l => l[i]?) hvalues
  simpa [List.getElem?_map, List.getElem?_eq_getElem hi, List.getElem?_eq_getElem hi'] using hget

theorem length_of_heightOf {n : Bytes} {v : Int} (h : heightOf n = some v) : n.length = 8 := by
  by_contra hlen
  rw [heightOf, if_pos hlen] at h
  cases h

/-! ### Growth -/

section Growth

variable {t t' : Tree Bytes Bytes}

theorem nodup_of_sorted {l : List Bytes} (h : l.Pairwise (· < ·)) : l.Nodup := h.imp ne_of_lt

theorem nodup_sharelogs (t : Tree Bytes Bytes) (d : Bytes) : (sharelogs t d).Nodup :=
  (nodup_of_sorted (t.names_sorted d)).filter _

theorem Grows.sharelogs (h : Grows t t') {d n : Bytes} (hn : n ∈ sharelogs t d) :
    n ∈ sharelogs t' d := by
  obtain ⟨hmem, hlog⟩ := List.mem_filter.mp hn
  exact List.mem_filter.mpr ⟨h.names d n hmem, hlog⟩

variable {latest : Option (Int × Int)}

/-- A directory that a round reads. -/
def InRound (latest : Option (Int × Int)) (n : Bytes) : Prop :=
  (heightOf n).any (fun v =>
    (latest.map Prod.fst).getD 0 ≤ v ∧ ¬ (latest.isSome ∧ v = (latest.map Prod.fst).getD 0)) = true

theorem mem_roundDirs {d : Bytes} : d ∈ roundDirs t latest ↔ d ∈ t.dirs ∧ InRound latest d := by
  rw [roundDirs, List.mem_mergeSort, List.mem_filter]
  rfl

theorem mem_roundFiles {f : Bytes × Bytes} :
    f ∈ roundFiles t latest ↔
      (f.1 ∈ t.dirs ∧ InRound latest f.1) ∧ f.2 ∈ Cashtop.sharelogs t f.1 := by
  rw [roundFiles, List.mem_flatMap]
  constructor
  · rintro ⟨d, hd, hf⟩
    obtain ⟨n, hn, rfl⟩ := List.mem_map.mp hf
    exact ⟨mem_roundDirs.mp hd, hn⟩
  · rintro ⟨hd, hn⟩
    exact ⟨f.1, mem_roundDirs.mpr hd, List.mem_map.mpr ⟨f.2, hn, rfl⟩⟩

theorem nodup_roundFiles (t : Tree Bytes Bytes) (latest : Option (Int × Int)) :
    (roundFiles t latest).Nodup := by
  have hdirs : (roundDirs t latest).Nodup :=
    (List.mergeSort_perm ..).nodup_iff.mpr ((nodup_of_sorted t.dirs_sorted).filter _)
  rw [roundFiles, List.nodup_flatMap]
  refine ⟨?_, ?_⟩
  · intro d _
    exact (nodup_sharelogs t d).map fun _ _ h => (Prod.mk.inj h).2
  · apply hdirs.imp
    intro d e hne
    rw [Function.onFun, List.disjoint_left]
    intro f hd he
    obtain ⟨n, -, rfl⟩ := List.mem_map.mp hd
    obtain ⟨m, -, heq⟩ := List.mem_map.mp he
    exact hne (Prod.mk.inj heq).1.symm

theorem Grows.roundFiles (h : Grows t t') {f : Bytes × Bytes} (hf : f ∈ roundFiles t latest) :
    f ∈ roundFiles t' latest := by
  obtain ⟨⟨hd, hin⟩, hn⟩ := mem_roundFiles.mp hf
  exact mem_roundFiles.mpr ⟨⟨h.dirs _ hd, hin⟩, h.sharelogs hn⟩

theorem length_of_mem_roundFiles {f : Bytes × Bytes} (hf : f ∈ roundFiles t latest) :
    f.1.length = 8 := by
  obtain ⟨⟨-, hin⟩, -⟩ := mem_roundFiles.mp hf
  rw [InRound] at hin
  cases hv : heightOf f.1 with
  | none =>
    rw [hv] at hin
    cases hin
  | some v => exact length_of_heightOf hv

end Growth

/-! ### What an index keeps -/

section Keeps

variable {json} {t t' : Tree Bytes Bytes}

theorem newestHeightDir_fold (l : List Bytes) (b : Int × Bytes) :
    let r := l.foldl (fun best n =>
      match heightOf n with
      | some v => if best.1 < v then (v, n) else best
      | none => best) b
    (r = b ∨ r.2 ∈ l ∧ heightOf r.2 = some r.1) ∧ b.1 ≤ r.1 ∧
      ∀ d ∈ l, ∀ v, heightOf d = some v → v ≤ r.1 := by
  induction l generalizing b with
  | nil => exact ⟨Or.inl rfl, le_rfl, fun d hd => absurd hd List.not_mem_nil⟩
  | cons n l ih =>
    rw [List.foldl_cons]
    cases hn : heightOf n with
    | none =>
      obtain ⟨hfrom, hle, hmax⟩ := ih b
      refine ⟨hfrom.imp id fun h => ⟨List.mem_cons_of_mem _ h.1, h.2⟩, hle, ?_⟩
      intro d hd v hv
      rcases List.mem_cons.mp hd with rfl | hrest
      · rw [hn] at hv
        cases hv
      · exact hmax d hrest v hv
    | some w =>
      dsimp only
      by_cases hlt : b.1 < w
      · rw [if_pos hlt]
        obtain ⟨hfrom, hle, hmax⟩ := ih (w, n)
        refine ⟨Or.inr ?_, hlt.le.trans hle, ?_⟩
        · rcases hfrom with heq | hin
          · rw [heq]
            exact ⟨List.mem_cons_self, hn⟩
          · exact ⟨List.mem_cons_of_mem _ hin.1, hin.2⟩
        · intro d hd v hv
          rcases List.mem_cons.mp hd with rfl | hrest
          · rw [hn] at hv
            obtain rfl := Option.some.inj hv
            exact hle
          · exact hmax d hrest v hv
      · rw [if_neg hlt]
        obtain ⟨hfrom, hle, hmax⟩ := ih b
        refine ⟨hfrom.imp id fun h => ⟨List.mem_cons_of_mem _ h.1, h.2⟩, hle, ?_⟩
        intro d hd v hv
        rcases List.mem_cons.mp hd with rfl | hrest
        · rw [hn] at hv
          obtain rfl := Option.some.inj hv
          exact (not_lt.mp hlt).trans hle
        · exact hmax d hrest v hv

theorem newestHeightDir_eq_some {h : Int} {d : Bytes} (hnewest : newestHeightDir t = some (h, d)) :
    0 ≤ h ∧ d ∈ t.dirs ∧ heightOf d = some h ∧
      ∀ e ∈ t.dirs, ∀ v, heightOf e = some v → v ≤ h := by
  obtain ⟨hfrom, -, hmax⟩ := newestHeightDir_fold t.dirs (-1, [])
  rw [newestHeightDir] at hnewest
  split_ifs at hnewest with hneg
  have heq := Option.some.inj hnewest
  rw [heq] at hfrom hmax hneg
  rcases hfrom with hnone | hin
  · rw [hnone] at hneg
    exact absurd (by decide) hneg
  · exact ⟨not_lt.mp hneg, hin.1, hin.2, hmax⟩

/-- Where there was a directory of a height there still is one. -/
theorem newestHeightDir_grow (hgrow : Grows t t') (hnone : newestHeightDir t' = none) :
    newestHeightDir t = none := by
  cases hnewest : newestHeightDir t with
  | none => rfl
  | some newest =>
    obtain ⟨height, dir⟩ := newest
    obtain ⟨hpos, hd, hheight, -⟩ := newestHeightDir_eq_some hnewest
    obtain ⟨-, -, hmax⟩ := newestHeightDir_fold t'.dirs (-1, [])
    have hle := hmax _ (hgrow.dirs _ hd) _ hheight
    rw [newestHeightDir] at hnone
    split_ifs at hnone with hneg
    exact absurd (hpos.trans hle) (not_le.mpr hneg)

/-- Directories of heights have the names that the pool gives them. -/
def TreeNamed (t : Tree Bytes Bytes) : Prop :=
  ∀ d ∈ t.dirs, (heightOf d).isSome = true → HeightName d

variable (json) in
/-- The work is the fold over what was read of the directory of its height. -/
def WorkInv (t : Tree Bytes Bytes) (w : Work) : Prop :=
  ∃ l : Ledger Bytes Unit Share, WorkHolds w l ∧ ∀ d, HeightName d → heightOf d = some w.height →
    l.Sound 10 (parseSharelogLine json) (t.content d) (sharelogs t d)

theorem workHolds_reset (h : Int) :
    WorkHolds { height := h } (Ledger.empty : Ledger Bytes Unit Share) where
  sums := rfl
  files n := by
    rw [show ({ height := h } : Work).files = ∅ from rfl, Finmap.lookup_empty]
    rfl

theorem WorkInv.reset (t : Tree Bytes Bytes) (h : Int) : WorkInv json t { height := h } :=
  ⟨Ledger.empty, workHolds_reset h, fun _ _ _ => Ledger.sound_empty _ _⟩

theorem WorkInv.grow (h : WorkInv json t w) (hgrow : Grows t t') :
    WorkInv json t' w := by
  obtain ⟨l, hholds, hsound⟩ := h
  refine ⟨l, hholds, ?_⟩
  intro d hd hheight
  exact (hsound d hd hheight).grow (nodup_sharelogs t d) (nodup_sharelogs t' d)
    (fun n hn => hgrow.sharelogs hn) (hgrow.content d)

/-- After a sync the newest directory is read to its end, each share once. -/
theorem WorkInv.sync (h : WorkInv json t w) (hnamed : TreeNamed t) :
    WorkInv json t (syncWork json t w) ∧
      ∀ height d, newestHeightDir t = some (height, d) → (syncWork json t w).height = height ∧
        ∃ l : Ledger Bytes Unit Share, WorkHolds (syncWork json t w) l ∧
          (l.log.map Prod.snd).Perm
            ((sharelogs t d).flatMap fun n =>
              records 10 (parseSharelogLine json) (t.content d n)) := by
  rw [syncWork]
  cases hnewest : newestHeightDir t with
  | none => exact ⟨h, fun _ _ hsome => by cases hsome⟩
  | some newest =>
    obtain ⟨height, d⟩ := newest
    obtain ⟨-, hd, hheight, -⟩ := newestHeightDir_eq_some hnewest
    have hname : HeightName d := hnamed d hd (Option.isSome_iff_exists.mpr ⟨height, hheight⟩)
    have hstart : ∃ l : Ledger Bytes Unit Share,
        WorkHolds (if w.height ≠ height then { height := height } else w) l ∧
          (if w.height ≠ height then { height := height } else w).height = height ∧
          l.Sound 10 (parseSharelogLine json) (t.content d) (sharelogs t d) := by
      split_ifs with hother
      · exact ⟨Ledger.empty, workHolds_reset height, rfl, Ledger.sound_empty _ _⟩
      · obtain ⟨l, hholds, hsound⟩ := h
        have hsame := not_not.mp hother
        exact ⟨l, hholds, hsame, hsound d hname (hsame ▸ hheight)⟩
    obtain ⟨l, hholds, hsame, hsound⟩ := hstart
    obtain ⟨w', hw', hheight', hholds'⟩ :=
      hholds.scan hsound (nodup_sharelogs t d) fun n hn => hn
    have hattempt : attemptWork json t height d 2 w = w' := by
      rw [attemptWork, scanHeightDir, hw']
    dsimp only
    rw [hattempt]
    refine ⟨⟨_, hholds', ?_⟩, ?_⟩
    · intro e he heq
      rw [hheight', hsame, ← hheight] at heq
      obtain rfl := heightOf_inj he hname heq
      exact (hsound.scan (nodup_sharelogs t e) () fun n hn => hn).1
    · rintro _ _ ⟨rfl, rfl⟩
      exact ⟨hheight'.trans hsame, _, hholds', hsound.scan_perm (nodup_sharelogs t d) ()
        fun n => Iff.rfl⟩

/-- The block that a round began with. -/
def latestOf (r : Round) : Option (Int × Int) :=
  if r.height = 0 ∧ r.since = zeroTime then none else some (r.height, r.since)

variable (json) in
/-- The round is the fold over what was read of its directories.  Of the round that begins with
`final`, all was judged with `nd`. -/
def RoundInv (final : Option (Int × Int)) (nd : Float) (t : Tree Bytes Bytes) (r : Round) : Prop :=
  ∃ l : Ledger (Bytes × Bytes) Float Share, RoundHolds r l ∧
    l.Sound 10 (parseSharelogLine json) (fun f => t.content f.1 f.2) (roundFiles t (latestOf r)) ∧
    (latestOf r = final → ∀ p ∈ l.log, p.1 = nd)

theorem roundHolds_reset (h since : Int) : RoundHolds { height := h, since := since }
    (Ledger.empty : Ledger (Bytes × Bytes) Float Share) where
  best := rfl
  files f _ := by
    rw [show ({ height := h, since := since } : Round).files = ∅ from rfl, Finmap.lookup_empty]
    rfl

variable {final : Option (Int × Int)} {nd : Float}

theorem RoundInv.reset (t : Tree Bytes Bytes) (h since : Int) :
    RoundInv json final nd t { height := h, since := since } :=
  ⟨Ledger.empty, roundHolds_reset h since, Ledger.sound_empty _ _,
    fun _ _ hp => absurd hp List.not_mem_nil⟩

theorem RoundInv.grow (h : RoundInv json final nd t r) (hgrow : Grows t t') :
    RoundInv json final nd t' r := by
  obtain ⟨l, hholds, hsound, htags⟩ := h
  exact ⟨l, hholds, hsound.grow (nodup_roundFiles t _) (nodup_roundFiles t' _)
    (fun f hf => hgrow.roundFiles hf) fun f => hgrow.content f.1 f.2, htags⟩

/-- The shares of a sharelog are numbers. -/
theorem pos_of_mem_records {bs : Bytes} {sh : Share}
    (h : sh ∈ records 10 (parseSharelogLine json) bs) (hsh : ¬ sh.sdiff ≤ 0) : 0 < sh.sdiff := by
  obtain ⟨line, -, hline⟩ := List.mem_filterMap.mp h
  rw [parseSharelogLine] at hline
  split_ifs at hline
  exact json.number hline hsh

theorem roundShare_eq_some {since : Int} {d : Float} {sh : Share} {b : BestShare}
    (h : roundShare since d sh = some b) :
    ¬ sh.sdiff ≤ 0 ∧ b.diff = sh.sdiff ∧ since < b.time := by
  rw [roundShare] at h
  split_ifs at h with hskip
  cases ht : shareTime sh with
  | none =>
    rw [ht] at h
    cases h
  | some at' =>
    rw [ht] at h
    dsimp only at h
    split_ifs at h with hout
    obtain rfl := Option.some.inj h
    exact ⟨(not_or.mp hskip).2, rfl, not_not.mp (not_or.mp hout).1⟩

/-- Nothing that is kept is older than the round. -/
theorem dropOld_eq {l : Ledger (Bytes × Bytes) Float Share} (h : RoundHolds r l)
    (hpos : ∀ p ∈ l.log, ¬ p.2.sdiff ≤ 0 → 0 < p.2.sdiff) :
    ((r.best.keys.filter fun k => (r.best.lookup k).any fun b => ¬ r.since < b.time).sort
      (· ≤ ·)).foldl (fun best k => best.erase k) r.best = r.best := by
  have hnone : (r.best.keys.filter fun k => (r.best.lookup k).any fun b => ¬ r.since < b.time)
      = ∅ := by
    rw [Finset.filter_eq_empty_iff]
    intro k _ hold
    cases hb : r.best.lookup k with
    | none =>
      rw [hb] at hold
      cases hold
    | some b =>
      rw [hb, Option.any_some, decide_eq_true_eq] at hold
      have hshares : ∀ c ∈ l.log.filterMap fun p => roundShare r.since p.1 p.2, 0 < c.diff := by
        intro c hc
        obtain ⟨p, hp, hshare⟩ := List.mem_filterMap.mp hc
        obtain ⟨hsdiff, hdiff, -⟩ := roundShare_eq_some hshare
        exact hdiff ▸ hpos p hp hsdiff
      have hkept := kept_foldl_keepBest hshares k
      rw [← h.best, hb] at hkept
      obtain ⟨p, -, hshare⟩ := List.mem_filterMap.mp hkept.mem
      exact hold (roundShare_eq_some hshare).2.2
  rw [hnone, Finset.sort_empty]
  rfl

/-- A round tells with which block it began. -/
theorem latestOf_eq {latest : Option (Int × Int)} (hlatest : latest ≠ some (0, zeroTime))
    (hheight : r.height = (latest.map Prod.fst).getD 0)
    (hsince : r.since = (latest.map Prod.snd).getD zeroTime) : latestOf r = latest := by
  cases latest with
  | none => exact if_pos ⟨hheight, hsince⟩
  | some block =>
    obtain ⟨h, since⟩ := block
    rw [latestOf, hheight, hsince]
    refine if_neg ?_
    rintro ⟨h0, hzero⟩
    exact hlatest (congrArg some (Prod.ext h0 hzero))

/-- After a sync the directories of the round are read to their ends, each share once. -/
theorem RoundInv.sync (h : RoundInv json final nd t r) {latest : Option (Int × Int)}
    {now : Float} (hlatest : latest ≠ some (0, zeroTime)) (hnow : latest = final → now = nd) :
    RoundInv json final nd t (syncRound json t latest now r) ∧
      (syncRound json t latest now r).since = (latest.map Prod.snd).getD zeroTime ∧
      ∃ l : Ledger (Bytes × Bytes) Float Share, RoundHolds (syncRound json t latest now r) l ∧
        (l.log.map Prod.snd).Perm ((roundFiles t latest).flatMap fun f =>
          records 10 (parseSharelogLine json) (t.content f.1 f.2)) ∧
        (latest = final → ∀ p ∈ l.log, p.1 = nd) := by
  let height := (latest.map Prod.fst).getD 0
  let since := (latest.map Prod.snd).getD zeroTime
  let began : Round :=
    if r.height ≠ height ∨ r.since ≠ since then { height := height, since := since } else r
  have hbegan : began.height = height ∧ began.since = since ∧ RoundInv json final nd t began := by
    show (if _ then _ else _ : Round).height = _ ∧ (if _ then _ else _ : Round).since = _ ∧
      RoundInv json final nd t (if _ then _ else _)
    split_ifs with hother
    · exact ⟨rfl, rfl, RoundInv.reset t height since⟩
    · rw [not_or, not_not, not_not] at hother
      exact ⟨hother.1, hother.2, h⟩
  obtain ⟨hheight, hsince, l, hholds, hsound, htags⟩ := hbegan
  have hof : latestOf began = latest := latestOf_eq hlatest hheight hsince
  rw [hof] at hsound htags
  have hpos : ∀ p ∈ l.log, ¬ p.2.sdiff ≤ 0 → 0 < p.2.sdiff := by
    intro p hp
    have hmem := hsound.perm.mem_iff.mp (List.mem_map.mpr ⟨p, hp, rfl⟩)
    obtain ⟨f, -, hf⟩ := List.mem_flatMap.mp hmem
    exact pos_of_mem_records hf
  let seen : Round := if roundDirs t latest ≠ [] then { began with seen := true } else began
  have hseen : seen.height = height ∧ seen.since = since ∧ RoundHolds seen l := by
    show (if _ then _ else _ : Round).height = _ ∧ (if _ then _ else _ : Round).since = _ ∧
      RoundHolds (if _ then _ else _) l
    split_ifs
    · exact ⟨hheight, hsince, hholds.best, hholds.files⟩
    · exact ⟨hheight, hsince, hholds⟩
  have hsync : syncRound json t latest now r = (roundFiles t latest).foldl (fun r file =>
      scanRoundFile json now r (roundFileKey file) (t.content file.1 file.2)) seen := by
    rw [syncRound]
    dsimp only
    rw [dropOld_eq (r := began) hholds hpos]
  obtain ⟨hheight', hsince', hholds'⟩ := hseen.2.2.scan hsound
    (nodup_roundFiles t latest) (fun f hf => ⟨hf, length_of_mem_roundFiles hf⟩) now
  have hsound' := hsound.scan (nodup_roundFiles t latest) now fun f hf => hf
  have hperm := hsound.scan_perm (nodup_roundFiles t latest) now fun f => Iff.rfl
  have htags' : latest = final → ∀ p ∈ (l.scan 10 (parseSharelogLine json) now
      (fun f => t.content f.1 f.2) (roundFiles t latest)).log, p.1 = nd := by
    intro hfinal p hp
    rcases Ledger.mem_scan_log hp with hold | hnew
    · exact htags hfinal p hold
    · exact hnew.trans (hnow hfinal)
  rw [hsync]
  have hof' := latestOf_eq hlatest (hheight'.trans hseen.1) (hsince'.trans hseen.2.1)
  refine ⟨⟨_, hholds', ?_, ?_⟩, hsince'.trans hseen.2.1, _, hholds', hperm, htags'⟩
  · rw [hof']
    exact hsound'.1
  · rw [hof']
    exact htags'

end Keeps

/-! ### Runs -/

section Run

variable {json}

/-- A new directory that looks like a height is named as the pool names it. -/
def WatchEvent.Named : WatchEvent → Prop
  | .mkdir dir => (heightOf dir).isSome = true → HeightName dir
  | _ => True

/-- A sync that sees the last block of `final` knows its difficulty of the network.  A last
block of height zero and without a time is none. -/
def Watch.Steady (final : State) (s : Watch) : WatchEvent → Prop
  | .sync => lastAccepted s.st.blocks ≠ some (0, zeroTime) ∧
      (lastAccepted s.st.blocks = lastAccepted final.blocks → s.st.netDiff = final.netDiff)
  | _ => True

/-- What an index and the tree have between them. -/
structure Watch.Inv (json : ShareJson) (final : State) (s : Watch) : Prop where
  named : TreeNamed s.tree
  work : WorkInv json s.tree s.st.work
  idle : newestHeightDir s.tree = none → s.st.work.sums = ∅
  round : RoundInv json (lastAccepted final.blocks) final.netDiff s.tree s.st.round

theorem Watch.start_inv (final : State) : Watch.start.Inv json final where
  named := fun _ hd => absurd hd List.not_mem_nil
  work := WorkInv.reset _ 0
  idle := fun _ => rfl
  round := RoundInv.reset _ 0 zeroTime

theorem treeNamed_of_dirs {t t' : Tree Bytes Bytes} (h : TreeNamed t)
    (hdirs : ∀ d ∈ t'.dirs, d ∈ t.dirs) : TreeNamed t' := fun d hd => h d (hdirs d hd)

theorem treeNamed_mkdir {t : Tree Bytes Bytes} (h : TreeNamed t) {dir : Bytes}
    (hdir : (heightOf dir).isSome = true → HeightName dir) : TreeNamed (t.mkdir dir) := by
  intro d hd
  rw [Tree.mkdir] at hd
  split_ifs at hd with hold
  · exact h d hd
  · rcases (List.mem_orderedInsert _).mp hd with rfl | hin
    · exact hdir
    · exact h d hin

theorem dirs_create (t : Tree Bytes Bytes) (d n : Bytes) : (t.create d n).dirs = t.dirs := by
  rw [Tree.create]
  split_ifs <;> rfl

theorem dirs_write (t : Tree Bytes Bytes) (d n bytes : Bytes) :
    (t.write d n bytes).dirs = t.dirs := by
  rw [Tree.write]
  split_ifs <;> rfl

/-- The invariant is kept by all that may happen. -/
theorem Watch.Inv.step {final : State} {s : Watch} (h : s.Inv json final) {e : WatchEvent}
    (hnamed : e.Named) (hsteady : s.Steady final e) : (s.step json e).Inv json final := by
  cases e with
  | mkdir dir =>
    exact ⟨treeNamed_mkdir h.named hnamed, h.work.grow (grows_mkdir ..),
      fun hnone => h.idle (newestHeightDir_grow (grows_mkdir ..) hnone),
      h.round.grow (grows_mkdir ..)⟩
  | create dir file =>
    refine ⟨treeNamed_of_dirs h.named ?_, h.work.grow (grows_create ..),
      fun hnone => h.idle (newestHeightDir_grow (grows_create ..) hnone),
      h.round.grow (grows_create ..)⟩
    intro d hd
    exact dirs_create s.tree dir file ▸ hd
  | write dir file bytes =>
    refine ⟨treeNamed_of_dirs h.named ?_, h.work.grow (grows_write ..),
      fun hnone => h.idle (newestHeightDir_grow (grows_write ..) hnone),
      h.round.grow (grows_write ..)⟩
    intro d hd
    exact dirs_write s.tree dir file bytes ▸ hd
  | blocks blocks => exact ⟨h.named, h.work, h.idle, h.round⟩
  | netDiff d => exact ⟨h.named, h.work, h.idle, h.round⟩
  | sync =>
    refine ⟨h.named, (h.work.sync h.named).1, ?_, (h.round.sync hsteady.1 hsteady.2).1⟩
    intro (hnone : newestHeightDir s.tree = none)
    show (syncWork json s.tree s.st.work).sums = ∅
    rw [syncWork, hnone]
    exact h.idle hnone

variable (json) in
/-- The credits of the newest height directory. -/
def workCredits (t : Tree Bytes Bytes) : List (Bytes × Float) :=
  match newestHeightDir t with
  | none => []
  | some (_, d) => ((sharelogs t d).flatMap fun n =>
    records 10 (parseSharelogLine json) (t.content d n)).filterMap workShare

variable (json) in
/-- The shares of the round since the last block, as they are judged by what is known now. -/
def roundShares (t : Tree Bytes Bytes) (st : State) : List BestShare :=
  ((roundFiles t (lastAccepted st.blocks)).flatMap fun f =>
    records 10 (parseSharelogLine json) (t.content f.1 f.2)).filterMap
      (roundShare (((lastAccepted st.blocks).map Prod.snd).getD zeroTime) st.netDiff)

/-- No order of the credits of an address changes their sum. -/
def ExactSums (credits : List (Bytes × Float)) : Prop :=
  ∀ addr ds, ds.Perm (creditsOf addr credits) → total ds = total (creditsOf addr credits)

/-- What a sync has summed up of the newest directory. -/
theorem WorkInv.sums {t : Tree Bytes Bytes} (h : WorkInv json t w) (hnamed : TreeNamed t)
    (hnone : newestHeightDir t = none → w.sums = ∅) (addr : Bytes) :
    ∃ ds, ds.Perm (creditsOf addr (workCredits json t)) ∧
      (syncWork json t w).sums.lookup addr = total ds := by
  rw [workCredits]
  cases hnewest : newestHeightDir t with
  | none =>
    refine ⟨[], List.Perm.refl _, ?_⟩
    rw [syncWork, hnewest, hnone hnewest]
    exact Finmap.lookup_empty addr
  | some newest =>
    obtain ⟨-, l, hholds, hperm⟩ := (h.sync hnamed).2 newest.1 newest.2 hnewest
    refine ⟨_, ((hperm.filterMap _).filter _).map _, ?_⟩
    rw [hholds.sums, lookup_foldl_addWork]
    rfl

variable (json) in
/-- The first sync of an index adds up in the order of the files. -/
theorem fresh_sums (t : Tree Bytes Bytes) (addr : Bytes) :
    (syncWork json t {}).sums.lookup addr = total (creditsOf addr (workCredits json t)) := by
  rw [workCredits, syncWork]
  cases hnewest : newestHeightDir t with
  | none => exact Finmap.lookup_empty addr
  | some newest =>
    obtain ⟨height, d⟩ := newest
    have hstart : WorkHolds (if ({} : Work).height ≠ height then { height := height } else {})
        (Ledger.empty : Ledger Bytes Unit Share) := by
      split_ifs
      · exact workHolds_reset height
      · exact workHolds_reset 0
    have hsound : (Ledger.empty : Ledger Bytes Unit Share).Sound 10 (parseSharelogLine json)
        (t.content d) (sharelogs t d) := Ledger.sound_empty _ _
    obtain ⟨w', hw', -, hholds'⟩ := hstart.scan hsound (nodup_sharelogs t d) fun n hn => hn
    have hattempt : attemptWork json t height d 2 {} = w' := by
      rw [attemptWork, scanHeightDir, hw']
    have hlog : ((Ledger.empty : Ledger Bytes Unit Share).scan 10 (parseSharelogLine json) ()
        (t.content d) (sharelogs t d)).log.map Prod.snd
        = (sharelogs t d).flatMap fun n =>
          records 10 (parseSharelogLine json) (t.content d n) := by
      rw [Ledger.scan_log_of_unread (nodup_sharelogs t d) fun _ _ => rfl]
      show List.map _ ([] ++ _) = _
      rw [List.nil_append, List.map_flatMap]
      simp only [List.map_map, Function.comp_def, List.map_id']
    dsimp only
    rw [hattempt, hholds'.sums, hlog, lookup_foldl_addWork]

/-- What a sync has kept of the round since the last block. -/
theorem RoundInv.best {st : State} {t : Tree Bytes Bytes}
    (h : RoundInv json (lastAccepted st.blocks) st.netDiff t r)
    (hlatest : lastAccepted st.blocks ≠ some (0, zeroTime)) :
    ∃ shares : List BestShare, shares.Perm (roundShares json t st) ∧
      (syncRound json t (lastAccepted st.blocks) st.netDiff r).best = shares.foldl keepBest ∅ := by
  obtain ⟨-, hsince, l, hholds, hperm, htags⟩ := h.sync hlatest fun _ => rfl
  refine ⟨_, hperm.filterMap _, ?_⟩
  have hjudged : (l.log.map Prod.snd).filterMap
      (roundShare (((lastAccepted st.blocks).map Prod.snd).getD zeroTime) st.netDiff)
      = l.log.filterMap fun p =>
        roundShare (((lastAccepted st.blocks).map Prod.snd).getD zeroTime) p.1 p.2 := by
    rw [List.filterMap_map]
    apply List.filterMap_congr
    intro p hp
    rw [Function.comp_apply, htags rfl p hp]
  rw [hjudged, hholds.best, hsince]

theorem pos_of_mem_roundShares {t : Tree Bytes Bytes} {st : State} {b : BestShare}
    (h : b ∈ roundShares json t st) : 0 < b.diff := by
  obtain ⟨sh, hsh, hshare⟩ := List.mem_filterMap.mp h
  obtain ⟨hsdiff, hdiff, -⟩ := roundShare_eq_some hshare
  obtain ⟨f, -, hf⟩ := List.mem_flatMap.mp hsh
  exact hdiff ▸ pos_of_mem_records hf hsdiff

/-- **When the syncs ran does not matter, but for the order of what they read.**  After a last
sync the sums of the newest directory are those of one sync of a fresh index, added up in some
order; the best shares of the round are those of the fresh index, but for ties, if the syncs of
the round knew the difficulty of the network that is known at the end. -/
theorem sync_schedule (json : ShareJson) (history : List WatchEvent)
    (hnamed : ∀ e ∈ history, e.Named)
    (hsteady : Along (Watch.step json)
      (Watch.Steady (run (Watch.step json) Watch.start history).st) Watch.start
      (history ++ [.sync])) :
    let s := run (Watch.step json) Watch.start (history ++ [.sync])
    let fresh := syncSharelogs json s.tree (freshState s.st)
    let credits := workCredits json s.tree
    let shares := roundShares json s.tree s.st
    (∀ addr, ∃ ds, ds.Perm (creditsOf addr credits) ∧ s.st.work.sums.lookup addr = total ds) ∧
      (∀ addr, fresh.work.sums.lookup addr = total (creditsOf addr credits)) ∧
      (ExactSums credits → s.st.work.sums = fresh.work.sums) ∧
      SameBest shares s.st.round.best fresh.round.best ∧
      (NoTies shares → s.st.round.best = fresh.round.best) := by
  obtain ⟨hbefore, hlast⟩ := along_append.mp hsteady
  have hs : run (Watch.step json) Watch.start (history ++ [.sync])
      = (run (Watch.step json) Watch.start history).step json .sync := by
    rw [run_append]
    rfl
  rw [hs]
  have hinv : (run (Watch.step json) Watch.start history).Inv json
      (run (Watch.step json) Watch.start history).st := by
    have hall := hbefore.and (along_of_forall hnamed Watch.start)
    refine run_invariant (I := Watch.Inv json _) ?_ hall (Watch.start_inv _)
    intro u e he hu
    exact hu.step he.2 he.1
  obtain ⟨⟨hlatest, -⟩, -⟩ := hlast
  generalize run (Watch.step json) Watch.start history = before at hinv hlatest ⊢
  intro s fresh credits shares
  have hsums : ∀ addr, ∃ ds, ds.Perm (creditsOf addr credits) ∧
      s.st.work.sums.lookup addr = total ds := hinv.work.sums hinv.named hinv.idle
  have hfresh : ∀ addr, fresh.work.sums.lookup addr = total (creditsOf addr credits) :=
    fresh_sums json before.tree
  have hbest : SameBest shares s.st.round.best fresh.round.best := by
    obtain ⟨kept, hperm, hkept⟩ := hinv.round.best hlatest
    have hreset : RoundInv json (lastAccepted before.st.blocks) before.st.netDiff before.tree {} :=
      RoundInv.reset before.tree 0 zeroTime
    obtain ⟨kept', hperm', hkept'⟩ := hreset.best hlatest
    show SameBest _ (syncRound json _ _ _ _).best (syncRound json _ _ _ _).best
    rw [hkept]
    show SameBest _ _ (syncRound json before.tree (lastAccepted before.st.blocks)
      before.st.netDiff {}).best
    rw [hkept']
    exact sameBest_of_perm hperm hperm' fun b hb => pos_of_mem_roundShares hb
  refine ⟨hsums, hfresh, ?_, hbest, hbest.eq⟩
  intro hexact
  apply Finmap.ext_lookup
  intro addr
  obtain ⟨ds, hperm, hds⟩ := hsums addr
  rw [hds, hfresh, hexact addr ds hperm]

end Run

/-! ### Orders that are seen -/

instance (n : Bytes) : Decidable (HeightName n) := inferInstanceAs (Decidable (_ ∧ _))

instance (e : WatchEvent) : Decidable e.Named :=
  match e with
  | .mkdir dir => inferInstanceAs (Decidable ((heightOf dir).isSome = true → HeightName dir))
  | .create .. | .write .. | .blocks .. | .netDiff .. | .sync => isTrue trivial

instance (final : State) (s : Watch) (e : WatchEvent) : Decidable (s.Steady final e) :=
  match e with
  | .sync => inferInstanceAs (Decidable (_ ∧ (_ → _)))
  | .mkdir .. | .create .. | .write .. | .blocks .. | .netDiff .. => isTrue trivial

/-- A line of a sharelog, with two numbers and a second. -/
def shareText (diff sdiff sec : String) : Bytes :=
  ascii ("\x7b\"diff\":" ++ diff ++ ",\"sdiff\":" ++ sdiff ++ ",\"result\":true" ++
    ",\"createdate\":\"" ++ sec ++ ",0\",\"workername\":\"qq.rig\",\"username\":\"qq\"\x7d")

/-- The share of such a line. -/
def shareRecord (diff sdiff : Float) (sec : String) : Share :=
  ⟨diff, sdiff, true, ascii (sec ++ ",0"), ascii "qq.rig", ascii "qq"⟩

/-- Three lines and their shares. -/
def sharelogTable : List (Bytes × Share) :=
  [(shareText "0.2" "3" "1700000001", shareRecord 0.2 3 "1700000001"),
    (shareText "0.3" "4" "1700000002", shareRecord 0.3 4 "1700000002"),
    (shareText "0.1" "4" "1700000003", shareRecord 0.1 4 "1700000003")]

/-- The decoder on these lines. -/
def tableJson : ShareJson where
  unmarshal line := (sharelogTable.find? fun p => p.1 = line).map Prod.snd
  number := by
    intro line sh h
    have hall : ∀ p ∈ sharelogTable, ¬ p.2.sdiff ≤ 0 → 0 < p.2.sdiff := by decide
    obtain ⟨p, hp, rfl⟩ := Option.map_eq_some_iff.mp h
    exact hall p (List.mem_of_find?_eq_some hp)

/-- Two files of one height, of which the first goes on after a sync. -/
def twoFiles : List WatchEvent :=
  let dir := ascii "00000005"
  let one := ascii "0000000000000001.sharelog"
  let two := ascii "0000000000000002.sharelog"
  [.netDiff 1000, .mkdir dir,
    .create dir one, .write dir one (shareText "0.2" "3" "1700000001" ++ [10]),
    .create dir two, .write dir two (shareText "0.1" "4" "1700000003" ++ [10]), .sync,
    .write dir one (shareText "0.3" "4" "1700000002" ++ [10])]

/-- One file, and a difficulty of the network that falls after a sync. -/
def fallenDiff : List WatchEvent :=
  let dir := ascii "00000005"
  let one := ascii "0000000000000001.sharelog"
  [.netDiff 1000, .mkdir dir,
    .create dir one, .write dir one (shareText "0.2" "3" "1700000001" ++ [10]),
    .sync, .netDiff 2]

/-- The sums of two files are seen to be added up in another order. -/
theorem two_files_summed :
    let s := run (Watch.step tableJson) Watch.start (twoFiles ++ [.sync])
    (∃ ds, ds.Perm (creditsOf (ascii "qq") (workCredits tableJson s.tree)) ∧
      s.st.work.sums.lookup (ascii "qq") = total ds) ∧
      SameBest (roundShares tableJson s.tree s.st) s.st.round.best
        (syncSharelogs tableJson s.tree (freshState s.st)).round.best := by
  have hall := sync_schedule tableJson twoFiles (by decide +kernel) (by decide +kernel)
  exact ⟨hall.1 _, hall.2.2.2.1⟩

/-- An index that was there for the first file is not equal to a fresh one: its sum is rounded
otherwise, and of two shares that tie it keeps the one that came first.  Neither is one that
judged a share by the difficulty of its time. -/
theorem schedule_is_seen :
    (∀ e ∈ twoFiles ++ fallenDiff, e.Named) ∧
      (let s := run (Watch.step tableJson) Watch.start (twoFiles ++ [.sync])
        let fresh := syncSharelogs tableJson s.tree (freshState s.st)
        s.st.work.sums ≠ fresh.work.sums ∧ s.st.round.best ≠ fresh.round.best) ∧
      (let s := run (Watch.step tableJson) Watch.start (fallenDiff ++ [.sync])
        let fresh := syncSharelogs tableJson s.tree (freshState s.st)
        s.st.round.best ≠ fresh.round.best) := by
  refine ⟨by decide +kernel, ⟨?_, ?_⟩, ?_⟩
  all_goals decide +kernel

end CashStratum.Cashtop
