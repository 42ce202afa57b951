/-
CashStratum/UserFiles.lean

The users directory (`stratifier.c`): what `statsupdate` writes of every user and its
workers, one file a user, and what `read_userstats` makes of the files at the next
start.

A user goes by its key, a worker by the name its miner sent.  The file is named after
the key; the reader skips file names with a separator in them, and workers whose name
does not contain the key.  `userfiles_roundtrip_iff` says when nothing is lost by that.

The file is a JSON document.  Its writer refuses a document with a string that is not
UTF-8, and any other comes back as it was; so a file here holds the document itself,
or nothing that can be read.  Hash rates, which are stored in three digits, and reasons,
which come from a table, are left out.  The path of a file is resolved by the file
system: a `UsersPath` says what is used of that.
-/
import CashStratum.Username
import CashStratum.DiffBounds
import CashStratum.KeyedList
import Mathlib.Data.List.Infix

namespace CashStratum

/-! ### Best shares -/

/-- `best_diff` and `best_ever`: the best share of the round, and the best of all, cut
to an integer. -/
structure BestDiff where
  bestDiff : ℚ
  bestEver : Int
deriving DecidableEq, Repr

namespace BestDiff

variable {best : BestDiff}

/-- What `record_best_diff` does to the best of a user or a worker: a share that meets
the network difficulty is not the best of a round. -/
def record (best : BestDiff) (sdiff : ℚ) (isBlock : Bool) : BestDiff where
  bestDiff := if !isBlock ∧ sdiff > best.bestDiff then sdiff else best.bestDiff
  bestEver := if sdiff > best.bestEver then truncate sdiff else best.bestEver

/-- `reset_bestshares` -/
def reset (best : BestDiff) : BestDiff := { best with bestDiff := 0 }

/-- What `read_userstats` makes of the two values of a file. -/
def read (bestshare : ℚ) (bestever : Int) : BestDiff where
  bestDiff := bestshare
  bestEver := if bestshare > bestever then truncate bestshare else bestever

/-- The best of a round is one of the best ever. -/
structure Ordered (best : BestDiff) : Prop where
  nonneg : 0 ≤ best.bestEver
  le_ever : truncate best.bestDiff ≤ best.bestEver

theorem le_truncate {x : ℚ} {n : Int} (h : n < x) : n ≤ truncate x := by
  rw [truncate]
  split_ifs
  · exact Int.le_floor.mpr h.le
  · exact_mod_cast (h.trans_le (Int.le_ceil x)).le

theorem Ordered.record (h : Ordered best) (sdiff : ℚ) (isBlock : Bool) :
    Ordered (best.record sdiff isBlock) := by
  constructor
  · rw [BestDiff.record]
    dsimp only
    split_ifs with hover
    · exact le_trans h.nonneg (le_truncate hover)
    · exact h.nonneg
  · rw [BestDiff.record]
    dsimp only
    split_ifs with hround hover hover
    · exact le_refl _
    · exact truncate_le (not_lt.mp hover)
    · exact le_trans h.le_ever (le_truncate hover)
    · exact h.le_ever

theorem Ordered.reset (h : Ordered best) : Ordered best.reset := by
  refine ⟨h.nonneg, truncate_le ?_⟩
  show (0 : ℚ) ≤ best.bestEver
  exact_mod_cast h.nonneg

/-- **A best that is written is read back.** -/
theorem Ordered.read_eq (h : Ordered best) : read best.bestDiff best.bestEver = best := by
  rw [read]
  split_ifs with hover
  · have heq : truncate best.bestDiff = best.bestEver := le_antisymm h.le_ever (le_truncate hover)
    rw [heq]
  · rfl

end BestDiff

/-! ### Users and workers -/

/-- The counters of `reject_stats_t` that are kept. -/
structure RejectStats where
  rejected : Int
  count : Int
  buckets : List Int
  lastReject : Int
deriving DecidableEq, Repr

/-- A worker. -/
structure WorkerStats where
  workername : Bytes
  lastShare : Tv
  shares : Int
  best : BestDiff
  rstats : RejectStats
  connects : Int
  disconnects : Int
  lastDisconnect : Int

/-- A user, whose key is kept in an array of 128. -/
structure UserStats where
  username : Bytes
  username_le : username.length ≤ 127
  authorised : Bool
  authTime : Int
  lastShare : Tv
  shares : Int
  roundShares : Int
  best : BestDiff
  rstats : RejectStats
  workers : List WorkerStats

/-- The users, by key.  A worker is filed once, under the key of its name. -/
structure UserTable (chain : Chain) where
  users : List UserStats
  nodup : (users.map UserStats.username).Nodup
  workers_nodup : ∀ u ∈ users, (u.workers.map WorkerStats.workername).Nodup
  best : ∀ u ∈ users, u.best.Ordered ∧ ∀ w ∈ u.workers, w.best.Ordered
  filed : ∀ u ∈ users, ∀ w ∈ u.workers, generateUserKey chain w.workername = some u.username

/-! ### Files -/

/-- The entry of a worker in the file of its user. -/
structure WorkerEntry where
  workername : Bytes
  lastshare : Int
  shares : Int
  bestshare : ℚ
  bestever : Int
  rejects : RejectStats
  connects : Int
  disconnects : Int
  lastdisconnect : Int
deriving DecidableEq, Repr

/-- The document of a user. -/
structure UserFile where
  lastshare : Int
  shares : Int
  roundshares : Int
  bestshare : ℚ
  bestever : Int
  authorised : Int
  rejects : RejectStats
  worker : List WorkerEntry
deriving DecidableEq, Repr

/-- The UTF-8 of the JSON writer: sequences of one to four bytes, no longer than they
have to be, and no surrogates. -/
def validUtf8 : Bytes → Bool
  | [] => true
  | b0 :: rest =>
    if b0 &&& 0x80 = 0 then validUtf8 rest
    else
      match rest with
      | [] => false
      | b1 :: rest =>
        if b0 &&& 0xE0 = 0xC0 ∧ b1 &&& 0xC0 = 0x80 then
          b0 &&& 0x1E ≠ 0 && validUtf8 rest
        else
          match rest with
          | [] => false
          | b2 :: rest =>
            if b0 &&& 0xF0 = 0xE0 ∧ b1 &&& 0xC0 = 0x80 ∧ b2 &&& 0xC0 = 0x80 then
              (b0 &&& 0x0F, b1 &&& 0x20) ≠ (0, 0) &&
                (b0 &&& 0x0F, b1 &&& 0x20) ≠ (0x0D, 0x20) && validUtf8 rest
            else
              match rest with
              | [] => false
              | b3 :: rest =>
                (b0 &&& 0xF8 = 0xF0 ∧ b1 &&& 0xC0 = 0x80 ∧ b2 &&& 0xC0 = 0x80 ∧
                    b3 &&& 0xC0 = 0x80) &&
                  (b0 &&& 0x07, b1 &&& 0x30) ≠ (0, 0) &&
                  (b0 &&& 0x04 = 0 ∨ (b0 &&& 0x03, b1 &&& 0x30) = (0, 0)) && validUtf8 rest

/-- `tvdiff` in microseconds. -/
def tvdiff (finish start : Tv) : Int :=
  (finish.sec - start.sec) * 1000000 + (finish.usec - start.usec)

namespace WorkerStats

variable (w : WorkerStats)

/-- Workers idle for a week are not stored. -/
def isStored (now : Tv) : Bool :=
  ¬(tvdiff now w.lastShare > 600000 * 1000000 ∧ now.sec - w.rstats.lastReject > 600000)

/-- The entry of a worker. -/
def entry : WorkerEntry where
  workername := w.workername
  lastshare := w.lastShare.sec
  shares := w.shares
  bestshare := w.best.bestDiff
  bestever := w.best.bestEver
  rejects := w.rstats
  connects := w.connects
  disconnects := w.disconnects
  lastdisconnect := w.lastDisconnect

end WorkerStats

namespace UserStats

variable (u : UserStats)

/-- Users that never authorised, or have neither shares nor rejects, are not stored. -/
def isStored : Bool := u.authorised ∧ ¬(u.lastShare.sec = 0 ∧ u.rstats.lastReject = 0)

/-- The workers that are. -/
def storedWorkers (now : Tv) : List WorkerStats := u.workers.filter fun w => w.isStored now

/-- What is written to the file of a user, if it is a document. -/
def file (now : Tv) : Option UserFile :=
  if (u.storedWorkers now).all fun w => validUtf8 w.workername then
    some
      { lastshare := u.lastShare.sec
        shares := u.shares
        roundshares := u.roundShares
        bestshare := u.best.bestDiff
        bestever := u.best.bestEver
        authorised := u.authTime
        rejects := u.rstats
        worker := (u.storedWorkers now).map WorkerStats.entry }
  else none

end UserStats

/-- A name that is a file of its own in a directory. -/
def PlainName (name : Bytes) : Prop := name ≠ [] ∧ 47 ∉ name ∧ name ≠ [46] ∧ name ≠ [46, 46]

instance : DecidablePred PlainName := fun _ => inferInstanceAs (Decidable (_ ∧ _))

/-- The file system: which file of the users directory the path `users/<name>` is, if
it is one that can be written there. -/
structure UsersPath where
  resolve : Bytes → Option Bytes
  resolve_plain : ∀ name, PlainName name → resolve name = some name
  resolve_entry : ∀ name file, resolve name = some file → PlainName file ∧ file.length ≤ name.length

/-- The users directory: a file has one name, and the pool wrote it for a key. -/
structure UsersDir where
  entries : List (Bytes × Option UserFile)
  nodup : (entries.map Prod.fst).Nodup
  plain : ∀ entry ∈ entries, PlainName entry.1 ∧ entry.1.length ≤ 127

namespace UsersDir

variable (dir : UsersDir)

/-- What a file holds. -/
def lookup (name : Bytes) : Option (Option UserFile) :=
  (dir.entries.find? fun entry => entry.1 = name).map Prod.snd

/-- `fopen` for writing, and the content. -/
def fwrite (name : Bytes) (content : Option UserFile) (hname : PlainName name ∧ name.length ≤ 127) :
    UsersDir where
  entries := (name, content) :: dir.entries.filter fun entry => entry.1 ≠ name
  nodup := by
    rw [List.map_cons, List.nodup_cons]
    refine ⟨fun hmem => ?_, dir.nodup.sublist (List.filter_sublist.map _)⟩
    obtain ⟨entry, hentry, heq⟩ := List.mem_map.mp hmem
    exact (of_decide_eq_true (List.mem_filter.mp hentry).2) heq
  plain := by
    intro entry hentry
    rcases List.mem_cons.mp hentry with rfl | hold
    · exact hname
    · exact dir.plain entry (List.mem_of_mem_filter hold)

theorem lookup_fwrite (name other : Bytes) (content : Option UserFile)
    (hname : PlainName name ∧ name.length ≤ 127) :
    (dir.fwrite name content hname).lookup other =
      if name = other then some content else dir.lookup other := by
  rw [lookup, lookup, fwrite]
  dsimp only
  by_cases heq : name = other
  · rw [if_pos heq, List.find?_cons_of_pos (by simpa using heq)]
    rfl
  · rw [if_neg heq, List.find?_cons_of_neg (by simpa using heq), List.find?_filter]
    have hsame : (fun entry : Bytes × Option UserFile =>
        decide (decide (entry.1 ≠ name) = true ∧ decide (entry.1 = other) = true)) =
          fun entry => decide (entry.1 = other) := by
      funext entry
      by_cases hother : entry.1 = other
      · simp [hother, Ne.symm heq]
      · simp [hother]
    rw [hsame]

theorem lookup_eq_some_iff (name : Bytes) (content : Option UserFile) :
    dir.lookup name = some content ↔ (name, content) ∈ dir.entries := by
  rw [lookup, Option.map_eq_some_iff]
  constructor
  · rintro ⟨entry, hfind, rfl⟩
    obtain ⟨hmem, rfl⟩ := (find?_key_eq_some_iff dir.nodup).mp hfind
    exact hmem
  · intro hmem
    exact ⟨(name, content), (find?_key_eq_some_iff dir.nodup).mpr ⟨hmem, rfl⟩, rfl⟩

end UsersDir

/-! ### Writing -/

/-- One user in the loop of `statsupdate`.  A path that is no file of the directory
cannot be opened, or leads elsewhere. -/
def UsersDir.writeUser (fs : UsersPath) (now : Tv) (dir : UsersDir) (u : UserStats) : UsersDir :=
  if u.isStored then
    match h : fs.resolve u.username with
    | none => dir
    | some name =>
      have hentry := fs.resolve_entry u.username name h
      dir.fwrite name (u.file now) ⟨hentry.1, le_trans hentry.2 u.username_le⟩
  else dir

/-- The status cycle writes the users one after the other. -/
def UserTable.write {chain : Chain} (table : UserTable chain) (fs : UsersPath) (now : Tv)
    (dir : UsersDir) : UsersDir :=
  table.users.foldl (UsersDir.writeUser fs now) dir

/-! ### Reading -/

/-- `strstr` finds something. -/
def strstr (haystack needle : Bytes) : Bool := haystack.tails.any fun t => needle.isPrefixOf t

/-- A loop that creates an entry for each usable item, unless there is one of its key. -/
def readNew {α β : Type*} (usable : α → Bool) (make : α → β) (key : β → Bytes) (items : List α) :
    List β :=
  items.foldl
    (fun made item =>
      if usable item ∧ (made.all fun old => key old ≠ key (make item)) then made ++ [make item]
      else made) []

/-- The worker of an entry. -/
def readWorker (e : WorkerEntry) : WorkerStats where
  workername := e.workername
  lastShare := { sec := e.lastshare, usec := 0 }
  shares := e.shares
  best := BestDiff.read e.bestshare e.bestever
  rstats := e.rejects
  connects := e.connects
  disconnects := e.disconnects
  lastDisconnect := e.lastdisconnect

/-- The inner loop of `read_userstats`. -/
def readWorkers (username : Bytes) (entries : List WorkerEntry) : List WorkerStats :=
  readNew (fun e => e.workername ≠ [] ∧ strstr e.workername username) readWorker
    WorkerStats.workername entries

theorem length_userKey_le (username : Bytes) : (userKey username).length ≤ 127 := by
  rw [userKey]
  split_ifs
  · exact List.length_take_le _ _
  · omega

/-- `__create_user` -/
def createUser (username : Bytes) : UserStats where
  username := userKey username
  username_le := length_userKey_le username
  authorised := false
  authTime := 0
  lastShare := { sec := 0, usec := 0 }
  shares := 0
  roundShares := 0
  best := { bestDiff := 0, bestEver := 0 }
  rstats := { rejected := 0, count := 0, buckets := List.replicate 7 0, lastReject := 0 }
  workers := []

/-- The user of a file. -/
def readUser (now : Tv) (entry : Bytes × Option UserFile) : UserStats :=
  match entry.2 with
  | none => createUser entry.1
  | some file =>
    { createUser entry.1 with
      authTime := file.authorised
      lastShare := { sec := file.lastshare, usec := now.usec }
      shares := file.shares
      roundShares := file.roundshares
      best := BestDiff.read file.bestshare file.bestever
      rstats := file.rejects
      workers := readWorkers entry.1 file.worker }

/-- `read_userstats`, on the files in the order of `readdir`. -/
def readUserstats (now : Tv) (listing : List (Bytes × Option UserFile)) : List UserStats :=
  readNew (fun entry => !entry.1.any isSeparator) (readUser now) UserStats.username listing

/-! ### The round trip -/

variable {chain : Chain} {fs : UsersPath} {now : Tv}

theorem strstr_eq_true_iff (haystack needle : Bytes) :
    strstr haystack needle = true ↔ needle <:+: haystack := by
  rw [strstr, List.any_eq_true]
  constructor
  · rintro ⟨t, ht, hpre⟩
    exact (List.isPrefixOf_iff_prefix.mp hpre).isInfix.trans ((List.mem_tails _ _).mp ht).isInfix
  · intro hinfix
    obtain ⟨t, hpre, hsuf⟩ := List.infix_iff_prefix_suffix.mp hinfix
    exact ⟨t, (List.mem_tails _ _).mpr hsuf, List.isPrefixOf_iff_prefix.mpr hpre⟩

/-- Items of different keys are all kept. -/
theorem readNew_eq {α β : Type*} (usable : α → Bool) (make : α → β) (key : β → Bytes)
    {items : List α} (hnodup : (items.map fun item => key (make item)).Nodup) :
    readNew usable make key items = (items.filter usable).map make := by
  induction items using List.reverseRecOn with
  | nil => rfl
  | append_singleton items item ih =>
    rw [List.map_append, List.nodup_append] at hnodup
    obtain ⟨hold, -, hnew⟩ := hnodup
    have ih := ih hold
    rw [readNew] at ih ⊢
    rw [List.foldl_append, ih, List.filter_append, List.map_append]
    have hfresh : ((items.filter usable).map make).all (fun old => key old ≠ key (make item)) := by
      rw [List.all_eq_true]
      intro old hmem
      obtain ⟨item', hmem', rfl⟩ := List.mem_map.mp hmem
      have hne := hnew _ (List.mem_map.mpr ⟨item', List.mem_of_mem_filter hmem', rfl⟩) _
        (List.mem_singleton_self _)
      exact decide_eq_true hne
    rw [List.foldl_cons, List.foldl_nil]
    cases hok : usable item with
    | true =>
      rw [if_pos ⟨rfl, hfresh⟩, List.filter_cons_of_pos hok]
      rfl
    | false =>
      rw [if_neg (fun h => Bool.false_ne_true h.1), List.filter_cons_of_neg (by simp [hok])]
      exact (List.append_nil _).symm

/-- The users whose path is a file of the directory, in the order they are written. -/
def UserTable.writers (table : UserTable chain) (fs : UsersPath) (name : Bytes) : List UserStats :=
  table.users.filter fun v => v.isStored ∧ fs.resolve v.username = some name

theorem lookup_writeUser (dir : UsersDir) (u : UserStats) (name : Bytes) :
    (dir.writeUser fs now u).lookup name =
      if u.isStored ∧ fs.resolve u.username = some name then some (u.file now)
      else dir.lookup name := by
  rw [UsersDir.writeUser]
  by_cases hstored : u.isStored
  · rw [if_pos hstored]
    split
    · rename_i hnone
      rw [if_neg]
      rintro ⟨-, hsome⟩
      rw [hnone] at hsome
      cases hsome
    · rename_i file hfile
      rw [UsersDir.lookup_fwrite, hfile]
      simp [hstored]
  · rw [if_neg hstored, if_neg fun h => hstored h.1]

/-- **What a file holds** is what the last user wrote whose path it is. -/
theorem lookup_write (table : UserTable chain) (dir : UsersDir) (name : Bytes) :
    (table.write fs now dir).lookup name =
      match (table.writers fs name).getLast? with
      | some v => some (v.file now)
      | none => dir.lookup name := by
  rw [UserTable.write, UserTable.writers]
  induction table.users using List.reverseRecOn with
  | nil => rfl
  | append_singleton users u ih =>
    rw [List.foldl_append, List.filter_append, List.getLast?_append]
    show (UsersDir.writeUser fs now _ u).lookup name = _
    rw [lookup_writeUser, ih]
    by_cases hwrites : u.isStored ∧ fs.resolve u.username = some name
    · rw [if_pos hwrites, List.filter_cons_of_pos (by simpa using hwrites)]
      rfl
    · rw [if_neg hwrites, List.filter_cons_of_neg (by simpa using hwrites)]
      rfl

/-! ### What is read -/

/-- The users that are written, with their workers that are. -/
def UserTable.Written (table : UserTable chain) (now : Tv) (u : UserStats) (w : WorkerStats) : Prop :=
  u ∈ table.users ∧ u.isStored ∧ w ∈ u.storedWorkers now

/-- A worker is there again, under the same user, with the same best difficulties and
share counts. -/
def Restored (users : List UserStats) (u : UserStats) (w : WorkerStats) : Prop :=
  ∃ u' ∈ users, u'.username = u.username ∧ u'.shares = u.shares ∧
    u'.roundShares = u.roundShares ∧ u'.best = u.best ∧
    ∃ w' ∈ u'.workers, w'.workername = w.workername ∧ w'.shares = w.shares ∧ w'.best = w.best

/-- What it takes: the key of the user has no separator; its path is a file of the users
directory, and the last user written there is this one; its file is a document; and the
name of the worker contains the key. -/
structure UserTable.ReadsBack (table : UserTable chain) (fs : UsersPath) (now : Tv)
    (u : UserStats) (w : WorkerStats) : Prop where
  key : ¬u.username.any isSeparator
  path : (table.writers fs u.username).getLast? = some u
  utf8 : ∀ w' ∈ u.storedWorkers now, validUtf8 w'.workername
  names : u.username <:+: w.workername

theorem readUser_username (now : Tv) (entry : Bytes × Option UserFile) :
    (readUser now entry).username = userKey entry.1 := by
  rw [readUser]
  split <;> rfl

theorem userKey_of_length {name : Bytes} (h : name.length ≤ 127) : userKey name = name := by
  rw [userKey, if_neg (by omega)]

/-- **The users that are read**, whatever the order of the directory. -/
theorem mem_readUserstats {dir : UsersDir} {listing : List (Bytes × Option UserFile)}
    (hlisting : listing.Perm dir.entries) (now : Tv) (u : UserStats) :
    u ∈ readUserstats now listing ↔
      ∃ name content, dir.lookup name = some content ∧ ¬name.any isSeparator ∧
        readUser now (name, content) = u := by
  have hkey : ∀ entry ∈ listing, (readUser now entry).username = entry.1 := by
    intro entry hentry
    rw [readUser_username, userKey_of_length (dir.plain entry (hlisting.mem_iff.mp hentry)).2]
  have hnodup : (listing.map fun entry => (readUser now entry).username).Nodup := by
    rw [List.map_congr_left hkey]
    exact ((hlisting.map Prod.fst).nodup_iff).mpr dir.nodup
  rw [readUserstats, readNew_eq _ _ _ hnodup, List.mem_map]
  constructor
  · rintro ⟨⟨name, content⟩, hmem, hread⟩
    obtain ⟨hin, hok⟩ := List.mem_filter.mp hmem
    refine ⟨name, content, (dir.lookup_eq_some_iff _ _).mpr (hlisting.mem_iff.mp hin), ?_, hread⟩
    simpa using hok
  · rintro ⟨name, content, hlookup, hok, hread⟩
    refine ⟨(name, content), List.mem_filter.mpr ⟨?_, by simpa using hok⟩, hread⟩
    exact hlisting.mem_iff.mpr ((dir.lookup_eq_some_iff _ _).mp hlookup)

/-- **The workers that are read** of a document: those whose name contains the key. -/
theorem mem_readUser_workers {table : UserTable chain} {v : UserStats} (hv : v ∈ table.users)
    {file : UserFile} (hfile : v.file now = some file) (now' : Tv) (name : Bytes)
    (w' : WorkerStats) :
    w' ∈ (readUser now' (name, some file)).workers ↔
      ∃ w ∈ v.storedWorkers now, name <:+: w.workername ∧ readWorker w.entry = w' := by
  have hworker : file.worker = (v.storedWorkers now).map WorkerStats.entry := by
    rw [UserStats.file] at hfile
    split_ifs at hfile
    rw [← Option.some.inj hfile]
  have hsub : (v.storedWorkers now).Sublist v.workers := List.filter_sublist
  have hnodup : (file.worker.map fun e => (readWorker e).workername).Nodup := by
    rw [hworker, List.map_map]
    exact (table.workers_nodup v hv).sublist (hsub.map _)
  have hne : ∀ w ∈ v.storedWorkers now, w.workername ≠ [] := by
    intro w hw hnil
    have hfiled := table.filed v hv w (hsub.subset hw)
    rw [hnil] at hfiled
    cases hfiled
  show w' ∈ readWorkers name file.worker ↔ _
  rw [readWorkers, readNew_eq _ _ _ hnodup, hworker, List.mem_map]
  constructor
  · rintro ⟨e, hmem, hread⟩
    obtain ⟨hin, hok⟩ := List.mem_filter.mp hmem
    obtain ⟨w, hw, rfl⟩ := List.mem_map.mp hin
    exact ⟨w, hw, (strstr_eq_true_iff _ _).mp (of_decide_eq_true hok).2, hread⟩
  · rintro ⟨w, hw, hinfix, hread⟩
    refine ⟨w.entry, List.mem_filter.mpr ⟨List.mem_map_of_mem hw, ?_⟩, hread⟩
    exact decide_eq_true ⟨hne w hw, (strstr_eq_true_iff _ _).mpr hinfix⟩

/-! ### The round trip -/

namespace UserTable

variable {table : UserTable chain} {u : UserStats} {w : WorkerStats} {dir : UsersDir}
  {listing : List (Bytes × Option UserFile)}

/-- The file of a user that owns it. -/
theorem lookup_own (hpath : (table.writers fs u.username).getLast? = some u) (dir : UsersDir) :
    (table.write fs now dir).lookup u.username = some (u.file now) := by
  rw [lookup_write, hpath]

/-- **Enough**: the worker is restored. -/
theorem ReadsBack.restored (h : table.ReadsBack fs now u w) (hw : table.Written now u w)
    (hlisting : listing.Perm (table.write fs now dir).entries) (now' : Tv) :
    Restored (readUserstats now' listing) u w := by
  obtain ⟨hu, -, hstored⟩ := hw
  have hdoc : ∃ file, u.file now = some file := by
    rw [UserStats.file, if_pos (List.all_eq_true.mpr h.utf8)]
    exact ⟨_, rfl⟩
  obtain ⟨file, hfile⟩ := hdoc
  have hread : readUser now' (u.username, some file) ∈ readUserstats now' listing := by
    refine (mem_readUserstats hlisting now' _).mpr ⟨u.username, some file, ?_, h.key, rfl⟩
    rw [lookup_own h.path, hfile]
  have hworker := (mem_readUser_workers hu hfile now' u.username _).mpr ⟨w, hstored, h.names, rfl⟩
  have hbest := table.best u hu
  have hmem : w ∈ u.workers := List.mem_of_mem_filter hstored
  rw [UserStats.file] at hfile
  split_ifs at hfile
  obtain rfl := Option.some.inj hfile
  refine ⟨_, hread, ?_, rfl, rfl, hbest.1.read_eq, _, hworker, rfl, rfl, (hbest.2 w hmem).read_eq⟩
  rw [readUser_username, userKey_of_length u.username_le]

/-- A worker is filed under one key. -/
theorem username_unique {v : UserStats} (hu : u ∈ table.users) (hv : v ∈ table.users)
    {w' : WorkerStats} (hw : w ∈ u.workers) (hw' : w' ∈ v.workers)
    (hname : w'.workername = w.workername) : v = u := by
  have hkey := table.filed v hv w' hw'
  rw [hname, table.filed u hu w hw] at hkey
  exact List.inj_on_of_nodup_map table.nodup hv hu (Option.some.inj hkey).symm

/-- **Needed**: a worker that is restored. -/
theorem Written.readsBack (hw : table.Written now u w)
    (hlisting : listing.Perm (table.write fs now dir).entries) {now' : Tv}
    (hrestored : Restored (readUserstats now' listing) u w) : table.ReadsBack fs now u w := by
  obtain ⟨hu, hustored, hstored⟩ := hw
  obtain ⟨u', hu', hname, -, -, -, w', hw', hwname, -⟩ := hrestored
  obtain ⟨name, content, hlookup, hkey, rfl⟩ := (mem_readUserstats hlisting now' u').mp hu'
  have hentry := ((table.write fs now dir).lookup_eq_some_iff _ _).mp hlookup
  obtain ⟨hplain, hlen⟩ := (table.write fs now dir).plain _ hentry
  rw [readUser_username, userKey_of_length hlen] at hname
  -- the file is the one of the key, and a user wrote it
  obtain rfl : name = u.username := hname
  have hwriter : u ∈ table.writers fs u.username :=
    List.mem_filter.mpr ⟨hu, decide_eq_true ⟨hustored, fs.resolve_plain _ hplain⟩⟩
  rw [lookup_write] at hlookup
  cases hlast : (table.writers fs u.username).getLast? with
  | none =>
    rw [List.getLast?_eq_none_iff.mp hlast] at hwriter
    cases hwriter
  | some v =>
    rw [hlast] at hlookup
    have hcontent : v.file now = content := Option.some.inj hlookup
    have hv : v ∈ table.users := List.mem_of_mem_filter (List.mem_of_getLast? hlast)
    cases content with
    | none => cases hw'
    | some file =>
      obtain ⟨w'', hw'', hinfix, rfl⟩ := (mem_readUser_workers hv hcontent now' _ _).mp hw'
      -- it is this one, since no other has a worker of that name
      obtain rfl := username_unique hu hv (List.mem_of_mem_filter hstored)
        (List.mem_of_mem_filter hw'') hwname
      have hname : w''.workername = w.workername := hwname
      refine ⟨hkey, hlast, ?_, hname ▸ hinfix⟩
      rw [UserStats.file] at hcontent
      split_ifs at hcontent with hall
      exact List.all_eq_true.mp hall

/-- **Every worker that is written is restored** exactly when the keys have no
separator, each file is the user's own and a document, and each worker's name contains
the key. -/
theorem userfiles_roundtrip_iff (table : UserTable chain) (fs : UsersPath) (dir : UsersDir)
    (now now' : Tv) (listing : List (Bytes × Option UserFile))
    (hlisting : listing.Perm (table.write fs now dir).entries) :
    (∀ u w, table.Written now u w → Restored (readUserstats now' listing) u w) ↔
      ∀ u w, table.Written now u w → table.ReadsBack fs now u w := by
  constructor
  · intro hall u w hw
    exact hw.readsBack hlisting (hall u w hw)
  · intro hall u w hw
    exact (hall u w hw).restored hw hlisting now'

/-! ### Names and keys -/

/-- In a table whose keys are all plain names every file is the user's own. -/
theorem own_of_plain (hplain : ∀ v ∈ table.users, PlainName v.username) (hu : u ∈ table.users)
    (hstored : u.isStored) : (table.writers fs u.username).getLast? = some u := by
  have hown : u ∈ table.writers fs u.username :=
    List.mem_filter.mpr ⟨hu, decide_eq_true ⟨hstored, fs.resolve_plain _ (hplain u hu)⟩⟩
  cases hlast : (table.writers fs u.username).getLast? with
  | none =>
    rw [List.getLast?_eq_none_iff.mp hlast] at hown
    cases hown
  | some v =>
    obtain ⟨hv, hwrites⟩ := List.mem_filter.mp (List.mem_of_getLast? hlast)
    have hresolve := (of_decide_eq_true hwrites).2
    rw [fs.resolve_plain _ (hplain v hv)] at hresolve
    rw [List.inj_on_of_nodup_map table.nodup hv hu (Option.some.inj hresolve)]

end UserTable

/-! ### Two miners of one address -/

/-- A file system without links: a name that is none of a file cannot be opened. -/
def plainPath : UsersPath where
  resolve name := if PlainName name then some name else none
  resolve_plain name h := if_pos h
  resolve_entry name file h := by
    split_ifs at h with hplain
    obtain rfl := Option.some.inj h
    exact ⟨hplain, le_refl _⟩

/-- The directory of a new pool. -/
def emptyDir : UsersDir where
  entries := []
  nodup := List.nodup_nil
  plain := fun _ h => absurd h List.not_mem_nil

/-- The address of the zero hash without its prefix, and the key of its user. -/
def zeroAddress : Bytes := List.replicate 34 113 ++ [102, 110, 104, 107, 115, 54, 48, 51]

def zeroKey : Bytes := bitcoincash.chars ++ 58 :: zeroAddress

/-- A best share of difficulty 8.5. -/
def exampleBest : BestDiff where
  bestDiff := 17 / 2
  bestEver := 8

theorem exampleBest_ordered : exampleBest.Ordered := ⟨by decide, by decide +kernel⟩

/-- A worker of that user. -/
def exampleWorker (name : Bytes) : WorkerStats where
  workername := name
  lastShare := { sec := 100, usec := 0 }
  shares := 42
  best := exampleBest
  rstats := { rejected := 0, count := 0, buckets := List.replicate 7 0, lastReject := 0 }
  connects := 1
  disconnects := 0
  lastDisconnect := 0

/-- The user, with one worker. -/
def exampleUser (name : Bytes) : UserStats where
  username := zeroKey
  username_le := by decide
  authorised := true
  authTime := 90
  lastShare := { sec := 100, usec := 0 }
  shares := 42
  roundShares := 42
  best := exampleBest
  rstats := { rejected := 0, count := 0, buckets := List.replicate 7 0, lastReject := 0 }
  workers := [exampleWorker name]

/-- A pool with this user only. -/
def exampleTable (name : Bytes) (hname : generateUserKey .main name = some zeroKey) :
    UserTable .main where
  users := [exampleUser name]
  nodup := List.nodup_singleton _
  workers_nodup u hu := by
    rw [List.mem_singleton.mp hu]
    exact List.nodup_singleton _
  best u hu := by
    rw [List.mem_singleton.mp hu]
    refine ⟨exampleBest_ordered, fun w hw => ?_⟩
    rw [List.mem_singleton.mp hw]
    exact exampleBest_ordered
  filed u hu w hw := by
    obtain rfl := List.mem_singleton.mp hu
    obtain rfl := List.mem_singleton.mp hw
    exact hname

namespace UserTable

/-- The worker name "bitcoincash:qq...fnhks603.r". -/
theorem prefixed_name_filed : generateUserKey .main (zeroKey ++ [46, 114]) = some zeroKey := by
  decide +kernel

/-- The worker name "qq...fnhks603.r". -/
theorem bare_name_filed : generateUserKey .main (zeroAddress ++ [46, 114]) = some zeroKey := by
  decide +kernel

theorem userfiles_roundtrip_prefixed :
    let table := exampleTable (zeroKey ++ [46, 114]) prefixed_name_filed
    ∀ u w, table.Written ⟨200, 0⟩ u w →
      Restored (readUserstats ⟨300, 0⟩ (table.write plainPath ⟨200, 0⟩ emptyDir).entries) u w := by
  intro table
  refine (userfiles_roundtrip_iff table plainPath emptyDir ⟨200, 0⟩ ⟨300, 0⟩ _ (.refl _)).mpr ?_
  rintro u w ⟨hu, hstored, hw⟩
  obtain rfl := List.mem_singleton.mp hu
  have hplain : ∀ v ∈ table.users, PlainName v.username := by
    intro v hv
    rw [List.mem_singleton.mp hv]
    decide
  have hworker : ∀ w' ∈ (exampleUser (zeroKey ++ [46, 114])).storedWorkers ⟨200, 0⟩,
      w' = exampleWorker (zeroKey ++ [46, 114]) :=
    fun w' hw' => List.mem_singleton.mp (List.mem_of_mem_filter hw')
  refine ⟨by decide, own_of_plain hplain hu hstored, ?_, ?_⟩
  · intro w' hw'
    rw [hworker w' hw']
    decide
  · rw [hworker w hw]
    exact (List.prefix_append zeroKey [46, 114]).isInfix

/-- **The worker of a bare CashAddr is lost**: it is in the file, and skipped by the
reader, since "qq...fnhks603.r" does not contain "bitcoincash:qq...fnhks603". -/
theorem bare_worker_is_lost :
    let table := exampleTable (zeroAddress ++ [46, 114]) bare_name_filed
    let u := exampleUser (zeroAddress ++ [46, 114])
    let w := exampleWorker (zeroAddress ++ [46, 114])
    table.Written ⟨200, 0⟩ u w ∧
      ¬Restored (readUserstats ⟨300, 0⟩ (table.write plainPath ⟨200, 0⟩ emptyDir).entries) u w := by
  intro table u w
  have hw : table.Written ⟨200, 0⟩ u w := by
    refine ⟨List.mem_singleton_self _, by decide, List.mem_filter.mpr ⟨List.mem_singleton_self _, ?_⟩⟩
    decide
  refine ⟨hw, fun hrestored => ?_⟩
  have hinfix := (hw.readsBack (.refl _) hrestored).names
  revert hinfix
  decide

end UserTable

end CashStratum
