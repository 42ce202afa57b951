/-
CashStratum/HsLimit.lean

The limits on SV2 handshakes (`sv2_handshake_try_reserve` of `sv2_conn.c`).

An address has a bucket in a table with open addressing, which counts what it was granted in its
window of a minute; a bucket that has been idle for two minutes may be taken over by another
address.  A connection that was granted a handshake holds one of the global slots until the
handshake is complete or the connection is gone.

The world keeps a log of the grants, each with the window of its bucket, which no code reads:
`Limited` says how the buckets relate to it.  The windows of an address are at least a minute
apart, across takeovers too, so a minute meets two of them at most (`countP_minute`).
-/
import CashStratum.CText
import CashStratum.ProbeTable
import CashStratum.Run
import Mathlib.Data.Int.Interval

namespace CashStratum

open Function

/-! ### The table -/

/-- `SV2_HS_BUCKETS` -/
def sv2HsBuckets : Nat := 512

/-- `SV2_HS_MAX_PER_MIN` -/
def sv2HsMaxPerMin : Nat := 30

/-- `SV2_HS_MAX_GLOBAL` -/
def sv2HsMaxGlobal : Nat := 256

/-- `SV2_HS_WINDOW_SECS` -/
def sv2HsWindowSecs : Int := 60

/-- `SV2_HS_BUCKET_TTL` -/
def sv2HsBucketTtl : Int := 120

/-- The name of an address: a C string that fits the field of a bucket, as `address_name` of a
client does. -/
structure HsAddr where
  name : Bytes
  fits : name.length < 64
  noNul : 0 ∉ name
deriving DecidableEq

/-- A bucket in use (`struct sv2_hs_bucket`). -/
structure HsBucket where
  addr : HsAddr
  windowStart : Int
  count : Nat

abbrev HsSlot := Fin sv2HsBuckets

instance : NeZero sv2HsBuckets := ⟨by decide⟩

/-- `hs_hash` -/
def hsHash (addr : HsAddr) : Nat :=
  addr.name.foldl (fun h c => (h * 2 ^ 5 + h + c.toNat) % 2 ^ 32) 5381 % sv2HsBuckets

/-- The slots that `hs_lookup` goes through. -/
def hsProbes (addr : HsAddr) : List HsSlot :=
  (List.range sv2HsBuckets).map fun i => Fin.ofNat sv2HsBuckets (hsHash addr + i)

/-- `hs_bucket_stale` -/
def HsBucket.stale (now : Int) (b : HsBucket) : Bool := now ≥ b.windowStart + sv2HsBucketTtl

/-- `hs_lookup` -/
def hsLookup (table : HsSlot → Option HsBucket) (addr : HsAddr) (create : Bool) (now : Int) :
    ProbeResult HsSlot :=
  probe HsBucket.addr table addr create (HsBucket.stale now) (hsProbes addr) none

/-- The slot and the bucket that a reservation works with; a claimed one is new. -/
def hsBucketFor (table : HsSlot → Option HsBucket) (addr : HsAddr) (now : Int) :
    Option (HsSlot × HsBucket) :=
  match hsLookup table addr true now with
  | .absent => none
  | .found i => (table i).map fun b => (i, b)
  | .claim i => some (i, ⟨addr, now, 0⟩)

/-- The window starts anew when it is over. -/
def HsBucket.renew (now : Int) (b : HsBucket) : HsBucket :=
  if now ≥ b.windowStart + sv2HsWindowSecs then { b with windowStart := now, count := 0 } else b

/-! ### The connections -/

/-- Where an accepted client stands: with a reservation only, with a connection (whether its Noise
handshake is complete, and `hs_inflight`), or gone. -/
inductive HsPhase
  | reserved
  | live (complete hsInflight : Bool)
  | gone
deriving DecidableEq

/-- The handshake has been granted and is neither complete nor given up. -/
def HsPhase.inFlight : HsPhase → Bool
  | .reserved => true
  | .live complete _ => !complete
  | .gone => false

/-- A reservation that was granted, with the window of its bucket. -/
structure HsGrant where
  addr : HsAddr
  window : Int
  time : Int

structure HsWorld where
  table : HsSlot → Option HsBucket
  inflight : Nat
  now : Int
  conns : List HsPhase
  grants : List HsGrant

/-- What happens: a client is accepted from an address; what follows its reservation in
`accept_client` fails, or it gets its connection; bytes are fed to it, which the Noise layer
refuses or takes, with the handshake complete then or not; it is freed; time passes. -/
inductive HsEvent
  | reserve (addr : HsAddr)
  | refuse (i : Nat)
  | establish (i : Nat)
  | feed (i : Nat) (read : Option Bool)
  | free (i : Nat)
  | tick (secs : Nat)

namespace HsWorld

/-- `sv2_handshake_release` -/
def release (w : HsWorld) : HsWorld :=
  { w with inflight := if w.inflight > 0 then w.inflight - 1 else w.inflight }

/-- The bucket is written to its slot. -/
def store (w : HsWorld) (i : HsSlot) (b : HsBucket) : HsWorld :=
  { w with table := update w.table i (some b) }

/-- A handshake is granted from a bucket; the client has its reservation. -/
def grant (w : HsWorld) (i : HsSlot) (b : HsBucket) : HsWorld :=
  { (w.store i { b with count := b.count + 1 }) with
    inflight := w.inflight + 1
    conns := w.conns ++ [.reserved]
    grants := w.grants ++ [⟨b.addr, b.windowStart, w.now⟩] }

/-- `sv2_handshake_try_reserve` -/
def tryReserve (w : HsWorld) (addr : HsAddr) : HsWorld :=
  if addr.name = [] then w
  else if w.inflight ≥ sv2HsMaxGlobal then w
  else
    match hsBucketFor w.table addr w.now with
    | none => w
    | some (i, b) =>
      let b := b.renew w.now
      if b.count ≥ sv2HsMaxPerMin then w.store i b else w.grant i b

/-- Client `i` goes on to another phase. -/
def move (w : HsWorld) (i : Nat) (phase : HsPhase) : HsWorld :=
  { w with conns := w.conns.set i phase }

/-- One event; where its client does not stand there, nothing changes. -/
def step (w : HsWorld) : HsEvent → HsWorld
  | .reserve addr => w.tryReserve addr
  | .refuse i =>
    match w.conns[i]? with
    | some .reserved => (w.move i .gone).release
    | _ => w
  | .establish i =>
    match w.conns[i]? with
    | some .reserved => w.move i (.live false true)
    | _ => w
  | .feed i read =>
    match w.conns[i]? with
    | some (.live false hsInflight) =>
      -- `sv2_conn_feed` of a connection whose handshake is not complete
      match read with
      | none => w
      | some complete =>
        if complete && hsInflight then (w.move i (.live complete false)).release
        else w.move i (.live complete hsInflight)
    | _ => w
  | .free i =>
    match w.conns[i]? with
    | some (.live _ hsInflight) =>
      if hsInflight then (w.move i .gone).release else w.move i .gone
    | _ => w
  | .tick secs => { w with now := w.now + secs }

/-- Nothing has happened; the clock shows anything. -/
def init (now : Int) : HsWorld := ⟨fun _ => none, 0, now, [], []⟩

end HsWorld

/-! ### Counts of grants -/

/-- The grants of an address from one of its windows. -/
def grantsIn (grants : List HsGrant) (addr : HsAddr) (window : Int) : Nat :=
  grants.countP fun g => g.addr = addr ∧ g.window = window

/-- The grants of an address within a minute. -/
def grantsWithin (grants : List HsGrant) (addr : HsAddr) (time : Int) : Nat :=
  grants.countP fun g => g.addr = addr ∧ time ≤ g.time ∧ g.time ≤ time + 60

/-! ### The invariant -/

/-- Where a client has a connection, `hs_inflight` says that its handshake is not complete. -/
def HsPhase.Ok : HsPhase → Prop
  | .live complete hsInflight => hsInflight = !complete
  | _ => True

/-- What the log of grants says of an address whose current window starts there. -/
structure Current (grants : List HsGrant) (addr : HsAddr) (window : Int) (count : Nat) : Prop where
  count_eq : count = grantsIn grants addr window
  earlier : ∀ g ∈ grants, g.addr = addr →
    g.window = window ∨ g.window + sv2HsWindowSecs ≤ window

/-- The windows of the grants: each was granted in its window, no window has more than its share,
and two windows of an address are a minute apart. -/
structure Spaced (grants : List HsGrant) (now : Int) : Prop where
  inWindow : ∀ g ∈ grants, g.window ≤ g.time ∧ g.time < g.window + sv2HsWindowSecs
  past : ∀ g ∈ grants, g.time ≤ now
  apart : ∀ g ∈ grants, ∀ g' ∈ grants, g.addr = g'.addr →
    g.window = g'.window ∨ g.window + sv2HsWindowSecs ≤ g'.window ∨
      g'.window + sv2HsWindowSecs ≤ g.window
  atMost : ∀ addr window, grantsIn grants addr window ≤ sv2HsMaxPerMin

/-- The buckets beside the log of grants. -/
structure Buckets (table : HsSlot → Option HsBucket) (grants : List HsGrant) (now : Int) :
    Prop where
  chained : Chained HsBucket.addr hsProbes table
  current : ∀ i b, table i = some b → Current grants b.addr b.windowStart b.count
  started : ∀ i b, table i = some b → b.windowStart ≤ now
  forgotten : ∀ g ∈ grants, (∀ i b, table i = some b → b.addr ≠ g.addr) →
    g.window + sv2HsWindowSecs ≤ now

/-- The global slots are those of the clients whose handshake is in flight. -/
structure Slots (w : HsWorld) : Prop where
  inflight_eq : w.inflight = w.conns.countP HsPhase.inFlight
  inflight_le : w.inflight ≤ sv2HsMaxGlobal
  ok : ∀ phase ∈ w.conns, phase.Ok

structure HsWorld.Limited (w : HsWorld) : Prop where
  buckets : Buckets w.table w.grants w.now
  spaced : Spaced w.grants w.now
  slots : Slots w

/-! ### A reservation -/

section

variable {table : HsSlot → Option HsBucket} {grants : List HsGrant} {now : Int} {addr : HsAddr}
  {i : HsSlot} {b : HsBucket}

/-- An address whose grants are all from windows that are over is at the start of a window. -/
theorem current_now (h : ∀ g ∈ grants, g.addr = addr → g.window + sv2HsWindowSecs ≤ now) :
    Current grants addr now 0 where
  count_eq := by
    refine (List.countP_eq_zero.mpr ?_).symm
    intro g hg hmatch
    obtain ⟨haddr, hwindow⟩ := of_decide_eq_true hmatch
    have hover := h g hg haddr
    rw [sv2HsWindowSecs] at hover
    omega
  earlier g hg haddr := Or.inr (h g hg haddr)

/-- The bucket of a reservation, with its window renewed, is the current one of its address. -/
theorem Buckets.renew (h : Buckets table grants now)
    (hfor : hsBucketFor table addr now = some (i, b)) :
    (b.renew now).addr = addr ∧
      Current grants addr (b.renew now).windowStart (b.renew now).count ∧
      (b.renew now).windowStart ≤ now ∧ now < (b.renew now).windowStart + sv2HsWindowSecs := by
  -- a bucket whose window is over has only grants from windows that are over
  have hfacts : b.addr = addr ∧ Current grants addr b.windowStart b.count ∧
      b.windowStart ≤ now := by
    unfold hsBucketFor at hfor
    cases hlookup : hsLookup table addr true now with
    | absent =>
      rw [hlookup] at hfor
      cases hfor
    | found j =>
      rw [hlookup] at hfor
      obtain ⟨b', hb', hpair⟩ := Option.map_eq_some_iff.mp hfor
      obtain ⟨rfl, rfl⟩ := Prod.mk.inj hpair
      obtain ⟨b₀, hb₀, haddr⟩ := probe_eq_found hlookup
      obtain rfl := Option.some.inj (hb'.symm.trans hb₀)
      rw [← haddr]
      exact ⟨rfl, h.current _ _ hb', h.started _ _ hb'⟩
    | claim j =>
      rw [hlookup] at hfor
      obtain ⟨rfl, rfl⟩ := Prod.mk.inj (Option.some.inj hfor)
      refine ⟨rfl, current_now ?_, le_refl now⟩
      intro g hg haddr
      refine h.forgotten g hg ?_
      intro j b' hb' hsame
      have hfound := h.chained.probe hb' (hsame.trans haddr) true (HsBucket.stale now)
      rw [show hsLookup table addr true now = .found j from hfound] at hlookup
      cases hlookup
  obtain ⟨haddr, hcurrent, hstarted⟩ := hfacts
  unfold HsBucket.renew
  by_cases hover : now ≥ b.windowStart + sv2HsWindowSecs
  · rw [if_pos hover]
    refine ⟨haddr, current_now ?_, le_refl now, ?_⟩
    · intro g hg hgaddr
      rcases hcurrent.earlier g hg hgaddr with heq | hle
      · rw [heq]
        exact hover
      · have hsecs : (0 : Int) ≤ sv2HsWindowSecs := by decide
        show g.window + sv2HsWindowSecs ≤ now
        omega
    · have hsecs : (0 : Int) < sv2HsWindowSecs := by decide
      dsimp only
      omega
  · rw [if_neg hover]
    exact ⟨haddr, hcurrent, hstarted, by omega⟩

/-- The slot of a reservation keeps the table in order, and no address loses a bucket there whose
window is not long over. -/
theorem Buckets.slot (h : Buckets table grants now)
    (hfor : hsBucketFor table addr now = some (i, b)) :
    (∀ b' : HsBucket, b'.addr = addr →
      Chained HsBucket.addr hsProbes (update table i (some b'))) ∧
    ∀ b₀, table i = some b₀ → b₀.addr ≠ addr → b₀.windowStart + sv2HsBucketTtl ≤ now := by
  unfold hsBucketFor at hfor
  cases hlookup : hsLookup table addr true now with
  | absent =>
    rw [hlookup] at hfor
    cases hfor
  | found j =>
    rw [hlookup] at hfor
    obtain ⟨b', hb', hpair⟩ := Option.map_eq_some_iff.mp hfor
    obtain ⟨rfl, rfl⟩ := Prod.mk.inj hpair
    obtain ⟨b₀, hb₀, haddr⟩ := probe_eq_found hlookup
    refine ⟨?_, ?_⟩
    · intro b₁ hb₁
      exact h.chained.write hb₀ (hb₁.trans haddr.symm)
    · intro b₁ hb₁ hne
      rw [Option.some.inj (hb₁.symm.trans hb₀)] at hne
      exact absurd haddr hne
  | claim j =>
    rw [hlookup] at hfor
    obtain ⟨rfl, -⟩ := Prod.mk.inj (Option.some.inj hfor)
    refine ⟨?_, ?_⟩
    · intro b₁ hb₁
      have hprobe : probe HsBucket.addr table addr true (HsBucket.stale now) (hsProbes addr)
          none = .claim j := hlookup
      exact h.chained.claim hprobe hb₁
    · intro b₀ hb₀ _
      obtain ⟨hslot, -⟩ := claim_slot hlookup
      rcases hslot with hnone | ⟨b₁, hb₁, hstale⟩
      · rw [hnone] at hb₀
        cases hb₀
      · rw [Option.some.inj (hb₀.symm.trans hb₁)]
        exact of_decide_eq_true hstale

/-- The bucket of a reservation is written back. -/
theorem Buckets.store (h : Buckets table grants now)
    (hfor : hsBucketFor table addr now = some (i, b)) {b' : HsBucket} (haddr : b'.addr = addr)
    (hcurrent : Current grants addr b'.windowStart b'.count) (hstarted : b'.windowStart ≤ now) :
    Buckets (update table i (some b')) grants now := by
  obtain ⟨hchained, hlost⟩ := h.slot hfor
  refine ⟨hchained b' haddr, ?_, ?_, ?_⟩
  · intro j b₁ hj
    by_cases hji : j = i
    · rw [hji, update_self] at hj
      rw [← Option.some.inj hj, haddr]
      exact hcurrent
    · rw [update_of_ne hji] at hj
      exact h.current j b₁ hj
  · intro j b₁ hj
    by_cases hji : j = i
    · rw [hji, update_self] at hj
      rw [← Option.some.inj hj]
      exact hstarted
    · rw [update_of_ne hji] at hj
      exact h.started j b₁ hj
  · intro g hg hno
    by_cases hhad : ∃ b₀, table i = some b₀ ∧ b₀.addr = g.addr
    · -- its bucket was taken over by the new one
      obtain ⟨b₀, hb₀, hsame⟩ := hhad
      have hne : b₀.addr ≠ addr := by
        intro heq
        exact hno i b' (update_self _ _ _) (haddr.trans (heq.symm.trans hsame))
      have hold := hlost b₀ hb₀ hne
      rw [sv2HsBucketTtl] at hold
      rcases (h.current i b₀ hb₀).earlier g hg hsame.symm with heq | hle
      · rw [heq, sv2HsWindowSecs]
        omega
      · rw [sv2HsWindowSecs] at hle ⊢
        omega
    · refine h.forgotten g hg ?_
      intro j b₁ hj hsame
      by_cases hji : j = i
      · rw [hji] at hj
        exact hhad ⟨b₁, hj, hsame⟩
      · refine hno j b₁ ?_ hsame
        rwa [update_of_ne hji]

/-- A grant is logged with the window of its bucket, which counts it. -/
theorem Buckets.log (h : Buckets table grants now) (hi : table i = some b) :
    Buckets (update table i (some { b with count := b.count + 1 }))
      (grants ++ [⟨b.addr, b.windowStart, now⟩]) now := by
  have hother : ∀ j b₁, j ≠ i → table j = some b₁ → b₁.addr ≠ b.addr := by
    intro j b₁ hji hj hsame
    exact hji (h.chained.unique j i b₁ b hj hi hsame)
  refine ⟨h.chained.write hi rfl, ?_, ?_, ?_⟩
  · intro j b₁ hj
    by_cases hji : j = i
    · rw [hji, update_self] at hj
      obtain rfl := Option.some.inj hj
      have hwas := h.current i b hi
      refine ⟨?_, ?_⟩
      · rw [grantsIn, List.countP_append, List.countP_singleton, if_pos (decide_eq_true ⟨rfl, rfl⟩)]
        exact congrArg (· + 1) hwas.count_eq
      · intro g hg haddr
        rcases List.mem_append.mp hg with hg | hg
        · exact hwas.earlier g hg haddr
        · rw [List.mem_singleton.mp hg]
          exact Or.inl rfl
    · rw [update_of_ne hji] at hj
      have hne := hother j b₁ hji hj
      have hwas := h.current j b₁ hj
      refine ⟨?_, ?_⟩
      · have hmatch : ¬ (decide (b.addr = b₁.addr ∧ b.windowStart = b₁.windowStart) = true) := by
          intro hmatch
          exact hne (of_decide_eq_true hmatch).1.symm
        rw [grantsIn, List.countP_append, List.countP_singleton, if_neg hmatch]
        exact hwas.count_eq
      · intro g hg haddr
        rcases List.mem_append.mp hg with hg | hg
        · exact hwas.earlier g hg haddr
        · rw [List.mem_singleton.mp hg] at haddr
          exact absurd haddr.symm hne
  · intro j b₁ hj
    by_cases hji : j = i
    · rw [hji, update_self] at hj
      rw [← Option.some.inj hj]
      exact h.started i b hi
    · rw [update_of_ne hji] at hj
      exact h.started j b₁ hj
  · intro g hg hno
    rcases List.mem_append.mp hg with hg | hg
    · refine h.forgotten g hg ?_
      intro j b₁ hj hsame
      by_cases hji : j = i
      · rw [hji, hi] at hj
        refine hno i { b with count := b.count + 1 } (update_self _ _ _) ?_
        rw [← hsame, ← Option.some.inj hj]
      · refine hno j b₁ ?_ hsame
        rwa [update_of_ne hji]
    · rw [List.mem_singleton.mp hg] at hno
      exact absurd rfl (hno i { b with count := b.count + 1 } (update_self _ _ _))

/-- A grant from a window that has room and is not over keeps the windows apart. -/
theorem Spaced.log (h : Spaced grants now) (hcurrent : Current grants b.addr b.windowStart b.count)
    (hroom : b.count < sv2HsMaxPerMin) (hstarted : b.windowStart ≤ now)
    (hrunning : now < b.windowStart + sv2HsWindowSecs) :
    Spaced (grants ++ [⟨b.addr, b.windowStart, now⟩]) now := by
  have hback : ∀ g ∈ grants, g.addr = b.addr → g.window = b.windowStart ∨
      g.window + sv2HsWindowSecs ≤ b.windowStart := hcurrent.earlier
  refine ⟨?_, ?_, ?_, ?_⟩
  · intro g hg
    rcases List.mem_append.mp hg with hg | hg
    · exact h.inWindow g hg
    · rw [List.mem_singleton.mp hg]
      exact ⟨hstarted, hrunning⟩
  · intro g hg
    rcases List.mem_append.mp hg with hg | hg
    · exact h.past g hg
    · rw [List.mem_singleton.mp hg]
  · intro g hg g' hg' hsame
    rcases List.mem_append.mp hg with hg | hg
    · rcases List.mem_append.mp hg' with hg' | hg'
      · exact h.apart g hg g' hg' hsame
      · rw [List.mem_singleton.mp hg'] at hsame ⊢
        rcases hback g hg hsame with heq | hle
        · exact Or.inl heq
        · exact Or.inr (Or.inl hle)
    · rcases List.mem_append.mp hg' with hg' | hg'
      · rw [List.mem_singleton.mp hg] at hsame ⊢
        rcases hback g' hg' hsame.symm with heq | hle
        · exact Or.inl heq.symm
        · exact Or.inr (Or.inr hle)
      · rw [List.mem_singleton.mp hg, List.mem_singleton.mp hg']
        exact Or.inl rfl
  · intro a window
    rw [grantsIn, List.countP_append, List.countP_singleton]
    by_cases hmatch : b.addr = a ∧ b.windowStart = window
    · rw [if_pos (decide_eq_true hmatch)]
      obtain ⟨rfl, rfl⟩ := hmatch
      have hcount := hcurrent.count_eq
      rw [grantsIn] at hcount
      omega
    · have hmatch' : ¬ (decide (b.addr = a ∧ b.windowStart = window) = true) :=
        fun hdecide => hmatch (of_decide_eq_true hdecide)
      rw [if_neg hmatch']
      exact h.atMost a window

end

/-! ### The steps -/

namespace HsWorld

variable {w : HsWorld} {i : Nat}

/-- A reservation keeps the limits, whatever comes of it. -/
theorem Limited.tryReserve (h : w.Limited) (addr : HsAddr) : (w.tryReserve addr).Limited := by
  unfold HsWorld.tryReserve
  by_cases hempty : addr.name = []
  · rw [if_pos hempty]
    exact h
  rw [if_neg hempty]
  by_cases hglobal : w.inflight ≥ sv2HsMaxGlobal
  · rw [if_pos hglobal]
    exact h
  rw [if_neg hglobal]
  cases hfor : hsBucketFor w.table addr w.now with
  | none => exact h
  | some r =>
    obtain ⟨j, b⟩ := r
    obtain ⟨haddr, hcurrent, hstarted, hrunning⟩ := h.buckets.renew hfor
    have hstored := h.buckets.store hfor haddr hcurrent hstarted
    dsimp only
    by_cases hfull : (b.renew w.now).count ≥ sv2HsMaxPerMin
    · rw [if_pos hfull]
      exact ⟨hstored, h.spaced, h.slots.inflight_eq, h.slots.inflight_le, h.slots.ok⟩
    · rw [if_neg hfull]
      have hlogged := hstored.log (update_self _ _ _)
      rw [update_idem] at hlogged
      rw [← haddr] at hcurrent
      refine ⟨hlogged, h.spaced.log hcurrent (Nat.lt_of_not_le hfull) hstarted hrunning,
        ?_, ?_, ?_⟩
      · show w.inflight + 1 = (w.conns ++ [HsPhase.reserved]).countP HsPhase.inFlight
        rw [List.countP_append, h.slots.inflight_eq]
        rfl
      · show w.inflight + 1 ≤ sv2HsMaxGlobal
        omega
      · intro phase hphase
        rcases List.mem_append.mp hphase with hphase | hphase
        · exact h.slots.ok phase hphase
        · rw [List.mem_singleton.mp hphase]
          trivial

/-- A client that goes on and stays in flight, or out of it, changes no count. -/
theorem Limited.move (h : w.Limited) {phase phase' : HsPhase} (hi : w.conns[i]? = some phase)
    (hok : phase'.Ok) (hsame : phase'.inFlight = phase.inFlight) : (w.move i phase').Limited := by
  have hlt : i < w.conns.length := (List.getElem?_eq_some_iff.mp hi).1
  have hget : w.conns[i] = phase := (List.getElem?_eq_some_iff.mp hi).2
  refine ⟨h.buckets, h.spaced, ?_, h.slots.inflight_le, ?_⟩
  · show w.inflight = (w.conns.set i phase').countP HsPhase.inFlight
    rw [List.countP_set hlt, hget, hsame, h.slots.inflight_eq]
    by_cases hflight : phase.inFlight = true
    · have hpos : 0 < w.conns.countP HsPhase.inFlight :=
        List.countP_pos_iff.mpr ⟨phase, List.mem_of_getElem? hi, hflight⟩
      rw [if_pos hflight]
      omega
    · rw [if_neg hflight]
      rfl
  · intro p hp
    rcases List.mem_or_eq_of_mem_set hp with hp | rfl
    · exact h.slots.ok p hp
    · exact hok

/-- A client that leaves the handshake gives its slot back. -/
theorem Limited.leave (h : w.Limited) {phase phase' : HsPhase} (hi : w.conns[i]? = some phase)
    (hok : phase'.Ok) (hwas : phase.inFlight = true) (his : phase'.inFlight = false) :
    (w.move i phase').release.Limited := by
  have hlt : i < w.conns.length := (List.getElem?_eq_some_iff.mp hi).1
  have hget : w.conns[i] = phase := (List.getElem?_eq_some_iff.mp hi).2
  have hpos : 0 < w.conns.countP HsPhase.inFlight :=
    List.countP_pos_iff.mpr ⟨phase, List.mem_of_getElem? hi, hwas⟩
  have hinflight : (w.move i phase').release.inflight = w.inflight - 1 := by
    have hheld : w.inflight > 0 := by
      rw [h.slots.inflight_eq]
      exact hpos
    exact if_pos hheld
  refine ⟨h.buckets, h.spaced, ?_, ?_, ?_⟩
  · rw [hinflight]
    show w.inflight - 1 = (w.conns.set i phase').countP HsPhase.inFlight
    rw [List.countP_set hlt, hget, if_pos hwas, his, h.slots.inflight_eq]
    rfl
  · rw [hinflight]
    exact le_trans (Nat.sub_le _ _) h.slots.inflight_le
  · intro p hp
    rcases List.mem_or_eq_of_mem_set hp with hp | rfl
    · exact h.slots.ok p hp
    · exact hok

/-- **Every event keeps the limits.** -/
theorem Limited.step (h : w.Limited) (e : HsEvent) : (w.step e).Limited := by
  cases e with
  | reserve addr => exact h.tryReserve addr
  | refuse i =>
    simp only [HsWorld.step]
    split
    · next hi => exact h.leave hi trivial rfl rfl
    · exact h
  | establish i =>
    simp only [HsWorld.step]
    split
    · next hi => exact h.move hi rfl rfl
    · exact h
  | feed i read =>
    simp only [HsWorld.step]
    split
    · next hsInflight hi =>
        -- before the handshake is complete the connection holds its slot
        have hok := h.slots.ok _ (List.mem_of_getElem? hi)
        obtain rfl : hsInflight = true := hok
        cases read with
        | none => exact h
        | some complete =>
          cases complete with
          | true => exact h.leave hi rfl rfl rfl
          | false => exact h.move hi rfl rfl
    · exact h
  | free i =>
    simp only [HsWorld.step]
    split
    · next complete hsInflight hi =>
        have hok := h.slots.ok _ (List.mem_of_getElem? hi)
        obtain rfl : hsInflight = !complete := hok
        cases complete with
        | true => exact h.move hi trivial rfl
        | false => exact h.leave hi trivial rfl rfl
    · exact h
  | tick secs =>
    have hlater : w.now ≤ w.now + secs := by omega
    refine ⟨⟨h.buckets.chained, h.buckets.current, ?_, ?_⟩,
      ⟨h.spaced.inWindow, ?_, h.spaced.apart, h.spaced.atMost⟩,
      ⟨h.slots.inflight_eq, h.slots.inflight_le, h.slots.ok⟩⟩
    · intro j b hj
      exact le_trans (h.buckets.started j b hj) hlater
    · intro g hg hno
      exact le_trans (h.buckets.forgotten g hg hno) hlater
    · intro g hg
      exact le_trans (h.spaced.past g hg) hlater

theorem limited_init (now : Int) : (init now).Limited := by
  refine ⟨⟨chained_empty, ?_, ?_, ?_⟩, ⟨?_, ?_, ?_, ?_⟩, ⟨rfl, Nat.zero_le _, ?_⟩⟩
  · intro j b hj
    cases hj
  · intro j b hj
    cases hj
  · intro g hg
    cases hg
  · intro g hg
    cases hg
  · intro g hg
    cases hg
  · intro g hg
    cases hg
  · intro addr window
    exact Nat.zero_le _
  · intro phase hphase
    cases hphase

end HsWorld

/-! ### A minute -/

theorem countP_or_le {α : Type*} (p q : α → Bool) (l : List α) :
    l.countP (fun x => p x || q x) ≤ l.countP p + l.countP q := by
  induction l with
  | nil => exact Nat.zero_le _
  | cons x l ih =>
    rw [List.countP_cons, List.countP_cons, List.countP_cons]
    have hhead : (if (p x || q x) = true then 1 else 0) ≤
        (if p x = true then 1 else 0) + (if q x = true then 1 else 0) := by
      cases p x <;> cases q x <;> decide
    omega

/-- Within a minute an address has grants from two of its windows at most. -/
theorem Spaced.two_windows {grants : List HsGrant} {now : Int} (h : Spaced grants now)
    (addr : HsAddr) (time : Int) :
    ∃ window window', ∀ g ∈ grants, g.addr = addr → time ≤ g.time → g.time ≤ time + 60 →
      g.window = window ∨ g.window = window' := by
  by_cases hone : ∃ g ∈ grants, g.addr = addr ∧ time ≤ g.time ∧ g.time ≤ time + 60
  swap
  · refine ⟨0, 0, ?_⟩
    intro g hg haddr hlow hhigh
    exact absurd ⟨g, hg, haddr, hlow, hhigh⟩ hone
  obtain ⟨g₁, hg₁, haddr₁, hlow₁, hhigh₁⟩ := hone
  by_cases htwo : ∃ g ∈ grants, g.addr = addr ∧ time ≤ g.time ∧ g.time ≤ time + 60 ∧
      g.window ≠ g₁.window
  swap
  · refine ⟨g₁.window, g₁.window, ?_⟩
    intro g hg haddr hlow hhigh
    by_contra hne
    rw [or_self] at hne
    exact htwo ⟨g, hg, haddr, hlow, hhigh, hne⟩
  obtain ⟨g₂, hg₂, haddr₂, hlow₂, hhigh₂, hne₂⟩ := htwo
  refine ⟨g₁.window, g₂.window, ?_⟩
  intro g hg haddr hlow hhigh
  -- a third window would be over before the minute, or begin after it
  have hw := h.inWindow g hg
  have hw₁ := h.inWindow g₁ hg₁
  have hw₂ := h.inWindow g₂ hg₂
  have h₁ := h.apart g hg g₁ hg₁ (haddr.trans haddr₁.symm)
  have h₂ := h.apart g hg g₂ hg₂ (haddr.trans haddr₂.symm)
  have h₁₂ := h.apart g₁ hg₁ g₂ hg₂ (haddr₁.trans haddr₂.symm)
  rw [sv2HsWindowSecs] at hw hw₁ hw₂ h₁ h₂ h₁₂
  omega

/-- So a minute has at most twice the share of a window. -/
theorem Spaced.countP_minute {grants : List HsGrant} {now : Int} (h : Spaced grants now)
    (addr : HsAddr) (time : Int) : grantsWithin grants addr time ≤ 2 * sv2HsMaxPerMin := by
  obtain ⟨window, window', hwindows⟩ := h.two_windows addr time
  have hle : grantsWithin grants addr time ≤ grantsIn grants addr window +
      grantsIn grants addr window' := by
    refine le_trans (List.countP_mono_left ?_) (countP_or_le _ _ grants)
    intro g hg hmatch
    obtain ⟨haddr, hlow, hhigh⟩ := of_decide_eq_true hmatch
    rw [Bool.or_eq_true, decide_eq_true_iff, decide_eq_true_iff]
    rcases hwindows g hg haddr hlow hhigh with heq | heq
    · exact Or.inl ⟨haddr, heq⟩
    · exact Or.inr ⟨haddr, heq⟩
  have hatMost := h.atMost addr window
  have hatMost' := h.atMost addr window'
  omega

/-- **The limits on handshakes hold in every run**: the global count is that of the clients whose
handshake is in flight, and within the cap; an address has one bucket at most, and a lookup finds
it; and no address was granted more than its share in one window, or twice that in a minute. -/
theorem handshake_limits (start : Int) (events : List HsEvent) :
    let w := run HsWorld.step (HsWorld.init start) events
    (w.inflight = w.conns.countP HsPhase.inFlight ∧ w.inflight ≤ sv2HsMaxGlobal) ∧
    (∀ i j b b', w.table i = some b → w.table j = some b' → b.addr = b'.addr → i = j) ∧
    (∀ i b create now, w.table i = some b → hsLookup w.table b.addr create now = .found i) ∧
    (∀ addr window, grantsIn w.grants addr window ≤ sv2HsMaxPerMin) ∧
    ∀ addr time, grantsWithin w.grants addr time ≤ 2 * sv2HsMaxPerMin := by
  have hlimited : (run HsWorld.step (HsWorld.init start) events).Limited :=
    run_invariant_always (fun _ e h => h.step e) events (HsWorld.limited_init start)
  dsimp only
  refine ⟨⟨hlimited.slots.inflight_eq, hlimited.slots.inflight_le⟩,
    hlimited.buckets.chained.unique, ?_, hlimited.spaced.atMost, hlimited.spaced.countP_minute⟩
  intro i b create now hi
  exact hlimited.buckets.chained.probe hi rfl create (HsBucket.stale now)

end CashStratum
