/-
CashStratum/ProxyShares.lean

The shares that a proxying pool sends to its SV1 upstreams (`add_share`, `submit_share`,
`proxy_send`, `parse_share` and the ageing loops of `proxy_recv` and `userproxy_recv`).

All upstreams have one table of shares and one counter of 64 bits.  The counter goes to the
upstream as an `int`, and the id of an answer is looked up as it comes back.  Up to 2^31 shares
every answer finds its share (`Inv.matched`); the share after that gets a negative id, so its
answer finds nothing and counts with the difficulty that the proxy then has.  `answers_match_iff`
says that this is all that goes wrong.

`Upstream` is what an upstream knows and the pool does not: the shares that are not answered yet,
with what was recorded when they came.
-/
import CashStratum.CText
import CashStratum.KeyedList
import CashStratum.Run
import Mathlib.Data.List.Perm.Subperm

namespace CashStratum.ProxyShares

/-! ### The tables -/

/-- What the shares need of a `proxy_instance`. -/
structure ProxyInst where
  id : Int
  subid : Int
  alive : Bool
  sv2 : Bool
  diff : ℚ
  deriving DecidableEq

def ProxyInst.key (p : ProxyInst) : Int × Int := (p.id, p.subid)

/-- `share_msg_t` -/
structure ShareMsg where
  id64 : Int
  clientId : Int
  submitTime : Int
  diff : ℚ
  deriving DecidableEq

/-- A message of the `psends` list. -/
structure Psend where
  clientId : Int
  proxy : Int
  subproxy : Int
  id : Int
  deriving DecidableEq

/-- A call of `account_shares`. -/
structure Account where
  proxy : Int × Int
  diff : ℚ
  result : Bool
  deriving DecidableEq

/-- What the shares need of `gdata_t`, with the calls of `account_shares` so far. -/
structure Gdata where
  proxies : List ProxyInst
  shareId : Int
  shares : List ShareMsg
  psends : List Psend
  accounts : List Account

namespace Gdata

variable (g : Gdata)

/-- `proxy_by_id` and `subproxy_by_id`. -/
def subproxyById (id subid : Int) : Option ProxyInst := g.proxies.find? fun p => p.key = (id, subid)

/-- `HASH_FIND_I64` -/
def findShare (id : Int) : Option ShareMsg := g.shares.find? fun share => share.id64 = id

/-- The loops that age shares. -/
def ageShares (now : Int) : Gdata :=
  { g with shares := g.shares.filter fun share => ¬ share.submitTime < now - 120 }

/-- `add_share`: the share, and the tables with it.  The counter has 64 bits. -/
def addShare (clientId : Int) (diff : ℚ) (now : Int) : ShareMsg × Gdata :=
  let share := { id64 := g.shareId, clientId := clientId, submitTime := now, diff := diff }
  (share, { g with shareId := (g.shareId + 1).bmod (2 ^ 64), shares := g.shares ++ [share] }.ageShares
    now)

end Gdata

/-- The numbers in a share that the stratifier passes on, where they are integers. -/
structure ShareFields where
  clientId : Option Int
  proxy : Option Int
  subproxy : Option Int

/-- What becomes of a share that the stratifier passes on. -/
inductive SubmitResult where
  /-- A field is missing. -/
  | noField
  /-- The client is sent away from a proxy that is gone or dead. -/
  | reconnect (clientId : Int)
  | sv2 (proxi : ProxyInst) (clientId : Int)
  | sv1 (proxi : ProxyInst) (clientId : Int)

/-- `submit_share` up to the SV1 share. -/
def Gdata.submitResult (g : Gdata) (f : ShareFields) : SubmitResult :=
  match f.clientId, f.proxy, f.subproxy with
  | some clientId, some id, some subid =>
    match g.subproxyById id subid with
    | none => .reconnect clientId
    | some proxi =>
      if ¬ proxi.alive then .reconnect clientId
      else if proxi.sv2 then .sv2 proxi clientId
      else .sv1 proxi clientId
  | _, _, _ => .noField

/-- The `result` of an answer. -/
inductive JsonResult where
  | bool (b : Bool)
  | null
  /-- Another value, or none. -/
  | other
  deriving DecidableEq

/-- A message of an upstream that is no method: its `id` as `yyjson_get_sint` reads it, its
`result`, and whether it has an `error` that is not null. -/
structure Reply where
  id : Option Int
  result : JsonResult
  error : Bool

/-- The id and the result that `parse_share` takes from a message. -/
def Reply.answer (r : Reply) : Option (Int × Bool) :=
  match r.id, r.result with
  | none, _ => none
  | some id, .bool b => some (id, b)
  | some id, .null => if r.error then some (id, false) else none
  | some _, .other => none

/-- `parse_share`: what it returns, and the tables after it. -/
def Gdata.parseShare (g : Gdata) (proxi : ProxyInst) (r : Reply) : Int × Gdata :=
  match r.answer with
  | none => (0, g)
  | some (id, result) =>
    match g.findShare id with
    | none => (-1, { g with accounts := g.accounts ++ [⟨proxi.key, proxi.diff, result⟩] })
    | some share =>
      (1, { g with shares := g.shares.filter fun other => other.id64 ≠ id
                   accounts := g.accounts ++ [⟨proxi.key, share.diff, result⟩] })

/-! ### What the upstreams see -/

/-- A share that waits for its answer: the record made of it, the proxy that it is for, and its
JSON id. -/
structure Waiting where
  share : ShareMsg
  proxy : Int × Int
  id : Int
  deriving DecidableEq

/-- The message in the `psends` list for a share. -/
def Waiting.psend (e : Waiting) : Psend :=
  { clientId := e.share.clientId, proxy := e.proxy.1, subproxy := e.proxy.2, id := e.id }

/-- The shares that wait in the pool and at the upstreams, and the accounts that are due for the
answers so far. -/
structure Upstream where
  queued : List Waiting
  sent : List Waiting
  due : List Account

/-- The shares that are not answered. -/
def Upstream.waiting (u : Upstream) : List Waiting := u.queued ++ u.sent

structure State where
  g : Gdata
  up : Upstream

/-- Before the first share. -/
def start : State where
  g := { proxies := [], shareId := 0, shares := [], psends := [], accounts := [] }
  up := { queued := [], sent := [], due := [] }

inductive Event where
  /-- The proxies come, go, die and get their difficulties. -/
  | proxies (ps : List ProxyInst)
  | submit (f : ShareFields) (now : Int)
  /-- `proxy_send` takes the first message of the list; `found` tells whether the job is known. -/
  | send (found : Bool)
  /-- A message on the connection of a proxy. -/
  | reply (proxi : ProxyInst) (r : Reply)
  | age (now : Int)

/-- The JSON id of a share, which goes through an `int`. -/
def wireId (id64 : Int) : Int := toInt32 id64

/-- `submit_share` -/
def submit (s : State) (f : ShareFields) (now : Int) : State :=
  match s.g.submitResult f with
  | .sv1 proxi clientId =>
    let (share, g) := s.g.addShare clientId proxi.diff now
    let e := { share := share, proxy := proxi.key, id := wireId share.id64 : Waiting }
    { g := { g with psends := g.psends ++ [e.psend] }
      up := { s.up with queued := s.up.queued ++ [e] } }
  | _ => s

/-- `proxy_send` for one message. -/
def send (s : State) (found : Bool) : State :=
  match s.g.psends with
  | [] => s
  | msg :: rest =>
    let g := { s.g with psends := rest }
    let up := { s.up with queued := s.up.queued.tail }
    match s.g.subproxyById msg.proxy msg.subproxy, found with
    | some _, true => { g := g, up := { up with sent := up.sent ++ s.up.queued.take 1 } }
    | _, _ => { g := g, up := up }

/-- What is due for an answer: the account of the share with its id on this connection. -/
def Upstream.answered (u : Upstream) (proxi : ProxyInst) (r : Reply) : Upstream :=
  match r.answer with
  | none => u
  | some (id, result) =>
    match u.sent.find? fun e => (e.proxy, e.id) = (proxi.key, id) with
    | none => u
    | some e =>
      { u with sent := u.sent.erase e
               due := u.due ++ [⟨e.proxy, e.share.diff, result⟩] }

def step (s : State) : Event → State
  | .proxies ps => { s with g := { s.g with proxies := ps } }
  | .submit f now => submit s f now
  | .send found => send s found
  | .reply proxi r => { g := (s.g.parseShare proxi r).2, up := s.up.answered proxi r }
  | .age now => { s with g := s.g.ageShares now }

/-- The upstreams answer shares that wait for their answer, each on its own connection, and no
share waits for more than 120 seconds. -/
def Obeys (s : State) : Event → Prop
  | .reply proxi r => ∀ a ∈ r.answer,
      (s.up.sent.find? fun e => (e.proxy, e.id) = (proxi.key, a.1)).isSome
  | .submit _ now => ∀ e ∈ s.up.waiting, now ≤ e.share.submitTime + 120
  | .age now => ∀ e ∈ s.up.waiting, now ≤ e.share.submitTime + 120
  | _ => True

instance (s : State) : DecidablePred (Obeys s)
  | .proxies _ => isTrue trivial
  | .submit _ now =>
    inferInstanceAs (Decidable (∀ e ∈ s.up.waiting, now ≤ e.share.submitTime + 120))
  | .send _ => isTrue trivial
  | .reply proxi r => inferInstanceAs (Decidable (∀ a ∈ r.answer,
      (s.up.sent.find? fun e => (e.proxy, e.id) = (proxi.key, a.1)).isSome))
  | .age now => inferInstanceAs (Decidable (∀ e ∈ s.up.waiting, now ≤ e.share.submitTime + 120))

/-- What is asked of a state: the shares without an answer have JSON ids of their own, each of
these finds its share, and every answer so far was accounted once, on the proxy that the share
was for and with the difficulty recorded for it. -/
structure Matches (s : State) : Prop where
  distinct : (s.up.waiting.map Waiting.id).Nodup
  found : ∀ e ∈ s.up.waiting, s.g.findShare e.id = some e.share
  accounts : s.g.accounts = s.up.due

/-- The share goes to an SV1 upstream. -/
def SubmitResult.isSv1 : SubmitResult → Bool
  | .sv1 _ _ => true
  | _ => false

/-- A share gets its id while the counter has 31 bits. -/
def Narrow (s : State) : Event → Prop
  | .submit f _ => (s.g.submitResult f).isSv1 → s.g.shareId < 2 ^ 31
  | _ => True

instance (s : State) : DecidablePred (Narrow s)
  | .submit f _ => inferInstanceAs (Decidable ((s.g.submitResult f).isSv1 → s.g.shareId < 2 ^ 31))
  | .proxies _ => isTrue trivial
  | .send _ => isTrue trivial
  | .reply _ _ => isTrue trivial
  | .age _ => isTrue trivial

/-! ### The invariant -/

/-- While the counter has 31 bits: the table has the shares that wait, each under the id that it
has on the wire. -/
structure Inv (s : State) : Prop where
  counter : 0 ≤ s.g.shareId ∧ s.g.shareId ≤ 2 ^ 31
  ids : ∀ share ∈ s.g.shares, 0 ≤ share.id64 ∧ share.id64 < s.g.shareId
  nodup : (s.g.shares.map ShareMsg.id64).Nodup
  kept : ∀ e ∈ s.up.waiting, e.share ∈ s.g.shares ∧ e.id = wireId e.share.id64
  apart : (s.up.waiting.map fun e => e.share.id64).Nodup
  psends : s.g.psends = s.up.queued.map Waiting.psend
  accounts : s.g.accounts = s.up.due

theorem inv_start : Inv start where
  counter := by decide
  ids := fun share h => absurd h List.not_mem_nil
  nodup := List.nodup_nil
  kept := fun e h => absurd h List.not_mem_nil
  apart := List.nodup_nil
  psends := rfl
  accounts := rfl

/-- An id of 31 bits goes through an `int` as it is. -/
theorem wireId_of_lt {v : Int} (hpos : 0 ≤ v) (hlt : v < 2 ^ 31) : wireId v = v := by
  rw [wireId, toInt32]
  exact Int.bmod_eq_of_le (by omega) (by omega)

/-- The upstream takes the share with the id of an answer for answered. -/
theorem Upstream.answered_eq {u : Upstream} {proxi : ProxyInst} {r : Reply} {id : Int}
    {result : Bool} (hanswer : r.answer = some (id, result)) {e : Waiting}
    (he : (u.sent.find? fun e => (e.proxy, e.id) = (proxi.key, id)) = some e) :
    u.answered proxi r =
      { u with sent := u.sent.erase e
               due := u.due ++ [⟨e.proxy, e.share.diff, result⟩] } := by
  rw [Upstream.answered, hanswer]
  dsimp only
  rw [he]

namespace Inv

variable {s : State} (h : Inv s)

include h

theorem id_eq {e : Waiting} (he : e ∈ s.up.waiting) : e.id = e.share.id64 := by
  obtain ⟨hmem, hid⟩ := h.kept e he
  obtain ⟨hpos, hlt⟩ := h.ids _ hmem
  rw [hid, wireId_of_lt hpos (lt_of_lt_of_le hlt h.counter.2)]

/-- **The property.** -/
theorem matched : Matches s where
  distinct := by
    have hsame : s.up.waiting.map Waiting.id = s.up.waiting.map fun e => e.share.id64 :=
      List.map_congr_left fun e he => h.id_eq he
    rw [hsame]
    exact h.apart
  found := by
    intro e he
    rw [h.id_eq he]
    exact (find?_key_eq_some_iff h.nodup).mpr ⟨(h.kept e he).1, rfl⟩
  accounts := h.accounts

/-- A step that only takes shares from those that wait. -/
theorem fewer_waiting {u : Upstream} {rest : List Psend} (hsub : u.waiting.Subperm s.up.waiting)
    (hpsends : rest = u.queued.map Waiting.psend) (hdue : u.due = s.up.due) :
    Inv { g := { s.g with psends := rest }, up := u } where
  counter := h.counter
  ids := h.ids
  nodup := h.nodup
  kept := fun e he => h.kept e (List.Subperm.subset hsub he)
  apart := by
    obtain ⟨l, hperm, hsublist⟩ := hsub
    exact (hperm.map _).nodup_iff.mp (h.apart.sublist (hsublist.map _))
  psends := hpsends
  accounts := h.accounts.trans hdue.symm

/-- Ageing leaves the shares that wait for no more than 120 seconds. -/
theorem ageShares {now : Int} (hnow : ∀ e ∈ s.up.waiting, now ≤ e.share.submitTime + 120) :
    Inv { s with g := s.g.ageShares now } where
  counter := h.counter
  ids := fun share hshare => h.ids share (List.mem_of_mem_filter hshare)
  nodup := h.nodup.sublist (List.filter_sublist.map _)
  kept := by
    intro e he
    obtain ⟨hmem, hid⟩ := h.kept e he
    refine ⟨List.mem_filter.mpr ⟨hmem, ?_⟩, hid⟩
    have := hnow e he
    rw [decide_eq_true_iff]
    omega
  apart := h.apart
  psends := h.psends
  accounts := h.accounts

/-- The state with a new share, before old ones are aged. -/
theorem newShare {e : Waiting} (hid : e.share.id64 = s.g.shareId)
    (hwire : e.id = wireId e.share.id64) (hlt : s.g.shareId < 2 ^ 31) :
    Inv { g := { s.g with shareId := (s.g.shareId + 1).bmod (2 ^ 64)
                          shares := s.g.shares ++ [e.share]
                          psends := s.g.psends ++ [e.psend] }
          up := { s.up with queued := s.up.queued ++ [e] } } := by
  obtain ⟨hpos, -⟩ := h.counter
  have hnext : (s.g.shareId + 1).bmod (2 ^ 64) = s.g.shareId + 1 :=
    Int.bmod_eq_of_le (by omega) (by omega)
  have hperm : (s.up.queued ++ [e] ++ s.up.sent).Perm (e :: s.up.waiting) := by
    rw [List.append_assoc]
    exact List.perm_middle
  have hnew : ∀ other ∈ s.g.shares, other.id64 ≠ e.share.id64 := by
    intro other hother
    have := (h.ids other hother).2
    omega
  constructor
  · show 0 ≤ (s.g.shareId + 1).bmod (2 ^ 64) ∧ (s.g.shareId + 1).bmod (2 ^ 64) ≤ 2 ^ 31
    omega
  · intro other hother
    show 0 ≤ other.id64 ∧ other.id64 < (s.g.shareId + 1).bmod (2 ^ 64)
    obtain hother | hother := List.mem_append.mp hother
    · have := h.ids other hother
      omega
    · rw [List.mem_singleton.mp hother]
      omega
  · exact nodup_append_key h.nodup (find?_key_eq_none_iff.mpr hnew)
  · intro other hother
    obtain rfl | hother := List.mem_cons.mp (hperm.subset hother)
    · exact ⟨List.mem_append_right _ (List.mem_singleton_self _), hwire⟩
    · obtain ⟨hmem, hid⟩ := h.kept other hother
      exact ⟨List.mem_append_left _ hmem, hid⟩
  · refine (hperm.map fun e => e.share.id64).nodup_iff.mpr (List.nodup_cons.mpr ⟨?_, h.apart⟩)
    intro hmem
    obtain ⟨other, hother, heq⟩ := List.mem_map.mp hmem
    exact hnew _ (h.kept other hother).1 heq
  · show s.g.psends ++ _ = (s.up.queued ++ _).map _
    rw [h.psends, List.map_append]
    rfl
  · exact h.accounts

theorem submit {f : ShareFields} {now : Int}
    (hnow : ∀ e ∈ s.up.waiting, now ≤ e.share.submitTime + 120)
    (hnarrow : Narrow s (.submit f now)) : Inv (submit s f now) := by
  rw [ProxyShares.submit]
  cases hresult : s.g.submitResult f with
  | sv1 proxi clientId =>
    have hlt : s.g.shareId < 2 ^ 31 := hnarrow (by rw [hresult]; rfl)
    let share : ShareMsg :=
      { id64 := s.g.shareId, clientId := clientId, submitTime := now, diff := proxi.diff }
    have hnew := h.newShare (e := ⟨share, proxi.key, wireId share.id64⟩) rfl rfl hlt
    apply hnew.ageShares
    intro e he
    obtain he | he := List.mem_append.mp he
    · obtain he | he := List.mem_append.mp he
      · exact hnow e (List.mem_append_left _ he)
      · rw [List.mem_singleton.mp he]
        show now ≤ now + 120
        omega
    · exact hnow e (List.mem_append_right _ he)
  | noField => exact h
  | reconnect clientId => exact h
  | sv2 proxi clientId => exact h

theorem send (found : Bool) : Inv (send s found) := by
  rw [ProxyShares.send]
  cases hmsgs : s.g.psends with
  | nil => exact h
  | cons msg rest =>
    have hqueued := h.psends
    rw [hmsgs] at hqueued
    cases hq : s.up.queued with
    | nil =>
      rw [hq] at hqueued
      cases hqueued
    | cons e others =>
      rw [hq] at hqueued
      have hrest : rest = others.map Waiting.psend := (List.cons.inj hqueued).2
      have hwaiting : s.up.waiting = e :: (others ++ s.up.sent) := by
        rw [Upstream.waiting, hq]
        rfl
      dsimp only
      split
      · refine h.fewer_waiting ?_ hrest rfl
        rw [hwaiting]
        refine List.Perm.subperm ?_
        show (others ++ (s.up.sent ++ [e])).Perm _
        rw [← List.append_assoc]
        exact List.perm_append_singleton e _
      · refine h.fewer_waiting ?_ hrest rfl
        rw [hwaiting]
        exact (List.sublist_cons_self e _).subperm

theorem reply {proxi : ProxyInst} {r : Reply} (hobeys : Obeys s (.reply proxi r)) :
    Inv (step s (.reply proxi r)) := by
  cases hanswer : r.answer with
  | none =>
    have hsame : step s (.reply proxi r) = s := by
      rw [step, Gdata.parseShare, Upstream.answered, hanswer]
    rw [hsame]
    exact h
  | some answer =>
    obtain ⟨id, result⟩ := answer
    obtain ⟨e, he⟩ := Option.isSome_iff_exists.mp (hobeys _ hanswer)
    dsimp only at he
    have hpredicate := List.find?_some he
    have hkeys : (e.proxy, e.id) = (proxi.key, id) := of_decide_eq_true hpredicate
    obtain ⟨hproxy, hid⟩ := Prod.mk.inj hkeys
    have hsent : e ∈ s.up.sent := List.mem_of_find?_eq_some he
    have hmem : e ∈ s.up.waiting := List.mem_append_right _ hsent
    have hfound : s.g.findShare id = some e.share := by
      rw [← hid]
      exact h.matched.found e hmem
    have hid64 : e.share.id64 = id := by rw [← h.id_eq hmem, hid]
    have hwaiting : s.up.waiting.Perm (e :: (s.up.queued ++ s.up.sent.erase e)) := by
      refine ((List.perm_cons_erase hsent).append_left s.up.queued).trans ?_
      exact List.perm_middle
    have hothers := (hwaiting.map fun e => e.share.id64).nodup_iff.mp h.apart
    rw [List.map_cons, List.nodup_cons] at hothers
    rw [step, Gdata.parseShare, Upstream.answered_eq hanswer he, hanswer]
    dsimp only
    rw [hfound]
    constructor
    · exact h.counter
    · exact fun share hshare => h.ids share (List.mem_of_mem_filter hshare)
    · exact h.nodup.sublist (List.filter_sublist.map _)
    · intro other hother
      obtain ⟨hmem', hid'⟩ := h.kept other (hwaiting.symm.subset (List.mem_cons_of_mem e hother))
      refine ⟨List.mem_filter.mpr ⟨hmem', decide_eq_true fun heq => hothers.1 ?_⟩, hid'⟩
      rw [hid64, ← heq]
      exact List.mem_map_of_mem (f := fun e : Waiting => e.share.id64) hother
    · exact hothers.2
    · exact h.psends
    · show s.g.accounts ++ _ = s.up.due ++ _
      rw [h.accounts, hproxy]

/-- **What a step keeps.** -/
theorem step {e : Event} (hobeys : Obeys s e) (hnarrow : Narrow s e) : Inv (step s e) := by
  cases e with
  | proxies ps => exact ⟨h.counter, h.ids, h.nodup, h.kept, h.apart, h.psends, h.accounts⟩
  | submit f now => exact h.submit hobeys hnarrow
  | send found => exact h.send found
  | reply proxi r => exact h.reply hobeys
  | age now => exact h.ageShares hobeys

/-- The share after 2^31 others does not find itself. -/
theorem narrow_of_matches {e : Event} (hmatches : Matches (ProxyShares.step s e)) :
    Narrow s e := by
  cases e with
  | submit f now =>
    intro hsv1
    cases hresult : s.g.submitResult f with
    | sv1 proxi clientId =>
      by_contra hwide
      have hcounter : s.g.shareId = 2 ^ 31 := by
        have := h.counter.2
        omega
      let share : ShareMsg :=
        { id64 := s.g.shareId, clientId := clientId, submitTime := now, diff := proxi.diff }
      have hup : (ProxyShares.step s (.submit f now)).up =
          { s.up with queued := s.up.queued ++ [⟨share, proxi.key, wireId share.id64⟩] } := by
        rw [ProxyShares.step, ProxyShares.submit, hresult]
        rfl
      have hmem : (⟨share, proxi.key, wireId share.id64⟩ : Waiting) ∈
          (ProxyShares.step s (.submit f now)).up.waiting := by
        rw [hup]
        exact List.mem_append_left _ (List.mem_append_right _ (List.mem_singleton_self _))
      have hpredicate := List.find?_some (hmatches.found _ hmem)
      have hself : s.g.shareId = wireId s.g.shareId := of_decide_eq_true hpredicate
      rw [hcounter] at hself
      exact absurd hself (by decide)
    | noField => simp [hresult, SubmitResult.isSv1] at hsv1
    | reconnect clientId => simp [hresult, SubmitResult.isSv1] at hsv1
    | sv2 proxi clientId => simp [hresult, SubmitResult.isSv1] at hsv1
  | _ => trivial

end Inv

/-- **Exactly when answers match.**  With upstreams that answer each share once, on its own
connection and in time: in every state of a run the shares without an answer have ids of their
own that find them, and every answer was accounted as due, if and only if the counter has 31 bits
whenever a share gets its id. -/
theorem answers_match_iff (events : List Event) (hobeys : Along step Obeys start events) :
    (∀ before, before <+: events → Matches (run step start before)) ↔
      Along step Narrow start events := by
  apply run_always_iff_along (I := Inv) (Q := Obeys)
  · intro s e hobeys h _ hmatches
    exact h.step hobeys (h.narrow_of_matches hmatches)
  · intro s e hobeys h _
    exact ⟨h.narrow_of_matches, fun hnarrow => (h.step hobeys hnarrow).matched⟩
  · exact hobeys
  · exact inv_start
  · exact inv_start.matched

/-! ### A run of more than 2^31 shares -/

/-- A proxy with a difficulty. -/
def proxyAt (diff : ℚ) : ProxyInst := { id := 0, subid := 0, alive := true, sv2 := false, diff := diff }

/-- A share for it. -/
def shareFields : ShareFields := { clientId := some 1, proxy := some 0, subproxy := some 0 }

/-- An answer that accepts the share with a JSON id. -/
def accepts (id : Int) : Reply := { id := some id, result := .bool true, error := false }

/-- A share that is sent and answered at once. -/
def shareCycle (n : Nat) : List Event :=
  [.submit shareFields 0, .send true, .reply (proxyAt 1) (accepts n)]

/-- Two shares are answered, each with an id of its own. -/
theorem twoShares_match :
    Along step Narrow start ([.proxies [proxyAt 1]] ++ shareCycle 0 ++ shareCycle 1) ∧
      ∀ before, before <+: [.proxies [proxyAt 1]] ++ shareCycle 0 ++ shareCycle 1 →
        Matches (run step start before) := by
  have hnarrow : Along step Narrow start
      ([.proxies [proxyAt 1]] ++ shareCycle 0 ++ shareCycle 1) := by decide
  refine ⟨hnarrow, ?_⟩
  apply (answers_match_iff _ ?_).mpr hnarrow
  decide

/-- The state after a number of shares. -/
def afterShares (n : Nat) : State where
  g := { proxies := [proxyAt 1], shareId := n, shares := [], psends := []
         accounts := List.replicate n ⟨(0, 0), 1, true⟩ }
  up := { queued := [], sent := [], due := List.replicate n ⟨(0, 0), 1, true⟩ }

theorem run_shareCycle {n : Nat} (hn : n < 2 ^ 31) :
    Along step Obeys (afterShares n) (shareCycle n) ∧
      run step (afterShares n) (shareCycle n) = afterShares (n + 1) := by
  have hid : wireId n = n := wireId_of_lt (by omega) (by omega)
  have hnext : ((n : Int) + 1).bmod (2 ^ 64) = n + 1 := Int.bmod_eq_of_le (by omega) (by omega)
  let share : ShareMsg := { id64 := n, clientId := 1, submitTime := 0, diff := 1 }
  let e : Waiting := { share := share, proxy := (0, 0), id := n }
  have hsubmit : step (afterShares n) (.submit shareFields 0) =
      { g := { (afterShares n).g with shareId := n + 1, shares := [share], psends := [e.psend] }
        up := { (afterShares n).up with queued := [e] } } := by
    show submit (afterShares n) shareFields 0 = _
    have hresult : (afterShares n).g.submitResult shareFields = .sv1 (proxyAt 1) 1 := rfl
    rw [submit, hresult]
    dsimp only [Gdata.addShare, Gdata.ageShares, afterShares]
    rw [hnext, hid]
    rfl
  have hsend : step { g := { (afterShares n).g with shareId := n + 1, shares := [share]
                                                    psends := [e.psend] }
                      up := { (afterShares n).up with queued := [e] } } (.send true) =
      { g := { (afterShares n).g with shareId := n + 1, shares := [share] }
        up := { (afterShares n).up with sent := [e] } } := rfl
  have hreply : step { g := { (afterShares n).g with shareId := n + 1, shares := [share] }
                       up := { (afterShares n).up with sent := [e] } }
        (.reply (proxyAt 1) (accepts n)) = afterShares (n + 1) := by
    simp [step, Gdata.parseShare, accepts, Reply.answer, Gdata.findShare, Upstream.answered,
      afterShares, share, e, proxyAt, ProxyInst.key, List.replicate_succ']
  refine ⟨⟨fun e he => absurd he List.not_mem_nil, trivial, ?_, trivial⟩, ?_⟩
  · rw [hsubmit, hsend]
    intro a ha
    obtain rfl := Option.mem_some_iff.mp ha
    simp [e, share, proxyAt, ProxyInst.key]
  · rw [shareCycle, run_cons, run_cons, run_cons, hsubmit, hsend, hreply, run_nil]

theorem run_shareCycles {n : Nat} (hn : n ≤ 2 ^ 31) :
    Along step Obeys (afterShares 0) ((List.range n).flatMap shareCycle) ∧
      run step (afterShares 0) ((List.range n).flatMap shareCycle) = afterShares n := by
  induction n with
  | zero => exact ⟨trivial, rfl⟩
  | succ n ih =>
    obtain ⟨halong, hrun⟩ := ih (Nat.le_of_succ_le hn)
    obtain ⟨hcycle, hnext⟩ := run_shareCycle (Nat.lt_of_succ_le hn)
    rw [List.range_succ, List.flatMap_append, List.flatMap_singleton, along_append, run_append,
      hrun]
    exact ⟨⟨halong, hcycle⟩, hnext⟩

/-- The share after 2^31 others, whose proxy gets another difficulty before the answer. -/
def lastShare : List Event :=
  [.submit shareFields 0, .proxies [proxyAt 2], .send true, .reply (proxyAt 2) (accepts (-2 ^ 31))]

/-- A number of shares, and the last one. -/
def manyShares (n : Nat) : List Event :=
  .proxies [proxyAt 1] :: ((List.range n).flatMap shareCycle ++ lastShare)

/-- The state in which the answer of the last share comes, and the account that it makes. -/
theorem run_lastShare {n : Nat} (hn : n = 2 ^ 31) :
    Along step Obeys (afterShares n) lastShare ∧
      (run step (afterShares n) lastShare).g.accounts =
        List.replicate n ⟨(0, 0), 1, true⟩ ++ [⟨(0, 0), 2, true⟩] ∧
      (run step (afterShares n) lastShare).up.due =
        List.replicate n ⟨(0, 0), 1, true⟩ ++ [⟨(0, 0), 1, true⟩] := by
  rw [afterShares]
  generalize hl : List.replicate n (⟨(0, 0), 1, true⟩ : Account) = l
  have hcounter : (n : Int) = 2 ^ 31 := by omega
  rw [hcounter]
  refine ⟨⟨fun e he => absurd he List.not_mem_nil, trivial, trivial, ?_, trivial⟩, ?_, ?_⟩
  · intro a ha
    obtain rfl := Option.mem_some_iff.mp ha
    rfl
  · rfl
  · rfl

theorem manyShares_unmatched_of {n : Nat} (hn : n = 2 ^ 31) :
    Along step Obeys start (manyShares n) ∧ ¬ Matches (run step start (manyShares n)) := by
  obtain ⟨halong, hrun⟩ := run_shareCycles hn.le
  obtain ⟨hlast, haccounts, hdue⟩ := run_lastShare hn
  have hstart : step start (.proxies [proxyAt 1]) = afterShares 0 := rfl
  rw [manyShares, run_cons, hstart, run_append, hrun]
  refine ⟨⟨trivial, ?_⟩, fun hmatches => ?_⟩
  · rw [hstart, along_append, hrun]
    exact ⟨halong, hlast⟩
  · have heq := hmatches.accounts
    rw [haccounts, hdue] at heq
    exact absurd (List.append_cancel_left heq) (by decide)

/-- The upstreams answer each of 2^31 + 1 shares once, in time and on its own connection, and the
last answer finds no share: it counts with the difficulty that the proxy has got in between. -/
theorem manyShares_unmatched :
    Along step Obeys start (manyShares (2 ^ 31)) ∧
      ¬ Matches (run step start (manyShares (2 ^ 31))) :=
  manyShares_unmatched_of rfl

end CashStratum.ProxyShares
