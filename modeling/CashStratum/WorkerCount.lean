/-
CashStratum/WorkerCount.lean

The lists of clients of the users, and the counts of workers (`stratifier.c`).

`generate_user` puts its client at the end of the user's list and counts it;
`__del_client`, at the end of every drop path, takes it out and counts it down.  The
two match as long as `generate_user` is not called for a client that has a user
already.  It is, for the second of two requests that a client sends before the
first is refused by the gate (`refused_twice_counts_twice`).  Without that, lists and
counts agree with the live clients over every run (`worker_counts_hold`).
-/
import CashStratum.Authorising
import Mathlib.Algebra.BigOperators.Group.List.Lemmas
import Mathlib.Algebra.Order.BigOperators.Group.List

namespace CashStratum

open Function

/-! ### Sums over a list -/

/-- A sum changes by what changes at one place. -/
theorem sum_map_of_eq_off {α : Type*} [DecidableEq α] {l : List α} (hnodup : l.Nodup) {a : α}
    (ha : a ∈ l) {f g : α → Int} (h : ∀ b ∈ l, b ≠ a → g b = f b) :
    (l.map g).sum = (l.map f).sum - f a + g a := by
  have herase : (l.erase a).map g = (l.erase a).map f := by
    refine List.map_congr_left fun b hb => ?_
    obtain ⟨hne, hmem⟩ := hnodup.mem_erase_iff.mp hb
    exact h b hmem hne
  rw [← List.sum_map_erase f ha, ← List.sum_map_erase g ha, herase]
  ring

/-- Everything in `l` is counted once, under its own key. -/
theorem sum_map_countP {α β : Type*} [DecidableEq β] (key : α → β) {keys : List β}
    (hnodup : keys.Nodup) {l : List α} (h : ∀ a ∈ l, key a ∈ keys) :
    (keys.map fun k => (l.countP fun a => key a = k : Int)).sum = l.length := by
  induction l with
  | nil => simp
  | cons a l ih =>
    have hstep : ∀ k ∈ keys, k ≠ key a → ((a :: l).countP (fun a => key a = k) : Int) =
        l.countP fun a => key a = k := by
      intro k _ hk
      rw [List.countP_cons, if_neg (by simpa using hk.symm), Nat.add_zero]
    rw [sum_map_of_eq_off hnodup (h a List.mem_cons_self) hstep,
      ih fun b hb => h b (List.mem_cons_of_mem _ hb), List.countP_cons, if_pos (by simp),
      List.length_cons]
    push_cast
    ring

/-! ### Requests that count their client once -/

/-- The username of a request that passes the checks. -/
def requestUsername (useragent : Option Bytes) (params : Params) : Option Bytes :=
  match checkAuthorise useragent params with
  | .error _ => none
  | .ok workername => generateUsername workername

/-- The client whose request the authoriser finishes has no user yet, if there is a
user it would get. -/
def AttachesOnce (c : InstanceConf) (s : InstanceData) : InstanceEvent → Prop
  | .authorise _ =>
    ∀ job ∈ s.authjob, ∀ username ∈ requestUsername (s.inst job.1).useragent job.2,
      UserRoom c s username → (s.inst job.1).userInstance = none
  | _ => True

instance (c : InstanceConf) (s : InstanceData) : DecidablePred (AttachesOnce c s)
  | .authorise _ =>
    inferInstanceAs (Decidable (∀ job ∈ s.authjob, ∀ username ∈ requestUsername _ _, _ → _))
  | .recruit .. | .insert .. | .acquire .. | .message .. | .trustedMessage .. | .share ..
  | .release .. | .iterRef .. | .iterUnref .. | .lazyDrop .. | .preauth | .dropClient ..
  | .dropAllclients | .requestReconnect | .sv2Open .. | .sv2Close .. => isTrue trivial

/-! ### Counters -/

/-- The user and the worker of a client. -/
def ClientInstance.worker (client : ClientInstance) : Option Bytes × Bytes :=
  (client.userInstance, client.workerInstance)

/-- The list and the counts of a user. -/
def UserInstance.counters (user : UserInstance) : List Nat × List Bytes × (Bytes → Int) × Int :=
  (user.clients, user.workerInstances, user.instanceCount, user.workers)

namespace InstanceData

/-- The lists of clients are exact, and everything is counted once. -/
structure Counted (s : InstanceData) : Prop where
  clients : ∀ u p, p ∈ (s.user u).clients ↔ p ∈ s.stratumInstances ∧ (s.inst p).userInstance = some u
  clients_nodup : ∀ u, (s.user u).clients.Nodup
  instanceCount : ∀ u w, (s.user u).instanceCount w =
    (s.user u).clients.countP fun p => (s.inst p).workerInstance = w
  workers : ∀ u, (s.user u).workers = (s.user u).clients.length
  stats : s.stats.workers = (s.usernames.map fun u => (s.user u).workers).sum
  usernames_nodup : s.usernames.Nodup
  usernames : ∀ u p, p ∈ (s.user u).clients → u ∈ s.usernames
  workerInstances_nodup : ∀ u, (s.user u).workerInstances.Nodup
  workerInstances : ∀ u p, p ∈ (s.user u).clients →
    (s.inst p).workerInstance ∈ (s.user u).workerInstances

namespace Counted

variable {s t : InstanceData} {p q : Nat} {c : InstanceConf} {u w : Bytes}

/-- Steps after which the same live clients have the same users and workers. -/
theorem of_same (h : Counted s)
    (hlive : ∀ u p, p ∈ t.stratumInstances ∧ (t.inst p).userInstance = some u ↔
      p ∈ s.stratumInstances ∧ (s.inst p).userInstance = some u)
    (hinst : ∀ u p, p ∈ (s.user u).clients → (t.inst p).workerInstance = (s.inst p).workerInstance)
    (husers : ∀ u, (t.user u).counters = (s.user u).counters) (hnames : t.usernames = s.usernames)
    (hstats : t.stats.workers = s.stats.workers) : Counted t := by
  have hclients : ∀ u, (t.user u).clients = (s.user u).clients := fun u => congrArg Prod.fst (husers u)
  have hworkers : ∀ u, (t.user u).workerInstances = (s.user u).workerInstances :=
    fun u => congrArg (fun x => x.2.1) (husers u)
  have hcount : ∀ u, (t.user u).instanceCount = (s.user u).instanceCount :=
    fun u => congrArg (fun x => x.2.2.1) (husers u)
  have htotal : ∀ u, (t.user u).workers = (s.user u).workers :=
    fun u => congrArg (fun x => x.2.2.2) (husers u)
  constructor
  · intro u p
    rw [hclients, hlive]
    exact h.clients u p
  · intro u
    rw [hclients]
    exact h.clients_nodup u
  · intro u w
    rw [hcount, hclients, h.instanceCount]
    congr 1
    refine List.countP_congr fun q hq => ?_
    rw [hinst u q hq]
  · intro u
    rw [htotal, hclients]
    exact h.workers u
  · simp only [hstats, hnames, htotal]
    exact h.stats
  · rw [hnames]
    exact h.usernames_nodup
  · intro u p hp
    rw [hclients] at hp
    rw [hnames]
    exact h.usernames u p hp
  · intro u
    rw [hworkers]
    exact h.workerInstances_nodup u
  · intro u p hp
    rw [hclients] at hp
    rw [hinst u p hp, hworkers]
    exact h.workerInstances u p hp

/-- Steps that leave tables, users and workers alone. -/
theorem congr (h : Counted s) (htable : t.stratumInstances = s.stratumInstances)
    (hworker : ∀ p, (t.inst p).worker = (s.inst p).worker)
    (husers : ∀ u, (t.user u).counters = (s.user u).counters) (hnames : t.usernames = s.usernames)
    (hstats : t.stats.workers = s.stats.workers) : Counted t := by
  refine h.of_same (fun u p => ?_) (fun _ p _ => congrArg Prod.snd (hworker p)) husers hnames hstats
  have huser : (t.inst p).userInstance = (s.inst p).userInstance := congrArg Prod.fst (hworker p)
  rw [htable, huser]

theorem modify (h : Counted s) {f : ClientInstance → ClientInstance}
    (hf : (f (s.inst p)).worker = (s.inst p).worker) : Counted (s.modify p f) := by
  refine h.congr rfl (fun q => ?_) (fun _ => rfl) rfl rfl
  rw [modify_inst]
  split_ifs with heq
  · rw [hf, heq]
  · rfl

theorem markDropped (h : Counted s) (p : Nat) :
    Counted (s.modify p fun i => { i with dropped := true }) :=
  h.modify rfl

theorem modifyUser (h : Counted s) {g : UserInstance → UserInstance}
    (hg : (g (s.user u)).counters = (s.user u).counters) : Counted (s.modifyUser u g) := by
  refine h.congr rfl (fun _ => rfl) (fun v => ?_) rfl rfl
  rw [modifyUser_user]
  split_ifs with heq
  · rw [hg, heq]
  · rfl

theorem nonneg (h : Counted s) : ∀ n ∈ s.usernames.map fun u => (s.user u).workers, 0 ≤ n := by
  intro n hn
  obtain ⟨u, -, rfl⟩ := List.mem_map.mp hn
  rw [h.workers]
  exact Int.natCast_nonneg _

/-- A user with a client counts for at least one. -/
theorem stats_pos (h : Counted s) (hp : p ∈ (s.user u).clients) :
    0 < (s.user u).workers ∧ 0 < s.stats.workers := by
  have hpos : 0 < (s.user u).workers := by
    rw [h.workers]
    exact_mod_cast List.length_pos_of_mem hp
  have hle : (s.user u).workers ≤ s.stats.workers := by
    rw [h.stats]
    exact List.single_le_sum h.nonneg _ (List.mem_map_of_mem (h.usernames u p hp))
  exact ⟨hpos, lt_of_lt_of_le hpos hle⟩

/-! ### Drop paths -/

/-- **An instance that is taken out is taken off its user's list, and uncounted.** -/
theorem reap (h : Counted s) (hwf : Wf s) (hp : p ∈ s.stratumInstances) : Counted (s.reap p) := by
  have hown : ∀ u, p ∈ (s.user u).clients ↔ (s.inst p).userInstance = some u :=
    fun u => (h.clients u p).trans (and_iff_right hp)
  have hworker : ∀ q, q ≠ p → ((s.reap p).inst q).worker = (s.inst q).worker := by
    intro q hq
    obtain ⟨n, hn⟩ := reap_inst_ne (s := s) hq
    rw [hn]
    rfl
  have huser : ∀ q, q ≠ p → ((s.reap p).inst q).userInstance = (s.inst q).userInstance :=
    fun q hq => congrArg Prod.fst (hworker q hq)
  have hinst : ∀ q, q ≠ p → ((s.reap p).inst q).workerInstance = (s.inst q).workerInstance :=
    fun q hq => congrArg Prod.snd (hworker q hq)
  have hmem : ∀ u q, q ∈ (s.user u).clients.erase p ↔ q ≠ p ∧ q ∈ (s.user u).clients :=
    fun u q => (h.clients_nodup u).mem_erase_iff
  -- the list of a user that has not got the instance is as it was
  have hclients : ∀ u, ((s.reap p).user u).clients = (s.user u).clients.erase p := by
    intro u
    rw [reap_user]
    split_ifs with hu
    · rfl
    · rw [List.erase_of_not_mem fun hin => hu ((hown u).mp hin)]
  have hlists : ∀ u, ((s.reap p).user u).workerInstances = (s.user u).workerInstances := by
    intro u
    rw [reap_user]
    split_ifs <;> rfl
  have hworkers : ∀ u, ((s.reap p).user u).workers =
      if (s.inst p).userInstance = some u then (s.user u).workers - 1 else (s.user u).workers := by
    intro u
    rw [reap_user]
    split_ifs with hu
    · exact if_pos (h.stats_pos ((hown u).mpr hu)).1
    · rfl
  have hnames : (s.reap p).usernames = s.usernames := by rw [reap_rest]
  constructor
  · intro u q
    rw [hclients, hmem, reap_stratumInstances, hwf.table_nodup.mem_erase_iff, and_assoc]
    refine and_congr_right fun hq => ?_
    rw [huser q hq]
    exact h.clients u q
  · intro u
    rw [hclients]
    exact (h.clients_nodup u).erase p
  · -- a worker of the user has one instance less
    intro u w
    have hcongr : (((s.reap p).user u).clients.countP fun q => ((s.reap p).inst q).workerInstance = w) =
        ((s.user u).clients.erase p).countP fun q => (s.inst q).workerInstance = w := by
      rw [hclients]
      refine List.countP_congr fun q hq => ?_
      rw [hinst q ((hmem u q).mp hq).1]
    rw [hcongr, reap_user]
    by_cases hu : (s.inst p).userInstance = some u
    · rw [if_pos hu]
      have hperm := (List.perm_cons_erase ((hown u).mpr hu)).countP_eq
        fun q => decide ((s.inst q).workerInstance = w)
      rw [List.countP_cons] at hperm
      have hcount := h.instanceCount u w
      rw [hperm] at hcount
      show update (s.user u).instanceCount (s.inst p).workerInstance _ w = _
      by_cases hw : (s.inst p).workerInstance = w
      · rw [if_pos (by simpa using hw)] at hcount
        rw [hw, update_self, hcount]
        push_cast
        rw [if_pos (by omega)]
        ring
      · rw [if_neg (by simpa using hw), Nat.add_zero] at hcount
        rw [update_of_ne (Ne.symm hw), hcount]
    · rw [if_neg hu, List.erase_of_not_mem fun hin => hu ((hown u).mp hin)]
      exact h.instanceCount u w
  · -- and the user too
    intro u
    rw [hclients, hworkers, h.workers]
    split_ifs with hu
    · rw [List.length_erase_of_mem ((hown u).mpr hu)]
      have hpos := List.length_pos_of_mem ((hown u).mpr hu)
      omega
    · rw [List.erase_of_not_mem fun hin => hu ((hown u).mp hin)]
  · -- the total follows the users
    rw [reap_stats_workers, hnames]
    rcases hu : (s.inst p).userInstance with - | v
    · rw [if_neg (by simp), h.stats]
      refine congrArg List.sum (List.map_congr_left fun u _ => ?_)
      rw [hworkers, hu, if_neg nofun]
    · have hin := (hown v).mpr hu
      rw [if_pos ⟨rfl, (h.stats_pos hin).2⟩, h.stats]
      have hsum := sum_map_of_eq_off h.usernames_nodup (h.usernames v p hin)
        (f := fun u => (s.user u).workers) (g := fun u => ((s.reap p).user u).workers)
        fun u _ hne => by rw [hworkers, hu, if_neg fun heq => hne (Option.some.inj heq).symm]
      rw [hsum, hworkers, hu, if_pos rfl]
      ring
  · rw [hnames]
    exact h.usernames_nodup
  · intro u q hq
    rw [hclients, hmem] at hq
    rw [hnames]
    exact h.usernames u q hq.2
  · intro u
    rw [hlists]
    exact h.workerInstances_nodup u
  · intro u q hq
    rw [hclients, hmem] at hq
    rw [hinst q hq.1, hlists]
    exact h.workerInstances u q hq.2

theorem dropOne (h : Counted s) (hwf : Wf s) (hp : p ∈ s.stratumInstances) : Counted (s.dropOne p) := by
  rw [InstanceData.dropOne]
  split_ifs
  · exact h.reap hwf hp
  · exact h.modify rfl

theorem dropEach (h : Counted s) (hwf : Wf s) (select : ClientInstance → Bool) :
    Counted (s.dropEach select) := by
  have hboth : Wf (s.dropEach select) ∧ Counted (s.dropEach select) := by
    refine dropEach_induction (P := fun t => Wf t ∧ Counted t) hwf.table_nodup ⟨hwf, h⟩ ?_
    rintro t q ⟨hwf', ht⟩ hq -
    exact ⟨hwf'.dropOne hq, ht.dropOne hwf' hq⟩
  exact hboth.2

theorem unlink (h : Counted s) (p : Nat) : Counted (s.unlink p) := by
  rw [InstanceData.unlink]
  split_ifs
  · exact h.congr rfl (fun _ => rfl) (fun _ => rfl) rfl rfl
  · exact h.congr rfl (fun _ => rfl) (fun _ => rfl) rfl rfl
  · exact h

theorem dropClientLocked (h : Counted s) (hwf : Wf s) (hp : p ∈ s.stratumInstances) :
    Counted (s.dropClientLocked p) := by
  rw [InstanceData.dropClientLocked]
  have hgo : ∀ t, Wf t → Counted t → p ∈ t.stratumInstances → Counted ((t.unlink p).reap p) := by
    intro t hwf' ht hlive
    refine (ht.unlink p).reap (hwf'.unlink p) ?_
    rwa [(Wf.unlink_inst t p).2]
  split_ifs
  · exact hgo _ (hwf.dropEach _) (h.dropEach hwf _) (hwf.dropSubclients_self hp).1
  · exact hgo s hwf h hp

theorem decInstanceRef (h : Counted s) (hwf : Wf s) (hheld : s.Held p) : Counted (s.decInstanceRef p) := by
  have hmod : Counted (s.modify p fun i => { i with ref := i.ref - 1 }) := h.modify rfl
  rw [InstanceData.decInstanceRef]
  split_ifs
  · exact hmod.dropClientLocked (hwf.unref hheld) (hwf.live_of_held hheld)
  · exact hmod

theorem dropClient (h : Counted s) (hwf : Wf s) (id now : Nat) : Counted (s.dropClient id now) := by
  rw [InstanceData.dropClient]
  split
  · exact h
  · rename_i q hq
    have hrest := disconnectSession_rest s q now
    have hdis : Counted (s.disconnectSession q now) := by
      rw [hrest]
      exact h.congr rfl (fun _ => rfl) (fun _ => rfl) rfl rfl
    have hlive : q ∈ (s.disconnectSession q now).stratumInstances := by
      rw [hrest]
      exact (instanceById_mem hq).1
    dsimp only
    split_ifs
    · exact hdis.dropClientLocked (hwf.disconnectSession q now) hlive
    · exact hdis.modify rfl

/-- With nobody left the counts are zero already. -/
theorem dropAllclients (h : Counted s) (hwf : Wf s) : Counted s.dropAllclients := by
  have hdrop := h.dropEach hwf fun _ => true
  rw [InstanceData.dropAllclients]
  split_ifs with hempty
  · refine hdrop.congr rfl (fun _ => rfl) (fun _ => rfl) rfl ?_
    have hzero : ∀ u, ((s.dropEach fun _ => true).user u).workers = 0 := by
      intro u
      have hnone : ((s.dropEach fun _ => true).user u).clients = [] := by
        rw [List.eq_nil_iff_forall_not_mem]
        intro q hq
        have hlive := ((hdrop.clients u q).mp hq).1
        rw [hempty] at hlive
        cases hlive
      rw [hdrop.workers, hnone]
      rfl
    rw [hdrop.stats]
    simp [hzero]
  · exact hdrop

theorem requestReconnect (h : Counted s) : Counted s.requestReconnect := by
  refine h.congr rfl (fun q => ?_) (fun _ => rfl) rfl rfl
  show (if q ∈ s.stratumInstances then _ else _ : ClientInstance).worker = _
  split_ifs <;> rfl

/-! ### Adding an instance -/

/-- An instance without a user may join the table. -/
theorem of_append (h : Counted s) (htable : t.stratumInstances = s.stratumInstances ++ [p])
    (hp : p ∉ s.stratumInstances) (hnone : (t.inst p).userInstance = none)
    (hworker : ∀ q, q ≠ p → (t.inst q).worker = (s.inst q).worker)
    (husers : ∀ u, (t.user u).counters = (s.user u).counters) (hnames : t.usernames = s.usernames)
    (hstats : t.stats.workers = s.stats.workers) : Counted t := by
  refine h.of_same (fun u q => ?_) (fun u q hq => ?_) husers hnames hstats
  · rw [htable, List.mem_append, List.mem_singleton]
    by_cases hq : q = p
    · rw [hq, hnone]
      exact ⟨fun habs => (nomatch habs.2), fun habs => absurd habs.1 hp⟩
    · have huser : (t.inst q).userInstance = (s.inst q).userInstance := congrArg Prod.fst (hworker q hq)
      rw [huser, or_iff_left hq]
  · have hne : q ≠ p := by
      rintro rfl
      exact hp ((h.clients u q).mp hq).1
    exact congrArg Prod.snd (hworker q hne)

theorem stratumRecruit (h : Counted s) (hwf : Wf s) {id server : Nat} (hid : 0 < id)
    (ht : s.stratumRecruit id server = (t, p)) : Counted t := by
  have hrest := stratumRecruit_rest s id server
  obtain ⟨-, -, htable, hinst, hdead, sessionId, hself⟩ := hwf.stratumRecruit hid ht
  rw [ht] at hrest
  dsimp only at hrest
  refine h.congr htable (fun q => ?_) (fun _ => by rw [hrest]) (by rw [hrest]) (by rw [hrest])
  by_cases hq : q = p
  · obtain ⟨_, _, _, hold⟩ := hwf.dead hdead
    rw [hq, hself, hold]
    rfl
  · rw [hinst q hq]

theorem stratumInsert (h : Counted s) (hwf : Wf s) (hp : p ∈ s.adding)
    (ht : s.stratumInsert p = (t, q)) : Counted t := by
  obtain ⟨_, _, _, hrec⟩ := hwf.recruited p hp
  obtain ⟨-, -, ⟨-, rfl⟩ | ⟨-, -, htable, hshape, hinst⟩⟩ := hwf.stratumInsert hp ht
  · refine h.of_append rfl (hwf.not_mem_table hp) ?_ (fun _ _ => rfl) (fun _ => rfl) rfl rfl
    show (s.inst p).userInstance = none
    rw [hrec]
    rfl
  · refine h.congr htable (fun r => ?_) (fun _ => by rw [hshape]) (by rw [hshape]) (by rw [hshape])
    by_cases hr : r = p
    · have hzero : t.inst r = {} := by
        have hwf' := (hwf.stratumInsert hp ht).1
        refine hwf'.blank r ?_ ?_
        · rw [htable, hr]
          exact hwf.not_mem_table hp
        · rw [hshape, hr]
          exact fun habs => (hwf.adding_nodup.mem_erase_iff.mp habs).1 rfl
      rw [hzero, hr, hrec]
      rfl
    · obtain ⟨n, hn⟩ := hinst r hr
      rw [hn]
      rfl

/-! ### Users and authorisation -/

/-- A user that nobody has heard of has no clients. -/
theorem clients_nil (h : Counted s) (hu : u ∉ s.usernames) : (s.user u).clients = [] := by
  rw [List.eq_nil_iff_forall_not_mem]
  exact fun q hq => hu (h.usernames u q hq)

theorem getCreateUser (h : Counted s) {username : Bytes} {limited newUser : Bool}
    (hget : s.getCreateUser c username limited = (t, some (u, newUser))) :
    Counted t ∧ u ∈ t.usernames := by
  obtain ⟨-, hrest, ⟨-, hmem, rfl⟩ | ⟨-, hnew, hnames, huser⟩⟩ := getCreateUser_some hget
  · exact ⟨h, hmem⟩
  · have hnil := h.clients_nil hnew
    have hinst : t.inst = s.inst := by rw [hrest]
    have htable : t.stratumInstances = s.stratumInstances := by rw [hrest]
    have hself : t.user u = {} := by rw [huser, update_self]
    have hother : ∀ v, v ≠ u → t.user v = s.user v := by
      intro v hv
      rw [huser, update_of_ne hv]
    have hclients : ∀ v, (t.user v).clients = (s.user v).clients := by
      intro v
      by_cases hv : v = u
      · rw [hv, hself, hnil]
      · rw [hother v hv]
    have hworkers : ∀ v, (t.user v).workers = (s.user v).workers := by
      intro v
      by_cases hv : v = u
      · rw [hv, hself, h.workers, hnil]
        rfl
      · rw [hother v hv]
    refine ⟨?_, ?_⟩
    · constructor
      · intro v q
        rw [hclients, htable, hinst]
        exact h.clients v q
      · intro v
        rw [hclients]
        exact h.clients_nodup v
      · intro v w
        by_cases hv : v = u
        · rw [hv, hself]
          rfl
        · rw [hother v hv, hinst]
          exact h.instanceCount v w
      · intro v
        rw [hworkers, hclients]
        exact h.workers v
      · have hstats : t.stats = s.stats := by rw [hrest]
        simp only [hworkers]
        rw [hstats, h.stats, hnames, List.map_append, List.sum_append, List.map_singleton,
          List.sum_singleton, h.workers, hnil]
        simp
      · rw [hnames]
        exact List.nodup_append.mpr ⟨h.usernames_nodup, List.nodup_singleton u,
          fun v hv v' hv' heq => hnew (by rwa [← List.mem_singleton.mp hv', ← heq])⟩
      · intro v q hq
        rw [hclients] at hq
        rw [hnames]
        exact List.mem_append_left _ (h.usernames v q hq)
      · intro v
        by_cases hv : v = u
        · rw [hv, hself]
          exact List.nodup_nil
        · rw [hother v hv]
          exact h.workerInstances_nodup v
      · intro v q hq
        rw [hclients] at hq
        by_cases hv : v = u
        · rw [hv, hnil] at hq
          cases hq
        · rw [hother v hv, hinst]
          exact h.workerInstances v q hq
    · rw [hnames]
      exact List.mem_append_right _ List.mem_cons_self

theorem getWorker (h : Counted s) (u w : Bytes) :
    Counted (s.getWorker u w) ∧ w ∈ ((s.getWorker u w).user u).workerInstances := by
  rw [InstanceData.getWorker]
  split_ifs with hw
  · exact ⟨h, hw⟩
  · have huser : ∀ v, ((s.modifyUser u fun user =>
        { user with workerInstances := user.workerInstances ++ [w] }).user v) =
        { s.user v with
          workerInstances := if v = u then (s.user v).workerInstances ++ [w]
            else (s.user v).workerInstances } := by
      intro v
      rw [modifyUser_user]
      split_ifs with hv
      · rw [hv]
      · rfl
    refine ⟨?_, ?_⟩
    · constructor
      · intro v q
        rw [huser]
        exact h.clients v q
      · intro v
        rw [huser]
        exact h.clients_nodup v
      · intro v w'
        rw [huser]
        exact h.instanceCount v w'
      · intro v
        rw [huser]
        exact h.workers v
      · simp only [huser]
        exact h.stats
      · exact h.usernames_nodup
      · intro v q hq
        rw [huser] at hq
        exact h.usernames v q hq
      · intro v
        rw [huser]
        dsimp only
        split_ifs with hv
        · rw [hv]
          exact List.nodup_append.mpr ⟨h.workerInstances_nodup u, List.nodup_singleton w,
            fun a ha b hb heq => hw (by rwa [← List.mem_singleton.mp hb, ← heq])⟩
        · exact h.workerInstances_nodup v
      · intro v q hq
        rw [huser] at hq ⊢
        dsimp only at hq ⊢
        split_ifs
        · exact List.mem_append_left _ (h.workerInstances v q hq)
        · exact h.workerInstances v q hq
    · rw [huser]
      dsimp only
      rw [if_pos rfl]
      exact List.mem_append_right _ List.mem_cons_self

/-- **`generate_user` counts its client**, if the client has no user yet. -/
theorem attach (h : Counted s) (hp : p ∈ s.stratumInstances) (hnone : (s.inst p).userInstance = none)
    (hu : u ∈ s.usernames) (hw : w ∈ (s.user u).workerInstances) : Counted (s.attach p u w) := by
  have hout : ∀ v, p ∉ (s.user v).clients := by
    intro v hin
    rw [((h.clients v p).mp hin).2] at hnone
    cases hnone
  have hself : (s.attach p u w).inst p = { s.inst p with userInstance := some u, workerInstance := w } :=
    update_self ..
  have hother : ∀ q, q ≠ p → (s.attach p u w).inst q = s.inst q := fun q hq => update_of_ne hq ..
  -- a client that is listed has its user and worker still
  have hinst : ∀ v q, q ∈ (s.user v).clients → (s.attach p u w).inst q = s.inst q := by
    intro v q hq
    refine hother q ?_
    rintro rfl
    exact hout v hq
  have hclients : ∀ v, ((s.attach p u w).user v).clients =
      if v = u then (s.user v).clients ++ [p] else (s.user v).clients := by
    intro v
    rw [attach_user]
    split_ifs with hv
    · rw [hv]
      rfl
    · rfl
  have hworkers : ∀ v, ((s.attach p u w).user v).workers =
      if v = u then (s.user v).workers + 1 else (s.user v).workers := by
    intro v
    rw [attach_user]
    split_ifs with hv
    · rw [hv]
      rfl
    · rfl
  have hlists : ∀ v, ((s.attach p u w).user v).workerInstances = (s.user v).workerInstances := by
    intro v
    rw [attach_user]
    split_ifs with hv
    · rw [hv]
      rfl
    · rfl
  have hcongr : ∀ v w', ((s.user v).clients.countP fun q => ((s.attach p u w).inst q).workerInstance = w') =
      (s.user v).clients.countP fun q => (s.inst q).workerInstance = w' := by
    intro v w'
    refine List.countP_congr fun q hq => ?_
    rw [hinst v q hq]
  constructor
  · -- the lists of clients
    intro v q
    rw [hclients]
    show _ ↔ q ∈ s.stratumInstances ∧ _
    by_cases hq : q = p
    · rw [hq, hself]
      split_ifs with hv
      · rw [hv]
        simp [hp]
      · have hne : ¬some u = some v := fun habs => hv (Option.some.inj habs).symm
        simp [hout v, hne]
    · rw [hother q hq]
      split_ifs with hv
      · rw [List.mem_append, List.mem_singleton, or_iff_left hq]
        exact h.clients v q
      · exact h.clients v q
  · -- nobody is listed twice: the client was on no list
    intro v
    rw [hclients]
    split_ifs
    · exact List.nodup_append.mpr ⟨h.clients_nodup v, List.nodup_singleton p,
        fun a ha b hb heq => hout v (by rwa [← List.mem_singleton.mp hb, ← heq])⟩
    · exact h.clients_nodup v
  · -- `instance_count` goes up for its worker
    intro v w'
    rw [hclients, attach_user]
    split_ifs with hv
    · rw [hv, List.countP_append, hcongr, List.countP_singleton, hself]
      show update (s.user u).instanceCount w _ w' = _
      by_cases hw' : w' = w
      · rw [hw', update_self, if_pos (by simp), Nat.cast_add, ← h.instanceCount]
        rfl
      · rw [update_of_ne hw', if_neg (by simpa using Ne.symm hw'), Nat.add_zero,
          ← h.instanceCount]
    · rw [hcongr]
      exact h.instanceCount v w'
  · -- `workers` goes up for its user
    intro v
    rw [hworkers, hclients, h.workers]
    split_ifs
    · rw [List.length_append]
      rfl
    · rfl
  · -- and the sum of them with it
    show s.stats.workers + 1 = (s.usernames.map fun v => ((s.attach p u w).user v).workers).sum
    have hsum := sum_map_of_eq_off h.usernames_nodup hu (f := fun v => (s.user v).workers)
      (g := fun v => ((s.attach p u w).user v).workers)
      fun v _ hne => by rw [hworkers, if_neg hne]
    rw [hsum, hworkers, if_pos rfl, h.stats]
    ring
  · exact h.usernames_nodup
  · -- who is listed is listed for a user and a worker that are there
    intro v q hq
    rw [hclients] at hq
    by_cases hv : v = u
    · rw [hv]
      exact hu
    · rw [if_neg hv] at hq
      exact h.usernames v q hq
  · intro v
    rw [hlists]
    exact h.workerInstances_nodup v
  · intro v q hq
    rw [hclients] at hq
    rw [hlists]
    by_cases hqp : q = p
    · rw [hqp, hself]
      by_cases hv : v = u
      · rw [hv]
        exact hw
      · rw [if_neg hv, hqp] at hq
        exact absurd hq (hout v)
    · have hq' : q ∈ (s.user v).clients := by
        split_ifs at hq
        · rw [List.mem_append, List.mem_singleton] at hq
          exact hq.resolve_right hqp
        · exact hq
      rw [hother q hqp]
      exact h.workerInstances v q hq'

theorem assignPayout_counters (user : UserInstance) (username canon : Bytes) :
    (user.assignPayout c username canon).counters = user.counters := by
  rw [UserInstance.assignPayout]
  split
  · rfl
  · split_ifs <;> rfl

theorem generateUser (h : Counted s) (hp : p ∈ s.stratumInstances)
    (hnone : (s.inst p).userInstance = none) (hgen : s.generateUser c p w = (t, some u)) : Counted t := by
  obtain ⟨name, r, newUser, -, hget, rfl⟩ := generateUser_some hgen
  have hrest := (getCreateUser_some hget).2.1
  obtain ⟨hr, hmem⟩ := h.getCreateUser hget
  obtain ⟨hworker, hw⟩ := hr.getWorker u w
  have hg := getWorker_rest r u w
  refine modifyUser (hworker.attach ?_ ?_ ?_ hw) ?_
  · rw [hg, hrest]
    exact hp
  · rw [hg, hrest]
    exact hnone
  · rw [hg]
    exact hmem
  · split_ifs
    · exact assignPayout_counters _ _ _
    · rfl

theorem clientAuth (h : Counted s) (p : Nat) (u : Bytes) (now : Nat) (ret : Bool) :
    Counted (s.clientAuth p u now ret) := by
  rw [InstanceData.clientAuth]
  split_ifs
  · exact modifyUser (h.modify rfl) rfl
  · exact modifyUser (h.modify rfl) rfl

theorem generateRemoteUser (h : Counted s) (workername : Bytes) :
    Counted (s.generateRemoteUser c workername).1 := by
  rw [InstanceData.generateRemoteUser]
  rcases (if (strsep workername).1 = [] then (strsep workername).2 else some (strsep workername).1)
    with - | name
  · exact h
  · dsimp only
    split_ifs
    · exact h
    · rcases hget : s.getCreateUser c (canonicaliseUsername c.chain (name.take 127)) false with
        ⟨r, - | ⟨v, newUser⟩⟩
      · rw [getCreateUser_none hget]
        exact h
      · have hr := (h.getCreateUser hget).1
        dsimp only
        split_ifs
        · refine hr.modifyUser ?_
          rw [UserInstance.assignRemotePayout]
          split <;> rfl
        · exact hr

theorem parseTrustedMsg (h : Counted s) (p : Nat) (msg : TrustedMsg) :
    Counted (s.parseTrustedMsg c p msg) := by
  cases msg with
  | share workername =>
    rw [InstanceData.parseTrustedMsg]
    have hremote := h.generateRemoteUser (c := c) workername
    rcases hgen : s.generateRemoteUser c workername with ⟨t, - | u⟩
    · rw [hgen] at hremote
      exact hremote
    · rw [hgen] at hremote
      exact ((hremote.modifyUser (u := u) (g := fun user => { user with authorised := true })
        rfl).getWorker u workername).1
  | shareErr workername => exact h.generateRemoteUser workername
  | workers username =>
    rw [InstanceData.parseTrustedMsg]
    rcases hget : s.getCreateUser c username false with ⟨r, - | ⟨v, newUser⟩⟩
    · rw [getCreateUser_none hget]
      exact h
    · exact (h.getCreateUser hget).1
  | auth clientid useragent params =>
    rw [InstanceData.parseTrustedMsg, InstanceData.parseRemoteAuth]
    dsimp only
    split_ifs
    · exact h
    · split
      · exact h
      · rename_i q _
        have hmod : Counted (s.modify q fun i =>
          { i with remote := true, useragent := useragent.or i.useragent }) := h.modify rfl
        exact hmod.congr rfl (fun _ => rfl) (fun _ => rfl) rfl rfl

theorem subscribes (h : Counted s) (hs : Subscribes p s t) : Counted t := by
  refine h.congr (by rw [hs.rest]) (fun q => ?_) (fun _ => by rw [hs.rest]) (by rw [hs.rest])
    (by rw [hs.rest])
  by_cases hq : q = p
  · rw [hq, hs.self]
    rfl
  · rw [hs.inst_ne q hq]

theorem preauth (h : Counted s) : Counted s.preauth := by
  rw [InstanceData.preauth]
  split
  · exact h
  · rename_i id params rest hq
    have hpop : Counted { s with sauthq := rest } := h.congr rfl (fun _ => rfl) (fun _ => rfl) rfl rfl
    dsimp only
    split
    · exact hpop
    · rename_i q hfound
      split_ifs
      · exact hpop
      · have hmod := hpop.modify (p := q)
          (f := fun i => { i with ref := i.ref + 1, authorising := true }) rfl
        exact hmod.congr rfl (fun _ => rfl) (fun _ => rfl) rfl rfl

theorem parseAuthorise (h : Counted s) (hp : p ∈ s.stratumInstances) (now : Nat) {params : Params}
    (honce : ∀ username ∈ requestUsername (s.inst p).useragent params,
      UserRoom c s username → (s.inst p).userInstance = none) :
    Counted (s.parseAuthorise c p now params).1 := by
  obtain ⟨e, -, heq⟩ | ⟨buf, hok, ⟨-, heq⟩ | ⟨t, u, hgen, hcases⟩⟩ := parseAuthorise_cases s c p now params
  · rw [heq]
    exact h
  · rw [heq]
    exact h.markDropped p
  · have hnone : (s.inst p).userInstance = none := by
      obtain ⟨username, hname, hroom⟩ := generateUser_room hgen
      refine honce username ?_ hroom
      rw [requestUsername, hok]
      exact hname
    have hnamed := (h.generateUser hp hnone hgen).modify (p := p)
      (f := fun i => { i with workername := some buf }) rfl
    obtain ⟨-, heq⟩ | ⟨-, err, heq⟩ := hcases
    · rw [heq]
      have hthrottled := hnamed.modifyUser (u := u) (g := fun user => { user with throttled := true }) rfl
      exact hthrottled.markDropped p
    · rw [heq]
      exact hnamed.clientAuth p u now _

theorem sauthProcess (h : Counted s) (hwf : Wf s) {now : Nat}
    (honce : AttachesOnce c s (.authorise now)) : Counted (s.sauthProcess c now) := by
  rw [InstanceData.sauthProcess]
  split
  · exact h
  · rename_i q params hjob
    have hlive := hwf.live_of_ref (hwf.job q params hjob)
    have hfree : Counted { s with authjob := none } := h.congr rfl (fun _ => rfl) (fun _ => rfl) rfl rfl
    have hparse := hfree.parseAuthorise (c := c) hlive now (honce (q, params) hjob)
    rcases hres : InstanceData.parseAuthorise { s with authjob := none } c q now params with
      ⟨t, ret, err⟩
    rw [hres] at hparse
    dsimp only at hparse ⊢
    split_ifs
    · exact hparse.modify rfl
    · exact hparse

theorem sv2OpenSession (h : Counted s) (hwf : Wf s) {id : Nat} (server now : Nat) (userIdentity : Bytes)
    (hid : s.FreshId id) : Counted (s.sv2OpenSession c id server now userIdentity) := by
  rcases hadd : s.sv2AddInstance c id server with ⟨t, q⟩
  obtain ⟨hnew, hrest, hinst, sessionId, hself⟩ := hwf.sv2AddInstance_fresh hid hadd
  obtain ⟨ht, hq, hheld⟩ := hwf.sv2AddInstance hid.1 hadd
  have hnone : (t.inst q).userInstance = none := by rw [hself]; rfl
  have hcount : Counted t :=
    h.of_append (by rw [hrest]) hnew hnone (fun r hr => by rw [hinst r hr])
      (fun _ => by rw [hrest]; rfl) (by rw [hrest]; rfl) (by rw [hrest]; rfl)
  obtain ⟨r, heq, hw, hcases⟩ := sv2OpenSession_cases now userIdentity hadd
  have hr : Counted r := by
    rcases hcases with ⟨-, rfl⟩ | ⟨r', u, hgen, hcases⟩
    · exact hcount.modify rfl
    · have hnamed := (hcount.generateUser hq hnone hgen).modify (p := q)
        (f := fun i => { i with workername := some userIdentity }) rfl
      obtain ⟨-, rfl⟩ | ⟨-, rfl⟩ := hcases
      · exact hnamed.modify rfl
      · exact hnamed.clientAuth q u now true
  rw [heq]
  exact hr.decInstanceRef (ht.writes hw hq) (hw.held hheld)

theorem sv2CloseSession (h : Counted s) (hwf : Wf s) (id : Nat) : Counted (s.sv2CloseSession id) := by
  rw [InstanceData.sv2CloseSession]
  split
  · exact h
  · rename_i q hq
    split_ifs
    · exact h
    · have hmod : Counted (s.modify q fun i => { i with ref := i.ref + 1, dropped := true }) := h.modify rfl
      have hheld := hwf.held_of_ref q
      rw [Held, modify_inst_self] at hheld
      refine hmod.decInstanceRef
        (hwf.modify_of_ref (instanceById_mem hq).1 rfl (Nat.le_succ _)) ?_
      rw [Held, modify_inst_self]
      exact hheld

/-! ### Steps and runs -/

/-- **Every event that attaches once keeps the counts.** -/
theorem step (h : Counted s) (hwf : Wf s) {e : InstanceEvent} (honce : AttachesOnce c s e) :
    Counted (s.step c e) := by
  have hdoes := step_does c s e
  generalize s.step c e = t at hdoes ⊢
  cases hdoes with
  | idle => exact h
  | recruit server hid hok =>
    refine stratumRecruit ?_ (hwf.subclientCreateOk hok) hid rfl
    rcases subclientCreateOk_cases hok with rfl | ⟨parent, -, rfl⟩
    · exact h
    · exact h.modify rfl
  | insert hadd hins => exact h.stratumInsert hwf hadd hins
  | receive hadd hins => exact (h.stratumInsert hwf hadd hins).modify rfl
  | leaves => exact h.dropClient hwf _ _
  | subscribe params => exact h.subscribes (Subscribes.parseSubscribe s c _ params)
  | @remote p now hheld =>
    obtain ⟨hwf', hheld'⟩ := hwf.addRemoteServer_held (hwf.live_of_held hheld)
    have hmod : Counted (s.modify p fun i => { i with trusted := true, ref := i.ref + 1 }) :=
      h.modify rfl
    have hadd : Counted (s.addRemoteServer p) :=
      hmod.congr rfl (fun _ => rfl) (fun _ => rfl) rfl rfl
    exact hadd.decInstanceRef hwf' hheld'
  | @node p =>
    have hmod : Counted (s.modify p fun i => { i with node := true, ref := i.ref + 1 }) :=
      h.modify rfl
    exact hmod.congr rfl (fun _ => rfl) (fun _ => rfl) rfl rfl
  | takes | passthrough | share | iterUnref | lazyDrop => exact h.modify rfl
  | asks => exact h.congr rfl (fun _ => rfl) (fun _ => rfl) rfl rfl
  | trusted msg => exact h.parseTrustedMsg _ msg
  | release hheld => exact h.decInstanceRef hwf hheld
  | preauth => exact h.preauth
  | authorise now => exact h.sauthProcess hwf honce
  | dropClient id now => exact h.dropClient hwf id now
  | dropAllclients => exact h.dropAllclients hwf
  | requestReconnect => exact h.requestReconnect
  | sv2Open server now userIdentity hid => exact h.sv2OpenSession hwf server now _ hid
  | sv2Close id => exact h.sv2CloseSession hwf id

theorem start (loaded : LoadedUsers) (randomiser : Nat) :
    Counted (InstanceData.start loaded randomiser) where
  clients _ _ := ⟨nofun, nofun⟩
  clients_nodup _ := List.nodup_nil
  instanceCount _ _ := rfl
  workers _ := rfl
  stats := by simp [InstanceData.start]
  usernames_nodup := loaded.usernames_nodup
  usernames _ _ := nofun
  workerInstances_nodup u := loaded.workers_nodup u
  workerInstances _ _ := nofun

end Counted

/-- The clients of a user are the live ones that have it. -/
theorem Counted.perm {s : InstanceData} (h : Counted s) (hwf : Wf s) (u : Bytes) :
    (s.user u).clients.Perm (s.stratumInstances.filter fun p => (s.inst p).userInstance = some u) := by
  rw [List.perm_ext_iff_of_nodup (h.clients_nodup u) (hwf.table_nodup.filter _)]
  intro p
  rw [h.clients u p, List.mem_filter, decide_eq_true_iff]

/-- **Clients are counted once**, over every run in which no request gives a user to a
client that has one: a client is in the list of its user exactly once and in no
other, and nobody else is; the count of a worker is the number of live clients on it,
the counts of users and of the pool are the sums, and none is negative. -/
theorem worker_counts_hold (c : InstanceConf) (loaded : LoadedUsers) (randomiser : Nat)
    (events : List InstanceEvent)
    (honce : Along (InstanceData.step c) (AttachesOnce c) (InstanceData.start loaded randomiser) events) :
    let s := run (InstanceData.step c) (InstanceData.start loaded randomiser) events
    (∀ u p, (s.user u).clients.count p =
      if p ∈ s.stratumInstances ∧ (s.inst p).userInstance = some u then 1 else 0) ∧
    (∀ u w, (s.user u).instanceCount w = s.stratumInstances.countP fun p =>
      (s.inst p).userInstance = some u ∧ (s.inst p).workerInstance = w) ∧
    (∀ u, (s.user u).workers = ((s.user u).workerInstances.map (s.user u).instanceCount).sum) ∧
    s.stats.workers = (s.usernames.map fun u => (s.user u).workers).sum ∧
    (∀ u w, 0 ≤ (s.user u).instanceCount w) ∧ (∀ u, 0 ≤ (s.user u).workers) ∧ 0 ≤ s.stats.workers := by
  intro s
  have hinv : Wf s ∧ Counted s := by
    refine run_invariant (I := fun t => Wf t ∧ Counted t) ?_ honce
      ⟨Wf.start loaded randomiser, Counted.start loaded randomiser⟩
    rintro t e he ⟨hwf, ht⟩
    exact ⟨hwf.step e, ht.step hwf he⟩
  obtain ⟨hwf, hcount⟩ := hinv
  refine ⟨?_, ?_, ?_, hcount.stats, ?_, ?_, ?_⟩
  · intro u p
    rw [(hcount.clients_nodup u).count]
    exact if_congr (hcount.clients u p) rfl rfl
  · intro u w
    rw [hcount.instanceCount, (hcount.perm hwf u).countP_eq, List.countP_filter]
    congr 2
    funext p
    rw [← Bool.decide_and]
    exact decide_eq_decide.mpr and_comm
  · intro u
    have hsum := sum_map_countP (fun p => (s.inst p).workerInstance) (hcount.workerInstances_nodup u)
      (hcount.workerInstances u)
    rw [hcount.workers, ← hsum]
    exact congrArg List.sum (List.map_congr_left fun w _ => (hcount.instanceCount u w).symm)
  · intro u w
    rw [hcount.instanceCount]
    exact Int.natCast_nonneg _
  · intro u
    rw [hcount.workers]
    exact Int.natCast_nonneg _
  · rw [hcount.stats]
    exact List.sum_nonneg hcount.nonneg

theorem worker_counts_hold_bob :
    let events := connect 1 0 0 ++ subscribe 0 :: authorise 0 [98, 111, 98]
    let s := run (InstanceData.step exampleConf) (InstanceData.start noUsers 5) events
    Along (InstanceData.step exampleConf) (AttachesOnce exampleConf) (InstanceData.start noUsers 5)
        events ∧
      (∀ u p, (s.user u).clients.count p =
        if p ∈ s.stratumInstances ∧ (s.inst p).userInstance = some u then 1 else 0) ∧
      (∀ u w, (s.user u).instanceCount w = s.stratumInstances.countP fun p =>
        (s.inst p).userInstance = some u ∧ (s.inst p).workerInstance = w) ∧
      (∀ u, (s.user u).workers = ((s.user u).workerInstances.map (s.user u).instanceCount).sum) ∧
      s.stats.workers = (s.usernames.map fun u => (s.user u).workers).sum ∧
      (∀ u w, 0 ≤ (s.user u).instanceCount w) ∧ (∀ u, 0 ≤ (s.user u).workers) ∧ 0 ≤ s.stats.workers := by
  have honce : Along (InstanceData.step exampleConf) (AttachesOnce exampleConf)
      (InstanceData.start noUsers 5) (connect 1 0 0 ++ subscribe 0 :: authorise 0 [98, 111, 98]) := by
    decide
  exact ⟨honce, worker_counts_hold exampleConf noUsers 5 _ honce⟩

/-- The username `bitcoincash:q`, which the gate refuses. -/
def refusedName : Bytes := bitcoincash.chars ++ [58, 113]

/-- Two requests for a name the gate refuses, sent one after the other: the second
counts the client again, and puts it into the list of its user a second time. -/
theorem refused_twice_counts_twice :
    let s := run (InstanceData.step exampleConf) (InstanceData.start noUsers 5)
      (connect 1 0 0 ++ [subscribe 0, .message 0 0 (.authorise (some [.str refusedName])),
        .message 0 0 (.authorise (some [.str refusedName])), .preauth, .authorise 1700000000, .preauth,
        .authorise 1700000010])
    s.stratumInstances = [0] ∧ (s.inst 0).dropped = false ∧
      (s.user refusedName).clients.count 0 = 2 ∧ (s.user refusedName).instanceCount refusedName = 2 ∧
      (s.user refusedName).workers = 2 ∧ s.stats.workers = 2 := by
  decide

end InstanceData

end CashStratum
