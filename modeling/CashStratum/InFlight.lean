/-
CashStratum/InFlight.lean

Shares in flight when the difficulty changes (`stratifier.c`).

A share on a job that was sent before a change may still use the difficulty before it:
`diff_change_job_id` is the id of the first workbase after the change, and below it
the lesser of `diff` and `old_diff` counts.  But there is one `old_diff`.  A second
change, before or after the next workbase, forgets the difficulty the job was sent at,
and a miner that meets it is rejected (`two_raises_reject`).  `in_flight_shares_pass`
says which changes do no harm: those at which every open job was sent at no less than
the difficulty before, or at no less than the new one.
-/
import CashStratum.DifficultyRun

namespace CashStratum

/-! ### The difficulty of a share -/

/-- A share that meets `d` meets what it has to: the difficulty, or the one before on a
workbase from before the change. -/
theorem DiffClient.shareDiff_le_iff (client : DiffClient) (id d : Int) :
    client.shareDiff id ≤ d ↔
      client.diff ≤ d ∨ (client.oldDiff ≤ d ∧ id < client.diffChangeJobId ∧
        (client.sv2 → id ≠ 0 ∧ 0 < client.oldDiff)) := by
  unfold shareDiff
  cases hsv2 : client.sv2
  · by_cases hid : id < client.diffChangeJobId <;> simp [hid]
  · by_cases hid : id ≠ 0 ∧ id < client.diffChangeJobId ∧ 0 < client.oldDiff
    · simp [hid]
    · rw [if_pos rfl, if_neg hid]
      refine ⟨Or.inl, ?_⟩
      rintro (h | ⟨-, hlt, hpos⟩)
      · exact h
      · exact absurd ⟨(hpos rfl).1, hlt, (hpos rfl).2⟩ hid

theorem DiffClient.shareDiff_congr {client client' : DiffClient}
    (h : client'.grace = client.grace) (id : Int) : client'.shareDiff id = client.shareDiff id := by
  simp only [DiffClient.grace, Prod.mk.injEq] at h
  obtain ⟨hdiff, hold, hchange, hsv2, -⟩ := h
  unfold shareDiff
  rw [hdiff, hold, hchange, hsv2]

theorem DiffClient.graced_congr {client client' : DiffClient} {change : Option (Int × Int)}
    (h : client'.grace = client.graceAfter change) : client'.graced = client.graced := by
  have hfields : client'.sv2 = client.sv2 ∧ client'.latency = client.latency := by
    cases change <;> simp only [DiffClient.grace, DiffClient.graceAfter, Prod.mk.injEq] at h <;>
      exact ⟨h.2.2.2.1, h.2.2.2.2⟩
  rw [DiffClient.graced, hfields.1, hfields.2]
  rfl

namespace DiffState

/-! ### Open jobs -/

section Open

variable {proxy : Bool} (s : DiffState proxy)

/-- A share on the workbase still comes to be compared with its difficulty: the
workbase is in the table, and not stale or the client has the grace of a mining
node. -/
def Open (id : Int) : Prop :=
  id ∈ s.bases.workbases ∧ (s.bases.blockchangeId ≤ id ∨ s.client.graced)

instance (id : Int) : Decidable (s.Open id) := inferInstanceAs (Decidable (_ ∧ _))

/-- A share on `id` that passes every other check. -/
def soundShare (id : Int) (sdiff : ℚ) : Share where
  id
  sdiff
  wdiff := 0
  coinbase := true
  late := true
  ntimeOk := true
  fresh := true
  rate := ⟨⟨0, 0⟩, 0, 0, 0, 0⟩

/-- **No share in flight is rejected as low difficulty**: none that meets the difficulty
the client had when its job was sent. -/
def InFlightPass : Prop :=
  ∀ job ∈ s.jobs, ∀ sh : Share, sh.id = job.1 → (job.2 : ℚ) ≤ sh.sdiff →
    s.parseSubmit sh ≠ .highDiff

theorem parseSubmit_highDiff {sh : Share} (h : s.parseSubmit sh = .highDiff) :
    s.Open sh.id ∧ sh.sdiff < s.client.shareDiff sh.id := by
  unfold parseSubmit at h
  split_ifs at h with hcurrent hid hcoinbase hstale hntime hdiff
  refine ⟨⟨hid, ?_⟩, lt_of_not_ge hdiff⟩
  by_cases hblock : s.bases.blockchangeId ≤ sh.id
  · exact Or.inl hblock
  · have hgraced := not_and.mp hstale (lt_of_not_ge hblock)
    simp only [Bool.not_eq_true', Bool.not_eq_false, Bool.and_eq_true] at hgraced
    exact Or.inr hgraced.1

theorem parseSubmit_soundShare {id : Int} {sdiff : ℚ} (hopen : s.Open id)
    (hlow : sdiff < s.client.shareDiff id) : s.parseSubmit (soundShare id sdiff) = .highDiff := by
  obtain ⟨hmem, hfresh⟩ := hopen
  obtain ⟨last, hlast, -⟩ := s.bases.le_current id hmem
  have hcurrent : s.bases.current ≠ none := Option.ne_none_iff_exists'.mpr ⟨last, hlast⟩
  have hstale : ¬(id < s.bases.blockchangeId ∧ !(s.client.graced && true)) := by
    rintro ⟨hlt, hnot⟩
    rcases hfresh with hle | hgraced
    · exact absurd hlt (not_lt.mpr hle)
    · simp [hgraced] at hnot
  unfold parseSubmit soundShare
  dsimp only
  rw [if_neg hcurrent, if_neg (not_not.mpr hmem), if_neg (by decide), if_neg hstale,
    if_neg (by decide), if_neg (not_le.mpr hlow)]

/-- What counts is the difficulty of the open jobs. -/
theorem inFlightPass_iff :
    s.InFlightPass ↔ ∀ job ∈ s.jobs, s.Open job.1 → s.client.shareDiff job.1 ≤ job.2 := by
  constructor
  · intro h job hjob hopen
    by_contra hlow
    have hlt : (job.2 : ℚ) < s.client.shareDiff job.1 := by exact_mod_cast not_le.mp hlow
    exact h job hjob (soundShare job.1 job.2) rfl (le_refl _) (s.parseSubmit_soundShare hopen hlt)
  · rintro h job hjob sh hid hmeets hreject
    obtain ⟨hopen, hlow⟩ := s.parseSubmit_highDiff hreject
    rw [hid] at hopen hlow
    have hle : (s.client.shareDiff job.1 : ℚ) ≤ job.2 := by exact_mod_cast h job hjob hopen
    exact absurd (hmeets.trans_lt hlow) (not_lt.mpr hle)

/-- The ids of the jobs sent were issued. -/
def JobsIssued : Prop :=
  ∀ job ∈ s.jobs, job.1 < s.bases.workbaseId ∨ proxy ∧ job.1 = s.bases.workbaseId

end Open

/-! ### One event -/

variable {c : DiffConf} {s : DiffState c.proxy}

/-- A change of the difficulty leaves the jobs in flight alone: each open one was sent at
no less than the new difficulty, or at no less than the one before, which then still
counts for it. -/
def Covers (c : DiffConf) (s : DiffState c.proxy) (e : DiffEvent) : Prop :=
  ∀ change ∈ newDiff c s e, ∀ job ∈ s.jobs, s.Open job.1 →
    change.1 ≤ job.2 ∨ (s.client.diff ≤ job.2 ∧ job.1 < change.2 ∧
      (s.client.sv2 → job.1 ≠ 0 ∧ 0 < s.client.diff))

instance (e : DiffEvent) : Decidable (Covers c s e) :=
  inferInstanceAs (Decidable (∀ change ∈ newDiff c s e, ∀ job ∈ s.jobs, _))

/-- Issued ids stay so. -/
theorem issued_stepBases {id : Int}
    (h : id < s.bases.workbaseId ∨ c.proxy ∧ id = s.bases.workbaseId) (e : DiffEvent) :
    id < (stepBases c s e).workbaseId ∨ c.proxy ∧ id = (stepBases c s e).workbaseId := by
  cases e with
  | addBase jobid newBlock =>
    show id < (s.bases.addBase jobid newBlock).workbaseId ∨
      c.proxy ∧ id = (s.bases.addBase jobid newBlock).workbaseId
    by_cases hseen : c.proxy ∧ jobid ≤ s.bases.workbaseId
    · rw [Workbases.addBase, dif_pos hseen]
      exact h
    · rw [Workbases.addBase, dif_neg hseen]
      exact s.bases.issued_of_le (s.bases.lt_nextId h hseen).le
  | addRemoteBase =>
    show id < s.bases.workbaseId + 1 ∨ c.proxy ∧ id = s.bases.workbaseId + 1
    omega
  | ageBase id' =>
    show id < (s.bases.age id').workbaseId ∨ c.proxy ∧ id = (s.bases.age id').workbaseId
    unfold Workbases.age
    split_ifs <;> exact h
  | _ => exact h

theorem JobsIssued.step (h : s.JobsIssued) (e : DiffEvent) : (step c s e).JobsIssued := by
  intro job hjob
  refine issued_stepBases ?_ e
  cases e with
  | notify id =>
    by_cases hid : id ∈ s.bases.workbases
    · rw [DiffState.step, if_pos hid] at hjob
      rcases List.mem_cons.mp hjob with rfl | hjob
      · exact s.bases.issued id hid
      · exact h job hjob
    · rw [DiffState.step, if_neg hid] at hjob
      exact h job hjob
  | _ => exact h job hjob

/-- No event opens a job again. -/
theorem open_of_step {e : DiffEvent} (he : e.InSession) {id : Int}
    (hissued : id < s.bases.workbaseId ∨ c.proxy ∧ id = s.bases.workbaseId)
    (h : (step c s e).Open id) : s.Open id := by
  have hgraced : (step c s e).client.graced = s.client.graced :=
    DiffClient.graced_congr (grace_step c s he)
  obtain ⟨hmem, hblock⟩ := h
  rw [hgraced] at hblock
  cases e with
  | addBase jobid newBlock =>
    change id ∈ (s.bases.addBase jobid newBlock).workbases at hmem
    change (s.bases.addBase jobid newBlock).blockchangeId ≤ id ∨ _ at hblock
    by_cases hseen : c.proxy ∧ jobid ≤ s.bases.workbaseId
    · rw [Workbases.addBase, dif_pos hseen] at hmem hblock
      exact ⟨hmem, hblock⟩
    · rw [Workbases.addBase, dif_neg hseen] at hmem hblock
      have hlt := s.bases.lt_nextId hissued hseen
      refine ⟨(List.mem_cons.mp hmem).resolve_left (ne_of_lt hlt), ?_⟩
      cases newBlock with
      | false => exact hblock
      | true => exact hblock.imp_left fun hle => absurd hlt (not_lt.mpr hle)
  | ageBase id' =>
    change id ∈ (s.bases.age id').workbases at hmem
    change (s.bases.age id').blockchangeId ≤ id ∨ _ at hblock
    unfold Workbases.age at hmem hblock
    split_ifs at hmem hblock
    · exact ⟨hmem, hblock⟩
    · exact ⟨List.mem_of_mem_filter hmem, hblock⟩
  | _ => exact ⟨hmem, hblock⟩

/-- Only `notify` sends a job, at the difficulty of the moment. -/
theorem mem_jobs_step {e : DiffEvent} {job : Int × Int} (h : job ∈ (step c s e).jobs) :
    job ∈ s.jobs ∨ job.2 = s.client.diff := by
  cases e with
  | notify id =>
    by_cases hid : id ∈ s.bases.workbases
    · rw [DiffState.step, if_pos hid] at h
      rcases List.mem_cons.mp h with rfl | hold
      · exact Or.inr rfl
      · exact Or.inl hold
    · rw [DiffState.step, if_neg hid] at h
      exact Or.inl h
  | _ => exact Or.inl h

/-- An event that changes the difficulty changes nothing else that jobs depend on. -/
theorem rest_of_newDiff {e : DiffEvent} {change : Int × Int} (h : newDiff c s e = some change) :
    (step c s e).bases = s.bases ∧ (step c s e).jobs = s.jobs := by
  cases e with
  | suggest | submit | sv2SetDiff => exact ⟨rfl, rfl⟩
  | _ => cases h

/-- An event that does not change the difficulty keeps the shares in flight. -/
theorem InFlightPass.of_unchanged {e : DiffEvent} (he : e.InSession) (hissued : s.JobsIssued)
    (hpass : s.InFlightPass) (h : newDiff c s e = none) : (step c s e).InFlightPass := by
  have hgrace : (step c s e).client.grace = s.client.grace := by
    rw [grace_step c s he, h]
    rfl
  rw [inFlightPass_iff] at hpass ⊢
  intro job hjob hopen
  rw [DiffClient.shareDiff_congr hgrace]
  rcases mem_jobs_step hjob with hold | hnow
  · exact hpass job hold (open_of_step he (hissued job hold) hopen)
  · rw [hnow, DiffClient.shareDiff_le_iff]
    exact Or.inl (le_refl _)

/-- **The step.**  While no share in flight is rejected, an event keeps it so exactly
when it covers the jobs. -/
theorem inFlightPass_step {e : DiffEvent} (he : e.InSession) (hissued : s.JobsIssued)
    (hpass : s.InFlightPass) : (step c s e).InFlightPass ↔ Covers c s e := by
  have hgrace := grace_step c s he
  have hgraced : (step c s e).client.graced = s.client.graced := DiffClient.graced_congr hgrace
  rcases hchange : newDiff c s e with _ | ⟨x, first⟩
  · refine iff_of_true (hpass.of_unchanged he hissued hchange) ?_
    rintro change hmem
    rw [hchange] at hmem
    cases hmem
  · obtain ⟨hbases, hjobs⟩ := rest_of_newDiff hchange
    rw [hchange] at hgrace
    simp only [DiffClient.grace, DiffClient.graceAfter, Prod.mk.injEq] at hgrace
    obtain ⟨hdiff, hold, hfirst, hsv2, -⟩ := hgrace
    have hopen : ∀ id, (step c s e).Open id ↔ s.Open id := by
      intro id
      unfold Open
      rw [hbases, hgraced]
    rw [inFlightPass_iff, hjobs]
    simp only [hopen, DiffClient.shareDiff_le_iff, hdiff, hold, hfirst, hsv2, Covers, hchange,
      Option.mem_some, forall_eq']

/-! ### Whole sessions -/

/-- **Shares in flight through a session.**  From when the first job is sent, whatever
order of shares, suggestions, `UpdateChannel`s and workbases follows: no share that meets the
difficulty its job was sent at is rejected as low difficulty, in any state of the session,
exactly when every change of the difficulty covers the jobs. -/
theorem in_flight_shares_pass (c : DiffConf) (s : DiffState c.proxy) (hjobs : s.jobs = [])
    (events : List DiffEvent) (hsession : ∀ e ∈ events, e.InSession) :
    (∀ before, before <+: events → (run (step c) s before).InFlightPass) ↔
      Along (step c) (Covers c) s events := by
  have hissued : s.JobsIssued := by
    intro job hjob
    rw [hjobs] at hjob
    cases hjob
  have hpass : s.InFlightPass := by
    intro job hjob
    rw [hjobs] at hjob
    cases hjob
  refine run_always_iff (I := JobsIssued) (Q := DiffEvent.InSession) ?_ ?_ hsession hissued hpass
  · intro s' e _ hi
    exact hi.step e
  · intro s' e he hi hp
    exact inFlightPass_step he hi hp

/-- A raise, the next workbase and a lower suggestion. -/
theorem in_flight_shares_pass_raised :
    (run (step exampleDiffConf) exampleSession
      [.notify 100, .suggest (.text (some 20000)), .addBase 0 false, .notify 101,
        .suggest (.text (some 5000))]).InFlightPass :=
  (in_flight_shares_pass exampleDiffConf exampleSession rfl
    [.notify 100, .suggest (.text (some 20000)), .addBase 0 false, .notify 101,
      .suggest (.text (some 5000))] (by decide)).mpr (by decide) _ (List.prefix_refl _)

/-- **Two raises and the job is lost.**  It was sent at 10000; after suggestions of 20000
and 30000 a share that meets 10000 is rejected, on the same workbase. -/
theorem two_raises_reject :
    ¬∀ (c : DiffConf) (s : DiffState c.proxy), s.jobs = [] → ∀ events : List DiffEvent,
      (∀ e ∈ events, e.InSession) → ∀ before, before <+: events →
        (run (step c) s before).InFlightPass := by
  intro h
  have hpass := h exampleDiffConf exampleSession rfl
    [.notify 100, .suggest (.text (some 20000)), .suggest (.text (some 30000))] (by decide) _
    (List.prefix_refl _)
  exact hpass (100, 10000) (by decide) (soundShare 100 10000) rfl (le_refl _)
    (by decide)

end DiffState

end CashStratum
