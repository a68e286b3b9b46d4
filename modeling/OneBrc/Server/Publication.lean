import OneBrc.Server.Owners

/-! From the checks of `publishPrivate` on: no listed submission is measured again, as long as none
is retried and no worker still held one at the checks. -/
namespace OneBrc.Server
open Lib Runner

/-- The results are published, or a `publishPrivate` has passed its checks. -/
def System.Closed (s : System) : Prop :=
  s.publishing = true ∨ s.db.contestState.privatePublishedAt ≠ none

instance (s : System) : Decidable s.Closed :=
  inferInstanceAs (Decidable (s.publishing = true ∨ s.db.contestState.privatePublishedAt ≠ none))

namespace Submission

/-- The submission can appear on a leaderboard. -/
def Listed (config : Config) (row : Submission) : Prop :=
  row.uploadStartedAt ≤ config.contestEndAt ∧ row.username ∉ config.admins

instance (config : Config) (row : Submission) : Decidable (row.Listed config) :=
  inferInstanceAs (Decidable (row.uploadStartedAt ≤ config.contestEndAt ∧
    row.username ∉ config.admins))

/-- The columns of a row that a result sets and a leaderboard shows. -/
def results (row : Submission) : (Option Verdict × Option ℕ) × Option Verdict × Option ℕ :=
  ((row.publicVerdict, row.publicScoreNS), row.privateVerdict, row.privateScoreNS)

/-- Storing the result leaves the row's results as they are. -/
def Repeats (row : Submission) (result : RunnerJobResult) : Prop :=
  row.publicVerdict = some result.publicResult.verdict ∧
    (nullableBigint result.publicResult.medianNS).toOption = some row.publicScoreNS ∧
    row.privateVerdict = result.privateResult.map (·.verdict) ∧
    (nullableBigint (result.privateResult.bind (·.medianNS))).toOption = some row.privateScoreNS

instance (row : Submission) (result : RunnerJobResult) : Decidable (row.Repeats result) :=
  inferInstanceAs (Decidable (_ ∧ _ ∧ _ ∧ _))

/-- What a step after the publication may change of a listed row: disqualify it. -/
structure Kept (row row' : Submission) : Prop where
  id : row'.id = row.id
  username : row'.username = row.username
  order : row'.order = row.order
  language : row'.language = row.language
  results : row'.results = row.results
  disqualified : row.disqualifiedReason ≠ none → row'.disqualifiedReason ≠ none

end Submission

/-- The worker at this point does not go on to store a new result of a listed submission. -/
def WorkerPc.KeepsResults (config : Config)
    (submissions : Table String Submission Submission.id) : WorkerPc → Prop
  | .claimed job | .running job => ∀ row ∈ submissions.get? job.id, ¬ row.Listed config
  | .storing job result =>
      ∀ row ∈ submissions.get? job.id, row.Listed config → row.Repeats result
  | _ => True

instance (config : Config) (submissions : Table String Submission Submission.id) (pc : WorkerPc) :
    Decidable (pc.KeepsResults config submissions) :=
  match pc with
  | .claimed job | .running job =>
      inferInstanceAs (Decidable (∀ row ∈ submissions.get? job.id, ¬ row.Listed config))
  | .storing job result => inferInstanceAs
      (Decidable (∀ row ∈ submissions.get? job.id, row.Listed config → row.Repeats result))
  | .waiting | .starting | .head | .marking _ _ | .cleaning _ | .leaving | .stopped =>
      isTrue trivial

/-- The condition on steps: no listed submission is retried once the results are closed, and when
they are being closed no worker holds an unstored result of one. -/
def KeepsResults (config : Config) (s : System) : Action → Prop
  | .admin (.retry k) => s.Closed → ∀ row ∈ s.row k, ¬ row.Listed config
  | .admin .publishCheck => ∀ rep ∈ s.replicas.rows, ∀ pc ∈ rep.workerPc?,
      pc.KeepsResults config s.db.submissions
  | _ => True

instance (config : Config) : DecidableRel (KeepsResults config) := fun s a =>
  match a with
  | .admin (.retry k) =>
      inferInstanceAs (Decidable (s.Closed → ∀ row ∈ s.row k, ¬ row.Listed config))
  | .admin .publishCheck => inferInstanceAs (Decidable (∀ rep ∈ s.replicas.rows,
      ∀ pc ∈ rep.workerPc?, pc.KeepsResults config s.db.submissions))
  | .tick _ | .ensureUser _ | .start _ | .stop _ | .crash _ | .loseLock | .reserve _ _ _ _
  | .upload _ _ | .recover _ _ | .worker _ _ | .admin (.disqualify _ _) | .admin .publishCommit
  | .admin .publishAbort | .admin .unpublish => isTrue trivial

/-- What the checks and the condition establish, and what every later step keeps. -/
structure Quiet (config : Config) (s : System) : Prop where
  ended : config.contestEndAt < s.now
  drained : ∀ k row, s.row k = some row → row.Listed config → row.status.isActive = false
  idle : ∀ r pc, s.workerPc r = some pc → pc.KeepsResults config s.db.submissions

section
variable {config : Config} {s s' : System} {a : Action} {k : String}

theorem Submission.Repeats.results_complete {row : Submission} {result : RunnerJobResult}
    {now : Timestamp} {publicScore privateScore : Option ℕ} (h : row.Repeats result)
    (hpublic : nullableBigint result.publicResult.medianNS = .ok publicScore)
    (hprivate : nullableBigint (result.privateResult.bind (·.medianNS)) = .ok privateScore) :
    (row.complete now result.publicResult result.privateResult publicScore
      privateScore).results = row.results := by
  obtain ⟨hv, hs, hpv, hps⟩ := h
  rw [hpublic] at hs
  rw [hprivate] at hps
  obtain rfl := Option.some.inj hs
  obtain rfl := Option.some.inj hps
  simp [Submission.results, Submission.complete, hv, hpv]

theorem Submission.repeats_congr {row row' : Submission} {result : RunnerJobResult}
    (h : row'.results = row.results) : row'.Repeats result ↔ row.Repeats result := by
  simp only [Submission.results, Prod.mk.injEq] at h
  unfold Submission.Repeats
  rw [h.1.1, h.1.2, h.2.1, h.2.2]

theorem RowStep.listed {row row' : Submission}
    (h : RowStep config s k a (some row) (some row')) :
    row'.Listed config ↔ row.Listed config := by
  obtain ⟨hname, horder⟩ := h.keeps
  have htime : row'.uploadStartedAt = row.uploadStartedAt :=
    congrArg (fun key => (ofLex key).1) horder
  unfold Submission.Listed
  rw [hname, htime]

theorem now_step (h : step config s a = some s') : s.now ≤ s'.now := by
  cases step_effect h with
  | tick elapsed => exact Nat.le_add_right _ _
  | ensureUser | start | stop | crash | loseLock | reserve => exact le_rfl
  | upload u action _ _ heffect =>
    generalize u.pc = pc at heffect
    cases heffect <;> exact le_rfl
  | recover rep pc action _ _ _ heffect => cases heffect <;> exact le_rfl
  | worker rep pc action _ _ _ heffect => cases heffect <;> exact le_rfl
  | admin action _ heffect => cases heffect <;> exact le_rfl

/-- What a step does to the publication; `publishing` stands for the open transaction. -/
inductive ContestStep (s s' : System) : Action → Prop
  | same (a : Action) (hpublishing : s'.publishing = s.publishing)
      (hpublished : s'.db.contestState.privatePublishedAt =
        s.db.contestState.privatePublishedAt) : ContestStep s s' a
  | check (hpublished : s'.db.contestState.privatePublishedAt =
      s.db.contestState.privatePublishedAt) : ContestStep s s' (.admin .publishCheck)
  | commit (hpublishing : s.publishing = true)
      (hpublished : s'.db.contestState.privatePublishedAt ≠ none) :
      ContestStep s s' (.admin .publishCommit)
  | abort (hpublishing : s.publishing = true) (hpublished : s'.db.contestState.privatePublishedAt =
      s.db.contestState.privatePublishedAt) : ContestStep s s' (.admin .publishAbort)
  | unpublish (hpublishing : s'.publishing = s.publishing)
      (hpublished : s'.db.contestState.privatePublishedAt = none) :
      ContestStep s s' (.admin .unpublish)

theorem contest_step (h : step config s a = some s') : ContestStep s s' a := by
  cases step_effect h with
  | tick | ensureUser | start | stop | crash | loseLock | reserve => exact .same _ rfl rfl
  | upload u action _ _ heffect =>
    generalize u.pc = pc at heffect
    cases heffect with
    | discardRow executed => cases executed <;> exact .same _ rfl rfl
    | parsed | refused | sourceFailed | sourceStored | runnerUpload | queued | queueFailed
    | failed | discardCleanup => exact .same _ rfl rfl
  | recover rep pc action _ _ _ heffect => cases heffect <;> exact .same _ rfl rfl
  | worker rep pc action _ _ _ heffect =>
    cases heffect with
    | validateEnvironment db _ hdb => exact .same _ rfl (validateEnvironment_ok hdb).2.2
    | storeResult acknowledged job result db hdb =>
      obtain ⟨_, _, _, _, _, _, hstate⟩ := storeResult_ok hdb
      exact .same _ rfl (congrArg ContestState.privatePublishedAt hstate)
    | acquireLock | idle | claim | refuse | begin | runFailed | runReturned | markFailure
    | abandonMark | abandonStore | cleanup | leave => exact .same _ rfl rfl
  | admin action _ heffect =>
    cases heffect with
    | publishCheck => exact .check rfl
    | publishCommit hpublishing => exact .commit hpublishing (Option.some_ne_none _)
    | publishAbort hpublishing => exact .abort hpublishing rfl
    | retry | disqualify => exact .same _ rfl rfl
    | unpublish => exact .unpublish rfl rfl

/-- The results are closed by the checks only. -/
theorem closed_step (h : step config s a = some s') (hclosed : s'.Closed) :
    s.Closed ∨ a = .admin .publishCheck := by
  unfold System.Closed at hclosed ⊢
  cases contest_step h with
  | same _ hpublishing hpublished => exact .inl (by rwa [← hpublishing, ← hpublished])
  | check => exact .inr rfl
  | commit hpublishing | abort hpublishing => exact .inl (.inl hpublishing)
  | unpublish hpublishing hpublished =>
    rcases hclosed with hclosed | hclosed
    · exact .inl (.inl (hpublishing ▸ hclosed))
    · exact absurd hpublished hclosed

/-- A listed row is only disqualified. -/
theorem quiet_row_step (hs : Quiet config s) (hclosed : s.Closed) (hg : KeepsResults config s a)
    (h : step config s a = some s') {row : Submission} (hrow : s.row k = some row)
    (hlisted : row.Listed config) :
    ∃ row', s'.row k = some row' ∧ row.Kept row' ∧ row'.status.isActive = false := by
  have hinactive := hs.drained k row hrow hlisted
  have hstep := row_step h k
  rw [hrow] at hstep
  generalize s'.row k = new at hstep
  cases hstep with
  | same => exact ⟨row, rfl, ⟨rfl, rfl, rfl, rfl, rfl, id⟩, hinactive⟩
  | queue _ _ _ _ hstatus | discard _ _ hstatus | deleteUploading _ _ _ _ hstatus
  | markInterrupted _ _ _ hstatus | claim _ _ _ _ _ hstatus
  | markFailure _ _ _ _ _ _ _ hstatus =>
    rw [hstatus] at hinactive
    contradiction
  | storeResult r _ job result publicScore privateScore _ hpc hid hpublic hprivate =>
    subst hid
    have hrepeats : row.Repeats result := hs.idle r _ hpc row hrow hlisted
    exact ⟨_, rfl, ⟨rfl, rfl, rfl, rfl, hrepeats.results_complete hpublic hprivate, id⟩, rfl⟩
  | retry => exact absurd hlisted (hg hclosed row hrow)
  | disqualify reason =>
    exact ⟨_, rfl, ⟨rfl, rfl, rfl, rfl, rfl, fun _ => Option.some_ne_none _⟩, rfl⟩

theorem WorkerPc.keepsResults_congr {pc : WorkerPc} {job : BenchmarkJob}
    {submissions submissions' : Table String Submission Submission.id} (hjob : pc.job? = some job)
    (hrow : ∀ row' ∈ submissions'.get? job.id, row'.Listed config →
      ∃ row ∈ submissions.get? job.id, row.Listed config ∧ row'.results = row.results)
    (h : pc.KeepsResults config submissions) : pc.KeepsResults config submissions' := by
  cases pc with
  | waiting | starting | head | leaving | stopped => contradiction
  | marking | cleaning => trivial
  | claimed job' | running job' =>
    obtain rfl := Option.some.inj hjob
    intro row' hrow' hlisted'
    obtain ⟨row, hrow, hlisted, _⟩ := hrow row' hrow' hlisted'
    exact h row hrow hlisted
  | storing job' result =>
    obtain rfl := Option.some.inj hjob
    intro row' hrow' hlisted'
    obtain ⟨row, hrow, hlisted, hresults⟩ := hrow row' hrow' hlisted'
    exact (Submission.repeats_congr hresults).mpr (h row hrow hlisted)

theorem WorkerPc.keepsResults_of_job? {pc : WorkerPc}
    {submissions : Table String Submission Submission.id} (h : pc.job? = none) :
    pc.KeepsResults config submissions := by
  cases pc with
  | waiting | starting | head | leaving | stopped => trivial
  | claimed | running | marking | storing | cleaning => contradiction

/-- The listed rows after a step were listed before it, with the same results. -/
theorem quiet_row_back (hs : Quiet config s) (hclosed : s.Closed)
    (hg : KeepsResults config s a) (h : step config s a = some s') {row' : Submission}
    (hrow' : s'.row k = some row') (hlisted' : row'.Listed config) (hk : k ∈ s.usedIds) :
    ∃ row, s.row k = some row ∧ row.Listed config ∧ row'.results = row.results := by
  have hstep := row_step h k
  rw [hrow'] at hstep
  generalize hold : s.row k = old at hstep
  cases old with
  | none =>
    cases hstep with
    | reserve _ _ _ _ hfresh => exact absurd hk hfresh
  | some row =>
    have hlisted := hstep.listed.mp hlisted'
    obtain ⟨row'', hrow'', hkept, _⟩ := quiet_row_step hs hclosed hg h hold hlisted
    obtain rfl := Option.some.inj (hrow'.symm.trans hrow'')
    exact ⟨row, rfl, hlisted, hkept.results⟩

/-- The worker's own step, seen with the rows before it. -/
theorem WorkerEffect.keepsResults {rep : Replica} {action : WorkerAction} {pc pc' : WorkerPc}
    (hs : Quiet config s) (hpc : s.workerPc rep.id = some pc)
    (h : WorkerEffect config s rep action pc s') (hpc' : s'.workerPc rep.id = some pc') :
    pc'.KeepsResults config s.db.submissions := by
  have hidle := hs.idle rep.id pc hpc
  cases h with
  | acquireLock | validateEnvironment | refuse | runFailed | abandonMark | abandonStore | leave =>
    obtain rfl := System.eq_of_setWorker hpc'
    trivial
  | idle | cleanup =>
    obtain rfl := System.eq_of_setWorker hpc'
    exact WorkerPc.keepsResults_of_job? rep.loopHead_job?
  | begin =>
    obtain rfl := System.eq_of_setWorker hpc'
    exact hidle
  | runReturned job result =>
    obtain rfl := System.eq_of_setWorker hpc'
    intro row hrow hlisted
    exact absurd hlisted (hidle row hrow)
  | markFailure acknowledged job message =>
    obtain rfl := System.eq_of_setWorker hpc'
    cases acknowledged with
    | true => exact WorkerPc.keepsResults_of_job? rep.loopHead_job?
    | false => trivial
  | storeResult acknowledged job result =>
    obtain rfl := System.eq_of_setWorker hpc'
    cases acknowledged with
    | true => trivial
    | false => exact hidle
  | claim locked acknowledged row hrow hstatus =>
    obtain rfl := System.eq_of_setWorker hpc'
    cases acknowledged with
    | false => exact WorkerPc.keepsResults_of_job? rep.loopHead_job?
    | true =>
      intro row' hrow' hlisted
      obtain rfl := Option.some.inj (hrow.symm.trans hrow')
      have hinactive := hs.drained row.id row hrow hlisted
      rw [hstatus] at hinactive
      contradiction

theorem quiet_step (hids : IdsDrawn s) (hs : Quiet config s) (hclosed : s.Closed)
    (hg : KeepsResults config s a) (h : step config s a = some s') : Quiet config s' where
  ended := hs.ended.trans_le (now_step h)
  drained := by
    intro k row' hrow' hlisted'
    have hstep := row_step h k
    rw [hrow'] at hstep
    generalize hold : s.row k = old at hstep
    cases old with
    | none =>
      cases hstep with
      | reserve => exact absurd hlisted'.1 (not_le.mpr hs.ended)
    | some row =>
      obtain ⟨row'', hrow'', _, hinactive⟩ :=
        quiet_row_step hs hclosed hg h hold (hstep.listed.mp hlisted')
      obtain rfl := Option.some.inj (hrow'.symm.trans hrow'')
      exact hinactive
  idle := by
    intro r pc' hpc'
    -- the point the worker has reached keeps the results of the rows before the step
    have hbefore : pc'.KeepsResults config s.db.submissions := by
      rcases workerPc_source h hpc' with ⟨_, hpc⟩ | rfl | ⟨rep, _, pc, rfl, _, _, hpc, heffect⟩
      · exact hs.idle r pc' hpc
      · trivial
      · exact heffect.keepsResults hs hpc hpc'
    cases hjob : pc'.job? with
    | none => exact WorkerPc.keepsResults_of_job? hjob
    | some job =>
      refine WorkerPc.keepsResults_congr hjob ?_ hbefore
      intro row' hrow' hlisted'
      have hused : job.id ∈ s.usedIds := by
        rcases job_source h hpc' hjob with ⟨pc, hpc, hjob⟩ | ⟨row, hrow, _, rfl, _⟩
        · exact hids.held r pc job hpc hjob
        · exact hids.row row.id row hrow
      exact quiet_row_back hs hclosed hg h hrow' hlisted' hused

/-- The checks of `publishPrivate` find the system quiet. -/
theorem quiet_of_publishCheck (hg : KeepsResults config s (.admin .publishCheck))
    (h : step config s (.admin .publishCheck) = some s') : Quiet config s' := by
  cases step_effect h with
  | admin action _ heffect =>
    cases heffect with
    | publishCheck _ hend hdrained =>
      refine ⟨hend, fun k row hrow _ => hdrained k row hrow, ?_⟩
      intro r pc hpc
      obtain ⟨rep, hrep, hphase⟩ := System.workerPc_eq_some.mp hpc
      exact hg rep (Table.mem_of_get? hrep) pc (Replica.workerPc?_serving hphase)

/-- While the results are closed, the system is quiet. -/
theorem quiet (h : (contestSystem config).Reachable (KeepsResults config) s)
    (hclosed : s.Closed) : Quiet config s := by
  revert hclosed
  apply h.invariant_of_reachable
  · intro hclosed
    rcases hclosed with h | h <;> contradiction
  · intro s a s' hr hs hg h hclosed
    rcases closed_step h hclosed with hclosed | rfl
    · exact quiet_step (idsDrawn hr.free) (hs hclosed) hclosed hg h
    · exact quiet_of_publishCheck hg h

/-- Only admins' pointers move, and new users come without one. -/
theorem quiet_user_step (howned : Owned s) (hpointers : Pointers config s) (hs : Quiet config s)
    (h : step config s a = some s') {username : String} (hname : username ∉ config.admins) :
    s'.db.users.get? username = s.db.users.get? username ∨
      s.db.users.get? username = none ∧
        s'.db.users.get? username = some ⟨username, none⟩ := by
  have hstep := user_step h username
  generalize hold : s.db.users.get? username = old at hstep
  generalize hnew : s'.db.users.get? username = new at hstep
  cases hstep with
  | same => exact .inl rfl
  | insert => exact .inr ⟨rfl, rfl⟩
  | represent r _ job result row candidate user hpc haccepted hjob hrow hcandidate _ hreplaces =>
    -- the result was accepted before, so the pointer is already at or after the submission
    exfalso
    have hrowStep := row_step h job.id
    rw [hrow, hcandidate] at hrowStep
    obtain ⟨htime, hbefore⟩ := replacesRepresentative_iff.mp hreplaces
    have hrowName : row.username = username := ((howned.held r _ job row hpc rfl hrow).1).trans hjob
    have hlisted : candidate.Listed config :=
      ⟨htime, by rwa [hrowStep.keeps.1, hrowName]⟩
    have hrepeats : row.Repeats result := hs.idle r _ hpc row hrow (hrowStep.listed.mp hlisted)
    have hv : row.publicVerdict = some .accepted := hrepeats.1.trans (by rw [haccepted])
    obtain ⟨id, current, hpointer, hcurrent, hle⟩ := hpointers.covered job.id row user hrow hv
      (hrowStep.listed.mp hlisted).1 (hrowName ▸ hold)
    obtain ⟨_, current', hget, hget', _, horder, _⟩ := pointed_kept howned hpointers h hold hpointer
    obtain rfl := Option.some.inj (hcurrent.symm.trans hget)
    have hlt := Submission.before_iff.mp (hbefore current' (by
      rw [hpointer]
      exact hget'))
    rw [horder, hrowStep.keeps.2] at hlt
    exact absurd hle (not_le.mpr hlt)

/-- The names of the users after a step begin with those before it. -/
theorem names_step (h : step config s a = some s') :
    s.db.users.rows.map (·.username) <+: s'.db.users.rows.map (·.username) := by
  have hensure (name : String) : s.db.users.rows.map (·.username) <+:
      (ensureUser name s.db).users.rows.map (·.username) :=
    Table.keys_insertIgnore s.db.users ⟨name, none⟩
  have hsame (users : Table String User User.username)
      (h : users.rows.map (·.username) = s.db.users.rows.map (·.username)) :
      s.db.users.rows.map (·.username) <+: users.rows.map (·.username) :=
    h ▸ List.prefix_refl _
  cases step_effect h with
  | tick | start | stop | crash | loseLock => exact List.prefix_refl _
  | ensureUser name => exact hensure name
  | reserve _ _ name => exact hensure name
  | upload u action _ _ heffect =>
    generalize u.pc = pc at heffect
    cases heffect with
    | discardRow executed => cases executed <;> exact List.prefix_refl _
    | parsed | refused | sourceFailed | sourceStored | runnerUpload | queued | queueFailed
    | failed | discardCleanup => exact List.prefix_refl _
  | recover rep pc action _ _ _ heffect => cases heffect <;> exact List.prefix_refl _
  | admin action _ heffect => cases heffect <;> exact List.prefix_refl _
  | worker rep pc action _ _ _ heffect =>
    cases heffect with
    | validateEnvironment db _ hdb =>
      exact hsame db.users (by rw [(validateEnvironment_ok hdb).2.1])
    | storeResult acknowledged job result db hdb =>
      obtain ⟨_, _, _, _, _, husers, _⟩ := storeResult_ok hdb
      apply hsame db.users
      rw [husers]
      split
      · exact updateRepresentative_names _ _
      · rfl
    | acquireLock | idle | claim | refuse | begin | runFailed | runReturned | markFailure
    | abandonMark | abandonStore | cleanup | leave => exact List.prefix_refl _

/-- Between two states nothing that a leaderboard shows has changed but disqualifications. -/
structure ResultsKept (config : Config) (s t : System) : Prop where
  rows : ∀ k row, s.row k = some row → row.Listed config →
    ∃ row', t.row k = some row' ∧ row.Kept row'
  users : ∀ username, username ∉ config.admins →
    t.db.users.get? username = s.db.users.get? username ∨
      s.db.users.get? username = none ∧ t.db.users.get? username = some ⟨username, none⟩
  names : s.db.users.rows.map (·.username) <+: t.db.users.rows.map (·.username)

theorem Submission.Kept.trans {a b c : Submission} (hab : a.Kept b) (hbc : b.Kept c) : a.Kept c :=
  ⟨hbc.id.trans hab.id, hbc.username.trans hab.username, hbc.order.trans hab.order,
    hbc.language.trans hab.language, hbc.results.trans hab.results,
    fun h => hbc.disqualified (hab.disqualified h)⟩

theorem Submission.Kept.listed {row row' : Submission} (h : row.Kept row') :
    row'.Listed config ↔ row.Listed config := by
  have htime : row'.uploadStartedAt = row.uploadStartedAt :=
    congrArg (fun key => (ofLex key).1) h.order
  unfold Submission.Listed
  rw [h.username, htime]

theorem ResultsKept.refl (s : System) : ResultsKept config s s where
  rows := fun _ row hrow _ => ⟨row, hrow, ⟨rfl, rfl, rfl, rfl, rfl, id⟩⟩
  users := fun _ _ => .inl rfl
  names := List.prefix_refl _

theorem ResultsKept.trans {t u : System} (hst : ResultsKept config s t)
    (htu : ResultsKept config t u) : ResultsKept config s u where
  rows := by
    intro k row hrow hlisted
    obtain ⟨row', hrow', hkept⟩ := hst.rows k row hrow hlisted
    obtain ⟨row'', hrow'', hkept'⟩ := htu.rows k row' hrow' (hkept.listed.mpr hlisted)
    exact ⟨row'', hrow'', hkept.trans hkept'⟩
  users := by
    intro username hname
    rcases htu.users username hname with htu | ⟨hnone, hnew⟩
    · rw [htu]
      exact hst.users username hname
    · rcases hst.users username hname with hst | ⟨_, hsome⟩
      · exact .inr ⟨hst ▸ hnone, hnew⟩
      · rw [hnone] at hsome
        contradiction
  names := hst.names.trans htu.names

/-- The results stay published until they are withdrawn. -/
theorem published_step (h : step config s a = some s') (ha : a ≠ .admin .unpublish)
    (hpublished : s.db.contestState.privatePublishedAt ≠ none) :
    s'.db.contestState.privatePublishedAt ≠ none := by
  cases contest_step h with
  | same _ _ hsame | check hsame | abort _ hsame => rwa [hsame]
  | commit _ hcommitted => exact hcommitted
  | unpublish => exact absurd rfl ha

/-- From the publication to the withdrawal. -/
theorem resultsKept {t : System} (hs : (contestSystem config).Reachable (KeepsResults config) s)
    (hpublished : s.db.contestState.privatePublishedAt ≠ none)
    (h : (contestSystem config).Path
      (fun s a => KeepsResults config s a ∧ a ≠ .admin .unpublish) s t) :
    ResultsKept config s t := by
  have hall : t.db.contestState.privatePublishedAt ≠ none ∧ ResultsKept config s t := by
    refine TransitionSystem.Path.relates
      (R := fun s t => t.db.contestState.privatePublishedAt ≠ none ∧ ResultsKept config s t)
      ⟨hpublished, .refl s⟩ ?_ h
    rintro t a u hpath ⟨hpublished, hkept⟩ ⟨hg, ha⟩ hstep
    have hreach : (contestSystem config).Reachable (KeepsResults config) t :=
      hs.path (hpath.mono fun _ _ h => h.1)
    have hclosed : t.Closed := .inr hpublished
    have hquiet := quiet hreach hclosed
    refine ⟨published_step hstep ha hpublished, hkept.trans ⟨?_, ?_, names_step hstep⟩⟩
    · intro k row hrow hlisted
      obtain ⟨row', hrow', hkept, _⟩ := quiet_row_step hquiet hclosed hg hstep hrow hlisted
      exact ⟨row', hrow', hkept⟩
    · intro username hname
      exact quiet_user_step (owned hreach.free) (pointers hreach.free) hquiet hstep hname
  exact hall.2

end
end OneBrc.Server
