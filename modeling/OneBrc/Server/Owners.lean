import Mathlib.Data.Prod.Lex
import Mathlib.Data.String.Basic
import OneBrc.Server.Ids
import OneBrc.Server.Query

/-! Users and their submissions, in every run: who owns a row, whose pointer a step moves, and why
no pointer ever goes back. -/
namespace OneBrc.Server
open Lib Runner StableSort

/-- The order of `upload_started_at, id`. -/
def Submission.order (row : Submission) : ℕ ×ₗ String := toLex (row.uploadStartedAt, row.id)

theorem Submission.before_iff {a b : Submission} : a.before b ↔ a.order < b.order := by
  rw [Submission.order, Submission.order, Prod.Lex.toLex_lt_toLex]
  exact Iff.rfl

theorem Submission.uploadedBefore_iff (a b : Submission) :
    a.uploadedBefore b = true ↔ a.order < b.order := by
  rw [Submission.order, Submission.order, Prod.Lex.toLex_lt_toLex]
  simp [Submission.uploadedBefore]

/-- Selected rows in the order of their uploads. -/
theorem uploadOrder_sorted (db : Database) (p : Submission → Bool) :
    (sliceStable Submission.uploadedBefore (db.submissions.rows.filter p)).Pairwise
      fun a b => a.order < b.order := by
  have hids : ((sliceStable Submission.uploadedBefore
      (db.submissions.rows.filter p)).map (·.id)).Nodup := by
    rw [((sliceStable_perm _ _).map _).nodup_iff]
    exact db.submissions.nodup.sublist (List.filter_sublist.map _)
  have hsorted := (sliceStable_sorted Submission.uploadedBefore_iff).and
    (List.pairwise_map.mp hids)
  apply hsorted.imp
  rintro a b ⟨hle, hne⟩
  apply lt_of_le_of_ne hle
  intro heq
  exact hne (congrArg (fun key => (ofLex key).2) heq)

/-- What a step does to the user with this name. -/
inductive UserStep (config : Config) (s s' : System) (username : String) :
    Action → Option User → Option User → Prop
  | same (a : Action) (user : Option User) : UserStep config s s' username a user user
  | insert (a : Action) : UserStep config s s' username a none (some ⟨username, none⟩)
  | represent (r : ℕ) (acknowledged : Bool) (job : BenchmarkJob) (result : RunnerJobResult)
      (row candidate : Submission) (user : User)
      (hpc : s.workerPc r = some (.storing job result))
      (haccepted : result.publicResult.verdict = .accepted) (hname : job.username = username)
      (hrow : s.row job.id = some row) (hcandidate : s'.row job.id = some candidate)
      (hverdict : candidate.publicVerdict = some .accepted)
      (hreplaces : replacesRepresentative config s'.db.submissions candidate user = true) :
      UserStep config s s' username (.worker r (.storeResult acknowledged)) (some user)
        (some (user.represent job.id))

/-- Owners of rows and of claimed jobs, and the columns that an upload and a benchmark set. -/
structure Owned (s : System) : Prop where
  held : ∀ r pc job row, s.workerPc r = some pc → pc.job? = some job →
    s.row job.id = some row → row.username = job.username ∧ row.status ≠ .uploading
  owner : ∀ k row, s.row k = some row → s.db.users.get? row.username ≠ none
  uploaded : ∀ k row, s.row k = some row → row.status ≠ .uploading → row.language ≠ none
  measured : ∀ k row, s.row k = some row → row.publicVerdict ≠ none → row.status ≠ .uploading

section
variable {config : Config} {s s' : System} {a : Action} {k username : String}

/-- The columns that no statement but the INSERT sets. -/
theorem RowStep.keeps {row row' : Submission} (h : RowStep config s k a (some row) (some row')) :
    row'.username = row.username ∧ row'.order = row.order := by
  cases h <;> exact ⟨rfl, rfl⟩

/-- Only `storeResult` sets the verdict. -/
theorem RowStep.verdict {row row' : Submission} (h : RowStep config s k a (some row) (some row')) :
    row'.publicVerdict = row.publicVerdict ∨ ∃ r acknowledged job result,
      a = .worker r (.storeResult acknowledged) ∧ s.workerPc r = some (.storing job result) ∧
      job.id = k ∧ row'.publicVerdict = some result.publicResult.verdict := by
  cases h with
  | storeResult r acknowledged job result _ _ row hpc hid =>
    exact .inr ⟨r, acknowledged, job, result, rfl, hpc, hid, rfl⟩
  | same | queue | markInterrupted | claim | markFailure | retry | disqualify => exact .inl rfl

/-- The row of a submission whose result is stored, before and after. -/
theorem storeResult_row {job : BenchmarkJob} {result : RunnerJobResult} {db : Database}
    (hdb : storeResult config s.now job result.publicResult result.privateResult s.db = .ok db)
    {row : Submission} (hrow : s.db.submissions.get? job.id = some row) :
    ∃ row', db.submissions.get? job.id = some row' ∧ row'.username = row.username ∧
      row'.order = row.order ∧ row'.id = row.id ∧ row'.uploadStartedAt = row.uploadStartedAt ∧
      row'.publicVerdict = some result.publicResult.verdict ∧
      ∀ k, k ≠ job.id → db.submissions.get? k = s.db.submissions.get? k := by
  obtain ⟨publicScore, privateScore, _, _, hrows, _, _⟩ := storeResult_ok hdb
  have hid : row.id = job.id := Table.get?_key hrow
  refine ⟨row.complete s.now result.publicResult result.privateResult publicScore privateScore,
    ?_, rfl, rfl, rfl, rfl, rfl, ?_⟩
  · rw [hrows, Table.get?_update, hrow, Option.map_some, if_pos (by simp [hid])]
  · intro k hk
    rw [hrows, Table.get?_update]
    cases hk' : s.db.submissions.get? k with
    | none => rfl
    | some other =>
      have hother : other.id = k := Table.get?_key hk'
      rw [Option.map_some, if_neg (by simp [hother, hk])]

theorem replacesRepresentative_iff {submissions : Table String Submission Submission.id}
    {candidate : Submission} {user : User} :
    replacesRepresentative config submissions candidate user = true ↔
      candidate.uploadStartedAt ≤ config.contestEndAt ∧
        ∀ current, user.representativeSubmissionId.bind submissions.get? = some current →
          current.before candidate := by
  unfold replacesRepresentative
  rw [Bool.and_eq_true, decide_eq_true_eq]
  refine and_congr_right fun _ => ?_
  cases user.representativeSubmissionId.bind submissions.get? with
  | none => simp
  | some current => simp

/-- The pointer update of a stored result, on one user. -/
theorem storeResult_user_step {r : ℕ} {acknowledged : Bool} {job : BenchmarkJob}
    {result : RunnerJobResult} (hpc : s.workerPc r = some (.storing job result))
    (hdb : storeResult config s.now job result.publicResult result.privateResult s.db =
      .ok s'.db) (username : String) :
    UserStep config s s' username (.worker r (.storeResult acknowledged))
      (s.db.users.get? username) (s'.db.users.get? username) := by
  obtain ⟨_, _, _, _, hrows, husers, _⟩ := storeResult_ok hdb
  rw [husers]
  split
  · next haccepted =>
    cases hrow : s.row job.id with
    | none =>
      have hnone : s'.db.submissions.get? job.id = none := by
        rw [hrows, Table.get?_update]
        change (s.row job.id).map _ = none
        rw [hrow, Option.map_none]
      unfold updateRepresentative
      rw [hnone]
      exact .same _ _
    | some row =>
      obtain ⟨candidate, hcandidate, _, _, _, _, hverdict, _⟩ := storeResult_row hdb hrow
      rw [updateRepresentative_get? { s.db with submissions := s'.db.submissions } hcandidate]
      cases huser : s.db.users.get? username with
      | none => exact .same _ _
      | some user =>
        rw [Option.map_some]
        split
        · next hcond =>
          rw [Bool.and_eq_true, decide_eq_true_eq] at hcond
          have hname : user.username = username := Table.get?_key huser
          have hjob : candidate.id = job.id := Table.get?_key hcandidate
          rw [hjob]
          exact .represent r acknowledged job result row candidate user hpc haccepted
            (hcond.1.symm.trans hname) hrow hcandidate (hverdict.trans (by rw [haccepted]))
            hcond.2
        · exact .same _ _
  · exact .same _ _

theorem WorkerEffect.user_step {rep : Replica} {action : WorkerAction} {pc : WorkerPc}
    (hr : s.workerPc rep.id = some pc) (h : WorkerEffect config s rep action pc s')
    (username : String) : UserStep config s s' username (.worker rep.id action)
      (s.db.users.get? username) (s'.db.users.get? username) := by
  cases h with
  | acquireLock | idle | claim | refuse | begin | runFailed | runReturned | markFailure
  | abandonMark | abandonStore | cleanup | leave => exact .same _ _
  | validateEnvironment db _ hdb =>
    change UserStep _ _ _ _ _ _ (db.users.get? username)
    rw [(validateEnvironment_ok hdb).2.1]
    exact .same _ _
  | storeResult acknowledged job result db hdb => exact storeResult_user_step hr hdb username

/-- Every step takes every user along one of the edges of `UserStep`. -/
theorem user_step (h : step config s a = some s') (username : String) :
    UserStep config s s' username a (s.db.users.get? username) (s'.db.users.get? username) := by
  have hensure (a : Action) (name : String) : UserStep config s s' username a
      (s.db.users.get? username) ((ensureUser name s.db).users.get? username) := by
    simp only [ensureUser, Table.get?_insertIgnore]
    cases s.db.users.get? username with
    | some user => exact .same _ _
    | none =>
      by_cases hname : name = username
      · subst hname
        simp only [if_true, Option.none_or]
        exact .insert a
      · simp only [hname, if_false, Option.none_or]
        exact .same _ _
  cases step_effect h with
  | tick | loseLock | start | stop | crash => exact .same _ _
  | ensureUser name => exact hensure _ name
  | reserve _ _ name => exact hensure _ name
  | upload u action _ _ heffect =>
    generalize u.pc = pc at heffect
    cases heffect with
    | discardRow executed =>
      cases executed with
      | true => exact .same _ _
      | false => exact .same _ _
    | parsed | refused | sourceFailed | sourceStored | runnerUpload | queued | queueFailed
    | failed | discardCleanup => exact .same _ _
  | recover rep pc action _ _ _ heffect => cases heffect <;> exact .same _ _
  | admin action _ heffect => cases heffect <;> exact .same _ _
  | worker rep pc action _ hrep hphase heffect =>
    exact heffect.user_step (System.workerPc_eq_some.mpr ⟨rep, hrep, hphase⟩) username

/-- No statement takes a user away. -/
theorem users_mono (h : step config s a = some s') (hu : s.db.users.get? username ≠ none) :
    s'.db.users.get? username ≠ none := by
  have hstep := user_step h username
  generalize s.db.users.get? username = old at hstep hu
  generalize s'.db.users.get? username = new at hstep
  cases hstep with
  | same => exact hu
  | insert | represent => exact Option.some_ne_none _

theorem users_reserve {replica : ℕ} {acknowledged : Bool}
    (h : step config s (.reserve replica k username acknowledged) = some s') :
    s'.db.users.get? username ≠ none := by
  cases step_effect h with
  | reserve =>
    simp only [ensureUser, Table.get?_insertIgnore]
    cases s.db.users.get? username <;> simp

/-- A row leaves the status `uploading` with its language set, and never returns to it. -/
theorem RowStep.uploaded {row' : Submission} {old : Option Submission}
    (h : RowStep config s k a old (some row'))
    (hold : ∀ row, old = some row → row.status ≠ .uploading → row.language ≠ none)
    (hstored : ∀ r pc job row, s.workerPc r = some pc → pc.job? = some job → job.id = k →
      old = some row → row.status ≠ .uploading)
    (hstatus : row'.status ≠ .uploading) : row'.language ≠ none := by
  cases h with
  | same => exact hold row' rfl hstatus
  | reserve => exact absurd rfl hstatus
  | queue => exact Option.some_ne_none _
  | markInterrupted _ row _ h | claim _ _ _ row _ h | markFailure _ _ _ _ row _ _ h
  | retry row h => exact hold row rfl (by rw [h]; decide)
  | storeResult r _ job result _ _ row hpc hid =>
    exact hold row rfl (hstored r _ job row hpc rfl hid rfl)
  | disqualify _ row h => exact hold row rfl h

theorem RowStep.not_uploading {row row' : Submission}
    (h : RowStep config s k a (some row) (some row')) (hstatus : row.status ≠ .uploading) :
    row'.status ≠ .uploading := by
  cases h with
  | same => exact hstatus
  | queue | markInterrupted | claim | markFailure | storeResult | retry | disqualify => nofun

theorem owned_step (hids : IdsDrawn s) (hs : Owned s) (h : step config s a = some s') :
    Owned s' where
  held := by
    intro r pc' job row' hpc' hjob' hrow'
    have hstep := row_step h job.id
    rw [hrow'] at hstep
    -- a job that was held before keeps its row's owner
    have hkept {pc : WorkerPc} (hpc : s.workerPc r = some pc) (hjob : pc.job? = some job) :
        row'.username = job.username ∧ row'.status ≠ .uploading := by
      generalize hold : s.row job.id = old at hstep
      cases old with
      | none =>
        cases hstep with
        | reserve _ _ _ _ hfresh => exact absurd (hids.held r pc job hpc hjob) hfresh
      | some row =>
        obtain ⟨huser, hstatus⟩ := hs.held r pc job row hpc hjob hold
        exact ⟨hstep.keeps.1.trans huser, hstep.not_uploading hstatus⟩
    rcases job_source h hpc' hjob' with ⟨pc, hpc, hjob⟩ | ⟨row, _, _, rfl, hstarted⟩
    · exact hkept hpc hjob
    · obtain rfl : row.start s.now = row' := Option.some.inj (hstarted.symm.trans hrow')
      exact ⟨rfl, nofun⟩
  owner := by
    intro k row' hrow'
    have hstep := row_step h k
    rw [hrow'] at hstep
    generalize hold : s.row k = old at hstep
    cases old with
    | some row =>
      rw [hstep.keeps.1]
      exact users_mono h (hs.owner k row hold)
    | none =>
      cases hstep with
      | reserve _ username => exact users_reserve h
  uploaded := by
    intro k row' hrow' hstatus
    have hstep := row_step h k
    rw [hrow'] at hstep
    refine hstep.uploaded (hs.uploaded k) ?_ hstatus
    rintro r pc job row hpc hjob rfl hrow
    exact (hs.held r pc job row hpc hjob hrow).2
  measured := by
    intro k row' hrow' hv
    have hstep := row_step h k
    rw [hrow'] at hstep
    generalize hold : s.row k = old at hstep
    cases old with
    | none =>
      cases hstep with
      | reserve => exact absurd rfl hv
    | some row =>
      apply hstep.not_uploading
      rcases hstep.verdict with hsame | ⟨r, _, job, _, _, hpc, rfl, _⟩
      · exact hs.measured k row hold (hsame ▸ hv)
      · exact (hs.held r _ job row hpc rfl hold).2

theorem owned (h : (contestSystem config).Reachable TransitionSystem.Free s) : Owned s := by
  apply h.invariant_of_reachable
  · constructor
    · intro r pc job row hpc
      contradiction
    · intro k row hrow
      contradiction
    · intro k row hrow
      contradiction
    · intro k row hrow
      contradiction
  · intro s a s' hr hs _ h
    exact owned_step (idsDrawn hr) hs h

/-- A row with a verdict stays, with its owner, its place in the order and a verdict. -/
theorem RowStep.measured_kept {row : Submission} {new : Option Submission}
    (h : RowStep config s k a (some row) new) (hv : row.publicVerdict ≠ none)
    (hstatus : row.status ≠ .uploading) :
    ∃ row', new = some row' ∧ row'.username = row.username ∧ row'.order = row.order ∧
      row'.publicVerdict ≠ none := by
  cases new with
  | none =>
    cases h with
    | discard _ _ huploading | deleteUploading _ _ _ _ huploading =>
      exact absurd huploading hstatus
  | some row' =>
    refine ⟨row', rfl, h.keeps.1, h.keeps.2, ?_⟩
    rcases h.verdict with hsame | ⟨_, _, _, _, _, _, _, hsome⟩
    · rwa [hsame]
    · rw [hsome]
      exact Option.some_ne_none _

/-- What the pointers say in every run: they name a measured submission of the same user that was
uploaded in time, and no accepted one uploaded in time comes after it. -/
structure Pointers (config : Config) (s : System) : Prop where
  named : ∀ username user id, s.db.users.get? username = some user →
    user.representativeSubmissionId = some id → ∃ row, s.row id = some row ∧
      row.username = username ∧ row.publicVerdict ≠ none ∧
      row.uploadStartedAt ≤ config.contestEndAt
  covered : ∀ k row user, s.row k = some row → row.publicVerdict = some .accepted →
    row.uploadStartedAt ≤ config.contestEndAt → s.db.users.get? row.username = some user →
    ∃ id current, user.representativeSubmissionId = some id ∧ s.row id = some current ∧
      row.order ≤ current.order

theorem updateRepresentative_names (job : BenchmarkJob) (db : Database) :
    (updateRepresentative config job db).users.rows.map (·.username) =
      db.users.rows.map (·.username) := by
  unfold updateRepresentative
  split
  · rfl
  · exact Table.keys_update db.users _ _ (User.represent_username _)

/-- The pointer after an accepted result is stored. -/
theorem updateRepresentative_covers {job : BenchmarkJob} {db : Database} {candidate : Submission}
    {user' : User} (hcandidate : db.submissions.get? job.id = some candidate)
    (htime : candidate.uploadStartedAt ≤ config.contestEndAt)
    (huser' : (updateRepresentative config job db).users.get? job.username = some user') :
    ∃ id current, user'.representativeSubmissionId = some id ∧
      db.submissions.get? id = some current ∧ candidate.order ≤ current.order := by
  rw [updateRepresentative_get? db hcandidate] at huser'
  obtain ⟨user, huser, rfl⟩ := Option.map_eq_some_iff.mp huser'
  have hname : user.username = job.username := Table.get?_key huser
  split
  · have hid : candidate.id = job.id := Table.get?_key hcandidate
    exact ⟨candidate.id, candidate, rfl, hid ▸ hcandidate, le_rfl⟩
  · next hcond =>
    rw [decide_eq_true hname, Bool.true_and, replacesRepresentative_iff] at hcond
    have hnot := not_forall.mp fun hall => hcond ⟨htime, hall⟩
    obtain ⟨current, hcurrent⟩ := hnot
    obtain ⟨hget, hbefore⟩ := Classical.not_imp.mp hcurrent
    obtain ⟨id, hpointer, hget⟩ := Option.bind_eq_some_iff.mp hget
    rw [Submission.before_iff, not_lt] at hbefore
    exact ⟨id, current, hpointer, hget, hbefore⟩

/-- The row of a pointer stays, and keeps its place in the order. -/
theorem pointed_kept (howned : Owned s) (hs : Pointers config s) (h : step config s a = some s')
    {user : User} {id : String} (huser : s.db.users.get? username = some user)
    (hpointer : user.representativeSubmissionId = some id) :
    ∃ row row', s.row id = some row ∧ s'.row id = some row' ∧ row'.username = username ∧
      row'.order = row.order ∧ row'.publicVerdict ≠ none ∧
      row'.uploadStartedAt ≤ config.contestEndAt := by
  obtain ⟨row, hrow, hname, hv, htime⟩ := hs.named username user id huser hpointer
  have hstep := row_step h id
  rw [hrow] at hstep
  obtain ⟨row', hrow', hname', horder, hv'⟩ :=
    hstep.measured_kept hv (howned.measured id row hrow hv)
  have htime' : row'.uploadStartedAt = row.uploadStartedAt :=
    congrArg (fun key => (ofLex key).1) horder
  exact ⟨row, row', hrow, hrow', hname'.trans hname, horder, hv', htime'.trans_le htime⟩

theorem pointers_named (howned : Owned s) (hs : Pointers config s)
    (h : step config s a = some s') {user' : User} {id : String}
    (huser' : s'.db.users.get? username = some user')
    (hpointer : user'.representativeSubmissionId = some id) :
    ∃ row, s'.row id = some row ∧ row.username = username ∧ row.publicVerdict ≠ none ∧
      row.uploadStartedAt ≤ config.contestEndAt := by
  have hstep := user_step h username
  rw [huser'] at hstep
  generalize hold : s.db.users.get? username = old at hstep
  cases hstep with
  | same =>
    obtain ⟨_, row', _, hrow', hname, _, hv⟩ := pointed_kept howned hs h hold hpointer
    exact ⟨row', hrow', hname, hv⟩
  | insert => contradiction
  | represent r _ job result row candidate user hpc haccepted hname hrow hcandidate hverdict
      hreplaces =>
    obtain rfl : job.id = id := Option.some.inj hpointer
    refine ⟨candidate, hcandidate, ?_, by rw [hverdict]; exact Option.some_ne_none _,
      (replacesRepresentative_iff.mp hreplaces).1⟩
    have hrowStep := row_step h job.id
    rw [hrow, hcandidate] at hrowStep
    exact hrowStep.keeps.1.trans ((howned.held r _ job row hpc rfl hrow).1.trans hname)

/-- A step that leaves the verdict of a row alone keeps its user's pointer at or after it. -/
theorem pointers_covered_kept (howned : Owned s) (hs : Pointers config s)
    (h : step config s a = some s') {row : Submission} {user' : User} (hrow : s.row k = some row)
    (hv : row.publicVerdict = some .accepted) (htime : row.uploadStartedAt ≤ config.contestEndAt)
    (huser' : s'.db.users.get? row.username = some user') :
    ∃ id current, user'.representativeSubmissionId = some id ∧ s'.row id = some current ∧
      row.order ≤ current.order := by
  have hcovered (user : User) (huser : s.db.users.get? row.username = some user) :
      ∃ id current', user.representativeSubmissionId = some id ∧ s'.row id = some current' ∧
        row.order ≤ current'.order := by
    obtain ⟨id, current, hpointer, hcurrent, hle⟩ := hs.covered k row user hrow hv htime huser
    obtain ⟨_, current', hrow₁, hrow₂, _, horder, _⟩ := pointed_kept howned hs h huser hpointer
    obtain rfl := Option.some.inj (hcurrent.symm.trans hrow₁)
    exact ⟨id, current', hpointer, hrow₂, hle.trans_eq horder.symm⟩
  have hstep := user_step h row.username
  rw [huser'] at hstep
  generalize hold : s.db.users.get? row.username = old at hstep
  cases hstep with
  | same => exact hcovered user' hold
  | insert => exact absurd hold (howned.owner k row hrow)
  | represent r _ job result _ candidate user hpc _ _ _ hcandidate _ hreplaces =>
    obtain ⟨id, current', hpointer, hcurrent', hle⟩ := hcovered user hold
    have hbefore := (replacesRepresentative_iff.mp hreplaces).2 current' (by
      rw [hpointer]
      exact hcurrent')
    exact ⟨job.id, candidate, rfl, hcandidate, hle.trans (Submission.before_iff.mp hbefore).le⟩

theorem pointers_step (howned : Owned s) (hs : Pointers config s)
    (h : step config s a = some s') : Pointers config s' where
  named := fun _ _ _ huser' hpointer => pointers_named howned hs h huser' hpointer
  covered := by
    intro k row' user' hrow' hv htime huser'
    have hstep := row_step h k
    rw [hrow'] at hstep
    generalize hold : s.row k = old at hstep
    cases old with
    | none =>
      cases hstep with
      | reserve => contradiction
    | some row =>
      obtain ⟨hname, horder⟩ := hstep.keeps
      rw [horder]
      rcases hstep.verdict with hsame | ⟨r, acknowledged, job, result, rfl, hpc, rfl, hverdict⟩
      · have htime' : row'.uploadStartedAt = row.uploadStartedAt :=
          congrArg (fun key => (ofLex key).1) horder
        exact pointers_covered_kept howned hs h hold (hsame ▸ hv) (htime' ▸ htime)
          (hname ▸ huser')
      · cases step_effect h with
        | worker rep pc action _ hrep hphase heffect =>
          cases heffect with
          | storeResult _ job' result' db hdb =>
            have hpc' := System.workerPc_eq_some.mpr ⟨rep, hrep, hphase⟩
            obtain ⟨rfl, rfl⟩ := WorkerPc.storing.inj (Option.some.inj (hpc.symm.trans hpc'))
            have haccepted : result.publicResult.verdict = .accepted :=
              Option.some.inj (hverdict.symm.trans hv)
            obtain ⟨_, _, _, _, _, husers, _⟩ := storeResult_ok hdb
            change db.users.get? row'.username = some user' at huser'
            rw [husers, if_pos haccepted, hname,
              (howned.held rep.id _ job row hpc rfl hold).1] at huser'
            rw [← horder]
            have hcandidate : ({ s.db with submissions := db.submissions } :
              Database).submissions.get? job.id = some row' := hrow'
            have hcovers := updateRepresentative_covers hcandidate htime huser'
            exact hcovers

theorem pointers (h : (contestSystem config).Reachable TransitionSystem.Free s) :
    Pointers config s := by
  apply h.invariant_of_reachable
  · constructor
    · intro username user id huser
      contradiction
    · intro k row user hrow
      contradiction
  · intro s a s' hr hs _ h
    exact pointers_step (owned hr) hs h

end
end OneBrc.Server
