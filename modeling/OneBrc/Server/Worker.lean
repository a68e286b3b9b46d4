import OneBrc.Server.Repository
import Mathlib.Data.List.Sort

/-! The statements of `worker.go`: claiming, storing, failing, and the recovery at start-up. -/
namespace OneBrc.Server
open Lib

structure BenchmarkJob where
  id : String
  username : String
  kind : Option ExecutionKind
  language : Option Language
  deriving DecidableEq

def Submission.job (row : Submission) : BenchmarkJob :=
  ⟨row.id, row.username, row.executionKind, row.language⟩

/-- `upload_started_at` first, then `id`. -/
def Submission.before (a b : Submission) : Prop :=
  a.uploadStartedAt < b.uploadStartedAt ∨ a.uploadStartedAt = b.uploadStartedAt ∧ a.id < b.id

instance : DecidableRel Submission.before := fun a b =>
  inferInstanceAs (Decidable (a.uploadStartedAt < b.uploadStartedAt ∨
    a.uploadStartedAt = b.uploadStartedAt ∧ a.id < b.id))

instance : DecidableRel fun a b : Submission => ¬ b.before a := fun _ _ => inferInstance

/-- Queued rows in the order of service. -/
def queuedRows (db : Database) : List Submission :=
  (db.submissions.rows.filter (·.status = .queued)).insertionSort fun a b => ¬ b.before a

def Submission.start (now : Timestamp) (row : Submission) : Submission :=
  { row with status := .running, startedAt := some now, infrastructureError := none }

@[simp] theorem Submission.start_id (now : Timestamp) (row : Submission) :
    (row.start now).id = row.id := rfl

/-- `locked` are the rows that other transactions hold, which SKIP LOCKED passes over. -/
def claimNext (now : Timestamp) (locked : List String) (db : Database) :
    Option BenchmarkJob × Database :=
  match (queuedRows db).find? (·.id ∉ locked) with
  | none => (none, db)
  | some row =>
      (some row.job,
        db.updateSubmissions (·.id = row.id) (Submission.start now) (Submission.start_id now))

def Submission.fail (message : String) (row : Submission) : Submission :=
  { row with status := .infrastructureError, infrastructureError := some message }

@[simp] theorem Submission.fail_id (message : String) (row : Submission) :
    (row.fail message).id = row.id := rfl

def markInfrastructureFailure (id message : String) (db : Database) : Database :=
  db.updateSubmissions (Submission.matching id .running)
    (Submission.fail (truncateUTF16 message 8192)) (Submission.fail_id _)

def benchmarkDuration (duration : String) : Except SqlError (Option ℕ) :=
  if duration = "" then .ok none else (bigintUnsigned duration).map some

/-- One row for each duration, or a single row without a duration. -/
def insertBenchmarkRuns (id : String) (dataset : Dataset) (result : BenchmarkResult)
    (db : Database) : Except SqlError Database :=
  ((result.durationsNS.getD [""]).zipIdx 1).foldlM (fun db (duration, attempt) => do
    let value ← benchmarkDuration duration
    db.insertBenchmarkRun ⟨id, dataset, attempt, result.verdict, value⟩) db

/-- The row set by `storeResult`, from the values of its columns. -/
def Submission.complete (now : Timestamp) (publicResult : BenchmarkResult)
    (privateResult : Option BenchmarkResult) (publicScore privateScore : Option ℕ)
    (row : Submission) : Submission :=
  { row with
    status := .completed
    publicVerdict := some publicResult.verdict
    publicScoreNS := publicScore
    publicError := publicResult.error
    privateVerdict := privateResult.map (·.verdict)
    privateScoreNS := privateScore
    completedAt := some now }

@[simp] theorem Submission.complete_id (now : Timestamp) (publicResult : BenchmarkResult)
    (privateResult : Option BenchmarkResult) (publicScore privateScore : Option ℕ)
    (row : Submission) :
    (row.complete now publicResult privateResult publicScore privateScore).id = row.id := rfl

def User.represent (id : String) (user : User) : User :=
  { user with representativeSubmissionId := some id }

@[simp] theorem User.represent_username (id : String) (user : User) :
    (user.represent id).username = user.username := rfl

/-- The WHERE clause of the pointer update, for the joined `candidate` row. -/
def replacesRepresentative (config : Config)
    (submissions : Table String Submission Submission.id) (candidate : Submission)
    (user : User) : Bool :=
  candidate.uploadStartedAt ≤ config.contestEndAt &&
    match user.representativeSubmissionId.bind submissions.get? with
    | none => true
    | some current => current.before candidate

def updateRepresentative (config : Config) (job : BenchmarkJob) (db : Database) : Database :=
  match db.submissions.get? job.id with
  | none => db
  | some candidate =>
      let users := db.users.update
        (fun u => u.username = job.username &&
          replacesRepresentative config db.submissions candidate u)
        (User.represent candidate.id) (User.represent_username _)
      { db with users }

def insertPrivateRuns (id : String) (privateResult : Option BenchmarkResult) (db : Database) :
    Except SqlError Database :=
  match privateResult with
  | none => .ok db
  | some result => insertBenchmarkRuns id .privateData result db

/-- The UPDATE of the submission with the values of its columns. -/
def updateResult (now : Timestamp) (id : String) (publicResult : BenchmarkResult)
    (privateResult : Option BenchmarkResult) (db : Database) : Except SqlError Database := do
  let publicScore ← nullableBigint publicResult.medianNS
  let _ ← nullableText publicResult.error
  let privateScore ← nullableBigint (privateResult.bind (·.medianNS))
  pure (db.updateSubmissions (·.id = id)
    (Submission.complete now publicResult privateResult publicScore privateScore)
    (Submission.complete_id _ _ _ _ _))

def storeResult (config : Config) (now : Timestamp) (job : BenchmarkJob)
    (publicResult : BenchmarkResult) (privateResult : Option BenchmarkResult) (db : Database) :
    Except SqlError Database := do
  let cleared := { db with
    benchmarkRuns := db.benchmarkRuns.delete fun run => run.submissionId = job.id }
  let withPublic ← insertBenchmarkRuns job.id .publicData publicResult cleared
  let withPrivate ← insertPrivateRuns job.id privateResult withPublic
  let updated ← updateResult now job.id publicResult privateResult withPrivate
  pure (if publicResult.verdict = .accepted then updateRepresentative config job updated
    else updated)

/-- SELECT id FROM submissions WHERE status=? -/
def selectIds (status : SubmissionStatus) (db : Database) : List String :=
  (db.submissions.rows.filter (·.status = status)).map (·.id)

def interruptedMessage : String := "worker restarted during benchmark"

/-- The UPDATE of `recoverInterrupted`. -/
def markInterrupted (db : Database) : Database :=
  db.updateSubmissions (·.status = .running) (Submission.fail interruptedMessage)
    (Submission.fail_id _)

/-- The DELETE of `recoverInterrupted`. -/
def deleteUploading (db : Database) : Database := db.deleteSubmissions (·.status = .uploading)

section Specs
variable {config : Config} {now : Timestamp} {db db' : Database}

theorem claimNext_some {locked : List String} {job : BenchmarkJob}
    (h : claimNext now locked db = (some job, db')) :
    ∃ row, db.submissions.get? row.id = some row ∧ row.status = .queued ∧ job = row.job ∧
      db' = db.updateSubmissions (·.id = row.id) (Submission.start now)
        (Submission.start_id now) := by
  unfold claimNext at h
  split at h
  · simp at h
  next row hrow =>
    obtain ⟨hjob, rfl⟩ := Prod.mk.inj h
    have hmem := List.mem_of_find?_eq_some hrow
    rw [queuedRows, List.mem_insertionSort, List.mem_filter] at hmem
    exact ⟨row, Table.get?_of_mem hmem.1, by simpa using hmem.2, (Option.some.inj hjob).symm, rfl⟩

theorem insertBenchmarkRuns_ok {id : String} {dataset : Dataset} {result : BenchmarkResult}
    (h : insertBenchmarkRuns id dataset result db = .ok db') :
    ∃ runs, db' = { db with benchmarkRuns := runs } := by
  unfold insertBenchmarkRuns at h
  refine Fallible.foldlM_invariant
    (I := fun d : Database => ∃ runs, d = { db with benchmarkRuns := runs })
    ?_ ⟨db.benchmarkRuns, rfl⟩ h
  rintro _ ⟨duration, attempt⟩ d' _ ⟨runs, rfl⟩ hd
  obtain ⟨value, _, hinsert⟩ := Fallible.bind_eq_ok.mp hd
  obtain ⟨_, _, runs', _, rfl⟩ := Database.insertBenchmarkRun_ok hinsert
  exact ⟨runs', rfl⟩

theorem insertPrivateRuns_ok {id : String} {privateResult : Option BenchmarkResult}
    (h : insertPrivateRuns id privateResult db = .ok db') :
    ∃ runs, db' = { db with benchmarkRuns := runs } := by
  cases privateResult with
  | none => exact ⟨db.benchmarkRuns, (Except.ok.inj h).symm⟩
  | some result => exact insertBenchmarkRuns_ok h

theorem updateResult_ok {id : String} {publicResult : BenchmarkResult}
    {privateResult : Option BenchmarkResult}
    (h : updateResult now id publicResult privateResult db = .ok db') :
    ∃ publicScore privateScore,
      nullableBigint publicResult.medianNS = .ok publicScore ∧
      nullableBigint (privateResult.bind (·.medianNS)) = .ok privateScore ∧
      db' = db.updateSubmissions (·.id = id)
        (Submission.complete now publicResult privateResult publicScore privateScore)
        (Submission.complete_id _ _ _ _ _) := by
  unfold updateResult at h
  obtain ⟨publicScore, hpublic, h⟩ := Fallible.bind_eq_ok.mp h
  obtain ⟨_, _, h⟩ := Fallible.bind_eq_ok.mp h
  obtain ⟨privateScore, hprivate, h⟩ := Fallible.bind_eq_ok.mp h
  exact ⟨publicScore, privateScore, hpublic, hprivate, (Except.ok.inj h).symm⟩

@[simp] theorem updateRepresentative_submissions (job : BenchmarkJob) (db : Database) :
    (updateRepresentative config job db).submissions = db.submissions := by
  unfold updateRepresentative
  split <;> rfl

@[simp] theorem updateRepresentative_contestState (job : BenchmarkJob) (db : Database) :
    (updateRepresentative config job db).contestState = db.contestState := by
  unfold updateRepresentative
  split <;> rfl

/-- The pointer update reads users and submissions only. -/
theorem updateRepresentative_users_congr {job : BenchmarkJob} {db db' : Database}
    (hs : db.submissions = db'.submissions) (hu : db.users = db'.users) :
    (updateRepresentative config job db).users = (updateRepresentative config job db').users := by
  unfold updateRepresentative
  rw [hs]
  split
  · exact hu
  · simp only [hu]

/-- The pointer update on one user. -/
theorem updateRepresentative_get? {job : BenchmarkJob} (db : Database) {candidate : Submission}
    (hc : db.submissions.get? job.id = some candidate) (username : String) :
    (updateRepresentative config job db).users.get? username =
      (db.users.get? username).map fun user =>
        if (user.username = job.username &&
          replacesRepresentative config db.submissions candidate user) = true
        then user.represent candidate.id else user := by
  unfold updateRepresentative
  rw [hc]
  exact Table.get?_update db.users _ _ (User.represent_username _) username

/-- The scores that a successful `storeResult` wrote, and what it left of the database. -/
theorem storeResult_ok {job : BenchmarkJob} {publicResult : BenchmarkResult}
    {privateResult : Option BenchmarkResult}
    (h : storeResult config now job publicResult privateResult db = .ok db') :
    ∃ publicScore privateScore,
      nullableBigint publicResult.medianNS = .ok publicScore ∧
      nullableBigint (privateResult.bind (·.medianNS)) = .ok privateScore ∧
      db'.submissions = db.submissions.update (·.id = job.id)
        (Submission.complete now publicResult privateResult publicScore privateScore)
        (Submission.complete_id _ _ _ _ _) ∧
      db'.users = (if publicResult.verdict = .accepted then
        updateRepresentative config job { db with submissions := db'.submissions } else db).users ∧
      db'.contestState = db.contestState := by
  unfold storeResult at h
  obtain ⟨_, h₁, h⟩ := Fallible.bind_eq_ok.mp h
  obtain ⟨runs₁, rfl⟩ := insertBenchmarkRuns_ok h₁
  obtain ⟨_, h₂, h⟩ := Fallible.bind_eq_ok.mp h
  obtain ⟨runs₂, rfl⟩ := insertPrivateRuns_ok h₂
  obtain ⟨_, h₃, h⟩ := Fallible.bind_eq_ok.mp h
  obtain ⟨publicScore, privateScore, hpublic, hprivate, rfl⟩ := updateResult_ok h₃
  refine ⟨publicScore, privateScore, hpublic, hprivate, ?_⟩
  obtain rfl := Except.ok.inj h
  split
  · exact ⟨updateRepresentative_submissions _ _,
      updateRepresentative_users_congr (updateRepresentative_submissions _ _).symm rfl,
      updateRepresentative_contestState _ _⟩
  · exact ⟨rfl, rfl, rfl⟩

theorem markInfrastructureFailure_not_running (id message : String) :
    (markInfrastructureFailure id message db).status id ≠ some .running := by
  rw [Database.status, markInfrastructureFailure, Database.updateSubmissions_submissions,
    Table.get?_update]
  cases hrow : db.submissions.get? id with
  | none => simp
  | some row =>
    have hid : row.id = id := Table.get?_key hrow
    by_cases hstatus : row.status = .running
    · simp [Submission.matching, hid, hstatus, Submission.fail]
    · simp [Submission.matching, hid, hstatus]

theorem storeResult_not_running {job : BenchmarkJob} {publicResult : BenchmarkResult}
    {privateResult : Option BenchmarkResult}
    (h : storeResult config now job publicResult privateResult db = .ok db') :
    db'.status job.id ≠ some .running := by
  obtain ⟨publicScore, privateScore, _, _, hrows, _, _⟩ := storeResult_ok h
  rw [Database.status, hrows, Table.get?_update]
  cases hrow : db.submissions.get? job.id with
  | none => simp
  | some row =>
    have hid : row.id = job.id := Table.get?_key hrow
    simp [hid, Submission.complete]

end Specs
end OneBrc.Server
