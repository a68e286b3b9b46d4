import OneBrc.Server.Leaderboard
import OneBrc.Server.Repository

/-! The read queries of `repository.go`. Where ORDER BY leaves rows level, the engine may return
them in any order; `tie` gives their order by id. -/
namespace OneBrc.Server
open Lib StableSort

/-- A scanned row; the last two columns are NULL in queries without the derived columns. -/
structure SubmissionRow extends Submission where
  submissionNumber : Option ℕ
  queueAhead : Option ℕ

/-- ORDER BY upload_started_at DESC. -/
def newerFirst (a b : Submission) : Bool := b.uploadStartedAt < a.uploadStartedAt

/-- Uploaded before the row; equal times are ordered by id. -/
def Submission.uploadedBefore (prior row : Submission) : Bool :=
  prior.uploadStartedAt < row.uploadStartedAt ||
    prior.uploadStartedAt = row.uploadStartedAt && prior.id < row.id

/-- The column `submission_number`. -/
def submissionNumber (db : Database) (row : Submission) : ℕ :=
  db.submissions.count fun prior => prior.username = row.username && prior.status ≠ .rejected &&
    (prior.uploadStartedAt < row.uploadStartedAt ||
      prior.uploadStartedAt = row.uploadStartedAt && prior.id ≤ row.id)

/-- The column `queue_ahead`. -/
def queueAhead (db : Database) (row : Submission) : Option ℕ :=
  if row.status = .queued then
    some (db.submissions.count fun queued => queued.status = .running ||
      queued.status = .queued && queued.uploadedBefore row)
  else none

def submissionsForUser (tie : String → ℕ) (username : String) (db : Database) :
    List SubmissionRow :=
  let rows := db.submissions.rows.filter fun row =>
    row.username = username && row.status ≠ .rejected
  ((orderBy newerFirst (fun row => tie row.id) rows).take 100).map fun row =>
    ⟨row, some (submissionNumber db row), queueAhead db row⟩

def allSubmissions (tie : String → ℕ) (db : Database) : List SubmissionRow :=
  let rows := db.submissions.rows.filter fun row => row.status ≠ .rejected
  ((orderBy newerFirst (fun row => tie row.id) rows).take 500).map fun row => ⟨row, none, none⟩

def submissionByID (id : String) (db : Database) : Option SubmissionRow :=
  (db.submissions.get? id).map fun row => ⟨row, none, none⟩

structure SourceRow where
  username : String
  representative : Option String
  filename : String
  content : List UInt8

/-- The row of a submission, joined with its user and its source. -/
def submissionSource (id : String) (db : Database) : Option SourceRow := do
  let row ← db.submissions.get? id
  let user ← db.users.get? row.username
  let source ← db.submissionSources.get? id
  return ⟨row.username, user.representativeSubmissionId, source.filename, source.content⟩

def privatePublished (db : Database) : Option Timestamp := db.contestState.privatePublishedAt

/-- The user's representative, if it was uploaded before the end and is in the language. -/
def representativeOf (config : Config) (language : Option String) (db : Database) (user : User) :
    Option (User × Submission) := do
  let id ← user.representativeSubmissionId
  let row ← db.submissions.get? id
  guard (row.publicVerdict = some .accepted ∧ row.uploadStartedAt ≤ config.contestEndAt ∧
    ∀ name ∈ language, row.language.map Language.name = some name)
  return (user, row)

theorem representativeOf_eq_some {config : Config} {language : Option String} {db : Database}
    {user : User} {joined : User × Submission} :
    representativeOf config language db user = some joined ↔
      ∃ id, user.representativeSubmissionId = some id ∧ joined.1 = user ∧
        db.submissions.get? id = some joined.2 ∧ joined.2.publicVerdict = some .accepted ∧
        joined.2.uploadStartedAt ≤ config.contestEndAt ∧
        ∀ name ∈ language, joined.2.language.map Language.name = some name := by
  obtain ⟨user', row⟩ := joined
  simp only [representativeOf, Option.bind_eq_bind, Option.bind_eq_some_iff, Option.pure_def,
    Option.some.injEq, Prod.mk.injEq, Option.guard_eq_some']
  refine exists_congr fun id => and_congr_right fun _ => ?_
  constructor
  · rintro ⟨_, hrow, _, hguard, rfl, rfl⟩
    exact ⟨rfl, hrow, hguard⟩
  · rintro ⟨rfl, hrow, hguard⟩
    exact ⟨row, hrow, (), hguard, rfl, rfl⟩

/-- The users joined with their representatives. -/
def representatives (config : Config) (language : Option String) (db : Database) :
    List (User × Submission) := db.users.rows.filterMap (representativeOf config language db)

/-- The rows of the query, in its order. -/
def leaderboardQuery (config : Config) (tie : String → ℕ) (language : Option String)
    (db : Database) : List (User × Submission) :=
  orderBy (fun a b => a.2.uploadStartedAt < b.2.uploadStartedAt)
    (fun joined => tie joined.2.id) (representatives config language db)

/-- Scanning a NULL language into a string fails. -/
def scanLeaderboardRecord (joined : User × Submission) : Except AppError LeaderboardRecord :=
  match joined.2.language, joined.2.publicVerdict with
  | some language, some verdict => .ok {
      username := joined.1.username
      id := joined.2.id
      language := language.name
      publicVerdict := verdict.name
      publicScore := joined.2.publicScoreNS.map Nat.repr
      privateVerdict := joined.2.privateVerdict.map Verdict.name
      privateScore := joined.2.privateScoreNS.map Nat.repr
      disqualified := joined.2.disqualifiedReason
      submittedAt := joined.2.uploadStartedAt }
  | _, _ => .error databaseError

def leaderboardRows (config : Config) (tie : String → ℕ) (language : Option String)
    (db : Database) : Except AppError (List LeaderboardRecord) := do
  let rows ← (leaderboardQuery config tie language db).mapM scanLeaderboardRecord
  return rows.filter fun row => !config.admins.contains row.username

/-- Distinct users and number of submissions. -/
def participationStats (db : Database) : ℤ × ℤ :=
  let rows := db.submissions.rows.filter fun row => row.status ≠ .rejected
  (int32 (rows.map (·.username)).dedup.length, int32 rows.length)

structure LeaderboardReplaySubmission where
  submissionId : String
  username : String
  language : Option String
  publicVerdict : Option String
  privateVerdict : Option String
  privateScoreNs : Option String
  disqualified : Bool
  submittedAt : String

def Submission.replayItem (row : Submission) : LeaderboardReplaySubmission where
  submissionId := row.id
  username := row.username
  language := row.language.map Language.name
  publicVerdict := row.publicVerdict.map Verdict.name
  privateVerdict := row.privateVerdict.map Verdict.name
  privateScoreNs := row.privateScoreNS.map Nat.repr
  disqualified := row.disqualifiedReason.isSome
  submittedAt := CivilTime.isoTime row.uploadStartedAt

def leaderboardReplay (config : Config) (db : Database) : List LeaderboardReplaySubmission :=
  let rows := db.submissions.rows.filter fun row =>
    row.publicVerdict = some .accepted && row.uploadStartedAt ≤ config.contestEndAt
  let rows := sliceStable Submission.uploadedBefore rows
  (rows.filter fun row => !config.admins.contains row.username).map Submission.replayItem

end OneBrc.Server
