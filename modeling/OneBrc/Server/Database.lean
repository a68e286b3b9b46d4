import OneBrc.Domain
import OneBrc.Lib.Table
import OneBrc.Lib.Digits
import OneBrc.Lib.Fallible

/-! The MariaDB schema: rows, keys, column ranges and cascades. -/
namespace OneBrc.Server
open Lib

/-- `DATETIME(6)`, in microseconds. -/
abbrev Timestamp := ℕ

structure Config where
  contestID : String
  contestStartAt : Timestamp
  contestEndAt : Timestamp
  admins : List String
  benchmarkEnvironmentID : String

structure User where
  username : String
  representativeSubmissionId : Option String
  deriving DecidableEq

structure Submission where
  id : String
  username : String
  executionKind : Option ExecutionKind
  language : Option Language
  sourceFilename : Option String
  artifactSHA256 : Option String
  status : SubmissionStatus
  publicVerdict : Option Verdict
  publicScoreNS : Option ℕ
  privateVerdict : Option Verdict
  privateScoreNS : Option ℕ
  publicError : Option String
  infrastructureError : Option String
  disqualifiedReason : Option String
  uploadStartedAt : Timestamp
  queuedAt : Option Timestamp
  startedAt : Option Timestamp
  completedAt : Option Timestamp
  deriving DecidableEq

structure SubmissionSource where
  submissionId : String
  filename : String
  sha256 : String
  content : List UInt8
  deriving DecidableEq

structure BenchmarkRun where
  submissionId : String
  datasetKind : Dataset
  attempt : ℕ
  verdict : Verdict
  durationNS : Option ℕ
  deriving DecidableEq

/-- `uq_benchmark_attempt`. -/
def BenchmarkRun.key (run : BenchmarkRun) : String × Dataset × ℕ :=
  (run.submissionId, run.datasetKind, run.attempt)

/-- The row that the seed migration inserts; there is always exactly one. -/
structure ContestState where
  privatePublishedAt : Option Timestamp
  benchmarkEnvironmentId : Option String
  deriving DecidableEq

structure Database where
  users : Table String User User.username
  submissions : Table String Submission Submission.id
  submissionSources : Table String SubmissionSource SubmissionSource.submissionId
  benchmarkRuns : Table (String × Dataset × ℕ) BenchmarkRun BenchmarkRun.key
  contestState : ContestState
  deriving DecidableEq

/-- The database after the migrations. -/
def Database.initial : Database := ⟨.empty, .empty, .empty, .empty, ⟨none, none⟩⟩

inductive SqlError where
  | duplicateKey | foreignKey | outOfRange | dataTooLong
  deriving DecidableEq

/-- A text value bound to a `BIGINT UNSIGNED` column, under strict mode. -/
def bigintUnsigned (text : String) : Except SqlError ℕ :=
  if text.toList ≠ [] ∧ Digits.allDigits text.toList = true ∧ Digits.value text.toList < 2 ^ 64 then
    .ok (Digits.value text.toList)
  else .error .outOfRange

def nullableBigint : Option String → Except SqlError (Option ℕ)
  | none => .ok none
  | some text => (bigintUnsigned text).map some

/-- A value bound to a `TEXT` column. -/
def nullableText : Option String → Except SqlError (Option String)
  | none => .ok none
  | some text => if text.utf8ByteSize ≤ 65535 then .ok (some text) else .error .dataTooLong

namespace Database

/-- INSERT INTO benchmark_runs: foreign key, `TINYINT UNSIGNED` attempt, unique attempt. -/
def insertBenchmarkRun (db : Database) (run : BenchmarkRun) : Except SqlError Database :=
  if (db.submissions.get? run.submissionId).isNone then .error .foreignKey
  else if 255 < run.attempt then .error .outOfRange
  else match db.benchmarkRuns.insert? run with
    | none => .error .duplicateKey
    | some benchmarkRuns => .ok { db with benchmarkRuns }

/-- INSERT INTO submission_sources. -/
def insertSource (db : Database) (source : SubmissionSource) : Except SqlError Database :=
  if (db.submissions.get? source.submissionId).isNone then .error .foreignKey
  else match db.submissionSources.insert? source with
    | none => .error .duplicateKey
    | some submissionSources => .ok { db with submissionSources }

/-- DELETE FROM submissions, with the cascades of the two foreign keys. -/
def deleteSubmissions (db : Database) (p : Submission → Bool) : Database :=
  let gone (id : String) : Bool := (db.submissions.get? id).any p
  { db with
    submissions := db.submissions.delete p
    submissionSources := db.submissionSources.delete fun source => gone source.submissionId
    benchmarkRuns := db.benchmarkRuns.delete fun run => gone run.submissionId }

/-- UPDATE submissions SET .. WHERE .. -/
def updateSubmissions (db : Database) (p : Submission → Bool) (set : Submission → Submission)
    (hid : ∀ row, (set row).id = row.id) : Database :=
  { db with submissions := db.submissions.update p set hid }

/-- The status column of one submission; `none` when there is no such row. -/
def status (db : Database) (id : String) : Option SubmissionStatus :=
  (db.submissions.get? id).map (·.status)

@[simp] theorem deleteSubmissions_submissions (db : Database) (p : Submission → Bool) :
    (db.deleteSubmissions p).submissions = db.submissions.delete p := rfl

@[simp] theorem deleteSubmissions_users (db : Database) (p : Submission → Bool) :
    (db.deleteSubmissions p).users = db.users := rfl

@[simp] theorem deleteSubmissions_contestState (db : Database) (p : Submission → Bool) :
    (db.deleteSubmissions p).contestState = db.contestState := rfl

@[simp] theorem updateSubmissions_submissions (db : Database) (p : Submission → Bool)
    (set : Submission → Submission) (hid : ∀ row, (set row).id = row.id) :
    (db.updateSubmissions p set hid).submissions = db.submissions.update p set hid := rfl

@[simp] theorem updateSubmissions_users (db : Database) (p : Submission → Bool)
    (set : Submission → Submission) (hid : ∀ row, (set row).id = row.id) :
    (db.updateSubmissions p set hid).users = db.users := rfl

@[simp] theorem updateSubmissions_contestState (db : Database) (p : Submission → Bool)
    (set : Submission → Submission) (hid : ∀ row, (set row).id = row.id) :
    (db.updateSubmissions p set hid).contestState = db.contestState := rfl

theorem insertBenchmarkRun_ok {db db' : Database} {run : BenchmarkRun}
    (h : db.insertBenchmarkRun run = .ok db') :
    db.submissions.get? run.submissionId ≠ none ∧ run.attempt ≤ 255 ∧
      ∃ runs, db.benchmarkRuns.insert? run = some runs ∧
        db' = { db with benchmarkRuns := runs } := by
  unfold insertBenchmarkRun at h
  split at h
  · contradiction
  next hrow =>
    split at h
    · contradiction
    next hattempt =>
      split at h
      · contradiction
      next runs hruns =>
        refine ⟨by simpa using hrow, by omega, runs, hruns, ?_⟩
        exact (Except.ok.inj h).symm

theorem insertSource_ok {db db' : Database} {source : SubmissionSource}
    (h : db.insertSource source = .ok db') :
    db.submissions.get? source.submissionId ≠ none ∧
      ∃ sources, db.submissionSources.insert? source = some sources ∧
        db' = { db with submissionSources := sources } := by
  unfold insertSource at h
  split at h
  · contradiction
  next hrow =>
    split at h
    · contradiction
    next sources hsources =>
      exact ⟨by simpa using hrow, sources, hsources, (Except.ok.inj h).symm⟩

end Database
end OneBrc.Server
