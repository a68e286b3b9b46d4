import OneBrc.Lib.Transition
import OneBrc.Runner.JobDirectory
import OneBrc.Server.RunnerResult
import OneBrc.Server.Worker

/-! The contest system: the database, the runner's job directories, and any number of replicas,
each with its start-up recovery, its worker loop and its unfinished uploads. Every SQL transaction
and every runner command is one step; processes stop, crash and lose sessions at any point. -/
namespace OneBrc.Server
open Lib Runner

/-- What `parseUpload` returns; `sourceDigest` is the SHA-256 of `source`. -/
structure ParsedUpload where
  kind : ExecutionKind
  language : Language
  sourceFilename : String
  source : List UInt8
  sourceDigest : String
  artifactDigest : String
  deriving DecidableEq

/-- Where an `acceptSubmission` call stands. -/
inductive UploadPc where
  | reserved
  | parsed (parsed : ParsedUpload)
  | sourceStored (parsed : ParsedUpload)
  | uploaded (parsed : ParsedUpload)
  | discarding
  | discardingRow
  | finished (accepted : Bool)
  deriving DecidableEq

/-- An `acceptSubmission` call, by the id of its reservation. -/
structure Upload where
  id : String
  replica : ℕ
  pc : UploadPc
  directory : Bool
  deriving DecidableEq

/-- Where a `recoverInterrupted` call stands. -/
inductive RecoveryPc where
  | selectRunning
  | cancelling (ids : List String)
  | cancelMarked (id : String) (ids : List String)
  | selectUploading
  | deleteUploading (ids : List String)
  | cleaning (ids : List String)
  deriving DecidableEq

/-- Where `supervise` and `runAsLeader` stand; `head` is the point before `claimNext`. -/
inductive WorkerPc where
  | waiting
  | starting
  | head
  | claimed (job : BenchmarkJob)
  | running (job : BenchmarkJob)
  | marking (job : BenchmarkJob) (message : String)
  | storing (job : BenchmarkJob) (result : RunnerJobResult)
  | cleaning (job : BenchmarkJob)
  | leaving
  | stopped
  deriving DecidableEq

inductive Phase where
  | recovering (pc : RecoveryPc)
  | serving (pc : WorkerPc)
  deriving DecidableEq

/-- A live process; `cancelled` is the state of its context. -/
structure Replica where
  id : ℕ
  phase : Phase
  cancelled : Bool
  deriving DecidableEq

/-- `lock` is the session that holds the worker lock; `publishing` says that a `publishPrivate`
transaction holds the contest state after its checks; `usedIds` are the uuids drawn so far. -/
structure System where
  db : Database
  now : Timestamp
  jobs : Jobs
  lock : Option ℕ
  replicas : Table ℕ Replica Replica.id
  uploads : Table String Upload Upload.id
  publishing : Bool
  usedIds : List String
  deriving DecidableEq

def System.initial : System := ⟨.initial, 0, .empty, none, .empty, .empty, false, []⟩

inductive UploadAction where
  | parse (parsed : Option ParsedUpload) (keepsDirectory : Bool)
  | storeSource (acknowledged : Bool)
  | runnerUpload (stored acknowledged : Bool)
  | queueUpload (acknowledged : Bool)
  | fail
  | discardCleanup (executed : Bool)
  | discardRow (executed : Bool)
  deriving DecidableEq

inductive RecoveryAction where
  | selectRunning
  | cancelMark
  | cancelFinish
  | markInterrupted
  | selectUploading
  | deleteUploading
  | cleanup (executed : Bool)
  | finish
  deriving DecidableEq

inductive WorkerAction where
  | acquireLock
  | validateEnvironment
  | claimNext (locked : List String) (acknowledged : Bool)
  | begin
  | runReturns (result : Option RunnerJobResult)
  | markFailure (acknowledged : Bool)
  | storeResult (acknowledged : Bool)
  | giveUp
  | cleanup (executed : Bool)
  | leave
  deriving DecidableEq

inductive AdminAction where
  | retry (id : String)
  | disqualify (id reason : String)
  | publishCheck
  | publishCommit
  | publishAbort
  | unpublish
  deriving DecidableEq

inductive Action where
  | tick (elapsed : ℕ)
  | ensureUser (username : String)
  | start (replica : ℕ)
  | stop (replica : ℕ)
  | crash (replica : ℕ)
  | loseLock
  | reserve (replica : ℕ) (id username : String) (acknowledged : Bool)
  | upload (id : String) (action : UploadAction)
  | recover (replica : ℕ) (action : RecoveryAction)
  | worker (replica : ℕ) (action : WorkerAction)
  | admin (action : AdminAction)
  deriving DecidableEq

namespace System

def setUpload (s : System) (u : Upload) : System := { s with uploads := s.uploads.put u }

def setReplica (s : System) (r : Replica) : System := { s with replicas := s.replicas.put r }

def setRecovery (s : System) (r : Replica) (pc : RecoveryPc) : System :=
  s.setReplica { r with phase := .recovering pc }

def setWorker (s : System) (r : Replica) (pc : WorkerPc) : System :=
  s.setReplica { r with phase := .serving pc }

end System

/-- `validateEnvironment`: the first leader records its environment, later ones must match it. -/
def validateEnvironment (config : Config) (db : Database) : Except AppError Database :=
  match db.contestState.benchmarkEnvironmentId with
  | some existing =>
      if existing ≠ config.benchmarkEnvironmentID then
        .error ⟨.infrastructure, "benchmark_environment_mismatch",
          "benchmark environment mismatch: database=" ++ existing ++ ", configured=" ++
            config.benchmarkEnvironmentID⟩
      else .ok db
  | none =>
      .ok { db with contestState :=
        { db.contestState with benchmarkEnvironmentId := some config.benchmarkEnvironmentID } }

theorem validateEnvironment_ok {config : Config} {db db' : Database}
    (h : validateEnvironment config db = .ok db') :
    db'.submissions = db.submissions ∧ db'.users = db.users ∧
      db'.contestState.privatePublishedAt = db.contestState.privatePublishedAt := by
  unfold validateEnvironment at h
  split at h
  · split at h
    · contradiction
    · obtain rfl := Except.ok.inj h
      exact ⟨rfl, rfl, rfl⟩
  · obtain rfl := Except.ok.inj h
    exact ⟨rfl, rfl, rfl⟩

def missingMetadataMessage : String := "queued submission is missing execution metadata"

def runnerUnavailableMessage : String :=
  "計測環境に接続できませんでした。しばらく待ってから再度提出してください"

/-- One step of an `acceptSubmission` call after its reservation. -/
def uploadStep (s : System) (u : Upload) : UploadAction → UploadPc → Option System
  | .parse parsed keepsDirectory, .reserved =>
      some (s.setUpload { u with
        pc := match parsed with
          | some p => .parsed p
          | none => .discarding
        directory := parsed.isSome || keepsDirectory })
  | .storeSource acknowledged, .parsed p =>
      match storeSource u.id p.sourceFilename p.sourceDigest p.source s.db with
      | .error _ => some (s.setUpload { u with pc := .discarding })
      | .ok db =>
          let pc := if acknowledged then .sourceStored p else .discarding
          some ({ s with db }.setUpload { u with pc })
  | .runnerUpload stored acknowledged, .sourceStored p =>
      let jobs := if stored then s.jobs.upload u.id p.kind p.artifactDigest else s.jobs
      let pc := if stored && acknowledged then .uploaded p else .discarding
      some ({ s with jobs }.setUpload { u with pc })
  | .queueUpload acknowledged, .uploaded p =>
      let (affected, db) :=
        queueUpload s.now u.id p.kind p.language p.sourceFilename p.artifactDigest s.db
      if affected && acknowledged then
        some ({ s with db }.setUpload { u with pc := .finished true, directory := false })
      else some ({ s with db }.setUpload { u with pc := .discarding })
  | .fail, .parsed _ | .fail, .sourceStored _ | .fail, .uploaded _ =>
      some (s.setUpload { u with pc := .discarding })
  | .discardCleanup executed, .discarding =>
      let jobs := if executed then s.jobs.cleanup u.id else s.jobs
      some ({ s with jobs }.setUpload { u with pc := .discardingRow })
  | .discardRow executed, .discardingRow =>
      let db := if executed then discardUpload u.id s.db else s.db
      some ({ s with db }.setUpload { u with pc := .finished false, directory := false })
  | _, _ => none

/-- One statement or runner command of `recoverInterrupted`. An error ends the process. -/
def recoveryStep (s : System) (r : Replica) : RecoveryAction → RecoveryPc → Option System
  | .selectRunning, .selectRunning =>
      some (s.setRecovery r (.cancelling (selectIds .running s.db)))
  | .cancelMark, .cancelling (id :: ids) =>
      some ({ s with jobs := s.jobs.markCancelled id }.setRecovery r (.cancelMarked id ids))
  | .cancelFinish, .cancelMarked id ids =>
      some ({ s with jobs := s.jobs.cleanup id }.setRecovery r (.cancelling ids))
  | .markInterrupted, .cancelling [] =>
      some ({ s with db := markInterrupted s.db }.setRecovery r .selectUploading)
  | .selectUploading, .selectUploading =>
      some (s.setRecovery r (.deleteUploading (selectIds .uploading s.db)))
  | .deleteUploading, .deleteUploading ids =>
      some ({ s with db := deleteUploading s.db }.setRecovery r (.cleaning ids))
  | .cleanup executed, .cleaning (id :: ids) =>
      let jobs := if executed then s.jobs.cleanup id else s.jobs
      some ({ s with jobs }.setRecovery r (.cleaning ids))
  | .finish, .cleaning [] => some (s.setWorker r .waiting)
  | _, _ => none

/-- The loop condition of `runAsLeader`. -/
def Replica.loopHead (r : Replica) : WorkerPc := if r.cancelled then .leaving else .head

/-- `run` of the gateway fails at once when the artifact is missing or the job is cancelled. -/
def runnable (jobs : Jobs) (job : BenchmarkJob) : Bool :=
  match job.kind with
  | none => false
  | some kind => (jobs.artifact? job.id kind).isSome && !jobs.isCancelled job.id

/-- Release the lock unless another session has it by now. -/
def System.releaseLock (s : System) (r : Replica) : System :=
  { s with lock := if s.lock = some r.id then none else s.lock }

/-- One step of `supervise` and `runAsLeader`. -/
def workerStep (config : Config) (s : System) (r : Replica) :
    WorkerAction → WorkerPc → Option System
  | .acquireLock, .waiting =>
      if s.lock = none then some ({ s with lock := some r.id }.setWorker r .starting) else none
  | .validateEnvironment, .starting =>
      if s.publishing then none
      else match validateEnvironment config s.db with
        | .error _ => none
        | .ok db => some ({ s with db }.setWorker r .head)
  | .claimNext locked acknowledged, .head =>
      match claimNext s.now locked s.db with
      | (none, _) => some (s.setWorker r r.loopHead)
      | (some job, db) =>
          some ({ s with db }.setWorker r (if acknowledged then .claimed job else r.loopHead))
  | .begin, .claimed job =>
      if job.kind.isNone || job.language.isNone then
        some (s.setWorker r (.marking job missingMetadataMessage))
      else if runnable s.jobs job then some (s.setWorker r (.running job))
      else some (s.setWorker r (.marking job runnerUnavailableMessage))
  | .runReturns none, .running job =>
      some (s.setWorker r (.marking job runnerUnavailableMessage))
  | .runReturns (some result), .running job =>
      if validateRunnerResult config.benchmarkEnvironmentID result then
        some (s.setWorker r (.storing job result))
      else none
  | .markFailure acknowledged, .marking job message =>
      let db := markInfrastructureFailure job.id message s.db
      let pc := if acknowledged then r.loopHead else .marking job message
      some ({ s with db }.setWorker r pc)
  | .storeResult acknowledged, .storing job result =>
      match storeResult config s.now job result.publicResult result.privateResult s.db with
      | .error _ => none
      | .ok db =>
          let pc := if acknowledged then .cleaning job else .storing job result
          some ({ s with db }.setWorker r pc)
  | .giveUp, .marking _ _ => if r.cancelled then some (s.setWorker r .leaving) else none
  | .giveUp, .storing job _ => if r.cancelled then some (s.setWorker r (.cleaning job)) else none
  | .cleanup executed, .cleaning job =>
      let jobs := if executed then s.jobs.cleanup job.id else s.jobs
      some ({ s with jobs }.setWorker r r.loopHead)
  | .leave, .starting | .leave, .leaving => some ((s.releaseLock r).setWorker r .stopped)
  | .leave, .head =>
      if r.cancelled then some ((s.releaseLock r).setWorker r .stopped) else none
  | _, _ => none

def adminStep (config : Config) (s : System) : AdminAction → Option System
  | .retry id =>
      match retrySubmission id s.db with
      | .error _ => none
      | .ok db => some { s with db }
  | .disqualify id reason =>
      match disqualifySubmission id reason s.db with
      | .error _ => none
      | .ok db => some { s with db }
  | .publishCheck =>
      if s.publishing then none
      else match publishPrivateCheck config s.now s.db with
        | .error _ => none
        | .ok _ => some { s with publishing := true }
  | .publishCommit =>
      if s.publishing then
        some { s with db := publishPrivateCommit s.now s.db, publishing := false }
      else none
  | .publishAbort => if s.publishing then some { s with publishing := false } else none
  | .unpublish =>
      if s.publishing then none
      else match unpublishPrivate s.db with
        | .error _ => none
        | .ok db => some { s with db }

/-- A reservation waits for the row of the contest state, and never draws a uuid twice. -/
def reserveStep (config : Config) (s : System) (replica : ℕ) (id username : String)
    (acknowledged : Bool) : Option System :=
  if s.publishing || id ∈ s.usedIds then none
  else match reserveSubmission config s.now id username s.db with
    | .error _ => none
    | .ok (reserved, db) =>
        let reservedState := { s with db, usedIds := id :: s.usedIds }
        if acknowledged then some (reservedState.setUpload ⟨reserved.id, replica, .reserved, false⟩)
        else some reservedState

/-- The end of a process takes its session, its calls and its uploads with it. -/
def crashStep (s : System) (replica : ℕ) : System :=
  { s with
    lock := if s.lock = some replica then none else s.lock
    replicas := s.replicas.delete (·.id = replica)
    uploads := s.uploads.delete (·.replica = replica) }

def step (config : Config) (s : System) : Action → Option System
  | .tick elapsed => some { s with now := s.now + elapsed }
  | .ensureUser username => some { s with db := ensureUser username s.db }
  | .start replica =>
      match s.replicas.get? replica with
      | some _ => none
      | none => some (s.setReplica ⟨replica, .recovering .selectRunning, false⟩)
  | .stop replica =>
      match s.replicas.get? replica with
      | none => none
      | some r => some (s.setReplica { r with cancelled := true })
  | .crash replica => some (crashStep s replica)
  | .loseLock => some { s with lock := none }
  | .reserve replica id username acknowledged =>
      match s.replicas.get? replica with
      | some ⟨_, .serving _, _⟩ => reserveStep config s replica id username acknowledged
      | _ => none
  | .upload id action =>
      match s.uploads.get? id with
      | none => none
      | some u => uploadStep s u action u.pc
  | .recover replica action =>
      match s.replicas.get? replica with
      | some ⟨i, .recovering pc, cancelled⟩ =>
          recoveryStep s ⟨i, .recovering pc, cancelled⟩ action pc
      | _ => none
  | .worker replica action =>
      match s.replicas.get? replica with
      | some ⟨i, .serving pc, cancelled⟩ =>
          workerStep config s ⟨i, .serving pc, cancelled⟩ action pc
      | _ => none
  | .admin action => adminStep config s action

/-- The contest system under one configuration. -/
def contestSystem (config : Config) : TransitionSystem System Action :=
  ⟨System.initial, step config⟩

/-- `supervise` has taken the lock and has not left `runAsLeader`. -/
def WorkerPc.inLoop : WorkerPc → Bool
  | .waiting | .stopped => false
  | _ => true

def Replica.inLoop (r : Replica) : Bool :=
  match r.phase with
  | .recovering _ => false
  | .serving pc => pc.inLoop

/-- The condition on steps that a worker loop starts only when no other one runs. -/
def OneWorkerLoop (s : System) (a : Action) : Prop :=
  (∃ r ∈ s.replicas.rows, a = .worker r.id .acquireLock) → ∀ r ∈ s.replicas.rows, r.inLoop = false

instance : DecidableRel OneWorkerLoop := fun s a =>
  inferInstanceAs (Decidable ((∃ r ∈ s.replicas.rows, a = .worker r.id .acquireLock) →
    ∀ r ∈ s.replicas.rows, r.inLoop = false))

/-- The steps of `Run` up to the start of the worker, when recovery finds nothing. -/
def boot (replica : ℕ) : List Action :=
  .start replica :: [.selectRunning, .markInterrupted, .selectUploading, .deleteUploading,
    .finish].map (.recover replica)

/-- The steps of `supervise` up to the head of the loop. -/
def lead (replica : ℕ) : List Action :=
  [.acquireLock, .validateEnvironment].map (.worker replica)

/-- The steps of an `acceptSubmission` that succeeds. -/
def accept (replica : ℕ) (id username : String) (p : ParsedUpload) : List Action :=
  .reserve replica id username true :: [.parse (some p) true, .storeSource true,
    .runnerUpload true true, .queueUpload true].map (.upload id)

/-- The steps of the worker from the claim up to `storeResult`. -/
def benchmark (replica : ℕ) (result : RunnerJobResult) : List Action :=
  [.claimNext [] true, .begin, .runReturns (some result)].map (.worker replica)

/-- The steps of the worker when the runner cannot be reached. -/
def benchmarkFailure (replica : ℕ) : List Action :=
  [.claimNext [] true, .begin, .runReturns none, .markFailure true].map (.worker replica)

end OneBrc.Server
