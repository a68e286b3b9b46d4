import OneBrc.Server.System

/-! What one step of the contest system does: one constructor for each way in which a step
succeeds, with what its guards established and the state it leaves. -/
namespace OneBrc.Server
open Lib Runner

/-- The ways in which `uploadStep` succeeds. -/
inductive UploadEffect (s : System) (u : Upload) : UploadAction → UploadPc → System → Prop
  | parsed (p : ParsedUpload) (keepsDirectory : Bool) :
      UploadEffect s u (.parse (some p) keepsDirectory) .reserved
        (s.setUpload { u with pc := .parsed p, directory := true })
  | refused (keepsDirectory : Bool) :
      UploadEffect s u (.parse none keepsDirectory) .reserved
        (s.setUpload { u with pc := .discarding, directory := keepsDirectory })
  | sourceFailed (acknowledged : Bool) (p : ParsedUpload) :
      UploadEffect s u (.storeSource acknowledged) (.parsed p)
        (s.setUpload { u with pc := .discarding })
  | sourceStored (acknowledged : Bool) (p : ParsedUpload)
      (sources : Table String SubmissionSource SubmissionSource.submissionId)
      (hrow : s.db.submissions.get? u.id ≠ none)
      (hsources : s.db.submissionSources.insert?
        ⟨u.id, p.sourceFilename, p.sourceDigest, p.source⟩ = some sources) :
      UploadEffect s u (.storeSource acknowledged) (.parsed p)
        ({ s with db := { s.db with submissionSources := sources } }.setUpload
          { u with pc := if acknowledged then .sourceStored p else .discarding })
  | runnerUpload (stored acknowledged : Bool) (p : ParsedUpload) :
      UploadEffect s u (.runnerUpload stored acknowledged) (.sourceStored p)
        ({ s with jobs := if stored then s.jobs.upload u.id p.kind p.artifactDigest
            else s.jobs }.setUpload
          { u with pc := if stored && acknowledged then .uploaded p else .discarding })
  | queued (p : ParsedUpload) (row : Submission) (hrow : s.db.submissions.get? u.id = some row)
      (hstatus : row.status = .uploading) :
      UploadEffect s u (.queueUpload true) (.uploaded p)
        ({ s with db := (queueUpload s.now u.id p.kind p.language p.sourceFilename
            p.artifactDigest s.db).2 }.setUpload
          { u with pc := .finished true, directory := false })
  | queueFailed (acknowledged : Bool) (p : ParsedUpload) :
      UploadEffect s u (.queueUpload acknowledged) (.uploaded p)
        ({ s with db := (queueUpload s.now u.id p.kind p.language p.sourceFilename
            p.artifactDigest s.db).2 }.setUpload { u with pc := .discarding })
  | failed (pc : UploadPc) (hpc : ∃ p, pc = .parsed p ∨ pc = .sourceStored p ∨ pc = .uploaded p) :
      UploadEffect s u .fail pc (s.setUpload { u with pc := .discarding })
  | discardCleanup (executed : Bool) :
      UploadEffect s u (.discardCleanup executed) .discarding
        ({ s with jobs := if executed then s.jobs.cleanup u.id else s.jobs }.setUpload
          { u with pc := .discardingRow })
  | discardRow (executed : Bool) :
      UploadEffect s u (.discardRow executed) .discardingRow
        ({ s with db := if executed then discardUpload u.id s.db else s.db }.setUpload
          { u with pc := .finished false, directory := false })

/-- The ways in which `recoveryStep` succeeds. -/
inductive RecoveryEffect (s : System) (r : Replica) :
    RecoveryAction → RecoveryPc → System → Prop
  | selectRunning :
      RecoveryEffect s r .selectRunning .selectRunning
        (s.setRecovery r (.cancelling (selectIds .running s.db)))
  | cancelMark (id : String) (ids : List String) :
      RecoveryEffect s r .cancelMark (.cancelling (id :: ids))
        ({ s with jobs := s.jobs.markCancelled id }.setRecovery r (.cancelMarked id ids))
  | cancelFinish (id : String) (ids : List String) :
      RecoveryEffect s r .cancelFinish (.cancelMarked id ids)
        ({ s with jobs := s.jobs.cleanup id }.setRecovery r (.cancelling ids))
  | markInterrupted :
      RecoveryEffect s r .markInterrupted (.cancelling [])
        ({ s with db := markInterrupted s.db }.setRecovery r .selectUploading)
  | selectUploading :
      RecoveryEffect s r .selectUploading .selectUploading
        (s.setRecovery r (.deleteUploading (selectIds .uploading s.db)))
  | deleteUploading (ids : List String) :
      RecoveryEffect s r .deleteUploading (.deleteUploading ids)
        ({ s with db := deleteUploading s.db }.setRecovery r (.cleaning ids))
  | cleanup (executed : Bool) (id : String) (ids : List String) :
      RecoveryEffect s r (.cleanup executed) (.cleaning (id :: ids))
        ({ s with jobs := if executed then s.jobs.cleanup id else s.jobs }.setRecovery r
          (.cleaning ids))
  | finish : RecoveryEffect s r .finish (.cleaning []) (s.setWorker r .waiting)

/-- The ways in which `workerStep` succeeds. -/
inductive WorkerEffect (config : Config) (s : System) (r : Replica) :
    WorkerAction → WorkerPc → System → Prop
  | acquireLock (hlock : s.lock = none) :
      WorkerEffect config s r .acquireLock .waiting
        ({ s with lock := some r.id }.setWorker r .starting)
  | validateEnvironment (db : Database) (hpublishing : s.publishing = false)
      (hdb : validateEnvironment config s.db = .ok db) :
      WorkerEffect config s r .validateEnvironment .starting ({ s with db }.setWorker r .head)
  | idle (locked : List String) (acknowledged : Bool) :
      WorkerEffect config s r (.claimNext locked acknowledged) .head (s.setWorker r r.loopHead)
  | claim (locked : List String) (acknowledged : Bool) (row : Submission)
      (hrow : s.db.submissions.get? row.id = some row) (hstatus : row.status = .queued) :
      WorkerEffect config s r (.claimNext locked acknowledged) .head
        ({ s with db := (s.db.updateSubmissions (·.id = row.id) (Submission.start s.now)
            (Submission.start_id _)) }.setWorker r
          (if acknowledged then .claimed row.job else r.loopHead))
  | refuse (job : BenchmarkJob) (message : String) :
      WorkerEffect config s r .begin (.claimed job) (s.setWorker r (.marking job message))
  | begin (job : BenchmarkJob) (hrun : runnable s.jobs job = true) :
      WorkerEffect config s r .begin (.claimed job) (s.setWorker r (.running job))
  | runFailed (job : BenchmarkJob) :
      WorkerEffect config s r (.runReturns none) (.running job)
        (s.setWorker r (.marking job runnerUnavailableMessage))
  | runReturned (job : BenchmarkJob) (result : RunnerJobResult)
      (hvalid : validateRunnerResult config.benchmarkEnvironmentID result = true) :
      WorkerEffect config s r (.runReturns (some result)) (.running job)
        (s.setWorker r (.storing job result))
  | markFailure (acknowledged : Bool) (job : BenchmarkJob) (message : String) :
      WorkerEffect config s r (.markFailure acknowledged) (.marking job message)
        ({ s with db := markInfrastructureFailure job.id message s.db }.setWorker r
          (if acknowledged then r.loopHead else .marking job message))
  | storeResult (acknowledged : Bool) (job : BenchmarkJob) (result : RunnerJobResult)
      (db : Database)
      (hdb : storeResult config s.now job result.publicResult result.privateResult s.db = .ok db) :
      WorkerEffect config s r (.storeResult acknowledged) (.storing job result)
        ({ s with db }.setWorker r
          (if acknowledged then .cleaning job else .storing job result))
  | abandonMark (job : BenchmarkJob) (message : String) (hcancelled : r.cancelled = true) :
      WorkerEffect config s r .giveUp (.marking job message) (s.setWorker r .leaving)
  | abandonStore (job : BenchmarkJob) (result : RunnerJobResult)
      (hcancelled : r.cancelled = true) :
      WorkerEffect config s r .giveUp (.storing job result) (s.setWorker r (.cleaning job))
  | cleanup (executed : Bool) (job : BenchmarkJob) :
      WorkerEffect config s r (.cleanup executed) (.cleaning job)
        ({ s with jobs := if executed then s.jobs.cleanup job.id else s.jobs }.setWorker r
          r.loopHead)
  | leave (pc : WorkerPc)
      (hpc : pc = .starting ∨ pc = .leaving ∨ pc = .head ∧ r.cancelled = true) :
      WorkerEffect config s r .leave pc ((s.releaseLock r).setWorker r .stopped)

/-- The ways in which `adminStep` succeeds. -/
inductive AdminEffect (config : Config) (s : System) : AdminAction → System → Prop
  | retry (id : String) (row : Submission) (hrow : s.db.submissions.get? id = some row)
      (hstatus : row.status = .infrastructureError) :
      AdminEffect config s (.retry id)
        { s with db := (s.db.updateSubmissions (Submission.matching id .infrastructureError)
            Submission.retry Submission.retry_id) }
  | disqualify (id reason : String) (row : Submission)
      (hrow : s.db.submissions.get? id = some row) (huploading : row.status ≠ .uploading)
      (hrunning : row.status ≠ .running) :
      AdminEffect config s (.disqualify id reason)
        { s with db := (s.db.updateSubmissions (·.id = id)
            (Submission.disqualify (truncateUTF16 reason 8192)) (Submission.disqualify_id _)) }
  | publishCheck (hpublished : s.db.contestState.privatePublishedAt = none)
      (hend : config.contestEndAt < s.now)
      (hdrained : ∀ k row, s.db.submissions.get? k = some row → row.status.isActive = false) :
      AdminEffect config s .publishCheck { s with publishing := true }
  | publishCommit (hpublishing : s.publishing = true) :
      AdminEffect config s .publishCommit
        { s with db := publishPrivateCommit s.now s.db, publishing := false }
  | publishAbort (hpublishing : s.publishing = true) :
      AdminEffect config s .publishAbort { s with publishing := false }
  | unpublish (hpublishing : s.publishing = false) :
      AdminEffect config s .unpublish
        { s with db := { s.db with contestState :=
          { s.db.contestState with privatePublishedAt := none } } }

/-- The ways in which `step` succeeds. -/
inductive Effect (config : Config) (s : System) : Action → System → Prop
  | tick (elapsed : ℕ) : Effect config s (.tick elapsed) { s with now := s.now + elapsed }
  | ensureUser (username : String) :
      Effect config s (.ensureUser username) { s with db := ensureUser username s.db }
  | start (replica : ℕ) (hr : s.replicas.get? replica = none) :
      Effect config s (.start replica)
        (s.setReplica ⟨replica, .recovering .selectRunning, false⟩)
  | stop (r : Replica) (hr : s.replicas.get? r.id = some r) :
      Effect config s (.stop r.id) (s.setReplica { r with cancelled := true })
  | crash (replica : ℕ) : Effect config s (.crash replica) (crashStep s replica)
  | loseLock : Effect config s .loseLock { s with lock := none }
  | reserve (replica : ℕ) (id username : String) (acknowledged : Bool)
      (hpublishing : s.publishing = false) (hfresh : id ∉ s.usedIds)
      (hstart : config.contestStartAt ≤ s.now) (hnew : s.db.submissions.get? id = none)
      (hinactive : ∀ k row, s.db.submissions.get? k = some row → row.username = username →
        row.status.isActive = false) :
      Effect config s (.reserve replica id username acknowledged)
        { s with
          db := { ensureUser username s.db with
            submissions := s.db.submissions.insert (.reserved id username s.now) hnew }
          usedIds := id :: s.usedIds
          uploads := if acknowledged then s.uploads.put ⟨id, replica, .reserved, false⟩
            else s.uploads }
  | upload (u : Upload) (action : UploadAction) (s' : System)
      (hu : s.uploads.get? u.id = some u) (heffect : UploadEffect s u action u.pc s') :
      Effect config s (.upload u.id action) s'
  | recover (r : Replica) (pc : RecoveryPc) (action : RecoveryAction) (s' : System)
      (hr : s.replicas.get? r.id = some r) (hpc : r.phase = .recovering pc)
      (heffect : RecoveryEffect s r action pc s') :
      Effect config s (.recover r.id action) s'
  | worker (r : Replica) (pc : WorkerPc) (action : WorkerAction) (s' : System)
      (hr : s.replicas.get? r.id = some r) (hpc : r.phase = .serving pc)
      (heffect : WorkerEffect config s r action pc s') :
      Effect config s (.worker r.id action) s'
  | admin (action : AdminAction) (s' : System) (heffect : AdminEffect config s action s') :
      Effect config s (.admin action) s'

section Inversion
variable {config : Config} {s s' : System}

theorem uploadStep_effect {u : Upload} {action : UploadAction} {pc : UploadPc}
    (h : uploadStep s u action pc = some s') : UploadEffect s u action pc s' := by
  unfold uploadStep at h
  split at h
  · next parsed keepsDirectory =>
    obtain rfl := Option.some.inj h
    cases parsed with
    | none => exact .refused keepsDirectory
    | some p => exact .parsed p keepsDirectory
  · next acknowledged p =>
    split at h
    · obtain rfl := Option.some.inj h
      exact .sourceFailed acknowledged p
    · next db hdb =>
      obtain rfl := Option.some.inj h
      obtain ⟨hrow, sources, hsources, rfl⟩ := Database.insertSource_ok (storeSource_ok hdb)
      exact .sourceStored acknowledged p sources hrow hsources
  · next stored acknowledged p =>
    obtain rfl := Option.some.inj h
    exact .runnerUpload stored acknowledged p
  · next acknowledged p =>
    dsimp only at h
    split at h
    · next hok =>
      obtain rfl := Option.some.inj h
      obtain ⟨haffected, rfl⟩ := Bool.and_eq_true_iff.mp hok
      obtain ⟨row, hrow, hstatus⟩ := count_matching (of_decide_eq_true haffected)
      exact .queued p row hrow hstatus
    · obtain rfl := Option.some.inj h
      exact .queueFailed acknowledged p
  · next p =>
    obtain rfl := Option.some.inj h
    exact .failed _ ⟨p, .inl rfl⟩
  · next p =>
    obtain rfl := Option.some.inj h
    exact .failed _ ⟨p, .inr (.inl rfl)⟩
  · next p =>
    obtain rfl := Option.some.inj h
    exact .failed _ ⟨p, .inr (.inr rfl)⟩
  · next executed =>
    obtain rfl := Option.some.inj h
    exact .discardCleanup executed
  · next executed =>
    obtain rfl := Option.some.inj h
    exact .discardRow executed
  · contradiction

theorem recoveryStep_effect {r : Replica} {action : RecoveryAction} {pc : RecoveryPc}
    (h : recoveryStep s r action pc = some s') : RecoveryEffect s r action pc s' := by
  unfold recoveryStep at h
  split at h
  · obtain rfl := Option.some.inj h
    exact .selectRunning
  · next id ids =>
    obtain rfl := Option.some.inj h
    exact .cancelMark id ids
  · next id ids =>
    obtain rfl := Option.some.inj h
    exact .cancelFinish id ids
  · obtain rfl := Option.some.inj h
    exact .markInterrupted
  · obtain rfl := Option.some.inj h
    exact .selectUploading
  · next ids =>
    obtain rfl := Option.some.inj h
    exact .deleteUploading ids
  · next executed id ids =>
    obtain rfl := Option.some.inj h
    exact .cleanup executed id ids
  · obtain rfl := Option.some.inj h
    exact .finish
  · contradiction

theorem workerStep_effect {r : Replica} {action : WorkerAction} {pc : WorkerPc}
    (h : workerStep config s r action pc = some s') : WorkerEffect config s r action pc s' := by
  unfold workerStep at h
  split at h
  · split at h
    · next hlock =>
      obtain rfl := Option.some.inj h
      exact .acquireLock hlock
    · contradiction
  · split at h
    · contradiction
    · next hpublishing =>
      split at h
      · contradiction
      · next db hdb =>
        obtain rfl := Option.some.inj h
        exact .validateEnvironment db (by simpa using hpublishing) hdb
  · next locked acknowledged =>
    split at h
    · obtain rfl := Option.some.inj h
      exact .idle locked acknowledged
    · next job db hclaim =>
      obtain rfl := Option.some.inj h
      obtain ⟨row, hrow, hstatus, rfl, rfl⟩ := claimNext_some hclaim
      exact .claim locked acknowledged row hrow hstatus
  · next job =>
    split at h
    · obtain rfl := Option.some.inj h
      exact .refuse job missingMetadataMessage
    · split at h
      · next hrun =>
        obtain rfl := Option.some.inj h
        exact .begin job hrun
      · obtain rfl := Option.some.inj h
        exact .refuse job runnerUnavailableMessage
  · next job =>
    obtain rfl := Option.some.inj h
    exact .runFailed job
  · next result job =>
    split at h
    · next hvalid =>
      obtain rfl := Option.some.inj h
      exact .runReturned job result hvalid
    · contradiction
  · next acknowledged job message =>
    obtain rfl := Option.some.inj h
    exact .markFailure acknowledged job message
  · next acknowledged job result =>
    split at h
    · contradiction
    · next db hdb =>
      obtain rfl := Option.some.inj h
      exact .storeResult acknowledged job result db hdb
  · next job message =>
    split at h
    · next hcancelled =>
      obtain rfl := Option.some.inj h
      exact .abandonMark job message hcancelled
    · contradiction
  · next job result =>
    split at h
    · next hcancelled =>
      obtain rfl := Option.some.inj h
      exact .abandonStore job result hcancelled
    · contradiction
  · next executed job =>
    obtain rfl := Option.some.inj h
    exact .cleanup executed job
  · obtain rfl := Option.some.inj h
    exact .leave _ (.inl rfl)
  · obtain rfl := Option.some.inj h
    exact .leave _ (.inr (.inl rfl))
  · split at h
    · next hcancelled =>
      obtain rfl := Option.some.inj h
      exact .leave _ (.inr (.inr ⟨rfl, hcancelled⟩))
    · contradiction
  · contradiction

theorem adminStep_effect {action : AdminAction} (h : adminStep config s action = some s') :
    AdminEffect config s action s' := by
  unfold adminStep at h
  split at h
  · next id =>
    split at h
    · contradiction
    · next db hdb =>
      obtain rfl := Option.some.inj h
      obtain ⟨⟨row, hrow, hstatus⟩, rfl⟩ := retrySubmission_ok hdb
      exact .retry id row hrow hstatus
  · next id reason =>
    split at h
    · contradiction
    · next db hdb =>
      obtain rfl := Option.some.inj h
      obtain ⟨⟨row, hrow, huploading, hrunning⟩, rfl⟩ := disqualifySubmission_ok hdb
      exact .disqualify id reason row hrow huploading hrunning
  · split at h
    · contradiction
    · split at h
      · contradiction
      · next hcheck =>
        obtain rfl := Option.some.inj h
        obtain ⟨hpublished, hend, hdrained⟩ := publishPrivateCheck_ok hcheck
        exact .publishCheck hpublished hend hdrained
  · split at h
    · next hpublishing =>
      obtain rfl := Option.some.inj h
      exact .publishCommit hpublishing
    · contradiction
  · split at h
    · next hpublishing =>
      obtain rfl := Option.some.inj h
      exact .publishAbort hpublishing
    · contradiction
  · split at h
    · contradiction
    · next hpublishing =>
      split at h
      · contradiction
      · next db hdb =>
        obtain rfl := Option.some.inj h
        obtain rfl := unpublishPrivate_ok hdb
        exact .unpublish (by simpa using hpublishing)

theorem reserveStep_effect {replica : ℕ} {id username : String} {acknowledged : Bool}
    (h : reserveStep config s replica id username acknowledged = some s') :
    Effect config s (.reserve replica id username acknowledged) s' := by
  unfold reserveStep at h
  split at h
  · contradiction
  · next hguard =>
    simp only [Bool.or_eq_true, decide_eq_true_eq, not_or, Bool.not_eq_true] at hguard
    split at h
    · contradiction
    · next reserved db hdb =>
      obtain ⟨rfl, hstart, hnew, hinactive, _, rfl⟩ := reserveSubmission_ok hdb
      cases acknowledged with
      | true =>
        obtain rfl := Option.some.inj h
        exact .reserve replica id username true hguard.1 hguard.2 hstart hnew hinactive
      | false =>
        obtain rfl := Option.some.inj h
        exact .reserve replica id username false hguard.1 hguard.2 hstart hnew hinactive

/-- Inversion of `step`. -/
theorem step_effect {a : Action} (h : step config s a = some s') : Effect config s a s' := by
  cases a with
  | tick elapsed =>
    obtain rfl := Option.some.inj h
    exact .tick elapsed
  | ensureUser username =>
    obtain rfl := Option.some.inj h
    exact .ensureUser username
  | start replica =>
    simp only [step] at h
    split at h
    · contradiction
    · next hr =>
      obtain rfl := Option.some.inj h
      exact .start replica hr
  | stop replica =>
    simp only [step] at h
    split at h
    · contradiction
    · next r hr =>
      obtain rfl := Option.some.inj h
      obtain rfl := Table.get?_key hr
      exact .stop r hr
  | crash replica =>
    obtain rfl := Option.some.inj h
    exact .crash replica
  | loseLock =>
    obtain rfl := Option.some.inj h
    exact .loseLock
  | reserve replica id username acknowledged =>
    simp only [step] at h
    split at h
    · exact reserveStep_effect h
    · contradiction
  | upload id action =>
    simp only [step] at h
    split at h
    · contradiction
    · next u hu =>
      obtain rfl := Table.get?_key hu
      exact .upload u action s' hu (uploadStep_effect h)
  | recover replica action =>
    simp only [step] at h
    split at h
    · next i pc cancelled hr =>
      obtain rfl : i = replica := Table.get?_key hr
      exact .recover ⟨i, .recovering pc, cancelled⟩ pc action s' hr rfl (recoveryStep_effect h)
    · contradiction
  | worker replica action =>
    simp only [step] at h
    split at h
    · next i pc cancelled hr =>
      obtain rfl : i = replica := Table.get?_key hr
      exact .worker ⟨i, .serving pc, cancelled⟩ pc action s' hr rfl (workerStep_effect h)
    · contradiction
  | admin action => exact .admin action s' (adminStep_effect h)

end Inversion
end OneBrc.Server
