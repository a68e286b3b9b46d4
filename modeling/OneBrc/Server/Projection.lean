import OneBrc.Server.Effect

/-! What one step changes in one row, one worker and the worker lock. The invariants of the system
are case analyses over these relations. -/
namespace OneBrc.Server
open Lib Runner

def Replica.workerPc? (r : Replica) : Option WorkerPc :=
  match r.phase with
  | .serving pc => some pc
  | .recovering _ => none

def Replica.recoveryPc? (r : Replica) : Option RecoveryPc :=
  match r.phase with
  | .serving _ => none
  | .recovering pc => some pc

namespace System

/-- The row of submission `k`. -/
def row (s : System) (k : String) : Option Submission := s.db.submissions.get? k

def status (s : System) (k : String) : Option SubmissionStatus := (s.row k).map (·.status)

/-- Where the worker of replica `r` stands; `none` before the end of its recovery. -/
def workerPc (s : System) (r : ℕ) : Option WorkerPc := (s.replicas.get? r).bind (·.workerPc?)

def recoveryPc (s : System) (r : ℕ) : Option RecoveryPc :=
  (s.replicas.get? r).bind (·.recoveryPc?)

/-- The context of replica `r` has ended. -/
def cancelled (s : System) (r : ℕ) : Bool := (s.replicas.get? r).any (·.cancelled)

def uploadPc (s : System) (k : String) : Option UploadPc := (s.uploads.get? k).map (·.pc)

theorem workerPc_eq_some {s : System} {r : ℕ} {pc : WorkerPc} :
    s.workerPc r = some pc ↔ ∃ rep, s.replicas.get? r = some rep ∧ rep.phase = .serving pc := by
  unfold workerPc Replica.workerPc?
  rw [Option.bind_eq_some_iff]
  refine exists_congr fun rep => and_congr_right fun _ => ?_
  split
  · next h => simp [h]
  · next h => simp [h]

theorem recoveryPc_eq_some {s : System} {r : ℕ} {pc : RecoveryPc} :
    s.recoveryPc r = some pc ↔
      ∃ rep, s.replicas.get? r = some rep ∧ rep.phase = .recovering pc := by
  unfold recoveryPc Replica.recoveryPc?
  rw [Option.bind_eq_some_iff]
  refine exists_congr fun rep => and_congr_right fun _ => ?_
  split
  · next h => simp [h]
  · next h => simp [h]

end System

section Pc
variable {s s' : System} {r : ℕ}

@[simp] theorem System.workerPc_setReplica (rep : Replica) :
    (s.setReplica rep).workerPc r = if rep.id = r then rep.workerPc? else s.workerPc r := by
  simp only [System.workerPc, System.setReplica, Table.get?_put]
  split <;> rfl

@[simp] theorem System.recoveryPc_setReplica (rep : Replica) :
    (s.setReplica rep).recoveryPc r = if rep.id = r then rep.recoveryPc? else s.recoveryPc r := by
  simp only [System.recoveryPc, System.setReplica, Table.get?_put]
  split <;> rfl

@[simp] theorem System.workerPc_setWorker (rep : Replica) (pc : WorkerPc) :
    (s.setWorker rep pc).workerPc r = if rep.id = r then some pc else s.workerPc r :=
  System.workerPc_setReplica _

@[simp] theorem System.recoveryPc_setWorker (rep : Replica) (pc : WorkerPc) :
    (s.setWorker rep pc).recoveryPc r = if rep.id = r then none else s.recoveryPc r :=
  System.recoveryPc_setReplica _

@[simp] theorem System.workerPc_setRecovery (rep : Replica) (pc : RecoveryPc) :
    (s.setRecovery rep pc).workerPc r = if rep.id = r then none else s.workerPc r :=
  System.workerPc_setReplica _

@[simp] theorem System.recoveryPc_setRecovery (rep : Replica) (pc : RecoveryPc) :
    (s.setRecovery rep pc).recoveryPc r = if rep.id = r then some pc else s.recoveryPc r :=
  System.recoveryPc_setReplica _

theorem System.eq_of_setWorker {rep : Replica} {pc pc' : WorkerPc}
    (h : (s.setWorker rep pc).workerPc rep.id = some pc') : pc = pc' := by
  rw [System.workerPc_setWorker, if_pos rfl] at h
  exact Option.some.inj h

theorem System.eq_of_setRecovery {rep : Replica} {pc pc' : RecoveryPc}
    (h : (s.setRecovery rep pc).recoveryPc rep.id = some pc') : pc = pc' := by
  rw [System.recoveryPc_setRecovery, if_pos rfl] at h
  exact Option.some.inj h

theorem System.workerPc_congr (h : s'.replicas = s.replicas) : s'.workerPc r = s.workerPc r := by
  rw [System.workerPc, h, System.workerPc]

theorem System.recoveryPc_congr (h : s'.replicas = s.replicas) :
    s'.recoveryPc r = s.recoveryPc r := by
  rw [System.recoveryPc, h, System.recoveryPc]

end Pc

/-- What a step does to the row with id `k`. -/
inductive RowStep (config : Config) (s : System) (k : String) :
    Action → Option Submission → Option Submission → Prop
  | same (a : Action) (row : Option Submission) : RowStep config s k a row row
  | reserve (replica : ℕ) (username : String) (acknowledged : Bool)
      (hpublishing : s.publishing = false) (hfresh : k ∉ s.usedIds)
      (hstart : config.contestStartAt ≤ s.now)
      (hinactive : ∀ k' row, s.row k' = some row → row.username = username →
        row.status.isActive = false) :
      RowStep config s k (.reserve replica k username acknowledged) none
        (some (.reserved k username s.now))
  | queue (acknowledged : Bool) (p : ParsedUpload) (row : Submission)
      (hpc : s.uploadPc k = some (.uploaded p)) (hstatus : row.status = .uploading) :
      RowStep config s k (.upload k (.queueUpload acknowledged)) (some row)
        (some (row.queue p.kind p.language p.sourceFilename p.artifactDigest s.now))
  | discard (row : Submission) (hpc : s.uploadPc k = some .discardingRow)
      (hstatus : row.status = .uploading) :
      RowStep config s k (.upload k (.discardRow true)) (some row) none
  | deleteUploading (r : ℕ) (ids : List String) (row : Submission)
      (hpc : s.recoveryPc r = some (.deleteUploading ids)) (hstatus : row.status = .uploading) :
      RowStep config s k (.recover r .deleteUploading) (some row) none
  | markInterrupted (r : ℕ) (row : Submission)
      (hpc : s.recoveryPc r = some (.cancelling [])) (hstatus : row.status = .running) :
      RowStep config s k (.recover r .markInterrupted) (some row)
        (some (row.fail interruptedMessage))
  | claim (r : ℕ) (locked : List String) (acknowledged : Bool) (row : Submission)
      (hpc : s.workerPc r = some .head) (hstatus : row.status = .queued) :
      RowStep config s k (.worker r (.claimNext locked acknowledged)) (some row)
        (some (row.start s.now))
  | markFailure (r : ℕ) (acknowledged : Bool) (job : BenchmarkJob) (message : String)
      (row : Submission) (hpc : s.workerPc r = some (.marking job message)) (hid : job.id = k)
      (hstatus : row.status = .running) :
      RowStep config s k (.worker r (.markFailure acknowledged)) (some row)
        (some (row.fail (truncateUTF16 message 8192)))
  | storeResult (r : ℕ) (acknowledged : Bool) (job : BenchmarkJob) (result : RunnerJobResult)
      (publicScore privateScore : Option ℕ) (row : Submission)
      (hpc : s.workerPc r = some (.storing job result)) (hid : job.id = k)
      (hpublic : nullableBigint result.publicResult.medianNS = .ok publicScore)
      (hprivate : nullableBigint (result.privateResult.bind (·.medianNS)) = .ok privateScore) :
      RowStep config s k (.worker r (.storeResult acknowledged)) (some row)
        (some (row.complete s.now result.publicResult result.privateResult publicScore
          privateScore))
  | retry (row : Submission) (hstatus : row.status = .infrastructureError) :
      RowStep config s k (.admin (.retry k)) (some row) (some row.retry)
  | disqualify (reason : String) (row : Submission) (huploading : row.status ≠ .uploading)
      (hrunning : row.status ≠ .running) :
      RowStep config s k (.admin (.disqualify k reason)) (some row)
        (some (row.disqualify (truncateUTF16 reason 8192)))

section RowStep
variable {config : Config} {s s' : System} {k : String} {a : Action}

/-- An UPDATE takes the rows of its WHERE clause along the given edge and keeps the others. -/
theorem RowStep.of_update {p : Submission → Bool} {set : Submission → Submission}
    (hid : ∀ row, (set row).id = row.id)
    (h : ∀ row, s.row k = some row → p row = true →
      RowStep config s k a (some row) (some (set row))) :
    RowStep config s k a (s.row k) ((s.db.submissions.update p set hid).get? k) := by
  rw [Table.get?_update]
  change RowStep config s k a (s.row k) ((s.row k).map _)
  cases hrow : s.row k with
  | none => exact .same a none
  | some row =>
    rw [Option.map_some]
    split
    · next hp => exact h row hrow hp
    · exact .same a _

/-- A DELETE removes the rows of its WHERE clause and keeps the others. -/
theorem RowStep.of_delete {p : Submission → Bool}
    (h : ∀ row, s.row k = some row → p row = true → RowStep config s k a (some row) none) :
    RowStep config s k a (s.row k) ((s.db.submissions.delete p).get? k) := by
  rw [Table.get?_delete]
  change RowStep config s k a (s.row k) ((s.row k).filter _)
  cases hrow : s.row k with
  | none => exact .same a none
  | some row =>
    cases hp : p row with
    | true =>
      rw [Option.filter_some, if_neg (by simp [hp])]
      exact h row hrow hp
    | false =>
      rw [Option.filter_some, if_pos (by simp [hp])]
      exact .same a _

theorem RowStep.of_insert {row : Submission} (hnew : s.db.submissions.get? row.id = none)
    (h : row.id = k → RowStep config s k a none (some row)) :
    RowStep config s k a (s.row k) ((s.db.submissions.insert row hnew).get? k) := by
  rw [Table.get?_insert]
  split
  · next hk =>
    rw [System.row, ← hk, hnew, hk]
    exact h hk
  · exact .same _ _

theorem UploadEffect.row_step {u : Upload} {action : UploadAction} {pc : UploadPc}
    (hu : s.uploadPc u.id = some pc) (h : UploadEffect s u action pc s') (k : String) :
    RowStep config s k (.upload u.id action) (s.row k) (s'.row k) := by
  have hqueue (acknowledged : Bool) (p : ParsedUpload)
      (hpc : s.uploadPc u.id = some (.uploaded p)) :
      RowStep config s k (.upload u.id (.queueUpload acknowledged)) (s.row k)
        ((queueUpload s.now u.id p.kind p.language p.sourceFilename p.artifactDigest
          s.db).2.submissions.get? k) := by
    apply RowStep.of_update (by intro; rfl)
    intro row hrow hp
    obtain ⟨hid, hstatus⟩ := Submission.matching_iff.mp hp
    obtain rfl : u.id = k := hid.symm.trans (Table.get?_key hrow)
    exact .queue acknowledged p row hpc hstatus
  cases h with
  | parsed | refused | sourceFailed | sourceStored | runnerUpload | failed | discardCleanup =>
    exact .same _ _
  | queued p => exact hqueue true p hu
  | queueFailed acknowledged p => exact hqueue acknowledged p hu
  | discardRow executed =>
    cases executed with
    | false => exact .same _ _
    | true =>
      apply RowStep.of_delete
      intro row hrow hp
      obtain ⟨hid, hstatus⟩ := Submission.matching_iff.mp hp
      obtain rfl : u.id = k := hid.symm.trans (Table.get?_key hrow)
      exact .discard row hu hstatus

theorem RecoveryEffect.row_step {r : Replica} {action : RecoveryAction} {pc : RecoveryPc}
    (hr : s.recoveryPc r.id = some pc) (h : RecoveryEffect s r action pc s') (k : String) :
    RowStep config s k (.recover r.id action) (s.row k) (s'.row k) := by
  cases h with
  | selectRunning | cancelMark | cancelFinish | selectUploading | cleanup | finish =>
    exact .same _ _
  | markInterrupted =>
    apply RowStep.of_update (by intro; rfl)
    intro row _ hp
    exact .markInterrupted r.id row hr (by simpa using hp)
  | deleteUploading ids =>
    apply RowStep.of_delete
    intro row _ hp
    exact .deleteUploading r.id ids row hr (by simpa using hp)

theorem WorkerEffect.row_step {r : Replica} {action : WorkerAction} {pc : WorkerPc}
    (hr : s.workerPc r.id = some pc) (h : WorkerEffect config s r action pc s') (k : String) :
    RowStep config s k (.worker r.id action) (s.row k) (s'.row k) := by
  cases h with
  | acquireLock | idle | refuse | begin | runFailed | runReturned | abandonMark | abandonStore
  | cleanup | leave => exact .same _ _
  | validateEnvironment db _ hdb =>
    change RowStep config s k _ (s.row k) (db.submissions.get? k)
    rw [(validateEnvironment_ok hdb).1]
    exact .same _ _
  | claim locked acknowledged row hrow hstatus =>
    apply RowStep.of_update (by intro; rfl)
    intro row' hrow' hp
    obtain rfl : row'.id = k := Table.get?_key hrow'
    obtain rfl : row = row' := by
      have hid : row'.id = row.id := by simpa using hp
      rw [System.row, hid, hrow] at hrow'
      exact Option.some.inj hrow'
    exact .claim r.id locked acknowledged row hr hstatus
  | markFailure acknowledged job message =>
    apply RowStep.of_update (by intro; rfl)
    intro row hrow hp
    obtain ⟨hid, hstatus⟩ := Submission.matching_iff.mp hp
    exact .markFailure r.id acknowledged job message row hr
      (hid.symm.trans (Table.get?_key hrow)) hstatus
  | storeResult acknowledged job result db hdb =>
    obtain ⟨publicScore, privateScore, hpublic, hprivate, hrows, _, _⟩ := storeResult_ok hdb
    change RowStep config s k _ (s.row k) (db.submissions.get? k)
    rw [hrows]
    apply RowStep.of_update (by intro; rfl)
    intro row hrow hp
    have hid : row.id = job.id := by simpa using hp
    exact .storeResult r.id acknowledged job result publicScore privateScore row hr
      (hid.symm.trans (Table.get?_key hrow)) hpublic hprivate

theorem AdminEffect.row_step {action : AdminAction} (h : AdminEffect config s action s')
    (k : String) : RowStep config s k (.admin action) (s.row k) (s'.row k) := by
  cases h with
  | publishCheck | publishCommit | publishAbort | unpublish => exact .same _ _
  | retry id =>
    apply RowStep.of_update (by intro; rfl)
    intro row hrow hp
    obtain ⟨hid, hstatus⟩ := Submission.matching_iff.mp hp
    obtain rfl : id = k := hid.symm.trans (Table.get?_key hrow)
    exact .retry row hstatus
  | disqualify id reason row hrow huploading hrunning =>
    apply RowStep.of_update (by intro; rfl)
    intro row' hrow' hp
    have hid : row'.id = id := by simpa using hp
    obtain rfl : id = k := hid.symm.trans (Table.get?_key hrow')
    obtain rfl : row = row' := by
      rw [System.row, hrow] at hrow'
      exact Option.some.inj hrow'
    exact .disqualify reason row huploading hrunning

/-- Every step takes every row along one of the edges of `RowStep`. -/
theorem row_step (h : step config s a = some s') (k : String) :
    RowStep config s k a (s.row k) (s'.row k) := by
  cases step_effect h with
  | tick | start | stop | crash | loseLock | ensureUser => exact .same _ _
  | reserve replica id username acknowledged hpublishing hfresh hstart hnew hinactive =>
    apply RowStep.of_insert hnew
    rintro rfl
    exact .reserve replica username acknowledged hpublishing hfresh hstart hinactive
  | upload u action _ hu heffect =>
    exact heffect.row_step (by rw [System.uploadPc, hu, Option.map_some]) k
  | recover r pc action _ hr hpc heffect =>
    exact heffect.row_step (System.recoveryPc_eq_some.mpr ⟨r, hr, hpc⟩) k
  | worker r pc action _ hr hpc heffect =>
    exact heffect.row_step (System.workerPc_eq_some.mpr ⟨r, hr, hpc⟩) k
  | admin action _ heffect => exact heffect.row_step k

end RowStep

/-- The submission that an administrator retries. -/
def Action.retries? : Action → Option String
  | .admin (.retry id) => some id
  | _ => none

/-- The replica whose worker takes the step. -/
def Action.worker? : Action → Option ℕ
  | .worker r _ => some r
  | _ => none

/-- What a step does to the worker of replica `r`. -/
inductive WorkerStep (config : Config) (s s' : System) (r : ℕ) : Action → Prop
  | other (a : Action) (ha : a.worker? ≠ some r) (hsame : s'.workerPc r = s.workerPc r) :
      WorkerStep config s s' r a
  | crash (hnone : s'.workerPc r = none) : WorkerStep config s s' r (.crash r)
  | recovered (hrecovery : s.recoveryPc r = some (.cleaning [])) (hnone : s.workerPc r = none)
      (hpc : s'.workerPc r = some .waiting) : WorkerStep config s s' r (.recover r .finish)
  | acts (rep : Replica) (action : WorkerAction) (pc : WorkerPc) (hid : rep.id = r)
      (hrep : s.replicas.get? r = some rep) (hpc : s.workerPc r = some pc)
      (heffect : WorkerEffect config s rep action pc s') :
      WorkerStep config s s' r (.worker r action)

section WorkerStep
variable {config : Config} {s s' : System} {a : Action}

theorem UploadEffect.replicas {u : Upload} {action : UploadAction} {pc : UploadPc}
    (h : UploadEffect s u action pc s') : s'.replicas = s.replicas := by
  cases h <;> rfl

theorem UploadEffect.lock {u : Upload} {action : UploadAction} {pc : UploadPc}
    (h : UploadEffect s u action pc s') : s'.lock = s.lock := by
  cases h <;> rfl

theorem AdminEffect.replicas {action : AdminAction} (h : AdminEffect config s action s') :
    s'.replicas = s.replicas := by
  cases h <;> rfl

theorem WorkerEffect.replicas {rep : Replica} {action : WorkerAction} {pc : WorkerPc}
    (h : WorkerEffect config s rep action pc s') :
    ∃ pc', s'.replicas = s.replicas.put { rep with phase := .serving pc' } := by
  cases h <;> exact ⟨_, rfl⟩

theorem RecoveryEffect.replicas {rep : Replica} {action : RecoveryAction} {pc : RecoveryPc}
    (h : RecoveryEffect s rep action pc s') :
    (∃ pc', s'.replicas = s.replicas.put { rep with phase := .recovering pc' }) ∨
      action = .finish ∧ pc = .cleaning [] ∧
        s'.replicas = s.replicas.put { rep with phase := .serving .waiting } := by
  cases h with
  | finish => exact .inr ⟨rfl, rfl, rfl⟩
  | selectRunning | cancelMark | cancelFinish | markInterrupted | selectUploading
  | deleteUploading | cleanup => exact .inl ⟨_, rfl⟩

theorem System.workerPc_of_replicas {rep : Replica} {r : ℕ}
    (h : s'.replicas = s.replicas.put rep) :
    s'.workerPc r = if rep.id = r then rep.workerPc? else s.workerPc r := by
  rw [System.workerPc_congr (s := s.setReplica rep) h, System.workerPc_setReplica]

theorem System.recoveryPc_of_replicas {rep : Replica} {r : ℕ}
    (h : s'.replicas = s.replicas.put rep) :
    s'.recoveryPc r = if rep.id = r then rep.recoveryPc? else s.recoveryPc r := by
  rw [System.recoveryPc_congr (s := s.setReplica rep) h, System.recoveryPc_setReplica]

theorem System.workerPc_eq {rep : Replica} {r : ℕ} (h : s.replicas.get? r = some rep) :
    s.workerPc r = rep.workerPc? := by
  rw [System.workerPc, h, Option.bind_some]

theorem System.recoveryPc_eq {rep : Replica} {r : ℕ} (h : s.replicas.get? r = some rep) :
    s.recoveryPc r = rep.recoveryPc? := by
  rw [System.recoveryPc, h, Option.bind_some]

theorem Replica.workerPc?_serving {rep : Replica} {pc : WorkerPc} (h : rep.phase = .serving pc) :
    rep.workerPc? = some pc := by
  rw [Replica.workerPc?, h]

theorem Replica.workerPc?_recovering {rep : Replica} {pc : RecoveryPc}
    (h : rep.phase = .recovering pc) : rep.workerPc? = none := by
  rw [Replica.workerPc?, h]

theorem worker_step (h : step config s a = some s') (r : ℕ) : WorkerStep config s s' r a := by
  cases step_effect h with
  | tick | loseLock | ensureUser | reserve =>
    exact .other _ (by rintro ⟨⟩) (System.workerPc_congr rfl)
  | upload u action _ _ heffect =>
    exact .other _ (by rintro ⟨⟩) (System.workerPc_congr heffect.replicas)
  | admin action _ heffect => exact .other _ (by rintro ⟨⟩) (System.workerPc_congr heffect.replicas)
  | start replica hr =>
    refine .other _ (by rintro ⟨⟩) ?_
    rw [System.workerPc_setReplica]
    split
    · next hid =>
      obtain rfl : replica = r := hid
      rw [System.workerPc, hr]
      rfl
    · rfl
  | stop rep hr =>
    refine .other _ (by rintro ⟨⟩) ?_
    rw [System.workerPc_setReplica]
    split
    · next hid =>
      obtain rfl : rep.id = r := hid
      rw [System.workerPc_eq hr]
      rfl
    · rfl
  | crash replica =>
    by_cases hid : r = replica
    · subst hid
      refine .crash ?_
      simp only [crashStep, System.workerPc, Table.get?_delete]
      cases hrep : s.replicas.get? r with
      | none => rfl
      | some rep =>
        rw [Option.filter_some, if_neg (by simp [Table.get?_key hrep]), Option.bind_none]
    · refine .other _ (by rintro ⟨⟩) ?_
      simp only [crashStep, System.workerPc, Table.get?_delete]
      cases hrep : s.replicas.get? r with
      | none => rfl
      | some rep =>
        rw [Option.filter_some, if_pos (by simp [Table.get?_key hrep, hid])]
  | recover rep pc action _ hr hpc heffect =>
    have hnone : s.workerPc rep.id = none := by
      rw [System.workerPc_eq hr, Replica.workerPc?_recovering hpc]
    rcases heffect.replicas with ⟨pc', hreplicas⟩ | ⟨rfl, rfl, hreplicas⟩
    · refine .other _ (by rintro ⟨⟩) ?_
      rw [System.workerPc_of_replicas hreplicas]
      split
      · next hid =>
        obtain rfl : rep.id = r := hid
        exact hnone.symm
      · rfl
    · by_cases hid : rep.id = r
      · subst hid
        refine .recovered (System.recoveryPc_eq_some.mpr ⟨rep, hr, hpc⟩) hnone ?_
        rw [System.workerPc_of_replicas hreplicas, if_pos rfl]
        rfl
      · refine .other _ (by rintro ⟨⟩) ?_
        rw [System.workerPc_of_replicas hreplicas, if_neg hid]
  | worker rep pc action _ hr hpc heffect =>
    by_cases hid : rep.id = r
    · subst hid
      exact .acts rep action pc rfl hr (System.workerPc_eq_some.mpr ⟨rep, hr, hpc⟩) heffect
    · obtain ⟨pc', hreplicas⟩ := heffect.replicas
      refine .other _ (by simpa [Action.worker?] using hid) ?_
      rw [System.workerPc_of_replicas hreplicas, if_neg hid]

/-- Where the point that a worker has reached comes from. -/
theorem workerPc_source {r : ℕ} {pc' : WorkerPc} (h : step config s a = some s')
    (hpc' : s'.workerPc r = some pc') :
    (a.worker? ≠ some r ∧ s.workerPc r = some pc') ∨ pc' = .waiting ∨
      ∃ rep action pc, rep.id = r ∧ a = .worker r action ∧ s.replicas.get? r = some rep ∧
        s.workerPc r = some pc ∧ WorkerEffect config s rep action pc s' := by
  cases worker_step h r with
  | other _ ha hsame => exact .inl ⟨ha, hsame ▸ hpc'⟩
  | crash hnone =>
    rw [hpc'] at hnone
    contradiction
  | recovered _ _ hwaiting =>
    rw [hpc'] at hwaiting
    exact .inr (.inl (Option.some.inj hwaiting))
  | acts rep action pc hid hrep hpc heffect =>
    exact .inr (.inr ⟨rep, action, pc, hid, rfl, hrep, hpc, heffect⟩)

theorem System.cancelled_eq {rep : Replica} {r : ℕ} (h : s.replicas.get? r = some rep) :
    s.cancelled r = rep.cancelled := by
  rw [System.cancelled, h, Option.any_some]

theorem System.cancelled_of_replicas {rep : Replica} {r : ℕ}
    (h : s'.replicas = s.replicas.put rep) :
    s'.cancelled r = if rep.id = r then rep.cancelled else s.cancelled r := by
  rw [System.cancelled, h, Table.get?_put]
  split <;> rfl

/-- A process that is told to stop stays so until its end. -/
theorem cancelled_step {r : ℕ} (h : step config s a = some s') (ha : a ≠ .crash r)
    (hc : s.cancelled r = true) : s'.cancelled r = true := by
  have hput {rep rep' : Replica} (hr : s.replicas.get? rep.id = some rep)
      (hreplicas : s'.replicas = s.replicas.put rep') (hid : rep'.id = rep.id)
      (hcancelled : rep.cancelled = true → rep'.cancelled = true) : s'.cancelled r = true := by
    rw [System.cancelled_of_replicas hreplicas]
    split
    · next hr' =>
      rw [← hr', hid, System.cancelled_eq hr] at hc
      exact hcancelled hc
    · exact hc
  cases step_effect h with
  | tick | loseLock | ensureUser | reserve => exact hc
  | upload u action _ _ heffect =>
    rw [System.cancelled, heffect.replicas]
    exact hc
  | admin action _ heffect =>
    rw [System.cancelled, heffect.replicas]
    exact hc
  | start replica hr =>
    rw [System.cancelled_of_replicas (s := s) rfl, if_neg ?_]
    · exact hc
    · rintro rfl
      rw [System.cancelled, hr] at hc
      contradiction
  | stop rep hr => exact hput hr rfl rfl fun _ => rfl
  | crash replica =>
    simp only [crashStep, System.cancelled, Table.get?_delete]
    cases hrep : s.replicas.get? r with
    | none =>
      rw [System.cancelled, hrep] at hc
      contradiction
    | some rep =>
      have hne : rep.id ≠ replica := by
        rw [Table.get?_key hrep]
        rintro rfl
        exact ha rfl
      rw [System.cancelled_eq hrep] at hc
      rw [Option.filter_some, if_pos (by simp [hne]), Option.any_some]
      exact hc
  | recover rep pc action _ hr _ heffect =>
    rcases heffect.replicas with ⟨pc', hreplicas⟩ | ⟨_, _, hreplicas⟩
    · exact hput hr hreplicas rfl id
    · exact hput hr hreplicas rfl id
  | worker rep pc action _ hr _ heffect =>
    obtain ⟨pc', hreplicas⟩ := heffect.replicas
    exact hput hr hreplicas rfl id

/-- The lock is kept, released, or taken when it is free. -/
theorem lock_step (h : step config s a = some s') :
    s'.lock = s.lock ∨ s'.lock = none ∨
      ∃ r, a = .worker r .acquireLock ∧ s.lock = none ∧ s'.lock = some r := by
  cases step_effect h with
  | tick | start | stop | ensureUser | reserve => exact .inl rfl
  | loseLock => exact .inr (.inl rfl)
  | crash replica =>
    simp only [crashStep]
    split
    · exact .inr (.inl rfl)
    · exact .inl rfl
  | upload u action _ _ heffect => exact .inl heffect.lock
  | recover rep pc action _ _ _ heffect =>
    cases heffect <;> exact .inl rfl
  | admin action _ heffect =>
    cases heffect <;> exact .inl rfl
  | worker rep pc action _ _ _ heffect =>
    cases heffect with
    | acquireLock hlock => exact .inr (.inr ⟨rep.id, rfl, hlock, rfl⟩)
    | leave =>
      simp only [System.setWorker, System.setReplica, System.releaseLock]
      split
      · exact .inr (.inl rfl)
      · exact .inl rfl
    | validateEnvironment | idle | claim | refuse | begin | runFailed | runReturned
    | markFailure | storeResult | abandonMark | abandonStore | cleanup => exact .inl rfl

end WorkerStep

end OneBrc.Server
