import OneBrc.Server.Calls

/-! Ids and jobs: every id that a row, a directory, a call, a recovery or a worker knows has been
drawn by a reservation, and a worker gets a job only by claiming a queued row. -/
namespace OneBrc.Server
open Lib Runner

/-- The job that the worker has claimed and not yet settled. -/
def WorkerPc.job? : WorkerPc → Option BenchmarkJob
  | .claimed job | .running job | .marking job _ | .storing job _ | .cleaning job => some job
  | .waiting | .starting | .head | .leaving | .stopped => none

/-- The ids that the recovery has read and still works through. -/
def RecoveryPc.ids : RecoveryPc → List String
  | .cancelling ids | .deleteUploading ids | .cleaning ids => ids
  | .cancelMarked id ids => id :: ids
  | .selectRunning | .selectUploading => []

/-- Every id that the system knows has been drawn by a reservation. -/
structure IdsDrawn (s : System) : Prop where
  row : ∀ k row, s.row k = some row → k ∈ s.usedIds
  directory : ∀ k job, s.jobs.get? k = some job → k ∈ s.usedIds
  upload : ∀ k pc, s.uploadPc k = some pc → k ∈ s.usedIds
  selected : ∀ r pc, s.recoveryPc r = some pc → ∀ k ∈ pc.ids, k ∈ s.usedIds
  held : ∀ r pc job, s.workerPc r = some pc → pc.job? = some job → job.id ∈ s.usedIds

section
variable {config : Config} {s s' : System} {a : Action} {k : String}

theorem usedIds_mono (h : step config s a = some s') (hk : k ∈ s.usedIds) : k ∈ s'.usedIds := by
  rcases usedIds_step h with hsame | ⟨_, id, _, _, _, hcons⟩
  · rwa [hsame]
  · rw [hcons]
    exact List.mem_cons_of_mem _ hk

theorem usedIds_reserve {replica : ℕ} {username : String} {acknowledged : Bool}
    (h : step config s (.reserve replica k username acknowledged) = some s') :
    k ∈ s'.usedIds := by
  cases step_effect h with
  | reserve => exact List.mem_cons_self

theorem mem_selectIds {status : SubmissionStatus} {db : Database} :
    k ∈ selectIds status db ↔ ∃ row, db.submissions.get? k = some row ∧ row.status = status := by
  simp only [selectIds, List.mem_map, List.mem_filter, decide_eq_true_eq]
  constructor
  · rintro ⟨row, ⟨hrow, hstatus⟩, rfl⟩
    exact ⟨row, Table.get?_of_mem hrow, hstatus⟩
  · rintro ⟨row, hrow, hstatus⟩
    exact ⟨row, ⟨Table.mem_of_get? hrow, hstatus⟩, Table.get?_key hrow⟩

theorem Replica.loopHead_job? (rep : Replica) : rep.loopHead.job? = none := by
  unfold Replica.loopHead
  split <;> rfl

/-- A step gives a worker a job by claiming a queued row, or keeps the job it has. -/
theorem WorkerEffect.job? {rep : Replica} {action : WorkerAction} {pc : WorkerPc}
    {pc' : WorkerPc} {job : BenchmarkJob} (h : WorkerEffect config s rep action pc s')
    (hpc' : s'.workerPc rep.id = some pc') (hjob : pc'.job? = some job) :
    pc.job? = some job ∨ pc = .head ∧ pc' = .claimed job ∧ ∃ row, s.row row.id = some row ∧
      row.status = .queued ∧ job = row.job ∧ s'.row row.id = some (row.start s.now) := by
  cases h with
  | acquireLock | validateEnvironment | abandonMark | leave =>
    obtain rfl := System.eq_of_setWorker hpc'
    contradiction
  | idle | cleanup =>
    obtain rfl := System.eq_of_setWorker hpc'
    rw [rep.loopHead_job?] at hjob
    contradiction
  | refuse | begin | runFailed | runReturned | abandonStore =>
    obtain rfl := System.eq_of_setWorker hpc'
    exact .inl hjob
  | claim locked acknowledged row hrow hstatus =>
    obtain rfl := System.eq_of_setWorker hpc'
    cases acknowledged with
    | false =>
      rw [if_neg (by decide), rep.loopHead_job?] at hjob
      contradiction
    | true =>
      obtain rfl := Option.some.inj hjob
      refine .inr ⟨rfl, rfl, row, hrow, hstatus, rfl, ?_⟩
      simp only [System.row, System.setWorker, System.setReplica,
        Database.updateSubmissions_submissions, Table.get?_update, hrow]
      simp
  | markFailure acknowledged job' message =>
    obtain rfl := System.eq_of_setWorker hpc'
    cases acknowledged with
    | false => exact .inl hjob
    | true =>
      rw [if_pos rfl, rep.loopHead_job?] at hjob
      contradiction
  | storeResult acknowledged job' result =>
    obtain rfl := System.eq_of_setWorker hpc'
    cases acknowledged with
    | false => exact .inl hjob
    | true => exact .inl hjob

/-- Where a job that a worker holds after a step comes from. -/
theorem job_source {r : ℕ} {pc' : WorkerPc} {job : BenchmarkJob} (h : step config s a = some s')
    (hpc' : s'.workerPc r = some pc') (hjob' : pc'.job? = some job) :
    (∃ pc, s.workerPc r = some pc ∧ pc.job? = some job) ∨
      ∃ row, s.row row.id = some row ∧ row.status = .queued ∧ job = row.job ∧
        s'.row row.id = some (row.start s.now) := by
  rcases workerPc_source h hpc' with ⟨_, hpc⟩ | rfl | ⟨rep, action, pc, rfl, _, _, hpc, heffect⟩
  · exact .inl ⟨pc', hpc, hjob'⟩
  · contradiction
  · rcases heffect.job? hpc' hjob' with hjob | ⟨_, _, hclaimed⟩
    · exact .inl ⟨pc, hpc, hjob⟩
    · exact .inr hclaimed

/-- The ids that a recovery works through come from its own SELECT. -/
theorem RecoveryEffect.ids {rep : Replica} {action : RecoveryAction} {pc pc' : RecoveryPc}
    (h : RecoveryEffect s rep action pc s') (hpc' : s'.recoveryPc rep.id = some pc')
    (hk : k ∈ pc'.ids) : k ∈ pc.ids ∨ ∃ row, s.row k = some row := by
  cases h with
  | selectRunning | selectUploading =>
    obtain rfl := System.eq_of_setRecovery hpc'
    obtain ⟨row, hrow, _⟩ := mem_selectIds.mp hk
    exact .inr ⟨row, hrow⟩
  | markInterrupted =>
    obtain rfl := System.eq_of_setRecovery hpc'
    contradiction
  | cancelMark | deleteUploading =>
    obtain rfl := System.eq_of_setRecovery hpc'
    exact .inl hk
  | cancelFinish | cleanup =>
    obtain rfl := System.eq_of_setRecovery hpc'
    exact .inl (List.mem_cons_of_mem _ hk)
  | finish =>
    rw [System.recoveryPc_setWorker, if_pos rfl] at hpc'
    contradiction

theorem idsDrawn_step (hs : IdsDrawn s) (h : step config s a = some s') : IdsDrawn s' where
  row := by
    intro k row hrow
    have hstep := row_step h k
    cases hold : s.row k with
    | some before => exact usedIds_mono h (hs.row k before hold)
    | none =>
      rw [hold, hrow] at hstep
      cases hstep with
      | reserve => exact usedIds_reserve h
  directory := by
    intro k job hjob
    apply usedIds_mono h
    cases job_step h k with
    | same _ hsame => exact hs.directory k job (hsame ▸ hjob)
    | upload _ p hpc => exact hs.upload k _ hpc
    | cancelMark r ids hpc => exact hs.selected r _ hpc k List.mem_cons_self
    | discard _ hnone | cancelFinish _ _ _ hnone | clean _ _ _ hnone
    | workerClean _ _ _ _ hnone =>
      rw [hjob] at hnone
      contradiction
  upload := by
    intro k pc hpc
    cases upload_step h k with
    | other _ _ hsame => exact usedIds_mono h (hs.upload k pc (hsame ▸ hpc))
    | ended _ hnone =>
      rw [hpc] at hnone
      contradiction
    | reserved => exact usedIds_reserve h
    | acts u action before _ hbefore => exact usedIds_mono h (hs.upload k before hbefore)
  selected := by
    intro r pc hpc k hk
    apply usedIds_mono h
    rcases recoveryPc_source h hpc with hpc | rfl | ⟨rep, action, before, rfl, -, hbefore, heffect⟩
    · exact hs.selected r pc hpc k hk
    · contradiction
    · rcases heffect.ids hpc hk with hk | ⟨row, hrow⟩
      · exact hs.selected rep.id before hbefore k hk
      · exact hs.row k row hrow
  held := by
    intro r pc job hpc hjob
    apply usedIds_mono h
    rcases job_source h hpc hjob with ⟨before, hbefore, hjob⟩ | ⟨row, hrow, _, rfl, _⟩
    · exact hs.held r before job hbefore hjob
    · exact hs.row row.id row hrow

theorem idsDrawn (h : (contestSystem config).Reachable TransitionSystem.Free s) : IdsDrawn s := by
  apply h.invariant
  · constructor
    · intro k row hrow
      contradiction
    · intro k job hjob
      contradiction
    · intro k pc hpc
      contradiction
    · intro r pc hpc
      contradiction
    · intro r pc job hpc
      contradiction
  · intro s a s' hs _ h
    exact idsDrawn_step hs h

end
end OneBrc.Server
