import OneBrc.Server.Projection

/-! What one step changes in one upload call, one recovery and one job directory. -/
namespace OneBrc.Server
open Lib Runner

/-- What a step does to the recovery of replica `r`. -/
inductive RecoveryStep (s s' : System) (r : ℕ) : Action → Prop
  | other (a : Action) (hsame : s'.recoveryPc r = s.recoveryPc r) : RecoveryStep s s' r a
  | ended (a : Action) (hnone : s'.recoveryPc r = none) : RecoveryStep s s' r a
  | started (hpc : s'.recoveryPc r = some .selectRunning) : RecoveryStep s s' r (.start r)
  | acts (rep : Replica) (action : RecoveryAction) (pc : RecoveryPc) (hid : rep.id = r)
      (hpc : s.recoveryPc r = some pc) (heffect : RecoveryEffect s rep action pc s') :
      RecoveryStep s s' r (.recover r action)

/-- The upload call that takes the step. -/
def Action.upload? : Action → Option String
  | .upload id _ => some id
  | _ => none

/-- What a step does to the upload call with id `k`. -/
inductive UploadStep (s s' : System) (k : String) : Action → Prop
  | other (a : Action) (ha : a.upload? ≠ some k) (hsame : s'.uploadPc k = s.uploadPc k) :
      UploadStep s s' k a
  | ended (replica : ℕ) (hnone : s'.uploadPc k = none) : UploadStep s s' k (.crash replica)
  | reserved (replica : ℕ) (username : String) (hfresh : k ∉ s.usedIds)
      (hpc : s'.uploadPc k = some .reserved) :
      UploadStep s s' k (.reserve replica k username true)
  | acts (u : Upload) (action : UploadAction) (pc : UploadPc) (hid : u.id = k)
      (hpc : s.uploadPc k = some pc) (heffect : UploadEffect s u action pc s') :
      UploadStep s s' k (.upload k action)

/-- What a step does to the job directory with id `k`. -/
inductive JobStep (s s' : System) (k : String) : Action → Prop
  | same (a : Action) (hsame : s'.jobs.get? k = s.jobs.get? k) : JobStep s s' k a
  | upload (acknowledged : Bool) (p : ParsedUpload) (hpc : s.uploadPc k = some (.sourceStored p))
      (hjob : s'.jobs.get? k = (s.jobs.upload k p.kind p.artifactDigest).get? k) :
      JobStep s s' k (.upload k (.runnerUpload true acknowledged))
  | discard (hpc : s.uploadPc k = some .discarding) (hjob : s'.jobs.get? k = none) :
      JobStep s s' k (.upload k (.discardCleanup true))
  | cancelMark (r : ℕ) (ids : List String) (hpc : s.recoveryPc r = some (.cancelling (k :: ids)))
      (hjob : s'.jobs.get? k = (s.jobs.markCancelled k).get? k) :
      JobStep s s' k (.recover r .cancelMark)
  | cancelFinish (r : ℕ) (ids : List String) (hpc : s.recoveryPc r = some (.cancelMarked k ids))
      (hjob : s'.jobs.get? k = none) : JobStep s s' k (.recover r .cancelFinish)
  | clean (r : ℕ) (ids : List String) (hpc : s.recoveryPc r = some (.cleaning (k :: ids)))
      (hjob : s'.jobs.get? k = none) : JobStep s s' k (.recover r (.cleanup true))
  | workerClean (r : ℕ) (job : BenchmarkJob) (hpc : s.workerPc r = some (.cleaning job))
      (hid : job.id = k) (hjob : s'.jobs.get? k = none) :
      JobStep s s' k (.worker r (.cleanup true))

section
variable {config : Config} {s s' : System} {a : Action}

theorem Replica.recoveryPc?_serving {rep : Replica} {pc : WorkerPc}
    (h : rep.phase = .serving pc) : rep.recoveryPc? = none := by
  rw [Replica.recoveryPc?, h]

theorem Replica.recoveryPc?_recovering {rep : Replica} {pc : RecoveryPc}
    (h : rep.phase = .recovering pc) : rep.recoveryPc? = some pc := by
  rw [Replica.recoveryPc?, h]

theorem recovery_step (h : step config s a = some s') (r : ℕ) : RecoveryStep s s' r a := by
  cases step_effect h with
  | tick | loseLock | ensureUser | reserve => exact .other _ (System.recoveryPc_congr rfl)
  | upload u action _ _ heffect => exact .other _ (System.recoveryPc_congr heffect.replicas)
  | admin action _ heffect => exact .other _ (System.recoveryPc_congr heffect.replicas)
  | start replica hr =>
    by_cases hid : replica = r
    · subst hid
      refine .started ?_
      rw [System.recoveryPc_setReplica, if_pos rfl]
      rfl
    · refine .other _ ?_
      rw [System.recoveryPc_setReplica, if_neg hid]
  | stop rep hr =>
    refine .other _ ?_
    rw [System.recoveryPc_setReplica]
    split
    · next hid =>
      obtain rfl : rep.id = r := hid
      rw [System.recoveryPc_eq hr]
      rfl
    · rfl
  | crash replica =>
    by_cases hid : r = replica
    · subst hid
      refine .ended _ ?_
      simp only [crashStep, System.recoveryPc, Table.get?_delete]
      cases hrep : s.replicas.get? r with
      | none => rfl
      | some rep =>
        rw [Option.filter_some, if_neg (by simp [Table.get?_key hrep]), Option.bind_none]
    · refine .other _ ?_
      simp only [crashStep, System.recoveryPc, Table.get?_delete]
      cases hrep : s.replicas.get? r with
      | none => rfl
      | some rep =>
        rw [Option.filter_some, if_pos (by simp [Table.get?_key hrep, hid])]
  | recover rep pc action _ hr hpc heffect =>
    by_cases hid : rep.id = r
    · subst hid
      exact .acts rep action pc rfl (System.recoveryPc_eq_some.mpr ⟨rep, hr, hpc⟩) heffect
    · refine .other _ ?_
      rcases heffect.replicas with ⟨pc', hreplicas⟩ | ⟨_, _, hreplicas⟩
      · rw [System.recoveryPc_of_replicas hreplicas, if_neg hid]
      · rw [System.recoveryPc_of_replicas hreplicas, if_neg hid]
  | worker rep pc action _ hr hpc heffect =>
    obtain ⟨pc', hreplicas⟩ := heffect.replicas
    refine .other _ ?_
    rw [System.recoveryPc_of_replicas hreplicas]
    split
    · next hid =>
      obtain rfl : rep.id = r := hid
      rw [System.recoveryPc_eq hr, Replica.recoveryPc?_serving hpc]
      rfl
    · rfl

/-- Where the point that a recovery has reached comes from. -/
theorem recoveryPc_source {r : ℕ} {pc' : RecoveryPc} (h : step config s a = some s')
    (hpc' : s'.recoveryPc r = some pc') :
    s.recoveryPc r = some pc' ∨ pc' = .selectRunning ∨
      ∃ rep action pc, rep.id = r ∧ a = .recover r action ∧ s.recoveryPc r = some pc ∧
        RecoveryEffect s rep action pc s' := by
  cases recovery_step h r with
  | other _ hsame => exact .inl (hsame ▸ hpc')
  | ended _ hnone =>
    rw [hpc'] at hnone
    contradiction
  | started hstarted =>
    rw [hpc'] at hstarted
    exact .inr (.inl (Option.some.inj hstarted))
  | acts rep action pc hid hpc heffect =>
    exact .inr (.inr ⟨rep, action, pc, hid, rfl, hpc, heffect⟩)

theorem RecoveryEffect.uploads {rep : Replica} {action : RecoveryAction} {pc : RecoveryPc}
    (h : RecoveryEffect s rep action pc s') : s'.uploads = s.uploads := by
  cases h <;> rfl

theorem WorkerEffect.uploads {rep : Replica} {action : WorkerAction} {pc : WorkerPc}
    (h : WorkerEffect config s rep action pc s') : s'.uploads = s.uploads := by
  cases h <;> rfl

theorem AdminEffect.uploads {action : AdminAction} (h : AdminEffect config s action s') :
    s'.uploads = s.uploads := by
  cases h <;> rfl

theorem UploadEffect.uploads {u : Upload} {action : UploadAction} {pc : UploadPc}
    (h : UploadEffect s u action pc s') :
    ∃ u', s'.uploads = s.uploads.put u' ∧ u'.id = u.id := by
  cases h <;> exact ⟨_, rfl, rfl⟩

theorem System.uploadPc_congr {k : String} (h : s'.uploads = s.uploads) :
    s'.uploadPc k = s.uploadPc k := by
  rw [System.uploadPc, h, System.uploadPc]

@[simp] theorem System.uploadPc_setUpload (u : Upload) (k : String) :
    (s.setUpload u).uploadPc k = if u.id = k then some u.pc else s.uploadPc k := by
  simp only [System.uploadPc, System.setUpload, Table.get?_put]
  split <;> rfl

theorem System.eq_of_setUpload {u : Upload} {k : String} {pc : UploadPc}
    (h : (s.setUpload u).uploadPc k = some pc) (hid : u.id = k) : u.pc = pc := by
  rw [System.uploadPc_setUpload, if_pos hid] at h
  exact Option.some.inj h

theorem System.uploadPc_of_uploads {u : Upload} {k : String}
    (h : s'.uploads = s.uploads.put u) :
    s'.uploadPc k = if u.id = k then some u.pc else s.uploadPc k := by
  rw [System.uploadPc_congr (s := s.setUpload u) h, System.uploadPc_setUpload]

theorem upload_step (h : step config s a = some s') (k : String) : UploadStep s s' k a := by
  cases step_effect h with
  | tick | loseLock | ensureUser | start | stop =>
    exact .other _ (by rintro ⟨⟩) (System.uploadPc_congr rfl)
  | recover rep pc action _ _ _ heffect =>
    exact .other _ (by rintro ⟨⟩) (System.uploadPc_congr heffect.uploads)
  | worker rep pc action _ _ _ heffect =>
    exact .other _ (by rintro ⟨⟩) (System.uploadPc_congr heffect.uploads)
  | admin action _ heffect => exact .other _ (by rintro ⟨⟩) (System.uploadPc_congr heffect.uploads)
  | crash replica =>
    simp only [crashStep]
    have hdelete : (s.uploads.delete (·.replica = replica)).get? k =
        (s.uploads.get? k).filter fun u => !decide (u.replica = replica) := Table.get?_delete ..
    cases hu : s.uploads.get? k with
    | none => exact .ended _ (by rw [System.uploadPc, hdelete, hu]; rfl)
    | some u =>
      by_cases hreplica : u.replica = replica
      · refine .ended _ ?_
        rw [System.uploadPc, hdelete, hu, Option.filter_some, if_neg (by simp [hreplica])]
        rfl
      · refine .other _ (by rintro ⟨⟩) ?_
        rw [System.uploadPc, hdelete, hu, Option.filter_some, if_pos (by simp [hreplica]),
          System.uploadPc, hu]
  | reserve replica id username acknowledged _ hfresh =>
    cases acknowledged with
    | false => exact .other _ (by rintro ⟨⟩) (System.uploadPc_congr rfl)
    | true =>
      by_cases hid : id = k
      · subst hid
        refine .reserved replica username hfresh ?_
        rw [System.uploadPc_of_uploads (s := s) (u := ⟨id, replica, .reserved, false⟩) rfl,
          if_pos rfl]
      · refine .other _ (by rintro ⟨⟩) ?_
        rw [System.uploadPc_of_uploads (s := s) (u := ⟨id, replica, .reserved, false⟩) rfl,
          if_neg hid]
  | upload u action _ hu heffect =>
    by_cases hid : u.id = k
    · refine hid ▸ .acts u action u.pc rfl ?_ heffect
      rw [System.uploadPc, hu]
      rfl
    · obtain ⟨u', huploads, hid'⟩ := heffect.uploads
      refine .other _ (by simpa [Action.upload?] using hid) ?_
      rw [System.uploadPc_of_uploads huploads, if_neg (hid' ▸ hid)]

/-- A cleanup of one directory leaves the others as they are. -/
private theorem jobStep_of_cleanup {k id : String} {executed : Bool}
    (hjobs : s'.jobs = if executed then s.jobs.cleanup id else s.jobs)
    (h : executed = true → id = k → s'.jobs.get? k = none → JobStep s s' k a) :
    JobStep s s' k a := by
  cases executed with
  | false => exact .same _ (by rw [hjobs]; rfl)
  | true =>
    rw [if_pos rfl] at hjobs
    by_cases hid : k = id
    · exact h rfl hid.symm (by rw [hjobs, Jobs.get?_cleanup, if_pos hid])
    · exact .same _ (by rw [hjobs, Jobs.get?_cleanup, if_neg hid])

theorem job_step (h : step config s a = some s') (k : String) : JobStep s s' k a := by
  cases step_effect h with
  | tick | loseLock | ensureUser | reserve | start | stop | crash => exact .same _ rfl
  | admin action _ heffect => cases heffect <;> exact .same _ rfl
  | upload u action _ hu heffect =>
    have hpc : s.uploadPc u.id = some u.pc := by rw [System.uploadPc, hu, Option.map_some]
    generalize u.pc = pc at heffect hpc
    cases heffect with
    | parsed | refused | sourceFailed | sourceStored | queued | queueFailed | failed
    | discardRow => exact .same _ rfl
    | runnerUpload stored acknowledged p =>
      cases stored with
      | false => exact .same _ rfl
      | true =>
        by_cases hid : k = u.id
        · subst hid
          exact .upload acknowledged p hpc rfl
        · exact .same _ (Jobs.get?_upload_of_ne _ _ _ _ _ hid)
    | discardCleanup executed =>
      apply jobStep_of_cleanup rfl
      rintro rfl rfl hjob
      exact .discard hpc hjob
  | recover rep pc action _ hr hphase heffect =>
    have hpc := System.recoveryPc_eq_some.mpr ⟨rep, hr, hphase⟩
    cases heffect with
    | selectRunning | markInterrupted | selectUploading | deleteUploading | finish =>
      exact .same _ rfl
    | cancelMark id ids =>
      by_cases hid : k = id
      · subst hid
        exact .cancelMark rep.id ids hpc rfl
      · exact .same _ (Jobs.get?_markCancelled_of_ne _ _ _ hid)
    | cancelFinish id ids =>
      apply jobStep_of_cleanup (if_pos rfl).symm
      rintro - rfl hjob
      exact .cancelFinish rep.id ids hpc hjob
    | cleanup executed id ids =>
      apply jobStep_of_cleanup rfl
      rintro rfl rfl hjob
      exact .clean rep.id ids hpc hjob
  | worker rep pc action _ hr hphase heffect =>
    have hpc := System.workerPc_eq_some.mpr ⟨rep, hr, hphase⟩
    cases heffect with
    | acquireLock | validateEnvironment | idle | claim | refuse | begin | runFailed
    | runReturned | markFailure | storeResult | abandonMark | abandonStore | leave =>
      exact .same _ rfl
    | cleanup executed job =>
      apply jobStep_of_cleanup rfl
      rintro rfl hid hjob
      exact .workerClean rep.id job hpc hid hjob

/-- Ids are only drawn, and only a reservation draws one. -/
theorem usedIds_step (h : step config s a = some s') :
    s'.usedIds = s.usedIds ∨ ∃ replica id username acknowledged,
      a = .reserve replica id username acknowledged ∧ s'.usedIds = id :: s.usedIds := by
  cases step_effect h with
  | tick | loseLock | ensureUser | start | stop | crash => exact .inl rfl
  | reserve replica id username acknowledged =>
    exact .inr ⟨replica, id, username, acknowledged, rfl, rfl⟩
  | upload u action _ _ heffect =>
    generalize u.pc = pc at heffect
    cases heffect <;> exact .inl rfl
  | recover rep pc action _ _ _ heffect => cases heffect <;> exact .inl rfl
  | worker rep pc action _ _ _ heffect => cases heffect <;> exact .inl rfl
  | admin action _ heffect => cases heffect <;> exact .inl rfl

end
end OneBrc.Server
