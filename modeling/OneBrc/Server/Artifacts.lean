import OneBrc.Server.Ids

/-! Queued rows and their artifacts. Rows live in the database, artifacts in the runner's job
directories; the invariants tie the two together through the calls that write them. -/
namespace OneBrc.Server
open Lib Runner

/-- The ids whose job directory the recovery still empties, unless an uploading row is behind. -/
def RecoveryPc.targets : RecoveryPc → List String
  | .cancelling ids | .cleaning ids => ids
  | .cancelMarked id ids => id :: ids
  | .selectRunning | .selectUploading | .deleteUploading _ => []

/-- The call has not yet put its submission into the queue, and may still do so. -/
def UploadPc.early : UploadPc → Prop
  | .reserved | .parsed _ | .sourceStored _ | .uploaded _ => True
  | .discarding | .discardingRow | .finished _ => False

/-- A recovery or a worker will empty the job directory of `k`. -/
def System.Targets (s : System) (k : String) : Prop :=
  (∃ r pc, s.recoveryPc r = some pc ∧ k ∈ pc.targets) ∨
    ∃ r pc job, s.workerPc r = some pc ∧ pc.job? = some job ∧ job.id = k

/-- How rows, calls and job directories fit together. -/
structure ArtifactsMatch (s : System) : Prop where
  early : ∀ k pc, s.uploadPc k = some pc → pc.early → ∀ row, s.row k = some row →
    row.status = .uploading
  targets : ∀ k, s.Targets k → s.status k ≠ some .uploading
  uploaded : ∀ k p, s.uploadPc k = some (.uploaded p) → s.status k = some .uploading →
    s.jobs.artifact? k p.kind = some p.artifactDigest
  unmarked : ∀ k, s.status k = some .uploading → s.jobs.isCancelled k = false
  artifact : ∀ k row, s.row k = some row → row.status ≠ .uploading →
    ∃ kind digest, row.executionKind = some kind ∧ row.artifactSHA256 = some digest ∧
      ∀ found, s.jobs.artifact? k kind = some found → found = digest

section
variable {config : Config} {s s' : System} {a : Action} {k : String}

theorem RecoveryPc.ids_of_targets {pc : RecoveryPc} (h : k ∈ pc.targets) : k ∈ pc.ids := by
  cases pc with
  | cancelling | cleaning | cancelMarked => exact h
  | selectRunning | selectUploading | deleteUploading => contradiction

theorem Targets.drawn (hids : IdsDrawn s) (h : s.Targets k) : k ∈ s.usedIds := by
  rcases h with ⟨r, pc, hpc, hk⟩ | ⟨r, pc, job, hpc, hjob, rfl⟩
  · exact hids.selected r pc hpc k (RecoveryPc.ids_of_targets hk)
  · exact hids.held r pc job hpc hjob

/-- Only a reservation of a new id makes a row uploading. -/
theorem status_uploading (h : step config s a = some s') (hk : s'.status k = some .uploading) :
    s.status k = some .uploading ∨ s.row k = none ∧ k ∉ s.usedIds := by
  obtain ⟨row, hrow, hstatus⟩ := Option.map_eq_some_iff.mp hk
  have hstep := row_step h k
  rw [hrow] at hstep
  generalize hold : s.row k = old at hstep
  cases hstep with
  | same => exact .inl (by rw [System.status, hold, Option.map_some, hstatus])
  | reserve _ _ _ _ hfresh => exact .inr ⟨rfl, hfresh⟩
  | queue | markInterrupted | claim | markFailure | storeResult | retry | disqualify =>
    contradiction

/-- The recovery takes over ids whose rows are not uploading, its DELETE included. -/
theorem RecoveryEffect.targets {rep : Replica} {action : RecoveryAction} {pc pc' : RecoveryPc}
    (h : RecoveryEffect s rep action pc s') (hpc' : s'.recoveryPc rep.id = some pc')
    (hk : k ∈ pc'.targets) : k ∈ pc.targets ∨ s'.status k ≠ some .uploading := by
  cases h with
  | selectRunning =>
    obtain rfl := System.eq_of_setRecovery hpc'
    obtain ⟨row, hrow, hstatus⟩ := mem_selectIds.mp hk
    right
    change Option.map (·.status) (s.db.submissions.get? k) ≠ _
    rw [hrow, Option.map_some, hstatus]
    exact nofun
  | deleteUploading ids =>
    right
    change Option.map (·.status) ((s.db.submissions.delete _).get? k) ≠ _
    rw [Table.get?_delete]
    cases s.db.submissions.get? k with
    | none => exact nofun
    | some row =>
      rw [Option.filter_some]
      split
      · next hp =>
        intro hstatus
        simp [Option.some.inj hstatus] at hp
      · exact nofun
  | markInterrupted | selectUploading =>
    obtain rfl := System.eq_of_setRecovery hpc'
    contradiction
  | cancelMark =>
    obtain rfl := System.eq_of_setRecovery hpc'
    exact .inl hk
  | cancelFinish | cleanup =>
    obtain rfl := System.eq_of_setRecovery hpc'
    exact .inl (List.mem_cons_of_mem _ hk)
  | finish =>
    rw [System.recoveryPc_setWorker, if_pos rfl] at hpc'
    contradiction

theorem targets_step (h : step config s a = some s') (hk : s'.Targets k) :
    s.Targets k ∨ s'.status k ≠ some .uploading := by
  rcases hk with ⟨r, pc, hpc, hk⟩ | ⟨r, pc, job, hpc, hjob, rfl⟩
  · rcases recoveryPc_source h hpc with hpc | rfl | ⟨rep, action, before, rfl, -, hbefore, heffect⟩
    · exact .inl (.inl ⟨r, pc, hpc, hk⟩)
    · contradiction
    · rcases heffect.targets hpc hk with hk | hstatus
      · exact .inl (.inl ⟨rep.id, before, hbefore, hk⟩)
      · exact .inr hstatus
  · rcases job_source h hpc hjob with ⟨before, hbefore, hjob⟩ | ⟨row, _, _, rfl, hrow⟩
    · exact .inl (.inr ⟨r, before, job, hbefore, hjob, rfl⟩)
    · right
      change s'.status row.id ≠ _
      rw [System.status, hrow]
      exact nofun

/-- A call that is early after its own step was early before it, and its row is as it was. -/
theorem UploadEffect.early {u : Upload} {action : UploadAction} {pc pc' : UploadPc}
    (h : UploadEffect s u action pc s') (hpc' : s'.uploadPc u.id = some pc') (he : pc'.early) :
    pc.early ∧ s'.row u.id = s.row u.id ∧ ∀ p, pc' = .uploaded p →
      s'.jobs.artifact? u.id p.kind = some p.artifactDigest := by
  cases h with
  | parsed p =>
    obtain rfl := System.eq_of_setUpload hpc' rfl
    exact ⟨trivial, rfl, nofun⟩
  | refused | sourceFailed | queued | queueFailed | failed | discardCleanup | discardRow =>
    obtain rfl := System.eq_of_setUpload hpc' rfl
    exact he.elim
  | sourceStored acknowledged p =>
    obtain rfl := System.eq_of_setUpload hpc' rfl
    cases acknowledged with
    | false => exact he.elim
    | true => exact ⟨trivial, rfl, nofun⟩
  | runnerUpload stored acknowledged p =>
    obtain rfl := System.eq_of_setUpload hpc' rfl
    cases stored with
    | false => exact he.elim
    | true =>
      cases acknowledged with
      | false => exact he.elim
      | true =>
        refine ⟨trivial, rfl, ?_⟩
        intro p' hp
        obtain rfl := UploadPc.uploaded.inj hp
        exact Jobs.artifact?_upload s.jobs u.id p.kind p.artifactDigest

theorem System.status_eq {row : Submission} (h : s.row k = some row) :
    s.status k = some row.status := by
  rw [System.status, h, Option.map_some]

theorem artifactsMatch_step (hids : IdsDrawn s) (hs : ArtifactsMatch s)
    (h : step config s a = some s') : ArtifactsMatch s' where
  early := by
    intro k pc hpc he row' hrow'
    cases upload_step h k with
    | other _ ha hsame =>
      have hearly := hs.early k pc (hsame ▸ hpc) he
      have hstep := row_step h k
      rw [hrow'] at hstep
      generalize hold : s.row k = old at hstep
      cases hstep with
      | same => exact hearly row' hold
      | reserve => rfl
      | queue => exact absurd rfl ha
      | markInterrupted _ row _ hstatus | claim _ _ _ row _ hstatus
      | markFailure _ _ _ _ row _ _ hstatus | retry row hstatus =>
        rw [hearly row hold] at hstatus
        contradiction
      | storeResult r _ job result _ _ row hpc' hid =>
        exact absurd (by rw [System.status_eq hold, hearly row hold])
          (hs.targets k (.inr ⟨r, _, job, hpc', rfl, hid⟩))
      | disqualify _ row huploading => exact absurd (hearly row hold) huploading
    | ended _ hnone =>
      rw [hpc] at hnone
      contradiction
    | reserved _ _ hfresh =>
      have hstep := row_step h k
      rw [hrow'] at hstep
      generalize hold : s.row k = old at hstep
      cases hstep with
      | same => exact absurd (hids.row k row' hold) hfresh
      | reserve => rfl
    | acts u action before hid hbefore heffect =>
      subst hid
      obtain ⟨he', hrow, _⟩ := heffect.early hpc he
      exact hs.early u.id before hbefore he' row' (hrow ▸ hrow')
  targets := by
    intro k hk hstatus
    rcases targets_step h hk with hk | hk
    · rcases status_uploading h hstatus with hbefore | ⟨_, hfresh⟩
      · exact hs.targets k hk hbefore
      · exact hfresh (Targets.drawn hids hk)
    · exact hk hstatus
  uploaded := by
    intro k p hpc hstatus
    cases upload_step h k with
    | other _ ha hsame =>
      rw [hpc] at hsame
      have hbefore : s.status k = some .uploading := by
        rcases status_uploading h hstatus with hbefore | ⟨_, hfresh⟩
        · exact hbefore
        · exact absurd (hids.upload k _ hsame.symm) hfresh
      have hnot := fun ht => hs.targets k ht hbefore
      cases job_step h k with
      | same _ hjob =>
        rw [Jobs.artifact?_congr p.kind hjob]
        exact hs.uploaded k p hsame.symm hbefore
      | upload | discard => exact absurd rfl ha
      | cancelMark r ids hpc' => exact (hnot (.inl ⟨r, _, hpc', List.mem_cons_self⟩)).elim
      | cancelFinish r ids hpc' => exact (hnot (.inl ⟨r, _, hpc', List.mem_cons_self⟩)).elim
      | clean r ids hpc' => exact (hnot (.inl ⟨r, _, hpc', List.mem_cons_self⟩)).elim
      | workerClean r job hpc' hid => exact (hnot (.inr ⟨r, _, job, hpc', rfl, hid⟩)).elim
    | ended _ hnone =>
      rw [hpc] at hnone
      contradiction
    | reserved _ _ _ hreserved =>
      rw [hpc] at hreserved
      cases hreserved
    | acts u action before hid hbefore heffect =>
      subst hid
      exact (heffect.early hpc trivial).2.2 p rfl
  unmarked := by
    intro k hstatus
    cases job_step h k with
    | same _ hjob =>
      rw [Jobs.isCancelled_congr hjob]
      rcases status_uploading h hstatus with hbefore | ⟨_, hfresh⟩
      · exact hs.unmarked k hbefore
      · rw [Jobs.isCancelled]
        cases hj : s.jobs.get? k with
        | none => rfl
        | some job => exact absurd (hids.directory k job hj) hfresh
    | upload _ p hpc hjob =>
      rw [Jobs.isCancelled_congr hjob, Jobs.isCancelled_upload]
      rcases status_uploading h hstatus with hbefore | ⟨_, hfresh⟩
      · exact hs.unmarked k hbefore
      · exact absurd (hids.upload k _ hpc) hfresh
    | cancelMark r ids hpc =>
      rcases status_uploading h hstatus with hbefore | ⟨_, hfresh⟩
      · exact absurd hbefore (hs.targets k (.inl ⟨r, _, hpc, List.mem_cons_self⟩))
      · exact absurd (hids.selected r _ hpc k List.mem_cons_self) hfresh
    | discard _ hnone | cancelFinish _ _ _ hnone | clean _ _ _ hnone
    | workerClean _ _ _ _ hnone =>
      rw [Jobs.isCancelled, hnone]
      rfl
  artifact := by
    intro k row' hrow' hstatus
    have hkept {row : Submission} (hold : s.row k = some row) (hrow : row.status ≠ .uploading)
        {kind : ExecutionKind} {found : String} (hfound : s'.jobs.artifact? k kind = some found) :
        s.jobs.artifact? k kind = some found := by
      cases job_step h k with
      | same _ hjob => rw [← Jobs.artifact?_congr kind hjob, hfound]
      | upload _ p hpc => exact absurd (hs.early k _ hpc trivial row hold) hrow
      | cancelMark r ids _ hjob =>
        rw [Jobs.artifact?_congr kind hjob, Jobs.artifact?_markCancelled] at hfound
        exact hfound
      | discard _ hnone | cancelFinish _ _ _ hnone | clean _ _ _ hnone
      | workerClean _ _ _ _ hnone =>
        rw [Jobs.artifact?, hnone] at hfound
        contradiction
    have hcarry {row : Submission} (hold : s.row k = some row) (hrow : row.status ≠ .uploading)
        (hkind : row'.executionKind = row.executionKind)
        (hdigest : row'.artifactSHA256 = row.artifactSHA256) :
        ∃ kind digest, row'.executionKind = some kind ∧ row'.artifactSHA256 = some digest ∧
          ∀ found, s'.jobs.artifact? k kind = some found → found = digest := by
      obtain ⟨kind, digest, hk, hd, hall⟩ := hs.artifact k row hold hrow
      refine ⟨kind, digest, hkind.trans hk, hdigest.trans hd, ?_⟩
      intro found hfound
      exact hall found (hkept hold hrow hfound)
    have hstep := row_step h k
    rw [hrow'] at hstep
    generalize hold : s.row k = old at hstep
    cases hstep with
    | same => exact hcarry hold hstatus rfl rfl
    | reserve => exact absurd rfl hstatus
    | queue _ p row hpc hrow =>
      refine ⟨p.kind, p.artifactDigest, rfl, rfl, ?_⟩
      intro found hfound
      have hartifact := hs.uploaded k p hpc (by rw [System.status_eq hold, hrow])
      cases job_step h k with
      | same _ hjob =>
        rw [Jobs.artifact?_congr p.kind hjob, hartifact] at hfound
        exact (Option.some.inj hfound).symm
    | markInterrupted _ row _ hrow | claim _ _ _ row _ hrow
    | markFailure _ _ _ _ row _ _ hrow | retry row hrow =>
      exact hcarry hold (by rw [hrow]; rintro ⟨⟩) rfl rfl
    | storeResult r _ job result _ _ row hpc hid =>
      refine hcarry hold ?_ rfl rfl
      intro hrow
      exact hs.targets k (.inr ⟨r, _, job, hpc, rfl, hid⟩) (by rw [System.status_eq hold, hrow])
    | disqualify _ row huploading => exact hcarry hold huploading rfl rfl

theorem artifactsMatch (h : (contestSystem config).Reachable TransitionSystem.Free s) :
    ArtifactsMatch s := by
  apply h.invariant_of_reachable
  · constructor
    · intro k pc hpc
      contradiction
    · rintro k (⟨r, pc, hpc, _⟩ | ⟨r, pc, job, hpc, _⟩)
      · contradiction
      · contradiction
    · intro k p hpc
      contradiction
    · intro k hk
      contradiction
    · intro k row hrow
      contradiction
  · intro s a s' hr hs _ h
    exact artifactsMatch_step (idsDrawn hr) hs h

end

/-- The runner holds the artifact of this row, and the job is not cancelled. -/
def System.Runnable (s : System) (row : Submission) : Prop :=
  ∃ kind digest, row.executionKind = some kind ∧ row.artifactSHA256 = some digest ∧
    s.jobs.artifact? row.id kind = some digest ∧ s.jobs.isCancelled row.id = false

/-- Every queued submission can be run. -/
def QueueRunnable (s : System) : Prop :=
  ∀ k row, s.row k = some row → row.status = .queued → s.Runnable row

/-- The job directory that the step empties or marks as cancelled. -/
def System.spoils? (s : System) : Action → Option String
  | .upload id (.discardCleanup true) => some id
  | .recover r .cancelMark | .recover r .cancelFinish | .recover r (.cleanup true) =>
      (s.recoveryPc r).bind fun pc => pc.targets.head?
  | .worker r (.cleanup true) => ((s.workerPc r).bind (·.job?)).map (·.id)
  | _ => none

/-- No step empties or marks the job directory of a queued submission, and a submission is retried
only while its job directory has an artifact of its kind and no marker. -/
def QueueKept (s : System) (a : Action) : Prop :=
  (∀ id ∈ s.spoils? a, s.status id ≠ some .queued) ∧
    ∀ id ∈ a.retries?, ∀ row ∈ s.row id, ∀ kind ∈ row.executionKind,
      (s.jobs.artifact? id kind).isSome = true ∧ s.jobs.isCancelled id = false

instance : DecidableRel QueueKept := fun s a =>
  inferInstanceAs (Decidable ((∀ id ∈ s.spoils? a, s.status id ≠ some .queued) ∧
    ∀ id ∈ a.retries?, ∀ row ∈ s.row id, ∀ kind ∈ row.executionKind,
      (s.jobs.artifact? id kind).isSome = true ∧ s.jobs.isCancelled id = false))

section
variable {config : Config} {s s' : System} {a : Action} {k : String}

theorem JobStep.spoils (h : JobStep s s' k a) :
    s'.jobs.get? k = s.jobs.get? k ∨ s.spoils? a = some k ∨
      ∃ p, s.uploadPc k = some (.sourceStored p) := by
  cases h with
  | same _ hsame => exact .inl hsame
  | upload _ p hpc => exact .inr (.inr ⟨p, hpc⟩)
  | discard => exact .inr (.inl rfl)
  | cancelMark r ids hpc | cancelFinish r ids hpc | clean r ids hpc =>
    exact .inr (.inl (by rw [System.spoils?, hpc]; rfl))
  | workerClean r job hpc hid =>
    exact .inr (.inl (by rw [System.spoils?, hpc, ← hid]; rfl))

/-- The artifact of a queued row stays under the condition. -/
theorem Runnable.kept (hmatch : ArtifactsMatch s) (hg : QueueKept s a)
    (h : step config s a = some s') {row : Submission} (hrow : s.row row.id = some row)
    (hqueued : row.status = .queued) (hr : s.Runnable row) : s'.Runnable row := by
  have hstatus : s.status row.id = some .queued := by rw [System.status_eq hrow, hqueued]
  rcases (job_step h row.id).spoils with hsame | hspoils | ⟨p, hpc⟩
  · obtain ⟨kind, digest, hkind, hdigest, hartifact, hmark⟩ := hr
    refine ⟨kind, digest, hkind, hdigest, ?_, ?_⟩
    · rw [Jobs.artifact?_congr kind hsame, hartifact]
    · rw [Jobs.isCancelled_congr hsame, hmark]
  · exact absurd hstatus (hg.1 row.id hspoils)
  · have huploading := hmatch.early row.id _ hpc trivial row hrow
    rw [hqueued] at huploading
    contradiction

theorem queueRunnable_step (hids : IdsDrawn s) (hmatch : ArtifactsMatch s) (hs : QueueRunnable s)
    (hg : QueueKept s a) (h : step config s a = some s') : QueueRunnable s' := by
  intro k row' hrow' hqueued
  have hid' : row'.id = k := Table.get?_key hrow'
  have hstep := row_step h k
  rw [hrow'] at hstep
  generalize hold : s.row k = old at hstep
  cases hstep with
  | same =>
    rw [← hid'] at hold
    exact Runnable.kept hmatch hg h hold hqueued (hs row'.id row' hold hqueued)
  | queue _ p row hpc huploading =>
    have hid : row.id = k := Table.get?_key hold
    have hstatus : s.status k = some .uploading := by rw [System.status_eq hold, huploading]
    have hmatch' := artifactsMatch_step hids hmatch h
    cases job_step h k with
    | same _ hjob =>
      refine ⟨p.kind, p.artifactDigest, rfl, rfl, ?_, ?_⟩
      · change s'.jobs.artifact? row.id p.kind = _
        rw [hid, Jobs.artifact?_congr p.kind hjob]
        exact hmatch.uploaded k p hpc hstatus
      · change s'.jobs.isCancelled row.id = _
        rw [hid, Jobs.isCancelled_congr hjob]
        exact hmatch.unmarked k hstatus
  | retry row hstatus =>
    have hid : row.id = k := Table.get?_key hold
    obtain ⟨kind, digest, hkind, hdigest, hall⟩ := hmatch.artifact k row hold
      (by rw [hstatus]; exact nofun)
    obtain ⟨hartifact, hmark⟩ := hg.2 k rfl row hold kind hkind
    obtain ⟨found, hfound⟩ := Option.isSome_iff_exists.mp hartifact
    obtain rfl := hall found hfound
    cases job_step h k with
    | same _ hjob =>
      refine ⟨kind, found, hkind, hdigest, ?_, ?_⟩
      · change s'.jobs.artifact? row.id kind = _
        rw [hid, Jobs.artifact?_congr kind hjob, hfound]
      · change s'.jobs.isCancelled row.id = _
        rw [hid, Jobs.isCancelled_congr hjob, hmark]
  | reserve | markInterrupted | claim | markFailure | storeResult | disqualify => contradiction

/-- In every run whose steps meet the condition, every queued submission can be run. -/
theorem queueRunnable_of_kept (h : (contestSystem config).Reachable QueueKept s) :
    QueueRunnable s := by
  apply h.invariant_of_reachable
  · intro k row hrow
    contradiction
  · intro s a s' hr hs hg h
    exact queueRunnable_step (idsDrawn hr.free) (artifactsMatch hr.free) hs hg h

end

theorem queueRunnable_retried : ∃ s,
    (contestSystem ⟨"1brc", 0, 100, [], "env"⟩).Reachable QueueKept s ∧ QueueRunnable s ∧
    s.status "a" = some .queued := by
  have hrun : ((contestSystem ⟨"1brc", 0, 100, [], "env"⟩).run QueueKept .initial
      (boot 0 ++ lead 0 ++ accept 0 "a" "alice" ⟨.ruby, .ruby, "main.rb", [], "e3b0", "e3b0"⟩ ++
        benchmarkFailure 0 ++ [.admin (.retry "a")])).any
      (fun s => s.status "a" = some .queued) = true := by
    decide
  obtain ⟨s, hpath, hcheck⟩ := TransitionSystem.exists_path_of_run hrun
  exact ⟨s, hpath, queueRunnable_of_kept hpath, of_decide_eq_true hcheck⟩

/-- A replica stops during a benchmark; the next start cancels the job, which removes its artifact,
and an administrator puts the submission back. -/
def retriedWithoutArtifact : List Action :=
  boot 0 ++ lead 0 ++ accept 0 "a" "alice" ⟨.ruby, .ruby, "main.rb", [], "e3b0", "e3b0"⟩ ++
    [.worker 0 (.claimNext [] true), .worker 0 .begin, .crash 0, .start 0,
      .recover 0 .selectRunning, .recover 0 .cancelMark, .recover 0 .cancelFinish,
      .recover 0 .markInterrupted, .recover 0 .selectUploading, .recover 0 .deleteUploading,
      .recover 0 .finish, .admin (.retry "a")]

theorem not_queueRunnable : ¬ ∀ config s,
    (contestSystem config).Reachable TransitionSystem.Free s → QueueRunnable s := by
  intro hlaw
  have hrun : ((contestSystem ⟨"1brc", 0, 100, [], "env"⟩).run TransitionSystem.Free .initial
      retriedWithoutArtifact).any (fun s => s.status "a" = some .queued &&
        (s.jobs.get? "a").isNone) = true := by
    decide
  obtain ⟨s, hpath, hcheck⟩ := TransitionSystem.exists_path_of_run hrun
  simp only [Bool.and_eq_true, decide_eq_true_eq] at hcheck
  obtain ⟨row, hrow, hstatus⟩ := Option.map_eq_some_iff.mp hcheck.1
  obtain ⟨kind, digest, _, _, hartifact, _⟩ := hlaw _ s hpath "a" row hrow hstatus
  have hid : row.id = "a" := Table.get?_key hrow
  rw [hid, Jobs.artifact?, Option.isNone_iff_eq_none.mp hcheck.2] at hartifact
  cases hartifact

end OneBrc.Server
