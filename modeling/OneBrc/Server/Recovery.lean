import OneBrc.Server.Artifacts

/-! Start-up recovery beside live replicas. It selects by status alone and takes no lock, so what it
leaves alone depends on what the lock holder and the open uploads do between its statements. -/
namespace OneBrc.Server
open Lib Runner

/-- The job between its claim and the statement that settles it. -/
def WorkerPc.current? : WorkerPc → Option BenchmarkJob
  | .claimed job | .running job | .marking job _ | .storing job _ => some job
  | .waiting | .starting | .head | .cleaning _ | .leaving | .stopped => none

/-- The lock holder's job between its claim and the statement that settles it. -/
def System.leaderJob? (s : System) : Option BenchmarkJob :=
  (s.lock.bind s.workerPc).bind (·.current?)

/-- The lock holder works on a submission whose row is running. -/
def System.benchmarking (s : System) (k : String) : Bool :=
  s.leaderJob?.any (·.id = k) && s.status k = some .running

/-- The call has not returned. -/
def UploadPc.isOpen : UploadPc → Bool
  | .finished _ => false
  | _ => true

/-- An unfinished `acceptSubmission` whose row is uploading. -/
def System.accepting (s : System) (k : String) : Bool :=
  (s.uploadPc k).any (·.isOpen) && s.status k = some .uploading

/-- No step of a recovery changes the row or the job directory of a submission that a live process
is working on. -/
def RecoveryLaw (config : Config) (G : System → Action → Prop) : Prop :=
  ∀ s r action s' k, (contestSystem config).Reachable G s → G s (.recover r action) →
    step config s (.recover r action) = some s' →
    s.benchmarking k = true ∨ s.accepting k = true →
    s'.row k = s.row k ∧ s'.jobs.get? k = s.jobs.get? k

/-- The recovery has selected the running rows and not yet marked them. -/
def RecoveryPc.interrupts : RecoveryPc → Bool
  | .cancelling _ | .cancelMarked _ _ => true
  | _ => false

/-- The recovery has selected the uploading rows and not yet deleted them. -/
def RecoveryPc.deletes : RecoveryPc → Bool
  | .deleteUploading _ => true
  | _ => false

/-- Some recovery stands at such a point. -/
def System.recovers (s : System) (p : RecoveryPc → Bool) : Bool :=
  s.replicas.rows.any fun rep => rep.recoveryPc?.any p

/-- Some call of `acceptSubmission` has not returned. -/
def System.hasOpenUpload (s : System) : Bool := s.uploads.rows.any (·.pc.isOpen)

def Action.selects (status : SubmissionStatus) : Action → Bool
  | .recover _ .selectRunning => status = .running
  | .recover _ .selectUploading => status = .uploading
  | _ => false

def Action.claimer? : Action → Option ℕ
  | .worker r (.claimNext _ _) => some r
  | _ => none

/-- The step begins a call of `acceptSubmission`. -/
def Action.opensUpload : Action → Bool
  | .reserve _ _ _ acknowledged => acknowledged
  | _ => false

/-- A deployment in which a recovery selects the running rows while the lock holder has no job and
the uploading rows while no call is open, and until it has marked and deleted them the lock holder
claims nothing and no call begins. -/
def RecoversAlone (s : System) (a : Action) : Prop :=
  (a.selects .running = true → s.leaderJob? = none) ∧
    (∀ r ∈ a.claimer?, s.lock = some r → s.recovers RecoveryPc.interrupts = false) ∧
    (a.selects .uploading = true → s.hasOpenUpload = false) ∧
    (a.opensUpload = true → s.recovers RecoveryPc.deletes = false)

instance : DecidableRel RecoversAlone := fun s a =>
  inferInstanceAs (Decidable ((a.selects .running = true → s.leaderJob? = none) ∧
    (∀ r ∈ a.claimer?, s.lock = some r → s.recovers RecoveryPc.interrupts = false) ∧
    (a.selects .uploading = true → s.hasOpenUpload = false) ∧
    (a.opensUpload = true → s.recovers RecoveryPc.deletes = false)))

/-- What a recovery relies on at each of its points: no job of the lock holder, no open call, and
that what it has selected is uploading until it is gone. -/
structure Alone (s : System) : Prop where
  interrupts : ∀ r pc, s.recoveryPc r = some pc → pc.interrupts = true → s.leaderJob? = none
  deletes : ∀ r pc, s.recoveryPc r = some pc → pc.deletes = true →
    ∀ k upload, s.uploadPc k = some upload → upload.isOpen = false
  selected : ∀ r ids, s.recoveryPc r = some (.deleteUploading ids) → ∀ k ∈ ids,
    ∀ row, s.row k = some row → row.status = .uploading
  cleaned : ∀ r ids, s.recoveryPc r = some (.cleaning ids) → ∀ k ∈ ids, s.row k = none

section
variable {config : Config} {s s' : System} {a : Action} {k : String} {r : ℕ}

theorem System.of_recovers {p : RecoveryPc → Bool} {pc : RecoveryPc} (h : s.recovers p = false)
    (hpc : s.recoveryPc r = some pc) : p pc = false := by
  obtain ⟨rep, hrep, hphase⟩ := System.recoveryPc_eq_some.mp hpc
  have hall := List.any_eq_false.mp h rep (Table.mem_of_get? hrep)
  rw [Replica.recoveryPc?_recovering hphase, Option.any_some] at hall
  exact Bool.eq_false_of_not_eq_true hall

theorem System.of_hasOpenUpload {upload : UploadPc} (h : s.hasOpenUpload = false)
    (hpc : s.uploadPc k = some upload) : upload.isOpen = false := by
  obtain ⟨u, hu, rfl⟩ := Option.map_eq_some_iff.mp hpc
  exact Bool.eq_false_of_not_eq_true (List.any_eq_false.mp h u (Table.mem_of_get? hu))

theorem Replica.loopHead_current? (rep : Replica) : rep.loopHead.current? = none := by
  unfold Replica.loopHead
  split <;> rfl

/-- Only a claim gives a worker a job. -/
theorem WorkerEffect.current? {rep : Replica} {action : WorkerAction} {pc pc' : WorkerPc}
    (h : WorkerEffect config s rep action pc s') (hpc : pc.current? = none)
    (hclaim : ∀ locked acknowledged, action ≠ .claimNext locked acknowledged)
    (hpc' : s'.workerPc rep.id = some pc') : pc'.current? = none := by
  cases h with
  | acquireLock | validateEnvironment | abandonMark | abandonStore | leave =>
    obtain rfl := System.eq_of_setWorker hpc'
    rfl
  | idle locked acknowledged | claim locked acknowledged =>
    exact absurd rfl (hclaim locked acknowledged)
  | cleanup =>
    obtain rfl := System.eq_of_setWorker hpc'
    exact rep.loopHead_current?
  | refuse | begin | runFailed | runReturned | markFailure | storeResult => contradiction

/-- The lock holder keeps having no job over a step that is no claim of its own. -/
theorem leaderJob?_step (h : step config s a = some s') (hs : s.leaderJob? = none)
    (hclaim : ∀ r ∈ a.claimer?, s.lock ≠ some r) : s'.leaderJob? = none := by
  unfold System.leaderJob?
  cases hlock' : s'.lock with
  | none => rfl
  | some holder =>
    rw [Option.bind_some]
    cases hpc' : s'.workerPc holder with
    | none => rfl
    | some pc' =>
      rw [Option.bind_some]
      rcases lock_step h with hsame | hnone | ⟨r, rfl, -, hlock⟩
      · rw [hlock'] at hsame
        have hbefore {pc : WorkerPc} (hpc : s.workerPc holder = some pc) : pc.current? = none := by
          rwa [System.leaderJob?, ← hsame, Option.bind_some, hpc, Option.bind_some] at hs
        rcases workerPc_source h hpc' with
          ⟨-, hpc⟩ | rfl | ⟨rep, action, pc, rfl, rfl, -, hpc, heffect⟩
        · exact hbefore hpc
        · rfl
        · refine heffect.current? (hbefore hpc) ?_ hpc'
          rintro locked acknowledged rfl
          exact hclaim rep.id rfl hsame.symm
      · rw [hlock'] at hnone
        contradiction
      · rw [hlock'] at hlock
        obtain rfl := Option.some.inj hlock
        rcases workerPc_source h hpc' with
          ⟨ha, -⟩ | rfl | ⟨rep, action, pc, rfl, ha, -, -, heffect⟩
        · exact absurd rfl ha
        · rfl
        · obtain rfl : .acquireLock = action := (Action.worker.inj ha).2
          cases heffect with
          | acquireLock =>
            obtain rfl := System.eq_of_setWorker hpc'
            rfl

/-- A call is open after a step when it was open before, unless the step begins it. -/
theorem isOpen_step {upload : UploadPc} (h : step config s a = some s')
    (hs : ∀ k upload, s.uploadPc k = some upload → upload.isOpen = false)
    (hopens : a.opensUpload = false) (hpc : s'.uploadPc k = some upload) :
    upload.isOpen = false := by
  cases upload_step h k with
  | other _ _ hsame => exact hs k upload (hsame ▸ hpc)
  | ended _ hnone =>
    rw [hpc] at hnone
    contradiction
  | reserved => contradiction
  | acts u action before hid hbefore heffect =>
    have hclosed := hs k before hbefore
    cases heffect with
    | parsed | refused | sourceFailed | sourceStored | runnerUpload | queued | queueFailed
    | discardCleanup | discardRow => contradiction
    | failed _ hfailed =>
      obtain ⟨p, rfl | rfl | rfl⟩ := hfailed <;> contradiction

/-- Rows that are gone stay gone. -/
theorem row_none_step (hids : k ∈ s.usedIds) (h : step config s a = some s')
    (hrow : s.row k = none) : s'.row k = none := by
  have hstep := row_step h k
  rw [hrow] at hstep
  generalize s'.row k = new at hstep
  cases hstep with
  | same => rfl
  | reserve _ _ _ _ hfresh => exact absurd hids hfresh

/-- Without an open call an uploading row stays as it is until it is deleted. -/
theorem uploading_step (hmatch : ArtifactsMatch s) (hids : k ∈ s.usedIds)
    (h : step config s a = some s') (hs : ∀ row, s.row k = some row → row.status = .uploading)
    (hclosed : ∀ upload, s.uploadPc k = some upload → upload.isOpen = false) {row' : Submission}
    (hrow' : s'.row k = some row') : row'.status = .uploading := by
  have hstep := row_step h k
  rw [hrow'] at hstep
  generalize hold : s.row k = old at hstep
  cases hstep with
  | same => exact hs row' hold
  | reserve _ _ _ _ hfresh => exact absurd hids hfresh
  | queue _ _ _ hpc => exact nomatch hclosed _ hpc
  | markInterrupted _ row _ hstatus | claim _ _ _ row _ hstatus
  | markFailure _ _ _ _ row _ _ hstatus | retry row hstatus =>
    rw [hs row hold] at hstatus
    contradiction
  | storeResult r _ job _ _ _ row hpc hid =>
    exact absurd (by rw [System.status_eq hold, hs row hold])
      (hmatch.targets k (.inr ⟨r, _, job, hpc, rfl, hid⟩))
  | disqualify _ row huploading => exact absurd (hs row hold) huploading

theorem alone_step (hids : IdsDrawn s) (hmatch : ArtifactsMatch s) (hs : Alone s)
    (hg : RecoversAlone s a) (h : step config s a = some s') : Alone s' where
  interrupts := by
    intro r pc hpc hinterrupts
    rcases recoveryPc_source h hpc with
      hbefore | rfl | ⟨rep, action, before, rfl, rfl, hbefore, heffect⟩
    · refine leaderJob?_step h (hs.interrupts r pc hbefore hinterrupts) ?_
      intro claimer hclaimer hlock
      have hclear := System.of_recovers (hg.2.1 claimer hclaimer hlock) hbefore
      rw [hinterrupts] at hclear
      contradiction
    · contradiction
    · cases heffect with
      | selectRunning => exact leaderJob?_step h (hg.1 rfl) nofun
      | cancelMark | cancelFinish => exact leaderJob?_step h (hs.interrupts _ _ hbefore rfl) nofun
      | markInterrupted | selectUploading | deleteUploading | cleanup =>
        obtain rfl := System.eq_of_setRecovery hpc
        contradiction
      | finish =>
        rw [System.recoveryPc_setWorker, if_pos rfl] at hpc
        contradiction
  deletes := by
    intro r pc hpc hdeletes
    rcases recoveryPc_source h hpc with
      hbefore | rfl | ⟨rep, action, before, rfl, rfl, hbefore, heffect⟩
    · intro k upload
      refine isOpen_step h (hs.deletes r pc hbefore hdeletes) ?_
      by_contra hopens
      have hclear := System.of_recovers (hg.2.2.2 (Bool.eq_true_of_not_eq_false hopens)) hbefore
      rw [hdeletes] at hclear
      contradiction
    · contradiction
    · cases heffect with
      | selectUploading =>
        exact fun k upload => isOpen_step h (fun _ _ => System.of_hasOpenUpload (hg.2.2.1 rfl)) rfl
      | selectRunning | cancelMark | cancelFinish | markInterrupted | deleteUploading | cleanup =>
        obtain rfl := System.eq_of_setRecovery hpc
        contradiction
      | finish =>
        rw [System.recoveryPc_setWorker, if_pos rfl] at hpc
        contradiction
  selected := by
    intro r ids hpc k hk row hrow
    rcases recoveryPc_source h hpc with
      hbefore | heq | ⟨rep, action, before, rfl, rfl, hbefore, heffect⟩
    · exact uploading_step hmatch (hids.selected r _ hbefore k hk) h
        (hs.selected r ids hbefore k hk) (hs.deletes r _ hbefore rfl k) hrow
    · nomatch heq
    · cases heffect with
      | selectUploading =>
        obtain rfl := RecoveryPc.deleteUploading.inj (System.eq_of_setRecovery hpc)
        obtain ⟨found, hfound, hstatus⟩ := mem_selectIds.mp hk
        obtain rfl := Option.some.inj (hfound.symm.trans hrow)
        exact hstatus
      | selectRunning | cancelMark | cancelFinish | markInterrupted | deleteUploading | cleanup =>
        exact nomatch System.eq_of_setRecovery hpc
      | finish =>
        rw [System.recoveryPc_setWorker, if_pos rfl] at hpc
        contradiction
  cleaned := by
    intro r ids hpc k hk
    rcases recoveryPc_source h hpc with
      hbefore | heq | ⟨rep, action, before, rfl, rfl, hbefore, heffect⟩
    · exact row_none_step (hids.selected r _ hbefore k hk) h (hs.cleaned r ids hbefore k hk)
    · nomatch heq
    · cases heffect with
      | deleteUploading =>
        obtain rfl := RecoveryPc.cleaning.inj (System.eq_of_setRecovery hpc)
        have hstatus := hs.selected _ _ hbefore k hk
        change (s.db.submissions.delete _).get? k = none
        rw [Table.get?_delete]
        cases hrow : s.db.submissions.get? k with
        | none => rfl
        | some row => rw [Option.filter_some, if_neg (by simp [hstatus row hrow])]
      | cleanup =>
        obtain rfl := RecoveryPc.cleaning.inj (System.eq_of_setRecovery hpc)
        exact hs.cleaned _ _ hbefore k (List.mem_cons_of_mem _ hk)
      | selectRunning | cancelMark | cancelFinish | markInterrupted | selectUploading =>
        exact nomatch System.eq_of_setRecovery hpc
      | finish =>
        rw [System.recoveryPc_setWorker, if_pos rfl] at hpc
        contradiction

theorem alone (h : (contestSystem config).Reachable RecoversAlone s) : Alone s :=
  have hnone (r : ℕ) (pc : RecoveryPc) (hpc : System.initial.recoveryPc r = some pc) : False :=
    nomatch hpc
  h.invariant_of_reachable
    ⟨fun r pc hpc => (hnone r pc hpc).elim, fun r pc hpc => (hnone r pc hpc).elim,
      fun r _ hpc => (hnone r _ hpc).elim, fun r _ hpc => (hnone r _ hpc).elim⟩
    fun hr hs hg h => alone_step (idsDrawn hr.free) (artifactsMatch hr.free) hs hg h

theorem benchmarking_status (h : s.benchmarking k = true) : s.status k = some .running := by
  simp only [System.benchmarking, Bool.and_eq_true, decide_eq_true_eq] at h
  exact h.2

theorem accepting_status (h : s.accepting k = true) : s.status k = some .uploading := by
  simp only [System.accepting, Bool.and_eq_true, decide_eq_true_eq] at h
  exact h.2

/-- Nothing is benchmarked while the lock holder has no job. -/
theorem not_benchmarking (h : s.leaderJob? = none) : s.benchmarking k = false := by
  rw [System.benchmarking, h]
  rfl

theorem recover_row {action : RecoveryAction} (hs : Alone s)
    (h : step config s (.recover r action) = some s')
    (hk : s.benchmarking k = true ∨ s.accepting k = true) : s'.row k = s.row k := by
  have hstep := row_step h k
  generalize hold : s.row k = old at hstep
  generalize s'.row k = new at hstep
  cases hstep with
  | same => rfl
  | deleteUploading _ ids row hpc hstatus =>
    have huploading : s.status k = some .uploading := by rw [System.status_eq hold, hstatus]
    rcases hk with hk | hk
    · rw [benchmarking_status hk] at huploading
      contradiction
    · have hopen := hk
      simp only [System.accepting, Bool.and_eq_true, Option.any_eq_true] at hopen
      obtain ⟨⟨upload, hupload, hopen⟩, -⟩ := hopen
      rw [hs.deletes r _ hpc rfl k upload hupload] at hopen
      contradiction
  | markInterrupted _ row hpc hstatus =>
    have hrunning : s.status k = some .running := by rw [System.status_eq hold, hstatus]
    rcases hk with hk | hk
    · rw [not_benchmarking (hs.interrupts r _ hpc rfl)] at hk
      contradiction
    · rw [accepting_status hk] at hrunning
      contradiction

theorem recover_job {action : RecoveryAction} (hmatch : ArtifactsMatch s) (hs : Alone s)
    (h : step config s (.recover r action) = some s')
    (hk : s.benchmarking k = true ∨ s.accepting k = true) :
    s'.jobs.get? k = s.jobs.get? k := by
  have hcancelled {pc : RecoveryPc} (hpc : s.recoveryPc r = some pc) (hmem : k ∈ pc.targets)
      (hinterrupts : pc.interrupts = true) : False := by
    rcases hk with hk | hk
    · rw [not_benchmarking (hs.interrupts r pc hpc hinterrupts)] at hk
      contradiction
    · exact hmatch.targets k (.inl ⟨r, pc, hpc, hmem⟩) (accepting_status hk)
  cases job_step h k with
  | same _ hsame => exact hsame
  | cancelMark _ ids hpc => exact (hcancelled hpc List.mem_cons_self rfl).elim
  | cancelFinish _ ids hpc => exact (hcancelled hpc List.mem_cons_self rfl).elim
  | clean _ ids hpc =>
    -- what is cleaned up has no row any more
    have hgone : s.status k = none := by
      rw [System.status, hs.cleaned r _ hpc k List.mem_cons_self]
      rfl
    rcases hk with hk | hk
    · rw [benchmarking_status hk] at hgone
      contradiction
    · rw [accepting_status hk] at hgone
      contradiction

/-- In every run whose recoveries are alone, recovery touches abandoned work only. -/
theorem recoveryLaw_of_alone (config : Config) : RecoveryLaw config RecoversAlone := by
  intro s r action s' k hs _ h hk
  exact ⟨recover_row (alone hs) h hk, recover_job (artifactsMatch hs.free) (alone hs) h hk⟩

end

/-- A leader crashes during a benchmark. Another replica leads and has an open upload while a third
one recovers. -/
def startedAfter : List Action :=
  boot 0 ++ boot 1 ++ lead 0 ++
    accept 0 "a" "alice" ⟨.ruby, .ruby, "main.rb", [], "e3b0", "e3b0"⟩ ++
    [.worker 0 (.claimNext [] true), .worker 0 .begin, .crash 0] ++ lead 1 ++
    [.start 2, .recover 2 .selectRunning, .reserve 1 "b" "bob" true, .recover 2 .cancelMark,
      .recover 2 .cancelFinish]

theorem recoveryLaw_startedAfter : ∃ s s',
    (contestSystem ⟨"1brc", 0, 100, [], "env"⟩).Reachable RecoversAlone s ∧
    step ⟨"1brc", 0, 100, [], "env"⟩ s (.recover 2 .markInterrupted) = some s' ∧
    s.status "a" = some .running ∧ s'.status "a" = some .infrastructureError ∧
    s.accepting "b" = true ∧ s'.row "b" = s.row "b" := by
  have hrun : ((contestSystem ⟨"1brc", 0, 100, [], "env"⟩).run RecoversAlone .initial
      startedAfter).any (fun s => s.status "a" = some .running && s.accepting "b" &&
        (step ⟨"1brc", 0, 100, [], "env"⟩ s (.recover 2 .markInterrupted)).any fun t =>
          t.status "a" = some .infrastructureError) = true := by
    decide
  obtain ⟨s, hpath, hcheck⟩ := TransitionSystem.exists_path_of_run hrun
  simp only [Bool.and_eq_true, decide_eq_true_eq, Option.any_eq_true] at hcheck
  obtain ⟨⟨hrunning, haccepting⟩, t, ht, hstatus⟩ := hcheck
  have hguard : RecoversAlone s (.recover 2 .markInterrupted) := ⟨nofun, nofun, nofun, nofun⟩
  have hkept := recoveryLaw_of_alone _ s 2 .markInterrupted t "b" hpath hguard ht (.inr haccepting)
  exact ⟨s, t, hpath, ht, hrunning, hstatus, haccepting, hkept.1⟩

/-- A replica starts during a benchmark of another one. -/
def startedBeside : List Action :=
  boot 0 ++ lead 0 ++ accept 0 "a" "alice" ⟨.ruby, .ruby, "main.rb", [], "e3b0", "e3b0"⟩ ++
    [.worker 0 (.claimNext [] true), .worker 0 .begin, .start 1, .recover 1 .selectRunning,
      .recover 1 .cancelMark, .recover 1 .cancelFinish]

theorem not_recoveryLaw : ¬ ∀ config, RecoveryLaw config TransitionSystem.Free := by
  intro hlaw
  have hrun : ((contestSystem ⟨"1brc", 0, 100, [], "env"⟩).run TransitionSystem.Free .initial
      startedBeside).any (fun s => s.benchmarking "a" &&
        (step ⟨"1brc", 0, 100, [], "env"⟩ s (.recover 1 .markInterrupted)).any fun t =>
          t.status "a" = some .infrastructureError) = true := by
    decide
  obtain ⟨s, hpath, hcheck⟩ := TransitionSystem.exists_path_of_run hrun
  simp only [Bool.and_eq_true, decide_eq_true_eq, Option.any_eq_true] at hcheck
  obtain ⟨hbench, t, ht, hstatus⟩ := hcheck
  have hkept := (hlaw _ s 1 .markInterrupted t "a" hpath trivial ht (.inl hbench)).1
  rw [System.status, hkept, ← System.status, benchmarking_status hbench] at hstatus
  cases hstatus

end OneBrc.Server
