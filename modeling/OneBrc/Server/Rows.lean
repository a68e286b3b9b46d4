import OneBrc.Server.Persistence
import OneBrc.Server.Publication

/-! In every run the columns of a submission agree with its status and with each other. -/
namespace OneBrc.Server
open Lib Runner

/-- The times of a row are in the order of its way through the queue, and none is ahead. -/
structure Submission.InTime (now : Timestamp) (row : Submission) : Prop where
  uploadStarted : row.uploadStartedAt ≤ now
  queued : ∀ t ∈ row.queuedAt, row.uploadStartedAt ≤ t ∧ t ≤ now
  started : ∀ t ∈ row.startedAt, (∃ q ∈ row.queuedAt, q ≤ t) ∧ t ≤ now
  completed : ∀ t ∈ row.completedAt, (∃ b ∈ row.startedAt, b ≤ t) ∧ t ≤ now

/-- A score is there exactly with an accepted verdict, and nothing without a public verdict. -/
structure Submission.HasScores (row : Submission) : Prop where
  publicScore : row.publicScoreNS.isSome = true ↔ row.publicVerdict = some .accepted
  privateScore : row.privateScoreNS.isSome = true ↔ row.privateVerdict = some .accepted
  completedAt : row.completedAt.isSome = true ↔ row.publicVerdict.isSome = true
  privateVerdict : row.publicVerdict = none → row.privateVerdict = none
  publicError : row.publicVerdict = none → row.publicError = none

/-- The columns that a status promises, and those that it excludes. -/
structure Submission.Consistent (now : Timestamp) (row : Submission) : Prop where
  inTime : row.InTime now
  hasScores : row.HasScores
  uploading : row.status = .uploading →
    row = .reserved row.id row.username row.uploadStartedAt
  metadata : row.status ≠ .uploading → row.executionKind.isSome = true ∧
    row.language.isSome = true ∧ row.sourceFilename.isSome = true ∧
      row.artifactSHA256.isSome = true ∧ row.queuedAt.isSome = true
  started : row.status = .running ∨ row.status = .infrastructureError ∨ row.status = .completed →
    row.startedAt.isSome = true
  measured : row.status = .completed → row.publicVerdict.isSome = true
  unmeasured : row.publicVerdict.isSome = true ∨ row.disqualifiedReason.isSome = true →
    row.status = .completed ∨ row.status = .disqualified
  failed : row.status = .infrastructureError → row.infrastructureError.isSome = true
  working : row.status.isActive = true → row.infrastructureError = none
  disqualified : row.status = .disqualified → row.disqualifiedReason.isSome = true
  notRejected : row.status ≠ .rejected

section Rows
variable {now : Timestamp} {row : Submission}

theorem Submission.InTime.later {now' : Timestamp} (h : row.InTime now) (hle : now ≤ now') :
    row.InTime now' where
  uploadStarted := h.uploadStarted.trans hle
  queued t ht := ⟨(h.queued t ht).1, (h.queued t ht).2.trans hle⟩
  started t ht := ⟨(h.started t ht).1, (h.started t ht).2.trans hle⟩
  completed t ht := ⟨(h.completed t ht).1, (h.completed t ht).2.trans hle⟩

theorem Submission.Consistent.later {now' : Timestamp} (h : row.Consistent now)
    (hle : now ≤ now') : row.Consistent now' :=
  { h with inTime := h.inTime.later hle }

theorem Submission.consistent_reserved (id username : String) :
    (Submission.reserved id username now).Consistent now where
  inTime := ⟨le_rfl, nofun, nofun, nofun⟩
  hasScores := ⟨by simp [Submission.reserved], by simp [Submission.reserved],
    by simp [Submission.reserved], fun _ => rfl, fun _ => rfl⟩
  uploading _ := rfl
  metadata h := absurd rfl h
  started h := by simp [Submission.reserved] at h
  measured h := by simp [Submission.reserved] at h
  unmeasured h := by simp [Submission.reserved] at h
  failed h := by simp [Submission.reserved] at h
  working _ := rfl
  disqualified h := by simp [Submission.reserved] at h
  notRejected := nofun

/-- An uploaded row has none of the columns that come later. -/
theorem Submission.Consistent.queue (h : row.Consistent now) (hstatus : row.status = .uploading)
    (p : ParsedUpload) :
    (row.queue p.kind p.language p.sourceFilename p.artifactDigest now).Consistent now := by
  have hstart := h.inTime.uploadStarted
  rw [h.uploading hstatus]
  exact {
    inTime := by
      refine ⟨hstart, ?_, nofun, nofun⟩
      rintro t ⟨⟩
      exact ⟨hstart, le_rfl⟩
    hasScores := ⟨by simp [Submission.queue, Submission.reserved],
      by simp [Submission.queue, Submission.reserved],
      by simp [Submission.queue, Submission.reserved], fun _ => rfl, fun _ => rfl⟩
    uploading := nofun
    metadata := fun _ => ⟨rfl, rfl, rfl, rfl, rfl⟩
    started := by simp [Submission.queue]
    measured := nofun
    unmeasured := by simp [Submission.queue, Submission.reserved]
    failed := nofun
    working := fun _ => rfl
    disqualified := nofun
    notRejected := nofun }

/-- Before a result there is neither a verdict nor a reason. -/
theorem Submission.Consistent.unfinished (h : row.Consistent now)
    (hcompleted : row.status ≠ .completed) (hdisqualified : row.status ≠ .disqualified) :
    row.publicVerdict.isSome ≠ true ∧ row.disqualifiedReason.isSome ≠ true := by
  refine ⟨fun hverdict => ?_, fun hreason => ?_⟩
  · rcases h.unmeasured (.inl hverdict) with hstatus | hstatus
    · exact hcompleted hstatus
    · exact hdisqualified hstatus
  · rcases h.unmeasured (.inr hreason) with hstatus | hstatus
    · exact hcompleted hstatus
    · exact hdisqualified hstatus

theorem Submission.Consistent.completedAt_none (h : row.Consistent now)
    (hverdict : row.publicVerdict.isSome ≠ true) : row.completedAt = none :=
  Option.not_isSome_iff_eq_none.mp fun hcompleted =>
    hverdict (h.hasScores.completedAt.mp hcompleted)

theorem Submission.Consistent.start (h : row.Consistent now) (hstatus : row.status = .queued) :
    (row.start now).Consistent now := by
  obtain ⟨hverdict, hreason⟩ := h.unfinished (by simp [hstatus]) (by simp [hstatus])
  have hmetadata := h.metadata (by simp [hstatus])
  obtain ⟨q, hq⟩ := Option.isSome_iff_exists.mp hmetadata.2.2.2.2
  exact {
    inTime := by
      refine ⟨h.inTime.uploadStarted, h.inTime.queued, ?_, ?_⟩
      · rintro t ⟨⟩
        exact ⟨⟨q, hq, (h.inTime.queued q hq).2⟩, le_rfl⟩
      · intro t ht
        rw [Submission.start, h.completedAt_none hverdict] at ht
        contradiction
    hasScores := ⟨h.hasScores.publicScore, h.hasScores.privateScore, h.hasScores.completedAt,
      h.hasScores.privateVerdict, h.hasScores.publicError⟩
    uploading := nofun
    metadata := fun _ => hmetadata
    started := fun _ => rfl
    measured := nofun
    unmeasured := by
      rintro (hverdict' | hreason')
      · exact absurd hverdict' hverdict
      · exact absurd hreason' hreason
    failed := nofun
    working := fun _ => rfl
    disqualified := nofun
    notRejected := nofun }

theorem Submission.Consistent.fail (h : row.Consistent now) (hstatus : row.status = .running)
    (message : String) : (row.fail message).Consistent now := by
  obtain ⟨hverdict, hreason⟩ := h.unfinished (by simp [hstatus]) (by simp [hstatus])
  exact {
    inTime := ⟨h.inTime.uploadStarted, h.inTime.queued, h.inTime.started, h.inTime.completed⟩
    hasScores := ⟨h.hasScores.publicScore, h.hasScores.privateScore, h.hasScores.completedAt,
      h.hasScores.privateVerdict, h.hasScores.publicError⟩
    uploading := nofun
    metadata := fun _ => h.metadata (by simp [hstatus])
    started := fun _ => h.started (.inl hstatus)
    measured := nofun
    unmeasured := by
      rintro (hverdict' | hreason')
      · exact absurd hverdict' hverdict
      · exact absurd hreason' hreason
    failed := fun _ => rfl
    working := nofun
    disqualified := nofun
    notRejected := nofun }

theorem Submission.Consistent.retry (h : row.Consistent now)
    (hstatus : row.status = .infrastructureError) : row.retry.Consistent now := by
  obtain ⟨hverdict, hreason⟩ := h.unfinished (by simp [hstatus]) (by simp [hstatus])
  exact {
    inTime := ⟨h.inTime.uploadStarted, h.inTime.queued, h.inTime.started, h.inTime.completed⟩
    hasScores := ⟨h.hasScores.publicScore, h.hasScores.privateScore, h.hasScores.completedAt,
      h.hasScores.privateVerdict, h.hasScores.publicError⟩
    uploading := nofun
    metadata := fun _ => h.metadata (by simp [hstatus])
    started := by simp [Submission.retry]
    measured := nofun
    unmeasured := by
      rintro (hverdict' | hreason')
      · exact absurd hverdict' hverdict
      · exact absurd hreason' hreason
    failed := nofun
    working := fun _ => rfl
    disqualified := nofun
    notRejected := nofun }

theorem Submission.Consistent.disqualify (h : row.Consistent now)
    (hstatus : row.status ≠ .uploading) (reason : String) :
    (row.disqualify reason).Consistent now where
  inTime := ⟨h.inTime.uploadStarted, h.inTime.queued, h.inTime.started, h.inTime.completed⟩
  hasScores := ⟨h.hasScores.publicScore, h.hasScores.privateScore, h.hasScores.completedAt,
    h.hasScores.privateVerdict, h.hasScores.publicError⟩
  uploading := nofun
  metadata _ := h.metadata hstatus
  started := by simp [Submission.disqualify]
  measured := nofun
  unmeasured _ := .inr rfl
  failed := nofun
  working := nofun
  disqualified _ := rfl
  notRejected := nofun

/-- A checked result has a median exactly with the accepted verdict. -/
theorem median_iff {result : BenchmarkResult} (h : validateBenchmarkResult result = true) :
    result.medianNS.isSome = true ↔ result.verdict = .accepted := by
  unfold validateBenchmarkResult at h
  split at h
  · next haccepted =>
    obtain ⟨hmedian, _⟩ := Bool.and_eq_true_iff.mp h
    refine iff_of_true ?_ haccepted
    cases hm : result.medianNS with
    | none => simp [hm] at hmedian
    | some _ => rfl
  · next hrefused =>
    obtain ⟨hmedian, _⟩ := Bool.and_eq_true_iff.mp h
    refine iff_of_false ?_ hrefused
    rw [Option.isNone_iff_eq_none.mp hmedian]
    exact Bool.false_ne_true

theorem isSome_nullableBigint {value : Option String} {n : Option ℕ}
    (h : nullableBigint value = .ok n) : n.isSome = value.isSome := by
  cases value with
  | none =>
    obtain rfl := Except.ok.inj h
    rfl
  | some text =>
    rw [nullableBigint] at h
    cases hbigint : bigintUnsigned text with
    | error e =>
      rw [hbigint] at h
      cases h
    | ok m =>
      rw [hbigint] at h
      obtain rfl := Except.ok.inj h
      rfl

theorem Submission.Consistent.complete (h : row.Consistent now)
    (hstarted : row.startedAt.isSome = true) (hstatus : row.status ≠ .uploading)
    {environmentID : String} {result : RunnerJobResult}
    (hvalid : validateRunnerResult environmentID result = true)
    {publicScore privateScore : Option ℕ}
    (hpublic : nullableBigint result.publicResult.medianNS = .ok publicScore)
    (hprivate : nullableBigint (result.privateResult.bind (·.medianNS)) = .ok privateScore) :
    (row.complete now result.publicResult result.privateResult publicScore
      privateScore).Consistent now := by
  obtain ⟨hpublicValid, hprivateValid⟩ := valid_parts hvalid
  obtain ⟨b, hb⟩ := Option.isSome_iff_exists.mp hstarted
  exact {
    inTime := by
      refine ⟨h.inTime.uploadStarted, h.inTime.queued, h.inTime.started, ?_⟩
      rintro t ⟨⟩
      exact ⟨⟨b, hb, (h.inTime.started b hb).2⟩, le_rfl⟩
    hasScores := by
      refine ⟨?_, ?_, iff_of_true rfl rfl, nofun, nofun⟩
      · rw [Submission.complete, isSome_nullableBigint hpublic, median_iff hpublicValid]
        exact ⟨congrArg some, Option.some.inj⟩
      · rw [Submission.complete, isSome_nullableBigint hprivate]
        cases hresult : result.privateResult with
        | none => simp
        | some p =>
          rw [Option.bind_some, median_iff (hprivateValid p hresult)]
          exact ⟨congrArg some, Option.some.inj⟩
    uploading := nofun
    metadata := fun _ => h.metadata hstatus
    started := fun _ => hstarted
    measured := fun _ => rfl
    unmeasured := fun _ => .inl rfl
    failed := nofun
    working := nofun
    disqualified := nofun
    notRejected := nofun }

end Rows

section Runs
variable {config : Config} {s s' : System} {a : Action}

/-- Every row is consistent, and the jobs of the workers have rows that were started. -/
structure RowsConsistent (s : System) : Prop where
  row : ∀ k row, s.row k = some row → row.Consistent s.now
  held : ∀ r pc job, s.workerPc r = some pc → pc.job? = some job →
    ∃ row, s.row job.id = some row ∧ row.startedAt.isSome = true

theorem RowsConsistent.not_uploading (hs : RowsConsistent s) {k : String} {row : Submission}
    (hrow : s.row k = some row) (hstarted : row.startedAt.isSome = true) :
    row.status ≠ .uploading := by
  intro hstatus
  rw [(hs.row k row hrow).uploading hstatus] at hstarted
  contradiction

/-- Every edge of a row keeps its columns consistent. -/
theorem RowStep.consistent {k : String} {row row' : Submission} (hs : RowsConsistent s)
    (hvalid : HoldsStorable config s) (h : RowStep config s k a (some row) (some row'))
    (hrow : s.row k = some row) : row'.Consistent s.now := by
  have hconsistent := hs.row k row hrow
  cases h with
  | same => exact hconsistent
  | queue _ p _ _ hstatus => exact hconsistent.queue hstatus p
  | markInterrupted _ _ _ hstatus => exact hconsistent.fail hstatus _
  | claim _ _ _ _ _ hstatus => exact hconsistent.start hstatus
  | markFailure _ _ _ message _ _ _ hstatus => exact hconsistent.fail hstatus _
  | storeResult r _ job result publicScore privateScore _ hpc hid hpublic hprivate =>
    obtain ⟨started, hstarted, hstartedAt⟩ := hs.held r _ job hpc rfl
    obtain rfl : started = row := by
      rw [hid, hrow] at hstarted
      exact (Option.some.inj hstarted).symm
    exact hconsistent.complete hstartedAt (hs.not_uploading hrow hstartedAt)
      (hvalid.checked r job result hpc) hpublic hprivate
  | retry _ hstatus => exact hconsistent.retry hstatus
  | disqualify reason _ huploading => exact hconsistent.disqualify huploading _

/-- A row that was started stays so. -/
theorem RowStep.started {k : String} {row : Submission} {after : Option Submission}
    (h : RowStep config s k a (some row) after) (hstarted : row.startedAt.isSome = true)
    (hstatus : row.status ≠ .uploading) :
    ∃ row', after = some row' ∧ row'.startedAt.isSome = true := by
  cases h with
  | discard _ _ huploading | deleteUploading _ _ _ _ huploading => exact absurd huploading hstatus
  | claim => exact ⟨_, rfl, rfl⟩
  | same | queue | markInterrupted | markFailure | storeResult | retry | disqualify =>
    exact ⟨_, rfl, hstarted⟩

theorem rowsConsistent_step (hs : RowsConsistent s) (hvalid : HoldsStorable config s)
    (h : step config s a = some s') : RowsConsistent s' where
  row := by
    intro k row' hrow'
    have hstep := row_step h k
    rw [hrow'] at hstep
    cases hrow : s.row k with
    | none =>
      rw [hrow] at hstep
      cases hstep with
      | reserve => exact (Submission.consistent_reserved _ _).later (now_step h)
    | some row =>
      rw [hrow] at hstep
      exact (hstep.consistent hs hvalid hrow).later (now_step h)
  held := by
    intro r pc job hpc hjob
    rcases job_source h hpc hjob with ⟨before, hbefore, hjob⟩ | ⟨row, _, _, rfl, hstarted⟩
    · obtain ⟨row, hrow, hstarted⟩ := hs.held r before job hbefore hjob
      have hstep := row_step h job.id
      rw [hrow] at hstep
      exact hstep.started hstarted (hs.not_uploading hrow hstarted)
    · exact ⟨row.start s.now, hstarted, rfl⟩

theorem rowsConsistent (h : (contestSystem config).Reachable TransitionSystem.Free s) :
    RowsConsistent s := by
  apply h.invariant_of_reachable
  · constructor
    · intro k row hrow
      contradiction
    · intro r pc job hpc
      contradiction
  · intro s a s' hreach hs _ h
    exact rowsConsistent_step hs (holdsStorable hreach) h

/-- In every run, with any number of replicas, every row is consistent at the time of the
database. -/
theorem rows_consistent (h : (contestSystem config).Reachable TransitionSystem.Free s)
    {k : String} {row : Submission} (hrow : s.row k = some row) : row.Consistent s.now :=
  (rowsConsistent h).row k row hrow

/-- The run of one accepted submission up to its stored result. -/
def measuredRun : List Action :=
  boot 0 ++ lead 0 ++ accept 0 "a" "alice" ⟨.ruby, .ruby, "main.rb", [], "e3b0", "e3b0"⟩ ++
    benchmark 0 ⟨⟨.accepted, some ["5"], some "5", none⟩,
      some ⟨.timeLimit, none, none, none⟩, "env"⟩ ++ [.worker 0 (.storeResult true)]

theorem exists_measured : ∃ s row,
    (contestSystem ⟨"1brc", 0, 100, [], "env"⟩).Reachable TransitionSystem.Free s ∧
      s.row "a" = some row ∧ row.status = .completed := by
  have hrun : ((contestSystem ⟨"1brc", 0, 100, [], "env"⟩).run TransitionSystem.Free .initial
      measuredRun).any (fun s => s.status "a" = some .completed) = true := by
    decide
  obtain ⟨s, hs, hcompleted⟩ := TransitionSystem.exists_path_of_run hrun
  obtain ⟨row, hrow, hstatus⟩ := Option.map_eq_some_iff.mp (of_decide_eq_true hcompleted)
  exact ⟨s, row, hs, hrow, hstatus⟩

theorem rows_consistent_measured : ∃ (s : System) (row : Submission),
    s.row "a" = some row ∧ row.status = .completed ∧ row.Consistent s.now := by
  obtain ⟨s, row, hs, hrow, hstatus⟩ := exists_measured
  exact ⟨s, row, hrow, hstatus, rows_consistent hs hrow⟩

end Runs
end OneBrc.Server
