import OneBrc.Server.Retry
import OneBrc.Server.Rows

/-! The rows of `benchmark_runs` agree with the verdicts of their submissions, in every run. -/
namespace OneBrc.Server
open Lib Runner

abbrev RunTable := Table (String × Dataset × ℕ) BenchmarkRun BenchmarkRun.key

/-- The verdict column of a dataset. -/
def Submission.verdictOf (row : Submission) : Dataset → Option Verdict
  | .publicData => row.publicVerdict
  | .privateData => row.privateVerdict

/-- The runs of a submission on a dataset: the attempts from 1 up to their number, one or three,
each with the verdict, and with a duration when it is the accepted one. -/
structure HasAttempts (runs : RunTable) (id : String) (dataset : Dataset) (verdict : Verdict) :
    Prop where
  attempts : ∃ n, (n = 1 ∨ n = 3 ∧ verdict = .accepted) ∧
    ∀ i, (runs.get? (id, dataset, i)).isSome = true ↔ 1 ≤ i ∧ i ≤ n
  run : ∀ i run, runs.get? (id, dataset, i) = some run → run.verdict = verdict ∧
    (run.durationNS.isSome = true ↔ verdict = .accepted)

/-- What `benchmark_runs` has of a submission. -/
def Submission.HasRuns (row : Submission) (runs : RunTable) : Prop :=
  ∀ dataset, match row.verdictOf dataset with
    | none => ∀ i, runs.get? (row.id, dataset, i) = none
    | some verdict => HasAttempts runs row.id dataset verdict

/-- Every submission has the runs of its verdicts, and every run has its submission. -/
structure RunsConsistent (s : System) : Prop where
  row : ∀ k row, s.row k = some row → row.HasRuns s.db.benchmarkRuns
  owned : ∀ key run, s.db.benchmarkRuns.get? key = some run → s.row key.1 ≠ none

theorem HasAttempts.congr {runs runs' : RunTable} {id : String} {dataset : Dataset}
    {verdict : Verdict} (h : HasAttempts runs id dataset verdict)
    (hruns : ∀ i, runs'.get? (id, dataset, i) = runs.get? (id, dataset, i)) :
    HasAttempts runs' id dataset verdict where
  attempts := by
    obtain ⟨n, hn, hattempts⟩ := h.attempts
    exact ⟨n, hn, fun i => by rw [hruns]; exact hattempts i⟩
  run i run hrun := h.run i run ((hruns i).symm.trans hrun)

theorem Submission.HasRuns.congr {runs runs' : RunTable} {row row' : Submission}
    (h : row.HasRuns runs) (hid : row'.id = row.id)
    (hverdict : ∀ dataset, row'.verdictOf dataset = row.verdictOf dataset)
    (hruns : ∀ dataset i, runs'.get? (row.id, dataset, i) = runs.get? (row.id, dataset, i)) :
    row'.HasRuns runs' := by
  intro dataset
  have hdataset := h dataset
  rw [hverdict, hid]
  cases hv : row.verdictOf dataset with
  | none =>
    rw [hv] at hdataset
    exact fun i => (hruns dataset i).trans (hdataset i)
  | some verdict =>
    rw [hv] at hdataset
    exact hdataset.congr (hruns dataset)

section Inserts
variable {db db' : Database} {id : String} {dataset : Dataset} {result : BenchmarkResult}

/-- The inserted attempts, one for each duration; all other runs stay. -/
theorem insertRuns_get? {verdict : Verdict} {durations : List String} {attempt : ℕ}
    (h : (durations.zipIdx attempt).foldlM (fun db (duration, attempt) => do
      let value ← benchmarkDuration duration
      db.insertBenchmarkRun ⟨id, dataset, attempt, verdict, value⟩) db = Except.ok db') :
    (∀ i (hi : i < durations.length), ∃ value, benchmarkDuration durations[i] = .ok value ∧
      db'.benchmarkRuns.get? (id, dataset, attempt + i) =
        some ⟨id, dataset, attempt + i, verdict, value⟩) ∧
    ∀ k, (k.1 = id → k.2.1 = dataset → k.2.2 < attempt ∨ attempt + durations.length ≤ k.2.2) →
      db'.benchmarkRuns.get? k = db.benchmarkRuns.get? k := by
  induction durations generalizing db attempt with
  | nil =>
    obtain rfl := Except.ok.inj h
    exact ⟨fun i hi => absurd hi (Nat.not_lt_zero i), fun _ _ => rfl⟩
  | cons duration durations ih =>
    rw [List.zipIdx_cons, List.foldlM_cons] at h
    obtain ⟨db₁, h₁, h⟩ := Fallible.bind_eq_ok.mp h
    obtain ⟨value, hvalue, hinsert⟩ := Fallible.bind_eq_ok.mp h₁
    obtain ⟨_, _, runs, hruns, rfl⟩ := Database.insertBenchmarkRun_ok hinsert
    obtain ⟨hinserted, hother⟩ := ih h
    have hget := Table.get?_insert? hruns
    constructor
    · intro i hi
      cases i with
      | zero =>
        refine ⟨value, hvalue, ?_⟩
        rw [Nat.add_zero, hother _ fun _ _ => .inl (Nat.lt_succ_self attempt)]
        exact (hget _).trans (if_pos rfl)
      | succ i =>
        rw [List.length_cons] at hi
        obtain ⟨value', hvalue', hrun⟩ := hinserted i (by omega)
        refine ⟨value', hvalue', ?_⟩
        rw [show attempt + (i + 1) = attempt + 1 + i by omega]
        exact hrun
    · intro k hk
      rw [List.length_cons] at hk
      rw [hother k fun hid hdataset => by have := hk hid hdataset; omega]
      refine (hget k).trans (if_neg ?_)
      rintro rfl
      have := hk rfl rfl
      change attempt < attempt ∨ _ ≤ attempt at this
      omega

/-- A checked result inserts one or three attempts. -/
theorem insertBenchmarkRuns_attempts (hvalid : validateBenchmarkResult result = true)
    (hfree : ∀ i, db.benchmarkRuns.get? (id, dataset, i) = none)
    (h : insertBenchmarkRuns id dataset result db = .ok db') :
    HasAttempts db'.benchmarkRuns id dataset result.verdict ∧
      ∀ k, ¬ (k.1 = id ∧ k.2.1 = dataset) →
        db'.benchmarkRuns.get? k = db.benchmarkRuns.get? k := by
  obtain ⟨hinserted, hother⟩ := insertRuns_get? h
  have hlength : ((result.durationsNS.getD [""]).length = 1 ∨
      (result.durationsNS.getD [""]).length = 3 ∧ result.verdict = .accepted) := by
    unfold validateBenchmarkResult at hvalid
    split at hvalid
    · next haccepted =>
      obtain ⟨_, hdurations⟩ := Bool.and_eq_true_iff.mp hvalid
      split at hdurations
      · contradiction
      · next durations hd =>
        obtain ⟨hlength, _⟩ := Bool.and_eq_true_iff.mp hdurations
        simp only [Bool.or_eq_true, decide_eq_true_eq] at hlength
        rw [hd, Option.getD_some]
        exact hlength.imp (fun hone => hone) fun hthree => ⟨hthree, haccepted⟩
    · obtain ⟨_, hdurations⟩ := Bool.and_eq_true_iff.mp hvalid
      rw [Option.isNone_iff_eq_none.mp hdurations]
      exact .inl rfl
  have hduration (duration : String) (hmem : duration ∈ result.durationsNS.getD [""])
      (value : Option ℕ) (hvalue : benchmarkDuration duration = .ok value) :
      value.isSome = true ↔ result.verdict = .accepted := by
    have hdigits := digits_of_valid hvalid duration
    unfold validateBenchmarkResult at hvalid
    split at hvalid
    · next haccepted =>
      obtain ⟨_, hdurations⟩ := Bool.and_eq_true_iff.mp hvalid
      split at hdurations
      · contradiction
      · next durations hd =>
        rw [hd, Option.getD_some] at hmem
        rw [storedNumbers, hd, Option.getD_some] at hdigits
        have hne := ne_empty_of_digits (hdigits (List.mem_append_left _ hmem))
        rw [benchmarkDuration, if_neg hne] at hvalue
        refine iff_of_true ?_ haccepted
        cases hbigint : bigintUnsigned duration with
        | error e =>
          rw [hbigint] at hvalue
          cases hvalue
        | ok n =>
          rw [hbigint] at hvalue
          obtain rfl := Except.ok.inj hvalue
          rfl
    · next hrefused =>
      obtain ⟨_, hdurations⟩ := Bool.and_eq_true_iff.mp hvalid
      rw [Option.isNone_iff_eq_none.mp hdurations, Option.getD_none, List.mem_singleton] at hmem
      rw [hmem, benchmarkDuration, if_pos rfl] at hvalue
      obtain rfl := Except.ok.inj hvalue
      exact iff_of_false Bool.false_ne_true hrefused
  -- An attempt is inserted, or the place of its number is free as before.
  have hplace (i : ℕ) : (∃ j, ∃ hj : j < (result.durationsNS.getD [""]).length, i = 1 + j) ∨
      (i < 1 ∨ 1 + (result.durationsNS.getD [""]).length ≤ i) := by
    by_cases hi : 1 ≤ i ∧ i - 1 < (result.durationsNS.getD [""]).length
    · exact .inl ⟨i - 1, hi.2, by omega⟩
    · exact .inr (by omega)
  refine ⟨⟨⟨_, hlength, fun i => ?_⟩, fun i run hrun => ?_⟩, fun k hk => ?_⟩
  · rcases hplace i with ⟨j, hj, rfl⟩ | hout
    · obtain ⟨value, _, hrun⟩ := hinserted j hj
      rw [hrun]
      exact iff_of_true rfl (by omega)
    · rw [hother _ fun _ _ => hout, hfree]
      exact iff_of_false Bool.false_ne_true (by omega)
  · rcases hplace i with ⟨j, hj, rfl⟩ | hout
    · obtain ⟨value, hvalue, hinsert⟩ := hinserted j hj
      rw [hinsert] at hrun
      obtain rfl := Option.some.inj hrun
      exact ⟨rfl, hduration _ (List.getElem_mem hj) value hvalue⟩
    · rw [hother _ fun _ _ => hout, hfree] at hrun
      contradiction
  · exact hother k fun hid hdataset => absurd ⟨hid, hdataset⟩ hk

/-- The runs after `storeResult` are those of the two results, and those of other submissions. -/
theorem storeResult_runs {config : Config} {now : Timestamp} {job : BenchmarkJob}
    {environmentID : String} {stored : RunnerJobResult}
    (hvalid : validateRunnerResult environmentID stored = true)
    (h : storeResult config now job stored.publicResult stored.privateResult db = .ok db') :
    HasAttempts db'.benchmarkRuns job.id .publicData stored.publicResult.verdict ∧
      (match stored.privateResult with
        | none => ∀ i, db'.benchmarkRuns.get? (job.id, .privateData, i) = none
        | some p => HasAttempts db'.benchmarkRuns job.id .privateData p.verdict) ∧
      ∀ k, k.1 ≠ job.id → db'.benchmarkRuns.get? k = db.benchmarkRuns.get? k := by
  obtain ⟨hpublicValid, hprivateValid⟩ := valid_parts hvalid
  unfold storeResult at h
  obtain ⟨db₁, h₁, h⟩ := Fallible.bind_eq_ok.mp h
  obtain ⟨db₂, h₂, h⟩ := Fallible.bind_eq_ok.mp h
  obtain ⟨db₃, h₃, h⟩ := Fallible.bind_eq_ok.mp h
  obtain ⟨hpublic, hother₁⟩ :=
    insertBenchmarkRuns_attempts hpublicValid (get?_clearRuns _ job.id .publicData) h₁
  have hdb' : db'.benchmarkRuns = db₂.benchmarkRuns := by
    obtain ⟨_, _, _, _, rfl⟩ := updateResult_ok h₃
    obtain rfl := Except.ok.inj h
    split
    · rw [updateRepresentative_eq]
      rfl
    · rfl
  have hcleared (k : String × Dataset × ℕ) (hk : k.1 ≠ job.id) :
      (db.benchmarkRuns.delete fun run => run.submissionId = job.id).get? k =
        db.benchmarkRuns.get? k := by
    rw [Table.get?_delete]
    cases hrun : db.benchmarkRuns.get? k with
    | none => rfl
    | some run =>
      have hid : run.submissionId = k.1 := congrArg Prod.fst (Table.get?_key hrun)
      rw [Option.filter_some, if_pos (by simp [hid, hk])]
  have hfree (i : ℕ) : db₁.benchmarkRuns.get? (job.id, .privateData, i) = none := by
    rw [hother₁ _ fun hk => Dataset.noConfusion hk.2]
    exact get?_clearRuns _ job.id .privateData i
  rw [hdb']
  cases hprivate : stored.privateResult with
  | none =>
    rw [hprivate] at h₂
    obtain rfl := Except.ok.inj h₂
    exact ⟨hpublic, hfree, fun k hk => (hother₁ k fun hk' => hk hk'.1).trans (hcleared k hk)⟩
  | some p =>
    rw [hprivate] at h₂
    obtain ⟨hattempts, hother₂⟩ := insertBenchmarkRuns_attempts (hprivateValid p hprivate) hfree h₂
    have hkept (i : ℕ) : db₂.benchmarkRuns.get? (job.id, .publicData, i) =
        db₁.benchmarkRuns.get? (job.id, .publicData, i) :=
      hother₂ _ fun hk => Dataset.noConfusion hk.2
    refine ⟨hpublic.congr hkept, hattempts, fun k hk => ?_⟩
    rw [hother₂ k fun hk' => hk hk'.1, hother₁ k fun hk' => hk hk'.1]
    exact hcleared k hk

/-- The deletion of submissions takes their runs along. -/
theorem get?_deleteRuns (db : Database) (p : Submission → Bool) (k : String × Dataset × ℕ) :
    (db.deleteSubmissions p).benchmarkRuns.get? k =
      if (db.submissions.get? k.1).any p = true then none else db.benchmarkRuns.get? k := by
  show (db.benchmarkRuns.delete _).get? k = _
  rw [Table.get?_delete]
  cases hrun : db.benchmarkRuns.get? k with
  | none => simp
  | some run =>
    have hid : run.submissionId = k.1 := congrArg Prod.fst (Table.get?_key hrun)
    rw [Option.filter_some, hid]
    by_cases hgone : (db.submissions.get? k.1).any p = true
    · simp [hgone]
    · simp [hgone]

end Inserts

def Action.deletes : Action → Bool
  | .upload _ (.discardRow true) | .recover _ .deleteUploading => true
  | _ => false

def Action.stores : Action → Bool
  | .worker _ (.storeResult _) => true
  | _ => false

/-- What a step does to the runs. -/
inductive RunsStep (config : Config) (s s' : System) : Action → Prop
  | same (a : Action) (hruns : s'.db.benchmarkRuns = s.db.benchmarkRuns)
      (hdelete : a.deletes = false) (hstore : a.stores = false) : RunsStep config s s' a
  | delete (a : Action) (p : Submission → Bool) (hdb : s'.db = s.db.deleteSubmissions p)
      (hstore : a.stores = false) : RunsStep config s s' a
  | store (r : ℕ) (acknowledged : Bool) (job : BenchmarkJob) (result : RunnerJobResult)
      (hpc : s.workerPc r = some (.storing job result))
      (hdb : storeResult config s.now job result.publicResult result.privateResult s.db =
        .ok s'.db) : RunsStep config s s' (.worker r (.storeResult acknowledged))

section Runs
variable {config : Config} {s s' : System} {a : Action}

theorem validateEnvironment_benchmarkRuns {db db' : Database}
    (h : validateEnvironment config db = .ok db') : db'.benchmarkRuns = db.benchmarkRuns := by
  unfold validateEnvironment at h
  split at h
  · split at h
    · contradiction
    · obtain rfl := Except.ok.inj h
      rfl
  · obtain rfl := Except.ok.inj h
    rfl

theorem runs_step (h : step config s a = some s') : RunsStep config s s' a := by
  cases step_effect h with
  | tick | start | stop | crash | loseLock | ensureUser | reserve =>
    exact .same _ rfl rfl rfl
  | upload u action _ hu heffect =>
    generalize u.pc = pc at heffect
    cases heffect with
    | parsed | refused | sourceFailed | sourceStored | runnerUpload | queued | queueFailed
    | failed | discardCleanup => exact .same _ rfl rfl rfl
    | discardRow executed =>
      cases executed with
      | false => exact .same _ rfl rfl rfl
      | true => exact .delete _ _ rfl rfl
  | recover r pc action _ _ _ heffect =>
    cases heffect with
    | deleteUploading => exact .delete _ _ rfl rfl
    | selectRunning | cancelMark | cancelFinish | markInterrupted | selectUploading | cleanup
    | finish => exact .same _ rfl rfl rfl
  | worker r pc action _ hr hpc heffect =>
    cases heffect with
    | validateEnvironment db _ hdb =>
      exact .same _ (validateEnvironment_benchmarkRuns hdb) rfl rfl
    | storeResult acknowledged job result db hdb =>
      exact .store r.id acknowledged job result (System.workerPc_eq_some.mpr ⟨r, hr, hpc⟩) hdb
    | acquireLock | idle | claim | refuse | begin | runFailed | runReturned | markFailure
    | abandonMark | abandonStore | cleanup | leave => exact .same _ rfl rfl rfl
  | admin action _ heffect => cases heffect <;> exact .same _ rfl rfl rfl

/-- Only a stored result changes a verdict. -/
theorem RowStep.verdictOf {k : String} {row row' : Submission}
    (h : RowStep config s k a (some row) (some row'))
    (ha : a.stores = false) :
    row'.id = row.id ∧ ∀ dataset, row'.verdictOf dataset = row.verdictOf dataset := by
  cases h with
  | storeResult => cases ha
  | same | queue | markInterrupted | claim | markFailure | retry | disqualify =>
    exact ⟨rfl, fun dataset => by cases dataset <;> rfl⟩

/-- A row after a step that stores no result has the runs of the row before, or is new. -/
theorem hasRuns_kept (hs : RunsConsistent s) (h : step config s a = some s')
    (ha : a.stores = false) {k : String}
    {row' : Submission} (hrow' : s'.row k = some row')
    (hruns : ∀ dataset i, s'.db.benchmarkRuns.get? (k, dataset, i) =
      s.db.benchmarkRuns.get? (k, dataset, i)) : row'.HasRuns s'.db.benchmarkRuns := by
  have hstep := row_step h k
  rw [hrow'] at hstep
  have hid : row'.id = k := Table.get?_key hrow'
  cases hrow : s.row k with
  | none =>
    rw [hrow] at hstep
    cases hstep with
    | reserve =>
      have hnone (dataset : Dataset) (i : ℕ) :
          s'.db.benchmarkRuns.get? (k, dataset, i) = none := by
        rw [hruns]
        by_contra hrun
        obtain ⟨run, hrun⟩ := Option.ne_none_iff_exists'.mp hrun
        exact hs.owned _ run hrun hrow
      intro dataset
      cases dataset with
      | publicData => exact hnone .publicData
      | privateData => exact hnone .privateData
  | some row =>
    rw [hrow] at hstep
    obtain ⟨hid', hverdict⟩ := hstep.verdictOf ha
    refine (hs.row k row hrow).congr hid' hverdict fun dataset i => ?_
    rw [← hid', hid]
    exact hruns dataset i

theorem runsConsistent_step (hs : RunsConsistent s) (hvalid : HoldsStorable config s)
    (h : step config s a = some s') : RunsConsistent s' := by
  cases runs_step h with
  | same _ hruns hdelete hstore =>
    refine ⟨fun k row' hrow' => hasRuns_kept hs h hstore hrow' fun _ _ => by rw [hruns], ?_⟩
    intro key run hrun hnone
    rw [hruns] at hrun
    have hstep := row_step h key.1
    rw [hnone] at hstep
    obtain ⟨row, hrow⟩ := Option.ne_none_iff_exists'.mp (hs.owned key run hrun)
    rw [hrow] at hstep
    cases hstep with
    | discard | deleteUploading => cases hdelete
  | delete _ p hdb hstore =>
    have hget (k : String) : s'.row k = (s.row k).filter fun row => !p row := by
      rw [System.row, hdb, Database.deleteSubmissions_submissions, Table.get?_delete, System.row]
    constructor
    · intro k row' hrow'
      refine hasRuns_kept hs h hstore hrow' fun dataset i => ?_
      rw [hget] at hrow'
      obtain ⟨hrow, hp⟩ := Option.filter_eq_some_iff.mp hrow'
      rw [hdb, get?_deleteRuns, if_neg]
      change ¬ (s.row k).any p = true
      rw [hrow, Option.any_some]
      simpa using hp
    · intro key run hrun
      rw [hdb, get?_deleteRuns] at hrun
      split at hrun
      · contradiction
      · next hkept =>
        obtain ⟨row, hrow⟩ := Option.ne_none_iff_exists'.mp (hs.owned key run hrun)
        change ¬ (s.row key.1).any p = true at hkept
        rw [hrow, Option.any_some] at hkept
        rw [hget, hrow, Option.filter_some, if_pos (by simpa using hkept)]
        exact Option.some_ne_none row
  | store r acknowledged job result hpc hdb =>
    obtain ⟨hpublic, hprivate, hother⟩ := storeResult_runs (hvalid.checked r job result hpc) hdb
    obtain ⟨publicScore, privateScore, _, _, hrows, _, _⟩ := storeResult_ok hdb
    have hget (k : String) : s'.row k = (s.row k).map fun row =>
        if row.id = job.id then row.complete s.now result.publicResult result.privateResult
          publicScore privateScore else row := by
      rw [System.row, hrows, Table.get?_update, System.row]
      simp only [decide_eq_true_eq]
    obtain ⟨held, hheld, _⟩ := hvalid.row r _ job hpc rfl
    constructor
    · intro k row' hrow'
      rw [hget] at hrow'
      obtain ⟨row, hrow, rfl⟩ := Option.map_eq_some_iff.mp hrow'
      have hid : row.id = k := Table.get?_key hrow
      split
      · next hjob =>
        intro dataset
        cases dataset with
        | publicData =>
          show HasAttempts s'.db.benchmarkRuns row.id .publicData result.publicResult.verdict
          rwa [hjob]
        | privateData =>
          cases hresult : result.privateResult with
          | none =>
            rw [hresult] at hprivate
            show ∀ i, s'.db.benchmarkRuns.get? (row.id, .privateData, i) = none
            rwa [hjob]
          | some p =>
            rw [hresult] at hprivate
            show HasAttempts s'.db.benchmarkRuns row.id .privateData p.verdict
            rwa [hjob]
      · next hjob =>
        exact (hs.row k row hrow).congr rfl (fun _ => rfl) fun dataset i => hother _ hjob
    · intro key run hrun hnone
      rw [hget, Option.map_eq_none_iff] at hnone
      by_cases hjob : key.1 = job.id
      · rw [hjob, hheld] at hnone
        contradiction
      · rw [hother key hjob] at hrun
        exact hs.owned key run hrun hnone

theorem runsConsistent (h : (contestSystem config).Reachable TransitionSystem.Free s) :
    RunsConsistent s := by
  apply h.invariant_of_reachable
  · constructor
    · intro k row hrow
      contradiction
    · intro key run hrun
      contradiction
  · intro s a s' hreach hs _ h
    exact runsConsistent_step hs (holdsStorable hreach) h

/-- In every run the runs are those of the verdicts, and every run agrees with its submission. -/
theorem benchmark_runs_consistent (h : (contestSystem config).Reachable TransitionSystem.Free s) :
    (∀ k row, s.row k = some row → row.HasRuns s.db.benchmarkRuns) ∧
      ∀ run ∈ s.db.benchmarkRuns.rows, ∃ row, s.row run.submissionId = some row ∧
        row.verdictOf run.datasetKind = some run.verdict ∧ 1 ≤ run.attempt ∧ run.attempt ≤ 3 ∧
          (run.durationNS.isSome = true ↔ run.verdict = .accepted) := by
  have hs := runsConsistent h
  refine ⟨hs.row, fun run hrun => ?_⟩
  have hget : s.db.benchmarkRuns.get? (run.submissionId, run.datasetKind, run.attempt) =
      some run := Table.get?_of_mem hrun
  obtain ⟨row, hrow⟩ := Option.ne_none_iff_exists'.mp (hs.owned _ run hget)
  obtain hid : row.id = run.submissionId := Table.get?_key hrow
  refine ⟨row, hrow, ?_⟩
  have hruns := hs.row _ row hrow run.datasetKind
  cases hverdict : row.verdictOf run.datasetKind with
  | none =>
    rw [hverdict, hid] at hruns
    rw [hruns run.attempt] at hget
    cases hget
  | some verdict =>
    rw [hverdict, hid] at hruns
    obtain ⟨n, hn, hattempts⟩ := hruns.attempts
    obtain ⟨hpos, hle⟩ := (hattempts run.attempt).mp (by rw [hget]; rfl)
    obtain ⟨hsame, hduration⟩ := hruns.run run.attempt run hget
    rw [hsame]
    exact ⟨rfl, hpos, by omega, hduration⟩

theorem benchmark_runs_consistent_measured : ∃ (s : System) (row : Submission),
    s.row "a" = some row ∧ row.status = .completed ∧ row.HasRuns s.db.benchmarkRuns := by
  obtain ⟨s, row, hs, hrow, hstatus⟩ := exists_measured
  exact ⟨s, row, hrow, hstatus, (benchmark_runs_consistent hs).1 "a" row hrow⟩

end Runs
end OneBrc.Server
