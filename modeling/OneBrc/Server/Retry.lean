import OneBrc.Server.Worker

/-! A result is stored again when the acknowledgement of its transaction was lost. The second
transaction finds the rows of the first, and leaves the same contents. -/
namespace OneBrc.Server
open Lib

def Submission.withoutCompletedAt (row : Submission) : Submission :=
  { row with completedAt := none }

/-- The same contents but for the times of completion. -/
structure SameResult (db db' : Database) : Prop where
  submissions : ∀ k, (db'.submissions.get? k).map Submission.withoutCompletedAt =
    (db.submissions.get? k).map Submission.withoutCompletedAt
  submissionSources : db'.submissionSources = db.submissionSources
  benchmarkRuns : db'.benchmarkRuns = db.benchmarkRuns
  users : db'.users = db.users
  contestState : db'.contestState = db.contestState

section Runs
variable {db db' : Database} {id : String} {dataset : Dataset} {result : BenchmarkResult}

/-- An insertion depends on the runs and on the existence of the submission only. -/
theorem insertBenchmarkRun_congr (run : BenchmarkRun)
    (hruns : db'.benchmarkRuns = db.benchmarkRuns)
    (hrow : (db'.submissions.get? run.submissionId).isNone =
      (db.submissions.get? run.submissionId).isNone) :
    db'.insertBenchmarkRun run = (db.insertBenchmarkRun run).map fun d =>
      { db' with benchmarkRuns := d.benchmarkRuns } := by
  unfold Database.insertBenchmarkRun
  rw [hruns, hrow]
  split
  · rfl
  · split
    · rfl
    · split <;> rfl

theorem insertBenchmarkRuns_congr (hruns : db'.benchmarkRuns = db.benchmarkRuns)
    (hrow : (db'.submissions.get? id).isNone = (db.submissions.get? id).isNone) :
    insertBenchmarkRuns id dataset result db' =
      (insertBenchmarkRuns id dataset result db).map fun d =>
        { db' with benchmarkRuns := d.benchmarkRuns } := by
  unfold insertBenchmarkRuns
  generalize (result.durationsNS.getD [""]).zipIdx 1 = attempts
  induction attempts generalizing db db' with
  | nil =>
    show Except.ok db' = .ok { db' with benchmarkRuns := db.benchmarkRuns }
    rw [← hruns]
  | cons attempt attempts ih =>
    obtain ⟨duration, attempt⟩ := attempt
    rw [List.foldlM_cons, List.foldlM_cons]
    dsimp only
    cases benchmarkDuration duration with
    | error e => rfl
    | ok value =>
      have hcongr :=
        insertBenchmarkRun_congr ⟨id, dataset, attempt, result.verdict, value⟩ hruns hrow
      simp only [bind, Except.bind, hcongr]
      cases hinsert : db.insertBenchmarkRun ⟨id, dataset, attempt, result.verdict, value⟩ with
      | error e => rfl
      | ok d =>
        obtain ⟨-, -, runs, -, rfl⟩ := Database.insertBenchmarkRun_ok hinsert
        exact ih rfl hrow

theorem insertPrivateRuns_congr (privateResult : Option BenchmarkResult)
    (hruns : db'.benchmarkRuns = db.benchmarkRuns)
    (hrow : (db'.submissions.get? id).isNone = (db.submissions.get? id).isNone) :
    insertPrivateRuns id privateResult db' = (insertPrivateRuns id privateResult db).map fun d =>
      { db' with benchmarkRuns := d.benchmarkRuns } := by
  cases privateResult with
  | none =>
    show Except.ok db' = .ok { db' with benchmarkRuns := db.benchmarkRuns }
    rw [← hruns]
  | some result => exact insertBenchmarkRuns_congr hruns hrow

/-- The runs of a submission are inserted behind the others, so its deletion takes them back. -/
theorem delete_insertBenchmarkRuns (h : insertBenchmarkRuns id dataset result db = .ok db') :
    db'.benchmarkRuns.delete (fun run => run.submissionId = id) =
      db.benchmarkRuns.delete fun run => run.submissionId = id := by
  unfold insertBenchmarkRuns at h
  refine Fallible.foldlM_invariant (I := fun d : Database => d.benchmarkRuns.delete
    (fun run => run.submissionId = id) = db.benchmarkRuns.delete fun run => run.submissionId = id)
    ?_ rfl h
  rintro d ⟨duration, attempt⟩ d' _ hd hstep
  obtain ⟨value, _, hinsert⟩ := Fallible.bind_eq_ok.mp hstep
  obtain ⟨_, _, runs, hruns, rfl⟩ := Database.insertBenchmarkRun_ok hinsert
  obtain ⟨_, rfl⟩ := Table.insert?_eq_some.mp hruns
  rw [← hd]
  simp [Table.delete, Table.insert]

theorem delete_insertPrivateRuns {privateResult : Option BenchmarkResult}
    (h : insertPrivateRuns id privateResult db = .ok db') :
    db'.benchmarkRuns.delete (fun run => run.submissionId = id) =
      db.benchmarkRuns.delete fun run => run.submissionId = id := by
  cases privateResult with
  | none =>
    obtain rfl := Except.ok.inj h
    rfl
  | some result => exact delete_insertBenchmarkRuns h

end Runs

section Representative
variable {config : Config} {job : BenchmarkJob}

/-- The columns that the order of submissions depends on. -/
def Submission.precedence (row : Submission) : String × Timestamp := (row.id, row.uploadStartedAt)

theorem before_congr {a b a' b' : Submission} (ha : a'.precedence = a.precedence)
    (hb : b'.precedence = b.precedence) :
    a'.before b' ↔ a.before b := by
  obtain ⟨haid, hatime⟩ := Prod.mk.inj ha
  obtain ⟨hbid, hbtime⟩ := Prod.mk.inj hb
  rw [Submission.before, Submission.before, haid, hatime, hbid, hbtime]

theorem not_before_self (a : Submission) : ¬ a.before a := by
  rintro (h | ⟨-, h⟩)
  · exact Nat.lt_irrefl _ h
  · exact String.lt_irrefl _ h

theorem replacesRepresentative_congr
    {submissions submissions' : Table String Submission Submission.id}
    {candidate candidate' : Submission} (user : User)
    (hcandidate : candidate'.precedence = candidate.precedence)
    (h : ∀ k, (submissions'.get? k).map Submission.precedence =
      (submissions.get? k).map Submission.precedence) :
    replacesRepresentative config submissions' candidate' user =
      replacesRepresentative config submissions candidate user := by
  have htime : candidate'.uploadStartedAt = candidate.uploadStartedAt := (Prod.mk.inj hcandidate).2
  unfold replacesRepresentative
  rw [htime]
  congr 1
  cases user.representativeSubmissionId with
  | none => rfl
  | some k =>
    have hk := h k
    simp only [Option.bind_some]
    cases hrow' : submissions'.get? k with
    | none =>
      cases hrow : submissions.get? k with
      | none => rfl
      | some current =>
        rw [hrow', hrow] at hk
        cases hk
    | some current' =>
      cases hrow : submissions.get? k with
      | none =>
        rw [hrow', hrow] at hk
        cases hk
      | some current =>
        rw [hrow', hrow] at hk
        exact decide_eq_decide.mpr (before_congr (Option.some.inj hk) hcandidate)

/-- A pointer that has been set to the candidate is not set again. -/
theorem updateRepresentative_again {db db' : Database}
    (h : ∀ k, (db'.submissions.get? k).map Submission.precedence =
      (db.submissions.get? k).map Submission.precedence)
    (husers : db'.users = (updateRepresentative config job db).users) :
    (updateRepresentative config job db').users = db'.users := by
  have hjob := h job.id
  cases hc' : db'.submissions.get? job.id with
  | none =>
    unfold updateRepresentative
    rw [hc']
  | some candidate' =>
    cases hc : db.submissions.get? job.id with
    | none =>
      rw [hc', hc] at hjob
      cases hjob
    | some candidate =>
      rw [hc', hc] at hjob
      have horder : candidate'.precedence = candidate.precedence := Option.some.inj hjob
      have hid : candidate.id = job.id := Table.get?_key hc
      have hid' : candidate'.id = job.id := Table.get?_key hc'
      apply Table.ext_rows
      unfold updateRepresentative at husers ⊢
      rw [hc] at husers
      rw [hc', husers]
      simp only [Table.update, List.map_map]
      apply List.map_congr_left
      intro user _
      have hsame : replacesRepresentative config db'.submissions candidate' user =
          replacesRepresentative config db.submissions candidate user :=
        replacesRepresentative_congr user horder h
      by_cases hset : (decide (user.username = job.username) &&
          replacesRepresentative config db.submissions candidate user) = true
      · have hself : replacesRepresentative config db'.submissions candidate'
            (user.represent candidate.id) = false := by
          simp only [replacesRepresentative, User.represent, Option.bind_some, hid, hc',
            decide_eq_false (not_before_self candidate'), Bool.and_false]
        simp only [Function.comp_apply, if_pos hset, hself, Bool.and_false,
          Bool.false_eq_true, if_false]
      · simp only [Function.comp_apply, if_neg hset, hsame]

end Representative
section Store
variable {config : Config} {now now' : Timestamp} {job : BenchmarkJob}
  {publicResult : BenchmarkResult} {privateResult : Option BenchmarkResult} {db db₁ : Database}

theorem updateRepresentative_eq (db : Database) : updateRepresentative config job db =
    { db with users := (updateRepresentative config job db).users } := by
  unfold updateRepresentative
  split <;> rfl

/-- The pointer update of an accepted result only. -/
def representIfAccepted (config : Config) (job : BenchmarkJob) (publicResult : BenchmarkResult)
    (db : Database) : Database :=
  if publicResult.verdict = .accepted then updateRepresentative config job db else db

theorem representIfAccepted_eq (db : Database) : representIfAccepted config job publicResult db =
    { db with users := (representIfAccepted config job publicResult db).users } := by
  unfold representIfAccepted
  split
  · exact updateRepresentative_eq db
  · rfl

@[simp] theorem representIfAccepted_submissions (db : Database) :
    (representIfAccepted config job publicResult db).submissions = db.submissions := by
  rw [representIfAccepted_eq]

/-- DELETE FROM benchmark_runs. -/
def Database.clearRuns (id : String) (db : Database) : Database :=
  { db with benchmarkRuns := db.benchmarkRuns.delete fun run => run.submissionId = id }

/-- What a successful transaction has done, statement by statement. -/
theorem storeResult_statements
    (h : storeResult config now job publicResult privateResult db = .ok db₁) :
    ∃ runs₁ runs₂ updated,
      insertBenchmarkRuns job.id .publicData publicResult (db.clearRuns job.id) =
        .ok { db with benchmarkRuns := runs₁ } ∧
      insertPrivateRuns job.id privateResult { db with benchmarkRuns := runs₁ } =
        .ok { db with benchmarkRuns := runs₂ } ∧
      updateResult now job.id publicResult privateResult { db with benchmarkRuns := runs₂ } =
        .ok updated ∧
      db₁ = representIfAccepted config job publicResult updated := by
  unfold storeResult at h
  obtain ⟨_, h₁, h⟩ := Fallible.bind_eq_ok.mp h
  obtain ⟨runs₁, rfl⟩ := insertBenchmarkRuns_ok h₁
  obtain ⟨_, h₂, h⟩ := Fallible.bind_eq_ok.mp h
  obtain ⟨runs₂, rfl⟩ := insertPrivateRuns_ok h₂
  obtain ⟨updated, h₃, h⟩ := Fallible.bind_eq_ok.mp h
  exact ⟨runs₁, runs₂, updated, h₁, h₂, h₃, (Except.ok.inj h).symm⟩

theorem representIfAccepted_again (db : Database) {db' : Database}
    (h : ∀ k, (db'.submissions.get? k).map Submission.precedence =
      (db.submissions.get? k).map Submission.precedence)
    (husers : db'.users = (representIfAccepted config job publicResult db).users) :
    (representIfAccepted config job publicResult db').users = db'.users := by
  unfold representIfAccepted at husers ⊢
  split at husers
  · next haccepted =>
    rw [if_pos haccepted]
    exact updateRepresentative_again h husers
  · next haccepted => rw [if_neg haccepted]

/-- The values of the columns fit again. -/
theorem updateResult_again {id : String} {db' : Database} (now' : Timestamp) (db'' : Database)
    (h : updateResult now id publicResult privateResult db = .ok db') :
    ∃ publicScore privateScore,
      db' = db.updateSubmissions (·.id = id)
        (Submission.complete now publicResult privateResult publicScore privateScore)
        (Submission.complete_id _ _ _ _ _) ∧
      updateResult now' id publicResult privateResult db'' = .ok (db''.updateSubmissions (·.id = id)
        (Submission.complete now' publicResult privateResult publicScore privateScore)
        (Submission.complete_id _ _ _ _ _)) := by
  unfold updateResult at h
  obtain ⟨publicScore, hpublic, h⟩ := Fallible.bind_eq_ok.mp h
  obtain ⟨_, htext, h⟩ := Fallible.bind_eq_ok.mp h
  obtain ⟨privateScore, hprivate, h⟩ := Fallible.bind_eq_ok.mp h
  refine ⟨publicScore, privateScore, (Except.ok.inj h).symm, ?_⟩
  simp only [updateResult, hpublic, htext, hprivate, bind, Except.bind, pure, Except.pure]

theorem storeResult_submissionSources
    (h : storeResult config now job publicResult privateResult db = .ok db₁) :
    db₁.submissionSources = db.submissionSources := by
  obtain ⟨_, _, updated, _, _, hupdate, rfl⟩ := storeResult_statements h
  obtain ⟨_, _, _, _, rfl⟩ := updateResult_ok hupdate
  rw [representIfAccepted_eq]
  rfl

/-- The row of `k` after the UPDATE of a result. -/
theorem get?_updateResult {id k : String} {publicScore privateScore : Option ℕ} (db : Database) :
    (db.updateSubmissions (·.id = id)
      (Submission.complete now publicResult privateResult publicScore privateScore)
      (Submission.complete_id _ _ _ _ _)).submissions.get? k =
      (db.submissions.get? k).map fun row => if decide (row.id = id) then
        row.complete now publicResult privateResult publicScore privateScore else row :=
  Table.get?_update _ _ _ (Submission.complete_id _ _ _ _ _) k

/-- A second transaction with the same arguments succeeds and changes nothing but times. -/
theorem storeResult_again (now' : Timestamp)
    (h : storeResult config now job publicResult privateResult db = .ok db₁) :
    ∃ db₂, storeResult config now' job publicResult privateResult db₁ = .ok db₂ ∧
      SameResult db₁ db₂ := by
  obtain ⟨runs₁, runs₂, updated, hpublic, hprivate, hupdate, hdb₁⟩ := storeResult_statements h
  obtain ⟨publicScore, privateScore, hupdated, hupdate'⟩ := updateResult_again now' db₁ hupdate
  have hrows (k : String) := congrArg (fun d : Database => d.submissions.get? k) hupdated
  simp only [get?_updateResult] at hrows
  have hrows₁ : db₁.submissions = updated.submissions := by
    rw [hdb₁, representIfAccepted_submissions]
  have hruns₁ : db₁.benchmarkRuns = runs₂ := by
    rw [hdb₁, representIfAccepted_eq, hupdated]
    rfl
  have hcleared : (db₁.clearRuns job.id).benchmarkRuns = (db.clearRuns job.id).benchmarkRuns := by
    have hback := (delete_insertPrivateRuns hprivate).trans (delete_insertBenchmarkRuns hpublic)
    rw [Database.clearRuns, hruns₁]
    refine hback.trans (Table.ext_rows ?_)
    simp [Database.clearRuns, Table.delete, List.filter_filter]
  have hexists : (db₁.submissions.get? job.id).isNone = (db.submissions.get? job.id).isNone := by
    rw [hrows₁, hrows, Option.isNone_map]
  have hpublic' : insertBenchmarkRuns job.id .publicData publicResult (db₁.clearRuns job.id) =
      .ok { db₁ with benchmarkRuns := runs₁ } := by
    rw [insertBenchmarkRuns_congr hcleared hexists, hpublic]
    rfl
  have hprivate' : insertPrivateRuns job.id privateResult { db₁ with benchmarkRuns := runs₁ } =
      .ok db₁ := by
    have hsame := insertPrivateRuns_congr privateResult
      (show ({ db₁ with benchmarkRuns := runs₁ } : Database).benchmarkRuns =
        ({ db with benchmarkRuns := runs₁ } : Database).benchmarkRuns from rfl) hexists
    rw [hsame, hprivate, ← hruns₁]
    rfl
  generalize hdb' : db₁.updateSubmissions (·.id = job.id)
    (Submission.complete now' publicResult privateResult publicScore privateScore)
    (Submission.complete_id _ _ _ _ _) = db' at hupdate'
  have hrows' (k : String) := congrArg (fun d : Database => d.submissions.get? k) hdb'.symm
  simp only [get?_updateResult, hrows₁, hrows] at hrows'
  have hkept : db' = { db₁ with submissions := db'.submissions } := by
    rw [← hdb']
    rfl
  have hrun : storeResult config now' job publicResult privateResult db₁ =
      .ok (representIfAccepted config job publicResult db') := by
    change (do
      let withPublic ← insertBenchmarkRuns job.id .publicData publicResult (db₁.clearRuns job.id)
      let withPrivate ← insertPrivateRuns job.id privateResult withPublic
      let updated ← updateResult now' job.id publicResult privateResult withPrivate
      pure (representIfAccepted config job publicResult updated)) = _
    simp only [hpublic', hprivate', hupdate', bind, Except.bind, pure, Except.pure]
  have husers : (representIfAccepted config job publicResult db').users = db₁.users := by
    have hsame : db'.users = db₁.users := by rw [hkept]
    rw [← hsame]
    apply representIfAccepted_again updated
    · intro k
      rw [hrows', hrows]
      cases db.submissions.get? k with
      | none => rfl
      | some row =>
        by_cases hid : row.id = job.id
        · simp [hid, Submission.precedence, Submission.complete]
        · simp [hid]
    · rw [hsame, hdb₁]
  rw [representIfAccepted_eq, husers] at hrun
  refine ⟨_, hrun, ?_, by rw [hkept], by rw [hkept], rfl, by rw [hkept]⟩
  intro k
  show (db'.submissions.get? k).map _ = _
  rw [hrows₁, hrows', hrows]
  cases db.submissions.get? k with
  | none => rfl
  | some row =>
    by_cases hid : row.id = job.id
    · simp [hid, Submission.withoutCompletedAt, Submission.complete]
    · simp [hid]

end Store

/-- A running submission of a user. -/
def runningSample : Database :=
  { Database.initial with
    users := Table.empty.insertIgnore ⟨"alice", none⟩
    submissions := Table.empty.put { Submission.reserved "a" "alice" 7 with status := .running } }

theorem storeResult_again_sample : ∃ db₁ db₂,
    storeResult ⟨"1brc", 0, 100, [], "env"⟩ 8 ⟨"a", "alice", some .ruby, some .ruby⟩
      ⟨.accepted, some ["5", "6", "7"], some "6", none⟩
      (some ⟨.accepted, some ["9"], some "9", none⟩) runningSample = .ok db₁ ∧
    storeResult ⟨"1brc", 0, 100, [], "env"⟩ 9 ⟨"a", "alice", some .ruby, some .ruby⟩
      ⟨.accepted, some ["5", "6", "7"], some "6", none⟩
      (some ⟨.accepted, some ["9"], some "9", none⟩) db₁ = .ok db₂ ∧ SameResult db₁ db₂ := by
  have hok : (storeResult ⟨"1brc", 0, 100, [], "env"⟩ 8 ⟨"a", "alice", some .ruby, some .ruby⟩
      ⟨.accepted, some ["5", "6", "7"], some "6", none⟩
      (some ⟨.accepted, some ["9"], some "9", none⟩) runningSample).isOk = true := by decide
  generalize hrun : storeResult _ _ _ _ _ runningSample = run at hok
  cases run with
  | error e => cases hok
  | ok db₁ =>
    obtain ⟨db₂, hagain, hsame⟩ := storeResult_again 9 hrun
    exact ⟨db₁, db₂, rfl, hagain, hsame⟩

end OneBrc.Server
