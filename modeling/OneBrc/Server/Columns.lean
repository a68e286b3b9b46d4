import OneBrc.Server.RunnerResult
import OneBrc.Server.Worker

/-! Which results of the runner `storeResult` can write into the columns of the schema. -/
namespace OneBrc.Server
open Lib

/-- The decimal texts of a result that are bound to `BIGINT UNSIGNED` columns. -/
def storedNumbers (result : BenchmarkResult) : List String :=
  result.durationsNS.getD [] ++ result.medianNS.toList

def NumbersFit (result : BenchmarkResult) : Prop :=
  ∀ text ∈ storedNumbers result, Digits.value text.toList < 2 ^ 64

/-- Every number of a result is below 2^64, and its public error has at most 65535 bytes. -/
structure FitsColumns (result : RunnerJobResult) : Prop where
  publicNumbers : NumbersFit result.publicResult
  privateNumbers : ∀ privateResult ∈ result.privateResult, NumbersFit privateResult
  publicError : ∀ error ∈ result.publicResult.error, error.utf8ByteSize ≤ 65535

section Columns
variable {text : String}

theorem ne_empty_of_digits (h : digits text = true) : text ≠ "" := by
  rintro rfl
  simp [digits] at h

theorem bigintUnsigned_iff (h : digits text = true) :
    (∃ n, bigintUnsigned text = .ok n) ↔ Digits.value text.toList < 2 ^ 64 := by
  simp only [digits, Bool.and_eq_true, Bool.not_eq_true', List.isEmpty_eq_false_iff] at h
  unfold bigintUnsigned
  constructor
  · rintro ⟨n, hn⟩
    split at hn
    · next hfits => exact hfits.2.2
    · contradiction
  · intro hfits
    exact ⟨_, if_pos ⟨h.1, h.2, hfits⟩⟩

theorem benchmarkDuration_iff (h : digits text = true) :
    (∃ value, benchmarkDuration text = .ok value) ↔ Digits.value text.toList < 2 ^ 64 := by
  rw [← bigintUnsigned_iff h, benchmarkDuration, if_neg (ne_empty_of_digits h)]
  cases bigintUnsigned text with
  | error e => simp [Except.map]
  | ok n => simp [Except.map]

theorem nullableBigint_iff {value : Option String} (h : ∀ text ∈ value, digits text = true) :
    (∃ n, nullableBigint value = .ok n) ↔
      ∀ text ∈ value, Digits.value text.toList < 2 ^ 64 := by
  cases value with
  | none => simp [nullableBigint]
  | some text =>
    have htext := h text rfl
    simp only [nullableBigint, Option.mem_some_iff, forall_eq', ← bigintUnsigned_iff htext]
    cases bigintUnsigned text with
    | error e => simp [Except.map]
    | ok n => simp [Except.map]

theorem nullableText_iff {value : Option String} :
    (∃ v, nullableText value = .ok v) ↔ ∀ text ∈ value, text.utf8ByteSize ≤ 65535 := by
  cases value with
  | none => simp [nullableText]
  | some text =>
    simp only [nullableText, Option.mem_some_iff, forall_eq']
    split
    · next h => simp [h]
    · next h => simp [h]

theorem digits_of_valid {result : BenchmarkResult} (h : validateBenchmarkResult result = true) :
    ∀ text ∈ storedNumbers result, digits text = true := by
  unfold validateBenchmarkResult at h
  unfold storedNumbers
  split at h
  · obtain ⟨hmedian, hdurations⟩ := Bool.and_eq_true_iff.mp h
    split at hdurations
    · contradiction
    · next durations hd =>
      obtain ⟨_, hall⟩ := Bool.and_eq_true_iff.mp hdurations
      intro text htext
      rw [hd, Option.getD_some, List.mem_append] at htext
      rcases htext with htext | htext
      · exact List.all_eq_true.mp hall text htext
      · rw [Option.mem_toList] at htext
        rw [htext] at hmedian
        exact hmedian
  · obtain ⟨hmedian, hdurations⟩ := Bool.and_eq_true_iff.mp h
    rw [Option.isNone_iff_eq_none] at hmedian hdurations
    simp [hmedian, hdurations]

theorem durations_iff {result : BenchmarkResult} (h : validateBenchmarkResult result = true) :
    (∀ duration ∈ result.durationsNS.getD [""], ∃ value, benchmarkDuration duration = .ok value) ↔
      ∀ text ∈ result.durationsNS.getD [], Digits.value text.toList < 2 ^ 64 := by
  have hdigits := digits_of_valid h
  unfold storedNumbers at hdigits
  cases hd : result.durationsNS with
  | none => simp [benchmarkDuration]
  | some durations =>
    rw [hd, Option.getD_some] at hdigits
    rw [Option.getD_some, Option.getD_some]
    refine forall₂_congr fun text htext => benchmarkDuration_iff (hdigits text ?_)
    exact List.mem_append_left _ htext

theorem numbersFit_iff {result : BenchmarkResult} (h : validateBenchmarkResult result = true) :
    NumbersFit result ↔
      (∀ duration ∈ result.durationsNS.getD [""],
        ∃ value, benchmarkDuration duration = .ok value) ∧
      ∃ score, nullableBigint result.medianNS = .ok score := by
  have hmedian : ∀ text ∈ result.medianNS, digits text = true := by
    intro text htext
    exact digits_of_valid h text (List.mem_append_right _ (Option.mem_toList.mpr htext))
  rw [durations_iff h, nullableBigint_iff hmedian]
  simp only [NumbersFit, storedNumbers, List.mem_append, Option.mem_toList, or_imp, forall_and,
    Option.mem_def]

theorem durations_length {result : BenchmarkResult} (h : validateBenchmarkResult result = true) :
    (result.durationsNS.getD [""]).length ≤ 3 := by
  unfold validateBenchmarkResult at h
  split at h
  · obtain ⟨_, hdurations⟩ := Bool.and_eq_true_iff.mp h
    split at hdurations
    · contradiction
    · next durations hd =>
      obtain ⟨hlength, _⟩ := Bool.and_eq_true_iff.mp hdurations
      simp only [Bool.or_eq_true, decide_eq_true_eq] at hlength
      rw [hd, Option.getD_some]
      omega
  · obtain ⟨_, hdurations⟩ := Bool.and_eq_true_iff.mp h
    rw [Option.isNone_iff_eq_none.mp hdurations]
    decide

end Columns

section Transaction
variable {db db' : Database} {id : String} {dataset : Dataset}

theorem insertBenchmarkRun_free (run : BenchmarkRun)
    (hrow : db.submissions.get? run.submissionId ≠ none) (hattempt : run.attempt ≤ 255)
    (hfree : db.benchmarkRuns.get? run.key = none) :
    ∃ runs, db.insertBenchmarkRun run = .ok { db with benchmarkRuns := runs } ∧
      ∀ k, runs.get? k = if run.key = k then some run else db.benchmarkRuns.get? k := by
  obtain ⟨row, hrow⟩ := Option.ne_none_iff_exists'.mp hrow
  have hinsert : db.benchmarkRuns.insert? run = some (db.benchmarkRuns.insert run hfree) :=
    dif_pos hfree
  refine ⟨_, ?_, Table.get?_insert? hinsert⟩
  simp [Database.insertBenchmarkRun, hrow, hattempt, hinsert]

/-- The loop of `insertBenchmarkRuns` on free keys. -/
theorem insertRuns_ok {verdict : Verdict} {durations : List String} {attempt : ℕ}
    (hrow : db.submissions.get? id ≠ none)
    (hfree : ∀ n, attempt ≤ n → db.benchmarkRuns.get? (id, dataset, n) = none)
    (hlength : attempt + durations.length ≤ 256)
    (hvalues : ∀ duration ∈ durations, ∃ value, benchmarkDuration duration = .ok value) :
    ∃ runs, (durations.zipIdx attempt).foldlM (fun db (duration, attempt) => do
        let value ← benchmarkDuration duration
        db.insertBenchmarkRun ⟨id, dataset, attempt, verdict, value⟩) db =
          Except.ok { db with benchmarkRuns := runs } ∧
      ∀ k, k.2.1 ≠ dataset → runs.get? k = db.benchmarkRuns.get? k := by
  induction durations generalizing db attempt with
  | nil => exact ⟨db.benchmarkRuns, rfl, fun _ _ => rfl⟩
  | cons duration durations ih =>
    obtain ⟨value, hvalue⟩ := hvalues duration List.mem_cons_self
    rw [List.length_cons] at hlength
    obtain ⟨runs₁, hinsert, hget⟩ := insertBenchmarkRun_free
      ⟨id, dataset, attempt, verdict, value⟩ hrow (show attempt ≤ 255 by omega)
      (hfree attempt le_rfl)
    have hnext (n : ℕ) (hn : attempt + 1 ≤ n) : runs₁.get? (id, dataset, n) = none := by
      have hne : BenchmarkRun.key ⟨id, dataset, attempt, verdict, value⟩ ≠ (id, dataset, n) := by
        intro he
        have hattempt : attempt = n := congrArg (fun k => k.2.2) he
        omega
      rw [hget, if_neg hne]
      exact hfree n (by omega)
    obtain ⟨runs, hruns, hother⟩ := ih
      (show ({ db with benchmarkRuns := runs₁ } : Database).submissions.get? id ≠ none from hrow)
      hnext (by omega) fun d hd => hvalues d (List.mem_cons_of_mem _ hd)
    refine ⟨runs, ?_, ?_⟩
    · rw [List.zipIdx_cons, List.foldlM_cons]
      simp only [hvalue, bind, Except.bind, hinsert]
      exact hruns
    · intro k hk
      have hne : BenchmarkRun.key ⟨id, dataset, attempt, verdict, value⟩ ≠ k := by
        rintro rfl
        exact hk rfl
      rw [hother k hk, hget, if_neg hne]

/-- On free keys the inserts succeed when every duration fits. -/
theorem insertBenchmarkRuns_free (db : Database) {result : BenchmarkResult}
    (hvalid : validateBenchmarkResult result = true) (hrow : db.submissions.get? id ≠ none)
    (hfree : ∀ n, db.benchmarkRuns.get? (id, dataset, n) = none)
    (hvalues : ∀ duration ∈ result.durationsNS.getD [""],
      ∃ value, benchmarkDuration duration = .ok value) :
    ∃ runs, insertBenchmarkRuns id dataset result db = .ok { db with benchmarkRuns := runs } ∧
      ∀ k, k.2.1 ≠ dataset → runs.get? k = db.benchmarkRuns.get? k :=
  insertRuns_ok hrow (fun n _ => hfree n)
    ((Nat.add_le_add_left (durations_length hvalid) 1).trans (by decide)) hvalues

theorem insertBenchmarkRuns_values {result : BenchmarkResult}
    (h : insertBenchmarkRuns id dataset result db = .ok db') :
    ∀ duration ∈ result.durationsNS.getD [""],
      ∃ value, benchmarkDuration duration = .ok value := by
  intro duration hduration
  obtain ⟨i, hi, rfl⟩ := List.getElem_of_mem hduration
  obtain ⟨d, e, hpass⟩ := Fallible.foldlM_pass h (_, 1 + i)
    (List.mk_add_mem_zipIdx_iff_getElem?.mpr (List.getElem?_eq_getElem hi))
  obtain ⟨value, hvalue, _⟩ := Fallible.bind_eq_ok.mp hpass
  exact ⟨value, hvalue⟩

theorem updateResult_iff (now : Timestamp) (id : String) (db : Database)
    {publicResult : BenchmarkResult} {privateResult : Option BenchmarkResult} :
    (∃ db', updateResult now id publicResult privateResult db = .ok db') ↔
      (∃ score, nullableBigint publicResult.medianNS = .ok score) ∧
      (∃ error, nullableText publicResult.error = .ok error) ∧
      ∃ score, nullableBigint (privateResult.bind (·.medianNS)) = .ok score := by
  simp only [updateResult, Fallible.exists_bind_eq_ok]
  constructor
  · rintro ⟨publicScore, hpublic, error, herror, privateScore, hprivate, _⟩
    exact ⟨⟨publicScore, hpublic⟩, ⟨error, herror⟩, privateScore, hprivate⟩
  · rintro ⟨⟨publicScore, hpublic⟩, ⟨error, herror⟩, privateScore, hprivate⟩
    exact ⟨publicScore, hpublic, error, herror, privateScore, hprivate, _, rfl⟩

/-- The DELETE at the start frees the keys of the submission. -/
theorem get?_clearRuns (runs : Table (String × Dataset × ℕ) BenchmarkRun BenchmarkRun.key)
    (id : String) (dataset : Dataset) (n : ℕ) :
    (runs.delete fun run => run.submissionId = id).get? (id, dataset, n) = none := by
  rw [Table.get?_delete]
  cases hrun : runs.get? (id, dataset, n) with
  | none => rfl
  | some run =>
    have hkey : run.key = (id, dataset, n) := Table.get?_key hrun
    have hid : run.submissionId = id := congrArg Prod.fst hkey
    simp [hid]

theorem insertPrivateRuns_free (db : Database) {privateResult : Option BenchmarkResult}
    (hvalid : ∀ p ∈ privateResult, validateBenchmarkResult p = true)
    (hfits : ∀ p ∈ privateResult, NumbersFit p) (hrow : db.submissions.get? id ≠ none)
    (hfree : ∀ n, db.benchmarkRuns.get? (id, .privateData, n) = none) :
    (∃ runs, insertPrivateRuns id privateResult db = .ok { db with benchmarkRuns := runs }) ∧
      ∃ score, nullableBigint (privateResult.bind (·.medianNS)) = .ok score := by
  cases privateResult with
  | none => exact ⟨⟨db.benchmarkRuns, rfl⟩, none, rfl⟩
  | some p =>
    obtain ⟨hvalues, hscore⟩ := (numbersFit_iff (hvalid p rfl)).mp (hfits p rfl)
    obtain ⟨runs, hruns, _⟩ := insertBenchmarkRuns_free db (hvalid p rfl) hrow hfree hvalues
    exact ⟨⟨runs, hruns⟩, hscore⟩

theorem insertPrivateRuns_fits {privateResult : Option BenchmarkResult}
    (hvalid : ∀ p ∈ privateResult, validateBenchmarkResult p = true)
    (h : insertPrivateRuns id privateResult db = .ok db')
    (hscore : ∃ score, nullableBigint (privateResult.bind (·.medianNS)) = .ok score) :
    ∀ p ∈ privateResult, NumbersFit p := by
  rintro p ⟨⟩
  exact (numbersFit_iff (hvalid p rfl)).mpr ⟨insertBenchmarkRuns_values h, hscore⟩

theorem valid_parts {environmentID : String} {result : RunnerJobResult}
    (h : validateRunnerResult environmentID result = true) :
    validateBenchmarkResult result.publicResult = true ∧
      ∀ p ∈ result.privateResult, validateBenchmarkResult p = true := by
  simp only [validateRunnerResult, Bool.and_eq_true] at h
  refine ⟨h.1.2, fun p hp => ?_⟩
  have hprivate := h.2
  rw [Option.mem_def.mp hp] at hprivate
  exact hprivate

/-- The transaction violates no constraint exactly when the values fit their columns. -/
theorem storeResult_iff (config : Config) (now : Timestamp) {job : BenchmarkJob}
    {environmentID : String} {result : RunnerJobResult}
    (hvalid : validateRunnerResult environmentID result = true)
    (hrow : db.submissions.get? job.id ≠ none) :
    (∃ db', storeResult config now job result.publicResult result.privateResult db = .ok db') ↔
      FitsColumns result := by
  obtain ⟨hpublicValid, hprivateValid⟩ := valid_parts hvalid
  simp only [storeResult, Fallible.exists_bind_eq_ok]
  constructor
  · rintro ⟨db₁, h₁, db₂, h₂, db₃, h₃, _⟩
    obtain ⟨hpublicScore, herror, hprivateScore⟩ := (updateResult_iff now job.id db₂).mp ⟨db₃, h₃⟩
    exact ⟨(numbersFit_iff hpublicValid).mpr ⟨insertBenchmarkRuns_values h₁, hpublicScore⟩,
      insertPrivateRuns_fits hprivateValid h₂ hprivateScore, nullableText_iff.mp herror⟩
  · intro hfits
    obtain ⟨hvalues, hpublicScore⟩ := (numbersFit_iff hpublicValid).mp hfits.publicNumbers
    obtain ⟨runs₁, h₁, hother⟩ := insertBenchmarkRuns_free { db with
      benchmarkRuns := db.benchmarkRuns.delete fun run => run.submissionId = job.id }
      hpublicValid hrow (get?_clearRuns _ job.id .publicData) hvalues
    have hfree (n : ℕ) : runs₁.get? (job.id, .privateData, n) = none :=
      (hother _ (show Dataset.privateData ≠ .publicData by decide)).trans
        (get?_clearRuns _ job.id .privateData n)
    obtain ⟨⟨runs₂, h₂⟩, hprivateScore⟩ := insertPrivateRuns_free
      { db with benchmarkRuns := runs₁ } hprivateValid hfits.privateNumbers hrow hfree
    obtain ⟨db₃, h₃⟩ := (updateResult_iff now job.id { db with benchmarkRuns := runs₂ }).mpr
        ⟨hpublicScore, nullableText_iff.mpr hfits.publicError, hprivateScore⟩
    exact ⟨_, h₁, _, h₂, db₃, h₃, _, rfl⟩

end Transaction

end OneBrc.Server
