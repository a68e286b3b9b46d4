import OneBrc.Runner.Checker
import OneBrc.Runner.Gateway

/-! Who is blamed for a failed comparison. `benchmark` turns every error of `compareOutput` into
`wrong_answer`, faults of the expected file and of the runner's own reads included. -/
namespace OneBrc.Runner
open Lib

/-- The attempt is accepted with the expected output and is followed by another one. -/
structure DatasetRun.Passes (d : DatasetRun) (i : ℕ) : Prop where
  cancelled : (d.attempts i).cancelled = false
  accepted : ∃ durationNs, runAttempt (d.attempts i) = some (.accepted durationNs) ∧
    shouldStopAfterFirstAttempt i durationNs = false
  workRemoved : (d.attempts i).workRemoved = true
  equal : compareOutput (d.attempts i).output d.expected = .ok ()

/-- The loop of `benchmark` comes to attempt `i` and through it without an exception. -/
structure DatasetRun.Makes (d : DatasetRun) (i : ℕ) : Prop where
  cached : d.cached = true
  one_le : 1 ≤ i
  le_repetitions : i ≤ benchmarkPolicy.repetitions
  passes : ∀ j, 1 ≤ j → j < i → d.Passes j
  cancelled : (d.attempts i).cancelled = false
  workRemoved : (d.attempts i).workRemoved = true

def DatasetRun.Accepts (d : DatasetRun) (i : ℕ) : Prop :=
  ∃ durationNs, runAttempt (d.attempts i) = some (.accepted durationNs)

/-- Both files of the comparison can be read, and the expected one is well formed. -/
def DatasetRun.Comparable (d : DatasetRun) (i : ℕ) : Prop :=
  (∃ expected, loadRecords d.expected = .ok expected) ∧
    ∃ content, (d.attempts i).output = .regular content

/-- The output of the attempt is malformed or denotes another map than the expected file. -/
def DatasetRun.Differs (d : DatasetRun) (i : ℕ) : Prop :=
  ∃ expected content, loadRecords d.expected = .ok expected ∧
    (d.attempts i).output = .regular content ∧
    ∀ actual, loadRecords (.regular content) = .ok actual →
      ¬ ∀ record, record ∈ actual.rows ↔ record ∈ expected.rows

/-- `run` ends with an error, for either dataset. -/
def DatasetRun.Surfaces (d : DatasetRun) : Prop :=
  (∀ environmentId privateRun, run environmentId d privateRun = none) ∧
    ∀ environmentId publicRun durationsNs medianNs,
      benchmark publicRun = some (.accepted durationsNs medianNs) →
      run environmentId publicRun d = none

/-- `wrong_answer` is the verdict on an accepted attempt's output only, and any other fault of a
comparison ends `run` with an error. -/
structure DatasetRun.BlamesSubmission (d : DatasetRun) : Prop where
  wrongAnswer : ∀ result, benchmark d = some result → result.verdict = .wrongAnswer →
    ∃ i, d.Makes i ∧ d.Accepts i ∧ d.Differs i
  surfaces : ∀ i, d.Makes i → d.Accepts i → ¬d.Comparable i → d.Surfaces

/-- Every comparison that the loop makes can be made, and no attempt itself reports the verdict. -/
def DatasetRun.Faultless (d : DatasetRun) : Prop :=
  ∀ i, d.Makes i → (d.Accepts i → d.Comparable i) ∧
    ∀ hverdict error, runAttempt (d.attempts i) ≠ some (.failed .wrongAnswer hverdict error)

section
variable {d : DatasetRun} {i : ℕ}

theorem benchmarkFrom_pass (h : d.Passes i) (remaining : ℕ) (durations : List Nanoseconds) :
    ∃ durations', benchmarkFrom d (remaining + 1) i durations =
      benchmarkFrom d remaining (i + 1) durations' := by
  obtain ⟨durationNs, haccepted, hgo⟩ := h.accepted
  refine ⟨durations ++ [durationNs], ?_⟩
  simp only [benchmarkFrom, h.cancelled, haccepted, h.workRemoved, h.equal, hgo, if_true,
    Bool.false_eq_true, if_false]

/-- The loop at an attempt that it comes to. -/
theorem benchmark_of_makes (h : d.Makes i) :
    ∃ remaining durations, benchmark d = benchmarkFrom d (remaining + 1) i durations := by
  have hloop (n : ℕ) (hn : n < benchmarkPolicy.repetitions)
      (hpasses : ∀ j, 1 ≤ j → j < n + 1 → d.Passes j) :
      ∃ durations, benchmarkFrom d benchmarkPolicy.repetitions 1 [] =
        benchmarkFrom d (benchmarkPolicy.repetitions - n) (n + 1) durations := by
    induction n with
    | zero => exact ⟨[], rfl⟩
    | succ n ih =>
      obtain ⟨durations, hdurations⟩ := ih (by omega) fun j hj hlt => hpasses j hj (by omega)
      obtain ⟨durations', hpass⟩ := benchmarkFrom_pass (hpasses (n + 1) (by omega) (by omega))
        (benchmarkPolicy.repetitions - (n + 1)) durations
      refine ⟨durations', ?_⟩
      rw [hdurations, ← hpass]
      congr 1
      omega
  have hone := h.one_le
  have hle := h.le_repetitions
  obtain ⟨durations, hdurations⟩ := hloop (i - 1) (by omega) fun j hj hlt =>
    h.passes j hj (by omega)
  refine ⟨benchmarkPolicy.repetitions - i, durations, ?_⟩
  rw [benchmark, if_pos h.cached, hdurations]
  congr 1
  · omega
  · omega

/-- A comparison that fails is the verdict. -/
theorem benchmark_of_compare {error : ComparisonError} (h : d.Makes i) (haccepts : d.Accepts i)
    (herror : compareOutput (d.attempts i).output d.expected = .error error) :
    benchmark d = some (.failed .wrongAnswer (by decide) (some (Utf16.encode error.message))) := by
  obtain ⟨remaining, durations, hbenchmark⟩ := benchmark_of_makes h
  obtain ⟨durationNs, haccepted⟩ := haccepts
  rw [hbenchmark]
  simp only [benchmarkFrom, h.cancelled, haccepted, h.workRemoved, herror, if_true,
    Bool.false_eq_true, if_false]

theorem benchmark_of_failed {verdict : Verdict} {hverdict : verdict ≠ .accepted}
    {error : Option (List UInt16)} (h : d.Makes i)
    (hfailed : runAttempt (d.attempts i) = some (.failed verdict hverdict error)) :
    benchmark d = some (.failed verdict hverdict error) := by
  obtain ⟨remaining, durations, hbenchmark⟩ := benchmark_of_makes h
  rw [hbenchmark]
  simp only [benchmarkFrom, h.cancelled, hfailed, h.workRemoved, if_true, Bool.false_eq_true,
    if_false]

theorem run_of_failed {verdict : Verdict} {hverdict : verdict ≠ .accepted}
    {error : Option (List UInt16)} (h : benchmark d = some (.failed verdict hverdict error)) :
    ¬d.Surfaces := by
  intro hsurfaces
  have hrun := hsurfaces.1 "" d
  rw [run, h] at hrun
  contradiction

/-- What a comparison without an error has read. -/
theorem loads_of_compare {actual expected : File} (h : compareOutput actual expected = .ok ()) :
    ∃ actualRecords expectedRecords, loadRecords expected = .ok expectedRecords ∧
      loadRecords actual = .ok actualRecords ∧
      compareRecords actualRecords expectedRecords = .ok () := by
  have hmap {x : Except (List Char) Records} {records : Records}
      (hx : x.mapError ioError = .ok records) : x = .ok records := by
    cases x with
    | error e => contradiction
    | ok value => exact congrArg _ (Except.ok.inj hx)
  obtain ⟨expectedRecords, hexpected, h⟩ := Fallible.bind_eq_ok.mp h
  obtain ⟨actualRecords, hactual, h⟩ := Fallible.bind_eq_ok.mp h
  exact ⟨actualRecords, expectedRecords, hmap hexpected, hmap hactual, h⟩

theorem regular_of_load {file : File} {records : Records} (h : loadRecords file = .ok records) :
    ∃ content, file = .regular content := by
  cases file with
  | missing | unreadable => contradiction
  | regular content => exact ⟨content, rfl⟩

theorem exists_error {x : Except ComparisonError Unit} (h : x ≠ .ok ()) :
    ∃ error, x = .error error := by
  cases x with
  | error error => exact ⟨error, rfl⟩
  | ok value => exact absurd rfl h

theorem compare_of_not_comparable (h : ¬d.Comparable i) :
    ∃ error, compareOutput (d.attempts i).output d.expected = .error error := by
  apply exists_error
  intro hok
  obtain ⟨actual, expected, hexpected, hactual, _⟩ := loads_of_compare hok
  exact h ⟨⟨expected, hexpected⟩, regular_of_load hactual⟩

theorem compare_of_differs (h : d.Differs i) :
    compareOutput (d.attempts i).output d.expected ≠ .ok () := by
  obtain ⟨expected, content, hexpected, houtput, hdiffers⟩ := h
  intro hok
  obtain ⟨actual, expected', hexpected', hactual, hequal⟩ := loads_of_compare hok
  obtain rfl := Except.ok.inj (hexpected.symm.trans hexpected')
  exact hdiffers actual (houtput ▸ hactual) (compareRecords_iff.mp hequal)

theorem differs_of_compare {error : ComparisonError} (hcomparable : d.Comparable i)
    (h : compareOutput (d.attempts i).output d.expected = .error error) : d.Differs i := by
  obtain ⟨⟨expected, hexpected⟩, content, houtput⟩ := hcomparable
  refine ⟨expected, content, hexpected, houtput, fun actual hactual hequal => ?_⟩
  have hok : compareOutput (d.attempts i).output d.expected = .ok () := by
    rw [compareOutput, hexpected, houtput, hactual]
    exact compareRecords_iff.mpr hequal
  rw [h] at hok
  contradiction

/-- The attempt that a `wrong_answer` comes from. -/
theorem benchmarkFrom_wrongAnswer {remaining : ℕ} {durations : List Nanoseconds}
    {result : BenchmarkResult} (hcached : d.cached = true) (hone : 1 ≤ i)
    (hremaining : i + remaining = benchmarkPolicy.repetitions + 1)
    (hpasses : ∀ j, 1 ≤ j → j < i → d.Passes j)
    (h : benchmarkFrom d remaining i durations = some result)
    (hverdict : result.verdict = .wrongAnswer) :
    ∃ j, d.Makes j ∧ ((∃ hverdict error,
        runAttempt (d.attempts j) = some (.failed .wrongAnswer hverdict error)) ∨
      d.Accepts j ∧ ∃ error, compareOutput (d.attempts j).output d.expected = .error error) := by
  induction remaining generalizing i durations with
  | zero =>
    rw [benchmarkFrom] at h
    obtain rfl := Option.some.inj h
    contradiction
  | succ remaining ih =>
    have hmakes : d.Makes i := by
      refine ⟨hcached, hone, by omega, hpasses, ?_, ?_⟩
      · rw [benchmarkFrom] at h
        by_contra hcancelled
        rw [Bool.not_eq_false] at hcancelled
        rw [if_pos hcancelled] at h
        contradiction
      · by_contra hremoved
        rw [Bool.not_eq_true] at hremoved
        simp only [benchmarkFrom, hremoved, Bool.false_eq_true, if_false] at h
        split at h
        · contradiction
        · split at h
          · contradiction
          · contradiction
          · contradiction
    rcases benchmarkFrom_succ h with
      ⟨verdict, hne, error, hfailed, rfl⟩ | ⟨durationNs, haccepted, ⟨error, herror, rfl⟩ | hok⟩
    · obtain rfl : verdict = .wrongAnswer := hverdict
      exact ⟨i, hmakes, .inl ⟨hne, error, hfailed⟩⟩
    · exact ⟨i, hmakes, .inr ⟨⟨durationNs, haccepted⟩, error, herror⟩⟩
    · obtain ⟨hequal, ⟨_, hrest⟩ | ⟨hgo, hrest⟩⟩ := hok
      · rw [benchmarkFrom] at hrest
        obtain rfl := Option.some.inj hrest
        contradiction
      · refine ih (by omega) (by omega) ?_ hrest
        intro j hj hlt
        rcases Nat.lt_succ_iff_lt_or_eq.mp hlt with hlt | rfl
        · exact hpasses j hj hlt
        · exact ⟨hmakes.cancelled, ⟨durationNs, haccepted, hgo⟩, hmakes.workRemoved, hequal⟩

/-- The submission alone is blamed exactly when every comparison that is made can be made. -/
theorem blamesSubmission_iff (d : DatasetRun) : d.BlamesSubmission ↔ d.Faultless := by
  constructor
  · intro hblames i hmakes
    constructor
    · intro haccepts
      by_contra hnot
      obtain ⟨error, herror⟩ := compare_of_not_comparable hnot
      exact run_of_failed (benchmark_of_compare hmakes haccepts herror)
        (hblames.surfaces i hmakes haccepts hnot)
    · intro hverdict error hfailed
      obtain ⟨j, hj, haccepts, hdiffers⟩ :=
        hblames.wrongAnswer _ (benchmark_of_failed hmakes hfailed) rfl
      rcases lt_trichotomy i j with hlt | rfl | hlt
      · obtain ⟨_, haccepted, _⟩ := (hj.passes i hmakes.one_le hlt).accepted
        rw [hfailed] at haccepted
        exact absurd (Option.some.inj haccepted) nofun
      · obtain ⟨_, haccepted⟩ := haccepts
        rw [hfailed] at haccepted
        exact absurd (Option.some.inj haccepted) nofun
      · exact compare_of_differs hdiffers (hmakes.passes j hj.one_le hlt).equal
  · intro hfaultless
    constructor
    · intro result h hverdict
      unfold benchmark at h
      split at h
      · next hcached =>
        obtain ⟨i, hmakes, ⟨hne, error, hfailed⟩ | ⟨haccepts, error, herror⟩⟩ :=
          benchmarkFrom_wrongAnswer hcached le_rfl rfl (fun j hj hlt => by omega) h hverdict
        · exact absurd hfailed ((hfaultless i hmakes).2 hne error)
        · exact ⟨i, hmakes, haccepts,
            differs_of_compare ((hfaultless i hmakes).1 haccepts) herror⟩
      · contradiction
    · intro i hmakes haccepts hnot
      exact absurd ((hfaultless i hmakes).1 haccepts) hnot

end

/-- Accepted attempts with an empty output, and an expected file that is not there. -/
def withoutExpected : DatasetRun where
  cached := true
  expected := .missing "ENOENT: no such file or directory"
  attempts _ := ⟨false, some (.accepted ⟨"5", by decide⟩), .regular [], true⟩

theorem not_blamesSubmission : ¬ ∀ d : DatasetRun, d.BlamesSubmission := by
  intro hlaw
  have haccepts : withoutExpected.Accepts 1 := ⟨⟨"5", by decide⟩, by rfl⟩
  have hmakes : withoutExpected.Makes 1 :=
    ⟨rfl, le_rfl, by decide, fun j hj hlt => by omega, rfl, rfl⟩
  have hnot : ¬withoutExpected.Comparable 1 := by
    rintro ⟨⟨expected, hexpected⟩, _⟩
    contradiction
  obtain ⟨error, herror⟩ := compare_of_not_comparable hnot
  exact run_of_failed (benchmark_of_compare hmakes haccepts herror)
    ((hlaw withoutExpected).surfaces 1 hmakes haccepts hnot)

end OneBrc.Runner
