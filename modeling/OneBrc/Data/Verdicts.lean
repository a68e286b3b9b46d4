import OneBrc.Data.Judged
import OneBrc.Runner.Measure

/-! Verdicts on generated datasets: a benchmark is accepted when the program is clean and its output
denotes the records of the rows, and fails at the first attempt where that is not so. -/
namespace OneBrc.Data
open Lib Analyzer Runner

/-- The program is clean and its output denotes the records of the rows. -/
def Correct (mean : ℤ → ℤ → Bytes) (rows : List Row) (limits : MeasureLimits) (dataset : DatasetRun)
    (runs : ℕ → ProgramRun) (i : ℕ) : Prop :=
  (runs i).Clean limits ∧ ∃ bytes entries, (dataset.attempts i).output = .regular bytes ∧
    Denotes bytes entries ∧ ∀ e, e ∈ entries ↔ IsGroupEntry mean rows e

/-- The gateway reads the output that a run has left, which is plain text. -/
def LeavesOutputs (dataset : DatasetRun) (runs : ℕ → ProgramRun) : Prop :=
  ∀ i size, (runs i).output = some size → ∃ bytes, (dataset.attempts i).output = .regular bytes ∧
    bytes.length = size ∧ IsPlainText bytes

/-- Accepted attempts are correct, and a failure is that of the first one that is not. -/
def IsVerdictOn (correct : ℕ → Prop) : Runner.BenchmarkResult → Prop
  | .accepted durationsNs _ => ∀ i < durationsNs.length, correct (i + 1)
  | .failed .. => ∃ n < benchmarkPolicy.repetitions,
      (∀ i < n, correct (i + 1)) ∧ ¬correct (n + 1)

section Attempts
variable {mean : ℤ → ℤ → Bytes} {rows : List Row} {lines : List Bytes} {limits : MeasureLimits}
  {dataset : DatasetRun} {runs : ℕ → ProgramRun} {i : ℕ}

/-- The comparison passes exactly for a correct output. -/
theorem passed_iff (hmean : PrintsMeans mean) (hpath : ∀ r ∈ rows, ∀ b ∈ r.path, IsKeyByte b)
    (hreport : IsReport (reportLine mean) rows lines)
    (hexpected : dataset.expected = .regular lines.flatten) (hleft : LeavesOutputs dataset runs) :
    Passed limits dataset runs i ↔ Correct mean rows limits dataset runs i := by
  refine and_congr_right fun hclean => ?_
  obtain ⟨size, hsize⟩ := Option.isSome_iff_exists.mp hclean.output
  obtain ⟨bytes, houtput, -, hplain⟩ := hleft i size hsize
  rw [houtput, hexpected, compareOutput_report hmean hpath hreport hplain]
  constructor
  · rintro ⟨entries, hentries⟩
    exact ⟨bytes, entries, rfl, hentries⟩
  · rintro ⟨_, entries, hbytes, hentries⟩
    obtain rfl := Runner.File.regular.inj hbytes
    exact ⟨entries, hentries⟩

/-- No attempt that passes is given another verdict. -/
theorem not_passed_of_deserves {verdict : Verdict} {error : Option (List UInt16)}
    (h : Deserves limits dataset runs i verdict error)
    (hlimit : limits.outputLimitBytes ≤ benchmarkPolicy.outputLimitBytes)
    (hleft : LeavesOutputs dataset runs) : ¬Passed limits dataset runs i := by
  rintro ⟨hclean, hpassed⟩
  cases h with
  | faulty hfault => exact hfault.not_clean hclean
  | large _ size hsize hlarge =>
    obtain ⟨size', hsize'⟩ := Option.isSome_iff_exists.mp hclean.output
    obtain ⟨bytes, houtput, hlength, -⟩ := hleft i size' hsize'
    rw [houtput] at hsize
    obtain rfl : bytes.length = size := Except.ok.inj hsize
    apply hclean.small
    exact .output size' hclean.exit hsize' (by omega)
  | wrong _ error hcompare =>
    rw [hcompare] at hpassed
    cases hpassed

end Attempts

section Benchmark
variable {mean : ℤ → ℤ → Bytes} {random : Random} {options : Options} {rows : List Row}
  {lines : List Bytes} {limits : MeasureLimits} {dataset : DatasetRun} {runs : ℕ → ProgramRun}
  {result : Runner.BenchmarkResult} {threads : Int64}

/-- The verdict of a benchmark on a generated dataset with its expected output. -/
theorem verdict_exact (hmean : PrintsMeans mean) (hchannels : options.channels ≤ 65536)
    (hrows : generateRows random options = .ok rows)
    (hgroup : ∀ path month, (group rows path month).length < 2 ^ 32)
    (hlines : Expected.generate mean (csv rows) threads = some lines)
    (hexpected : dataset.expected = .regular lines.flatten)
    (hlimit : limits.outputLimitBytes ≤ benchmarkPolicy.outputLimitBytes)
    (hmeasures : Measures limits dataset runs) (hleft : LeavesOutputs dataset runs)
    (hrun : benchmark dataset = some result) :
    IsVerdictOn (Correct mean rows limits dataset runs) result := by
  have hdataset := generateRows_isDataset hchannels hrows
  obtain ⟨_, houtput, hreport⟩ := expected_isReport mean hdataset (toNat_le_of_le hchannels) hgroup
    (Expected.dividable_of_generate hlines)
  obtain ⟨-, -, -, houtput'⟩ := Expected.generate_eq_some.mp hlines
  obtain rfl := Option.some.inj (houtput'.symm.trans houtput)
  have hpassed (i : ℕ) : Passed limits dataset runs i ↔ Correct mean rows limits dataset runs i :=
    passed_iff hmean (fun r hr => (hdataset.generated r hr).isKeyByte) hreport hexpected hleft
  have hdescribes : Describes limits dataset runs result := by
    unfold benchmark at hrun
    split at hrun
    · have hfirst : 1 = ([] : List Nanoseconds).length + 1 := rfl
      refine hmeasures.benchmarkFrom hfirst rfl (fun i durationNs hi => ?_) hrun
      simp at hi
    · cases hrun
  cases result with
  | accepted durationsNs medianNs =>
    intro i hi
    exact (hpassed _).mp (hdescribes i _ (List.getElem?_eq_getElem hi)).1
  | failed verdict hverdict error =>
    obtain ⟨n, hn, hbefore, hdeserves⟩ := hdescribes
    refine ⟨n, hn, fun i hi => (hpassed _).mp (hbefore i hi), fun hcorrect => ?_⟩
    exact not_passed_of_deserves hdeserves hlimit hleft ((hpassed _).mpr hcorrect)

theorem verdict_exact_tiring : ∃ rows lines,
    generateRows sampleEnvironment.random sampleOptions.publicDataset = .ok rows ∧
      Expected.generate sampleEnvironment.mean (csv rows) 1 = some lines ∧
      IsVerdictOn (Correct sampleEnvironment.mean rows sampleLimits
        (tiringDataset lines.flatten lines.flatten) (tiringRun lines.flatten.length))
        (.failed .timeLimit (by decide) (some (units timeLimitMessage))) := by
  obtain ⟨rows, hrows, hdataset⟩ := exists_generateRows sampleEnvironment.random
    sampleOptions.publicDataset (by decide) (by decide) (by decide)
  have htwo : rows.length = 2 := hdataset.length
  have hgroup (path : Bytes) (month : Fin 12) : (group rows path month).length < 2 ^ 32 :=
    Nat.lt_of_le_of_lt (List.length_filter_le _ _) (by omega)
  obtain ⟨⟨lines, hlines, hexpected⟩, hlength⟩ :=
    length_expectedOf_sample hdataset.generated (by omega)
  rw [hexpected] at hlength
  obtain ⟨_, houtput, hreport⟩ := expected_isReport sampleEnvironment.mean hdataset (by decide)
    hgroup (Expected.dividable_of_generate hlines)
  obtain ⟨-, -, -, houtput'⟩ := Expected.generate_eq_some.mp hlines
  obtain rfl := Option.some.inj (houtput'.symm.trans houtput)
  have hpath : ∀ r ∈ rows, ∀ b ∈ r.path, IsKeyByte b := fun r hr =>
    (hdataset.generated r hr).isKeyByte
  obtain ⟨hplain, -⟩ := denotes_report printsMeans_sample hpath hreport
  have hsize : lines.flatten.length ≤ benchmarkPolicy.outputLimitBytes :=
    hlength.trans (by decide)
  have hleft : LeavesOutputs (tiringDataset lines.flatten lines.flatten)
      (tiringRun lines.flatten.length) := by
    intro i size hi
    by_cases hsteady : i < 3
    · simp only [tiringRun, if_pos hsteady, steadyRun, Option.some.injEq] at hi
      exact ⟨lines.flatten, by simp only [tiringDataset, if_pos hsteady], hi, hplain⟩
    · simp [tiringRun, if_neg hsteady, slowRun] at hi
  exact ⟨rows, lines, hrows, hlines, verdict_exact printsMeans_sample (by decide) hrows hgroup
    hlines rfl le_rfl (fun _ _ hprinted => hprinted) hleft (benchmark_tiring hsize
      (compareOutput_reports printsMeans_sample hpath hreport hreport))⟩

end Benchmark
end OneBrc.Data
