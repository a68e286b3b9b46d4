import OneBrc.Domain
import OneBrc.Lib.Json
import OneBrc.Lib.StableSort
import OneBrc.Runner.Compare

/-! The `run` command of the gateway: the attempts on each dataset and the printed result. -/
namespace OneBrc.Runner
open Lib

/-- What `benchmarkAttemptResultSchema` lets through. Error texts are UTF-16 units. -/
inductive BenchmarkAttemptResult where
  | accepted (durationNs : Nanoseconds)
  | failed (verdict : Verdict) (hverdict : verdict ≠ .accepted) (error : Option (List UInt16))

/-- What one attempt meets; `printed` is `none` when the container or the parse fails. -/
structure Attempt where
  cancelled : Bool
  printed : Option BenchmarkAttemptResult
  output : File
  workRemoved : Bool

/-- A dataset as `benchmark` meets it. -/
structure DatasetRun where
  cached : Bool
  expected : File
  attempts : ℕ → Attempt

/-- `BenchmarkResult` of the gateway; a median that is `undefined` is not printed. -/
inductive BenchmarkResult where
  | accepted (durationsNs : List Nanoseconds) (medianNs : Option Nanoseconds)
  | failed (verdict : Verdict) (hverdict : verdict ≠ .accepted) (error : Option (List UInt16))

def BenchmarkResult.verdict : BenchmarkResult → Verdict
  | .accepted .. => .accepted
  | .failed verdict .. => verdict

structure RunnerJobResult where
  publicResult : BenchmarkResult
  privateResult : Option BenchmarkResult
  environmentId : String

def outputLimitMessage : String := "出力サイズの上限を超えました"

/-- A JavaScript string. -/
def units (text : String) : List UInt16 := Utf16.encode text.toList

/-- `none` is an exception. -/
def runAttempt (attempt : Attempt) : Option BenchmarkAttemptResult :=
  match attempt.printed with
  | some (.accepted durationNs) =>
      match attempt.output.stat with
      | .error _ => none
      | .ok size =>
          if benchmarkPolicy.outputLimitBytes < size then
            some (.failed .outputLimit (by decide) (some (units outputLimitMessage)))
          else some (.accepted durationNs)
  | printed => printed

def median (durations : List Nanoseconds) : Option Nanoseconds :=
  let sorted := StableSort.sliceStable (fun a b => compareNanoseconds a b < 0) durations
  sorted[sorted.length / 2]?

/-- The loop of `benchmark` from one attempt on, with the durations so far. -/
def benchmarkFrom (run : DatasetRun) : ℕ → ℕ → List Nanoseconds → Option BenchmarkResult
  | 0, _, durations => some (.accepted durations (median durations))
  | remaining + 1, attempt, durations =>
      if (run.attempts attempt).cancelled then none
      else match runAttempt (run.attempts attempt) with
        | none => none
        | some (.failed verdict hverdict error) =>
            if (run.attempts attempt).workRemoved then some (.failed verdict hverdict error)
            else none
        | some (.accepted durationNs) =>
            let comparison := compareOutput (run.attempts attempt).output run.expected
            if (run.attempts attempt).workRemoved then
              match comparison with
              | .error error =>
                  some (.failed .wrongAnswer (by decide) (some (Utf16.encode error.message)))
              | .ok () =>
                  if shouldStopAfterFirstAttempt attempt durationNs then
                    benchmarkFrom run 0 attempt (durations ++ [durationNs])
                  else benchmarkFrom run remaining (attempt + 1) (durations ++ [durationNs])
            else none

def benchmark (run : DatasetRun) : Option BenchmarkResult :=
  if run.cached then benchmarkFrom run benchmarkPolicy.repetitions 1 [] else none

/-- The result that `run` prints. The private dataset is measured after an accepted public one. -/
def run (environmentId : String) (publicRun privateRun : DatasetRun) : Option RunnerJobResult :=
  match benchmark publicRun with
  | none => none
  | some (.accepted durationsNs medianNs) =>
      (benchmark privateRun).map fun privateResult =>
        ⟨.accepted durationsNs medianNs, some privateResult, environmentId⟩
  | some (.failed verdict hverdict error) =>
      some ⟨.failed verdict hverdict error, none, environmentId⟩

section Print
variable {α : Type*}

def nullable (f : α → Json (List UInt16)) : Option α → Json (List UInt16)
  | none => .null
  | some a => f a

def Nanoseconds.json (duration : Nanoseconds) : Json (List UInt16) := .string (units duration.text)

/-- `JSON.stringify` omits a member that is `undefined`. -/
def optionalMember (name : String) (value : Option (Json (List UInt16))) :
    List (List UInt16 × Json (List UInt16)) :=
  match value with
  | none => []
  | some value => [(units name, value)]

def BenchmarkResult.json : BenchmarkResult → Json (List UInt16)
  | .accepted durationsNs medianNs =>
      .object ([(units "verdict", .string (units Verdict.accepted.name)),
        (units "durationsNs", .array (durationsNs.map Nanoseconds.json))] ++
          optionalMember "medianNs" (medianNs.map Nanoseconds.json) ++ [(units "error", .null)])
  | .failed verdict _ error =>
      .object [(units "verdict", .string (units verdict.name)), (units "durationsNs", .null),
        (units "medianNs", .null), (units "error", nullable .string error)]

def RunnerJobResult.json (result : RunnerJobResult) : Json (List UInt16) :=
  .object [(units "public", result.publicResult.json),
    (units "private", nullable BenchmarkResult.json result.privateResult),
    (units "environmentId", .string (units result.environmentId))]

end Print

/-- Durations of an accepted benchmark, as `benchmarkResultSchema` has them. -/
def BenchmarkResult.WellFormed : BenchmarkResult → Prop
  | .accepted durationsNs medianNs =>
      (durationsNs.length = 1 ∨ durationsNs.length = 3) ∧ ∃ d ∈ durationsNs, medianNs = some d
  | .failed .. => True

/-- Middle one of the numbers in order of size. -/
def middle (values : List ℕ) : Option ℕ := (values.insertionSort (· ≤ ·))[values.length / 2]?

/-- One duration after a slow first attempt and three otherwise, with their numeric median. -/
def BenchmarkResult.Measured : BenchmarkResult → Prop
  | .accepted durationsNs medianNs =>
      (∃ first ∈ durationsNs.head?, durationsNs.length =
        if benchmarkPolicy.slowFirstAttemptSeconds * 1000000000 < first.toNat then 1 else 3) ∧
      ∃ m, medianNs = some m ∧ middle (durationsNs.map Nanoseconds.toNat) = some m.toNat
  | .failed .. => True

/-- Every attempt runs to its end: nothing is cancelled and no file operation fails. -/
structure DatasetRun.Completes (dataset : DatasetRun) : Prop where
  cached : dataset.cached = true
  cancelled : ∀ i, (dataset.attempts i).cancelled = false
  printed : ∀ i, (dataset.attempts i).printed.isSome
  output : ∀ i, (dataset.attempts i).output.stat.isOk
  workRemoved : ∀ i, (dataset.attempts i).workRemoved = true

section Facts
variable {dataset : DatasetRun} {result : BenchmarkResult}

theorem mem_of_median {durations : List Nanoseconds} {d : Nanoseconds}
    (h : median durations = some d) : d ∈ durations :=
  StableSort.mem_sliceStable.mp (List.mem_of_getElem? h)

theorem median_mem {durations : List Nanoseconds} (h : durations ≠ []) :
    ∃ d ∈ durations, median durations = some d := by
  have hlength := (StableSort.sliceStable_perm
    (fun a b => compareNanoseconds a b < 0) durations).length_eq
  have hpos : 0 < durations.length := List.length_pos_of_ne_nil h
  obtain ⟨d, hd⟩ : ∃ d, median durations = some d := by
    unfold median
    exact ⟨_, List.getElem?_eq_getElem (by omega)⟩
  exact ⟨d, mem_of_median hd, hd⟩

theorem compareNanoseconds_lt (a b : Nanoseconds) :
    decide (compareNanoseconds a b < 0) = decide (a.toNat < b.toNat) := by
  unfold compareNanoseconds
  split_ifs <;> simp_all

/-- The sort by `compareNanoseconds` puts the numeric median in the middle. -/
theorem middle_of_median {durations : List Nanoseconds} {m : Nanoseconds}
    (h : median durations = some m) : middle (durations.map Nanoseconds.toNat) = some m.toNat := by
  have hsort := StableSort.sliceStable_map (fun a b => decide (a < b)) Nanoseconds.toNat durations
  rw [StableSort.sliceStable_lt] at hsort
  simp only [← compareNanoseconds_lt] at hsort
  have hlength := (StableSort.sliceStable_perm
    (fun a b => compareNanoseconds a b < 0) durations).length_eq
  unfold median at h
  rw [middle, hsort, List.length_map, ← hlength, List.getElem?_map, h, Option.map_some]

/-- An attempt passes on what was printed, except after an accepted one with too large an output. -/
theorem runAttempt_some {attempt : Attempt} {printed : BenchmarkAttemptResult}
    (h : runAttempt attempt = some printed) :
    attempt.printed = some printed ∨
      printed = .failed .outputLimit (by decide) (some (units outputLimitMessage)) := by
  unfold runAttempt at h
  split at h
  · next d hd =>
    split at h
    · contradiction
    · next size hsize =>
      by_cases hlimit : benchmarkPolicy.outputLimitBytes < size
      · rw [if_pos hlimit] at h
        exact .inr (Option.some.inj h).symm
      · rw [if_neg hlimit] at h
        exact .inl (hd.trans h)
  · exact .inl h

/-- The pass of the loop at one attempt. -/
theorem benchmarkFrom_succ {remaining attempt : ℕ} {durations : List Nanoseconds}
    (h : benchmarkFrom dataset (remaining + 1) attempt durations = some result) :
    (∃ verdict hverdict error, runAttempt (dataset.attempts attempt) =
        some (.failed verdict hverdict error) ∧ result = .failed verdict hverdict error) ∨
      ∃ durationNs, runAttempt (dataset.attempts attempt) = some (.accepted durationNs) ∧
        ((∃ error, compareOutput (dataset.attempts attempt).output dataset.expected = .error error ∧
            result = .failed .wrongAnswer (by decide) (some (Utf16.encode error.message))) ∨
          compareOutput (dataset.attempts attempt).output dataset.expected = .ok () ∧
            ((shouldStopAfterFirstAttempt attempt durationNs = true ∧
                benchmarkFrom dataset 0 attempt (durations ++ [durationNs]) = some result) ∨
              shouldStopAfterFirstAttempt attempt durationNs = false ∧
                benchmarkFrom dataset remaining (attempt + 1) (durations ++ [durationNs]) =
                  some result)) := by
  rw [benchmarkFrom] at h
  split at h
  · contradiction
  cases hattempt : runAttempt (dataset.attempts attempt) with
  | none => simp [hattempt] at h
  | some printed =>
    cases hremoved : (dataset.attempts attempt).workRemoved with
    | false => cases printed <;> simp [hattempt, hremoved] at h
    | true =>
      cases printed with
      | failed verdict hverdict error =>
        simp only [hattempt, hremoved, if_true] at h
        exact .inl ⟨verdict, hverdict, error, rfl, (Option.some.inj h).symm⟩
      | accepted durationNs =>
        refine .inr ⟨durationNs, rfl, ?_⟩
        simp only [hattempt, hremoved, if_true] at h
        cases hcompare : compareOutput (dataset.attempts attempt).output dataset.expected with
        | error error =>
          rw [hcompare] at h
          exact .inl ⟨error, rfl, (Option.some.inj h).symm⟩
        | ok _ =>
          rw [hcompare] at h
          refine .inr ⟨rfl, ?_⟩
          cases hstop : shouldStopAfterFirstAttempt attempt durationNs with
          | true => exact .inl ⟨rfl, by simpa [hstop] using h⟩
          | false => exact .inr ⟨rfl, by simpa [hstop] using h⟩

/-- One duration when the first attempt was slow, otherwise three. -/
theorem benchmarkFrom_wellFormed {remaining attempt : ℕ} {durations : List Nanoseconds}
    (hattempt : attempt = durations.length + 1) (hremaining : durations.length + remaining = 3)
    (h : benchmarkFrom dataset remaining attempt durations = some result) : result.WellFormed := by
  induction remaining generalizing attempt durations with
  | zero =>
    rw [benchmarkFrom] at h
    obtain rfl := Option.some.inj h
    have hne : durations ≠ [] := by
      rintro rfl
      simp at hremaining
    exact ⟨.inr hremaining, median_mem hne⟩
  | succ remaining ih =>
    have hlength (d : Nanoseconds) : (durations ++ [d]).length = durations.length + 1 := by simp
    rcases benchmarkFrom_succ h with ⟨_, _, _, _, rfl⟩ | ⟨d, _, ⟨_, _, rfl⟩ | ⟨_, hrest⟩⟩
    · trivial
    · trivial
    rcases hrest with ⟨hstop, hrest⟩ | ⟨_, hrest⟩
    · have hfirst : attempt = 1 := of_decide_eq_true (Bool.and_eq_true_iff.mp hstop).1
      rw [benchmarkFrom] at hrest
      obtain rfl := Option.some.inj hrest
      exact ⟨.inl (by rw [hlength]; omega), median_mem (by simp)⟩
    · exact ih (by rw [hlength, hattempt]) (by rw [hlength]; omega) hrest

theorem benchmark_wellFormed (h : benchmark dataset = some result) : result.WellFormed := by
  unfold benchmark at h
  split at h
  · exact benchmarkFrom_wellFormed (by rfl) (by rfl) h
  · contradiction

/-- The loop of `benchmark` stops early only after its first attempt. -/
theorem benchmarkFrom_measured {remaining attempt : ℕ} {durations : List Nanoseconds}
    (hattempt : attempt = durations.length + 1) (hremaining : durations.length + remaining = 3)
    (hfast : ∀ first ∈ durations.head?,
      ¬benchmarkPolicy.slowFirstAttemptSeconds * 1000000000 < first.toNat)
    (h : benchmarkFrom dataset remaining attempt durations = some result) : result.Measured := by
  induction remaining generalizing attempt durations with
  | zero =>
    rw [benchmarkFrom] at h
    obtain rfl := Option.some.inj h
    obtain ⟨first, rest, rfl⟩ : ∃ first rest, durations = first :: rest :=
      List.exists_cons_of_length_pos (by omega)
    obtain ⟨m, _, hm⟩ := median_mem (List.cons_ne_nil first rest)
    have hlength : (first :: rest).length =
        if benchmarkPolicy.slowFirstAttemptSeconds * 1000000000 < first.toNat then 1 else 3 := by
      rw [if_neg (hfast first rfl)]
      exact hremaining
    exact ⟨⟨first, rfl, hlength⟩, m, hm, middle_of_median hm⟩
  | succ remaining ih =>
    have hlength (d : Nanoseconds) : (durations ++ [d]).length = durations.length + 1 := by simp
    rcases benchmarkFrom_succ h with ⟨_, _, _, _, rfl⟩ | ⟨d, _, ⟨_, _, rfl⟩ | ⟨_, hrest⟩⟩
    · trivial
    · trivial
    rcases hrest with ⟨hstop, hrest⟩ | ⟨hgo, hrest⟩
    · obtain ⟨hfirst, hslow⟩ := Bool.and_eq_true_iff.mp hstop
      obtain rfl : durations = [] := by
        apply List.eq_nil_of_length_eq_zero
        have hone : attempt = 1 := of_decide_eq_true hfirst
        omega
      rw [benchmarkFrom] at hrest
      obtain rfl := Option.some.inj hrest
      obtain ⟨m, _, hm⟩ := median_mem (List.cons_ne_nil d [])
      have hone : [d].length =
          if benchmarkPolicy.slowFirstAttemptSeconds * 1000000000 < d.toNat then 1 else 3 := by
        rw [if_pos (of_decide_eq_true hslow)]
        rfl
      exact ⟨⟨d, rfl, hone⟩, m, hm, middle_of_median hm⟩
    · apply ih (by rw [hlength, hattempt]) (by rw [hlength]; omega) _ hrest
      cases durations with
      | nil =>
        intro first hmem hslow
        obtain rfl : d = first := Option.some.inj hmem
        have hone : attempt = 1 := hattempt
        simp [shouldStopAfterFirstAttempt, hone, hslow] at hgo
      | cons first rest => exact hfast

theorem benchmark_measured (h : benchmark dataset = some result) : result.Measured := by
  unfold benchmark at h
  split at h
  · apply benchmarkFrom_measured (by rfl) (by rfl) _ h
    intro first hfirst
    contradiction
  · contradiction

theorem runAttempt_isSome {attempt : Attempt} (hprinted : attempt.printed.isSome)
    (houtput : attempt.output.stat.isOk) : (runAttempt attempt).isSome := by
  obtain ⟨printed, hprinted⟩ := Option.isSome_iff_exists.mp hprinted
  cases printed with
  | failed verdict hverdict error => simp [runAttempt, hprinted]
  | accepted durationNs =>
    cases hstat : attempt.output.stat with
    | error e => simp [hstat, Except.isOk, Except.toBool] at houtput
    | ok size =>
      simp only [runAttempt, hprinted, hstat]
      split <;> rfl

theorem DatasetRun.Completes.benchmarkFrom_isSome (h : dataset.Completes) (remaining attempt : ℕ)
    (durations : List Nanoseconds) :
    (benchmarkFrom dataset remaining attempt durations).isSome := by
  induction remaining generalizing attempt durations with
  | zero => simp [benchmarkFrom]
  | succ remaining ih =>
    obtain ⟨printed, hprinted⟩ :=
      Option.isSome_iff_exists.mp (runAttempt_isSome (h.printed attempt) (h.output attempt))
    cases printed with
    | failed verdict hverdict error =>
      simp [benchmarkFrom, hprinted, h.cancelled, h.workRemoved]
    | accepted durationNs =>
      simp only [benchmarkFrom, hprinted, h.cancelled, h.workRemoved, if_true, Bool.false_eq_true,
        if_false]
      split
      · rfl
      · split
        · rfl
        · exact ih _ _

theorem DatasetRun.Completes.benchmark_isSome (h : dataset.Completes) :
    (benchmark dataset).isSome := by
  rw [benchmark, if_pos h.cached]
  exact h.benchmarkFrom_isSome _ _ _

theorem run_isSome {publicRun privateRun : DatasetRun} (hpublic : publicRun.Completes)
    (hprivate : privateRun.Completes) (environmentId : String) :
    (run environmentId publicRun privateRun).isSome := by
  obtain ⟨publicResult, hpublic⟩ := Option.isSome_iff_exists.mp hpublic.benchmark_isSome
  cases publicResult with
  | failed verdict hverdict error => simp [run, hpublic]
  | accepted durationsNs medianNs => simp [run, hpublic, hprivate.benchmark_isSome]

/-- A private result comes exactly with an accepted public one. -/
theorem run_private_isSome {environmentId : String} {publicRun privateRun : DatasetRun}
    {result : RunnerJobResult} (h : run environmentId publicRun privateRun = some result) :
    result.privateResult.isSome ↔ result.publicResult.verdict = .accepted := by
  unfold run at h
  split at h
  · contradiction
  · obtain ⟨privateResult, _, rfl⟩ := Option.map_eq_some_iff.mp h
    simp [BenchmarkResult.verdict]
  · next verdict hverdict _ _ =>
    obtain rfl := Option.some.inj h
    simp [BenchmarkResult.verdict, hverdict]

/-- The private dataset is measured exactly after an accepted public one. -/
theorem run_some {environmentId : String} {publicRun privateRun : DatasetRun}
    {result : RunnerJobResult} (h : run environmentId publicRun privateRun = some result) :
    benchmark publicRun = some result.publicResult ∧ result.environmentId = environmentId ∧
      ∀ privateResult, result.privateResult = some privateResult →
        benchmark privateRun = some privateResult := by
  unfold run at h
  split at h
  · contradiction
  · next hpublic =>
    obtain ⟨privateResult, hprivate, rfl⟩ := Option.map_eq_some_iff.mp h
    refine ⟨hpublic, rfl, ?_⟩
    rintro _ ⟨⟩
    exact hprivate
  · next hpublic =>
    obtain rfl := Option.some.inj h
    refine ⟨hpublic, rfl, ?_⟩
    rintro _ ⟨⟩

end Facts
end OneBrc.Runner
