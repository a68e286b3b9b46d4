import OneBrc.Runner.Gateway
import OneBrc.Server.RunnerResult

/-! The server decodes what the gateway prints. -/
namespace OneBrc.Server
open Lib

@[simp] theorem goString_units (text : String) : goString (Runner.units text) = text := by
  rw [goString, Runner.units, Utf16.decode_encode, String.ofList_toList]

/-- The result as the server sees it. -/
def decodedBenchmarkResult : Runner.BenchmarkResult → BenchmarkResult
  | .accepted durationsNs medianNs =>
      ⟨.accepted, some (durationsNs.map (·.text)), medianNs.map (·.text), none⟩
  | .failed verdict _ error => ⟨verdict, none, none, error.map goString⟩

def decodedResult (result : Runner.RunnerJobResult) : RunnerJobResult :=
  ⟨decodedBenchmarkResult result.publicResult, result.privateResult.map decodedBenchmarkResult,
    result.environmentId⟩

theorem digits_text (duration : Nanoseconds) : digits duration.text = true := by
  have h := duration.valid
  simp only [nanosecondsSchema, Bool.and_eq_true, decide_eq_true_eq] at h
  simp only [digits, h.2, Bool.and_true, Bool.not_eq_true', List.isEmpty_eq_false_iff]
  exact h.1

theorem validateBenchmarkResult_decoded {result : Runner.BenchmarkResult} (h : result.WellFormed) :
    validateBenchmarkResult (decodedBenchmarkResult result) = true := by
  cases result with
  | failed verdict hverdict error =>
    simp [decodedBenchmarkResult, validateBenchmarkResult, hverdict]
  | accepted durationsNs medianNs =>
    obtain ⟨hlength, d, _, rfl⟩ := h
    have hall : (durationsNs.map (·.text)).all digits = true := by
      simp only [List.all_map, List.all_eq_true]
      exact fun e _ => digits_text e
    simp [decodedBenchmarkResult, validateBenchmarkResult, digits_text, hall, hlength]

theorem decodeElements_json (durationsNs : List Nanoseconds) :
    decodeElements decodeString "" [] (durationsNs.map Runner.Nanoseconds.json) =
      some ⟨durationsNs.map (·.text), []⟩ := by
  induction durationsNs with
  | nil => rfl
  | cons d ds ih =>
    rw [List.map_cons, decodeElements, List.tail_nil, ih]
    simp [Runner.Nanoseconds.json, decodeString]

theorem decodeStrings_json (durationsNs : List Nanoseconds) :
    decodeStrings none (.array (durationsNs.map Runner.Nanoseconds.json)) =
      some (some ⟨durationsNs.map (·.text), []⟩) := by
  have helements := decodeElements_json durationsNs
  cases durationsNs with
  | nil => rfl
  | cons d ds =>
    rw [List.map_cons] at helements ⊢
    rw [decodeStrings, decodeSlice, Option.elim_none, helements]
    · rfl
    · exact nofun

theorem decodeBenchmarkResult_of {members : List Member} (decoded : DecodedBenchmarkResult)
    {verdict : Verdict} (hfields : hasBenchmarkFields members = true)
    (hfold : members.foldlM decodeBenchmarkMember ⟨"", none, none, none⟩ = some decoded)
    (hverdict : Verdict.ofName? decoded.verdict = some verdict)
    (hvalid : validateBenchmarkResult
      ⟨verdict, decoded.durationsNS.map (·.elements), decoded.medianNS, decoded.error⟩ = true)
    (hnulls : hasNulls members verdict = true) :
    decodeBenchmarkResult (.object members) =
      some ⟨verdict, decoded.durationsNS.map (·.elements), decoded.medianNS, decoded.error⟩ := by
  simp [decodeBenchmarkResult, hfields, hfold, hverdict, hvalid, hnulls]

/-- The members of a printed result, in the order of the fields. -/
def printedMembers (verdict durationsNs medianNs error : RawMessage) : List Member :=
  [(Runner.units "verdict", verdict), (Runner.units "durationsNs", durationsNs),
    (Runner.units "medianNs", medianNs), (Runner.units "error", error)]

section PrintedMembers
variable (verdict durationsNs medianNs error : RawMessage)

theorem memberNames_printed :
    memberNames (printedMembers verdict durationsNs medianNs error) = benchmarkResultFields := by
  simp only [memberNames, printedMembers, List.map_cons, List.map_nil, goString_units]
  decide

theorem hasBenchmarkFields_printed :
    hasBenchmarkFields (printedMembers verdict durationsNs medianNs error) = true := by
  rw [hasBenchmarkFields, memberNames_printed]
  simp [lastMember?, benchmarkResultFields, printedMembers]

theorem hasNulls_printed (v : Verdict) :
    hasNulls (printedMembers verdict durationsNs medianNs error) v =
      if v = .accepted then isNull error else isNull durationsNs && isNull medianNs := by
  simp [hasNulls, lastMember?, printedMembers]

end PrintedMembers

theorem decodeBenchmarkResult_json {result : Runner.BenchmarkResult} (h : result.WellFormed) :
    decodeBenchmarkResult result.json = some (decodedBenchmarkResult result) := by
  have hvalid := validateBenchmarkResult_decoded h
  cases result with
  | failed verdict hverdict error =>
    refine decodeBenchmarkResult_of ⟨verdict.name, none, none, error.map goString⟩
      (hasBenchmarkFields_printed _ _ _ _) ?_ (Verdict.ofName?_name verdict) hvalid ?_
    · cases error <;> simp [decodeBenchmarkMember, decodeString, decodeStrings, decodeSlice,
        decodeStringPointer, Runner.nullable]
    · rw [← printedMembers, hasNulls_printed, if_neg hverdict]
      rfl
  | accepted durationsNs medianNs =>
    obtain ⟨_, d, _, rfl⟩ := h
    refine decodeBenchmarkResult_of ⟨Verdict.accepted.name,
      some ⟨durationsNs.map fun e : Nanoseconds => e.text, []⟩, some d.text, none⟩
      (hasBenchmarkFields_printed _ _ _ _) ?_ (Verdict.ofName?_name .accepted) hvalid ?_
    · simp [decodeBenchmarkMember, decodeString, decodeStrings_json, decodeStringPointer,
        Runner.optionalMember, Runner.Nanoseconds.json]
    · exact (hasNulls_printed _ _ _ _ .accepted).trans rfl

theorem validateRunnerResult_decoded {result : Runner.RunnerJobResult}
    (hpublic : result.publicResult.WellFormed)
    (hprivate : ∀ p, result.privateResult = some p → p.WellFormed) :
    validateRunnerResult result.environmentId (decodedResult result) = true := by
  have hall : (result.privateResult.map decodedBenchmarkResult).all validateBenchmarkResult =
      true := by
    cases hp : result.privateResult with
    | none => rfl
    | some p => exact validateBenchmarkResult_decoded (hprivate p hp)
  simp [validateRunnerResult, decodedResult, validateBenchmarkResult_decoded hpublic, hall]

/-- The gateway prints what `runnerClient.run` accepts. -/
theorem runnerClientRun_json {environmentID : String} (hne : environmentID ≠ "")
    {publicRun privateRun : Runner.DatasetRun} {result : Runner.RunnerJobResult}
    (h : Runner.run environmentID publicRun privateRun = some result) :
    runnerClientRun environmentID result.json = some (decodedResult result) := by
  obtain ⟨hpublic, henv, hprivate⟩ := Runner.run_some h
  have hpublic' := Runner.benchmark_wellFormed hpublic
  have hprivate' (p : Runner.BenchmarkResult) (hp : result.privateResult = some p) :
      p.WellFormed := Runner.benchmark_wellFormed (hprivate p hp)
  have hraw : decodeRaw result.json = some ⟨some result.publicResult.json,
      some (Runner.nullable Runner.BenchmarkResult.json result.privateResult),
      result.environmentId⟩ := by
    have hpp : namesField "private" "public" = false := by decide
    have hep : namesField "environmentId" "public" = false := by decide
    have her : namesField "environmentId" "private" = false := by decide
    have hself (name : String) : namesField name name = true := decide_eq_true rfl
    simp [Runner.RunnerJobResult.json, decodeRaw, decodeRawMember, decodeString, hpp, hep, her,
      hself]
  have hprivateRaw : decodePrivateResult
      (Runner.nullable Runner.BenchmarkResult.json result.privateResult) =
        some (result.privateResult.map decodedBenchmarkResult) := by
    cases hp : result.privateResult with
    | none => rfl
    | some p =>
      have hnull : isNull p.json = false := by cases p <;> rfl
      simp [decodePrivateResult, Runner.nullable, hnull,
        decodeBenchmarkResult_json (hprivate' p hp)]
  have hdecoded : decodeRunnerResult result.json = some (decodedResult result) := by
    simp [decodeRunnerResult, hraw, henv, hne, decodeBenchmarkResult_json hpublic', hprivateRaw,
      decodedResult]
  rw [runnerClientRun, hdecoded, Option.filter_eq_some_iff]
  rw [← henv]
  exact ⟨rfl, validateRunnerResult_decoded hpublic' hprivate'⟩

/-- What the two sides agree on about a printed result. -/
structure Agrees (environmentID : String) (result : Runner.RunnerJobResult) : Prop where
  decoded : runnerClientRun environmentID result.json = some (decodedResult result)
  privateIff : result.privateResult.isSome ↔ result.publicResult.verdict = .accepted
  publicMeasured : result.publicResult.Measured
  privateMeasured : ∀ p, result.privateResult = some p → p.Measured

/-- Whatever the attempts and the comparisons give, the gateway prints a result that the server
takes over unchanged, with a private part after an accepted public one and numeric medians. -/
theorem run_agrees {environmentID : String} (hne : environmentID ≠ "")
    (publicRun privateRun : Runner.DatasetRun) :
    (publicRun.Completes → privateRun.Completes →
      (Runner.run environmentID publicRun privateRun).isSome) ∧
    ∀ result, Runner.run environmentID publicRun privateRun = some result →
      Agrees environmentID result := by
  constructor
  · intro hpublic hprivate
    exact Runner.run_isSome hpublic hprivate environmentID
  · intro result h
    obtain ⟨hpublic, _, hprivate⟩ := Runner.run_some h
    constructor
    · exact runnerClientRun_json hne h
    · exact Runner.run_private_isSome h
    · exact Runner.benchmark_measured hpublic
    · intro p hp
      exact Runner.benchmark_measured (hprivate p hp)

theorem run_agrees_slow :
    let slow : Runner.DatasetRun := ⟨true, .regular [], fun _ =>
      ⟨false, some (.accepted ⟨"70000000000", by decide⟩), .regular [], true⟩⟩
    ∃ result, Runner.run "env" slow slow = some result ∧ Agrees "env" result := by
  intro slow
  have hslow : slow.Completes := by constructor <;> intros <;> rfl
  have hne : "env" ≠ "" := by decide
  have hagrees := run_agrees hne slow slow
  obtain ⟨result, hrun⟩ := Option.isSome_iff_exists.mp (hagrees.1 hslow hslow)
  exact ⟨result, hrun, hagrees.2 result hrun⟩

end OneBrc.Server
