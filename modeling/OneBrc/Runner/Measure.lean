import Mathlib.Data.List.DropRight
import OneBrc.Runner.Gateway

/-! `measure.mjs`: one run of a program in its container, as the events that the measuring process
sees, and what it prints for the gateway. -/
namespace OneBrc.Runner
open Lib

structure MeasureLimits where
  stdioLimitBytes : ℕ
  outputLimitBytes : ℕ

/-- Events in the order in which their callbacks run. A chunk of stderr counts with its bytes and is
kept as decoded text. -/
inductive MeasureEvent where
  | stdout (length : ℕ)
  | stderr (length : ℕ) (text : List UInt16)
  | timeout
  | tick
  | statted (size : Option ℕ)

/-- The event that ends the wait; a process killed by a signal has no code. -/
inductive ProgramEnd where
  | error (message : List UInt16)
  | close (code : Option ℤ)

structure Measuring where
  captured : ℕ
  outputExceeded : Bool
  timedOut : Bool
  stderr : List UInt16
  checkingOutput : Bool

def Measuring.start : Measuring := ⟨0, false, false, [], false⟩

/-- How much of stderr is kept. -/
def stderrUnits : ℕ := 8192

section Program
variable (limits : MeasureLimits)

def Measuring.capture (m : Measuring) (length : ℕ) : Measuring :=
  { m with
    captured := m.captured + length
    outputExceeded := m.outputExceeded || limits.stdioLimitBytes < m.captured + length }

/-- The callbacks. `stat` of the output is under way only while `checkingOutput` is set. -/
def Measuring.step (m : Measuring) : MeasureEvent → Option Measuring
  | .stdout length => some (m.capture limits length)
  | .stderr length text =>
      some { m.capture limits length with stderr := (m.stderr ++ text).rtake stderrUnits }
  | .timeout => some { m with timedOut := true }
  | .tick =>
      if m.checkingOutput || m.outputExceeded then some m
      else some { m with checkingOutput := true }
  | .statted size =>
      if m.checkingOutput then
        some { m with
          outputExceeded := m.outputExceeded || size.any (limits.outputLimitBytes < ·)
          checkingOutput := false }
      else none

def measureEvents (events : List MeasureEvent) : Option Measuring :=
  events.foldlM (Measuring.step limits) Measuring.start

end Program

/-- The object that is printed. -/
structure PrintedAttempt where
  verdict : Verdict
  durationNs : Option Nanoseconds
  error : Option (List UInt16)

/-- The blanks of `String.prototype.trim`. -/
def isBlank (u : UInt16) : Bool :=
  9 ≤ u && u ≤ 13 || u = 32 || u = 0xA0 || u = 0x1680 || 0x2000 ≤ u && u ≤ 0x200A || u = 0x2028 ||
    u = 0x2029 || u = 0x202F || u = 0x205F || u = 0x3000 || u = 0xFEFF

def trim (text : List UInt16) : List UInt16 := (text.dropWhile isBlank).rdropWhile isBlank

def ProgramEnd.code : ProgramEnd → Option ℤ
  | .error _ => none
  | .close code => code

def ProgramEnd.message : ProgramEnd → List UInt16
  | .error message => message
  | .close _ => []

def exitText (code : Option ℤ) : String :=
  "process exited " ++ (code.map toString).getD "null"

/-- The first text that is not empty. -/
def failureText (stderr : List UInt16) (ending : ProgramEnd) : List UInt16 :=
  if trim stderr ≠ [] then trim stderr
  else if ending.message ≠ [] then ending.message
  else units (exitText ending.code)

def noOutputMessage : String := "出力ファイルが作成されませんでした"

def timeLimitMessage : String := "制限時間を超えました"

/-- The end of the script; `output` is the size of the output file, if there is one. -/
def Measuring.print (limits : MeasureLimits) (m : Measuring) (ending : ProgramEnd)
    (output : Option ℕ) (durationNs : Nanoseconds) : PrintedAttempt :=
  let (verdict, error) : Verdict × Option (List UInt16) :=
    if m.timedOut then (.timeLimit, none)
    else if m.outputExceeded then (.outputLimit, none)
    else if ending.code ≠ some 0 then (.runtimeError, none)
    else match output with
      | none => (.runtimeError, some (units noOutputMessage))
      | some size =>
          if limits.outputLimitBytes < size then (.outputLimit, none) else (.accepted, none)
  let error :=
    if verdict = .runtimeError ∧ error.all (· = []) then some (failureText m.stderr ending)
    else error
  let error := if verdict = .timeLimit then some (units timeLimitMessage) else error
  let error := if verdict = .outputLimit then some (units outputLimitMessage) else error
  ⟨verdict, if verdict = .accepted then some durationNs else none, error⟩

/-- The schema of the gateway, on the members of the object. -/
def benchmarkAttemptResultSchema (printed : PrintedAttempt) : Option BenchmarkAttemptResult :=
  if h : printed.verdict = .accepted then
    match printed.durationNs, printed.error with
    | some durationNs, none => some (.accepted durationNs)
    | _, _ => none
  else match printed.durationNs with
    | none => some (.failed printed.verdict h printed.error)
    | some _ => none

/-- A run of a program, as it is measured. -/
structure ProgramRun where
  events : List MeasureEvent
  ending : ProgramEnd
  output : Option ℕ
  durationNs : Nanoseconds

def ProgramRun.printed (limits : MeasureLimits) (r : ProgramRun) :
    Option BenchmarkAttemptResult := do
  let m ← measureEvents limits r.events
  benchmarkAttemptResultSchema (m.print limits r.ending r.output r.durationNs)

def MeasureEvent.length : MeasureEvent → ℕ
  | .stdout length => length
  | .stderr length _ => length
  | _ => 0

def MeasureEvent.text : MeasureEvent → List UInt16
  | .stderr _ text => text
  | _ => []

/-- The bytes of stdout and stderr. -/
def capturedBytes (events : List MeasureEvent) : ℕ := (events.map MeasureEvent.length).sum

def stderrText (events : List MeasureEvent) : List UInt16 := events.flatMap MeasureEvent.text

/-- Too many bytes on stdout and stderr, or an output that is too large when the watcher looks at it
or at the end. -/
inductive ProgramRun.TooLarge (limits : MeasureLimits) (r : ProgramRun) : Prop
  | stdio (h : limits.stdioLimitBytes < capturedBytes r.events)
  | watched (size : ℕ) (hmem : MeasureEvent.statted (some size) ∈ r.events)
      (hsize : limits.outputLimitBytes < size)
  | output (size : ℕ) (hexit : r.ending.code = some 0) (houtput : r.output = some size)
      (hsize : limits.outputLimitBytes < size)

/-- A program that stays within the limits, exits with zero and leaves an output. -/
structure ProgramRun.Clean (limits : MeasureLimits) (r : ProgramRun) : Prop where
  inTime : MeasureEvent.timeout ∉ r.events
  small : ¬r.TooLarge limits
  exit : r.ending.code = some 0
  output : r.output.isSome

/-- What went wrong, first the time, then the sizes, then the program itself. -/
inductive ProgramRun.Fault (limits : MeasureLimits) (r : ProgramRun) :
    Verdict → List UInt16 → Prop
  | time (htime : MeasureEvent.timeout ∈ r.events) :
      r.Fault limits .timeLimit (units timeLimitMessage)
  | size (htime : MeasureEvent.timeout ∉ r.events) (hlarge : r.TooLarge limits) :
      r.Fault limits .outputLimit (units outputLimitMessage)
  | exit (htime : MeasureEvent.timeout ∉ r.events) (hsmall : ¬r.TooLarge limits)
      (hexit : r.ending.code ≠ some 0) : r.Fault limits .runtimeError
        (failureText ((stderrText r.events).rtake stderrUnits) r.ending)
  | output (htime : MeasureEvent.timeout ∉ r.events) (hsmall : ¬r.TooLarge limits)
      (hexit : r.ending.code = some 0) (houtput : r.output = none) :
      r.Fault limits .runtimeError (units noOutputMessage)

section Events
variable {limits : MeasureLimits} {events : List MeasureEvent} {e : MeasureEvent} {m m' : Measuring}

/-- The last elements of a text that arrives piece by piece. -/
theorem rtake_rtake_append {α : Type} (n : ℕ) (xs ys : List α) :
    (xs.rtake n ++ ys).rtake n = (xs ++ ys).rtake n := by
  have hdrop : (xs ++ ys).drop (xs.length - n) = xs.rtake n ++ ys :=
    List.drop_append_of_le_length (by omega)
  rw [← hdrop, List.rtake, List.rtake, List.drop_drop, List.length_drop]
  congr 1
  simp only [List.length_append]
  omega

/-- What the process knows after its events. -/
structure Measuring.Knows (limits : MeasureLimits) (m : Measuring) (events : List MeasureEvent) :
    Prop where
  captured : m.captured = capturedBytes events
  timedOut : m.timedOut = true ↔ MeasureEvent.timeout ∈ events
  outputExceeded : m.outputExceeded = true ↔ limits.stdioLimitBytes < capturedBytes events ∨
    ∃ size, MeasureEvent.statted (some size) ∈ events ∧ limits.outputLimitBytes < size
  stderr : m.stderr = (stderrText events).rtake stderrUnits

theorem capturedBytes_concat : capturedBytes (events ++ [e]) = capturedBytes events + e.length := by
  simp [capturedBytes]

theorem stderrText_concat : stderrText (events ++ [e]) = stderrText events ++ e.text := by
  simp [stderrText]

/-- The facts about one more event, from what it changes. -/
theorem Measuring.Knows.concat (h : m.Knows limits events)
    (hcaptured : m'.captured = m.captured + e.length)
    (htime : m'.timedOut = true ↔ m.timedOut = true ∨ e = .timeout)
    (hexceeded : m'.outputExceeded = true ↔
      (m.outputExceeded = true ∨ limits.stdioLimitBytes < m.captured + e.length) ∨
        ∃ size, e = .statted (some size) ∧ limits.outputLimitBytes < size)
    (hstderr : m'.stderr = (m.stderr ++ e.text).rtake stderrUnits) :
    m'.Knows limits (events ++ [e]) where
  captured := by rw [hcaptured, h.captured, capturedBytes_concat]
  timedOut := by
    rw [htime, h.timedOut, List.mem_append, List.mem_singleton, eq_comm (a := e)]
  outputExceeded := by
    rw [hexceeded, h.outputExceeded, h.captured, capturedBytes_concat]
    simp only [List.mem_append, List.mem_singleton]
    constructor
    · rintro (((hlt | ⟨size, hmem, hsize⟩) | hlt) | ⟨size, rfl, hsize⟩)
      · exact .inl (by omega)
      · exact .inr ⟨size, .inl hmem, hsize⟩
      · exact .inl hlt
      · exact .inr ⟨size, .inr rfl, hsize⟩
    · rintro (hlt | ⟨size, hmem | rfl, hsize⟩)
      · exact .inl (.inr hlt)
      · exact .inl (.inl (.inr ⟨size, hmem, hsize⟩))
      · exact .inr ⟨size, rfl, hsize⟩
  stderr := by rw [hstderr, h.stderr, rtake_rtake_append, stderrText_concat]

/-- Whatever was captured so far has been compared with the limit. -/
theorem Measuring.Knows.exceeded_of_captured (h : m.Knows limits events)
    (hlt : limits.stdioLimitBytes < m.captured) : m.outputExceeded = true :=
  h.outputExceeded.mpr (.inl (h.captured ▸ hlt))

theorem Measuring.Knows.stderr_nil (h : m.Knows limits events) :
    m.stderr = (m.stderr ++ []).rtake stderrUnits := by
  rw [h.stderr, rtake_rtake_append, List.append_nil]

theorem Measuring.Knows.step (h : m.Knows limits events) (hstep : m.step limits e = some m') :
    m'.Knows limits (events ++ [e]) := by
  have hquiet (he : e.length = 0) (hsize : ∀ size, e ≠ .statted (some size)) :
      m.outputExceeded = true ↔
        (m.outputExceeded = true ∨ limits.stdioLimitBytes < m.captured + e.length) ∨
          ∃ size, e = .statted (some size) ∧ limits.outputLimitBytes < size := by
    rw [he, Nat.add_zero]
    refine ⟨fun hm => .inl (.inl hm), ?_⟩
    rintro ((hm | hlt) | ⟨size, hmem, -⟩)
    · exact hm
    · exact h.exceeded_of_captured hlt
    · exact absurd hmem (hsize size)
  cases e with
  | stdout length =>
    obtain rfl := Option.some.inj hstep
    refine h.concat rfl (by simp [capture]) ?_ h.stderr_nil
    simp [capture, MeasureEvent.length]
  | stderr length text =>
    obtain rfl := Option.some.inj hstep
    refine h.concat rfl (by simp [capture]) ?_ (by rw [MeasureEvent.text])
    simp [capture, MeasureEvent.length]
  | timeout =>
    obtain rfl := Option.some.inj hstep
    exact h.concat rfl (by simp) (hquiet rfl (by simp)) h.stderr_nil
  | tick =>
    rw [Measuring.step] at hstep
    split at hstep <;>
    · obtain rfl := Option.some.inj hstep
      exact h.concat rfl (by simp) (hquiet rfl (by simp)) h.stderr_nil
  | statted size =>
    rw [Measuring.step] at hstep
    split at hstep
    · obtain rfl := Option.some.inj hstep
      refine h.concat rfl (by simp) ?_ h.stderr_nil
      have hlength : m.captured + (MeasureEvent.statted size).length = m.captured := rfl
      have hlimit : limits.stdioLimitBytes < m.captured → m.outputExceeded = true :=
        h.exceeded_of_captured
      rw [hlength]
      cases size with
      | none => simpa using hlimit
      | some size =>
        simp only [Bool.or_eq_true, Option.any_some, decide_eq_true_eq, MeasureEvent.statted.injEq,
          Option.some.injEq, exists_eq_left']
        tauto
    · cases hstep

theorem knows_start : Measuring.start.Knows limits [] :=
  ⟨rfl, by simp [Measuring.start], by simp [Measuring.start, capturedBytes], rfl⟩

theorem measureEvents_knows (h : measureEvents limits events = some m) : m.Knows limits events := by
  induction events using List.reverseRecOn generalizing m with
  | nil =>
    obtain rfl := Option.some.inj h
    exact knows_start
  | append_singleton events e ih =>
    rw [measureEvents, List.foldlM_append] at h
    obtain ⟨before, hbefore, h⟩ := Option.bind_eq_some_iff.mp h
    rw [List.foldlM_cons] at h
    obtain ⟨after, hafter, h⟩ := Option.bind_eq_some_iff.mp h
    obtain rfl := Option.some.inj h
    exact (ih hbefore).step hafter

end Events

section Results
variable {limits : MeasureLimits} {r : ProgramRun} {m : Measuring} {ending : ProgramEnd}
  {output : Option ℕ} {durationNs : Nanoseconds}

theorem units_ne_nil {text : String} (h : text ≠ "") : units text ≠ [] := by
  intro hnil
  have hdecoded : Utf16.decode (units text) = text.toList := Utf16.decode_encode text.toList
  rw [hnil] at hdecoded
  exact h (String.toList_eq_nil_iff.mp hdecoded.symm)

/-- What is printed passes the schema: an accepted run with its duration and no error, or another
verdict with an error and no duration. -/
theorem schema_print (limits : MeasureLimits) (m : Measuring) (ending : ProgramEnd)
    (output : Option ℕ) (durationNs : Nanoseconds) :
    benchmarkAttemptResultSchema (m.print limits ending output durationNs) =
      if m.timedOut then some (.failed .timeLimit (by decide) (some (units timeLimitMessage)))
      else if m.outputExceeded then
        some (.failed .outputLimit (by decide) (some (units outputLimitMessage)))
      else if ending.code ≠ some 0 then
        some (.failed .runtimeError (by decide) (some (failureText m.stderr ending)))
      else match output with
        | none => some (.failed .runtimeError (by decide) (some (units noOutputMessage)))
        | some size =>
            if limits.outputLimitBytes < size then
              some (.failed .outputLimit (by decide) (some (units outputLimitMessage)))
            else some (.accepted durationNs) := by
  have hmessage : units noOutputMessage ≠ [] := units_ne_nil (by decide)
  unfold Measuring.print
  by_cases htime : m.timedOut = true
  · simp [htime, benchmarkAttemptResultSchema]
  by_cases hexceeded : m.outputExceeded = true
  · simp [htime, hexceeded, benchmarkAttemptResultSchema]
  by_cases hexit : ending.code = some 0
  · cases output with
    | none => simp [htime, hexceeded, hexit, hmessage, benchmarkAttemptResultSchema]
    | some size =>
      by_cases hsize : limits.outputLimitBytes < size
      · simp [htime, hexceeded, hexit, hsize, benchmarkAttemptResultSchema]
      · simp [htime, hexceeded, hexit, hsize, benchmarkAttemptResultSchema]
  · simp [htime, hexceeded, hexit, benchmarkAttemptResultSchema]

theorem ProgramRun.printed_eq (h : measureEvents limits r.events = some m) :
    r.printed limits =
      benchmarkAttemptResultSchema (m.print limits r.ending r.output r.durationNs) := by
  rw [ProgramRun.printed, h]
  rfl

theorem ProgramRun.Fault.not_clean {verdict : Verdict} {error : List UInt16}
    (h : r.Fault limits verdict error) : ¬r.Clean limits := by
  intro hclean
  cases h with
  | time htime => exact hclean.inTime htime
  | size _ hlarge => exact hclean.small hlarge
  | exit _ _ hexit => exact hexit hclean.exit
  | output _ _ _ houtput =>
    have hsome := hclean.output
    rw [houtput] at hsome
    cases hsome

theorem failureText_ne_nil (stderr : List UInt16) (ending : ProgramEnd) :
    failureText stderr ending ≠ [] := by
  unfold failureText
  split_ifs with hstderr hmessage
  · exact hstderr
  · exact hmessage
  · exact units_ne_nil (by simp [exitText])

theorem ProgramRun.Fault.error_ne_nil {verdict : Verdict} {error : List UInt16}
    (h : r.Fault limits verdict error) : error ≠ [] := by
  cases h with
  | time | size | output => exact units_ne_nil (by decide)
  | exit => exact failureText_ne_nil _ _

/-- The watcher and the captured bytes, as far as they are known when the program has ended. -/
theorem Measuring.Knows.tooLarge (h : m.Knows limits r.events) :
    r.TooLarge limits ↔ m.outputExceeded = true ∨ r.ending.code = some 0 ∧
      ∃ size, r.output = some size ∧ limits.outputLimitBytes < size := by
  rw [h.outputExceeded]
  constructor
  · rintro (hlt | ⟨size, hmem, hsize⟩ | ⟨size, hexit, houtput, hsize⟩)
    · exact .inl (.inl hlt)
    · exact .inl (.inr ⟨size, hmem, hsize⟩)
    · exact .inr ⟨hexit, size, houtput, hsize⟩
  · rintro ((hlt | ⟨size, hmem, hsize⟩) | ⟨hexit, size, houtput, hsize⟩)
    · exact .stdio hlt
    · exact .watched size hmem hsize
    · exact .output size hexit houtput hsize

/-- The gateway gets a result from every run. It is accepted, with the time of the run, exactly when
the program was clean; otherwise it has the first fault of the program and says what it is. -/
theorem measured_result (h : measureEvents limits r.events = some m) :
    r.Clean limits ∧ r.printed limits = some (.accepted r.durationNs) ∨
      ¬r.Clean limits ∧ ∃ verdict hverdict error,
        r.printed limits = some (.failed verdict hverdict (some error)) ∧
          r.Fault limits verdict error ∧ error ≠ [] := by
  have hknows := measureEvents_knows h
  have hfault {verdict : Verdict} {error : List UInt16} (hverdict : verdict ≠ .accepted)
      (hprinted : r.printed limits = some (.failed verdict hverdict (some error)))
      (hfault : r.Fault limits verdict error) : ¬r.Clean limits ∧ ∃ verdict hverdict error,
        r.printed limits = some (.failed verdict hverdict (some error)) ∧
          r.Fault limits verdict error ∧ error ≠ [] :=
    ⟨hfault.not_clean, verdict, hverdict, error, hprinted, hfault, hfault.error_ne_nil⟩
  have hprinted := r.printed_eq h
  rw [schema_print] at hprinted
  by_cases htime : m.timedOut = true
  · rw [if_pos htime] at hprinted
    exact .inr (hfault _ hprinted (.time (hknows.timedOut.mp htime)))
  rw [if_neg htime] at hprinted
  rw [hknows.timedOut] at htime
  by_cases hexceeded : m.outputExceeded = true
  · rw [if_pos hexceeded] at hprinted
    exact .inr (hfault _ hprinted (.size htime (hknows.tooLarge.mpr (.inl hexceeded))))
  rw [if_neg hexceeded] at hprinted
  by_cases hexit : r.ending.code = some 0
  · rw [if_neg (not_not.mpr hexit)] at hprinted
    cases houtput : r.output with
    | none =>
      rw [houtput] at hprinted
      have hsmall : ¬r.TooLarge limits := by
        rw [hknows.tooLarge, houtput]
        simp [hexceeded]
      exact .inr (hfault _ hprinted (.output htime hsmall hexit houtput))
    | some size =>
      rw [houtput] at hprinted
      dsimp only at hprinted
      by_cases hsize : limits.outputLimitBytes < size
      · rw [if_pos hsize] at hprinted
        exact .inr (hfault _ hprinted (.size htime (.output size hexit houtput hsize)))
      · rw [if_neg hsize] at hprinted
        have hsmall : ¬r.TooLarge limits := by
          rw [hknows.tooLarge, houtput]
          simpa [hexceeded] using fun _ => Nat.not_lt.mp hsize
        exact .inl ⟨⟨htime, hsmall, hexit, by rw [houtput]; rfl⟩, hprinted⟩
  · rw [if_pos hexit] at hprinted
    have hsmall : ¬r.TooLarge limits := by
      rw [hknows.tooLarge]
      simp [hexceeded, hexit]
    rw [hknows.stderr] at hprinted
    exact .inr (hfault _ hprinted (.exit htime hsmall hexit))

def sampleLimits : MeasureLimits := ⟨1048576, benchmarkPolicy.outputLimitBytes⟩

/-- A program that prints a line, has no output when the watcher looks, and is killed. -/
def slowRun : ProgramRun where
  events := [.stdout 20, .tick, .statted none, .timeout]
  ending := .close none
  output := none
  durationNs := ⟨"10000000001", by decide⟩

theorem events_slowRun : measureEvents sampleLimits slowRun.events =
    some ⟨20, false, true, [], false⟩ := rfl

theorem measured_result_slowRun : ∃ verdict hverdict error,
    slowRun.printed sampleLimits = some (.failed verdict hverdict (some error)) ∧
      slowRun.Fault sampleLimits verdict error ∧ error ≠ [] := by
  rcases measured_result events_slowRun with ⟨hclean, -⟩ | ⟨-, hfault⟩
  · exact absurd (by simp [slowRun]) hclean.inTime
  · exact hfault

end Results

section Benchmark
variable {limits : MeasureLimits} {dataset : DatasetRun} {runs : ℕ → ProgramRun}
  {result : BenchmarkResult} {i : ℕ}

/-- What the gateway reads of an attempt was printed at the end of a run of the program. -/
def Measures (limits : MeasureLimits) (dataset : DatasetRun) (runs : ℕ → ProgramRun) : Prop :=
  ∀ i printed, (dataset.attempts i).printed = some printed →
    (runs i).printed limits = some printed

/-- An attempt whose program is clean and whose output is right. -/
def Passed (limits : MeasureLimits) (dataset : DatasetRun) (runs : ℕ → ProgramRun) (i : ℕ) :
    Prop :=
  (runs i).Clean limits ∧ compareOutput (dataset.attempts i).output dataset.expected = .ok ()

/-- What an attempt did to be given a verdict and its error. -/
inductive Deserves (limits : MeasureLimits) (dataset : DatasetRun) (runs : ℕ → ProgramRun)
    (i : ℕ) : Verdict → Option (List UInt16) → Prop
  | faulty {verdict : Verdict} {error : List UInt16}
      (hfault : (runs i).Fault limits verdict error) :
      Deserves limits dataset runs i verdict (some error)
  | large (hclean : (runs i).Clean limits) (size : ℕ)
      (hsize : (dataset.attempts i).output.stat = .ok size)
      (hlimit : benchmarkPolicy.outputLimitBytes < size) :
      Deserves limits dataset runs i .outputLimit (some (units outputLimitMessage))
  | wrong (hclean : (runs i).Clean limits) (error : ComparisonError)
      (hcompare : compareOutput (dataset.attempts i).output dataset.expected = .error error) :
      Deserves limits dataset runs i .wrongAnswer (some (Utf16.encode error.message))

/-- What a benchmark says about the runs of the program. -/
def Describes (limits : MeasureLimits) (dataset : DatasetRun) (runs : ℕ → ProgramRun) :
    BenchmarkResult → Prop
  | .accepted durationsNs _ => ∀ i durationNs, durationsNs[i]? = some durationNs →
      Passed limits dataset runs (i + 1) ∧ durationNs = (runs (i + 1)).durationNs
  | .failed verdict _ error => ∃ n < benchmarkPolicy.repetitions,
      (∀ i < n, Passed limits dataset runs (i + 1)) ∧
        Deserves limits dataset runs (n + 1) verdict error

theorem Measures.printed_cases (h : Measures limits dataset runs)
    {printed : BenchmarkAttemptResult} (hprinted : (dataset.attempts i).printed = some printed) :
    (runs i).Clean limits ∧ printed = .accepted (runs i).durationNs ∨
      ∃ verdict hverdict error, printed = .failed verdict hverdict (some error) ∧
        (runs i).Fault limits verdict error := by
  have hrun := h i printed hprinted
  obtain ⟨m, hm, -⟩ := Option.bind_eq_some_iff.mp hrun
  rcases measured_result hm with ⟨hclean, haccepted⟩ | ⟨-, verdict, hverdict, error, hfailed, hrest⟩
  · exact .inl ⟨hclean, Option.some.inj (hrun.symm.trans haccepted)⟩
  · exact .inr ⟨verdict, hverdict, error, Option.some.inj (hrun.symm.trans hfailed), hrest.1⟩

theorem Measures.accepted (h : Measures limits dataset runs) {durationNs : Nanoseconds}
    (hattempt : runAttempt (dataset.attempts i) = some (.accepted durationNs)) :
    (runs i).Clean limits ∧ durationNs = (runs i).durationNs := by
  rcases runAttempt_some hattempt with hprinted | hprinted
  · rcases h.printed_cases hprinted with ⟨hclean, haccepted⟩ | ⟨_, _, _, hfailed, -⟩
    · cases haccepted
      exact ⟨hclean, rfl⟩
    · cases hfailed
  · cases hprinted

theorem Measures.failed (h : Measures limits dataset runs) {verdict : Verdict}
    {hverdict : verdict ≠ .accepted} {error : Option (List UInt16)}
    (hattempt : runAttempt (dataset.attempts i) = some (.failed verdict hverdict error)) :
    Deserves limits dataset runs i verdict error := by
  cases hprinted : (dataset.attempts i).printed with
  | none =>
    rw [runAttempt, hprinted] at hattempt
    cases hattempt
  | some printed =>
    rw [runAttempt, hprinted] at hattempt
    rcases h.printed_cases hprinted with ⟨hclean, rfl⟩ | ⟨_, _, _, rfl, hfault⟩
    · -- accepted by the run, and refused by the gateway
      dsimp only at hattempt
      split at hattempt
      · cases hattempt
      · next size hsize =>
        split at hattempt
        · next hlimit =>
          cases hattempt
          exact .large hclean size hsize hlimit
        · cases hattempt
    · cases hattempt
      exact .faulty hfault

/-- The loop of `benchmark` from an attempt on, when those before it passed. -/
theorem Measures.benchmarkFrom (h : Measures limits dataset runs) {remaining attempt : ℕ}
    {durations : List Nanoseconds} (hattempt : attempt = durations.length + 1)
    (hremaining : durations.length + remaining = benchmarkPolicy.repetitions)
    (hpassed : ∀ i durationNs, durations[i]? = some durationNs →
      Passed limits dataset runs (i + 1) ∧ durationNs = (runs (i + 1)).durationNs)
    (hrun : Runner.benchmarkFrom dataset remaining attempt durations = some result) :
    Describes limits dataset runs result := by
  induction remaining generalizing attempt durations with
  | zero =>
    rw [Runner.benchmarkFrom] at hrun
    obtain rfl := Option.some.inj hrun
    exact hpassed
  | succ remaining ih =>
    have hbefore : ∀ i < durations.length, Passed limits dataset runs (i + 1) := fun i hi =>
      (hpassed i _ (List.getElem?_eq_getElem hi)).1
    have hlt : durations.length < benchmarkPolicy.repetitions := by omega
    subst hattempt
    rcases benchmarkFrom_succ hrun with ⟨_, _, _, hfailed, rfl⟩ | ⟨d, haccepted, hrest⟩
    · exact ⟨_, hlt, hbefore, h.failed hfailed⟩
    obtain ⟨hclean, rfl⟩ := h.accepted haccepted
    rcases hrest with ⟨error, hcompare, rfl⟩ | ⟨hcompare, hrest⟩
    · exact ⟨_, hlt, hbefore, .wrong hclean error hcompare⟩
    have hnext : ∀ i durationNs,
        (durations ++ [(runs (durations.length + 1)).durationNs])[i]? = some durationNs →
          Passed limits dataset runs (i + 1) ∧ durationNs = (runs (i + 1)).durationNs := by
      intro i durationNs hi
      rw [List.getElem?_append] at hi
      split at hi
      · exact hpassed i durationNs hi
      · next hle =>
        obtain ⟨hzero, hlast⟩ := List.getElem?_eq_some_iff.mp hi
        rw [List.length_singleton] at hzero
        obtain rfl : i = durations.length := by omega
        simp only [Nat.sub_self, List.getElem_cons_zero] at hlast
        exact ⟨⟨hclean, hcompare⟩, hlast.symm⟩
    have hlength : (durations ++ [(runs (durations.length + 1)).durationNs]).length =
        durations.length + 1 := by rw [List.length_append, List.length_singleton]
    rcases hrest with ⟨-, hrest⟩ | ⟨-, hrest⟩
    · rw [Runner.benchmarkFrom] at hrest
      obtain rfl := Option.some.inj hrest
      exact hnext
    · exact ih (by rw [hlength]) (by rw [hlength]; omega) hnext hrest

/-- An accepted benchmark has the times of runs that were all clean and right. Every other verdict
is deserved by the first run that was not. -/
theorem benchmark_describes (h : Measures limits dataset runs)
    (hrun : benchmark dataset = some result) : Describes limits dataset runs result := by
  unfold benchmark at hrun
  split at hrun
  · have hfirst : 1 = ([] : List Nanoseconds).length + 1 := rfl
    refine h.benchmarkFrom hfirst rfl (fun i durationNs hi => ?_) hrun
    simp at hi
  · cases hrun

theorem printed_slowRun : slowRun.printed sampleLimits =
    some (.failed .timeLimit (by decide) (some (units timeLimitMessage))) := by
  rw [ProgramRun.printed_eq events_slowRun, schema_print, if_pos rfl]

/-- A program that prints a line, exits with zero and leaves an output. -/
def steadyRun (size : ℕ) : ProgramRun where
  events := [.stdout 20, .tick, .statted none]
  ending := .close (some 0)
  output := some size
  durationNs := ⟨"1500000000", by decide⟩

theorem printed_steadyRun {size : ℕ} (hsize : size ≤ benchmarkPolicy.outputLimitBytes) :
    (steadyRun size).printed sampleLimits = some (.accepted (steadyRun size).durationNs) := by
  have hevents : measureEvents sampleLimits (steadyRun size).events =
      some ⟨20, false, false, [], false⟩ := rfl
  rw [ProgramRun.printed_eq hevents, schema_print]
  simp [steadyRun, sampleLimits, ProgramEnd.code, Nat.not_lt.mpr hsize]

/-- The third run is slow. -/
def tiringRun (size i : ℕ) : ProgramRun := if i < 3 then steadyRun size else slowRun

def tiringDataset (output expected : List UInt8) : DatasetRun where
  cached := true
  expected := .regular expected
  attempts := fun i => ⟨false, (tiringRun output.length i).printed sampleLimits,
    if i < 3 then .regular output else .missing "no such file", true⟩

/-- Two outputs are compared before the third attempt fails. -/
theorem benchmark_tiring {output expected : List UInt8}
    (hsize : output.length ≤ benchmarkPolicy.outputLimitBytes)
    (hcompare : compareOutput (.regular output) (.regular expected) = .ok ()) :
    benchmark (tiringDataset output expected) =
      some (.failed .timeLimit (by decide) (some (units timeLimitMessage))) := by
  have hsteady {i : ℕ} (hi : i < 3) : runAttempt ((tiringDataset output expected).attempts i) =
      some (.accepted (steadyRun output.length).durationNs) := by
    simp [runAttempt, tiringDataset, tiringRun, hi, printed_steadyRun hsize, File.stat,
      Nat.not_lt.mpr hsize]
  have hslow : runAttempt ((tiringDataset output expected).attempts 3) =
      some (.failed .timeLimit (by decide) (some (units timeLimitMessage))) := by
    simp [runAttempt, tiringDataset, tiringRun, printed_slowRun]
  have hfast : decide (benchmarkPolicy.slowFirstAttemptSeconds * 1000000000 <
      (steadyRun 0).durationNs.toNat) = false := by decide +kernel
  have hshort (i : ℕ) : shouldStopAfterFirstAttempt i (steadyRun output.length).durationNs =
      false := Bool.and_eq_false_iff.mpr (.inr hfast)
  have hoption (i : ℕ) : ((tiringDataset output expected).attempts i).cancelled = false ∧
      ((tiringDataset output expected).attempts i).workRemoved = true := ⟨rfl, rfl⟩
  have hpassed {i : ℕ} (hi : i < 3) :
      compareOutput ((tiringDataset output expected).attempts i).output
        (tiringDataset output expected).expected = .ok () := by
    simp only [tiringDataset, if_pos hi, hcompare]
  have hcached : (tiringDataset output expected).cached = true := rfl
  simp only [benchmark, hcached, benchmarkFrom, benchmarkPolicy.repetitions, hoption, hshort, hslow,
    hsteady (show 1 < 3 by decide), hsteady (show 1 + 1 < 3 by decide),
    hpassed (show 1 < 3 by decide), hpassed (show 1 + 1 < 3 by decide), Bool.false_eq_true,
    if_false, if_true]

theorem benchmark_describes_tiring : Describes sampleLimits
    (tiringDataset (Utf8.encodeAscii "b=1/1.00/1/1/0\r\na=1/1.00/1/1/0\r\n".toList)
      (Utf8.encodeAscii "a=1/1.00/1/1/0\nb=1/1.00/1/1/0\n".toList)) (tiringRun 32)
    (.failed .timeLimit (by decide) (some (units timeLimitMessage))) :=
  benchmark_describes (fun _ _ hprinted => hprinted)
    (benchmark_tiring (by decide +kernel) (by decide +kernel))

end Benchmark
end OneBrc.Runner
