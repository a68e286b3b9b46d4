import OneBrc.Lib.Digits
import OneBrc.Lib.Utf16

/-! Enumerations and result types shared by the API, the server and the runner. -/
namespace OneBrc

inductive ExecutionKind where
  | native | javascript | typescript | bun | ruby
  deriving DecidableEq

inductive Language where
  | c | cpp | go | rust | zig | csharp | other | javascript | typescript | bun | ruby
  deriving DecidableEq

inductive SubmissionStatus where
  | uploading | queued | running | completed | rejected | infrastructureError | disqualified
  deriving DecidableEq

inductive Verdict where
  | accepted | wrongAnswer | runtimeError | timeLimit | outputLimit | invalidSubmission
  | infrastructureError | disqualified
  deriving DecidableEq

inductive LeaderboardBoard where
  | publicBoard | privateBoard
  deriving DecidableEq

/-- `dataset_kind` of a benchmark run. -/
inductive Dataset where
  | publicData | privateData
  deriving DecidableEq

def ExecutionKind.name : ExecutionKind → String
  | .native => "native"
  | .javascript => "javascript"
  | .typescript => "typescript"
  | .bun => "bun"
  | .ruby => "ruby"

def Language.name : Language → String
  | .c => "c"
  | .cpp => "cpp"
  | .go => "go"
  | .rust => "rust"
  | .zig => "zig"
  | .csharp => "csharp"
  | .other => "other"
  | .javascript => "javascript"
  | .typescript => "typescript"
  | .bun => "bun"
  | .ruby => "ruby"

def SubmissionStatus.name : SubmissionStatus → String
  | .uploading => "uploading"
  | .queued => "queued"
  | .running => "running"
  | .completed => "completed"
  | .rejected => "rejected"
  | .infrastructureError => "infrastructure_error"
  | .disqualified => "disqualified"

def Verdict.name : Verdict → String
  | .accepted => "accepted"
  | .wrongAnswer => "wrong_answer"
  | .runtimeError => "runtime_error"
  | .timeLimit => "time_limit"
  | .outputLimit => "output_limit"
  | .invalidSubmission => "invalid_submission"
  | .infrastructureError => "infrastructure_error"
  | .disqualified => "disqualified"

def Verdict.all : List Verdict :=
  [.accepted, .wrongAnswer, .runtimeError, .timeLimit, .outputLimit, .invalidSubmission,
    .infrastructureError, .disqualified]

/-- `validVerdict`, with the verdict that the text names. -/
def Verdict.ofName? (name : String) : Option Verdict := Verdict.all.find? fun v => v.name = name

def LeaderboardBoard.name : LeaderboardBoard → String
  | .publicBoard => "public"
  | .privateBoard => "private"

/-- The statuses that count as an unfinished submission of their user. -/
def SubmissionStatus.isActive : SubmissionStatus → Bool
  | .uploading | .queued | .running => true
  | _ => false

@[simp] theorem Verdict.ofName?_name (v : Verdict) : Verdict.ofName? v.name = some v := by
  cases v <;> decide

namespace benchmarkPolicy

def repetitions : ℕ := 3
def slowFirstAttemptSeconds : ℕ := 60
def outputLimitBytes : ℕ := 256 * 1024 * 1024

end benchmarkPolicy

def nanosecondsSchema (value : String) : Bool :=
  value.toList ≠ [] && Lib.Digits.allDigits value.toList

/-- A text that `nanosecondsSchema` lets through. -/
structure Nanoseconds where
  text : String
  valid : nanosecondsSchema text = true
  deriving DecidableEq

/-- `BigInt` of the text. -/
def Nanoseconds.toNat (duration : Nanoseconds) : ℕ := Lib.Digits.value duration.text.toList

def compareNanoseconds (left right : Nanoseconds) : ℤ :=
  if left.toNat < right.toNat then -1 else if right.toNat < left.toNat then 1 else 0

def shouldStopAfterFirstAttempt (attempt : ℕ) (duration : Nanoseconds) : Bool :=
  attempt = 1 && benchmarkPolicy.slowFirstAttemptSeconds * 1000000000 < duration.toNat

/-- What a benchmark on one dataset ends with; durations and median are decimal nanoseconds. -/
structure BenchmarkResult where
  verdict : Verdict
  durationsNS : Option (List String)
  medianNS : Option String
  error : Option String
  deriving DecidableEq

structure RunnerJobResult where
  publicResult : BenchmarkResult
  privateResult : Option BenchmarkResult
  environmentID : String
  deriving DecidableEq

/-- Cut after `limit` UTF-16 units; a surrogate pair that is cut in half is replaced. -/
def truncateUTF16 (value : String) (limit : ℕ) : String :=
  if Lib.Utf16.length value ≤ limit then value
  else String.ofList (Lib.Utf16.decode ((Lib.Utf16.encode value.toList).take limit))

end OneBrc
