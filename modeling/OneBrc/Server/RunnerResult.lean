import OneBrc.Domain
import OneBrc.Lib.Digits
import OneBrc.Lib.Json

/-! The result text of the runner as `runner.go` decodes and checks it. A text is given by its JSON
value, whose strings are the units that the text escapes or spells out. -/
namespace OneBrc.Server
open Lib

/-- `digits`: a non-empty string of decimal digits. -/
def digits (value : String) : Bool := !value.toList.isEmpty && Digits.allDigits value.toList

/-- The checks of `validateBenchmarkResult` after the one on the verdict's name. -/
def validateBenchmarkResult (result : BenchmarkResult) : Bool :=
  if result.verdict = .accepted then
    result.medianNS.any digits &&
      match result.durationsNS with
      | none => false
      | some durations =>
          (durations.length = 1 || durations.length = 3) && durations.all digits
  else
    result.medianNS.isNone && result.durationsNS.isNone

/-- The checks of `runnerClient.run` on a decoded result. -/
def validateRunnerResult (environmentID : String) (result : RunnerJobResult) : Bool :=
  result.environmentID = environmentID && validateBenchmarkResult result.publicResult &&
    result.privateResult.all validateBenchmarkResult

section Decode

/-- A value of a decoded text. -/
abbrev RawMessage := Json (List UInt16)

abbrev Member := List UInt16 × RawMessage

/-- A Go string; unpaired surrogates become U+FFFD. -/
def goString (units : List UInt16) : String := String.ofList (Utf16.decode units)

/-- `foldRune` on the characters that it takes to a letter of a name: the long s and the Kelvin sign
are spellings of letters too. -/
def foldRune (c : Char) : Char :=
  if c.toNat = 0x17F then 's' else if c.toNat = 0x212A then 'k' else c.toLower

/-- Names of structure fields match without regard to case. -/
def namesField (name field : String) : Bool :=
  name.toList.map foldRune = field.toList.map foldRune

def isNull : RawMessage → Bool
  | .null => true
  | _ => false

/-- Decoding into a `string`; `null` has no effect. -/
def decodeString (old : String) : RawMessage → Option String
  | .string s => some (goString s)
  | .null => some old
  | _ => none

/-- Decoding into a `*string`. -/
def decodeStringPointer : RawMessage → Option (Option String)
  | .string s => some (some (goString s))
  | .null => some none
  | _ => none

/-- A Go slice: its elements, and what the array behind it has after them. -/
structure Slice (α : Type) where
  elements : List α
  spare : List α

def Slice.array {α : Type} (slice : Slice α) : List α := slice.elements ++ slice.spare

section Slices
variable {α : Type} (decode : α → RawMessage → Option α) (zero : α)

/-- Decoding elements over an array, which has zero values where it grows. -/
def decodeElements : List α → List RawMessage → Option (Slice α)
  | array, [] => some ⟨[], array⟩
  | array, element :: elements => do
      let first ← decode (array.headD zero) element
      let rest ← decodeElements array.tail elements
      pure ⟨first :: rest.elements, rest.spare⟩

/-- Decoding into a slice. The array of a slice that is decoded into again is kept, so that a `null`
leaves the element in its place, unless the value is empty or `null` itself. -/
def decodeSlice (old : Option (Slice α)) : RawMessage → Option (Option (Slice α))
  | .array [] => some (some ⟨[], []⟩)
  | .array elements => (decodeElements decode zero (old.elim [] Slice.array) elements).map some
  | .null => some none
  | _ => none

end Slices

abbrev StringSlice := Slice String

def decodeStrings : Option StringSlice → RawMessage → Option (Option StringSlice) :=
  decodeSlice decodeString ""

/-- The structure that `decodeRunnerResult` decodes into first. -/
structure RawResult where
  publicRaw : Option RawMessage
  privateRaw : Option RawMessage
  environmentID : String

def decodeRawMember (raw : RawResult) (member : Member) : Option RawResult :=
  let name := goString member.1
  if namesField name "public" then some { raw with publicRaw := some member.2 }
  else if namesField name "private" then some { raw with privateRaw := some member.2 }
  else if namesField name "environmentId" then
    (decodeString raw.environmentID member.2).map fun environmentID => { raw with environmentID }
  else none

/-- `decodeStrictJSON` into a `RawResult`. -/
def decodeRaw : RawMessage → Option RawResult
  | .object members => members.foldlM decodeRawMember ⟨none, none, ""⟩
  | .null => some ⟨none, none, ""⟩
  | _ => none

/-- A `benchmarkResult` before its verdict is checked. -/
structure DecodedBenchmarkResult where
  verdict : String
  durationsNS : Option StringSlice
  medianNS : Option String
  error : Option String

def benchmarkResultFields : List String := ["verdict", "durationsNs", "medianNs", "error"]

/-- Keys of the map that a text is decoded into. -/
def memberNames (members : List Member) : List String :=
  (members.map fun member => goString member.1).dedup

/-- Entry of that map; the last member of a name wins. -/
def lastMember? (members : List Member) (name : String) : Option RawMessage :=
  (members.reverse.find? fun member => goString member.1 = name).map (·.2)

/-- The map has exactly the four names, so none differs from a field in case only. -/
def hasBenchmarkFields (members : List Member) : Bool :=
  (memberNames members).length = 4 &&
    benchmarkResultFields.all fun name => (lastMember? members name).isSome

def decodeBenchmarkMember (result : DecodedBenchmarkResult) (member : Member) :
    Option DecodedBenchmarkResult :=
  let name := goString member.1
  if name = "verdict" then
    (decodeString result.verdict member.2).map fun verdict => { result with verdict }
  else if name = "durationsNs" then
    (decodeStrings result.durationsNS member.2).map fun durationsNS => { result with durationsNS }
  else if name = "medianNs" then
    (decodeStringPointer member.2).map fun medianNS => { result with medianNS }
  else if name = "error" then
    (decodeStringPointer member.2).map fun error => { result with error }
  else none

/-- The null rules at the end of `decodeBenchmarkResult`. -/
def hasNulls (members : List Member) (verdict : Verdict) : Bool :=
  if verdict = .accepted then (lastMember? members "error").any isNull
  else (lastMember? members "durationsNs").any isNull &&
    (lastMember? members "medianNs").any isNull

def decodeBenchmarkResult : RawMessage → Option BenchmarkResult
  | .object members => do
      guard (hasBenchmarkFields members)
      let decoded ← members.foldlM decodeBenchmarkMember ⟨"", none, none, none⟩
      let verdict ← Verdict.ofName? decoded.verdict
      let result :=
        ⟨verdict, decoded.durationsNS.map (·.elements), decoded.medianNS, decoded.error⟩
      guard (validateBenchmarkResult result)
      guard (hasNulls members verdict)
      pure result
  | _ => none

def decodePrivateResult (raw : RawMessage) : Option (Option BenchmarkResult) :=
  if isNull raw then some none else (decodeBenchmarkResult raw).map some

def decodeRunnerResult (content : RawMessage) : Option RunnerJobResult := do
  let raw ← decodeRaw content
  let publicRaw ← raw.publicRaw
  let privateRaw ← raw.privateRaw
  guard (raw.environmentID ≠ "")
  let publicResult ← decodeBenchmarkResult publicRaw
  let privateResult ← decodePrivateResult privateRaw
  pure ⟨publicResult, privateResult, raw.environmentID⟩

/-- `runnerClient.run` on the output of the command. -/
def runnerClientRun (environmentID : String) (output : RawMessage) : Option RunnerJobResult :=
  (decodeRunnerResult output).filter (validateRunnerResult environmentID)

end Decode

theorem runnerClientRun_valid {environmentID : String} {output : RawMessage}
    {result : RunnerJobResult} (h : runnerClientRun environmentID output = some result) :
    validateRunnerResult environmentID result = true :=
  (Option.filter_eq_some_iff.mp h).2

end OneBrc.Server
