import OneBrc.Data.Files
import OneBrc.Data.Generator
import OneBrc.Data.Prefix
import OneBrc.Lib.Fallible
import OneBrc.Lib.Rfc3339

/-! `Generate`: the datasets of a contest, their expected outputs, the archives and the manifest. -/
namespace OneBrc.Data
open Lib Analyzer

/-- `contestdata.Artifact` -/
structure Artifact where
  id : String
  kind : String
  label : String
  objectKey : String
  rows : Int64
  compressedBytes : Int64
  uncompressedBytes : Int64
  compressedSha256 : String
  uncompressedSha256 : String
  isPublic : Bool

/-- `contestdata.Manifest` -/
structure Manifest where
  schemaVersion : ℤ
  contestId : String
  generatedAt : String
  generatorRevision : String
  artifacts : List Artifact

/-- What the program is given by its libraries, the clock and the order of a map: the draws, the
sizes of the reads, the printed means, Zstandard, SHA-256 and the JSON of a manifest. -/
structure Environment where
  random : Random
  reads : ℕ → ℕ
  mean : ℤ → ℤ → Bytes
  compress : Bytes → Bytes
  sha256 : Bytes → Fin 32 → UInt8
  marshal : Manifest → Bytes
  order : List (Path × String) → List (Path × String)
  now : ℕ

inductive Failure where
  | message (text : String)
  | within (context : String) (cause : Failure)
  | generator (cause : GenerateError)
  | linePrefix (cause : PrefixError)
  | expected
  | file (cause : FileError)

def wrap {α : Type} (context : String) (x : Except Failure α) : Except Failure α :=
  x.mapError (.within context)

def defaultChannels : Int64 := 10000

/-- The runner directory is disabled by the empty name. -/
structure GenerateOptions where
  outputDir : String
  runnerDir : String
  contestId : String
  publicRows : Int64
  privateRows : Int64
  publicSeed : Int64
  privateSeed : Int64
  tiers : List Int64
  threads : Int64
  revision : String

namespace GenerateOptions
variable (options : GenerateOptions)

def publicFull : Path := ⟨options.outputDir, datasetName "public" options.publicRows .csv⟩

def privateFull : Path := ⟨options.outputDir, datasetName "private" options.privateRows .csv⟩

/-- `tierFiles[rows]` -/
def tierFile (rows : Int64) : Path :=
  if rows = options.publicRows then options.publicFull
  else ⟨options.outputDir, datasetName "public" rows .csv⟩

def publicDataset : Options :=
  ⟨options.publicRows, defaultChannels, options.publicSeed, .publicWordset⟩

def privateDataset : Options :=
  ⟨options.privateRows, defaultChannels, options.privateSeed, .privateWordset⟩

end GenerateOptions

def expectedPath (input : Path) : Path :=
  { input with name := trimSuffix input.name ".csv" ++ ".expected" }

def zstPath (path : Path) : Path := { path with name := path.name ++ ".zst" }

def hexEncode (digest : Fin 32 → UInt8) : String :=
  String.ofList ((List.finRange 32).flatMap fun i =>
    [Nat.digitChar ((digest i).toNat / 16), Nat.digitChar ((digest i).toNat % 16)])

section Steps
variable (env : Environment)

/-- `datafile.Info`: the size and the hash of a file. -/
def info (disk : Disk) (path : Path) : Except Failure (Int64 × String) := do
  let file ← (disk.read path).mapError .file
  return (Int64.ofNat file.bytes.length, hexEncode (env.sha256 file.bytes))

def packageArtifact (contestId id kind label : String) (rows : Int64) (isPublic : Bool)
    (path : Path) (disk : Disk) : Except Failure (Disk × Artifact) := do
  let source ← (disk.read path).mapError .file
  let compressedPath := zstPath path
  let disk ← wrap ("compress " ++ path.dir ++ "/" ++ path.name)
    ((disk.write compressedPath (env.compress source.bytes)).mapError .file)
  let (uncompressedSize, uncompressedHash) ← info env disk path
  let (compressedSize, compressedHash) ← info env disk compressedPath
  let scope := if isPublic then "public" else "private"
  return (disk,
    { id, kind, label, rows, isPublic
      objectKey := "datasets/" ++ contestId ++ "/" ++ scope ++ "/" ++ compressedPath.name
      compressedBytes := compressedSize
      uncompressedBytes := uncompressedSize
      compressedSha256 := compressedHash
      uncompressedSha256 := uncompressedHash })

def generateCSV (path : Path) (options : Options) (disk : Disk) : Except Failure Disk := do
  let bytes ← (generateFile env.random options).mapError .generator
  (disk.write path bytes).mapError .file

def generateExpected (threads : Int64) (input output : Path) (disk : Disk) :
    Except Failure Disk := do
  let file ← (disk.read input).mapError .file
  match Expected.generate env.mean file.bytes threads with
  | none => .error .expected
  | some lines => (disk.write output lines.flatten).mapError .file

def writePrefixFile (source destination : Path) (rows : Int64) (disk : Disk) :
    Except Failure Disk := do
  let file ← (disk.read source).mapError .file
  let bytes ← (writePrefix env.reads file.bytes rows.toInt.toNat).mapError .linePrefix
  (disk.write destination bytes).mapError .file

variable (options : GenerateOptions)

/-- The whole dataset is a tier that exists already. -/
def prefixTier (disk : Disk) (rows : Int64) : Except Failure Disk :=
  if rows = options.publicRows then .ok disk
  else wrap ("make " ++ toString rows.toInt ++ " row prefix")
    (writePrefixFile env options.publicFull (options.tierFile rows) rows disk)

def packageTier (state : Disk × List Artifact) (rows : Int64) :
    Except Failure (Disk × List Artifact) := do
  let input := options.tierFile rows
  let expected := expectedPath input
  let disk ← wrap ("expected for " ++ toString rows.toInt ++ " rows")
    (generateExpected env options.threads input expected state.1)
  let label := tierLabel rows
  let (disk, inputArtifact) ← packageArtifact env options.contestId ("public-" ++ label ++ "-input")
    "input" ("Public " ++ label.toUpper ++ " input") rows true input disk
  let (disk, expectedArtifact) ← packageArtifact env options.contestId
    ("public-" ++ label ++ "-expected") "expected" ("Public " ++ label.toUpper ++ " expected") rows
    true expected disk
  return (disk, state.2 ++ [inputArtifact, expectedArtifact])

/-- The files of the runner, each with the name that it gets there. -/
def runnerFiles : List (Path × String) :=
  let lastTier := options.tierFile (options.tiers.getLast?.getD 0)
  [(options.publicFull, "public.csv"), (expectedPath lastTier, "public.expected"),
    (options.privateFull, "private.csv"), (expectedPath options.privateFull, "private.expected")]

def prepareRunner (disk : Disk) : Except Failure Disk :=
  if options.runnerDir = "" then .ok disk
  else (env.order (runnerFiles options)).foldlM
    (fun disk file => (disk.linkOrCopy file.1 ⟨options.runnerDir, file.2⟩).mapError .file) disk

/-- The artifacts of all tiers and of the private dataset. -/
def packageAll (disk : Disk) : Except Failure (Disk × List Artifact) := do
  let (disk, items) ← options.tiers.foldlM (packageTier env options) (disk, [])
  let privateExpected := expectedPath options.privateFull
  let disk ← wrap "private expected"
    (generateExpected env options.threads options.privateFull privateExpected disk)
  let (disk, privateInput) ← packageArtifact env options.contestId "private-1b-input" "input"
    "Private 1B input" options.privateRows false options.privateFull disk
  let (disk, privateOutput) ← packageArtifact env options.contestId "private-1b-expected"
    "expected" "Private 1B expected" options.privateRows false privateExpected disk
  return (disk, items ++ [privateInput, privateOutput])

/-- The manifest that is written, and the files after the run. -/
def generate (disk : Disk) : Except Failure (Manifest × Disk) := do
  if options.publicRows ≤ 0 ∨ options.privateRows ≤ 0 ∨ options.threads ≤ 0 then
    .error (.message "row counts and threads must be positive")
  else if options.tiers = [] then .error (.message "at least one public tier is required")
  else
    let disk ← wrap "generate public dataset"
      (generateCSV env options.publicFull options.publicDataset disk)
    let disk ← wrap "generate private dataset"
      (generateCSV env options.privateFull options.privateDataset disk)
    let disk ← options.tiers.foldlM (prefixTier env options) disk
    let (disk, items) ← packageAll env options disk
    let manifest : Manifest :=
      { schemaVersion := 1
        contestId := options.contestId
        generatedAt := Rfc3339.format env.now
        generatorRevision := options.revision
        artifacts := items }
    let disk ← (disk.write ⟨options.outputDir, "manifest.json"⟩ (env.marshal manifest)).mapError
      .file
    let disk ← prepareRunner env options disk
    return (manifest, disk)

end Steps
end OneBrc.Data
