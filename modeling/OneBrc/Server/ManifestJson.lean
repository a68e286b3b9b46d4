import OneBrc.Lib.JsonNumber
import OneBrc.Server.Manifest
import OneBrc.Server.RunnerResult

/-! The manifest as the server decodes it from the body of a request, before `validateManifest`. -/
namespace OneBrc.Server
open Lib

/-- Decoding into an `int64`; the literal is read as an integer. -/
def decodeInt64 (old : Int64) : RawMessage → Option Int64
  | .number literal => do
      let n ← (← JsonNumber.parse literal).int?
      if -2 ^ 63 ≤ n ∧ n < 2 ^ 63 then some (Int64.ofInt n) else none
  | .null => some old
  | _ => none

/-- Decoding into a `float32`. -/
def decodeFloat32 (old : ℚ) : RawMessage → Option ℚ
  | .number literal => do BinaryFormat.binary32.round (← JsonNumber.parse literal).value
  | .null => some old
  | _ => none

def decodeBool (old : Bool) : RawMessage → Option Bool
  | .bool b => some b
  | .null => some old
  | _ => none

/-- An artifact before it is decoded into. -/
def DatasetArtifact.zero : DatasetArtifact := ⟨"", "", "", "", 0, 0, 0, "", "", false⟩

def DatasetArtifact.decodeMember (a : DatasetArtifact) (member : Member) :
    Option DatasetArtifact :=
  let name := goString member.1
  if namesField name "compressedBytes" then
    (decodeInt64 a.compressedBytes member.2).map fun n => { a with compressedBytes := n }
  else if namesField name "compressedSha256" then
    (decodeString a.compressedSha256 member.2).map fun s => { a with compressedSha256 := s }
  else if namesField name "id" then
    (decodeString a.id member.2).map fun s => { a with id := s }
  else if namesField name "isPublic" then
    (decodeBool a.isPublic member.2).map fun b => { a with isPublic := b }
  else if namesField name "kind" then
    (decodeString a.kind member.2).map fun s => { a with kind := s }
  else if namesField name "label" then
    (decodeString a.label member.2).map fun s => { a with label := s }
  else if namesField name "objectKey" then
    (decodeString a.objectKey member.2).map fun s => { a with objectKey := s }
  else if namesField name "rows" then
    (decodeInt64 a.rows member.2).map fun n => { a with rows := n }
  else if namesField name "uncompressedBytes" then
    (decodeInt64 a.uncompressedBytes member.2).map fun n => { a with uncompressedBytes := n }
  else if namesField name "uncompressedSha256" then
    (decodeString a.uncompressedSha256 member.2).map fun s => { a with uncompressedSha256 := s }
  else some a

/-- Other members are ignored, and `null` has no effect. -/
def DatasetArtifact.decode (a : DatasetArtifact) : RawMessage → Option DatasetArtifact
  | .object members => members.foldlM DatasetArtifact.decodeMember a
  | .null => some a
  | _ => none

/-- A manifest that is being decoded, with its slice of artifacts. -/
structure DecodedManifest where
  artifacts : Option (Slice DatasetArtifact)
  contestId : String
  generatedAt : String
  generatorRevision : String
  schemaVersion : ℚ

def DecodedManifest.zero : DecodedManifest := ⟨none, "", "", "", 0⟩

def DecodedManifest.decodeMember (m : DecodedManifest) (member : Member) :
    Option DecodedManifest :=
  let name := goString member.1
  if namesField name "artifacts" then
    (decodeSlice DatasetArtifact.decode .zero m.artifacts member.2).map fun artifacts =>
      { m with artifacts }
  else if namesField name "contestId" then
    (decodeString m.contestId member.2).map fun s => { m with contestId := s }
  else if namesField name "generatedAt" then
    (decodeString m.generatedAt member.2).map fun s => { m with generatedAt := s }
  else if namesField name "generatorRevision" then
    (decodeString m.generatorRevision member.2).map fun s => { m with generatorRevision := s }
  else if namesField name "schemaVersion" then
    (decodeFloat32 m.schemaVersion member.2).map fun q => { m with schemaVersion := q }
  else some m

def DecodedManifest.manifest (m : DecodedManifest) : DatasetManifest where
  schemaVersion := m.schemaVersion
  contestId := m.contestId
  generatedAt := m.generatedAt
  generatorRevision := m.generatorRevision
  artifacts := m.artifacts.elim [] (·.elements)

/-- `decodeJSON` into a `DatasetManifest`. -/
def decodeManifest : RawMessage → Option DatasetManifest
  | .object members => (members.foldlM DecodedManifest.decodeMember .zero).map (·.manifest)
  | .null => some DecodedManifest.zero.manifest
  | _ => none

/-- `ImportDatasets` up to the import: the body is decoded and checked. -/
def acceptsManifest (content : RawMessage) : Bool :=
  (decodeManifest content).any fun manifest => (validateManifest manifest).isOk

/-- The server accepts what it decodes to a valid manifest. -/
theorem acceptsManifest_iff {content : RawMessage} : acceptsManifest content = true ↔
    ∃ manifest, decodeManifest content = some manifest ∧ manifest.Valid := by
  have hok (manifest : DatasetManifest) :
      (validateManifest manifest).isOk = true ↔ manifest.Valid := by
    rw [← validateManifest_ok_iff]
    cases validateManifest manifest with
    | error e => exact ⟨nofun, nofun⟩
    | ok u => exact ⟨fun _ => rfl, fun _ => rfl⟩
  rw [acceptsManifest, Option.any_eq_true]
  exact exists_congr fun manifest => and_congr Iff.rfl (hok manifest)

end OneBrc.Server
