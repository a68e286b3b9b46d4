import OneBrc.Lib.GoText
import OneBrc.Lib.Utf8
import OneBrc.Server.Repository

/-! `parseUpload`: the loop over the parts of a multipart body, the rules on their numbers, and the
checks of the files. -/
namespace OneBrc.Server
open Lib GoText

def sourceLimit : ℕ := 1024 * 1024

def binaryLimit : ℕ := 64 * 1024 * 1024

def executionKinds : List ExecutionKind := [.native, .javascript, .typescript, .bun, .ruby]

def nativeLanguages : List Language := [.c, .cpp, .go, .rust, .zig, .csharp, .other]

def sourceExtensions : Language → List String
  | .c => [".c"]
  | .cpp => [".cc", ".cpp", ".cxx"]
  | .go => [".go"]
  | .rust => [".rs"]
  | .zig => [".zig"]
  | .csharp => [".cs"]
  | .other => []
  | .javascript => [".js"]
  | .typescript => [".ts"]
  | .bun => [".js", ".ts"]
  | .ruby => [".rb"]

/-- `api.Language(kind)` of a script kind. -/
def scriptLanguage : ExecutionKind → Language
  | .native => .other
  | .javascript => .javascript
  | .typescript => .typescript
  | .bun => .bun
  | .ruby => .ruby

/-- A part as `NextPart` returns it; `filename` is the parameter of its disposition. -/
structure Part where
  header : List (List UInt8 × List (List UInt8))
  formName : List Rune
  filename : List Rune
  content : List UInt8

/-- `FileName` of a part. -/
def Part.fileName (part : Part) : List Rune := if part.filename = [] then [] else base part.filename

def multipartHeaderSize (header : List (List UInt8 × List (List UInt8))) : ℕ :=
  2 + (header.map fun (name, values) =>
    (values.map fun value => name.length + 2 + value.length + 2).sum).sum

inductive PartName where
  | executionKind | language | source | binary
  deriving DecidableEq

def PartName.name : PartName → String
  | .executionKind => "executionKind"
  | .language => "language"
  | .source => "source"
  | .binary => "binary"

def PartName.all : List PartName := [.executionKind, .language, .source, .binary]

def PartName.of? (name : List Rune) : Option PartName :=
  PartName.all.find? fun n => ofString n.name = name

structure UploadedFile where
  filename : List Rune
  content : List UInt8
  digest : String

structure ParsedForm where
  kind : ExecutionKind
  language : Language
  sourceFilename : List Rune
  source : List UInt8
  artifact : List UInt8
  artifactDigest : String

/-- `indexOutOfRange` is a panic. -/
inductive UploadError where
  | app (error : AppError)
  | indexOutOfRange
  deriving DecidableEq

def badRequest (code message : String) : UploadError := .app ⟨.badRequest, code, message⟩

def invalidMetadata : UploadError := badRequest "invalid_metadata" "提出metadataが不正です"

def multipartLimit : UploadError := badRequest "multipart_limit" "multipartの上限を超えています"

def invalidFile (name : PartName) : UploadError :=
  if name = .source then
    badRequest "invalid_source" "ソースコードが不足しているか、1 MiBを超えています"
  else badRequest "invalid_binary" "Nativeの実行ファイルが不足しているか、64 MiBを超えています"

def sanitizeFilename (filename : List Rune) : Except UploadError (List Rune) :=
  let base := trimSpace (base (slashes filename))
  if base = [] ∨ 255 < utf16Length base then
    .error (badRequest "invalid_filename" "ファイル名が不正です")
  else if base.any Rune.isControl then
    .error (badRequest "invalid_filename" "ファイル名が不正です")
  else .ok base

/-- The variables of the loop. -/
structure Reading where
  parts : ℕ
  fileCount : ℕ
  fields : PartName → List (List UInt8)
  files : PartName → Option UploadedFile

def Reading.start : Reading := ⟨0, 0, fun _ => [], fun _ => none⟩

def fileLimit (name : PartName) : ℕ := if name = .source then sourceLimit else binaryLimit

def Reading.addField (r : Reading) (name : PartName) (content : List UInt8) : Reading :=
  { r with
    parts := r.parts + 1
    fields := Function.update r.fields name (r.fields name ++ [content]) }

def Reading.addFile (r : Reading) (name : PartName) (file : UploadedFile) : Reading :=
  { r with
    parts := r.parts + 1
    fileCount := r.fileCount + 1
    files := Function.update r.files name (some file) }

/-- The body of the loop. No file of that name is in the directory, so the file can be created. -/
def readPart (sha256 : List UInt8 → String) (r : Reading) (part : Part) :
    Except UploadError Reading :=
  if 4 < r.parts + 1 then .error multipartLimit
  else if 4 * 1024 < multipartHeaderSize part.header then .error multipartLimit
  else match PartName.of? part.formName with
    | none => .error invalidMetadata
    | some name =>
        if part.fileName = [] then
          let content := part.content.take 65
          if 64 < content.length then .error invalidMetadata
          else .ok (r.addField name content)
        else if name ≠ .source ∧ name ≠ .binary then
          .error (badRequest "unexpected_file"
            "ソースコードまたは実行ファイル以外は指定できません")
        else if (r.files name).isSome then
          .error (badRequest "duplicate_file" (name.name ++ "は1個だけ指定できます"))
        else if 2 < r.fileCount + 1 then .error multipartLimit
        else do
          let filename ← sanitizeFilename part.fileName
          let written := part.content.take (fileLimit name + 1)
          if fileLimit name < written.length then .error (invalidFile name)
          else .ok (r.addFile name ⟨filename, written, sha256 written⟩)

def Reading.partCount (r : Reading) (name : PartName) : ℕ :=
  (r.fields name).length + if (r.files name).isSome then 1 else 0

/-- `xs[i]`. -/
def index {α : Type} (xs : List α) (i : ℕ) : Except UploadError α :=
  match xs[i]? with
  | none => .error .indexOutOfRange
  | some a => .ok a

def bytes (text : String) : List UInt8 := Utf8.encode text.toList

def chooseLanguage (r : Reading) (kind : ExecutionKind) : Except UploadError Language :=
  if kind = .native then
    if (r.fields .language).length ≠ 1 then .error (invalidFile .source)
    else do
      let text ← index (r.fields .language) 0
      match nativeLanguages.find? fun language => bytes language.name = text with
      | none => .error (invalidFile .source)
      | some language => .ok language
  else if (r.fields .language).length ≠ 0 then
    .error (badRequest "unexpected_language" "スクリプト言語では実装言語を指定しません")
  else .ok (scriptLanguage kind)

def checkSource (language : Language) (source : UploadedFile) : Except UploadError Unit :=
  if !source.content.toByteArray.validateUTF8 then
    .error (badRequest "source_not_utf8" "ソースコードはUTF-8で提出してください")
  else if 0 ∈ source.content then
    .error (badRequest "source_contains_nul" "ソースコードにNULバイトを含められません")
  else if 0 < (sourceExtensions language).length ∧
      (ext source.filename).map Rune.toLower ∉ (sourceExtensions language).map ofString then
    .error (badRequest "invalid_source_extension"
      (language.name ++ "のソースコード拡張子が不正です"))
  else .ok ()

def invalidElf : UploadError :=
  badRequest "invalid_elf" "Ubuntu 26.04 x86_64 ELFを提出してください"

/-- The check of the first bytes of a native artifact. -/
def checkElf (content : List UInt8) : Except UploadError Unit :=
  let header := content.take 20
  if header.length < 20 then .error invalidElf
  else do
    let machine ← index header 18
    let high ← index header 19
    if header.take 6 ≠ [0x7F, 0x45, 0x4C, 0x46, 2, 1] ∨ machine ≠ 0x3E ∨ high ≠ 0 then
      .error invalidElf
    else .ok ()

/-- The file that is benchmarked. -/
def chooseArtifact (r : Reading) (kind : ExecutionKind) (source : UploadedFile) :
    Except UploadError UploadedFile :=
  if kind = .native then
    match r.files .binary with
    | none => .error (invalidFile .binary)
    | some binary => .ok binary
  else if (r.files .binary).isSome then
    .error (badRequest "unexpected_binary" "スクリプト言語では実行ファイルを指定しません")
  else .ok source

/-- The rules on the numbers of parts and the checks of the files. -/
def checkForm (r : Reading) : Except UploadError ParsedForm :=
  if r.partCount .executionKind ≠ 1 ∨ 1 < r.partCount .language ∨ r.partCount .source ≠ 1 ∨
      1 < r.partCount .binary then .error invalidMetadata
  else do
    let text ← index (r.fields .executionKind) 0
    match executionKinds.find? fun kind => bytes kind.name = text with
    | none => .error (badRequest "invalid_execution_kind" "実行形式が不正です")
    | some kind => do
        let language ← chooseLanguage r kind
        match r.files .source with
        | none => .error (invalidFile .source)
        | some source => do
            let artifact ← chooseArtifact r kind source
            checkSource language source
            if kind = .native then checkElf artifact.content
            .ok ⟨kind, language, source.filename, source.content, artifact.content,
              artifact.digest⟩

/-- A request with its media type and boundary, if its content type can be parsed. -/
structure UploadRequest where
  contentType : Option (String × String)
  empty : Bool
  parts : List Part

/-- The result, whether the temporary directory is still there, and whether it was returned. -/
structure ParseOutcome where
  result : Except UploadError ParsedForm
  directory : Bool
  returned : Bool

def parseUpload (sha256 : List UInt8 → String) (request : UploadRequest) : ParseOutcome :=
  match request.contentType with
  | none =>
      ⟨.error (badRequest "multipart_required" "multipart/form-dataで提出してください"), false, false⟩
  | some (mediaType, boundary) =>
      if mediaType.toLower ≠ "multipart/form-data" then
        ⟨.error (badRequest "multipart_required" "multipart/form-dataで提出してください"), false,
          false⟩
      else if boundary = "" then
        ⟨.error (badRequest "invalid_upload" "multipartが不正です"), false, false⟩
      else if request.empty then
        ⟨.error (badRequest "empty_upload" "提出内容が空です"), false, false⟩
      else match request.parts.foldlM (readPart sha256) .start with
        | .error error => ⟨.error error, false, true⟩
        | .ok r => ⟨checkForm r, true, true⟩

/-- What `acceptSubmission` leaves of the directory, with the results of its later calls. -/
structure AcceptOutcome where
  accepted : Bool
  directory : Bool

/-- `discard` and the deferred call remove the directory that `parseUpload` returned. -/
def acceptSubmission (outcome : ParseOutcome) (storeSource upload queueUpload : Bool) :
    AcceptOutcome :=
  match outcome.result with
  | .error _ => ⟨false, outcome.directory && !outcome.returned⟩
  | .ok _ => ⟨storeSource && upload && queueUpload, outcome.directory && !outcome.returned⟩

end OneBrc.Server
