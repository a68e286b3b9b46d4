import OneBrc.Server.Serialize

/-! The handlers that read results, as functions of the request and the database. -/
namespace OneBrc.Server
open Lib

inductive AuthUserMethod where
  | header | token
  deriving DecidableEq

structure AuthUser where
  username : String
  isAdmin : Bool
  method : AuthUserMethod

/-- What the middleware leaves in the context of a request. -/
structure Request where
  requestID : String
  user : Option AuthUser

inductive ResponseBody where
  | json (value : Json String)
  | bytes (content : List UInt8)

structure Response where
  status : ℕ
  headers : List (String × String)
  body : ResponseBody

/-- The first thing that a stream sends: a plain response or a message. -/
inductive StreamReply where
  | response (response : Response)
  | message (event : String) (data : Json String)

def AppError.status (app : AppError) : ℕ :=
  match app.kind with
  | .badRequest => 400
  | .unauthorized => 401
  | .forbidden => 403
  | .notFound => 404
  | .conflict => 409
  | .infrastructure => 500

def writeJSON (status : ℕ) (value : Json String) : Response :=
  ⟨status, [("Content-Type", "application/json; charset=UTF-8")], .json value⟩

def writeError (request : Request) (app : AppError) : Response :=
  writeJSON app.status (mapAny [("error", mapAny [("code", .string app.code),
    ("message", .string app.message), ("requestId", .string request.requestID)])])

/-- Errors are written at the place where they are returned. -/
def reply (request : Request) : Except AppError Response → Response
  | .ok response => response
  | .error app => writeError request app

/-- One round of `streamChanges` whose payload differs from the one sent before. -/
def streamChanges (event : String) : Except AppError (Json String) → StreamReply
  | .ok value => .message event value
  | .error app => .message "error" (mapAny [("error", mapAny [("code", .string app.code),
      ("message", .string app.message)])])

def requireUser (request : Request) : Except AppError AuthUser :=
  match request.user with
  | none => .error ⟨.unauthorized, "authentication_required",
      "ログインまたはアクセスキーが必要です"⟩
  | some user => .ok user

def requireHeaderUser (request : Request) : Except AppError AuthUser := do
  let user ← requireUser request
  if user.method ≠ .header then
    throw ⟨.forbidden, "browser_auth_required", "ブラウザからログインしてください"⟩
  return user

def requireAdmin (request : Request) : Except AppError AuthUser := do
  let user ← requireHeaderUser request
  if !user.isAdmin then
    throw ⟨.forbidden, "admin_required", "管理者権限が必要です"⟩
  return user

def invalidRequest : AppError :=
  ⟨.badRequest, "invalid_request", "リクエストの形式が不正です"⟩

/-- The keys of `allLanguages`. -/
def allLanguages : List Language :=
  [.c, .cpp, .go, .rust, .zig, .csharp, .other, .javascript, .typescript, .bun, .ruby]

def validateLeaderboardParams (board language : Option String) : Except AppError Unit := do
  if board.any fun name =>
      name ≠ LeaderboardBoard.publicBoard.name && name ≠ LeaderboardBoard.privateBoard.name then
    throw invalidRequest
  if language.any fun name => !(allLanguages.map Language.name).contains name then
    throw invalidRequest

/-- The private board is served only after the publication. -/
def servedBoard (requested : Option String) (published : Bool) : LeaderboardBoard :=
  if requested = some LeaderboardBoard.privateBoard.name ∧ published then .privateBoard
  else .publicBoard

section
variable (config : Config) (tie : String → ℕ) (request : Request) (db : Database)

def loadLeaderboard (requested language : Option String) : Except AppError Leaderboard := do
  validateLeaderboardParams requested language
  let published := (privatePublished db).isSome
  let rows ← leaderboardRows config tie language db
  return buildLeaderboard rows (servedBoard requested published) published

def getLeaderboard (board language : Option String) : Response := reply request do
  let result ← loadLeaderboard config tie db board language
  return writeJSON 200 result.json

def getLeaderboardReplay (now : Timestamp) : Response := reply request do
  if ¬ config.contestEndAt < now then
    throw ⟨.conflict, "contest_not_ended", "順位推移はコンテスト終了後に公開されます"⟩
  if (privatePublished db).isNone then
    throw ⟨.conflict, "private_not_published",
      "順位推移はPrivate結果の公開後に閲覧できます"⟩
  return writeJSON 200 (.object [("submissions",
    .array ((leaderboardReplay config db).map LeaderboardReplaySubmission.json))])

def listSubmissions : Response := reply request do
  let user ← requireUser request
  let rows := submissionsForUser tie user.username db
  return writeJSON 200
    (mapAny [("submissions", serializeSubmissions rows (privatePublished db).isSome)])

def getSubmission (id : String) : Response := reply request do
  let user ← requireUser request
  match submissionByID id db with
  | none => throw ⟨.notFound, "submission_not_found", "提出が見つかりません"⟩
  | some row =>
      if row.username ≠ user.username && !user.isAdmin then
        throw ⟨.forbidden, "submission_forbidden", "この提出は閲覧できません"⟩
      return writeJSON 200
        (mapAny [("submission", serializeSubmission row (privatePublished db).isSome)])

def listAdminSubmissions : Response := reply request do
  let _ ← requireAdmin request
  let rows := allSubmissions tie db
  return writeJSON 200
    (mapAny [("submissions", serializeSubmissions rows (privatePublished db).isSome)])

def hexDigit (n : ℕ) : Char := "0123456789ABCDEF".toList.getD n '0'

def encodeURIComponent (value : String) : String :=
  String.ofList (value.toByteArray.toList.flatMap fun byte =>
    let c := Char.ofNat byte.toNat
    if byte < 128 && (c.isAlphanum || "-_.!~*'()".toList.contains c) then [c]
    else ['%', hexDigit (byte.toNat / 16), hexDigit (byte.toNat % 16)])

def getSubmissionSource (id : String) : Response := reply request do
  match submissionSource id db with
  | none => throw ⟨.notFound, "source_not_found", "ソースコードが見つかりません"⟩
  | some row =>
      let publicSource := (privatePublished db).isSome && row.representative = some id
      if !publicSource && request.user.all fun user =>
          user.username ≠ row.username && !user.isAdmin then
        throw ⟨.forbidden, "source_forbidden", "ソースコードはまだ公開されていません"⟩
      return ⟨200, [("Content-Type", "text/plain; charset=utf-8"),
        ("Content-Disposition", "inline; filename*=UTF-8''" ++ encodeURIComponent row.filename),
        ("X-Content-Type-Options", "nosniff")], .bytes row.content⟩

/-- The payload of `StreamContest`. -/
def contestPayload (board language : Option String) : Except AppError (Json String) := do
  let published := (privatePublished db).isSome
  let (participants, total) := participationStats db
  let rows ← leaderboardRows config tie language db
  return mapAny [("contest", mapAny [("privatePublishedAt", nullTime (privatePublished db)),
      ("participants", nullInt (some participants)), ("totalSubmissions", nullInt (some total))]),
    ("leaderboard", (buildLeaderboard rows (servedBoard board published) published).json)]

def streamContest (board language : Option String) : StreamReply :=
  match validateLeaderboardParams board language with
  | .error app => .response (writeError request app)
  | .ok () => streamChanges "contest" (contestPayload config tie db board language)

def streamSubmissions : StreamReply :=
  match requireUser request with
  | .error app => .response (writeError request app)
  | .ok user =>
      let rows := submissionsForUser tie user.username db
      streamChanges "submissions" (.ok
        (mapAny [("submissions", serializeSubmissions rows (privatePublished db).isSome)]))

end
end OneBrc.Server
