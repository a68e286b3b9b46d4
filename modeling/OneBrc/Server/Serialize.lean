import Mathlib.Data.List.Sort
import Mathlib.Data.String.Basic
import OneBrc.Lib.Json
import OneBrc.Server.Query

/-! The JSON that the API answers with. -/
namespace OneBrc.Server
open Lib

/-- `map[string]any` is written with its keys in order. -/
def mapAny (members : List (String × Json String)) : Json String :=
  .object (members.insertionSort fun a b => a.1 ≤ b.1)

def nullString : Option String → Json String
  | some value => .string value
  | none => .null

def nullInt : Option ℤ → Json String
  | some value => .number (toString value)
  | none => .null

def isoString (value : Timestamp) : Json String := .string (CivilTime.isoTime value)

def nullTime : Option Timestamp → Json String
  | some value => isoString value
  | none => .null

/-- The member `public`; a disqualification overrides the verdict. -/
def serializePublic (row : SubmissionRow) : Json String :=
  match row.publicVerdict with
  | none => .null
  | some publicVerdict =>
      let verdict := if row.disqualifiedReason.isSome then Verdict.disqualified else publicVerdict
      mapAny [("verdict", .string verdict.name),
        ("scoreNs", nullString (row.publicScoreNS.map Nat.repr)),
        ("error", nullString row.publicError)]

/-- The member `private`, present once the results are published. -/
def serializePrivate (row : SubmissionRow) : Json String :=
  match row.privateVerdict with
  | none => .null
  | some verdict =>
      mapAny [("verdict", .string verdict.name),
        ("scoreNs", nullString (row.privateScoreNS.map Nat.repr))]

def serializeSubmission (row : SubmissionRow) (privatePublished : Bool) : Json String :=
  let result := [("id", .string row.id), ("username", .string row.username),
    ("executionKind", nullString (row.executionKind.map ExecutionKind.name)),
    ("language", nullString (row.language.map Language.name)),
    ("sourceFilename", nullString row.sourceFilename),
    ("artifactSha256", nullString row.artifactSHA256), ("status", .string row.status.name),
    ("public", serializePublic row), ("infrastructureError", nullString row.infrastructureError),
    ("disqualifiedReason", nullString row.disqualifiedReason),
    ("uploadStartedAt", isoString row.uploadStartedAt), ("queuedAt", nullTime row.queuedAt),
    ("startedAt", nullTime row.startedAt), ("completedAt", nullTime row.completedAt),
    ("queueAhead", if row.status = .queued then nullInt (some (row.queueAhead.getD 0 : ℕ))
      else .null),
    ("submissionNumber", nullInt (row.submissionNumber.map Int.ofNat))]
  mapAny (if privatePublished then result ++ [("private", serializePrivate row)] else result)

def serializeSubmissions (rows : List SubmissionRow) (published : Bool) : Json String :=
  .array (rows.map fun row => serializeSubmission row published)

/-- Structures are written in the order of their fields. -/
def LeaderboardEntry.json (entry : LeaderboardEntry) : Json String :=
  .object [("language", .string entry.language), ("rank", nullInt entry.rank),
    ("rankChange", nullInt entry.rankChange), ("scoreNs", nullString entry.scoreNs),
    ("sourceAvailable", .bool entry.sourceAvailable),
    ("submissionId", .string entry.submissionId), ("submittedAt", .string entry.submittedAt),
    ("username", .string entry.username), ("verdict", .string entry.verdict)]

def Leaderboard.json (leaderboard : Leaderboard) : Json String :=
  .object [("board", .string leaderboard.board.name),
    ("disqualified", .array (leaderboard.disqualified.map LeaderboardEntry.json)),
    ("privatePublished", .bool leaderboard.privatePublished),
    ("ranked", .array (leaderboard.ranked.map LeaderboardEntry.json))]

def LeaderboardReplaySubmission.json (item : LeaderboardReplaySubmission) : Json String :=
  .object [("disqualified", .bool item.disqualified), ("language", nullString item.language),
    ("privateScoreNs", nullString item.privateScoreNs),
    ("privateVerdict", nullString item.privateVerdict),
    ("publicVerdict", nullString item.publicVerdict),
    ("submissionId", .string item.submissionId), ("submittedAt", .string item.submittedAt),
    ("username", .string item.username)]

end OneBrc.Server
