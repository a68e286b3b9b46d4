import OneBrc.Lib.OrderedMap
import OneBrc.Server.Query

/-! The replay of the leaderboard in the browser: `buildLeaderboardReplayFrame`. -/
namespace OneBrc.Web
open Lib Server

/-- `BigInt` of a text of digits. -/
def bigInt (text : String) : ℕ := Digits.value text.toList

/-- `compareNanoseconds` on texts. -/
def compareNanoseconds (left right : String) : ℤ :=
  if bigInt left < bigInt right then -1 else if bigInt right < bigInt left then 1 else 0

/-- The comparison of two times; a sort takes the difference with an invalid time for zero. -/
def compareTimes (left right : String) : ℤ :=
  match CivilTime.parseIsoTime left, CivilTime.parseIsoTime right with
  | some l, some r => l - r
  | _, _ => 0

theorem compareTimes_of_some {left right : String} {l r : ℤ}
    (hl : CivilTime.parseIsoTime left = some l) (hr : CivilTime.parseIsoTime right = some r) :
    compareTimes left right = l - r := by
  rw [compareTimes, hl, hr]

def compareSubmissions (left right : LeaderboardReplaySubmission) : ℤ :=
  let scoreOrder :=
    compareNanoseconds (left.privateScoreNs.getD "") (right.privateScoreNs.getD "")
  if scoreOrder ≠ 0 then scoreOrder else compareTimes left.submittedAt right.submittedAt

/-- The filter of a frame; no language stands for `"all"`. -/
def shown (language : Option String) (submission : LeaderboardReplaySubmission) : Bool :=
  !submission.disqualified && submission.language.isSome &&
    (language.isNone || submission.language == language) &&
    submission.privateVerdict = some Verdict.accepted.name && submission.privateScoreNs.isSome

/-- The last accepted one of each user among the first `submissionCount`. -/
def representatives (submissions : List LeaderboardReplaySubmission) (submissionCount : ℕ) :
    OrderedMap String LeaderboardReplaySubmission :=
  (submissions.take submissionCount).foldl (fun map submission =>
    if submission.publicVerdict = some Verdict.accepted.name then
      map.set submission.username submission
    else map) .empty

def replayEntry (submission : LeaderboardReplaySubmission) (index : ℕ) : LeaderboardEntry where
  username := submission.username
  submissionId := submission.submissionId
  language := submission.language.getD ""
  rank := some (index + 1)
  rankChange := none
  scoreNs := submission.privateScoreNs
  verdict := Verdict.accepted.name
  submittedAt := submission.submittedAt
  sourceAvailable := false

def buildLeaderboardReplayFrame (submissions : List LeaderboardReplaySubmission)
    (submissionCount : ℕ) (language : Option String) : List LeaderboardEntry :=
  let listed := (representatives submissions submissionCount).values.filter (shown language)
  let sorted := StableSort.sliceStable (fun l r => compareSubmissions l r < 0) listed
  sorted.zipIdx.map fun (submission, index) => replayEntry submission index

/-- When all submissions are accepted, each is set. -/
theorem representatives_length {submissions : List LeaderboardReplaySubmission}
    (h : ∀ submission ∈ submissions, submission.publicVerdict = some Verdict.accepted.name) :
    representatives submissions submissions.length =
      OrderedMap.ofList (·.username) submissions := by
  rw [representatives, List.take_length, OrderedMap.ofList]
  apply List.foldl_ext
  intro map submission hmem
  rw [if_pos (h submission hmem)]

end OneBrc.Web
