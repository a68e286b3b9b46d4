import OneBrc.Server.Handlers

/-! Before the publication every response is a function of the database without the private
results. -/
namespace OneBrc.Server
open Lib StableSort

/-- The row without the results on the private dataset. -/
def Submission.withoutPrivate (row : Submission) : Submission :=
  { row with privateVerdict := none, privateScoreNS := none }

def SubmissionRow.withoutPrivate (row : SubmissionRow) : SubmissionRow :=
  { row with privateVerdict := none, privateScoreNS := none }

def LeaderboardRecord.withoutPrivate (row : LeaderboardRecord) : LeaderboardRecord :=
  { row with privateVerdict := none, privateScore := none }

/-- The database without the private results. -/
def Database.withoutPrivate (db : Database) : Database :=
  { db with
    submissions := db.submissions.update (fun _ => true) Submission.withoutPrivate fun _ => rfl
    benchmarkRuns := db.benchmarkRuns.delete fun run => run.datasetKind = .privateData }

/-- The databases differ only in private results. -/
structure SamePublic (db₁ db₂ : Database) : Prop where
  users : db₁.users = db₂.users
  submissions : db₁.submissions.rows.map Submission.withoutPrivate =
    db₂.submissions.rows.map Submission.withoutPrivate
  submissionSources : db₁.submissionSources = db₂.submissionSources
  benchmarkRuns : (db₁.benchmarkRuns.rows.filter fun run => run.datasetKind ≠ .privateData) =
    db₂.benchmarkRuns.rows.filter fun run => run.datasetKind ≠ .privateData
  contestState : db₁.contestState = db₂.contestState

/-- The endpoints that answer with results. -/
inductive Endpoint where
  | getLeaderboard (board language : Option String)
  | streamContest (board language : Option String)
  | listSubmissions
  | getSubmission (id : String)
  | listAdminSubmissions
  | streamSubmissions
  | getSubmissionSource (id : String)
  | getLeaderboardReplay

def Endpoint.serve (config : Config) (tie : String → ℕ) (now : Timestamp) (request : Request)
    (db : Database) : Endpoint → StreamReply
  | .getLeaderboard board language =>
      .response (Server.getLeaderboard config tie request db board language)
  | .streamContest board language => Server.streamContest config tie request db board language
  | .listSubmissions => .response (Server.listSubmissions tie request db)
  | .getSubmission id => .response (Server.getSubmission request db id)
  | .listAdminSubmissions => .response (Server.listAdminSubmissions tie request db)
  | .streamSubmissions => Server.streamSubmissions tie request db
  | .getSubmissionSource id => .response (Server.getSubmissionSource request db id)
  | .getLeaderboardReplay => .response (Server.getLeaderboardReplay config request db now)

theorem SamePublic.withoutPrivate_eq {db₁ db₂ : Database} (h : SamePublic db₁ db₂) :
    db₁.withoutPrivate = db₂.withoutPrivate := by
  have hruns := h.benchmarkRuns
  simp only [ne_eq, decide_not] at hruns
  simp only [Database.withoutPrivate, Table.update, Table.delete, if_true, h.users, h.submissions,
    h.submissionSources, hruns, h.contestState]

section Queries
variable {config : Config} {tie : String → ℕ} {language : Option String} (db : Database)

@[simp] theorem withoutPrivate_rows : db.withoutPrivate.submissions.rows =
    db.submissions.rows.map Submission.withoutPrivate := by
  simp [Database.withoutPrivate, Table.update]

@[simp] theorem withoutPrivate_get? (id : String) : db.withoutPrivate.submissions.get? id =
    (db.submissions.get? id).map Submission.withoutPrivate := by
  have hget := Table.get?_update db.submissions (fun _ => true) Submission.withoutPrivate
    (fun _ => rfl) id
  simp only [if_true] at hget
  exact hget

@[simp] theorem privatePublished_withoutPrivate :
    privatePublished db.withoutPrivate = privatePublished db := rfl

/-- Conditions on public columns select the same rows. -/
theorem filter_withoutPrivate {p : Submission → Bool} (hp : ∀ row, p row.withoutPrivate = p row) :
    db.withoutPrivate.submissions.rows.filter p =
      (db.submissions.rows.filter p).map Submission.withoutPrivate := by
  rw [withoutPrivate_rows, List.filter_map]
  congr 2
  exact funext hp

theorem count_withoutPrivate {p : Submission → Bool} (hp : ∀ row, p row.withoutPrivate = p row) :
    db.withoutPrivate.submissions.count p = db.submissions.count p := by
  rw [Table.count, withoutPrivate_rows, List.countP_map]
  congr 1
  exact funext hp

theorem submissionNumber_withoutPrivate (row : Submission) :
    submissionNumber db.withoutPrivate row.withoutPrivate = submissionNumber db row :=
  count_withoutPrivate db fun _ => rfl

theorem queueAhead_withoutPrivate (row : Submission) :
    queueAhead db.withoutPrivate row.withoutPrivate = queueAhead db row := by
  have hcount : db.withoutPrivate.submissions.count _ = _ := count_withoutPrivate db
    (p := fun queued => queued.status = .running ||
      queued.status = .queued && queued.uploadedBefore row) fun _ => rfl
  unfold queueAhead
  rw [← hcount]
  rfl

theorem submissionsForUser_withoutPrivate (username : String) :
    submissionsForUser tie username db.withoutPrivate =
      (submissionsForUser tie username db).map SubmissionRow.withoutPrivate := by
  unfold submissionsForUser
  dsimp only
  rw [filter_withoutPrivate db fun _ => rfl, orderBy_map, ← List.map_take, List.map_map,
    List.map_map]
  refine List.map_congr_left fun row _ => ?_
  simp only [Function.comp_apply, submissionNumber_withoutPrivate, queueAhead_withoutPrivate]
  rfl

theorem allSubmissions_withoutPrivate : allSubmissions tie db.withoutPrivate =
    (allSubmissions tie db).map SubmissionRow.withoutPrivate := by
  unfold allSubmissions
  dsimp only
  rw [filter_withoutPrivate db fun _ => rfl, orderBy_map, ← List.map_take, List.map_map,
    List.map_map]
  rfl

theorem submissionByID_withoutPrivate (id : String) : submissionByID id db.withoutPrivate =
    (submissionByID id db).map SubmissionRow.withoutPrivate := by
  unfold submissionByID
  rw [withoutPrivate_get?, Option.map_map, Option.map_map]
  rfl

theorem submissionSource_withoutPrivate (id : String) :
    submissionSource id db.withoutPrivate = submissionSource id db := by
  unfold submissionSource
  rw [withoutPrivate_get?]
  cases db.submissions.get? id with
  | none => rfl
  | some row => rfl

theorem participationStats_withoutPrivate :
    participationStats db.withoutPrivate = participationStats db := by
  unfold participationStats
  dsimp only
  rw [filter_withoutPrivate db fun _ => rfl, List.map_map, List.length_map]
  rfl

theorem representativeOf_withoutPrivate (user : User) :
    representativeOf config language db.withoutPrivate user =
      (representativeOf config language db user).map (Prod.map id Submission.withoutPrivate) := by
  unfold representativeOf
  cases user.representativeSubmissionId with
  | none => rfl
  | some id =>
    simp only [Option.bind_eq_bind, Option.bind_some, withoutPrivate_get?]
    cases db.submissions.get? id with
    | none => rfl
    | some row =>
      simp only [Option.map_some, Option.bind_some]
      rw [Option.map_bind]
      rfl

theorem representatives_withoutPrivate : representatives config language db.withoutPrivate =
    (representatives config language db).map (Prod.map id Submission.withoutPrivate) := by
  unfold representatives
  rw [List.map_filterMap]
  exact List.filterMap_congr fun user _ => representativeOf_withoutPrivate db user

theorem leaderboardQuery_withoutPrivate : leaderboardQuery config tie language db.withoutPrivate =
    (leaderboardQuery config tie language db).map (Prod.map id Submission.withoutPrivate) := by
  unfold leaderboardQuery
  rw [representatives_withoutPrivate, orderBy_map]
  rfl

theorem scanLeaderboardRecord_withoutPrivate (joined : User × Submission) :
    scanLeaderboardRecord (Prod.map id Submission.withoutPrivate joined) =
      (scanLeaderboardRecord joined).map LeaderboardRecord.withoutPrivate := by
  obtain ⟨user, row⟩ := joined
  obtain ⟨id, username, kind, language, filename, digest, status, verdict, _⟩ := row
  cases language with
  | none => rfl
  | some language =>
    cases verdict with
    | none => rfl
    | some verdict => rfl

theorem leaderboardRows_withoutPrivate : leaderboardRows config tie language db.withoutPrivate =
    (leaderboardRows config tie language db).map (List.map LeaderboardRecord.withoutPrivate) := by
  unfold leaderboardRows
  rw [leaderboardQuery_withoutPrivate, Fallible.mapM_map scanLeaderboardRecord_withoutPrivate]
  cases (leaderboardQuery config tie language db).mapM scanLeaderboardRecord with
  | error app => rfl
  | ok rows =>
    change Except.ok ((rows.map _).filter _) = Except.ok ((rows.filter _).map _)
    rw [List.filter_map]
    rfl

end Queries

section Serialization

theorem serializeSubmission_withoutPrivate (row : SubmissionRow) :
    serializeSubmission row.withoutPrivate false = serializeSubmission row false := rfl

theorem serializeSubmissions_withoutPrivate (rows : List SubmissionRow) :
    serializeSubmissions (rows.map SubmissionRow.withoutPrivate) false =
      serializeSubmissions rows false := by
  unfold serializeSubmissions
  rw [List.map_map]
  exact congrArg Json.array (List.map_congr_left fun row _ =>
    serializeSubmission_withoutPrivate row)

theorem acceptedRows_withoutPrivate (rows : List LeaderboardRecord) :
    acceptedRows (rows.map LeaderboardRecord.withoutPrivate) .publicBoard =
      (acceptedRows rows .publicBoard).map LeaderboardRecord.withoutPrivate := by
  unfold acceptedRows
  rw [List.filter_map, sliceStable_map]
  rfl

theorem ranks_withoutPrivate (rows : List LeaderboardRecord) :
    ranks (rows.map LeaderboardRecord.withoutPrivate) .publicBoard = ranks rows .publicBoard := by
  unfold ranks
  rw [acceptedRows_withoutPrivate, indexMap_map LeaderboardRecord.withoutPrivate fun _ => rfl]

/-- The public board before the publication does not use the private ranks. -/
theorem buildLeaderboard_withoutPrivate (rows : List LeaderboardRecord) :
    buildLeaderboard (rows.map LeaderboardRecord.withoutPrivate) .publicBoard false =
      buildLeaderboard rows .publicBoard false := by
  unfold buildLeaderboard
  dsimp only
  rw [ranks_withoutPrivate, List.map_map]
  rfl

end Serialization

section Endpoints
variable {config : Config} {tie : String → ℕ} {request : Request} {db : Database}

theorem servedBoard_false (requested : Option String) :
    servedBoard requested false = .publicBoard := if_neg fun h => Bool.false_ne_true h.2

theorem loadLeaderboard_withoutPrivate (hpublished : privatePublished db = none)
    (board language : Option String) :
    loadLeaderboard config tie db.withoutPrivate board language =
      loadLeaderboard config tie db board language := by
  unfold loadLeaderboard
  rw [privatePublished_withoutPrivate, hpublished, leaderboardRows_withoutPrivate]
  cases leaderboardRows config tie language db with
  | error app => rfl
  | ok rows =>
    simp only [Option.isSome_none, servedBoard_false]
    change (do validateLeaderboardParams board language; pure (buildLeaderboard (rows.map _) _ _)) =
      _
    rw [buildLeaderboard_withoutPrivate]
    rfl

theorem contestPayload_withoutPrivate (hpublished : privatePublished db = none)
    (board language : Option String) :
    contestPayload config tie db.withoutPrivate board language =
      contestPayload config tie db board language := by
  unfold contestPayload
  rw [privatePublished_withoutPrivate, hpublished, participationStats_withoutPrivate,
    leaderboardRows_withoutPrivate]
  cases leaderboardRows config tie language db with
  | error app => rfl
  | ok rows =>
    simp only [Option.isSome_none, servedBoard_false]
    change Except.ok (mapAny [_, ("leaderboard", (buildLeaderboard (rows.map _) _ _).json)]) = _
    rw [buildLeaderboard_withoutPrivate]
    rfl

/-- Every response is that for the database without the private results. -/
theorem serve_withoutPrivate {now : Timestamp} (hpublished : privatePublished db = none)
    (endpoint : Endpoint) : endpoint.serve config tie now request db.withoutPrivate =
      endpoint.serve config tie now request db := by
  cases endpoint with
  | getLeaderboard board language =>
    simp only [Endpoint.serve, getLeaderboard, loadLeaderboard_withoutPrivate hpublished]
  | streamContest board language =>
    simp only [Endpoint.serve, streamContest, contestPayload_withoutPrivate hpublished]
  | listSubmissions =>
    simp only [Endpoint.serve, listSubmissions, privatePublished_withoutPrivate, hpublished,
      Option.isSome_none, submissionsForUser_withoutPrivate, serializeSubmissions_withoutPrivate]
  | getSubmission id =>
    simp only [Endpoint.serve, getSubmission, privatePublished_withoutPrivate, hpublished,
      Option.isSome_none, submissionByID_withoutPrivate]
    cases submissionByID id db with
    | none => rfl
    | some row => rfl
  | listAdminSubmissions =>
    simp only [Endpoint.serve, listAdminSubmissions, privatePublished_withoutPrivate, hpublished,
      Option.isSome_none, allSubmissions_withoutPrivate, serializeSubmissions_withoutPrivate]
  | streamSubmissions =>
    simp only [Endpoint.serve, streamSubmissions, privatePublished_withoutPrivate, hpublished,
      Option.isSome_none, submissionsForUser_withoutPrivate, serializeSubmissions_withoutPrivate]
  | getSubmissionSource id =>
    simp only [Endpoint.serve, getSubmissionSource, privatePublished_withoutPrivate,
      submissionSource_withoutPrivate]
    rfl
  | getLeaderboardReplay =>
    simp only [Endpoint.serve, getLeaderboardReplay, privatePublished_withoutPrivate, hpublished]
    rfl

end Endpoints

/-- Before the publication no response depends on the private results. -/
theorem serve_samePublic {config : Config} {tie : String → ℕ} {now : Timestamp}
    {request : Request} {db₁ db₂ : Database} (hpublished : privatePublished db₁ = none)
    (h : SamePublic db₁ db₂) (endpoint : Endpoint) :
    endpoint.serve config tie now request db₁ = endpoint.serve config tie now request db₂ := by
  have hpublished₂ : privatePublished db₂ = none := by
    rw [← hpublished, privatePublished, privatePublished, h.contestState]
  rw [← serve_withoutPrivate hpublished, h.withoutPrivate_eq, serve_withoutPrivate hpublished₂]

/-- A database with one measured submission. -/
def measuredDatabase (privateVerdict : Verdict) (privateScoreNS : Option ℕ) : Database :=
  { Database.initial with
    users := ⟨[⟨"alice", some "a"⟩], List.nodup_singleton _⟩
    submissions := ⟨[{ Submission.reserved "a" "alice" 5 with
      language := some .go
      status := .completed
      publicVerdict := some .accepted
      publicScoreNS := some 7
      privateVerdict := some privateVerdict
      privateScoreNS := privateScoreNS }], List.nodup_singleton _⟩ }

theorem serve_samePublic_private : Endpoint.serve ⟨"1brc", 0, 10, [], "c7"⟩ (fun _ => 0) 20
      ⟨"r", none⟩ (measuredDatabase .accepted (some 9)) (.getLeaderboard (some "private") none) =
    Endpoint.serve ⟨"1brc", 0, 10, [], "c7"⟩ (fun _ => 0) 20
      ⟨"r", none⟩ (measuredDatabase .wrongAnswer none) (.getLeaderboard (some "private") none) :=
  serve_samePublic rfl ⟨rfl, rfl, rfl, rfl, rfl⟩ _

end OneBrc.Server
