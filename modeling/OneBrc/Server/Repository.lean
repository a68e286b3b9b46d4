import OneBrc.Server.Database

/-! The transactions of `repository.go` that change submissions and the contest state. Each is one
atomic function of the database; the database clock and the random id are arguments. -/
namespace OneBrc.Server
open Lib

inductive ErrorKind where
  | badRequest | unauthorized | forbidden | notFound | conflict | infrastructure
  deriving DecidableEq

structure AppError where
  kind : ErrorKind
  code : String
  message : String
  deriving DecidableEq

def databaseError : AppError :=
  ⟨.infrastructure, "database_error", "Database operation failed"⟩

def transactionError : AppError :=
  ⟨.infrastructure, "database_error", "Database transaction failed"⟩

structure Reservation where
  id : String
  uploadStartedAt : Timestamp
  deriving DecidableEq

/-- The row inserted by a reservation. -/
def Submission.reserved (id username : String) (uploadStartedAt : Timestamp) : Submission where
  id := id
  username := username
  executionKind := none
  language := none
  sourceFilename := none
  artifactSHA256 := none
  status := .uploading
  publicVerdict := none
  publicScoreNS := none
  privateVerdict := none
  privateScoreNS := none
  publicError := none
  infrastructureError := none
  disqualifiedReason := none
  uploadStartedAt := uploadStartedAt
  queuedAt := none
  startedAt := none
  completedAt := none

/-- An unfinished submission of this user. -/
def Submission.activeOf (username : String) (row : Submission) : Bool :=
  row.username = username && row.status.isActive

/-- INSERT IGNORE INTO users. -/
def ensureUser (username : String) (db : Database) : Database :=
  { db with users := db.users.insertIgnore ⟨username, none⟩ }

/-- The fresh uuid is `id` and CURRENT_TIMESTAMP(6) is `now`. -/
def reserveSubmission (config : Config) (now : Timestamp) (id username : String) (db : Database) :
    Except AppError (Reservation × Database) :=
  let db := ensureUser username db
  if now < config.contestStartAt then
    .error ⟨.conflict, "contest_not_started", "コンテストはまだ始まっていません"⟩
  else if 0 < db.submissions.count (Submission.activeOf username) then
    .error ⟨.conflict, "active_submission", "アップロードまたは計測中の提出があります"⟩
  else match db.submissions.insert? (.reserved id username now) with
    | none => .error transactionError
    | some submissions => .ok (⟨id, now⟩, { db with submissions })

def storeSource (id filename digest : String) (content : List UInt8) (db : Database) :
    Except AppError Database :=
  match db.insertSource ⟨id, filename, digest, content⟩ with
  | .error _ => .error databaseError
  | .ok db => .ok db

/-- The row set by `queueUpload`. -/
def Submission.queue (kind : ExecutionKind) (language : Language) (filename digest : String)
    (now : Timestamp) (row : Submission) : Submission :=
  { row with
    executionKind := some kind
    language := some language
    sourceFilename := some filename
    artifactSHA256 := some digest
    status := .queued
    queuedAt := some now }

@[simp] theorem Submission.queue_id (kind : ExecutionKind) (language : Language)
    (filename digest : String) (now : Timestamp) (row : Submission) :
    (row.queue kind language filename digest now).id = row.id := rfl

/-- WHERE id=? AND status=? -/
def Submission.matching (id : String) (status : SubmissionStatus) (row : Submission) : Bool :=
  row.id = id && row.status = status

/-- The UPDATE always runs; `false` stands for `upload_expired`, when it affected no row. -/
def queueUpload (now : Timestamp) (id : String) (kind : ExecutionKind) (language : Language)
    (filename digest : String) (db : Database) : Bool × Database :=
  let affected := db.submissions.count (Submission.matching id .uploading)
  (affected = 1, db.updateSubmissions (Submission.matching id .uploading)
    (Submission.queue kind language filename digest now) (Submission.queue_id _ _ _ _ _))

def discardUpload (id : String) (db : Database) : Database :=
  db.deleteSubmissions (Submission.matching id .uploading)

def Submission.retry (row : Submission) : Submission :=
  { row with status := .queued, infrastructureError := none }

@[simp] theorem Submission.retry_id (row : Submission) : row.retry.id = row.id := rfl

def retrySubmission (id : String) (db : Database) : Except AppError Database :=
  let affected := db.submissions.count (Submission.matching id .infrastructureError)
  if affected = 1 then
    .ok (db.updateSubmissions (Submission.matching id .infrastructureError) Submission.retry
      Submission.retry_id)
  else
    .error ⟨.conflict, "retry_not_allowed", "再試行できる計測エラーの提出ではありません"⟩

def Submission.disqualify (reason : String) (row : Submission) : Submission :=
  { row with disqualifiedReason := some reason, status := .disqualified }

@[simp] theorem Submission.disqualify_id (reason : String) (row : Submission) :
    (row.disqualify reason).id = row.id := rfl

def disqualifySubmission (id reason : String) (db : Database) : Except AppError Database :=
  match db.submissions.get? id with
  | none => .error ⟨.notFound, "submission_not_found", "提出が見つかりません"⟩
  | some row =>
      if row.status = .uploading ∨ row.status = .running then
        .error ⟨.conflict, "submission_active",
          "アップロード中または計測中の提出は完了後に失格にしてください"⟩
      else
        .ok (db.updateSubmissions (·.id = id)
          (Submission.disqualify (truncateUTF16 reason 8192)) (Submission.disqualify_id _))

/-- The checks of `publishPrivate`, made while its transaction holds the contest state. -/
def publishPrivateCheck (config : Config) (now : Timestamp) (db : Database) :
    Except AppError Unit :=
  if db.contestState.privatePublishedAt.isSome then
    .error ⟨.conflict, "private_already_published", "Private結果はすでに公開されています"⟩
  else if ¬ config.contestEndAt < now then
    .error ⟨.conflict, "contest_not_ended", "コンテスト終了前には公開できません"⟩
  else if 0 < db.submissions.count (·.status.isActive) then
    .error ⟨.conflict, "queue_not_drained", "未完了の提出があります"⟩
  else .ok ()

/-- The UPDATE at the end of `publishPrivate`. -/
def publishPrivateCommit (now : Timestamp) (db : Database) : Database :=
  { db with contestState :=
    { db.contestState with
      privatePublishedAt := some (db.contestState.privatePublishedAt.getD now) } }

def unpublishPrivate (db : Database) : Except AppError Database :=
  if db.contestState.privatePublishedAt.isSome then
    .ok { db with contestState := { db.contestState with privatePublishedAt := none } }
  else .error ⟨.conflict, "private_not_published", "Private結果は公開されていません"⟩

section Specs
variable {config : Config} {now : Timestamp} {id username : String} {db db' : Database}

theorem Submission.matching_iff {status : SubmissionStatus} {row : Submission} :
    Submission.matching id status row = true ↔ row.id = id ∧ row.status = status := by
  simp [Submission.matching]

theorem Submission.activeOf_iff {row : Submission} :
    Submission.activeOf username row = true ↔
      row.username = username ∧ row.status.isActive = true := by
  simp [Submission.activeOf]

/-- Everything a successful reservation says about the database before and after it. -/
theorem reserveSubmission_ok {reserved : Reservation}
    (h : reserveSubmission config now id username db = .ok (reserved, db')) :
    reserved = ⟨id, now⟩ ∧ config.contestStartAt ≤ now ∧ db.submissions.get? id = none ∧
      (∀ k row, db.submissions.get? k = some row → row.username = username →
        row.status.isActive = false) ∧
      ∃ hnew, db' = { ensureUser username db with
        submissions := db.submissions.insert (.reserved id username now) hnew } := by
  unfold reserveSubmission at h
  dsimp only at h
  split at h
  · contradiction
  next hstart =>
    split at h
    · contradiction
    next hactive =>
      split at h
      · contradiction
      next submissions hinsert =>
        obtain ⟨rfl, rfl⟩ := Prod.mk.inj (Except.ok.inj h)
        obtain ⟨hnew, rfl⟩ := Table.insert?_eq_some.mp hinsert
        refine ⟨rfl, Nat.le_of_not_lt hstart, hnew, ?_, hnew, rfl⟩
        intro k row hrow huser
        have hzero := Table.count_eq_zero.mp (Nat.eq_zero_of_not_pos hactive) k row hrow
        rw [← Bool.not_eq_true, Submission.activeOf_iff] at hzero
        cases hact : row.status.isActive with
        | false => rfl
        | true => exact absurd ⟨huser, hact⟩ hzero

theorem storeSource_ok {filename digest : String} {content : List UInt8}
    (h : storeSource id filename digest content db = .ok db') :
    db.insertSource ⟨id, filename, digest, content⟩ = .ok db' := by
  unfold storeSource at h
  split at h
  · contradiction
  next db'' hdb =>
    obtain rfl := Except.ok.inj h
    exact hdb

/-- Affecting one row by primary key means that the row exists and has the status. -/
theorem count_matching {t : Table String Submission Submission.id} {status : SubmissionStatus}
    (h : t.count (Submission.matching id status) = 1) :
    ∃ row, t.get? id = some row ∧ row.status = status := by
  have hpos : 0 < t.rows.countP (Submission.matching id status) := by
    have h' : t.rows.countP (Submission.matching id status) = 1 := h
    omega
  obtain ⟨row, hrow, hm⟩ := List.countP_pos_iff.mp hpos
  obtain ⟨rfl, hstatus⟩ := Submission.matching_iff.mp hm
  exact ⟨row, Table.get?_of_mem hrow, hstatus⟩

theorem retrySubmission_ok (h : retrySubmission id db = .ok db') :
    (∃ row, db.submissions.get? id = some row ∧ row.status = .infrastructureError) ∧
      db' = db.updateSubmissions (Submission.matching id .infrastructureError) Submission.retry
        Submission.retry_id := by
  unfold retrySubmission at h
  dsimp only at h
  split at h
  next hone => exact ⟨count_matching hone, (Except.ok.inj h).symm⟩
  next => contradiction

theorem disqualifySubmission_ok {reason : String}
    (h : disqualifySubmission id reason db = .ok db') :
    (∃ row, db.submissions.get? id = some row ∧ row.status ≠ .uploading ∧
      row.status ≠ .running) ∧
      db' = db.updateSubmissions (·.id = id)
        (Submission.disqualify (truncateUTF16 reason 8192)) (Submission.disqualify_id _) := by
  unfold disqualifySubmission at h
  split at h
  · contradiction
  next row hrow =>
    split at h
    · contradiction
    next hstatus =>
      rw [not_or] at hstatus
      exact ⟨⟨row, hrow, hstatus⟩, (Except.ok.inj h).symm⟩

theorem publishPrivateCheck_ok (h : publishPrivateCheck config now db = .ok ()) :
    db.contestState.privatePublishedAt = none ∧ config.contestEndAt < now ∧
      ∀ k row, db.submissions.get? k = some row → row.status.isActive = false := by
  unfold publishPrivateCheck at h
  split at h
  · contradiction
  next hpub =>
    split at h
    · contradiction
    next hend =>
      split at h
      · contradiction
      next hactive =>
        refine ⟨by simpa using hpub, not_not.mp hend, ?_⟩
        exact Table.count_eq_zero.mp (Nat.eq_zero_of_not_pos hactive)

theorem unpublishPrivate_ok (h : unpublishPrivate db = .ok db') :
    db' = { db with contestState := { db.contestState with privatePublishedAt := none } } := by
  unfold unpublishPrivate at h
  split at h
  next => exact (Except.ok.inj h).symm
  next => contradiction

end Specs
end OneBrc.Server
