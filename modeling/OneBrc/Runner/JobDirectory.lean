import OneBrc.Domain
import OneBrc.Lib.Table

/-! The job directories of the runner, and what the gateway's commands do to them. -/
namespace OneBrc.Runner
open Lib

def artifactExtension : ExecutionKind → String
  | .typescript | .bun => ".ts"
  | .javascript => ".js"
  | .ruby => ".rb"
  | .native => ""

/-- An artifact file, by the extension of its name and the SHA-256 of its content. -/
structure Artifact where
  extension : String
  sha256 : String
  deriving DecidableEq

structure JobDirectory where
  id : String
  artifacts : Table String Artifact Artifact.extension
  cancelled : Bool
  deriving DecidableEq

/-- Everything below `RUNNER_ROOT/jobs`. -/
abbrev Jobs := Table String JobDirectory JobDirectory.id

namespace Jobs

/-- `mkdir` with `recursive: true`. -/
def directory (jobs : Jobs) (id : String) : JobDirectory :=
  (jobs.get? id).getD ⟨id, .empty, false⟩

/-- SHA-256 of the artifact of this execution kind. -/
def artifact? (jobs : Jobs) (id : String) (kind : ExecutionKind) : Option String :=
  (jobs.get? id).bind fun job => (job.artifacts.get? (artifactExtension kind)).map (·.sha256)

def isCancelled (jobs : Jobs) (id : String) : Bool := (jobs.get? id).any (·.cancelled)

/-- The rename at the end of `upload`, which has checked the digest of the received file. -/
def upload (jobs : Jobs) (id : String) (kind : ExecutionKind) (digest : String) : Jobs :=
  let job := jobs.directory id
  jobs.put { job with id := id, artifacts := job.artifacts.put ⟨artifactExtension kind, digest⟩ }

/-- `cancel` writes the marker first. -/
def markCancelled (jobs : Jobs) (id : String) : Jobs :=
  jobs.put { jobs.directory id with id := id, cancelled := true }

def cleanup (jobs : Jobs) (id : String) : Jobs := jobs.delete (·.id = id)

variable (jobs : Jobs) (id k : String) (kind : ExecutionKind) (digest : String)

@[simp] theorem get?_cleanup : (jobs.cleanup id).get? k = if k = id then none else jobs.get? k := by
  rw [cleanup, Table.get?_delete]
  cases hk : jobs.get? k with
  | none => simp
  | some job =>
    have hid : job.id = k := Table.get?_key hk
    by_cases h : k = id
    · simp [Option.filter, hid, h]
    · simp [Option.filter, hid, h]

theorem get?_upload_of_ne (h : k ≠ id) : (jobs.upload id kind digest).get? k = jobs.get? k := by
  simp [upload, Ne.symm h]

theorem get?_markCancelled_of_ne (h : k ≠ id) : (jobs.markCancelled id).get? k = jobs.get? k := by
  simp [markCancelled, Ne.symm h]

@[simp] theorem artifact?_upload :
    (jobs.upload id kind digest).artifact? id kind = some digest := by
  simp [artifact?, upload]

@[simp] theorem isCancelled_upload :
    (jobs.upload id kind digest).isCancelled id = jobs.isCancelled id := by
  unfold isCancelled upload directory
  cases jobs.get? id <;> simp

@[simp] theorem artifact?_markCancelled :
    (jobs.markCancelled id).artifact? id kind = jobs.artifact? id kind := by
  unfold artifact? markCancelled directory
  cases jobs.get? id <;> simp

theorem artifact?_congr {jobs jobs' : Jobs} {id : String} (h : jobs.get? id = jobs'.get? id) :
    jobs.artifact? id kind = jobs'.artifact? id kind := by
  rw [artifact?, h, artifact?]

theorem isCancelled_congr {jobs jobs' : Jobs} {id : String} (h : jobs.get? id = jobs'.get? id) :
    jobs.isCancelled id = jobs'.isCancelled id := by
  rw [isCancelled, h, isCancelled]

end Jobs
end OneBrc.Runner
