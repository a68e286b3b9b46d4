import OneBrc.Lib.Transition
import OneBrc.Runner.JobDirectory

/-! One `cancel` of the gateway beside any number of `run` processes. Every file-system call, every
docker command and every attempt on the lock is one step; processes are killed at any point, and
the lock is released when its holder exits. -/
namespace OneBrc.Runner
open Lib

/-- `onebrc-<id>-<dataset>-<attempt>-<suffix>`. -/
structure ContainerName where
  id : String
  dataset : Dataset
  attempt : ℕ
  suffix : String
  deriving DecidableEq

/-- `RUNNER_WORK_ROOT/<id>/<dataset>-<attempt>`. -/
structure WorkDirectory where
  id : String
  dataset : Dataset
  attempt : ℕ
  deriving DecidableEq

/-- How `docker start` and the checks after it end. -/
inductive AttemptOutcome where
  | accepted | failed | thrown
  deriving DecidableEq

/-- The call that a `run` process makes next; `locking` is the process that starts `flock`. -/
inductive RunPc where
  | locking
  | accessing
  | caching (dataset : Dataset)
  | checking (dataset : Dataset) (attempt : ℕ)
  | clearing (dataset : Dataset) (attempt : ℕ)
  | making (dataset : Dataset) (attempt : ℕ)
  | permitting (dataset : Dataset) (attempt : ℕ)
  | creating (dataset : Dataset) (attempt : ℕ)
  | measuring (container : ContainerName)
  | removing (container : ContainerName) (outcome : AttemptOutcome)
  | comparing (dataset : Dataset) (attempt : ℕ)
  | discarding (dataset : Dataset) (attempt : ℕ) (accepted : Bool)
  deriving DecidableEq

structure RunProcess where
  pid : ℕ
  id : String
  kind : ExecutionKind
  pc : RunPc
  deriving DecidableEq

/-- The call that `cancel` makes next. `polling` tells the listings of `whileBusy` from the first
one; `locked` is the `flock` that runs `true`. -/
inductive CancelPc where
  | idle
  | makingDirectory
  | marking
  | listing (polling : Bool)
  | removing (polling : Bool) (containers : List ContainerName)
  | locking
  | waiting
  | locked
  | cleaningJob
  | cleaningWork
  | exited (success : Bool)
  deriving DecidableEq

inductive LockHolder where
  | run (pid : ℕ)
  | cancel
  deriving DecidableEq

structure Host where
  jobs : Jobs
  work : List WorkDirectory
  containers : List ContainerName
  lock : Option LockHolder
  runs : Table ℕ RunProcess RunProcess.pid
  cancel : CancelPc
  deriving DecidableEq

/-- The outcome of a call is an argument where it is not determined by the host. -/
inductive RunAction where
  | lock
  | access
  | cacheInput (ok : Bool)
  | throwIfCancelled
  | clear
  | make
  | permit
  | create (suffix : String) (ok : Bool)
  | start (outcome : AttemptOutcome)
  | remove (removed : Bool)
  | compare (accepted : Bool)
  | discard (slow : Bool)
  | kill
  deriving DecidableEq

inductive CancelAction where
  | start
  | makeDirectory
  | mark
  | list
  | remove
  | lock
  | lockFailed
  | wait
  | release
  | cleanJob
  | cleanWork
  | fail
  deriving DecidableEq

inductive GatewayAction where
  | spawn (pid : ℕ) (id : String) (kind : ExecutionKind)
  | run (pid : ℕ) (action : RunAction)
  | cancel (action : CancelAction)
  deriving DecidableEq

namespace Host

def setRun (h : Host) (p : RunProcess) (pc : RunPc) : Host :=
  { h with runs := h.runs.put { p with pc } }

/-- The end of a process releases its lock. -/
def exitRun (h : Host) (p : RunProcess) : Host :=
  { h with
    runs := h.runs.delete (·.pid = p.pid)
    lock := if h.lock = some (.run p.pid) then none else h.lock }

/-- `rm` of the work directory of one attempt. -/
def removeAttemptWork (h : Host) (directory : WorkDirectory) : Host :=
  { h with work := h.work.filter (· ≠ directory) }

/-- After the last attempt on a dataset: the private one follows the public one. -/
def finishDataset (h : Host) (p : RunProcess) : Dataset → Host
  | .publicData => h.setRun p (.caching .privateData)
  | .privateData => h.exitRun p

/-- `docker create` needs the bind sources and an unused name. -/
def canCreate (h : Host) (p : RunProcess) (container : ContainerName) : Bool :=
  (h.jobs.artifact? p.id p.kind).isSome &&
    h.work.contains ⟨p.id, container.dataset, container.attempt⟩ &&
    !h.containers.contains container

end Host

/-- One call of `runUnderLock`, `run`, `benchmark` or `runAttempt`. -/
def runStep (h : Host) (p : RunProcess) : RunAction → RunPc → Option Host
  | .lock, .locking =>
      if h.lock = none then some ({ h with lock := some (.run p.pid) }.setRun p .accessing)
      else some (h.exitRun p)
  | .access, .accessing =>
      if (h.jobs.artifact? p.id p.kind).isSome then some (h.setRun p (.caching .publicData))
      else some (h.exitRun p)
  | .cacheInput ok, .caching dataset =>
      if ok then some (h.setRun p (.checking dataset 1)) else some (h.exitRun p)
  | .throwIfCancelled, .checking dataset attempt =>
      if h.jobs.isCancelled p.id then some (h.exitRun p)
      else some (h.setRun p (.clearing dataset attempt))
  | .clear, .clearing dataset attempt =>
      some ((h.removeAttemptWork ⟨p.id, dataset, attempt⟩).setRun p (.making dataset attempt))
  | .make, .making dataset attempt =>
      some ({ h with work := ⟨p.id, dataset, attempt⟩ :: h.work }.setRun p
        (.permitting dataset attempt))
  | .permit, .permitting dataset attempt =>
      if h.work.contains ⟨p.id, dataset, attempt⟩ then some (h.setRun p (.creating dataset attempt))
      else some (h.exitRun p)
  | .create suffix ok, .creating dataset attempt =>
      let container := ⟨p.id, dataset, attempt, suffix⟩
      if ok && h.canCreate p container then
        some ({ h with containers := container :: h.containers }.setRun p (.measuring container))
      else some (h.exitRun p)
  | .start outcome, .measuring container =>
      let outcome := if h.containers.contains container then outcome else .thrown
      some (h.setRun p (.removing container outcome))
  | .remove removed, .removing container outcome =>
      let h := if removed then { h with containers := h.containers.filter (· ≠ container) } else h
      match outcome with
      | .thrown => some (h.exitRun p)
      | .failed => some (h.setRun p (.discarding container.dataset container.attempt false))
      | .accepted => some (h.setRun p (.comparing container.dataset container.attempt))
  | .compare accepted, .comparing dataset attempt =>
      some (h.setRun p (.discarding dataset attempt accepted))
  | .discard slow, .discarding dataset attempt accepted =>
      let h := h.removeAttemptWork ⟨p.id, dataset, attempt⟩
      if !accepted then some (h.exitRun p)
      else if attempt = benchmarkPolicy.repetitions || attempt = 1 && slow then
        some (h.finishDataset p dataset)
      else some (h.setRun p (.checking dataset (attempt + 1)))
  | .kill, _ => some (h.exitRun p)
  | _, _ => none

/-- After `removeContainers`: the lock, or the rest of the polling pass. -/
def CancelPc.afterRemove (polling : Bool) : CancelPc := if polling then .waiting else .locking

/-- One call of `cancel`. A call that fails, and a deadline, end it without success. -/
def cancelStep (target : String) (h : Host) : CancelAction → CancelPc → Option Host
  | .start, .idle => some { h with cancel := .makingDirectory }
  | .makeDirectory, .makingDirectory =>
      some { h with
        jobs := h.jobs.put { h.jobs.directory target with id := target }
        cancel := .marking }
  | .mark, .marking => some { h with jobs := h.jobs.markCancelled target, cancel := .listing false }
  | .list, .listing polling =>
      let containers := h.containers.filter (·.id = target)
      some { h with
        cancel :=
          if containers = [] then .afterRemove polling else .removing polling containers }
  | .remove, .removing polling containers =>
      some { h with
        containers := h.containers.filter (· ∉ containers)
        cancel := .afterRemove polling }
  | .lock, .locking =>
      if h.lock = none then some { h with lock := some .cancel, cancel := .locked }
      else some { h with cancel := .listing true }
  -- `flock` was not started, did not open the file or was killed: its code is not 75
  | .lockFailed, .locking => some { h with cancel := .cleaningJob }
  | .wait, .waiting => some { h with cancel := .locking }
  | .release, .locked => some { h with lock := none, cancel := .cleaningJob }
  | .cleanJob, .cleaningJob =>
      some { h with jobs := h.jobs.cleanup target, cancel := .cleaningWork }
  | .cleanWork, .cleaningWork =>
      some { h with work := h.work.filter (·.id ≠ target), cancel := .exited true }
  | .fail, .idle | .fail, .exited _ => none
  | .fail, _ =>
      some { h with
        lock := if h.lock = some .cancel then none else h.lock
        cancel := .exited false }
  | _, _ => none

def gatewayStep (target : String) (h : Host) : GatewayAction → Option Host
  | .spawn pid id kind =>
      match h.runs.insert? ⟨pid, id, kind, .locking⟩ with
      | none => none
      | some runs => some { h with runs }
  | .run pid action =>
      match h.runs.get? pid with
      | none => none
      | some p => runStep h p action p.pc
  | .cancel action => cancelStep target h action h.cancel

/-- The runner with one `cancel` of the target, from any job directories and containers. -/
def gatewaySystem (target : String) (jobs : Jobs) (containers : List ContainerName) :
    TransitionSystem Host GatewayAction :=
  ⟨⟨jobs, [], containers, none, .empty, .idle⟩, gatewayStep target⟩

/-- Once `cancel` has exited successfully there is no container of the job. -/
def CancelFinal (target : String) (h : Host) : Prop :=
  h.cancel = .exited true → ∀ c ∈ h.containers, c.id ≠ target

end OneBrc.Runner
