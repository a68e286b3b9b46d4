import OneBrc.Server.Representative
import OneBrc.Server.WorkerLock

/-! Who serves the queue. The lock belongs to one session and the statements of the loop go through
others, so a loop whose session is lost runs on beside the loop of the next holder. -/
namespace OneBrc.Server
open Lib

/-- The step claims a submission, marks a failure or stores a result. -/
def WorkerAction.serves (s s' : System) : WorkerAction → Prop
  | .claimNext _ _ => s'.db.submissions ≠ s.db.submissions
  | .markFailure _ | .storeResult _ => True
  | _ => False

/-- While a process holds the lock, no other process's loop serves the queue. -/
def HolderServes (config : Config) (G : System → Action → Prop) : Prop :=
  ∀ s r action s' holder, (contestSystem config).Reachable G s → G s (.worker r action) →
    step config s (.worker r action) = some s' → action.serves s s' → s.lock = some holder →
    r = holder

section
variable {config : Config} {s s' : System} {a : Action}

/-- A loop is left through the release of the lock only. -/
theorem WorkerEffect.stays {rep : Replica} {action : WorkerAction} {pc : WorkerPc}
    (h : WorkerEffect config s rep action pc s') (hlock : s'.lock = some rep.id) :
    ∃ pc', s'.workerPc rep.id = some pc' ∧ pc'.inLoop = true := by
  have hset {t : System} {pc' : WorkerPc} (hloop : pc'.inLoop = true) :
      ∃ pc'', (t.setWorker rep pc').workerPc rep.id = some pc'' ∧ pc''.inLoop = true :=
    ⟨pc', by rw [System.workerPc_setWorker, if_pos rfl], hloop⟩
  have hhead : rep.loopHead.inLoop = true := by
    unfold Replica.loopHead
    split
    · rfl
    · rfl
  cases h with
  | acquireLock | validateEnvironment | refuse | begin | runFailed | runReturned | abandonMark
  | abandonStore => exact hset rfl
  | idle | cleanup => exact hset hhead
  | claim _ acknowledged | markFailure acknowledged | storeResult acknowledged =>
    apply hset
    cases acknowledged with
    | false => first | exact hhead | rfl
    | true => first | exact hhead | rfl
  | leave =>
    simp only [System.setWorker, System.setReplica, System.releaseLock] at hlock
    split at hlock
    · contradiction
    · next hother => exact absurd hlock hother

theorem holder_step (hs : ∀ r, s.lock = some r → ∃ pc, s.workerPc r = some pc ∧ pc.inLoop = true)
    (h : step config s a = some s') (r : ℕ) (hlock : s'.lock = some r) :
    ∃ pc, s'.workerPc r = some pc ∧ pc.inLoop = true := by
  have hcrash : a ≠ .crash r := by
    rintro rfl
    obtain rfl := Option.some.inj h
    exact crashStep_lock s r hlock
  cases worker_step h r with
  | crash => exact absurd rfl hcrash
  | acts rep action pc hid _ _ heffect =>
    subst hid
    exact heffect.stays hlock
  | recovered _ hnone =>
    rcases lock_step h with hsame | hfree | ⟨_, ha, _⟩
    · obtain ⟨pc, hpc, _⟩ := hs r (hsame ▸ hlock)
      rw [hnone] at hpc
      contradiction
    · rw [hlock] at hfree
      contradiction
    · contradiction
  | other _ ha hsame =>
    rw [hsame]
    rcases lock_step h with hkept | hfree | ⟨r', rfl, _, hlock'⟩
    · exact hs r (hkept ▸ hlock)
    · rw [hlock] at hfree
      contradiction
    · rw [hlock] at hlock'
      exact absurd hlock'.symm ha

/-- In every run the lock holder is in its loop. -/
theorem holder_inLoop (h : (contestSystem config).Reachable TransitionSystem.Free s) {r : ℕ}
    (hlock : s.lock = some r) : ∃ pc, s.workerPc r = some pc ∧ pc.inLoop = true := by
  have hall : ∀ r, s.lock = some r → ∃ pc, s.workerPc r = some pc ∧ pc.inLoop = true := by
    apply h.invariant (I := fun s =>
      ∀ r, s.lock = some r → ∃ pc, s.workerPc r = some pc ∧ pc.inLoop = true)
    · intro r hlock
      contradiction
    · intro s a s' hs _ h
      exact holder_step hs h
  exact hall r hlock

/-- In every run in which the lock is taken only while no loop is running, the queue is served by
the lock holder alone. -/
theorem holderServes_of_oneWorkerLoop (config : Config) : HolderServes config OneWorkerLoop := by
  intro s r action s' holder hs _ h hserves hlock
  obtain ⟨pc', hpc', hloop'⟩ := holder_inLoop hs.free hlock
  cases worker_step h r with
  | other _ ha => exact absurd rfl ha
  | acts _ _ pc _ _ hpc heffect =>
    rcases heffect.inLoop with hloop | rfl
    · exact (settled hs).loop r holder pc pc' hpc hpc' hloop hloop'
    · exact hserves.elim

end

/-- The leader stops, and the next leader is about to claim. -/
def ledInTurn : List Action :=
  boot 0 ++ boot 1 ++ lead 0 ++
    accept 0 "a" "alice" ⟨.ruby, .ruby, "main.rb", [], "e3b0", "e3b0"⟩ ++
    [.stop 0, .worker 0 .leave] ++ lead 1

theorem holderServes_ledInTurn : ∃ s s',
    (contestSystem ⟨"1brc", 0, 100, [], "env"⟩).Reachable OneWorkerLoop s ∧
    step ⟨"1brc", 0, 100, [], "env"⟩ s (.worker 1 (.claimNext [] true)) = some s' ∧
    WorkerAction.serves s s' (.claimNext [] true) ∧
    ∀ r action t, OneWorkerLoop s (.worker r action) →
      step ⟨"1brc", 0, 100, [], "env"⟩ s (.worker r action) = some t → action.serves s t →
      r = 1 := by
  have hrun : ((contestSystem ⟨"1brc", 0, 100, [], "env"⟩).run OneWorkerLoop .initial
      ledInTurn).any (fun s => s.lock = some 1 &&
        (step ⟨"1brc", 0, 100, [], "env"⟩ s (.worker 1 (.claimNext [] true))).any fun t =>
          t.db.submissions ≠ s.db.submissions) = true := by
    decide
  obtain ⟨s, hpath, hcheck⟩ := TransitionSystem.exists_path_of_run hrun
  simp only [Bool.and_eq_true, decide_eq_true_eq, Option.any_eq_true] at hcheck
  obtain ⟨hlock, s', hs', hclaimed⟩ := hcheck
  exact ⟨s, s', hpath, hs', hclaimed, fun r action t hguard ht hserves =>
    holderServes_of_oneWorkerLoop _ s r action t 1 hpath hguard ht hserves hlock⟩

/-- The session that holds the lock is lost at the head of the loop, and another replica leads. -/
def sessionLost : List Action :=
  boot 0 ++ boot 1 ++ lead 0 ++
    accept 0 "a" "alice" ⟨.ruby, .ruby, "main.rb", [], "e3b0", "e3b0"⟩ ++ [.loseLock] ++ lead 1

theorem not_holderServes : ¬ ∀ config, HolderServes config TransitionSystem.Free := by
  intro hlaw
  have hrun : ((contestSystem ⟨"1brc", 0, 100, [], "env"⟩).run TransitionSystem.Free .initial
      sessionLost).any (fun s => s.lock = some 1 &&
        (step ⟨"1brc", 0, 100, [], "env"⟩ s (.worker 0 (.claimNext [] true))).any fun t =>
          t.db.submissions ≠ s.db.submissions) = true := by
    decide
  obtain ⟨s, hpath, hcheck⟩ := TransitionSystem.exists_path_of_run hrun
  simp only [Bool.and_eq_true, decide_eq_true_eq, Option.any_eq_true] at hcheck
  obtain ⟨hlock, t, ht, hclaimed⟩ := hcheck
  have hholder := hlaw _ s 0 (.claimNext [] true) t 1 hpath trivial ht hclaimed hlock
  contradiction

end OneBrc.Server
