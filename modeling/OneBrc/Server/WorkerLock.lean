import OneBrc.Server.Projection

/-! Running submissions and the worker lock. A new leader does not look for running rows, and a
claim whose acknowledgement is lost is forgotten; without these two no row is left behind. -/
namespace OneBrc.Server
open Lib

/-- The loop of the lock holder never starts over while a submission is running. -/
def NoOrphan (s : System) : Prop :=
  ∀ r k, s.lock = some r → s.workerPc r = some .head → s.status k ≠ some .running

def Action.acquires : Action → Bool
  | .worker _ .acquireLock => true
  | _ => false

/-- The claiming worker, and whether its commit is acknowledged. -/
def Action.claims? : Action → Option (ℕ × Bool)
  | .worker r (.claimNext _ acknowledged) => some (r, acknowledged)
  | _ => none

/-- The lock changes hands while no submission is running; a worker whose session lost the lock to
another one claims nothing; a claim is acknowledged unless the process is stopping. -/
def Attended (s : System) (a : Action) : Prop :=
  (a.acquires = true → ∀ row ∈ s.db.submissions.rows, row.status ≠ .running) ∧
    ∀ claim ∈ a.claims?, s.lock = none ∨
      s.lock = some claim.1 ∧ (claim.2 = true ∨ s.cancelled claim.1 = true)

instance : DecidableRel Attended := fun s a =>
  inferInstanceAs (Decidable ((a.acquires = true → ∀ row ∈ s.db.submissions.rows,
      row.status ≠ .running) ∧
    ∀ claim ∈ a.claims?, s.lock = none ∨
      s.lock = some claim.1 ∧ (claim.2 = true ∨ s.cancelled claim.1 = true)))

/-- The worker at this point settles the running submission `k`, or leaves without it. -/
def WorkerPc.attends (cancelled : Bool) (k : String) : WorkerPc → Prop
  | .claimed job | .running job | .marking job _ | .storing job _ => job.id = k
  | .cleaning _ => cancelled = true
  | .leaving => True
  | .waiting | .starting | .head | .stopped => False

/-- Every running submission is attended by the lock holder. -/
def RunningAttended (s : System) : Prop :=
  ∀ r k, s.lock = some r → s.status k = some .running →
    ∃ pc, s.workerPc r = some pc ∧ pc.attends (s.cancelled r) k

section
variable {config : Config} {s s' : System} {a : Action} {k : String}

/-- Only a claim makes a submission running. -/
theorem RowStep.of_running {old new : Option Submission} {row : Submission}
    (h : RowStep config s k a old new) (hnew : new = some row) (hrunning : row.status = .running) :
    new = old ∨ ∃ r locked acknowledged, a = .worker r (.claimNext locked acknowledged) ∧
      ∃ before, old = some before ∧ before.status = .queued := by
  cases h with
  | same => exact .inl rfl
  | claim r locked acknowledged before _ hstatus =>
    exact .inr ⟨r, locked, acknowledged, rfl, before, rfl, hstatus⟩
  | discard | deleteUploading => contradiction
  | reserve | queue | markInterrupted | markFailure | storeResult | retry | disqualify =>
    obtain rfl := Option.some.inj hnew
    contradiction

theorem Replica.loopHead_cancelled {rep : Replica} (h : rep.cancelled = true) :
    rep.loopHead = .leaving := if_pos h

/-- The worker keeps attending a submission that is still running after its step. -/
theorem WorkerEffect.attends {rep : Replica} {action : WorkerAction} {pc : WorkerPc}
    (h : WorkerEffect config s rep action pc s') (hpc : pc.attends rep.cancelled k)
    (hrunning : s'.status k = some .running) (hlock : s'.lock = some rep.id) :
    ∃ pc', s'.workerPc rep.id = some pc' ∧ pc'.attends rep.cancelled k := by
  have hset {t : System} {pc' : WorkerPc} (hattends : pc'.attends rep.cancelled k) :
      ∃ pc'', (t.setWorker rep pc').workerPc rep.id = some pc'' ∧
        pc''.attends rep.cancelled k :=
    ⟨pc', by rw [System.workerPc_setWorker, if_pos rfl], hattends⟩
  cases h with
  | acquireLock | validateEnvironment | idle | claim => exact hpc.elim
  | refuse | begin | runFailed | runReturned => exact hset hpc
  | abandonMark => exact hset trivial
  | abandonStore _ _ hcancelled => exact hset hcancelled
  | markFailure acknowledged job message =>
    obtain rfl : job.id = k := hpc
    exact absurd hrunning (markInfrastructureFailure_not_running job.id message)
  | storeResult acknowledged job result db hdb =>
    obtain rfl : job.id = k := hpc
    exact absurd hrunning (storeResult_not_running hdb)
  | cleanup executed job =>
    apply hset
    rw [Replica.loopHead_cancelled hpc]
    trivial
  | leave =>
    have hne : (s.releaseLock rep).lock ≠ some rep.id := by
      simp only [System.releaseLock]
      split
      · exact (Option.some_ne_none _).symm
      · assumption
    exact absurd hlock hne

theorem WorkerPc.attends_mono {pc : WorkerPc} {c c' : Bool} (hc : c = true → c' = true)
    (h : pc.attends c k) : pc.attends c' k := by
  cases pc with
  | cleaning => exact hc h
  | claimed | running | marking | storing | leaving => exact h
  | waiting | starting | head | stopped => exact h.elim

/-- A claim that meets the condition is attended by its worker, or its process is stopping. -/
theorem WorkerEffect.attends_claim {rep : Replica} {locked : List String} {acknowledged : Bool}
    {pc : WorkerPc} (h : WorkerEffect config s rep (.claimNext locked acknowledged) pc s')
    (hrep : s.replicas.get? rep.id = some rep) (hne : s'.status k ≠ s.status k)
    (hack : acknowledged = true ∨ s.cancelled rep.id = true) :
    ∃ pc', s'.workerPc rep.id = some pc' ∧ pc'.attends rep.cancelled k := by
  cases h with
  | idle => exact absurd rfl hne
  | claim _ _ row hrow =>
    refine ⟨_, by rw [System.workerPc_setWorker, if_pos rfl], ?_⟩
    cases acknowledged with
    | true =>
      by_contra hid
      apply hne
      simp only [System.status, System.row, System.setWorker, System.setReplica,
        Database.updateSubmissions_submissions, Table.get?_update]
      cases hk : s.db.submissions.get? k with
      | none => rfl
      | some row' =>
        have hk' : row'.id ≠ row.id := by
          rw [Table.get?_key hk]
          exact Ne.symm hid
        simp [hk']
    | false =>
      rw [System.cancelled_eq hrep] at hack
      rw [if_neg (by decide), Replica.loopHead_cancelled (hack.resolve_left (by decide))]
      trivial

theorem crashStep_lock (s : System) (r : ℕ) : (crashStep s r).lock ≠ some r := by
  simp only [crashStep]
  split
  · exact (Option.some_ne_none _).symm
  · assumption

/-- A submission that becomes running is attended by the lock holder. -/
theorem attends_of_claim {r : ℕ} (hg : Attended s a) (h : step config s a = some s')
    (hlock : s'.lock = some r) (hbefore : s.status k ≠ some .running)
    (hrunning : s'.status k = some .running) :
    ∃ pc, s'.workerPc r = some pc ∧ pc.attends (s.cancelled r) k := by
  obtain ⟨row, hrow, hstatus⟩ := Option.map_eq_some_iff.mp hrunning
  rcases (row_step h k).of_running hrow hstatus with hsame | ⟨r', locked, acknowledged, rfl, _⟩
  · rw [System.status, ← hsame, ← System.status] at hbefore
    exact absurd hrunning hbefore
  · have hkept : s.lock = some r := by
      rcases lock_step h with hsame | hnone | ⟨_, ha, _⟩
      · rw [← hsame, hlock]
      · rw [hlock] at hnone
        contradiction
      · simp at ha
    have hclaim := hg.2 (r', acknowledged) rfl
    rw [hkept] at hclaim
    obtain ⟨hr, hack⟩ := hclaim.resolve_left nofun
    obtain rfl : r = r' := Option.some.inj hr
    cases worker_step h r with
    | other _ ha => exact absurd rfl ha
    | acts rep action pc hid hrep hpc heffect =>
      subst hid
      rw [System.cancelled_eq hrep]
      have hne : s'.status k ≠ s.status k := by
        rw [hrunning]
        exact Ne.symm hbefore
      exact heffect.attends_claim hrep hne hack

theorem runningAttended_step (hs : RunningAttended s) (hg : Attended s a)
    (h : step config s a = some s') : RunningAttended s' := by
  intro r k hlock hrunning
  have hcrash : a ≠ .crash r := by
    rintro rfl
    obtain rfl := Option.some.inj h
    exact crashStep_lock s r hlock
  suffices hpc : ∃ pc, s'.workerPc r = some pc ∧ pc.attends (s.cancelled r) k by
    obtain ⟨pc, hpc, hattends⟩ := hpc
    exact ⟨pc, hpc, WorkerPc.attends_mono (cancelled_step h hcrash) hattends⟩
  by_cases hbefore : s.status k = some .running
  · have hkept : s.lock = some r := by
      rcases lock_step h with hsame | hnone | ⟨r', rfl, _⟩
      · rw [← hsame, hlock]
      · rw [hlock] at hnone
        contradiction
      · obtain ⟨row, hrow, hstatus⟩ := Option.map_eq_some_iff.mp hbefore
        exact absurd hstatus (hg.1 rfl row (Table.mem_of_get? hrow))
    obtain ⟨pc, hpc, hattends⟩ := hs r k hkept hbefore
    cases worker_step h r with
    | other _ _ hsame => exact ⟨pc, hsame.trans hpc, hattends⟩
    | crash => exact absurd rfl hcrash
    | recovered _ hnone =>
      rw [hpc] at hnone
      contradiction
    | acts rep action pc' hid hrep hpc' heffect =>
      subst hid
      obtain rfl := Option.some.inj (hpc.symm.trans hpc')
      rw [System.cancelled_eq hrep] at hattends ⊢
      exact heffect.attends hattends hrunning hlock
  · exact attends_of_claim hg h hlock hbefore hrunning

/-- In every run whose steps meet the condition, a running submission is attended by the lock
holder, so none is left when the loop starts over. -/
theorem noOrphan_of_attended (h : (contestSystem config).Reachable Attended s) : NoOrphan s := by
  have hattended : RunningAttended s := by
    apply h.invariant
    · intro r k hlock
      contradiction
    · intro s a s' hs hg h
      exact runningAttended_step hs hg h
  intro r k hlock hhead hrunning
  obtain ⟨pc, hpc, hattends⟩ := hattended r k hlock hrunning
  rw [hhead] at hpc
  obtain rfl := Option.some.inj hpc
  exact hattends

end

theorem noOrphan_stored : ∃ s,
    (contestSystem ⟨"1brc", 0, 100, [], "env"⟩).Reachable Attended s ∧ NoOrphan s ∧
    s.lock = some 1 ∧ s.workerPc 1 = some .head ∧ s.status "a" = some .completed := by
  have hrun : ((contestSystem ⟨"1brc", 0, 100, [], "env"⟩).run Attended .initial
      (boot 0 ++ boot 1 ++ lead 0 ++
        accept 0 "a" "alice" ⟨.ruby, .ruby, "main.rb", [], "e3b0", "e3b0"⟩ ++
        benchmark 0 ⟨⟨.accepted, some ["5"], some "5", none⟩, none, "env"⟩ ++
        [.stop 0, .worker 0 (.storeResult true), .worker 0 (.cleanup true), .worker 0 .leave] ++
        lead 1)).any (fun s => s.lock = some 1 && s.workerPc 1 = some .head &&
          s.status "a" = some .completed) = true := by
    decide
  obtain ⟨s, hpath, hcheck⟩ := TransitionSystem.exists_path_of_run hrun
  simp only [Bool.and_eq_true, decide_eq_true_eq] at hcheck
  exact ⟨s, hpath, noOrphan_of_attended hpath, hcheck.1.1, hcheck.1.2, hcheck.2⟩

/-- A replica is stopped during a benchmark, and one that has recovered before takes the lock. -/
def handedOver : List Action :=
  boot 0 ++ boot 1 ++ lead 0 ++
    accept 0 "a" "alice" ⟨.ruby, .ruby, "main.rb", [], "e3b0", "e3b0"⟩ ++
    [.worker 0 (.claimNext [] true), .worker 0 .begin, .stop 0, .worker 0 (.runReturns none),
      .worker 0 .giveUp, .worker 0 .leave] ++ lead 1

theorem not_noOrphan : ¬ ∀ config s,
    (contestSystem config).Reachable TransitionSystem.Free s → NoOrphan s := by
  intro hlaw
  have hrun : ((contestSystem ⟨"1brc", 0, 100, [], "env"⟩).run TransitionSystem.Free .initial
      handedOver).any (fun s => s.lock = some 1 && s.workerPc 1 = some .head &&
        s.status "a" = some .running) = true := by
    decide
  obtain ⟨s, hpath, hcheck⟩ := TransitionSystem.exists_path_of_run hrun
  simp only [Bool.and_eq_true, decide_eq_true_eq] at hcheck
  exact hlaw _ s hpath 1 "a" hcheck.1.1 hcheck.1.2 hcheck.2

end OneBrc.Server
