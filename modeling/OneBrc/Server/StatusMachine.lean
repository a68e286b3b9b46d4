import OneBrc.Server.Projection

/-! The status machine of a submission. `storeResult` has no guard on the status, so the machine is
kept exactly as long as every result is stored while its row is running. -/
namespace OneBrc.Server
open Lib

/-- The edges of the status machine; `none` is a submission without a row. -/
inductive StatusEdge : Option SubmissionStatus → Option SubmissionStatus → Prop
  | queue : StatusEdge (some .uploading) (some .queued)
  | delete : StatusEdge (some .uploading) none
  | claim : StatusEdge (some .queued) (some .running)
  | complete : StatusEdge (some .running) (some .completed)
  | fail : StatusEdge (some .running) (some .infrastructureError)
  | retry : StatusEdge (some .infrastructureError) (some .queued)
  | disqualify (status : SubmissionStatus)
      (h : status ∈ [.queued, .completed, .infrastructureError, .disqualified]) :
      StatusEdge (some status) (some .disqualified)

/-- The status machine over the runs whose steps meet `G`: a status changes along an edge or by the
reservation of a new id, a disqualification is final, and a store changes running rows only. -/
structure StatusLaw (config : Config) (G : System → Action → Prop) : Prop where
  edge : ∀ {s a s'}, (contestSystem config).Reachable G s → G s a → step config s a = some s' →
    ∀ k, s'.status k = s.status k ∨ StatusEdge (s.status k) (s'.status k) ∨
      k ∉ s.usedIds ∧ s.status k = none ∧ s'.status k = some .uploading
  disqualified : ∀ {s t k}, (contestSystem config).Reachable G s →
    (contestSystem config).Path G s t → s.status k = some .disqualified →
    t.status k = some .disqualified
  store : ∀ {s s' r acknowledged k}, (contestSystem config).Reachable G s →
    G s (.worker r (.storeResult acknowledged)) →
    step config s (.worker r (.storeResult acknowledged)) = some s' → s'.row k ≠ s.row k →
    s.status k = some .running

/-- Every `storeResult` finds its submission running. -/
def StoresRunning (s : System) : Action → Prop
  | .worker r (.storeResult _) =>
      ∀ job result, s.workerPc r = some (.storing job result) → s.status job.id = some .running
  | _ => True

/-- The submission whose result the worker is storing. -/
def WorkerPc.storing? : WorkerPc → Option String
  | .storing job _ => some job.id
  | _ => none

instance : DecidableRel StoresRunning := by
  intro s a
  unfold StoresRunning
  split
  · next r _ =>
    apply decidable_of_iff (∀ k ∈ (s.workerPc r).bind WorkerPc.storing?, s.status k = some .running)
    constructor
    · intro h job result hpc
      exact h job.id (by rw [hpc]; rfl)
    · intro h k hk
      obtain ⟨pc, hpc, hk⟩ := Option.bind_eq_some_iff.mp hk
      cases pc with
      | storing job result =>
        obtain rfl := Option.some.inj hk
        exact h job result hpc
      | _ => contradiction
  · infer_instance

section
variable {config : Config} {s s' : System} {k : String} {a : Action}

/-- No statement writes the status `rejected`. -/
theorem not_rejected (h : (contestSystem config).Reachable TransitionSystem.Free s) (k : String) :
    s.status k ≠ some .rejected := by
  apply h.invariant (I := fun s => s.status k ≠ some .rejected)
  · exact nofun
  · intro s a s' hs _ h
    unfold System.status at hs ⊢
    have hstep := row_step h k
    generalize s.row k = row at hstep hs
    generalize s'.row k = row' at hstep
    cases hstep with
    | same => exact hs
    | discard | deleteUploading => exact nofun
    | reserve | queue | markInterrupted | claim | markFailure | storeResult | retry
    | disqualify => exact nofun

theorem RowStep.status_change {row row' : Option Submission} (h : RowStep config s k a row row')
    (hrow : s.row k = row) (hrejected : s.status k ≠ some .rejected) (hg : StoresRunning s a) :
    row'.map (·.status) = row.map (·.status) ∨
      StatusEdge (row.map (·.status)) (row'.map (·.status)) ∨
      k ∉ s.usedIds ∧ row = none ∧ row'.map (·.status) = some .uploading := by
  cases h with
  | same => exact .inl rfl
  | reserve _ _ _ _ hfresh => exact .inr (.inr ⟨hfresh, rfl, rfl⟩)
  | queue _ _ row _ hstatus =>
    refine .inr (.inl ?_)
    rw [Option.map_some, hstatus]
    exact .queue
  | discard row _ hstatus | deleteUploading _ _ row _ hstatus =>
    refine .inr (.inl ?_)
    rw [Option.map_some, hstatus]
    exact .delete
  | markInterrupted _ row _ hstatus | markFailure _ _ _ _ row _ _ hstatus =>
    refine .inr (.inl ?_)
    rw [Option.map_some, hstatus]
    exact .fail
  | claim _ _ _ row _ hstatus =>
    refine .inr (.inl ?_)
    rw [Option.map_some, hstatus]
    exact .claim
  | storeResult r _ job result _ _ row hpc hid =>
    refine .inr (.inl ?_)
    have hrunning := hg job result hpc
    rw [System.status, hid, hrow] at hrunning
    rw [hrunning]
    exact .complete
  | retry row hstatus =>
    refine .inr (.inl ?_)
    rw [Option.map_some, hstatus]
    exact .retry
  | disqualify _ row huploading hrunning =>
    refine .inr (.inl (.disqualify row.status ?_))
    rw [System.status, hrow] at hrejected
    cases hstatus : row.status with
    | queued | completed | infrastructureError | disqualified => simp
    | uploading => exact absurd hstatus huploading
    | running => exact absurd hstatus hrunning
    | rejected => exact absurd (congrArg some hstatus) hrejected

/-- No edge leads away from a disqualified submission. -/
theorem StatusEdge.of_disqualified {status : Option SubmissionStatus}
    (h : StatusEdge (some .disqualified) status) : status = some .disqualified := by
  cases h
  rfl

theorem status_step (hs : (contestSystem config).Reachable StoresRunning s)
    (hg : StoresRunning s a) (h : step config s a = some s') (k : String) :
    s'.status k = s.status k ∨ StatusEdge (s.status k) (s'.status k) ∨
      k ∉ s.usedIds ∧ s.status k = none ∧ s'.status k = some .uploading := by
  rcases (row_step h k).status_change rfl (not_rejected hs.free k) hg with h | h | ⟨hfresh, hrow, h⟩
  · exact .inl h
  · exact .inr (.inl h)
  · exact .inr (.inr ⟨hfresh, by rw [System.status, hrow, Option.map_none], h⟩)

theorem status_disqualified_step (hs : (contestSystem config).Reachable StoresRunning s)
    (hg : StoresRunning s a) (h : step config s a = some s')
    (hd : s.status k = some .disqualified) : s'.status k = some .disqualified := by
  rcases status_step hs hg h k with h | h | ⟨_, hnone, _⟩
  · rw [h, hd]
  · rw [hd] at h
    exact h.of_disqualified
  · rw [hd] at hnone
    contradiction

/-- In every run that stores results of running submissions only, the status machine is kept. -/
theorem statusLaw_of_storesRunning (config : Config) : StatusLaw config StoresRunning where
  edge := by
    intro s a s' hs hg h k
    exact status_step hs hg h k
  disqualified := by
    intro s t k hs hpath hd
    apply hpath.relates (R := fun _ t => t.status k = some .disqualified) hd
    intro t a u hpath ht hg h
    exact status_disqualified_step (hs.path hpath) hg h ht
  store := by
    intro s s' r acknowledged k _ hg h hne
    have hstep := row_step h k
    generalize hrow : s.row k = row at hstep hne
    generalize s'.row k = row' at hstep hne
    cases hstep with
    | same => exact absurd rfl hne
    | storeResult _ _ job result _ _ row hpc hid =>
      obtain rfl := hid
      exact hg job result hpc

end

theorem statusLaw_stored : ∃ s s',
    (contestSystem ⟨"1brc", 0, 100, [], "env"⟩).Reachable StoresRunning s ∧
    step ⟨"1brc", 0, 100, [], "env"⟩ s (.worker 0 (.storeResult true)) = some s' ∧
    s.status "a" = some .running ∧ s'.status "a" = some .completed := by
  have hrun : ((contestSystem ⟨"1brc", 0, 100, [], "env"⟩).run StoresRunning .initial
      (boot 0 ++ lead 0 ++ accept 0 "a" "alice" ⟨.ruby, .ruby, "main.rb", [], "e3b0", "e3b0"⟩ ++
        benchmark 0 ⟨⟨.accepted, some ["5"], some "5", none⟩, none, "env"⟩)).any (fun s =>
      StoresRunning s (.worker 0 (.storeResult true)) &&
        (step ⟨"1brc", 0, 100, [], "env"⟩ s (.worker 0 (.storeResult true))).any fun t =>
          t.row "a" ≠ s.row "a" && t.status "a" = some .completed) = true := by
    decide
  obtain ⟨s, hpath, hcheck⟩ := TransitionSystem.exists_path_of_run hrun
  simp only [Bool.and_eq_true, decide_eq_true_eq, Option.any_eq_true] at hcheck
  obtain ⟨hguard, t, ht, hne, hstatus⟩ := hcheck
  exact ⟨s, t, hpath, ht, (statusLaw_of_storesRunning _).store hpath hguard ht hne, hstatus⟩

/-- A contest with one user's submission that is stored, disqualified, and stored again because the
first acknowledgement was lost. -/
def storedAgain : List Action :=
  boot 0 ++ lead 0 ++ accept 0 "a" "alice" ⟨.ruby, .ruby, "main.rb", [], "e3b0", "e3b0"⟩ ++
    benchmark 0 ⟨⟨.accepted, some ["5"], some "5", none⟩, none, "env"⟩ ++
    [.worker 0 (.storeResult false), .admin (.disqualify "a" "cheating")]

theorem not_statusLaw : ¬ ∀ config, StatusLaw config OneWorkerLoop := by
  intro hlaw
  have hrun : ((contestSystem ⟨"1brc", 0, 100, [], "env"⟩).run OneWorkerLoop .initial
      storedAgain).any (fun s => s.status "a" = some .disqualified &&
        ((step ⟨"1brc", 0, 100, [], "env"⟩ s (.worker 0 (.storeResult true))).any fun t =>
          t.status "a" = some .completed)) = true := by
    decide
  obtain ⟨s, hpath, hcheck⟩ := TransitionSystem.exists_path_of_run hrun
  simp only [Bool.and_eq_true, decide_eq_true_eq, Option.any_eq_true] at hcheck
  obtain ⟨hs, t, ht, hcompleted⟩ := hcheck
  have hfinal := (hlaw ⟨"1brc", 0, 100, [], "env"⟩).disqualified hpath
    (.snoc (.worker 0 (.storeResult true)) .refl (by simp [OneWorkerLoop]) ht) hs
  rw [hcompleted] at hfinal
  contradiction

end OneBrc.Server
