import OneBrc.Server.Projection

/-! At most one unfinished submission per user. `reserveSubmission` counts the user's unfinished
submissions under row locks; `retrySubmission` puts a submission back without counting. -/
namespace OneBrc.Server
open Lib

/-- No user has two submissions that are uploading, queued or running. -/
def OneActive (s : System) : Prop :=
  ∀ k₁ k₂ row₁ row₂, s.row k₁ = some row₁ → s.row k₂ = some row₂ →
    row₁.username = row₂.username → row₁.status.isActive = true →
    row₂.status.isActive = true → k₁ = k₂

/-- A submission is retried only while its user has no unfinished submission. -/
def RetriesIdle (s : System) (a : Action) : Prop :=
  ∀ id ∈ a.retries?, ∀ row ∈ s.row id, ∀ other ∈ s.db.submissions.rows,
    other.username = row.username → other.status.isActive = false

instance : DecidableRel RetriesIdle := fun s a =>
  inferInstanceAs (Decidable (∀ id ∈ a.retries?, ∀ row ∈ s.row id,
    ∀ other ∈ s.db.submissions.rows, other.username = row.username →
      other.status.isActive = false))

/-- The submission that the action can make active again, or for the first time. -/
def Action.activates? : Action → Option String
  | .reserve _ id _ _ => some id
  | .admin (.retry id) => some id
  | _ => none

section
variable {config : Config} {s s' : System} {k : String} {a : Action}

/-- A row that is active after a step was active before it, or the step activates it and every
other row of its user was inactive. -/
theorem RowStep.of_active {old new : Option Submission} {row : Submission}
    (h : RowStep config s k a old new) (hold : s.row k = old) (hnew : new = some row)
    (hg : RetriesIdle s a) (hactive : row.status.isActive = true) :
    (∃ before, old = some before ∧ before.username = row.username ∧
      before.status.isActive = true) ∨
    a.activates? = some k ∧ ∀ k' other, s.row k' = some other → other.username = row.username →
      other.status.isActive = false := by
  cases h with
  | same => exact .inl ⟨row, hnew, rfl, hactive⟩
  | discard | deleteUploading => contradiction
  | reserve _ username _ _ _ _ hinactive =>
    obtain rfl := Option.some.inj hnew
    exact .inr ⟨rfl, hinactive⟩
  | queue _ _ before _ hstatus | claim _ _ _ before _ hstatus =>
    obtain rfl := Option.some.inj hnew
    exact .inl ⟨before, rfl, rfl, by rw [hstatus]; rfl⟩
  | markInterrupted | markFailure | storeResult | disqualify =>
    obtain rfl := Option.some.inj hnew
    contradiction
  | retry before =>
    obtain rfl := Option.some.inj hnew
    refine .inr ⟨rfl, ?_⟩
    intro k' other hother huser
    exact hg k rfl before hold other (Table.mem_of_get? hother) huser

theorem oneActive_step (hs : OneActive s) (hg : RetriesIdle s a)
    (h : step config s a = some s') : OneActive s' := by
  intro k₁ k₂ row₁ row₂ h₁ h₂ huser hactive₁ hactive₂
  have hstep₁ := (row_step h k₁).of_active rfl h₁ hg hactive₁
  have hstep₂ := (row_step h k₂).of_active rfl h₂ hg hactive₂
  rcases hstep₁ with ⟨before₁, hb₁, hu₁, ha₁⟩ | ⟨hk₁, hidle₁⟩
  · rcases hstep₂ with ⟨before₂, hb₂, hu₂, ha₂⟩ | ⟨_, hidle₂⟩
    · exact hs k₁ k₂ before₁ before₂ hb₁ hb₂ (hu₁.trans (huser.trans hu₂.symm)) ha₁ ha₂
    · rw [hidle₂ k₁ before₁ hb₁ (hu₁.trans huser)] at ha₁
      contradiction
  · rcases hstep₂ with ⟨before₂, hb₂, hu₂, ha₂⟩ | ⟨hk₂, _⟩
    · rw [hidle₁ k₂ before₂ hb₂ (hu₂.trans huser.symm)] at ha₂
      contradiction
    · exact Option.some.inj (hk₁.symm.trans hk₂)

/-- In every run that retries only submissions of users without an unfinished one, no user ever has
two unfinished submissions. -/
theorem oneActive_of_retriesIdle
    (h : (contestSystem config).Reachable RetriesIdle s) : OneActive s := by
  apply h.invariant
  · intro k₁ k₂ row₁ row₂ h₁
    contradiction
  · intro s a s' hs hg h
    exact oneActive_step hs hg h

end

theorem oneActive_retried : ∃ s,
    (contestSystem ⟨"1brc", 0, 100, [], "env"⟩).Reachable RetriesIdle s ∧ OneActive s ∧
    s.status "a" = some .queued := by
  have hrun : ((contestSystem ⟨"1brc", 0, 100, [], "env"⟩).run RetriesIdle .initial
      (boot 0 ++ lead 0 ++ accept 0 "a" "alice" ⟨.ruby, .ruby, "main.rb", [], "e3b0", "e3b0"⟩ ++
        benchmarkFailure 0 ++ [.admin (.retry "a")])).any
      (fun s => s.status "a" = some .queued) = true := by
    decide
  obtain ⟨s, hpath, hcheck⟩ := TransitionSystem.exists_path_of_run hrun
  exact ⟨s, hpath, oneActive_of_retriesIdle hpath, of_decide_eq_true hcheck⟩

/-- A submission whose benchmark failed is retried while its user uploads the next one. -/
def retriedBeside : List Action :=
  boot 0 ++ lead 0 ++ accept 0 "a" "alice" ⟨.ruby, .ruby, "main.rb", [], "e3b0", "e3b0"⟩ ++
    benchmarkFailure 0 ++ [.reserve 0 "b" "alice" true, .admin (.retry "a")]

theorem not_oneActive : ¬ ∀ config s,
    (contestSystem config).Reachable TransitionSystem.Free s → OneActive s := by
  intro hlaw
  have hrun : ((contestSystem ⟨"1brc", 0, 100, [], "env"⟩).run TransitionSystem.Free .initial
      retriedBeside).any (fun s =>
        (s.row "a").any (fun row => row.username = "alice" && row.status.isActive) &&
        (s.row "b").any (fun row => row.username = "alice" && row.status.isActive)) = true := by
    decide
  obtain ⟨s, hpath, hcheck⟩ := TransitionSystem.exists_path_of_run hrun
  simp only [Bool.and_eq_true, decide_eq_true_eq, Option.any_eq_true] at hcheck
  obtain ⟨⟨row₁, h₁, hu₁, ha₁⟩, row₂, h₂, hu₂, ha₂⟩ := hcheck
  have hab := hlaw _ s hpath "a" "b" row₁ row₂ h₁ h₂ (hu₁.trans hu₂.symm) ha₁ ha₂
  contradiction

end OneBrc.Server
