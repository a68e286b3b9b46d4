import OneBrc.Server.Owners
import OneBrc.Server.Query
import OneBrc.Server.StatusMachine

/-! The numbers of a user's submissions. They are counted anew in every query, and deletions leave
them alone because only the newest submission of a user can be deleted. -/
namespace OneBrc.Server
open Lib StableSort

/-- The submissions of the user that exist, in the order of their reservations. -/
def System.uploadsOf (s : System) (username : String) : List Submission :=
  (s.usedIds.reverse.filterMap s.row).filter (·.username = username)

/-- The database clock has moved on since the earlier reservations. -/
def ClockIncreases (s : System) : Action → Prop
  | .reserve _ _ _ _ => ∀ row ∈ s.db.submissions.rows, row.uploadStartedAt < s.now
  | _ => True

def Action.reserves : Action → Bool
  | .reserve _ _ _ _ => true
  | _ => false

instance : DecidableRel ClockIncreases := fun s a =>
  decidable_of_iff (a.reserves = true →
    ∀ row ∈ s.db.submissions.rows, row.uploadStartedAt < s.now) (by
      cases a <;> simp [ClockIncreases, Action.reserves])

/-- The rows of `submissionsForUser`: the newest hundred, each with its place in `uploadsOf`, which
misses no submission of the user; and a number stays once its submission is uploaded. -/
structure NumberLaw (config : Config) (G : System → Action → Prop) : Prop where
  complete : ∀ {s}, (contestSystem config).Reachable G s → ∀ username row,
    row ∈ s.uploadsOf username ↔ row ∈ s.db.submissions.rows ∧ row.username = username
  numbers : ∀ {s}, (contestSystem config).Reachable G s → ∀ tie username,
    submissionsForUser tie username s.db =
      (((s.uploadsOf username).zipIdx 1).reverse.take 100).map fun (row, k) =>
        ⟨row, some k, queueAhead s.db row⟩
  stable : ∀ {s t k row}, (contestSystem config).Reachable G s →
    (contestSystem config).Path G s t → s.row k = some row → row.status ≠ .uploading →
    ∃ row', t.row k = some row' ∧ row'.status ≠ .uploading ∧
      submissionNumber t.db row' = submissionNumber s.db row

/-- Later ids belong to later uploads, and an uploading row is the newest of its user. -/
structure Numbered (s : System) : Prop where
  drawn : ∀ k row, s.row k = some row → k ∈ s.usedIds
  times : s.usedIds.Pairwise fun k k' => ∀ row row', s.row k = some row → s.row k' = some row' →
    row'.uploadStartedAt < row.uploadStartedAt
  newest : ∀ k k' row row', s.row k = some row → s.row k' = some row' → k ≠ k' →
    row.username = row'.username → row'.status = .uploading →
    row.uploadStartedAt < row'.uploadStartedAt

section
variable {config : Config} {s s' : System} {a : Action} {k username : String}

/-- A row after a step was there before, or it is a new reservation. -/
theorem RowStep.origin {old : Option Submission} {row' : Submission}
    (h : RowStep config s k a old (some row')) :
    (∃ row, old = some row ∧ row'.username = row.username ∧
      row'.uploadStartedAt = row.uploadStartedAt ∧
      (row'.status = .uploading → row.status = .uploading)) ∨
    ∃ replica username acknowledged, a = .reserve replica k username acknowledged ∧ old = none ∧
      row' = .reserved k username s.now ∧ k ∉ s.usedIds ∧
      ∀ k' row, s.row k' = some row → row.username = username → row.status.isActive = false := by
  cases h with
  | same => exact .inl ⟨row', rfl, rfl, rfl, id⟩
  | reserve replica username acknowledged _ hfresh _ hinactive =>
    exact .inr ⟨replica, username, acknowledged, rfl, rfl, rfl, hfresh, hinactive⟩
  | queue _ _ row | markInterrupted _ row | claim _ _ _ row | markFailure _ _ _ _ row
  | storeResult _ _ _ _ _ _ row | retry row | disqualify _ row =>
    exact .inl ⟨row, rfl, rfl, rfl, nofun⟩

/-- Only uploading rows are deleted. -/
theorem RowStep.of_deleted {row : Submission} (h : RowStep config s k a (some row) none) :
    row.status = .uploading := by
  cases h with
  | discard _ _ hstatus => exact hstatus
  | deleteUploading _ _ _ _ hstatus => exact hstatus

theorem numbered_step (hs : Numbered s) (hg : ClockIncreases s a)
    (h : step config s a = some s') : Numbered s' := by
  have hkept {k : String} {row' : Submission} (hrow' : s'.row k = some row')
      (hk : k ∈ s.usedIds) : ∃ row, s.row k = some row ∧
        row'.uploadStartedAt = row.uploadStartedAt := by
    have hstep := row_step h k
    rw [hrow'] at hstep
    rcases hstep.origin with ⟨row, hrow, _, htime, _⟩ | ⟨_, _, _, _, _, _, hfresh, _⟩
    · exact ⟨row, hrow, htime⟩
    · exact absurd hk hfresh
  constructor
  · intro k row' hrow'
    have hstep := row_step h k
    rw [hrow'] at hstep
    rcases hstep.origin with ⟨row, hrow, _⟩ | ⟨_, _, _, rfl, _⟩
    · exact usedIds_mono h (hs.drawn k row hrow)
    · exact usedIds_reserve h
  · have htimes : s.usedIds.Pairwise fun k k' => ∀ row row', s'.row k = some row →
        s'.row k' = some row' → row'.uploadStartedAt < row.uploadStartedAt := by
      apply hs.times.imp_of_mem
      intro k k' hk hk' hlt row₁ row₁' hrow₁ hrow₁'
      obtain ⟨row, hrow, htime⟩ := hkept hrow₁ hk
      obtain ⟨row', hrow', htime'⟩ := hkept hrow₁' hk'
      rw [htime, htime']
      exact hlt row row' hrow hrow'
    rcases usedIds_step h with hsame | ⟨_, id, _, _, rfl, hcons⟩
    · rwa [hsame]
    · have hfresh : id ∉ s.usedIds := by
        cases step_effect h with
        | reserve _ _ _ _ _ hfresh => exact hfresh
      rw [hcons, List.pairwise_cons]
      refine ⟨?_, htimes⟩
      intro k hk row₁ row₁' hrow₁ hrow₁'
      obtain ⟨row', hrow', htime'⟩ := hkept hrow₁' hk
      have hstep := row_step h id
      rw [hrow₁] at hstep
      rcases hstep.origin with ⟨row, hrow, _⟩ | ⟨_, _, _, _, _, rfl, _⟩
      · exact absurd (hs.drawn id row hrow) hfresh
      · rw [htime']
        exact hg row' (Table.mem_of_get? hrow')
  · intro k k' row₁ row₁' hrow₁ hrow₁' hne huser hstatus
    have hstep := row_step h k
    have hstep' := row_step h k'
    rw [hrow₁] at hstep
    rw [hrow₁'] at hstep'
    rcases hstep.origin with ⟨row, hrow, hname, htime, _⟩ | ⟨_, _, _, rfl, _, rfl, _, hinactive⟩
    · rcases hstep'.origin with ⟨row', hrow', hname', htime', huploading⟩ |
        ⟨_, _, _, rfl, _, rfl, _, _⟩
      · rw [htime, htime']
        exact hs.newest k k' row row' hrow hrow' hne (by rw [← hname, ← hname', huser])
          (huploading hstatus)
      · rw [htime]
        exact hg row (Table.mem_of_get? hrow)
    · rcases hstep'.origin with ⟨row', hrow', hname', _, huploading⟩ | ⟨_, _, _, ha, _⟩
      · have hidle := hinactive k' row' hrow' (by rw [← hname', ← huser]; rfl)
        rw [huploading hstatus] at hidle
        contradiction
      · injection ha with _ hk
        exact absurd hk hne

theorem numbered (h : (contestSystem config).Reachable ClockIncreases s) : Numbered s := by
  apply h.invariant
  · constructor
    · intro k row hrow
      contradiction
    · exact List.Pairwise.nil
    · intro k k' row row' hrow
      contradiction
  · intro s a s' hs hg h
    exact numbered_step hs hg h

theorem mem_filterMap_row {row : Submission} (hs : Numbered s) :
    row ∈ s.usedIds.reverse.filterMap s.row ↔ row ∈ s.db.submissions.rows := by
  rw [List.mem_filterMap]
  constructor
  · rintro ⟨k, _, hrow⟩
    exact Table.mem_of_get? hrow
  · intro hrow
    have hget : s.row row.id = some row := Table.get?_of_mem hrow
    exact ⟨row.id, List.mem_reverse.mpr (hs.drawn _ _ hget), hget⟩

theorem mem_uploadsOf {row : Submission} (hs : Numbered s) :
    row ∈ s.uploadsOf username ↔ row ∈ s.db.submissions.rows ∧ row.username = username := by
  rw [System.uploadsOf, List.mem_filter, mem_filterMap_row hs, decide_eq_true_eq]

theorem uploadsOf_sorted (hs : Numbered s) (username : String) :
    (s.uploadsOf username).Pairwise fun a b => a.uploadStartedAt < b.uploadStartedAt := by
  apply List.Pairwise.filter
  rw [List.pairwise_filterMap, List.pairwise_reverse]
  exact hs.times.imp fun hlt row hrow row' hrow' => hlt row' row hrow' hrow

/-- The rows of the query are the user's submissions. -/
theorem uploadsOf_perm (hs : Numbered s) (hrejected : ∀ k, s.status k ≠ some .rejected)
    (username : String) : (s.uploadsOf username).Perm
      (s.db.submissions.rows.filter fun row =>
        row.username = username && row.status ≠ .rejected) := by
  have hn : (s.uploadsOf username).Nodup :=
    (uploadsOf_sorted hs username).imp fun hlt => by
      rintro rfl
      exact lt_irrefl _ hlt
  rw [List.perm_ext_iff_of_nodup hn (s.db.submissions.nodup.of_map.filter _)]
  intro row
  rw [mem_uploadsOf hs, List.mem_filter, Bool.and_eq_true, decide_eq_true_eq, decide_eq_true_eq]
  refine and_congr_right fun hrow => ?_
  have hstatus : row.status ≠ .rejected := by
    intro hstatus
    apply hrejected row.id
    rw [System.status, System.row, Table.get?_of_mem hrow, Option.map_some, hstatus]
  exact ⟨fun huser => ⟨huser, hstatus⟩, And.left⟩

/-- The number of the `i`-th submission of a user, counting from zero. -/
theorem submissionNumber_getElem (hs : Numbered s) (hrejected : ∀ k, s.status k ≠ some .rejected)
    {i : ℕ} (hi : i < (s.uploadsOf username).length) :
    submissionNumber s.db (s.uploadsOf username)[i] = i + 1 := by
  have huser : (s.uploadsOf username)[i].username = username :=
    ((mem_uploadsOf hs).mp (List.getElem_mem hi)).2
  have hcount : (s.uploadsOf username).countP (fun prior =>
      decide (prior.uploadStartedAt < (s.uploadsOf username)[i].uploadStartedAt) ||
        decide (prior.uploadStartedAt = (s.uploadsOf username)[i].uploadStartedAt) &&
          decide (prior.id ≤ (s.uploadsOf username)[i].id)) = i + 1 := by
    rw [countP_getElem (uploadsOf_sorted hs username) hi (fun a hlt => by simp [hlt])
      (fun a hlt => by simp [hlt.not_gt, hlt.ne']), if_pos (by simp)]
  rw [← hcount, (uploadsOf_perm hs hrejected username).countP_eq, List.countP_filter]
  apply List.countP_congr
  intro prior _
  simp only [huser, Bool.and_eq_true, and_comm]

theorem submissionsForUser_eq (hs : Numbered s) (hrejected : ∀ k, s.status k ≠ some .rejected)
    (tie : String → ℕ) (username : String) : submissionsForUser tie username s.db =
      (((s.uploadsOf username).zipIdx 1).reverse.take 100).map fun (row, k) =>
        ⟨row, some k, queueAhead s.db row⟩ := by
  have horder : orderBy newerFirst (fun row => tie row.id)
      (s.db.submissions.rows.filter fun row =>
        row.username = username && row.status ≠ .rejected) = (s.uploadsOf username).reverse := by
    apply sliceStable_eq (f := fun row => toLex (OrderDual.toDual row.uploadStartedAt, tie row.id))
    · apply orderBy_less
      intro a b
      rw [newerFirst, decide_eq_true_eq, OrderDual.toDual_lt_toDual]
    · exact (List.reverse_perm _).trans (uploadsOf_perm hs hrejected username)
    · rw [List.pairwise_reverse]
      apply (uploadsOf_sorted hs username).imp
      intro a b hlt
      exact Prod.Lex.toLex_lt_toLex.mpr (.inl (OrderDual.toDual_lt_toDual.mpr hlt))
  have hnumbers : (s.uploadsOf username).zipIdx 1 =
      (s.uploadsOf username).map fun row => (row, submissionNumber s.db row) := by
    apply List.ext_getElem
    · rw [List.length_zipIdx, List.length_map]
    · intro i hi hi'
      rw [List.length_zipIdx] at hi
      rw [List.getElem_zipIdx, List.getElem_map, submissionNumber_getElem hs hrejected hi,
        Nat.add_comm]
  unfold submissionsForUser
  dsimp only
  rw [horder, hnumbers, ← List.map_reverse, ← List.map_take, List.map_map]
  rfl

/-- What a row adds to the number of a submission that is uploaded stays as it is. -/
theorem earlier_step {row row' : Submission} (hs : Numbered s)
    (hrejected : ∀ k, s.status k ≠ some .rejected) (hrejected' : ∀ k, s'.status k ≠ some .rejected)
    (hg : ClockIncreases s a) (h : step config s a = some s') (hrow : s.row k = some row)
    (hrow' : s'.row k = some row') (hstatus : row.status ≠ .uploading) :
    submissionNumber s'.db row' = submissionNumber s.db row := by
  have hstep := row_step h k
  rw [hrow, hrow'] at hstep
  obtain ⟨huser, horder⟩ := hstep.keeps
  have htime : row'.uploadStartedAt = row.uploadStartedAt :=
    congrArg (fun key => (ofLex key).1) horder
  have hid : row'.id = row.id := congrArg (fun key => (ofLex key).2) horder
  have hstays {t : System} {k : String} {prior : Submission} (hprior : t.row k = some prior)
      (ht : ∀ k, t.status k ≠ some .rejected) : prior.status ≠ .rejected := by
    intro hstatus
    apply ht k
    rw [System.status, hprior, Option.map_some, hstatus]
  apply Table.count_congr
  intro k'
  change (s'.row k').any _ = (s.row k').any _
  rw [huser, htime, hid]
  have hprior := row_step h k'
  cases hold : s.row k' with
  | none =>
    cases hnew : s'.row k' with
    | none => rfl
    | some prior' =>
      rw [hold, hnew] at hprior
      rcases hprior.origin with ⟨_, hsome, _⟩ | ⟨_, _, _, rfl, _, rfl, _, _⟩
      · contradiction
      · have hlt : row.uploadStartedAt < s.now := hg row (Table.mem_of_get? hrow)
        simp [Submission.reserved, hlt.not_gt, hlt.ne']
  | some prior =>
    cases hnew : s'.row k' with
    | none =>
      rw [hold, hnew] at hprior
      have huploading := hprior.of_deleted
      have hne : k ≠ k' := by
        rintro rfl
        obtain rfl := Option.some.inj (hrow.symm.trans hold)
        exact hstatus huploading
      by_cases hname : prior.username = row.username
      · have hlt := hs.newest k k' row prior hrow hold hne hname.symm huploading
        simp [hlt.not_gt, hlt.ne']
      · simp [hname]
    | some prior' =>
      rw [hold, hnew] at hprior
      obtain ⟨hname', horder'⟩ := hprior.keeps
      have htime' : prior'.uploadStartedAt = prior.uploadStartedAt :=
        congrArg (fun key => (ofLex key).1) horder'
      have hid' : prior'.id = prior.id := congrArg (fun key => (ofLex key).2) horder'
      simp only [Option.any_some, hname', htime', hid', ne_eq, hstays hold hrejected,
        hstays hnew hrejected', not_false_eq_true]

/-- In every run whose clock increases, the numbers are the places in the order of uploads. -/
theorem numberLaw_of_clockIncreases (config : Config) : NumberLaw config ClockIncreases where
  complete := by
    intro s hs username row
    exact mem_uploadsOf (numbered hs)
  numbers := by
    intro s hs tie username
    exact submissionsForUser_eq (numbered hs) (not_rejected hs.free) tie username
  stable := by
    intro s t k row hs hpath hrow hstatus
    apply hpath.relates (R := fun s t => ∃ row', t.row k = some row' ∧ row'.status ≠ .uploading ∧
      submissionNumber t.db row' = submissionNumber s.db row)
    · exact ⟨row, hrow, hstatus, rfl⟩
    · rintro t a u hpath ⟨row', hrow', hstatus', hnumber⟩ hg h
      have ht := hs.path hpath
      have hstep := row_step h k
      rw [hrow'] at hstep
      cases hnew : u.row k with
      | none =>
        rw [hnew] at hstep
        exact absurd hstep.of_deleted hstatus'
      | some row'' =>
        rw [hnew] at hstep
        refine ⟨row'', rfl, hstep.not_uploading hstatus', ?_⟩
        rw [← hnumber]
        exact earlier_step (numbered ht) (not_rejected ht.free) (not_rejected (ht.snoc hg h).free)
          hg h hrow' hnew hstatus'

end

/-- A user uploads again after a failed benchmark, and another user uploads in between. -/
theorem numberLaw_again : ∃ s,
    (contestSystem ⟨"1brc", 0, 100, [], "env"⟩).Reachable ClockIncreases s ∧
    (s.uploadsOf "alice").map (·.id) = ["a", "c"] ∧
    ∀ tie, submissionsForUser tie "alice" s.db =
      (((s.uploadsOf "alice").zipIdx 1).reverse.take 100).map fun (row, k) =>
        ⟨row, some k, queueAhead s.db row⟩ := by
  have hrun : ((contestSystem ⟨"1brc", 0, 100, [], "env"⟩).run ClockIncreases .initial
      (boot 0 ++ lead 0 ++ accept 0 "a" "alice" ⟨.ruby, .ruby, "main.rb", [], "e3b0", "e3b0"⟩ ++
        benchmarkFailure 0 ++ .tick 1 ::
        accept 0 "b" "bob" ⟨.ruby, .ruby, "main.rb", [], "e3b0", "e3b0"⟩ ++ .tick 1 ::
        accept 0 "c" "alice" ⟨.ruby, .ruby, "main.rb", [], "e3b0", "e3b0"⟩)).any (fun s =>
      (s.uploadsOf "alice").map (·.id) = ["a", "c"]) = true := by
    decide
  obtain ⟨s, hpath, hcheck⟩ := TransitionSystem.exists_path_of_run hrun
  have hlaw := numberLaw_of_clockIncreases ⟨"1brc", 0, 100, [], "env"⟩
  exact ⟨s, hpath, of_decide_eq_true hcheck, fun tie => hlaw.numbers hpath tie "alice"⟩

end OneBrc.Server
