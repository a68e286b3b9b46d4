import OneBrc.Server.Recovery
import OneBrc.Server.Retry

/-! An `acceptSubmission` that returns success has queued a complete submission, and one that fails
leaves no row behind, as long as its statements report what they did and its discard runs. -/
namespace OneBrc.Server
open Lib

/-- The statements of the calls report what they did, and discarded rows are deleted. -/
def ReportsFaithfully (_ : System) : Action → Prop
  | .reserve _ _ _ acknowledged => acknowledged = true
  | .upload _ (.storeSource acknowledged) => acknowledged = true
  | .upload _ (.queueUpload acknowledged) => acknowledged = true
  | .upload _ (.discardRow executed) => executed = true
  | _ => True

instance : DecidableRel ReportsFaithfully := by
  intro s a
  unfold ReportsFaithfully
  split <;> infer_instance

def System.source (s : System) (k : String) : Option SubmissionSource :=
  s.db.submissionSources.get? k

/-- What the call has left of its temporary directory. -/
def System.directory (s : System) (k : String) : Bool := (s.uploads.get? k).any (·.directory)

/-- The submission is queued with all that its parsed upload says. -/
structure Submission.QueuedFrom (p : ParsedUpload) (row : Submission) : Prop where
  status : row.status = .queued
  executionKind : row.executionKind = some p.kind
  language : row.language = some p.language
  sourceFilename : row.sourceFilename = some p.sourceFilename
  artifactSHA256 : row.artifactSHA256 = some p.artifactDigest

/-- Accepting is all or nothing over the runs whose steps meet `G`. -/
structure AcceptanceLaw (config : Config) (G : System → Action → Prop) : Prop where
  accepted : ∀ {s a s' k}, (contestSystem config).Reachable G s → G s a →
    step config s a = some s' → s.uploadPc k ≠ some (.finished true) →
    s'.uploadPc k = some (.finished true) → ∃ p row, s'.row k = some row ∧ row.QueuedFrom p ∧
      s'.source k = some ⟨k, p.sourceFilename, p.sourceDigest, p.source⟩
  refused : ∀ {s k}, (contestSystem config).Reachable G s →
    s.uploadPc k = some (.finished false) → s.row k = none ∧ s.directory k = false
  unreserved : ∀ {s k}, (contestSystem config).Reachable G s → k ∉ s.usedIds → s.row k = none

/-- The upload that a call has stored the source of. -/
def UploadPc.stored? : UploadPc → Option ParsedUpload
  | .sourceStored p | .uploaded p => some p
  | _ => none

/-- What holds of every call: the row of an open one is uploading or has been deleted by a recovery,
and as long as it exists the stored source does, too. -/
structure UploadsKept (s : System) : Prop where
  status : ∀ k pc, s.uploadPc k = some pc → pc.isOpen = true →
    s.row k = none ∨ s.status k = some .uploading
  source : ∀ k pc p, s.uploadPc k = some pc → pc.stored? = some p → s.row k ≠ none →
    s.source k = some ⟨k, p.sourceFilename, p.sourceDigest, p.source⟩
  refused : ∀ k, s.uploadPc k = some (.finished false) → s.row k = none
  held : ∀ r pc job, s.workerPc r = some pc → pc.job? = some job →
    ∀ pc', s.uploadPc job.id = some pc' → pc' = .finished true

section Statements
variable {config : Config} {s s' : System} {a : Action} {k : String}

/-- A DELETE takes the source of a deleted row only. -/
theorem source_delete (db : Database) (p : Submission → Bool) (k : String) :
    (db.deleteSubmissions p).submissions.get? k = none ∨
      (db.deleteSubmissions p).submissionSources.get? k = db.submissionSources.get? k := by
  by_cases hgone : (db.submissions.get? k).any p = true
  · left
    rw [Database.deleteSubmissions_submissions, Table.get?_delete]
    cases hrow : db.submissions.get? k with
    | none => rfl
    | some row =>
      rw [hrow, Option.any_some] at hgone
      rw [Option.filter_some, hgone]
      rfl
  · right
    show (db.submissionSources.delete _).get? k = _
    rw [Table.get?_delete]
    cases hsource : db.submissionSources.get? k with
    | none => rfl
    | some source =>
      obtain rfl : source.submissionId = k := Table.get?_key hsource
      rw [Option.filter_some, if_pos]
      simpa using hgone

theorem validateEnvironment_submissionSources {db db' : Database}
    (h : validateEnvironment config db = .ok db') :
    db'.submissionSources = db.submissionSources := by
  unfold validateEnvironment at h
  split at h
  · split at h
    · contradiction
    · obtain rfl := Except.ok.inj h
      rfl
  · obtain rfl := Except.ok.inj h
    rfl

/-- The source of a submission is changed by its own call, and goes with its row. -/
theorem source_step (h : step config s a = some s') (ha : a.upload? ≠ some k) :
    s'.row k = none ∨ s'.source k = s.source k := by
  cases step_effect h with
  | tick | start | stop | crash | loseLock | ensureUser | reserve => exact .inr rfl
  | upload u action _ hu heffect =>
    have hid : u.id ≠ k := fun heq => ha (congrArg some heq)
    generalize u.pc = pc at heffect
    cases heffect with
    | parsed | refused | sourceFailed | runnerUpload | failed | discardCleanup | queued
    | queueFailed => exact .inr rfl
    | sourceStored acknowledged p sources hrow hsources =>
      right
      show sources.get? k = _
      rw [Table.get?_insert? hsources, if_neg hid]
      rfl
    | discardRow executed =>
      cases executed with
      | false => exact .inr rfl
      | true => exact source_delete s.db _ k
  | recover r pc action _ _ _ heffect =>
    cases heffect with
    | deleteUploading => exact source_delete s.db _ k
    | selectRunning | cancelMark | cancelFinish | markInterrupted | selectUploading | cleanup
    | finish => exact .inr rfl
  | worker r pc action _ _ _ heffect =>
    cases heffect with
    | validateEnvironment db _ hdb =>
      exact .inr (congrArg (·.get? k) (validateEnvironment_submissionSources hdb))
    | storeResult acknowledged job result db hdb =>
      exact .inr (congrArg (·.get? k) (storeResult_submissionSources hdb))
    | acquireLock | idle | claim | refuse | begin | runFailed | runReturned | markFailure
    | abandonMark | abandonStore | cleanup | leave => exact .inr rfl
  | admin action _ heffect => cases heffect <;> exact .inr rfl

/-- Other steps leave the row of an open call as it is, or delete it. -/
theorem RowStep.of_idle {row row' : Option Submission} (h : RowStep config s k a row row')
    (ha : a.upload? ≠ some k) (hrow : row = none ∨ row.map (·.status) = some .uploading)
    (hused : k ∈ s.usedIds)
    (hstoring : ∀ r job result, s.workerPc r = some (.storing job result) → job.id ≠ k) :
    row' = none ∨ row' = row := by
  cases h with
  | same => exact .inr rfl
  | reserve _ _ _ _ hfresh => exact absurd hused hfresh
  | queue | discard => exact absurd rfl ha
  | deleteUploading => exact .inl rfl
  | storeResult r _ job result _ _ row hpc hid => exact absurd hid (hstoring r job result hpc)
  | markInterrupted r row _ hstatus | claim r _ _ row _ hstatus
  | markFailure r _ _ _ row _ _ hstatus | retry row hstatus =>
    rw [Option.map_some, hstatus] at hrow
    rcases hrow with hrow | hrow <;> cases hrow
  | disqualify _ row huploading =>
    rcases hrow with hrow | hrow
    · cases hrow
    · exact absurd (Option.some.inj hrow) huploading

/-- An UPDATE by primary key affects the row that matches. -/
theorem count_matching_eq_one {t : Table String Submission Submission.id}
    {status : SubmissionStatus} {row : Submission} (hrow : t.get? k = some row)
    (hstatus : row.status = status) : t.count (Submission.matching k status) = 1 := by
  have hid : row.id = k := Table.get?_key hrow
  have hmatch : Submission.matching k status row = true :=
    Submission.matching_iff.mpr ⟨hid, hstatus⟩
  have hpos : 0 < t.rows.countP (Submission.matching k status) :=
    List.countP_pos_iff.mpr ⟨row, Table.mem_of_get? hrow, hmatch⟩
  have hle : t.rows.countP (Submission.matching k status) ≤ 1 := by
    rw [List.countP_eq_length_filter]
    have hnodup : ((t.rows.filter (Submission.matching k status)).map Submission.id).Nodup :=
      t.nodup.sublist (List.filter_sublist.map Submission.id)
    have hall : ∀ row' ∈ t.rows.filter (Submission.matching k status), row'.id = k :=
      fun row' hrow' => (Submission.matching_iff.mp (List.mem_filter.mp hrow').2).1
    match hrows : t.rows.filter (Submission.matching k status) with
    | [] => exact Nat.zero_le 1
    | [_] => exact Nat.le_refl 1
    | b :: c :: rest =>
      rw [hrows] at hnodup hall
      have hbc : b.id = c.id := (hall b (by simp)).trans (hall c (by simp)).symm
      simp [hbc] at hnodup
  exact Nat.le_antisymm hle hpos

/-- A queue statement that reports what it did ends the call if its row is there. -/
theorem queueUpload_step {p : ParsedUpload} (hpc : s.uploadPc k = some (.uploaded p))
    (h : step config s (.upload k (.queueUpload true)) = some s') :
    (∃ row, s.row k = some row ∧ row.status = .uploading ∧
      s'.uploadPc k = some (.finished true)) ∨
      s.status k ≠ some .uploading ∧ s'.uploadPc k = some .discarding := by
  obtain ⟨u, hu, hupc⟩ := Option.map_eq_some_iff.mp hpc
  obtain rfl : u.id = k := Table.get?_key hu
  simp only [step, hu, hupc, uploadStep, queueUpload, Bool.and_true] at h
  split at h
  · next haffected =>
    obtain ⟨row, hrow, hstatus⟩ := count_matching (of_decide_eq_true haffected)
    obtain rfl := Option.some.inj h
    refine .inl ⟨row, hrow, hstatus, ?_⟩
    rw [System.uploadPc_setUpload, if_pos rfl]
  · next haffected =>
    obtain rfl := Option.some.inj h
    refine .inr ⟨?_, by rw [System.uploadPc_setUpload, if_pos rfl]⟩
    intro hstatus
    obtain ⟨row, hrow, hrowStatus⟩ := Option.map_eq_some_iff.mp hstatus
    exact haffected (decide_eq_true (count_matching_eq_one hrow hrowStatus))

end Statements

section Invariant
variable {config : Config} {s s' : System} {a : Action} {k : String}

/-- The row of a call whose own step it is. -/
theorem row_upload {action : UploadAction} (hg : ReportsFaithfully s (.upload k action))
    (h : step config s (.upload k action) = some s') :
    s'.row k = s.row k ∨ s'.row k = none ∨ s'.uploadPc k = some (.finished true) := by
  have hstep := row_step h k
  generalize hrow : s.row k = row at hstep
  generalize hrow' : s'.row k = row' at hstep
  cases hstep with
  | same => exact .inl rfl
  | discard => exact .inr (.inl rfl)
  | queue acknowledged p row hpc hstatus =>
    obtain rfl : acknowledged = true := hg
    rcases queueUpload_step hpc h with ⟨_, _, _, hfinished⟩ | ⟨hne, -⟩
    · exact .inr (.inr hfinished)
    · exact absurd (by rw [System.status_eq hrow, hstatus]) hne

theorem UploadEffect.isOpen {u : Upload} {action : UploadAction} {pc : UploadPc}
    (h : UploadEffect s u action pc s') : pc.isOpen = true := by
  cases h with
  | failed _ hpc =>
    obtain ⟨p, rfl | rfl | rfl⟩ := hpc
    · rfl
    · rfl
    · rfl
  | _ => rfl

theorem UploadPc.isOpen_of_stored {pc : UploadPc} {p : ParsedUpload} (h : pc.stored? = some p) :
    pc.isOpen = true := by
  cases pc with
  | finished => cases h
  | reserved | parsed | sourceStored | uploaded | discarding | discardingRow => rfl

/-- A call whose job a worker holds has accepted it. -/
theorem UploadsKept.storing (hs : UploadsKept s) {pc : UploadPc} (hpc : s.uploadPc k = some pc)
    (hne : pc ≠ .finished true) (r : ℕ) (job : BenchmarkJob) (result : RunnerJobResult)
    (hstoring : s.workerPc r = some (.storing job result)) : job.id ≠ k := by
  rintro rfl
  exact hne (hs.held r _ job hstoring rfl pc hpc)

/-- Steps of others on a call that has not accepted its upload. -/
theorem UploadsKept.row_other (hids : IdsDrawn s) (hs : UploadsKept s)
    (h : step config s a = some s') (ha : a.upload? ≠ some k) {pc : UploadPc}
    (hpc : s.uploadPc k = some pc) (hne : pc ≠ .finished true)
    (hrow : s.row k = none ∨ s.status k = some .uploading) :
    s'.row k = none ∨ s'.row k = s.row k :=
  (row_step h k).of_idle ha hrow (hids.upload k pc hpc) (hs.storing hpc hne)

theorem open_ne_finished {pc : UploadPc} {accepted : Bool} (h : pc.isOpen = true) :
    pc ≠ .finished accepted := by
  rintro rfl
  cases h

theorem uploadsKept_step (hids : IdsDrawn s) (hs : UploadsKept s) (hg : ReportsFaithfully s a)
    (h : step config s a = some s') : UploadsKept s' where
  status := by
    intro k pc hpc hopen
    cases upload_step h k with
    | other _ ha hsame =>
      rw [hsame] at hpc
      have hold := hs.status k pc hpc hopen
      rcases hs.row_other hids h ha hpc (open_ne_finished hopen) hold with hnone | hrow
      · exact .inl hnone
      · rw [System.status, hrow]
        exact hold
    | ended _ hnone =>
      rw [hpc] at hnone
      cases hnone
    | reserved replica username hfresh =>
      have hstep := row_step h k
      have hnone : s.row k = none := by
        by_contra hne
        obtain ⟨row, hrow⟩ := Option.ne_none_iff_exists'.mp hne
        exact hfresh (hids.row k row hrow)
      rw [hnone] at hstep
      rw [System.status]
      generalize s'.row k = row' at hstep
      cases hstep with
      | same => exact .inl rfl
      | reserve => exact .inr rfl
    | acts u action before _ hbefore heffect =>
      rcases row_upload hg h with hrow | hnone | hfinished
      · rw [System.status, hrow]
        exact hs.status k before hbefore heffect.isOpen
      · exact .inl hnone
      · rw [hpc] at hfinished
        obtain rfl := Option.some.inj hfinished
        cases hopen
  source := by
    intro k pc p hpc hstored hne
    cases upload_step h k with
    | other _ ha hsame =>
      rw [hsame] at hpc
      have hopen := UploadPc.isOpen_of_stored hstored
      rcases hs.row_other hids h ha hpc (open_ne_finished hopen) (hs.status k pc hpc hopen) with
        hnone | hrow
      · exact absurd hnone hne
      · rcases source_step h ha with hnone | hsource
        · exact absurd hnone hne
        · rw [hsource]
          exact hs.source k pc p hpc hstored (hrow ▸ hne)
    | ended _ hnone =>
      rw [hpc] at hnone
      cases hnone
    | reserved _ _ _ hreserved =>
      rw [hpc] at hreserved
      obtain rfl := Option.some.inj hreserved
      cases hstored
    | acts u action before hid hbefore heffect =>
      subst hid
      cases heffect with
      | parsed | refused | sourceFailed | queued | queueFailed | failed | discardCleanup
      | discardRow =>
        obtain rfl := System.eq_of_setUpload hpc rfl
        cases hstored
      | sourceStored acknowledged p' sources hrow hsources =>
        obtain rfl : acknowledged = true := hg
        obtain rfl := System.eq_of_setUpload hpc rfl
        obtain rfl := Option.some.inj hstored
        show sources.get? u.id = _
        rw [Table.get?_insert? hsources, if_pos rfl]
      | runnerUpload stored acknowledged p' =>
        obtain rfl := System.eq_of_setUpload hpc rfl
        split at hstored
        · exact hs.source u.id _ p hbefore hstored hne
        · cases hstored
  refused := by
    intro k hpc
    cases upload_step h k with
    | other _ ha hsame =>
      rw [hsame] at hpc
      have hold := hs.refused k hpc
      rcases hs.row_other hids h ha hpc (by simp) (.inl hold) with hnone | hrow
      · exact hnone
      · rw [hrow, hold]
    | ended _ hnone =>
      rw [hpc] at hnone
      cases hnone
    | reserved _ _ _ hreserved =>
      rw [hpc] at hreserved
      cases hreserved
    | acts u action before hid hbefore heffect =>
      subst hid
      cases heffect with
      | parsed | refused | sourceFailed | queued | queueFailed | failed | discardCleanup =>
        cases System.eq_of_setUpload hpc rfl
      | sourceStored acknowledged | runnerUpload stored acknowledged =>
        have heq := System.eq_of_setUpload hpc rfl
        dsimp only at heq
        split at heq <;> cases heq
      | discardRow executed =>
        obtain rfl : executed = true := hg
        show (s.db.submissions.delete _).get? u.id = none
        rw [Table.get?_delete]
        rcases hs.status u.id _ hbefore rfl with hnone | huploading
        · rw [System.row] at hnone
          rw [hnone]
          rfl
        · obtain ⟨row, hrow, hstatus⟩ := Option.map_eq_some_iff.mp huploading
          have hmatch : Submission.matching u.id .uploading row = true :=
            Submission.matching_iff.mpr ⟨Table.get?_key hrow, hstatus⟩
          rw [System.row] at hrow
          rw [hrow, Option.filter_some, hmatch]
          rfl
  held := by
    intro r pc job hpc hjob pc' hpc'
    rcases job_source h hpc hjob with ⟨before, hbefore, hheld⟩ | ⟨row, hrow, hqueued, rfl, _⟩
    · cases upload_step h job.id with
      | other _ _ hsame =>
        rw [hsame] at hpc'
        exact hs.held r before job hbefore hheld pc' hpc'
      | ended _ hnone =>
        rw [hpc'] at hnone
        cases hnone
      | reserved _ _ hfresh => exact absurd (hids.held r before job hbefore hheld) hfresh
      | acts u action pc₁ _ hpc₁ heffect =>
        obtain rfl := hs.held r before job hbefore hheld pc₁ hpc₁
        cases heffect.isOpen
    · have hstatus : s.status row.id = some .queued := by rw [System.status_eq hrow, hqueued]
      have hclosed : ∀ pc₁, s.uploadPc row.id = some pc₁ → pc₁.isOpen = false := by
        intro pc₁ hpc₁
        by_contra hopen
        rcases hs.status row.id pc₁ hpc₁ (by simpa using hopen) with hnone | huploading
        · rw [hrow] at hnone
          cases hnone
        · rw [hstatus] at huploading
          cases huploading
      cases upload_step h row.id with
      | other _ _ hsame =>
        change s'.uploadPc row.id = some pc' at hpc'
        rw [hsame] at hpc'
        have hpc₁ := hclosed pc' hpc'
        cases pc' with
        | finished accepted =>
          cases accepted with
          | true => rfl
          | false =>
            have hnone := hs.refused row.id hpc'
            rw [hrow] at hnone
            cases hnone
        | reserved | parsed | sourceStored | uploaded | discarding | discardingRow => cases hpc₁
      | ended _ hnone =>
        change s'.uploadPc row.id = some pc' at hpc'
        rw [hpc'] at hnone
        cases hnone
      | reserved _ _ hfresh => exact absurd (hids.row row.id row hrow) hfresh
      | acts u action pc₁ _ hpc₁ heffect =>
        have hopen := heffect.isOpen
        rw [hclosed pc₁ hpc₁] at hopen
        cases hopen

theorem uploadsKept (h : (contestSystem config).Reachable ReportsFaithfully s) : UploadsKept s := by
  apply h.invariant_of_reachable
  · constructor
    · intro k pc hpc
      contradiction
    · intro k pc p hpc
      contradiction
    · intro k hpc
      contradiction
    · intro r pc job hpc
      contradiction
  · intro s a s' hreach hs hg h
    exact uploadsKept_step (idsDrawn hreach.free) hs hg h

/-- A call that has returned has removed its temporary directory. -/
def Upload.Returned (u : Upload) : Prop := ∀ accepted, u.pc = .finished accepted →
  u.directory = false

theorem UploadEffect.returned {u : Upload} {action : UploadAction} {pc : UploadPc}
    (h : UploadEffect s u action pc s') :
    ∃ u', s'.uploads = s.uploads.put u' ∧ u'.Returned := by
  cases h with
  | queued | discardRow => exact ⟨_, rfl, fun _ _ => rfl⟩
  | parsed | refused | sourceFailed | queueFailed | failed | discardCleanup =>
    exact ⟨_, rfl, fun _ hpc => nomatch hpc⟩
  | sourceStored acknowledged =>
    refine ⟨_, rfl, fun _ hpc => ?_⟩
    cases acknowledged <;> cases hpc
  | runnerUpload stored acknowledged =>
    refine ⟨_, rfl, fun _ hpc => ?_⟩
    cases stored <;> cases acknowledged <;> cases hpc

theorem returned_put {uploads : Table String Upload Upload.id}
    (hs : ∀ k u, uploads.get? k = some u → u.Returned) {u : Upload} (hu : u.Returned) :
    ∀ k u', (uploads.put u).get? k = some u' → u'.Returned := by
  intro k u' hu'
  rw [Table.get?_put] at hu'
  split at hu'
  · obtain rfl := Option.some.inj hu'
    exact hu
  · exact hs k u' hu'

theorem returned_step (hs : ∀ k u, s.uploads.get? k = some u → u.Returned)
    (h : step config s a = some s') : ∀ k u, s'.uploads.get? k = some u → u.Returned := by
  cases step_effect h with
  | tick | loseLock | ensureUser | start | stop => exact hs
  | recover _ _ _ _ _ _ heffect =>
    rw [heffect.uploads]
    exact hs
  | worker _ _ _ _ _ _ heffect =>
    rw [heffect.uploads]
    exact hs
  | admin _ _ heffect =>
    rw [heffect.uploads]
    exact hs
  | crash replica =>
    intro k u hu
    change (s.uploads.delete (·.replica = replica)).get? k = some u at hu
    rw [Table.get?_delete] at hu
    exact hs k u (Option.filter_eq_some_iff.mp hu).1
  | reserve replica id username acknowledged =>
    cases acknowledged with
    | false => exact hs
    | true => exact returned_put hs fun _ hpc => nomatch hpc
  | upload _ _ _ _ heffect =>
    obtain ⟨u', huploads, hu'⟩ := heffect.returned
    rw [huploads]
    exact returned_put hs hu'

theorem returned (h : (contestSystem config).Reachable ReportsFaithfully s) :
    ∀ k u, s.uploads.get? k = some u → u.Returned := by
  apply h.invariant
  · intro k u hu
    contradiction
  · intro s a s' hs _ h
    exact returned_step hs h

/-- The step that ends a call with success leaves its submission queued and complete. -/
theorem accepted_step (hs : UploadsKept s) (hg : ReportsFaithfully s a)
    (h : step config s a = some s') (hbefore : s.uploadPc k ≠ some (.finished true))
    (hpc : s'.uploadPc k = some (.finished true)) :
    ∃ p row, s'.row k = some row ∧ row.QueuedFrom p ∧
      s'.source k = some ⟨k, p.sourceFilename, p.sourceDigest, p.source⟩ := by
  cases upload_step h k with
  | other _ _ hsame => exact absurd (hsame ▸ hpc) hbefore
  | ended _ hnone =>
    rw [hpc] at hnone
    cases hnone
  | reserved _ _ _ hreserved =>
    rw [hpc] at hreserved
    cases hreserved
  | acts u action before hid hold heffect =>
    subst hid
    cases heffect with
    | parsed | refused | sourceFailed | queueFailed | failed | discardCleanup | discardRow =>
      cases System.eq_of_setUpload hpc rfl
    | sourceStored acknowledged | runnerUpload stored acknowledged =>
      have heq := System.eq_of_setUpload hpc rfl
      dsimp only at heq
      split at heq <;> cases heq
    | queued p row hrow hstatus =>
      have hsource := hs.source u.id _ p hold rfl (by rw [System.row, hrow]; rintro ⟨⟩)
      refine ⟨p, row.queue p.kind p.language p.sourceFilename p.artifactDigest s.now, ?_,
        ⟨rfl, rfl, rfl, rfl, rfl⟩, hsource⟩
      have hmatch : Submission.matching u.id .uploading row = true :=
        Submission.matching_iff.mpr ⟨Table.get?_key hrow, hstatus⟩
      show (s.db.submissions.update _ _ (Submission.queue_id _ _ _ _ _)).get? u.id = _
      rw [Table.get?_update, hrow, Option.map_some, if_pos hmatch]

/-- Accepting is all or nothing: a call that returns success has queued a complete submission, one
that fails leaves neither its row nor its temporary directory, and without a reservation there is
no row. -/
theorem acceptanceLaw (config : Config) : AcceptanceLaw config ReportsFaithfully where
  accepted hreach hg h hbefore hpc := accepted_step (uploadsKept hreach) hg h hbefore hpc
  refused := by
    intro s k hreach hpc
    refine ⟨(uploadsKept hreach).refused k hpc, ?_⟩
    obtain ⟨u, hu, hupc⟩ := Option.map_eq_some_iff.mp hpc
    rw [System.directory, hu, Option.any_some]
    exact returned hreach k u hu false hupc
  unreserved := by
    intro s k hreach hfresh
    by_contra hne
    obtain ⟨row, hrow⟩ := Option.ne_none_iff_exists'.mp hne
    exact hfresh ((idsDrawn hreach.free).row k row hrow)

end Invariant

/-- The last statement of an upload, after another user's upload was refused. -/
theorem acceptanceLaw_accepted : ∃ s s',
    (contestSystem ⟨"1brc", 0, 100, [], "env"⟩).Reachable ReportsFaithfully s ∧
    step ⟨"1brc", 0, 100, [], "env"⟩ s (.upload "a" (.queueUpload true)) = some s' ∧
    (∃ p row, s'.row "a" = some row ∧ row.QueuedFrom p ∧
      s'.source "a" = some ⟨"a", p.sourceFilename, p.sourceDigest, p.source⟩) ∧
    s.row "b" = none ∧ s.directory "b" = false := by
  have hrun : ((contestSystem ⟨"1brc", 0, 100, [], "env"⟩).run ReportsFaithfully .initial
      (boot 0 ++ .reserve 0 "b" "bob" true :: [.parse none true, .discardCleanup false,
        .discardRow true].map (.upload "b") ++
      (accept 0 "a" "alice" ⟨.ruby, .ruby, "main.rb", [], "e3b0", "e3b0"⟩).dropLast)).any
      (fun s => s.uploadPc "b" = some (.finished false) && s.uploadPc "a" ≠ some (.finished true) &&
        (step ⟨"1brc", 0, 100, [], "env"⟩ s (.upload "a" (.queueUpload true))).any fun t =>
          t.uploadPc "a" = some (.finished true)) = true := by
    decide
  obtain ⟨s, hpath, hcheck⟩ := TransitionSystem.exists_path_of_run hrun
  simp only [Bool.and_eq_true, decide_eq_true_eq, Option.any_eq_true] at hcheck
  obtain ⟨⟨hrefused, hopen⟩, t, ht, haccepted⟩ := hcheck
  have hlaw := acceptanceLaw ⟨"1brc", 0, 100, [], "env"⟩
  have hguard : ReportsFaithfully s (.upload "a" (.queueUpload true)) := rfl
  exact ⟨s, t, hpath, ht, hlaw.accepted hpath hguard ht hopen haccepted,
    hlaw.refused hpath hrefused⟩

end OneBrc.Server
