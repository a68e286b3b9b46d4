import OneBrc.Server.Acceptance
import OneBrc.Server.Rows

/-! The stored source of a submission is the one of its upload, and is never changed. -/
namespace OneBrc.Server
open Lib Runner

/-- The source is stored before the row leaves `uploading`, and goes with the row only. -/
structure SourcesStored (s : System) : Prop where
  upload : ∀ k pc p, s.uploadPc k = some pc → pc.stored? = some p → s.row k ≠ none →
    s.source k = some ⟨k, p.sourceFilename, p.sourceDigest, p.source⟩
  row : ∀ k row, s.row k = some row → row.status ≠ .uploading →
    ∃ source, s.source k = some source ∧ row.sourceFilename = some source.filename

section Sources
variable {config : Config} {s s' : System} {a : Action} {k : String}

/-- A stored source is not written again. -/
theorem source_stays {source : SubmissionSource} (h : step config s a = some s')
    (hsource : s.source k = some source) : s'.row k = none ∨ s'.source k = some source := by
  by_cases ha : a.upload? = some k
  · cases upload_step h k with
    | other _ ha' => exact absurd ha ha'
    | ended | reserved => cases ha
    | acts u action pc hid hpc heffect =>
      subst hid
      cases heffect with
      | sourceStored acknowledged p sources hrow hsources =>
        obtain ⟨hnone, _⟩ := Table.insert?_eq_some.mp hsources
        rw [System.source] at hsource
        rw [hsource] at hnone
        cases hnone
      | discardRow executed =>
        cases executed with
        | false => exact .inr hsource
        | true =>
          rcases source_delete s.db (Submission.matching u.id .uploading) u.id with hnone | hsame
          · exact .inl hnone
          · exact .inr (hsame.trans hsource)
      | parsed | refused | sourceFailed | runnerUpload | failed | discardCleanup | queued
      | queueFailed => exact .inr hsource
  · exact (source_step h ha).imp_right fun hsame => hsame.trans hsource

/-- A call that has stored a source has just done so, or had done so before. -/
theorem UploadEffect.stored {u : Upload} {action : UploadAction} {pc pc' : UploadPc}
    {p : ParsedUpload} (h : UploadEffect s u action pc s')
    (hpc' : s'.uploadPc u.id = some pc') (hp : pc'.stored? = some p) :
    pc.stored? = some p ∨
      s'.source u.id = some ⟨u.id, p.sourceFilename, p.sourceDigest, p.source⟩ := by
  cases h with
  | parsed | refused | sourceFailed | failed | discardCleanup | queued | queueFailed
  | discardRow =>
    obtain rfl := System.eq_of_setUpload hpc' rfl
    cases hp
  | sourceStored acknowledged p' sources hrow hsources =>
    obtain rfl := System.eq_of_setUpload hpc' rfl
    cases acknowledged with
    | false => cases hp
    | true =>
      obtain rfl := Option.some.inj hp
      right
      show sources.get? u.id = _
      rw [Table.get?_insert? hsources, if_pos rfl]
  | runnerUpload stored acknowledged p' =>
    obtain rfl := System.eq_of_setUpload hpc' rfl
    left
    cases stored with
    | false => cases hp
    | true =>
      cases acknowledged with
      | false => cases hp
      | true => exact hp

/-- A drawn id gets no new row. -/
theorem row_before (h : step config s a = some s') (hused : k ∈ s.usedIds)
    (hrow : s'.row k ≠ none) : s.row k ≠ none := by
  intro hnone
  have hstep := row_step h k
  rw [hnone] at hstep
  generalize s'.row k = row' at hstep hrow
  cases hstep with
  | same => exact hrow rfl
  | reserve _ _ _ _ hfresh => exact hfresh hused

theorem sourcesStored_step (hids : IdsDrawn s) (hs : SourcesStored s)
    (hheld : HoldsStorable config s) (h : step config s a = some s') : SourcesStored s' where
  upload := by
    intro k pc p hpc hp hrow
    have hstays (pc : UploadPc) (hpc : s.uploadPc k = some pc) (hp : pc.stored? = some p) :
        s'.source k = some ⟨k, p.sourceFilename, p.sourceDigest, p.source⟩ :=
      (source_stays h (hs.upload k pc p hpc hp
        (row_before h (hids.upload k pc hpc) hrow))).resolve_left hrow
    cases upload_step h k with
    | other _ _ hsame => exact hstays pc (hsame ▸ hpc) hp
    | ended _ hnone =>
      rw [hpc] at hnone
      cases hnone
    | reserved _ _ _ hreserved =>
      rw [hpc] at hreserved
      obtain rfl := Option.some.inj hreserved
      cases hp
    | acts u action before hid hbefore heffect =>
      subst hid
      rcases heffect.stored hpc hp with hstored | hsource
      · exact hstays before hbefore hstored
      · exact hsource
  row := by
    intro k row' hrow' hstatus
    have hne : s'.row k ≠ none := by
      rw [hrow']
      exact Option.some_ne_none row'
    have hstep := row_step h k
    rw [hrow'] at hstep
    have hkept (row : Submission) (hrow : s.row k = some row) (hold : row.status ≠ .uploading) :
        ∃ source, s'.source k = some source ∧ row.sourceFilename = some source.filename := by
      obtain ⟨source, hsource, hname⟩ := hs.row k row hrow hold
      exact ⟨source, (source_stays h hsource).resolve_left hne, hname⟩
    generalize hrow : s.row k = old at hstep
    cases hstep with
    | same => exact hkept row' hrow hstatus
    | reserve => exact absurd rfl hstatus
    | queue acknowledged p row hpc =>
      have hsource := hs.upload k _ p hpc rfl (by rw [hrow]; exact Option.some_ne_none row)
      exact ⟨_, (source_stays h hsource).resolve_left hne, rfl⟩
    | markInterrupted _ row _ hold | claim _ _ _ row _ hold | markFailure _ _ _ _ row _ _ hold
    | retry row hold => exact hkept row hrow (by rw [hold]; exact nofun)
    | disqualify _ row hold => exact hkept row hrow hold
    | storeResult r _ job result _ _ row hpc hid =>
      obtain ⟨held, hrow', hold⟩ := hheld.row r _ job hpc rfl
      obtain rfl : held = row := by
        rw [hid, hrow] at hrow'
        exact (Option.some.inj hrow').symm
      exact hkept held hrow hold

theorem sourcesStored (h : (contestSystem config).Reachable TransitionSystem.Free s) :
    SourcesStored s := by
  apply h.invariant_of_reachable
  · constructor
    · intro k pc p hpc
      contradiction
    · intro k row hrow
      contradiction
  · intro s a s' hreach hs _ h
    exact sourcesStored_step (idsDrawn hreach) hs (holdsStorable hreach) h

/-- In every run a submission past its upload has a stored source of its file name, and every later
state has the same. -/
theorem sources_immutable (h : (contestSystem config).Reachable TransitionSystem.Free s)
    {row : Submission} (hrow : s.row k = some row) (hstatus : row.status ≠ .uploading) :
    ∃ source, s.source k = some source ∧ row.sourceFilename = some source.filename ∧
      ∀ t, (contestSystem config).Path TransitionSystem.Free s t → t.source k = some source := by
  obtain ⟨source, hsource, hname⟩ := (sourcesStored h).row k row hrow hstatus
  refine ⟨source, hsource, hname, fun t ht => ?_⟩
  have hkept : (∃ row, t.row k = some row ∧ row.status ≠ .uploading) ∧
      t.source k = some source := by
    refine ht.invariant (I := fun t => (∃ row, t.row k = some row ∧ row.status ≠ .uploading) ∧
      t.source k = some source) ?_ ⟨⟨row, hrow, hstatus⟩, hsource⟩
    rintro s a s' ⟨hrow, hsource⟩ - hstep
    have hrow' := row_kept hstep hrow
    refine ⟨hrow', (source_stays hstep hsource).resolve_left ?_⟩
    obtain ⟨row', hrow', _⟩ := hrow'
    rw [hrow']
    exact Option.some_ne_none row'
  exact hkept.2

/-- A submission that has been benchmarked. -/
theorem sources_immutable_accepted : ∃ (s : System) (row : Submission) (source : SubmissionSource),
    s.row "a" = some row ∧ row.status = .completed ∧ s.source "a" = some source ∧
      ∀ t, (contestSystem ⟨"1brc", 0, 100, [], "env"⟩).Path TransitionSystem.Free s t →
        t.source "a" = some source := by
  obtain ⟨s, row, hs, hrow, hstatus⟩ := exists_measured
  obtain ⟨source, hsource, _, hkept⟩ :=
    sources_immutable hs hrow (by rw [hstatus]; decide)
  exact ⟨s, row, source, hrow, hstatus, hsource, hkept⟩

end Sources
end OneBrc.Server
