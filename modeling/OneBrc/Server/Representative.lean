import OneBrc.Lib.Latest
import OneBrc.Server.Owners

/-! The representative of a user: the pointer that `storeResult` moves is the latest accepted
submission uploaded before the end of the contest, as long as one worker loop runs at a time. -/
namespace OneBrc.Server
open Lib Runner

/-- The row's place in the order, if it is one of the user's accepted submissions in time. -/
def eligible? (config : Config) (username : String) (row : Submission) : Option (ℕ ×ₗ String) :=
  if row.username = username ∧ row.publicVerdict = some .accepted ∧
    row.uploadStartedAt ≤ config.contestEndAt then some row.order else none

/-- The user's accepted submissions that were uploaded in time. -/
def System.eligible (s : System) (config : Config) (username : String) : Set (ℕ ×ₗ String) :=
  {key | ∃ k, (s.row k).bind (eligible? config username) = some key}

/-- Every user's pointer is the last of the eligible submissions, NULL when there is none. -/
def RepresentativeLaw (config : Config) (s : System) : Prop :=
  ∀ username user, s.db.users.get? username = some user →
    ∃ o, Latest.Tracks (s.eligible config username) o ∧
      user.representativeSubmissionId = o.map fun key => (ofLex key).2

/-- What the worker at this point knows about the verdict of its row. -/
def WorkerPc.allows (verdict : Option Verdict) : WorkerPc → Prop
  | .claimed _ | .running _ | .marking _ _ => verdict = none
  | .storing _ result => verdict = none ∨ verdict = some result.publicResult.verdict
  | .waiting | .starting | .head | .cleaning _ | .leaving | .stopped => True

/-- What holds of rows and loops in every run with one worker loop. -/
structure Settled (s : System) : Prop where
  loop : ∀ r₁ r₂ pc₁ pc₂, s.workerPc r₁ = some pc₁ → s.workerPc r₂ = some pc₂ →
    pc₁.inLoop = true → pc₂.inLoop = true → r₁ = r₂
  stored : ∀ k row, s.row k = some row → row.publicVerdict ≠ none →
    row.status = .completed ∨ row.status = .disqualified
  held : ∀ r pc job row, s.workerPc r = some pc → pc.job? = some job →
    s.row job.id = some row → pc.allows row.publicVerdict

section
variable {config : Config} {s s' : System} {a : Action} {k username : String}

theorem WorkerPc.inLoop_of_job {pc : WorkerPc} {job : BenchmarkJob} (h : pc.job? = some job) :
    pc.inLoop = true := by
  cases pc with
  | waiting | stopped => contradiction
  | starting | head | claimed | running | marking | storing | cleaning | leaving => rfl

/-- A loop is entered through the lock only. -/
theorem WorkerEffect.inLoop {rep : Replica} {action : WorkerAction} {pc : WorkerPc}
    (h : WorkerEffect config s rep action pc s') : pc.inLoop = true ∨ action = .acquireLock := by
  cases h with
  | acquireLock => exact .inr rfl
  | leave _ hpc =>
    rcases hpc with rfl | rfl | ⟨rfl, _⟩
    · exact .inl rfl
    · exact .inl rfl
    · exact .inl rfl
  | validateEnvironment | idle | claim | refuse | begin | runFailed | runReturned | markFailure
  | storeResult | abandonMark | abandonStore | cleanup => exact .inl rfl

theorem loop_step {r : ℕ} {pc' : WorkerPc} (h : step config s a = some s')
    (hpc' : s'.workerPc r = some pc') (hloop : pc'.inLoop = true) :
    (∃ pc, s.workerPc r = some pc ∧ pc.inLoop = true) ∨
      a = .worker r .acquireLock ∧ ∃ rep ∈ s.replicas.rows, rep.id = r := by
  rcases workerPc_source h hpc' with
    ⟨_, hpc⟩ | rfl | ⟨rep, action, pc, hid, rfl, hrep, hpc, heffect⟩
  · exact .inl ⟨pc', hpc, hloop⟩
  · contradiction
  · rcases heffect.inLoop with hloop | rfl
    · exact .inl ⟨pc, hpc, hloop⟩
    · exact .inr ⟨rfl, rep, Table.mem_of_get? hrep, hid⟩

theorem Replica.inLoop_eq {rep : Replica} {r : ℕ} {pc : WorkerPc}
    (hrep : s.replicas.get? r = some rep) (hpc : s.workerPc r = some pc) :
    rep.inLoop = pc.inLoop := by
  rw [System.workerPc_eq hrep] at hpc
  unfold Replica.workerPc? at hpc
  unfold Replica.inLoop
  split at hpc
  · next h =>
    obtain rfl := Option.some.inj hpc
    rw [h]
  · contradiction

theorem RowStep.stored {row' : Submission} {old new : Option Submission}
    (h : RowStep config s k a old new) (hnew : new = some row')
    (hold : ∀ row, old = some row → row.publicVerdict ≠ none →
      row.status = .completed ∨ row.status = .disqualified)
    (hv : row'.publicVerdict ≠ none) :
    row'.status = .completed ∨ row'.status = .disqualified := by
  cases h with
  | same => exact hold row' hnew hv
  | reserve =>
    obtain rfl := Option.some.inj hnew
    contradiction
  | discard | deleteUploading => contradiction
  | queue _ _ row _ hstatus | markInterrupted _ row _ hstatus | claim _ _ _ row _ hstatus
  | markFailure _ _ _ _ row _ _ hstatus | retry row hstatus =>
    obtain rfl := Option.some.inj hnew
    rcases hold row rfl hv with h | h
    · rw [hstatus] at h
      contradiction
    · rw [hstatus] at h
      contradiction
  | storeResult =>
    obtain rfl := Option.some.inj hnew
    exact .inl rfl
  | disqualify =>
    obtain rfl := Option.some.inj hnew
    exact .inr rfl

/-- The worker's own step keeps what it knows about the verdict. -/
theorem WorkerEffect.allows {rep : Replica} {action : WorkerAction} {pc pc' : WorkerPc}
    {job : BenchmarkJob} {v v' : Option Verdict} (h : WorkerEffect config s rep action pc s')
    (hpc' : s'.workerPc rep.id = some pc') (hjob : pc.job? = some job)
    (hjob' : pc'.job? = some job) (hv : pc.allows v)
    (hv' : v' = v ∨ ∃ job result, pc = .storing job result ∧
      v' = some result.publicResult.verdict) : pc'.allows v' := by
  cases h with
  | acquireLock | validateEnvironment | idle | claim => contradiction
  | abandonMark | leave =>
    obtain rfl := System.eq_of_setWorker hpc'
    contradiction
  | cleanup =>
    obtain rfl := System.eq_of_setWorker hpc'
    rw [rep.loopHead_job?] at hjob'
    contradiction
  | refuse | begin | runFailed | runReturned =>
    obtain rfl := System.eq_of_setWorker hpc'
    rcases hv' with rfl | ⟨_, _, hpc, _⟩
    · first | exact hv | exact .inl hv
    · contradiction
  | markFailure acknowledged =>
    obtain rfl := System.eq_of_setWorker hpc'
    rcases hv' with rfl | ⟨_, _, hpc, _⟩
    · cases acknowledged with
      | false => exact hv
      | true =>
        rw [if_pos rfl, rep.loopHead_job?] at hjob'
        contradiction
    · contradiction
  | abandonStore =>
    obtain rfl := System.eq_of_setWorker hpc'
    trivial
  | storeResult acknowledged job result =>
    obtain rfl := System.eq_of_setWorker hpc'
    cases acknowledged with
    | true => trivial
    | false =>
      rcases hv' with rfl | ⟨_, _, hpc, rfl⟩
      · exact hv
      · obtain ⟨_, rfl⟩ := WorkerPc.storing.inj hpc
        exact .inr rfl

theorem settled_step (hids : IdsDrawn s) (hs : Settled s) (hg : OneWorkerLoop s a)
    (h : step config s a = some s') : Settled s' where
  loop := by
    intro r₁ r₂ pc₁ pc₂ h₁ h₂ hloop₁ hloop₂
    have hidle {r : ℕ} {pc : WorkerPc} (hno : ∀ rep ∈ s.replicas.rows, rep.inLoop = false)
        (hpc : s.workerPc r = some pc) (hloop : pc.inLoop = true) : False := by
      obtain ⟨rep, hrep, _⟩ := System.workerPc_eq_some.mp hpc
      rw [← Replica.inLoop_eq hrep hpc, hno rep (Table.mem_of_get? hrep)] at hloop
      contradiction
    rcases loop_step h h₁ hloop₁ with ⟨pc₁', h₁', hloop₁'⟩ | ⟨ha₁, rep₁, hrep₁, hid₁⟩
    · rcases loop_step h h₂ hloop₂ with ⟨pc₂', h₂', hloop₂'⟩ | ⟨ha₂, rep₂, hrep₂, hid₂⟩
      · exact hs.loop r₁ r₂ pc₁' pc₂' h₁' h₂' hloop₁' hloop₂'
      · exact (hidle (hg ⟨rep₂, hrep₂, hid₂ ▸ ha₂⟩) h₁' hloop₁').elim
    · rcases loop_step h h₂ hloop₂ with ⟨pc₂', h₂', hloop₂'⟩ | ⟨ha₂, _⟩
      · exact (hidle (hg ⟨rep₁, hrep₁, hid₁ ▸ ha₁⟩) h₂' hloop₂').elim
      · exact (Action.worker.inj (ha₁.symm.trans ha₂)).1
  stored := by
    intro k row' hrow' hv
    exact (row_step h k).stored hrow' (hs.stored k) hv
  held := by
    intro r pc' job row' hpc' hjob' hrow'
    have hstep := row_step h job.id
    rw [hrow'] at hstep
    rcases workerPc_source h hpc' with
      ⟨ha, hpc⟩ | rfl | ⟨rep, action, pc, rfl, rfl, _, hpc, heffect⟩
    · generalize hold : s.row job.id = old at hstep
      cases old with
      | none =>
        cases hstep with
        | reserve _ _ _ _ hfresh => exact absurd (hids.held r pc' job hpc hjob') hfresh
      | some row =>
        have hallows := hs.held r pc' job row hpc hjob' hold
        rcases hstep.verdict with hv | ⟨r', acknowledged, job', result, rfl, hstoring, _, _⟩
        · rwa [hv]
        · have hr := hs.loop r r' _ _ hpc hstoring (WorkerPc.inLoop_of_job hjob') rfl
          exact absurd (congrArg some hr.symm) ha
    · contradiction
    · rcases heffect.job? hpc' hjob' with hjob | ⟨rfl, rfl, row, hrow, hstatus, rfl, hstarted⟩
      · generalize hold : s.row job.id = old at hstep
        cases old with
        | none => cases hstep
        | some row =>
          have hallows := hs.held rep.id pc job row hpc hjob hold
          apply heffect.allows hpc' hjob hjob' hallows
          rcases hstep.verdict with hv | ⟨r', acknowledged, job', result, ha, hpc'', _, hv⟩
          · exact .inl hv
          · obtain ⟨rfl, _⟩ := Action.worker.inj ha
            rw [hpc] at hpc''
            exact .inr ⟨job', result, Option.some.inj hpc'', hv⟩
      · obtain rfl : row.start s.now = row' := Option.some.inj (hstarted.symm.trans hrow')
        change row.publicVerdict = none
        by_contra hv
        rcases hs.stored row.id row hrow hv with hdone | hdone
        · rw [hstatus] at hdone
          contradiction
        · rw [hstatus] at hdone
          contradiction

theorem settled (h : (contestSystem config).Reachable OneWorkerLoop s) : Settled s := by
  apply h.invariant_of_reachable
  · constructor
    · intro r₁ r₂ pc₁ pc₂ h₁
      contradiction
    · intro k row hrow
      contradiction
    · intro r pc job row hpc
      contradiction
  · intro s a s' hr hs hg h
    exact settled_step (idsDrawn hr.free) hs hg h

theorem eligible?_of_verdict {row : Submission} (h : row.publicVerdict = none) :
    eligible? config username row = none := by
  rw [eligible?, if_neg]
  rw [h]
  exact nofun

/-- Statements other than `storeResult` keep what is eligible. -/
theorem RowStep.eligible {old new : Option Submission} (h : RowStep config s k a old new)
    (hold : ∀ row, old = some row → row.publicVerdict ≠ none →
      row.status = .completed ∨ row.status = .disqualified)
    (hstore : ∀ r acknowledged, a ≠ .worker r (.storeResult acknowledged)) :
    new.bind (eligible? config username) = old.bind (eligible? config username) := by
  have hdeleted {row : Submission} (hrow : old = some row) (hstatus : row.status = .uploading) :
      eligible? config username row = none := by
    apply eligible?_of_verdict
    by_contra hv
    rcases hold row hrow hv with hdone | hdone
    · rw [hstatus] at hdone
      contradiction
    · rw [hstatus] at hdone
      contradiction
  cases h with
  | same | queue | markInterrupted | claim | markFailure | retry | disqualify => rfl
  | reserve => exact eligible?_of_verdict rfl
  | discard row _ hstatus | deleteUploading _ _ row _ hstatus => exact (hdeleted rfl hstatus).symm
  | storeResult r acknowledged => exact absurd rfl (hstore r acknowledged)

theorem eligible_congr (h : ∀ k, (s'.row k).bind (eligible? config username) =
    (s.row k).bind (eligible? config username)) :
    s'.eligible config username = s.eligible config username := by
  ext key
  simp only [System.eligible, Set.mem_ofPred_eq, h]

/-- Storing an accepted result adds the submission to the eligible ones of its user. -/
theorem eligible_store {row row' : Submission} (hk : s.row k = some row)
    (hk' : s'.row k = some row') (hother : ∀ k', k' ≠ k → s'.row k' = s.row k')
    (hkey : eligible? config username row = none ∨
      eligible? config username row = eligible? config username row') :
    s'.eligible config username =
      {key | eligible? config username row' = some key} ∪ s.eligible config username := by
  ext key
  simp only [System.eligible, Set.mem_union, Set.mem_ofPred_eq]
  constructor
  · rintro ⟨k', h⟩
    by_cases hkk : k' = k
    · rw [hkk, hk', Option.bind_some] at h
      exact .inl h
    · rw [hother k' hkk] at h
      exact .inr ⟨k', h⟩
  · rintro (h | ⟨k', h⟩)
    · exact ⟨k, by rw [hk', Option.bind_some, h]⟩
    · by_cases hkk : k' = k
      · rw [hkk, hk, Option.bind_some] at h
        rcases hkey with hnone | hsame
        · rw [hnone] at h
          contradiction
        · exact ⟨k, by rw [hk', Option.bind_some, ← hsame, h]⟩
      · exact ⟨k', by rw [hother k' hkk, h]⟩

/-- The condition of the pointer update is the comparison of `offer`. -/
theorem representative_offer {submissions : Table String Submission Submission.id}
    {candidate : Submission} {user : User} {o : Option (ℕ ×ₗ String)}
    (htime : candidate.uploadStartedAt ≤ config.contestEndAt)
    (huser : user.representativeSubmissionId = o.map fun key => (ofLex key).2)
    (hrow : ∀ key, o = some key → ∃ row, submissions.get? (ofLex key).2 = some row ∧
      row.order = key) :
    (if replacesRepresentative config submissions candidate user = true
      then user.represent candidate.id else user).representativeSubmissionId =
      (Latest.offer candidate.order o).map fun key => (ofLex key).2 := by
  unfold replacesRepresentative
  rw [huser, decide_eq_true htime, Bool.true_and]
  cases o with
  | none => rfl
  | some key =>
    obtain ⟨row, hget, horder⟩ := hrow key rfl
    rw [Option.map_some, Option.bind_some, hget]
    simp only [decide_eq_true_eq, Submission.before_iff, horder, Latest.offer]
    split
    · rfl
    · exact huser

theorem eligible_row {key : ℕ ×ₗ String} (h : key ∈ s.eligible config username) :
    ∃ row, s.row (ofLex key).2 = some row ∧ row.order = key ∧ row.username = username ∧
      row.publicVerdict = some .accepted ∧ row.uploadStartedAt ≤ config.contestEndAt := by
  obtain ⟨k, hk⟩ := h
  obtain ⟨row, hrow, hkey⟩ := Option.bind_eq_some_iff.mp hk
  unfold eligible? at hkey
  split at hkey
  · next hcond =>
    obtain rfl := Option.some.inj hkey
    have hid : row.id = k := Table.get?_key hrow
    refine ⟨row, ?_, rfl, hcond⟩
    change s.row row.id = some row
    rw [hid, hrow]
  · contradiction

/-- The rows that the pointers name after a result is stored. -/
theorem pointed_row {job : BenchmarkJob} {result : RunnerJobResult} {db : Database}
    (hdb : storeResult config s.now job result.publicResult result.privateResult s.db = .ok db)
    {row : Submission} (hrow : s.row job.id = some row) {key : ℕ ×ₗ String}
    (hkey : key ∈ s.eligible config username) :
    ∃ other, db.submissions.get? (ofLex key).2 = some other ∧ other.order = key := by
  obtain ⟨row', hrow', _, horder', _, _, _, hother⟩ := storeResult_row hdb hrow
  obtain ⟨other, hget, horder, _⟩ := eligible_row hkey
  by_cases hid : (ofLex key).2 = job.id
  · rw [hid, hrow] at hget
    obtain rfl := Option.some.inj hget
    exact ⟨row', hid ▸ hrow', horder'.trans horder⟩
  · exact ⟨other, (hother _ hid).trans hget, horder⟩

/-- Storing a result keeps the law: an accepted one in time is offered to the pointer. -/
theorem representativeLaw_store {job : BenchmarkJob} {result : RunnerJobResult} {db : Database}
    (hdb : storeResult config s.now job result.publicResult result.privateResult s.db = .ok db)
    (hheld : ∀ row, s.row job.id = some row → row.username = job.username ∧
      (row.publicVerdict = none ∨ row.publicVerdict = some result.publicResult.verdict))
    (hs : RepresentativeLaw config s) (hs' : s'.db = db) : RepresentativeLaw config s' := by
  intro username user' huser'
  obtain ⟨publicScore, privateScore, _, _, hrows, husers, _⟩ := storeResult_ok hdb
  rw [hs', husers] at huser'
  cases hrow : s.row job.id with
  | none =>
    -- there is no such submission: neither table changes
    have heligible : s'.eligible config username = s.eligible config username := by
      apply eligible_congr
      intro k
      rw [System.row, hs', hrows, Table.get?_update]
      change ((s.row k).map _).bind _ = _
      cases hk : s.row k with
      | none => rfl
      | some other =>
        have hother : other.id = k := Table.get?_key hk
        have hne : k ≠ job.id := by
          rintro rfl
          rw [hrow] at hk
          contradiction
        rw [Option.map_some, if_neg (by simp [hother, hne])]
    have hnone : db.submissions.get? job.id = none := by
      rw [hrows, Table.get?_update]
      change (s.row job.id).map _ = none
      rw [hrow, Option.map_none]
    rw [heligible]
    apply hs username user'
    split at huser'
    · unfold updateRepresentative at huser'
      rwa [hnone] at huser'
    · exact huser'
  | some row =>
    obtain ⟨row', hrow', hname, horder, _, htime, hverdict, hother⟩ := storeResult_row hdb hrow
    obtain ⟨huserjob, hpv⟩ := hheld row hrow
    have hkey : eligible? config username row = none ∨
        eligible? config username row = eligible? config username row' := by
      rcases hpv with hpv | hpv
      · exact .inl (eligible?_of_verdict hpv)
      · right
        rw [eligible?, eligible?, hname, hverdict, htime, horder, hpv]
    have heligible := eligible_store hrow (show s'.row job.id = some row' by
        rw [System.row, hs', hrow'])
      (fun k hk => by rw [System.row, hs', hother k hk, System.row]) hkey
    have hkept (hnone : eligible? config username row' = none) :
        s'.eligible config username = s.eligible config username := by
      rw [heligible, hnone]
      simp
    split at huser'
    · next haccepted =>
      rw [updateRepresentative_get? { s.db with submissions := db.submissions } hrow'] at huser'
      obtain ⟨user, huser, rfl⟩ := Option.map_eq_some_iff.mp huser'
      obtain rfl : user.username = username := Table.get?_key huser
      obtain ⟨o, htracks, hpointer⟩ := hs user.username user huser
      by_cases hmine : user.username = job.username
      · by_cases hend : row'.uploadStartedAt ≤ config.contestEndAt
        · refine ⟨Latest.offer row'.order o, ?_, ?_⟩
          · have hsome : eligible? config user.username row' = some row'.order :=
              if_pos ⟨hname.trans (huserjob.trans hmine.symm), hverdict.trans (by rw [haccepted]),
                hend⟩
            rw [heligible, hsome]
            have hset : {key | some row'.order = some key} ∪ s.eligible config user.username =
                insert row'.order (s.eligible config user.username) := by
              ext key
              simp [eq_comm]
            rw [hset]
            exact htracks.offer row'.order
          · rw [decide_eq_true hmine, Bool.true_and]
            apply representative_offer hend hpointer
            rintro key rfl
            exact pointed_row hdb hrow htracks.mem
        · rw [hkept (if_neg fun hcond => hend hcond.2.2)]
          refine ⟨o, htracks, ?_⟩
          rw [if_neg ?_]
          · exact hpointer
          · rw [replacesRepresentative, decide_eq_false hend]
            simp
      · rw [hkept (if_neg fun hcond => hmine (hcond.1.symm.trans (hname.trans huserjob)))]
        refine ⟨o, htracks, ?_⟩
        rw [if_neg (by simp [hmine])]
        exact hpointer
    · next haccepted =>
      rw [hkept (if_neg fun hcond => haccepted (Option.some.inj (hverdict.symm.trans hcond.2.1)))]
      exact hs username user' huser'

theorem representativeLaw_step (howned : Owned s) (hsettled : Settled s)
    (hs : RepresentativeLaw config s) (h : step config s a = some s') :
    RepresentativeLaw config s' := by
  by_cases hstore : ∃ r acknowledged, a = .worker r (.storeResult acknowledged)
  · obtain ⟨r, acknowledged, rfl⟩ := hstore
    cases step_effect h with
    | worker rep pc action _ hrep hphase heffect =>
      cases heffect with
      | storeResult _ job result db hdb =>
        refine representativeLaw_store hdb ?_ hs rfl
        intro row hrow
        have hpc := System.workerPc_eq_some.mpr ⟨rep, hrep, hphase⟩
        exact ⟨(howned.held rep.id _ job row hpc rfl hrow).1,
          hsettled.held rep.id _ job row hpc rfl hrow⟩
  · intro username user' huser'
    have hstore' := fun r acknowledged ha => hstore ⟨r, acknowledged, ha⟩
    have heligible : s'.eligible config username = s.eligible config username :=
      eligible_congr fun k => (row_step h k).eligible (hsettled.stored k) hstore'
    rw [heligible]
    have hstep := user_step h username
    rw [huser'] at hstep
    generalize hold : s.db.users.get? username = old at hstep
    cases hstep with
    | same => exact hs username user' hold
    | represent r acknowledged => exact absurd rfl (hstore' r acknowledged)
    | insert =>
      refine ⟨none, ?_, rfl⟩
      rw [Latest.Tracks, Set.eq_empty_iff_forall_notMem]
      intro key hkey
      obtain ⟨row, hrow, _, hname, _⟩ := eligible_row hkey
      exact howned.owner _ row hrow (hname ▸ hold)

/-- In every run with one worker loop, each user's representative is the last of the accepted
submissions uploaded in time, and NULL when there is none. -/
theorem representativeLaw (h : (contestSystem config).Reachable OneWorkerLoop s) :
    RepresentativeLaw config s := by
  apply h.invariant_of_reachable
  · intro username user huser
    contradiction
  · intro s a s' hr hs _ h
    exact representativeLaw_step (owned hr.free) (settled hr) hs h

end

/-- The earlier submission is retried and accepted after the later one, which stays in place. -/
theorem representativeLaw_retried : ∃ s,
    RepresentativeLaw ⟨"1brc", 0, 100, [], "env"⟩ s ∧
      (s.db.users.get? "alice").bind (·.representativeSubmissionId) = some "b" ∧
      (s.row "a").bind (·.publicVerdict) = some .accepted := by
  have hrun : ((contestSystem ⟨"1brc", 0, 100, [], "env"⟩).run OneWorkerLoop .initial
      (boot 0 ++ lead 0 ++ accept 0 "a" "alice" ⟨.ruby, .ruby, "main.rb", [], "e3b0", "e3b0"⟩ ++
        benchmarkFailure 0 ++ [.tick 7] ++
        accept 0 "b" "alice" ⟨.ruby, .ruby, "main.rb", [], "e3b0", "e3b0"⟩ ++
        benchmark 0 ⟨⟨.accepted, some ["5"], some "5", none⟩, none, "env"⟩ ++
        [.worker 0 (.storeResult true), .worker 0 (.cleanup true), .admin (.retry "a")] ++
        benchmark 0 ⟨⟨.accepted, some ["4"], some "4", none⟩, none, "env"⟩ ++
        [.worker 0 (.storeResult true)])).any (fun s =>
      (s.db.users.get? "alice").bind (·.representativeSubmissionId) = some "b" &&
        (s.row "a").bind (·.publicVerdict) = some .accepted) = true := by
    decide
  obtain ⟨s, hpath, hcheck⟩ := TransitionSystem.exists_path_of_run hrun
  simp only [Bool.and_eq_true, decide_eq_true_eq] at hcheck
  exact ⟨s, representativeLaw hpath, hcheck.1, hcheck.2⟩

end OneBrc.Server
