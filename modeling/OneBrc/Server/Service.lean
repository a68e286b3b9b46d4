import OneBrc.Server.Owners
import OneBrc.Server.Recovery
import OneBrc.Server.Serialize
import OneBrc.Server.WorkerLock

/-! The order of service. A worker claims the queued rows one by one in the order of their uploads,
and the position shown for a queued submission counts the benchmarks that end before its own. -/
namespace OneBrc.Server
open Lib StableSort

/-- The step runs without another transaction's locks, is acknowledged, and gives nothing up. -/
def WorkerAction.atomic : WorkerAction → Prop
  | .claimNext locked acknowledged => locked = [] ∧ acknowledged = true
  | .giveUp => False
  | _ => True

instance : DecidablePred WorkerAction.atomic := fun action => by
  cases action <;> unfold WorkerAction.atomic <;> infer_instance

def System.runningIds (s : System) : List String := selectIds .running s.db

/-- The submissions that become running. -/
def started (s s' : System) : List String := s'.runningIds.filter (· ∉ s.runningIds)

/-- The submissions that leave the status running. -/
def departed (s s' : System) : List String := s.runningIds.filter (· ∉ s'.runningIds)

/-- A state with the submissions claimed so far, in order, and the number that left running. -/
structure ServiceLog where
  system : System
  claimed : List String
  left : ℕ

/-- The runs from `s` that consist of steps of worker `r`. -/
def service (config : Config) (r : ℕ) (s : System) : TransitionSystem ServiceLog WorkerAction where
  init := ⟨s, [], 0⟩
  step x action := (step config x.system (.worker r action)).map fun s' =>
    ⟨s', x.claimed ++ started x.system s', x.left + (departed x.system s').length⟩

/-- Every running row is the current job of worker `r`. -/
def RunningIsCurrent (s : System) (r : ℕ) : Prop :=
  ∀ k, s.status k = some .running → ∃ job, (s.workerPc r).bind (·.current?) = some job ∧ job.id = k

/-- Atomic steps only. -/
def Atomic (_ : ServiceLog) (action : WorkerAction) : Prop := action.atomic

instance : DecidableRel Atomic := fun _ action => inferInstanceAs (Decidable action.atomic)

/-- What the API shows for the position of a row. -/
def ShowsAhead (row : SubmissionRow) (ahead : ℕ) : Prop :=
  ∀ published, ∃ members, serializeSubmission row published = .object members ∧
    ("queueAhead", .number (toString ahead)) ∈ members

/-- Claims follow the order of uploads, and the position of a queued row is the number of
submissions that leave running before its claim. -/
structure FirstInFirstOut (config : Config) (G : ServiceLog → WorkerAction → Prop) (r : ℕ)
    (s : System) : Prop where
  order : ∀ {x}, (service config r s).Reachable G x → x.claimed.Nodup ∧
    x.claimed.Pairwise fun k k' => ∃ row row', s.row k = some row ∧ s.row k' = some row' ∧
      row.before row'
  position : ∀ {x y action k row}, (service config r s).Reachable G x → G x action →
    (service config r s).step x action = some y → k ∈ started x.system y.system →
    s.row k = some row → row.status = .queued → queueAhead s.db row = some x.left
  shown : ∀ {x y action tie username row}, (service config r s).Reachable G x → G x action →
    (service config r s).step x action = some y → row ∈ submissionsForUser tie username s.db →
    row.status = .queued → row.id ∈ started x.system y.system → ShowsAhead row x.left

/-- Atomic steps, and no result is stored into a queued row. -/
def StoresUnqueued (r : ℕ) (x : ServiceLog) (action : WorkerAction) : Prop :=
  action.atomic ∧ ∀ job result acknowledged, action = .storeResult acknowledged →
    x.system.workerPc r = some (.storing job result) → x.system.status job.id ≠ some .queued

section
variable {config : Config} {s s' : System} {r : ℕ} {action : WorkerAction} {k : String}

theorem queuedRows_eq (db : Database) : queuedRows db =
    sliceStable Submission.uploadedBefore (db.submissions.rows.filter (·.status = .queued)) := by
  have hrel : (fun a b : Submission => b.uploadedBefore a = false) = fun a b => ¬ b.before a := by
    funext a b
    rw [← Bool.not_eq_true, Submission.uploadedBefore_iff, Submission.before_iff]
  simp only [queuedRows, sliceStable]
  congr 1
  exact hrel.symm

theorem mem_queuedRows {db : Database} {row : Submission} :
    row ∈ queuedRows db ↔ row ∈ db.submissions.rows ∧ row.status = .queued := by
  rw [queuedRows, List.mem_insertionSort, List.mem_filter, decide_eq_true_eq]

theorem queuedRows_sorted (db : Database) :
    (queuedRows db).Pairwise fun a b => a.order < b.order := by
  rw [queuedRows_eq]
  exact uploadOrder_sorted db _

/-- An UPDATE that queues no row takes the rows of its WHERE clause out of the queue. -/
theorem queuedRows_update {db db' : Database} {p : Submission → Bool}
    {set : Submission → Submission} (hset : ∀ row, (set row).status ≠ .queued)
    (hrows : db'.submissions.rows = db.submissions.rows.map fun row =>
      if p row then set row else row) :
    queuedRows db' = (queuedRows db).filter fun row => !p row := by
  have hfilter (l : List Submission) :
      ((l.map fun row => if p row then set row else row).filter (·.status = .queued)) =
        (l.filter (·.status = .queued)).filter fun row => !p row := by
    induction l with
    | nil => rfl
    | cons row l ih =>
      rw [List.map_cons, List.filter_cons, ih]
      cases hp : p row with
      | true =>
        rw [if_pos rfl, if_neg (by simp [hset])]
        by_cases hqueued : row.status = .queued
        · simp [hqueued, hp]
        · simp [hqueued]
      | false =>
        by_cases hqueued : row.status = .queued
        · simp [hqueued, hp]
        · simp [hqueued]
  rw [queuedRows_eq, queuedRows_eq, sliceStable_filter Submission.uploadedBefore_iff, hrows,
    hfilter]

theorem mem_runningIds : k ∈ s.runningIds ↔ s.status k = some .running := by
  rw [System.runningIds, mem_selectIds, System.status, Option.map_eq_some_iff]
  rfl

instance : Decidable (RunningIsCurrent s r) :=
  decidable_of_iff (∀ k ∈ s.runningIds, ((s.workerPc r).bind (·.current?)).any (·.id = k) = true) <|
    forall_congr' fun k => by simp [mem_runningIds, Option.any_eq_true]

theorem runningIds_nodup (s : System) : s.runningIds.Nodup :=
  s.db.submissions.nodup.sublist (List.filter_sublist.map _)

/-- What starts and what departs account for the change of the running rows. -/
theorem length_runningIds (s s' : System) :
    (departed s s').length + s'.runningIds.length =
      s.runningIds.length + (started s s').length := by
  have hkept : (s.runningIds.filter (· ∈ s'.runningIds)).Perm
      (s'.runningIds.filter (· ∈ s.runningIds)) := by
    rw [List.perm_ext_iff_of_nodup ((runningIds_nodup s).filter _) ((runningIds_nodup s').filter _)]
    intro k
    simp only [List.mem_filter, decide_eq_true_eq, and_comm]
  have hs := List.length_eq_length_filter_add (l := s.runningIds) (· ∈ s'.runningIds)
  have hs' := List.length_eq_length_filter_add (l := s'.runningIds) (· ∈ s.runningIds)
  have hlength := hkept.length_eq
  simp only [departed, started, decide_not]
  omega

/-- The worker keeps its current job while the row is running. -/
theorem WorkerEffect.current {rep : Replica} {pc : WorkerPc} {job : BenchmarkJob}
    (h : WorkerEffect config s rep action pc s') (hatomic : action.atomic)
    (hjob : pc.current? = some job) (hrunning : s'.status job.id = some .running) :
    (s'.workerPc rep.id).bind (·.current?) = some job := by
  have hset {t : System} {pc' : WorkerPc} (hjob' : pc'.current? = some job) :
      ((t.setWorker rep pc').workerPc rep.id).bind (·.current?) = some job := by
    rw [System.workerPc_setWorker, if_pos rfl]
    exact hjob'
  cases h with
  | acquireLock | validateEnvironment | idle | claim | cleanup => contradiction
  | refuse | begin | runFailed | runReturned => exact hset hjob
  | abandonMark | abandonStore => exact hatomic.elim
  | leave _ hpc =>
    rcases hpc with rfl | rfl | ⟨rfl, _⟩
    · contradiction
    · contradiction
    · contradiction
  | markFailure acknowledged job' message =>
    obtain rfl := Option.some.inj hjob
    exact absurd hrunning (markInfrastructureFailure_not_running _ message)
  | storeResult acknowledged job' result db hdb =>
    obtain rfl := Option.some.inj hjob
    exact absurd hrunning (storeResult_not_running hdb)

/-- A claim takes the first queued row. -/
theorem claim_step (h : step config s (.worker r (.claimNext [] true)) = some s') :
    s'.db = s.db ∨ ∃ row rest, queuedRows s.db = row :: rest ∧
      s'.db = s.db.updateSubmissions (·.id = row.id) (Submission.start s.now)
        (Submission.start_id s.now) ∧ s'.workerPc r = some (.claimed row.job) := by
  simp only [step] at h
  split at h
  · next i pc cancelled hr =>
    have hid : i = r := Table.get?_key hr
    cases pc with
    | head =>
      simp only [workerStep, claimNext] at h
      cases hqueue : queuedRows s.db with
      | nil =>
        rw [hqueue] at h
        obtain rfl := Option.some.inj h
        exact .inl rfl
      | cons row rest =>
        rw [hqueue] at h
        simp only [List.find?_cons, List.not_mem_nil, not_false_eq_true, decide_true] at h
        obtain rfl := Option.some.inj h
        refine .inr ⟨row, rest, rfl, rfl, ?_⟩
        rw [System.workerPc_setWorker, if_pos hid, if_pos trivial]
    | waiting | starting | claimed | running | marking | storing | cleaning | leaving | stopped =>
      contradiction
  · contradiction

theorem started_eq_nil (h : step config s (.worker r action) = some s')
    (ha : ∀ locked acknowledged, action ≠ .claimNext locked acknowledged) :
    started s s' = [] := by
  rw [started, List.filter_eq_nil_iff]
  intro k hk
  obtain ⟨row, hrow, hstatus⟩ := Option.map_eq_some_iff.mp (mem_runningIds.mp hk)
  rcases (row_step h k).of_running hrow hstatus with hsame | ⟨_, locked, acknowledged, hclaim, _⟩
  · have hrunning : s.status k = some .running := by
      rw [System.status, ← hsame, hrow, Option.map_some, hstatus]
    simpa using mem_runningIds.mpr hrunning
  · exact absurd (Action.worker.inj hclaim).2 (ha locked acknowledged)

theorem RunningIsCurrent.runningIds_eq_nil (hs : RunningIsCurrent s r)
    (hnone : (s.workerPc r).bind (·.current?) = none) : s.runningIds = [] := by
  rw [List.eq_nil_iff_forall_not_mem]
  intro k hk
  obtain ⟨job, hjob, _⟩ := hs k (mem_runningIds.mp hk)
  rw [hnone] at hjob
  contradiction

/-- Steps other than a claim keep the queue, as long as no result is stored into it. -/
theorem queuedRows_step (h : step config s (.worker r action) = some s')
    (ha : ∀ locked acknowledged, action ≠ .claimNext locked acknowledged)
    (hstores : ∀ job result acknowledged, action = .storeResult acknowledged →
      s.workerPc r = some (.storing job result) → s.status job.id ≠ some .queued) :
    queuedRows s'.db = queuedRows s.db := by
  have hother {id : String} (hid : s.status id ≠ some .queued) :
      ((queuedRows s.db).filter fun row => !decide (row.id = id)) = queuedRows s.db := by
    rw [List.filter_eq_self]
    intro row hrow
    obtain ⟨hrow, hstatus⟩ := mem_queuedRows.mp hrow
    have hne : row.id ≠ id := by
      rintro rfl
      apply hid
      rw [System.status, System.row, Table.get?_of_mem hrow, Option.map_some, hstatus]
    simp [hne]
  cases worker_step h r with
  | other _ hr => exact absurd rfl hr
  | acts rep _ pc hid hrep hpc heffect =>
    subst hid
    cases heffect with
    | acquireLock | idle | refuse | begin | runFailed | runReturned | abandonMark | abandonStore
    | cleanup | leave => rfl
    | claim locked acknowledged => exact absurd rfl (ha locked acknowledged)
    | validateEnvironment db _ hdb =>
      change queuedRows db = _
      rw [queuedRows, (validateEnvironment_ok hdb).1, queuedRows]
    | markFailure acknowledged job message =>
      change queuedRows (markInfrastructureFailure job.id message s.db) = _
      rw [queuedRows_update (p := Submission.matching job.id .running) (by rintro _ ⟨⟩) rfl,
        List.filter_eq_self]
      intro row hrow
      have hstatus := (mem_queuedRows.mp hrow).2
      simp [Submission.matching, hstatus]
    | storeResult acknowledged job result db hdb =>
      obtain ⟨publicScore, privateScore, _, _, hrows, _, _⟩ := storeResult_ok hdb
      change queuedRows db = _
      rw [queuedRows_update (p := fun row => decide (row.id = job.id)) (by rintro _ ⟨⟩)
        (congrArg Table.rows hrows), hother (hstores job result acknowledged rfl hpc)]

/-- What the log says about the queue of the state `s` that the run started from. -/
structure Serves (r : ℕ) (s : System) (x : ServiceLog) : Prop where
  current : RunningIsCurrent x.system r
  claimed : x.claimed = ((queuedRows s.db).take x.claimed.length).map (·.id)
  queue : queuedRows x.system.db = (queuedRows s.db).drop x.claimed.length
  balance : x.left + x.system.runningIds.length = s.runningIds.length + x.claimed.length

/-- A claim of the head of the queue. -/
structure ClaimsFirst (r : ℕ) (s s' : System) (row : Submission) : Prop where
  queue : queuedRows s.db = row :: queuedRows s'.db
  idle : s.runningIds = []
  started : started s s' = [row.id]
  current : RunningIsCurrent s' r

theorem claims_first (hs : RunningIsCurrent s r)
    (h : step config s (.worker r (.claimNext [] true)) = some s') :
    started s s' = [] ∧ queuedRows s'.db = queuedRows s.db ∧ RunningIsCurrent s' r ∨
      ∃ row, ClaimsFirst r s s' row := by
  have hidle : s.runningIds = [] := by
    cases worker_step h r with
    | other _ hr => exact absurd rfl hr
    | acts rep _ pc hid hrep hpc heffect =>
      apply hs.runningIds_eq_nil
      rw [hpc]
      cases heffect <;> rfl
  rcases claim_step h with hdb | ⟨row, rest, hqueue, hdb, hpc⟩
  · have hnone : s'.runningIds = [] := by rw [System.runningIds, hdb, ← System.runningIds, hidle]
    refine .inl ⟨by rw [started, hnone]; rfl, by rw [hdb], ?_⟩
    intro k hk
    rw [← mem_runningIds, hnone] at hk
    contradiction
  · obtain ⟨hrow, _⟩ := mem_queuedRows.mp (hqueue ▸ List.mem_cons_self)
    have hget : s.row row.id = some row := Table.get?_of_mem hrow
    have hrunning (k : String) : s'.status k = some .running ↔ k = row.id := by
      rw [System.status, System.row, hdb, Database.updateSubmissions_submissions,
        Table.get?_update]
      change Option.map _ ((s.row k).map _) = _ ↔ _
      constructor
      · intro hk
        by_contra hne
        have hold : s.status k = some .running := by
          cases hk' : s.row k with
          | none =>
            rw [hk'] at hk
            contradiction
          | some row' =>
            have hid : row'.id ≠ row.id := by
              rw [Table.get?_key hk']
              exact hne
            rw [hk', Option.map_some, if_neg (by simpa using hid), Option.map_some] at hk
            rw [System.status, hk', Option.map_some, hk]
        rw [← mem_runningIds, hidle] at hold
        contradiction
      · rintro rfl
        rw [hget, Option.map_some, if_pos (by simp)]
        rfl
    have hids : s'.runningIds = [row.id] := by
      apply List.perm_singleton.mp
      rw [List.perm_ext_iff_of_nodup (runningIds_nodup s') (List.nodup_singleton _)]
      intro k
      rw [mem_runningIds, hrunning, List.mem_singleton]
    have hrest : queuedRows s'.db =
        (queuedRows s.db).filter fun row' => !decide (row'.id = row.id) := by
      have hstart (row' : Submission) : (row'.start s.now).status ≠ .queued := by rintro ⟨⟩
      apply queuedRows_update hstart
      rw [hdb]
      rfl
    refine .inr ⟨row, ⟨?_, hidle, ?_, ?_⟩⟩
    · rw [hrest, hqueue, List.filter_cons, if_neg (by simp), List.filter_eq_self.mpr]
      intro row' hrow'
      have hne : row'.id ≠ row.id := by
        intro hid
        have hmem := (mem_queuedRows.mp (hqueue ▸ List.mem_cons_of_mem row hrow')).1
        obtain rfl := Table.eq_of_key_eq hmem hrow hid
        have hsorted := queuedRows_sorted s.db
        rw [hqueue, List.pairwise_cons] at hsorted
        exact lt_irrefl _ (hsorted.1 row' hrow')
      simp [hne]
    · rw [started, hids, hidle]
      simp
    · intro k hk
      obtain rfl := (hrunning k).mp hk
      exact ⟨row.job, by rw [hpc]; rfl, rfl⟩

/-- Steps other than a claim keep the running rows the worker's. -/
theorem current_step (hs : RunningIsCurrent s r) (hatomic : action.atomic)
    (h : step config s (.worker r action) = some s')
    (ha : ∀ locked acknowledged, action ≠ .claimNext locked acknowledged) :
    RunningIsCurrent s' r := by
  intro k hk
  have hold : s.status k = some .running := by
    have hnone := started_eq_nil h ha
    rw [started, List.filter_eq_nil_iff] at hnone
    simpa [mem_runningIds] using hnone k (mem_runningIds.mpr hk)
  obtain ⟨job, hjob, rfl⟩ := hs k hold
  cases worker_step h r with
  | other _ hr => exact absurd rfl hr
  | acts rep _ pc hid hrep hpc heffect =>
    subst hid
    rw [hpc] at hjob
    exact ⟨job, heffect.current hatomic hjob hk, rfl⟩

theorem serves_step {x y : ServiceLog} (hx : Serves r s x) (hg : StoresUnqueued r x action)
    (h : (service config r s).step x action = some y) :
    Serves r s y ∧ (started x.system y.system = [] ∨
      ∃ row, ClaimsFirst r x.system y.system row) := by
  obtain ⟨s', hstep, rfl⟩ := Option.map_eq_some_iff.mp h
  have hbalance := length_runningIds x.system s'
  have hcases : started x.system s' = [] ∧ queuedRows s'.db = queuedRows x.system.db ∧
      RunningIsCurrent s' r ∨ ∃ row, ClaimsFirst r x.system s' row := by
    by_cases ha : ∃ locked acknowledged, action = .claimNext locked acknowledged
    · obtain ⟨locked, acknowledged, rfl⟩ := ha
      obtain ⟨rfl, rfl⟩ := hg.1
      exact claims_first hx.current hstep
    · have hother : ∀ locked acknowledged, action ≠ .claimNext locked acknowledged :=
        fun locked acknowledged h => ha ⟨locked, acknowledged, h⟩
      exact .inl ⟨started_eq_nil hstep hother, queuedRows_step hstep hother hg.2,
        current_step hx.current hg.1 hstep hother⟩
  rcases hcases with ⟨hstarted, hqueue, hcurrent⟩ | ⟨row, hclaim⟩
  · refine ⟨⟨hcurrent, ?_, ?_, ?_⟩, .inl hstarted⟩
    · simpa only [hstarted, List.append_nil] using hx.claimed
    · simpa only [hstarted, List.append_nil, hqueue] using hx.queue
    · have h := hx.balance
      simp only [hstarted, List.append_nil, List.length_nil] at hbalance ⊢
      omega
  · have hdrop : (queuedRows s.db).drop x.claimed.length = row :: queuedRows s'.db := by
      rw [← hx.queue, hclaim.queue]
    refine ⟨⟨hclaim.current, ?_, ?_, ?_⟩, .inr ⟨row, hclaim⟩⟩
    · simp only [hclaim.started, List.length_append, List.length_singleton]
      rw [List.take_add, hdrop, List.map_append, ← hx.claimed]
      rfl
    · simp only [hclaim.started, List.length_append, List.length_singleton]
      rw [← List.drop_drop, hdrop]
      rfl
    · have h := hx.balance
      simp only [hclaim.started, List.length_append, List.length_singleton] at hbalance ⊢
      omega

theorem serves {x : ServiceLog} (hs : RunningIsCurrent s r)
    (h : (service config r s).Reachable (StoresUnqueued r) x) : Serves r s x := by
  apply h.invariant
  · exact ⟨hs, rfl, rfl, Nat.add_comm _ _⟩
  · intro x action y hx hg h
    exact (serves_step hx hg h).1

/-- The position of a queued row counts the running rows and those before it in the queue. -/
theorem queueAhead_eq {row : Submission} {i : ℕ} (hi : i < (queuedRows s.db).length)
    (hrow : (queuedRows s.db)[i] = row) :
    queueAhead s.db row = some (s.runningIds.length + i) := by
  have hmem := List.getElem_mem hi
  rw [hrow, mem_queuedRows] at hmem
  have hearlier : (queuedRows s.db).countP (·.uploadedBefore row) = i := by
    rw [countP_getElem (queuedRows_sorted s.db) hi, hrow, if_neg]
    · rfl
    · rw [Submission.uploadedBefore_iff]
      exact lt_irrefl _
    · intro a ha
      rwa [Submission.uploadedBefore_iff, ← hrow]
    · intro a ha
      rw [← Bool.not_eq_true, Submission.uploadedBefore_iff, ← hrow]
      exact ha.not_gt
  rw [queuedRows_eq, (sliceStable_perm _ _).countP_eq, List.countP_filter] at hearlier
  have hsplit (l : List Submission) : l.countP (fun queued => queued.status = .running ||
      queued.status = .queued && queued.uploadedBefore row) =
        l.countP (·.status = .running) +
          l.countP fun queued => queued.uploadedBefore row && decide (queued.status = .queued) := by
    induction l with
    | nil => rfl
    | cons queued l ih =>
      simp only [List.countP_cons, ih]
      by_cases hrunning : queued.status = .running
      · simp only [hrunning, decide_true, Bool.true_or, if_true, reduceCtorEq, decide_false,
          Bool.and_false, Bool.false_eq_true, if_false]
        omega
      · simp only [hrunning, decide_false, Bool.false_or, Bool.and_comm, Bool.false_eq_true,
          if_false]
        omega
  rw [queueAhead, if_pos hmem.2, Table.count, hsplit, hearlier, System.runningIds, selectIds,
    List.length_map, List.countP_eq_length_filter]

theorem showsAhead_of_queueAhead {row : SubmissionRow} {ahead : ℕ} (hstatus : row.status = .queued)
    (hahead : row.queueAhead = some ahead) : ShowsAhead row ahead := by
  intro published
  refine ⟨_, rfl, ?_⟩
  rw [List.mem_insertionSort, hstatus, hahead]
  cases published with
  | false =>
    simp [nullInt]
    rfl
  | true =>
    simp [nullInt]
    rfl

/-- In every run of the worker that stores no result into a queued row, the queue is served in
order and the positions are right. -/
theorem firstInFirstOut_of_storesUnqueued (config : Config) (r : ℕ) (s : System)
    (hs : RunningIsCurrent s r) : FirstInFirstOut config (StoresUnqueued r) r s := by
  have hposition {x y : ServiceLog} {action : WorkerAction} {k : String} {row : Submission}
      (hx : (service config r s).Reachable (StoresUnqueued r) x) (hg : StoresUnqueued r x action)
      (h : (service config r s).step x action = some y) (hk : k ∈ started x.system y.system)
      (hrow : s.row k = some row) : queueAhead s.db row = some x.left := by
    have hserves := serves hs hx
    rcases (serves_step hserves hg h).2 with hnone | ⟨first, hclaim⟩
    · rw [hnone] at hk
      contradiction
    · rw [hclaim.started, List.mem_singleton] at hk
      have hdrop := hserves.queue
      rw [hclaim.queue] at hdrop
      have hbalance := hserves.balance
      rw [hclaim.idle, List.length_nil, Nat.add_zero] at hbalance
      have hget : (queuedRows s.db)[x.claimed.length]? = some first := by
        rw [← Nat.add_zero x.claimed.length, ← List.getElem?_drop, ← hdrop]
        rfl
      obtain ⟨hi, hfirst⟩ := List.getElem?_eq_some_iff.mp hget
      have hmem := (mem_queuedRows.mp (List.mem_of_getElem hfirst)).1
      obtain rfl : first = row := by
        have hfirst' : s.row first.id = some first := Table.get?_of_mem hmem
        rw [← hk, hrow] at hfirst'
        exact (Option.some.inj hfirst').symm
      rw [hbalance]
      exact queueAhead_eq hi hfirst
  constructor
  · intro x hx
    have hserves := serves hs hx
    have hget {row : Submission} (hrow : row ∈ (queuedRows s.db).take x.claimed.length) :
        s.row row.id = some row :=
      Table.get?_of_mem (mem_queuedRows.mp (List.mem_of_mem_take hrow)).1
    have hpairs : x.claimed.Pairwise fun k k' => ∃ row row', s.row k = some row ∧
        s.row k' = some row' ∧ row.before row' := by
      rw [hserves.claimed, List.pairwise_map]
      apply ((queuedRows_sorted s.db).sublist (List.take_sublist _ _)).imp_of_mem
      intro row row' hrow hrow' hlt
      exact ⟨row, row', hget hrow, hget hrow', Submission.before_iff.mpr hlt⟩
    refine ⟨hpairs.imp ?_, hpairs⟩
    rintro k _ ⟨row, row', hrow, hrow', hlt⟩ rfl
    obtain rfl := Option.some.inj (hrow.symm.trans hrow')
    exact lt_irrefl _ (Submission.before_iff.mp hlt)
  · intro x y action k row hx hg h hk hrow _
    exact hposition hx hg h hk hrow
  · intro x y action tie username row hx hg h hrow hstatus hk
    obtain ⟨submission, hsubmission, rfl⟩ := List.mem_map.mp hrow
    have hmem := List.mem_of_mem_filter (mem_orderBy.mp (List.mem_of_mem_take hsubmission))
    apply showsAhead_of_queueAhead hstatus
    exact hposition hx hg h hk (Table.get?_of_mem hmem)

end

def serviceConfig : Config := ⟨"1brc", 0, 100, [], "env"⟩

/-- The first of two submissions is being benchmarked. -/
def twoSubmissions : List Action :=
  boot 0 ++ lead 0 ++ accept 0 "a" "alice" ⟨.ruby, .ruby, "main.rb", [], "e3b0", "e3b0"⟩ ++
    accept 0 "b" "bob" ⟨.ruby, .ruby, "main.rb", [], "e3b0", "e3b0"⟩ ++
    benchmark 0 ⟨⟨.accepted, some ["5"], some "5", none⟩, none, "env"⟩

theorem firstInFirstOut_twoSubmissions : ∃ s, s.runningIds = ["a"] ∧
    s.status "b" = some .queued ∧ FirstInFirstOut serviceConfig (StoresUnqueued 0) 0 s := by
  have hrun : ((contestSystem serviceConfig).run TransitionSystem.Free .initial
      twoSubmissions).any (fun s => s.runningIds = ["a"] && s.status "b" = some .queued &&
        RunningIsCurrent s 0) = true := by
    decide
  obtain ⟨s, -, hcheck⟩ := TransitionSystem.exists_path_of_run hrun
  simp only [Bool.and_eq_true, decide_eq_true_eq] at hcheck
  exact ⟨s, hcheck.1.1, hcheck.1.2, firstInFirstOut_of_storesUnqueued serviceConfig 0 s hcheck.2⟩

/-- While the first result waits to be stored, a starting replica fails its submission and an
administrator retries it. -/
def requeued : List Action :=
  twoSubmissions ++ .start 1 :: [.selectRunning, .cancelMark, .cancelFinish,
    .markInterrupted].map (.recover 1) ++ [.admin (.retry "a")]

theorem not_firstInFirstOut : ¬ ∀ config r s,
    (contestSystem config).Reachable TransitionSystem.Free s → RunningIsCurrent s r →
    FirstInFirstOut config Atomic r s := by
  intro hlaw
  have hrun : ((contestSystem serviceConfig).run TransitionSystem.Free .initial requeued).any
      (fun s => RunningIsCurrent s 0 && (s.row "b").any (fun row => row.status = .queued &&
        queueAhead s.db row = some 1) && ((service serviceConfig 0 s).run Atomic ⟨s, [], 0⟩
          [.storeResult true, .cleanup true]).any fun x => x.left = 0 &&
            ((service serviceConfig 0 s).step x (.claimNext [] true)).any fun y =>
              "b" ∈ started x.system y.system) = true := by
    decide
  obtain ⟨s, hpath, hcheck⟩ := TransitionSystem.exists_path_of_run hrun
  rw [Bool.and_eq_true, Bool.and_eq_true, decide_eq_true_eq] at hcheck
  obtain ⟨⟨hcurrent, hrow⟩, hservice⟩ := hcheck
  obtain ⟨x, hx, hcheck⟩ := TransitionSystem.exists_path_of_run hservice
  simp only [Bool.and_eq_true, decide_eq_true_eq, Option.any_eq_true] at hrow hcheck
  obtain ⟨row, hrow, hstatus, hahead⟩ := hrow
  obtain ⟨hleft, y, hy, hstarted⟩ := hcheck
  have hatomic : Atomic x (.claimNext [] true) := ⟨rfl, rfl⟩
  have hposition := (hlaw serviceConfig 0 s hpath hcurrent).position hx hatomic hy hstarted hrow
    hstatus
  rw [hahead, hleft] at hposition
  contradiction

end OneBrc.Server
