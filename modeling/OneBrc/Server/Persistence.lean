import OneBrc.Server.Columns
import OneBrc.Server.Owners
import OneBrc.Server.Protocol

/-! Results that the runner gateway prints and `storeResult` can, or cannot, persist. -/
namespace OneBrc.Server
open Lib

/-- `retryUntilStopped` from one attempt on: the committed database, or `none` when the context was
cancelled. Without a value the loop goes on after `fuel` attempts. -/
def retryUntilStopped (cancelled : ℕ → Bool) (operation : ℕ → Except SqlError Database) :
    ℕ → ℕ → Option (Option Database)
  | 0, _ => none
  | fuel + 1, attempt =>
      if cancelled attempt then some none
      else match operation attempt with
        | .ok db => some (some db)
        -- `waitContext` is false only for a cancelled context, which the next check sees
        | .error _ => retryUntilStopped cancelled operation fuel (attempt + 1)

section Retry
variable {operation : ℕ → Except SqlError Database}

/-- The loop leaves at the first attempt that succeeds. -/
theorem retryUntilStopped_leaves {n : ℕ} {db : Database} (h : operation n = .ok db) :
    ∃ fuel outcome, retryUntilStopped (fun _ => false) operation fuel n = some outcome :=
  ⟨1, some db, by simp [retryUntilStopped, h]⟩

/-- Without a cancellation the loop never leaves when every attempt fails. -/
theorem retryUntilStopped_stays (h : ∀ n db, operation n ≠ .ok db) (fuel n : ℕ) :
    retryUntilStopped (fun _ => false) operation fuel n = none := by
  induction fuel generalizing n with
  | zero => rfl
  | succ fuel ih =>
    rw [retryUntilStopped, if_neg Bool.false_ne_true]
    cases hop : operation n with
    | ok db => exact absurd hop (h n db)
    | error e => exact ih (n + 1)

end Retry

/-- What a worker holds in every run: a job whose row exists, and a result that was checked. -/
structure HoldsStorable (config : Config) (s : System) : Prop where
  row : ∀ r pc job, s.workerPc r = some pc → pc.job? = some job →
    ∃ row, s.row job.id = some row ∧ row.status ≠ .uploading
  checked : ∀ r job result, s.workerPc r = some (.storing job result) →
    validateRunnerResult config.benchmarkEnvironmentID result = true

section Worker
variable {config : Config} {s s' : System} {a : Action}

/-- A row that is not being uploaded stays. -/
theorem row_kept {k : String} (h : step config s a = some s')
    (hrow : ∃ row, s.row k = some row ∧ row.status ≠ .uploading) :
    ∃ row, s'.row k = some row ∧ row.status ≠ .uploading := by
  obtain ⟨row, hrow, hstatus⟩ := hrow
  have hstep := row_step h k
  rw [hrow] at hstep
  generalize hnew : s'.row k = new at hstep
  cases new with
  | some row' => exact ⟨row', rfl, hstep.not_uploading hstatus⟩
  | none =>
    cases hstep with
    | discard _ _ huploading => exact absurd huploading hstatus
    | deleteUploading _ _ _ _ huploading => exact absurd huploading hstatus

theorem WorkerEffect.checked {rep : Replica} {action : WorkerAction} {pc : WorkerPc}
    {job : BenchmarkJob} {result : RunnerJobResult} (h : WorkerEffect config s rep action pc s')
    (hpc' : s'.workerPc rep.id = some (.storing job result)) :
    pc = .storing job result ∨
      validateRunnerResult config.benchmarkEnvironmentID result = true := by
  have hhead : rep.loopHead ≠ .storing job result := by
    intro hhead
    have hjob := rep.loopHead_job?
    rw [hhead] at hjob
    contradiction
  cases h with
  | acquireLock | validateEnvironment | refuse | begin | runFailed | abandonMark | abandonStore
  | leave => exact WorkerPc.noConfusion (System.eq_of_setWorker hpc')
  | idle | cleanup => exact absurd (System.eq_of_setWorker hpc') hhead
  | runReturned job' result' hvalid =>
    obtain ⟨rfl, rfl⟩ := WorkerPc.storing.inj (System.eq_of_setWorker hpc')
    exact .inr hvalid
  | claim _ acknowledged =>
    cases acknowledged with
    | false => exact absurd (System.eq_of_setWorker hpc') hhead
    | true => exact WorkerPc.noConfusion (System.eq_of_setWorker hpc')
  | markFailure acknowledged =>
    cases acknowledged with
    | false => exact WorkerPc.noConfusion (System.eq_of_setWorker hpc')
    | true => exact absurd (System.eq_of_setWorker hpc') hhead
  | storeResult acknowledged =>
    cases acknowledged with
    | false => exact .inl (System.eq_of_setWorker hpc')
    | true => exact WorkerPc.noConfusion (System.eq_of_setWorker hpc')

theorem holdsStorable_step (hs : HoldsStorable config s) (h : step config s a = some s') :
    HoldsStorable config s' where
  row := by
    intro r pc' job hpc' hjob'
    rcases job_source h hpc' hjob' with ⟨pc, hpc, hjob⟩ | ⟨row, _, _, rfl, hstarted⟩
    · exact row_kept h (hs.row r pc job hpc hjob)
    · exact ⟨row.start s.now, hstarted, nofun⟩
  checked := by
    intro r job result hpc'
    rcases workerPc_source h hpc' with ⟨_, hpc⟩ | hwaiting | ⟨rep, _, pc, rfl, _, _, hpc, heffect⟩
    · exact hs.checked r job result hpc
    · cases hwaiting
    · rcases heffect.checked hpc' with rfl | hvalid
      · exact hs.checked rep.id job result hpc
      · exact hvalid

theorem holdsStorable (h : (contestSystem config).Reachable TransitionSystem.Free s) :
    HoldsStorable config s := by
  apply h.invariant_of_reachable
  · constructor
    · intro r pc job hpc
      contradiction
    · intro r job result hpc
      contradiction
  · intro s a s' _ hs _ h
    exact holdsStorable_step hs h

/-- In every run, a worker that is to store a result can do so exactly when the values fit. -/
theorem storing_enabled_iff (h : (contestSystem config).Reachable TransitionSystem.Free s) {r : ℕ}
    {job : BenchmarkJob} {result : RunnerJobResult} (acknowledged : Bool)
    (hpc : s.workerPc r = some (.storing job result)) :
    (∃ s', step config s (.worker r (.storeResult acknowledged)) = some s') ↔
      FitsColumns result := by
  have hs := holdsStorable h
  obtain ⟨row, hrow, _⟩ := hs.row r _ job hpc rfl
  have hrow' : s.db.submissions.get? job.id ≠ none := by
    rw [← System.row, hrow]
    exact Option.some_ne_none row
  rw [← storeResult_iff config s.now (hs.checked r job result hpc) hrow']
  obtain ⟨⟨i, phase, cancelled⟩, hrep, rfl⟩ := System.workerPc_eq_some.mp hpc
  simp only [step, hrep, workerStep]
  cases storeResult config s.now job result.publicResult result.privateResult s.db with
  | error e => simp
  | ok db => simp

/-- A worker that cannot store its result does nothing else until its context ends. -/
theorem storing_blocked (h : (contestSystem config).Reachable TransitionSystem.Free s) {r : ℕ}
    {job : BenchmarkJob} {result : RunnerJobResult}
    (hpc : s.workerPc r = some (.storing job result)) (hfits : ¬ FitsColumns result)
    (hcancelled : s.cancelled r = false) (action : WorkerAction) :
    step config s (.worker r action) = none := by
  have hstore (acknowledged : Bool) :
      step config s (.worker r (.storeResult acknowledged)) = none := by
    rw [Option.eq_none_iff_forall_not_mem]
    exact fun s' hs' => hfits ((storing_enabled_iff h acknowledged hpc).mp ⟨s', hs'⟩)
  obtain ⟨⟨i, phase, cancelled⟩, hrep, rfl⟩ := System.workerPc_eq_some.mp hpc
  rw [System.cancelled, hrep] at hcancelled
  cases action with
  | storeResult acknowledged => exact hstore acknowledged
  | giveUp =>
    have hcancelled' : cancelled = false := hcancelled
    simp [step, hrep, workerStep, hcancelled']
  | runReturns result => cases result <;> simp [step, hrep, workerStep]
  | acquireLock | validateEnvironment | claimNext | begin | markFailure | cleanup | leave =>
    simp [step, hrep, workerStep]

end Worker

/-- For every result that `runnerClient.run` returns: every attempt to store it succeeds, and the
retry loop leaves, exactly when the values fit their columns. -/
theorem persists_iff (config : Config) (job : BenchmarkJob) (now : ℕ → Timestamp)
    (dbs : ℕ → Database) {output : RawMessage} {result : RunnerJobResult}
    (hrun : runnerClientRun config.benchmarkEnvironmentID output = some result)
    (hrow : ∀ n, (dbs n).submissions.get? job.id ≠ none) :
    (∀ n, (∃ db', storeResult config (now n) job result.publicResult result.privateResult (dbs n) =
        .ok db') ↔ FitsColumns result) ∧
      ((∃ fuel outcome, retryUntilStopped (fun _ => false) (fun n => storeResult config (now n) job
          result.publicResult result.privateResult (dbs n)) fuel 0 = some outcome) ↔
        FitsColumns result) := by
  have hstore (n : ℕ) := storeResult_iff config (now n) (runnerClientRun_valid hrun) (hrow n)
  refine ⟨hstore, ?_⟩
  constructor
  · rintro ⟨fuel, outcome, hleaves⟩
    by_contra hfits
    have hfails : ∀ n db, storeResult config (now n) job result.publicResult result.privateResult
        (dbs n) ≠ .ok db := fun n db hok => hfits ((hstore n).mp ⟨db, hok⟩)
    rw [retryUntilStopped_stays hfails] at hleaves
    contradiction
  · intro hfits
    obtain ⟨db, hdb⟩ := (hstore 0).mpr hfits
    exact retryUntilStopped_leaves hdb

theorem persists_slow : ∃ fuel outcome, retryUntilStopped (fun _ => false)
    (fun _ => storeResult ⟨"1brc", 0, 1, [], "env"⟩ 0 ⟨"a", "alice", some .ruby, some .ruby⟩
      ⟨.accepted, some ["70000000000"], some "70000000000", none⟩
      (some ⟨.timeLimit, none, none, none⟩) { Database.initial with
        submissions := Table.empty.put ⟨"a", "alice", some .ruby, some .ruby, some "main.rb", none,
          .running, none, none, none, none, none, none, none, 0, none, none, none⟩ }) fuel 0 =
      some outcome := by
  have hrun : runnerClientRun "env" (.object [(Runner.units "public",
      .object [(Runner.units "verdict", .string (Runner.units "accepted")),
        (Runner.units "durationsNs", .array [.string (Runner.units "70000000000")]),
        (Runner.units "medianNs", .string (Runner.units "70000000000")),
        (Runner.units "error", .null)]), (Runner.units "private",
      .object [(Runner.units "verdict", .string (Runner.units "time_limit")),
        (Runner.units "durationsNs", .null), (Runner.units "medianNs", .null),
        (Runner.units "error", .null)]), (Runner.units "environmentId",
      .string (Runner.units "env"))]) =
        some ⟨⟨.accepted, some ["70000000000"], some "70000000000", none⟩,
          some ⟨.timeLimit, none, none, none⟩, "env"⟩ := by
    decide
  refine (persists_iff ⟨"1brc", 0, 1, [], "env"⟩ ⟨"a", "alice", some .ruby, some .ruby⟩
    (fun _ => 0) (fun _ => _) hrun fun _ => by decide).2.mpr ⟨?_, ?_, ?_⟩
  · intro text htext
    revert text
    decide
  · rintro _ ⟨⟩ text htext
    revert text
    decide
  · rintro _ ⟨⟩

section LongKey
open Runner (File Attempt DatasetRun)

/-- An output file with one line. -/
def lineFile (key : List Char) : File :=
  .regular (Utf8.encodeAscii (key ++ '=' :: "1/1.00/1/1/1".toList ++ ['\n']))

/-- Every attempt takes a second and writes one line; another line is expected. -/
def keyRun (key : List Char) : DatasetRun :=
  ⟨true, lineFile ['b'],
    fun _ => ⟨false, some (.accepted ⟨"1000000000", by decide⟩), lineFile key, true⟩⟩

variable {key : List Char}

theorem toNat_of_isLower {c : Char} (h : c.isLower = true) : 97 ≤ c.toNat ∧ c.toNat ≤ 122 := by
  change (decide (97 ≤ c.val) && decide (c.val ≤ 122)) = true at h
  rw [Bool.and_eq_true, decide_eq_true_eq, decide_eq_true_eq] at h
  exact ⟨UInt32.le_iff_toNat_le.mp h.1, UInt32.le_iff_toNat_le.mp h.2⟩

theorem loadRecords_lineFile (hne : key ≠ []) (hletters : ∀ c ∈ key, c.isLower = true) :
    Runner.loadRecords (lineFile key) = .ok (Table.empty.put ⟨key, "1/1.00/1/1/1".toList⟩) := by
  have hkey : '=' ∉ key := fun h => Bool.false_ne_true (hletters _ h)
  have hvalue : ('=' :: "1/1.00/1/1/1".toList).all
      (fun c => decide (c.toNat < 0x80 ∧ c ≠ '\n' ∧ c ≠ '\r')) = true := by
    decide
  apply Runner.loadRecords_line hne hkey (by decide)
  intro c hc
  rcases List.mem_append.mp hc with hc | hc
  · obtain ⟨hlow, hhigh⟩ := toNat_of_isLower (hletters c hc)
    refine ⟨by omega, ?_, ?_⟩
    · rintro rfl
      exact absurd hlow (by decide)
    · rintro rfl
      exact absurd hlow (by decide)
  · exact of_decide_eq_true (List.all_eq_true.mp hvalue c hc)

theorem compareOutput_lineFile (hne : key ≠ []) (hletters : ∀ c ∈ key, c.isLower = true)
    (hb : key ≠ ['b']) : Runner.compareOutput (lineFile key) (lineFile ['b']) =
      .error ⟨.extra, "unexpected key: ".toList ++ key⟩ := by
  have hexpected := loadRecords_lineFile (show ['b'] ≠ [] by decide)
    (List.forall_mem_singleton.mpr rfl)
  have hget : ((Table.empty : Runner.Records).put ⟨['b'], "1/1.00/1/1/1".toList⟩).get? key =
      none := by
    rw [Table.get?_put, if_neg (Ne.symm hb)]
    rfl
  have hrows : ((Table.empty : Runner.Records).put ⟨key, "1/1.00/1/1/1".toList⟩).rows =
      [⟨key, "1/1.00/1/1/1".toList⟩] := rfl
  rw [Runner.compareOutput, hexpected, loadRecords_lineFile hne hletters]
  exact Runner.compareRecords_extra hrows hget

theorem benchmark_keyRun (hne : key ≠ []) (hletters : ∀ c ∈ key, c.isLower = true)
    (hb : key ≠ ['b']) (hlength : key.length ≤ 1000000) :
    Runner.benchmark (keyRun key) = some (.failed .wrongAnswer (by decide)
      (some (Utf16.encode ("unexpected key: ".toList ++ key)))) := by
  have hsize : (lineFile key).stat = .ok (key.length + 14) := by
    simp [lineFile, File.stat, Utf8.encodeAscii]
  have hattempt : Runner.runAttempt ((keyRun key).attempts 1) =
      some (.accepted ⟨"1000000000", by decide⟩) := by
    have hlimit : ¬ benchmarkPolicy.outputLimitBytes < key.length + 14 := by
      rw [benchmarkPolicy.outputLimitBytes]
      omega
    simp only [Runner.runAttempt, keyRun, hsize, if_neg hlimit]
  have hcompare : Runner.compareOutput ((keyRun key).attempts 1).output (keyRun key).expected =
      .error ⟨.extra, "unexpected key: ".toList ++ key⟩ := compareOutput_lineFile hne hletters hb
  have hcached : (keyRun key).cached = true := rfl
  have hcancelled : ((keyRun key).attempts 1).cancelled = false := rfl
  have hremoved : ((keyRun key).attempts 1).workRemoved = true := rfl
  simp only [Runner.benchmark, hcached, if_true, benchmarkPolicy.repetitions, Runner.benchmarkFrom,
    hcancelled, hattempt, hremoved, hcompare, Bool.false_eq_true, if_false]

theorem not_fits_keyRun (hlength : 65535 < key.length) {privateResult : Option BenchmarkResult}
    {environmentID : String} :
    ¬ FitsColumns ⟨decodedBenchmarkResult (.failed .wrongAnswer (by decide)
      (some (Utf16.encode ("unexpected key: ".toList ++ key)))), privateResult, environmentID⟩ := by
  intro hfits
  have herror := hfits.publicError _ rfl
  have hbytes := Utf8.length_le_utf8ByteSize ("unexpected key: ".toList ++ key)
  rw [goString, Utf16.decode_encode] at herror
  rw [List.length_append] at hbytes
  omega

end LongKey

/-- A line whose key has 65536 letters is a wrong answer that cannot be stored. -/
theorem not_persists : ¬ ∀ (config : Config) (publicRun privateRun : Runner.DatasetRun)
    (printed : Runner.RunnerJobResult) (job : BenchmarkJob) (now : ℕ → Timestamp)
    (dbs : ℕ → Database), config.benchmarkEnvironmentID ≠ "" →
    Runner.run config.benchmarkEnvironmentID publicRun privateRun = some printed →
    (∀ n, (dbs n).submissions.get? job.id ≠ none) →
    ∀ result, runnerClientRun config.benchmarkEnvironmentID printed.json = some result →
      ∃ fuel outcome, retryUntilStopped (fun _ => false) (fun n => storeResult config (now n) job
        result.publicResult result.privateResult (dbs n)) fuel 0 = some outcome := by
  intro h
  obtain ⟨key, hlength, hletters⟩ : ∃ key : List Char, key.length = 65536 ∧
      ∀ c ∈ key, c.isLower = true := by
    refine ⟨List.replicate 65536 'a', List.length_replicate, fun c hc => ?_⟩
    rw [List.eq_of_mem_replicate hc]
    decide
  have hne : key ≠ [] := List.ne_nil_of_length_pos (by omega)
  have hb : key ≠ ['b'] := by
    rintro rfl
    exact absurd hlength (by decide)
  let config : Config := ⟨"1brc", 0, 1, [], "env"⟩
  let row : Submission := ⟨"a", "alice", some .ruby, some .ruby, some "main.rb", none, .running,
    none, none, none, none, none, none, none, 0, none, none, none⟩
  let db : Database := { Database.initial with submissions := Table.empty.put row }
  have hbenchmark := benchmark_keyRun hne hletters hb (by omega)
  have hprinted : Runner.run config.benchmarkEnvironmentID (keyRun key) (keyRun key) =
      some ⟨.failed .wrongAnswer (by decide)
        (some (Utf16.encode ("unexpected key: ".toList ++ key))), none, "env"⟩ := by
    rw [Runner.run, hbenchmark]
  have henv : config.benchmarkEnvironmentID ≠ "" := by decide
  have hresult := runnerClientRun_json henv hprinted
  have hrow : db.submissions.get? row.job.id ≠ none := by decide
  obtain ⟨fuel, outcome, hleaves⟩ := h config (keyRun key) (keyRun key) _ row.job (fun _ => 0)
    (fun _ => db) henv hprinted (fun _ => hrow) _ hresult
  have hfits := (storeResult_iff config 0 (runnerClientRun_valid hresult) hrow).mp.mt
    (not_fits_keyRun (by omega))
  rw [retryUntilStopped_stays fun _ db' hok => hfits ⟨db', hok⟩] at hleaves
  contradiction

end OneBrc.Server
