import OneBrc.Server.Migrations

/-! Migrations survive faults: the lock holder's statements stay within one file, and a file that
was begun and is then executed again has its effect once. -/
namespace OneBrc.Server.Migrations
open Lib GoText

variable {D : Type}

/-- To execute any first statements of a file and then the file is to execute the file. -/
def Repeatable (sql : List Rune → Sql D) (entry : Entry) : Prop :=
  ∀ front, front <+: entry.statements → ∀ tables,
    execute sql entry.statements (execute sql front tables) = execute sql entry.statements tables

/-- The disk after all files. -/
def migrated (sql : List Rune → Sql D) (entries : List Entry) (tables : D) : Disk D :=
  ⟨executeFiles sql (files entries) tables, some ((files entries).map Entry.name)⟩

/-- A run that returns without an error leaves every file applied and recorded once, in the order
of the names; no recorded file is executed; and from every state in which the lock is free a run
that is not disturbed gets there. -/
structure Survives (sql : List Rune → Sql D) (entries : List Entry) (tables : D) : Prop where
  ordered : (files entries).Pairwise fun a b => a.name < b.name
  complete : ∀ {s r}, (system sql entries tables).Reachable TransitionSystem.Free s →
    (s.calls r).pc = .returned → s.disk = migrated sql entries tables
  once : ∀ {s r entry statements rest},
    (system sql entries tables).Reachable TransitionSystem.Free s → (s.calls r).session = true →
    (s.calls r).pc = .exec entry statements rest → entry.name ∉ s.disk.records.getD []
  recovers : ∀ {s r}, (system sql entries tables).Reachable TransitionSystem.Free s →
    s.lock = none → (s.calls r).pc = .idle → ∃ s', (system sql entries tables).Path
      (fun _ action => action = .start r ∨ action = .next r) s s' ∧
        (s'.calls r).pc = .returned ∧ s'.disk = migrated sql entries tables

section Files
variable {sql : List Rune → Sql D} {entries rest : List Entry} {entry : Entry}

theorem files_sorted (hnames : (entries.map Entry.name).Nodup) :
    (files entries).Pairwise fun a b => a.name < b.name := by
  have hle : (entries.mergeSort fun a b => a.name ≤ b.name).Pairwise fun a b =>
      a.name ≤ b.name := by
    have hsorted : (entries.mergeSort fun a b => a.name ≤ b.name).Pairwise fun a b =>
        decide (a.name ≤ b.name) = true := by
      apply List.pairwise_mergeSort
      · intro a b c hab hbc
        exact decide_eq_true (le_trans (of_decide_eq_true hab) (of_decide_eq_true hbc))
      · intro a b
        simpa using le_total a.name b.name
    exact hsorted.imp fun h => of_decide_eq_true h
  have hne : (entries.mergeSort fun a b => a.name ≤ b.name).Pairwise fun a b =>
      a.name ≠ b.name := by
    have hsorted := ((List.mergeSort_perm entries fun a b => a.name ≤ b.name).map
      Entry.name).nodup_iff.mpr hnames
    exact List.pairwise_map.mp hsorted
  exact ((hle.and hne).imp fun h => lt_of_le_of_ne h.1 h.2).filter _

theorem execute_append {front statements : List (List Rune)} {tables : D} :
    execute sql (front ++ statements) tables = execute sql statements (execute sql front tables) :=
  List.foldl_append

theorem executeFiles_cons {tables : D} : executeFiles sql (entry :: rest) tables =
    executeFiles sql rest (execute sql entry.statements tables) := rfl

theorem executeFiles_again (h : Repeatable sql entry) {front : List (List Rune)}
    (hfront : front <+: entry.statements) {tables : D} :
    executeFiles sql (entry :: rest) (execute sql front tables) =
      executeFiles sql (entry :: rest) tables := by
  rw [executeFiles_cons, executeFiles_cons, h front hfront]

end Files

/-- The first `k` files are recorded, and the other files would complete the disk. -/
structure Ready (sql : List Rune → Sql D) (entries : List Entry) (final : D) (k : ℕ)
    (disk : Disk D) : Prop where
  le : k ≤ entries.length
  names : disk.records.getD [] = (entries.take k).map Entry.name
  completes : executeFiles sql (entries.drop k) disk.tables = final

theorem Ready.exists_names {sql : List Rune → Sql D} {entries : List Entry} {final : D} {k : ℕ}
    {disk : Disk D} (h : Ready sql entries final k disk) (htable : disk.records.isSome) :
    ∃ names, disk.records = some names ∧ names = (entries.take k).map Entry.name := by
  obtain ⟨names, hrecords⟩ := Option.isSome_iff_exists.mp htable
  have hnames := h.names
  rw [hrecords, Option.getD_some] at hnames
  exact ⟨names, hrecords, hnames⟩

/-- The states of the call that holds the lock. -/
inductive Phase (sql : List Rune → Sql D) (entries : List Entry) (final : D) (k : ℕ)
    (disk : Disk D) : Call D → Prop
  | createTable : Phase sql entries final k disk ⟨.createTable, true, none⟩
  | count (j : ℕ) (hj : j ≤ k) (htable : disk.records.isSome) :
      Phase sql entries final k disk ⟨.count (entries.drop j), true, none⟩
  | execOpen {entry : Entry} {done statements : List (List Rune)} {rest : List Entry}
      {tx : Disk D → Disk D} (hentry : entries.drop k = entry :: rest)
      (hdone : entry.statements = done ++ statements) (htable : disk.records.isSome)
      (htx : tx disk = ⟨execute sql done disk.tables, disk.records⟩) :
      Phase sql entries final k disk ⟨.exec entry statements rest, true, some tx⟩
  | exec {entry : Entry} {done statements : List (List Rune)} {rest : List Entry} {start : D}
      (hentry : entries.drop k = entry :: rest) (hdone : entry.statements = done ++ statements)
      (htable : disk.records.isSome) (hstart : executeFiles sql (entry :: rest) start = final)
      (htables : disk.tables = execute sql done start) :
      Phase sql entries final k disk ⟨.exec entry statements rest, true, none⟩
  | commitOpen {tx : Disk D → Disk D} (hready : Ready sql entries final (k + 1) (tx disk))
      (htable : (tx disk).records.isSome) :
      Phase sql entries final k disk ⟨.commit (entries.drop (k + 1)), true, some tx⟩
  | commit (htable : disk.records.isSome) :
      Phase sql entries final k disk ⟨.commit (entries.drop k), true, none⟩

/-- What holds in every state. -/
structure Inv (sql : List Rune → Sql D) (entries : List Entry) (final : D) (k : ℕ) (s : State D) :
    Prop where
  ready : Ready sql entries final k s.disk
  returned : ∀ r, (s.calls r).pc = .returned → k = entries.length ∧ s.disk.records.isSome
  holder : ∀ r, (s.calls r).session = true → (s.calls r).pc ≠ .getLock →
    s.lock = some r ∧ Phase sql entries final k s.disk (s.calls r)

section Steps
variable {sql : List Rune → Sql D} {entries : List Entry} {final : D} {k : ℕ} {s s' : State D}
  {r r' : ℕ} {pc : Pc} {call : Call D}

theorem calls_set_self : (s.set r call).calls r = call := Function.update_self ..

theorem calls_set_of_ne (h : r' ≠ r) : (s.set r call).calls r' = s.calls r' :=
  Function.update_of_ne h ..

/-- The end of a session leaves the disk as it is. -/
theorem Inv.close (h : Inv sql entries final k s)
    (hpc : pc = .returned → k = entries.length ∧ s.disk.records.isSome) :
    Inv sql entries final k (s.close r pc) := by
  refine ⟨h.ready, fun r' hreturned => ?_, fun r' hsession hlock => ?_⟩
  · rcases eq_or_ne r' r with rfl | hne
    · rw [State.close, calls_set_self] at hreturned
      exact hpc hreturned
    · rw [State.close, calls_set_of_ne hne] at hreturned
      exact h.returned r' hreturned
  · rcases eq_or_ne r' r with rfl | hne
    · rw [State.close, calls_set_self] at hsession
      contradiction
    · rw [State.close, calls_set_of_ne hne] at hsession hlock
      obtain ⟨hheld, hphase⟩ := h.holder r' hsession hlock
      rw [State.close, calls_set_of_ne hne]
      have hother : s.lock ≠ some r := fun h => hne (Option.some.inj (hheld.symm.trans h))
      exact ⟨by rw [if_neg hother, hheld], hphase⟩

/-- A step of the lock holder concerns no other call. -/
theorem Inv.hold (h : Inv sql entries final k s) (hlock : s.lock = none ∨ s.lock = some r) {k' : ℕ}
    (hk : k ≤ k') (hlock' : s'.lock = some r) (hcalls : s'.calls = Function.update s.calls r call)
    (hpc : call.pc ≠ .returned) (htable : s.disk.records.isSome → s'.disk.records.isSome)
    (hready : Ready sql entries final k' s'.disk)
    (hphase : Phase sql entries final k' s'.disk call) :
    Inv sql entries final k' s' := by
  have hother {r' : ℕ} (hne : r' ≠ r) : s'.calls r' = s.calls r' := by
    rw [hcalls, Function.update_of_ne hne]
  have hself : s'.calls r = call := by rw [hcalls, Function.update_self]
  refine ⟨hready, fun r' hreturned => ?_, fun r' hsession hget => ?_⟩
  · rcases eq_or_ne r' r with rfl | hne
    · rw [hself] at hreturned
      exact absurd hreturned hpc
    · rw [hother hne] at hreturned
      obtain ⟨hall, hsome⟩ := h.returned r' hreturned
      exact ⟨by have := hready.le; omega, htable hsome⟩
  · rcases eq_or_ne r' r with rfl | hne
    · exact ⟨hlock', hself ▸ hphase⟩
    · rw [hother hne] at hsession hget
      have hheld := (h.holder r' hsession hget).1
      rcases hlock with hfree | hlock
      · rw [hfree] at hheld
        contradiction
      · exact absurd (Option.some.inj (hheld.symm.trans hlock)) hne

/-- What is left to do. -/
def cost (entries : List Entry) (call : Call D) : ℕ :=
  let open' := if call.tx.isSome then 1 else 0
  let rest (entries : List Entry) := (entries.map fun entry => 2 * entry.statements.length + 5).sum
  match call.pc with
  | .getLock => rest entries + 3
  | .createTable => rest entries + 2
  | .count entries => rest entries + 1
  | .exec _ statements entries => rest entries + 2 * statements.length + 4 + open'
  | .commit entries => rest entries + 2
  | _ => 0

/-- The step of a call that is not disturbed. -/
structure Progress (sql : List Rune → Sql D) (entries : List Entry) (final : D) (s : State D)
    (r : ℕ) (s' : State D) : Prop where
  inv : ∃ k, Inv sql entries final k s'
  done : (s'.calls r).pc = .returned ∨ (s'.calls r).session = true ∧
    (s'.calls r).pc ≠ .getLock ∧ cost entries (s'.calls r) < cost entries (s.calls r)

theorem Progress.of_hold (h : Inv sql entries final k s) (hlock : s.lock = none ∨ s.lock = some r)
    {k' : ℕ} (hk : k ≤ k') (hlock' : s'.lock = some r)
    (hcalls : s'.calls = Function.update s.calls r call)
    (htable : s.disk.records.isSome → s'.disk.records.isSome)
    (hready : Ready sql entries final k' s'.disk) (hphase : Phase sql entries final k' s'.disk call)
    (hcost : cost entries call < cost entries (s.calls r)) :
    Progress sql entries final s r s' := by
  have hself : s'.calls r = call := by rw [hcalls, Function.update_self]
  have hpc : call.session = true ∧ call.pc ≠ .returned ∧ call.pc ≠ .getLock := by
    cases hphase <;> exact ⟨rfl, nofun, nofun⟩
  refine ⟨⟨k', h.hold hlock hk hlock' hcalls hpc.2.1 htable hready hphase⟩, .inr ?_⟩
  rw [hself]
  exact ⟨hpc.1, hpc.2.2, hcost⟩

theorem rest_eq_drop {entry : Entry} {rest : List Entry} (hentry : entries.drop k = entry :: rest) :
    rest = entries.drop (k + 1) := by
  rw [← List.drop_drop (i := 1) (j := k), hentry]
  rfl

theorem notMem_names {entry : Entry} {rest : List Entry}
    (hnames : (entries.map Entry.name).Nodup) (hentry : entries.drop k = entry :: rest) :
    entry.name ∉ (entries.take k).map Entry.name := by
  rw [← List.take_append_drop k entries, hentry, List.map_append] at hnames
  intro hmem
  exact (List.nodup_append.mp hnames).2.2 _ hmem _ List.mem_cons_self rfl

theorem mem_names {entry : Entry} {rest : List Entry} {j : ℕ} (hj : j < k)
    (hentry : entries.drop j = entry :: rest) : entry.name ∈ (entries.take k).map Entry.name := by
  refine List.mem_map_of_mem ?_
  have hget : entries[j]? = some entry := by
    rw [← List.head?_drop, hentry]
    rfl
  obtain ⟨hlt, hget⟩ := List.getElem?_eq_some_iff.mp hget
  exact List.mem_take_iff_getElem.mpr ⟨j, by omega, hget⟩

theorem Ready.succ {entry : Entry} {rest : List Entry} {disk : Disk D}
    (hentry : entries.drop k = entry :: rest) (hk : k < entries.length)
    (hnames : disk.records.getD [] = (entries.take k).map Entry.name ++ [entry.name])
    (hcompletes : executeFiles sql rest disk.tables = final) :
    Ready sql entries final (k + 1) disk := by
  have hget : entries[k] = entry := by
    rw [List.drop_eq_getElem_cons hk] at hentry
    exact (List.cons.inj hentry).1
  refine ⟨hk, ?_, ?_⟩
  · rw [hnames, List.take_succ_eq_append_getElem hk, List.map_append, hget]
    rfl
  · rw [← rest_eq_drop hentry]
    exact hcompletes

end Steps

section Holder
variable {sql : List Rune → Sql D} {entries : List Entry} {final : D} {k : ℕ} {s : State D} {r : ℕ}

theorem next_createTable (h : Inv sql (files entries) final k s) (hlock : s.lock = some r)
    (hcall : s.calls r = ⟨.createTable, true, none⟩) :
    ∃ s', next sql entries s r = some s' ∧ Progress sql (files entries) final s r s' := by
  refine ⟨{ s.set r ⟨.count (files entries), true, none⟩ with
    disk := { s.disk with records := some (s.disk.records.getD []) } }, by rw [next, hcall], ?_⟩
  refine Progress.of_hold h (.inr hlock) le_rfl hlock rfl (fun _ => rfl)
    ⟨h.ready.le, h.ready.names, h.ready.completes⟩ (.count 0 (Nat.zero_le k) rfl) ?_
  rw [hcall]
  exact Nat.lt_succ_self _

theorem next_count (h : Inv sql (files entries) final k s) (hlock : s.lock = some r)
    (hnames : ((files entries).map Entry.name).Nodup) {j : ℕ} (hj : j ≤ k)
    (htable : s.disk.records.isSome)
    (hcall : s.calls r = ⟨.count ((files entries).drop j), true, none⟩) :
    ∃ s', next sql entries s r = some s' ∧ Progress sql (files entries) final s r s' := by
  cases hentry : (files entries).drop j with
  | nil =>
    have hlength : (files entries).length ≤ j := List.drop_eq_nil_iff.mp hentry
    have hk : k = (files entries).length := by
      have := h.ready.le
      omega
    refine ⟨s.close r .returned, by rw [next, hcall, hentry], ?_, .inl ?_⟩
    · exact ⟨k, h.close fun _ => ⟨hk, htable⟩⟩
    · rw [State.close, calls_set_self]
  | cons entry rest =>
    have hrest := rest_eq_drop hentry
    obtain ⟨names, hrecords, hready⟩ := h.ready.exists_names htable
    rcases Nat.lt_or_eq_of_le hj with hlt | rfl
    · -- the file is recorded
      have hcount : names.count entry.name ≠ 0 := by
        rw [hready]
        exact (List.count_pos_iff.mpr (mem_names hlt hentry)).ne'
      refine ⟨s.set r ⟨.count rest, true, none⟩, ?_, ?_⟩
      · rw [next, hcall, hentry]
        dsimp only
        rw [hrecords]
        exact if_pos hcount
      refine Progress.of_hold h (.inr hlock) le_rfl hlock rfl id h.ready
        (hrest ▸ .count (j + 1) hlt htable) ?_
      rw [hcall, hentry]
      simp only [cost, List.map_cons, List.sum_cons]
      omega
    · have hcount : ¬names.count entry.name ≠ 0 := by
        rw [hready, not_not, List.count_eq_zero]
        exact notMem_names hnames hentry
      refine ⟨s.set r ⟨.exec entry entry.statements rest, true, some id⟩, ?_, ?_⟩
      · rw [next, hcall, hentry]
        dsimp only
        rw [hrecords]
        exact if_neg hcount
      refine Progress.of_hold h (.inr hlock) le_rfl hlock rfl id h.ready
        (.execOpen hentry (List.nil_append _).symm htable rfl) ?_
      rw [hcall, hentry]
      simp only [cost, List.map_cons, List.sum_cons, Option.isSome_some, if_pos]
      omega

theorem lt_length_of_drop {entry : Entry} {rest : List Entry}
    (hentry : (files entries).drop k = entry :: rest) : k < (files entries).length := by
  by_contra hle
  rw [List.drop_eq_nil_of_le (Nat.le_of_not_lt hle)] at hentry
  contradiction

theorem execute_snoc {statement : List Rune} {done : List (List Rune)} {tables : D} :
    (sql statement).effect (execute sql done tables) = execute sql (done ++ [statement]) tables :=
  (execute_append : execute sql (done ++ [statement]) tables = _).symm

theorem next_exec_open (h : Inv sql (files entries) final k s) (hlock : s.lock = some r)
    {entry : Entry} {statement : List Rune} {done statements : List (List Rune)}
    {rest : List Entry} {tx : Disk D → Disk D} (hentry : (files entries).drop k = entry :: rest)
    (hdone : entry.statements = done ++ statement :: statements) (htable : s.disk.records.isSome)
    (htx : tx s.disk = ⟨execute sql done s.disk.tables, s.disk.records⟩)
    (hagain : Repeatable sql entry)
    (hcall : s.calls r = ⟨.exec entry (statement :: statements) rest, true, some tx⟩) :
    ∃ s', next sql entries s r = some s' ∧ Progress sql (files entries) final s r s' := by
  have hstart : executeFiles sql (entry :: rest) s.disk.tables = final := hentry ▸ h.ready.completes
  have hview : s.view r = ⟨execute sql done s.disk.tables, s.disk.records⟩ := by
    rw [State.view, hcall]
    exact htx
  cases hcommits : (sql statement).commits with
  | true =>
    refine ⟨s.commit r (.exec entry (statement :: statements) rest), ?_, ?_⟩
    · rw [next, hcall]
      dsimp only
      rw [hcommits]
      rfl
    have hdisk : (s.commit r (.exec entry (statement :: statements) rest)).disk =
        ⟨execute sql done s.disk.tables, s.disk.records⟩ := hview
    refine Progress.of_hold h (.inr hlock) le_rfl hlock rfl ?_ ?_ ?_ ?_
    · exact fun _ => hdisk ▸ htable
    · rw [hdisk]
      refine ⟨h.ready.le, h.ready.names, ?_⟩
      rw [hentry, executeFiles_again hagain ⟨_, hdone.symm⟩, hstart]
    · rw [hdisk]
      exact .exec hentry hdone htable hstart rfl
    · rw [hcall]
      simp only [cost, Option.isSome_some, Option.isSome_none, if_pos]
      simp
  | false =>
    have hchange : s.change r (.exec entry statements rest) (fun disk =>
        { disk with tables := (sql statement).effect disk.tables }) = s.set r
          ⟨.exec entry statements rest, true, some ((fun disk =>
            { disk with tables := (sql statement).effect disk.tables }) ∘ tx)⟩ := by
      rw [State.change, hcall]
    refine ⟨s.change r (.exec entry statements rest) fun disk =>
      { disk with tables := (sql statement).effect disk.tables }, ?_, ?_⟩
    · rw [next, hcall]
      dsimp only
      rw [hcommits]
      rfl
    rw [hchange]
    have hdone' : entry.statements = (done ++ [statement]) ++ statements := by
      rw [hdone, List.append_assoc]
      rfl
    have htx' : ((fun disk : Disk D =>
        { disk with tables := (sql statement).effect disk.tables }) ∘ tx) s.disk =
          ⟨execute sql (done ++ [statement]) s.disk.tables, s.disk.records⟩ := by
      rw [Function.comp_apply, htx, ← execute_snoc]
    refine Progress.of_hold h (.inr hlock) le_rfl hlock rfl id h.ready
      (.execOpen hentry hdone' htable htx') ?_
    · rw [hcall]
      simp only [cost, Option.isSome_some, if_pos, List.length_cons]
      omega

theorem next_exec (h : Inv sql (files entries) final k s) (hlock : s.lock = some r)
    {entry : Entry} {statement : List Rune} {done statements : List (List Rune)}
    {rest : List Entry} {start : D} (hentry : (files entries).drop k = entry :: rest)
    (hdone : entry.statements = done ++ statement :: statements) (htable : s.disk.records.isSome)
    (hstart : executeFiles sql (entry :: rest) start = final)
    (htables : s.disk.tables = execute sql done start) (hagain : Repeatable sql entry)
    (hcall : s.calls r = ⟨.exec entry (statement :: statements) rest, true, none⟩) :
    ∃ s', next sql entries s r = some s' ∧ Progress sql (files entries) final s r s' := by
  have hchange : s.change r (.exec entry statements rest) (fun disk =>
      { disk with tables := (sql statement).effect disk.tables }) =
        { s.set r ⟨.exec entry statements rest, true, none⟩ with
          disk := { s.disk with tables := (sql statement).effect s.disk.tables } } := by
    rw [State.change, hcall]
  have hdone' : entry.statements = (done ++ [statement]) ++ statements := by
    rw [hdone, List.append_assoc]
    rfl
  have htables' : (sql statement).effect s.disk.tables =
      execute sql (done ++ [statement]) start := by rw [htables, execute_snoc]
  refine ⟨s.change r (.exec entry statements rest) fun disk =>
    { disk with tables := (sql statement).effect disk.tables }, ?_, ?_⟩
  · rw [next, hcall]
    exact if_neg (by simp)
  rw [hchange]
  refine Progress.of_hold h (.inr hlock) le_rfl hlock rfl id ⟨h.ready.le, h.ready.names, ?_⟩
    (.exec hentry hdone' htable hstart htables') ?_
  · dsimp only
    rw [hentry, htables', executeFiles_again hagain ⟨_, hdone'.symm⟩, hstart]
  · rw [hcall]
    simp only [cost, Option.isSome_none, List.length_cons]
    omega

theorem next_record_open (h : Inv sql (files entries) final k s) (hlock : s.lock = some r)
    (hnames : ((files entries).map Entry.name).Nodup) {entry : Entry} {rest : List Entry}
    {tx : Disk D → Disk D} (hentry : (files entries).drop k = entry :: rest)
    (htable : s.disk.records.isSome)
    (htx : tx s.disk = ⟨execute sql entry.statements s.disk.tables, s.disk.records⟩)
    (hcall : s.calls r = ⟨.exec entry [] rest, true, some tx⟩) :
    ∃ s', next sql entries s r = some s' ∧ Progress sql (files entries) final s r s' := by
  have hrest := rest_eq_drop hentry
  obtain ⟨names, hrecords, hready⟩ := h.ready.exists_names htable
  have hview : (s.view r).records = some names := by
    rw [State.view, hcall, Option.getD_some, htx]
    exact hrecords
  have hfresh : entry.name ∉ names := hready ▸ notMem_names hnames hentry
  have hchange : s.change r (.commit rest) (fun disk =>
      { disk with records := disk.records.map (· ++ [entry.name]) }) = s.set r
        ⟨.commit rest, true, some ((fun disk =>
          { disk with records := disk.records.map (· ++ [entry.name]) }) ∘ tx)⟩ := by
    rw [State.change, hcall]
  have htx' : ((fun disk : Disk D =>
      { disk with records := disk.records.map (· ++ [entry.name]) }) ∘ tx) s.disk =
        ⟨execute sql entry.statements s.disk.tables, some (names ++ [entry.name])⟩ := by
    rw [Function.comp_apply, htx, hrecords]
    rfl
  refine ⟨s.change r (.commit rest) fun disk =>
    { disk with records := disk.records.map (· ++ [entry.name]) }, ?_, ?_⟩
  · rw [next, hcall]
    dsimp only
    rw [hview]
    exact if_neg hfresh
  rw [hchange]
  have hready' : Ready sql (files entries) final (k + 1)
      ⟨execute sql entry.statements s.disk.tables, some (names ++ [entry.name])⟩ := by
    refine Ready.succ hentry (lt_length_of_drop hentry) ?_ ?_
    · rw [Option.getD_some, hready]
    · rw [← executeFiles_cons, ← hentry]
      exact h.ready.completes
  refine Progress.of_hold h (.inr hlock) le_rfl hlock rfl id h.ready
    (hrest ▸ .commitOpen (htx'.symm ▸ hready') (htx'.symm ▸ rfl)) ?_
  rw [hcall]
  simp only [cost, Option.isSome_some, if_pos, List.length_nil]
  omega

theorem next_record (h : Inv sql (files entries) final k s) (hlock : s.lock = some r)
    (hnames : ((files entries).map Entry.name).Nodup) {entry : Entry} {rest : List Entry}
    {start : D} (hentry : (files entries).drop k = entry :: rest)
    (htable : s.disk.records.isSome) (hstart : executeFiles sql (entry :: rest) start = final)
    (htables : s.disk.tables = execute sql entry.statements start)
    (hcall : s.calls r = ⟨.exec entry [] rest, true, none⟩) :
    ∃ s', next sql entries s r = some s' ∧ Progress sql (files entries) final s r s' := by
  have hrest := rest_eq_drop hentry
  obtain ⟨names, hrecords, hready⟩ := h.ready.exists_names htable
  have hview : (s.view r).records = some names := by
    rw [State.view, hcall]
    exact hrecords
  have hfresh : entry.name ∉ names := hready ▸ notMem_names hnames hentry
  have hchange : s.change r (.commit rest) (fun disk =>
      { disk with records := disk.records.map (· ++ [entry.name]) }) =
        { s.set r ⟨.commit rest, true, none⟩ with
          disk := { s.disk with records := some (names ++ [entry.name]) } } := by
    rw [State.change, hcall]
    dsimp only
    rw [hrecords]
    rfl
  refine ⟨s.change r (.commit rest) fun disk =>
    { disk with records := disk.records.map (· ++ [entry.name]) }, ?_, ?_⟩
  · rw [next, hcall]
    dsimp only
    rw [hview]
    exact if_neg hfresh
  rw [hchange]
  refine Progress.of_hold h (.inr hlock) (Nat.le_succ k) hlock rfl (fun _ => rfl)
    (Ready.succ hentry (lt_length_of_drop hentry) ?_ ?_) (hrest ▸ .commit rfl) ?_
  · dsimp only
    rw [Option.getD_some, hready]
  · dsimp only
    rw [htables, ← executeFiles_cons, hstart]
  · rw [hcall]
    simp only [cost, Option.isSome_none, List.length_nil]
    omega

theorem next_commit_open (h : Inv sql (files entries) final k s) (hlock : s.lock = some r)
    {tx : Disk D → Disk D} (hready : Ready sql (files entries) final (k + 1) (tx s.disk))
    (htable : (tx s.disk).records.isSome)
    (hcall : s.calls r = ⟨.commit ((files entries).drop (k + 1)), true, some tx⟩) :
    ∃ s', next sql entries s r = some s' ∧ Progress sql (files entries) final s r s' := by
  have hdisk : (s.commit r (.count ((files entries).drop (k + 1)))).disk = tx s.disk := by
    rw [State.commit, State.view, hcall]
    rfl
  refine ⟨s.commit r (.count ((files entries).drop (k + 1))), by rw [next, hcall], ?_⟩
  refine Progress.of_hold h (.inr hlock) (Nat.le_succ k) hlock rfl ?_ ?_ ?_ ?_
  · exact fun _ => hdisk ▸ htable
  · exact hdisk ▸ hready
  · exact .count (k + 1) le_rfl (hdisk ▸ htable)
  · rw [hcall]
    simp only [cost]
    omega

theorem next_commit (h : Inv sql (files entries) final k s) (hlock : s.lock = some r)
    (htable : s.disk.records.isSome)
    (hcall : s.calls r = ⟨.commit ((files entries).drop k), true, none⟩) :
    ∃ s', next sql entries s r = some s' ∧ Progress sql (files entries) final s r s' := by
  have hdisk : (s.commit r (.count ((files entries).drop k))).disk = s.disk := by
    rw [State.commit, State.view, hcall]
    rfl
  refine ⟨s.commit r (.count ((files entries).drop k)), by rw [next, hcall], ?_⟩
  refine Progress.of_hold h (.inr hlock) le_rfl hlock rfl ?_ ?_ ?_ ?_
  · exact fun h => hdisk ▸ h
  · exact hdisk ▸ h.ready
  · exact .count k le_rfl (hdisk ▸ htable)
  · rw [hcall]
    simp only [cost]
    omega

/-- The lock holder's next call succeeds. -/
theorem next_holder (h : Inv sql (files entries) final k s)
    (hnames : ((files entries).map Entry.name).Nodup)
    (hagain : ∀ entry ∈ files entries, Repeatable sql entry) (hsession : (s.calls r).session = true)
    (hget : (s.calls r).pc ≠ .getLock) :
    ∃ s', next sql entries s r = some s' ∧ Progress sql (files entries) final s r s' := by
  obtain ⟨hlock, hphase⟩ := h.holder r hsession hget
  have hrepeat {entry : Entry} {rest : List Entry}
      (hentry : (files entries).drop k = entry :: rest) : Repeatable sql entry := by
    refine hagain entry (List.mem_of_mem_drop (i := k) ?_)
    rw [hentry]
    exact List.mem_cons_self
  generalize hcall : s.calls r = call at hphase
  cases hphase with
  | createTable => exact next_createTable h hlock hcall
  | count j hj htable => exact next_count h hlock hnames hj htable hcall
  | @execOpen entry done statements rest tx hentry hdone htable htx =>
    cases statements with
    | nil =>
      rw [List.append_nil] at hdone
      exact next_record_open h hlock hnames hentry htable (hdone ▸ htx) hcall
    | cons => exact next_exec_open h hlock hentry hdone htable htx (hrepeat hentry) hcall
  | @exec entry done statements rest start hentry hdone htable hstart htables =>
    cases statements with
    | nil =>
      rw [List.append_nil] at hdone
      exact next_record h hlock hnames hentry htable hstart (hdone ▸ htables) hcall
    | cons => exact next_exec h hlock hentry hdone htable hstart htables (hrepeat hentry) hcall
  | commitOpen hready htable => exact next_commit_open h hlock hready htable hcall
  | commit htable => exact next_commit h hlock htable hcall

end Holder

section Runs
variable {sql : List Rune → Sql D} {entries : List Entry} {final tables : D} {k : ℕ}
  {s s' : State D} {r : ℕ} {a : Action}

theorem next_getLock (h : Inv sql (files entries) final k s)
    (hget : (s.calls r).pc = .getLock) (hlock : s.lock = none) :
    ∃ s', next sql entries s r = some s' ∧ Progress sql (files entries) final s r s' := by
  refine ⟨{ s.set r ⟨.createTable, true, none⟩ with lock := some r }, ?_, ?_⟩
  · rw [next, hget]
    exact if_pos hlock
  refine Progress.of_hold h (.inl hlock) le_rfl rfl rfl id h.ready .createTable ?_
  simp only [cost, hget]
  omega

theorem Inv.start (h : Inv sql (files entries) final k s) :
    Inv sql (files entries) final k (s.set r ⟨.getLock, true, none⟩) := by
  refine ⟨h.ready, fun r' hreturned => ?_, fun r' hsession hget => ?_⟩
  · rcases eq_or_ne r' r with rfl | hne
    · rw [calls_set_self] at hreturned
      contradiction
    · exact h.returned r' (calls_set_of_ne hne ▸ hreturned)
  · rcases eq_or_ne r' r with rfl | hne
    · rw [calls_set_self] at hget
      exact absurd rfl hget
    · rw [calls_set_of_ne hne] at hsession hget ⊢
      exact h.holder r' hsession hget

theorem Inv.step (hnames : ((files entries).map Entry.name).Nodup)
    (hagain : ∀ entry ∈ files entries, Repeatable sql entry)
    (h : Inv sql (files entries) final k s) (hstep : step sql entries s a = some s') :
    ∃ k, Inv sql (files entries) final k s' := by
  cases a with
  | start r =>
    simp only [Migrations.step] at hstep
    split at hstep
    · obtain rfl := Option.some.inj hstep
      exact ⟨k, h.start⟩
    · contradiction
  | next r =>
    simp only [Migrations.step] at hstep
    split_ifs at hstep with hsession
    · by_cases hget : (s.calls r).pc = .getLock
      · by_cases hlock : s.lock = none
        · obtain ⟨t, ht, hprogress⟩ := next_getLock h hget hlock
          obtain rfl := Option.some.inj (ht.symm.trans hstep)
          exact hprogress.inv
        · rw [next, hget] at hstep
          dsimp only at hstep
          rw [if_neg hlock] at hstep
          contradiction
      · obtain ⟨t, ht, hprogress⟩ := next_holder h hnames hagain hsession hget
        obtain rfl := Option.some.inj (ht.symm.trans hstep)
        exact hprogress.inv
    · obtain rfl := Option.some.inj hstep
      exact ⟨k, h.close nofun⟩
  | endSession r =>
    simp only [Migrations.step] at hstep
    split_ifs at hstep
    obtain rfl := Option.some.inj hstep
    exact ⟨k, h.close (h.returned r)⟩
  | fail r | crash r =>
    simp only [Migrations.step] at hstep
    split_ifs at hstep
    obtain rfl := Option.some.inj hstep
    exact ⟨k, h.close nofun⟩

theorem inv_of_reachable (hnames : ((files entries).map Entry.name).Nodup)
    (hagain : ∀ entry ∈ files entries, Repeatable sql entry)
    (h : (system sql entries tables).Reachable TransitionSystem.Free s) :
    ∃ k, Inv sql (files entries) (executeFiles sql (files entries) tables) k s := by
  apply h.invariant (I := fun s =>
    ∃ k, Inv sql (files entries) (executeFiles sql (files entries) tables) k s)
  · exact ⟨0, ⟨Nat.zero_le _, rfl, rfl⟩, nofun, nofun⟩
  · rintro s a t ⟨k, hk⟩ _ hstep
    exact hk.step hnames hagain hstep

theorem Inv.disk_of_returned (h : Inv sql (files entries) final k s)
    (hreturned : (s.calls r).pc = .returned) :
    s.disk = ⟨final, some ((files entries).map Entry.name)⟩ := by
  obtain ⟨rfl, htable⟩ := h.returned r hreturned
  obtain ⟨names, hrecords⟩ := Option.isSome_iff_exists.mp htable
  have hnames := h.ready.names
  have hcompletes := h.ready.completes
  rw [hrecords, Option.getD_some, List.take_length] at hnames
  rw [List.drop_length] at hcompletes
  rw [← hcompletes, ← hnames, ← hrecords]
  rfl

/-- A lock holder that is not disturbed returns. -/
theorem returns_of_holder (hnames : ((files entries).map Entry.name).Nodup)
    (hagain : ∀ entry ∈ files entries, Repeatable sql entry) (n : ℕ) {k : ℕ} {s : State D}
    (h : Inv sql (files entries) final k s) (hcost : cost (files entries) (s.calls r) ≤ n)
    (hsession : (s.calls r).session = true) (hget : (s.calls r).pc ≠ .getLock) :
    ∃ s' k', (system sql entries tables).Path
      (fun _ action => action = .start r ∨ action = .next r) s s' ∧
        Inv sql (files entries) final k' s' ∧ (s'.calls r).pc = .returned := by
  induction n using Nat.strong_induction_on generalizing k s with
  | h n ih =>
    obtain ⟨t, ht, ⟨k', hinv⟩, hdone⟩ := next_holder h hnames hagain hsession hget
    have hstep : (system sql entries tables).step s (.next r) = some t := by
      change Migrations.step sql entries s (.next r) = some t
      rw [Migrations.step, if_pos hsession, ht]
    rcases hdone with hreturned | ⟨hsession', hget', hlt⟩
    · exact ⟨t, k', .snoc (.next r) .refl (.inr rfl) hstep, hinv, hreturned⟩
    · obtain ⟨u, k'', hpath, hu⟩ := ih _ (Nat.lt_of_lt_of_le hlt hcost) hinv le_rfl hsession' hget'
      exact ⟨u, k'', TransitionSystem.Path.trans
        (.snoc (.next r) .refl (.inr rfl) hstep) hpath, hu⟩

end Runs

/-- Each statement is a `CREATE TABLE IF NOT EXISTS` of its own table. -/
def creates (statement : List Rune) : Sql (List Rune → Bool) :=
  ⟨true, fun tables table => table = statement || tables table⟩

theorem execute_creates {statements : List (List Rune)} {tables : List Rune → Bool} :
    execute creates statements tables =
      fun table => decide (table ∈ statements) || tables table := by
  induction statements generalizing tables with
  | nil => simp [execute]
  | cons statement statements ih =>
    have hcons : execute creates (statement :: statements) tables =
        execute creates statements ((creates statement).effect tables) := rfl
    rw [hcons, ih]
    funext table
    simp [creates, Bool.or_left_comm, Bool.or_assoc]

theorem repeatable_creates (entry : Entry) : Repeatable creates entry := by
  intro front hfront tables
  rw [execute_creates, execute_creates]
  funext table
  have hmem : table ∈ front → table ∈ entry.statements := fun h => hfront.subset h
  by_cases htable : table ∈ front <;> simp [execute_creates, htable, hmem]

end OneBrc.Server.Migrations
