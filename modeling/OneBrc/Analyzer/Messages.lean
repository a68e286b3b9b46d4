import OneBrc.Analyzer.Expected

/-! The counts of messages of the generator of expected outputs wrap at 32 bits. They are all that
tells whether a month is written. -/
namespace OneBrc.Analyzer.Expected
open Lib StableSort FlatMap TagMap GoMap OpenAddressing Chunks

/-- Rows with keys and ids that fit the table; their groups have any size. -/
structure Scannable (rows : List Row) : Prop where
  valid : ∀ r ∈ rows, r.Valid
  channels : (rows.map Row.path).dedup.length ≤ 2 ^ 16
  path_lt : ∀ r ∈ rows, r.path.length < 2 ^ 32

/-- The months count their rows in 32 bits. -/
def CountsMessages (m : Table UInt64) (rows : List Row) : Prop :=
  ∃ keys c, Holds (mapKind UInt64) m keys c ∧
    (∀ path month, (c path month).messages = UInt32.ofNat (group rows path month).length) ∧
    ∀ path, path ∈ keys ↔ ∃ r ∈ rows, r.path = path

@[simp] theorem messages_push (wide : UInt32 → UInt64) (messageLength stampCount : UInt32)
    (s : Stats UInt64) : (s.push wide messageLength stampCount).messages = s.messages + 1 := by
  unfold Stats.push
  split
  · next hzero =>
    rw [hzero]
    rfl
  · rfl

@[simp] theorem messages_join (s incoming : Stats UInt64) :
    (s.join incoming).messages = s.messages + incoming.messages := by
  unfold Stats.join
  split
  · next hzero => rw [hzero, UInt32.add_zero]
  · split
    · next hzero => rw [hzero, UInt32.zero_add]
    · rfl

theorem countsMessages_newFlatMap : CountsMessages (newFlatMap defaultMapCap) [] := by
  refine ⟨[], _, Holds.empty 15, ?_, by simp⟩
  intro path month
  rfl

section Steps
variable {rows done part : List Row} {m other : Table UInt64} {r : Row}

private theorem keys_subset {keys : List Bytes}
    (hmem : ∀ path, path ∈ keys ↔ ∃ r ∈ done, r.path = path) (hdone : done ⊆ rows) :
    keys ⊆ (rows.map Row.path).dedup := by
  intro path hpath
  obtain ⟨r, hr, rfl⟩ := (hmem path).mp hpath
  exact mem_channels (hdone hr)

/-- A row adds one to the messages of its group. -/
theorem countsMessages_add (hrows : Scannable rows) (hdone : (done ++ [r]).Sublist rows)
    (h : CountsMessages m done) :
    ∃ m', GoMap.add UInt32.toUInt64 m ⟨r.path, r.month, UInt32.ofNat r.messageLength,
      UInt32.ofNat r.stampCount⟩ = some m' ∧ CountsMessages m' (done ++ [r]) := by
  obtain ⟨keys, c, hkeys, hcount, hmem⟩ := h
  have hr : r ∈ rows := hdone.subset List.mem_concat_self
  have hsub : done ⊆ rows := fun r' hr' => hdone.subset (List.mem_append_left _ hr')
  obtain ⟨m₁, m', keys', hrun, hadd, h', -, hmem'⟩ := hkeys.reserve_addTo
    (reserves_grow (rows.map Row.path).dedup.length) hrows.channels trivial
    (keys_subset hmem hsub) (mem_channels hr) (hrows.valid r hr).path_ne r.month
    (Stats.push UInt32.toUInt64 (UInt32.ofNat r.messageLength) (UInt32.ofNat r.stampCount))
  refine ⟨m', ?_, keys', _, h', ?_, ?_⟩
  · simp only [GoMap.add, TagMap.add, hrun, keyOf_eq (hrows.path_lt r hr), bind, Option.bind]
    exact hadd
  · intro path month
    by_cases hpath : path = r.path
    · subst hpath
      rw [Function.update_self]
      by_cases hmonth : month = r.month
      · subst hmonth
        rw [Function.update_self, messages_push, hcount, group_concat_self, List.length_append,
          UInt32.ofNat_add]
        rfl
      · rw [Function.update_of_ne hmonth, hcount,
          group_concat_of_ne fun hboth => hmonth hboth.2.symm]
    · rw [Function.update_of_ne hpath, hcount,
        group_concat_of_ne fun hboth => hpath hboth.1.symm]
  · intro path
    rw [hmem', hmem]
    constructor
    · rintro (⟨r', hr', rfl⟩ | rfl)
      · exact ⟨r', List.mem_append_left _ hr', rfl⟩
      · exact ⟨r, List.mem_concat_self, rfl⟩
    · rintro ⟨r', hr', rfl⟩
      rcases List.mem_append.mp hr' with hr' | hr'
      · exact .inl ⟨r', hr', rfl⟩
      · exact .inr (by rw [List.mem_singleton.mp hr'])

/-- Merging adds the messages of the groups. -/
theorem countsMessages_mergeFrom (hrows : Scannable rows) (hdone : (done ++ part).Sublist rows)
    (h : CountsMessages m done) (h' : CountsMessages other part) :
    ∃ m', GoMap.mergeFrom m other = some m' ∧ CountsMessages m' (done ++ part) := by
  obtain ⟨keys, c, hkeys, hcount, hmem⟩ := h
  obtain ⟨keys', c', hkeys', hcount', hmem'⟩ := h'
  have hskip (path : Bytes) (month : Fin 12) (hpath : path ∉ keys') :
      (c path month).join (c' path month) = c path month := by
    rw [hkeys'.outside path hpath]
    exact if_pos rfl
  have hsub : done ⊆ rows := fun r hr => hdone.subset (List.mem_append_left _ hr)
  have hsub' : part ⊆ rows := fun r hr => hdone.subset (List.mem_append_right _ hr)
  obtain ⟨m', keys₁, hrun, hm', -, hmem₁⟩ := hkeys.mergeFrom
    (reserves_grow (rows.map Row.path).dedup.length) hrows.channels trivial
    (keys_subset hmem hsub) hkeys' (keys_subset hmem' hsub')
    (show ∀ e ∈ live MapEntry.isFree other.entries,
      hashBytes e.key = (mapKind UInt64).hashBytes e.key from fun _ _ => rfl) hskip
  refine ⟨m', hrun, keys₁, _, hm', ?_, ?_⟩
  · intro path month
    rw [messages_join, hcount, hcount', group_append, List.length_append, UInt32.ofNat_add]
  · intro path
    rw [hmem₁, hmem, hmem']
    constructor
    · rintro (⟨r, hr, rfl⟩ | ⟨r, hr, rfl⟩)
      · exact ⟨r, List.mem_append_left _ hr, rfl⟩
      · exact ⟨r, List.mem_append_right _ hr, rfl⟩
    · rintro ⟨r, hr, rfl⟩
      rcases List.mem_append.mp hr with hr | hr
      · exact .inl ⟨r, hr, rfl⟩
      · exact .inr ⟨r, hr, rfl⟩

end Steps

section Runs
variable {rows : List Row}

/-- All threads together count the messages of all groups. -/
theorem analyzeMemory_countsMessages (hrows : Scannable rows) {threads : Int64}
    (hdividable : Dividable (csv rows) (header.length + 1) threads) :
    ∃ m, analyzeMemory (csv rows) threads = .ok m ∧ CountsMessages m rows := by
  apply analyzeMemory_of_chunks hrows.valid countsMessages_newFlatMap _ _ hdividable
  · intro chunk part hpart hchunk
    apply scan_chunk (Nat.le_refl 10) (fun r => ⟨r.path, r.month, UInt32.ofNat r.messageLength,
      UInt32.ofNat r.stampCount⟩) hchunk (fun r hr => hrows.valid r (hpart.subset hr)) ?_ ?_
      countsMessages_newFlatMap
    · intro r hr rest hafter
      have hvalid := hrows.valid r (hpart.subset hr)
      exact hvalid.readRow_line hafter (fun rest => monthOf_encode hvalid.in2027 rest)
        fun rest' hrest' => channelLength_path hvalid.comma_notMem hrest'
    · intro m done r hstart h
      exact countsMessages_add hrows (hstart.sublist.trans hpart) h
  · intro m done other part hstart h h'
    exact countsMessages_mergeFrom hrows hstart.sublist h h'

/-- Some channel and month has a number of rows that does not wrap to zero. -/
def Spread (rows : List Row) : Prop := ∃ path month, ¬ 2 ^ 32 ∣ (group rows path month).length

/-- Something is written exactly if some month does not wrap to no messages. -/
theorem output_ne_nil_iff (mean : ℤ → ℤ → Bytes) (hrows : Scannable rows) {threads : Int64}
    (hdividable : Dividable (csv rows) (header.length + 1) threads) :
    ∃ lines, output mean (csv rows) threads = some lines ∧ (lines.flatten ≠ [] ↔ Spread rows) := by
  obtain ⟨m, hm, keys, c, hkeys, hcount, hmem⟩ := analyzeMemory_countsMessages hrows hdividable
  have hentries (e : MapEntry UInt16) : e ∈ sliceStable (fun a b => ByteOrder.less a.key b.key)
      (live MapEntry.isFree m.entries) ↔ e ∈ live MapEntry.isFree m.entries := mem_sliceStable
  have hwrite := hkeys.writeEntries (Stats.cell mean UInt64.toNat) fun e he => (hentries e).mp he
  have hzero (path : Bytes) (month : Fin 12) :
      (c path month).messages = 0 ↔ 2 ^ 32 ∣ (group rows path month).length := by
    rw [hcount, ← UInt32.toNat_inj, UInt32.toNat_ofNat', Nat.dvd_iff_mod_eq_zero]
    rfl
  refine ⟨_, by simp only [output, hm]; exact hwrite, ?_⟩
  constructor
  · intro hne
    rw [ne_eq, List.flatten_eq_nil_iff] at hne
    push Not at hne
    obtain ⟨l, hl, -⟩ := hne
    obtain ⟨e, -, hcells⟩ := List.mem_flatMap.mp hl
    obtain ⟨month, -, hcell⟩ := List.mem_filterMap.mp hcells
    refine ⟨e.key, month, fun hdvd => ?_⟩
    rw [Stats.cell, if_pos ((hzero _ _).mpr hdvd)] at hcell
    cases hcell
  · rintro ⟨path, month, hdvd⟩ hnil
    have hgroup : group rows path month ≠ [] := by
      intro hempty
      rw [hempty] at hdvd
      exact hdvd (Nat.dvd_zero _)
    obtain ⟨r, hin⟩ := List.exists_mem_of_ne_nil _ hgroup
    obtain ⟨hr, rfl, rfl⟩ := mem_group.mp hin
    obtain ⟨e, he, hkey⟩ :=
      List.mem_map.mp (hkeys.keys_perm.mem_iff.mpr ((hmem r.path).mpr ⟨r, hr, rfl⟩))
    have hcell : ∃ l ≠ [], Stats.cell mean UInt64.toNat e.key r.month (c e.key r.month) =
        some l := by
      rw [hkey, Stats.cell, if_neg fun h => hdvd ((hzero _ _).mp h)]
      exact ⟨_, by simp [recordLine], rfl⟩
    obtain ⟨l, hne, hl⟩ := hcell
    apply hne
    rw [List.flatten_eq_nil_iff] at hnil
    exact hnil l (List.mem_flatMap.mpr ⟨e, (hentries e).mpr he,
      List.mem_filterMap.mpr ⟨r.month, List.mem_finRange _, hl⟩⟩)

/-- If a number divides the sizes of all groups, it divides the number of rows. -/
theorem dvd_length {d : ℕ} (h : ∀ path month, d ∣ (group rows path month).length) :
    d ∣ rows.length := by
  induction hn : rows.length using Nat.strong_induction_on generalizing rows with
  | h n ih =>
    cases rows with
    | nil =>
      rw [← hn]
      exact Nat.dvd_zero d
    | cons r rest =>
      -- The group of the first row is taken away, which leaves the other groups as they are.
      let others := (r :: rest).filter fun r' => !decide (r'.path = r.path ∧ r'.month = r.month)
      have hsplit : (group (r :: rest) r.path r.month).length + others.length = n := by
        rw [← hn]
        exact (List.length_eq_length_filter_add _).symm
      have hfirst : 0 < (group (r :: rest) r.path r.month).length :=
        List.length_pos_of_mem (mem_group.mpr ⟨List.mem_cons_self, rfl, rfl⟩)
      have hothers (path : Bytes) (month : Fin 12) : d ∣ (group others path month).length := by
        by_cases hkey : path = r.path ∧ month = r.month
        · have hempty : group others path month = [] := by
            apply List.filter_eq_nil_iff.mpr
            intro r' hr'
            have hnot := (List.mem_filter.mp hr').2
            rw [Bool.not_eq_true', decide_eq_false_iff_not] at hnot
            rwa [hkey.1, hkey.2, decide_eq_true_iff]
          rw [hempty]
          exact Nat.dvd_zero d
        · have hsame : group others path month = group (r :: rest) path month := by
            unfold group others
            rw [List.filter_filter]
            apply List.filter_congr
            intro r' _
            by_cases hr' : r'.path = path ∧ r'.month = month
            · obtain ⟨rfl, rfl⟩ := hr'
              rw [decide_eq_true ⟨rfl, rfl⟩, decide_eq_false hkey]
              rfl
            · simp [hr']
          rw [hsame]
          exact h path month
      rw [← hsplit]
      exact Nat.dvd_add (h _ _) (ih others.length (by omega) hothers rfl)

/-- Only a multiple of 2 ^ 32 rows can be spread so that nothing is written. -/
theorem spread_of_not_dvd (h : ¬ 2 ^ 32 ∣ rows.length) : Spread rows := by
  by_contra hall
  refine h (dvd_length fun path month => ?_)
  by_contra hdvd
  exact hall ⟨path, month, hdvd⟩

end Runs
end OneBrc.Analyzer.Expected
