import OneBrc.Analyzer.FlatMap

/-! Tables that hold the figures of all rows so far, and the lines written from them. -/
namespace OneBrc.Analyzer
open Lib OpenAddressing FlatMap
variable {τ σ : Type} {K : TableKind τ σ} {encode : List Row → σ}

/-- The table holds what `encode` makes of every group of the rows. -/
def Tallies (K : TableKind τ σ) (encode : List Row → σ) (m : FlatMap τ σ) (rows : List Row) :
    Prop :=
  ∃ keys, Holds K m keys (fun path month => encode (group rows path month)) ∧
    ∀ path, path ∈ keys ↔ ∃ r ∈ rows, r.path = path

/-- The lines of an entry, by months. -/
def entryLines (cell : Bytes → Fin 12 → σ → Option Bytes) (m : FlatMap τ σ) (e : MapEntry τ) :
    Option (List Bytes) := do
  let agg ← m.aggs[e.id.toNat]?
  some ((List.finRange 12).filterMap fun month => cell e.key month (agg month))

/-- The lines of entries one after the other. -/
def writeEntries (cell : Bytes → Fin 12 → σ → Option Bytes) (m : FlatMap τ σ)
    (entries : List (MapEntry τ)) : Option (List Bytes) := do
  some (← entries.mapM (entryLines cell m)).flatten

theorem Tallies.empty (hfresh : encode [] = K.fresh) (k : ℕ) :
    Tallies K encode (FlatMap.empty K (2 ^ k)) [] := by
  refine ⟨[], ?_, by simp⟩
  simp only [group_nil, hfresh]
  exact Holds.empty k

section Steps
variable [DecidableEq τ] {ok : ℕ → Prop} {reserve : FlatMap τ σ → Option (FlatMap τ σ)}
  {channels : List Bytes} {m : FlatMap τ σ} {rows rows' : List Row}

private theorem keys_subset {keys : List Bytes}
    (hmem : ∀ path, path ∈ keys ↔ ∃ r ∈ rows, r.path = path)
    (h : ∀ r ∈ rows, r.path ∈ channels) : keys ⊆ channels := by
  intro path hpath
  obtain ⟨r, hr, rfl⟩ := (hmem path).mp hpath
  exact h r hr

/-- A row counted in its group. -/
theorem Tallies.add (hreserve : Reserves K ok channels.length reserve)
    (hn : channels.length ≤ 2 ^ 16) (h : Tallies K encode m rows) (hok : ok m.entries.length)
    (hrows : ∀ r ∈ rows, r.path ∈ channels) {r : Row} (hr : r.path ∈ channels) (hne : r.path ≠ [])
    {push : σ → σ} (hpush : push (encode (group rows r.path r.month)) =
      encode (group rows r.path r.month ++ [r])) :
    ∃ m₁ m', reserve m = some m₁ ∧
      addTo K push m₁ r.path (K.hashBytes r.path) r.month = some m' ∧
      Tallies K encode m' (rows ++ [r]) ∧ ok m'.entries.length := by
  obtain ⟨keys, hkeys, hmem⟩ := h
  obtain ⟨m₁, m', keys', hrun, hadd, h', hok', hmem'⟩ := hkeys.reserve_addTo hreserve hn hok
    (keys_subset hmem hrows) hr hne r.month push
  refine ⟨m₁, m', hrun, hadd, ⟨keys', ?_, ?_⟩, hok'⟩
  · convert h' using 1
    funext path month
    by_cases hpath : path = r.path
    · subst hpath
      rw [Function.update_self]
      by_cases hmonth : month = r.month
      · subst hmonth
        rw [Function.update_self, group_concat_self, hpush]
      · rw [Function.update_of_ne hmonth,
          group_concat_of_ne fun hboth => hmonth hboth.2.symm]
    · rw [Function.update_of_ne hpath, group_concat_of_ne fun hboth => hpath hboth.1.symm]
  · intro path
    rw [hmem', hmem]
    constructor
    · rintro (⟨r', hr', rfl⟩ | rfl)
      · exact ⟨r', List.mem_append_left _ hr', rfl⟩
      · exact ⟨r, List.mem_concat_self, rfl⟩
    · rintro ⟨r', hr', rfl⟩
      rcases List.mem_append.mp hr' with hr' | hr'
      · exact .inl ⟨r', hr', rfl⟩
      · exact .inr (by rw [List.mem_singleton.mp hr'])

/-- A merged table tallies the rows of both. -/
theorem Tallies.merge (hreserve : Reserves K ok channels.length reserve)
    (hn : channels.length ≤ 2 ^ 16) {other : FlatMap τ σ} (h : Tallies K encode m rows)
    (h' : Tallies K encode other rows') (hok : ok m.entries.length)
    (hrows : ∀ r ∈ rows, r.path ∈ channels) (hrows' : ∀ r ∈ rows', r.path ∈ channels)
    {join : σ → σ → σ} {hashOf : MapEntry τ → UInt32}
    (hhash : ∀ e ∈ live MapEntry.isFree other.entries, hashOf e = K.hashBytes e.key)
    (hjoin : ∀ path month, join (encode (group rows path month)) (encode (group rows' path month)) =
      encode (group rows path month ++ group rows' path month)) :
    ∃ m', mergeFrom K reserve join hashOf m other = some m' ∧
      Tallies K encode m' (rows ++ rows') ∧ ok m'.entries.length := by
  obtain ⟨keys, hkeys, hmem⟩ := h
  obtain ⟨keys', hkeys', hmem'⟩ := h'
  have hskip (path month) (hpath : path ∉ keys') :
      join (encode (group rows path month)) (encode (group rows' path month)) =
        encode (group rows path month) := by
    rw [hjoin, group_eq_nil_of_forall_ne fun r hr heq => hpath ((hmem' path).mpr ⟨r, hr, heq⟩),
      List.append_nil]
  obtain ⟨m', keys₁, hrun, hm', hok', hmem₁⟩ := hkeys.mergeFrom hreserve hn hok
    (keys_subset hmem hrows) hkeys' (keys_subset hmem' hrows') hhash hskip
  refine ⟨m', hrun, ⟨keys₁, ?_, ?_⟩, hok'⟩
  · simp only [hjoin, ← group_append] at hm'
    exact hm'
  · intro path
    rw [hmem₁, hmem, hmem']
    constructor
    · rintro (⟨r, hr, rfl⟩ | ⟨r, hr, rfl⟩)
      · exact ⟨r, List.mem_append_left _ hr, rfl⟩
      · exact ⟨r, List.mem_append_right _ hr, rfl⟩
    · rintro ⟨r, hr, rfl⟩
      rcases List.mem_append.mp hr with hr | hr
      · exact .inl ⟨r, hr, rfl⟩
      · exact .inr ⟨r, hr, rfl⟩

end Steps

section Output
variable {m : FlatMap τ σ} {rows : List Row} {line : Bytes → Fin 12 → List Row → Bytes}
  {cell : Bytes → Fin 12 → σ → Option Bytes} {entries : List (MapEntry τ)}

/-- The lines of a channel, by months. -/
def channelLines (line : Bytes → Fin 12 → List Row → Bytes) (rows : List Row) (path : Bytes) :
    List Bytes :=
  (List.finRange 12).filterMap fun month =>
    if group rows path month = [] then none else some (line path month (group rows path month))

/-- What is written for entries of the table depends on their keys only. -/
theorem FlatMap.Holds.writeEntries {keys : List Bytes} {c : Bytes → Fin 12 → σ}
    (h : Holds K m keys c) (cell : Bytes → Fin 12 → σ → Option Bytes)
    (hentries : ∀ e ∈ entries, e ∈ live MapEntry.isFree m.entries) :
    Analyzer.writeEntries cell m entries = some (entries.flatMap fun e =>
      (List.finRange 12).filterMap fun month => cell e.key month (c e.key month)) := by
  have hentry (e : MapEntry τ) (he : e ∈ entries) : entryLines cell m e =
      some ((List.finRange 12).filterMap fun month => cell e.key month (c e.key month)) := by
    have hagg : m.aggs[e.id.toNat]? = some (c e.key) := by
      rw [h.aggs, List.getElem?_map, h.id e (hentries e he)]
      rfl
    simp only [entryLines, hagg, bind, Option.bind]
  have hmap : entries.mapM (entryLines cell m) = some (entries.map fun e =>
      (List.finRange 12).filterMap fun month => cell e.key month (c e.key month)) := by
    clear hentries
    induction entries with
    | nil => rfl
    | cons e es ih =>
      rw [List.mapM_cons, hentry e List.mem_cons_self,
        ih fun f hf => hentry f (List.mem_cons_of_mem _ hf)]
      rfl
  rw [Analyzer.writeEntries, hmap]
  rfl

variable (line cell entries) in
/-- For a table that tallies the rows these are the lines of the channels. -/
theorem Tallies.writeEntries (h : Tallies K encode m rows)
    (hcell : ∀ path month, cell path month (encode (group rows path month)) =
      if group rows path month = [] then none else some (line path month (group rows path month)))
    (hentries : ∀ e ∈ entries, e ∈ live MapEntry.isFree m.entries) :
    Analyzer.writeEntries cell m entries =
      some ((entries.map MapEntry.key).flatMap (channelLines line rows)) := by
  obtain ⟨keys, hkeys, -⟩ := h
  rw [hkeys.writeEntries cell hentries, List.flatMap_map]
  simp only [hcell, channelLines]

theorem mem_channelLines {path l : Bytes} : l ∈ channelLines line rows path ↔
    ∃ month, group rows path month ≠ [] ∧ l = line path month (group rows path month) := by
  simp only [channelLines, List.mem_filterMap, List.mem_finRange, true_and]
  apply exists_congr
  intro month
  split
  · next hnil => simp [hnil]
  · next hne => simp [hne, eq_comm]

theorem channelLines_nodup (hline : Distinguishes line rows) (path : Bytes) :
    (channelLines line rows path).Nodup := by
  apply List.Nodup.filterMap _ (List.nodup_finRange 12)
  intro month month' l hl hl'
  split at hl
  · cases hl
  · next hne =>
    split at hl'
    · cases hl'
    · next hne' =>
      obtain rfl := Option.some.inj hl
      exact (hline _ _ _ _ hne hne' (Option.some.inj hl').symm).2

/-- The lines of different channels, among them all that occur, are a report. -/
theorem isReport_channelLines {paths : List Bytes} (hline : Distinguishes line rows)
    (hnodup : paths.Nodup) (hpaths : ∀ r ∈ rows, r.path ∈ paths) :
    IsReport line rows (paths.flatMap (channelLines line rows)) where
  nodup := by
    rw [List.nodup_flatMap]
    refine ⟨fun path _ => channelLines_nodup hline path, ?_⟩
    apply hnodup.imp
    intro path path' hne
    rw [Function.onFun_apply, List.disjoint_left]
    intro l hl hl'
    obtain ⟨month, hgroup, rfl⟩ := mem_channelLines.mp hl
    obtain ⟨month', hgroup', heq⟩ := mem_channelLines.mp hl'
    exact hne (hline _ _ _ _ hgroup hgroup' heq).1
  mem l := by
    rw [List.mem_flatMap]
    constructor
    · rintro ⟨path, -, hl⟩
      exact ⟨path, mem_channelLines.mp hl⟩
    · rintro ⟨path, month, hgroup, rfl⟩
      refine ⟨path, ?_, mem_channelLines.mpr ⟨month, hgroup, rfl⟩⟩
      obtain ⟨r, hmem⟩ := List.exists_mem_of_ne_nil _ hgroup
      obtain ⟨hr, rfl, -⟩ := mem_group.mp hmem
      exact hpaths r hr

/-- The lines of all entries in any order are a report. -/
theorem Tallies.isReport (h : Tallies K encode m rows) (hline : Distinguishes line rows)
    (hcell : ∀ path month, cell path month (encode (group rows path month)) =
      if group rows path month = [] then none else some (line path month (group rows path month)))
    (hentries : entries.Perm (live MapEntry.isFree m.entries)) :
    ∃ lines, Analyzer.writeEntries cell m entries = some lines ∧ IsReport line rows lines := by
  refine ⟨_, h.writeEntries line cell entries hcell fun e he => hentries.mem_iff.mp he, ?_⟩
  obtain ⟨keys, hkeys, hmem⟩ := h
  have hperm := (hentries.map MapEntry.key).trans hkeys.keys_perm
  apply isReport_channelLines hline (hperm.nodup_iff.mpr hkeys.nodup)
  intro r hr
  exact hperm.mem_iff.mpr ((hmem r.path).mpr ⟨r, hr, rfl⟩)

end Output
end OneBrc.Analyzer
