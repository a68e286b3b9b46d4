import OneBrc.Analyzer.Expected

/-! The expected output is that of the baseline. -/
namespace OneBrc.Analyzer.Expected
open Lib StableSort TagMap GoMap Chunks

/-- The files that the generator is meant for. -/
structure IsInput (rows : List Row) : Prop where
  in2027 : ∀ r ∈ rows, In2027 r.timestamp
  path_ne : ∀ r ∈ rows, r.path ≠ []
  path_plain : ∀ r ∈ rows, ∀ b ∈ [comma, quote, carriageReturn, newline], b ∉ r.path
  channels : (rows.map Row.path).dedup.length ≤ 65536
  messageLength_pos : ∀ r ∈ rows, 1 ≤ r.messageLength
  messageLength_le : ∀ r ∈ rows, r.messageLength ≤ 65535
  stampCount_lt : ∀ r ∈ rows, r.stampCount < 2 ^ 32
  group_lt : ∀ path month, (group rows path month).length < 2 ^ 32

theorem sum_le {ns : List ℕ} {a b : ℕ} (hle : ∀ n ∈ ns, n ≤ a) (hlength : ns.length ≤ b) :
    ns.sum ≤ b * a := by
  have hsum : ns.sum ≤ ns.length * a := List.sum_le_card_nsmul ns a hle
  exact hsum.trans (Nat.mul_le_mul_right a hlength)

section Rows
variable {rows : List Row} {path : Bytes} {month : Fin 12}

theorem IsInput.valid (h : IsInput rows) : ∀ r ∈ rows, r.Valid := fun r hr =>
  { in2027 := h.in2027 r hr
    path_ne := h.path_ne r hr
    comma_notMem := h.path_plain r hr comma (by simp)
    newline_notMem := h.path_plain r hr newline (by simp) }

theorem IsInput.fits (h : IsInput rows) : ∀ r ∈ rows, r.Fits := fun r hr =>
  { in2027 := h.in2027 r hr
    messageLength_lt := Nat.lt_of_le_of_lt (h.messageLength_le r hr) (by decide)
    stampCount_lt := Nat.lt_trans (h.stampCount_lt r hr) (by decide) }

theorem IsInput.countable (h : IsInput rows) (hpath : ∀ r ∈ rows, r.path.length < 2 ^ 32) :
    Countable rows where
  valid := h.valid
  channels := h.channels
  path_lt := hpath
  messageLength_lt r hr := Nat.lt_of_le_of_lt (h.messageLength_le r hr) (by decide)
  stampCount_lt := h.stampCount_lt
  group_lt := h.group_lt

/-- The totals of a group in 64 bits. -/
theorem IsInput.totals (h : IsInput rows) (path : Bytes) (month : Fin 12) :
    (lengths (group rows path month)).sum < 2 ^ 63 ∧
      (stamps (group rows path month)).sum < 2 ^ 64 := by
  have hcount := h.group_lt path month
  have hlengths : (lengths (group rows path month)).sum ≤ (2 ^ 32 - 1) * 65535 := by
    apply sum_le
    · intro n hn
      obtain ⟨r, hr, rfl⟩ := List.mem_map.mp hn
      exact h.messageLength_le r (mem_group.mp hr).1
    · rw [lengths, List.length_map]
      omega
  have hstamps : (stamps (group rows path month)).sum ≤ (2 ^ 32 - 1) * (2 ^ 32 - 1) := by
    apply sum_le
    · intro n hn
      obtain ⟨r, hr, rfl⟩ := List.mem_map.mp hn
      have hlt := h.stampCount_lt r (mem_group.mp hr).1
      omega
    · rw [stamps, List.length_map]
      omega
  omega

/-- The generator prints the exact figures of a group. -/
theorem IsInput.line_eq (h : IsInput rows) (mean : ℤ → ℤ → Bytes) :
    Stats.line mean UInt64.toNat UInt64.ofNat path month (group rows path month) =
      reportLine mean path month (group rows path month) := by
  obtain ⟨hlengths, hstamps⟩ := h.totals path month
  apply Stats.line_eq_reportLine
  · intro r hr
    have hle := h.messageLength_le r (mem_group.mp hr).1
    omega
  · exact UInt64.toNat_ofNat_of_lt' (show _ < 2 ^ 64 by omega)
  · exact UInt64.toNat_ofNat_of_lt' hstamps

/-- So does the baseline, if the stamps of the group are in the range of 64 bits with a sign. -/
theorem IsInput.wrappedLine_eq (h : IsInput rows) (mean : ℤ → ℤ → Bytes)
    (hne : group rows path month ≠ []) (hstamps : (stamps (group rows path month)).sum < 2 ^ 63) :
    wrappedLine mean path month (group rows path month) =
      reportLine mean path month (group rows path month) := by
  have hcount := h.group_lt path month
  exact wrappedLine_eq_reportLine hne ⟨(h.totals path month).1, by omega, hstamps⟩

end Rows

section Order
variable {rows : List Row}

/-- The months in which a channel has posts. -/
def channelMonths (rows : List Row) (path : Bytes) : List (Fin 12) :=
  (List.finRange 12).filter fun month => decide (group rows path month ≠ [])

theorem channelLines_eq_map (line : Bytes → Fin 12 → List Row → Bytes) (path : Bytes) :
    channelLines line rows path =
      (channelMonths rows path).map fun month => line path month (group rows path month) := by
  rw [channelLines, channelMonths, ← List.filterMap_eq_map, List.filterMap_filter]
  apply List.filterMap_congr
  intro month _
  by_cases hnil : group rows path month = []
  · simp [hnil]
  · simp [hnil]

/-- The keys of the channels by months. -/
def channelKeys (rows : List Row) (path : Bytes) : List Bytes :=
  (channelMonths rows path).map (resultKeyOf path)

theorem mem_channelKeys {path key : Bytes} : key ∈ channelKeys rows path ↔
    ∃ month, group rows path month ≠ [] ∧ key = resultKeyOf path month := by
  rw [channelKeys, channelMonths, List.mem_map]
  apply exists_congr
  intro month
  rw [List.mem_filter, decide_eq_true_eq, eq_comm (a := key)]
  simp

theorem monthLabel_less {month month' : Fin 12} (h : month < month') :
    ByteOrder.less (monthLabel month) (monthLabel month') = true := by
  revert month month'
  decide

/-- Below a byte that no path has, keys are in the order of channels and months. -/
theorem channelKeys_sorted {paths : List Bytes}
    (hpaths : paths.Pairwise fun a b => ByteOrder.less a b = true)
    (hbytes : ∀ path ∈ paths, ∀ b ∈ path, comma < b) :
    (paths.flatMap (channelKeys rows)).Pairwise fun a b => ByteOrder.less a b = true := by
  rw [List.pairwise_flatMap]
  constructor
  · intro path _
    rw [channelKeys, List.pairwise_map]
    apply List.Pairwise.imp _ ((List.pairwise_lt_finRange 12).filter _)
    intro month month' hlt
    exact ByteOrder.less_append_left path
      (ByteOrder.less_append_left [comma] (monthLabel_less hlt))
  · apply hpaths.imp_of_mem
    intro path path' hpath hpath' hless key hkey key' hkey'
    obtain ⟨month, -, rfl⟩ := mem_channelKeys.mp hkey
    obtain ⟨month', -, rfl⟩ := mem_channelKeys.mp hkey'
    exact ByteOrder.less_append_cons (hbytes path hpath) (hbytes path' hpath') hless _ _

/-- The keys of the baseline in their order. -/
theorem writtenKeys_eq {stats : StatsMap} {paths : List Bytes}
    (h : GroupBy.Groups Row.key ChannelStats.of stats rows) (hnodup : paths.Nodup)
    (hmem : ∀ path, path ∈ paths ↔ ∃ r ∈ rows, r.path = path)
    (hbytes : ∀ r ∈ rows, ∀ b ∈ r.path, comma < b) :
    writtenKeys stats = (sliceStable ByteOrder.less paths).flatMap (channelKeys rows) := by
  have hsorted : ((sliceStable ByteOrder.less paths).flatMap (channelKeys rows)).Pairwise
      fun a b => ByteOrder.less a b = true := by
    apply channelKeys_sorted (ByteOrder.sort_strict hnodup)
    intro path hpath
    obtain ⟨r, hr, rfl⟩ := (hmem path).mp (mem_sliceStable.mp hpath)
    exact hbytes r hr
  have hnodup' : ((sliceStable ByteOrder.less paths).flatMap (channelKeys rows)).Nodup := by
    apply hsorted.imp
    rintro key key' hless rfl
    exact absurd (ByteOrder.less_iff.mp hless) (lt_irrefl _)
  apply ByteOrder.sort_eq _ hsorted
  rw [List.perm_ext_iff_of_nodup hnodup' h.nodup]
  intro key
  rw [List.mem_flatMap, h.mem_keys]
  constructor
  · rintro ⟨path, -, hkey⟩
    obtain ⟨month, hne, rfl⟩ := mem_channelKeys.mp hkey
    rwa [members_resultKeyOf]
  · intro hne
    obtain ⟨path, month, rfl⟩ := members_ne_nil hne
    rw [members_resultKeyOf] at hne
    obtain ⟨r, hr⟩ := List.exists_mem_of_ne_nil _ hne
    obtain ⟨hrows, rfl, -⟩ := mem_group.mp hr
    exact ⟨r.path, mem_sliceStable.mpr ((hmem r.path).mpr ⟨r, hrows, rfl⟩),
      mem_channelKeys.mpr ⟨month, hne, rfl⟩⟩

end Order

/-- Where no product of the division wraps around, the generator writes exactly the records of the
groups, each once. They are those of the baseline if its sums have room, and in its order if all
characters of the paths are greater than the comma. -/
theorem output_reference (mean : ℤ → ℤ → Bytes) {rows : List Row} (h : IsInput rows)
    (hpath : ∀ r ∈ rows, r.path.length < 2 ^ 32) {threads : Int64}
    (hdividable : Dividable (csv rows) (header.length + 1) threads) :
    ∃ lines lines', output mean (csv rows) threads = some lines ∧
      BaselineGo.output mean (csv rows) = some lines' ∧ IsReport (reportLine mean) rows lines ∧
      ((∀ path month, (stamps (group rows path month)).sum < 2 ^ 63) →
        lines.Perm lines' ∧
          ((∀ r ∈ rows, ∀ b ∈ r.path, comma < b) → lines.flatten = lines'.flatten)) := by
  have hquote : ∀ r ∈ rows, quote ∉ r.path := fun r hr => h.path_plain r hr quote (by simp)
  have hcomma : ∀ r ∈ rows, comma ∉ r.path := fun r hr => (h.valid r hr).comma_notMem
  obtain ⟨paths, hnodup, hmem, houtput⟩ := output_csv mean (h.countable hpath) hdividable
  obtain ⟨stats, hanalyze, hgroups⟩ := BaselineGo.analyze_csv h.valid hquote h.fits
  have hline : Distinguishes (Stats.line mean UInt64.toNat UInt64.ofNat) rows :=
    distinguishes_recordLine (fun _ _ _ => rfl) hcomma
  have hreport := (isReport_sorted hline hnodup hmem).congr fun path month _ => h.line_eq mean
  obtain ⟨lines', hwrite, hreport'⟩ := isReport_writeStats mean hgroups hcomma
  have hbaseline : BaselineGo.output mean (csv rows) = some lines' := by
    simp only [BaselineGo.output, hanalyze]
    exact hwrite
  refine ⟨_, lines', houtput, hbaseline, hreport, fun hstamps => ⟨?_, ?_⟩⟩
  · exact hreport.perm (hreport'.congr fun path month hne =>
      h.wrappedLine_eq mean hne (hstamps path month))
  · intro hbytes
    rw [writeStats_groups hgroups, writtenKeys_eq hgroups hnodup hmem hbytes,
      List.map_flatMap] at hwrite
    rw [← Option.some.inj hwrite]
    congr 2
    funext path
    rw [channelLines_eq_map, channelKeys, List.map_map]
    apply List.map_congr_left
    intro month hmonth
    have hne : group rows path month ≠ [] := by
      rw [channelMonths, List.mem_filter, decide_eq_true_eq] at hmonth
      exact hmonth.2
    rw [Function.comp_apply, members_resultKeyOf, h.line_eq]
    exact (h.wrappedLine_eq mean hne (hstamps path month)).symm

def sample : List Row := [⟨1798761600, Utf8.encodeAscii "team/dev".toList, 10, 2⟩,
  ⟨1798761601, Utf8.encodeAscii "team/dev".toList, 30, 4⟩,
  ⟨1801440000, Utf8.encodeAscii "team/dev".toList, 20, 1⟩,
  ⟨1827619200, Utf8.encodeAscii "team/ops".toList, 7, 0⟩]

theorem isInput_of_short {rows : List Row} (hlength : rows.length < 2 ^ 16)
    (h : ∀ r ∈ rows, In2027 r.timestamp ∧ r.path ≠ [] ∧
      (∀ b ∈ [comma, quote, carriageReturn, newline], b ∉ r.path) ∧ 1 ≤ r.messageLength ∧
      r.messageLength ≤ 65535 ∧ r.stampCount < 2 ^ 32) : IsInput rows where
  in2027 r hr := (h r hr).1
  path_ne r hr := (h r hr).2.1
  path_plain r hr := (h r hr).2.2.1
  channels := by
    have hle := (List.dedup_sublist (rows.map Row.path)).length_le
    rw [List.length_map] at hle
    omega
  messageLength_pos r hr := (h r hr).2.2.2.1
  messageLength_le r hr := (h r hr).2.2.2.2.1
  stampCount_lt r hr := (h r hr).2.2.2.2.2
  group_lt path month := by
    have hle : (group rows path month).length ≤ rows.length := List.length_filter_le _ _
    omega

theorem output_reference_sample : ∃ lines lines',
    output wholeMean (csv sample) 4 = some lines ∧
      BaselineGo.output wholeMean (csv sample) = some lines' ∧
      IsReport (reportLine wholeMean) sample lines ∧
      ((∀ path month, (stamps (group sample path month)).sum < 2 ^ 63) →
        lines.Perm lines' ∧
          ((∀ r ∈ sample, ∀ b ∈ r.path, comma < b) → lines.flatten = lines'.flatten)) :=
  output_reference wholeMean (isInput_of_short (by decide) (by decide +kernel)) (by decide)
    (dividable_of_lt (le_length_csv sample) (by decide +kernel) 4)

section Limits

/-- A table of free slots after rows whose keys are empty. -/
def AllFree (m : Table UInt64) (done : List Row) : Prop :=
  (∀ e ∈ m.entries, e.isFree = true) ∧ m.entries.length = 2 ^ 15 ∧ m.size = done.length ∧
    m.aggs.length = done.length

/-- A key of length 0 leaves the slot free that it is put into. -/
theorem add_allFree {m : Table UInt64} {done : List Row} (h : AllFree m done)
    (hdone : done.length < 2 ^ 10) {row : ParsedRow} (hkey : keyOf row.path = []) (r : Row) :
    ∃ m', GoMap.add UInt32.toUInt64 m row = some m' ∧ AllFree m' (done ++ [r]) := by
  obtain ⟨hfree, hlength, hsize, haggs⟩ := h
  have hgrow : grow m = some m := if_neg (by rw [hsize, hlength]; omega)
  have hlive : OpenAddressing.live MapEntry.isFree m.entries = [] := by
    apply List.filter_eq_nil_iff.mpr
    intro e he
    rw [hfree e he]
    decide
  obtain ⟨i, hloc⟩ : ∃ i, OpenAddressing.locate MapEntry.isFree
      (FlatMap.isEntry (mapKind UInt64) [] (hashBytes row.path)) m.entries
      (hashBytes row.path).toNat = some i :=
    OpenAddressing.exists_locate ⟨15, hlength⟩ (by rw [hlive, hlength]; decide)
  have hlt := OpenAddressing.locate_lt ⟨15, hlength⟩ hloc
  have hid : (UInt16.ofNat m.aggs.length).toNat = done.length := by
    rw [haggs, UInt16.toNat_ofNat_of_lt' (show _ < 2 ^ 16 by omega)]
  have hentry : m.entries[i]? = some m.entries[i] := List.getElem?_eq_getElem hlt
  let m₁ : Table UInt64 :=
    ⟨m.entries.set i ⟨[], UInt16.ofNat m.aggs.length, (mapKind UInt64).sigOf (hashBytes row.path)⟩,
      m.aggs ++ [fun _ => (mapKind UInt64).fresh], m.size + 1⟩
  have hfind : FlatMap.findOrInsert (mapKind UInt64) m [] (hashBytes row.path) =
      some (m₁, UInt16.ofNat m.aggs.length) := by
    simp only [FlatMap.findOrInsert, hloc, hentry, hfree _ (List.getElem_mem hlt), bind,
      Option.bind, if_true]
    rfl
  have haggs₁ : m₁.aggs.length = done.length + 1 := by
    rw [List.length_append, haggs, List.length_singleton]
  have hmodify (f : (Fin 12 → Stats UInt64) → Fin 12 → Stats UInt64) :
      FlatMap.modifyAgg m₁ (UInt16.ofNat m.aggs.length) f =
        some { m₁ with aggs := m₁.aggs.modify (UInt16.ofNat m.aggs.length).toNat f } :=
    if_pos (by rw [hid, haggs₁]; omega)
  have hadd : GoMap.add UInt32.toUInt64 m row = FlatMap.modifyAgg m₁ (UInt16.ofNat m.aggs.length)
      fun agg => Function.update agg row.month
        (Stats.push UInt32.toUInt64 row.messageLength row.stampCount (agg row.month)) := by
    simp only [GoMap.add, TagMap.add, hgrow, hkey, FlatMap.addTo, hfind, bind, Option.bind]
  rw [hadd, hmodify]
  refine ⟨_, rfl, ?_, ?_, ?_, ?_⟩
  · intro e he
    rcases List.mem_or_eq_of_mem_set he with hmem | rfl
    · exact hfree e hmem
    · rfl
  · exact List.length_set.trans hlength
  · rw [List.length_append, List.length_singleton, ← hsize]
  · rw [List.length_modify, haggs₁, List.length_append, List.length_singleton]

/-- A channel of 2^32 characters. -/
@[irreducible] def longPath : List Row := [⟨1798761600, List.replicate (2 ^ 32) 97, 1, 0⟩]

theorem length_longPath : longPath.length = 1 := by
  rw [longPath]
  rfl

theorem eq_of_mem_longPath {r : Row} (h : r ∈ longPath) :
    r = ⟨1798761600, List.replicate (2 ^ 32) 97, 1, 0⟩ := by
  rw [longPath] at h
  exact List.mem_singleton.mp h

theorem isInput_longPath : IsInput longPath := by
  apply isInput_of_short (by rw [length_longPath]; decide)
  intro r hr
  rw [eq_of_mem_longPath hr]
  refine ⟨by decide, ?_, ?_, Nat.le_refl 1, by decide, by decide⟩
  · exact List.ne_nil_of_length_pos (by rw [List.length_replicate]; decide)
  · intro b hb hmem
    obtain rfl := List.eq_of_mem_replicate hmem
    revert hb
    decide

/-- A table without keys. -/
def Free (m : Table UInt64) : Prop := ∀ e ∈ m.entries, e.isFree = true

theorem Free.live {m : Table UInt64} (h : Free m) :
    OpenAddressing.live MapEntry.isFree m.entries = [] := by
  apply List.filter_eq_nil_iff.mpr
  intro e he
  rw [h e he]
  decide

theorem free_newFlatMap : Free (newFlatMap defaultMapCap) := by
  intro e he
  rw [List.eq_of_mem_replicate he]
  rfl

theorem Free.mergeFrom {m other : Table UInt64} (h : Free other) :
    GoMap.mergeFrom m other = some m := by
  rw [GoMap.mergeFrom, TagMap.mergeFrom, FlatMap.mergeFrom, h.live, List.foldlM_nil]
  rfl

theorem Free.writeResult {mean : ℤ → ℤ → Bytes} {m : Table UInt64} (h : Free m) :
    TagMap.writeResult mean UInt64.toNat m = some [] := by
  rw [TagMap.writeResult, h.live]
  rfl

theorem analyzeChunk_longPath {chunk : ℕ × ℕ} {part : List Row} (hpart : part.Sublist longPath)
    (hchunk : Chunk (csv longPath) chunk part) :
    ∃ m, analyzeChunk (csv longPath) chunk = some m ∧ Free m := by
  have hvalid : ∀ r ∈ part, r.Valid := fun r hr => isInput_longPath.valid r (hpart.subset hr)
  have hempty : AllFree (newFlatMap defaultMapCap) [] :=
    ⟨free_newFlatMap, List.length_replicate, rfl, rfl⟩
  have hadd (m : Table UInt64) (done : List Row) (r : Row) (hstart : done ++ [r] <+: part)
      (h : AllFree m done) : ∃ m', GoMap.add UInt32.toUInt64 m ⟨r.path, r.month,
        UInt32.ofNat r.messageLength, UInt32.ofNat r.stampCount⟩ = some m' ∧
        AllFree m' (done ++ [r]) := by
    have hsub := hstart.sublist.trans hpart
    have hlength : done.length < 2 ^ 10 := by
      have hle := hsub.length_le
      rw [List.length_append, List.length_singleton] at hle
      rw [length_longPath] at hle
      omega
    have hpath : r.path.length = 2 ^ 32 := by
      rw [eq_of_mem_longPath (hsub.subset List.mem_concat_self), List.length_replicate]
    apply add_allFree h hlength
    show keyOf r.path = []
    rw [keyOf, hpath, Nat.mod_self, List.take_zero]
  obtain ⟨m, hm, hfree, -⟩ := scan_chunk (Nat.le_refl 10)
    (fun r => ⟨r.path, r.month, UInt32.ofNat r.messageLength, UInt32.ofNat r.stampCount⟩)
    hchunk hvalid
    (fun r hr rest hafter => (hvalid r hr).readRow_line hafter
      (monthOf_encode (hvalid r hr).in2027)
      fun rest' hrest' => channelLength_path (hvalid r hr).comma_notMem hrest') hadd hempty
  exact ⟨m, hm, hfree⟩

theorem length_line_longPath (n : ℕ) :
    (Row.line ⟨1798761600, List.replicate n 97, 1, 0⟩).length = n + 16 := by
  have htimestamp : (Decimal.encode 1798761600).length = 10 := by decide
  have hone : (Decimal.encode 1).length = 1 := by decide
  have hzero : (Decimal.encode 0).length = 1 := by decide
  simp only [Row.line, List.length_append, List.length_cons, List.length_nil,
    List.length_replicate, htimestamp, hone, hzero]
  omega

theorem length_csv_longPath : (csv longPath).length < 2 ^ 37 := by
  have hheader : (header ++ [newline]).length = 55 := by decide
  rw [longPath, csv, List.length_append, hheader, List.map_singleton, List.flatten_singleton,
    length_line_longPath]
  omega

/-- The generator loses the record of a channel whose length is 0 in 32 bits. -/
theorem output_longPath (mean : ℤ → ℤ → Bytes) (threads : Int64) :
    output mean (csv longPath) threads = some [] := by
  obtain ⟨m, hm, hfree⟩ := analyzeMemory_of_chunks (T := fun m _ => Free m)
    isInput_longPath.valid free_newFlatMap
    (fun chunk part hpart hchunk => analyzeChunk_longPath hpart hchunk)
    (fun m done other part _ h h' => ⟨m, Free.mergeFrom h', h⟩)
    (dividable_of_lt (le_length_csv longPath) length_csv_longPath threads)
  rw [output, hm]
  exact hfree.writeResult

theorem not_perm_longPath (mean : ℤ → ℤ → Bytes) (threads : Int64) :
    ¬ ∃ lines lines', output mean (csv longPath) threads = some lines ∧
      BaselineGo.output mean (csv longPath) = some lines' ∧ lines.Perm lines' := by
  rintro ⟨lines, lines', hlines, hlines', hperm⟩
  have hinput := isInput_longPath
  obtain ⟨lines'', hbaseline, hreport⟩ := BaselineGo.output_csv mean hinput.valid
    (fun r hr => hinput.path_plain r hr quote (by simp)) hinput.fits
  obtain rfl := Option.some.inj (hlines.symm.trans (output_longPath mean threads))
  obtain rfl := Option.some.inj (hlines'.symm.trans hbaseline)
  obtain ⟨r, hr⟩ : ∃ r, r ∈ longPath := by
    apply List.exists_mem_of_ne_nil
    apply List.ne_nil_of_length_pos
    rw [length_longPath]
    decide
  have hgroup : group longPath r.path r.month ≠ [] :=
    List.ne_nil_of_mem (mem_group.mpr ⟨hr, rfl, rfl⟩)
  have hmem := (hreport.mem _).mpr ⟨r.path, r.month, hgroup, rfl⟩
  rw [List.nil_perm.mp hperm] at hmem
  cases hmem

/-- A channel with 2^31 + 1 posts of 2^32 - 1 stamps each. -/
@[irreducible] def manyStamps : List Row :=
  List.replicate (2 ^ 31 + 1) ⟨1798761600, [97], 1, 2 ^ 32 - 1⟩

theorem isInput_manyStamps : IsInput manyStamps := by
  have heq {r : Row} (hr : r ∈ manyStamps) : r = ⟨1798761600, [97], 1, 2 ^ 32 - 1⟩ := by
    rw [manyStamps] at hr
    exact List.eq_of_mem_replicate hr
  constructor
  · intro r hr
    rw [heq hr]
    decide +kernel
  · intro r hr
    rw [heq hr]
    decide +kernel
  · intro r hr
    rw [heq hr]
    decide +kernel
  · rw [manyStamps, List.map_replicate, List.replicate_dedup (by omega)]
    decide
  · intro r hr
    rw [heq hr]
  · intro r hr
    rw [heq hr]
    decide +kernel
  · intro r hr
    rw [heq hr]
    decide +kernel
  · intro path month
    have hle : (group manyStamps path month).length ≤ manyStamps.length :=
      List.length_filter_le _ _
    have hlength : manyStamps.length = 2 ^ 31 + 1 := by rw [manyStamps, List.length_replicate]
    omega

theorem group_manyStamps : group manyStamps [97] 0 = manyStamps := by
  apply List.filter_eq_self.mpr
  intro r hr
  rw [manyStamps] at hr
  rw [List.eq_of_mem_replicate hr]
  decide

/-- The sum of the stamps has no room in 64 bits with a sign. -/
theorem stamps_manyStamps : (stamps manyStamps).sum = (2 ^ 31 + 1) * (2 ^ 32 - 1) := by
  rw [stamps, manyStamps, List.map_replicate, List.sum_replicate]
  rfl

theorem encodeInt_of_neg {n : ℤ} (h : n < 0) (m : ℕ) : Decimal.encodeInt n ≠ Decimal.encode m := by
  intro heq
  have hminus : (45 : UInt8) ∈ Decimal.encode m := by
    rw [← heq, Decimal.encodeInt, if_pos h]
    exact List.mem_cons_self
  exact Decimal.notMem_encode (by decide) hminus

theorem stamps_wrapped : (Int64.ofNat ((2 ^ 31 + 1) * (2 ^ 32 - 1))).toInt < 0 := by
  decide

theorem length_csv_manyStamps : (csv manyStamps).length < 2 ^ 37 := by
  have hline : (Row.line ⟨1798761600, [97], 1, 2 ^ 32 - 1⟩).length = 26 := by decide +kernel
  rw [manyStamps, length_csv_replicate, hline]
  omega

/-- The record of the generator is not one of the baseline. -/
theorem not_perm_manyStamps (mean : ℤ → ℤ → Bytes) (threads : Int64) :
    ¬ ∃ lines lines', output mean (csv manyStamps) threads = some lines ∧
      BaselineGo.output mean (csv manyStamps) = some lines' ∧ lines.Perm lines' := by
  rintro ⟨lines, lines', hlines, hlines', hperm⟩
  have hinput := isInput_manyStamps
  have hpath : ∀ r ∈ manyStamps, r.path.length < 2 ^ 32 := by
    intro r hr
    rw [manyStamps] at hr
    rw [List.eq_of_mem_replicate hr]
    decide
  have hne : group manyStamps [97] 0 ≠ [] := by
    rw [group_manyStamps]
    apply List.ne_nil_of_length_pos
    rw [manyStamps, List.length_replicate]
    omega
  have hcomma : ∀ r ∈ manyStamps, comma ∉ r.path := fun r hr => (hinput.valid r hr).comma_notMem
  obtain ⟨paths, hnodup, hmem, houtput⟩ := output_csv mean (hinput.countable hpath)
    (dividable_of_lt (le_length_csv manyStamps) length_csv_manyStamps threads)
  have hline : Distinguishes (Stats.line mean UInt64.toNat UInt64.ofNat) manyStamps :=
    distinguishes_recordLine (fun _ _ _ => rfl) hcomma
  have hreport := isReport_sorted hline hnodup hmem
  obtain ⟨lines'', hbaseline, hreport'⟩ := BaselineGo.output_csv mean hinput.valid
    (fun r hr => hinput.path_plain r hr quote (by simp)) hinput.fits
  obtain rfl := Option.some.inj (hlines.symm.trans houtput)
  obtain rfl := Option.some.inj (hlines'.symm.trans hbaseline)
  obtain ⟨path, month, hgroup, heq⟩ := (hreport'.mem _).mp
    (hperm.mem_iff.mp ((hreport.mem _).mpr ⟨[97], 0, hne, rfl⟩))
  rw [hinput.line_eq, wrappedLine_eq] at heq
  obtain ⟨rfl, rfl⟩ := recordLine_inj (by decide)
    (fun hin => by
      obtain ⟨r, hr⟩ := List.exists_mem_of_ne_nil _ hgroup
      obtain ⟨hrows, rfl, -⟩ := mem_group.mp hr
      exact hcomma r hrows hin) heq
  obtain ⟨htotal, -⟩ := hinput.totals [97] 0
  have hcount := hinput.group_lt [97] 0
  have hlengths : lengths (group manyStamps [97] 0) ≠ [] := by simpa [lengths] using hne
  have hleast := Nat.lt_of_le_of_lt (least_le_sum hlengths) htotal
  have hgreatest := Nat.lt_of_le_of_lt (greatest_le_sum _) htotal
  simp only [ChannelStats.of, toInt_ofNat hleast, toInt_ofNat hgreatest, toInt_ofNat htotal,
    toInt_ofNat (Nat.lt_trans hcount (by decide)), Decimal.encodeInt_natCast] at heq
  simp only [reportLine, recordLine, List.append_cancel_left_eq, List.cons.injEq, true_and] at heq
  have hstamps := List.append_cancel_right heq
  rw [group_manyStamps, stamps_manyStamps] at hstamps
  exact encodeInt_of_neg stamps_wrapped _ hstamps.symm

/-- A channel with 2^31 posts, each in a line of 128 bytes. -/
@[irreducible] def manyRows : List Row :=
  List.replicate (2 ^ 31) ⟨1798761600, List.replicate 112 97, 1, 0⟩

theorem isInput_manyRows : IsInput manyRows := by
  have heq {r : Row} (hr : r ∈ manyRows) : r = ⟨1798761600, List.replicate 112 97, 1, 0⟩ := by
    rw [manyRows] at hr
    exact List.eq_of_mem_replicate hr
  constructor
  · intro r hr
    rw [heq hr]
    decide +kernel
  · intro r hr
    rw [heq hr]
    decide +kernel
  · intro r hr
    rw [heq hr]
    decide +kernel
  · rw [manyRows, List.map_replicate, List.replicate_dedup (by omega)]
    decide
  · intro r hr
    rw [heq hr]
  · intro r hr
    rw [heq hr]
    decide +kernel
  · intro r hr
    rw [heq hr]
    decide +kernel
  · intro path month
    have hle : (group manyRows path month).length ≤ manyRows.length := List.length_filter_le _ _
    have hlength : manyRows.length = 2 ^ 31 := by rw [manyRows, List.length_replicate]
    omega

/-- With 2^26 threads the products of the division wrap around. -/
theorem output_manyRows (mean : ℤ → ℤ → Bytes) :
    output mean (csv manyRows) (2 ^ 26) = none := by
  have hline : (Row.line ⟨1798761600, List.replicate 112 97, 1, 0⟩).length = 128 := by
    decide +kernel
  have hlength : (csv manyRows).length = 55 + 2 ^ 38 := by
    rw [manyRows, length_csv_replicate, hline]
    omega
  apply output_eq_none mean (by rw [hlength]; decide)
  rintro ⟨-, hproduct⟩
  rw [hlength] at hproduct
  exact absurd hproduct (by decide +kernel)

/-- Without the bounds on paths, stamps and products the records differ: a channel of 2^32
characters is lost, from 2^63 stamps on the baseline prints another sum, and a product that wraps
around ends the generator. -/
theorem not_output_reference :
    (IsInput longPath ∧ ∀ mean threads, ¬ ∃ lines lines',
      output mean (csv longPath) threads = some lines ∧
        BaselineGo.output mean (csv longPath) = some lines' ∧ lines.Perm lines') ∧
    (IsInput manyStamps ∧ ∀ mean threads, ¬ ∃ lines lines',
      output mean (csv manyStamps) threads = some lines ∧
        BaselineGo.output mean (csv manyStamps) = some lines' ∧ lines.Perm lines') ∧
    (IsInput manyRows ∧ (∀ r ∈ manyRows, r.path.length < 2 ^ 32 ∧ r.stampCount = 0) ∧
      ∀ mean, output mean (csv manyRows) (2 ^ 26) = none) := by
  refine ⟨⟨isInput_longPath, not_perm_longPath⟩, ⟨isInput_manyStamps, not_perm_manyStamps⟩,
    isInput_manyRows, ?_, output_manyRows⟩
  intro r hr
  rw [manyRows] at hr
  rw [List.eq_of_mem_replicate hr]
  decide +kernel

end Limits

end OneBrc.Analyzer.Expected
