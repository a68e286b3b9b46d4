import OneBrc.Analyzer.BaselineGo
import OneBrc.Analyzer.Chunks
import OneBrc.Analyzer.GoMap

/-! The optimized analyzer in Go. Its sums have 32 bits, which the contest allows for, and its
extrema 16 bits. -/
namespace OneBrc.Analyzer.OptimizedGo
open Lib TagMap GoMap Chunks

def analyzeChunk (data : Bytes) (chunk : ℕ × ℕ) : Option (Table UInt32) :=
  GoMap.analyzeChunk id monthOfHundreds data chunk

/-- The tables of the workers, merged into the first. -/
def analyzeChunks (data : Bytes) (chunks : List (ℕ × ℕ)) : Option (Table UInt32) := do
  mergeAll mergeFrom (← chunks.mapM (analyzeChunk data))

def analyzeMemory (data : Bytes) (threads : Int64) : Except AnalyzeError (Table UInt32) := do
  let start ← readHeader data
  match divide data start threads with
  | none => .error .fault
  | some [] => .ok (newFlatMap defaultMapCap)
  | some chunks =>
    match analyzeChunks data chunks with
    | none => .error .fault
    | some merged => .ok merged

/-- The lines of the output; none after an error. -/
def output (mean : ℤ → ℤ → Bytes) (data : Bytes) (threads : Int64) : Option (List Bytes) :=
  match analyzeMemory data threads with
  | .ok m => writeResult mean UInt32.toNat m
  | .error _ => none

section Rows
variable {rows : List Row}

/-- The table holds all groups. -/
theorem analyzeMemory_csv (hrows : Countable rows) {threads : Int64}
    (hdividable : Dividable (csv rows) (header.length + 1) threads) :
    ∃ m, analyzeMemory (csv rows) threads = .ok m ∧ Counts UInt32.ofNat m rows := by
  obtain ⟨chunks, parts, hdivide, hparts, hchunks⟩ := divide_parts hrows.valid hdividable
  cases chunks with
  | nil =>
    cases hchunks
    obtain rfl : rows = [] := hparts.symm
    simp only [analyzeMemory, readHeader_csv, bind, Except.bind, hdivide]
    exact ⟨_, rfl, newFlatMap_counts rfl⟩
  | cons chunk chunks =>
    obtain ⟨locals, m, hlocals, hm, htotal⟩ := mapM_mergeAll hchunks (List.cons_ne_nil _ _) hparts
      (fun chunk part hpart hchunk => analyzeChunk_counts widens_id rfl
        (fun r hr => monthOfHundreds_encode (hrows.valid r hr).in2027) hrows hpart hchunk)
      (fun m done other part hdone h h' => mergeFrom_counts widens_id hrows hdone h h')
    have hrun : analyzeChunks (csv rows) (chunk :: chunks) = some m := by
      unfold analyzeChunks
      rw [show (chunk :: chunks).mapM (analyzeChunk (csv rows)) = some locals from hlocals]
      exact hm
    simp only [analyzeMemory, readHeader_csv, bind, Except.bind, hdivide, hrun]
    exact ⟨m, rfl, htotal⟩

theorem output_csv (mean : ℤ → ℤ → Bytes) (hrows : Countable rows) {threads : Int64}
    (hdividable : Dividable (csv rows) (header.length + 1) threads) :
    ∃ lines, output mean (csv rows) threads = some lines ∧
      IsReport (Stats.line mean UInt32.toNat UInt32.ofNat) rows lines := by
  obtain ⟨m, hm, hcounts⟩ := analyzeMemory_csv hrows hdividable
  obtain ⟨lines, hwrite, hreport⟩ := isReport_writeResult mean UInt32.toNat hrows hcounts
  refine ⟨lines, ?_, hreport⟩
  simp only [output, hm]
  exact hwrite

/-- A file with an output could be divided. -/
theorem dividable_of_output (mean : ℤ → ℤ → Bytes) {threads : Int64}
    (hlength : (csv rows).length < 2 ^ 61) {lines : List Bytes}
    (h : output mean (csv rows) threads = some lines) :
    Dividable (csv rows) (header.length + 1) threads := by
  cases hdivide : divide (csv rows) (header.length + 1) threads with
  | some chunks =>
    exact dividable_of_divide (by decide) (le_length_csv rows) hlength hdivide
  | none =>
    simp only [output, analyzeMemory, readHeader_csv, bind, Except.bind, hdivide] at h
    cases h

/-- The baseline on the files of the contest. -/
theorem baseline_csv (mean : ℤ → ℤ → Bytes) (h : IsContract rows)
    (hquote : ∀ r ∈ rows, quote ∉ r.path) :
    ∃ lines, BaselineGo.output mean (csv rows) = some lines ∧
      IsReport (reportLine mean) rows lines := by
  obtain ⟨lines, hlines, hreport⟩ :=
    BaselineGo.output_csv mean (valid_of_isContract h) hquote (fits_of_isContract h)
  exact ⟨lines, hlines, isReport_of_isContract h hreport⟩

/-- A length of more than 16 bits is not the maximum that is printed. -/
theorem not_perm_of_long (mean : ℤ → ℤ → Bytes) (h : IsContract rows)
    (hquote : ∀ r ∈ rows, quote ∉ r.path) {r : Row} (hr : r ∈ rows)
    (hlong : 65535 < r.messageLength) (threads : Int64) :
    ¬ ∃ lines lines', output mean (csv rows) threads = some lines ∧
      BaselineGo.output mean (csv rows) = some lines' ∧ lines.Perm lines' := by
  rintro ⟨lines, lines', hlines, hlines', hperm⟩
  obtain ⟨_, houtput, hreport⟩ := output_csv mean (countable_of_isContract h)
    (dividable_of_output mean h.length_csv_lt hlines)
  obtain ⟨_, hbaseline, hreport'⟩ := baseline_csv mean h hquote
  obtain rfl := Option.some.inj (hlines.symm.trans houtput)
  obtain rfl := Option.some.inj (hlines'.symm.trans hbaseline)
  have hmem : r ∈ group rows r.path r.month := mem_group.mpr ⟨hr, rfl, rfl⟩
  obtain ⟨path, month, hne, heq⟩ := (hreport'.mem _).mp
    (hperm.mem_iff.mp ((hreport.mem _).mpr ⟨r.path, r.month, List.ne_nil_of_mem hmem, rfl⟩))
  obtain ⟨r', hr'⟩ := List.exists_mem_of_ne_nil _ hne
  obtain ⟨hrows', rfl, -⟩ := mem_group.mp hr'
  rw [line_of_isContract mean h] at heq
  obtain ⟨hpath, rfl⟩ := recordLine_inj (valid_of_isContract h r hr).comma_notMem
    (valid_of_isContract h r' hrows').comma_notMem heq
  rw [← hpath] at heq
  obtain ⟨-, hgreatest⟩ := recordLine_extrema heq
  have hle := le_greatest (List.mem_map_of_mem (f := Row.messageLength) hmem)
  have hlt := Stats.greatest_narrow_lt (group rows r.path r.month)
  rw [hgreatest] at hlt
  exact absurd (Nat.lt_of_le_of_lt hle hlt) (by omega)

/-- The records are those of the baseline if and only if all lengths have 16 bits and no product
wraps around when the file is divided. -/
theorem output_perm_iff (mean : ℤ → ℤ → Bytes) (h : IsContract rows)
    (hquote : ∀ r ∈ rows, quote ∉ r.path) (threads : Int64) :
    (∃ lines lines', output mean (csv rows) threads = some lines ∧
      BaselineGo.output mean (csv rows) = some lines' ∧ lines.Perm lines') ↔
      (∀ r ∈ rows, r.messageLength ≤ 65535) ∧
        Dividable (csv rows) (header.length + 1) threads := by
  constructor
  · intro hperm
    constructor
    · intro r hr
      by_contra hlong
      exact not_perm_of_long mean h hquote hr (not_le.mp hlong) threads hperm
    · obtain ⟨lines, -, hlines, -⟩ := hperm
      exact dividable_of_output mean h.length_csv_lt hlines
  · rintro ⟨hshort, hdividable⟩
    obtain ⟨lines, houtput, hreport⟩ := output_csv mean (countable_of_isContract h) hdividable
    obtain ⟨lines', hbaseline, hreport'⟩ := baseline_csv mean h hquote
    exact ⟨lines, lines', houtput, hbaseline, (hreport.congr fun path month _ =>
      line_eq_reportLine mean h hshort path month).perm hreport'⟩

/-- A post of 65536 characters. -/
def longPost : List Row := [⟨1798761600, [97], 65536, 0⟩]

theorem isContract_longPost : IsContract longPost := by
  apply isContract_of_short (by decide) (by decide) (by decide)
  intro r hr
  obtain rfl := List.mem_singleton.mp hr
  exact ⟨by decide, ⟨[[97]], by decide, by decide, by decide, by decide +kernel⟩, by decide⟩

theorem output_perm_longPost : (∃ lines lines',
    output wholeMean (csv longPost) 4 = some lines ∧
      BaselineGo.output wholeMean (csv longPost) = some lines' ∧
      lines.Perm lines') ↔ (∀ r ∈ longPost, r.messageLength ≤ 65535) ∧
        Dividable (csv longPost) (header.length + 1) 4 :=
  output_perm_iff wholeMean isContract_longPost (by decide) 4

/-- The post's record is not that of the baseline. -/
theorem not_output_perm : IsContract longPost ∧ (∀ r ∈ longPost, quote ∉ r.path) ∧
    ∀ mean threads, ¬ ∃ lines lines', output mean (csv longPost) threads = some lines ∧
      BaselineGo.output mean (csv longPost) = some lines' ∧ lines.Perm lines' :=
  ⟨isContract_longPost, by decide, fun mean threads => not_perm_of_long mean isContract_longPost
    (by decide) List.mem_cons_self (by decide) threads⟩

end Rows
end OneBrc.Analyzer.OptimizedGo
