import OneBrc.Analyzer.Baseline
import OneBrc.Analyzer.Scan

/-! The baseline in Go: a CSV reader and the map of the baselines. -/
namespace OneBrc.Analyzer.BaselineGo
open Lib

inductive AnalyzeError where
  | header (e : Option Csv.ReadError)
  | headerColumns (got : ℕ)
  | read (lineNumber : ℕ) (e : Csv.ReadError)
  | record (lineNumber : ℕ) (e : RecordError)

/-- The records after the header, up to the first error. -/
def analyzeRecords (lineNumber : ℕ) (stats : StatsMap) :
    List (Except Csv.ReadError (List Bytes)) → Except AnalyzeError StatsMap
  | [] => .ok stats
  | .error e :: _ => .error (.read lineNumber e)
  | .ok record :: records =>
      match analyzeRecord Decimal.parseInt64 stats record with
      | .error e => .error (.record lineNumber e)
      | .ok stats => analyzeRecords (lineNumber + 1) stats records

def analyze (text : Bytes) : Except AnalyzeError StatsMap :=
  match Csv.readAll text with
  | [] => .error (.header none)
  | .error e :: _ => .error (.header (some e))
  | .ok header :: records =>
      if header.length ≠ 4 then .error (.headerColumns header.length)
      else analyzeRecords 2 [] records

/-- The lines of the output; none after an error. -/
def output (mean : ℤ → ℤ → Bytes) (text : Bytes) : Option (List Bytes) :=
  match analyze text with
  | .ok stats => writeStats mean stats
  | .error _ => none

theorem readsInt : ReadsInt Decimal.parseInt64 := fun _ => Decimal.parseInt64_encode

theorem analyzeRecords_rows {stats : StatsMap} {done rows : List Row}
    (h : GroupBy.Groups Row.key ChannelStats.of stats done) (hfits : ∀ r ∈ done ++ rows, r.Fits)
    (lineNumber : ℕ) : ∃ stats', analyzeRecords lineNumber stats
      (rows.map fun r => .ok r.fields) = .ok stats' ∧
      GroupBy.Groups Row.key ChannelStats.of stats' (done ++ rows) := by
  induction rows generalizing stats done lineNumber with
  | nil => exact ⟨stats, rfl, by simpa using h⟩
  | cons r rows ih =>
    rw [List.append_cons] at hfits
    obtain ⟨stats₁, hrun₁, h₁⟩ := analyzeRecord_groups readsInt h fun r' hr' =>
      hfits r' (List.mem_append_left _ hr')
    obtain ⟨stats₂, hrun₂, h₂⟩ := ih h₁ hfits (lineNumber + 1)
    refine ⟨stats₂, ?_, by rwa [← List.append_cons] at h₂⟩
    rw [List.map_cons, analyzeRecords, hrun₁]
    exact hrun₂

def headerFields : List Bytes :=
  ["unix_timestamp", "channel_path", "message_length", "stamp_count"].map fun field =>
    Utf8.encodeAscii field.toList

section Lines
variable {r : Row}

theorem line_fields (r : Row) : Csv.line r.fields = r.line := by
  simp [Csv.line, Row.fields, Row.line, List.intercalate, comma, newline]

theorem csv_eq (rows : List Row) :
    csv rows = ((headerFields :: rows.map Row.fields).map Csv.line).flatten := by
  have hheader : Csv.line headerFields = header ++ [newline] := by decide
  have hrows : (rows.map Row.fields).map Csv.line = rows.map Row.line := by
    rw [List.map_map]
    exact List.map_congr_left fun r _ => line_fields r
  rw [List.map_cons, List.flatten_cons, hheader, hrows, csv]

theorem plain_encode (n : ℕ) : Csv.Plain (Decimal.encode n) := by
  intro b hb
  have hdigit := Decimal.isDigit_of_mem_encode hb
  refine ⟨?_, ?_, ?_⟩ <;>
  · rintro rfl
    cases hdigit

theorem isPlainRecord_fields (h : r.Valid) (hquote : quote ∉ r.path) :
    Csv.IsPlainRecord r.fields := by
  refine ⟨⟨_, _, rfl, Decimal.encode_ne_nil _⟩, ?_⟩
  intro f hf
  simp only [Row.fields, List.mem_cons, List.not_mem_nil, or_false] at hf
  rcases hf with rfl | rfl | rfl | rfl
  · exact plain_encode _
  · intro b hb
    refine ⟨?_, ?_, ?_⟩
    · rintro rfl
      exact hquote hb
    · rintro rfl
      exact h.comma_notMem hb
    · rintro rfl
      exact h.newline_notMem hb
  · exact plain_encode _
  · exact plain_encode _

/-- Rows have no CR before LF. -/
theorem unixLines_line (h : r.Valid) (rest : Bytes) :
    Csv.unixLines (r.line ++ rest) = r.line ++ Csv.unixLines rest := by
  have hdigits (n : ℕ) {b : UInt8} (hb : Decimal.isDigit b = false) : b ∉ Decimal.encode n :=
    Decimal.notMem_encode hb
  have hsplit (text : Bytes) : r.line ++ text = (Decimal.encode r.timestamp ++ comma :: r.path) ++
      comma :: ((Decimal.encode r.messageLength ++ comma :: (Decimal.encode r.stampCount ++
        [newline])) ++ text) := by
    simp [Row.line]
  have hhead : (10 : UInt8) ∉ Decimal.encode r.timestamp ++ comma :: r.path := by
    rw [List.mem_append, List.mem_cons, not_or, not_or]
    exact ⟨hdigits _ (by decide), by decide, h.newline_notMem⟩
  have hcomma (text : Bytes) : Csv.unixLines (comma :: text) = comma :: Csv.unixLines text := by
    rw [← List.singleton_append, Csv.unixLines_append (by decide), List.singleton_append]
  have htail : (13 : UInt8) ∉ Decimal.encode r.messageLength ++ comma ::
      (Decimal.encode r.stampCount ++ [newline]) := by
    simp only [List.mem_append, List.mem_cons, List.not_mem_nil, or_false, not_or]
    exact ⟨hdigits _ (by decide), by decide, hdigits _ (by decide), by decide⟩
  rw [hsplit, Csv.unixLines_append_cons hhead (by decide), hcomma, Csv.unixLines_append htail,
    hsplit]

theorem unixLines_csv {rows : List Row} (h : ∀ r ∈ rows, r.Valid) :
    Csv.unixLines (csv rows) = csv rows := by
  have hheader : (13 : UInt8) ∉ header ++ [newline] := by decide
  rw [csv, Csv.unixLines_append hheader]
  congr 1
  induction rows with
  | nil => rfl
  | cons r rows ih =>
    rw [List.map_cons, List.flatten_cons, unixLines_line (h r List.mem_cons_self),
      ih fun r' hr' => h r' (List.mem_cons_of_mem _ hr')]

theorem readAll_csv {rows : List Row} (h : ∀ r ∈ rows, r.Valid)
    (hquote : ∀ r ∈ rows, quote ∉ r.path) :
    Csv.readAll (csv rows) = .ok headerFields :: rows.map fun r => .ok r.fields := by
  have hrecords : ∀ fields ∈ headerFields :: rows.map Row.fields,
      Csv.IsPlainRecord fields ∧ fields.length = 4 := by
    intro fields hmem
    rcases List.mem_cons.mp hmem with rfl | hmem
    · refine ⟨⟨⟨_, _, rfl, by decide⟩, ?_⟩, rfl⟩
      unfold Csv.Plain
      decide +kernel
    · obtain ⟨r, hr, rfl⟩ := List.mem_map.mp hmem
      exact ⟨isPlainRecord_fields (h r hr) (hquote r hr), rfl⟩
  have hcr := unixLines_csv h
  rw [csv_eq] at hcr ⊢
  rw [Csv.readAll_lines hrecords hcr, List.map_cons, List.map_map]
  rfl

end Lines

/-- The map of all rows. -/
theorem analyze_csv {rows : List Row} (h : ∀ r ∈ rows, r.Valid)
    (hquote : ∀ r ∈ rows, quote ∉ r.path) (hfits : ∀ r ∈ rows, r.Fits) :
    ∃ stats, analyze (csv rows) = .ok stats ∧
      GroupBy.Groups Row.key ChannelStats.of stats rows := by
  obtain ⟨stats, hrun, hgroups⟩ :=
    analyzeRecords_rows (show GroupBy.Groups Row.key ChannelStats.of [] [] from
      GroupBy.Groups.nil) hfits 2
  refine ⟨stats, ?_, hgroups⟩
  have hcolumns : ¬ headerFields.length ≠ 4 := by decide
  simp only [analyze, readAll_csv h hquote, if_neg hcolumns]
  exact hrun

/-- The baseline writes the record of each group once, in the arithmetic of 64 bits. -/
theorem output_csv (mean : ℤ → ℤ → Bytes) {rows : List Row} (h : ∀ r ∈ rows, r.Valid)
    (hquote : ∀ r ∈ rows, quote ∉ r.path) (hfits : ∀ r ∈ rows, r.Fits) :
    ∃ lines, output mean (csv rows) = some lines ∧ IsReport (wrappedLine mean) rows lines := by
  obtain ⟨stats, hrun, hgroups⟩ := analyze_csv h hquote hfits
  obtain ⟨lines, hwrite, hreport⟩ :=
    isReport_writeStats mean hgroups fun r hr => (h r hr).comma_notMem
  refine ⟨lines, ?_, hreport⟩
  simp only [output, hrun]
  exact hwrite

end OneBrc.Analyzer.BaselineGo
