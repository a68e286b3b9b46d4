import OneBrc.Analyzer.Baseline
import OneBrc.Analyzer.Scan

/-! The baseline in Rust: lines of UTF-8, and their columns between commas. -/
namespace OneBrc.Analyzer.BaselineRust
open Lib

inductive AnalyzeError where
  | read (lineNumber : ℕ)
  | headerColumns (got : ℕ)
  | record (lineNumber : ℕ) (e : RecordError)

/-- A line without its LF and a CR before it. -/
def chomp (line : Bytes) : Bytes :=
  if line.getLast? = some newline then
    let line := line.dropLast
    if line.getLast? = some carriageReturn then line.dropLast else line
  else line

/-- A line of UTF-8; other lines are not read. -/
def readLine (line : Bytes) : Option Bytes :=
  if line.toByteArray.validateUTF8 then some (chomp line) else none

/-- The first line is the header; empty lines are skipped. -/
def analyzeLine (lineNumber : ℕ) (stats : StatsMap) (line : Bytes) :
    Except AnalyzeError StatsMap :=
  match readLine line with
  | none => .error (.read lineNumber)
  | some line =>
      if lineNumber = 1 then
        let header := line.splitOn comma
        if header.length ≠ 4 then .error (.headerColumns header.length) else .ok stats
      else if line = [] then .ok stats
      else match analyzeRecord Decimal.parseInt64 stats (line.splitOn comma) with
        | .error e => .error (.record lineNumber e)
        | .ok stats => .ok stats

def analyze (text : Bytes) : Except AnalyzeError StatsMap :=
  analyzeFrom analyzeLine 1 [] (Lines.split newline text)

/-- The lines of the output; none after an error. -/
def output (mean : ℤ → ℤ → Bytes) (text : Bytes) : Option (List Bytes) :=
  match analyze text with
  | .ok stats => writeStats mean stats
  | .error _ => none

section Lines
variable {r : Row} {rows : List Row}

theorem readLine_append {body : Bytes} (hascii : ∀ b ∈ body, b < 128)
    (hcr : body.getLast? ≠ some carriageReturn) : readLine (body ++ [newline]) = some body := by
  have hvalid : (body ++ [newline]).toByteArray.validateUTF8 = true := by
    apply Utf8.validateUTF8_of_ascii
    intro b hb
    rcases List.mem_append.mp hb with hb | hb
    · exact hascii b hb
    · rw [List.mem_singleton.mp hb]
      decide
  have hlast : (body ++ [newline]).getLast? = some newline := List.getLast?_concat
  rw [readLine, if_pos hvalid, chomp, if_pos hlast, List.dropLast_concat]
  exact congrArg some (if_neg hcr)

/-- The line of a row is counted as its record. -/
theorem analyzeLine_text (hcomma : comma ∉ r.path) (hascii : ∀ b ∈ r.path, b < 128)
    (lineNumber : ℕ) (stats stats' : StatsMap)
    (h : analyzeRecord Decimal.parseInt64 stats r.fields = .ok stats') :
    analyzeLine (lineNumber + 2) stats (r.text ++ [newline]) = .ok stats' := by
  have hread := readLine_append (ascii_text hascii)
    (getLast?_text_ne (r := r) (show Decimal.isDigit carriageReturn = false by decide))
  have hnumber : lineNumber + 2 ≠ 1 := by omega
  simp only [analyzeLine, hread, if_neg hnumber, if_neg (text_ne_nil r), splitOn_text hcomma, h]

theorem analyzeLine_header (stats : StatsMap) :
    analyzeLine 1 stats (header ++ [newline]) = .ok stats := by
  have hread : readLine (header ++ [newline]) = some header :=
    readLine_append (by decide +kernel) (by decide)
  have hcolumns : ¬ (header.splitOn comma).length ≠ 4 := by decide
  simp only [analyzeLine, hread, if_true, if_neg hcolumns]

end Lines

section Rows
variable {rows : List Row}

/-- The map of all rows. -/
theorem analyze_csv (h : ∀ r ∈ rows, r.Valid) (hascii : ∀ r ∈ rows, ∀ b ∈ r.path, b < 128)
    (hfits : ∀ r ∈ rows, r.Fits) :
    ∃ stats, analyze (csv rows) = .ok stats ∧
      GroupBy.Groups Row.key ChannelStats.of stats rows := by
  obtain ⟨stats, hrun, hgroups⟩ := analyzeFrom_groups (fun _ => Decimal.parseInt64_encode)
    (fun r => r.text ++ [newline])
    (fun r hr => analyzeLine_text (h r hr).comma_notMem (hascii r hr))
    (show GroupBy.Groups Row.key ChannelStats.of [] [] from GroupBy.Groups.nil) hfits 0
  refine ⟨stats, ?_, hgroups⟩
  rw [analyze, split_csv fun r hr => (h r hr).terminated, analyzeFrom, analyzeLine_header]
  exact hrun

/-- The baseline writes the record of each group once, in the arithmetic of 64 bits. -/
theorem output_csv (mean : ℤ → ℤ → Bytes) (h : ∀ r ∈ rows, r.Valid)
    (hascii : ∀ r ∈ rows, ∀ b ∈ r.path, b < 128) (hfits : ∀ r ∈ rows, r.Fits) :
    ∃ lines, output mean (csv rows) = some lines ∧ IsReport (wrappedLine mean) rows lines := by
  obtain ⟨stats, hrun, hgroups⟩ := analyze_csv h hascii hfits
  obtain ⟨lines, hwrite, hreport⟩ :=
    isReport_writeStats mean hgroups fun r hr => (h r hr).comma_notMem
  refine ⟨lines, ?_, hreport⟩
  simp only [output, hrun]
  exact hwrite

end Rows
end OneBrc.Analyzer.BaselineRust
