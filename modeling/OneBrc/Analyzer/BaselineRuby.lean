import OneBrc.Analyzer.Cells
import OneBrc.Analyzer.Scan
import OneBrc.Lib.RubyInteger

/-! The baseline in Ruby: lines of a file, their columns between commas, and integers of any
size. -/
namespace OneBrc.Analyzer.BaselineRuby
open Lib

inductive AnalyzeError where
  | invalidText (lineNumber : ℕ)
  | headerColumns (got : ℕ)
  | record (lineNumber : ℕ) (e : Refusal ℤ)

/-- A line without a CR LF, LF or CR at its end. -/
def chomp (line : Bytes) : Bytes :=
  if line.getLast? = some newline then
    let line := line.dropLast
    if line.getLast? = some carriageReturn then line.dropLast else line
  else if line.getLast? = some carriageReturn then line.dropLast
  else line

/-- The columns of a line; text that is not UTF-8 is not split. -/
def columns (line : Bytes) : Option (List Bytes) :=
  if line = [] then some []
  else if line.toByteArray.validateUTF8 then some (line.splitOn comma)
  else none

/-- A line after the header; empty lines are skipped. -/
def analyzeLine (stats : List (Bytes × Cell ℤ)) (numbered : Bytes × ℕ) :
    Except AnalyzeError (List (Bytes × Cell ℤ)) :=
  let line := chomp numbered.1
  if line = [] then .ok stats
  else match columns line with
    | none => .error (.invalidText numbered.2)
    | some record =>
        match countRecord (· + ·) RubyInteger.integer stats record with
        | .error e => .error (.record numbered.2 e)
        | .ok stats => .ok stats

/-- The first line is the header. -/
def analyze (text : Bytes) : Except AnalyzeError (List (Bytes × Cell ℤ)) :=
  match Lines.split newline text with
  | [] => .ok []
  | first :: lines =>
      match columns (chomp first) with
      | none => .error (.invalidText 1)
      | some header =>
          if header.length ≠ 4 then .error (.headerColumns header.length)
          else (lines.zipIdx 2).foldlM analyzeLine []

/-- The lines of the output; none after an error. `quotient` gives the bits of the binary number of
64 bits nearest to a quotient. -/
def output (quotient : ℤ → ℤ → ℕ) (text : Bytes) : Option (List Bytes) :=
  match analyze text with
  | .ok stats =>
      writeCells Decimal.encodeInt (fun total count => formatFixed2 (quotient total count)) stats
  | .error _ => none

theorem adds : Adds (ν := ℤ) (· + ·) fun _ => True where
  add m n _ := (Nat.cast_add m n).symm
  mono _ _ _ _ := trivial

theorem sums (g : List Row) : Sums (fun _ => True) g := ⟨trivial, trivial, trivial⟩

section Rows
variable {rows : List Row} {r : Row}

theorem chomp_append {body : Bytes} (hcr : body.getLast? ≠ some carriageReturn) :
    chomp (body ++ [newline]) = body := by
  have hlast : (body ++ [newline]).getLast? = some newline := List.getLast?_concat
  rw [chomp, if_pos hlast, List.dropLast_concat]
  exact if_neg hcr

theorem columns_text (hcomma : comma ∉ r.path) (hascii : ∀ b ∈ r.path, b < 128) :
    columns r.text = some r.fields := by
  rw [columns, if_neg (text_ne_nil r),
    if_pos (Utf8.validateUTF8_of_ascii (ascii_text hascii)), splitOn_text hcomma]

/-- The line of a row is counted as its record. -/
theorem analyzeLine_text (hcomma : comma ∉ r.path) (hascii : ∀ b ∈ r.path, b < 128)
    (lineNumber : ℕ)
    {stats stats' : List (Bytes × Cell ℤ)}
    (h : countRecord (· + ·) RubyInteger.integer stats r.fields = .ok stats') :
    analyzeLine stats (r.text ++ [newline], lineNumber) = .ok stats' := by
  have hchomp := chomp_append
    (getLast?_text_ne (r := r) (show Decimal.isDigit carriageReturn = false by decide))
  simp only [analyzeLine, hchomp, if_neg (text_ne_nil r), columns_text hcomma hascii, h]

theorem readsRow (r : Row) : ReadsRow (ν := ℤ) RubyInteger.integer r where
  timestamp := RubyInteger.integer_encode _
  messageLength := RubyInteger.integer_encode _
  stampCount := RubyInteger.integer_encode _

/-- The map of all rows. -/
theorem analyze_csv (h : ∀ r ∈ rows, r.Valid) (hascii : ∀ r ∈ rows, ∀ b ∈ r.path, b < 128) :
    ∃ stats, analyze (csv rows) = .ok stats ∧ GroupBy.Groups Row.key Cell.of stats rows := by
  have hsteps (k : ℕ) : List.Forall₂ (fun numbered r => ∀ stats stats',
      countRecord (ν := ℤ) (· + ·) RubyInteger.integer stats r.fields = .ok stats' →
        analyzeLine stats numbered = .ok stats')
      ((rows.map fun r => r.text ++ [newline]).zipIdx k) rows := by
    induction rows generalizing k with
    | nil => exact .nil
    | cons r rows ih =>
      obtain ⟨hr, hrows⟩ := List.forall_mem_cons.mp h
      obtain ⟨hra, hascii⟩ := List.forall_mem_cons.mp hascii
      rw [List.map_cons, List.zipIdx_cons]
      exact .cons (fun _ _ hcount => analyzeLine_text hr.comma_notMem hra k hcount)
        (ih hrows hascii _)
  obtain ⟨stats, hrun, hgroups⟩ := foldlM_groups adds
    (fun r hr => ⟨readsRow r, (h r hr).in2027⟩) (fun _ _ => sums _) (hsteps 2)
    GroupBy.Groups.nil
  refine ⟨stats, ?_, hgroups⟩
  have hchomp : chomp (header ++ [newline]) = header := chomp_append (by decide)
  have hcolumns : columns header = some (header.splitOn comma) := by
    rw [columns, if_neg (by decide), if_pos (Utf8.validateUTF8_of_ascii (by decide +kernel))]
  have hlength : ¬ (header.splitOn comma).length ≠ 4 := by decide
  rw [analyze, split_csv fun r hr => (h r hr).terminated]
  simp only [hchomp, hcolumns, if_neg hlength]
  exact hrun

/-- The baseline writes the record of each group once. -/
theorem output_csv (quotient : ℤ → ℤ → ℕ) (h : ∀ r ∈ rows, r.Valid)
    (hascii : ∀ r ∈ rows, ∀ b ∈ r.path, b < 128) :
    ∃ lines, output quotient (csv rows) = some lines ∧
      IsReport (groupLine Decimal.encodeInt fun total count => formatFixed2 (quotient total count))
        rows lines := by
  obtain ⟨stats, hrun, hgroups⟩ := analyze_csv h hascii
  obtain ⟨lines, hwrite, hreport⟩ := isReport_writeCells Decimal.encodeInt
    (fun total count => formatFixed2 (quotient total count)) hgroups
    fun r hr => (h r hr).comma_notMem
  refine ⟨lines, ?_, hreport⟩
  simp only [output, hrun]
  exact hwrite

end Rows
end OneBrc.Analyzer.BaselineRuby
