import Mathlib.Data.List.DropRight
import OneBrc.Analyzer.Baseline
import OneBrc.Analyzer.Scan

/-! The baseline in Zig: lines of a reader with a buffer of fixed size, columns between commas, and
numbers read by `std.fmt.parseInt`. -/
namespace OneBrc.Analyzer.BaselineZig
open Lib

inductive AnalyzeError where
  | streamTooLong
  | missingHeader
  | invalidHeader
  | record (lineNumber : ℕ) (e : RecordError)

def bufferSize : ℕ := 4096

/-- A line without its LF. The buffer of the reader holds no line that fills it. -/
def takeDelimiter (line : Bytes) : Option Bytes :=
  let line := if line.getLast? = some newline then line.dropLast else line
  if line.length < bufferSize then some line else none

def trimRight (line : Bytes) : Bytes := line.rdropWhile (· = carriageReturn)

def underscore : UInt8 := 95

/-- `parseInt` in base 10: digits after an optional sign, with underscores between them. -/
def parseInt (text : Bytes) : Option Int64 :=
  let (_, body) := Decimal.sign text
  if body.head? = some underscore ∨ body.getLast? = some underscore then none
  else Decimal.parseInt64 (text.filter (· ≠ underscore))

def countFields (line : Bytes) : ℕ := line.count comma + 1

/-- A line after the header; empty lines are skipped. -/
def analyzeLine (lineNumber : ℕ) (stats : StatsMap) (line : Bytes) :
    Except AnalyzeError StatsMap :=
  match takeDelimiter line with
  | none => .error .streamTooLong
  | some line =>
      let line := trimRight line
      if line = [] then .ok stats
      else match analyzeRecord parseInt stats (line.splitOn comma) with
        | .error e => .error (.record lineNumber e)
        | .ok stats => .ok stats

/-- The first line is the header. -/
def analyze (text : Bytes) : Except AnalyzeError StatsMap :=
  match Lines.split newline text with
  | [] => .error .missingHeader
  | header :: lines =>
      match takeDelimiter header with
      | none => .error .streamTooLong
      | some header =>
          if countFields (trimRight header) ≠ 4 then .error .invalidHeader
          else analyzeFrom analyzeLine 2 [] lines

/-- The lines of the output; none after an error. -/
def output (mean : ℤ → ℤ → Bytes) (text : Bytes) : Option (List Bytes) :=
  match analyze text with
  | .ok stats => writeStats mean stats
  | .error _ => none

/-- A row whose line the buffer holds. -/
def InBuffer (r : Row) : Prop := r.text.length < bufferSize

instance (r : Row) : Decidable (InBuffer r) := inferInstanceAs (Decidable (_ < _))

theorem readsInt : ReadsInt parseInt := by
  intro n hn
  have hdigit : ∀ b ∈ Decimal.encode n, b ≠ underscore := by
    intro b hb
    rintro rfl
    exact absurd (Decimal.isDigit_of_mem_encode hb) (by decide)
  have hfilter : (Decimal.encode n).filter (· ≠ underscore) = Decimal.encode n :=
    List.filter_eq_self.mpr fun b hb => decide_eq_true (hdigit b hb)
  have hinner : ¬ ((Decimal.encode n).head? = some underscore ∨
      (Decimal.encode n).getLast? = some underscore) := by
    rintro (hhead | hlast)
    · exact hdigit _ (List.mem_of_mem_head? hhead) rfl
    · exact hdigit _ (List.mem_of_getLast? hlast) rfl
  simp only [parseInt, Decimal.sign_encode, if_neg hinner, hfilter]
  exact Decimal.parseInt64_encode hn

section Rows
variable {r : Row} {rows : List Row}

theorem takeDelimiter_append (body : Bytes) : takeDelimiter (body ++ [newline]) =
    if body.length < bufferSize then some body else none := by
  simp only [takeDelimiter, List.getLast?_concat, if_true, List.dropLast_concat]

theorem takeDelimiter_text (r : Row) :
    takeDelimiter (r.text ++ [newline]) = if InBuffer r then some r.text else none :=
  takeDelimiter_append r.text

theorem trimRight_text (r : Row) : trimRight r.text = r.text := by
  refine List.rdropWhile_eq_self_iff.mpr fun hne hlast => ?_
  apply getLast?_text_ne (r := r) (show Decimal.isDigit carriageReturn = false by decide)
  rw [List.getLast?_eq_some_getLast hne, of_decide_eq_true hlast]

/-- The line of a row is counted as its record, or fills the buffer. -/
theorem analyzeLine_text (hcomma : comma ∉ r.path) (hfits : r.Fits) (lineNumber : ℕ)
    (stats : StatsMap) : analyzeLine lineNumber stats (r.text ++ [newline]) =
      if InBuffer r then .ok (GroupBy.upsert r.key (ChannelStats.add
        (Int64.ofNat r.messageLength) (Int64.ofNat r.stampCount)) stats)
      else .error .streamTooLong := by
  by_cases hbuffer : InBuffer r
  · simp only [analyzeLine, takeDelimiter_text, if_pos hbuffer, trimRight_text,
      if_neg (text_ne_nil r), splitOn_text hcomma, analyzeRecord_fields readsInt hfits]
  · simp only [analyzeLine, takeDelimiter_text, if_neg hbuffer]

theorem analyze_eq (h : ∀ r ∈ rows, r.Valid) : analyze (csv rows) =
    analyzeFrom analyzeLine 2 [] (rows.map fun r => r.text ++ [newline]) := by
  have hheader : takeDelimiter (header ++ [newline]) = some header := by
    rw [takeDelimiter_append]
    exact if_pos (by decide)
  have hcolumns : ¬ countFields (trimRight header) ≠ 4 := by decide
  rw [analyze, split_csv fun r hr => (h r hr).terminated]
  simp only [hheader, if_neg hcolumns]

/-- The map of all rows. -/
theorem analyze_csv (h : ∀ r ∈ rows, r.Valid) (hfits : ∀ r ∈ rows, r.Fits)
    (hbuffer : ∀ r ∈ rows, InBuffer r) : ∃ stats, analyze (csv rows) = .ok stats ∧
      GroupBy.Groups Row.key ChannelStats.of stats rows := by
  have hline : ∀ r ∈ rows, ∀ lineNumber stats stats',
      analyzeRecord parseInt stats r.fields = .ok stats' →
        analyzeLine (lineNumber + 2) stats (r.text ++ [newline]) = .ok stats' := by
    intro r hr lineNumber stats stats' hcount
    rw [analyzeRecord_fields readsInt (hfits r hr)] at hcount
    rw [analyzeLine_text (h r hr).comma_notMem (hfits r hr), if_pos (hbuffer r hr)]
    exact congrArg Except.ok (Except.ok.inj hcount)
  obtain ⟨stats, hrun, hgroups⟩ := analyzeFrom_groups readsInt (fun r => r.text ++ [newline]) hline
    (show GroupBy.Groups Row.key ChannelStats.of [] [] from GroupBy.Groups.nil) hfits 0
  exact ⟨stats, (analyze_eq h).trans hrun, hgroups⟩

/-- One line that fills the buffer ends the program. -/
theorem analyze_error (h : ∀ r ∈ rows, r.Valid) (hfits : ∀ r ∈ rows, r.Fits)
    (hbuffer : ¬ ∀ r ∈ rows, InBuffer r) : ∃ e, analyze (csv rows) = .error e := by
  push Not at hbuffer
  obtain ⟨r, hr, hlong⟩ := hbuffer
  rw [analyze_eq h]
  refine analyzeFrom_error ⟨_, List.mem_map_of_mem hr, fun lineNumber stats => ?_⟩ 2 []
  rw [analyzeLine_text (h r hr).comma_notMem (hfits r hr)]
  exact ⟨_, if_neg hlong⟩

end Rows
end OneBrc.Analyzer.BaselineZig
