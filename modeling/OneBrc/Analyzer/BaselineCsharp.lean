import OneBrc.Analyzer.BaselineTypeScript

/-! The baseline in C#: lines of a `TextReader`, columns between commas, and numbers read by
`int.Parse` and `long.Parse`. Texts are ASCII. -/
namespace OneBrc.Analyzer.BaselineCsharp
open Lib
open BaselineTypeScript (readLines readLines_csv)

/-- `Parse` of signed integers: blanks, a sign, digits in the range of the type, and then blanks
and NULs. -/
def parse (bits : ℕ) (text : Bytes) : Option Int64 :=
  let (negative, body) := Decimal.sign (text.dropWhile Decimal.isSpace)
  let digits := body.takeWhile Decimal.isDigit
  let rest := (body.dropWhile Decimal.isDigit).dropWhile Decimal.isSpace
  if digits = [] ∨ ¬ rest.all (· = 0) then none
  else
    let n : ℤ := if negative then -(Decimal.value digits : ℤ) else Decimal.value digits
    if -2 ^ (bits - 1) ≤ n ∧ n < 2 ^ (bits - 1) then some (Int64.ofInt n) else none

inductive AnalyzeError where
  | noHeader
  | invalidHeader
  | invalidLine (lineNumber : ℕ)
  | record (lineNumber : ℕ) (e : RecordError)

/-- A record counted under its key. -/
def countRecord (stats : StatsMap) (unixTimestamp channelPath messageLength stampCount : Bytes) :
    Except RecordError StatsMap := do
  let key ← resultKey (parse 64) unixTimestamp channelPath
  let length ← orError (.messageLength messageLength) (parse 32 messageLength)
  let stamps ← orError (.stampCount stampCount) (parse 32 stampCount)
  .ok (GroupBy.upsert key (ChannelStats.add length stamps) stats)

/-- A line after the header; empty lines are skipped. -/
def analyzeLine (lineNumber : ℕ) (stats : StatsMap) (line : Bytes) :
    Except AnalyzeError StatsMap :=
  if line = [] then .ok stats
  else match line.splitOn comma with
    | [unixTimestamp, channelPath, messageLength, stampCount] =>
        match countRecord stats unixTimestamp channelPath messageLength stampCount with
        | .error e => .error (.record lineNumber e)
        | .ok stats => .ok stats
    | _ => .error (.invalidLine lineNumber)

/-- The first line is the header. -/
def analyze (text : Bytes) : Except AnalyzeError StatsMap :=
  match readLines [] text with
  | [] => .error .noHeader
  | header :: lines =>
      if (header.splitOn comma).length ≠ 4 then .error .invalidHeader
      else analyzeFrom analyzeLine 2 [] lines

/-- The lines of the output; none after an error. -/
def output (mean : ℤ → ℤ → Bytes) (text : Bytes) : Option (List Bytes) :=
  match analyze text with
  | .ok stats => writeStats mean stats
  | .error _ => none

/-- A row whose numbers are integers of 32 bits. -/
structure Fits32 (r : Row) : Prop where
  in2027 : In2027 r.timestamp
  messageLength_lt : r.messageLength < 2 ^ 31
  stampCount_lt : r.stampCount < 2 ^ 31

section Rows
variable {r : Row} {rows : List Row}

theorem Fits32.fits (h : Fits32 r) : r.Fits where
  in2027 := h.in2027
  messageLength_lt := Nat.lt_trans h.messageLength_lt (by decide)
  stampCount_lt := Nat.lt_trans h.stampCount_lt (by decide)

/-- A canonical decimal in the range of the type. -/
theorem parse_encode {bits n : ℕ} (h : n < 2 ^ (bits - 1)) :
    parse bits (Decimal.encode n) = some (Int64.ofNat n) := by
  have hdigit : ∀ b ∈ Decimal.encode n, Decimal.isDigit b = true :=
    fun b hb => Decimal.isDigit_of_mem_encode hb
  have hspace := Decimal.dropWhile_isSpace_encode n []
  rw [List.append_nil] at hspace
  have htake : (Decimal.encode n).takeWhile Decimal.isDigit = Decimal.encode n :=
    List.takeWhile_eq_self_iff.mpr hdigit
  have hdrop : (Decimal.encode n).dropWhile Decimal.isDigit = [] :=
    List.dropWhile_eq_nil_iff.mpr hdigit
  have hvalid : ¬ (Decimal.encode n = [] ∨
      ¬ (([] : Bytes).dropWhile Decimal.isSpace).all (· = 0) = true) := by
    rintro (hnil | hrest)
    · exact Decimal.encode_ne_nil n hnil
    · exact hrest rfl
  have hrange : -2 ^ (bits - 1) ≤ (n : ℤ) ∧ (n : ℤ) < 2 ^ (bits - 1) := by
    have hlt : (n : ℤ) < 2 ^ (bits - 1) := by exact_mod_cast h
    constructor
    · linarith [Int.natCast_nonneg n]
    · exact hlt
  simp only [parse, hspace, Decimal.sign_encode, htake, hdrop, if_neg hvalid,
    Decimal.value_encode, Bool.false_eq_true, if_false, if_pos hrange]
  rfl

/-- The line of a row is counted as its record. -/
theorem analyzeLine_text (hcomma : comma ∉ r.path) (hr : Fits32 r) (lineNumber : ℕ)
    {stats stats' : StatsMap} (h : analyzeRecord Decimal.parseInt64 stats r.fields = .ok stats') :
    analyzeLine lineNumber stats r.text = .ok stats' := by
  obtain ⟨-, hhigh⟩ := day_of_in2027 hr.in2027
  have htimestamp : parse 64 (Decimal.encode r.timestamp) = some (Int64.ofNat r.timestamp) :=
    parse_encode (by omega)
  have hlength : parse 32 (Decimal.encode r.messageLength) =
      some (Int64.ofNat r.messageLength) := parse_encode hr.messageLength_lt
  have hstamps : parse 32 (Decimal.encode r.stampCount) = some (Int64.ofNat r.stampCount) :=
    parse_encode hr.stampCount_lt
  have hmonth := monthLabelFromUnixTimestamp_of_in2027 hr.in2027
  have hcount : countRecord stats (Decimal.encode r.timestamp) r.path
      (Decimal.encode r.messageLength) (Decimal.encode r.stampCount) = .ok stats' := by
    rw [analyzeRecord_fields (fun _ => Decimal.parseInt64_encode) hr.fits] at h
    rw [← h]
    simp only [countRecord, resultKey, htimestamp, hlength, hstamps, hmonth, orError, bind,
      Except.bind]
    rfl
  simp only [analyzeLine, if_neg (text_ne_nil r), splitOn_text hcomma, Row.fields, hcount]

/-- The map of all rows. -/
theorem analyze_csv (h : ∀ r ∈ rows, r.Valid) (hcr : ∀ r ∈ rows, carriageReturn ∉ r.path)
    (hfits : ∀ r ∈ rows, Fits32 r) :
    ∃ stats, analyze (csv rows) = .ok stats ∧
      GroupBy.Groups Row.key ChannelStats.of stats rows := by
  obtain ⟨stats, hrun, hgroups⟩ := analyzeFrom_groups (fun _ => Decimal.parseInt64_encode)
    Row.text (fun r hr lineNumber _ _ hcount =>
      analyzeLine_text (h r hr).comma_notMem (hfits r hr) (lineNumber + 2) hcount)
    (show GroupBy.Groups Row.key ChannelStats.of [] [] from GroupBy.Groups.nil)
    (fun r hr => (hfits r hr).fits) 0
  refine ⟨stats, ?_, hgroups⟩
  have hcolumns : ¬ (header.splitOn comma).length ≠ 4 := by decide
  rw [analyze, readLines_csv h hcr]
  simp only [if_neg hcolumns]
  exact hrun

/-- The baseline writes the record of each group once, in the arithmetic of 64 bits. -/
theorem output_csv (mean : ℤ → ℤ → Bytes) (h : ∀ r ∈ rows, r.Valid)
    (hcr : ∀ r ∈ rows, carriageReturn ∉ r.path) (hfits : ∀ r ∈ rows, Fits32 r) :
    ∃ lines, output mean (csv rows) = some lines ∧ IsReport (wrappedLine mean) rows lines := by
  obtain ⟨stats, hrun, hgroups⟩ := analyze_csv h hcr hfits
  obtain ⟨lines, hwrite, hreport⟩ :=
    isReport_writeStats mean hgroups fun r hr => (h r hr).comma_notMem
  refine ⟨lines, ?_, hreport⟩
  simp only [output, hrun]
  exact hwrite

end Rows
end OneBrc.Analyzer.BaselineCsharp
