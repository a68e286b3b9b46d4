import Mathlib.Data.List.TakeWhile
import OneBrc.Analyzer.Baseline
import OneBrc.Analyzer.Scan

/-! The baseline in C++: lines and columns of `std::getline`, and numbers read by `std::stoi` and
`std::stoll`. -/
namespace OneBrc.Analyzer.BaselineCpp
open Lib

inductive AnalyzeError where
  | noHeader
  | invalidHeader
  | invalidLine (lineNumber : ℕ)
  | record (e : RecordError)

/-- `stoi` and `stoll`: blanks, a sign, and digits in the range of the type. What follows the digits
is ignored. -/
def sto (bits : ℕ) (text : Bytes) : Option Int64 :=
  let (negative, body) := Decimal.sign (text.dropWhile Decimal.isSpace)
  let digits := body.takeWhile Decimal.isDigit
  if digits = [] then none
  else
    let n : ℤ := if negative then -(Decimal.value digits : ℤ) else Decimal.value digits
    if -2 ^ (bits - 1) ≤ n ∧ n < 2 ^ (bits - 1) then some (Int64.ofInt n) else none

/-- A line without its LF. -/
def getline (line : Bytes) : Bytes :=
  if line.getLast? = some newline then line.dropLast else line

/-- The columns of a line. No column is read after a comma at its end. -/
def splitLine (line : Bytes) : List Bytes :=
  let fields := line.splitOn comma
  if fields.getLast? = some [] then fields.dropLast else fields

/-- A line after the header; empty lines are skipped. -/
def analyzeLine (lineNumber : ℕ) (stats : StatsMap) (line : Bytes) :
    Except AnalyzeError StatsMap :=
  let line := getline line
  if line = [] then .ok stats
  else match splitLine line with
    | [unixTimestamp, channelPath, messageLength, stampCount] =>
        let count : Except RecordError StatsMap := do
          let key ← resultKey (sto 64) unixTimestamp channelPath
          let length ← orError (.messageLength messageLength) (sto 32 messageLength)
          let stamps ← orError (.stampCount stampCount) (sto 32 stampCount)
          .ok (GroupBy.upsert key (ChannelStats.add length stamps) stats)
        match count with
        | .error e => .error (.record e)
        | .ok stats => .ok stats
    | _ => .error (.invalidLine lineNumber)

/-- The first line is the header. -/
def analyze (text : Bytes) : Except AnalyzeError StatsMap :=
  match Lines.split newline text with
  | [] => .error .noHeader
  | header :: lines =>
      if (splitLine (getline header)).length ≠ 4 then .error .invalidHeader
      else analyzeFrom analyzeLine 2 [] lines

/-- The lines of the output; none after an error. -/
def output (mean : ℤ → ℤ → Bytes) (text : Bytes) : Option (List Bytes) :=
  match analyze text with
  | .ok stats => writeStats mean stats
  | .error _ => none

/-- A row whose numbers are integers of 32 bits. -/
def InInt (r : Row) : Prop := r.messageLength < 2 ^ 31 ∧ r.stampCount < 2 ^ 31

instance (r : Row) : Decidable (InInt r) := inferInstanceAs (Decidable (_ ∧ _))

section Numbers

theorem sto_eq (bits n : ℕ) : sto bits (Decimal.encode n) =
    if n < 2 ^ (bits - 1) then some (Int64.ofNat n) else none := by
  have hdigit : ∀ b ∈ Decimal.encode n, Decimal.isDigit b = true :=
    fun b hb => Decimal.isDigit_of_mem_encode hb
  have hspace := Decimal.dropWhile_isSpace_encode n []
  rw [List.append_nil] at hspace
  have htake : (Decimal.encode n).takeWhile Decimal.isDigit = Decimal.encode n :=
    List.takeWhile_eq_self_iff.mpr hdigit
  have hlow : -2 ^ (bits - 1) ≤ (n : ℤ) := by
    have hpow : (0 : ℤ) ≤ 2 ^ (bits - 1) := by positivity
    linarith [Int.natCast_nonneg n]
  have hiff : -2 ^ (bits - 1) ≤ (n : ℤ) ∧ (n : ℤ) < 2 ^ (bits - 1) ↔ n < 2 ^ (bits - 1) := by
    rw [and_iff_right hlow]
    exact_mod_cast Iff.rfl
  simp only [sto, hspace, Decimal.sign_encode, htake, if_neg (Decimal.encode_ne_nil n),
    Decimal.value_encode, Bool.false_eq_true, if_false, hiff]
  rfl

end Numbers

section Rows
variable {r : Row} {rows : List Row}

theorem getline_append {body : Bytes} : getline (body ++ [newline]) = body := by
  rw [getline, if_pos List.getLast?_concat, List.dropLast_concat]

/-- A row ends with a digit, so its columns are all read. -/
theorem splitLine_text (hcomma : comma ∉ r.path) : splitLine r.text = r.fields := by
  have hlast : r.fields.getLast? = some (Decimal.encode r.stampCount) := rfl
  have hne : ¬ r.fields.getLast? = some [] := by
    rw [hlast]
    exact fun h => Decimal.encode_ne_nil _ (Option.some.inj h)
  simp only [splitLine, splitOn_text hcomma, if_neg hne]

/-- The line of a row is counted as its record, or refused because a number is out of range. -/
theorem analyzeLine_text (hcomma : comma ∉ r.path) (hfits : r.Fits) (lineNumber : ℕ)
    (stats : StatsMap) : analyzeLine lineNumber stats (r.text ++ [newline]) =
      if r.messageLength < 2 ^ 31 then
        if r.stampCount < 2 ^ 31 then
          .ok (GroupBy.upsert r.key (ChannelStats.add (Int64.ofNat r.messageLength)
            (Int64.ofNat r.stampCount)) stats)
        else .error (.record (.stampCount (Decimal.encode r.stampCount)))
      else .error (.record (.messageLength (Decimal.encode r.messageLength))) := by
  obtain ⟨-, hhigh⟩ := day_of_in2027 hfits.in2027
  have htimestamp : sto 64 (Decimal.encode r.timestamp) = some (Int64.ofNat r.timestamp) := by
    rw [sto_eq]
    exact if_pos (by omega)
  have hmonth := monthLabelFromUnixTimestamp_of_in2027 hfits.in2027
  simp only [analyzeLine, getline_append, if_neg (text_ne_nil r), splitLine_text hcomma,
    Row.fields, resultKey, htimestamp, sto_eq, hmonth, orError, bind, Except.bind]
  by_cases hlength : r.messageLength < 2 ^ 31
  · by_cases hstamps : r.stampCount < 2 ^ 31
    · simp only [Nat.add_one_sub_one, hlength, hstamps, if_true]
      rfl
    · simp only [Nat.add_one_sub_one, hlength, hstamps, if_true, if_false]
  · simp only [Nat.add_one_sub_one, hlength, if_false]

theorem analyze_eq (h : ∀ r ∈ rows, r.Valid) : analyze (csv rows) =
    analyzeFrom analyzeLine 2 [] (rows.map fun r => r.text ++ [newline]) := by
  have hcolumns : ¬ (splitLine (getline (header ++ [newline]))).length ≠ 4 := by
    rw [getline_append]
    decide
  rw [analyze, split_csv fun r hr => (h r hr).terminated]
  exact if_neg hcolumns

/-- The map of all rows. -/
theorem analyze_csv (h : ∀ r ∈ rows, r.Valid) (hfits : ∀ r ∈ rows, r.Fits)
    (hint : ∀ r ∈ rows, InInt r) : ∃ stats, analyze (csv rows) = .ok stats ∧
      GroupBy.Groups Row.key ChannelStats.of stats rows := by
  have hline : ∀ r ∈ rows, ∀ lineNumber stats stats',
      analyzeRecord Decimal.parseInt64 stats r.fields = .ok stats' →
        analyzeLine (lineNumber + 2) stats (r.text ++ [newline]) = .ok stats' := by
    intro r hr lineNumber stats stats' hcount
    rw [analyzeRecord_fields (fun _ => Decimal.parseInt64_encode) (hfits r hr)] at hcount
    rw [analyzeLine_text (h r hr).comma_notMem (hfits r hr), if_pos (hint r hr).1,
      if_pos (hint r hr).2]
    exact congrArg Except.ok (Except.ok.inj hcount)
  obtain ⟨stats, hrun, hgroups⟩ := analyzeFrom_groups (fun _ => Decimal.parseInt64_encode)
    (fun r => r.text ++ [newline]) hline
    (show GroupBy.Groups Row.key ChannelStats.of [] [] from GroupBy.Groups.nil) hfits 0
  exact ⟨stats, (analyze_eq h).trans hrun, hgroups⟩

/-- One row out of the range of `int` ends the program. -/
theorem analyze_error (h : ∀ r ∈ rows, r.Valid) (hfits : ∀ r ∈ rows, r.Fits)
    (hint : ¬ ∀ r ∈ rows, InInt r) : ∃ e, analyze (csv rows) = .error e := by
  push Not at hint
  obtain ⟨r, hr, hrange⟩ := hint
  rw [analyze_eq h]
  refine analyzeFrom_error ⟨_, List.mem_map_of_mem hr, fun lineNumber stats => ?_⟩ 2 []
  rw [analyzeLine_text (h r hr).comma_notMem (hfits r hr)]
  by_cases hlength : r.messageLength < 2 ^ 31
  · have hstamps : ¬ r.stampCount < 2 ^ 31 := fun hstamps => hrange ⟨hlength, hstamps⟩
    exact ⟨_, by rw [if_pos hlength, if_neg hstamps]⟩
  · exact ⟨_, if_neg hlength⟩

end Rows
end OneBrc.Analyzer.BaselineCpp
