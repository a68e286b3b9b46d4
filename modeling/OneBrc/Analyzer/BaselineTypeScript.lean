import Mathlib.Data.List.TakeWhile
import OneBrc.Analyzer.Cells
import OneBrc.Analyzer.Scan
import OneBrc.Lib.Binary64

/-! The baseline in TypeScript. Its numbers are binary numbers of 64 bits: rationals that `round`
rounds after each operation. Texts are ASCII. -/
namespace OneBrc.Analyzer.BaselineTypeScript
open Lib

/-- The lines of `readline` with `crlfDelay: Infinity`, which end with LF, CR LF or CR. -/
def readLines (line : Bytes) : Bytes → List Bytes
  | [] => if line = [] then [] else [line]
  | b :: text =>
      if b = newline then line :: readLines [] text
      else if b = carriageReturn then
        if text.head? = some newline then readLines line text else line :: readLines [] text
      else readLines (line ++ [b]) text

/-- `Number.parseInt` in base 10; none unless the result is finite. -/
def parseInt (round : ℚ → ℚ) (bs : Bytes) : Option ℚ :=
  let (negative, body) := Decimal.sign (bs.dropWhile Decimal.isSpace)
  let digits := body.takeWhile Decimal.isDigit
  let n := Decimal.value digits
  if digits = [] ∨ 2 ^ 1024 - 2 ^ 970 ≤ n then none
  else some (if negative then -round n else round n)

/-- The sum of two numbers. -/
def plus (round : ℚ → ℚ) (a b : ℚ) : ℚ := round (a + b)

inductive AnalyzeError where
  | headerColumns (got : ℕ)
  | record (lineNumber : ℕ) (e : Refusal ℚ)

/-- A line after the header; empty lines are skipped. -/
def analyzeLine (round : ℚ → ℚ) (stats : List (Bytes × Cell ℚ)) (numbered : Bytes × ℕ) :
    Except AnalyzeError (List (Bytes × Cell ℚ)) :=
  let (line, lineNumber) := numbered
  if line = [] then .ok stats
  else match countRecord (plus round) (parseInt round) stats (line.splitOn comma) with
    | .error e => .error (.record lineNumber e)
    | .ok stats => .ok stats

/-- The first line is the header. -/
def analyze (round : ℚ → ℚ) (text : Bytes) : Except AnalyzeError (List (Bytes × Cell ℚ)) :=
  match readLines [] text with
  | [] => .ok []
  | first :: lines =>
      let header := first.splitOn comma
      if header.length ≠ 4 then .error (.headerColumns header.length)
      else (lines.zipIdx 2).foldlM (analyzeLine round) []

/-- The text of a whole number. -/
def printNumber (q : ℚ) : Bytes := Decimal.encodeInt q.num

/-- The text of a mean; `bits` gives the representation of a number. -/
def printMean (round : ℚ → ℚ) (bits : ℚ → ℕ) (total count : ℚ) : Bytes :=
  formatFixed2 (bits (round (total / count)))

/-- The lines of the output; none after an error. -/
def output (round : ℚ → ℚ) (bits : ℚ → ℕ) (text : Bytes) : Option (List Bytes) :=
  match analyze round text with
  | .ok stats => writeCells printNumber (printMean round bits) stats
  | .error _ => none

/-- What the contest guarantees: the texts are ASCII, and the totals have 32 bits. -/
structure IsPlain (rows : List Row) : Prop where
  in2027 : ∀ r ∈ rows, In2027 r.timestamp
  path_ne : ∀ r ∈ rows, r.path ≠ []
  byte : ∀ r ∈ rows, ∀ b ∈ r.path, b < 128 ∧ b ≠ comma ∧ b ≠ newline ∧ b ≠ quote
  messageLength_pos : ∀ r ∈ rows, 1 ≤ r.messageLength
  total_lt : ∀ path month, (lengths (group rows path month)).sum < 2 ^ 32
  stamps_lt : ∀ path month, (stamps (group rows path month)).sum < 2 ^ 32

section Plain
variable {rows : List Row} {r : Row}

theorem IsPlain.valid (h : IsPlain rows) : ∀ r ∈ rows, r.Valid := fun r hr =>
  { in2027 := h.in2027 r hr
    path_ne := h.path_ne r hr
    comma_notMem := fun hmem => (h.byte r hr comma hmem).2.1 rfl
    newline_notMem := fun hmem => (h.byte r hr newline hmem).2.2.1 rfl }

/-- The totals are added without rounding. -/
theorem IsPlain.sums (h : IsPlain rows) (path : Bytes) (month : Fin 12) :
    Sums (· ≤ 2 ^ 53) (group rows path month) where
  total := (h.total_lt path month).le.trans (by decide)
  messages := by
    have hle : (group rows path month).length ≤ (lengths (group rows path month)).sum := by
      rw [← List.length_map (f := Row.messageLength)]
      apply List.length_le_sum_of_one_le
      intro n hn
      obtain ⟨r, hr, rfl⟩ := List.mem_map.mp hn
      exact h.messageLength_pos r (mem_group.mp hr).1
    exact hle.trans ((h.total_lt path month).le.trans (by decide))
  stamps := (h.stamps_lt path month).le.trans (by decide)

theorem IsPlain.number_le (h : IsPlain rows) (hr : r ∈ rows) :
    r.timestamp ≤ 2 ^ 53 ∧ r.messageLength ≤ 2 ^ 53 ∧ r.stampCount ≤ 2 ^ 53 := by
  have hmem : r ∈ group rows r.path r.month := mem_group.mpr ⟨hr, rfl, rfl⟩
  have hsums := h.sums r.path r.month
  obtain ⟨-, hhigh⟩ := day_of_in2027 (h.in2027 r hr)
  exact ⟨by omega, (List.le_sum_of_mem (List.mem_map_of_mem hmem)).trans hsums.total,
    (List.le_sum_of_mem (List.mem_map_of_mem hmem)).trans hsums.stamps⟩

/-- Rows whose totals fit all together. -/
theorem isPlain_of_short (htotal : (lengths rows).sum < 2 ^ 32)
    (hstamps : (stamps rows).sum < 2 ^ 32)
    (h : ∀ r ∈ rows, In2027 r.timestamp ∧ r.path ≠ [] ∧
      (∀ b ∈ r.path, b < 128 ∧ b ≠ comma ∧ b ≠ newline ∧ b ≠ quote) ∧ 1 ≤ r.messageLength) :
    IsPlain rows where
  in2027 r hr := (h r hr).1
  path_ne r hr := (h r hr).2.1
  byte r hr := (h r hr).2.2.1
  messageLength_pos r hr := (h r hr).2.2.2
  total_lt path month := by
    have hsub : (lengths (group rows path month)).Sublist (lengths rows) :=
      List.filter_sublist.map _
    exact (hsub.sum_le_sum fun _ _ => Nat.zero_le _).trans_lt htotal
  stamps_lt path month := by
    have hsub : (stamps (group rows path month)).Sublist (stamps rows) :=
      List.filter_sublist.map _
    exact (hsub.sum_le_sum fun _ _ => Nat.zero_le _).trans_lt hstamps

end Plain

section Numbers
variable {round : ℚ → ℚ} {rows : List Row} {r : Row}

theorem adds (h : Binary64.Rounds round) : Adds (plus round) (· ≤ 2 ^ 53) where
  add m n hle := by
    rw [plus, ← Nat.cast_add, h.exact _ hle]
  mono _ _ := le_trans

theorem parseInt_encode (h : Binary64.Rounds round) {n : ℕ} (hn : n ≤ 2 ^ 53) :
    parseInt round (Decimal.encode n) = some (n : ℚ) := by
  have hspace := Decimal.dropWhile_isSpace_encode n []
  rw [List.append_nil] at hspace
  have hdigits : (Decimal.encode n).takeWhile Decimal.isDigit = Decimal.encode n :=
    List.takeWhile_eq_self_iff.mpr fun b hb => Decimal.isDigit_of_mem_encode hb
  have hfinite : ¬ (Decimal.encode n = [] ∨ 2 ^ 1024 - 2 ^ 970 ≤ n) := by
    rintro (hnil | hle)
    · exact Decimal.encode_ne_nil n hnil
    · have hlarge : 2 ^ 53 < 2 ^ 1024 - 2 ^ 970 := by decide +kernel
      omega
  simp only [parseInt, hspace, Decimal.sign_encode, hdigits, Decimal.value_encode,
    if_neg hfinite, h.exact n hn, Bool.false_eq_true, if_false]

theorem readsRow (h : Binary64.Rounds round) (hrows : IsPlain rows) (hr : r ∈ rows) :
    ReadsRow (parseInt round) r := by
  obtain ⟨htimestamp, hlength, hstamps⟩ := hrows.number_le hr
  exact ⟨parseInt_encode h htimestamp, parseInt_encode h hlength, parseInt_encode h hstamps⟩

end Numbers

section Rows
variable {round : ℚ → ℚ} {rows : List Row} {r : Row}

theorem readLines_append {body : Bytes} (hnewline : newline ∉ body)
    (hcr : carriageReturn ∉ body) (line text : Bytes) :
    readLines line (body ++ newline :: text) = (line ++ body) :: readLines [] text := by
  induction body generalizing line with
  | nil => rw [List.nil_append, readLines, if_pos rfl, List.append_nil]
  | cons b body ih =>
    obtain ⟨hb, hnewline⟩ := not_or.mp (mt List.mem_cons.mpr hnewline)
    obtain ⟨hb', hcr⟩ := not_or.mp (mt List.mem_cons.mpr hcr)
    rw [List.cons_append, readLines, if_neg (Ne.symm hb), if_neg (Ne.symm hb'), ih hnewline hcr,
      List.append_assoc, List.singleton_append]

theorem notMem_text {b : UInt8} (hdigit : Decimal.isDigit b = false) (hcomma : b ≠ comma)
    (hpath : b ∉ r.path) : b ∉ r.text := by
  intro hmem
  rcases mem_text hmem with h | h | h
  · rw [hdigit] at h
    cases h
  · exact hcomma h
  · exact hpath h

/-- The lines of a file whose paths have no CR. -/
theorem readLines_csv (h : ∀ r ∈ rows, r.Valid) (hcr : ∀ r ∈ rows, carriageReturn ∉ r.path) :
    readLines [] (csv rows) = header :: rows.map Row.text := by
  have hrows : readLines [] (rows.map Row.line).flatten = rows.map Row.text := by
    induction rows with
    | nil => rfl
    | cons r rows ih =>
      obtain ⟨hr, hrows⟩ := List.forall_mem_cons.mp h
      obtain ⟨hrcr, hrowscr⟩ := List.forall_mem_cons.mp hcr
      rw [List.map_cons, List.flatten_cons, Row.line_eq_text, List.append_assoc,
        List.singleton_append, readLines_append
          (notMem_text (by decide) (by decide) hr.newline_notMem)
          (notMem_text (by decide) (by decide) hrcr), ih hrows hrowscr]
      rfl
  rw [csv, List.append_assoc, List.singleton_append,
    readLines_append (by decide) (by decide), hrows]
  rfl

/-- The line of a row is counted as its record. -/
theorem analyzeLine_text (hcomma : comma ∉ r.path) (lineNumber : ℕ)
    {stats stats' : List (Bytes × Cell ℚ)}
    (h : countRecord (plus round) (parseInt round) stats r.fields = .ok stats') :
    analyzeLine round stats (r.text, lineNumber) = .ok stats' := by
  simp only [analyzeLine, if_neg (text_ne_nil r), splitOn_text hcomma, h]

/-- The map of all rows. -/
theorem analyze_csv (hround : Binary64.Rounds round) (h : IsPlain rows)
    (hcr : ∀ r ∈ rows, carriageReturn ∉ r.path) :
    ∃ stats, analyze round (csv rows) = .ok stats ∧
      GroupBy.Groups Row.key Cell.of stats rows := by
  have hsteps (k : ℕ) (rows : List Row) (hvalid : ∀ r ∈ rows, r.Valid) :
      List.Forall₂ (fun numbered r => ∀ stats stats',
        countRecord (plus round) (parseInt round) stats r.fields = .ok stats' →
          analyzeLine round stats numbered = .ok stats') ((rows.map Row.text).zipIdx k) rows := by
    induction rows generalizing k with
    | nil => exact .nil
    | cons r rows ih =>
      obtain ⟨hr, hrows⟩ := List.forall_mem_cons.mp hvalid
      rw [List.map_cons, List.zipIdx_cons]
      exact .cons (fun _ _ hcount => analyzeLine_text hr.comma_notMem k hcount) (ih _ hrows)
  have hsums : ∀ path month, Sums (· ≤ 2 ^ 53) (group ([] ++ rows) path month) := h.sums
  obtain ⟨stats, hrun, hgroups⟩ := foldlM_groups (adds hround)
    (fun r hr => ⟨readsRow hround h hr, h.in2027 r hr⟩) hsums (hsteps 2 rows h.valid)
    GroupBy.Groups.nil
  refine ⟨stats, ?_, hgroups⟩
  have hcolumns : ¬ (header.splitOn comma).length ≠ 4 := by decide
  rw [analyze, readLines_csv h.valid hcr]
  simp only [if_neg hcolumns]
  exact hrun

/-- The baseline writes the record of each group once. -/
theorem output_csv (hround : Binary64.Rounds round) (bits : ℚ → ℕ) (h : IsPlain rows)
    (hcr : ∀ r ∈ rows, carriageReturn ∉ r.path) :
    ∃ lines, output round bits (csv rows) = some lines ∧
      IsReport (groupLine printNumber (printMean round bits)) rows lines := by
  obtain ⟨stats, hrun, hgroups⟩ := analyze_csv hround h hcr
  obtain ⟨lines, hwrite, hreport⟩ := isReport_writeCells printNumber (printMean round bits)
    hgroups fun r hr => (h.valid r hr).comma_notMem
  refine ⟨lines, ?_, hreport⟩
  simp only [output, hrun]
  exact hwrite

end Rows
end OneBrc.Analyzer.BaselineTypeScript
