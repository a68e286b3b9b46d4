import OneBrc.Lib.Digits
import OneBrc.Lib.Fallible
import OneBrc.Lib.Table
import OneBrc.Lib.Utf8

/-! The comparison of an output file with the expected one, as `compare.ts` makes it. -/
namespace OneBrc.Runner
open Lib

/-- A file as `stat` and a read find it, with the messages of the errors. -/
inductive File where
  | missing (message : String)
  | unreadable (size : ℕ) (message : String)
  | regular (content : List UInt8)
  deriving DecidableEq

inductive ComparisonCode where
  | malformed | duplicate | missing | extra | mismatch | io
  deriving DecidableEq

structure ComparisonError where
  code : ComparisonCode
  message : List Char
  deriving DecidableEq

structure Record where
  key : List Char
  value : List Char
  deriving DecidableEq

/-- A `Map` in the order of its insertions. -/
abbrev Records := Table (List Char) Record Record.key

/-- The lines of `readline`, which end at LF, CRLF or CR. -/
def readLines (line : List Char) : List Char → List (List Char)
  | [] => if line = [] then [] else [line]
  | '\r' :: '\n' :: rest => line :: readLines [] rest
  | c :: rest =>
      if c = '\n' ∨ c = '\r' then line :: readLines [] rest else readLines (line ++ [c]) rest

def isInteger (cs : List Char) : Bool := cs ≠ [] && Digits.allDigits cs

/-- Two digits after the point. -/
def isAverage (cs : List Char) : Bool :=
  match cs.splitOn '.' with
  | [units, hundredths] => isInteger units && isInteger hundredths && hundredths.length = 2
  | _ => false

/-- The pattern of a value: least, average and greatest length, messages, stamps. -/
def isValue (value : List Char) : Bool :=
  match value.splitOn '/' with
  | [least, average, greatest, messages, stamps] =>
      isInteger least && isAverage average && isInteger greatest && isInteger messages &&
        isInteger stamps
  | _ => false

def decimal (n : ℕ) : List Char := (Nat.repr n).toList

/-- The body of the loop of `loadRecords`. -/
def loadLine (records : Records) (line : List Char) (lineNumber : ℕ) :
    Except (List Char) Records :=
  if line = [] then .ok records
  else match line.findIdx? (· = '=') with
    | none => .error ("malformed line ".toList ++ decimal lineNumber)
    | some separator =>
        if separator = 0 ∨ separator = line.length - 1 then
          .error ("malformed line ".toList ++ decimal lineNumber)
        else
          let key := line.take separator
          let value := line.drop (separator + 1)
          if (records.get? key).isSome then
            .error ("duplicate key on line ".toList ++ decimal lineNumber ++ ": ".toList ++ key)
          else if !isValue value then
            .error ("malformed value on line ".toList ++ decimal lineNumber ++ ": ".toList ++ key)
          else .ok (records.put ⟨key, value⟩)

def File.read : File → Except (List Char) (List UInt8)
  | .missing message | .unreadable _ message => .error message.toList
  | .regular content => .ok content

def File.stat : File → Except (List Char) ℕ
  | .missing message => .error message.toList
  | .unreadable size _ => .ok size
  | .regular content => .ok content.length

def loadRecords (file : File) : Except (List Char) Records := do
  let content ← file.read
  ((readLines [] (Utf8.decode content)).zipIdx 1).foldlM
    (fun records (line, lineNumber) => loadLine records line lineNumber) .empty

def ioError (message : List Char) : ComparisonError :=
  if "duplicate".toList.isPrefixOf message then ⟨.duplicate, message⟩
  else if "malformed".toList.isPrefixOf message then ⟨.malformed, message⟩
  else ⟨.io, message⟩

/-- The body of the first loop of `compareRecords`. -/
def compareRecord (expected : Records) (record : Record) : Option ComparisonError :=
  match expected.get? record.key with
  | none => some ⟨.extra, "unexpected key: ".toList ++ record.key⟩
  | some wanted =>
      if wanted.value ≠ record.value then
        some ⟨.mismatch, "value mismatch: ".toList ++ record.key⟩
      else none

def missingRecord (actual : Records) (wanted : Record) : Option ComparisonError :=
  if (actual.get? wanted.key).isNone then some ⟨.missing, "missing key: ".toList ++ wanted.key⟩
  else none

def compareRecords (actual expected : Records) : Except ComparisonError Unit :=
  match actual.rows.findSome? (compareRecord expected) with
  | some error => .error error
  | none =>
      match expected.rows.findSome? (missingRecord actual) with
      | some error => .error error
      | none => .ok ()

/-- The expected file is read first. -/
def compareOutput (actual expected : File) : Except ComparisonError Unit := do
  let expectedRecords ← (loadRecords expected).mapError ioError
  let actualRecords ← (loadRecords actual).mapError ioError
  compareRecords actualRecords expectedRecords

section Lines
variable {key value : List Char}

theorem readLines_line {line cs : List Char} (rest : List Char)
    (h : ∀ c ∈ cs, c ≠ '\n' ∧ c ≠ '\r') :
    readLines line (cs ++ '\n' :: rest) = (line ++ cs) :: readLines [] rest := by
  induction cs generalizing line with
  | nil => simp [readLines]
  | cons c cs ih =>
    obtain ⟨hlf, hcr⟩ := h c List.mem_cons_self
    have hcs : readLines (line ++ [c]) (cs ++ '\n' :: rest) =
        (line ++ [c] ++ cs) :: readLines [] rest :=
      ih fun d hd => h d (List.mem_cons_of_mem _ hd)
    rw [List.append_assoc, List.singleton_append] at hcs
    rw [List.cons_append, readLines, if_neg (by simp [hlf, hcr])]
    · exact hcs
    · exact fun _ h _ => hcr h

theorem findIdx?_separator (hkey : '=' ∉ key) :
    (key ++ '=' :: value).findIdx? (fun c => decide (c = '=')) = some key.length := by
  have hnone : key.findIdx? (fun c => decide (c = '=')) = none := by
    rw [List.findIdx?_eq_none_iff]
    intro c hc
    exact decide_eq_false fun h => hkey (h ▸ hc)
  rw [List.findIdx?_append, hnone]
  simp [List.findIdx?_cons]

theorem ne_nil_of_isValue (h : isValue value = true) : value ≠ [] := by
  rintro rfl
  simp [isValue] at h

/-- A line of the expected form with a new key. -/
theorem loadLine_entry {records : Records} {lineNumber : ℕ} (hne : key ≠ []) (hkey : '=' ∉ key)
    (hvalue : isValue value = true) (hnew : records.get? key = none) :
    loadLine records (key ++ '=' :: value) lineNumber = .ok (records.put ⟨key, value⟩) := by
  have hpos : 0 < key.length := List.length_pos_of_ne_nil hne
  have hvalue' : 0 < value.length := List.length_pos_of_ne_nil (ne_nil_of_isValue hvalue)
  have hlength : (key ++ '=' :: value).length = key.length + (value.length + 1) := by simp
  have htake : (key ++ '=' :: value).take key.length = key := by simp
  have hdrop : (key ++ '=' :: value).drop (key.length + 1) = value := by simp
  rw [loadLine, if_neg (by simp), findIdx?_separator hkey]
  simp only [htake, hdrop, hnew, hvalue, hlength]
  rw [if_neg (by omega), if_neg (by simp), if_neg (by simp)]

/-- A file with one line of the expected form. -/
theorem loadRecords_line (hne : key ≠ []) (hkey : '=' ∉ key) (hvalue : isValue value = true)
    (hascii : ∀ c ∈ key ++ '=' :: value, c.toNat < 0x80 ∧ c ≠ '\n' ∧ c ≠ '\r') :
    loadRecords (.regular (Utf8.encodeAscii (key ++ '=' :: value ++ ['\n']))) =
      .ok (Table.empty.put ⟨key, value⟩) := by
  have hdecode : Utf8.decode (Utf8.encodeAscii (key ++ '=' :: value ++ ['\n'])) =
      key ++ '=' :: value ++ ['\n'] := by
    apply Utf8.decode_encodeAscii
    intro c hc
    rcases List.mem_append.mp hc with hc | hc
    · exact (hascii c hc).1
    · rw [List.mem_singleton.mp hc]
      decide
  have hlines : readLines [] (key ++ '=' :: value ++ ['\n']) = [key ++ '=' :: value] :=
    readLines_line [] fun c hc => (hascii c hc).2
  have hentry : loadLine Table.empty (key ++ '=' :: value) 1 =
      .ok (Table.empty.put ⟨key, value⟩) := loadLine_entry hne hkey hvalue rfl
  simp only [loadRecords, File.read, bind, Except.bind, hdecode, hlines, List.zipIdx_cons,
    List.zipIdx_nil, List.foldlM_cons, List.foldlM_nil, hentry]
  rfl

/-- The first record with a key that is not expected decides. -/
theorem compareRecords_extra {actual expected : Records} {record : Record} {rest : List Record}
    (hactual : actual.rows = record :: rest) (hexpected : expected.get? record.key = none) :
    compareRecords actual expected =
      .error ⟨.extra, "unexpected key: ".toList ++ record.key⟩ := by
  simp [compareRecords, hactual, compareRecord, hexpected]

end Lines
end OneBrc.Runner
