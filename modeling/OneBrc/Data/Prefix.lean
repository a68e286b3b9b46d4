import Mathlib.Data.Int.Notation
import OneBrc.Lib.Lines
import OneBrc.Lib.Scanner

/-! `writePrefix`: the first rows of a CSV, copied line by line. -/
namespace OneBrc.Data
open Lib

/-- The size of the buffer of the scanner. -/
def maxTokenSize : ℕ := 1024 * 1024

inductive PrefixError where
  | tokenTooLong
  | sourceEnded (dataRows : ℤ)
  deriving DecidableEq

/-- After the loop. -/
def finishPrefix (rows lines : ℕ) (output : List UInt8) : Except PrefixError (List UInt8) :=
  if lines ≠ rows + 1 then .error (.sourceEnded (lines - 1)) else .ok output

/-- The loop over the lines. -/
def writeLines (read : ℕ → ℕ) (rows : ℕ) (scanner : Scanner) (lines : ℕ) (output : List UInt8) :
    Except PrefixError (List UInt8) :=
  match h : scanner.scan read maxTokenSize with
  | .tooLong => .error .tokenTooLong
  | .done => finishPrefix rows lines output
  | .token text scanner' =>
      if rows < lines then finishPrefix rows lines output
      else writeLines read rows scanner' (lines + 1) (output ++ (text ++ [10]))
termination_by scanner.rest.length
decreasing_by exact Scanner.rest_lt_of_scan h

/-- The destination, when no call of the file system fails; `read` gives the sizes of the reads. -/
def writePrefix (read : ℕ → ℕ) (source : List UInt8) (rows : ℕ) :
    Except PrefixError (List UInt8) :=
  writeLines read rows ⟨[], source⟩ 0 []

/-- A line with its line feed, without CR, that is shorter than the buffer. -/
structure SourceLine (line : List UInt8) : Prop where
  terminated : Lines.Terminated 10 line
  noCR : 13 ∉ line
  length_le : line.length ≤ maxTokenSize

variable {read : ℕ → ℕ} {rows k : ℕ} {scanner : Scanner} {source output destination : List UInt8}
  {lines : List (List UInt8)}

theorem writeLines_done (h : scanner.scan read maxTokenSize = .done) :
    writeLines read rows scanner k output = finishPrefix rows k output := by
  rw [writeLines]
  split
  next h' => exact absurd (h.symm.trans h') nofun
  next => rfl
  next h' => exact absurd (h.symm.trans h') nofun

theorem writeLines_token {text : List UInt8} {scanner' : Scanner}
    (h : scanner.scan read maxTokenSize = .token text scanner') :
    writeLines read rows scanner k output =
      if rows < k then finishPrefix rows k output
      else writeLines read rows scanner' (k + 1) (output ++ (text ++ [10])) := by
  rw [writeLines]
  split
  next h' => exact absurd (h.symm.trans h') nofun
  next h' => exact absurd (h.symm.trans h') nofun
  next h' =>
    obtain ⟨rfl, rfl⟩ := Scanner.Result.token.inj (h.symm.trans h')
    rfl

/-- From the line `k` on, as many lines are copied as are missing. -/
theorem writeLines_lines (hlines : ∀ line ∈ lines, SourceLine line)
    (hrest : scanner.rest = lines.flatten) (hk : k ≤ rows + 1) :
    writeLines read rows scanner k output =
      if rows + 1 ≤ k + lines.length then .ok (output ++ (lines.take (rows + 1 - k)).flatten)
      else .error (.sourceEnded ((k + lines.length : ℕ) - 1)) := by
  induction lines generalizing scanner k output with
  | nil =>
    rw [writeLines_done (Scanner.scan_end (by decide) hrest), finishPrefix, List.take_nil,
      List.flatten_nil, List.append_nil]
    simp only [List.length_nil, Nat.add_zero]
    by_cases hend : k = rows + 1
    · rw [if_neg (not_not.mpr hend), if_pos (Nat.le_of_eq hend.symm)]
    · rw [if_pos hend, if_neg (by omega)]
  | cons line lines ih =>
    obtain ⟨⟨body, rfl, hbody⟩, hcr, hlength⟩ := hlines line List.mem_cons_self
    rw [List.length_append, List.length_singleton] at hlength
    have hnext : scanner.rest = body ++ 10 :: lines.flatten := by
      rw [hrest, List.flatten_cons, List.append_assoc, List.singleton_append]
    obtain ⟨scanner', htoken, htail⟩ := Scanner.scan_line hbody
      (fun hmem => hcr (List.mem_append_left _ hmem)) hlength hnext
    rw [writeLines_token htoken, List.length_cons]
    by_cases hend : rows < k
    · have hk' : k = rows + 1 := by omega
      rw [if_pos hend, finishPrefix, if_neg (not_not.mpr hk'), if_pos (by omega), hk',
        Nat.sub_self, List.take_zero, List.flatten_nil, List.append_nil]
    · have htake : rows + 1 - k = rows + 1 - (k + 1) + 1 := by omega
      rw [if_neg hend, ih (fun line hmem => hlines line (List.mem_cons_of_mem _ hmem)) htail
        (by omega), htake, List.take_succ_cons, List.flatten_cons, List.append_assoc,
        Nat.add_assoc, Nat.add_comm 1]

/-- A prefix is written exactly if the source has the rows, and then it is the header and the first
`rows` rows. -/
theorem writePrefix_exact (read : ℕ → ℕ) (rows : ℕ) (hlines : ∀ line ∈ lines, SourceLine line) :
    ((∃ destination, writePrefix read lines.flatten rows = .ok destination) ↔
      rows ≤ (lines.drop 1).length ∧ lines ≠ []) ∧
    (∀ destination, writePrefix read lines.flatten rows = .ok destination →
      destination = (lines.take 1).flatten ++ ((lines.drop 1).take rows).flatten) ∧
    (¬(rows ≤ (lines.drop 1).length ∧ lines ≠ []) →
      ∃ error, writePrefix read lines.flatten rows = .error error) := by
  have hrun : writePrefix read lines.flatten rows = if rows + 1 ≤ lines.length then
      .ok (lines.take (rows + 1)).flatten else .error (.sourceEnded (lines.length - 1)) := by
    rw [writePrefix, writeLines_lines hlines rfl (Nat.zero_le _), Nat.zero_add]
    rfl
  have hrows : (rows ≤ (lines.drop 1).length ∧ lines ≠ []) ↔ rows + 1 ≤ lines.length := by
    rw [List.length_drop, ← List.length_pos_iff]
    omega
  rw [hrun, hrows]
  by_cases hle : rows + 1 ≤ lines.length
  · rw [if_pos hle]
    refine ⟨⟨fun _ => hle, fun _ => ⟨_, rfl⟩⟩, ?_, fun h => absurd hle h⟩
    intro destination h
    rw [← Except.ok.inj h, Nat.add_comm, List.take_add, List.flatten_append]
  · rw [if_neg hle]
    refine ⟨⟨?_, fun h => absurd h hle⟩, ?_, fun _ => ⟨_, rfl⟩⟩
    · rintro ⟨destination, h⟩
      contradiction
    · intro destination h
      contradiction

theorem sourceLine_of_short (c : UInt8) (h : c ≠ 10 ∧ c ≠ 13) : SourceLine [c, 10] where
  terminated := ⟨[c], rfl, by simpa using h.1.symm⟩
  noCR := by simpa using h.2.symm
  length_le := (by decide : 2 ≤ maxTokenSize)

theorem writePrefix_exact_two :
    ∃ destination, writePrefix (fun _ => 0) [[104, 10], [97, 10], [98, 10], [99, 10]].flatten 2 =
      .ok destination ∧ destination = [104, 10, 97, 10, 98, 10] := by
  have hlines : ∀ line ∈ [[104, 10], [97, 10], [98, 10], [99, 10]], SourceLine line := by
    simp only [List.forall_mem_cons, List.not_mem_nil, false_implies, implies_true, and_true]
    exact ⟨sourceLine_of_short _ (by decide), sourceLine_of_short _ (by decide),
      sourceLine_of_short _ (by decide), sourceLine_of_short _ (by decide)⟩
  obtain ⟨hiff, hcontent, -⟩ := writePrefix_exact (fun _ => 0) 2 hlines
  obtain ⟨destination, hok⟩ := hiff.mpr (by decide)
  exact ⟨destination, hok, hcontent destination hok⟩

end OneBrc.Data
