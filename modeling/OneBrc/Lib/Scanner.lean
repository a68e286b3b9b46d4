import Mathlib.Data.List.Basic

/-! `bufio.Scanner` over the lines of a file: a buffer of bounded size that is filled by reads of
any sizes. -/
namespace OneBrc.Lib

/-- The bytes that are read and not scanned yet, and the bytes that are not read yet. -/
structure Scanner where
  data : List UInt8
  unread : List UInt8

namespace Scanner

/-- What `Scan` returns; `Err` is nil unless the line is too long. -/
inductive Result where
  | token (text : List UInt8) (s : Scanner)
  | done
  | tooLong

def dropCR (line : List UInt8) : List UInt8 :=
  if line.getLast? = some 13 then line.dropLast else line

/-- `bufio.ScanLines`: how far to advance, and the line. -/
def scanLines (data : List UInt8) (atEOF : Bool) : Option (ℕ × List UInt8) :=
  let i := data.idxOf 10
  if i < data.length then some (i + 1, dropCR (data.take i))
  else if atEOF = true ∧ data ≠ [] then some (data.length, dropCR data)
  else none

def advance (s : Scanner) (found : ℕ × List UInt8) : Result :=
  .token found.2 ⟨s.data.drop found.1, s.unread⟩

/-- The loop of `Scan`. A read returns at least a byte, at most what the buffer has room for:
`read n + 1` of the last `n` bytes of the file, if it can. -/
def scan (read : ℕ → ℕ) (limit : ℕ) (s : Scanner) : Result :=
  match scanLines s.data false with
  | some found => s.advance found
  | none =>
      if limit ≤ s.data.length then .tooLong
      else if s.unread = [] then
        match scanLines s.data true with
        | some found => s.advance found
        | none => .done
      else
        let n := min (read s.unread.length + 1) (limit - s.data.length)
        scan read limit ⟨s.data ++ s.unread.take n, s.unread.drop n⟩
termination_by s.unread.length
decreasing_by
  rename_i hlimit hunread
  have hpos := List.length_pos_iff.mpr hunread
  rw [List.length_drop]
  omega

/-- The bytes that are not scanned yet. -/
def rest (s : Scanner) : List UInt8 := s.data ++ s.unread

variable {read : ℕ → ℕ} {limit : ℕ} {s s' : Scanner} {text : List UInt8}

theorem scanLines_advance {data : List UInt8} {atEOF : Bool} {found : ℕ × List UInt8}
    (h : scanLines data atEOF = some found) : 0 < found.1 ∧ found.1 ≤ data.length := by
  unfold scanLines at h
  dsimp only at h
  split_ifs at h with hlt hend
  · obtain rfl := Option.some.inj h
    exact ⟨Nat.succ_pos _, hlt⟩
  · obtain rfl := Option.some.inj h
    exact ⟨List.length_pos_iff.mpr hend.2, Nat.le_refl _⟩

theorem advance_rest_lt {atEOF : Bool} {found : ℕ × List UInt8}
    (h : scanLines s.data atEOF = some found) (htoken : s.advance found = .token text s') :
    s'.rest.length < s.rest.length := by
  obtain ⟨hpos, hle⟩ := scanLines_advance h
  obtain ⟨-, rfl⟩ := Result.token.inj htoken
  simp only [rest, List.length_append, List.length_drop]
  omega

/-- A token takes bytes away. -/
theorem rest_lt_of_scan (h : scan read limit s = .token text s') :
    s'.rest.length < s.rest.length := by
  induction s using scan.induct read limit with
  | case1 s found hfound =>
    rw [scan, hfound] at h
    exact advance_rest_lt hfound h
  | case2 s hnone hfull =>
    rw [scan, hnone] at h
    simp only [hfull, if_true] at h
    contradiction
  | case3 s hnone hroom hunread found hfound =>
    rw [scan, hnone] at h
    simp only [hroom, if_false, hunread, if_true, hfound] at h
    exact advance_rest_lt hfound h
  | case4 s hnone hroom hunread hend =>
    rw [scan, hnone] at h
    simp only [hroom, if_false, hunread, if_true, hend] at h
    contradiction
  | case5 s hnone hroom hunread n ih =>
    rw [scan, hnone] at h
    simp only [hroom, if_false, hunread] at h
    have hlt := ih h
    rwa [rest, rest, List.append_assoc, List.take_append_drop] at hlt

theorem scanLines_of_not_mem {data : List UInt8} (h : 10 ∉ data) : scanLines data false = none := by
  rw [scanLines, List.idxOf_eq_length h, if_neg (Nat.lt_irrefl _), if_neg nofun]

theorem scanLines_of_line {body tail : List UInt8} (atEOF : Bool) (hlf : 10 ∉ body)
    (hcr : 13 ∉ body) : scanLines (body ++ 10 :: tail) atEOF = some (body.length + 1, body) := by
  have hidx : (body ++ 10 :: tail).idxOf 10 = body.length := by
    rw [List.idxOf_append_of_notMem hlf, List.idxOf_cons_self, Nat.add_zero]
  have hdrop : dropCR body = body := by
    refine if_neg fun hlast => ?_
    exact hcr (List.mem_of_getLast? hlast)
  rw [scanLines, hidx, if_pos (by simp), List.take_left, hdrop]

/-- The next line is in the buffer, or the buffer holds a part of it. -/
theorem data_of_rest {body tail : List UInt8} (h : s.rest = body ++ 10 :: tail) :
    (∃ more, s.data = body ++ 10 :: more ∧ more ++ s.unread = tail) ∨
      s.data <+: body ∧ s.unread ≠ [] := by
  rcases List.append_eq_append_iff.mp h with ⟨more, rfl, hunread⟩ | ⟨more, hdata, htail⟩
  · refine .inr ⟨List.prefix_append _ _, ?_⟩
    rw [hunread]
    simp
  · cases more with
    | nil =>
      rw [List.nil_append] at htail
      rw [List.append_nil] at hdata
      exact .inr ⟨hdata ▸ List.prefix_rfl, htail ▸ List.cons_ne_nil _ _⟩
    | cons r more =>
      rw [List.cons_append, List.cons.injEq] at htail
      obtain ⟨rfl, htail⟩ := htail
      exact .inl ⟨more, hdata, htail.symm⟩

/-- A line without CR that fits is the next token, whatever the reads return. -/
theorem scan_line {body tail : List UInt8} (hlf : 10 ∉ body) (hcr : 13 ∉ body)
    (hlimit : body.length < limit) (h : s.rest = body ++ 10 :: tail) :
    ∃ s', scan read limit s = .token body s' ∧ s'.rest = tail := by
  induction hlen : s.unread.length using Nat.strongRecOn generalizing s with
  | ind length ih =>
    rcases data_of_rest h with ⟨more, hdata, htail⟩ | ⟨hstart, hunread⟩
    · refine ⟨⟨more, s.unread⟩, ?_, htail⟩
      rw [scan, hdata, scanLines_of_line false hlf hcr]
      simp [advance, hdata]
    · have hnone := scanLines_of_not_mem fun hmem => hlf (hstart.subset hmem)
      have hroom : ¬limit ≤ s.data.length := by
        have hle := hstart.length_le
        omega
      rw [scan, hnone]
      simp only [hroom, if_false, hunread]
      refine ih _ ?_ ?_ rfl
      · have hpos := List.length_pos_iff.mpr hunread
        rw [List.length_drop]
        omega
      · rwa [rest, List.append_assoc, List.take_append_drop]

theorem scan_end (hlimit : 0 < limit) (h : s.rest = []) : scan read limit s = .done := by
  obtain ⟨hdata, hunread⟩ := List.append_eq_nil_iff.mp h
  rw [scan, hdata, hunread]
  simp [scanLines, Nat.not_le.mpr hlimit]

end Scanner

end OneBrc.Lib
