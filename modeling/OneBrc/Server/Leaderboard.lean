import Mathlib.Data.Prod.Lex
import Mathlib.Data.String.Basic
import OneBrc.Domain
import OneBrc.Lib.CivilTime
import OneBrc.Lib.Digits
import OneBrc.Lib.StableSort

/-! The leaderboard: `compareDecimal`, the two rank maps and the list built from them. -/
namespace OneBrc.Server
open Lib StableSort

/-- A row of `leaderboardRows`; `submittedAt` is in microseconds. -/
structure LeaderboardRecord where
  username : String
  id : String
  language : String
  publicVerdict : String
  publicScore : Option String
  privateVerdict : Option String
  privateScore : Option String
  disqualified : Option String
  submittedAt : ℕ
  deriving DecidableEq

structure LeaderboardEntry where
  username : String
  submissionId : String
  language : String
  rank : Option ℤ
  rankChange : Option ℤ
  scoreNs : Option String
  verdict : String
  submittedAt : String
  sourceAvailable : Bool
  deriving DecidableEq

structure Leaderboard where
  board : LeaderboardBoard
  privatePublished : Bool
  ranked : List LeaderboardEntry
  disqualified : List LeaderboardEntry
  deriving DecidableEq

/-- Conversion to a signed 32-bit integer. -/
def int32 (n : ℤ) : ℤ := n.bmod (2 ^ 32)

/-- `TrimLeft(value, "0")`, where nothing left over counts as `"0"`. -/
def trimZeros (value : String) : String :=
  let trimmed := String.ofList (value.toList.dropWhile (· == '0'))
  if trimmed = "" then "0" else trimmed

def compareDecimal (left right : String) : Ordering :=
  let left := trimZeros left
  let right := trimZeros right
  if left.utf8ByteSize < right.utf8ByteSize then .lt
  else if right.utf8ByteSize < left.utf8ByteSize then .gt
  else if left < right then .lt
  else if left = right then .eq
  else .gt

namespace LeaderboardRecord

/-- The verdict that counts on the board; an absent private verdict is the empty string. -/
def verdictOn (row : LeaderboardRecord) : LeaderboardBoard → String
  | .publicBoard => row.publicVerdict
  | .privateBoard => row.privateVerdict.getD ""

def scoreOn (row : LeaderboardRecord) : LeaderboardBoard → Option String
  | .publicBoard => row.publicScore
  | .privateBoard => row.privateScore

/-- The filter of `ranks`. -/
def rankable (board : LeaderboardBoard) (row : LeaderboardRecord) : Bool :=
  row.disqualified.isNone && row.verdictOn board = Verdict.accepted.name &&
    (row.scoreOn board).isSome

end LeaderboardRecord

/-- The order of `ranks`: by score, then by time. -/
def lessRecord (board : LeaderboardBoard) (li lj : LeaderboardRecord) : Bool :=
  match compareDecimal ((li.scoreOn board).getD "") ((lj.scoreOn board).getD "") with
  | .lt => true
  | .gt => false
  | .eq => li.submittedAt < lj.submittedAt

/-- The sorted slice of `ranks`. -/
def acceptedRows (rows : List LeaderboardRecord) (board : LeaderboardBoard) :
    List LeaderboardRecord :=
  sliceStable (lessRecord board) (rows.filter (LeaderboardRecord.rankable board))

def ranks (rows : List LeaderboardRecord) (board : LeaderboardBoard) : String → Option ℤ :=
  indexMap (·.id) (fun i => int32 (i + 1)) (acceptedRows rows board)

/-- The verdict that an entry shows. -/
def shownVerdict (board : LeaderboardBoard) (row : LeaderboardRecord) : String :=
  if row.disqualified.isSome then Verdict.disqualified.name
  else match board with
    | .publicBoard => row.publicVerdict
    | .privateBoard => row.privateVerdict.getD Verdict.infrastructureError.name

/-- The entry of one row, from the two rank maps. -/
def leaderboardEntry (publicRanks privateRanks : String → Option ℤ) (board : LeaderboardBoard)
    (privatePublished : Bool) (row : LeaderboardRecord) : LeaderboardEntry where
  username := row.username
  submissionId := row.id
  language := row.language
  rank :=
    if row.disqualified.isSome then none
    else match board with
      | .publicBoard => publicRanks row.id
      | .privateBoard => privateRanks row.id
  rankChange :=
    if privatePublished then
      match publicRanks row.id, privateRanks row.id with
      | some pr, some qr => some (int32 (pr - qr))
      | _, _ => none
    else none
  scoreNs := row.scoreOn board
  verdict := shownVerdict board row
  submittedAt := CivilTime.isoTime row.submittedAt
  sourceAvailable := privatePublished

/-- The comparison of the last sort, on entries that have a rank. -/
def lessRank (i j : LeaderboardEntry) : Bool := i.rank.getD 0 < j.rank.getD 0

def buildLeaderboard (rows : List LeaderboardRecord) (board : LeaderboardBoard)
    (privatePublished : Bool) : Leaderboard :=
  let publicRanks := ranks rows .publicBoard
  let privateRanks := ranks rows .privateBoard
  let entries := rows.map (leaderboardEntry publicRanks privateRanks board privatePublished)
  { board
    privatePublished
    ranked := sliceStable lessRank (entries.filter (·.rank.isSome))
    disqualified := entries.filter (·.rank.isNone) }

section CompareDecimal

/-- A string of digits, compared by length and then by characters without its leading zeros. -/
def scoreKey (value : String) : ℕ ×ₗ String :=
  toLex ((trimZeros value).utf8ByteSize, trimZeros value)

theorem scoreKey_lt {left right : String} : scoreKey left < scoreKey right ↔
    (trimZeros left).utf8ByteSize < (trimZeros right).utf8ByteSize ∨
      (trimZeros left).utf8ByteSize = (trimZeros right).utf8ByteSize ∧
        trimZeros left < trimZeros right := by
  rw [scoreKey, scoreKey, Prod.Lex.toLex_lt_toLex]

theorem scoreKey_eq {left right : String} :
    scoreKey left = scoreKey right ↔ trimZeros left = trimZeros right := by
  constructor
  · intro h
    exact congrArg (fun key => (ofLex key).2) h
  · intro h
    rw [scoreKey, scoreKey, h]

/-- `compareDecimal` is the comparison of a linear order, on all strings. -/
theorem compareDecimal_eq (left right : String) :
    compareDecimal left right = compare (scoreKey left) (scoreKey right) := by
  unfold compareDecimal
  dsimp only
  split
  · next h => exact (compare_lt_iff_lt.mpr (scoreKey_lt.mpr (.inl h))).symm
  · next h =>
    split
    · next h' => exact (compare_gt_iff_gt.mpr (scoreKey_lt.mpr (.inl h'))).symm
    · next h' =>
      have hlen := Nat.le_antisymm (Nat.le_of_not_lt h') (Nat.le_of_not_lt h)
      split
      · next hlt => exact (compare_lt_iff_lt.mpr (scoreKey_lt.mpr (.inr ⟨hlen, hlt⟩))).symm
      · next hlt =>
        split
        · next heq => exact (compare_eq_iff_eq.mpr (scoreKey_eq.mpr heq)).symm
        · next hne =>
          have hgt := lt_of_le_of_ne (not_lt.mp hlt) (Ne.symm hne)
          exact (compare_gt_iff_gt.mpr (scoreKey_lt.mpr (.inr ⟨hlen.symm, hgt⟩))).symm

/-- The number that a score denotes. -/
def scoreValue (score : String) : ℕ := Digits.value score.toList

theorem utf8ByteSize_of_allDigits {cs : List Char} (h : Digits.allDigits cs = true) :
    (String.ofList cs).utf8ByteSize = cs.length := by
  rw [String.utf8ByteSize_ofList]
  induction cs with
  | nil => rfl
  | cons c cs ih =>
    simp only [Digits.allDigits, List.all_cons, Bool.and_eq_true] at h
    have hc := Digits.isDigit_iff.mp h.1
    have hsize : c.utf8Size = 1 := by
      have hle : c.val ≤ 0x7F := UInt32.le_iff_toNat_le.mpr (by change c.toNat ≤ 127; omega)
      simp [Char.utf8Size, hle]
    rw [String.utf8Len_cons, ih h.2, hsize, List.length_cons]

/-- A score as `storeResult` writes it: at least one character, digits only. -/
def IsScore (score : String) : Prop := score ≠ "" ∧ Digits.allDigits score.toList = true

instance : DecidablePred IsScore := fun score =>
  inferInstanceAs (Decidable (score ≠ "" ∧ Digits.allDigits score.toList = true))

/-- What trimming leaves: the same number, without a leading zero unless it is `"0"`. -/
theorem trimZeros_spec {score : String} (h : IsScore score) :
    ∃ cs, trimZeros score = String.ofList cs ∧ Digits.allDigits cs = true ∧ cs ≠ [] ∧
      Digits.value cs = scoreValue score ∧ (1 < cs.length → cs.head? ≠ some '0') := by
  unfold trimZeros
  dsimp only
  split
  · next htrim =>
    have hnil : score.toList.dropWhile (· == '0') = [] := by
      simpa using congrArg String.toList htrim
    refine ⟨['0'], rfl, by decide, by decide, ?_, by decide⟩
    rw [scoreValue, ← Digits.value_dropWhile_zero score.toList, hnil]
    rfl
  · next htrim =>
    refine ⟨_, rfl, ?_, ?_, ?_, ?_⟩
    · rw [Digits.allDigits, List.all_eq_true]
      intro c hc
      exact List.all_eq_true.mp h.2 c ((List.dropWhile_sublist _).subset hc)
    · rintro hnil
      rw [hnil] at htrim
      exact htrim rfl
    · exact Digits.value_dropWhile_zero _
    · intro _ hhead
      have hzero := List.head?_dropWhile_not (· == '0') score.toList
      rw [hhead] at hzero
      simp at hzero

theorem scoreValue_lt_of_key_lt {left right : String} (hl : IsScore left) (hr : IsScore right)
    (h : scoreKey left < scoreKey right) : scoreValue left < scoreValue right := by
  obtain ⟨cs, htl, hcs, hcne, hcv, _⟩ := trimZeros_spec hl
  obtain ⟨ds, htr, hds, _, hdv, hhead⟩ := trimZeros_spec hr
  rw [scoreKey_lt, htl, htr, utf8ByteSize_of_allDigits hcs, utf8ByteSize_of_allDigits hds] at h
  rw [← hcv, ← hdv]
  rcases h with hlen | ⟨hlen, hlt⟩
  · have hpos : 0 < cs.length := List.length_pos_iff.mpr hcne
    exact Digits.value_lt_of_length_lt hcs hds (hhead (by omega)) hlen
  · rw [Digits.value_lt_iff_of_length_eq hcs hds hlen]
    rwa [String.lt_iff_toList_lt, String.toList_ofList, String.toList_ofList] at hlt

theorem scoreValue_eq_of_key_eq {left right : String} (hl : IsScore left) (hr : IsScore right)
    (h : scoreKey left = scoreKey right) : scoreValue left = scoreValue right := by
  obtain ⟨cs, htl, _, _, hcv, _⟩ := trimZeros_spec hl
  obtain ⟨ds, htr, _, _, hdv, _⟩ := trimZeros_spec hr
  rw [scoreKey_eq, htl, htr] at h
  have hcd : cs = ds := by simpa using congrArg String.toList h
  rw [← hcv, ← hdv, hcd]

/-- On digit strings the string comparison is the numeric one. -/
theorem scoreKey_lt_iff {left right : String} (hl : IsScore left) (hr : IsScore right) :
    scoreKey left < scoreKey right ↔ scoreValue left < scoreValue right := by
  constructor
  · exact scoreValue_lt_of_key_lt hl hr
  · intro hlt
    by_contra hle
    rcases (not_lt.mp hle).lt_or_eq with h | h
    · exact absurd (scoreValue_lt_of_key_lt hr hl h) (not_lt.mpr hlt.le)
    · exact hlt.ne (scoreValue_eq_of_key_eq hr hl h).symm

theorem scoreKey_eq_iff {left right : String} (hl : IsScore left) (hr : IsScore right) :
    scoreKey left = scoreKey right ↔ scoreValue left = scoreValue right := by
  constructor
  · exact scoreValue_eq_of_key_eq hl hr
  · intro heq
    rcases lt_trichotomy (scoreKey left) (scoreKey right) with h | h | h
    · exact absurd heq (scoreValue_lt_of_key_lt hl hr h).ne
    · exact h
    · exact absurd heq (scoreValue_lt_of_key_lt hr hl h).ne'

end CompareDecimal
end OneBrc.Server
