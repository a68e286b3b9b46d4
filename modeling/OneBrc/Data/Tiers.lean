import Mathlib.Data.List.Pairwise
import OneBrc.Lib.Decimal
import OneBrc.Lib.Digits
import OneBrc.Lib.Fallible
import OneBrc.Lib.GoText
import OneBrc.Lib.StableSort
import OneBrc.Lib.Utf8

/-! `ParseTiers` and `tierLabel`: the numbers of rows of the public datasets. -/
namespace OneBrc.Data
open Lib GoText StableSort

/-- The bytes of a Go string. -/
def bytesOf (s : List Rune) : Bytes :=
  s.flatMap fun
    | .char c => Utf8.encode [c]
    | .invalid b => [b]

inductive TierError where
  | invalidTier (raw : List Rune)

/-- One part of the list; `seen` has the keys of the map. -/
def parseTier (maximum : Int64) (seen : List Int64) (raw : List Rune) :
    Except TierError (List Int64) :=
  match Decimal.parseInt64 (bytesOf (trimSpace raw)) with
  | none => .error (.invalidTier raw)
  | some rows =>
      if rows ≤ 0 ∨ maximum < rows then .error (.invalidTier raw) else .ok (seen.insert rows)

/-- The keys come out of the map in any order; they are different, so one sorted list is left. -/
def parseTiers (value : List Rune) (maximum : Int64) : Except TierError (List Int64) := do
  let seen ← (split [.char ','] value).foldlM (parseTier maximum) []
  return sliceStable (fun a b => decide (a < b)) (seen.insert maximum)

def tierLabel (rows : Int64) : String :=
  if rows = 1000000 then "1m"
  else if rows = 10000000 then "10m"
  else if rows = 100000000 then "100m"
  else if rows = 1000000000 then "1b"
  else toString rows.toInt

/-- Different numbers of rows in ascending order, the last one that of the whole dataset. -/
structure IsTiers (maximum : Int64) (tiers : List Int64) : Prop where
  nodup : tiers.Nodup
  pos : ∀ rows ∈ tiers, 0 < rows
  le : ∀ rows ∈ tiers, rows ≤ maximum
  last : tiers.getLast? = some maximum

variable {value : List Rune} {maximum : Int64} {tiers seen seen' : List Int64}

/-- The keys that the loop collects are in the range. -/
structure SeenTiers (maximum : Int64) (seen : List Int64) : Prop where
  nodup : seen.Nodup
  pos : ∀ rows ∈ seen, 0 < rows
  le : ∀ rows ∈ seen, rows ≤ maximum

theorem SeenTiers.nil (maximum : Int64) : SeenTiers maximum [] where
  nodup := List.nodup_nil
  pos _ h := absurd h List.not_mem_nil
  le _ h := absurd h List.not_mem_nil

theorem SeenTiers.insert (h : SeenTiers maximum seen) {rows : Int64} (hpos : 0 < rows)
    (hle : rows ≤ maximum) : SeenTiers maximum (seen.insert rows) where
  nodup := h.nodup.insert
  pos r hr := by
    rcases List.mem_insert_iff.mp hr with rfl | hr
    · exact hpos
    · exact h.pos r hr
  le r hr := by
    rcases List.mem_insert_iff.mp hr with rfl | hr
    · exact hle
    · exact h.le r hr

theorem seenTiers_parseTier (h : SeenTiers maximum seen) {raw : List Rune}
    (hrun : parseTier maximum seen raw = .ok seen') :
    SeenTiers maximum seen' := by
  unfold parseTier at hrun
  split at hrun
  · contradiction
  · next rows _ =>
    split at hrun
    · contradiction
    · next hrange =>
      obtain ⟨hpos, hle⟩ := not_or.mp hrange
      have hpos := Int64.not_le.mp hpos
      have hle := Int64.not_lt.mp hle
      rw [← Except.ok.inj hrun]
      exact h.insert hpos hle

theorem splitFrom_ne_nil (sep s : List Rune) (skip : ℕ) (element : List Rune) :
    splitFrom sep skip element s ≠ [] := by
  induction s generalizing skip element with
  | nil => exact List.cons_ne_nil _ _
  | cons r s ih =>
    rw [splitFrom]
    split
    · exact ih _ _
    · split
      · exact List.cons_ne_nil _ _
      · exact ih _ _

/-- In a sorted list that ends at its greatest element. -/
theorem isTiers_parseTiers (h : parseTiers value maximum = .ok tiers) : IsTiers maximum tiers := by
  obtain ⟨seen, hseen, hsort⟩ := Fallible.bind_eq_ok.mp h
  obtain rfl := Except.ok.inj hsort
  have hkeys : SeenTiers maximum seen := Fallible.foldlM_invariant
    (fun _ hinv hrun => seenTiers_parseTier hinv hrun) (SeenTiers.nil maximum) hseen
  have hpos : 0 < maximum := by
    obtain ⟨raw, hraw⟩ := List.exists_mem_of_ne_nil _ (splitFrom_ne_nil [.char ','] value 0 [])
    obtain ⟨seen₁, seen₂, hrun⟩ := Fallible.foldlM_pass hseen raw hraw
    unfold parseTier at hrun
    split at hrun
    · contradiction
    · next rows _ =>
      split at hrun
      · contradiction
      · next hrange =>
        obtain ⟨hlow, hhigh⟩ := not_or.mp hrange
        exact Int64.lt_of_lt_of_le (Int64.not_le.mp hlow) (Int64.not_lt.mp hhigh)
  have hall : SeenTiers maximum (seen.insert maximum) := hkeys.insert hpos (Int64.le_refl _)
  have hperm := sliceStable_perm (fun a b : Int64 => decide (a < b)) (seen.insert maximum)
  have hless (a b : Int64) : decide (a < b) = true ↔ a.toInt < b.toInt := by
    rw [decide_eq_true_iff, Int64.lt_iff_toInt_lt]
  have hsorted := sliceStable_sorted hless (l := seen.insert maximum)
  refine ⟨hperm.nodup_iff.mpr hall.nodup, fun rows hrows => hall.pos rows (hperm.mem_iff.mp hrows),
    fun rows hrows => hall.le rows (hperm.mem_iff.mp hrows), ?_⟩
  have hmem := hperm.mem_iff.mpr (List.mem_insert_self (a := maximum) (l := seen))
  rw [List.getLast?_eq_getLast_of_ne_nil (List.ne_nil_of_mem hmem), Option.some_inj]
  apply Int64.toInt_inj.mp
  apply le_antisymm
  · exact Int64.le_iff_toInt_le.mp (hall.le _ (hperm.mem_iff.mp (List.getLast_mem _)))
  · exact hsorted.rel_getLast_of_rel_getLast_getLast hmem le_rfl

section Labels
variable {rows : Int64}

/-- The number of rows of a label. -/
def rowsOfLabel (label : String) : ℕ :=
  if label = "1m" then 1000000
  else if label = "10m" then 10000000
  else if label = "100m" then 100000000
  else if label = "1b" then 1000000000
  else Digits.value label.toList

theorem toString_toInt (h : 0 < rows) : toString rows.toInt = rows.toInt.toNat.repr := by
  have hpos : 0 < rows.toInt := Int64.lt_iff_toInt_lt.mp h
  obtain ⟨n, hn⟩ := Int.eq_ofNat_of_zero_le hpos.le
  rw [hn]
  rfl

theorem ne_of_allDigits {text label : String} (h : Digits.allDigits text.toList = true)
    (hlabel : Digits.allDigits label.toList = false) : text ≠ label := by
  rintro rfl
  rw [h] at hlabel
  contradiction

theorem rowsOfLabel_tierLabel (h : 0 < rows) : rowsOfLabel (tierLabel rows) = rows.toInt.toNat := by
  unfold tierLabel
  split
  · next heq =>
    rw [heq]
    rfl
  split
  · next heq =>
    rw [heq]
    rfl
  split
  · next heq =>
    rw [heq]
    rfl
  split
  · next heq =>
    rw [heq]
    rfl
  have hdigits := Digits.allDigits_repr rows.toInt.toNat
  rw [toString_toInt h, rowsOfLabel, if_neg (ne_of_allDigits hdigits (by decide)),
    if_neg (ne_of_allDigits hdigits (by decide)), if_neg (ne_of_allDigits hdigits (by decide)),
    if_neg (ne_of_allDigits hdigits (by decide)), Digits.value_repr]

/-- Different numbers of rows have different labels. -/
theorem tierLabel_inj {rows' : Int64} (h : 0 < rows) (h' : 0 < rows')
    (heq : tierLabel rows = tierLabel rows') : rows = rows' := by
  have hnat := congrArg rowsOfLabel heq
  rw [rowsOfLabel_tierLabel h, rowsOfLabel_tierLabel h'] at hnat
  have hpos : 0 < rows.toInt := Int64.lt_iff_toInt_lt.mp h
  have hpos' : 0 < rows'.toInt := Int64.lt_iff_toInt_lt.mp h'
  exact Int64.toInt_inj.mp (by omega)

theorem toString_chars (h : 0 < rows) : Digits.allDigits (toString rows.toInt).toList = true ∧
    (toString rows.toInt).toList.length ≤ 19 := by
  have hlt : rows.toInt.toNat < 10 ^ 19 := by
    have hmax := rows.toInt_lt
    omega
  rw [toString_toInt h]
  refine ⟨Digits.allDigits_repr _, ?_⟩
  rw [Nat.repr, String.toList_ofList]
  exact (Nat.length_toDigits_le_iff (by decide) (by decide)).mpr hlt

/-- The letters of a label. -/
def isLabelChar (c : Char) : Bool := Digits.isDigit c || c = 'm' || c = 'b'

theorem tierLabel_chars (h : 0 < rows) : (tierLabel rows).toList.all isLabelChar = true ∧
    (tierLabel rows).toList.length ≤ 19 := by
  unfold tierLabel
  split
  · decide
  split
  · decide
  split
  · decide
  split
  · decide
  obtain ⟨hdigits, hlength⟩ := toString_chars h
  refine ⟨?_, hlength⟩
  rw [Digits.allDigits, List.all_eq_true] at hdigits
  rw [List.all_eq_true]
  intro c hc
  rw [isLabelChar, hdigits c hc]
  rfl

end Labels
end OneBrc.Data
