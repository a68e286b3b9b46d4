import Mathlib.Data.List.Basic
import Mathlib.Data.Nat.Bitwise

/-! A search for a byte that compares whole blocks, and single bytes at the end of the text. -/
namespace OneBrc.Lib.BlockSearch
variable {α : Type} [DecidableEq α]

/-- A bit for each element of a block that is the needle, the first one lowest. -/
def mask (needle : α) : List α → ℕ
  | [] => 0
  | a :: block => Nat.bit (decide (a = needle)) (mask needle block)

/-- The lowest bit of a mask. -/
def trailingZeros (width mask : ℕ) : ℕ := ((List.range width).find? mask.testBit).getD width

/-- Single elements, from an offset on. -/
def scalarTail (needle : α) (text : List α) (offset : ℕ) : ℕ :=
  offset + (text.drop offset).findIdx fun a => decide (a = needle)

/-- Blocks of `width` elements as long as the text has one. -/
def search (width : ℕ) (needle : α) (text : List α) : ℕ → ℕ → ℕ
  | 0, offset => scalarTail needle text offset
  | fuel + 1, offset =>
      if offset + width ≤ text.length then
        let found := mask needle ((text.drop offset).take width)
        if found ≠ 0 then offset + trailingZeros width found
        else search width needle text fuel (offset + width)
      else scalarTail needle text offset

theorem testBit_mask (needle : α) (block : List α) (i : ℕ) :
    (mask needle block).testBit i = decide (block[i]? = some needle) := by
  induction block generalizing i with
  | nil => simp [mask]
  | cons a block ih =>
    cases i with
    | zero => simp [mask]
    | succ i => rw [mask, Nat.testBit_bit_succ, ih, List.getElem?_cons_succ]

theorem mask_eq_zero_iff {needle : α} {block : List α} :
    mask needle block = 0 ↔ needle ∉ block := by
  constructor
  · intro hzero hmem
    obtain ⟨i, hi⟩ := List.mem_iff_getElem?.mp hmem
    have hbit := testBit_mask needle block i
    rw [hzero, Nat.zero_testBit, hi] at hbit
    simp at hbit
  · intro hnot
    apply Nat.eq_of_testBit_eq
    intro i
    rw [testBit_mask, Nat.zero_testBit, decide_eq_false_iff_not]
    intro hi
    exact hnot (List.mem_of_getElem? hi)

theorem findIdx_eq_of_first {text : List α} {needle : α} {i : ℕ} (hi : text[i]? = some needle)
    (hbefore : ∀ j < i, text[j]? ≠ some needle) :
    text.findIdx (fun a => decide (a = needle)) = i := by
  obtain ⟨hlt, hget⟩ := List.getElem?_eq_some_iff.mp hi
  rw [List.findIdx_eq hlt]
  refine ⟨decide_eq_true hget, fun j hj => decide_eq_false fun heq => ?_⟩
  apply hbefore j hj
  rw [List.getElem?_eq_getElem (Nat.lt_trans hj hlt), heq]

/-- The lowest bit stands for the first needle of the block. -/
theorem trailingZeros_mask {needle : α} {block : List α} (h : needle ∈ block) :
    trailingZeros block.length (mask needle block) =
      block.findIdx fun a => decide (a = needle) := by
  obtain ⟨i, hi⟩ : ∃ i, (List.range block.length).find? (mask needle block).testBit = some i := by
    apply Option.isSome_iff_exists.mp
    rw [List.find?_isSome]
    obtain ⟨j, hj⟩ := List.mem_iff_getElem?.mp h
    refine ⟨j, List.mem_range.mpr (List.getElem?_eq_some_iff.mp hj).1, ?_⟩
    rw [testBit_mask, hj]
    exact decide_eq_true rfl
  obtain ⟨hbit, hmem, hbefore⟩ := List.find?_range_eq_some.mp hi
  rw [testBit_mask, decide_eq_true_eq] at hbit
  rw [trailingZeros, hi, Option.getD_some]
  refine (findIdx_eq_of_first hbit fun j hj heq => ?_).symm
  have hnot := hbefore j hj
  rw [testBit_mask, heq] at hnot
  simp at hnot

/-- The search finds the first needle from the offset on, or the end of the text. -/
theorem search_eq {width : ℕ} {needle : α} {text : List α} (fuel offset : ℕ) :
    search width needle text fuel offset = scalarTail needle text offset := by
  induction fuel generalizing offset with
  | zero => rfl
  | succ fuel ih =>
    rw [search]
    split
    · next hle =>
      have hlength : ((text.drop offset).take width).length = width := by
        rw [List.length_take, List.length_drop]
        omega
      have hsplit : (text.drop offset).findIdx (fun a => decide (a = needle)) =
          ((text.drop offset).take width ++ text.drop (offset + width)).findIdx
            fun a => decide (a = needle) := by
        rw [← List.drop_drop, List.take_append_drop]
      by_cases hmem : needle ∈ (text.drop offset).take width
      · have hfound : mask needle ((text.drop offset).take width) ≠ 0 := fun hzero =>
          mask_eq_zero_iff.mp hzero hmem
        have hindex := trailingZeros_mask hmem
        have hlt : ((text.drop offset).take width).findIdx (fun a => decide (a = needle)) <
            ((text.drop offset).take width).length :=
          List.findIdx_lt_length_of_exists ⟨needle, hmem, decide_eq_true rfl⟩
        rw [hlength] at hindex
        rw [if_pos hfound, hindex, scalarTail, hsplit, List.findIdx_append, if_pos hlt]
      · have hzero : ¬ mask needle ((text.drop offset).take width) ≠ 0 :=
          not_not.mpr (mask_eq_zero_iff.mpr hmem)
        have hnone : ¬ ((text.drop offset).take width).findIdx (fun a => decide (a = needle)) <
            ((text.drop offset).take width).length := by
          rw [List.findIdx_lt_length]
          rintro ⟨a, ha, heq⟩
          exact hmem (of_decide_eq_true heq ▸ ha)
        rw [if_neg hzero, ih, scalarTail, scalarTail, hsplit, List.findIdx_append, if_neg hnone,
          hlength]
        omega
    · rfl

/-- The first needle of a text. -/
theorem search_append {width : ℕ} {needle : α} {before rest : List α} (h : needle ∉ before)
    (fuel : ℕ) : search width needle (before ++ needle :: rest) fuel 0 = before.length := by
  rw [search_eq, scalarTail, List.drop_zero, Nat.zero_add, List.findIdx_append, if_neg]
  · simp [List.findIdx_cons]
  · rw [List.findIdx_lt_length]
    rintro ⟨a, ha, heq⟩
    exact h (of_decide_eq_true heq ▸ ha)

end OneBrc.Lib.BlockSearch
