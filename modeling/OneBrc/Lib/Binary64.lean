import Mathlib.Algebra.Order.Floor.Ring
import Mathlib.Data.Nat.Cast.Order.Field
import Mathlib.Data.Rat.Floor
import Mathlib.Tactic.Linarith
import Mathlib.Tactic.Positivity
import Mathlib.Tactic.FieldSimp

/-! Rounding of rational numbers to binary numbers of 64 bits. -/
namespace OneBrc.Lib.Binary64

/-- What is used of rounding to the nearest binary number: it keeps the order and the integers with
53 bits, and in the range of normal numbers its error is small. -/
structure Rounds (round : ℚ → ℚ) : Prop where
  mono : Monotone round
  exact : ∀ n : ℕ, n ≤ 2 ^ 53 → round n = n
  near : ∀ q, 1 / 2 ^ 1000 ≤ q → q ≤ 2 ^ 1000 → |round q - q| ≤ q / 2 ^ 53

/-- Without rounding. -/
theorem rounds_id : Rounds id where
  mono := monotone_id
  exact _ _ := rfl
  near q hq _ := by
    have hpos : 0 < q := lt_of_lt_of_le (by positivity) hq
    rw [id, sub_self, abs_zero]
    positivity

variable {round : ℚ → ℚ}

/-- The floor of a rounded quotient of integers with 53 bits is the exact one. -/
theorem Rounds.floor_div (h : Rounds round) {n d : ℕ} (hn : n < 2 ^ 53) (hd : 0 < d)
    (hd' : d ≤ 2 ^ 53) : ⌊round ((n : ℚ) / d)⌋ = ((n / d : ℕ) : ℤ) := by
  have hdq : (0 : ℚ) < d := Nat.cast_pos.mpr hd
  have hle : ((n / d : ℕ) : ℚ) ≤ (n : ℚ) / d := Nat.cast_div_le
  have hquot : n / d ≤ 2 ^ 53 := (Nat.div_le_self n d).trans hn.le
  have hlow : ((n / d : ℕ) : ℚ) ≤ round ((n : ℚ) / d) := by
    rw [← h.exact _ hquot]
    exact h.mono hle
  rw [Int.floor_eq_iff]
  refine ⟨by exact_mod_cast hlow, ?_⟩
  rcases Nat.eq_zero_or_pos n with rfl | hpos
  · have hzero : round ((0 : ℕ) : ℚ) = ((0 : ℕ) : ℚ) := h.exact 0 (by norm_num)
    rw [Nat.cast_zero, zero_div, Nat.zero_div]
    rw [Nat.cast_zero] at hzero
    rw [hzero]
    norm_num
  · have hnq : (1 : ℚ) ≤ n := by exact_mod_cast hpos
    have hdq' : (d : ℚ) ≤ 2 ^ 53 := by exact_mod_cast hd'
    have hnq' : (n : ℚ) < 2 ^ 53 := by exact_mod_cast hn
    have hone : (1 : ℚ) ≤ d := by exact_mod_cast hd
    have hsmall : (1 : ℚ) / 2 ^ 1000 ≤ (n : ℚ) / d := by
      rw [div_le_div_iff₀ (by positivity) hdq, one_mul]
      calc (d : ℚ) ≤ 2 ^ 53 := hdq'
        _ ≤ 2 ^ 1000 := pow_le_pow_right₀ (by norm_num) (by norm_num)
        _ ≤ n * 2 ^ 1000 := le_mul_of_one_le_left (by positivity) hnq
    have hlarge : (n : ℚ) / d ≤ 2 ^ 1000 := by
      calc (n : ℚ) / d ≤ n := div_le_self (by positivity) hone
        _ ≤ 2 ^ 53 := hnq'.le
        _ ≤ 2 ^ 1000 := pow_le_pow_right₀ (by norm_num) (by norm_num)
    have herror := (abs_le.mp (h.near _ hsmall hlarge)).2
    -- the quotient is at least a part of `d` below the next integer, the error is smaller
    have hgap : (n : ℚ) / d + 1 / d ≤ ((n / d : ℕ) : ℚ) + 1 := by
      rw [← add_div, div_le_iff₀ hdq]
      have hmod : n + 1 ≤ (n / d + 1) * d := by
        have hdiv := Nat.div_add_mod n d
        have hlt := Nat.mod_lt n hd
        rw [Nat.add_mul, Nat.one_mul, Nat.mul_comm]
        omega
      exact_mod_cast hmod
    have hstrict : (n : ℚ) / d / 2 ^ 53 < 1 / d := by
      rw [div_div, div_lt_div_iff₀ (by positivity) hdq, one_mul, mul_comm]
      exact mul_lt_mul_of_pos_left hnq' hdq
    rw [Int.cast_natCast]
    linarith

end OneBrc.Lib.Binary64
