import Mathlib.Algebra.Order.Field.Basic
import Mathlib.Algebra.Order.Ring.Abs
import Mathlib.Data.Rat.Cast.Order
import Mathlib.Tactic.Linarith
import Mathlib.Tactic.Positivity
import Mathlib.Tactic.FieldSimp
import Mathlib.Tactic.Ring

/-! Rounding to the nearest integer, where a half goes to the even one. -/
namespace OneBrc.Lib.HalfEven

structure IsRounded (q : ℚ) (n : ℤ) : Prop where
  near : |q - n| ≤ 1 / 2
  even : |q - n| = 1 / 2 → Even n

/-- The rounded quotient. -/
def round (n d : ℕ) : ℕ :=
  if n % d * 2 > d ∨ n % d * 2 = d ∧ n / d % 2 = 1 then n / d + 1 else n / d

variable {q : ℚ} {n m : ℤ}

theorem IsRounded.le (hn : IsRounded q n) (hm : IsRounded q m) : n ≤ m := by
  by_contra hlt
  have hle : m + 1 ≤ n := by omega
  have hleq : (m : ℚ) + 1 ≤ n := by exact_mod_cast hle
  have hnear := abs_le.mp hn.near
  have hnear' := abs_le.mp hm.near
  -- the number lies in the middle of two neighbours, and both are even
  have hq : q - m = 1 / 2 := by linarith
  have hq' : q - n = -(1 / 2) := by linarith
  have heven : Even m := hm.even (by rw [hq, abs_of_pos (by norm_num)])
  have heven' : Even n := hn.even (by rw [hq', abs_neg, abs_of_pos (by norm_num)])
  have hnext : n = m + 1 := by
    have hnextq : (n : ℚ) = m + 1 := by linarith
    exact_mod_cast hnextq
  rw [hnext, Int.even_add_one] at heven'
  exact heven' heven

theorem IsRounded.unique (hn : IsRounded q n) (hm : IsRounded q m) : n = m :=
  le_antisymm (hn.le hm) (hm.le hn)

theorem IsRounded.lt (hn : IsRounded q n) (h : q < m - 1 / 2) : n < m := by
  have hnear := (abs_le.mp hn.near).1
  have hlt : (n : ℚ) < m := by linarith
  exact_mod_cast hlt

theorem IsRounded.ge (hn : IsRounded q n) (h : m - 1 / 2 < q) : m ≤ n := by
  have hnear := (abs_le.mp hn.near).2
  have hlt : (m : ℚ) < n + 1 := by linarith
  have hlt' : m < n + 1 := by exact_mod_cast hlt
  omega

theorem isRounded_down (hpos : 0 ≤ q) (h : q < 1 / 2 ∨ q = 1 / 2 ∧ Even n) :
    IsRounded (n + q) n := by
  have hdiff : (n : ℚ) + q - n = q := by ring
  constructor
  · rw [hdiff, abs_of_nonneg hpos]
    rcases h with h | h
    · exact h.le
    · exact h.1.le
  · intro hhalf
    rw [hdiff, abs_of_nonneg hpos] at hhalf
    rcases h with h | h
    · exact absurd hhalf h.ne
    · exact h.2

theorem isRounded_up (hone : q < 1) (h : 1 / 2 < q ∨ q = 1 / 2 ∧ ¬Even n) :
    IsRounded (n + q) (n + 1) := by
  have hdiff : |(n : ℚ) + q - (n + 1 : ℤ)| = 1 - q := by
    rw [show (n : ℚ) + q - (n + 1 : ℤ) = -(1 - q) by push_cast; ring, abs_neg,
      abs_of_pos (by linarith)]
  constructor
  · rw [hdiff]
    rcases h with h | h
    · linarith
    · linarith [h.1]
  · intro hhalf
    rw [hdiff] at hhalf
    rcases h with h | h
    · linarith
    · exact Int.even_add_one.mpr h.2

theorem isRounded_round (n : ℕ) {d : ℕ} (hd : 0 < d) :
    IsRounded ((n : ℚ) / d) (round n d : ℕ) := by
  have hdq : (0 : ℚ) < d := Nat.cast_pos.mpr hd
  have hdiv : (n : ℚ) = d * (n / d : ℕ) + (n % d : ℕ) := by
    exact_mod_cast (Nat.div_add_mod n d).symm
  have hlt : n % d < d := Nat.mod_lt n hd
  have hquot : (n : ℚ) / d = ((n / d : ℕ) : ℤ) + ((n % d : ℕ) : ℚ) / d := by
    rw [div_eq_iff hdq.ne', add_mul, div_mul_cancel₀ _ hdq.ne', Int.cast_natCast, mul_comm]
    exact hdiv
  have hparity : Even ((n / d : ℕ) : ℤ) ↔ n / d % 2 = 0 := by
    rw [Int.even_coe_nat, Nat.even_iff]
  have hless : ((n % d : ℕ) : ℚ) / d < 1 / 2 ↔ n % d * 2 < d := by
    rw [div_lt_div_iff₀ hdq (by norm_num), one_mul]
    exact_mod_cast Iff.rfl
  have hhalf : ((n % d : ℕ) : ℚ) / d = 1 / 2 ↔ n % d * 2 = d := by
    rw [div_eq_div_iff hdq.ne' (by norm_num), one_mul]
    exact_mod_cast Iff.rfl
  have hmore : 1 / 2 < ((n % d : ℕ) : ℚ) / d ↔ d < n % d * 2 := by
    rw [div_lt_div_iff₀ (by norm_num) hdq, one_mul]
    exact_mod_cast Iff.rfl
  rw [hquot, round]
  by_cases hup : n % d * 2 > d ∨ n % d * 2 = d ∧ n / d % 2 = 1
  · rw [if_pos hup, Nat.cast_succ]
    refine isRounded_up ?_ ?_
    · rw [div_lt_one hdq]
      exact_mod_cast hlt
    · rw [hmore, hhalf, hparity]
      omega
  · rw [if_neg hup]
    refine isRounded_down (by positivity) ?_
    rw [hless, hhalf, hparity]
    omega

/-- A bias that depends on the parity of the quotient, before a shift. -/
theorem add_bias_div {n h : ℕ} (hh : 0 < h) :
    (n + (h - 1 + n / (2 * h) % 2)) / (2 * h) = round n (2 * h) := by
  have hdiv := Nat.div_add_mod n (2 * h)
  have hlt : n % (2 * h) < 2 * h := Nat.mod_lt n (by omega)
  unfold round
  generalize n % (2 * h) = r at *
  generalize hk : n / (2 * h) = k at *
  have hsum : n + (h - 1 + k % 2) = (r + (h - 1 + k % 2)) + 2 * h * k := by omega
  rw [hsum, Nat.add_mul_div_left _ _ (by omega)]
  split_ifs with hup
  · have hone : (r + (h - 1 + k % 2)) / (2 * h) = 1 := by
      rw [Nat.div_eq_iff (by omega)]
      omega
    omega
  · have hzero : (r + (h - 1 + k % 2)) / (2 * h) = 0 := by
      rw [Nat.div_eq_zero_iff]
      omega
    omega

end OneBrc.Lib.HalfEven
