import Mathlib.Data.List.TakeWhile
import Mathlib.Data.Rat.Defs
import OneBrc.Lib.Digits
import OneBrc.Lib.HalfEven

/-! The numbers of JSON, and the binary numbers next to them. -/
namespace OneBrc.Lib

/-- The parts of a number; `fraction` is empty without a point. -/
structure JsonNumber where
  negative : Bool
  whole : List Char
  fraction : List Char
  exponent : Option ℤ

namespace JsonNumber

/-- Digits after an optional sign. -/
def exponentValue : List Char → Option ℤ
  | '-' :: cs => if cs.isEmpty || !Digits.allDigits cs then none else some (-(Digits.value cs : ℤ))
  | '+' :: cs => if cs.isEmpty || !Digits.allDigits cs then none else some (Digits.value cs)
  | cs => if cs.isEmpty || !Digits.allDigits cs then none else some (Digits.value cs)

/-- The exponent at the end, if there is one. -/
def exponentPart : List Char → Option (Option ℤ)
  | [] => some none
  | c :: cs => if c = 'e' ∨ c = 'E' then (exponentValue cs).map some else none

/-- The digits after a point, if there is one, and what follows them. -/
def fractionPart : List Char → Option (List Char × List Char)
  | '.' :: cs =>
      let (digits, rest) := cs.span Digits.isDigit
      if digits.isEmpty then none else some (digits, rest)
  | cs => some ([], cs)

def sign : List Char → Bool × List Char
  | '-' :: cs => (true, cs)
  | cs => (false, cs)

/-- The grammar of numbers: no zeros before the first digit, and a digit on each side of a point. -/
def parse (literal : String) : Option JsonNumber := do
  let (negative, cs) := sign literal.toList
  let (whole, cs) := cs.span Digits.isDigit
  guard (whole = ['0'] ∨ whole ≠ [] ∧ whole.head? ≠ some '0')
  let (fraction, cs) ← fractionPart cs
  let exponent ← exponentPart cs
  pure ⟨negative, whole, fraction, exponent⟩

def signed (n : JsonNumber) (q : ℚ) : ℚ := if n.negative then -q else q

def value (n : JsonNumber) : ℚ :=
  n.signed (Digits.value (n.whole ++ n.fraction) * 10 ^ (n.exponent.getD 0 - n.fraction.length))

/-- A number that is spelled as an integer. -/
def int? (n : JsonNumber) : Option ℤ :=
  if n.fraction = [] ∧ n.exponent = none then
    some (if n.negative then -(Digits.value n.whole : ℤ) else Digits.value n.whole)
  else none

theorem sign_of_digits {cs : List Char} (h : Digits.allDigits cs = true) :
    sign cs = (false, cs) := by
  unfold sign
  split
  · contradiction
  · rfl

/-- The digits of a number are its only text without zeros before them. -/
theorem head?_repr {n : ℕ} (hn : n ≠ 0) : n.repr.toList.head? ≠ some '0' := by
  intro hhead
  obtain ⟨cs, hcs⟩ := List.head?_eq_some_iff.mp hhead
  have hdigits := Digits.allDigits_repr n
  have hvalue := Digits.value_repr n
  rw [hcs, Digits.allDigits, List.all_cons, Bool.and_eq_true] at hdigits
  rw [hcs, Digits.value_cons, show Digits.digitValue '0' = 0 from rfl, Nat.zero_mul,
    Nat.zero_add] at hvalue
  have hlt : n < 10 ^ cs.length := hvalue ▸ Digits.value_lt hdigits.2
  rcases Nat.eq_zero_or_pos cs.length with hzero | hpos
  · rw [hzero, pow_zero] at hlt
    omega
  · have hle := (Nat.length_toDigits_le_iff (b := 10) (by decide) hpos).mpr hlt
    rw [← Nat.toList_repr, hcs, List.length_cons] at hle
    omega

theorem parse_repr (n : ℕ) : parse n.repr = some ⟨false, n.repr.toList, [], none⟩ := by
  have hdigits := Digits.allDigits_repr n
  have hall : ∀ c ∈ n.repr.toList, Digits.isDigit c = true := List.all_eq_true.mp hdigits
  have hspan : n.repr.toList.span Digits.isDigit = (n.repr.toList, []) := by
    rw [List.span_eq_takeWhile_dropWhile, List.takeWhile_eq_self_iff.mpr hall,
      List.dropWhile_eq_nil_iff.mpr hall]
  have hhead : n.repr.toList = ['0'] ∨ n.repr.toList ≠ [] ∧ n.repr.toList.head? ≠ some '0' := by
    rcases Nat.eq_zero_or_pos n with rfl | hpos
    · exact .inl rfl
    · refine .inr ⟨?_, head?_repr hpos.ne'⟩
      rw [Nat.toList_repr]
      exact Nat.toDigits_ne_nil
  rw [parse, sign_of_digits hdigits]
  dsimp only
  rw [hspan]
  dsimp only
  rw [guard, if_pos hhead]
  rfl

theorem int?_repr (n : ℕ) : (⟨false, n.repr.toList, [], none⟩ : JsonNumber).int? = some (n : ℤ) := by
  rw [int?, if_pos ⟨rfl, rfl⟩, Digits.value_repr]
  rfl

theorem value_repr (n : ℕ) : (⟨false, n.repr.toList, [], none⟩ : JsonNumber).value = n := by
  rw [value, List.append_nil, Digits.value_repr]
  simp [signed]

end JsonNumber

/-- A format of binary numbers: the bits of a significand, the exponent of the least number and the
exponent of the first power of two that is too large. -/
structure BinaryFormat where
  precision : ℕ
  least : ℤ
  bound : ℕ

namespace BinaryFormat

def binary32 : BinaryFormat := ⟨24, -149, 128⟩
def binary64 : BinaryFormat := ⟨53, -1074, 1024⟩

/-- The exponent of the largest power of two up to `|q|`. -/
def exponent (q : ℚ) : ℤ :=
  let e : ℤ := (Nat.log2 q.num.natAbs : ℤ) - Nat.log2 q.den
  if (2 : ℚ) ^ e ≤ |q| then e else e - 1

section Format
variable (format : BinaryFormat)

/-- The distance of the binary numbers around `q`. -/
def ulp (q : ℚ) : ℚ := 2 ^ max (exponent q - (format.precision - 1 : ℕ)) format.least

/-- The nearest binary number, where a half goes to the even one. -/
def nearest (q : ℚ) : ℚ :=
  let steps := |q| / format.ulp q
  let rounded := (HalfEven.round steps.num.natAbs steps.den : ℚ) * format.ulp q
  if q < 0 then -rounded else rounded

/-- The nearest binary number; there is none when it is infinite. -/
def round (q : ℚ) : Option ℚ :=
  if |format.nearest q| < 2 ^ format.bound then some (format.nearest q) else none

end Format

variable {format : BinaryFormat}

/-- The distance around an integer with the bits of a significand divides one. -/
theorem ulp_intCast {n : ℤ} (hleast : format.least ≤ 0) (h : n.natAbs < 2 ^ format.precision) :
    ∃ j : ℕ, format.ulp n = 1 / 2 ^ j := by
  have hexponent : exponent n ≤ (format.precision - 1 : ℕ) := by
    have hlog : Nat.log2 n.natAbs ≤ format.precision - 1 := by
      rcases Nat.eq_zero_or_pos n.natAbs with hzero | hpos
      · rw [hzero, Nat.log2_zero]
        exact Nat.zero_le _
      · have := (Nat.log2_lt hpos.ne').mpr h
        omega
    have hone : Nat.log2 1 = 0 := by decide
    rw [exponent, Rat.num_intCast, Rat.den_intCast, hone]
    split <;> omega
  obtain ⟨j, hj⟩ := Int.eq_ofNat_of_zero_le (Int.neg_nonneg_of_nonpos
    (max_le (Int.sub_nonpos_of_le hexponent) hleast))
  refine ⟨j, ?_⟩
  rw [ulp, ← neg_neg (max _ _), hj, zpow_neg, one_div, zpow_natCast]

/-- Such an integer is its own nearest binary number. -/
theorem nearest_intCast {n : ℤ} (hleast : format.least ≤ 0)
    (h : n.natAbs < 2 ^ format.precision) : format.nearest n = n := by
  obtain ⟨j, hj⟩ := ulp_intCast hleast h
  have habs : |(n : ℚ)| = (n.natAbs : ℚ) := by
    rw [← Int.cast_abs, Int.abs_eq_natAbs, Int.cast_natCast]
  have hsteps : |(n : ℚ)| / (1 / 2 ^ j) = ((n.natAbs * 2 ^ j : ℕ) : ℚ) := by
    rw [habs, div_div_eq_mul_div, div_one, Nat.cast_mul, Nat.cast_pow, Nat.cast_ofNat]
  have hround (m : ℕ) : HalfEven.round m 1 = m := by simp [HalfEven.round, Nat.mod_one]
  have hrounded : ((HalfEven.round (|(n : ℚ)| / (1 / 2 ^ j)).num.natAbs
      (|(n : ℚ)| / (1 / 2 ^ j)).den : ℕ) : ℚ) * (1 / 2 ^ j) = |(n : ℚ)| := by
    rw [hsteps, Rat.num_natCast, Rat.den_natCast, Int.natAbs_natCast, hround, ← hsteps,
      div_mul_cancel₀ _ (by positivity)]
  rw [nearest, hj, hrounded]
  split
  · next hneg => rw [abs_of_neg hneg, neg_neg]
  · next hpos => rw [abs_of_nonneg (not_lt.mp hpos)]

theorem round_intCast {n : ℤ} (hleast : format.least ≤ 0)
    (hbound : format.precision ≤ format.bound) (h : n.natAbs < 2 ^ format.precision) :
    format.round n = some (n : ℚ) := by
  rw [round, nearest_intCast hleast h, if_pos]
  rw [← Int.cast_abs, Int.abs_eq_natAbs, Int.cast_natCast]
  exact_mod_cast h.trans_le (Nat.pow_le_pow_right (by decide) hbound)

end BinaryFormat

end OneBrc.Lib
