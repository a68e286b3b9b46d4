import Mathlib.Tactic.IntervalCases
import Mathlib.Tactic.NormNum
import OneBrc.Analyzer.OptimizedRuby
import OneBrc.Analyzer.OptimizedTypeScript
import OneBrc.Lib.HalfEven

/-! Means with two decimals: `append_average` and `append_uint` of the C and the C++ program, which
have the same text in both, and the formatters of TypeScript, Ruby and Zig. -/
namespace OneBrc.Analyzer.TwoDecimals
open Lib

/-- What an output buffer holds, by address. -/
abbrev Memory := ℕ → UInt8

def digitPairs : Bytes :=
  ("00010203040506070809" ++ "10111213141516171819" ++ "20212223242526272829" ++
    "30313233343536373839" ++ "40414243444546474849" ++ "50515253545556575859" ++
    "60616263646566676869" ++ "70717273747576777879" ++ "80818283848586878889" ++
    "90919293949596979899").toList.map fun c => UInt8.ofNat c.toNat

def powers10 : List UInt32 :=
  [1, 10, 100, 1000, 10000, 100000, 1000000, 10000000, 100000000, 1000000000]

/-- Two bytes from an index of `digitPairs` on, or nothing outside of it. -/
def load16 (i : UInt32) : Option (UInt8 × UInt8) := do
  let first ← digitPairs[i.toNat]?
  let second ← digitPairs[i.toNat + 1]?
  some (first, second)

def store16 (memory : Memory) (p : ℕ) (x : UInt8 × UInt8) : Memory :=
  Function.update (Function.update memory p x.1) (p + 1) x.2

/-- `__builtin_clz` -/
def clz (x : UInt32) : UInt32 := ⟨x.toBitVec.clz⟩

/-- The number of digits. -/
def digitCount (x : UInt32) : Option UInt32 := do
  let bits := 32 - clz (x ||| 1)
  let estimate := (bits * 1233) >>> 12
  let power ← powers10[estimate.toNat]?
  let digits := estimate + (if x ≥ power then 1 else 0)
  some (digits + (if digits = 0 then 1 else 0))

/-- The digits before `q`, from the last one on. -/
def writeDigits (memory : Memory) (q : ℕ) (x : UInt32) : Option Memory :=
  if _h : x ≥ 100 then do
    let pair ← load16 (x % 100 * 2)
    writeDigits (store16 memory (q - 2) pair) (q - 2) (x / 100)
  else if x ≥ 10 then do
    let pair ← load16 (x * 2)
    some (store16 memory (q - 2) pair)
  else some (Function.update memory (q - 1) (48 + x.toUInt8))
termination_by x.toNat
decreasing_by
  rw [ge_iff_le, UInt32.le_iff_toNat_le] at _h
  have h100 : (100 : UInt32).toNat = 100 := rfl
  rw [UInt32.toNat_div, h100]
  omega

def appendUint (memory : Memory) (p : ℕ) (x : UInt32) : Option (Memory × ℕ) := do
  let digits ← digitCount x
  let memory ← writeDigits memory (p + digits.toNat) x
  some (memory, p + digits.toNat)

section Average

def product (bits : UInt64) : UInt64 := (bits &&& 0x000FFFFFFFFFFFFF ||| 0x0010000000000000) * 100

def shift (bits : UInt64) : UInt32 := (1075 : UInt32) - ((bits >>> 52).toUInt32 &&& 0x7FF)

def bias (bits : UInt64) : UInt64 :=
  let quotient := product bits >>> (shift bits).toUInt64
  (1 <<< ((shift bits).toUInt64 - 1)) - 1 + (quotient &&& 1)

def scaled (bits : UInt64) : UInt64 :=
  if shift bits < 64 then (product bits + bias bits) >>> (shift bits).toUInt64 else 0

/-- `quotient` gives the bits of the quotient of two numbers. -/
def appendAverage (quotient : UInt32 → UInt32 → UInt64) (memory : Memory) (p : ℕ)
    (total count : UInt32) : Option (Memory × ℕ) := do
  let scaled := scaled (quotient total count)
  let (memory, p) ← appendUint memory p (scaled / 100).toUInt32
  let memory := Function.update memory p 46
  let memory := Function.update memory (p + 1) (48 + (scaled / 10 % 10).toUInt8)
  let memory := Function.update memory (p + 2) (48 + (scaled % 10).toUInt8)
  some (memory, p + 3)

end Average

/-- `writeFixed2` in numbers of 128 bits; `none` is a shift that is not below 128. -/
def writeFixed2 (bits : ℕ) : Option Bytes :=
  let exponentBits := bits >>> 52 &&& 0x7FF
  let fraction := bits &&& (1 <<< 52) - 1
  let (mantissa, exponent) : ℕ × ℤ :=
    if exponentBits = 0 then (fraction, -1022 - 52)
    else (1 <<< 52 ||| fraction, exponentBits - 1023 - 52)
  let scaled := mantissa * 100
  if exponent.natAbs ≥ 128 then none
  else
    let cents :=
      if exponent ≥ 0 then (scaled <<< exponent.toNat) % 2 ^ 128
      else
        let denominator := 1 <<< (-exponent).toNat
        let cents := scaled / denominator
        let remainder := scaled % denominator
        if remainder * 2 > denominator ∨ remainder * 2 = denominator ∧ cents % 2 = 1 then cents + 1
        else cents
    let digits := Decimal.encode (cents % 100)
    some (Decimal.encode (cents / 100) ++ 46 :: (List.replicate (2 - digits.length) 48 ++ digits))

/-- Two decimals of a number of hundredths. -/
def twoDecimals (cents : ℕ) : Bytes :=
  Decimal.encode (cents / 100) ++ 46 :: Decimal.encode (cents % 100 / 10) ++
    Decimal.encode (cents % 10)

/-- The text of a number, rounded to the nearest hundredth. -/
def IsTwoDecimals (q : ℚ) (text : Bytes) : Prop :=
  ∃ cents : ℕ, HalfEven.IsRounded (q * 100) cents ∧ text = twoDecimals cents

/-- The significand and the biased exponent of a number from 1 on and below `2 ^ 32`. -/
structure Normal (m e : ℕ) : Prop where
  le_m : 2 ^ 52 ≤ m
  m_lt : m < 2 ^ 53
  le_e : 1023 ≤ e
  e_le : e ≤ 1054

/-- The number. -/
def number (m e : ℕ) : ℚ := m * 2 ^ ((e : ℤ) - 1075)

/-- Its bits. -/
def bitsOf (m e : ℕ) : ℕ := e * 2 ^ 52 + (m - 2 ^ 52)

section Memory

/-- The memory with a text from an address on. -/
def write (memory : Memory) (p : ℕ) : Bytes → Memory
  | [] => memory
  | b :: bs => Function.update (write memory (p + 1) bs) p b

variable {memory : Memory} {p a : ℕ} {b : UInt8}

theorem write_append (memory : Memory) (p : ℕ) (s t : Bytes) :
    write memory p (s ++ t) = write (write memory (p + s.length) t) p s := by
  induction s generalizing p with
  | nil => rfl
  | cons b s ih =>
    rw [List.cons_append, write, write, ih, List.length_cons, Nat.add_right_comm, Nat.add_assoc]

theorem update_write (h : a < p) (s : Bytes) :
    Function.update (write memory p s) a b = write (Function.update memory a b) p s := by
  induction s generalizing p with
  | nil => rfl
  | cons c s ih =>
    rw [write, write, Function.update_comm (by omega), ih (by omega)]

/-- A text can be written from its first byte on. -/
theorem write_write (memory : Memory) (p : ℕ) (s t : Bytes) :
    write (write memory p s) (p + s.length) t = write memory p (s ++ t) := by
  induction s generalizing p with
  | nil => rfl
  | cons b s ih =>
    rw [List.cons_append, write, write, ← update_write (by rw [List.length_cons]; omega),
      List.length_cons, ← ih, Nat.add_right_comm, Nat.add_assoc]

theorem store16_eq (memory : Memory) (p : ℕ) (x y : UInt8) :
    store16 memory p (x, y) = write memory p [x, y] := write_write memory p [x] [y]

theorem update_three (memory : Memory) (p : ℕ) (x y z : UInt8) :
    Function.update (Function.update (Function.update memory p x) (p + 1) y) (p + 2) z =
      write memory p [x, y, z] :=
  calc write (write (write memory p [x]) (p + 1) [y]) (p + 1 + 1) [z]
      = write (write memory p [x]) (p + 1) [y, z] := write_write _ (p + 1) [y] [z]
    _ = write memory p [x, y, z] := write_write memory p [x] [y, z]

end Memory

section Digits
variable {memory : Memory} {p : ℕ}

theorem load16_eq {n : ℕ} (h : n < 100) :
    load16 (UInt32.ofNat n * 2) = some (48 + UInt8.ofNat (n / 10), 48 + UInt8.ofNat (n % 10)) := by
  revert n
  decide +kernel

theorem encode_of_lt_ten {n : ℕ} (h : n < 10) : Decimal.encode n = [48 + UInt8.ofNat n] := by
  revert n
  decide

theorem encode_pair {n : ℕ} (h : 10 ≤ n) (h' : n < 100) :
    Decimal.encode n = [48 + UInt8.ofNat (n / 10), 48 + UInt8.ofNat (n % 10)] := by
  revert n
  decide +kernel

theorem encode_of_ten_le {n : ℕ} (h : 10 ≤ n) :
    Decimal.encode n = Decimal.encode (n / 10) ++ [48 + UInt8.ofNat (n % 10)] := by
  have hlast : Decimal.encode (n % 10) = [48 + UInt8.ofNat (n % 10)] :=
    encode_of_lt_ten (Nat.mod_lt n (by decide))
  rw [Decimal.encode, Nat.toDigits_of_base_le (by decide) h, List.map_append, ← Decimal.encode,
    ← hlast, Decimal.encode, Decimal.encode, Nat.toDigits_of_lt_base (Nat.mod_lt n (by decide))]

/-- The last two digits are those of the rest. -/
theorem encode_hundreds {n : ℕ} (h : 100 ≤ n) :
    Decimal.encode n = Decimal.encode (n / 100) ++
      [48 + UInt8.ofNat (n % 100 / 10), 48 + UInt8.ofNat (n % 100 % 10)] := by
  have htens : n / 10 % 10 = n % 100 / 10 := by omega
  have hones : n % 100 % 10 = n % 10 := by omega
  rw [encode_of_ten_le (by omega), encode_of_ten_le (n := n / 10) (by omega),
    Nat.div_div_eq_div_mul, htens, hones, List.append_assoc]
  rfl

theorem length_encode_of_pow {n k : ℕ} (hlow : 10 ^ k ≤ n) (hhigh : n < 10 ^ (k + 1)) :
    (Decimal.encode n).length = k + 1 := by
  have hle := (Decimal.length_encode_le_iff (Nat.succ_pos k)).mpr hhigh
  rcases Nat.eq_zero_or_pos k with rfl | hk
  · have hpos := List.length_pos_iff.mpr (Decimal.encode_ne_nil n)
    omega
  · have hlt := (Decimal.length_encode_le_iff (n := n) hk).not.mpr (by omega)
    omega

/-- The estimate for numbers of `k` bits. -/
theorem estimate_spec : ∀ k < 33, 1 ≤ k →
    (UInt32.ofNat k * 1233) >>> 12 = UInt32.ofNat (k * 1233 / 4096) ∧
      powers10[(UInt32.ofNat (k * 1233 / 4096)).toNat]? =
        some (UInt32.ofNat (10 ^ (k * 1233 / 4096))) ∧
      k * 1233 / 4096 < 10 ∧ 2 ^ k ≤ 10 ^ (k * 1233 / 4096 + 1) ∧
      (k * 1233 / 4096 = 0 ∨ 10 ^ (k * 1233 / 4096 - 1) < 2 ^ (k - 1)) := by
  decide +kernel

theorem or_one_eq (n : ℕ) : n ||| 1 = 2 * (n / 2) + 1 := by
  have hdiv : (n ||| 1) / 2 = n / 2 := by simp [Nat.or_div_two]
  have hmod : (n ||| 1) % 2 = 1 := by simp [Nat.or_mod_two_eq_one]
  omega

/-- The number of bits that `clz` gives. -/
theorem exists_bits (x : UInt32) : ∃ k, 1 ≤ k ∧ k < 33 ∧
    32 - clz (x ||| 1) = UInt32.ofNat k ∧ 2 ^ (k - 1) ≤ x.toNat + 1 ∧ x.toNat < 2 ^ k := by
  have hor : (x ||| 1).toNat = 2 * (x.toNat / 2) + 1 := by
    rw [UInt32.toNat_or]
    exact or_one_eq x.toNat
  have hne : (x ||| 1).toBitVec ≠ 0#32 := by
    intro heq
    have hzero : (x ||| 1).toNat = 0 := by rw [← UInt32.toNat_toBitVec, heq]; rfl
    omega
  have hlow : 2 ^ (32 - 1 - (clz (x ||| 1)).toNat) ≤ (x ||| 1).toNat :=
    BitVec.two_pow_sub_clz_le_toNat_of_ne_zero (by decide) hne
  have hhigh : (x ||| 1).toNat < 2 ^ (32 - (clz (x ||| 1)).toNat) :=
    BitVec.toNat_lt_two_pow_sub_clz
  have hclz : (clz (x ||| 1)).toNat < 32 := by
    have hlt := BitVec.clz_lt_iff_ne_zero.mpr hne
    exact hlt
  refine ⟨32 - (clz (x ||| 1)).toNat, by omega, by omega, ?_, ?_, by omega⟩
  · apply UInt32.toNat_inj.mp
    have hle : clz (x ||| 1) ≤ 32 := UInt32.le_iff_toNat_le.mpr hclz.le
    rw [UInt32.toNat_sub_of_le _ _ hle, UInt32.toNat_ofNat', Nat.mod_eq_of_lt (by omega)]
    rfl
  · have hexp : 32 - (clz (x ||| 1)).toNat - 1 = 32 - 1 - (clz (x ||| 1)).toNat := by omega
    rw [hexp]
    omega

theorem digitCount_eq (x : UInt32) :
    digitCount x = some (UInt32.ofNat (Decimal.encode x.toNat).length) := by
  obtain ⟨k, hk, hk', hbits, hlow, hhigh⟩ := exists_bits x
  obtain ⟨hestimate, hpower, hlt, hupper, hlower⟩ := estimate_spec k hk' hk
  have hle : UInt32.ofNat (10 ^ (k * 1233 / 4096)) ≤ x ↔ 10 ^ (k * 1233 / 4096) ≤ x.toNat := by
    have hsize : 10 ^ (k * 1233 / 4096) ≤ 10 ^ 9 := Nat.pow_le_pow_right (by decide) (by omega)
    rw [UInt32.le_iff_toNat_le, UInt32.toNat_ofNat', Nat.mod_eq_of_lt (by omega)]
  unfold digitCount
  simp only [hbits, hestimate, hpower, ge_iff_le, hle, bind, Option.bind]
  generalize k * 1233 / 4096 = e at *
  congr 1
  by_cases hmore : 10 ^ e ≤ x.toNat
  · have hlength := length_encode_of_pow hmore (by omega)
    rw [if_pos hmore, hlength, UInt32.ofNat_add]
    have hne : UInt32.ofNat e + 1 ≠ 0 := by
      interval_cases e <;> decide
    rw [if_neg hne, UInt32.add_zero]
    rfl
  · rw [if_neg hmore]
    rcases e with _ | j
    · have hzero : x.toNat = 0 := by omega
      rw [hzero]
      rfl
    · rw [Nat.add_sub_cancel] at hlower
      have hlength := length_encode_of_pow (n := x.toNat) (k := j) (by omega) (by omega)
      have hj : j < 9 := by omega
      have hne : UInt32.ofNat (j + 1) ≠ 0 := by
        interval_cases j <;> decide
      rw [hlength, UInt32.add_zero, if_neg hne, UInt32.add_zero]

theorem writeDigits_eq (memory : Memory) (p : ℕ) (x : UInt32) :
    writeDigits memory (p + (Decimal.encode x.toNat).length) x =
      some (write memory p (Decimal.encode x.toNat)) := by
  induction hn : x.toNat using Nat.strong_induction_on generalizing memory x with
  | h n ih =>
    subst hn
    have hle (k : ℕ) (hk : k < 2 ^ 32) : x ≥ UInt32.ofNat k ↔ k ≤ x.toNat := by
      rw [ge_iff_le, UInt32.le_iff_toNat_le, UInt32.toNat_ofNat', Nat.mod_eq_of_lt hk]
    have hhundred : x ≥ 100 ↔ 100 ≤ x.toNat := hle 100 (by decide)
    have hten : x ≥ 10 ↔ 10 ≤ x.toNat := hle 10 (by decide)
    have hof : UInt32.ofNat x.toNat = x := UInt32.ofNat_toNat
    rw [writeDigits]
    by_cases hlarge : 100 ≤ x.toNat
    · -- two digits, and the rest before them
      have hmod : x % 100 = UInt32.ofNat (x.toNat % 100) := by
        apply UInt32.toNat_inj.mp
        have h100 : (100 : UInt32).toNat = 100 := rfl
        rw [UInt32.toNat_mod, h100, UInt32.toNat_ofNat']
        exact (Nat.mod_eq_of_lt (by omega)).symm
      have hdiv : (x / 100).toNat = x.toNat / 100 := UInt32.toNat_div x 100
      have hpair := load16_eq (Nat.mod_lt x.toNat (by decide : 100 > 0))
      have hrest := ih (x / 100).toNat (by omega) (store16 memory
        (p + (Decimal.encode (x.toNat / 100)).length)
        (48 + UInt8.ofNat (x.toNat % 100 / 10), 48 + UInt8.ofNat (x.toNat % 100 % 10)))
        (x / 100) rfl
      rw [hdiv] at hrest
      have hback (n : ℕ) : p + (n + 2) - 2 = p + n := by omega
      rw [dif_pos (hhundred.mpr hlarge), hmod, hpair, encode_hundreds hlarge, List.length_append]
      change writeDigits (store16 memory (p + (_ + 2) - 2) _) (p + (_ + 2) - 2) _ = _
      rw [hback, hrest, store16_eq, ← write_append]
    · rw [dif_neg (hhundred.not.mpr hlarge)]
      by_cases htens : 10 ≤ x.toNat
      · have hpair := load16_eq (Nat.lt_of_not_le hlarge)
        rw [hof] at hpair
        rw [if_pos (hten.mpr htens), hpair, encode_pair htens (Nat.lt_of_not_le hlarge)]
        simp only [bind, Option.bind, List.length_cons, List.length_nil, Nat.zero_add,
          Nat.add_sub_cancel, store16_eq]
      · rw [if_neg (hten.not.mpr htens), encode_of_lt_ten (Nat.lt_of_not_le htens)]
        rfl

theorem appendUint_eq (memory : Memory) (p : ℕ) (x : UInt32) :
    appendUint memory p x = some (write memory p (Decimal.encode x.toNat),
      p + (Decimal.encode x.toNat).length) := by
  have hlength : (Decimal.encode x.toNat).length ≤ 10 := by
    rw [Decimal.length_encode_le_iff (by decide)]
    exact x.toNat_lt.trans (by decide)
  have hdigits : (UInt32.ofNat (Decimal.encode x.toNat).length).toNat =
      (Decimal.encode x.toNat).length := by
    rw [UInt32.toNat_ofNat', Nat.mod_eq_of_lt (by omega)]
  simp only [appendUint, digitCount_eq, bind, Option.bind, hdigits, writeDigits_eq]

end Digits

section Scaled
variable {m e : ℕ}

theorem Normal.bits_lt (h : Normal m e) : bitsOf m e < 2 ^ 64 := by
  have hm := h.m_lt
  have he := h.e_le
  unfold bitsOf
  omega

theorem Normal.shiftRight (h : Normal m e) : bitsOf m e >>> 52 = e := by
  have hm := h.m_lt
  have hm' := h.le_m
  rw [Nat.shiftRight_eq_div_pow]
  unfold bitsOf
  omega

theorem Normal.exponent (h : Normal m e) : bitsOf m e >>> 52 &&& 0x7FF = e := by
  have he := h.e_le
  rw [h.shiftRight, show (0x7FF : ℕ) = 2 ^ 11 - 1 from rfl, Nat.and_two_pow_sub_one_eq_mod]
  omega

theorem Normal.fraction (h : Normal m e) : bitsOf m e &&& 2 ^ 52 - 1 = m - 2 ^ 52 := by
  have hm := h.m_lt
  have hm' := h.le_m
  rw [Nat.and_two_pow_sub_one_eq_mod]
  unfold bitsOf
  omega

theorem Normal.mantissa (h : Normal m e) : 1 <<< 52 ||| (m - 2 ^ 52) = m := by
  have hm := h.m_lt
  have hm' := h.le_m
  rw [← Nat.shiftLeft_add_eq_or_of_lt (by omega), Nat.shiftLeft_eq]
  omega

/-- The hundredths. -/
def cents (m e : ℕ) : ℕ := HalfEven.round (m * 100) (2 ^ (1075 - e))

theorem toNat_product (h : Normal m e) : (product (UInt64.ofNat (bitsOf m e))).toNat = m * 100 := by
  have hm := h.m_lt
  have hor : (m - 2 ^ 52) ||| 0x0010000000000000 = m := by
    rw [Nat.or_comm]
    exact h.mantissa
  have hfraction : bitsOf m e &&& 0x000FFFFFFFFFFFFF = m - 2 ^ 52 := h.fraction
  unfold product
  rw [UInt64.toNat_mul, UInt64.toNat_or, UInt64.toNat_and, UInt64.toNat_ofNat_of_lt' h.bits_lt]
  simp only [UInt64.reduceToNat, hfraction, hor]
  omega

theorem shift_eq (h : Normal m e) :
    shift (UInt64.ofNat (bitsOf m e)) = UInt32.ofNat (1075 - e) := by
  have he := h.e_le
  have hexponent : (UInt64.ofNat (bitsOf m e) >>> 52).toUInt32 &&& 0x7FF = UInt32.ofNat e := by
    apply UInt32.toNat_inj.mp
    have h52 : (52 : UInt64).toNat % 64 = 52 := rfl
    rw [UInt32.toNat_and, UInt64.toNat_toUInt32, UInt64.toNat_shiftRight, h52,
      UInt64.toNat_ofNat_of_lt' h.bits_lt, h.shiftRight, UInt32.toNat_ofNat']
    have hexponent := h.exponent
    rw [h.shiftRight] at hexponent
    rw [Nat.mod_eq_of_lt (by omega)]
    exact hexponent
  have hle : UInt32.ofNat e ≤ 1075 := by
    rw [UInt32.le_iff_toNat_le, UInt32.toNat_ofNat', Nat.mod_eq_of_lt (by omega)]
    exact he.trans (by decide)
  rw [shift, hexponent, UInt32.ofNat_sub (by omega)]
  rfl

theorem toNat_shift (h : Normal m e) :
    (shift (UInt64.ofNat (bitsOf m e))).toUInt64.toNat = 1075 - e := by
  rw [UInt32.toNat_toUInt64, shift_eq h, UInt32.toNat_ofNat', Nat.mod_eq_of_lt (by omega)]

theorem two_pow_le (h : Normal m e) : (2 : ℕ) ^ (1074 - e) ≤ 2 ^ 51 := by
  have he := h.le_e
  exact Nat.pow_le_pow_right (by decide) (by omega)

/-- A half less one, and the parity of the quotient. -/
theorem toNat_bias (h : Normal m e) : (bias (UInt64.ofNat (bitsOf m e))).toNat =
    2 ^ (1074 - e) - 1 + m * 100 / 2 ^ (1075 - e) % 2 := by
  have he := h.e_le
  have he' := h.le_e
  have hpow := two_pow_le h
  have hpos : 0 < 2 ^ (1074 - e) := Nat.two_pow_pos _
  have h1 : (1 : UInt64).toNat = 1 := rfl
  have hshift := toNat_shift h
  have hproduct := toNat_product h
  unfold bias
  dsimp only
  generalize (shift (UInt64.ofNat (bitsOf m e))).toUInt64 = s at *
  generalize product (UInt64.ofNat (bitsOf m e)) = n at *
  have hle : 1 ≤ s := by
    rw [UInt64.le_iff_toNat_le, hshift, h1]
    omega
  have hless : (s - 1).toNat = 1074 - e := by
    rw [UInt64.toNat_sub_of_le _ _ hle, hshift, h1]
    omega
  have hhalf : ((1 : UInt64) <<< (s - 1)).toNat = 2 ^ (1074 - e) := by
    rw [UInt64.toNat_shiftLeft, hless, Nat.mod_eq_of_lt (a := 1074 - e) (by omega), h1,
      Nat.shiftLeft_eq, Nat.one_mul]
    exact Nat.mod_eq_of_lt (by omega)
  have hminus : ((1 : UInt64) <<< (s - 1) - 1).toNat = 2 ^ (1074 - e) - 1 := by
    have hle' : 1 ≤ (1 : UInt64) <<< (s - 1) := by
      rw [UInt64.le_iff_toNat_le, hhalf]
      exact hpos
    rw [UInt64.toNat_sub_of_le _ _ hle', hhalf, h1]
  have hparity : (n >>> s &&& 1).toNat = m * 100 / 2 ^ (1075 - e) % 2 := by
    rw [UInt64.toNat_and, UInt64.toNat_shiftRight, hshift, hproduct,
      Nat.mod_eq_of_lt (a := 1075 - e) (by omega), Nat.shiftRight_eq_div_pow]
    exact Nat.and_one_is_mod _
  rw [UInt64.toNat_add, hminus, hparity, Nat.mod_eq_of_lt (by omega)]

theorem toNat_sum (h : Normal m e) :
    (product (UInt64.ofNat (bitsOf m e)) + bias (UInt64.ofNat (bitsOf m e))).toNat =
      m * 100 + (2 ^ (1074 - e) - 1 + m * 100 / 2 ^ (1075 - e) % 2) := by
  have hm := h.m_lt
  have hpow := two_pow_le h
  rw [UInt64.toNat_add, toNat_product h, toNat_bias h, Nat.mod_eq_of_lt (by omega)]

theorem toNat_scaled (h : Normal m e) :
    (scaled (UInt64.ofNat (bitsOf m e))).toNat = cents m e := by
  have he := h.e_le
  have he' := h.le_e
  have hlt : shift (UInt64.ofNat (bitsOf m e)) < 64 := by
    rw [shift_eq h, UInt32.lt_iff_toNat_lt, UInt32.toNat_ofNat', Nat.mod_eq_of_lt (by omega)]
    exact (by omega : 1075 - e < 64)
  have htwice : 2 ^ (1075 - e) = 2 * 2 ^ (1074 - e) := by
    rw [← Nat.pow_succ']
    congr 1
    omega
  unfold scaled cents
  rw [if_pos hlt, UInt64.toNat_shiftRight, toNat_sum h, toNat_shift h,
    Nat.mod_eq_of_lt (a := 1075 - e) (by omega), Nat.shiftRight_eq_div_pow, htwice]
  exact HalfEven.add_bias_div (Nat.two_pow_pos _)

end Scaled

section Texts
variable {m e : ℕ} {q : ℚ} {text text' : Bytes}

theorem IsTwoDecimals.unique (h : IsTwoDecimals q text) (h' : IsTwoDecimals q text') :
    text = text' := by
  obtain ⟨cents, hcents, rfl⟩ := h
  obtain ⟨cents', hcents', rfl⟩ := h'
  have heq : cents = cents' := by exact_mod_cast hcents.unique hcents'
  rw [heq]

theorem isRounded_cents (h : Normal m e) : HalfEven.IsRounded (number m e * 100) (cents m e) := by
  have he := h.e_le
  have hnumber : number m e * 100 = ((m * 100 : ℕ) : ℚ) / (2 ^ (1075 - e) : ℕ) := by
    have hexp : ((e : ℤ) - 1075) = -((1075 - e : ℕ) : ℤ) := by omega
    rw [number, hexp, zpow_neg, zpow_natCast, Nat.cast_mul, Nat.cast_pow]
    ring
  rw [hnumber]
  exact HalfEven.isRounded_round _ (Nat.two_pow_pos _)

theorem isTwoDecimals_cents (h : Normal m e) :
    IsTwoDecimals (number m e) (twoDecimals (cents m e)) := ⟨_, isRounded_cents h, rfl⟩

theorem cents_lt (h : Normal m e) (hlt : number m e < 2 ^ 32 - 1 / 200) :
    cents m e < 100 * 2 ^ 32 := by
  have hbound := (isRounded_cents h).lt (m := 100 * 2 ^ 32) (by push_cast; linarith)
  exact_mod_cast hbound

/-- What the last steps of `append_average` add to the digits of the whole part. -/
theorem appendAverage_eq (quotient : UInt32 → UInt32 → UInt64) (memory : Memory) (p : ℕ)
    (total count : UInt32) {n : ℕ} (hn : (scaled (quotient total count)).toNat = n) :
    appendAverage quotient memory p total count =
      some (write memory p (Decimal.encode (n / 100 % 2 ^ 32) ++ 46 ::
          Decimal.encode (n / 10 % 10) ++ Decimal.encode (n % 10)),
        p + (Decimal.encode (n / 100 % 2 ^ 32)).length + 3) := by
  have hten : Decimal.encode (n / 10 % 10) =
      [48 + (scaled (quotient total count) / 10 % 10).toUInt8] := by
    rw [encode_of_lt_ten (Nat.mod_lt _ (by decide)), ← hn]
    rfl
  have hone : Decimal.encode (n % 10) = [48 + (scaled (quotient total count) % 10).toUInt8] := by
    rw [encode_of_lt_ten (Nat.mod_lt _ (by decide)), ← hn]
    rfl
  have hwhole : ((scaled (quotient total count) / 100).toUInt32).toNat = n / 100 % 2 ^ 32 := by
    rw [UInt64.toNat_toUInt32, UInt64.toNat_div, hn]
    rfl
  rw [hten, hone, List.append_assoc, List.cons_append, ← write_write]
  simp only [appendAverage, appendUint_eq, hwhole, bind, Option.bind, update_three]
  rfl

theorem twoDecimals_eq {n : ℕ} (h : n < 100 * 2 ^ 32) :
    twoDecimals n = Decimal.encode (n / 100 % 2 ^ 32) ++ 46 ::
      Decimal.encode (n / 10 % 10) ++ Decimal.encode (n % 10) := by
  have htens : n % 100 / 10 = n / 10 % 10 := by omega
  rw [twoDecimals, htens, Nat.mod_eq_of_lt (a := n / 100) (by omega)]

theorem length_twoDecimals (n : ℕ) :
    (twoDecimals n).length = (Decimal.encode (n / 100)).length + 3 := by
  rw [twoDecimals, encode_of_lt_ten (n := n % 100 / 10) (by omega),
    encode_of_lt_ten (n := n % 10) (by omega), List.append_assoc, List.length_append]
  rfl

theorem appendAverage_cents (h : Normal m e) (hlt : number m e < 2 ^ 32 - 1 / 200)
    {quotient : UInt32 → UInt32 → UInt64} {total count : UInt32}
    (hquotient : quotient total count = UInt64.ofNat (bitsOf m e)) (memory : Memory) (p : ℕ) :
    appendAverage quotient memory p total count =
      some (write memory p (twoDecimals (cents m e)), p + (twoDecimals (cents m e)).length) := by
  have hcents := cents_lt h hlt
  have hscaled : (scaled (quotient total count)).toNat = cents m e := by
    rw [hquotient]
    exact toNat_scaled h
  rw [appendAverage_eq quotient memory p total count hscaled, ← twoDecimals_eq hcents,
    length_twoDecimals, Nat.mod_eq_of_lt (a := cents m e / 100) (by omega), Nat.add_assoc]

/-- The significand and the exponent that the exact formatters find. -/
theorem decoded (h : Normal m e) : (if bitsOf m e >>> 52 &&& 0x7FF = 0 then
      (bitsOf m e &&& (1 <<< 52) - 1, (-1022 - 52 : ℤ))
    else (1 <<< 52 ||| (bitsOf m e &&& (1 <<< 52) - 1),
      ((bitsOf m e >>> 52 &&& 0x7FF : ℕ) : ℤ) - 1023 - 52)) = (m, (e : ℤ) - 1023 - 52) := by
  have he := h.le_e
  have hne : e ≠ 0 := by omega
  have hfraction : bitsOf m e &&& (1 <<< 52) - 1 = m - 2 ^ 52 := by
    rw [Nat.one_shiftLeft]
    exact h.fraction
  rw [h.exponent, if_neg hne, hfraction, h.mantissa]

variable {bits mantissa : ℕ} {exponent : ℤ}

theorem formatFixed2_of_decoded (h : (if bits >>> 52 &&& 0x7FF = 0 then
      (bits &&& (1 <<< 52) - 1, (-1022 - 52 : ℤ))
    else (1 <<< 52 ||| (bits &&& (1 <<< 52) - 1),
      ((bits >>> 52 &&& 0x7FF : ℕ) : ℤ) - 1023 - 52)) = (mantissa, exponent))
    (hneg : ¬exponent ≥ 0) : formatFixed2 bits =
      twoDecimals (HalfEven.round (mantissa * 100) (1 <<< (-exponent).toNat)) := by
  unfold formatFixed2
  simp only [h, hneg, if_false]
  rfl

theorem writeFixed2_of_decoded (h : (if bits >>> 52 &&& 0x7FF = 0 then
      (bits &&& (1 <<< 52) - 1, (-1022 - 52 : ℤ))
    else (1 <<< 52 ||| (bits &&& (1 <<< 52) - 1),
      ((bits >>> 52 &&& 0x7FF : ℕ) : ℤ) - 1023 - 52)) = (mantissa, exponent))
    (hneg : ¬exponent ≥ 0) (hsmall : ¬exponent.natAbs ≥ 128) : writeFixed2 bits =
      some (twoDecimals (HalfEven.round (mantissa * 100) (1 <<< (-exponent).toNat))) := by
  have hpad : ∀ n < 100, List.replicate (2 - (Decimal.encode n).length) 48 ++ Decimal.encode n =
      Decimal.encode (n / 10) ++ Decimal.encode (n % 10) := by decide +kernel
  have hmod (n : ℕ) : n % 100 % 10 = n % 10 := Nat.mod_mod_of_dvd n (by decide)
  unfold writeFixed2
  simp only [h, hneg, hsmall, if_false, hpad _ (Nat.mod_lt _ (by decide : 100 > 0)), hmod,
    twoDecimals, HalfEven.round, List.cons_append, List.append_assoc]

theorem formatFixed2_cents (h : Normal m e) :
    formatFixed2 (bitsOf m e) = twoDecimals (cents m e) := by
  have he := h.e_le
  have hexponent : (-((e : ℤ) - 1023 - 52)).toNat = 1075 - e := by omega
  rw [formatFixed2_of_decoded (decoded h) (by omega), hexponent, Nat.one_shiftLeft, cents]

theorem writeFixed2_cents (h : Normal m e) :
    writeFixed2 (bitsOf m e) = some (twoDecimals (cents m e)) := by
  have he := h.le_e
  have he' := h.e_le
  have hexponent : (-((e : ℤ) - 1023 - 52)).toNat = 1075 - e := by omega
  rw [writeFixed2_of_decoded (decoded h) (by omega) (by omega), hexponent, Nat.one_shiftLeft, cents]

/-- All of them print the number rounded to the nearest hundredth; the C and the C++ program do
where the whole part of the result has 32 bits. -/
theorem fixed2_exact (h : Normal m e) :
    (∃ text, IsTwoDecimals (number m e) text ∧
      formatFixed2 (bitsOf m e) = text ∧ OptimizedTypeScript.formatFixed2 (bitsOf m e) = text ∧
      OptimizedRuby.fixed2 (bitsOf m e) = text ∧ writeFixed2 (bitsOf m e) = some text ∧
      (number m e < 2 ^ 32 - 1 / 200 → ∀ quotient memory p total count,
        quotient total count = UInt64.ofNat (bitsOf m e) →
        appendAverage quotient memory p total count =
          some (write memory p text, p + text.length))) ∧
    (∀ text text', IsTwoDecimals (number m e) text → IsTwoDecimals (number m e) text' →
      text = text') ∧
    ((product (UInt64.ofNat (bitsOf m e))).toNat = m * 100 ∧
      (bias (UInt64.ofNat (bitsOf m e))).toNat =
        2 ^ (1074 - e) - 1 + m * 100 / 2 ^ (1075 - e) % 2 ∧
      (product (UInt64.ofNat (bitsOf m e)) + bias (UInt64.ofNat (bitsOf m e))).toNat =
        (product (UInt64.ofNat (bitsOf m e))).toNat + (bias (UInt64.ofNat (bitsOf m e))).toNat) ∧
    ∀ memory p x, appendUint memory p x =
      some (write memory p (Decimal.encode x.toNat), p + (Decimal.encode x.toNat).length) := by
  refine ⟨⟨twoDecimals (cents m e), isTwoDecimals_cents h, formatFixed2_cents h, ?_, ?_,
    writeFixed2_cents h, ?_⟩, fun _ _ => IsTwoDecimals.unique,
    ⟨toNat_product h, toNat_bias h, ?_⟩, appendUint_eq⟩
  · rw [OptimizedTypeScript.formatFixed2_eq, formatFixed2_cents h]
  · rw [OptimizedRuby.fixed2_eq, formatFixed2_cents h]
  · intro hlt quotient memory p total count hquotient
    exact appendAverage_cents h hlt hquotient memory p
  · rw [toNat_sum h, toNat_product h, toNat_bias h]

/-- One and a half. -/
theorem fixed2_exact_three_halves :
    formatFixed2 (bitsOf (3 * 2 ^ 51) 1023) = twoDecimals 150 := by
  have h : Normal (3 * 2 ^ 51) 1023 := by
    constructor <;> norm_num
  obtain ⟨⟨text, htext, hformat, -⟩, hunique, -⟩ := fixed2_exact h
  have hcents : cents (3 * 2 ^ 51) 1023 = 150 := by norm_num [cents, HalfEven.round]
  rw [hformat, ← hcents]
  exact hunique _ _ htext (isTwoDecimals_cents h)

/-- The greatest number below `2 ^ 32`: its whole part takes 33 bits, and 0.00 is printed. -/
theorem appendAverage_zero : Normal (2 ^ 53 - 1) 1054 ∧
    ∃ text, ¬IsTwoDecimals (number (2 ^ 53 - 1) 1054) text ∧
      ∀ quotient memory p total count,
        quotient total count = UInt64.ofNat (bitsOf (2 ^ 53 - 1) 1054) →
        appendAverage quotient memory p total count =
          some (write memory p text, p + text.length) := by
  have h : Normal (2 ^ 53 - 1) 1054 := by
    constructor <;> norm_num
  have hcents : cents (2 ^ 53 - 1) 1054 = 100 * 2 ^ 32 := by norm_num [cents, HalfEven.round]
  refine ⟨h, twoDecimals 0, ?_, ?_⟩
  · intro htext
    have hlength := congrArg List.length (htext.unique (isTwoDecimals_cents h))
    rw [hcents, length_twoDecimals, length_twoDecimals] at hlength
    have hone : (Decimal.encode (0 / 100)).length = 1 := rfl
    have hlt := (Decimal.length_encode_le_iff (n := 100 * 2 ^ 32 / 100) (k := 1) (by decide)).mp
      (by omega)
    norm_num at hlt
  · intro quotient memory p total count hquotient
    have hscaled : (scaled (quotient total count)).toNat = 100 * 2 ^ 32 := by
      rw [hquotient, toNat_scaled h, hcents]
    rw [appendAverage_eq quotient memory p total count hscaled]
    rfl

end Texts
end OneBrc.Analyzer.TwoDecimals
