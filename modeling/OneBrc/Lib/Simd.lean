import Mathlib.Tactic.IntervalCases
import Mathlib.Tactic.Ring
import OneBrc.Lib.Swar

/-! Words of 64 bits and registers of 128 bits by their bytes: bits gathered by a mask, and sums of
products in lanes of 32 bits. -/
namespace OneBrc.Lib.Simd
open Swar

/-- The bits of a word at the set bits of a mask, put together. -/
def pext : ℕ → ℕ → ℕ → ℕ
  | 0, _, _ => 0
  | n + 1, word, mask =>
      if mask % 2 = 1 then word % 2 + 2 * pext n (word / 2) (mask / 2)
      else pext n (word / 2) (mask / 2)

def byteAt (word i : ℕ) : ℕ := word / 2 ^ (8 * i) % 2 ^ 8

/-- A word in the lower half of a register. -/
def cvtsi64 (word i : ℕ) : ℕ := if i < 8 then byteAt word i else 0

/-- A register by its elements. -/
def setr (elements : List ℤ) (i : ℕ) : ℤ := elements.getD i 0

/-- The four lanes of a register, in 32 bits. -/
def lanes (lane : ℕ → ℤ) : List UInt32 := (List.range 4).map fun k => UInt32.ofInt (lane k)

/-- Both halves of a register shifted by one byte. -/
def srliByte (a : ℕ → ℕ) (i : ℕ) : ℕ := if i % 8 = 7 then 0 else a (i + 1)

def saturate16 (n : ℤ) : ℤ := max (-2 ^ 15) (min (2 ^ 15 - 1) n)

/-- Products of bytes without and with sign, added in pairs. -/
def maddubs (a : ℕ → ℕ) (b : ℕ → ℤ) (i : ℕ) : ℤ :=
  saturate16 (a (2 * i) * b (2 * i) + a (2 * i + 1) * b (2 * i + 1))

/-- Products of bytes without and with sign, added in fours. -/
def dpbusd (src : ℕ → ℤ) (a : ℕ → ℕ) (b : ℕ → ℤ) : List UInt32 :=
  lanes fun k => src k + (a (4 * k) * b (4 * k) + a (4 * k + 1) * b (4 * k + 1) +
    a (4 * k + 2) * b (4 * k + 2) + a (4 * k + 3) * b (4 * k + 3))

/-- Products of words of 16 bits, added in pairs. -/
def dpwssd (src a b : ℕ → ℤ) : List UInt32 :=
  lanes fun k => src k + (a (2 * k) * b (2 * k) + a (2 * k + 1) * b (2 * k + 1))

section Pext
variable (n word mask : ℕ)

theorem pext_zero : pext n word 0 = 0 := by
  induction n generalizing word with
  | zero => rfl
  | succ n ih =>
    rw [pext, if_neg (by decide), Nat.zero_div]
    exact ih _

/-- Bits that the mask leaves out. -/
theorem pext_clear (k : ℕ) : pext (n + k) word (2 ^ k * mask) = pext n (word / 2 ^ k) mask := by
  induction k generalizing word with
  | zero => rw [pow_zero, Nat.one_mul, Nat.div_one, Nat.add_zero]
  | succ k ih =>
    have hmask : 2 ^ (k + 1) * mask = 2 * (2 ^ k * mask) := by ring
    rw [← Nat.add_assoc, pext, hmask, if_neg (by omega), Nat.mul_div_cancel_left _ (by decide), ih,
      Nat.div_div_eq_div_mul, Nat.pow_succ']

/-- Bits that the mask takes. -/
theorem pext_set (k : ℕ) : pext (n + k) word (2 ^ k - 1 + 2 ^ k * mask) =
    word % 2 ^ k + 2 ^ k * pext n (word / 2 ^ k) mask := by
  induction k generalizing word with
  | zero =>
    rw [pow_zero, Nat.one_mul, Nat.div_one, Nat.add_zero, Nat.sub_self, Nat.zero_add, Nat.mod_one,
      Nat.zero_add, Nat.one_mul]
  | succ k ih =>
    have hpos := Nat.two_pow_pos k
    have hmask : 2 ^ (k + 1) - 1 + 2 ^ (k + 1) * mask = 2 * (2 ^ k - 1 + 2 ^ k * mask) + 1 := by
      rw [Nat.pow_succ', Nat.mul_assoc]
      omega
    have hword : word % 2 ^ (k + 1) = word % 2 + 2 * (word / 2 % 2 ^ k) := by
      rw [Nat.pow_succ', Nat.mod_mul]
    rw [← Nat.add_assoc, pext, hmask, if_pos (by omega),
      show (2 * (2 ^ k - 1 + 2 ^ k * mask) + 1) / 2 = 2 ^ k - 1 + 2 ^ k * mask by omega, ih, hword,
      Nat.div_div_eq_div_mul, Nat.pow_succ']
    ring

end Pext

section Bytes
variable {a b word i : ℕ}

theorem byteAt_zero (ha : a < 2 ^ 8) : byteAt (a + 2 ^ 8 * b) 0 = a := by
  rw [byteAt, Nat.mul_zero, pow_zero, Nat.div_one, Nat.add_mul_mod_self_left, Nat.mod_eq_of_lt ha]

theorem byteAt_succ (ha : a < 2 ^ 8) : byteAt (a + 2 ^ 8 * b) (i + 1) = byteAt b i := by
  rw [byteAt, Nat.mul_succ, Nat.add_comm (8 * i), Nat.pow_add, ← Nat.div_div_eq_div_mul,
    Nat.add_mul_div_left _ _ (by decide), Nat.div_eq_of_lt ha, Nat.zero_add, byteAt]

theorem byteAt_littleEndian (bs : Bytes) (i : ℕ) :
    byteAt (littleEndian bs) i = (bs.getD i 0).toNat := by
  induction bs generalizing i with
  | nil =>
    rw [littleEndian, byteAt, Nat.zero_div, Nat.zero_mod]
    rfl
  | cons b bs ih =>
    cases i with
    | zero => exact byteAt_zero b.toNat_lt
    | succ i =>
      rw [littleEndian, byteAt_succ b.toNat_lt, ih]
      rfl

/-- The first byte put in front of the others, of which the last is lost. -/
theorem shiftLeft_or (ha : a < 2 ^ 8) :
    word * 2 ^ 8 % 2 ^ 64 ||| a = a + 2 ^ 8 * (word % 2 ^ 56) := by
  have hmod : word * 2 ^ 8 % 2 ^ 64 = 2 ^ 8 * (word % 2 ^ 56) := by omega
  rw [hmod, ← Nat.two_pow_add_eq_or_of_lt ha, Nat.add_comm]

theorem byteAt_mod (hi : i < 7) : byteAt (word % 2 ^ 56) i = byteAt word i := by
  unfold byteAt
  interval_cases i <;> omega

end Bytes

section Lanes
variable {m n : ℕ}

theorem ofInt_natCast (n : ℕ) : UInt32.ofInt n = UInt32.ofNat n := by
  have hmod : ((n : ℤ) % 2 ^ 32).toNat = n % 2 ^ 32 := by omega
  rw [UInt32.ofInt, hmod]
  exact UInt32.ofNat_mod_size

/-- Two lanes with numbers, and two that are constant. -/
theorem lanes_eq {lane : ℕ → ℤ} (hfirst : lane 0 = m) (hsecond : lane 1 = n) (hthird : lane 2 = 1)
    (hfourth : lane 3 = 0) : lanes lane = [UInt32.ofNat m, UInt32.ofNat n, 1, 0] := by
  have hlanes : lanes lane = [UInt32.ofInt (lane 0), UInt32.ofInt (lane 1), UInt32.ofInt (lane 2),
    UInt32.ofInt (lane 3)] := rfl
  rw [hlanes, hfirst, hsecond, hthird, hfourth, ofInt_natCast, ofInt_natCast]
  rfl

theorem saturate16_of_lt {x : ℤ} (hlow : 0 ≤ x) (hhigh : x < 2 ^ 15) : saturate16 x = x := by
  rw [saturate16, min_eq_right (by omega), max_eq_right (by omega)]

end Lanes

end OneBrc.Lib.Simd
