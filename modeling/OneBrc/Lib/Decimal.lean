import Mathlib.Data.List.Basic
import Mathlib.Tactic.Ring
import OneBrc.Lib.Digits

/-! Decimal numbers as strings of bytes. -/
namespace OneBrc.Lib

abbrev Bytes := List UInt8

namespace Decimal

def isDigit (b : UInt8) : Bool := 48 ≤ b && b ≤ 57

/-- The blanks that may stand before a number. -/
def isSpace (b : UInt8) : Bool := b = 32 || 9 ≤ b && b ≤ 13

/-- The value of a digit, in the arithmetic of bytes. -/
def digit (b : UInt8) : ℕ := (b - 48).toNat

def value (bs : Bytes) : ℕ := bs.foldl (fun n b => n * 10 + digit b) 0

/-- The digits of a number without leading zeros. -/
def encode (n : ℕ) : Bytes := (Nat.toDigits 10 n).map fun c => UInt8.ofNat c.toNat

/-- A number with a sign if it is negative. -/
def encodeInt (n : ℤ) : Bytes := if n < 0 then 45 :: encode n.natAbs else encode n.natAbs

/-- Whether a number has a minus sign, and what follows the sign. -/
def sign : Bytes → Bool × Bytes
  | [] => (false, [])
  | b :: bs => if b = 45 then (true, bs) else if b = 43 then (false, bs) else (false, b :: bs)

/-- Digits after an optional sign, in the range of 64 bits. -/
def parseInt64 (bs : Bytes) : Option Int64 :=
  let (negative, digits) := sign bs
  if digits = [] ∨ ¬ digits.all isDigit then none
  else
    let n : ℤ := if negative then -(value digits : ℤ) else value digits
    if -2 ^ 63 ≤ n ∧ n < 2 ^ 63 then some (Int64.ofInt n) else none

theorem isDigit_iff {b : UInt8} : isDigit b = true ↔ 48 ≤ b.toNat ∧ b.toNat ≤ 57 := by
  simp only [isDigit, Bool.and_eq_true, decide_eq_true_eq, UInt8.le_iff_toNat_le]
  rfl

theorem digit_eq {b : UInt8} (h : isDigit b = true) : digit b = b.toNat - 48 := by
  have hb := isDigit_iff.mp h
  rw [digit, UInt8.toNat_sub_of_le]
  · rfl
  · rw [UInt8.le_iff_toNat_le]
    exact hb.1

theorem digit_lt {b : UInt8} (h : isDigit b = true) : digit b < 10 := by
  have hb := isDigit_iff.mp h
  rw [digit_eq h]
  omega

private theorem foldl_value (bs : Bytes) (n : ℕ) :
    bs.foldl (fun n b => n * 10 + digit b) n = n * 10 ^ bs.length + value bs := by
  induction bs generalizing n with
  | nil => simp [value]
  | cons b bs ih =>
    have hv : value (b :: bs) = (0 * 10 + digit b) * 10 ^ bs.length + value bs := ih _
    rw [List.foldl_cons, ih, hv, List.length_cons]
    ring

theorem value_cons (b : UInt8) (bs : Bytes) :
    value (b :: bs) = digit b * 10 ^ bs.length + value bs := by
  rw [value, List.foldl_cons, foldl_value]
  ring

theorem value_append (as bs : Bytes) :
    value (as ++ bs) = value as * 10 ^ bs.length + value bs := by
  rw [value, List.foldl_append, foldl_value]
  rfl

theorem value_lt {bs : Bytes} (h : ∀ b ∈ bs, isDigit b = true) : value bs < 10 ^ bs.length := by
  induction bs with
  | nil => simp [value]
  | cons b bs ih =>
    have hb := digit_lt (h b List.mem_cons_self)
    have hbs := ih fun c hc => h c (List.mem_cons_of_mem _ hc)
    rw [value_cons, List.length_cons, pow_succ]
    nlinarith

private theorem toNat_of_mem_toDigits {n : ℕ} {c : Char} (h : c ∈ Nat.toDigits 10 n) :
    48 ≤ c.toNat ∧ c.toNat ≤ 57 := by
  have hall := Digits.allDigits_repr n
  rw [Nat.toList_repr, Digits.allDigits, List.all_eq_true] at hall
  exact Digits.isDigit_iff.mp (hall c h)

private theorem toNat_ofNat_char {n : ℕ} {c : Char} (h : c ∈ Nat.toDigits 10 n) :
    (UInt8.ofNat c.toNat).toNat = c.toNat := by
  have hc := toNat_of_mem_toDigits h
  rw [UInt8.toNat_ofNat', Nat.mod_eq_of_lt (by omega)]

theorem isDigit_of_mem_encode {n : ℕ} {b : UInt8} (h : b ∈ encode n) : isDigit b = true := by
  obtain ⟨c, hc, rfl⟩ := List.mem_map.mp h
  rw [isDigit_iff, toNat_ofNat_char hc]
  exact toNat_of_mem_toDigits hc

theorem encode_ne_nil (n : ℕ) : encode n ≠ [] := by
  simp [encode, Nat.toDigits_ne_nil]

@[simp] theorem value_encode (n : ℕ) : value (encode n) = n := by
  have hfold : value (encode n) = Digits.value (Nat.toDigits 10 n) := by
    rw [value, Digits.value, encode, List.foldl_map]
    apply List.foldl_ext
    intro a c hc
    have hmem : UInt8.ofNat c.toNat ∈ encode n := List.mem_map_of_mem hc
    rw [digit_eq (isDigit_of_mem_encode hmem), toNat_ofNat_char hc, Nat.mul_comm]
    rfl
  rw [hfold, ← Nat.toList_repr, Digits.value_repr]

theorem encode_injective {m n : ℕ} (h : encode m = encode n) : m = n := by
  rw [← value_encode m, h, value_encode]

theorem length_encode_le_iff {n k : ℕ} (h : 0 < k) : (encode n).length ≤ k ↔ n < 10 ^ k := by
  rw [encode, List.length_map]
  exact Nat.length_toDigits_le_iff (by decide) h

/-- A number of `k + 1` digits. -/
theorem length_encode {n k : ℕ} (hk : 0 < k) (hle : 10 ^ k ≤ n) (hlt : n < 10 ^ (k + 1)) :
    (encode n).length = k + 1 := by
  have hupper : (encode n).length ≤ k + 1 := (length_encode_le_iff k.succ_pos).mpr hlt
  have hlower : ¬ (encode n).length ≤ k := fun h =>
    absurd ((length_encode_le_iff hk).mp h) (Nat.not_lt.mpr hle)
  omega

/-- A byte that is no digit ends a number. -/
theorem notMem_encode {n : ℕ} {b : UInt8} (h : isDigit b = false) : b ∉ encode n := by
  intro hb
  rw [isDigit_of_mem_encode hb] at h
  cases h

theorem encodeInt_natCast (n : ℕ) : encodeInt n = encode n := by
  rw [encodeInt, if_neg (by omega), Int.natAbs_natCast]

theorem sign_encode (n : ℕ) : sign (encode n) = (false, encode n) := by
  cases hcs : encode n with
  | nil => exact absurd hcs (encode_ne_nil n)
  | cons b bs =>
    have hb : isDigit b = true := isDigit_of_mem_encode (hcs ▸ List.mem_cons_self)
    have hminus : b ≠ 45 := by
      rintro rfl
      cases hb
    have hplus : b ≠ 43 := by
      rintro rfl
      cases hb
    rw [sign, if_neg hminus, if_neg hplus]

theorem isSpace_of_isDigit {b : UInt8} (h : isDigit b = true) : isSpace b = false := by
  have hb := isDigit_iff.mp h
  have hblank : b ≠ 32 := by
    rintro rfl
    exact absurd h (by decide)
  have hcontrol : ¬ b ≤ 13 := by
    rw [UInt8.le_iff_toNat_le]
    exact not_le.mpr (Nat.lt_of_lt_of_le (by decide) hb.1)
  simp [isSpace, hblank, hcontrol]

theorem dropWhile_isSpace_encode (n : ℕ) (rest : Bytes) :
    (encode n ++ rest).dropWhile isSpace = encode n ++ rest := by
  cases hcs : encode n with
  | nil => exact absurd hcs (encode_ne_nil n)
  | cons b bs =>
    have hb : isDigit b = true := isDigit_of_mem_encode (hcs ▸ List.mem_cons_self)
    rw [List.cons_append, List.dropWhile_cons_of_neg]
    rw [isSpace_of_isDigit hb]
    decide

theorem sign_encode_append (n : ℕ) (rest : Bytes) :
    sign (encode n ++ rest) = (false, encode n ++ rest) := by
  cases hcs : encode n with
  | nil => exact absurd hcs (encode_ne_nil n)
  | cons b bs =>
    have hb : isDigit b = true := isDigit_of_mem_encode (hcs ▸ List.mem_cons_self)
    have hne (c : UInt8) (hc : isDigit c = false) : b ≠ c := by
      rintro rfl
      rw [hb] at hc
      cases hc
    rw [List.cons_append, sign, if_neg (hne 45 (by decide)), if_neg (hne 43 (by decide))]

theorem parseInt64_encode {n : ℕ} (h : n < 2 ^ 63) :
    parseInt64 (encode n) = some (Int64.ofNat n) := by
  have hdigits : (encode n).all isDigit = true :=
    List.all_eq_true.mpr fun _ => isDigit_of_mem_encode
  have hvalid : ¬ (encode n = [] ∨ ¬ (encode n).all isDigit = true) := by
    rintro (hnil | hall)
    · exact encode_ne_nil n hnil
    · exact hall hdigits
  simp only [parseInt64, sign_encode, value_encode, Bool.false_eq_true, if_false]
  rw [if_neg hvalid, if_pos (by omega)]
  rfl

/-- The value in the arithmetic of 32 bits. -/
theorem foldl_uint32 (bs : Bytes) (n : ℕ) :
    bs.foldl (fun a b => a * 10 + (b - 48).toUInt32) (UInt32.ofNat n) =
      UInt32.ofNat (n * 10 ^ bs.length + value bs) := by
  induction bs generalizing n with
  | nil => simp [value]
  | cons b bs ih =>
    have hstep : UInt32.ofNat n * 10 + (b - 48).toUInt32 = UInt32.ofNat (n * 10 + digit b) := by
      rw [UInt32.ofNat_add, UInt32.ofNat_mul]
      congr 1
      simp [digit]
    rw [List.foldl_cons, hstep, ih, value_cons, List.length_cons]
    congr 1
    ring

end Decimal
end OneBrc.Lib
