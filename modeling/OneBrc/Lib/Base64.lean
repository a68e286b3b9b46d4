import Mathlib.Data.List.Basic

/-! Base64 with the alphabet for URLs and without padding. -/
namespace OneBrc.Lib.Base64

/-- The letter of a number below 64. -/
def symbol (n : ℕ) : UInt8 :=
  if n < 26 then UInt8.ofNat (65 + n)
  else if n < 52 then UInt8.ofNat (71 + n)
  else if n < 62 then UInt8.ofNat (n - 4)
  else if n = 62 then 45 else 95

/-- Three bytes are four letters; the last group may be shorter. -/
def encode : List UInt8 → List UInt8
  | [] => []
  | [a] => [symbol (a.toNat / 4), symbol (a.toNat % 4 * 16)]
  | [a, b] =>
      [symbol (a.toNat / 4), symbol (a.toNat % 4 * 16 + b.toNat / 16), symbol (b.toNat % 16 * 4)]
  | a :: b :: c :: bs =>
      symbol (a.toNat / 4) :: symbol (a.toNat % 4 * 16 + b.toNat / 16) ::
        symbol (b.toNat % 16 * 4 + c.toNat / 64) :: symbol (c.toNat % 64) :: encode bs

/-- The number of a letter. -/
def sextet (b : UInt8) : ℕ :=
  let n := b.toNat
  if n = 45 then 62 else if n = 95 then 63
  else if n < 65 then n + 4 else if n < 97 then n - 65 else n - 71

def decode : List UInt8 → List UInt8
  | s :: t :: u :: v :: text =>
      UInt8.ofNat (sextet s * 4 + sextet t / 16) ::
        UInt8.ofNat (sextet t % 16 * 16 + sextet u / 4) ::
          UInt8.ofNat (sextet u % 4 * 64 + sextet v) :: decode text
  | [s, t, u] =>
      [UInt8.ofNat (sextet s * 4 + sextet t / 16), UInt8.ofNat (sextet t % 16 * 16 + sextet u / 4)]
  | [s, t] => [UInt8.ofNat (sextet s * 4 + sextet t / 16)]
  | _ => []

theorem sextet_symbol : ∀ n < 64, sextet (symbol n) = n := by decide +kernel

theorem ofNat_eq {a : UInt8} {n : ℕ} (h : n = a.toNat) : UInt8.ofNat n = a := by
  rw [h, UInt8.ofNat_toNat]

/-- A text is decoded to the bytes that it encodes. -/
theorem decode_encode (bs : List UInt8) : decode (encode bs) = bs := by
  induction bs using encode.induct with
  | case1 => rfl
  | case2 a =>
    have ha := a.toNat_lt
    simp only [encode, decode]
    rw [sextet_symbol _ (by omega), sextet_symbol _ (by omega), ofNat_eq (a := a) (by omega)]
  | case3 a b =>
    have ha := a.toNat_lt
    have hb := b.toNat_lt
    simp only [encode, decode]
    rw [sextet_symbol _ (by omega), sextet_symbol _ (by omega), sextet_symbol _ (by omega),
      ofNat_eq (a := a) (by omega), ofNat_eq (a := b) (by omega)]
  | case4 a b c bs ih =>
    have ha := a.toNat_lt
    have hb := b.toNat_lt
    have hc := c.toNat_lt
    simp only [encode, decode]
    rw [sextet_symbol _ (by omega), sextet_symbol _ (by omega), sextet_symbol _ (by omega),
      sextet_symbol _ (by omega), ofNat_eq (a := a) (by omega), ofNat_eq (a := b) (by omega),
      ofNat_eq (a := c) (by omega), ih]

theorem encode_injective : Function.Injective encode :=
  Function.LeftInverse.injective decode_encode

end OneBrc.Lib.Base64
