import Mathlib.Data.List.Basic

/-! Percent encoding of bytes. -/
namespace OneBrc.Lib.PercentEncoding

def hexDigit (n : ℕ) : UInt8 := UInt8.ofNat (if n < 10 then 48 + n else 55 + n)

def hexValue (b : UInt8) : Option ℕ :=
  if 48 ≤ b ∧ b ≤ 57 then some (b.toNat - 48)
  else if 65 ≤ b ∧ b ≤ 70 then some (b.toNat - 55)
  else if 97 ≤ b ∧ b ≤ 102 then some (b.toNat - 87)
  else none

/-- The bytes that `keep` does not keep are written as a percent sign and two digits. -/
def escape (keep : UInt8 → Bool) (bytes : List UInt8) : List UInt8 :=
  bytes.flatMap fun b =>
    if keep b then [b] else [37, hexDigit (b.toNat / 16), hexDigit (b.toNat % 16)]

/-- The bytes that an escaped text stands for, unless a percent sign lacks its digits. -/
def unescape : List UInt8 → Option (List UInt8)
  | [] => some []
  | b :: rest =>
      if b = 37 then
        match rest with
        | high :: low :: rest => do
            let h ← hexValue high
            let l ← hexValue low
            return UInt8.ofNat (h * 16 + l) :: (← unescape rest)
        | _ => none
      else (unescape rest).map (b :: ·)

theorem escape_of_keep {keep : UInt8 → Bool} {bytes : List UInt8}
    (h : ∀ b ∈ bytes, keep b = true) : escape keep bytes = bytes := by
  induction bytes with
  | nil => rfl
  | cons b bytes ih =>
    obtain ⟨hb, hbytes⟩ := List.forall_mem_cons.mp h
    rw [escape, List.flatMap_cons, if_pos hb]
    exact congrArg (b :: ·) (ih hbytes)

theorem unescape_of_notMem {bytes : List UInt8} (h : (37 : UInt8) ∉ bytes) :
    unescape bytes = some bytes := by
  induction bytes with
  | nil => rfl
  | cons b bytes ih =>
    obtain ⟨hb, hbytes⟩ := not_or.mp (mt List.mem_cons.mpr h)
    unfold unescape
    rw [if_neg (Ne.symm hb), ih hbytes]
    rfl

end OneBrc.Lib.PercentEncoding
