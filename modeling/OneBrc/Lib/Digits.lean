import Mathlib.Data.List.Basic
import Mathlib.Data.Nat.Digits.Defs
import Mathlib.Tactic.Ring

/-! Strings of decimal digits, their values and the order by length and then by characters. -/
namespace OneBrc.Lib.Digits

def isDigit (c : Char) : Bool := '0' ≤ c && c ≤ '9'

def allDigits (cs : List Char) : Bool := cs.all isDigit

def digitValue (c : Char) : ℕ := c.toNat - '0'.toNat

/-- Numeric value of a digit string, leading zeros allowed. -/
def value (cs : List Char) : ℕ := cs.foldl (fun n c => 10 * n + digitValue c) 0

theorem isDigit_iff {c : Char} : isDigit c = true ↔ 48 ≤ c.toNat ∧ c.toNat ≤ 57 := by
  simp only [isDigit, Bool.and_eq_true, decide_eq_true_eq]
  exact Iff.rfl

theorem digitValue_lt {c : Char} (h : isDigit c = true) : digitValue c < 10 := by
  have h' := isDigit_iff.mp h
  change c.toNat - 48 < 10
  omega

theorem digitValue_eq_zero {c : Char} (h : isDigit c = true) : digitValue c = 0 ↔ c = '0' := by
  have h' := isDigit_iff.mp h
  change c.toNat - 48 = 0 ↔ _
  constructor
  · intro hz
    exact Char.toNat_inj.mp (show c.toNat = 48 by omega)
  · rintro rfl
    rfl

theorem digitValue_lt_iff {c d : Char} (hc : isDigit c = true) (hd : isDigit d = true) :
    digitValue c < digitValue d ↔ c < d := by
  have hc' := isDigit_iff.mp hc
  have hd' := isDigit_iff.mp hd
  change c.toNat - 48 < d.toNat - 48 ↔ c.toNat < d.toNat
  omega

theorem digitValue_inj {c d : Char} (hc : isDigit c = true) (hd : isDigit d = true)
    (h : digitValue c = digitValue d) : c = d := by
  have hc' := isDigit_iff.mp hc
  have hd' := isDigit_iff.mp hd
  have h' : c.toNat - 48 = d.toNat - 48 := h
  exact Char.toNat_inj.mp (by omega)

private theorem foldl_value (cs : List Char) (n : ℕ) :
    cs.foldl (fun n c => 10 * n + digitValue c) n = n * 10 ^ cs.length + value cs := by
  induction cs generalizing n with
  | nil => simp [value]
  | cons c cs ih =>
    have hv : value (c :: cs) = (10 * 0 + digitValue c) * 10 ^ cs.length + value cs := ih _
    rw [List.foldl_cons, ih, hv, List.length_cons]
    ring

theorem value_cons (c : Char) (cs : List Char) :
    value (c :: cs) = digitValue c * 10 ^ cs.length + value cs := by
  rw [value, List.foldl_cons, foldl_value]
  ring

theorem value_lt {cs : List Char} (h : allDigits cs = true) : value cs < 10 ^ cs.length := by
  induction cs with
  | nil => simp [value]
  | cons c cs ih =>
    simp only [allDigits, List.all_cons, Bool.and_eq_true] at h
    have hc := digitValue_lt h.1
    have hcs := ih h.2
    rw [value_cons, List.length_cons, pow_succ]
    nlinarith

/-- Leading zeros do not count. -/
@[simp] theorem value_replicate_zero (n : ℕ) (cs : List Char) :
    value (List.replicate n '0' ++ cs) = value cs := by
  induction n with
  | zero => rfl
  | succ n ih =>
    rw [List.replicate_succ, List.cons_append, value_cons, ih]
    simp [digitValue]

@[simp] theorem value_repr (n : ℕ) : value n.repr.toList = n := by
  have h := Nat.ofDigitChars_ten_toDigits (n := n)
  rw [Nat.ofDigitChars_eq_foldl] at h
  rw [Nat.toList_repr]
  exact h

@[simp] theorem allDigits_repr (n : ℕ) : allDigits n.repr.toList = true := by
  rw [Nat.toList_repr, allDigits, List.all_eq_true]
  intro c hc
  have h := Nat.isDigit_of_mem_toDigits (by decide) (by decide) hc
  simp only [Char.isDigit, Bool.and_eq_true, decide_eq_true_eq] at h
  exact isDigit_iff.mpr ⟨UInt32.le_iff_toNat_le.mp h.1, UInt32.le_iff_toNat_le.mp h.2⟩

theorem repr_injective {m n : ℕ} (h : m.repr = n.repr) : m = n := by
  rw [← value_repr m, h, value_repr]

/-- Different integers have different texts. -/
theorem toString_injective {a b : ℤ} (h : toString a = toString b) : a = b := by
  have hsign (m n : ℕ) : m.repr ≠ "-" ++ (n + 1).repr := by
    intro heq
    have hdigits := allDigits_repr m
    rw [heq, String.toList_append] at hdigits
    cases hdigits
  cases a with
  | ofNat m =>
    cases b with
    | ofNat n => exact congrArg Int.ofNat (repr_injective h)
    | negSucc n => exact absurd h (hsign m n)
  | negSucc m =>
    cases b with
    | ofNat n => exact absurd h.symm (hsign n m)
    | negSucc n =>
      have hlists := congrArg String.toList h
      change ("-" ++ (m + 1).repr).toList = ("-" ++ (n + 1).repr).toList at hlists
      rw [String.toList_append, String.toList_append] at hlists
      have hrepr := repr_injective (String.toList_inj.mp (List.append_cancel_left hlists))
      rw [Nat.succ.inj hrepr]

theorem le_value {c : Char} {cs : List Char} (hc : isDigit c = true) (h0 : c ≠ '0') :
    10 ^ cs.length ≤ value (c :: cs) := by
  have hpos : 1 ≤ digitValue c := Nat.pos_of_ne_zero fun h => h0 ((digitValue_eq_zero hc).mp h)
  rw [value_cons]
  calc 10 ^ cs.length ≤ digitValue c * 10 ^ cs.length := Nat.le_mul_of_pos_left _ hpos
    _ ≤ _ := Nat.le_add_right _ _

/-- Leading zeros do not count. -/
@[simp] theorem value_dropWhile_zero (cs : List Char) :
    value (cs.dropWhile (· == '0')) = value cs := by
  induction cs with
  | nil => rfl
  | cons c cs ih =>
    rw [List.dropWhile_cons]
    split
    · next h =>
      obtain rfl : c = '0' := by simpa using h
      rw [ih, value_cons]
      simp [digitValue]
    · rfl

/-- Without leading zeros a longer string has the larger value. -/
theorem value_lt_of_length_lt {cs ds : List Char} (hc : allDigits cs = true)
    (hd : allDigits ds = true) (h0 : ds.head? ≠ some '0') (h : cs.length < ds.length) :
    value cs < value ds := by
  cases ds with
  | nil => simp at h
  | cons d ds =>
    simp only [allDigits, List.all_cons, Bool.and_eq_true] at hd
    have h0' : d ≠ '0' := fun he => h0 (by simp [he])
    calc value cs < 10 ^ cs.length := value_lt hc
      _ ≤ 10 ^ ds.length := Nat.pow_le_pow_right (by decide) (Nat.lt_succ_iff.mp h)
      _ ≤ value (d :: ds) := le_value hd.1 h0'

/-- Strings of equal length are ordered by their characters. -/
theorem value_lt_iff_of_length_eq {cs ds : List Char} (hc : allDigits cs = true)
    (hd : allDigits ds = true) (h : cs.length = ds.length) : value cs < value ds ↔ cs < ds := by
  induction cs generalizing ds with
  | nil =>
    obtain rfl := List.length_eq_zero_iff.mp h.symm
    simp
  | cons c cs ih =>
    cases ds with
    | nil => simp at h
    | cons d ds =>
      simp only [allDigits, List.all_cons, Bool.and_eq_true] at hc hd
      have hlen : cs.length = ds.length := Nat.succ.inj h
      have hcs := value_lt hc.2
      have hds := value_lt hd.2
      rw [value_cons, value_cons, List.cons_lt_cons_iff, ← ih hc.2 hd.2 hlen, ← hlen]
      rw [← hlen] at hds
      constructor
      · intro hlt
        rcases lt_trichotomy (digitValue c) (digitValue d) with hcd | hcd | hcd
        · exact .inl ((digitValue_lt_iff hc.1 hd.1).mp hcd)
        · refine .inr ⟨digitValue_inj hc.1 hd.1 hcd, ?_⟩
          rw [hcd] at hlt
          omega
        · nlinarith
      · rintro (hcd | ⟨rfl, hlt⟩)
        · have hcd' := (digitValue_lt_iff hc.1 hd.1).mpr hcd
          nlinarith
        · omega

end OneBrc.Lib.Digits
