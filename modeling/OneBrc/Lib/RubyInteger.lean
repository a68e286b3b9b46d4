import Mathlib.Data.List.DropRight
import OneBrc.Lib.Decimal

/-! Integers read as `Integer()` and `String#to_i` read them. -/
namespace OneBrc.Lib.RubyInteger
open Decimal

def underscore : UInt8 := 95

/-- The value of a digit up to base 16. -/
def digitOf (b : UInt8) : Option ℕ :=
  if isDigit b then some (digit b)
  else if 97 ≤ b ∧ b ≤ 102 then some (b.toNat - 87)
  else if 65 ≤ b ∧ b ≤ 70 then some (b.toNat - 55)
  else none

/-- The base that a prefix chooses, and what follows the prefix. -/
def radix : Bytes → ℕ × Bytes
  | 48 :: c :: rest =>
      if c = 98 ∨ c = 66 then (2, rest)
      else if c = 111 ∨ c = 79 then (8, rest)
      else if c = 100 ∨ c = 68 then (10, rest)
      else if c = 120 ∨ c = 88 then (16, rest)
      else (8, 48 :: c :: rest)
  | bs => (10, bs)

/-- Digits of a base, between which there may be underscores. -/
def digits (base : ℕ) (bs : Bytes) : Option ℕ := do
  let groups := bs.splitOn underscore
  if groups.any (· = []) then none
  else
    let ds ← groups.flatten.mapM digitOf
    if ds.any (base ≤ ·) then none else some (ds.foldl (fun n d => n * base + d) 0)

/-- `Integer()`; blanks around the number are allowed. -/
def integer (bs : Bytes) : Option ℤ := do
  let (negative, body) := sign ((bs.dropWhile isSpace).rdropWhile isSpace)
  let (base, rest) := radix body
  let n ← digits base rest
  some (if negative then -n else n)

/-- The digits at the head of a text, between which there may be single underscores; `after` tells
whether a digit comes before. -/
def leadingDigits (after : Bool) : Bytes → Bytes
  | [] => []
  | b :: rest =>
      if isDigit b then b :: leadingDigits true rest
      else if b = underscore ∧ after ∧ rest.head?.any isDigit then leadingDigits false rest
      else []

/-- `String#to_i`: what follows the number is left out, and a text without one is zero. -/
def toI (bs : Bytes) : ℤ :=
  let (negative, body) := sign (bs.dropWhile isSpace)
  let body := match body with
    | 48 :: c :: rest => if c = 100 ∨ c = 68 then rest else 48 :: c :: rest
    | body => body
  let n := value (leadingDigits false body)
  if negative then -n else n

/-- Only a single digit is a zero at the head of a number. -/
theorem encode_eq_cons_zero {n : ℕ} {bs : Bytes} (h : encode n = 48 :: bs) : bs = [] := by
  by_contra hne
  have hpos : 0 < bs.length := List.length_pos_of_ne_nil hne
  have hvalue := value_encode n
  rw [h, value_cons] at hvalue
  have hlt : value bs < 10 ^ bs.length :=
    value_lt fun b hb => isDigit_of_mem_encode (h ▸ List.mem_cons_of_mem _ hb)
  have hzero : digit 48 = 0 := rfl
  rw [hzero, Nat.zero_mul, Nat.zero_add] at hvalue
  have hlength := (length_encode_le_iff hpos).mpr (hvalue ▸ hlt)
  rw [h, List.length_cons] at hlength
  omega

/-- A canonical decimal stands for its number. -/
theorem integer_encode (n : ℕ) : integer (encode n) = some (n : ℤ) := by
  have hdigit : ∀ b ∈ encode n, isDigit b = true := fun b hb => isDigit_of_mem_encode hb
  have hstrip : ((encode n).dropWhile isSpace).rdropWhile isSpace = encode n := by
    have hleft := dropWhile_isSpace_encode n []
    rw [List.append_nil] at hleft
    rw [hleft, List.rdropWhile_eq_self_iff]
    intro hne
    rw [isSpace_of_isDigit (hdigit _ (List.getLast_mem hne))]
    decide
  have hsign := sign_encode n
  have hradix : radix (encode n) = (10, encode n) := by
    cases hcs : encode n with
    | nil => rfl
    | cons b bs =>
      cases bs with
      | nil => simp [radix]
      | cons c cs =>
        by_cases hb : b = 48
        · subst hb
          exact absurd (encode_eq_cons_zero hcs) (List.cons_ne_nil _ _)
        · rw [radix]
          exact fun _ _ heq => hb (List.cons.inj heq).1
  have hsplit : (encode n).splitOn underscore = [encode n] := by
    have hjoin := List.splitOn_intercalate underscore
      (show ∀ l ∈ [encode n], underscore ∉ l by
        simpa using notMem_encode (show isDigit underscore = false by decide)) (by simp)
    simpa [List.intercalate] using hjoin
  have hmap : (encode n).mapM digitOf = some ((encode n).map digit) := by
    have hall : ∀ bs : Bytes, (∀ b ∈ bs, isDigit b = true) →
        bs.mapM digitOf = some (bs.map digit) := by
      intro bs
      induction bs with
      | nil => exact fun _ => rfl
      | cons b bs ih =>
        intro h
        obtain ⟨hb, hbs⟩ := List.forall_mem_cons.mp h
        rw [List.mapM_cons, digitOf, if_pos hb, ih hbs]
        rfl
    exact hall _ hdigit
  have hbase : ((encode n).map digit).any (10 ≤ ·) = false := by
    rw [List.any_eq_false]
    intro d hd
    obtain ⟨b, hb, rfl⟩ := List.mem_map.mp hd
    have hlt := digit_lt (hdigit b hb)
    simpa using hlt
  have hdigits : digits 10 (encode n) = some n := by
    have hempty : [encode n].any (· = []) = false := by simp [encode_ne_nil]
    simp only [digits, hsplit, hempty, List.flatten_singleton, hmap, hbase, bind, Option.bind,
      Bool.false_eq_true, if_false, List.foldl_map]
    exact congrArg some (value_encode n)
  simp only [integer, hstrip, hsign, hradix, hdigits, bind, Option.bind, Bool.false_eq_true,
    if_false]

/-- Bytes that do not continue a number. -/
structure Ends (b : UInt8) : Prop where
  digit : isDigit b = false
  underscore : b ≠ underscore
  radix : ¬ (b = 100 ∨ b = 68)

theorem leadingDigits_append {bs rest : Bytes} (h : ∀ b ∈ bs, isDigit b = true)
    (hrest : ∀ b ∈ rest.head?, Ends b) (after : Bool) :
    leadingDigits after (bs ++ rest) = bs := by
  induction bs generalizing after with
  | nil =>
    cases rest with
    | nil => rfl
    | cons b rest =>
      have hb := hrest b rfl
      rw [List.nil_append, leadingDigits, if_neg (by simp [hb.digit]),
        if_neg (by simp [hb.underscore])]
  | cons b bs ih =>
    obtain ⟨hb, hbs⟩ := List.forall_mem_cons.mp h
    rw [List.cons_append, leadingDigits, if_pos hb, ih hbs true]

/-- The number at the head of a text. -/
theorem toI_encode_append (n : ℕ) {rest : Bytes} (hrest : ∀ b ∈ rest.head?, Ends b) :
    toI (encode n ++ rest) = n := by
  have hbody : (match encode n ++ rest with
      | 48 :: c :: rest => if c = 100 ∨ c = 68 then rest else 48 :: c :: rest
      | body => body) = encode n ++ rest := by
    split
    · next c rest' heq =>
      have hc : ¬ (c = 100 ∨ c = 68) := by
        cases hcs : encode n with
        | nil => exact absurd hcs (encode_ne_nil n)
        | cons d ds =>
          rw [hcs, List.cons_append] at heq
          obtain ⟨hzero, heq⟩ := List.cons.inj heq
          rw [hzero] at hcs
          rw [encode_eq_cons_zero hcs, List.nil_append] at heq
          exact (hrest c (by rw [heq]; rfl)).radix
      rw [if_neg hc, heq]
    · rfl
  have hdigits := leadingDigits_append (fun d hd => isDigit_of_mem_encode (n := n) hd) hrest false
  rw [toI, dropWhile_isSpace_encode, sign_encode_append]
  simp only [hbody, hdigits, value_encode, Bool.false_eq_true, if_false]

end OneBrc.Lib.RubyInteger
