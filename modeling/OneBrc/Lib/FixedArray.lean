import Mathlib.Data.Nat.Basic
import Mathlib.Logic.Function.Basic

/-! Arrays of a fixed length: what is outside cannot be read or written. -/
namespace OneBrc.Lib.FixedArray
variable {α : Type} {n i : ℕ} {xs : ℕ → α} {a : α}

def read (n : ℕ) (xs : ℕ → α) (i : ℕ) : Option α := if i < n then some (xs i) else none

def write (n : ℕ) (xs : ℕ → α) (i : ℕ) (a : α) : Option (ℕ → α) :=
  if i < n then some (Function.update xs i a) else none

theorem read_of_lt (h : i < n) : read n xs i = some (xs i) := if_pos h

theorem write_of_lt (h : i < n) : write n xs i a = some (Function.update xs i a) := if_pos h

end OneBrc.Lib.FixedArray
