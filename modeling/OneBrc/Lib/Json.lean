import Mathlib.Data.List.Basic

/-! JSON values. Objects keep their members in the order of the text, repeated names included. -/
namespace OneBrc.Lib

/-- `σ` is the type of strings: Unicode text, or UTF-16 units where a text may hold unpaired
surrogates. Numbers keep their literal. -/
inductive Json (σ : Type) where
  | null
  | bool (b : Bool)
  | number (literal : String)
  | string (s : σ)
  | array (elements : List (Json σ))
  | object (members : List (σ × Json σ))

end OneBrc.Lib
