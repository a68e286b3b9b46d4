import Mathlib.Algebra.GroupWithZero.Nat
import Mathlib.Data.List.DropRight

/-! Go strings as the sequences of their runes, with functions of `strings` and `path/filepath`. -/
namespace OneBrc.Lib.GoText

/-- A character, or a byte that is not part of one, which a loop over the string reads as U+FFFD. -/
inductive Rune where
  | char (c : Char)
  | invalid (b : UInt8)
  deriving DecidableEq

def ofString (s : String) : List Rune := s.toList.map .char

/-- `strings.ReplaceAll` of backslashes by slashes. -/
def slashes (s : List Rune) : List Rune :=
  s.map fun r => if r = .char '\\' then .char '/' else r

/-- `filepath.Base`. -/
def base (path : List Rune) : List Rune :=
  if path = [] then [.char '.']
  else
    let element := (path.rdropWhile (· = .char '/')).rtakeWhile (· ≠ .char '/')
    if element = [] then [.char '/'] else element

/-- `filepath.Ext`. -/
def ext (path : List Rune) : List Rune :=
  let element := path.rtakeWhile (· ≠ .char '/')
  let suffix := element.rtakeWhile (· ≠ .char '.')
  if suffix.length < element.length then .char '.' :: suffix else []

/-- `unicode.IsSpace`. -/
def Rune.isSpace : Rune → Bool
  | .char c =>
      9 ≤ c.toNat && c.toNat ≤ 13 || 0x2000 ≤ c.toNat && c.toNat ≤ 0x200A ||
        c.toNat ∈ [0x20, 0x85, 0xA0, 0x1680, 0x2028, 0x2029, 0x202F, 0x205F, 0x3000]
  | .invalid _ => false

/-- `strings.TrimSpace`. -/
def trimSpace (s : List Rune) : List Rune := (s.dropWhile Rune.isSpace).rdropWhile Rune.isSpace

/-- `unicode.ToLower` of the runes whose lower case is ASCII; the other runes are not changed. -/
def Rune.toLower : Rune → Rune
  | .char c =>
      if c.toNat = 0x130 then .char 'i' else if c.toNat = 0x212A then .char 'k'
      else .char c.toLower
  | .invalid b => .invalid b

/-- `strings.Split` by a separator that is not empty; `skip` runes of it are still to come. -/
def splitFrom (sep : List Rune) (skip : ℕ) (element : List Rune) : List Rune → List (List Rune)
  | [] => [element]
  | r :: s =>
      if 0 < skip then splitFrom sep (skip - 1) element s
      else if sep <+: r :: s then element :: splitFrom sep (sep.length - 1) [] s
      else splitFrom sep 0 (element ++ [r]) s

def split (sep s : List Rune) : List (List Rune) := splitFrom sep 0 [] s

/-- The number of UTF-16 units. -/
def utf16Length (s : List Rune) : ℕ :=
  (s.map fun
    | .char c => if c.toNat < 0x10000 then 1 else 2
    | .invalid _ => 1).sum

/-- A control character of ASCII. -/
def Rune.isControl : Rune → Bool
  | .char c => c.toNat ≤ 0x1F || c.toNat = 0x7F
  | .invalid _ => false

section Paths
variable {s : List Rune} {r : Rune}

theorem ne_backslash_of_mem_slashes (h : r ∈ slashes s) : r ≠ .char '\\' := by
  obtain ⟨r', -, rfl⟩ := List.mem_map.mp h
  split_ifs with hback
  · decide
  · exact hback

theorem slashes_eq_self (h : .char '\\' ∉ s) : slashes s = s := by
  refine (List.map_congr_left ?_).trans s.map_id
  intro r hr
  rw [if_neg, id]
  rintro rfl
  exact h hr

theorem base_eq_self (hempty : s ≠ []) (h : .char '/' ∉ s) : base s = s := by
  have hdrop : s.rdropWhile (· = .char '/') = s := by
    refine List.rdropWhile_eq_self_iff.mpr ?_
    intro hs hlast
    rw [decide_eq_true_eq] at hlast
    exact h (hlast ▸ List.getLast_mem hs)
  have htake : s.rtakeWhile (· ≠ .char '/') = s := by
    refine List.rtakeWhile_eq_self_iff.mpr ?_
    intro r hr
    rw [decide_eq_true_eq]
    rintro rfl
    exact h hr
  rw [base, if_neg hempty, hdrop, htake]
  exact if_neg hempty

/-- Only the base of a path of slashes has a slash. -/
theorem base_slash (h : .char '/' ∈ base s) : base s = [.char '/'] := by
  unfold base at h ⊢
  split_ifs with hempty
  · rw [if_pos hempty] at h
    exact absurd (List.mem_singleton.mp h) (by decide)
  · rw [if_neg hempty] at h
    dsimp only at h ⊢
    split_ifs with helement
    · rfl
    · rw [if_neg helement] at h
      have hne := List.mem_rtakeWhile_imp h
      exact absurd rfl (of_decide_eq_true hne)

theorem base_eq_slash_iff : base s = [.char '/'] ↔ s ≠ [] ∧ ∀ r ∈ s, r = .char '/' := by
  have hdropped : s.rdropWhile (· = .char '/') = [] ↔ ∀ r ∈ s, r = .char '/' := by
    simp [List.rdropWhile_eq_nil_iff]
  constructor
  · intro h
    have hempty : s ≠ [] := by
      rintro rfl
      exact absurd h (by decide)
    refine ⟨hempty, hdropped.mp ?_⟩
    by_contra hne
    have hlast := List.rdropWhile_last_not _ s hne
    rw [base, if_neg hempty] at h
    dsimp only at h
    split_ifs at h with helement
    · have hstop := List.rtakeWhile_eq_nil_iff.mp helement hne
      simp only [decide_eq_true_eq] at hlast hstop
      exact hstop hlast
    · have hmem := List.mem_rtakeWhile_imp (h ▸ List.mem_singleton_self (Rune.char '/'))
      exact absurd rfl (of_decide_eq_true hmem)
  · rintro ⟨hempty, hall⟩
    rw [base, if_neg hempty, hdropped.mpr hall, List.rtakeWhile_nil]
    exact if_pos rfl

theorem mem_base (h : r ∈ base s) : r ∈ s ∨ r = .char '.' ∨ r = .char '/' := by
  unfold base at h
  split_ifs at h with hempty
  · exact .inr (.inl (List.mem_singleton.mp h))
  · dsimp only at h
    split_ifs at h
    · exact .inr (.inr (List.mem_singleton.mp h))
    · have hsuffix := List.rtakeWhile_suffix (· ≠ .char '/') (s.rdropWhile (· = .char '/'))
      exact .inl ((List.rdropWhile_prefix _ s).subset (hsuffix.subset h))

theorem trimSpace_subset (s : List Rune) : trimSpace s ⊆ s := by
  intro r hr
  exact (List.dropWhile_suffix _).subset ((List.rdropWhile_prefix _ _).subset hr)

theorem trimSpace_trimSpace (s : List Rune) : trimSpace (trimSpace s) = trimSpace s := by
  have hhead : (trimSpace s).dropWhile Rune.isSpace = trimSpace s := by
    refine List.dropWhile_eq_self_iff.mpr ?_
    intro hpos hspace
    have hstart : trimSpace s <+: s.dropWhile Rune.isSpace := List.rdropWhile_prefix _ _
    have hlt := hpos.trans_le hstart.length_le
    refine List.dropWhile_get_zero_not Rune.isSpace s hlt ?_
    rw [List.get_eq_getElem, ← hstart.getElem hpos]
    exact hspace
  rw [trimSpace, hhead, trimSpace]
  exact List.rdropWhile_idempotent _ _

end Paths

end OneBrc.Lib.GoText
