import OneBrc.Server.Upload

/-! `sanitizeFilename`: a name that is accepted is a plain name, unless the name that was given
has separators only. -/
namespace OneBrc.Server
open Lib GoText

structure PlainName (name : List Rune) : Prop where
  nonempty : name ≠ []
  length_le : utf16Length name ≤ 255
  slash : .char '/' ∉ name
  backslash : .char '\\' ∉ name
  control : ∀ r ∈ name, r.isControl = false

/-- The name has separators, and nothing else. -/
def OnlySeparators (filename : List Rune) : Prop :=
  filename ≠ [] ∧ ∀ r ∈ filename, r = .char '/' ∨ r = .char '\\'

variable {filename name : List Rune}

theorem sanitizeFilename_eq_ok (h : sanitizeFilename filename = .ok name) :
    name = trimSpace (base (slashes filename)) ∧ name ≠ [] ∧ utf16Length name ≤ 255 ∧
      ∀ r ∈ name, r.isControl = false := by
  unfold sanitizeFilename at h
  dsimp only at h
  split_ifs at h with hlength hcontrol
  obtain rfl := Except.ok.inj h
  rw [not_or, Nat.not_lt] at hlength
  refine ⟨rfl, hlength.1, hlength.2, ?_⟩
  simpa using hcontrol

theorem PlainName.sanitizeFilename_of_trim (h : PlainName name) (htrim : trimSpace name = name) :
    sanitizeFilename name = .ok name := by
  have hlength : ¬(name = [] ∨ 255 < utf16Length name) := by
    rintro (hempty | hlong)
    · exact h.nonempty hempty
    · exact absurd h.length_le (Nat.not_le.mpr hlong)
  have hcontrol : ¬name.any Rune.isControl = true := by
    rw [List.any_eq_true]
    rintro ⟨r, hr, htrue⟩
    exact absurd (h.control r hr) (by rw [htrue]; decide)
  unfold sanitizeFilename
  rw [slashes_eq_self h.backslash, base_eq_self h.nonempty h.slash, htrim]
  dsimp only
  rw [if_neg hlength, if_neg hcontrol]

theorem slashes_base_iff :
    base (slashes filename) = [.char '/'] ↔ OnlySeparators filename := by
  rw [base_eq_slash_iff, OnlySeparators]
  refine and_congr (not_congr List.map_eq_nil_iff) ?_
  rw [slashes, List.forall_mem_map]
  refine forall₂_congr fun r _ => ?_
  by_cases hr : r = .char '\\'
  · simp [hr]
  · simp [hr]

theorem PlainName.of_sanitizeFilename (hsep : ¬OnlySeparators filename)
    (h : sanitizeFilename filename = .ok name) :
    PlainName name ∧ sanitizeFilename name = .ok name := by
  obtain ⟨rfl, hempty, hlength, hcontrol⟩ := sanitizeFilename_eq_ok h
  have hslash : .char '/' ∉ base (slashes filename) := fun hmem =>
    hsep (slashes_base_iff.mp (base_slash hmem))
  have hback : .char '\\' ∉ base (slashes filename) := by
    intro hmem
    rcases mem_base hmem with hmem | hdot | hslash
    · exact ne_backslash_of_mem_slashes hmem rfl
    · exact absurd hdot (by decide)
    · exact absurd hslash (by decide)
  have hplain : PlainName (trimSpace (base (slashes filename))) :=
    ⟨hempty, hlength, fun hmem => hslash (trimSpace_subset _ hmem),
      fun hmem => hback (trimSpace_subset _ hmem), hcontrol⟩
  exact ⟨hplain, hplain.sanitizeFilename_of_trim (trimSpace_trimSpace _)⟩

/-- `filepath.Base` of separators only is a slash, which no later check rejects. -/
theorem sanitizeFilename_separators (h : OnlySeparators filename) :
    sanitizeFilename filename = .ok [.char '/'] := by
  rw [sanitizeFilename, slashes_base_iff.mpr h]
  decide

theorem sanitizeFilename_plain_iff (filename : List Rune) :
    (∀ name, sanitizeFilename filename = .ok name →
      PlainName name ∧ sanitizeFilename name = .ok name) ↔ ¬OnlySeparators filename := by
  constructor
  · intro h hsep
    exact (h _ (sanitizeFilename_separators hsep)).1.slash (List.mem_singleton_self _)
  · intro hsep name h
    exact PlainName.of_sanitizeFilename hsep h

theorem sanitizeFilename_slash :
    ∃ name, sanitizeFilename (ofString "/") = .ok name ∧ .char '/' ∈ name ∧ ¬PlainName name := by
  have hsep : OnlySeparators (ofString "/") := by
    refine ⟨by decide, ?_⟩
    intro r hr
    exact .inl (List.mem_singleton.mp hr)
  have hmem : Rune.char '/' ∈ [Rune.char '/'] := List.mem_singleton_self _
  exact ⟨_, sanitizeFilename_separators hsep, hmem, fun h => h.slash hmem⟩

end OneBrc.Server
