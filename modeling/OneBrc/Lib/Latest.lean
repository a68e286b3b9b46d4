import Mathlib.Order.Bounds.Basic

/-! A pointer to the greatest element of a growing set, kept by conditional replacement. -/
namespace OneBrc.Lib.Latest
variable {α : Type*} [LinearOrder α] {S : Set α} {o o' : Option α} {a : α}

/-- `o` is the greatest element of `S`, and `none` exactly when `S` is empty. -/
def Tracks (S : Set α) : Option α → Prop
  | none => S = ∅
  | some a => IsGreatest S a

/-- Replace the pointer unless it is at least as great. -/
def offer (a : α) : Option α → Option α
  | none => some a
  | some b => if b < a then some a else some b

theorem Tracks.mem (h : Tracks S (some a)) : a ∈ S := h.1

theorem Tracks.eq_none_iff (h : Tracks S o) : o = none ↔ S = ∅ := by
  cases o with
  | none => exact ⟨fun _ => h, fun _ => rfl⟩
  | some a =>
    constructor
    · exact nofun
    · rintro rfl
      exact h.mem.elim

theorem Tracks.unique (h : Tracks S o) (h' : Tracks S o') : o = o' := by
  cases o' with
  | none => exact h.eq_none_iff.mpr h'
  | some b =>
    cases o with
    | none => exact (h'.eq_none_iff.mpr h).symm
    | some a => exact congrArg some (IsGreatest.unique h h')

theorem Tracks.offer (h : Tracks S o) (a : α) : Tracks (insert a S) (offer a o) := by
  cases o with
  | none =>
    obtain rfl : S = ∅ := h
    change IsGreatest (insert a ∅) a
    rw [insert_empty_eq]
    exact isGreatest_singleton
  | some b =>
    have hmax : IsGreatest (insert a S) (max a b) := IsGreatest.insert a h
    change Tracks (insert a S) (if b < a then some a else some b)
    split
    · next hlt => rwa [max_eq_left hlt.le] at hmax
    · next hle => rwa [max_eq_right (not_lt.mp hle)] at hmax

end OneBrc.Lib.Latest
