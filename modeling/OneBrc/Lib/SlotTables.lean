import Mathlib.Data.List.Perm.Basic
import Mathlib.Logic.Function.Basic

/-! Tables with one slot for all keys of an index: the value of the only one, or a mark where
there are two or more. -/
namespace OneBrc.Lib.SlotTables

/-- What the slots hold for pairs of an index and a value. -/
def slots (mark : ℕ) (pairs : List (ℕ × ℕ)) (i : ℕ) : ℕ :=
  match pairs.filter fun p => p.1 = i with
  | [] => 0
  | [p] => p.2
  | _ => mark

/-- Another value for a slot. -/
def record (mark : ℕ) (table : ℕ → ℕ) (i value : ℕ) : ℕ → ℕ :=
  Function.update table i (if table i ≠ 0 then mark else value)

variable {mark i value : ℕ} {pairs pairs' : List (ℕ × ℕ)}

theorem slots_eq_zero (h : ∀ p ∈ pairs, p.1 ≠ i) : slots mark pairs i = 0 := by
  have hnil : pairs.filter (fun p => p.1 = i) = [] := by
    apply List.filter_eq_nil_iff.mpr
    intro p hp
    simpa using h p hp
  rw [slots, hnil]

/-- The slot of an index that a pair has. -/
theorem slots_of_mem {p : ℕ × ℕ} (hp : p ∈ pairs) :
    slots mark pairs p.1 = mark ∨
      slots mark pairs p.1 = p.2 ∧ ∀ q ∈ pairs, q.1 = p.1 → q = p := by
  have hmem : p ∈ pairs.filter fun q => q.1 = p.1 := by
    rw [List.mem_filter]
    exact ⟨hp, by simp⟩
  unfold slots
  split
  · next hnil =>
    rw [hnil] at hmem
    exact absurd hmem (List.not_mem_nil)
  · next q hone =>
    rw [hone, List.mem_singleton] at hmem
    subst hmem
    refine .inr ⟨rfl, fun q hq hindex => ?_⟩
    have hq' : q ∈ pairs.filter fun q => q.1 = p.1 := by
      rw [List.mem_filter]
      exact ⟨hq, by simpa using hindex⟩
    rwa [hone, List.mem_singleton] at hq'
  · exact .inl rfl

/-- Two pairs of an index mark its slot. -/
theorem slots_eq_mark {p q : ℕ × ℕ} (hp : p ∈ pairs) (hq : q ∈ pairs) (hindex : q.1 = p.1)
    (hne : q ≠ p) : slots mark pairs p.1 = mark := by
  rcases slots_of_mem hp with hmark | ⟨-, hall⟩
  · exact hmark
  · exact absurd (hall q hq hindex) hne

/-- The slot of an index that one pair has. -/
theorem slots_eq_value {p : ℕ × ℕ} (hnodup : pairs.Nodup) (hp : p ∈ pairs)
    (hall : ∀ q ∈ pairs, q.1 = p.1 → q = p) : slots mark pairs p.1 = p.2 := by
  have hmem : p ∈ pairs.filter fun q => q.1 = p.1 := by
    rw [List.mem_filter]
    exact ⟨hp, by simp⟩
  have heq : ∀ q ∈ pairs.filter (fun q => q.1 = p.1), q = p := by
    intro q hq
    rw [List.mem_filter] at hq
    exact hall q hq.1 (by simpa using hq.2)
  have hnodup' := hnodup.filter fun q => decide (q.1 = p.1)
  unfold slots
  generalize pairs.filter (fun q => q.1 = p.1) = ps at *
  cases ps with
  | nil => exact absurd hmem List.not_mem_nil
  | cons q qs =>
    cases qs with
    | nil => rw [heq q (List.mem_singleton_self q)]
    | cons r rest =>
      have hq := heq q List.mem_cons_self
      have hr := heq r (List.mem_cons_of_mem _ List.mem_cons_self)
      exact absurd (hq.trans hr.symm ▸ List.mem_cons_self) (List.nodup_cons.mp hnodup').1

theorem slots_perm (h : pairs.Perm pairs') : slots mark pairs = slots mark pairs' := by
  funext i
  have hperm := h.filter fun p => p.1 = i
  unfold slots
  generalize pairs.filter (fun p => p.1 = i) = ps at *
  generalize pairs'.filter (fun p => p.1 = i) = ps' at *
  match ps with
  | [] => rw [hperm.nil_eq]
  | [p] => rw [List.singleton_perm.mp hperm]
  | p :: q :: rest =>
    obtain ⟨p', q', rest', rfl⟩ : ∃ p' q' rest', ps' = p' :: q' :: rest' := by
      have hlength := hperm.length_eq
      match ps' with
      | [] => simp at hlength
      | [_] => simp at hlength
      | p' :: q' :: rest' => exact ⟨p', q', rest', rfl⟩
    rfl

/-- Recording a value adds its pair. -/
theorem record_slots (hmark : mark ≠ 0) (hvalues : ∀ p ∈ pairs, p.2 ≠ 0) (i value : ℕ) :
    record mark (slots mark pairs) i value = slots mark ((i, value) :: pairs) := by
  funext j
  by_cases hj : j = i
  · subst hj
    rw [record, Function.update_self]
    unfold slots
    rw [List.filter_cons_of_pos (by simp)]
    match hps : pairs.filter fun p => p.1 = j with
    | [] =>
      rw [hps]
      rfl
    | [p] =>
      have hp : p ∈ pairs := List.mem_of_mem_filter (hps ▸ List.mem_singleton_self p)
      rw [hps]
      exact if_pos (hvalues p hp)
    | p :: q :: rest =>
      rw [hps]
      exact if_pos hmark
  · rw [record, Function.update_of_ne hj]
    unfold slots
    rw [List.filter_cons_of_neg (by simpa using Ne.symm hj)]

end OneBrc.Lib.SlotTables
