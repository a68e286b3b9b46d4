import Mathlib.Data.List.Induction
import Mathlib.Data.List.Nodup
import Mathlib.Order.Basic

/-! Maps that list their entries in the order in which their keys were first inserted. -/
namespace OneBrc.Lib
variable {κ α β : Type*}

/-- Entries in the order of insertion; no two share a key. -/
structure OrderedMap (κ α : Type*) where
  entries : List (κ × α)
  nodup : (entries.map (·.1)).Nodup

namespace OrderedMap

def empty : OrderedMap κ α := ⟨[], List.nodup_nil⟩

def values (m : OrderedMap κ α) : List α := m.entries.map (·.2)

variable [DecidableEq κ]

private theorem map_fst_replace (entries : List (κ × α)) (k : κ) (a : α) :
    (entries.map fun e => if e.1 = k then (k, a) else e).map (·.1) = entries.map (·.1) := by
  rw [List.map_map]
  apply List.map_congr_left
  intro e _
  rw [Function.comp_apply]
  split
  · next h => exact h.symm
  · rfl

/-- A key keeps its place; a new key comes last. -/
def set (m : OrderedMap κ α) (k : κ) (a : α) : OrderedMap κ α :=
  if h : k ∈ m.entries.map (·.1) then
    ⟨m.entries.map fun e => if e.1 = k then (k, a) else e, by
      rw [map_fst_replace]
      exact m.nodup⟩
  else
    ⟨m.entries ++ [(k, a)], by
      rw [List.map_append]
      exact m.nodup.append (List.nodup_singleton k) (List.disjoint_singleton.mpr h)⟩

/-- The map after its entries were set one after the other. -/
def ofList (key : α → κ) (l : List α) : OrderedMap κ α :=
  l.foldl (fun m a => m.set (key a) a) empty

theorem ofList_concat (key : α → κ) (l : List α) (a : α) :
    ofList key (l ++ [a]) = (ofList key l).set (key a) a := by
  rw [ofList, List.foldl_append]
  rfl

theorem set_of_mem {m : OrderedMap κ α} {k : κ} (h : k ∈ m.entries.map (·.1)) (a : α) :
    (m.set k a).entries = m.entries.map fun e => if e.1 = k then (k, a) else e := by
  rw [set, dif_pos h]

theorem set_of_notMem {m : OrderedMap κ α} {k : κ} (h : k ∉ m.entries.map (·.1)) (a : α) :
    (m.set k a).entries = m.entries ++ [(k, a)] := by
  rw [set, dif_neg h]

theorem mem_set {m : OrderedMap κ α} {k : κ} {a : α} {e : κ × α} :
    e ∈ (m.set k a).entries ↔ e = (k, a) ∨ e ∈ m.entries ∧ e.1 ≠ k := by
  by_cases hk : k ∈ m.entries.map (·.1)
  · rw [set_of_mem hk, List.mem_map]
    constructor
    · rintro ⟨e', he', rfl⟩
      split
      · exact .inl rfl
      · next hne => exact .inr ⟨he', hne⟩
    · rintro (rfl | ⟨he, hne⟩)
      · obtain ⟨e', he', hk'⟩ := List.mem_map.mp hk
        exact ⟨e', he', if_pos hk'⟩
      · exact ⟨e, he, if_neg hne⟩
  · rw [set_of_notMem hk, List.mem_append, List.mem_singleton, or_comm]
    have hne (he : e ∈ m.entries) : e.1 ≠ k := by
      rintro rfl
      exact hk (List.mem_map_of_mem he)
    exact or_congr_right ⟨fun he => ⟨he, hne he⟩, fun he => he.1⟩

section OfList
variable {key : α → κ} {l : List α}

theorem keys_ofList {k : κ} : k ∈ (ofList key l).entries.map (·.1) ↔ k ∈ l.map key := by
  induction l using List.reverseRecOn with
  | nil => simp [ofList, empty]
  | append_singleton l a ih =>
    rw [ofList_concat, List.map_append, List.mem_append, ← ih]
    constructor
    · intro h
      obtain ⟨e, he, rfl⟩ := List.mem_map.mp h
      rcases mem_set.mp he with rfl | ⟨he, _⟩
      · simp
      · exact .inl (List.mem_map_of_mem he)
    · intro h
      by_cases hk : k = key a
      · exact List.mem_map.mpr ⟨(key a, a), mem_set.mpr (.inl rfl), hk.symm⟩
      · have hmem := h.resolve_right (by simpa using hk)
        obtain ⟨e, he, rfl⟩ := List.mem_map.mp hmem
        exact List.mem_map_of_mem (mem_set.mpr (.inr ⟨he, hk⟩))

theorem key_of_mem {e : κ × α} (h : e ∈ (ofList key l).entries) : key e.2 = e.1 := by
  induction l using List.reverseRecOn generalizing e with
  | nil => simp [ofList, empty] at h
  | append_singleton l a ih =>
    rw [ofList_concat] at h
    rcases mem_set.mp h with rfl | ⟨he, _⟩
    · rfl
    · exact ih he

variable {γ : Type*} [Preorder γ] {f : α → γ}

/-- Of an increasing list, the map keeps the last element with each key. -/
theorem mem_ofList (hl : l.Pairwise fun a b => f a < f b) {a : α} :
    (key a, a) ∈ (ofList key l).entries ↔ a ∈ l ∧ ∀ b ∈ l, key b = key a → f b ≤ f a := by
  induction l using List.reverseRecOn with
  | nil => simp [ofList, empty]
  | append_singleton l x ih =>
    obtain ⟨hl, _, hx⟩ := List.pairwise_append.mp hl
    have hlt (b : α) (hb : b ∈ l) : f b < f x := hx b hb x (List.mem_singleton_self x)
    rw [ofList_concat, mem_set, ih hl]
    constructor
    · rintro (h | ⟨⟨ha, hmax⟩, hne⟩)
      · obtain rfl : a = x := (Prod.mk.inj h).2
        refine ⟨by simp, fun b hb _ => ?_⟩
        rcases List.mem_append.mp hb with hb | hb
        · exact (hlt b hb).le
        · rw [List.mem_singleton.mp hb]
      · refine ⟨List.mem_append_left _ ha, fun b hb hkey => ?_⟩
        rcases List.mem_append.mp hb with hb | hb
        · exact hmax b hb hkey
        · rw [List.mem_singleton.mp hb] at hkey
          exact absurd hkey.symm hne
    · rintro ⟨ha, hmax⟩
      rcases List.mem_append.mp ha with ha | ha
      · right
        refine ⟨⟨ha, fun b hb => hmax b (List.mem_append_left _ hb)⟩, fun hkey => ?_⟩
        exact (hlt a ha).not_ge (hmax x (by simp) hkey.symm)
      · obtain rfl := List.mem_singleton.mp ha
        exact .inl rfl

/-- Entries come in the order of the first elements with their keys. -/
theorem ofList_pairwise (hl : l.Pairwise fun a b => f a < f b) :
    (ofList key l).entries.Pairwise fun e e' =>
      ∃ a ∈ l, key a = e.1 ∧ ∀ b ∈ l, key b = e'.1 → f a < f b := by
  induction l using List.reverseRecOn with
  | nil => exact List.Pairwise.nil
  | append_singleton l x ih =>
    obtain ⟨hl, _, hx⟩ := List.pairwise_append.mp hl
    have hlt (b : α) (hb : b ∈ l) : f b < f x := hx b hb x (List.mem_singleton_self x)
    have hgrow (e e' : κ × α) (h : ∃ a ∈ l, key a = e.1 ∧ ∀ b ∈ l, key b = e'.1 → f a < f b) :
        ∃ a ∈ l ++ [x], key a = e.1 ∧ ∀ b ∈ l ++ [x], key b = e'.1 → f a < f b := by
      obtain ⟨a, ha, hkey, hmin⟩ := h
      refine ⟨a, List.mem_append_left _ ha, hkey, fun b hb hb' => ?_⟩
      rcases List.mem_append.mp hb with hb | hb
      · exact hmin b hb hb'
      · rw [List.mem_singleton.mp hb]
        exact hlt a ha
    rw [ofList_concat]
    by_cases hk : key x ∈ (ofList key l).entries.map (·.1)
    · have hfst (e : κ × α) : (if e.1 = key x then (key x, x) else e).1 = e.1 := by
        split
        · next h => exact h.symm
        · rfl
      rw [set_of_mem hk, List.pairwise_map]
      apply (ih hl).imp
      intro e e' h
      rw [hfst, hfst]
      exact hgrow e e' h
    · rw [set_of_notMem hk]
      apply List.pairwise_append.mpr
      refine ⟨(ih hl).imp (hgrow _ _), List.pairwise_singleton _ _, ?_⟩
      intro e he e' he'
      obtain rfl := List.mem_singleton.mp he'
      have hkey : e.1 ∈ l.map key := keys_ofList.mp (List.mem_map_of_mem he)
      obtain ⟨a, ha, hae⟩ := List.mem_map.mp hkey
      refine ⟨a, List.mem_append_left _ ha, hae, fun b hb hb' => ?_⟩
      rcases List.mem_append.mp hb with hb | hb
      · exact absurd (keys_ofList.mpr (List.mem_map.mpr ⟨b, hb, hb'⟩)) hk
      · rw [List.mem_singleton.mp hb]
        exact hlt a ha

end OfList

/-- Setting mapped values. -/
theorem values_ofList_map (key : β → κ) (f : α → β) (l : List α) :
    (ofList key (l.map f)).values = (ofList (fun a => key (f a)) l).values.map f := by
  have hentries : (ofList key (l.map f)).entries =
      (ofList (fun a => key (f a)) l).entries.map fun e => (e.1, f e.2) := by
    induction l using List.reverseRecOn with
    | nil => rfl
    | append_singleton l a ih =>
      have hkeys : (ofList key (l.map f)).entries.map (·.1) =
          (ofList (fun a => key (f a)) l).entries.map (·.1) := by
        rw [ih, List.map_map]
        rfl
      rw [List.map_append, List.map_singleton, ofList_concat, ofList_concat]
      by_cases hk : key (f a) ∈ (ofList key (l.map f)).entries.map (·.1)
      · rw [set_of_mem hk, set_of_mem (hkeys ▸ hk), ih, List.map_map, List.map_map]
        apply List.map_congr_left
        intro e _
        simp only [Function.comp_apply]
        split <;> rfl
      · rw [set_of_notMem hk, set_of_notMem (hkeys ▸ hk), ih, List.map_append]
        rfl
  rw [values, values, hentries, List.map_map, List.map_map]
  rfl

end OrderedMap
end OneBrc.Lib
