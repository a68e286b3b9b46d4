import Mathlib.Data.List.Nodup
import Mathlib.Data.List.Basic

/-! Relations with a primary key, and the statements a store executes on them. Every statement is
characterised by its effect on the lookup of one key. -/
namespace OneBrc.Lib

/-- Rows in storage order; no two rows share the key. -/
structure Table (κ : Type*) (α : Type*) (key : α → κ) where
  rows : List α
  nodup : (rows.map key).Nodup
  deriving DecidableEq

namespace Table
variable {κ α : Type*} {key : α → κ}

def empty : Table κ α key := ⟨[], List.nodup_nil⟩

theorem ext_rows {t t' : Table κ α key} (h : t.rows = t'.rows) : t = t' := by
  obtain ⟨rows, hn⟩ := t
  obtain ⟨rows', hn'⟩ := t'
  obtain rfl : rows = rows' := h
  rfl

instance : Inhabited (Table κ α key) := ⟨empty⟩

theorem map_key_update (p : α → Bool) {f : α → α} (hf : ∀ a, key (f a) = key a) (l : List α) :
    (l.map fun a => if p a then f a else a).map key = l.map key := by
  rw [List.map_map]
  refine List.map_congr_left fun a _ => ?_
  rw [Function.comp_apply]
  split
  · exact hf a
  · rfl

/-- UPDATE of the rows that satisfy `p`; the key is not among the columns that are set. -/
def update (t : Table κ α key) (p : α → Bool) (f : α → α) (hf : ∀ a, key (f a) = key a) :
    Table κ α key where
  rows := t.rows.map fun a => if p a then f a else a
  nodup := by
    rw [map_key_update p hf]
    exact t.nodup

theorem keys_update (t : Table κ α key) (p : α → Bool) (f : α → α) (hf : ∀ a, key (f a) = key a) :
    (t.update p f hf).rows.map key = t.rows.map key := map_key_update p hf t.rows

/-- DELETE of the rows that satisfy `p`. -/
def delete (t : Table κ α key) (p : α → Bool) : Table κ α key where
  rows := t.rows.filter fun a => !p a
  nodup := t.nodup.sublist (List.filter_sublist.map key)

/-- Number of rows that satisfy `p`. -/
def count (t : Table κ α key) (p : α → Bool) : ℕ := t.rows.countP p

variable [DecidableEq κ]

def get? (t : Table κ α key) (k : κ) : Option α := t.rows.find? fun a => key a = k

theorem get?_key {t : Table κ α key} {k : κ} {a : α} (h : t.get? k = some a) : key a = k := by
  simpa using List.find?_some h

theorem mem_of_get? {t : Table κ α key} {k : κ} {a : α} (h : t.get? k = some a) : a ∈ t.rows :=
  List.mem_of_find?_eq_some h

theorem get?_of_mem {t : Table κ α key} {a : α} (h : a ∈ t.rows) : t.get? (key a) = some a := by
  obtain ⟨rows, hn⟩ := t
  change a ∈ rows at h
  change rows.find? (fun b => key b = key a) = some a
  induction rows with
  | nil => simp at h
  | cons b rows ih =>
    obtain ⟨hb, hn⟩ := List.nodup_cons.mp hn
    rcases List.mem_cons.mp h with rfl | h
    · simp
    · have hne : key b ≠ key a := fun he => hb (he ▸ List.mem_map_of_mem h)
      simpa [hne] using ih hn h

theorem mem_iff_get? {t : Table κ α key} {a : α} : a ∈ t.rows ↔ t.get? (key a) = some a :=
  ⟨get?_of_mem, mem_of_get?⟩

theorem get?_eq_none {t : Table κ α key} {k : κ} (h : t.get? k = none) : k ∉ t.rows.map key := by
  intro hk
  obtain ⟨a, ha, rfl⟩ := List.mem_map.mp hk
  rw [get?_of_mem ha] at h
  contradiction

theorem eq_of_key_eq {t : Table κ α key} {a b : α} (ha : a ∈ t.rows) (hb : b ∈ t.rows)
    (h : key a = key b) : a = b := by
  have hb' := get?_of_mem hb
  rw [← h, get?_of_mem ha] at hb'
  exact Option.some.inj hb'

/-- INSERT of a row whose key is not in the table. -/
def insert (t : Table κ α key) (a : α) (h : t.get? (key a) = none) : Table κ α key where
  rows := t.rows ++ [a]
  nodup := by
    rw [List.map_append, List.map_singleton]
    apply t.nodup.append (List.nodup_singleton _)
    rw [List.disjoint_singleton]
    exact get?_eq_none h

/-- INSERT that fails on a duplicate key. -/
def insert? (t : Table κ α key) (a : α) : Option (Table κ α key) :=
  if h : t.get? (key a) = none then some (t.insert a h) else none

/-- INSERT IGNORE. -/
def insertIgnore (t : Table κ α key) (a : α) : Table κ α key := (t.insert? a).getD t

/-- Replace the row with this key, or insert it. -/
def put (t : Table κ α key) (a : α) : Table κ α key where
  rows := t.rows.filter (fun b => key b ≠ key a) ++ [a]
  nodup := by
    rw [List.map_append, List.map_singleton]
    apply (t.nodup.sublist (List.filter_sublist.map key)).append (List.nodup_singleton _)
    simp [List.disjoint_singleton]

@[simp] theorem get?_empty (k : κ) : (empty : Table κ α key).get? k = none := rfl

@[simp] theorem get?_insert (t : Table κ α key) (a : α) (h : t.get? (key a) = none) (k : κ) :
    (t.insert a h).get? k = if key a = k then some a else t.get? k := by
  change (t.rows ++ [a]).find? _ = _
  rw [List.find?_append]
  split
  · next hk =>
    subst hk
    change (t.get? (key a)).or _ = _
    simp [h]
  · next hk => simp [get?, hk]

theorem insert?_eq_some {t t' : Table κ α key} {a : α} :
    t.insert? a = some t' ↔ ∃ h : t.get? (key a) = none, t.insert a h = t' := by
  unfold insert?
  split
  · next h => simp [h]
  · next h => simp [h]

theorem get?_insert? {t t' : Table κ α key} {a : α} (h : t.insert? a = some t') (k : κ) :
    t'.get? k = if key a = k then some a else t.get? k := by
  obtain ⟨hn, rfl⟩ := insert?_eq_some.mp h
  exact get?_insert t a hn k

theorem get?_insertIgnore (t : Table κ α key) (a : α) (k : κ) :
    (t.insertIgnore a).get? k = (t.get? k).or (if key a = k then some a else none) := by
  unfold insertIgnore insert?
  split
  · next h =>
    rw [Option.getD_some, get?_insert]
    split
    · next hk => subst hk; simp [h]
    · simp
  · next h =>
    rw [Option.getD_none]
    split
    · next hk =>
      subst hk
      obtain ⟨b, hb⟩ := Option.ne_none_iff_exists'.mp h
      simp [hb]
    · simp

@[simp] theorem get?_update (t : Table κ α key) (p : α → Bool) (f : α → α)
    (hf : ∀ a, key (f a) = key a) (k : κ) :
    (t.update p f hf).get? k = (t.get? k).map fun a => if p a then f a else a := by
  change (t.rows.map _).find? _ = (t.rows.find? _).map _
  have hkey (a : α) : key (if p a then f a else a) = key a := by
    split
    · exact hf a
    · rfl
  have hfind : (fun a => decide (key a = k)) ∘ (fun a => if p a then f a else a) =
      fun a => decide (key a = k) := by
    funext a
    rw [Function.comp_apply, hkey]
  rw [List.find?_map, hfind]

@[simp] theorem get?_delete (t : Table κ α key) (p : α → Bool) (k : κ) :
    (t.delete p).get? k = (t.get? k).filter fun a => !p a := by
  cases hk : t.get? k with
  | none =>
    cases hd : (t.delete p).get? k with
    | none => rfl
    | some a =>
      have ha := List.mem_of_mem_filter (mem_of_get? hd)
      rw [← get?_key hd, get?_of_mem ha] at hk
      contradiction
  | some a =>
    by_cases hp : p a = true
    · cases hd : (t.delete p).get? k with
      | none => simp [Option.filter, hp]
      | some b =>
        have hb := List.mem_filter.mp (mem_of_get? hd)
        have hab := eq_of_key_eq hb.1 (mem_of_get? hk) ((get?_key hd).trans (get?_key hk).symm)
        simp [hab, hp] at hb
    · have ha : a ∈ (t.delete p).rows :=
        List.mem_filter.mpr ⟨mem_of_get? hk, by simpa using hp⟩
      rw [← get?_key hk, get?_of_mem ha]
      simp [Option.filter, hp]

@[simp] theorem get?_put (t : Table κ α key) (a : α) (k : κ) :
    (t.put a).get? k = if key a = k then some a else t.get? k := by
  change (t.rows.filter _ ++ [a]).find? _ = _
  rw [List.find?_append]
  split
  · next hk =>
    subst hk
    have hnone : (t.rows.filter fun b => decide (key b ≠ key a)).find?
        (fun b => decide (key b = key a)) = none := by
      simp
    rw [hnone]
    simp
  · next hk =>
    have hf : (t.rows.filter fun b => decide (key b ≠ key a)).find?
        (fun b => decide (key b = k)) = t.get? k := by
      rw [List.find?_filter]
      unfold get?
      congr 1
      funext b
      by_cases hb : key b = k
      · simp [hb, Ne.symm hk]
      · simp [hb]
    rw [hf]
    simp [hk]

theorem keys_insertIgnore (t : Table κ α key) (a : α) :
    t.rows.map key <+: (t.insertIgnore a).rows.map key := by
  unfold insertIgnore insert?
  split
  · rw [Option.getD_some]
    change _ <+: (t.rows ++ [a]).map key
    rw [List.map_append]
    exact List.prefix_append _ _
  · exact List.prefix_refl _

theorem count_eq_zero {t : Table κ α key} {p : α → Bool} :
    t.count p = 0 ↔ ∀ k a, t.get? k = some a → p a = false := by
  simp only [count, List.countP_eq_zero, Bool.not_eq_true]
  constructor
  · intro h k a hk
    exact h a (mem_of_get? hk)
  · intro h a ha
    exact h _ a (get?_of_mem ha)

theorem mem_keys_filter {t : Table κ α key} {p : α → Bool} {k : κ} :
    k ∈ (t.rows.filter p).map key ↔ (t.get? k).any p = true := by
  rw [List.mem_map, Option.any_eq_true]
  constructor
  · rintro ⟨a, ha, rfl⟩
    obtain ⟨ha, hp⟩ := List.mem_filter.mp ha
    exact ⟨a, get?_of_mem ha, hp⟩
  · rintro ⟨a, ha, hp⟩
    exact ⟨a, List.mem_filter.mpr ⟨mem_of_get? ha, hp⟩, get?_key ha⟩

/-- A count depends on the lookups only. -/
theorem count_congr {t t' : Table κ α key} {p p' : α → Bool}
    (h : ∀ k, (t.get? k).any p = (t'.get? k).any p') : t.count p = t'.count p' := by
  have hperm : ((t.rows.filter p).map key).Perm ((t'.rows.filter p').map key) := by
    rw [List.perm_ext_iff_of_nodup (t.nodup.sublist (List.filter_sublist.map key))
      (t'.nodup.sublist (List.filter_sublist.map key))]
    intro k
    rw [mem_keys_filter, mem_keys_filter, h]
  have hlength := hperm.length_eq
  rw [List.length_map, List.length_map] at hlength
  rw [count, count, List.countP_eq_length_filter, List.countP_eq_length_filter, hlength]

end Table
end OneBrc.Lib
