import Mathlib.Data.List.Basic
import Mathlib.Data.List.Nodup

/-! A map from keys to summaries of the rows with each key, built one row at a time. -/
namespace OneBrc.Lib.GroupBy
variable {κ ρ α : Type} [DecidableEq κ]

/-- The summary of a key updated; a new key comes last. -/
def upsert (k : κ) (f : Option α → α) : List (κ × α) → List (κ × α)
  | [] => [(k, f none)]
  | e :: m => if e.1 = k then (k, f (some e.2)) :: m else e :: upsert k f m

/-- The summary of a key. -/
def lookup (k : κ) : List (κ × α) → Option α
  | [] => none
  | e :: m => if e.1 = k then some e.2 else lookup k m

def members (key : ρ → κ) (rows : List ρ) (k : κ) : List ρ :=
  rows.filter fun r => decide (key r = k)

/-- The map has each key that occurs once, with the summary of its rows. -/
structure Groups (key : ρ → κ) (summary : List ρ → α) (m : List (κ × α)) (rows : List ρ) :
    Prop where
  nodup : (m.map Prod.fst).Nodup
  mem : ∀ k a, (k, a) ∈ m ↔ members key rows k ≠ [] ∧ a = summary (members key rows k)

omit [DecidableEq κ] in
theorem mem_keys_of_mem {k : κ} {a : α} {m : List (κ × α)} (h : (k, a) ∈ m) :
    k ∈ m.map Prod.fst := List.mem_map.mpr ⟨(k, a), h, rfl⟩

section Upsert
variable {k : κ} {a : α} {m : List (κ × α)} (f : Option α → α)

theorem upsert_of_notMem (h : k ∉ m.map Prod.fst) : upsert k f m = m ++ [(k, f none)] := by
  induction m with
  | nil => rfl
  | cons e m ih =>
    rw [List.map_cons, List.mem_cons, not_or] at h
    rw [upsert, if_neg (Ne.symm h.1), ih h.2, List.cons_append]

theorem upsert_of_mem (hn : (m.map Prod.fst).Nodup) (h : (k, a) ∈ m) :
    ∃ m₁ m₂, m = m₁ ++ (k, a) :: m₂ ∧ upsert k f m = m₁ ++ (k, f (some a)) :: m₂ := by
  induction m with
  | nil => cases h
  | cons e m ih =>
    rw [List.map_cons, List.nodup_cons] at hn
    rcases List.mem_cons.mp h with rfl | hmem
    · exact ⟨[], m, rfl, if_pos rfl⟩
    · have hne : e.1 ≠ k := by
        rintro rfl
        exact hn.1 (mem_keys_of_mem hmem)
      obtain ⟨m₁, m₂, rfl, hupsert⟩ := ih hn.2 hmem
      refine ⟨e :: m₁, m₂, rfl, ?_⟩
      rw [upsert, if_neg hne, hupsert, List.cons_append]

theorem lookup_of_mem (hn : (m.map Prod.fst).Nodup) (h : (k, a) ∈ m) : lookup k m = some a := by
  induction m with
  | nil => cases h
  | cons e m ih =>
    rw [List.map_cons, List.nodup_cons] at hn
    rcases List.mem_cons.mp h with rfl | hmem
    · exact if_pos rfl
    · have hne : e.1 ≠ k := fun heq => hn.1 (heq ▸ mem_keys_of_mem hmem)
      rw [lookup, if_neg hne]
      exact ih hn.2 hmem

end Upsert

section Groups
variable {key : ρ → κ} {summary : List ρ → α} {m : List (κ × α)} {rows : List ρ}

theorem members_concat_self (r : ρ) :
    members key (rows ++ [r]) (key r) = members key rows (key r) ++ [r] := by
  simp [members]

theorem members_concat_of_ne {r : ρ} {k : κ} (h : key r ≠ k) :
    members key (rows ++ [r]) k = members key rows k := by
  simp [members, h]

theorem Groups.nil : Groups key summary [] [] := ⟨List.nodup_nil, by simp [members]⟩

theorem Groups.mem_keys (h : Groups key summary m rows) {k : κ} :
    k ∈ m.map Prod.fst ↔ members key rows k ≠ [] := by
  constructor
  · intro hk
    obtain ⟨⟨k, a⟩, he, rfl⟩ := List.mem_map.mp hk
    exact ((h.mem k a).mp he).1
  · intro hne
    exact List.mem_map.mpr ⟨(k, _), (h.mem k _).mpr ⟨hne, rfl⟩, rfl⟩

/-- One more row in the summary of its key. -/
theorem Groups.upsert (h : Groups key summary m rows) {r : ρ} {f : Option α → α}
    (hnone : members key rows (key r) = [] → f none = summary [r])
    (hsome : members key rows (key r) ≠ [] →
      f (some (summary (members key rows (key r)))) = summary (members key rows (key r) ++ [r])) :
    Groups key summary (GroupBy.upsert (key r) f m) (rows ++ [r]) := by
  by_cases hnil : members key rows (key r) = []
  · have hnew : key r ∉ m.map Prod.fst := fun hk => h.mem_keys.mp hk hnil
    rw [upsert_of_notMem f hnew]
    refine ⟨?_, ?_⟩
    · rw [List.map_append, List.nodup_append]
      exact ⟨h.nodup, List.nodup_singleton _, by
        rintro k hk k' hk' rfl
        obtain rfl := List.mem_singleton.mp hk'
        exact hnew hk⟩
    · intro k a
      rw [List.mem_append, List.mem_singleton, Prod.mk.injEq]
      by_cases hk : key r = k
      · subst hk
        rw [members_concat_self, hnil, h.mem, hnone hnil]
        simp [hnil]
      · rw [members_concat_of_ne hk, h.mem]
        simp [Ne.symm hk]
  · have hold : (key r, summary (members key rows (key r))) ∈ m := (h.mem _ _).mpr ⟨hnil, rfl⟩
    obtain ⟨m₁, m₂, rfl, hupsert⟩ := upsert_of_mem f h.nodup hold
    have hkeys : (GroupBy.upsert (key r) f
        (m₁ ++ (key r, summary (members key rows (key r))) :: m₂)).map Prod.fst =
        (m₁ ++ (key r, summary (members key rows (key r))) :: m₂).map Prod.fst := by
      rw [hupsert]
      simp
    have hnodup := h.nodup
    refine ⟨hkeys ▸ hnodup, ?_⟩
    rw [List.map_append, List.map_cons, List.nodup_append, List.nodup_cons] at hnodup
    obtain ⟨-, ⟨hm₂, -⟩, hm₁⟩ := hnodup
    intro k a
    have hmem := h.mem k a
    rw [hupsert]
    rw [List.mem_append, List.mem_cons, Prod.mk.injEq] at hmem ⊢
    by_cases hk : key r = k
    · subst hk
      have hnot₁ : (key r, a) ∉ m₁ := fun hin =>
        hm₁ (key r) (mem_keys_of_mem hin) (key r) List.mem_cons_self rfl
      have hnot₂ : (key r, a) ∉ m₂ := fun hin => hm₂ (mem_keys_of_mem hin)
      rw [members_concat_self, hsome hnil]
      simp [hnot₁, hnot₂]
    · rw [members_concat_of_ne hk, ← hmem]
      simp [Ne.symm hk]

/-- The entries of the map in the order of a list of all its keys. -/
theorem Groups.mapM_lookup (h : Groups key summary m rows) {keys : List κ}
    (hkeys : ∀ k ∈ keys, k ∈ m.map Prod.fst) {β : Type} (write : κ → α → β) :
    (keys.mapM fun k => (lookup k m).map (write k)) =
      some (keys.map fun k => write k (summary (members key rows k))) := by
  induction keys with
  | nil => rfl
  | cons k keys ih =>
    have hne := h.mem_keys.mp (hkeys k List.mem_cons_self)
    have hlookup := lookup_of_mem h.nodup ((h.mem k _).mpr ⟨hne, rfl⟩)
    rw [List.mapM_cons, hlookup, ih fun k' hk' => hkeys k' (List.mem_cons_of_mem _ hk')]
    rfl

end Groups

section Lookup
variable {k k' : κ} {a : α} {m m' : List (κ × α)}

theorem mem_of_lookup (h : lookup k m = some a) : (k, a) ∈ m := by
  induction m with
  | nil => cases h
  | cons e m ih =>
    rw [lookup] at h
    split at h
    · next he =>
      obtain rfl := Option.some.inj h
      exact he ▸ List.mem_cons_self
    · exact List.mem_cons_of_mem _ (ih h)

theorem lookup_eq_some_iff (hn : (m.map Prod.fst).Nodup) : lookup k m = some a ↔ (k, a) ∈ m :=
  ⟨mem_of_lookup, lookup_of_mem hn⟩

theorem lookup_eq_none_iff : lookup k m = none ↔ k ∉ m.map Prod.fst := by
  induction m with
  | nil => simp [lookup]
  | cons e m ih =>
    rw [lookup, List.map_cons, List.mem_cons, not_or, ← ih]
    split
    · next he => simp [he]
    · next he => simp [Ne.symm he]

theorem lookup_upsert (f : Option α → α) :
    lookup k' (upsert k f m) = if k' = k then some (f (lookup k m)) else lookup k' m := by
  induction m with
  | nil =>
    rw [upsert, lookup]
    simp only [lookup, eq_comm]
  | cons e m ih =>
    rw [upsert]
    by_cases he : e.1 = k
    · rw [if_pos he, lookup, lookup, lookup, if_pos he]
      subst he
      simp only [eq_comm]
      split <;> simp_all
    · rw [if_neg he, lookup, ih, lookup, lookup, if_neg he]
      by_cases hk : e.1 = k'
      · rw [if_pos hk, if_pos hk, if_neg (hk ▸ he)]
      · rw [if_neg hk, if_neg hk]

theorem nodup_upsert (f : Option α → α) (hn : (m.map Prod.fst).Nodup) :
    ((upsert k f m).map Prod.fst).Nodup := by
  by_cases hk : k ∈ m.map Prod.fst
  · obtain ⟨e, he, rfl⟩ := List.mem_map.mp hk
    obtain ⟨m₁, m₂, hm, hupsert⟩ := upsert_of_mem f hn he
    rw [hupsert]
    rw [hm] at hn
    simpa using hn
  · rw [upsert_of_notMem f hk, List.map_append]
    exact hn.append (List.nodup_singleton _) (List.disjoint_singleton.mpr hk)

/-- The place of a key among the keys is that of its entry. -/
theorem upsert_of_lookup_zipIdx {n i : ℕ} (h : lookup k ((m.map Prod.fst).zipIdx n) = some i)
    (f : Option α → α) : ∃ m₁ a m₂, m = m₁ ++ (k, a) :: m₂ ∧ i = n + m₁.length ∧
      upsert k f m = m₁ ++ (k, f (some a)) :: m₂ := by
  induction m generalizing n with
  | nil => cases h
  | cons e m ih =>
    rw [List.map_cons, List.zipIdx_cons, lookup] at h
    by_cases he : e.1 = k
    · rw [if_pos he] at h
      obtain rfl := Option.some.inj h
      subst he
      exact ⟨[], e.2, m, rfl, rfl, by rw [upsert, if_pos rfl]; rfl⟩
    · rw [if_neg he] at h
      obtain ⟨m₁, a, m₂, rfl, hi, hupsert⟩ := ih h
      refine ⟨e :: m₁, a, m₂, rfl, ?_, by rw [upsert, if_neg he, hupsert]; rfl⟩
      rw [List.length_cons]
      omega

/-- The entries of another map joined to those of a map; new keys come last. -/
def merge (join : α → α → α) (m m' : List (κ × α)) : List (κ × α) :=
  m'.foldl (fun m e => upsert e.1 (fun a => a.elim e.2 fun a => join a e.2) m) m

theorem nodup_merge (join : α → α → α) (hn : (m.map Prod.fst).Nodup) :
    ((merge join m m').map Prod.fst).Nodup := by
  induction m' generalizing m with
  | nil => exact hn
  | cons e m' ih => exact ih (nodup_upsert _ hn)

/-- The summaries of a key in two maps. -/
def joined (join : α → α → α) : Option α → Option α → Option α
  | some a, some b => some (join a b)
  | some a, none => some a
  | none, b => b

theorem lookup_merge (join : α → α → α) (hn : (m'.map Prod.fst).Nodup) :
    lookup k (merge join m m') = joined join (lookup k m) (lookup k m') := by
  induction m' generalizing m with
  | nil => cases hk : lookup k m <;> simp [merge, lookup, joined, hk]
  | cons e m' ih =>
    obtain ⟨he, hn⟩ := List.nodup_cons.mp hn
    show lookup k (merge join (upsert e.1 _ m) m') = _
    rw [ih hn, lookup_upsert, lookup]
    by_cases hk : k = e.1
    · subst hk
      rw [if_pos rfl, if_pos rfl, lookup_eq_none_iff.mpr he]
      cases lookup e.1 m <;> rfl
    · rw [if_neg hk, if_neg (Ne.symm hk)]

variable {key : ρ → κ} {summary : List ρ → α} {rows rows' : List ρ}

/-- A map of groups is known by what it has under each key. -/
theorem groups_iff_lookup (hn : (m.map Prod.fst).Nodup) : Groups key summary m rows ↔
    ∀ k, lookup k m =
      if members key rows k = [] then none else some (summary (members key rows k)) := by
  constructor
  · intro h k
    split
    · next hnil => exact lookup_eq_none_iff.mpr fun hk => h.mem_keys.mp hk hnil
    · next hne => exact lookup_of_mem hn ((h.mem k _).mpr ⟨hne, rfl⟩)
  · intro h
    refine ⟨hn, fun k a => ?_⟩
    rw [← lookup_eq_some_iff hn, h k]
    split
    · next hnil => simp [hnil]
    · next hne => simp [hne, eq_comm]

theorem members_append (k : κ) :
    members key (rows ++ rows') k = members key rows k ++ members key rows' k :=
  List.filter_append ..

/-- The merged map has the groups of the rows of both. -/
theorem Groups.merge {join : α → α → α} (h : Groups key summary m rows)
    (h' : Groups key summary m' rows')
    (hjoin : ∀ k, members key rows k ≠ [] → members key rows' k ≠ [] →
      join (summary (members key rows k)) (summary (members key rows' k)) =
        summary (members key rows k ++ members key rows' k)) :
    Groups key summary (GroupBy.merge join m m') (rows ++ rows') := by
  have hlookup := (groups_iff_lookup h.nodup).mp h
  have hlookup' := (groups_iff_lookup h'.nodup).mp h'
  rw [groups_iff_lookup (nodup_merge join h.nodup)]
  intro k
  rw [lookup_merge join h'.nodup, hlookup, hlookup', members_append]
  by_cases hnil : members key rows k = []
  · rw [hnil, if_pos rfl, List.nil_append]
    rfl
  · by_cases hnil' : members key rows' k = []
    · rw [hnil', if_neg hnil, if_pos rfl, List.append_nil, if_neg hnil]
      rfl
    · rw [if_neg hnil, if_neg hnil', if_neg (by simp [hnil]), ← hjoin k hnil hnil']
      rfl

end Lookup
end OneBrc.Lib.GroupBy
