import Mathlib.Data.List.Forall2
import Mathlib.Data.List.Induction
import Mathlib.Data.List.Perm.Basic
import OneBrc.Lib.GroupBy

/-! Maps whose values are objects: a map holds references, and what they refer to is in a heap. -/
namespace OneBrc.Lib.Objects
variable {κ α : Type} [DecidableEq κ]

/-- The references of a map and the objects they refer to. -/
def Stores (heap : List α) (refs : List (κ × ℕ)) (m : List (κ × α)) : Prop :=
  List.Forall₂ (fun e e' => e.1 = e'.1 ∧ heap[e.2]? = some e'.2) refs m

/-- A map of new objects. -/
def load (heap : List α) (m : List (κ × α)) : List α × List (κ × ℕ) :=
  (heap ++ m.map Prod.snd, (m.map Prod.fst).zipIdx heap.length)

/-- Maps of new objects, one after the other. -/
def loadAll (ms : List (List (κ × α))) : List α × List (List (κ × ℕ)) :=
  ms.foldl (fun s m => ((load s.1 m).1, s.2 ++ [(load s.1 m).2])) ([], [])

/-- What a map holds. -/
def contents (heap : List α) (refs : List (κ × ℕ)) : Option (List (κ × α)) :=
  refs.mapM fun e => (heap[e.2]?).map (Prod.mk e.1)

/-- An entry of another map: its object is taken over, or joined into the one of the key. -/
def mergeEntry (join : α → α → α) (s : List α × List (κ × ℕ)) (e : κ × ℕ) :
    Option (List α × List (κ × ℕ)) :=
  match GroupBy.lookup e.1 s.2 with
  | none => some (s.1, s.2 ++ [e])
  | some dst => do
      let d ← s.1[dst]?
      let src ← s.1[e.2]?
      some (s.1.set dst (join d src), s.2)

def mergeInto (join : α → α → α) (s : List α × List (κ × ℕ)) (incoming : List (κ × ℕ)) :
    Option (List α × List (κ × ℕ)) := incoming.foldlM (mergeEntry join) s

section Stores
variable {heap : List α} {refs rest : List (κ × ℕ)} {m m₁ m₂ : List (κ × α)}

omit [DecidableEq κ] in
theorem Stores.keys (h : Stores heap refs m) : refs.map Prod.fst = m.map Prod.fst := by
  induction h with
  | nil => rfl
  | cons he _ ih => rw [List.map_cons, List.map_cons, he.1, ih]

omit [DecidableEq κ] in
theorem Stores.set (h : Stores heap refs m) {dst : ℕ} (hdst : dst ∉ refs.map Prod.snd) (a : α) :
    Stores (heap.set dst a) refs m := by
  induction h with
  | nil => exact .nil
  | cons he _ ih =>
    obtain ⟨hne, hrest⟩ := not_or.mp (mt List.mem_cons.mpr hdst)
    exact .cons ⟨he.1, by rw [List.getElem?_set_ne hne, he.2]⟩ (ih hrest)

omit [DecidableEq κ] in
theorem Stores.append_heap (h : Stores heap refs m) (objects : List α) :
    Stores (heap ++ objects) refs m := by
  refine h.imp ?_
  rintro e e' ⟨hkey, hobject⟩
  obtain ⟨hlt, -⟩ := List.getElem?_eq_some_iff.mp hobject
  exact ⟨hkey, by rw [List.getElem?_append_left hlt, hobject]⟩

omit [DecidableEq κ] in
theorem Stores.split (hlength : refs.length = m₁.length)
    (h : Stores heap (refs ++ rest) (m₁ ++ m₂)) : Stores heap refs m₁ ∧ Stores heap rest m₂ := by
  induction refs generalizing m₁ with
  | nil =>
    obtain rfl := List.length_eq_zero_iff.mp hlength.symm
    exact ⟨.nil, h⟩
  | cons e refs ih =>
    cases m₁ with
    | nil => cases hlength
    | cons e' m₁ =>
      cases h with
      | cons he htail =>
        obtain ⟨hrefs, hrest⟩ := ih (Nat.succ.inj hlength) htail
        exact ⟨.cons he hrefs, hrest⟩

omit [DecidableEq κ] in
/-- What two heaps store of all maps they store of each. -/
theorem Stores.splits {heap' : List α} {payloads : List (List (κ × ℕ))} {ms : List (List (κ × α))}
    (h : List.Forall₂ (Stores heap) payloads ms) (h' : Stores heap' payloads.flatten ms.flatten) :
    List.Forall₂ (Stores heap') payloads ms := by
  induction h with
  | nil => exact .nil
  | cons hhead _ ih =>
    obtain ⟨hfirst, hrest⟩ := Stores.split (List.Forall₂.length_eq hhead) h'
    exact .cons hfirst (ih hrest)

omit [DecidableEq κ] in
theorem Stores.contents_eq (h : Stores heap refs m) : contents heap refs = some m := by
  induction h with
  | nil => rfl
  | @cons e e' refs m he _ ih =>
    have hhead : (heap[e.2]?).map (Prod.mk e.1) = some e' := by
      rw [he.2, he.1]
      rfl
    rw [contents, List.mapM_cons, hhead]
    show (contents heap refs).bind (fun m => some (e' :: m)) = _
    rw [ih]
    rfl

theorem Stores.lookup_none {k : κ} (h : Stores heap refs m)
    (hlookup : GroupBy.lookup k refs = none) : k ∉ m.map Prod.fst := by
  rw [← h.keys]
  exact GroupBy.lookup_eq_none_iff.mp hlookup

/-- Changing the object of a key changes the map at that key. -/
theorem Stores.update {k : κ} {dst : ℕ} (h : Stores heap refs m)
    (hlookup : GroupBy.lookup k refs = some dst) (hnodup : (refs.map Prod.snd).Nodup)
    (f : Option α → α) : ∃ d, heap[dst]? = some d ∧
      Stores (heap.set dst (f (some d))) refs (GroupBy.upsert k f m) := by
  induction h with
  | nil => cases hlookup
  | @cons e e' refs m he hrefs ih =>
    obtain ⟨hnew, hnodup⟩ := List.nodup_cons.mp hnodup
    rw [GroupBy.lookup] at hlookup
    rw [GroupBy.upsert, ← he.1]
    by_cases hk : e.1 = k
    · rw [if_pos hk] at hlookup
      obtain rfl := Option.some.inj hlookup
      have hset := Stores.set (show Stores heap refs m from hrefs) hnew (f (some e'.2))
      obtain ⟨hlt, -⟩ := List.getElem?_eq_some_iff.mp he.2
      rw [if_pos hk]
      exact ⟨e'.2, he.2, .cons ⟨hk, List.getElem?_set_self hlt⟩ hset⟩
    · rw [if_neg hk] at hlookup
      obtain ⟨d, hd, hstores⟩ := ih hlookup hnodup
      have hne : dst ≠ e.2 := by
        rintro rfl
        exact hnew (List.mem_map.mpr ⟨_, GroupBy.mem_of_lookup hlookup, rfl⟩)
      rw [if_neg hk]
      exact ⟨d, hd, .cons ⟨he.1, by rw [List.getElem?_set_ne hne, he.2]⟩ hstores⟩

end Stores

section Merge
variable {heap : List α} {all incoming rest : List (κ × ℕ)} {m m₁ m₂ : List (κ × α)}
  {join : α → α → α}

variable (join) in
/-- An entry is merged as if the maps held the objects themselves. -/
theorem mergeEntry_stores {e : κ × ℕ} {a : α} (h : Stores heap all m) (he : heap[e.2]? = some a)
    (hrest : Stores heap rest m₂) (hnodup : ((all ++ e :: rest).map Prod.snd).Nodup) :
    ∃ heap' all', mergeEntry join (heap, all) e = some (heap', all') ∧
      Stores heap' all' (GroupBy.upsert e.1 (fun o => o.elim a fun b => join b a) m) ∧
      Stores heap' rest m₂ ∧ ((all' ++ rest).map Prod.snd).Nodup := by
  rw [mergeEntry]
  cases hlookup : GroupBy.lookup e.1 all with
  | none =>
    refine ⟨heap, all ++ [e], rfl, ?_, hrest, by rwa [List.append_assoc]⟩
    rw [GroupBy.upsert_of_notMem _ (h.lookup_none hlookup)]
    exact List.rel_append h (.cons ⟨rfl, he⟩ .nil)
  | some dst =>
    rw [List.map_append, List.nodup_append'] at hnodup
    obtain ⟨hall, hother, hdisjoint⟩ := hnodup
    obtain ⟨d, hd, hstores⟩ := h.update hlookup hall fun o => o.elim a fun b => join b a
    have hdst : dst ∈ all.map Prod.snd :=
      List.mem_map.mpr ⟨_, GroupBy.mem_of_lookup hlookup, rfl⟩
    have hnotMem : dst ∉ rest.map Prod.snd := fun hmem =>
      hdisjoint hdst (List.mem_cons_of_mem _ hmem)
    refine ⟨heap.set dst (join d a), all, ?_, hstores, hrest.set hnotMem _, ?_⟩
    · simp only [hd, he, bind, Option.bind]
    · rw [List.map_append, List.nodup_append']
      exact ⟨hall, (List.nodup_cons.mp hother).2,
        List.disjoint_of_subset_right (List.subset_cons_self _ _) hdisjoint⟩

variable (join) in
theorem mergeInto_stores (h : Stores heap all m) (hincoming : Stores heap incoming m₁)
    (hrest : Stores heap rest m₂) (hnodup : ((all ++ (incoming ++ rest)).map Prod.snd).Nodup) :
    ∃ heap' all', mergeInto join (heap, all) incoming = some (heap', all') ∧
      Stores heap' all' (GroupBy.merge join m m₁) ∧ Stores heap' rest m₂ ∧
      ((all' ++ rest).map Prod.snd).Nodup := by
  induction incoming generalizing heap all m m₁ with
  | nil =>
    cases hincoming
    exact ⟨heap, all, rfl, h, hrest, hnodup⟩
  | cons e incoming ih =>
    cases hincoming with
    | @cons _ e' _ m₁ he hincoming =>
      obtain ⟨heap', all', hrun, hstores, hpending, hnodup'⟩ :=
        mergeEntry_stores join h he.2 (List.rel_append hincoming hrest) hnodup
      have hsplit := Stores.split (List.Forall₂.length_eq hincoming) hpending
      obtain ⟨heap₂, all₂, hrun₂, hstores₂, hrest₂, hnodup₂⟩ :=
        ih hstores hsplit.1 hsplit.2 hnodup'
      refine ⟨heap₂, all₂, ?_, ?_, hrest₂, hnodup₂⟩
      · rw [mergeInto, List.foldlM_cons, hrun]
        exact hrun₂
      · rw [he.1] at hstores₂
        exact hstores₂

variable (join) in
/-- Maps merged one after the other. -/
theorem foldlM_mergeInto {payloads : List (List (κ × ℕ))} {ms : List (List (κ × α))}
    (h : Stores heap all m) (hpayloads : List.Forall₂ (Stores heap) payloads ms)
    (hnodup : ((all ++ payloads.flatten).map Prod.snd).Nodup) :
    ∃ heap' all', payloads.foldlM (mergeInto join) (heap, all) = some (heap', all') ∧
      Stores heap' all' (ms.foldl (GroupBy.merge join) m) := by
  induction payloads generalizing heap all m ms with
  | nil =>
    cases hpayloads
    exact ⟨heap, all, rfl, h⟩
  | cons incoming payloads ih =>
    cases hpayloads with
    | @cons _ m₁ _ ms hincoming hrest =>
      have hpending : Stores heap payloads.flatten ms.flatten := List.rel_flatten hrest
      obtain ⟨heap₁, all₁, hrun, hstores, hpending₁, hnodup₁⟩ :=
        mergeInto_stores join h hincoming hpending hnodup
      obtain ⟨heap₂, all₂, hrun₂, hstores₂⟩ :=
        ih hstores (Stores.splits hrest hpending₁) hnodup₁
      refine ⟨heap₂, all₂, ?_, hstores₂⟩
      rw [List.foldlM_cons, hrun]
      exact hrun₂

end Merge

section Load
variable {heap : List α} {m : List (κ × α)}

omit [DecidableEq κ] in
theorem stores_load (heap : List α) (m : List (κ × α)) :
    Stores (load heap m).1 (load heap m).2 m := by
  induction m generalizing heap with
  | nil => exact .nil
  | cons e m ih =>
    have hrest := ih (heap ++ [e.2])
    have hlength : (heap ++ [e.2]).length = heap.length + 1 := by simp
    rw [load, List.map_cons, List.map_cons, List.zipIdx_cons]
    rw [load, hlength, List.append_assoc] at hrest
    refine .cons ⟨rfl, ?_⟩ hrest
    rw [List.getElem?_append_right (Nat.le_refl _), Nat.sub_self]
    rfl

omit [DecidableEq κ] in
/-- Loaded maps do not share objects. -/
theorem loadAll_stores (ms : List (List (κ × α))) :
    List.Forall₂ (Stores (loadAll ms).1) (loadAll ms).2 ms ∧
      (loadAll ms).2.flatten.map Prod.snd = List.range (loadAll ms).1.length := by
  induction ms using List.reverseRecOn with
  | nil => exact ⟨.nil, rfl⟩
  | append_singleton ms m ih =>
    obtain ⟨hstores, hrefs⟩ := ih
    rw [loadAll, List.foldl_append, ← loadAll]
    refine ⟨?_, ?_⟩
    · apply List.rel_append
      · exact hstores.imp fun _ _ h => h.append_heap _
      · exact .cons (stores_load _ m) .nil
    · have hlength : (m.map Prod.fst).length = (m.map Prod.snd).length := by simp
      show ((loadAll ms).2 ++ [(load (loadAll ms).1 m).2]).flatten.map Prod.snd =
        List.range ((loadAll ms).1 ++ m.map Prod.snd).length
      rw [List.flatten_append, List.map_append, hrefs, List.flatten_singleton, load,
        List.zipIdx_map_snd, hlength, List.length_append, List.range_eq_range',
        List.range_eq_range', ← List.range'_append_1, Nat.zero_add]

end Load
end OneBrc.Lib.Objects
