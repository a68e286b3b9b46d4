import Mathlib.Data.List.Sort
import Mathlib.Data.List.Nodup
import Mathlib.Data.Prod.Lex

/-! Stable sorting by a comparison function, and maps filled in a loop over the sorted list. -/
namespace OneBrc.Lib.StableSort
variable {α κ β : Type*}

/-- Stable sort by `less`, which is a strict weak order. -/
def sliceStable (less : α → α → Bool) (l : List α) : List α :=
  l.insertionSort fun a b => less b a = false

/-- ORDER BY; rows that the order does not separate come in the order of `tie`. -/
def orderBy (before : α → α → Bool) (tie : α → ℕ) (l : List α) : List α :=
  sliceStable (fun a b => before a b || !before b a && tie a < tie b) l

/-- The map after a loop that sets `out[key l[i]]` to `f i`; later entries win. -/
def indexMap [DecidableEq κ] (key : α → κ) (f : ℕ → β) (l : List α) : κ → Option β :=
  l.zipIdx.foldl (fun out p => Function.update out (key p.1) (some (f p.2))) fun _ => none

theorem sliceStable_perm (less : α → α → Bool) (l : List α) : (sliceStable less l).Perm l :=
  List.perm_insertionSort ..

theorem sliceStable_lt [LinearOrder α] (l : List α) :
    sliceStable (fun a b => a < b) l = l.insertionSort (· ≤ ·) := by
  have hrel : (fun a b : α => decide (b < a) = false) = (· ≤ ·) := by
    funext a b
    simp
  simp only [sliceStable]
  congr 1

theorem mem_sliceStable {less : α → α → Bool} {l : List α} {a : α} :
    a ∈ sliceStable less l ↔ a ∈ l := (sliceStable_perm less l).mem_iff

/-- Only the comparisons of elements count. -/
theorem sliceStable_congr {less less' : α → α → Bool} {l : List α}
    (h : ∀ a ∈ l, ∀ b ∈ l, less a b = less' a b) : sliceStable less l = sliceStable less' l := by
  have hsort := List.map_insertionSort (fun a b => less b a = false)
    (fun a b => less' b a = false) id l fun a ha b hb => by rw [h b hb a ha]; rfl
  rwa [List.map_id, List.map_id] at hsort

/-- A map that keeps the comparison commutes with the sort. -/
theorem sliceStable_map (less : β → β → Bool) (f : α → β) (l : List α) :
    sliceStable less (l.map f) = (sliceStable (fun a b => less (f a) (f b)) l).map f :=
  (List.map_insertionSort _ _ f l fun _ _ _ _ => Iff.rfl).symm

theorem orderBy_map (before : β → β → Bool) (tie : β → ℕ) (f : α → β) (l : List α) :
    orderBy before tie (l.map f) =
      (orderBy (fun a b => before (f a) (f b)) (fun a => tie (f a)) l).map f :=
  sliceStable_map ..

theorem orderBy_perm (before : α → α → Bool) (tie : α → ℕ) (l : List α) :
    (orderBy before tie l).Perm l := sliceStable_perm ..

theorem mem_orderBy {before : α → α → Bool} {tie : α → ℕ} {l : List α} {a : α} :
    a ∈ orderBy before tie l ↔ a ∈ l := mem_sliceStable

theorem pair_sublist_or {l : List α} {a b : α} (ha : a ∈ l) (hb : b ∈ l) (hab : a ≠ b) :
    [a, b].Sublist l ∨ [b, a].Sublist l := by
  induction l with
  | nil => simp at ha
  | cons x l ih =>
    by_cases hax : a = x
    · subst hax
      have hb' : b ∈ l := (List.mem_cons.mp hb).resolve_left (Ne.symm hab)
      exact .inl (List.cons_sublist_cons.mpr (List.singleton_sublist.mpr hb'))
    · have ha' : a ∈ l := (List.mem_cons.mp ha).resolve_left hax
      by_cases hbx : b = x
      · subst hbx
        exact .inr (List.cons_sublist_cons.mpr (List.singleton_sublist.mpr ha'))
      · have hb' : b ∈ l := (List.mem_cons.mp hb).resolve_left hbx
        exact (ih ha' hb').imp (fun h => h.cons x) fun h => h.cons x

theorem not_pair_sublist {l : List α} {a b : α} (hn : l.Nodup) (h : [a, b].Sublist l) :
    ¬ [b, a].Sublist l := by
  induction l with
  | nil => simp at h
  | cons x l ih =>
    obtain ⟨hx, hn⟩ := List.nodup_cons.mp hn
    intro h'
    rcases List.sublist_cons_iff.mp h with hl | ⟨r, hr, hl⟩
    · rcases List.sublist_cons_iff.mp h' with hl' | ⟨r', hr', hl'⟩
      · exact ih hn hl hl'
      · obtain ⟨rfl, rfl⟩ := List.cons.inj hr'
        exact hx (hl.subset (List.mem_cons_of_mem _ List.mem_cons_self))
    · obtain ⟨rfl, rfl⟩ := List.cons.inj hr
      rcases List.sublist_cons_iff.mp h' with hl' | ⟨r', hr', hl'⟩
      · exact hx (hl'.subset (List.mem_cons_of_mem _ List.mem_cons_self))
      · obtain ⟨rfl, rfl⟩ := List.cons.inj hr'
        exact hx (List.singleton_sublist.mp hl)

/-- Two orders of one list give one sequence exactly when they agree on its elements. -/
theorem eq_iff_of_pairwise {R S : α → α → Prop} {l l' : List α} (hperm : l.Perm l')
    (hR : l.Pairwise R) (hS : l'.Pairwise S) (hRasymm : ∀ a b, R a b → ¬R b a)
    (hSasymm : ∀ a b, S a b → ¬S b a) : l = l' ↔ ∀ a ∈ l, ∀ b ∈ l, R a b → S a b := by
  constructor
  · rintro rfl a ha b hb hab
    have hne : a ≠ b := by
      rintro rfl
      exact hRasymm a a hab hab
    rcases pair_sublist_or ha hb hne with h | h
    · exact List.pairwise_iff_forall_sublist.mp hS h
    · exact absurd (List.pairwise_iff_forall_sublist.mp hR h) (hRasymm a b hab)
  · intro h
    have hlS : l.Pairwise S := hR.imp_of_mem fun ha hb hab => h _ ha _ hb hab
    apply List.Perm.eq_of_pairwise _ hlS hS hperm
    intro a b _ _ hab hba
    exact absurd hba (hSasymm a b hab)

section Keyed
variable [LinearOrder κ] {less : α → α → Bool} {f : α → κ} {l : List α}

theorem less_eq_false (hless : ∀ a b, less a b = true ↔ f a < f b) {a b : α} :
    less b a = false ↔ f a ≤ f b := by
  rw [← not_lt, ← hless, Bool.not_eq_true]

theorem sliceStable_sorted (hless : ∀ a b, less a b = true ↔ f a < f b) :
    (sliceStable less l).Pairwise fun a b => f a ≤ f b := by
  have htotal : Std.Total fun a b => less b a = false :=
    ⟨fun a b => by simp only [less_eq_false hless]; exact le_total (f a) (f b)⟩
  have htrans : IsTrans α fun a b => less b a = false :=
    ⟨fun a b c => by simp only [less_eq_false hless]; exact le_trans⟩
  have h := List.pairwise_insertionSort (fun a b => less b a = false) l
  exact h.imp fun hab => (less_eq_false hless).mp hab

/-- The result is ordered by the key, and elements with one key keep their order. -/
theorem sliceStable_stable (hless : ∀ a b, less a b = true ↔ f a < f b) (hn : l.Nodup) :
    (sliceStable less l).Pairwise fun a b => f a < f b ∨ f a = f b ∧ [a, b].Sublist l := by
  have hperm := sliceStable_perm less l
  have hn' : (sliceStable less l).Nodup := hperm.nodup_iff.mpr hn
  rw [List.pairwise_iff_forall_sublist]
  intro a b hab
  rcases (List.pairwise_iff_forall_sublist.mp (sliceStable_sorted hless) hab).lt_or_eq with
    hlt | heq
  · exact .inl hlt
  refine .inr ⟨heq, ?_⟩
  have hne : a ≠ b := by
    rintro rfl
    simpa using hn'.sublist hab
  have ha : a ∈ l := hperm.subset (hab.subset List.mem_cons_self)
  have hb : b ∈ l := hperm.subset (hab.subset (List.mem_cons_of_mem _ List.mem_cons_self))
  refine (pair_sublist_or ha hb hne).resolve_right fun hba => ?_
  have hba' : [b, a].Sublist (sliceStable less l) :=
    List.pair_sublist_insertionSort ((less_eq_false hless).mpr heq.ge) hba
  exact not_pair_sublist hn' hab hba'

private theorem filter_orderedInsert {r : α → α → Prop} [DecidableRel r] [IsTrans α r]
    (p : α → Bool) (a : α) (hl : l.Pairwise r) : (l.orderedInsert r a).filter p =
      if p a then (l.filter p).orderedInsert r a else l.filter p := by
  induction l with
  | nil => cases hp : p a <;> simp [hp]
  | cons b l ih =>
    obtain ⟨hb, hl⟩ := List.pairwise_cons.mp hl
    rw [List.orderedInsert_cons]
    split
    · next hab =>
      rw [List.filter_cons]
      split
      · -- whatever the filter leaves of the list is not below `a`
        cases hfilter : (b :: l).filter p with
        | nil => rfl
        | cons c cs =>
          have hc : c ∈ b :: l := List.mem_of_mem_filter (hfilter ▸ List.mem_cons_self)
          have hac : r a c := by
            rcases List.mem_cons.mp hc with rfl | hc
            · exact hab
            · exact IsTrans.trans a b c hab (hb c hc)
          rw [List.orderedInsert_cons, if_pos hac]
      · rfl
    · next hab =>
      rw [List.filter_cons, ih hl, List.filter_cons]
      cases hpa : p a with
      | false => simp
      | true =>
        cases hpb : p b with
        | false => simp
        | true => simp [hab]

/-- Filtering commutes with the sort. -/
theorem sliceStable_filter (hless : ∀ a b, less a b = true ↔ f a < f b) (p : α → Bool) :
    (sliceStable less l).filter p = sliceStable less (l.filter p) := by
  have htotal : Std.Total fun a b => less b a = false :=
    ⟨fun a b => by simp only [less_eq_false hless]; exact le_total (f a) (f b)⟩
  have htrans : IsTrans α fun a b => less b a = false :=
    ⟨fun a b c => by simp only [less_eq_false hless]; exact le_trans⟩
  unfold sliceStable
  induction l with
  | nil => rfl
  | cons a l ih =>
    rw [List.insertionSort_cons, filter_orderedInsert p a (List.pairwise_insertionSort _ l), ih,
      List.filter_cons]
    split <;> rfl

/-- ORDER BY compares by the key, then by the tie. -/
theorem orderBy_less {before : α → α → Bool} {tie : α → ℕ}
    (hbefore : ∀ a b, before a b = true ↔ f a < f b) (a b : α) :
    (before a b || !before b a && decide (tie a < tie b)) = true ↔
      toLex (f a, tie a) < toLex (f b, tie b) := by
  rw [Prod.Lex.toLex_lt_toLex, Bool.or_eq_true, hbefore, Bool.and_eq_true, decide_eq_true_eq]
  rcases lt_trichotomy (f a) (f b) with h | h | h
  · simp [h]
  · have hba : before b a = false := by
      rw [← Bool.not_eq_true, hbefore]
      exact h.not_gt
    simp [h, hba]
  · have hba : before b a = true := (hbefore b a).mpr h
    simp [h.not_gt, h.ne', hba]

theorem orderBy_filter {before : α → α → Bool} {tie : α → ℕ}
    (hbefore : ∀ a b, before a b = true ↔ f a < f b) (p : α → Bool) :
    (orderBy before tie l).filter p = orderBy before tie (l.filter p) :=
  sliceStable_filter (f := fun a => toLex (f a, tie a)) (orderBy_less hbefore) p

/-- Rows that the tie tells apart come in strict order. -/
theorem orderBy_sorted {before : α → α → Bool} {tie : α → ℕ}
    (hbefore : ∀ a b, before a b = true ↔ f a < f b) (hn : (l.map tie).Nodup) :
    (orderBy before tie l).Pairwise fun a b => toLex (f a, tie a) < toLex (f b, tie b) := by
  have hsorted : (orderBy before tie l).Pairwise fun a b =>
      toLex (f a, tie a) ≤ toLex (f b, tie b) :=
    sliceStable_sorted (orderBy_less hbefore)
  have hties : ((orderBy before tie l).map tie).Nodup :=
    ((orderBy_perm before tie l).map tie).nodup_iff.mpr hn
  apply (hsorted.and (List.pairwise_map.mp hties)).imp
  rintro a b ⟨hle, hne⟩
  apply lt_of_le_of_ne hle
  intro heq
  exact hne (congrArg (fun key => (ofLex key).2) heq)

/-- A permutation with strictly increasing keys is what the sort returns. -/
theorem sliceStable_eq (hless : ∀ a b, less a b = true ↔ f a < f b) {l' : List α}
    (hperm : l'.Perm l) (hsorted : l'.Pairwise fun a b => f a < f b) :
    sliceStable less l = l' := by
  refine List.Perm.eq_of_pairwise ?_ (sliceStable_sorted hless)
    (hsorted.imp fun h => h.le) ((sliceStable_perm less l).trans hperm.symm)
  intro a b ha hb hab hba
  have ha' : a ∈ l' := hperm.symm.subset (mem_sliceStable.mp ha)
  by_contra hne
  rcases pair_sublist_or ha' hb hne with h | h
  · exact absurd (List.pairwise_iff_forall_sublist.mp hsorted h) (not_lt.mpr hba)
  · exact absurd (List.pairwise_iff_forall_sublist.mp hsorted h) (not_lt.mpr hab)

/-- In a strictly increasing list, a property of the elements below the one at `i` that fails above
it has `i` elements, and one more if it holds there. -/
theorem countP_getElem {p : α → Bool} {i : ℕ} (hsorted : l.Pairwise fun a b => f a < f b)
    (hi : i < l.length) (hlow : ∀ a, f a < f l[i] → p a = true)
    (hhigh : ∀ a, f l[i] < f a → p a = false) :
    l.countP p = i + if p l[i] then 1 else 0 := by
  induction l generalizing i with
  | nil => simp at hi
  | cons a l ih =>
    obtain ⟨ha, hsorted⟩ := List.pairwise_cons.mp hsorted
    rw [List.countP_cons]
    cases i with
    | zero =>
      have hnone : l.countP p = 0 := by
        rw [List.countP_eq_zero]
        intro b hb
        rw [hhigh b (ha b hb)]
        decide
      rw [hnone, List.getElem_cons_zero]
    | succ i =>
      have hi' : i < l.length := Nat.lt_of_succ_lt_succ hi
      rw [List.getElem_cons_succ] at hlow hhigh ⊢
      rw [ih hsorted hi' hlow hhigh, if_pos (hlow a (ha _ (List.getElem_mem hi')))]
      omega

end Keyed

section IndexMap
variable [DecidableEq κ] {key : α → κ} {f : ℕ → β} {l : List α} {k : κ}

private theorem foldl_update_of_notMem (n : ℕ) (m : κ → Option β) (hk : k ∉ l.map key) :
    (l.zipIdx n).foldl (fun out p => Function.update out (key p.1) (some (f p.2))) m k = m k := by
  induction l generalizing n m with
  | nil => rfl
  | cons a l ih =>
    simp only [List.map_cons, List.mem_cons, not_or] at hk
    rw [List.zipIdx_cons, List.foldl_cons, ih _ _ hk.2, Function.update_of_ne hk.1]

private theorem foldl_update_getElem (n : ℕ) (m : κ → Option β) (hn : (l.map key).Nodup) {i : ℕ}
    (hi : i < l.length) :
    (l.zipIdx n).foldl (fun out p => Function.update out (key p.1) (some (f p.2))) m (key l[i]) =
      some (f (n + i)) := by
  induction l generalizing n m i with
  | nil => simp at hi
  | cons a l ih =>
    obtain ⟨ha, hn⟩ := List.nodup_cons.mp hn
    rw [List.zipIdx_cons, List.foldl_cons]
    cases i with
    | zero =>
      rw [List.getElem_cons_zero, foldl_update_of_notMem _ _ ha, Function.update_self]
      rfl
    | succ i =>
      rw [List.getElem_cons_succ, ih (n + 1) _ hn (Nat.lt_of_succ_lt_succ hi)]
      congr 2
      omega

/-- The map only depends on the keys. -/
theorem indexMap_map (g : α → α) (hg : ∀ a, key (g a) = key a) :
    indexMap key f (l.map g) = indexMap key f l := by
  unfold indexMap
  rw [List.zipIdx_map, List.foldl_map]
  simp only [Prod.map_fst, Prod.map_snd, hg, id_eq]

theorem indexMap_of_notMem (hk : k ∉ l.map key) : indexMap key f l k = none :=
  foldl_update_of_notMem 0 _ hk

theorem indexMap_getElem (hn : (l.map key).Nodup) {i : ℕ} (hi : i < l.length) :
    indexMap key f l (key l[i]) = some (f i) := by
  have h := foldl_update_getElem (f := f) 0 (fun _ => none) hn hi
  rwa [Nat.zero_add] at h

theorem indexMap_isSome (hn : (l.map key).Nodup) : (indexMap key f l k).isSome ↔ k ∈ l.map key := by
  constructor
  · intro h
    by_contra hk
    rw [indexMap_of_notMem hk] at h
    contradiction
  · intro hk
    obtain ⟨a, ha, rfl⟩ := List.mem_map.mp hk
    obtain ⟨i, hi, rfl⟩ := List.getElem_of_mem ha
    rw [indexMap_getElem hn hi]
    rfl

end IndexMap
end OneBrc.Lib.StableSort
