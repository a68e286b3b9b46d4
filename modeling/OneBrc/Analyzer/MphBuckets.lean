import Mathlib.Data.List.Induction
import OneBrc.Analyzer.Mph

/-! The counting sort of `build_mph`: each bucket holds the ids whose hashes fall into it. -/
namespace OneBrc.Analyzer.Mph
open Lib OpenAddressing FixedArray

/-- The first `n` ids that fall into a bucket. -/
def members (hashes : ℕ → ℕ) (n b : ℕ) : List ℕ :=
  (List.range n).filter fun id => bucketOf (hashes id) = b

/-- The number of ids in the buckets before one. -/
def before (hashes : ℕ → ℕ) (b : ℕ) : ℕ :=
  ((List.range contestChannels).filter fun id => bucketOf (hashes id) < b).length

section Counts
variable {hashes : ℕ → ℕ} {n b c id j k : ℕ}

theorem bucketOf_lt (hash : ℕ) : bucketOf hash < bucketCapacity := Nat.mod_lt _ (by decide)

theorem channels_lt : contestChannels < 2 ^ 16 := by decide

theorem mem_members : id ∈ members hashes n b ↔ id < n ∧ bucketOf (hashes id) = b := by
  rw [members, List.mem_filter, List.mem_range, decide_eq_true_iff]

theorem nodup_members : (members hashes n b).Nodup := List.nodup_range.filter _

theorem members_succ : members hashes (n + 1) b =
    members hashes n b ++ if bucketOf (hashes n) = b then [n] else [] := by
  rw [members, List.range_succ, List.filter_append, List.filter_singleton, members]
  by_cases hb : bucketOf (hashes n) = b
  · rw [if_pos hb, decide_eq_true hb, cond_true]
  · rw [if_neg hb, decide_eq_false hb, cond_false]

theorem length_members_le (h : n ≤ contestChannels) :
    (members hashes n b).length ≤ (members hashes contestChannels b).length :=
  ((List.range_sublist.mpr h).filter _).length_le

theorem before_succ :
    before hashes (b + 1) = before hashes b + (members hashes contestChannels b).length := by
  have hsplit (xs : List ℕ) : (xs.filter fun id => bucketOf (hashes id) < b + 1).length =
      (xs.filter fun id => bucketOf (hashes id) < b).length +
        (xs.filter fun id => bucketOf (hashes id) = b).length := by
    rw [← List.countP_eq_length_filter, ← List.countP_eq_length_filter,
      ← List.countP_eq_length_filter]
    induction xs with
    | nil => rfl
    | cons id xs ih =>
      rw [List.countP_cons, List.countP_cons, List.countP_cons, ih]
      simp only [decide_eq_true_eq]
      split_ifs <;> omega
  exact hsplit _

theorem before_mono (h : b ≤ c) : before hashes b ≤ before hashes c := by
  induction h with
  | refl => exact Nat.le_refl _
  | step _ ih =>
    rw [before_succ]
    exact Nat.le_add_right_of_le ih

theorem before_le : before hashes b ≤ contestChannels := by
  have hle : before hashes b ≤ (List.range contestChannels).length := List.length_filter_le _ _
  rwa [List.length_range] at hle

/-- The places of a bucket are in the array of the items. -/
theorem place_lt (hj : j < (members hashes contestChannels b).length) :
    before hashes b + j < contestChannels := by
  have hnext : before hashes (b + 1) ≤ contestChannels := before_le
  rw [before_succ] at hnext
  omega

/-- Places of different buckets are different. -/
theorem place_inj (hj : j < (members hashes contestChannels b).length)
    (hk : k < (members hashes contestChannels c).length)
    (h : before hashes b + j = before hashes c + k) : b = c ∧ j = k := by
  rcases lt_trichotomy b c with hlt | rfl | hlt
  · have hmono : before hashes (b + 1) ≤ before hashes c := before_mono hlt
    rw [before_succ] at hmono
    omega
  · exact ⟨rfl, by omega⟩
  · have hmono : before hashes (c + 1) ≤ before hashes b := before_mono hlt
    rw [before_succ] at hmono
    omega

end Counts

section Steps
variable {hashes counts : ℕ → ℕ} {s : (ℕ → ℕ) × (ℕ → ℕ)}

theorem countEntry_some {e : Entry} (hid : e.id.toNat < contestChannels) :
    countEntry s (some e) = some (Function.update s.1 e.id.toNat e.hash.toNat,
      Function.update s.2 (bucketOf e.hash.toNat)
        ((s.2 (bucketOf e.hash.toNat) + 1) % 2 ^ 16)) := by
  have hb := bucketOf_lt e.hash.toNat
  simp only [countEntry, write_of_lt hid, read_of_lt hb, write_of_lt hb, Option.bind_eq_bind,
    Option.bind_some]

theorem addOffset_eq {b : ℕ} (hb : b < bucketCapacity) :
    addOffset counts s b = some (Function.update s.1 (b + 1) ((s.1 b + counts b) % 2 ^ 16),
      Function.update s.2 b (s.1 b)) := by
  simp only [addOffset, read_of_lt (Nat.lt_succ_of_lt hb), read_of_lt hb,
    write_of_lt (Nat.succ_lt_succ hb), write_of_lt hb, Option.bind_eq_bind, Option.bind_some]

theorem addItem_eq {id : ℕ} (hid : id < contestChannels)
    (hplace : s.2 (bucketOf (hashes id)) < contestChannels) :
    addItem hashes s id = some (Function.update s.1 (s.2 (bucketOf (hashes id))) id,
      Function.update s.2 (bucketOf (hashes id))
        ((s.2 (bucketOf (hashes id)) + 1) % 2 ^ 16)) := by
  have hb := bucketOf_lt (hashes id)
  simp only [addItem, read_of_lt hid, read_of_lt hb, write_of_lt hplace, write_of_lt hb,
    Option.bind_eq_bind, Option.bind_some]

end Steps

section Loops
variable {hashes counts : ℕ → ℕ}

/-- The hashes by their ids, and the number of entries in each bucket. -/
theorem countEntries {es : List (Option Entry)} (hashes₀ : ℕ → ℕ)
    (hids : (es.reduceOption.map fun e => e.id.toNat).Nodup)
    (hlt : ∀ e ∈ es.reduceOption, e.id.toNat < contestChannels)
    (hlength : es.reduceOption.length < 2 ^ 16) : ∃ hashes counts,
      es.foldlM countEntry (hashes₀, fun _ => 0) = some (hashes, counts) ∧
      (∀ e ∈ es.reduceOption, hashes e.id.toNat = e.hash.toNat) ∧
      ∀ b, counts b = (es.reduceOption.filter fun e => bucketOf e.hash.toNat = b).length := by
  induction es using List.reverseRecOn with
  | nil => exact ⟨hashes₀, fun _ => 0, rfl, nofun, fun _ => rfl⟩
  | append_singleton es e ih =>
    cases e with
    | none =>
      have hnone : (es ++ [none]).reduceOption = es.reduceOption := by
        rw [List.reduceOption_append, List.reduceOption_singleton]
        exact List.append_nil _
      rw [hnone] at hids hlt hlength ⊢
      obtain ⟨hashes, counts, hrun, hhashes, hcounts⟩ := ih hids hlt hlength
      refine ⟨hashes, counts, ?_, hhashes, hcounts⟩
      rw [List.foldlM_append, hrun]
      rfl
    | some e =>
      have hsome : (es ++ [some e]).reduceOption = es.reduceOption ++ [e] :=
        List.reduceOption_append ..
      rw [hsome] at hids hlt hlength ⊢
      rw [List.map_append, List.nodup_append] at hids
      rw [List.length_append, List.length_singleton] at hlength
      obtain ⟨hashes, counts, hrun, hhashes, hcounts⟩ := ih hids.1
        (fun e he => hlt e (List.mem_append_left _ he)) (Nat.lt_of_succ_lt hlength)
      have hcount : counts (bucketOf e.hash.toNat) + 1 < 2 ^ 16 := by
        have hle : counts (bucketOf e.hash.toNat) ≤ es.reduceOption.length := by
          rw [hcounts]
          exact List.length_filter_le _ _
        omega
      refine ⟨Function.update hashes e.id.toNat e.hash.toNat, Function.update counts
        (bucketOf e.hash.toNat) (counts (bucketOf e.hash.toNat) + 1), ?_, fun e' he' => ?_,
        fun b => ?_⟩
      · rw [List.foldlM_append, hrun]
        change List.foldlM countEntry (hashes, counts) [some e] = _
        rw [List.foldlM_cons, countEntry_some (hlt e List.mem_concat_self),
          Nat.mod_eq_of_lt hcount]
        rfl
      · rcases List.mem_append.mp he' with hold | hnew
        · have hne : e'.id.toNat ≠ e.id.toNat :=
            hids.2.2 _ (List.mem_map_of_mem hold) _ (List.mem_singleton_self _)
          rw [Function.update_of_ne hne, hhashes e' hold]
        · obtain rfl := List.mem_singleton.mp hnew
          rw [Function.update_self]
      · rw [List.filter_append, List.length_append, List.filter_singleton]
        by_cases hb : bucketOf e.hash.toNat = b
        · rw [decide_eq_true hb, cond_true, hb, Function.update_self, hcounts,
            List.length_singleton]
        · rw [decide_eq_false hb, cond_false, Function.update_of_ne (Ne.symm hb), hcounts,
            List.length_nil, Nat.add_zero]

/-- Each bucket starts behind the buckets before it. -/
theorem addOffsets (offsets₀ cursor₀ : ℕ → ℕ) (hzero : offsets₀ 0 = 0)
    (hcounts : ∀ b, counts b = (members hashes contestChannels b).length) {n : ℕ}
    (hn : n ≤ bucketCapacity) : ∃ offsets cursor,
      (List.range n).foldlM (addOffset counts) (offsets₀, cursor₀) = some (offsets, cursor) ∧
      (∀ b ≤ n, offsets b = before hashes b) ∧ ∀ b < n, cursor b = before hashes b := by
  induction n with
  | zero =>
    refine ⟨offsets₀, cursor₀, rfl, fun b hb => ?_, fun b hb => absurd hb (Nat.not_lt_zero b)⟩
    have hnone : before hashes 0 = 0 := by simp [before]
    obtain rfl := Nat.le_zero.mp hb
    rw [hzero, hnone]
  | succ n ih =>
    obtain ⟨offsets, cursor, hrun, hoffsets, hcursor⟩ := ih (Nat.le_of_succ_le hn)
    have hoffset := hoffsets n (Nat.le_refl n)
    have hsucc : (offsets n + counts n) % 2 ^ 16 = before hashes (n + 1) := by
      have hle : before hashes (n + 1) ≤ contestChannels := before_le
      rw [hoffset, hcounts, ← before_succ]
      exact Nat.mod_eq_of_lt (Nat.lt_of_le_of_lt hle channels_lt)
    refine ⟨Function.update offsets (n + 1) (before hashes (n + 1)),
      Function.update cursor n (before hashes n), ?_, fun b hb => ?_, fun b hb => ?_⟩
    · rw [List.range_succ, List.foldlM_append, hrun]
      change List.foldlM (addOffset counts) (offsets, cursor) [n] = _
      rw [List.foldlM_cons, addOffset_eq hn]
      dsimp only
      rw [hsucc, hoffset]
      rfl
    · rcases Nat.lt_or_ge n b with hlt | hge
      · obtain rfl : b = n + 1 := Nat.le_antisymm hb hlt
        rw [Function.update_self]
      · rw [Function.update_of_ne (by omega), hoffsets b hge]
    · rcases Nat.lt_or_ge b n with hlt | hge
      · rw [Function.update_of_ne (by omega), hcursor b hlt]
      · obtain rfl : b = n := Nat.le_antisymm (Nat.le_of_lt_succ hb) hge
        rw [Function.update_self]

/-- Each id comes behind the ids before it in its bucket. -/
theorem addItems (items₀ : ℕ → ℕ) {cursor₀ : ℕ → ℕ}
    (hcursor₀ : ∀ b < bucketCapacity, cursor₀ b = before hashes b) {n : ℕ}
    (hn : n ≤ contestChannels) : ∃ items cursor,
      (List.range n).foldlM (addItem hashes) (items₀, cursor₀) = some (items, cursor) ∧
      (∀ b < bucketCapacity, cursor b = before hashes b + (members hashes n b).length) ∧
      ∀ b j id, (members hashes n b)[j]? = some id → items (before hashes b + j) = id := by
  induction n with
  | zero =>
    have hnil (b : ℕ) : (members hashes 0 b).length = 0 := rfl
    refine ⟨items₀, cursor₀, rfl, fun b hb => ?_, nofun⟩
    rw [hnil, Nat.add_zero, hcursor₀ b hb]
  | succ n ih =>
    obtain ⟨items, cursor, hrun, hcursor, hitems⟩ := ih (Nat.le_of_succ_le hn)
    have hb := bucketOf_lt (hashes n)
    have hself : members hashes (n + 1) (bucketOf (hashes n)) =
        members hashes n (bucketOf (hashes n)) ++ [n] := by
      rw [members_succ, if_pos rfl]
    -- the place is free, as the bucket is not full before the id
    have hroom : (members hashes n (bucketOf (hashes n))).length <
        (members hashes contestChannels (bucketOf (hashes n))).length := by
      have hle : (members hashes (n + 1) (bucketOf (hashes n))).length ≤
          (members hashes contestChannels (bucketOf (hashes n))).length := length_members_le hn
      rw [hself, List.length_append] at hle
      exact hle
    have hplace := place_lt hroom
    have hnext := Nat.lt_of_le_of_lt hplace channels_lt
    refine ⟨Function.update items (cursor (bucketOf (hashes n))) n, Function.update cursor
      (bucketOf (hashes n)) (cursor (bucketOf (hashes n)) + 1), ?_, fun b hb' => ?_,
      fun b j id hj => ?_⟩
    · rw [← hcursor _ hb] at hplace hnext
      rw [List.range_succ, List.foldlM_append, hrun]
      change List.foldlM (addItem hashes) (items, cursor) [n] = _
      rw [List.foldlM_cons, addItem_eq hn hplace, Nat.mod_eq_of_lt hnext]
      rfl
    · rcases eq_or_ne b (bucketOf (hashes n)) with rfl | hne
      · rw [Function.update_self, hcursor _ hb, hself, List.length_append, List.length_singleton,
          Nat.add_assoc]
      · rw [Function.update_of_ne hne, hcursor b hb', members_succ, if_neg hne.symm,
          List.append_nil]
    · have hjlt := (List.getElem?_eq_some_iff.mp hj).1
      rw [hcursor _ hb]
      rcases eq_or_ne (before hashes b + j) (before hashes (bucketOf (hashes n)) +
        (members hashes n (bucketOf (hashes n))).length) with heq | hne
      · obtain ⟨rfl, rfl⟩ :=
          place_inj (Nat.lt_of_lt_of_le hjlt (length_members_le hn)) hroom heq
        rw [hself, List.getElem?_concat_length] at hj
        rw [Function.update_self]
        exact Option.some.inj hj
      · rw [Function.update_of_ne hne]
        apply hitems b
        rw [members_succ] at hj
        rcases eq_or_ne (bucketOf (hashes n)) b with rfl | hother
        · rw [if_pos rfl] at hj
          rw [hself, List.length_append, List.length_singleton] at hjlt
          rwa [List.getElem?_append_left (by omega)] at hj
        · rwa [if_neg hother, List.append_nil] at hj

end Loops

end OneBrc.Analyzer.Mph
