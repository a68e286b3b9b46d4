import OneBrc.Analyzer.MphBuckets

/-! The slots that `build_mph` gives to the ids of each bucket. -/
namespace OneBrc.Analyzer.Mph
open Lib OpenAddressing FixedArray

/-- The arrays after the counting sort. -/
structure Sorted.IsSorted (s : Sorted) : Prop where
  offsets : ∀ b ≤ bucketCapacity, s.offsets b = before s.hashes b
  items : ∀ b j id, (members s.hashes contestChannels b)[j]? = some id →
    s.items (before s.hashes b + j) = id

/-- The slot of an id with the seed of its bucket. -/
def slotIn (hashes seeds : ℕ → ℕ) (id : ℕ) : ℕ :=
  slotOf (hashes id) (seeds (bucketOf (hashes id)))

/-- What the slots hold of the ids placed so far. -/
structure Placing (hashes seeds : ℕ → ℕ) (done : List ℕ) (p : Placed) : Prop where
  id : ∀ id ∈ done, id < contestChannels
  seed : ∀ id ∈ done, seeds (bucketOf (hashes id)) < 2 ^ 32
  used : ∀ id ∈ done, p.used (slotIn hashes seeds id) = true
  hash : ∀ id ∈ done, p.hash (slotIn hashes seeds id) = hashes id
  found : ∀ id ∈ done, p.ids (slotIn hashes seeds id) = id * 3 + 1 ∨
    p.ids (slotIn hashes seeds id) = marker ∧
      ∃ other ∈ done, other ≠ id ∧ hashes other = hashes id
  origin : ∀ slot, p.used slot = true → ∃ id ∈ done, slotIn hashes seeds id = slot

theorem slotOf_lt (hash seed : ℕ) : slotOf hash seed < slotCapacity := by
  have hlt : hash * seed % 2 ^ 32 < 2 ^ 32 := Nat.mod_lt _ (by decide)
  exact Nat.div_lt_of_lt_mul hlt

section Search
variable {s : Sorted} {offset count : ℕ} {js : List ℕ}

theorem Sorted.IsSorted.item (h : s.IsSorted) {b j id : ℕ}
    (hj : (members s.hashes contestChannels b)[j]? = some id) :
    s.item (before s.hashes b) j = some (id, s.hashes id) := by
  have hplace := place_lt (List.getElem?_eq_some_iff.mp hj).1
  have hid := (mem_members.mp (List.mem_of_getElem? hj)).1
  simp only [Sorted.item, read_of_lt hplace, h.items b j id hj, read_of_lt hid,
    Option.bind_eq_bind, Option.bind_some]

theorem Sorted.IsSorted.bucket (h : s.IsSorted) (b : ℕ) :
    List.Forall₂ (fun j id => s.item (before s.hashes b) j = some (id, s.hashes id))
      (List.range (members s.hashes contestChannels b).length)
      (members s.hashes contestChannels b) := by
  rw [List.forall₂_iff_get]
  refine ⟨List.length_range, fun j _ hj => ?_⟩
  rw [List.get_eq_getElem, List.getElem_range, List.get_eq_getElem]
  exact h.item (List.getElem?_eq_getElem hj)

theorem tryItems_isSome (hitems : ∀ j ∈ js, ∃ item, s.item offset j = some item)
    (placed : Placed) (seed generation : ℕ) (t : Trial) :
    ∃ fits t', tryItems s placed offset seed generation js t = some (fits, t') := by
  induction js generalizing t with
  | nil => exact ⟨true, t, rfl⟩
  | cons j js ih =>
    obtain ⟨⟨⟨id, hash⟩, hitem⟩, hrest⟩ := List.forall_mem_cons.mp hitems
    have hslot := slotOf_lt hash seed
    simp only [tryItems, hitem, read_of_lt hslot, write_of_lt hslot, Option.bind_eq_bind,
      Option.bind_some]
    split_ifs
    · exact ⟨false, t, rfl⟩
    · exact ⟨false, t, rfl⟩
    · exact ih hrest _

/-- Which seed is found does not matter, as long as it is one of those tried. -/
theorem searchSeed_spec (hitems : ∀ j < count, ∃ item, s.item offset j = some item)
    (placed : Placed) (attempts : List ℕ) (generation : ℕ) (t : Trial) :
    ∃ found generation' t',
      searchSeed s placed offset count attempts generation t = some (found, generation', t') ∧
      ∀ seed, found = some seed → ∃ attempt ∈ attempts, seed = attempt * 2 + 1 := by
  induction attempts generalizing generation t with
  | nil => exact ⟨none, generation, t, rfl, nofun⟩
  | cons attempt attempts ih =>
    obtain ⟨fits, t', htry⟩ := tryItems_isSome (fun j hj => hitems j (List.mem_range.mp hj))
      placed (attempt * 2 + 1) ((generation + 1) % 2 ^ 32) t
    rw [searchSeed, htry]
    cases fits with
    | true =>
      refine ⟨_, _, _, rfl, fun seed hseed => ⟨attempt, List.mem_cons_self, ?_⟩⟩
      exact (Option.some.inj hseed).symm
    | false =>
      obtain ⟨found, generation', t'', hrun, hfound⟩ := ih ((generation + 1) % 2 ^ 32) t'
      refine ⟨found, generation', t'', hrun, fun seed hseed => ?_⟩
      obtain ⟨attempt', hmem, heq⟩ := hfound seed hseed
      exact ⟨attempt', List.mem_cons_of_mem _ hmem, heq⟩

end Search

namespace Placing
variable {hashes seeds : ℕ → ℕ} {done : List ℕ} {p : Placed} {id : ℕ}

/-- The seed of a bucket without placed ids does not matter. -/
theorem update (h : Placing hashes seeds done p) {bucket : ℕ}
    (hbucket : ∀ id ∈ done, bucketOf (hashes id) ≠ bucket) (seed : ℕ) :
    Placing hashes (Function.update seeds bucket seed) done p := by
  have hseed (id : ℕ) (hid : id ∈ done) :
      Function.update seeds bucket seed (bucketOf (hashes id)) = seeds (bucketOf (hashes id)) :=
    Function.update_of_ne (hbucket id hid) ..
  have hslot (id : ℕ) (hid : id ∈ done) :
      slotIn hashes (Function.update seeds bucket seed) id = slotIn hashes seeds id := by
    rw [slotIn, hseed id hid, slotIn]
  exact {
    id := h.id
    seed := fun id hid => (hseed id hid).symm ▸ h.seed id hid
    used := fun id hid => (hslot id hid).symm ▸ h.used id hid
    hash := fun id hid => (hslot id hid).symm ▸ h.hash id hid
    found := fun id hid => (hslot id hid).symm ▸ h.found id hid
    origin := by
      intro slot hused
      obtain ⟨id, hid, rfl⟩ := h.origin slot hused
      exact ⟨id, hid, hslot id hid⟩ }

theorem mem_or_eq {id' : ℕ} (h : id' ∈ done ++ [id]) : id' ∈ done ∨ id' = id :=
  (List.mem_append.mp h).imp_right List.mem_singleton.mp

/-- An id put into a free slot. -/
theorem place (h : Placing hashes seeds done p) (hid : id < contestChannels)
    (hseed : seeds (bucketOf (hashes id)) < 2 ^ 32)
    (hfree : p.used (slotIn hashes seeds id) = false) :
    Placing hashes seeds (done ++ [id])
      ⟨Function.update p.used (slotIn hashes seeds id) true,
        Function.update p.hash (slotIn hashes seeds id) (hashes id),
        Function.update p.ids (slotIn hashes seeds id) (id * 3 + 1)⟩ := by
  have hother (id' : ℕ) (hid' : id' ∈ done) : slotIn hashes seeds id' ≠ slotIn hashes seeds id := by
    intro heq
    have hused := h.used id' hid'
    rw [heq, hfree] at hused
    cases hused
  exact {
    id := by
      intro id' hid'
      rcases mem_or_eq hid' with hold | rfl
      · exact h.id id' hold
      · exact hid
    seed := by
      intro id' hid'
      rcases mem_or_eq hid' with hold | rfl
      · exact h.seed id' hold
      · exact hseed
    used := by
      intro id' hid'
      rcases mem_or_eq hid' with hold | rfl
      · exact (Function.update_of_ne (hother id' hold) ..).trans (h.used id' hold)
      · exact Function.update_self ..
    hash := by
      intro id' hid'
      rcases mem_or_eq hid' with hold | rfl
      · exact (Function.update_of_ne (hother id' hold) ..).trans (h.hash id' hold)
      · exact Function.update_self ..
    found := by
      intro id' hid'
      rcases mem_or_eq hid' with hold | rfl
      · dsimp only
        rw [Function.update_of_ne (hother id' hold)]
        rcases h.found id' hold with hid | ⟨hmark, other, hmem, hne, hhash⟩
        · exact Or.inl hid
        · exact Or.inr ⟨hmark, other, List.mem_append_left _ hmem, hne, hhash⟩
      · exact Or.inl (Function.update_self ..)
    origin := by
      intro slot hused
      rcases eq_or_ne slot (slotIn hashes seeds id) with rfl | hne
      · exact ⟨id, List.mem_concat_self, rfl⟩
      · dsimp only at hused
        rw [Function.update_of_ne hne] at hused
        obtain ⟨id', hid', heq⟩ := h.origin slot hused
        exact ⟨id', List.mem_append_left _ hid', heq⟩ }

/-- An id whose hash has a slot already. -/
theorem mark (h : Placing hashes seeds done p) (hid : id < contestChannels)
    (hseed : seeds (bucketOf (hashes id)) < 2 ^ 32) (hnew : id ∉ done)
    (hused : p.used (slotIn hashes seeds id) = true)
    (hhash : p.hash (slotIn hashes seeds id) = hashes id) :
    Placing hashes seeds (done ++ [id])
      { p with ids := Function.update p.ids (slotIn hashes seeds id) marker } := by
  exact {
    id := by
      intro id' hid'
      rcases mem_or_eq hid' with hold | rfl
      · exact h.id id' hold
      · exact hid
    seed := by
      intro id' hid'
      rcases mem_or_eq hid' with hold | rfl
      · exact h.seed id' hold
      · exact hseed
    used := by
      intro id' hid'
      rcases mem_or_eq hid' with hold | rfl
      · exact h.used id' hold
      · exact hused
    hash := by
      intro id' hid'
      rcases mem_or_eq hid' with hold | rfl
      · exact h.hash id' hold
      · exact hhash
    found := by
      intro id' hid'
      dsimp only
      rcases mem_or_eq hid' with hold | rfl
      · have hne : id ≠ id' := fun heq => hnew (heq ▸ hold)
        rcases eq_or_ne (slotIn hashes seeds id') (slotIn hashes seeds id) with heq | hother
        · refine Or.inr ⟨by rw [heq, Function.update_self], id, List.mem_concat_self, hne, ?_⟩
          rw [← hhash, ← heq, h.hash id' hold]
        · rw [Function.update_of_ne hother]
          rcases h.found id' hold with hid | ⟨hmark, other, hmem, hne', hsame⟩
          · exact Or.inl hid
          · exact Or.inr ⟨hmark, other, List.mem_append_left _ hmem, hne', hsame⟩
      · obtain ⟨first, hfirst, hslot⟩ := h.origin _ hused
        refine Or.inr ⟨Function.update_self .., first, List.mem_append_left _ hfirst,
          fun heq => hnew (heq ▸ hfirst), ?_⟩
        rw [← h.hash first hfirst, hslot, hhash]
    origin := by
      intro slot hslot
      obtain ⟨id', hid', heq⟩ := h.origin slot hslot
      exact ⟨id', List.mem_append_left _ hid', heq⟩ }

end Placing

theorem channel_lt {id : ℕ} (hid : id < contestChannels) : id * 3 + 1 < marker := by
  have hle : id < 10000 := hid
  have hmarker : marker = 65535 := rfl
  omega

section Place
variable {s : Sorted} {hashes seeds : ℕ → ℕ} {done : List ℕ} {p : Placed}

/-- A bucket whose items all find their slots. -/
theorem placeItems_spec {offset seed : ℕ} {js ids : List ℕ} (h : Placing hashes seeds done p)
    (hitems : List.Forall₂ (fun j id => s.item offset j = some (id, hashes id)) js ids)
    (hids : ∀ id ∈ ids, id < contestChannels ∧ seeds (bucketOf (hashes id)) = seed)
    (hseed : seed < 2 ^ 32) (hnodup : ids.Nodup) (hnew : ∀ id ∈ ids, id ∉ done) :
    ∃ fits p', placeItems s offset seed js p = some (fits, p') ∧
      (fits = true → Placing hashes seeds (done ++ ids) p') := by
  induction hitems generalizing done p with
  | nil => exact ⟨true, p, rfl, fun _ => (List.append_nil done).symm ▸ h⟩
  | @cons j id js ids hitem _ ih =>
    obtain ⟨⟨hid, hbucket⟩, hrest⟩ := List.forall_mem_cons.mp hids
    obtain ⟨hnotMem, hnodup⟩ := List.nodup_cons.mp hnodup
    obtain ⟨hdone, hnew⟩ := List.forall_mem_cons.mp hnew
    have hslot := slotOf_lt (hashes id) seed
    have hslotIn : slotOf (hashes id) seed = slotIn hashes seeds id := by rw [slotIn, hbucket]
    have hnext (id' : ℕ) (hid' : id' ∈ ids) : id' ∉ done ++ [id] := by
      intro hmem
      rcases List.mem_append.mp hmem with hold | hself
      · exact hnew id' hid' hold
      · exact hnotMem (List.mem_singleton.mp hself ▸ hid')
    have hmod : (id * 3 + 1) % 2 ^ 16 = id * 3 + 1 :=
      Nat.mod_eq_of_lt (Nat.lt_succ_of_lt (channel_lt hid))
    simp only [placeItems, hitem, read_of_lt hslot, write_of_lt hslot, hmod,
      Option.bind_eq_bind, Option.bind_some]
    rw [List.append_cons]
    cases hused : p.used (slotOf (hashes id) seed) with
    | true =>
      rw [if_pos rfl]
      by_cases hhash : p.hash (slotOf (hashes id) seed) = hashes id
      · rw [if_neg (not_not_intro hhash)]
        rw [hslotIn] at hused hhash ⊢
        exact ih (h.mark hid (hbucket ▸ hseed) hdone hused hhash) hrest hnodup hnext
      · rw [if_pos hhash]
        exact ⟨false, p, rfl, fun hfits => by cases hfits⟩
    | false =>
      rw [if_neg Bool.false_ne_true]
      rw [hslotIn] at hused ⊢
      exact ih (h.place hid (hbucket ▸ hseed) hused) hrest hnodup hnext

/-- The search in a bucket ends, and what it finds is a seed of 32 bits. -/
theorem searchBucket (hs : s.IsSorted) {bucket count : ℕ}
    (hcount : count = (members s.hashes contestChannels bucket).length) (generation : ℕ)
    (t : Trial) : ∃ found generation' t', searchSeed s p (before s.hashes bucket) count
      (List.range 4096) generation t = some (found, generation', t') ∧
      ∀ seed, found = some seed → seed < 2 ^ 32 := by
  have hitems (j : ℕ) (hj : j < count) : ∃ item, s.item (before s.hashes bucket) j =
      some item := by
    rw [hcount] at hj
    exact ⟨_, hs.item (List.getElem?_eq_getElem hj)⟩
  obtain ⟨found, generation', t', hsearch, hfound⟩ :=
    searchSeed_spec hitems p (List.range 4096) generation t
  refine ⟨found, generation', t', hsearch, fun seed hseed => ?_⟩
  obtain ⟨attempt, hattempt, rfl⟩ := hfound seed hseed
  have hlt := List.mem_range.mp hattempt
  omega

/-- The members of a bucket placed behind those of others. -/
theorem placeBucket (hs : s.IsSorted) (h : Placing s.hashes seeds done p) {bucket count : ℕ}
    (hcount : count = (members s.hashes contestChannels bucket).length)
    (hold : ∀ id ∈ done, bucketOf (s.hashes id) ≠ bucket) {seed : ℕ} (hseed : seed < 2 ^ 32) :
    ∃ fits p', placeItems s (before s.hashes bucket) seed (List.range count) p = some (fits, p') ∧
      (fits = true → Placing s.hashes (Function.update seeds bucket seed)
        (done ++ members s.hashes contestChannels bucket) p') := by
  have hitems : List.Forall₂
      (fun j id => s.item (before s.hashes bucket) j = some (id, s.hashes id))
      (List.range count) (members s.hashes contestChannels bucket) := by
    rw [hcount]
    exact hs.bucket bucket
  apply placeItems_spec (h.update hold seed) hitems _ hseed nodup_members
  · exact fun id hid hmem => hold id hmem (mem_members.mp hid).2
  · intro id hid
    obtain ⟨hlt, hbucket⟩ := mem_members.mp hid
    exact ⟨hlt, by rw [hbucket, Function.update_self]⟩

/-- Behind an empty bucket all are empty. -/
theorem members_eq_nil {bucket count : ℕ} {order : List (ℕ × ℕ)}
    (horder : ∀ x ∈ (bucket, count) :: order,
      x.2 = (members hashes contestChannels x.1).length)
    (hle : ∀ x ∈ order, x.2 ≤ count) (hzero : count = 0) :
    ∀ x ∈ (bucket, count) :: order, members hashes contestChannels x.1 = [] := by
  intro x hx
  apply List.length_eq_zero_iff.mp
  rw [← horder x hx]
  rcases List.mem_cons.mp hx with rfl | hx
  · exact hzero
  · exact Nat.le_zero.mp (hzero ▸ hle x hx)

/-- All buckets, of which those behind the first empty one are empty. -/
theorem placeBuckets_spec (hs : s.IsSorted) {order : List (ℕ × ℕ)} {b : Building}
    (hbuckets : ∀ x ∈ order, x.1 < bucketCapacity)
    (horder : ∀ x ∈ order, x.2 = (members s.hashes contestChannels x.1).length)
    (hsorted : order.Pairwise fun x y => y.2 ≤ x.2) (hnodup : (order.map Prod.fst).Nodup)
    (hplacing : Placing s.hashes b.seeds done b.placed)
    (hdone : ∀ id ∈ done, bucketOf (s.hashes id) ∉ order.map Prod.fst) :
    ∃ r, placeBuckets s order b = some r ∧ ∀ b', r = some b' →
      ∃ done', Placing s.hashes b'.seeds done' b'.placed ∧ (∀ id ∈ done, id ∈ done') ∧
        ∀ x ∈ order, ∀ id ∈ members s.hashes contestChannels x.1, id ∈ done' := by
  induction order generalizing b done with
  | nil =>
    refine ⟨some b, rfl, fun b' hb' => ⟨done, ?_, fun id hid => hid, nofun⟩⟩
    rwa [← Option.some.inj hb']
  | cons x order ih =>
    obtain ⟨bucket, count⟩ := x
    obtain ⟨hbucket, hbuckets⟩ := List.forall_mem_cons.mp hbuckets
    obtain ⟨hcount, hrest⟩ := List.forall_mem_cons.mp horder
    obtain ⟨hle, hsorted⟩ := List.pairwise_cons.mp hsorted
    rw [List.map_cons] at hnodup hdone
    obtain ⟨hfirst, hnodup⟩ := List.nodup_cons.mp hnodup
    dsimp only at hbucket hcount hle hfirst
    rw [placeBuckets]
    by_cases hzero : count = 0
    · have hnil := members_eq_nil horder hle hzero
      rw [if_pos hzero]
      refine ⟨some b, rfl, fun b' hb' => ⟨done, ?_, fun id hid => hid, fun x hx id hid => ?_⟩⟩
      · rwa [← Option.some.inj hb']
      · rw [hnil x hx] at hid
        cases hid
    · have hold (id : ℕ) (hid : id ∈ done) : bucketOf (s.hashes id) ≠ bucket :=
        fun heq => hdone id hid (heq ▸ List.mem_cons_self)
      obtain ⟨found, generation, trial, hsearch, hfound⟩ :=
        searchBucket (p := b.placed) hs hcount b.generation b.trial
      rw [if_neg hzero, read_of_lt (Nat.lt_succ_of_lt hbucket),
        hs.offsets bucket (Nat.le_of_lt hbucket)]
      simp only [Option.bind_eq_bind, Option.bind_some, hsearch]
      cases found with
      | none => exact ⟨none, rfl, nofun⟩
      | some seed =>
        obtain ⟨fits, placed, hplace, hfits⟩ :=
          placeBucket hs hplacing hcount hold (hfound seed rfl)
        simp only [hplace, Option.bind_some]
        cases fits with
        | false => exact ⟨none, rfl, nofun⟩
        | true =>
          rw [if_pos rfl, write_of_lt hbucket]
          simp only [Option.bind_some]
          obtain ⟨r, hrun, hr⟩ := ih (b := ⟨generation, trial, placed,
            Function.update b.seeds bucket seed⟩) hbuckets hrest hsorted hnodup (hfits rfl) (by
              intro id hid
              rcases List.mem_append.mp hid with hid | hid
              · exact fun hmem => hdone id hid (List.mem_cons_of_mem _ hmem)
              · rw [(mem_members.mp hid).2]
                exact hfirst)
          refine ⟨r, hrun, fun b' hb' => ?_⟩
          obtain ⟨done', hplacing', hkept, hmembers⟩ := hr b' hb'
          refine ⟨done', hplacing', fun id hid => hkept id (List.mem_append_left _ hid), ?_⟩
          intro x hx id hid
          rcases List.mem_cons.mp hx with rfl | hx
          · exact hkept id (List.mem_append_right _ hid)
          · exact hmembers x hx id hid

theorem checkIds_isSome {ids : ℕ → ℕ} {xs : List ℕ} (hxs : ∀ id ∈ xs, id < contestChannels) :
    ∃ correct, checkIds hashes seeds ids xs = some correct := by
  induction xs with
  | nil => exact ⟨true, rfl⟩
  | cons id xs ih =>
    obtain ⟨hid, hrest⟩ := List.forall_mem_cons.mp hxs
    simp only [checkIds, read_of_lt hid, read_of_lt (bucketOf_lt (hashes id)),
      read_of_lt (slotOf_lt ..), Option.bind_eq_bind, Option.bind_some]
    split_ifs
    · exact ⟨false, rfl⟩
    · exact ih hrest

end Place

end OneBrc.Analyzer.Mph
