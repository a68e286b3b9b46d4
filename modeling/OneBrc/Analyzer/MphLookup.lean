import OneBrc.Analyzer.MphMap
import OneBrc.Analyzer.MphPlacement

/-! What a lookup finds in the tables of `build_mph`. -/
namespace OneBrc.Analyzer.Mph
open Lib OpenAddressing FixedArray

section Overlay
variable (d : Dictionary) (seeds ids : ℕ → ℕ)

/-- The seeds are read back. -/
theorem mphSeed_overlay {b : ℕ} (hb : b < bucketCapacity) (hseed : seeds b < 2 ^ 32) :
    ({ d with fastIds := overlay seeds ids d.fastIds } : Dictionary).mphSeed b =
      some (seeds b) := by
  have hb' : b < 1024 := hb
  have hcapacity : fastCapacity = 262144 := rfl
  have hlow : overlay seeds ids d.fastIds (2 * b) = seeds b % 2 ^ 16 := by
    have hhalf : 2 * b / 2 = b := by omega
    have hrest : 2 * b % 2 = 0 := by omega
    rw [overlay, if_pos (Nat.mul_lt_mul_of_pos_left hb (by decide)), hhalf, hrest, Nat.mul_zero,
      pow_zero, Nat.div_one]
  have hhigh : overlay seeds ids d.fastIds (2 * b + 1) = seeds b / 2 ^ 16 := by
    have hhalf : (2 * b + 1) / 2 = b := by omega
    have hrest : (2 * b + 1) % 2 = 1 := by omega
    have hplace : 2 * b + 1 < 2 * bucketCapacity := by
      change 2 * b + 1 < 2 * 1024
      omega
    rw [overlay, if_pos hplace, hhalf, hrest, Nat.mul_one, Nat.mod_eq_of_lt (by omega)]
  simp only [Dictionary.mphSeed, read_of_lt (show 2 * b < fastCapacity by omega),
    read_of_lt (show 2 * b + 1 < fastCapacity by omega), hlow, hhigh, Option.bind_eq_bind,
    Option.bind_some]
  rw [Nat.mod_add_div]

/-- The ids are read back. -/
theorem mphId_overlay {slot : ℕ} (hslot : slot < slotCapacity) (hid : ids slot < 2 ^ 16) :
    ({ d with fastIds := overlay seeds ids d.fastIds } : Dictionary).mphId slot =
      some (ids slot) := by
  have hplace : 2 * bucketCapacity + slot < fastCapacity := by
    have hlt : slot < 16384 := hslot
    change 2 * 1024 + slot < 262144
    omega
  rw [Dictionary.mphId, read_of_lt hplace]
  dsimp only
  rw [overlay, if_neg (by omega), if_pos (Nat.add_lt_add_left hslot _), Nat.add_sub_cancel_left,
    Nat.mod_eq_of_lt hid]

end Overlay

section Build
variable {hashBytes : Bytes → UInt32} {d : Dictionary} {e : Entry}
  {qsort : List (ℕ × ℕ) → List (ℕ × ℕ)}

theorem Dictionary.IsFull.id_lt (h : d.IsFull hashBytes) (he : some e ∈ d.entries) :
    e.id.toNat < contestChannels := by
  have hmem := h.ids.mem_iff.mp (List.mem_map_of_mem (List.reduceOption_mem_iff.mpr he))
  exact List.mem_range.mp hmem

/-- The entry of an id. -/
theorem Dictionary.IsFull.exists_entry (h : d.IsFull hashBytes) {id : ℕ}
    (hid : id < contestChannels) : ∃ e, some e ∈ d.entries ∧ e.id.toNat = id := by
  obtain ⟨e, he, heq⟩ := List.mem_map.mp (h.ids.mem_iff.mpr (List.mem_range.mpr hid))
  exact ⟨e, List.reduceOption_mem_iff.mp he, heq⟩

theorem Dictionary.IsFull.eq_of_key (h : d.IsFull hashBytes) {e' : Entry}
    (he : some e ∈ d.entries) (he' : some e' ∈ d.entries) (hkey : e.key = e'.key) : e = e' := by
  obtain ⟨i, hi⟩ := List.mem_iff_getElem?.mp he
  obtain ⟨j, hj⟩ := List.mem_iff_getElem?.mp he'
  have hreach := h.sound.reach i (some e) hi rfl
  have hreach' := h.sound.reach j (some e') hj rfl
  have hsame : keyOf (some e) = keyOf (some e') := hkey
  rw [hsame, hreach'] at hreach
  obtain rfl := Option.some.inj hreach
  exact Option.some.inj (Option.some.inj (hi.symm.trans hj))

/-- The exact search finds each entry. -/
theorem Dictionary.IsFull.mapFindReadonly (h : d.IsFull hashBytes) (he : some e ∈ d.entries) :
    mapFindReadonly d e.key e.hash = some e := by
  obtain ⟨i, hi⟩ := List.mem_iff_getElem?.mp he
  have hreach : locate Option.isNone (fun f => decide (keyOf f = e.key)) d.entries
      (hashBytes e.key).toNat = some i := h.sound.reach i (some e) hi rfl
  rw [Mph.mapFindReadonly, h.hash e he, locate_isEntry h.hash, hreach, Option.bind_eq_bind,
    Option.bind_some, hi]
  rfl

/-- The steps of the function after its loops have ended. -/
theorem buildMph_eq {stack : Stack} {hashes counts offsets cursor items cursor' : ℕ → ℕ}
    {r : Option Building}
    (hcount : d.entries.foldlM countEntry (stack.hashes, fun _ => 0) = some (hashes, counts))
    (hoffset : (List.range bucketCapacity).foldlM (addOffset counts)
      (Function.update stack.offsets 0 0, stack.cursor) = some (offsets, cursor))
    (hitem : (List.range contestChannels).foldlM (addItem hashes) (stack.items, cursor) =
      some (items, cursor'))
    (hplace : placeBuckets ⟨hashes, items, offsets⟩
      (qsort ((List.range bucketCapacity).map fun b => (b, counts b)))
      ⟨0, ⟨fun _ => 0, stack.trialHash⟩, ⟨fun _ => false, stack.placedHash, stack.ids⟩,
        stack.seeds⟩ = some r) :
    buildMph qsort stack d = writeTables hashes d r := by
  have hzero : write (bucketCapacity + 1) stack.offsets 0 0 =
      some (Function.update stack.offsets 0 0) := write_of_lt (Nat.succ_pos _)
  unfold buildMph
  rw [hcount, Option.bind_eq_bind, Option.bind_some]
  dsimp only
  rw [hzero, Option.bind_eq_bind, Option.bind_some, hoffset, Option.bind_eq_bind, Option.bind_some]
  dsimp only
  rw [hitem, Option.bind_some]
  dsimp only
  rw [hplace, Option.bind_some]

/-- The tables that were built, over the ids that the entries have. -/
theorem buildMph_spec (h : d.IsFull hashBytes) (hsort : SortsByCount qsort) (stack : Stack) :
    ∃ built d', buildMph qsort stack d = some (built, d') ∧ (built = false → d' = d) ∧
      (built = true → ∃ hashes seeds placed, (∀ e, some e ∈ d.entries →
        hashes e.id.toNat = e.hash.toNat) ∧
        (∃ done, Placing hashes seeds done placed ∧ ∀ id < contestChannels, id ∈ done) ∧
        d' = { d with fastIds := overlay seeds placed.ids d.fastIds }) := by
  have hlength : d.entries.reduceOption.length = contestChannels := by
    have hlength := h.ids.length_eq
    rwa [List.length_map, List.length_range] at hlength
  obtain ⟨hashes, counts, hcountRun, hhashes, hcounts⟩ := countEntries
    stack.hashes (h.ids.nodup_iff.mpr List.nodup_range)
    (fun e he => h.id_lt (List.reduceOption_mem_iff.mp he)) (hlength ▸ channels_lt)
  have hmembers (b : ℕ) : counts b = (members hashes contestChannels b).length := by
    have hmap : (d.entries.reduceOption.filter fun e => bucketOf e.hash.toNat = b).length =
        ((d.entries.reduceOption.map fun e => e.id.toNat).filter
          fun id => bucketOf (hashes id) = b).length := by
      rw [List.filter_map, List.length_map]
      congr 1
      apply List.filter_congr
      intro e he
      rw [Function.comp_apply, hhashes e he]
    rw [hcounts, hmap]
    exact (h.ids.filter _).length_eq
  obtain ⟨offsets, cursor, hoffsetRun, hoffsets, hcursor⟩ := addOffsets
    (Function.update stack.offsets 0 0) stack.cursor (Function.update_self ..) hmembers
    (Nat.le_refl bucketCapacity)
  obtain ⟨items, cursor', hitemRun, _, hitems⟩ := addItems stack.items hcursor
    (Nat.le_refl contestChannels)
  obtain ⟨hperm, hpairwise⟩ := hsort ((List.range bucketCapacity).map fun b => (b, counts b))
  have hnodup : (((List.range bucketCapacity).map fun b => (b, counts b)).map Prod.fst).Nodup := by
    rw [List.map_map]
    exact List.nodup_range.map fun _ _ heq => heq
  have hplacing₀ : Placing hashes stack.seeds [] ⟨fun _ => false, stack.placedHash, stack.ids⟩ :=
    ⟨nofun, nofun, nofun, nofun, nofun, nofun⟩
  obtain ⟨r, hrun, hr⟩ := placeBuckets_spec (s := ⟨hashes, items, offsets⟩)
    (b := ⟨0, ⟨fun _ => 0, stack.trialHash⟩, ⟨fun _ => false, stack.placedHash, stack.ids⟩,
      stack.seeds⟩) ⟨hoffsets, hitems⟩
    (by
      intro x hx
      obtain ⟨b, hb, rfl⟩ := List.mem_map.mp (hperm.mem_iff.mp hx)
      exact List.mem_range.mp hb)
    (by
      intro x hx
      obtain ⟨b, _, rfl⟩ := List.mem_map.mp (hperm.mem_iff.mp hx)
      exact hmembers b)
    hpairwise
    ((hperm.map Prod.fst).nodup_iff.mpr hnodup)
    hplacing₀ nofun
  rw [buildMph_eq hcountRun hoffsetRun hitemRun hrun]
  cases r with
  | none => exact ⟨false, d, rfl, fun _ => rfl, nofun⟩
  | some b =>
    obtain ⟨correct, hcheck⟩ : ∃ correct, checkIds hashes b.seeds b.placed.ids
        (List.range contestChannels) = some correct :=
      checkIds_isSome fun id hid => List.mem_range.mp hid
    obtain ⟨done, hplacing, _, hdone⟩ := hr b rfl
    rw [writeTables, hcheck, Option.bind_eq_bind, Option.bind_some]
    cases correct with
    | false => exact ⟨false, d, rfl, fun _ => rfl, nofun⟩
    | true =>
      refine ⟨true, _, rfl, nofun, fun _ => ⟨hashes, b.seeds, b.placed,
        fun e he => hhashes e (List.reduceOption_mem_iff.mpr he), ⟨done, hplacing, ?_⟩, rfl⟩⟩
      intro id hid
      have hbucket : (bucketOf (hashes id), counts (bucketOf (hashes id))) ∈
          qsort ((List.range bucketCapacity).map fun b => (b, counts b)) :=
        hperm.mem_iff.mpr (List.mem_map_of_mem (List.mem_range.mpr (bucketOf_lt _)))
      exact hdone _ hbucket id (mem_members.mpr ⟨hid, rfl⟩)

end Build

/-- Lookups of a key by the tables, and by the function that falls back on the map. -/
def Dictionary.FindsAll (d : Dictionary) : Prop :=
  ∀ e, some e ∈ d.entries →
    (∃ seed found, d.mphSeed (bucketOf e.hash.toNat) = some seed ∧
      d.mphId (slotOf e.hash.toNat seed) = some found ∧
      (found = e.id.toNat * 3 + 1 ∨ found = marker ∧
        ∃ other, some other ∈ d.entries ∧ other.key ≠ e.key ∧ other.hash = e.hash)) ∧
    dictionaryFindSlot3Plus1 d e.key e.hash = some (e.id.toNat * 3 + 1)

section Lookup
variable {hashBytes : Bytes → UInt32} {d : Dictionary}

theorem findsAll_of_placing (h : d.IsFull hashBytes) {hashes seeds : ℕ → ℕ} {placed : Placed}
    {done : List ℕ} (hhashes : ∀ e, some e ∈ d.entries → hashes e.id.toNat = e.hash.toNat)
    (hplacing : Placing hashes seeds done placed) (hdone : ∀ id < contestChannels, id ∈ done) :
    ({ d with fastIds := overlay seeds placed.ids d.fastIds } : Dictionary).FindsAll := by
  intro e he
  have hmem := hdone e.id.toNat (h.id_lt he)
  have hhash := hhashes e he
  have hseed := mphSeed_overlay d seeds placed.ids
    (bucketOf_lt e.hash.toNat) (hhash ▸ hplacing.seed _ hmem)
  have hfound := hplacing.found _ hmem
  rw [slotIn, hhash] at hfound
  have hlt := channel_lt (h.id_lt he)
  have hid := mphId_overlay d seeds placed.ids
    (slotOf_lt e.hash.toNat (seeds (bucketOf e.hash.toNat))) (by
      rcases hfound with hfound | ⟨hfound, _⟩
      · rw [hfound]
        exact Nat.lt_succ_of_lt hlt
      · rw [hfound]
        exact Nat.lt_succ_self _)
  refine ⟨⟨_, _, hseed, hid, ?_⟩, ?_⟩
  · rcases hfound with hfound | ⟨hmark, other, hother, hne, hsame⟩
    · exact Or.inl hfound
    · obtain ⟨e', he', rfl⟩ := h.exists_entry (hplacing.id other hother)
      rw [hhashes e' he'] at hsame
      refine Or.inr ⟨hmark, e', he', fun hkey => hne ?_, UInt32.toNat_inj.mp hsame⟩
      rw [h.eq_of_key he' he hkey]
  · rw [dictionaryFindSlot3Plus1, hseed, Option.bind_eq_bind, Option.bind_some, hid,
      Option.bind_some]
    rcases hfound with hfound | ⟨hmark, _⟩
    · rw [hfound, if_pos (Nat.ne_of_lt hlt)]
    · rw [hmark, if_neg (not_not_intro rfl)]
      have hfind : mapFindReadonly { d with fastIds := overlay seeds placed.ids d.fastIds } e.key
          e.hash = some e := h.mapFindReadonly he
      rw [hfind]
      rfl

/-- For any hashes the function ends; tables that it builds find all keys, and without them
nothing has changed. -/
theorem buildsPerfectHash (h : d.IsFull hashBytes) {qsort : List (ℕ × ℕ) → List (ℕ × ℕ)}
    (hsort : SortsByCount qsort) (stack : Stack) :
    ∃ built d', buildMph qsort stack d = some (built, d') ∧
      (built = true → d'.entries = d.entries ∧ d'.FindsAll) ∧ (built = false → d' = d) := by
  obtain ⟨built, d', hrun, hunchanged, hbuilt⟩ := buildMph_spec h hsort stack
  refine ⟨built, d', hrun, fun htrue => ?_, hunchanged⟩
  obtain ⟨hashes, seeds, placed, hhashes, ⟨done, hplacing, hdone⟩, rfl⟩ := hbuilt htrue
  exact ⟨rfl, findsAll_of_placing h hhashes hplacing hdone⟩

end Lookup

section Sample

def sampleKey (i : ℕ) : Bytes := [UInt8.ofNat (i / 256), UInt8.ofNat (i % 256)]

def sampleHash : Bytes → UInt32
  | [high, low] => UInt32.ofNat (high.toNat * 256 + low.toNat)
  | _ => 0

def sampleEntry (i : ℕ) : Entry := ⟨sampleKey i, UInt32.ofNat i, UInt16.ofNat i⟩

/-- A map whose keys are where their hashes say. -/
def sample : Dictionary where
  entries := (List.range contestChannels).map (fun i => some (sampleEntry i)) ++
    List.replicate 6384 none
  fastIds := fun _ => 0
  fast2Ids := fun _ => 0
  fast3Ids := fun _ => 0

theorem sampleHash_key {i : ℕ} (hi : i < contestChannels) :
    sampleHash (sampleKey i) = UInt32.ofNat i := by
  have hlt : i < 10000 := hi
  rw [sampleKey, sampleHash, UInt8.toNat_ofNat', UInt8.toNat_ofNat',
    Nat.mod_eq_of_lt (by omega), Nat.mod_eq_of_lt (by omega), Nat.div_add_mod' i 256]

theorem reduceOption_map_some (xs : List ℕ) :
    (xs.map fun i => some (sampleEntry i)).reduceOption = xs.map sampleEntry := by
  induction xs with
  | nil => rfl
  | cons i xs ih => rw [List.map_cons, List.reduceOption_cons_of_some, ih, List.map_cons]

theorem length_sample : sample.entries.length = 2 ^ 14 := by
  rw [sample, List.length_append, List.length_map, List.length_range, List.length_replicate]
  rfl

theorem getElem?_sample {i : ℕ} {e : Entry} (hi : sample.entries[i]? = some (some e)) :
    i < contestChannels ∧ e = sampleEntry i := by
  have hlength : ((List.range contestChannels).map fun i => some (sampleEntry i)).length =
      contestChannels := by
    rw [List.length_map, List.length_range]
  rcases Nat.lt_or_ge i contestChannels with hlt | hge
  · rw [sample, List.getElem?_append_left (hlength.symm ▸ hlt), List.getElem?_map,
      List.getElem?_range hlt] at hi
    exact ⟨hlt, (Option.some.inj (Option.some.inj hi)).symm⟩
  · rw [sample, List.getElem?_append_right (hlength.symm ▸ hge)] at hi
    cases List.eq_of_mem_replicate (List.mem_of_getElem? hi)

theorem isFull_sample : sample.IsFull sampleHash where
  sound := {
    length_eq := ⟨14, length_sample⟩
    reach := by
      intro i e hi hfree
      cases e with
      | none => cases hfree
      | some e =>
        obtain ⟨hlt, rfl⟩ := getElem?_sample hi
        have hlt' : i < 10000 := hlt
        have hhome : (sampleHash (keyOf (some (sampleEntry i)))).toNat &&&
            sample.entries.length - 1 = i := by
          change (sampleHash (sampleKey i)).toNat &&& sample.entries.length - 1 = i
          rw [sampleHash_key hlt, length_sample, Nat.and_two_pow_sub_one_eq_mod,
            UInt32.toNat_ofNat', Nat.mod_eq_of_lt (by omega), Nat.mod_eq_of_lt (by omega)]
        have hstop : stops Option.isNone (fun f => decide (keyOf f = keyOf (some (sampleEntry i))))
            sample.entries i = true := by
          rw [stops, hi]
          exact decide_eq_true rfl
        rw [locate, hhome, length_sample]
        exact if_pos hstop }
  hash := by
    intro e he
    obtain ⟨i, hi⟩ := List.mem_iff_getElem?.mp he
    obtain ⟨hlt, rfl⟩ := getElem?_sample hi
    exact (sampleHash_key hlt).symm
  ids := by
    have hentries : sample.entries.reduceOption = (List.range contestChannels).map sampleEntry := by
      rw [sample, List.reduceOption_append, List.reduceOption_replicate_none, List.append_nil,
        reduceOption_map_some]
    have hids : (List.range contestChannels).map (fun i => (sampleEntry i).id.toNat) =
        (List.range contestChannels).map id := by
      apply List.map_congr_left
      intro i hi
      have hlt : i < 10000 := List.mem_range.mp hi
      exact (UInt16.toNat_ofNat' ..).trans (Nat.mod_eq_of_lt (by omega))
    rw [hentries, List.map_map, Function.comp_def, hids, List.map_id]

def sampleSort (order : List (ℕ × ℕ)) : List (ℕ × ℕ) :=
  order.mergeSort fun x y => decide (y.2 ≤ x.2)

theorem sortsByCount_sample : SortsByCount sampleSort := by
  refine fun order => ⟨List.mergeSort_perm .., ?_⟩
  have hsorted : (sampleSort order).Pairwise fun x y => decide (y.2 ≤ x.2) = true :=
    List.pairwise_mergeSort (fun x y z hxy hyz => by
      rw [decide_eq_true_iff] at hxy hyz ⊢
      exact hyz.trans hxy)
    (fun x y => by
      rw [Bool.or_eq_true, decide_eq_true_iff, decide_eq_true_iff]
      exact Nat.le_total y.2 x.2) order
  exact hsorted.imp fun hle => of_decide_eq_true hle

/-- Arrays of zeros. -/
def sampleStack : Stack :=
  ⟨fun _ => 0, fun _ => 0, fun _ => 0, fun _ => 0, fun _ => 0, fun _ => 0, fun _ => 0, fun _ => 0⟩

theorem buildsPerfectHash_sample :
    ∃ built d', buildMph sampleSort sampleStack sample = some (built, d') ∧
      (built = true → d'.entries = sample.entries ∧ d'.FindsAll) ∧
      (built = false → d' = sample) :=
  buildsPerfectHash isFull_sample sortsByCount_sample sampleStack

end Sample

end OneBrc.Analyzer.Mph
