import OneBrc.Analyzer.Mph

/-! The map of `build_mph` as the worker grows it: what `map_find` keeps, and that a map of all
channels is full. -/
namespace OneBrc.Analyzer.Mph
open Lib OpenAddressing FixedArray

def mapCapacity : ℕ := 16384
def keyArenaCapacity : ℕ := 1048576
def fast2Capacity : ℕ := 65536
def fast3Capacity : ℕ := 65536

def fast3Index (hash : ℕ) : ℕ := hash * 0x9e3779b1 % 2 ^ 32 / 2 ^ 16

/-- A map with its number of channels and the bytes that its keys take. -/
structure Growing where
  dictionary : Dictionary
  size : ℕ
  keyUsed : ℕ

def mapInit : Growing where
  dictionary := ⟨List.replicate mapCapacity none, fun _ => 0, fun _ => 0, fun _ => 0⟩
  size := 0
  keyUsed := 0

/-- The id in a direct table, or the mark of a collision. -/
def writeFast (capacity : ℕ) (fast : ℕ → ℕ) (i : ℕ) (id : UInt16) : Option (ℕ → ℕ) := do
  let found ← read capacity fast i
  write capacity fast i (if found ≠ 0 then 65535 else (id.toNat * 3 + 1) % 2 ^ 16)

/-- A key put into a free entry; `none` also where the program ends for want of room. -/
def mapInsert (m : Growing) (i : ℕ) (key : Bytes) (hash : UInt32) : Option Growing :=
  if m.size = mapCapacity then none
  else if keyArenaCapacity < m.keyUsed + key.length then none
  else do
    let e : Entry := ⟨key, hash, UInt16.ofNat m.size⟩
    let fastIds ← writeFast fastCapacity m.dictionary.fastIds (hash.toNat % fastCapacity) e.id
    let fast2Ids ← writeFast fast2Capacity m.dictionary.fast2Ids (hash.toNat / 2 ^ 16) e.id
    let fast3Ids ← writeFast fast3Capacity m.dictionary.fast3Ids (fast3Index hash.toNat) e.id
    some ⟨⟨m.dictionary.entries.set i (some e), fastIds, fast2Ids, fast3Ids⟩, m.size + 1,
      m.keyUsed + key.length⟩

/-- The exact search, with a new key inserted at the free entry at which it ends. -/
def mapFind (m : Growing) (key : Bytes) (hash : UInt32) : Option Growing := do
  let i ← locate Option.isNone (isEntry key hash) m.dictionary.entries hash.toNat
  match ← m.dictionary.entries[i]? with
  | none => mapInsert m i key hash
  | some _ => some m

/-- What holds of a map that only `map_find` has changed. -/
structure Grown (hashBytes : Bytes → UInt32) (m : Growing) : Prop where
  sound : Sound Option.isNone keyOf (fun key => (hashBytes key).toNat) m.dictionary.entries
  hash : ∀ e, some e ∈ m.dictionary.entries → e.hash = hashBytes e.key
  ids : (m.dictionary.entries.reduceOption.map fun e => e.id.toNat).Perm (List.range m.size)
  size : m.size ≤ mapCapacity

section Search
variable {hashBytes : Bytes → UInt32} {entries : List (Option Entry)}

/-- For the entries of a map the search looks for the key alone. -/
theorem locate_isEntry (hhash : ∀ e, some e ∈ entries → e.hash = hashBytes e.key) (key : Bytes)
    (n : ℕ) : locate Option.isNone (isEntry key (hashBytes key)) entries n =
      locate Option.isNone (fun f => decide (keyOf f = key)) entries n := by
  apply locate_congr
  intro f hf
  obtain ⟨hmem, hfree⟩ := mem_live.mp hf
  cases f with
  | none => cases hfree
  | some f =>
    by_cases hkey : f.key = key
    · simp [isEntry, keyOf, hkey, hhash f hmem]
    · simp [isEntry, keyOf, hkey]

/-- A free entry that is filled adds to the entries. -/
theorem reduceOption_set {α : Type} {entries : List (Option α)} {i : ℕ}
    (hi : entries[i]? = some none) (e : α) :
    ((entries.set i (some e)).reduceOption).Perm (e :: entries.reduceOption) := by
  obtain ⟨hlt, hnone⟩ := List.getElem?_eq_some_iff.mp hi
  have hsplit : entries.reduceOption =
      (entries.take i).reduceOption ++ (entries.drop (i + 1)).reduceOption := by
    rw [← List.reduceOption_append]
    conv_lhs => rw [← List.take_append_drop i entries, List.drop_eq_getElem_cons hlt, hnone]
    rw [List.reduceOption_append, List.reduceOption_cons_of_none, List.reduceOption_append]
  rw [List.set_eq_take_append_cons_drop, if_pos hlt, List.reduceOption_append,
    List.reduceOption_cons_of_some, hsplit]
  exact List.perm_middle

end Search

section Grow
variable {hashBytes : Bytes → UInt32} {m m' : Growing}

theorem Grown.init : Grown hashBytes mapInit where
  sound := Sound.replicate rfl 14
  hash := by
    intro e he
    cases List.eq_of_mem_replicate he
  ids := by
    rw [mapInit, List.reduceOption_replicate_none]
    exact List.Perm.refl _
  size := Nat.zero_le _

/-- What an insertion does, where there is room. -/
theorem mapInsert_eq {i : ℕ} {key : Bytes} {hash : UInt32}
    (h : mapInsert m i key hash = some m') : m.size ≠ mapCapacity ∧
      m'.dictionary.entries =
        m.dictionary.entries.set i (some ⟨key, hash, UInt16.ofNat m.size⟩) ∧
      m'.size = m.size + 1 := by
  rw [mapInsert] at h
  split_ifs at h with hsize hkeys
  simp only [Option.bind_eq_bind, Option.bind_eq_some_iff] at h
  obtain ⟨fastIds, -, fast2Ids, -, fast3Ids, -, heq⟩ := h
  obtain rfl := Option.some.inj heq
  exact ⟨hsize, rfl, rfl⟩

theorem Grown.mapFind (h : Grown hashBytes m) {key : Bytes}
    (hfind : mapFind m key (hashBytes key) = some m') : Grown hashBytes m' := by
  rw [Mph.mapFind, locate_isEntry h.hash] at hfind
  simp only [Option.bind_eq_bind, Option.bind_eq_some_iff] at hfind
  obtain ⟨i, hloc, e, he, hfind⟩ := hfind
  cases e with
  | some e =>
    obtain rfl := Option.some.inj hfind
    exact h
  | none =>
    obtain ⟨hroom, hentries, hsize⟩ := mapInsert_eq hfind
    have hlt : m.size < mapCapacity := lt_of_le_of_ne h.size hroom
    have hlt' : m.size < 2 ^ 16 := lt_trans hlt (by decide)
    have hid : (UInt16.ofNat m.size).toNat = m.size := by
      rw [UInt16.toNat_ofNat', Nat.mod_eq_of_lt hlt']
    refine ⟨?_, ?_, ?_, hsize ▸ hlt⟩
    · rw [hentries]
      exact h.sound.set hloc rfl
    · intro e' he'
      rw [hentries] at he'
      rcases List.mem_or_eq_of_mem_set he' with hold | hnew
      · exact h.hash e' hold
      · obtain rfl := Option.some.inj hnew
        rfl
    · rw [hentries, hsize, List.range_succ]
      refine ((reduceOption_set he _).map _).trans ?_
      rw [List.map_cons, hid]
      exact (h.ids.cons m.size).trans (List.perm_append_singleton m.size _).symm

/-- A map that a worker has grown to all channels, by any searches, is full. -/
theorem isFull_of_mapFind {keys : List Bytes}
    (hrun : keys.foldlM (fun m key => mapFind m key (hashBytes key)) mapInit = some m)
    (hsize : m.size = contestChannels) : m.dictionary.IsFull hashBytes := by
  have hgrown (keys : List Bytes) : ∀ m₀ m : Growing, Grown hashBytes m₀ →
      keys.foldlM (fun m key => Mph.mapFind m key (hashBytes key)) m₀ = some m →
      Grown hashBytes m := by
    induction keys with
    | nil =>
      intro m₀ m h hrun
      obtain rfl := Option.some.inj hrun
      exact h
    | cons key keys ih =>
      intro m₀ m h hrun
      rw [List.foldlM_cons, Option.bind_eq_bind, Option.bind_eq_some_iff] at hrun
      obtain ⟨m₁, hfind, hrun⟩ := hrun
      exact ih m₁ m (h.mapFind hfind) hrun
  have h := hgrown keys mapInit m Grown.init hrun
  exact ⟨h.sound, h.hash, hsize ▸ h.ids⟩

end Grow

end OneBrc.Analyzer.Mph
