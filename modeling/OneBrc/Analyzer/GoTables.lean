import OneBrc.Analyzer.Expected

/-! The tables of the two analyzers in Go over every history of `add`, `mergeFrom` and `rehash`,
with any hash function: they are finite maps. -/
namespace OneBrc.Analyzer.GoTables
open Lib OpenAddressing FlatMap TagMap

/-- The loop that doubles the capacity of a new table. -/
def roundUp (capacity c : ℕ) : ℕ :=
  if h : c < capacity ∧ 0 < c then roundUp capacity (c * 2) else c
termination_by capacity - c
decreasing_by omega

section Operations
variable {ω : Type} [OfNat ω 0] (hashBytes : Bytes → UInt32)

def newFlatMap (capacity : ℕ) : Table ω := FlatMap.empty (kind ω hashBytes) (roundUp capacity 1)

/-- A table that is filled to seven tenths is doubled. -/
def grow (m : Table ω) : Option (Table ω) :=
  if (m.size + 1) * 10 ≥ m.entries.length * 7 then
    rehash (kind ω hashBytes) m (m.entries.length * 2)
  else some m

end Operations

/-- How a table came to be: rows are added, other tables merged into it, and it is rehashed as it is
when it grows. -/
inductive History where
  | newFlatMap (capacity : ℕ)
  | add (h : History) (key : Bytes) (month : Fin 12) (messageLength stampCount : UInt32)
  | mergeFrom (h other : History)
  | rehash (h : History)

section Run
variable {ω : Type} [OfNat ω 0] [Add ω] (hashBytes : Bytes → UInt32) (wide : UInt32 → ω)

def run : History → Option (Table ω)
  | .newFlatMap capacity => some (newFlatMap hashBytes capacity)
  | .add h key month messageLength stampCount => do
      TagMap.add hashBytes (grow hashBytes) wide (← run h) ⟨key, month, messageLength, stampCount⟩
  | .mergeFrom h other => do
      TagMap.mergeFrom hashBytes (grow hashBytes) (← run h) (← run other)
  | .rehash h => do
      let m ← run h
      FlatMap.rehash (kind ω hashBytes) m (m.entries.length * 2)

end Run

/-- A time in the month. -/
def timeOf (month : Fin 12) : ℕ := 1798761600 + 2678400 * month

/-- The rows that were added, those of merged tables after those of the table itself. -/
def History.rows : History → List Row
  | .newFlatMap _ => []
  | .add h key month messageLength stampCount =>
      h.rows ++ [⟨timeOf month, key, messageLength.toNat, stampCount.toNat⟩]
  | .mergeFrom h other => h.rows ++ other.rows
  | .rehash h => h.rows

/-- At most 65,536 keys, which are not empty, lengths of 16 bits, and totals that fit. -/
structure Fits (width : ℕ) (rows : List Row) : Prop where
  channels : (rows.map Row.path).dedup.length ≤ 2 ^ 16
  path_ne : ∀ r ∈ rows, r.path ≠ []
  path_lt : ∀ r ∈ rows, r.path.length < 2 ^ 32
  messageLength_lt : ∀ r ∈ rows, r.messageLength < 2 ^ 16
  stampCount_lt : ∀ r ∈ rows, r.stampCount < 2 ^ 32
  messages_lt : ∀ path month, (group rows path month).length < 2 ^ 32
  total_lt : ∀ path month, (lengths (group rows path month)).sum < 2 ^ width
  stamps_lt : ∀ path month, (stamps (group rows path month)).sum < 2 ^ width

/-- The figures of a month are those of its rows. -/
structure Figures {ω : Type} (number : ω → ℕ) (s : Stats ω) (g : List Row) : Prop where
  messages : s.messages.toNat = g.length
  totalLen : number s.totalLen = (lengths g).sum
  stamps : number s.stamps = (Analyzer.stamps g).sum
  minLen : g ≠ [] → s.minLen.toNat = least (lengths g)
  maxLen : g ≠ [] → s.maxLen.toNat = greatest (lengths g)

structure IsFiniteMap {ω : Type} (hashBytes : Bytes → UInt32) (number : ω → ℕ) (m : Table ω)
    (rows : List Row) : Prop where
  slot : ∀ r ∈ rows, ∃! i : ℕ, ∃ e : MapEntry UInt16, m.entries[i]? = some e ∧
    e.isFree = false ∧ e.key = r.path
  added : ∀ e ∈ live MapEntry.isFree m.entries, ∃ r ∈ rows, r.path = e.key
  reachable : ∀ i e, m.entries[i]? = some e → e.isFree = false →
    ∃ d, i = ((hashBytes e.key).toNat + d) % m.entries.length ∧
      ∀ d' < d, ∃ f, m.entries[((hashBytes e.key).toNat + d') % m.entries.length]? = some f ∧
        f.isFree = false
  size : m.size = (rows.map Row.path).dedup.length
  ids : ((live MapEntry.isFree m.entries).map fun e => e.id.toNat).Perm (List.range m.size)
  empties : 3 * m.entries.length ≤ 10 * (m.entries.filter MapEntry.isFree).length
  figures : ∀ e ∈ live MapEntry.isFree m.entries, ∃ agg, m.aggs[e.id.toNat]? = some agg ∧
    ∀ month, Figures number (agg month) (group rows e.key month)

section Growth
variable {ω : Type} [OfNat ω 0] {hashBytes : Bytes → UInt32} {m : Table ω} {keys : List Bytes}
  {c : Bytes → Fin 12 → Stats ω}

/-- Less than seven tenths of the slots are taken. -/
def Sparse (m : Table ω) : Prop := 10 * m.size < 7 * m.entries.length

theorem roundUp_eq (capacity k : ℕ) : ∃ l, roundUp capacity (2 ^ k) = 2 ^ l := by
  induction hd : capacity - 2 ^ k using Nat.strongRecOn generalizing k with
  | ind d ih =>
    rw [roundUp]
    split
    · next h =>
      rw [← Nat.pow_succ]
      refine ih _ ?_ (k + 1) rfl
      rw [Nat.pow_succ]
      omega
    · exact ⟨k, rfl⟩

/-- A table that was made ready for a row has room for another key. -/
theorem grow_holds (h : Holds (kind ω hashBytes) m keys c) (hsparse : Sparse m) :
    ∃ m', grow hashBytes m = some m' ∧ Holds (kind ω hashBytes) m' keys c ∧
      10 * (keys.length + 1) < 7 * m'.entries.length := by
  obtain ⟨k, hk⟩ := h.sound.length_eq
  have hsize := h.size
  have hpos : 0 < 2 ^ k := Nat.two_pow_pos k
  unfold Sparse at hsparse
  unfold grow
  split
  · obtain ⟨m', hrun, h', hlen⟩ := h.rehash (k := k + 1) (by rw [Nat.pow_succ]; omega)
    refine ⟨m', ?_, h', ?_⟩
    · rw [hk, ← Nat.pow_succ]
      exact hrun
    · rw [hlen, Nat.pow_succ]
      rcases Nat.eq_zero_or_pos keys.length with hzero | hkeys
      · omega
      · omega
  · exact ⟨m, rfl, h, by omega⟩

theorem reserves_grow (n : ℕ) : Reserves (kind ω hashBytes) (fun _ => True) n (grow hashBytes) :=
  GoMap.reserves_doubling (kind ω hashBytes) n

/-- With a key that is perhaps new, the table is still sparse. -/
theorem Sparse.of_insert {m' : Table ω} {key : Bytes}
    (h' : Holds (kind ω hashBytes) m' (if key ∈ keys then keys else keys ++ [key]) c)
    (hroom : 10 * (keys.length + 1) < 7 * m'.entries.length) : Sparse m' := by
  have hsize := h'.size
  unfold Sparse
  split at hsize
  · omega
  · rw [List.length_append, List.length_singleton] at hsize
    omega

end Growth

section Sparsity
variable {ω : Type} [OfNat ω 0] [Add ω] {hashBytes : Bytes → UInt32} {wide : UInt32 → ω}
  {m m' other : Table ω} {keys keys' channels : List Bytes} {c c' : Bytes → Fin 12 → Stats ω}

theorem sparse_add (h : Holds (kind ω hashBytes) m keys c) (hsparse : Sparse m) {row : ParsedRow}
    (hne : row.path ≠ []) (hlt : row.path.length < 2 ^ 32)
    (hid : row.path ∉ keys → keys.length < 2 ^ 16)
    (hrun : TagMap.add hashBytes (grow hashBytes) wide m row = some m') : Sparse m' := by
  obtain ⟨m₁, hgrow, h₁, hroom⟩ := grow_holds h hsparse
  obtain ⟨m₂, hadd, h₂, hlen⟩ := h₁.addTo hne (by omega) hid row.month
    (Stats.push wide row.messageLength row.stampCount)
  simp only [TagMap.add, hgrow, keyOf_eq hlt, bind, Option.bind] at hrun
  obtain rfl := Option.some.inj (hadd.symm.trans hrun)
  exact .of_insert h₂ (by rwa [hlen])

/-- A sparse table with channels of a list. -/
def SparseHolds (hashBytes : Bytes → UInt32) (channels : List Bytes) (m : Table ω) : Prop :=
  Sparse m ∧ ∃ keys c, Holds (kind ω hashBytes) m keys c ∧ keys ⊆ channels

/-- The body of the loop of `mergeFrom`. -/
def mergeGrown (hashBytes : Bytes → UInt32) (other m : Table ω) (e : MapEntry UInt16) :
    Option (Table ω) := do
  mergeEntry (kind ω hashBytes) Stats.join (fun e => hashBytes e.key) other (← grow hashBytes m) e

theorem sparseHolds_mergeEntry (hn : channels.length ≤ 2 ^ 16)
    (h : SparseHolds hashBytes channels m) (h' : Holds (kind ω hashBytes) other keys' c')
    (hkeys' : keys' ⊆ channels) {e : MapEntry UInt16}
    (he : e ∈ live MapEntry.isFree other.entries)
    (hrun : mergeGrown hashBytes other m e = some m') : SparseHolds hashBytes channels m' := by
  obtain ⟨hsparse, keys, c, h, hkeys⟩ := h
  have hkey : e.key ∈ channels := hkeys' (h'.keys_perm.mem_iff.mp (List.mem_map_of_mem he))
  have hid : e.key ∉ keys → keys.length < 2 ^ 16 := fun hnew =>
    Nat.lt_of_lt_of_le (h.length_lt hkeys hkey hnew) hn
  obtain ⟨m₁, hgrow, h₁, hroom⟩ := grow_holds h hsparse
  obtain ⟨m₂, hmerge, h₂, hlen⟩ := h₁.mergeEntry Stats.join (by omega) h' (fun _ _ => rfl) he hid
  simp only [mergeGrown, hgrow, bind, Option.bind] at hrun
  obtain rfl := Option.some.inj (hmerge.symm.trans hrun)
  refine ⟨.of_insert h₂ (by rwa [hlen]), _, _, h₂, ?_⟩
  split
  · exact hkeys
  · exact List.append_subset.mpr ⟨hkeys, List.cons_subset.mpr ⟨hkey, List.nil_subset _⟩⟩

theorem sparse_mergeFrom (hn : channels.length ≤ 2 ^ 16) (h : SparseHolds hashBytes channels m)
    (h' : Holds (kind ω hashBytes) other keys' c') (hkeys' : keys' ⊆ channels)
    (hrun : TagMap.mergeFrom hashBytes (grow hashBytes) m other = some m') : Sparse m' := by
  have hfold (es : List (MapEntry UInt16)) (hes : es ⊆ live MapEntry.isFree other.entries)
      (m : Table ω) (h : SparseHolds hashBytes channels m)
      (hrun : es.foldlM (mergeGrown hashBytes other) m = some m') :
      SparseHolds hashBytes channels m' := by
    induction es generalizing m with
    | nil =>
      obtain rfl := Option.some.inj hrun
      exact h
    | cons e es ih =>
      rw [List.foldlM_cons] at hrun
      obtain ⟨m₁, hstep, hrest⟩ := Option.bind_eq_some_iff.mp hrun
      exact ih (List.subset_of_cons_subset hes) m₁
        (sparseHolds_mergeEntry hn h h' hkeys' (hes List.mem_cons_self) hstep) hrest
  exact (hfold _ (List.Subset.refl _) m h hrun).1

end Sparsity

section Runs
variable {ω : Type} [OfNat ω 0] [Add ω] {hashBytes : Bytes → UInt32} {wide : UInt32 → ω}
  {cast : ℕ → ω} {width : ℕ} {all rows : List Row} {m : Table ω}

theorem month_timeOf (month : Fin 12) : utcMonth (timeOf month) = month := by
  revert month
  decide +kernel

omit [Add ω] in
/-- A table of rows, and the list of its channels. -/
theorem sparseHolds_of_tallies (h : Tallies (kind ω hashBytes) (Stats.of cast) m rows)
    (hsparse : Sparse m) (hrows : rows ⊆ all) :
    SparseHolds hashBytes (all.map Row.path).dedup m := by
  obtain ⟨keys, hkeys, hmem⟩ := h
  refine ⟨hsparse, keys, _, hkeys, ?_⟩
  intro path hpath
  obtain ⟨r, hr, rfl⟩ := (hmem path).mp hpath
  exact mem_channels (hrows hr)

theorem add_tallies (hfits : Fits width all) (hwide : Stats.Widens wide cast) {r : Row}
    (hsub : (rows ++ [r]).Sublist all)
    (h : Tallies (kind ω hashBytes) (Stats.of cast) m rows) (hsparse : Sparse m) :
    ∃ m', TagMap.add hashBytes (grow hashBytes) wide m ⟨r.path, r.month,
        UInt32.ofNat r.messageLength, UInt32.ofNat r.stampCount⟩ = some m' ∧
      Tallies (kind ω hashBytes) (Stats.of cast) m' (rows ++ [r]) ∧ Sparse m' := by
  have hr : r ∈ all := hsub.subset List.mem_concat_self
  have hrows : rows ⊆ all := fun r' hr' => hsub.subset (List.mem_append_left _ hr')
  have hlength := hfits.messageLength_lt r hr
  have hpush : Stats.push wide (UInt32.ofNat r.messageLength) (UInt32.ofNat r.stampCount)
      (Stats.of cast (group rows r.path r.month)) =
      Stats.of cast (group rows r.path r.month ++ [r]) := by
    apply Stats.push_of hwide (by omega) (hfits.stampCount_lt r hr)
    rw [← group_concat_self]
    exact Nat.lt_of_le_of_lt (length_group_le hsub) (hfits.messages_lt _ _)
  obtain ⟨m₁, m', hgrow, hadd, h', -⟩ := h.add (reserves_grow _) hfits.channels trivial
    (fun r' hr' => mem_channels (hrows hr')) (mem_channels hr) (hfits.path_ne r hr) hpush
  have hrun : TagMap.add hashBytes (grow hashBytes) wide m ⟨r.path, r.month,
      UInt32.ofNat r.messageLength, UInt32.ofNat r.stampCount⟩ = some m' := by
    simp only [TagMap.add, hgrow, keyOf_eq (hfits.path_lt r hr), bind, Option.bind]
    exact hadd
  refine ⟨m', hrun, h', ?_⟩
  obtain ⟨-, keys, c, hholds, hkeys⟩ := sparseHolds_of_tallies h hsparse hrows
  exact sparse_add hholds hsparse (hfits.path_ne r hr) (hfits.path_lt r hr)
    (fun hnew => (hholds.length_lt hkeys (mem_channels hr) hnew).trans_le hfits.channels) hrun

theorem mergeFrom_tallies (hfits : Fits width all) (hwide : Stats.Widens wide cast)
    {other : Table ω} {rows' : List Row} (hsub : (rows ++ rows').Sublist all)
    (h : Tallies (kind ω hashBytes) (Stats.of cast) m rows) (hsparse : Sparse m)
    (h' : Tallies (kind ω hashBytes) (Stats.of cast) other rows') (hsparse' : Sparse other) :
    ∃ m', TagMap.mergeFrom hashBytes (grow hashBytes) m other = some m' ∧
      Tallies (kind ω hashBytes) (Stats.of cast) m' (rows ++ rows') ∧ Sparse m' := by
  have hrows : rows ⊆ all := fun r hr => hsub.subset (List.mem_append_left _ hr)
  have hrows' : rows' ⊆ all := fun r hr => hsub.subset (List.mem_append_right _ hr)
  have hjoin (path : Bytes) (month : Fin 12) :
      Stats.join (Stats.of cast (group rows path month)) (Stats.of cast (group rows' path month)) =
        Stats.of cast (group rows path month ++ group rows' path month) := by
    apply Stats.join_of hwide
    rw [← group_append]
    exact Nat.lt_of_le_of_lt (length_group_le hsub) (hfits.messages_lt _ _)
  obtain ⟨m', hrun, hm', -⟩ := h.merge (reserves_grow _) hfits.channels h' trivial
    (fun r hr => mem_channels (hrows hr)) (fun r hr => mem_channels (hrows' hr))
    (fun _ _ => rfl) hjoin
  obtain ⟨-, keys', c', hholds', hkeys'⟩ := sparseHolds_of_tallies h' hsparse' hrows'
  exact ⟨m', hrun, hm', sparse_mergeFrom hfits.channels (sparseHolds_of_tallies h hsparse hrows)
    hholds' hkeys' hrun⟩

omit [Add ω] in
theorem rehash_tallies (h : Tallies (kind ω hashBytes) (Stats.of cast) m rows)
    (hsparse : Sparse m) :
    ∃ m', FlatMap.rehash (kind ω hashBytes) m (m.entries.length * 2) = some m' ∧
      Tallies (kind ω hashBytes) (Stats.of cast) m' rows ∧ Sparse m' := by
  obtain ⟨keys, hkeys, hmem⟩ := h
  obtain ⟨k, hk⟩ := hkeys.sound.length_eq
  have hsize := hkeys.size
  unfold Sparse at hsparse
  obtain ⟨m', hrun, h', hlen⟩ := hkeys.rehash (k := k + 1) (by rw [Nat.pow_succ]; omega)
  refine ⟨m', ?_, ⟨keys, h', hmem⟩, ?_⟩
  · rw [hk, ← Nat.pow_succ]
    exact hrun
  · rw [Sparse, h'.size, hlen, Nat.pow_succ]
    omega

variable (hashBytes) in
/-- Every history of a part of the rows ends with their table. -/
theorem run_tallies (hfits : Fits width all) (hwide : Stats.Widens wide cast) (hzero : cast 0 = 0)
    (h : History) (hsub : h.rows.Sublist all) :
    ∃ m, run hashBytes wide h = some m ∧ Tallies (kind ω hashBytes) (Stats.of cast) m h.rows ∧
      Sparse m := by
  induction h with
  | newFlatMap capacity =>
    obtain ⟨k, hk⟩ := roundUp_eq capacity 0
    have hempty : TagMap.Counts hashBytes cast (fun _ => True)
        (FlatMap.empty (kind ω hashBytes) (2 ^ k)) [] := empty_counts hzero trivial
    refine ⟨newFlatMap hashBytes capacity, rfl, ?_, ?_⟩
    · rw [newFlatMap, ← Nat.pow_zero 2, hk]
      exact hempty.1
    · rw [Sparse, newFlatMap, ← Nat.pow_zero 2, hk, FlatMap.empty, freeEntries,
        List.length_replicate]
      exact Nat.mul_pos (by decide) (Nat.two_pow_pos k)
  | add h key month messageLength stampCount ih =>
    obtain ⟨m, hrun, htallies, hsparse⟩ := ih ((List.sublist_append_left _ _).trans hsub)
    obtain ⟨m', hadd, h', hsparse'⟩ := add_tallies hfits hwide hsub htallies hsparse
    refine ⟨m', ?_, h', hsparse'⟩
    simp only [Row.month, month_timeOf, UInt32.ofNat_toNat] at hadd
    simp only [run, hrun, bind, Option.bind]
    exact hadd
  | mergeFrom h other ih ih' =>
    obtain ⟨m, hrun, htallies, hsparse⟩ := ih ((List.sublist_append_left _ _).trans hsub)
    obtain ⟨m₁, hrun', htallies', hsparse'⟩ := ih' ((List.sublist_append_right _ _).trans hsub)
    obtain ⟨m', hmerge, h', hsparse''⟩ :=
      mergeFrom_tallies hfits hwide hsub htallies hsparse htallies' hsparse'
    refine ⟨m', ?_, h', hsparse''⟩
    simp only [run, hrun, hrun', bind, Option.bind]
    exact hmerge
  | rehash h ih =>
    obtain ⟨m, hrun, htallies, hsparse⟩ := ih hsub
    obtain ⟨m', hrehash, h', hsparse'⟩ := rehash_tallies htallies hsparse
    refine ⟨m', ?_, h', hsparse'⟩
    simp only [run, hrun, bind, Option.bind]
    exact hrehash

end Runs

theorem group_perm {rows rows' : List Row} (hperm : rows.Perm rows') (path : Bytes)
    (month : Fin 12) : (group rows path month).Perm (group rows' path month) :=
  hperm.filter _

section Maps
variable {ω : Type} [OfNat ω 0] {hashBytes : Bytes → UInt32} {number : ω → ℕ} {cast : ℕ → ω}
  {width : ℕ} {rows rows' g g' : List Row} {m m' : Table ω}

omit [OfNat ω 0] in
theorem figures_of (hnumber : ∀ n < 2 ^ width, number (cast n) = n) (hlen : g.length < 2 ^ 32)
    (hshort : ∀ r ∈ g, r.messageLength < 2 ^ 16) (htotal : (lengths g).sum < 2 ^ width)
    (hstamps : (stamps g).sum < 2 ^ width) : Figures number (Stats.of cast g) g where
  messages := UInt32.toNat_ofNat_of_lt' hlen
  totalLen := hnumber _ htotal
  stamps := hnumber _ hstamps
  minLen := by
    intro hne
    have hlt := Stats.lt_of_mem_narrow (least_mem (Stats.narrow_ne_nil hne))
    rw [Stats.of, UInt16.toNat_ofNat_of_lt' hlt, Stats.narrow_eq hshort]
  maxLen := by
    intro _
    rw [Stats.of, UInt16.toNat_ofNat_of_lt' (Stats.greatest_narrow_lt g), Stats.narrow_eq hshort]

/-- The ids are those of the keys, in the order of their slots. -/
theorem ids_perm {τ σ : Type} {K : TableKind τ σ} {m : FlatMap τ σ} {keys : List Bytes}
    {c : Bytes → Fin 12 → σ} (h : Holds K m keys c) :
    ((live MapEntry.isFree m.entries).map fun e => e.id.toNat).Perm (List.range m.size) := by
  have hkey : ((live MapEntry.isFree m.entries).map fun e => e.id.toNat).map
      (fun i => keys[i]?.getD []) = (live MapEntry.isFree m.entries).map MapEntry.key := by
    rw [List.map_map]
    refine List.map_congr_left fun e he => ?_
    rw [Function.comp_apply, h.id e he, Option.getD_some]
  have hnodup := List.Nodup.of_map _ (hkey ▸ h.sound.nodup)
  refine (List.subperm_of_subset hnodup ?_).perm_of_length_le ?_
  · intro i hi
    obtain ⟨e, he, rfl⟩ := List.mem_map.mp hi
    rw [List.mem_range, h.size]
    exact (List.getElem?_eq_some_iff.mp (h.id e he)).1
  · rw [List.length_range, List.length_map, h.size, h.count]

/-- Two entries of a table with one key are one, and the key is found from its home. -/
theorem isFiniteMap_of_tallies (hfits : Fits width rows)
    (hnumber : ∀ n < 2 ^ width, number (cast n) = n)
    (h : Tallies (kind ω hashBytes) (Stats.of cast) m rows) (hsparse : Sparse m) :
    IsFiniteMap hashBytes number m rows := by
  obtain ⟨keys, hkeys, hmem⟩ := h
  have hlive (i : ℕ) (e : MapEntry UInt16) (hi : m.entries[i]? = some e)
      (he : e.isFree = false) : e ∈ live MapEntry.isFree m.entries :=
    mem_live.mpr ⟨List.mem_of_getElem? hi, he⟩
  have hcount : (live MapEntry.isFree m.entries).length +
      (m.entries.filter MapEntry.isFree).length = m.entries.length := by
    have hsplit := List.length_eq_length_filter_add (l := m.entries) MapEntry.isFree
    rw [live]
    omega
  have hdedup : keys.Perm (rows.map Row.path).dedup := by
    rw [List.perm_ext_iff_of_nodup hkeys.nodup (List.nodup_dedup _)]
    intro path
    rw [hmem, List.mem_dedup, List.mem_map]
  constructor
  case slot =>
    intro r hr
    have hpath : r.path ∈ keys := (hmem r.path).mpr ⟨r, hr, rfl⟩
    obtain ⟨e, he, hkey⟩ := List.mem_map.mp (hkeys.keys_perm.mem_iff.mpr hpath)
    obtain ⟨hentry, hfree⟩ := mem_live.mp he
    obtain ⟨i, hi⟩ := List.mem_iff_getElem?.mp hentry
    refine ⟨i, ⟨e, hi, hfree, hkey⟩, ?_⟩
    rintro j ⟨f, hj, hf, hkey'⟩
    exact hkeys.sound.index_inj hj hf hi hfree (hkey'.trans hkey.symm)
  case added =>
    intro e he
    exact (hmem e.key).mp (hkeys.keys_perm.mem_iff.mp (List.mem_map_of_mem he))
  case reachable =>
    intro i e hi he
    exact hkeys.sound.exists_distance hi he
  case size =>
    rw [hkeys.size, hdedup.length_eq]
  case ids => exact ids_perm hkeys
  case empties =>
    have hsize := hkeys.size
    rw [← hkeys.count] at hsize
    unfold Sparse at hsparse
    omega
  case figures =>
    intro e he
    have hagg : m.aggs[e.id.toNat]? = some fun month => Stats.of cast (group rows e.key month) := by
      rw [hkeys.aggs, List.getElem?_map, hkeys.id e he]
      rfl
    refine ⟨_, hagg, fun month => ?_⟩
    exact figures_of hnumber (hfits.messages_lt _ _)
      (fun r hr => hfits.messageLength_lt r (mem_group.mp hr).1) (hfits.total_lt _ _)
      (hfits.stamps_lt _ _)

/-- The ids survive a rehash, and the aggregates are not touched. -/
theorem rehash_ids (h : Tallies (kind ω hashBytes) (Stats.of cast) m rows) (hsparse : Sparse m)
    (hrun : FlatMap.rehash (kind ω hashBytes) m (m.entries.length * 2) = some m') :
    m'.aggs = m.aggs ∧ ∀ e ∈ live MapEntry.isFree m.entries,
      ∃ e' ∈ live MapEntry.isFree m'.entries, e'.key = e.key ∧ e'.id = e.id := by
  obtain ⟨keys, hkeys, -⟩ := h
  obtain ⟨k, hk⟩ := hkeys.sound.length_eq
  have hsize := hkeys.size
  unfold Sparse at hsparse
  obtain ⟨m₁, hrun₁, h₁, -⟩ := hkeys.rehash (k := k + 1) (by rw [Nat.pow_succ]; omega)
  rw [hk, ← Nat.pow_succ, hrun₁] at hrun
  obtain rfl := Option.some.inj hrun
  refine ⟨h₁.aggs.trans hkeys.aggs.symm, ?_⟩
  intro e he
  have hid := hkeys.id e he
  have hmem : e.key ∈ (live MapEntry.isFree m₁.entries).map MapEntry.key :=
    h₁.keys_perm.mem_iff.mpr (List.mem_of_getElem? hid)
  obtain ⟨e', he', hkey⟩ := List.mem_map.mp hmem
  have hid' := h₁.id e' he'
  rw [hkey] at hid'
  refine ⟨e', he', hkey, UInt16.toNat_inj.mp ?_⟩
  obtain ⟨hlt, heq⟩ := List.getElem?_eq_some_iff.mp hid
  obtain ⟨hlt', heq'⟩ := List.getElem?_eq_some_iff.mp hid'
  exact (hkeys.nodup.getElem_inj_iff).mp (heq'.trans heq.symm)

omit [OfNat ω 0] in
theorem of_perm (h : g.Perm g') : Stats.of cast g = Stats.of cast g' := by
  have hlengths : (lengths g).Perm (lengths g') := h.map _
  have hstamps : (stamps g).Perm (stamps g') := h.map _
  have hnarrow : (Stats.narrow g).Perm (Stats.narrow g') := hlengths.map _
  have hleast : least (Stats.narrow g) = least (Stats.narrow g') := by
    have hmin : (Stats.narrow g).min? = (Stats.narrow g').min? := by
      ext a
      simp only [List.min?_eq_some_iff, hnarrow.mem_iff]
    rw [least, least, hmin]
  have hgreatest : greatest (Stats.narrow g) = greatest (Stats.narrow g') :=
    hnarrow.foldl_eq 0
  rw [Stats.of, Stats.of, hlengths.sum_eq, hstamps.sum_eq, h.length_eq, hleast, hgreatest]

/-- Tables of the same rows hold the same for each key. -/
theorem aggs_of_perm (h : Tallies (kind ω hashBytes) (Stats.of cast) m rows)
    (h' : Tallies (kind ω hashBytes) (Stats.of cast) m' rows') (hperm : rows.Perm rows') :
    ∀ e ∈ live MapEntry.isFree m.entries, ∃ e' ∈ live MapEntry.isFree m'.entries,
      e'.key = e.key ∧ m'.aggs[e'.id.toNat]? = m.aggs[e.id.toNat]? := by
  obtain ⟨keys, hkeys, hmem⟩ := h
  obtain ⟨keys', hkeys', hmem'⟩ := h'
  intro e he
  have hkey : e.key ∈ keys := hkeys.keys_perm.mem_iff.mp (List.mem_map_of_mem he)
  obtain ⟨r, hr, hpath⟩ := (hmem e.key).mp hkey
  have hkey' : e.key ∈ keys' := (hmem' e.key).mpr ⟨r, hperm.mem_iff.mp hr, hpath⟩
  obtain ⟨e', he', heq⟩ := List.mem_map.mp (hkeys'.keys_perm.mem_iff.mpr hkey')
  refine ⟨e', he', heq, ?_⟩
  rw [hkeys.aggs, hkeys'.aggs, List.getElem?_map, List.getElem?_map, hkeys.id e he,
    hkeys'.id e' he', heq]
  refine congrArg some (funext fun month => ?_)
  exact of_perm (group_perm hperm.symm e.key month)

end Maps

theorem Fits.perm {width : ℕ} {rows rows' : List Row} (h : Fits width rows)
    (hperm : rows.Perm rows') : Fits width rows' where
  channels := by
    rw [← ((hperm.map Row.path).dedup).length_eq]
    exact h.channels
  path_ne r hr := h.path_ne r (hperm.mem_iff.mpr hr)
  path_lt r hr := h.path_lt r (hperm.mem_iff.mpr hr)
  messageLength_lt r hr := h.messageLength_lt r (hperm.mem_iff.mpr hr)
  stampCount_lt r hr := h.stampCount_lt r (hperm.mem_iff.mpr hr)
  messages_lt path month := by
    rw [← (group_perm hperm path month).length_eq]
    exact h.messages_lt path month
  total_lt path month := by
    rw [lengths, ← ((group_perm hperm path month).map Row.messageLength).sum_eq]
    exact h.total_lt path month
  stamps_lt path month := by
    rw [stamps, ← ((group_perm hperm path month).map Row.stampCount).sum_eq]
    exact h.stamps_lt path month

/-- Every history ends with a finite map of its rows; a rehash keeps ids and aggregates, and a
history of the same rows in another order gives every key the same aggregate. -/
def AreFiniteMaps {ω : Type} [OfNat ω 0] [Add ω] (wide : UInt32 → ω) (number : ω → ℕ)
    (width : ℕ) : Prop :=
  ∀ (hashBytes : Bytes → UInt32) (h : History), Fits width h.rows →
    ∃ m : Table ω, run hashBytes wide h = some m ∧ IsFiniteMap hashBytes number m h.rows ∧
      (∃ m', run hashBytes wide (.rehash h) = some m' ∧ m'.aggs = m.aggs ∧
        ∀ e ∈ live MapEntry.isFree m.entries, ∃ e' ∈ live MapEntry.isFree m'.entries,
          e'.key = e.key ∧ e'.id = e.id) ∧
      ∀ h' : History, h.rows.Perm h'.rows → ∃ m', run hashBytes wide h' = some m' ∧
        ∀ e ∈ live MapEntry.isFree m.entries, ∃ e' ∈ live MapEntry.isFree m'.entries,
          e'.key = e.key ∧ m'.aggs[e'.id.toNat]? = m.aggs[e.id.toNat]?

theorem areFiniteMaps_of_widens {ω : Type} [OfNat ω 0] [Add ω] {wide : UInt32 → ω} {cast : ℕ → ω}
    {number : ω → ℕ} {width : ℕ} (hwide : Stats.Widens wide cast) (hzero : cast 0 = 0)
    (hnumber : ∀ n < 2 ^ width, number (cast n) = n) : AreFiniteMaps wide number width := by
  intro hashBytes h hfits
  obtain ⟨m, hrun, htallies, hsparse⟩ :=
    run_tallies hashBytes hfits hwide hzero h (List.Sublist.refl _)
  refine ⟨m, hrun, isFiniteMap_of_tallies hfits hnumber htallies hsparse, ?_, ?_⟩
  · obtain ⟨m', hrehash, -, -⟩ := rehash_tallies htallies hsparse
    refine ⟨m', ?_, rehash_ids htallies hsparse hrehash⟩
    simp only [run, hrun, bind, Option.bind]
    exact hrehash
  · intro h' hperm
    obtain ⟨m', hrun', htallies', -⟩ :=
      run_tallies hashBytes (hfits.perm hperm) hwide hzero h' (List.Sublist.refl _)
    exact ⟨m', hrun', aggs_of_perm htallies htallies' hperm⟩

/-- The tables of the generator, with sums of 64 bits, and of the optimized analyzer, with sums of
32 bits. -/
theorem go_tables : AreFiniteMaps UInt32.toUInt64 UInt64.toNat 64 ∧
    AreFiniteMaps id UInt32.toNat 32 :=
  ⟨areFiniteMaps_of_widens Expected.widens rfl fun _ h => UInt64.toNat_ofNat_of_lt' h,
    areFiniteMaps_of_widens widens_id rfl fun _ h => UInt32.toNat_ofNat_of_lt' h⟩

/-- Rows fit when all of them together do. -/
theorem fits_of_totals {width : ℕ} {rows : List Row} (hlength : rows.length ≤ 2 ^ 16)
    (hrows : ∀ r ∈ rows, r.path ≠ [] ∧ r.path.length < 2 ^ 32 ∧ r.messageLength < 2 ^ 16 ∧
      r.stampCount < 2 ^ 32)
    (htotal : (lengths rows).sum < 2 ^ width) (hstamps : (stamps rows).sum < 2 ^ width) :
    Fits width rows where
  channels := ((List.dedup_sublist _).length_le.trans_eq (List.length_map _)).trans hlength
  path_ne r hr := (hrows r hr).1
  path_lt r hr := (hrows r hr).2.1
  messageLength_lt r hr := (hrows r hr).2.2.1
  stampCount_lt r hr := (hrows r hr).2.2.2
  messages_lt path month :=
    (List.length_filter_le _ _).trans_lt (hlength.trans_lt (by decide))
  total_lt path month :=
    ((List.filter_sublist.map Row.messageLength).sum_le_sum fun _ _ => Nat.zero_le _).trans_lt
      htotal
  stamps_lt path month :=
    ((List.filter_sublist.map Row.stampCount).sum_le_sum fun _ _ => Nat.zero_le _).trans_lt hstamps

/-- Two tables with a key in common are merged and rehashed, and a key is added again. -/
def mergedHistory (early late : Fin 12) : History :=
  .add (.rehash (.mergeFrom (.add (.add (.newFlatMap 1) [97] early 5 1) [98] late 7 0)
    (.add (.add (.newFlatMap 2) [98] late 2 4) [99] early 1 1))) [97] late 9 2

/-- A hash that takes all keys to one slot. -/
theorem go_tables_merged : (∃ m : Table UInt64,
      run (fun _ => 7) UInt32.toUInt64 (mergedHistory 0 3) = some m ∧
      IsFiniteMap (fun _ => 7) UInt64.toNat m (mergedHistory 0 3).rows) ∧
    ∃ m : Table UInt32, run (fun _ => 7) id (mergedHistory 0 3) = some m ∧
      IsFiniteMap (fun _ => 7) UInt32.toNat m (mergedHistory 0 3).rows := by
  have hfits (width : ℕ) (hwidth : 24 < 2 ^ width) : Fits width (mergedHistory 0 3).rows := by
    refine fits_of_totals (by decide) (by decide) ?_ ?_
    · exact lt_of_eq_of_lt (by decide : (lengths (mergedHistory 0 3).rows).sum = 24) hwidth
    · exact lt_of_eq_of_lt (by decide : (stamps (mergedHistory 0 3).rows).sum = 8) (by omega)
  obtain ⟨m, hm, hfinite, -⟩ :=
    go_tables.1 (fun _ => 7) (mergedHistory 0 3) (hfits 64 (by decide))
  obtain ⟨m', hm', hfinite', -⟩ :=
    go_tables.2 (fun _ => 7) (mergedHistory 0 3) (hfits 32 (by decide))
  exact ⟨⟨m, hm, hfinite⟩, m', hm', hfinite'⟩

end OneBrc.Analyzer.GoTables
