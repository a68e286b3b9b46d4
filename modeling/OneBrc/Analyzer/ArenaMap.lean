import OneBrc.Analyzer.TagMap
import OneBrc.Lib.Fallible

/-! A table of fixed length whose keys are copied to an arena, with one array of figures for the
months of all channels, and its view as a table whose entries have their keys. -/
namespace OneBrc.Analyzer
open Lib OpenAddressing StableSort

namespace ArenaMap

def capacity : ℕ := 2 ^ 15

/-- The length of the arena for the keys. -/
def keyCapacity : ℕ := capacity * 32

/-- The channels that the array of figures has room for. -/
def aggCapacity : ℕ := capacity / 2

structure Entry where
  pos : ℕ
  len : ℕ
  id : UInt16
  tag : UInt16

/-- An entry of length 0 is a free slot. -/
def Entry.isFree (e : Entry) : Bool := e.len == 0

end ArenaMap

/-- `FlatMap`: of the arena the bytes that are written, and the figures of the months, twelve for
each id. -/
structure ArenaMap where
  entries : List ArenaMap.Entry
  aggs : List (Stats UInt32)
  keyStorage : Bytes
  size : ℕ

namespace ArenaMap

def fresh : Stats UInt32 := ⟨0, 0, 0, 0, 0⟩

def empty : ArenaMap where
  entries := List.replicate capacity ⟨0, 0, 0, 0⟩
  aggs := List.replicate (aggCapacity * 12) fresh
  keyStorage := []
  size := 0

/-- The key of an entry. -/
def key (m : ArenaMap) (e : Entry) : Bytes := (m.keyStorage.drop e.pos).take e.len

/-- A key copied to the arena and put into a free slot, with the next id. -/
def insert (m : ArenaMap) (i : ℕ) (key : Bytes) (tag : UInt16) : ArenaMap where
  entries := m.entries.set i ⟨m.keyStorage.length, key.length, UInt16.ofNat m.size, tag⟩
  aggs := m.aggs
  keyStorage := m.keyStorage ++ key
  size := m.size + 1

/-- The slot of a key, which is taken when the search ends at a free one. It is `none` when the
search does not end and when the key does not fit the arena. -/
def find (m : ArenaMap) (key : Bytes) (hash : UInt32) : Option (ArenaMap × ℕ) := do
  let tag := (hash >>> 16).toUInt16
  let i ← locate Entry.isFree (fun e => decide (e.tag = tag) && e.len == key.length &&
    m.key e == key) m.entries hash.toNat
  let e ← m.entries[i]?
  if e.isFree then
    if m.keyStorage.length + key.length ≤ keyCapacity then some (m.insert i key tag, i) else none
  else some (m, i)

/-- A row of a month. The length is compared before it is cut to 16 bits. -/
def push (ml stamps : UInt32) (s : Stats UInt32) : Stats UInt32 :=
  if s.messages = 0 then
    { messages := 1, totalLen := ml, stamps, minLen := ml.toUInt16, maxLen := ml.toUInt16 }
  else
    { messages := s.messages + 1
      totalLen := s.totalLen + ml
      stamps := s.stamps + stamps
      minLen := if ml < s.minLen.toUInt32 then ml.toUInt16 else s.minLen
      maxLen := if ml > s.maxLen.toUInt32 then ml.toUInt16 else s.maxLen }

section Rows
variable (hash : Bytes → UInt32)

def add (m : ArenaMap) (row : ParsedRow) : Option ArenaMap := do
  let (m, slot) ← m.find row.path (hash row.path)
  let e ← m.entries[slot]?
  let i := e.id.toNat * 12 + row.month.val
  let s ← m.aggs[i]?
  some { m with aggs := m.aggs.set i (push row.messageLength row.stampCount s) }

/-- A month of an entry, from index `si` on, joined to the months from index `di` on. -/
def mergeMonth (other : ArenaMap) (di si : ℕ) (m : ArenaMap) (month : ℕ) : Option ArenaMap := do
  let x ← other.aggs[si + month]?
  if x.messages = 0 then some m
  else do
    let y ← m.aggs[di + month]?
    some { m with aggs := m.aggs.set (di + month) (Stats.join y x) }

def mergeEntry (other m : ArenaMap) (e : Entry) : Option ArenaMap :=
  if e.isFree then some m
  else do
    let (m, slot) ← m.find (other.key e) (hash (other.key e))
    let f ← m.entries[slot]?
    (List.range 12).foldlM (mergeMonth other (f.id.toNat * 12) (e.id.toNat * 12)) m

/-- The keys of another table are hashed again. -/
def merge (m other : ArenaMap) : Option ArenaMap :=
  other.entries.foldlM (mergeEntry hash other) m

end Rows

/-- The lines of an entry, by months. -/
def entryLines (mean : ℤ → ℤ → Bytes) (m : ArenaMap) (e : Entry) : Option (List Bytes) := do
  let cells ← (List.finRange 12).mapM fun month => do
    let s ← m.aggs[e.id.toNat * 12 + month.val]?
    some (Stats.cell mean UInt32.toNat (m.key e) month s)
  some cells.reduceOption

/-- The lines of the entries in the order of their keys. -/
def writeResult (mean : ℤ → ℤ → Bytes) (m : ArenaMap) : Option (List Bytes) := do
  some (← (sliceStable (fun a b => ByteOrder.less (m.key a) (m.key b))
    (live Entry.isFree m.entries)).mapM (entryLines mean m)).flatten

/-- The months of an id. -/
def months (m : ArenaMap) (id : ℕ) (month : Fin 12) : Stats UInt32 :=
  m.aggs.getD (id * 12 + month.val) fresh

/-- The table with the keys in the entries and the months of each id together. -/
def view (m : ArenaMap) : TagMap.Table UInt32 where
  entries := m.entries.map fun e => ⟨m.key e, e.id, e.tag⟩
  aggs := (List.range m.size).map m.months
  size := m.size

/-- The longest path of a channel. -/
def pathBound : ℕ := 104

/-- The keys stand in the arena, which has room for keys of the longest length, and the months of
ids that are not in use are fresh. -/
structure Inside (m : ArenaMap) : Prop where
  entries : ∀ e ∈ m.entries, e.pos + e.len ≤ m.keyStorage.length
  paths : ∀ e ∈ m.entries, e.len ≤ pathBound
  storage : m.keyStorage.length ≤ pathBound * m.size
  aggs : m.aggs.length = aggCapacity * 12
  fresh : ∀ i, m.size * 12 ≤ i → m.aggs.getD i fresh = fresh

section View
variable {m other : ArenaMap} {hash : Bytes → UInt32} {key : Bytes}

theorem length_key {e : Entry} (h : e.pos + e.len ≤ m.keyStorage.length) :
    (m.key e).length = e.len := by
  rw [ArenaMap.key, List.length_take, List.length_drop]
  omega

/-- Bytes that are appended to the arena change no key. -/
theorem key_insert {e : Entry} (h : e.pos + e.len ≤ m.keyStorage.length) (i : ℕ) (tag : UInt16) :
    (m.insert i key tag).key e = m.key e := by
  rw [ArenaMap.key, ArenaMap.key, insert, List.drop_append_of_le_length (by omega),
    List.take_append_of_le_length (by rw [List.length_drop]; omega)]

theorem isFree_view {e : Entry} (h : e.pos + e.len ≤ m.keyStorage.length) :
    MapEntry.isFree (⟨m.key e, e.id, e.tag⟩ : MapEntry UInt16) = e.isFree := by
  rw [MapEntry.isFree, Entry.isFree, ← length_key h, Bool.eq_iff_iff, List.isEmpty_iff, beq_iff_eq,
    List.length_eq_zero_iff]

/-- A search in the table ends where the one in its view does. -/
theorem locate_view (h : m.Inside) (key : Bytes) (n : UInt32) :
    locate MapEntry.isFree (FlatMap.isEntry (TagMap.kind UInt32 hash) key n) m.view.entries
      n.toNat = locate Entry.isFree (fun e => decide (e.tag = (n >>> 16).toUInt16) &&
        e.len == key.length && m.key e == key) m.entries n.toNat := by
  apply locate_map
  · intro e he
    exact isFree_view (h.entries e he)
  · intro e he
    simp only [FlatMap.isEntry, length_key (h.entries e he)]
    rfl

/-- The view of a table with a new key. -/
theorem view_insert (h : m.Inside) (i : ℕ) (tag : UInt16) : (m.insert i key tag).view =
    ⟨m.view.entries.set i ⟨key, UInt16.ofNat m.size, tag⟩,
      m.view.aggs ++ [fun _ => ArenaMap.fresh], m.size + 1⟩ := by
  have hentries : (m.insert i key tag).view.entries =
      m.view.entries.set i ⟨key, UInt16.ofNat m.size, tag⟩ := by
    simp only [view, insert, List.map_set]
    congr 1
    · apply List.map_congr_left
      intro e he
      rw [← key_insert (h.entries e he) i tag]
      rfl
    · simp [ArenaMap.key]
  have haggs : (m.insert i key tag).view.aggs = m.view.aggs ++ [fun _ => ArenaMap.fresh] := by
    simp only [view, insert, List.range_succ, List.map_append, List.map_singleton]
    congr 2
    funext month
    exact h.fresh _ (Nat.le_add_right _ _)
  rw [← hentries, ← haggs]
  rfl

theorem Inside.insert (h : m.Inside) (hlength : key.length ≤ pathBound) (i : ℕ) (tag : UInt16) :
    (m.insert i key tag).Inside where
  entries := by
    intro e he
    have hlen : (m.insert i key tag).keyStorage.length = m.keyStorage.length + key.length :=
      List.length_append
    rw [hlen]
    rcases List.mem_or_eq_of_mem_set he with hmem | rfl
    · have hold := h.entries e hmem
      omega
    · exact Nat.le_refl _
  paths := by
    intro e he
    rcases List.mem_or_eq_of_mem_set he with hmem | rfl
    · exact h.paths e hmem
    · exact hlength
  storage := by
    have hstorage := h.storage
    show (m.keyStorage ++ key).length ≤ pathBound * (m.size + 1)
    rw [List.length_append, Nat.mul_add, Nat.mul_one]
    omega
  aggs := h.aggs
  fresh j hj := by
    have hle : (m.size + 1) * 12 ≤ j := hj
    exact h.fresh j (by omega)

/-- A key that is found or gets the next id, as in the view. -/
theorem find_view (h : m.Inside) (hlength : key.length ≤ pathBound)
    (hsize : pathBound * (m.size + 1) ≤ keyCapacity) {n : UInt32} {t : TagMap.Table UInt32}
    {id : UInt16}
    (hfind : FlatMap.findOrInsert (TagMap.kind UInt32 hash) m.view key n = some (t, id)) :
    ∃ m' slot e, m.find key n = some (m', slot) ∧ m'.entries[slot]? = some e ∧ e.id = id ∧
      m'.view = t ∧ m'.Inside ∧ m'.size ≤ m.size + 1 := by
  obtain ⟨i, hi, hfind⟩ := Option.bind_eq_some_iff.mp hfind
  obtain ⟨e', he', hfind⟩ := Option.bind_eq_some_iff.mp hfind
  rw [locate_view h] at hi
  obtain ⟨e, he, rfl⟩ : ∃ e, m.entries[i]? = some e ∧ ⟨m.key e, e.id, e.tag⟩ = e' := by
    rw [view, List.getElem?_map, Option.map_eq_some_iff] at he'
    exact he'
  have hlt : i < m.entries.length := (List.getElem?_eq_some_iff.mp he).1
  rw [isFree_view (h.entries e (List.mem_of_getElem? he))] at hfind
  cases hfree : e.isFree with
  | false =>
    rw [hfree] at hfind
    obtain ⟨rfl, rfl⟩ := Prod.mk.inj (Option.some.inj hfind)
    refine ⟨m, i, e, ?_, he, rfl, rfl, h, Nat.le_succ _⟩
    simp only [find, hi, he, hfree, bind, Option.bind]
    rfl
  | true =>
    rw [hfree] at hfind
    obtain ⟨rfl, rfl⟩ := Prod.mk.inj (Option.some.inj hfind)
    have hroom : m.keyStorage.length + key.length ≤ keyCapacity := by
      have hstorage := h.storage
      rw [Nat.mul_add, Nat.mul_one] at hsize
      omega
    have hid : m.view.aggs.length = m.size := by
      rw [view, List.length_map, List.length_range]
    refine ⟨m.insert i key (n >>> 16).toUInt16, i,
      ⟨m.keyStorage.length, key.length, UInt16.ofNat m.size, (n >>> 16).toUInt16⟩, ?_,
      List.getElem?_set_self hlt, by rw [hid], ?_, h.insert hlength i _, Nat.le_refl _⟩
    · simp only [find, hi, he, hfree, if_true, if_pos hroom, bind, Option.bind]
    · rw [view_insert h, hid]
      rfl

theorem getD_set {l : List (Stats UInt32)} {i j : ℕ} (hi : i < l.length) (v : Stats UInt32) :
    (l.set i v).getD j fresh = if j = i then v else l.getD j fresh := by
  rw [List.getD_eq_getElem?_getD, List.getD_eq_getElem?_getD, List.getElem?_set]
  by_cases hij : i = j
  · subst hij
    simp [hi]
  · rw [if_neg hij, if_neg (Ne.symm hij)]

/-- An update of the months of an id. -/
theorem view_modify {aggs : List (Stats UInt32)} {id : ℕ}
    (f : (Fin 12 → Stats UInt32) → Fin 12 → Stats UInt32)
    (h : ∀ k < m.size, ∀ month : Fin 12, aggs.getD (k * 12 + month.val) fresh =
      if k = id then f (m.months id) month else m.months k month) :
    ({ m with aggs } : ArenaMap).view = { m.view with aggs := m.view.aggs.modify id f } := by
  have haggs : (List.range m.size).map ({ m with aggs } : ArenaMap).months =
      ((List.range m.size).map m.months).modify id f := by
    apply List.ext_getElem
    · simp
    · intro k hk _
      have hlt : k < m.size := by simpa using hk
      rw [List.getElem_modify, List.getElem_map, List.getElem_map, List.getElem_range]
      funext month
      rw [months, h k hlt]
      by_cases hid : k = id
      · subst hid
        rw [if_pos rfl, if_pos rfl]
      · rw [if_neg hid, if_neg (Ne.symm hid)]
  have hview : ({ m with aggs } : ArenaMap).view = { m.view with
      aggs := (List.range m.size).map ({ m with aggs } : ArenaMap).months } := rfl
  rw [hview, haggs]
  rfl

theorem push_eq {ml stamps : UInt32} (h : ml.toNat < 2 ^ 16) (s : Stats UInt32) :
    push ml stamps s = Stats.push id ml stamps s := by
  have hml : ml.toUInt16.toNat = ml.toNat := by
    rw [UInt32.toNat_toUInt16, Nat.mod_eq_of_lt h]
  have hmin : ml < s.minLen.toUInt32 ↔ ml.toUInt16 < s.minLen := by
    rw [UInt32.lt_iff_toNat_lt, UInt16.lt_iff_toNat_lt, UInt16.toNat_toUInt32, hml]
  have hmax : ml > s.maxLen.toUInt32 ↔ ml.toUInt16 > s.maxLen := by
    rw [gt_iff_lt, gt_iff_lt, UInt32.lt_iff_toNat_lt, UInt16.lt_iff_toNat_lt,
      UInt16.toNat_toUInt32, hml]
  simp only [push, Stats.push, hmin, hmax, id]

/-- Other figures, with fresh months beyond the ids in use. -/
theorem Inside.with_aggs (h : m.Inside) {aggs : List (Stats UInt32)}
    (hlength : aggs.length = m.aggs.length)
    (hfresh : ∀ i, m.size * 12 ≤ i → aggs.getD i ArenaMap.fresh = ArenaMap.fresh) :
    ({ m with aggs } : ArenaMap).Inside where
  entries := h.entries
  paths := h.paths
  storage := h.storage
  aggs := hlength.trans h.aggs
  fresh := hfresh

/-- The months of an id in use are in the array. -/
theorem Inside.index_lt (h : m.Inside) {n id : ℕ} (hn : pathBound * (n + 1) ≤ keyCapacity)
    (hle : m.size ≤ n + 1) (hid : id < m.size) : id * 12 + 12 ≤ m.aggs.length := by
  have hcapacity : keyCapacity < pathBound * (aggCapacity + 1) := by decide
  have hlt : n + 1 < aggCapacity + 1 :=
    Nat.lt_of_mul_lt_mul_left (Nat.lt_of_le_of_lt hn hcapacity)
  rw [h.aggs]
  omega

/-- A row is counted as in the view. -/
theorem add_view (h : m.Inside) {row : ParsedRow} (hlength : row.path.length ≤ pathBound)
    (hshort : row.messageLength.toNat < 2 ^ 16)
    (hsize : pathBound * (m.size + 1) ≤ keyCapacity) {t : TagMap.Table UInt32}
    (hadd : TagMap.add hash some id m.view row = some t) :
    ∃ m', m.add hash row = some m' ∧ m'.view = t ∧ m'.Inside := by
  have hkey : TagMap.keyOf row.path = row.path :=
    TagMap.keyOf_eq (Nat.lt_of_le_of_lt hlength (by decide))
  simp only [TagMap.add, hkey, bind, Option.bind] at hadd
  obtain ⟨⟨t₁, id⟩, hfind, hmodify⟩ := Option.bind_eq_some_iff.mp hadd
  obtain ⟨m₁, slot, e, hrun, he, rfl, rfl, h₁, hsize₁⟩ := find_view h hlength hsize hfind
  obtain ⟨hlt, hmodify⟩ := Option.ite_none_right_eq_some.mp hmodify
  rw [view, List.length_map, List.length_range] at hlt
  have hindex := h₁.index_lt hsize hsize₁ hlt
  have hmonth : e.id.toNat * 12 + row.month.val < m₁.aggs.length := by omega
  have hs : m₁.aggs[e.id.toNat * 12 + row.month.val]? = some (m₁.months e.id.toNat row.month) := by
    rw [months, List.getD_eq_getElem?_getD, List.getElem?_eq_getElem hmonth]
    rfl
  refine ⟨⟨m₁.entries, m₁.aggs.set (e.id.toNat * 12 + row.month.val)
    (push row.messageLength row.stampCount (m₁.months e.id.toNat row.month)), m₁.keyStorage,
    m₁.size⟩, ?_, ?_, ?_⟩
  · simp only [add, hrun, he, hs, bind, Option.bind]
  · rw [← Option.some.inj hmodify]
    apply view_modify
    intro k hk month
    rw [getD_set hmonth]
    by_cases hid : k = e.id.toNat
    · subst hid
      rw [if_pos rfl]
      by_cases hmonth : month = row.month
      · subst hmonth
        rw [if_pos rfl, Function.update_self, push_eq hshort]
      · rw [if_neg (by omega), Function.update_of_ne hmonth]
        rfl
    · rw [if_neg (by omega), if_neg hid]
      rfl
  · apply h₁.with_aggs List.length_set
    intro j hj
    rw [getD_set hmonth, if_neg (by omega)]
    exact h₁.fresh j hj

variable (m other) in
/-- The months of an id joined to those of another one, the first `n` of them. -/
theorem mergeMonths {di si n : ℕ} (hn : n ≤ 12) (hd : di + 12 ≤ m.aggs.length)
    (hs : si + 12 ≤ other.aggs.length) :
    ∃ aggs, (List.range n).foldlM (mergeMonth other di si) m = some { m with aggs } ∧
      aggs.length = m.aggs.length ∧ ∀ j, aggs.getD j fresh =
        if di ≤ j ∧ j < di + n then
          Stats.join (m.aggs.getD j fresh) (other.aggs.getD (si + (j - di)) fresh)
        else m.aggs.getD j fresh := by
  induction n with
  | zero =>
    refine ⟨m.aggs, rfl, rfl, fun j => ?_⟩
    rw [if_neg (by omega)]
  | succ n ih =>
    obtain ⟨aggs, hrun, hlength, haggs⟩ := ih (by omega)
    have hx : other.aggs[si + n]? = some (other.aggs.getD (si + n) fresh) := by
      rw [List.getD_eq_getElem?_getD, List.getElem?_eq_getElem (by omega)]
      rfl
    have hold : aggs.getD (di + n) fresh = m.aggs.getD (di + n) fresh := by
      rw [haggs, if_neg (by omega)]
    have hy : aggs[di + n]? = some (m.aggs.getD (di + n) fresh) := by
      rw [← hold, List.getD_eq_getElem?_getD, List.getElem?_eq_getElem (by omega)]
      rfl
    rw [List.range_succ, List.foldlM_append, hrun]
    by_cases hzero : (other.aggs.getD (si + n) fresh).messages = 0
    · refine ⟨aggs, ?_, hlength, fun j => ?_⟩
      · simp only [List.foldlM_cons, List.foldlM_nil, mergeMonth, hx, if_pos hzero, bind,
          Option.bind]
        rfl
      · rw [haggs]
        by_cases hj : j = di + n
        · subst hj
          rw [if_neg (by omega), if_pos (by omega), Nat.add_sub_cancel_left, Stats.join,
            if_pos hzero]
        · exact if_congr (by omega) rfl rfl
    · refine ⟨aggs.set (di + n) (Stats.join (m.aggs.getD (di + n) fresh)
        (other.aggs.getD (si + n) fresh)), ?_, List.length_set.trans hlength, fun j => ?_⟩
      · simp only [List.foldlM_cons, List.foldlM_nil, mergeMonth, hx, hy, if_neg hzero, bind,
          Option.bind]
        rfl
      · rw [getD_set (by omega)]
        by_cases hj : j = di + n
        · subst hj
          rw [if_pos rfl, if_pos (by omega), Nat.add_sub_cancel_left]
        · rw [if_neg hj, haggs]
          exact if_congr (by omega) rfl rfl

/-- An entry is merged as in the view. -/
theorem mergeEntry_view (h : m.Inside) (h' : other.Inside) {e : Entry} (he : e ∈ other.entries)
    (hfree : e.isFree = false) (hsize : pathBound * (m.size + 1) ≤ keyCapacity)
    (hother : pathBound * (other.size + 1) ≤ keyCapacity) {t : TagMap.Table UInt32}
    (hmerge : FlatMap.mergeEntry (TagMap.kind UInt32 hash) Stats.join (fun e => hash e.key)
      other.view m.view ⟨other.key e, e.id, e.tag⟩ = some t) :
    ∃ m', mergeEntry hash other m e = some m' ∧ m'.view = t ∧ m'.Inside := by
  have hlength : (other.key e).length ≤ pathBound := by
    rw [length_key (h'.entries e he)]
    exact h'.paths e he
  obtain ⟨⟨t₁, id⟩, hfind, hmerge⟩ := Option.bind_eq_some_iff.mp hmerge
  obtain ⟨src, hsrc, hmodify⟩ := Option.bind_eq_some_iff.mp hmerge
  obtain ⟨m₁, slot, f, hrun, hf, rfl, rfl, h₁, hsize₁⟩ := find_view h hlength hsize hfind
  obtain ⟨hlt, hmodify⟩ := Option.ite_none_right_eq_some.mp hmodify
  rw [view, List.length_map, List.length_range] at hlt
  obtain ⟨hlt', hsrc⟩ : e.id.toNat < other.size ∧ other.months e.id.toNat = src := by
    obtain ⟨hbound, hget⟩ := List.getElem?_eq_some_iff.mp hsrc
    have hbound' : e.id.toNat < other.size := by
      simpa only [view, List.length_map, List.length_range] using hbound
    refine ⟨hbound', ?_⟩
    rw [← hget]
    simp only [view, List.getElem_map, List.getElem_range]
  obtain ⟨aggs, hfold, hlen, haggs⟩ := mergeMonths m₁ other (Nat.le_refl 12)
    (h₁.index_lt hsize hsize₁ hlt) (h'.index_lt hother (Nat.le_succ _) hlt')
  refine ⟨{ m₁ with aggs }, ?_, ?_, ?_⟩
  · simp only [mergeEntry, hfree, Bool.false_eq_true, if_false, hrun, hf, bind, Option.bind]
    exact hfold
  · rw [← Option.some.inj hmodify]
    apply view_modify
    intro k hk month
    rw [haggs]
    by_cases hid : k = f.id.toNat
    · subst hid
      rw [if_pos (by omega), if_pos rfl, Nat.add_sub_cancel_left, ← hsrc]
      rfl
    · rw [if_neg (by omega), if_neg hid]
      rfl
  · apply h₁.with_aggs hlen
    intro j hj
    rw [haggs, if_neg (by omega)]
    exact h₁.fresh j hj

/-- A merge adds ids only. -/
theorem size_le_mergeEntry {τ σ : Type} [DecidableEq τ] {K : TableKind τ σ} {join : σ → σ → σ}
    {hashOf : MapEntry τ → UInt32} {other m t : FlatMap τ σ} {e : MapEntry τ}
    (h : FlatMap.mergeEntry K join hashOf other m e = some t) : m.size ≤ t.size := by
  obtain ⟨⟨t₁, id⟩, hfind, h⟩ := Option.bind_eq_some_iff.mp h
  obtain ⟨src, -, hmodify⟩ := Option.bind_eq_some_iff.mp h
  obtain ⟨-, hmodify⟩ := Option.ite_none_right_eq_some.mp hmodify
  obtain ⟨i, -, hfind⟩ := Option.bind_eq_some_iff.mp hfind
  obtain ⟨f, -, hfind⟩ := Option.bind_eq_some_iff.mp hfind
  have hle : m.size ≤ t₁.size := by
    split at hfind
    · obtain ⟨rfl, -⟩ := Prod.mk.inj (Option.some.inj hfind)
      exact Nat.le_succ _
    · obtain ⟨rfl, -⟩ := Prod.mk.inj (Option.some.inj hfind)
      exact Nat.le_refl _
  rw [← Option.some.inj hmodify]
  exact hle

theorem size_le_foldlM {step : TagMap.Table UInt32 → MapEntry UInt16 → Option (TagMap.Table UInt32)}
    (hstep : ∀ m e t, step m e = some t → m.size ≤ t.size) {es : List (MapEntry UInt16)}
    {m t : TagMap.Table UInt32} (h : es.foldlM step m = some t) : m.size ≤ t.size := by
  induction es generalizing m with
  | nil => exact Nat.le_of_eq (congrArg FlatMap.size (Option.some.inj h))
  | cons e es ih =>
    rw [List.foldlM_cons] at h
    obtain ⟨t₁, hfirst, hrest⟩ := Option.bind_eq_some_iff.mp h
    exact Nat.le_trans (hstep _ _ _ hfirst) (ih hrest)

/-- An entry of the view. -/
def entryView (m : ArenaMap) (e : Entry) : MapEntry UInt16 := ⟨m.key e, e.id, e.tag⟩

theorem live_view {es : List Entry} (h : ∀ e ∈ es, e.pos + e.len ≤ m.keyStorage.length) :
    live MapEntry.isFree (es.map m.entryView) = (live Entry.isFree es).map m.entryView := by
  induction es with
  | nil => rfl
  | cons e es ih =>
    obtain ⟨he, hes⟩ := List.forall_mem_cons.mp h
    have hhead : MapEntry.isFree (m.entryView e) = e.isFree := isFree_view he
    rw [List.map_cons]
    unfold live at ih ⊢
    rw [List.filter_cons, List.filter_cons, hhead, ih hes]
    split
    · rfl
    · rfl

/-- Tables are merged as in the view. -/
theorem merge_view (h : m.Inside) (h' : other.Inside)
    (hother : pathBound * (other.size + 1) ≤ keyCapacity) {t : TagMap.Table UInt32}
    (hsize : pathBound * (t.size + 1) ≤ keyCapacity)
    (hmerge : TagMap.mergeFrom hash some m.view other.view = some t) :
    ∃ m', m.merge hash other = some m' ∧ m'.view = t ∧ m'.Inside := by
  have hentries (es : List Entry) (hes : ∀ e ∈ es, e ∈ other.entries) {m : ArenaMap}
      (h : m.Inside) (hfold : (live MapEntry.isFree (es.map other.entryView)).foldlM
        (FlatMap.mergeEntry (TagMap.kind UInt32 hash) Stats.join (fun e => hash e.key) other.view)
        m.view = some t) :
      ∃ m', es.foldlM (mergeEntry hash other) m = some m' ∧ m'.view = t ∧ m'.Inside := by
    rw [live_view fun e he => h'.entries e (hes e he)] at hfold
    induction es generalizing m with
    | nil => exact ⟨m, rfl, Option.some.inj hfold, h⟩
    | cons e es ih =>
      obtain ⟨he, hes⟩ := List.forall_mem_cons.mp hes
      rw [List.foldlM_cons]
      unfold live at ih hfold
      rw [List.filter_cons] at hfold
      cases hfree : e.isFree with
      | true =>
        rw [hfree] at hfold
        have hskip : mergeEntry hash other m e = some m := by rw [mergeEntry, hfree, if_pos rfl]
        rw [hskip]
        exact ih hes h hfold
      | false =>
        rw [hfree, Bool.not_false, if_pos rfl, List.map_cons, List.foldlM_cons] at hfold
        obtain ⟨t₁, hfirst, hrest⟩ := Option.bind_eq_some_iff.mp hfold
        have hle : m.view.size ≤ t.size := Nat.le_trans (size_le_mergeEntry hfirst)
          (size_le_foldlM (fun _ _ _ => size_le_mergeEntry) hrest)
        have hroom : pathBound * (m.size + 1) ≤ keyCapacity :=
          Nat.le_trans (Nat.mul_le_mul_left _ (Nat.succ_le_succ hle)) hsize
        obtain ⟨m₁, hrun, rfl, h₁⟩ := mergeEntry_view h h' he hfree hroom hother hfirst
        rw [hrun]
        exact ih hes h₁ hrest
  exact hentries other.entries (fun _ he => he) h hmerge

/-- The lines of an entry are those of the view. -/
theorem entryLines_view (h : m.Inside) (hsize : pathBound * (m.size + 1) ≤ keyCapacity)
    (mean : ℤ → ℤ → Bytes) {e : Entry} {lines : List Bytes}
    (hlines : Analyzer.entryLines (Stats.cell mean UInt32.toNat) m.view (m.entryView e) =
      some lines) : m.entryLines mean e = some lines := by
  obtain ⟨agg, hagg, hlines⟩ := Option.bind_eq_some_iff.mp hlines
  obtain ⟨hlt, hagg⟩ : e.id.toNat < m.size ∧ m.months e.id.toNat = agg := by
    obtain ⟨hbound, hget⟩ := List.getElem?_eq_some_iff.mp hagg
    have hbound' : e.id.toNat < m.size := by
      simpa only [view, entryView, List.length_map, List.length_range] using hbound
    refine ⟨hbound', ?_⟩
    rw [← hget]
    simp only [view, entryView, List.getElem_map, List.getElem_range]
  have hindex := h.index_lt hsize (Nat.le_succ _) hlt
  have hcell (month : Fin 12) : m.aggs[e.id.toNat * 12 + month.val]? = some (agg month) := by
    rw [← hagg, months, List.getD_eq_getElem?_getD, List.getElem?_eq_getElem (by omega)]
    rfl
  have hcells : ((List.finRange 12).mapM fun month : Fin 12 => do
      let s ← m.aggs[e.id.toNat * 12 + month.val]?
      some (Stats.cell mean UInt32.toNat (m.key e) month s)) =
      some ((List.finRange 12).map fun month =>
        Stats.cell mean UInt32.toNat (m.key e) month (agg month)) := by
    simp only [hcell, bind, Option.bind]
    exact List.mapM_pure
  rw [entryLines, hcells, ← hlines]
  show some (((List.finRange 12).map fun month =>
    Stats.cell mean UInt32.toNat (m.key e) month (agg month)).filterMap id) = _
  rw [List.filterMap_map]
  rfl

/-- The output is that of the view. -/
theorem writeResult_view (h : m.Inside) (hsize : pathBound * (m.size + 1) ≤ keyCapacity)
    (mean : ℤ → ℤ → Bytes) {lines : List Bytes}
    (hwrite : TagMap.writeResult mean UInt32.toNat m.view = some lines) :
    m.writeResult mean = some lines := by
  have hsorted : sliceStable (fun a b => ByteOrder.less a.key b.key)
      (live MapEntry.isFree m.view.entries) = (sliceStable (fun a b =>
        ByteOrder.less (m.key a) (m.key b)) (live Entry.isFree m.entries)).map m.entryView := by
    have hlive : live MapEntry.isFree m.view.entries =
      (live Entry.isFree m.entries).map m.entryView := live_view h.entries
    rw [hlive, sliceStable_map]
    rfl
  obtain ⟨parts, hparts, hlines⟩ := Option.bind_eq_some_iff.mp hwrite
  rw [hsorted, List.mapM_map] at hparts
  have hrun := Fallible.mapM_of_mapM (fun e _ _ => entryLines_view h hsize mean) hparts
  rw [writeResult, hrun]
  exact hlines

end View
end ArenaMap
end OneBrc.Analyzer
