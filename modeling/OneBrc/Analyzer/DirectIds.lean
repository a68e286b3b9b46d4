import Mathlib.Data.List.Induction
import OneBrc.Analyzer.MphMap
import OneBrc.Lib.SlotTables

/-! The tables that give the id of a hash without a search, in the maps of the C, the C++ and the
Zig program. -/
namespace OneBrc.Analyzer.DirectIds
open Lib OpenAddressing FixedArray SlotTables

/-- A table of ids with the index of a hash. -/
structure DirectTable where
  capacity : ℕ
  index : UInt32 → ℕ
  index_lt : ∀ hash, index hash < capacity

/-- What the programs differ in: the length `2 ^ bits` of the entries, whether an entry of length 0
is free, whether a length is checked to have 16 bits, and the tables. -/
structure Program where
  bits : ℕ
  freeEmpty : Bool
  checked : Bool
  tables : List DirectTable

def aggCap : ℕ := 16384
def keyArenaCapacity : ℕ := 1048576
def contestChannels : ℕ := 10000

/-- The lower bits of a hash. -/
def lower (bits : ℕ) : DirectTable where
  capacity := 2 ^ bits
  index hash := hash.toNat % 2 ^ bits
  index_lt _ := Nat.mod_lt _ (Nat.two_pow_pos _)

theorem shift_lt {n bits : ℕ} (hn : n < 2 ^ 32) (hbits : bits ≤ 32) :
    n / 2 ^ (32 - bits) < 2 ^ bits := by
  rw [Nat.div_lt_iff_lt_mul (Nat.two_pow_pos _), ← Nat.pow_add]
  exact hn.trans_eq (congrArg (2 ^ ·) (by omega))

/-- The upper bits of a hash. -/
def upper (bits : ℕ) (h : bits ≤ 32) : DirectTable where
  capacity := 2 ^ bits
  index hash := hash.toNat / 2 ^ (32 - bits)
  index_lt hash := shift_lt hash.toNat_lt h

/-- `fast3_index`: the upper bits of a product. -/
def fast3 (bits : ℕ) (h : bits ≤ 32) : DirectTable where
  capacity := 2 ^ bits
  index hash := hash.toNat * 0x9e3779b1 % 2 ^ 32 / 2 ^ (32 - bits)
  index_lt _ := shift_lt (Nat.mod_lt _ (by decide)) h

def c : Program := ⟨14, false, false, [lower 18, upper 16 (by decide), fast3 16 (by decide)]⟩

def cpp : Program := ⟨14, false, false, [lower 17, upper 17 (by decide), fast3 17 (by decide)]⟩

def zig : Program := ⟨17, true, true, [lower 16, upper 16 (by decide)]⟩

structure Entry where
  key : Bytes
  hash : UInt32
  len : UInt16
  id : UInt16

/-- The key of an entry that has one. -/
def keyOf (e : Option Entry) : Bytes := e.elim [] Entry.key

structure FlatMap where
  entries : List (Option Entry)
  fastIds : List (ℕ → ℕ)
  size : ℕ
  keyUsed : ℕ

variable (P : Program)

def mapInit : FlatMap := ⟨List.replicate (2 ^ P.bits) none, P.tables.map fun _ _ => 0, 0, 0⟩

def isFree : Option Entry → Bool
  | none => true
  | some e => P.freeEmpty && e.len == 0

/-- The hash, the length and the bytes are compared. -/
def isEntry (key : Bytes) (hash : UInt32) : Option Entry → Bool
  | none => false
  | some e => decide (e.hash = hash) && e.len.toNat == key.length && e.key.take key.length == key

/-- The id in each of the tables, or the mark of a collision. -/
def writeFast (hash : UInt32) (id : UInt16) :
    List DirectTable → List (ℕ → ℕ) → Option (List (ℕ → ℕ))
  | t :: ts, fast :: fasts => do
      let found ← read t.capacity fast (t.index hash)
      let fast ← write t.capacity fast (t.index hash)
        (if found ≠ 0 then 65535 else (id.toNat * 3 + 1) % 2 ^ 16)
      let fasts ← writeFast hash id ts fasts
      some (fast :: fasts)
  | _, _ => some []

/-- A key put into a free entry; `none` also where the program ends for want of room. -/
def mapInsert (m : FlatMap) (i : ℕ) (key : Bytes) (hash : UInt32) : Option (FlatMap × Entry) :=
  if m.size = aggCap then none
  else if keyArenaCapacity < m.keyUsed + key.length then none
  else do
    let e : Entry := ⟨key, hash, UInt16.ofNat key.length, UInt16.ofNat m.size⟩
    let fastIds ← writeFast hash e.id P.tables m.fastIds
    some (⟨m.entries.set i (some e), fastIds, m.size + 1, m.keyUsed + key.length⟩, e)

/-- `map_find`, which is `find` in Zig. -/
def mapFind (m : FlatMap) (key : Bytes) (hash : UInt32) : Option (FlatMap × Entry) :=
  if P.checked && 2 ^ 16 ≤ key.length then none
  else do
    let i ← locate (isFree P) (isEntry key hash) m.entries hash.toNat
    let e ← m.entries[i]?
    if isFree P e then mapInsert P m i key hash else e.map (m, ·)

/-- `map_find_readonly`; a free entry ends the program. -/
def mapFindReadonly (m : FlatMap) (key : Bytes) (hash : UInt32) : Option Entry := do
  let i ← locate (isFree P) (isEntry key hash) m.entries hash.toNat
  let e ← m.entries[i]?
  if isFree P e then none else e

/-- What the tables give, one after the other as long as they give the mark. -/
def direct (hash : UInt32) : List DirectTable → List (ℕ → ℕ) → Option ℕ
  | t :: ts, fast :: fasts => do
      let id ← read t.capacity fast (t.index hash)
      if id = 65535 then direct hash ts fasts else some id
  | _, _ => some 65535

def mapFindSlot3Plus1 (m : FlatMap) (key : Bytes) (hash : UInt32) : Option (FlatMap × ℕ) := do
  let id ← if m.size = contestChannels then direct hash P.tables m.fastIds else some 65535
  if id ≠ 65535 then some (m, id)
  else
    let (m, e) ← mapFind P m key hash
    some (m, e.id.toNat * 3 + 1)

/-- `dictionary_find_slot3_plus1` of the C++ program. -/
def dictionaryFindSlot3Plus1 (m : FlatMap) (key : Bytes) (hash : UInt32) : Option ℕ := do
  let id ← direct hash P.tables m.fastIds
  if id ≠ 65535 then some id
  else
    let e ← mapFindReadonly P m key hash
    some (e.id.toNat * 3 + 1)

/-- The index of the month's accumulator. -/
def resolve (m : FlatMap) (key : Bytes) (hash : UInt32) (month : ℕ) : Option (FlatMap × ℕ) := do
  let stored ← if m.size = contestChannels then direct hash P.tables m.fastIds else some 65535
  if stored ≠ 0 ∧ stored ≠ 65535 then some (m, (stored - 1) * 4 + month)
  else
    let (m, e) ← mapFind P m key hash
    some (m, e.id.toNat * 3 * 4 + month)

/-- Searches one after the other. -/
def run (hashBytes : Bytes → UInt32) (keys : List Bytes) : Option FlatMap :=
  keys.foldlM (fun m key => (mapFind P m key (hashBytes key)).map Prod.fst) (mapInit P)

/-- The entries with a key. -/
def FlatMap.live (m : FlatMap) : List Entry := m.entries.reduceOption

/-- What a table holds for the entries. -/
def stored (t : DirectTable) (es : List Entry) : ℕ → ℕ :=
  slots 65535 (es.map fun e => (t.index e.hash, e.id.toNat * 3 + 1))

/-- The keys that the programs are made for. -/
def Accepts (key : Bytes) : Prop := key.length < 2 ^ 16 ∧ (P.freeEmpty = true → key ≠ [])

/-- What holds of a map after the searches for `keys`. -/
structure Grown (hashBytes : Bytes → UInt32) (keys : List Bytes) (m : FlatMap) : Prop where
  sound : Sound (isFree P) keyOf (fun key => (hashBytes key).toNat) m.entries
  hash : ∀ e ∈ m.live, e.hash = hashBytes e.key
  len : ∀ e ∈ m.live, e.len.toNat = e.key.length
  accepts : ∀ e ∈ m.live, Accepts P e.key
  keys : ∀ key, key ∈ keys ↔ ∃ e ∈ m.live, e.key = key
  ids : (m.live.map fun e => e.id.toNat).Perm (List.range m.size)
  size : m.size ≤ aggCap
  fastIds : m.fastIds = P.tables.map fun t => stored t m.live

variable {P} {hashBytes : Bytes → UInt32} {keys : List Bytes} {m m' : FlatMap} {e : Entry}
  {key : Bytes}

section Tables
variable {es es' : List Entry}

theorem stored_perm (h : es.Perm es') (t : DirectTable) : stored t es = stored t es' :=
  slots_perm (h.map _)

/-- A new entry is recorded in every table. -/
theorem writeFast_stored (hid : e.id.toNat < aggCap) (ts : List DirectTable) :
    writeFast e.hash e.id ts (ts.map fun t => stored t es) =
      some (ts.map fun t => stored t (e :: es)) := by
  induction ts with
  | nil => rfl
  | cons t ts ih =>
    have hvalue : (e.id.toNat * 3 + 1) % 2 ^ 16 = e.id.toNat * 3 + 1 := by
      unfold aggCap at hid
      omega
    have hvalues : ∀ p ∈ es.map (fun e => (t.index e.hash, e.id.toNat * 3 + 1)), p.2 ≠ 0 := by
      intro p hp
      obtain ⟨f, -, rfl⟩ := List.mem_map.mp hp
      exact Nat.succ_ne_zero _
    have hrecord : record 65535 (stored t es) (t.index e.hash) (e.id.toNat * 3 + 1) =
        stored t (e :: es) := record_slots (by decide) hvalues _ _
    simp only [List.map_cons, writeFast, read_of_lt (t.index_lt e.hash),
      write_of_lt (t.index_lt e.hash), ih, hvalue, bind, Option.bind]
    exact congrArg (fun fast => some (fast :: _)) hrecord

/-- The tables give the id of an entry or the mark. -/
theorem direct_stored (he : e ∈ es) (ts : List DirectTable) :
    direct e.hash ts (ts.map fun t => stored t es) = some 65535 ∨
      direct e.hash ts (ts.map fun t => stored t es) = some (e.id.toNat * 3 + 1) := by
  induction ts with
  | nil => exact .inl rfl
  | cons t ts ih =>
    have hmem : (t.index e.hash, e.id.toNat * 3 + 1) ∈
        es.map fun e => (t.index e.hash, e.id.toNat * 3 + 1) := List.mem_map_of_mem he
    simp only [List.map_cons, direct, read_of_lt (t.index_lt e.hash), bind, Option.bind]
    have hslot : slots 65535 _ (t.index e.hash) = 65535 ∨ _ := slots_of_mem hmem
    rcases hslot with hmark | ⟨hvalue, -⟩
    · have hmark : stored t es (t.index e.hash) = 65535 := hmark
      rw [if_pos hmark]
      exact ih
    · have hvalue : stored t es (t.index e.hash) = e.id.toNat * 3 + 1 := hvalue
      by_cases hmark : stored t es (t.index e.hash) = 65535
      · rw [if_pos hmark]
        exact ih
      · rw [if_neg hmark, hvalue]
        exact .inr rfl

end Tables

section Searches

theorem mem_live : e ∈ m.live ↔ some e ∈ m.entries := List.reduceOption_mem_iff

theorem isFree_of_accepts (h : Accepts P e.key) (hlen : e.len.toNat = e.key.length) :
    isFree P (some e) = false := by
  cases hfree : P.freeEmpty with
  | false => simp [isFree, hfree]
  | true =>
    have hne : e.len ≠ 0 := by
      intro hzero
      rw [hzero] at hlen
      exact h.2 hfree (List.length_eq_zero_iff.mp hlen.symm)
    simp [isFree, hne]

theorem Grown.isFree (h : Grown P hashBytes keys m) (he : e ∈ m.live) :
    isFree P (some e) = false := isFree_of_accepts (h.accepts e he) (h.len e he)

theorem checked_of_lt (h : key.length < 2 ^ 16) :
    (P.checked && decide (2 ^ 16 ≤ key.length)) = false := by
  have hlt : ¬2 ^ 16 ≤ key.length := Nat.not_le.mpr h
  rw [decide_eq_false hlt, Bool.and_false]

/-- A free entry has no key. -/
theorem Grown.eq_none (h : Grown P hashBytes keys m) {f : Option Entry} (hf : f ∈ m.entries)
    (hfree : DirectIds.isFree P f = true) : f = none := by
  cases f with
  | none => rfl
  | some f => exact absurd hfree (by rw [h.isFree (mem_live.mpr hf)]; decide)

/-- The search looks for the key alone. -/
theorem Grown.locate_isEntry (h : Grown P hashBytes keys m) (key : Bytes) (n : ℕ) :
    locate (DirectIds.isFree P) (isEntry key (hashBytes key)) m.entries n =
      locate (DirectIds.isFree P) (fun f => decide (keyOf f = key)) m.entries n := by
  apply locate_congr
  intro f hf
  obtain ⟨hmem, hfree⟩ := OpenAddressing.mem_live.mp hf
  cases f with
  | none => cases hfree
  | some f =>
    have hlive := mem_live.mpr hmem
    by_cases hkey : f.key = key
    · subst hkey
      simp [isEntry, keyOf, h.hash f hlive, h.len f hlive]
    · have hother : ¬(f.len.toNat = key.length ∧ f.key.take key.length = key) := by
        rintro ⟨hlen, htake⟩
        rw [h.len f hlive] at hlen
        exact hkey (by rwa [← hlen, List.take_length] at htake)
      have hfalse : (f.len.toNat == key.length && f.key.take key.length == key) = false := by
        simpa using hother
      simp only [isEntry, Bool.and_assoc, hfalse, Bool.and_false, keyOf, Option.elim_some, hkey,
        decide_false]

theorem Grown.init : Grown P hashBytes [] (mapInit P) := by
  have hlive : (mapInit P).live = [] := List.reduceOption_replicate_none
  constructor
  case sound => exact Sound.replicate rfl P.bits
  case keys => simp [hlive]
  case ids =>
    rw [hlive]
    exact List.Perm.refl _
  case size => exact Nat.zero_le _
  case fastIds =>
    rw [hlive]
    rfl
  all_goals
    rw [hlive]
    intro e he
    exact absurd he List.not_mem_nil

/-- The search for a key of the map. -/
theorem Grown.mapFind_of_mem (h : Grown P hashBytes keys m) (he : e ∈ m.live) :
    mapFind P m e.key (hashBytes e.key) = some (m, e) ∧
      mapFindReadonly P m e.key (hashBytes e.key) = some e := by
  obtain ⟨i, hi⟩ := List.mem_iff_getElem?.mp (mem_live.mp he)
  have hreach := h.sound.reach i (some e) hi (h.isFree he)
  have hloc : locate (DirectIds.isFree P) (isEntry e.key (hashBytes e.key)) m.entries
      (hashBytes e.key).toNat = some i := by
    rw [h.locate_isEntry]
    exact hreach
  constructor
  · unfold mapFind
    rw [checked_of_lt (h.accepts e he).1, if_neg (by decide)]
    simp [hloc, hi, h.isFree he]
  · simp [mapFindReadonly, hloc, hi, h.isFree he]

/-- What an insertion does, where there is room. -/
theorem mapInsert_eq {i : ℕ} {hash : UInt32} (h : mapInsert P m i key hash = some (m', e)) :
    m.size ≠ aggCap ∧ e = ⟨key, hash, UInt16.ofNat key.length, UInt16.ofNat m.size⟩ ∧
      m'.entries = m.entries.set i (some e) ∧ m'.size = m.size + 1 ∧
      writeFast hash e.id P.tables m.fastIds = some m'.fastIds := by
  unfold mapInsert at h
  split_ifs at h with hsize hkeys
  obtain ⟨fastIds, hfast, heq⟩ := Option.bind_eq_some_iff.mp h
  obtain ⟨rfl, rfl⟩ := Prod.mk.inj (Option.some.inj heq)
  exact ⟨hsize, rfl, rfl, rfl, hfast⟩

/-- A search that finds its key. -/
theorem Grown.found (h : Grown P hashBytes keys m) (he : e ∈ m.live) (hkey : e.key = key) :
    Grown P hashBytes (keys ++ [key]) m := by
  refine { h with keys := fun k => ?_ }
  rw [List.mem_append, List.mem_singleton, h.keys]
  constructor
  · rintro (hk | rfl)
    · exact hk
    · exact ⟨e, he, hkey⟩
  · exact .inl

/-- A search that ends at a free entry, where the key is put. -/
theorem Grown.inserted (h : Grown P hashBytes keys m) (hkey : Accepts P key) {i : ℕ}
    (hi : m.entries[i]? = some none)
    (hloc : locate (DirectIds.isFree P) (fun f => decide (keyOf f = key)) m.entries
      (hashBytes key).toNat = some i)
    (hinsert : mapInsert P m i key (hashBytes key) = some (m', e)) :
    Grown P hashBytes (keys ++ [key]) m' := by
  obtain ⟨hroom, hentry, hentries, hsize, hfast⟩ := mapInsert_eq hinsert
  have hperm : m'.live.Perm (e :: m.live) := by
    rw [FlatMap.live, hentries]
    exact Mph.reduceOption_set hi e
  have hlt : m.size < aggCap := lt_of_le_of_ne h.size hroom
  have hid : e.id.toNat = m.size := by
    rw [hentry, UInt16.toNat_ofNat', Nat.mod_eq_of_lt (lt_trans hlt (by decide))]
  have hlen : e.len.toNat = e.key.length := by
    rw [hentry, UInt16.toNat_ofNat', Nat.mod_eq_of_lt hkey.1]
  have hekey : e.key = key := by rw [hentry]
  have hehash : e.hash = hashBytes key := by rw [hentry]
  have haccepts : Accepts P e.key := hekey ▸ hkey
  have hlive {q : Entry → Prop} (hnew : q e) (hold : ∀ f ∈ m.live, q f) : ∀ f ∈ m'.live, q f := by
    intro f hf
    rcases List.mem_cons.mp (hperm.mem_iff.mp hf) with rfl | hf
    · exact hnew
    · exact hold f hf
  constructor
  case sound =>
    rw [hentries]
    refine h.sound.set ?_ (isFree_of_accepts haccepts hlen)
    have hof : keyOf (some e) = key := hekey
    rw [hof]
    exact hloc
  case hash => exact hlive (by rw [hehash, hekey]) h.hash
  case len => exact hlive hlen h.len
  case accepts => exact hlive haccepts h.accepts
  case keys =>
    intro k
    rw [List.mem_append, List.mem_singleton, h.keys]
    constructor
    · rintro (⟨f, hf, rfl⟩ | rfl)
      · exact ⟨f, hperm.mem_iff.mpr (List.mem_cons_of_mem _ hf), rfl⟩
      · exact ⟨e, hperm.mem_iff.mpr List.mem_cons_self, hekey⟩
    · rintro ⟨f, hf, rfl⟩
      rcases List.mem_cons.mp (hperm.mem_iff.mp hf) with rfl | hf
      · exact .inr hekey
      · exact .inl ⟨f, hf, rfl⟩
  case ids =>
    rw [hsize, List.range_succ]
    refine (hperm.map _).trans ?_
    rw [List.map_cons, hid]
    exact (h.ids.cons m.size).trans (List.perm_append_singleton m.size _).symm
  case size =>
    rw [hsize]
    exact hlt
  case fastIds =>
    rw [← hehash, h.fastIds, writeFast_stored (hid ▸ hlt)] at hfast
    rw [← Option.some.inj hfast]
    exact List.map_congr_left fun t _ => (stored_perm hperm t).symm

/-- One search. -/
theorem Grown.mapFind (h : Grown P hashBytes keys m) (hkey : Accepts P key)
    (hfind : mapFind P m key (hashBytes key) = some (m', e)) :
    Grown P hashBytes (keys ++ [key]) m' := by
  unfold DirectIds.mapFind at hfind
  rw [checked_of_lt hkey.1, if_neg (by decide), h.locate_isEntry] at hfind
  obtain ⟨i, hloc, hfind⟩ := Option.bind_eq_some_iff.mp hfind
  obtain ⟨f, hi, hfind⟩ := Option.bind_eq_some_iff.mp hfind
  have hmem : f ∈ m.entries := List.mem_of_getElem? hi
  cases hfree : DirectIds.isFree P f with
  | false =>
    rw [hfree, if_neg (by decide)] at hfind
    obtain ⟨f, rfl, heq⟩ := Option.map_eq_some_iff.mp hfind
    obtain ⟨rfl, rfl⟩ := Prod.mk.inj heq
    have hfound : keyOf (some f) = key := Sound.key_of_locate hloc hi hfree
    exact h.found (mem_live.mpr hmem) hfound
  | true =>
    rw [hfree, if_pos rfl] at hfind
    obtain rfl := h.eq_none hmem hfree
    exact h.inserted hkey hi hloc hfind

/-- Any searches, one after the other. -/
theorem grown_run (hkeys : ∀ key ∈ keys, Accepts P key) (hrun : run P hashBytes keys = some m) :
    Grown P hashBytes keys m := by
  induction keys using List.reverseRecOn generalizing m with
  | nil =>
    obtain rfl := Option.some.inj hrun
    exact .init
  | append_singleton keys key ih =>
    rw [run, List.foldlM_append] at hrun
    obtain ⟨m₁, hrun₁, hstep⟩ := Option.bind_eq_some_iff.mp hrun
    have hstep : (DirectIds.mapFind P m₁ key (hashBytes key)).map Prod.fst = some m := by
      simpa using hstep
    obtain ⟨⟨m₂, e⟩, hfind, rfl⟩ := Option.map_eq_some_iff.mp hstep
    have h := ih (fun k hk => hkeys k (List.mem_append_left _ hk)) hrun₁
    exact h.mapFind (hkeys key (by simp)) hfind

end Searches

section Dictionary

/-- An entry without its length. -/
def Entry.bare (e : Entry) : Mph.Entry := ⟨e.key, e.hash, e.id⟩

/-- The map of the C program and the one from which its dictionary is built. -/
structure Agrees (m : FlatMap) (g : Mph.Growing) : Prop where
  entries : g.dictionary.entries = m.entries.map (Option.map Entry.bare)
  fastIds : m.fastIds = [g.dictionary.fastIds, g.dictionary.fast2Ids, g.dictionary.fast3Ids]
  size : g.size = m.size
  keyUsed : g.keyUsed = m.keyUsed

theorem agrees_mapInit : Agrees (mapInit c) Mph.mapInit where
  entries := by
    rw [mapInit, List.map_replicate, Mph.mapInit]
    rfl
  fastIds := rfl
  size := rfl
  keyUsed := rfl

theorem mph_writeFast {capacity i : ℕ} (hi : i < capacity) (fast : ℕ → ℕ) (id : UInt16) :
    Mph.writeFast capacity fast i id = some (Function.update fast i
      (if fast i ≠ 0 then 65535 else (id.toNat * 3 + 1) % 2 ^ 16)) := by
  simp only [Mph.writeFast, read_of_lt hi, write_of_lt hi, bind, Option.bind]

theorem writeFast_cons (hash : UInt32) (id : UInt16) (t : DirectTable) (ts : List DirectTable)
    (fast : ℕ → ℕ) (fasts : List (ℕ → ℕ)) : writeFast hash id (t :: ts) (fast :: fasts) =
      (writeFast hash id ts fasts).map (Function.update fast (t.index hash)
        (if fast (t.index hash) ≠ 0 then 65535 else (id.toNat * 3 + 1) % 2 ^ 16) :: ·) := by
  simp only [writeFast, read_of_lt (t.index_lt hash), write_of_lt (t.index_lt hash), bind,
    Option.bind]
  cases writeFast hash id ts fasts <;> rfl

theorem lower_index (hash : UInt32) : (lower 18).index hash = hash.toNat % Mph.fastCapacity := by
  unfold lower
  rfl

theorem upper_index (hash : UInt32) :
    (upper 16 (by decide)).index hash = hash.toNat / 2 ^ 16 := by
  unfold upper
  rfl

theorem fast3_index (hash : UInt32) :
    (fast3 16 (by decide)).index hash = Mph.fast3Index hash.toNat := by
  unfold Mph.fast3Index fast3
  rfl

/-- The tables of the C program. -/
theorem writeFast_c (hash : UInt32) (id : UInt16) (fast fast2 fast3 : ℕ → ℕ) :
    writeFast hash id c.tables [fast, fast2, fast3] = (do
      let fast ← Mph.writeFast Mph.fastCapacity fast (hash.toNat % Mph.fastCapacity) id
      let fast2 ← Mph.writeFast Mph.fast2Capacity fast2 (hash.toNat / 2 ^ 16) id
      let fast3 ← Mph.writeFast Mph.fast3Capacity fast3 (Mph.fast3Index hash.toNat) id
      some [fast, fast2, fast3]) := by
  have htables : c.tables = [lower 18, upper 16 (by decide), DirectIds.fast3 16 (by decide)] := rfl
  have hlower : hash.toNat % Mph.fastCapacity < Mph.fastCapacity := Nat.mod_lt _ (by decide)
  have hupper : hash.toNat / 2 ^ 16 < Mph.fast2Capacity := by
    have hlt := hash.toNat_lt
    unfold Mph.fast2Capacity
    omega
  have hthird : Mph.fast3Index hash.toNat < Mph.fast3Capacity := by
    unfold Mph.fast3Index Mph.fast3Capacity
    omega
  rw [htables, writeFast_cons, writeFast_cons, writeFast_cons, lower_index, upper_index,
    fast3_index, mph_writeFast hlower, mph_writeFast hupper, mph_writeFast hthird]
  generalize hash.toNat % Mph.fastCapacity = i
  generalize hash.toNat / 2 ^ 16 = j
  generalize Mph.fast3Index hash.toNat = k
  rfl

/-- Both insert alike. -/
theorem Agrees.mapInsert {g : Mph.Growing} (h : Agrees m g) {i : ℕ} {hash : UInt32}
    (hinsert : mapInsert c m i key hash = some (m', e)) :
    ∃ g', Mph.mapInsert g i key hash = some g' ∧ Agrees m' g' := by
  unfold DirectIds.mapInsert at hinsert
  split_ifs at hinsert with hsize hroom
  obtain ⟨fastIds, hwrite, heq⟩ := Option.bind_eq_some_iff.mp hinsert
  obtain ⟨rfl, rfl⟩ := Prod.mk.inj (Option.some.inj heq)
  rw [h.fastIds, writeFast_c] at hwrite
  obtain ⟨fast, hfast, hrest⟩ := Option.bind_eq_some_iff.mp hwrite
  obtain ⟨fast2, hfast2, hrest⟩ := Option.bind_eq_some_iff.mp hrest
  obtain ⟨fast3, hfast3, hrest⟩ := Option.bind_eq_some_iff.mp hrest
  obtain rfl := Option.some.inj hrest
  have hsize' : ¬m.size = Mph.mapCapacity := hsize
  have hroom' : ¬Mph.keyArenaCapacity < m.keyUsed + key.length := hroom
  refine ⟨⟨⟨g.dictionary.entries.set i (some ⟨key, hash, UInt16.ofNat m.size⟩), fast, fast2,
    fast3⟩, m.size + 1, m.keyUsed + key.length⟩, ?_, ?_, rfl, rfl, rfl⟩
  · unfold Mph.mapInsert
    rw [h.size, h.keyUsed, if_neg hsize', if_neg hroom']
    dsimp only at hfast hfast2 hfast3 ⊢
    rw [hfast, hfast2, hfast3]
    rfl
  · dsimp only
    rw [h.entries, List.map_set]
    rfl

theorem locate_map {α β : Type} {free same : β → Bool} (f : α → β) (slots : List α) (n : ℕ) :
    locate free same (slots.map f) n = locate (free ∘ f) (same ∘ f) slots n := by
  unfold locate
  rw [List.length_map]
  apply probe_congr
  intro i
  unfold stops
  rw [List.getElem?_map]
  cases slots[i]? <;> rfl

/-- Both search alike. -/
theorem Agrees.mapFind {g : Mph.Growing} (h : Agrees m g) (hm : Grown c hashBytes keys m)
    (hkey : Accepts c key) (hfind : mapFind c m key (hashBytes key) = some (m', e)) :
    ∃ g', Mph.mapFind g key (hashBytes key) = some g' ∧ Agrees m' g' := by
  unfold DirectIds.mapFind at hfind
  rw [checked_of_lt hkey.1, if_neg (by decide), hm.locate_isEntry] at hfind
  obtain ⟨i, hloc, hfind⟩ := Option.bind_eq_some_iff.mp hfind
  obtain ⟨f, hi, hfind⟩ := Option.bind_eq_some_iff.mp hfind
  have hlocate : locate Option.isNone (Mph.isEntry key (hashBytes key)) g.dictionary.entries
      (hashBytes key).toNat = some i := by
    have hfree : Option.isNone ∘ Option.map Entry.bare = DirectIds.isFree c := by
      funext f
      cases f <;> rfl
    rw [h.entries, locate_map, hfree, ← hloc]
    apply locate_congr
    intro f hf
    obtain ⟨hmem, hlive⟩ := OpenAddressing.mem_live.mp hf
    cases f with
    | none => cases hlive
    | some f =>
      have hhash := hm.hash f (mem_live.mpr hmem)
      by_cases hfkey : f.key = key
      · subst hfkey
        simp [Mph.isEntry, Entry.bare, keyOf, hhash]
      · simp [Mph.isEntry, Entry.bare, keyOf, hfkey]
  have hget : g.dictionary.entries[i]? = some (f.map Entry.bare) := by
    rw [h.entries, List.getElem?_map, hi, Option.map_some]
  cases f with
  | none =>
    obtain ⟨g', hg, hagrees⟩ := h.mapInsert hfind
    refine ⟨g', ?_, hagrees⟩
    simp only [Mph.mapFind, hlocate, hget, bind, Option.bind, Option.map_none, hg]
  | some f =>
    obtain ⟨rfl, rfl⟩ := Prod.mk.inj (Option.some.inj hfind)
    refine ⟨g, ?_, h⟩
    simp only [Mph.mapFind, hlocate, hget, bind, Option.bind, Option.map_some]

/-- The two maps after the same searches. -/
theorem agrees_run (hkeys : ∀ key ∈ keys, Accepts c key) (hrun : run c hashBytes keys = some m) :
    ∃ g, keys.foldlM (fun g key => Mph.mapFind g key (hashBytes key)) Mph.mapInit = some g ∧
      Agrees m g := by
  induction keys using List.reverseRecOn generalizing m with
  | nil =>
    obtain rfl := Option.some.inj hrun
    exact ⟨Mph.mapInit, rfl, agrees_mapInit⟩
  | append_singleton keys key ih =>
    have hkeys' : ∀ k ∈ keys, Accepts c k := fun k hk => hkeys k (List.mem_append_left _ hk)
    rw [run, List.foldlM_append] at hrun
    obtain ⟨m₁, hrun₁, hstep⟩ := Option.bind_eq_some_iff.mp hrun
    have hstep : (DirectIds.mapFind c m₁ key (hashBytes key)).map Prod.fst = some m := by
      simpa using hstep
    obtain ⟨⟨m₂, e⟩, hfind, rfl⟩ := Option.map_eq_some_iff.mp hstep
    obtain ⟨g, hg, hagrees⟩ := ih hkeys' hrun₁
    obtain ⟨g', hg', hagrees'⟩ :=
      hagrees.mapFind (grown_run hkeys' hrun₁) (hkeys key (by simp)) hfind
    refine ⟨g', ?_, hagrees'⟩
    rw [List.foldlM_append, hg]
    simpa using hg'

end Dictionary

section Results

/-- A slot says how many of the keys have its index, and the id of the only one. -/
structure SlotSpec (t : DirectTable) (es : List Entry) (fast : ℕ → ℕ) (i : ℕ) : Prop where
  none : (∀ e ∈ es, t.index e.hash ≠ i) → fast i = 0
  one : ∀ e ∈ es, t.index e.hash = i → (∀ e' ∈ es, t.index e'.hash = i → e' = e) →
    fast i = e.id.toNat * 3 + 1
  more : ∀ e ∈ es, ∀ e' ∈ es, t.index e.hash = i → t.index e'.hash = i → e ≠ e' → fast i = 65535

theorem Grown.id_lt (h : Grown P hashBytes keys m) (he : e ∈ m.live) : e.id.toNat < m.size :=
  List.mem_range.mp (h.ids.mem_iff.mp (List.mem_map_of_mem he))

theorem Grown.length_live (h : Grown P hashBytes keys m) : m.live.length = m.size := by
  have hlength := h.ids.length_eq
  rwa [List.length_map, List.length_range] at hlength

/-- Entries with the same id are the same. -/
theorem Grown.id_inj (h : Grown P hashBytes keys m) {e' : Entry} (he : e ∈ m.live)
    (he' : e' ∈ m.live) (hid : e.id.toNat = e'.id.toNat) : e = e' := by
  have hnodup : (m.live.map fun e => e.id.toNat).Nodup := h.ids.nodup_iff.mpr List.nodup_range
  exact List.inj_on_of_nodup_map hnodup he he' hid

theorem Grown.nodup_live (h : Grown P hashBytes keys m) : m.live.Nodup :=
  (h.ids.nodup_iff.mpr List.nodup_range).of_map _

theorem Grown.slotSpec (h : Grown P hashBytes keys m) (t : DirectTable) (i : ℕ) :
    SlotSpec t m.live (stored t m.live) i where
  none hnone := by
    apply slots_eq_zero
    intro p hp
    obtain ⟨e, he, rfl⟩ := List.mem_map.mp hp
    exact hnone e he
  one e he hindex hone := by
    subst hindex
    refine slots_eq_value ?_ (List.mem_map_of_mem he) ?_
    · refine h.nodup_live.map_on ?_
      intro f hf f' hf' heq
      have hid := congrArg Prod.snd heq
      dsimp only at hid
      exact h.id_inj hf hf' (by omega)
    · intro q hq hq'
      obtain ⟨f, hf, rfl⟩ := List.mem_map.mp hq
      rw [hone f hf hq']
  more e he e' he' hindex hindex' hne := by
    subst hindex
    refine slots_eq_mark (List.mem_map_of_mem he) (List.mem_map_of_mem he') hindex' ?_
    intro heq
    have hid := congrArg Prod.snd heq
    dsimp only at hid
    exact hne (h.id_inj he he' (by omega))

theorem Grown.key_inj (h : Grown P hashBytes keys m) {e' : Entry} (he : e ∈ m.live)
    (he' : e' ∈ m.live) (hkey : e.key = e'.key) : e = e' := by
  have hfind := (h.mapFind_of_mem he).1
  rw [hkey, (h.mapFind_of_mem he').1] at hfind
  exact (Prod.mk.inj (Option.some.inj hfind)).2.symm

theorem Grown.direct (h : Grown P hashBytes keys m) (he : e ∈ m.live) :
    direct (hashBytes e.key) P.tables m.fastIds = some 65535 ∨
      direct (hashBytes e.key) P.tables m.fastIds = some (e.id.toNat * 3 + 1) := by
  rw [h.fastIds, ← h.hash e he]
  exact direct_stored he P.tables

theorem Grown.stored_lt (h : Grown P hashBytes keys m) (he : e ∈ m.live) :
    e.id.toNat * 3 + 1 < 65535 := by
  have hid := h.id_lt he
  have hsize := h.size
  unfold aggCap at hsize
  omega

/-- A key of the map, by all the ways. -/
theorem Grown.find_of_mem (h : Grown P hashBytes keys m) (he : e ∈ m.live) :
    mapFindSlot3Plus1 P m e.key (hashBytes e.key) = some (m, e.id.toNat * 3 + 1) ∧
      dictionaryFindSlot3Plus1 P m e.key (hashBytes e.key) = some (e.id.toNat * 3 + 1) ∧
      ∀ month, resolve P m e.key (hashBytes e.key) month =
        some (m, e.id.toNat * 3 * 4 + month) := by
  obtain ⟨hfind, hreadonly⟩ := h.mapFind_of_mem he
  have hne : e.id.toNat * 3 + 1 ≠ 65535 := (h.stored_lt he).ne
  refine ⟨?_, ?_, fun month => ?_⟩
  · unfold mapFindSlot3Plus1
    by_cases hsize : m.size = contestChannels
    · rcases h.direct he with hdirect | hdirect <;> simp [hsize, hdirect, hfind]
    · simp [hsize, hfind]
  · unfold dictionaryFindSlot3Plus1
    rcases h.direct he with hdirect | hdirect <;> simp [hdirect, hreadonly]
  · unfold resolve
    by_cases hsize : m.size = contestChannels
    · rcases h.direct he with hdirect | hdirect <;> simp [hsize, hdirect, hfind, hne]
    · simp [hsize, hfind]

/-- With less than all channels the fast ways are the exact search. -/
theorem find_of_lt (hsize : m.size < contestChannels) (key : Bytes) (hash : UInt32) (month : ℕ) :
    mapFindSlot3Plus1 P m key hash =
        (mapFind P m key hash).map (fun r => (r.1, r.2.id.toNat * 3 + 1)) ∧
      resolve P m key hash month =
        (mapFind P m key hash).map (fun r => (r.1, r.2.id.toNat * 3 * 4 + month)) := by
  constructor
  · unfold mapFindSlot3Plus1
    rw [if_neg hsize.ne]
    cases mapFind P m key hash <;> rfl
  · unfold resolve
    rw [if_neg hsize.ne]
    cases mapFind P m key hash <;> rfl

/-- A search ends at once where the home of the hash is free. -/
theorem mapFind_home {hash : UInt32} {f : Option Entry}
    (hkey : (P.checked && decide (2 ^ 16 ≤ key.length)) = false)
    (hf : m.entries[hash.toNat &&& (m.entries.length - 1)]? = some f) (hfree : isFree P f = true) :
    mapFind P m key hash = mapInsert P m (hash.toNat &&& (m.entries.length - 1)) key hash := by
  have hlocate : locate (isFree P) (isEntry key hash) m.entries hash.toNat =
      some (hash.toNat &&& (m.entries.length - 1)) := by
    have hpos : 0 < m.entries.length :=
      Nat.zero_lt_of_lt (List.getElem?_eq_some_iff.mp hf).1
    obtain ⟨n, hn⟩ : ∃ n, m.entries.length = n + 1 := ⟨_, (Nat.succ_pred_eq_of_pos hpos).symm⟩
    have hstop : stops (isFree P) (isEntry key hash) m.entries
        (hash.toNat &&& (m.entries.length - 1)) = true := by
      simp [stops, hf, hfree]
    unfold locate
    generalize hash.toNat &&& (m.entries.length - 1) = home at *
    rw [hn, probe, if_pos hstop]
  unfold mapFind
  rw [hkey, if_neg (by decide)]
  simp [hlocate, hf, hfree]

/-- It ends at the next entry, if that is free and the home has another key. -/
theorem mapFind_next {hash : UInt32} {e : Entry} {f : Option Entry}
    (hkey : (P.checked && decide (2 ^ 16 ≤ key.length)) = false)
    (he : m.entries[hash.toNat &&& (m.entries.length - 1)]? = some (some e))
    (hlive : isFree P (some e) = false) (hother : isEntry key hash (some e) = false)
    (hf : m.entries[((hash.toNat &&& (m.entries.length - 1)) + 1) &&& (m.entries.length - 1)]? =
      some f) (hfree : isFree P f = true) :
    mapFind P m key hash = mapInsert P m
      (((hash.toNat &&& (m.entries.length - 1)) + 1) &&& (m.entries.length - 1)) key hash := by
  have hlocate : locate (isFree P) (isEntry key hash) m.entries hash.toNat =
      some (((hash.toNat &&& (m.entries.length - 1)) + 1) &&& (m.entries.length - 1)) := by
    have hpos : 1 < m.entries.length := by
      by_contra hle
      have hzero : m.entries.length - 1 = 0 := by omega
      rw [hzero, Nat.and_zero] at he hf
      rw [he] at hf
      obtain rfl := Option.some.inj hf
      rw [hlive] at hfree
      cases hfree
    obtain ⟨n, hn⟩ : ∃ n, m.entries.length = n + 2 := ⟨m.entries.length - 2, by omega⟩
    have hgo : stops (isFree P) (isEntry key hash) m.entries
        (hash.toNat &&& (m.entries.length - 1)) ≠ true := by
      simp [stops, he, hlive, hother]
    have hstop : stops (isFree P) (isEntry key hash) m.entries
        (((hash.toNat &&& (m.entries.length - 1)) + 1) &&& (m.entries.length - 1)) = true := by
      simp [stops, hf, hfree]
    unfold locate
    generalize hash.toNat &&& (m.entries.length - 1) = home at *
    generalize hmask : m.entries.length - 1 = mask at *
    rw [hn, probe, if_neg hgo, probe, if_pos hstop]
  unfold mapFind
  rw [hkey, if_neg (by decide)]
  simp [hlocate, hf, hfree]

theorem exists_writeFast (hash : UInt32) (id : UInt16) (ts : List DirectTable)
    (fasts : List (ℕ → ℕ)) : ∃ fasts', writeFast hash id ts fasts = some fasts' := by
  induction ts generalizing fasts with
  | nil => cases fasts <;> exact ⟨_, rfl⟩
  | cons t ts ih =>
    cases fasts with
    | nil => exact ⟨_, rfl⟩
    | cons fast fasts =>
      obtain ⟨fasts', hfasts⟩ := ih fasts
      exact ⟨_, by rw [writeFast_cons, hfasts, Option.map_some]⟩

/-- An insertion with room. -/
theorem exists_mapInsert (hsize : m.size < aggCap)
    (hroom : m.keyUsed + key.length ≤ keyArenaCapacity) (i : ℕ) (hash : UInt32) :
    ∃ m' e, mapInsert P m i key hash = some (m', e) ∧ m'.entries = m.entries.set i (some e) ∧
      e = ⟨key, hash, UInt16.ofNat key.length, UInt16.ofNat m.size⟩ ∧ m'.size = m.size + 1 ∧
      m'.keyUsed = m.keyUsed + key.length := by
  obtain ⟨fastIds, hfast⟩ := exists_writeFast hash (UInt16.ofNat m.size) P.tables m.fastIds
  unfold mapInsert
  rw [if_neg hsize.ne, if_neg (Nat.not_lt.mpr hroom)]
  dsimp only
  rw [hfast]
  exact ⟨_, _, rfl, rfl, rfl, rfl, rfl⟩

/-- The entries that are not free have a key. -/
theorem length_live_le (entries : List (Option Entry)) :
    (OpenAddressing.live (isFree P) entries).length ≤ entries.reduceOption.length := by
  induction entries with
  | nil => exact Nat.le_refl 0
  | cons f entries ih =>
    cases f with
    | none =>
      rw [List.reduceOption_cons_of_none]
      exact ih
    | some e =>
      rw [List.reduceOption_cons_of_some, List.length_cons, OpenAddressing.live, List.filter_cons]
      split
      · exact Nat.succ_le_succ ih
      · exact Nat.le_succ_of_le ih

/-- A search with room in the map ends. -/
theorem Grown.exists_mapFind (h : Grown P hashBytes keys m) (hkey : Accepts P key)
    (hcapacity : aggCap ≤ m.entries.length) (hsize : m.size < aggCap)
    (hroom : m.keyUsed + key.length ≤ keyArenaCapacity) :
    ∃ m' e, DirectIds.mapFind P m key (hashBytes key) = some (m', e) ∧
      m'.entries.length = m.entries.length ∧ m'.size ≤ m.size + 1 ∧
      m'.keyUsed ≤ m.keyUsed + key.length := by
  have hlive : (OpenAddressing.live (DirectIds.isFree P) m.entries).length < m.entries.length := by
    have hle := length_live_le (P := P) m.entries
    have hlength : m.entries.reduceOption.length = m.size := h.length_live
    omega
  obtain ⟨i, hloc⟩ : ∃ i, locate (DirectIds.isFree P) (isEntry key (hashBytes key)) m.entries
      (hashBytes key).toNat = some i := exists_locate h.sound.length_eq hlive
  obtain ⟨f, hi⟩ : ∃ f, m.entries[i]? = some f :=
    ⟨_, List.getElem?_eq_getElem (locate_lt h.sound.length_eq hloc)⟩
  unfold DirectIds.mapFind
  rw [checked_of_lt hkey.1, if_neg (by decide), hloc, Option.bind_eq_bind, Option.bind_some, hi,
    Option.bind_eq_bind, Option.bind_some]
  split
  · obtain ⟨m', e, hinsert, hentries, -, hsize', hused⟩ :=
      exists_mapInsert (P := P) hsize hroom i (hashBytes key)
    exact ⟨m', e, hinsert, by rw [hentries, List.length_set], hsize'.le, hused.le⟩
  · next hfree =>
    cases f with
    | none => exact absurd rfl hfree
    | some e => exact ⟨m, e, rfl, rfl, Nat.le_succ _, Nat.le_add_right _ _⟩

/-- Searches for keys that have room end. -/
theorem exists_run (hbits : aggCap ≤ 2 ^ P.bits) (hkeys : ∀ key ∈ keys, Accepts P key)
    (hcount : keys.length ≤ aggCap) (hroom : (keys.map List.length).sum ≤ keyArenaCapacity) :
    ∃ m, run P hashBytes keys = some m ∧ m.entries.length = 2 ^ P.bits ∧ m.size ≤ keys.length ∧
      m.keyUsed ≤ (keys.map List.length).sum := by
  induction keys using List.reverseRecOn with
  | nil => exact ⟨mapInit P, rfl, List.length_replicate, Nat.le_refl 0, Nat.le_refl 0⟩
  | append_singleton keys key ih =>
    rw [List.length_append, List.length_singleton] at hcount ⊢
    rw [List.map_append, List.sum_append, List.map_singleton, List.sum_singleton] at hroom ⊢
    have hkeys' : ∀ k ∈ keys, Accepts P k := fun k hk => hkeys k (List.mem_append_left _ hk)
    obtain ⟨m, hrun, hlength, hsize, hused⟩ := ih hkeys' (by omega) (by omega)
    obtain ⟨m', e, hfind, hlength', hsize', hused'⟩ := (grown_run hkeys' hrun).exists_mapFind
      (hkeys key (by simp)) (hlength ▸ hbits) (by omega) (by omega)
    refine ⟨m', ?_, hlength'.trans hlength, by omega, by omega⟩
    rw [run, List.foldlM_append]
    rw [run] at hrun
    rw [hrun, Option.bind_eq_bind, Option.bind_some, List.foldlM_cons, hfind]
    rfl

/-- The home of a hash in an empty map. -/
theorem mapInit_home (P : Program) (n : ℕ) :
    (mapInit P).entries[n &&& ((mapInit P).entries.length - 1)]? = some none := by
  have hlength : (mapInit P).entries.length = 2 ^ P.bits := List.length_replicate
  have hpos : 0 < 2 ^ P.bits := Nat.two_pow_pos _
  have hle : n &&& (2 ^ P.bits - 1) ≤ 2 ^ P.bits - 1 := Nat.and_le_right
  rw [hlength]
  exact List.getElem?_replicate_of_lt (by omega)

/-- A key whose length has more than 16 bits. -/
def longKey : Bytes := List.replicate (2 ^ 16) 97

/-- Two searches for it in the map of the C program: both insert it. -/
theorem run_longKey : ∃ m, run c (fun _ => 0) [longKey, longKey] = some m ∧ m.size = 2 := by
  have hlength : longKey.length = 2 ^ 16 := List.length_replicate
  have hzero (n : ℕ) : (0 : UInt32).toNat &&& n = 0 := Nat.zero_and n
  have hfirst : mapFind c (mapInit c) longKey 0 = mapInsert c (mapInit c) _ longKey 0 :=
    mapFind_home rfl (mapInit_home c _) rfl
  rw [hzero] at hfirst
  obtain ⟨m, e, hm, hentries, rfl, hsize, hused⟩ : ∃ m e, mapInsert c (mapInit c) 0 longKey 0 =
      some (m, e) ∧ _ := exists_mapInsert (by decide) (by rw [hlength]; decide) 0 0
  have hcapacity : (mapInit c).entries.length = 2 ^ 14 := List.length_replicate
  have hlen : m.entries.length = 2 ^ 14 := by rw [hentries, List.length_set, hcapacity]
  obtain ⟨i, hsecond⟩ : ∃ i, mapFind c m longKey 0 = mapInsert c m i longKey 0 := by
    refine ⟨_, mapFind_next rfl (f := none)
      (e := ⟨longKey, 0, UInt16.ofNat longKey.length, UInt16.ofNat (mapInit c).size⟩)
      ?_ rfl ?_ ?_ rfl⟩
    · rw [hzero, hentries]
      exact List.getElem?_set_self (by rw [hcapacity]; decide)
    · simp [isEntry, hlength]
    · rw [hzero, hlen, hentries, List.getElem?_set_ne (by decide)]
      exact List.getElem?_replicate_of_lt (by decide)
  obtain ⟨m', e, hm', -, -, hsize', -⟩ : ∃ m' e, mapInsert c m i longKey 0 = some (m', e) ∧ _ :=
    exists_mapInsert (by rw [hsize]; decide) (by rw [hused, hlength]; decide) i 0
  refine ⟨m', ?_, by rw [hsize', hsize]; rfl⟩
  rw [run, List.foldlM_cons, hfirst, hm, Option.map_some, Option.bind_eq_bind, Option.bind_some,
    List.foldlM_cons, hsecond, hm']
  rfl

end Results
end OneBrc.Analyzer.DirectIds
