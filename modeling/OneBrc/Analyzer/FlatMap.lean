import OneBrc.Analyzer.Contract
import OneBrc.Lib.OpenAddressing

/-! The hash table of the fast analyzers: entries with the key and the id of a channel, and for
each id an aggregate of twelve months. -/
namespace OneBrc.Analyzer
open Lib OpenAddressing

/-- An entry with its key, its id and what is kept of the hash of the key. -/
structure MapEntry (τ : Type) where
  key : Bytes
  id : UInt16
  sig : τ

/-- An entry of length 0 is a free slot. -/
def MapEntry.isFree {τ : Type} (e : MapEntry τ) : Bool := e.key.isEmpty

structure FlatMap (τ σ : Type) where
  entries : List (MapEntry τ)
  aggs : List (Fin 12 → σ)
  size : ℕ

/-- What tables of one analyzer share: the hash of a key, what an entry keeps of it, and the
contents of a month without posts. -/
structure TableKind (τ σ : Type) where
  hashBytes : Bytes → UInt32
  sigOf : UInt32 → τ
  fresh : σ

namespace FlatMap
variable {τ σ : Type} (K : TableKind τ σ)

section Operations
variable [DecidableEq τ]

/-- A search compares what is kept of the hash, the length and the bytes. -/
def isEntry (key : Bytes) (hash : UInt32) (e : MapEntry τ) : Bool :=
  decide (e.sig = K.sigOf hash) && e.key.length == key.length && e.key == key

/-- The id of a key, which is the next one when the search ends at a free slot. It is `none` when
the search does not end. -/
def findOrInsert (m : FlatMap τ σ) (key : Bytes) (hash : UInt32) :
    Option (FlatMap τ σ × UInt16) := do
  let i ← locate MapEntry.isFree (isEntry K key hash) m.entries hash.toNat
  let e ← m.entries[i]?
  if e.isFree then
    let id := UInt16.ofNat m.aggs.length
    some ({ entries := m.entries.set i ⟨key, id, K.sigOf hash⟩
            aggs := m.aggs ++ [fun _ => K.fresh], size := m.size + 1 }, id)
  else some (m, e.id)

/-- An update of the aggregate of an id. -/
def modifyAgg (m : FlatMap τ σ) (id : UInt16) (f : (Fin 12 → σ) → Fin 12 → σ) :
    Option (FlatMap τ σ) :=
  if id.toNat < m.aggs.length then some { m with aggs := m.aggs.modify id.toNat f } else none

/-- A row counted in the month of a key. -/
def addTo (push : σ → σ) (m : FlatMap τ σ) (key : Bytes) (hash : UInt32) (month : Fin 12) :
    Option (FlatMap τ σ) := do
  let (m, id) ← m.findOrInsert K key hash
  m.modifyAgg id fun agg => Function.update agg month (push (agg month))

/-- The months of an entry of another table joined to those of its key. -/
def mergeEntry (join : σ → σ → σ) (hashOf : MapEntry τ → UInt32) (other : FlatMap τ σ)
    (m : FlatMap τ σ) (e : MapEntry τ) : Option (FlatMap τ σ) := do
  let (m, id) ← m.findOrInsert K e.key (hashOf e)
  let src ← other.aggs[e.id.toNat]?
  m.modifyAgg id fun agg month => join (agg month) (src month)

/-- All entries of another table merged, with room made before each. -/
def mergeFrom (reserve : FlatMap τ σ → Option (FlatMap τ σ)) (join : σ → σ → σ)
    (hashOf : MapEntry τ → UInt32) (m other : FlatMap τ σ) : Option (FlatMap τ σ) :=
  (live MapEntry.isFree other.entries).foldlM
    (fun m e => do mergeEntry K join hashOf other (← reserve m) e) m

end Operations

/-- An entry put into the first empty slot of its search. -/
def insertRehashed (m : FlatMap τ σ) (e : MapEntry τ) : Option (FlatMap τ σ) := do
  let i ← locate MapEntry.isFree (fun _ => false) m.entries (K.hashBytes e.key).toNat
  some { m with entries := m.entries.set i e, size := m.size + 1 }

/-- A table of free slots. -/
def freeEntries (capacity : ℕ) : List (MapEntry τ) := List.replicate capacity ⟨[], 0, K.sigOf 0⟩

/-- The entries moved to a table of another length. -/
def rehash (m : FlatMap τ σ) (capacity : ℕ) : Option (FlatMap τ σ) :=
  (live MapEntry.isFree m.entries).foldlM (insertRehashed K)
    { m with entries := freeEntries K capacity, size := 0 }

def empty (capacity : ℕ) : FlatMap τ σ := ⟨freeEntries K capacity, [], 0⟩

/-- The keys of a table in the order of their ids, and what the aggregates hold for them. -/
structure Holds (m : FlatMap τ σ) (keys : List Bytes) (c : Bytes → Fin 12 → σ) : Prop where
  sound : Sound MapEntry.isFree MapEntry.key (fun key => (K.hashBytes key).toNat) m.entries
  sig : ∀ e ∈ live MapEntry.isFree m.entries, e.sig = K.sigOf (K.hashBytes e.key)
  id : ∀ e ∈ live MapEntry.isFree m.entries, keys[e.id.toNat]? = some e.key
  count : (live MapEntry.isFree m.entries).length = keys.length
  size : m.size = keys.length
  aggs : m.aggs = keys.map c
  nodup : keys.Nodup
  outside : ∀ key ∉ keys, ∀ month, c key month = K.fresh

variable {K} {m : FlatMap τ σ} {keys : List Bytes} {c : Bytes → Fin 12 → σ}

theorem Holds.empty (k : ℕ) : Holds K (empty K (2 ^ k)) [] fun _ _ => K.fresh := by
  have hlive : live MapEntry.isFree (freeEntries K (2 ^ k)) = [] := by
    apply List.filter_eq_nil_iff.mpr
    intro e he
    rw [List.eq_of_mem_replicate he]
    simp [MapEntry.isFree]
  exact {
    sound := Sound.replicate rfl k
    sig := by
      intro e he
      rw [FlatMap.empty, hlive] at he
      cases he
    id := by
      intro e he
      rw [FlatMap.empty, hlive] at he
      cases he
    count := by
      rw [FlatMap.empty, hlive]
      rfl
    size := rfl
    aggs := rfl
    nodup := List.nodup_nil
    outside := fun _ _ _ => rfl }

namespace Holds

/-- The keys of the entries are the keys of the ids. -/
theorem keys_perm (h : Holds K m keys c) :
    ((live MapEntry.isFree m.entries).map MapEntry.key).Perm keys := by
  apply List.Subperm.perm_of_length_le
  · apply List.subperm_of_subset h.sound.nodup
    intro key hkey
    obtain ⟨e, he, rfl⟩ := List.mem_map.mp hkey
    exact List.mem_of_getElem? (h.id e he)
  · rw [List.length_map, h.count]

theorem length_le (h : Holds K m keys c) : keys.length ≤ m.entries.length := by
  rw [← h.count]
  exact List.length_filter_le _ _

/-- For the entries of a table the search looks for the key alone. -/
theorem locate_isEntry [DecidableEq τ] (h : Holds K m keys c) (key : Bytes) :
    locate MapEntry.isFree (isEntry K key (K.hashBytes key)) m.entries (K.hashBytes key).toNat =
      locate MapEntry.isFree (fun e => decide (e.key = key)) m.entries
        (K.hashBytes key).toNat := by
  apply locate_congr
  intro e he
  by_cases hkey : e.key = key
  · simp [isEntry, hkey, h.sig e he]
  · simp [isEntry, hkey]

/-- A key that is found or gets the next id. -/
theorem findOrInsert [DecidableEq τ] (h : Holds K m keys c) {key : Bytes} (hne : key ≠ [])
    (hroom : keys.length < m.entries.length) (hid : key ∉ keys → keys.length < 2 ^ 16) :
    ∃ m' id, FlatMap.findOrInsert K m key (K.hashBytes key) = some (m', id) ∧
      Holds K m' (if key ∈ keys then keys else keys ++ [key]) c ∧
      (if key ∈ keys then keys else keys ++ [key])[id.toNat]? = some key ∧
      m'.entries.length = m.entries.length := by
  obtain ⟨i, hloc⟩ : ∃ i, locate MapEntry.isFree (fun e => decide (e.key = key)) m.entries
      (K.hashBytes key).toNat = some i := by
    apply exists_locate h.sound.length_eq
    rw [h.count]
    exact hroom
  have hlt : i < m.entries.length := locate_lt h.sound.length_eq hloc
  obtain ⟨e, he⟩ : ∃ e, m.entries[i]? = some e := ⟨_, List.getElem?_eq_getElem hlt⟩
  have hrun : FlatMap.findOrInsert K m key (K.hashBytes key) =
      if e.isFree then
        some (⟨m.entries.set i ⟨key, UInt16.ofNat m.aggs.length, K.sigOf (K.hashBytes key)⟩,
          m.aggs ++ [fun _ => K.fresh], m.size + 1⟩, UInt16.ofNat m.aggs.length)
      else some (m, e.id) := by
    simp only [FlatMap.findOrInsert, h.locate_isEntry key, hloc, he, bind, Option.bind]
  rw [hrun]
  cases hfree : e.isFree with
  | false =>
    have hkey : e.key = key := Sound.key_of_locate hloc he hfree
    have hmem := h.id e (mem_live.mpr ⟨List.mem_of_getElem? he, hfree⟩)
    rw [hkey] at hmem
    rw [if_neg (by decide), if_pos (List.mem_of_getElem? hmem)]
    exact ⟨m, e.id, rfl, h, hmem, rfl⟩
  | true =>
    have hnew : key ∉ keys := by
      intro hkey
      obtain ⟨e', he', heq⟩ := List.mem_map.mp (h.keys_perm.mem_iff.mpr hkey)
      exact h.sound.ne_of_locate_free hloc he hfree e' he' heq
    have hlength : m.aggs.length = keys.length := by rw [h.aggs, List.length_map]
    have hnat : (UInt16.ofNat m.aggs.length).toNat = keys.length := by
      rw [hlength, UInt16.toNat_ofNat', Nat.mod_eq_of_lt (hid hnew)]
    have hlive : (⟨key, UInt16.ofNat m.aggs.length, K.sigOf (K.hashBytes key)⟩ :
        MapEntry τ).isFree = false := by
      simpa [MapEntry.isFree] using hne
    have hperm := live_set_perm he hfree hlive
    rw [if_pos (by decide), if_neg hnew]
    refine ⟨_, _, rfl, ?_, ?_, List.length_set⟩
    · exact {
        sound := h.sound.set hloc hlive
        sig := by
          intro e' he'
          rcases List.mem_cons.mp (hperm.mem_iff.mp he') with rfl | hmem
          · rfl
          · exact h.sig e' hmem
        id := by
          intro e' he'
          rcases List.mem_cons.mp (hperm.mem_iff.mp he') with rfl | hmem
          · show (keys ++ [key])[(UInt16.ofNat m.aggs.length).toNat]? = some key
            rw [hnat, List.getElem?_concat_length]
          · have hid' := h.id e' hmem
            rw [List.getElem?_append_left (List.getElem?_eq_some_iff.mp hid').1, hid']
        count := by
          show (live MapEntry.isFree (m.entries.set i _)).length = _
          rw [hperm.length_eq, List.length_cons, h.count, List.length_append,
            List.length_singleton]
        size := by
          show m.size + 1 = _
          rw [h.size, List.length_append, List.length_singleton]
        aggs := by
          show m.aggs ++ [fun _ => K.fresh] = _
          rw [h.aggs, List.map_append, List.map_singleton, funext (h.outside key hnew)]
        nodup := h.nodup.append (List.nodup_singleton key) (List.disjoint_singleton.mpr hnew)
        outside := fun key' hkey' =>
          h.outside key' fun hmem => hkey' (List.mem_append_left _ hmem) }
    · rw [hnat, List.getElem?_concat_length]

private theorem map_modify {α β : Type} [DecidableEq α] {l : List α} {i : ℕ} {a : α}
    (hn : l.Nodup) (hi : l[i]? = some a) (c : α → β) (f : β → β) :
    (l.map c).modify i f = l.map (Function.update c a (f (c a))) := by
  apply List.ext_getElem?
  intro j
  rw [List.getElem?_modify, List.getElem?_map, List.getElem?_map]
  cases hj : l[j]? with
  | none => rfl
  | some b =>
    by_cases hij : i = j
    · subst hij
      obtain rfl : a = b := by
        rw [hi] at hj
        exact Option.some.inj hj
      simp
    · have hba : b ≠ a := by
        rintro rfl
        obtain ⟨hlt, hb⟩ := List.getElem?_eq_some_iff.mp hi
        obtain ⟨hlt', hb'⟩ := List.getElem?_eq_some_iff.mp hj
        exact hij ((List.Nodup.getElem_inj_iff hn).mp (hb.trans hb'.symm))
      simp [hij, hba]

/-- An update of the aggregate of a key. -/
theorem modifyAgg (h : Holds K m keys c) {id : UInt16} {key : Bytes}
    (hid : keys[id.toNat]? = some key) (f : (Fin 12 → σ) → Fin 12 → σ) :
    ∃ m', FlatMap.modifyAgg m id f = some m' ∧
      Holds K m' keys (Function.update c key (f (c key))) ∧
      m'.entries.length = m.entries.length := by
  have hlt : id.toNat < m.aggs.length := by
    rw [h.aggs, List.length_map]
    exact (List.getElem?_eq_some_iff.mp hid).1
  refine ⟨_, if_pos hlt, ?_, rfl⟩
  exact {
    sound := h.sound
    sig := h.sig
    id := h.id
    count := h.count
    size := h.size
    aggs := by
      show m.aggs.modify id.toNat f = _
      rw [h.aggs, map_modify h.nodup hid]
    nodup := h.nodup
    outside := by
      intro key' hkey'
      have hne : key' ≠ key := by
        rintro rfl
        exact hkey' (List.mem_of_getElem? hid)
      rw [Function.update_of_ne hne]
      exact h.outside key' hkey' }

/-- A row counted for a key. -/
theorem addTo [DecidableEq τ] (h : Holds K m keys c) {key : Bytes} (hne : key ≠ [])
    (hroom : keys.length < m.entries.length) (hid : key ∉ keys → keys.length < 2 ^ 16)
    (month : Fin 12) (push : σ → σ) :
    ∃ m', FlatMap.addTo K push m key (K.hashBytes key) month = some m' ∧
      Holds K m' (if key ∈ keys then keys else keys ++ [key])
        (Function.update c key (Function.update (c key) month (push (c key month)))) ∧
      m'.entries.length = m.entries.length := by
  obtain ⟨m₁, id, hfind, hm₁, hkey, hlen₁⟩ := h.findOrInsert hne hroom hid
  obtain ⟨m₂, hmodify, hm₂, hlen₂⟩ :=
    hm₁.modifyAgg hkey fun agg => Function.update agg month (push (agg month))
  refine ⟨m₂, ?_, hm₂, hlen₂.trans hlen₁⟩
  simp only [FlatMap.addTo, hfind, bind, Option.bind]
  exact hmodify

/-- Entries with different keys, moved one after the other. -/
private theorem foldlM_insertRehashed (es : List (MapEntry τ)) {done : List (MapEntry τ)}
    {m : FlatMap τ σ}
    (hsound : Sound MapEntry.isFree MapEntry.key (fun key => (K.hashBytes key).toNat) m.entries)
    (hlive : (live MapEntry.isFree m.entries).Perm done)
    (hnodup : ((done ++ es).map MapEntry.key).Nodup) (hes : ∀ e ∈ es, e.isFree = false)
    (hroom : done.length + es.length < m.entries.length) :
    ∃ m', es.foldlM (insertRehashed K) m = some m' ∧
      Sound MapEntry.isFree MapEntry.key (fun key => (K.hashBytes key).toNat) m'.entries ∧
      (live MapEntry.isFree m'.entries).Perm (done ++ es) ∧ m'.size = m.size + es.length ∧
      m'.aggs = m.aggs ∧ m'.entries.length = m.entries.length := by
  induction es generalizing m done with
  | nil => exact ⟨m, rfl, hsound, by simpa using hlive, rfl, rfl, rfl⟩
  | cons e es ih =>
    obtain ⟨i, hloc⟩ : ∃ i, locate MapEntry.isFree (fun _ => false) m.entries
        (K.hashBytes e.key).toNat = some i := by
      apply exists_locate hsound.length_eq
      rw [hlive.length_eq]
      omega
    have hlt : i < m.entries.length := locate_lt hsound.length_eq hloc
    have hfree : (m.entries[i]).isFree = true := by
      have hstop := stops_of_locate hloc
      simpa [stops, List.getElem?_eq_getElem hlt] using hstop
    have hkey : ∀ f ∈ live MapEntry.isFree m.entries, f.key ≠ e.key := by
      intro f hf heq
      rw [List.map_append, List.nodup_append] at hnodup
      exact hnodup.2.2 f.key (List.mem_map_of_mem (hlive.mem_iff.mp hf)) e.key
        (List.mem_map_of_mem List.mem_cons_self) heq
    have hloc' : locate MapEntry.isFree (fun f => decide (f.key = e.key)) m.entries
        (K.hashBytes e.key).toNat = some i := by
      rw [← hloc]
      apply locate_congr
      intro f hf
      exact decide_eq_false (hkey f hf)
    have he : e.isFree = false := hes e List.mem_cons_self
    have hperm : (live MapEntry.isFree (m.entries.set i e)).Perm (done ++ [e]) := by
      refine (live_set_perm (List.getElem?_eq_getElem hlt) hfree he).trans ?_
      exact (hlive.cons e).trans (List.perm_append_singleton e done).symm
    obtain ⟨m', hrun, hsound', hlive', hsize, haggs, hlen⟩ :=
      ih (m := { m with entries := m.entries.set i e, size := m.size + 1 })
        (hsound.set hloc' he) hperm (by simpa using hnodup)
        (fun f hf => hes f (List.mem_cons_of_mem _ hf))
        (by
          simp only [List.length_append, List.length_set, List.length_cons,
            List.length_nil] at hroom ⊢
          omega)
    refine ⟨m', ?_, hsound', by simpa using hlive', ?_, haggs, hlen.trans List.length_set⟩
    · have hstep : insertRehashed K m e =
          some { m with entries := m.entries.set i e, size := m.size + 1 } := by
        simp only [insertRehashed, hloc, bind, Option.bind]
      rw [List.foldlM_cons, hstep]
      exact hrun
    · rw [hsize, List.length_cons]
      show m.size + 1 + es.length = m.size + (es.length + 1)
      omega

/-- A longer table holds the same. -/
theorem rehash (h : Holds K m keys c) {k : ℕ} (hroom : keys.length < 2 ^ k) :
    ∃ m', FlatMap.rehash K m (2 ^ k) = some m' ∧ Holds K m' keys c ∧
      m'.entries.length = 2 ^ k := by
  have hempty := (Holds.empty (K := K) k).sound
  have hnil : live MapEntry.isFree (freeEntries K (2 ^ k)) = [] := by
    have hcount := (Holds.empty (K := K) k).count
    exact List.length_eq_zero_iff.mp hcount
  obtain ⟨m', hrun, hsound, hlive, hsize, haggs, hlen⟩ :=
    foldlM_insertRehashed (live MapEntry.isFree m.entries)
      (m := { m with entries := freeEntries K (2 ^ k), size := 0 }) hempty
      (List.Perm.of_eq hnil) h.sound.nodup (fun e he => (mem_live.mp he).2)
      (by simpa [freeEntries, h.count] using hroom)
  rw [List.nil_append] at hlive
  refine ⟨m', hrun, ?_, hlen.trans List.length_replicate⟩
  exact {
    sound := hsound
    sig := fun e he => h.sig e (hlive.mem_iff.mp he)
    id := fun e he => h.id e (hlive.mem_iff.mp he)
    count := by rw [hlive.length_eq, h.count]
    size := by
      rw [hsize, h.count]
      exact Nat.zero_add _
    aggs := haggs.trans h.aggs
    nodup := h.nodup
    outside := h.outside }

end Holds

/-- Room for one more key can be made in the tables of `ok` lengths with at most `n` keys. -/
def Reserves (K : TableKind τ σ) (ok : ℕ → Prop) (n : ℕ)
    (reserve : FlatMap τ σ → Option (FlatMap τ σ)) : Prop :=
  ∀ m keys c, Holds K m keys c → ok m.entries.length → keys.length ≤ n →
    ∃ m', reserve m = some m' ∧ Holds K m' keys c ∧ ok m'.entries.length ∧
      keys.length < m'.entries.length

namespace Holds
variable [DecidableEq τ] {ok : ℕ → Prop} {reserve : FlatMap τ σ → Option (FlatMap τ σ)}
  {channels : List Bytes}

omit [DecidableEq τ] in
/-- The keys so far leave room for another one of the channels. -/
theorem length_lt (h : Holds K m keys c) (hkeys : keys ⊆ channels) {key : Bytes}
    (hkey : key ∈ channels) (hnew : key ∉ keys) : keys.length < channels.length := by
  have hsub : (key :: keys).Subperm channels :=
    List.subperm_of_subset (List.nodup_cons.mpr ⟨hnew, h.nodup⟩)
      (List.cons_subset.mpr ⟨hkey, hkeys⟩)
  exact hsub.length_le

private theorem mem_insert_iff {k key : Bytes} :
    k ∈ (if key ∈ keys then keys else keys ++ [key]) ↔ k ∈ keys ∨ k = key := by
  split
  · next hmem =>
    constructor
    · exact Or.inl
    · rintro (hk | rfl)
      · exact hk
      · exact hmem
  · rw [List.mem_append, List.mem_singleton]

/-- Room, and then a row counted for a key of the channels. -/
theorem reserve_addTo (hreserve : Reserves K ok channels.length reserve)
    (hn : channels.length ≤ 2 ^ 16) (h : Holds K m keys c) (hok : ok m.entries.length)
    (hkeys : keys ⊆ channels) {key : Bytes} (hkey : key ∈ channels) (hne : key ≠ [])
    (month : Fin 12) (push : σ → σ) :
    ∃ m₁ m' keys', reserve m = some m₁ ∧
      FlatMap.addTo K push m₁ key (K.hashBytes key) month = some m' ∧
      Holds K m' keys'
        (Function.update c key (Function.update (c key) month (push (c key month)))) ∧
      ok m'.entries.length ∧ ∀ k, k ∈ keys' ↔ k ∈ keys ∨ k = key := by
  have hle : keys.length ≤ channels.length := (List.subperm_of_subset h.nodup hkeys).length_le
  obtain ⟨m₁, hrun, h₁, hok₁, hroom⟩ := hreserve m keys c h hok hle
  have hid : key ∉ keys → keys.length < 2 ^ 16 := fun hnew =>
    Nat.lt_of_lt_of_le (h.length_lt hkeys hkey hnew) hn
  obtain ⟨m', hadd, h', hlen⟩ := h₁.addTo hne hroom hid month push
  refine ⟨m₁, m', _, hrun, hadd, h', ?_, fun k => mem_insert_iff⟩
  rw [hlen]
  exact hok₁

section Merge
variable {join : σ → σ → σ} {hashOf : MapEntry τ → UInt32} {other : FlatMap τ σ}
  {keys' : List Bytes} {c' : Bytes → Fin 12 → σ}

variable (join) in
/-- One entry joined to its key. -/
theorem mergeEntry (h : Holds K m keys c) (hroom : keys.length < m.entries.length)
    (h' : Holds K other keys' c') (hhash : ∀ e ∈ live MapEntry.isFree other.entries,
      hashOf e = K.hashBytes e.key) {e : MapEntry τ} (he : e ∈ live MapEntry.isFree other.entries)
    (hid : e.key ∉ keys → keys.length < 2 ^ 16) :
    ∃ m₁, FlatMap.mergeEntry K join hashOf other m e = some m₁ ∧
      Holds K m₁ (if e.key ∈ keys then keys else keys ++ [e.key])
        (Function.update c e.key fun month => join (c e.key month) (c' e.key month)) ∧
      m₁.entries.length = m.entries.length := by
  have hne : e.key ≠ [] := by
    intro hnil
    have hfree := (mem_live.mp he).2
    rw [MapEntry.isFree, hnil] at hfree
    cases hfree
  have hsrc : other.aggs[e.id.toNat]? = some (c' e.key) := by
    rw [h'.aggs, List.getElem?_map, h'.id e he]
    rfl
  obtain ⟨m₁, id, hfind, hm₁, hkey, hlen₁⟩ := h.findOrInsert hne hroom hid
  obtain ⟨m₂, hmodify, hm₂, hlen₂⟩ :=
    hm₁.modifyAgg hkey fun agg month => join (agg month) (c' e.key month)
  refine ⟨m₂, ?_, hm₂, hlen₂.trans hlen₁⟩
  simp only [FlatMap.mergeEntry, hhash e he, hfind, hsrc, bind, Option.bind]
  exact hmodify

/-- What a table holds when the months of some keys have been joined. -/
def joined (join : σ → σ → σ) (done : List Bytes) (c c' : Bytes → Fin 12 → σ) :
    Bytes → Fin 12 → σ :=
  fun key month => if done.contains key then join (c key month) (c' key month) else c key month

private theorem joined_concat {done : List Bytes} {key : Bytes} (hkey : key ∉ done) :
    Function.update (joined join done c c') key
      (fun month => join (joined join done c c' key month) (c' key month)) =
      joined join (done ++ [key]) c c' := by
  funext k month
  by_cases hk : k = key
  · subst hk
    simp [joined, hkey]
  · simp [joined, hk]

private theorem foldlM_mergeEntry (hreserve : Reserves K ok channels.length reserve)
    (hn : channels.length ≤ 2 ^ 16) (h' : Holds K other keys' c') (hkeys' : keys' ⊆ channels)
    (hhash : ∀ e ∈ live MapEntry.isFree other.entries, hashOf e = K.hashBytes e.key)
    (es : List (MapEntry τ)) (hes : ∀ e ∈ es, e ∈ live MapEntry.isFree other.entries)
    {done : List Bytes} (hnodup : (done ++ es.map MapEntry.key).Nodup)
    (h : Holds K m keys (joined join done c c')) (hok : ok m.entries.length)
    (hkeys : keys ⊆ channels) :
    ∃ m₁ keys₁, es.foldlM
        (fun m e => do FlatMap.mergeEntry K join hashOf other (← reserve m) e) m = some m₁ ∧
      Holds K m₁ keys₁ (joined join (done ++ es.map MapEntry.key) c c') ∧ ok m₁.entries.length ∧
      ∀ k, k ∈ keys₁ ↔ k ∈ keys ∨ k ∈ es.map MapEntry.key := by
  induction es generalizing m keys done with
  | nil => exact ⟨m, keys, rfl, by simpa using h, hok, by simp⟩
  | cons e es ih =>
    have he := hes e List.mem_cons_self
    have hkey : e.key ∈ channels := hkeys' (h'.keys_perm.mem_iff.mp (List.mem_map_of_mem he))
    have hle : keys.length ≤ channels.length := (List.subperm_of_subset h.nodup hkeys).length_le
    obtain ⟨m₁, hrun₁, h₁, hok₁, hroom⟩ := hreserve m keys _ h hok hle
    have hid : e.key ∉ keys → keys.length < 2 ^ 16 := fun hnew =>
      Nat.lt_of_lt_of_le (h.length_lt hkeys hkey hnew) hn
    obtain ⟨m₂, hrun₂, h₂, hlen₂⟩ := h₁.mergeEntry join hroom h' hhash he hid
    have hnew : e.key ∉ done := by
      rw [List.map_cons, List.nodup_append] at hnodup
      exact fun hdone => hnodup.2.2 e.key hdone e.key List.mem_cons_self rfl
    rw [joined_concat hnew] at h₂
    have hsub : (if e.key ∈ keys then keys else keys ++ [e.key]) ⊆ channels := by
      intro k hk
      rcases mem_insert_iff.mp hk with hk | rfl
      · exact hkeys hk
      · exact hkey
    obtain ⟨m₃, keys₃, hrun₃, h₃, hok₃, hmem⟩ :=
      ih (fun f hf => hes f (List.mem_cons_of_mem _ hf)) (by simpa using hnodup) h₂
        (by rw [hlen₂]; exact hok₁) hsub
    refine ⟨m₃, keys₃, ?_, by simpa using h₃, hok₃, ?_⟩
    · rw [List.foldlM_cons]
      simp only [hrun₁, hrun₂, bind, Option.bind]
      exact hrun₃
    · intro k
      rw [hmem, mem_insert_iff, List.map_cons, List.mem_cons, or_assoc]

/-- A merged table holds the joined months of the keys of both. -/
theorem mergeFrom (hreserve : Reserves K ok channels.length reserve)
    (hn : channels.length ≤ 2 ^ 16) (h : Holds K m keys c) (hok : ok m.entries.length)
    (hkeys : keys ⊆ channels) (h' : Holds K other keys' c') (hkeys' : keys' ⊆ channels)
    (hhash : ∀ e ∈ live MapEntry.isFree other.entries, hashOf e = K.hashBytes e.key)
    (hjoin : ∀ key month, key ∉ keys' → join (c key month) (c' key month) = c key month) :
    ∃ m₁ keys₁, FlatMap.mergeFrom K reserve join hashOf m other = some m₁ ∧
      Holds K m₁ keys₁ (fun key month => join (c key month) (c' key month)) ∧
      ok m₁.entries.length ∧ ∀ k, k ∈ keys₁ ↔ k ∈ keys ∨ k ∈ keys' := by
  have hstart : joined join [] c c' = c := by
    funext key month
    simp [joined]
  obtain ⟨m₁, keys₁, hrun, h₁, hok₁, hmem⟩ :=
    foldlM_mergeEntry hreserve hn h' hkeys' hhash (live MapEntry.isFree other.entries)
      (fun e he => he)
      (show ([] ++ (live MapEntry.isFree other.entries).map MapEntry.key).Nodup from
        h'.sound.nodup) (hstart.symm ▸ h) hok hkeys
  have hend : joined join ([] ++ (live MapEntry.isFree other.entries).map MapEntry.key) c c' =
      fun key month => join (c key month) (c' key month) := by
    funext key month
    unfold joined
    split
    · rfl
    · next hkey =>
      rw [List.nil_append, List.contains_iff_mem, h'.keys_perm.mem_iff] at hkey
      exact (hjoin key month hkey).symm
  rw [hend] at h₁
  refine ⟨m₁, keys₁, hrun, h₁, hok₁, fun k => ?_⟩
  rw [hmem, h'.keys_perm.mem_iff]

end Merge
end Holds
end FlatMap
end OneBrc.Analyzer
