import Mathlib.Data.List.ReduceOption
import OneBrc.Analyzer.Contract
import OneBrc.Lib.FixedArray
import OneBrc.Lib.OpenAddressing

/-! `build_mph` of the analyzer in C: ids sorted into buckets by their hashes, for each bucket a
search for a multiplier, and tables written over one that the map no longer needs. -/
namespace OneBrc.Analyzer.Mph
open Lib OpenAddressing FixedArray

def contestChannels : ℕ := 10000
def bucketCapacity : ℕ := 1024
def slotCapacity : ℕ := 16384
def activeSlots : ℕ := slotCapacity
def fastCapacity : ℕ := 262144

/-- The id of a slot whose hash several keys have. -/
def marker : ℕ := 65535

def bucketOf (hash : ℕ) : ℕ := hash % bucketCapacity

/-- The upper 14 bits of the product in 32 bits. -/
def slotOf (hash seed : ℕ) : ℕ := hash * seed % 2 ^ 32 / 2 ^ 18

structure Entry where
  key : Bytes
  hash : UInt32
  id : UInt16

/-- A map with its entries, of which `none` has no key, and its three tables of ids. -/
structure Dictionary where
  entries : List (Option Entry)
  fastIds : ℕ → ℕ
  fast2Ids : ℕ → ℕ
  fast3Ids : ℕ → ℕ

/-- What the arrays on the stack hold that are not initialized. -/
structure Stack where
  hashes : ℕ → ℕ
  items : ℕ → ℕ
  offsets : ℕ → ℕ
  cursor : ℕ → ℕ
  trialHash : ℕ → ℕ
  placedHash : ℕ → ℕ
  seeds : ℕ → ℕ
  ids : ℕ → ℕ

/-- The loop over the entries. -/
def countEntry (s : (ℕ → ℕ) × (ℕ → ℕ)) : Option Entry → Option ((ℕ → ℕ) × (ℕ → ℕ))
  | none => some s
  | some e => do
      let hashes ← write contestChannels s.1 e.id.toNat e.hash.toNat
      let count ← read bucketCapacity s.2 (bucketOf e.hash.toNat)
      let counts ← write bucketCapacity s.2 (bucketOf e.hash.toNat) ((count + 1) % 2 ^ 16)
      some (hashes, counts)

/-- The offset of the bucket after `b` and the cursor of `b`. -/
def addOffset (counts : ℕ → ℕ) (s : (ℕ → ℕ) × (ℕ → ℕ)) (b : ℕ) : Option ((ℕ → ℕ) × (ℕ → ℕ)) := do
  let offset ← read (bucketCapacity + 1) s.1 b
  let count ← read bucketCapacity counts b
  let offsets ← write (bucketCapacity + 1) s.1 (b + 1) ((offset + count) % 2 ^ 16)
  let cursor ← write bucketCapacity s.2 b offset
  some (offsets, cursor)

/-- An id put behind the others of its bucket. -/
def addItem (hashes : ℕ → ℕ) (s : (ℕ → ℕ) × (ℕ → ℕ)) (id : ℕ) : Option ((ℕ → ℕ) × (ℕ → ℕ)) := do
  let hash ← read contestChannels hashes id
  let at' ← read bucketCapacity s.2 (bucketOf hash)
  let items ← write contestChannels s.1 at' id
  let cursor ← write bucketCapacity s.2 (bucketOf hash) ((at' + 1) % 2 ^ 16)
  some (items, cursor)

/-- The arrays that the search reads. -/
structure Sorted where
  hashes : ℕ → ℕ
  items : ℕ → ℕ
  offsets : ℕ → ℕ

/-- The id at a place of a bucket, and its hash. -/
def Sorted.item (s : Sorted) (offset j : ℕ) : Option (ℕ × ℕ) := do
  let id ← read contestChannels s.items (offset + j)
  let hash ← read contestChannels s.hashes id
  some (id, hash)

structure Trial where
  trial : ℕ → ℕ
  hash : ℕ → ℕ

structure Placed where
  used : ℕ → Bool
  hash : ℕ → ℕ
  ids : ℕ → ℕ

/-- Whether a seed gives the items slots without conflict, with the slots tried in a generation. -/
def tryItems (s : Sorted) (placed : Placed) (offset seed generation : ℕ) :
    List ℕ → Trial → Option (Bool × Trial)
  | [], t => some (true, t)
  | j :: js, t => do
      let (_, hash) ← s.item offset j
      let slot := slotOf hash seed
      if activeSlots ≤ slot then some (false, t)
      else do
        let used ← read slotCapacity placed.used slot
        let placedHash ← read slotCapacity placed.hash slot
        let trial ← read slotCapacity t.trial slot
        let trialHash ← read slotCapacity t.hash slot
        if used ∧ placedHash ≠ hash ∨ trial = generation ∧ trialHash ≠ hash then some (false, t)
        else do
          let trials ← write slotCapacity t.trial slot generation
          let hashes ← write slotCapacity t.hash slot hash
          tryItems s placed offset seed generation js ⟨trials, hashes⟩

/-- The first odd seed that fits, among the attempts. -/
def searchSeed (s : Sorted) (placed : Placed) (offset count : ℕ) :
    List ℕ → ℕ → Trial → Option (Option ℕ × ℕ × Trial)
  | [], generation, t => some (none, generation, t)
  | attempt :: attempts, generation, t => do
      let (fits, t) ← tryItems s placed offset (attempt * 2 + 1) ((generation + 1) % 2 ^ 32)
        (List.range count) t
      if fits then some (some (attempt * 2 + 1), (generation + 1) % 2 ^ 32, t)
      else searchSeed s placed offset count attempts ((generation + 1) % 2 ^ 32) t

/-- The items of a bucket placed with its seed; `false` after a conflict. -/
def placeItems (s : Sorted) (offset seed : ℕ) : List ℕ → Placed → Option (Bool × Placed)
  | [], p => some (true, p)
  | j :: js, p => do
      let (id, hash) ← s.item offset j
      let slot := slotOf hash seed
      let used ← read slotCapacity p.used slot
      if used then do
        let placedHash ← read slotCapacity p.hash slot
        if placedHash ≠ hash then some (false, p)
        else do
          let ids ← write slotCapacity p.ids slot marker
          placeItems s offset seed js { p with ids }
      else do
        let used ← write slotCapacity p.used slot true
        let hashes ← write slotCapacity p.hash slot hash
        let ids ← write slotCapacity p.ids slot ((id * 3 + 1) % 2 ^ 16)
        placeItems s offset seed js ⟨used, hashes, ids⟩

/-- The variables of the loop over the buckets. -/
structure Building where
  generation : ℕ
  trial : Trial
  placed : Placed
  seeds : ℕ → ℕ

/-- The buckets in the order of the sort; the inner `none` stands for a failure. -/
def placeBuckets (s : Sorted) : List (ℕ × ℕ) → Building → Option (Option Building)
  | [], b => some (some b)
  | (bucket, count) :: order, b =>
      if count = 0 then some (some b)
      else do
        let offset ← read (bucketCapacity + 1) s.offsets bucket
        let (seed, generation, trial) ← searchSeed s b.placed offset count (List.range 4096)
          b.generation b.trial
        match seed with
        | none => some none
        | some seed => do
            let (fits, placed) ← placeItems s offset seed (List.range count) b.placed
            if fits then do
              let seeds ← write bucketCapacity b.seeds bucket seed
              placeBuckets s order ⟨generation, trial, placed, seeds⟩
            else some none

/-- The check of all ids. -/
def checkIds (hashes seeds ids : ℕ → ℕ) : List ℕ → Option Bool
  | [] => some true
  | id :: rest => do
      let hash ← read contestChannels hashes id
      let seed ← read bucketCapacity seeds (bucketOf hash)
      let found ← read slotCapacity ids (slotOf hash seed)
      if found ≠ id * 3 + 1 ∧ found ≠ marker then some false else checkIds hashes seeds ids rest

/-- The seeds, two elements each, and then the ids written over `fast_ids`. -/
def overlay (seeds ids fastIds : ℕ → ℕ) (i : ℕ) : ℕ :=
  if i < 2 * bucketCapacity then seeds (i / 2) / 2 ^ (16 * (i % 2)) % 2 ^ 16
  else if i < 2 * bucketCapacity + slotCapacity then ids (i - 2 * bucketCapacity) % 2 ^ 16
  else fastIds i

/-- The last check, and the tables written unless something failed. -/
def writeTables (hashes : ℕ → ℕ) (d : Dictionary) : Option Building → Option (Bool × Dictionary)
  | none => some (false, d)
  | some b => do
      let correct ← checkIds hashes b.seeds b.placed.ids (List.range contestChannels)
      if correct then some (true, { d with fastIds := overlay b.seeds b.placed.ids d.fastIds })
      else some (false, d)

/-- Whether the tables were built, and the map after that. `none` stands for an index out of
range. -/
def buildMph (qsort : List (ℕ × ℕ) → List (ℕ × ℕ)) (stack : Stack) (d : Dictionary) :
    Option (Bool × Dictionary) := do
  let (hashes, counts) ← d.entries.foldlM countEntry (stack.hashes, fun _ => 0)
  let offsets ← write (bucketCapacity + 1) stack.offsets 0 0
  let (offsets, cursor) ← (List.range bucketCapacity).foldlM (addOffset counts)
    (offsets, stack.cursor)
  let (items, _) ← (List.range contestChannels).foldlM (addItem hashes) (stack.items, cursor)
  let order := qsort ((List.range bucketCapacity).map fun b => (b, counts b))
  let built ← placeBuckets ⟨hashes, items, offsets⟩ order
    ⟨0, ⟨fun _ => 0, stack.trialHash⟩, ⟨fun _ => false, stack.placedHash, stack.ids⟩, stack.seeds⟩
  writeTables hashes d built

def Dictionary.mphSeed (d : Dictionary) (bucket : ℕ) : Option ℕ := do
  let low ← read fastCapacity d.fastIds (2 * bucket)
  let high ← read fastCapacity d.fastIds (2 * bucket + 1)
  some (low + 2 ^ 16 * high)

def Dictionary.mphId (d : Dictionary) (slot : ℕ) : Option ℕ :=
  read fastCapacity d.fastIds (2 * bucketCapacity + slot)

/-- A search compares the hash, the length and the bytes. -/
def isEntry (key : Bytes) (hash : UInt32) : Option Entry → Bool
  | none => false
  | some e => e.hash == hash && e.key.length == key.length && e.key == key

/-- The entry of a key of the map; `none` at a free slot, where the program ends. -/
def mapFindReadonly (d : Dictionary) (key : Bytes) (hash : UInt32) : Option Entry := do
  let i ← locate Option.isNone (isEntry key hash) d.entries hash.toNat
  (d.entries[i]?).join

def dictionaryFindSlot3Plus1 (d : Dictionary) (key : Bytes) (hash : UInt32) : Option ℕ := do
  let seed ← d.mphSeed (bucketOf hash.toNat)
  let id ← d.mphId (slotOf hash.toNat seed)
  if id ≠ marker then some id
  else do
    let e ← mapFindReadonly d key hash
    some (e.id.toNat * 3 + 1)

def keyOf (e : Option Entry) : Bytes := (e.map Entry.key).getD []

/-- A map of all channels of the contest, with their hashes and the ids from 0 on. -/
structure Dictionary.IsFull (hashBytes : Bytes → UInt32) (d : Dictionary) : Prop where
  sound : Sound Option.isNone keyOf (fun key => (hashBytes key).toNat) d.entries
  hash : ∀ e, some e ∈ d.entries → e.hash = hashBytes e.key
  ids : (d.entries.reduceOption.map fun e => e.id.toNat).Perm (List.range contestChannels)

/-- What the comparison of two buckets makes of `qsort`, which need not be stable. -/
def SortsByCount (qsort : List (ℕ × ℕ) → List (ℕ × ℕ)) : Prop :=
  ∀ order, (qsort order).Perm order ∧ (qsort order).Pairwise fun x y => y.2 ≤ x.2

end OneBrc.Analyzer.Mph
