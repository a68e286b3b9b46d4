import OneBrc.Analyzer.Scan
import OneBrc.Analyzer.Stats
import OneBrc.Analyzer.Tally
import OneBrc.Lib.ByteOrder

/-! Hash tables that keep a tag of 16 bits of each hash, the workers that fill them, and the output
in the order of the channels. -/
namespace OneBrc.Analyzer.TagMap
open Lib OpenAddressing StableSort FlatMap

abbrev Table (ω : Type) := FlatMap UInt16 (Stats ω)

section Table
variable {ω : Type} [OfNat ω 0] (hashBytes : Bytes → UInt32)

variable (ω) in
/-- A tag of 16 bits of the hash, and a month of zeros. -/
def kind : TableKind UInt16 (Stats ω) where
  hashBytes := hashBytes
  sigOf := fun hash => (hash >>> 16).toUInt16
  fresh := ⟨0, 0, 0, 0, 0⟩

/-- The part of a key that its length of 32 bits covers. -/
def keyOf (path : Bytes) : Bytes := path.take (path.length % 2 ^ 32)

variable [Add ω] (reserve : Table ω → Option (Table ω))

/-- A row counted for its channel, with room made before. -/
def add (wide : UInt32 → ω) (m : Table ω) (row : ParsedRow) : Option (Table ω) := do
  addTo (kind ω hashBytes) (Stats.push wide row.messageLength row.stampCount) (← reserve m)
    (keyOf row.path) (hashBytes row.path) row.month

/-- The keys of another table are hashed again. -/
def mergeFrom (m other : Table ω) : Option (Table ω) :=
  FlatMap.mergeFrom (kind ω hashBytes) reserve Stats.join (fun e => hashBytes e.key) m other

/-- The rows of a chunk in a new table. -/
def analyzeChunk (guard : ℕ) (monthOf : Bytes → Option (Fin 12))
    (channelLength : ℕ → Bytes → Option ℕ) (wide : UInt32 → ω) (capacity : ℕ) (data : Bytes)
    (chunk : ℕ × ℕ) : Option (Table ω) :=
  scan guard (readRow monthOf channelLength) (add hashBytes reserve wide)
    (data.length - chunk.2) (data.length + 1) (data.drop chunk.1)
    (FlatMap.empty (kind ω hashBytes) capacity)

omit [OfNat ω 0] [Add ω] in
/-- The lines of the entries in the order of their keys. -/
def writeResult (mean : ℤ → ℤ → Bytes) (number : ω → ℕ) (m : Table ω) : Option (List Bytes) :=
  writeEntries (Stats.cell mean number) m (sliceStable
    (fun a b => ByteOrder.less a.key b.key) (live MapEntry.isFree m.entries))

end Table

/-- Rows whose numbers, paths and groups fit the table. -/
structure Countable (rows : List Row) : Prop where
  valid : ∀ r ∈ rows, r.Valid
  channels : (rows.map Row.path).dedup.length ≤ 2 ^ 16
  path_lt : ∀ r ∈ rows, r.path.length < 2 ^ 32
  messageLength_lt : ∀ r ∈ rows, r.messageLength < 2 ^ 32
  stampCount_lt : ∀ r ∈ rows, r.stampCount < 2 ^ 32
  group_lt : ∀ path month, (group rows path month).length < 2 ^ 32

/-- The table tallies the rows and has a length that can be reserved. -/
def Counts {ω : Type} [OfNat ω 0] (hashBytes : Bytes → UInt32) (cast : ℕ → ω) (ok : ℕ → Prop)
    (m : Table ω) (rows : List Row) : Prop :=
  Tallies (kind ω hashBytes) (Stats.of cast) m rows ∧ ok m.entries.length

section Correctness
variable {ω : Type} [Add ω] [OfNat ω 0] {hashBytes : Bytes → UInt32}
  {reserve : Table ω → Option (Table ω)} {ok : ℕ → Prop} {wide : UInt32 → ω} {cast : ℕ → ω}
  {rows : List Row}

theorem mem_channels {r : Row} (h : r ∈ rows) : r.path ∈ (rows.map Row.path).dedup :=
  List.mem_dedup.mpr (List.mem_map_of_mem h)

theorem keyOf_eq {path : Bytes} (h : path.length < 2 ^ 32) : keyOf path = path := by
  rw [keyOf, Nat.mod_eq_of_lt h, List.take_length]

/-- A row counted by a worker. -/
theorem add_counts
    (hreserve : Reserves (kind ω hashBytes) ok (rows.map Row.path).dedup.length reserve)
    (hwide : Stats.Widens wide cast) (hrows : Countable rows) {done : List Row} {r : Row}
    (hdone : (done ++ [r]).Sublist rows) {m : Table ω} (h : Counts hashBytes cast ok m done) :
    ∃ m', add hashBytes reserve wide m ⟨r.path, r.month, UInt32.ofNat r.messageLength,
      UInt32.ofNat r.stampCount⟩ = some m' ∧ Counts hashBytes cast ok m' (done ++ [r]) := by
  have hr : r ∈ rows := hdone.subset List.mem_concat_self
  have hpush : Stats.push wide (UInt32.ofNat r.messageLength) (UInt32.ofNat r.stampCount)
      (Stats.of cast (group done r.path r.month)) =
      Stats.of cast (group done r.path r.month ++ [r]) := by
    apply Stats.push_of hwide (hrows.messageLength_lt r hr) (hrows.stampCount_lt r hr)
    rw [← group_concat_self]
    exact Nat.lt_of_le_of_lt (length_group_le hdone) (hrows.group_lt _ _)
  obtain ⟨m₁, m', hrun, hadd, h', hok⟩ := h.1.add hreserve hrows.channels h.2
    (fun r' hr' => mem_channels (hdone.subset (List.mem_append_left _ hr'))) (mem_channels hr)
    (hrows.valid r hr).path_ne hpush
  refine ⟨m', ?_, h', hok⟩
  simp only [add, hrun, keyOf_eq (hrows.path_lt r hr), bind, Option.bind]
  exact hadd

omit [Add ω] in
theorem empty_counts (hzero : cast 0 = 0) {k : ℕ} (hok : ok (2 ^ k)) :
    Counts hashBytes cast ok (FlatMap.empty (kind ω hashBytes) (2 ^ k)) [] := by
  refine ⟨Tallies.empty ?_ k, ?_⟩
  · simp [Stats.of, kind, lengths, stamps, Stats.narrow, least, greatest, hzero]
  · rw [FlatMap.empty, freeEntries, List.length_replicate]
    exact hok

theorem analyzeChunk_counts
    (hreserve : Reserves (kind ω hashBytes) ok (rows.map Row.path).dedup.length reserve)
    (hwide : Stats.Widens wide cast) (hzero : cast 0 = 0) {guard k : ℕ} (hguard : guard ≤ 10)
    (hok : ok (2 ^ k)) {monthOf : Bytes → Option (Fin 12)}
    (hmonth : ∀ r ∈ rows, ∀ rest, monthOf (Decimal.encode r.timestamp ++ rest) = some r.month)
    {channelLength : ℕ → Bytes → Option ℕ}
    (hchannel : ∀ r ∈ rows, ∀ after rest, after ≤ rest.length →
      channelLength after (r.path ++ comma :: rest) = some r.path.length)
    (hrows : Countable rows) {text : Bytes} {chunk : ℕ × ℕ} {part : List Row}
    (hpart : part.Sublist rows) (hchunk : Chunk text chunk part) :
    ∃ m, analyzeChunk hashBytes reserve guard monthOf channelLength wide (2 ^ k) text chunk =
      some m ∧ Counts hashBytes cast ok m part := by
  apply scan_chunk hguard (fun r => ⟨r.path, r.month, UInt32.ofNat r.messageLength,
    UInt32.ofNat r.stampCount⟩) hchunk (fun r hr => hrows.valid r (hpart.subset hr)) ?_ ?_
    (empty_counts hzero hok)
  · intro r hr rest hafter
    exact (hrows.valid r (hpart.subset hr)).readRow_line hafter (hmonth r (hpart.subset hr))
      fun rest' hrest' => hchannel r (hpart.subset hr) _ rest' hrest'
  · intro m done r hstart h
    exact add_counts hreserve hwide hrows (hstart.sublist.trans hpart) h

theorem mergeFrom_counts
    (hreserve : Reserves (kind ω hashBytes) ok (rows.map Row.path).dedup.length reserve)
    (hwide : Stats.Widens wide cast) (hrows : Countable rows) {m other : Table ω}
    {done part : List Row} (hdone : (done ++ part).Sublist rows)
    (h : Counts hashBytes cast ok m done) (h' : Counts hashBytes cast ok other part) :
    ∃ m', mergeFrom hashBytes reserve m other = some m' ∧
      Counts hashBytes cast ok m' (done ++ part) := by
  have hjoin (path : Bytes) (month : Fin 12) :
      Stats.join (Stats.of cast (group done path month)) (Stats.of cast (group part path month)) =
        Stats.of cast (group done path month ++ group part path month) := by
    apply Stats.join_of hwide
    rw [← group_append]
    exact Nat.lt_of_le_of_lt (length_group_le hdone) (hrows.group_lt _ _)
  exact h.1.merge hreserve hrows.channels h'.1 h.2
    (fun r hr => mem_channels (hdone.subset (List.mem_append_left _ hr)))
    (fun r hr => mem_channels (hdone.subset (List.mem_append_right _ hr)))
    (show ∀ e ∈ live MapEntry.isFree other.entries,
      hashBytes e.key = (kind ω hashBytes).hashBytes e.key from fun _ _ => rfl) hjoin

omit [Add ω] in
/-- The lines of a table that tallies the rows: by channels in their order, and by months. -/
theorem writeResult_counts (mean : ℤ → ℤ → Bytes) (number : ω → ℕ) (hrows : Countable rows)
    {m : Table ω} (h : Counts hashBytes cast ok m rows) :
    ∃ paths : List Bytes, paths.Nodup ∧ (∀ path, path ∈ paths ↔ ∃ r ∈ rows, r.path = path) ∧
      writeResult mean number m = some ((sliceStable ByteOrder.less paths).flatMap
        (channelLines (Stats.line mean number cast) rows)) := by
  have hwrite := h.1.writeEntries (Stats.line mean number cast) (Stats.cell mean number)
    (sliceStable (fun a b => ByteOrder.less a.key b.key) (live MapEntry.isFree m.entries))
    (fun path month => Stats.cell_of (hrows.group_lt path month))
    (fun e he => mem_sliceStable.mp he)
  rw [← sliceStable_map ByteOrder.less MapEntry.key] at hwrite
  obtain ⟨keys, hkeys, hmem⟩ := h.1
  refine ⟨(live MapEntry.isFree m.entries).map MapEntry.key, hkeys.sound.nodup, ?_, hwrite⟩
  intro path
  rw [hkeys.keys_perm.mem_iff, hmem]

/-- The lines of the channels in some order are a report. -/
theorem isReport_sorted {line : Bytes → Fin 12 → List Row → Bytes} {paths : List Bytes}
    (hline : Distinguishes line rows) (hnodup : paths.Nodup)
    (hmem : ∀ path, path ∈ paths ↔ ∃ r ∈ rows, r.path = path) :
    IsReport line rows
      ((sliceStable ByteOrder.less paths).flatMap (channelLines line rows)) := by
  apply isReport_channelLines hline ((sliceStable_perm _ _).nodup_iff.mpr hnodup)
  intro r hr
  exact mem_sliceStable.mpr ((hmem r.path).mpr ⟨r, hr, rfl⟩)

omit [Add ω] in
theorem isReport_writeResult (mean : ℤ → ℤ → Bytes) (number : ω → ℕ) (hrows : Countable rows)
    {m : Table ω} (h : Counts hashBytes cast ok m rows) :
    ∃ lines, writeResult mean number m = some lines ∧
      IsReport (Stats.line mean number cast) rows lines := by
  obtain ⟨paths, hnodup, hmem, hwrite⟩ := writeResult_counts mean number hrows h
  have hline : Distinguishes (Stats.line mean number cast) rows :=
    distinguishes_recordLine (fun _ _ _ => rfl) fun r hr => (hrows.valid r hr).comma_notMem
  exact ⟨_, hwrite, isReport_sorted hline hnodup hmem⟩

end Correctness

section Contract
variable {rows : List Row}

theorem valid_of_isContract (h : IsContract rows) : ∀ r ∈ rows, r.Valid := fun r hr =>
  { in2027 := h.in2027 r hr
    path_ne := (h.path r hr).ne_nil
    comma_notMem := fun hmem => ((h.path r hr).byte comma hmem).2.1 rfl
    newline_notMem := fun hmem => ((h.path r hr).byte newline hmem).2.2 rfl }

theorem countable_of_isContract (h : IsContract rows) : Countable rows where
  valid := valid_of_isContract h
  channels := h.channels.trans (by decide)
  path_lt r hr := Nat.lt_of_le_of_lt (h.path r hr).length_le (by decide)
  messageLength_lt _ hr := (h.number_lt hr).1
  stampCount_lt _ hr := (h.number_lt hr).2
  group_lt := h.messages_lt

theorem widens_id : Stats.Widens id UInt32.ofNat where
  add := UInt32.ofNat_add
  wide _ _ := rfl

/-- Totals of 32 bits are printed as they are. -/
theorem line_of_isContract (mean : ℤ → ℤ → Bytes) (h : IsContract rows) (path : Bytes)
    (month : Fin 12) : Stats.line mean UInt32.toNat UInt32.ofNat path month
      (group rows path month) = recordLine path month
        (Decimal.encode (least (Stats.narrow (group rows path month))))
        (mean (lengths (group rows path month)).sum (group rows path month).length)
        (Decimal.encode (greatest (Stats.narrow (group rows path month))))
        (Decimal.encode (group rows path month).length)
        (Decimal.encode (stamps (group rows path month)).sum) := by
  rw [Stats.line, UInt32.toNat_ofNat_of_lt' (h.total_lt path month),
    UInt32.toNat_ofNat_of_lt' (h.stamps_lt path month)]

/-- With lengths of 16 bits the records are exact. -/
theorem line_eq_reportLine (mean : ℤ → ℤ → Bytes) (h : IsContract rows)
    (hshort : ∀ r ∈ rows, r.messageLength ≤ 65535) (path : Bytes) (month : Fin 12) :
    Stats.line mean UInt32.toNat UInt32.ofNat path month (group rows path month) =
      reportLine mean path month (group rows path month) := by
  apply Stats.line_eq_reportLine
  · intro r hr
    have hle := hshort r (mem_group.mp hr).1
    omega
  · exact UInt32.toNat_ofNat_of_lt' (h.total_lt path month)
  · exact UInt32.toNat_ofNat_of_lt' (h.stamps_lt path month)

end Contract
end OneBrc.Analyzer.TagMap
