import OneBrc.Analyzer.BaselineGo
import OneBrc.Analyzer.Chunks
import OneBrc.Analyzer.GoMap

/-! The generator of expected outputs. Its sums have 64 bits. -/
namespace OneBrc.Analyzer.Expected
open Lib StableSort TagMap GoMap Chunks

/-- All ten digits of a timestamp. -/
def unixTimestamp (rest : Bytes) : Option UInt32 := do
  let first8 ← timestampHundreds rest
  let tens : UInt8 ← rest[8]?
  let ones : UInt8 ← rest[9]?
  some (first8 * 100 + (tens - 48).toUInt32 * 10 + (ones - 48).toUInt32)

def monthIndexFromUnixTimestamp (timestamp : UInt32) : Option (Fin 12) :=
  monthByDay[((timestamp - UInt32.ofNat yearStart) / 86400).toNat]?

def monthOf (rest : Bytes) : Option (Fin 12) := do
  monthIndexFromUnixTimestamp (← unixTimestamp rest)

def analyzeChunk (data : Bytes) (chunk : ℕ × ℕ) : Option (Table UInt64) :=
  GoMap.analyzeChunk UInt32.toUInt64 monthOf data chunk

/-- The tables of all workers, merged into a new one. -/
def analyzeChunks (data : Bytes) (chunks : List (ℕ × ℕ)) : Option (Table UInt64) := do
  let locals ← chunks.mapM (analyzeChunk data)
  locals.foldlM mergeFrom (newFlatMap defaultMapCap)

def analyzeMemory (data : Bytes) (threads : Int64) : Except AnalyzeError (Table UInt64) := do
  let start ← readHeader data
  match divide data start threads with
  | none => .error .fault
  | some [] => .ok (newFlatMap defaultMapCap)
  | some chunks =>
    match analyzeChunks data chunks with
    | none => .error .fault
    | some merged => .ok merged

/-- The lines of the expected output; none after an error. -/
def output (mean : ℤ → ℤ → Bytes) (data : Bytes) (threads : Int64) : Option (List Bytes) :=
  match analyzeMemory data threads with
  | .ok m => writeResult mean UInt64.toNat m
  | .error _ => none

/-- The addresses of a process have at most 48 bits. -/
def addressSpace : ℕ := 2 ^ 48

/-- An empty file is refused, and one that is longer than the address space is not mapped. -/
def openMmap (file : Bytes) : Option Bytes :=
  if file = [] ∨ addressSpace < file.length then none else some file

/-- `Generate`: the lines of the expected output of a file; none after an error. -/
def generate (mean : ℤ → ℤ → Bytes) (file : Bytes) (threads : Int64) : Option (List Bytes) := do
  if threads ≤ 0 then none else output mean (← openMmap file) threads

theorem generate_eq_some {mean : ℤ → ℤ → Bytes} {file : Bytes} {threads : Int64}
    {lines : List Bytes} : generate mean file threads = some lines ↔
      0 < threads ∧ file ≠ [] ∧ file.length ≤ addressSpace ∧
        output mean file threads = some lines := by
  simp only [generate, openMmap]
  split
  · next hle => simp [Int64.not_lt.mpr hle]
  · next hpos =>
    rw [Int64.not_le] at hpos
    split
    · next hnot =>
      simp only [bind, Option.bind, reduceCtorEq, false_iff]
      rintro ⟨-, hne, hle, -⟩
      rcases hnot with hnil | hlong
      · exact hne hnil
      · exact absurd hle (Nat.not_le.mpr hlong)
    · next hmap =>
      rw [not_or, Nat.not_lt] at hmap
      simp [hpos, hmap, bind, Option.bind]

theorem widens : Stats.Widens UInt32.toUInt64 UInt64.ofNat where
  add := UInt64.ofNat_add
  wide n h := by
    apply UInt64.toNat_inj.mp
    rw [UInt32.toNat_toUInt64, UInt32.toNat_ofNat_of_lt' h,
      UInt64.toNat_ofNat_of_lt' (Nat.lt_of_lt_of_le h (by decide))]

section Timestamps
variable {timestamp : ℕ}

theorem unixTimestamp_encode (h : In2027 timestamp) (tail : Bytes) :
    unixTimestamp (Decimal.encode timestamp ++ tail) = some (UInt32.ofNat timestamp) := by
  have hlength := length_encode_of_in2027 h
  have hsplit := List.take_append_drop 8 (Decimal.encode timestamp)
  have hdrop : ((Decimal.encode timestamp).drop 8).length = 2 := by rw [List.length_drop, hlength]
  obtain ⟨tens, ones, hpair⟩ := List.length_eq_two.mp hdrop
  have hvalue := (value_take_encode h).2
  rw [hpair, Decimal.value_cons, Decimal.value_cons] at hvalue
  have htens : (Decimal.encode timestamp ++ tail)[8]? = some tens := by
    rw [List.getElem?_append_left (by omega), ← List.getElem?_drop (i := 8) (j := 0), hpair]
    rfl
  have hones : (Decimal.encode timestamp ++ tail)[9]? = some ones := by
    rw [List.getElem?_append_left (by omega), ← List.getElem?_drop (i := 8) (j := 1), hpair]
    rfl
  simp only [unixTimestamp, timestampHundreds_encode h, htens, hones, bind, Option.bind]
  have htens' : (tens - 48).toUInt32 = UInt32.ofNat (Decimal.digit tens) := by simp [Decimal.digit]
  have hones' : (ones - 48).toUInt32 = UInt32.ofNat (Decimal.digit ones) := by simp [Decimal.digit]
  have hdigits : Decimal.digit tens * 10 + Decimal.digit ones = timestamp % 100 := by
    simpa [Decimal.value] using hvalue
  have hsum : timestamp / 100 * 100 + Decimal.digit tens * 10 + Decimal.digit ones = timestamp := by
    omega
  rw [htens', hones']
  conv_rhs => rw [← hsum, UInt32.ofNat_add, UInt32.ofNat_add, UInt32.ofNat_mul, UInt32.ofNat_mul]
  rfl

theorem monthOf_encode (h : In2027 timestamp) (tail : Bytes) :
    monthOf (Decimal.encode timestamp ++ tail) = some (utcMonth timestamp) := by
  obtain ⟨hlow, hhigh⟩ := day_of_in2027 h
  have hday : ((UInt32.ofNat timestamp - UInt32.ofNat yearStart) / 86400).toNat =
      timestamp / 86400 - 20819 := by
    have hsub : timestamp - yearStart = timestamp - 20819 * 86400 := rfl
    rw [← UInt32.ofNat_sub (show yearStart ≤ timestamp by unfold yearStart; omega),
      UInt32.toNat_div, UInt32.toNat_ofNat_of_lt' (show _ < 2 ^ 32 by omega), hsub]
    show (timestamp - 20819 * 86400) / 86400 = _
    omega
  simp only [monthOf, monthIndexFromUnixTimestamp, unixTimestamp_encode h, bind, Option.bind, hday,
    monthByDay_of_in2027 h]

end Timestamps

section Rows
variable {rows : List Row}

/-- What the workers find in their chunks, and merging keeps, holds of the result. -/
theorem analyzeMemory_of_chunks {T : Table UInt64 → List Row → Prop}
    (hvalid : ∀ r ∈ rows, r.Valid) (hnew : T (newFlatMap defaultMapCap) [])
    (hchunk : ∀ chunk part, part.Sublist rows → Chunk (csv rows) chunk part →
      ∃ m, analyzeChunk (csv rows) chunk = some m ∧ T m part)
    (hmerge : ∀ m done other part, done ++ part <+: rows → T m done → T other part →
      ∃ m', mergeFrom m other = some m' ∧ T m' (done ++ part)) {threads : Int64}
    (hdividable : Dividable (csv rows) (header.length + 1) threads) :
    ∃ m, analyzeMemory (csv rows) threads = .ok m ∧ T m rows := by
  obtain ⟨chunks, parts, hdivide, hparts, hchunks⟩ := divide_parts hvalid hdividable
  obtain ⟨locals, hlocals, hT⟩ := mapM_parts hchunks fun chunk part hpart =>
    hchunk chunk part (hparts ▸ List.sublist_flatten_of_mem hpart)
  obtain ⟨m, hm, htotal⟩ := foldlM_parts mergeFrom hmerge hT hnew
    ((List.nil_append parts.flatten).trans hparts)
  have hrun : analyzeChunks (csv rows) chunks = some m := by
    unfold analyzeChunks
    rw [hlocals]
    exact hm
  cases chunks with
  | nil =>
    cases hchunks
    obtain rfl : rows = [] := hparts.symm
    simp only [analyzeMemory, readHeader_csv, bind, Except.bind, hdivide]
    exact ⟨_, rfl, hnew⟩
  | cons chunk chunks =>
    simp only [analyzeMemory, readHeader_csv, bind, Except.bind, hdivide, hrun]
    exact ⟨m, rfl, htotal⟩

/-- The table of the generator holds all groups. -/
theorem analyzeMemory_csv (hrows : Countable rows) {threads : Int64}
    (hdividable : Dividable (csv rows) (header.length + 1) threads) :
    ∃ m, analyzeMemory (csv rows) threads = .ok m ∧
      Counts UInt64.ofNat m rows := by
  apply analyzeMemory_of_chunks hrows.valid (newFlatMap_counts rfl) _ _ hdividable
  · intro chunk part hpart hchunk
    exact analyzeChunk_counts widens rfl
      (fun r hr => monthOf_encode (hrows.valid r hr).in2027) hrows hpart hchunk
  · intro m done other part hstart h h'
    exact mergeFrom_counts widens hrows hstart.sublist h h'

/-- The generator writes the records of each channel by months. -/
theorem output_csv (mean : ℤ → ℤ → Bytes) (hrows : Countable rows) {threads : Int64}
    (hdividable : Dividable (csv rows) (header.length + 1) threads) :
    ∃ paths : List Bytes, paths.Nodup ∧ (∀ path, path ∈ paths ↔ ∃ r ∈ rows, r.path = path) ∧
      output mean (csv rows) threads = some ((sliceStable ByteOrder.less paths).flatMap
        (channelLines (Stats.line mean UInt64.toNat UInt64.ofNat) rows)) := by
  obtain ⟨m, hm, hcounts⟩ := analyzeMemory_csv hrows hdividable
  obtain ⟨paths, hnodup, hmem, hwrite⟩ :=
    writeResult_counts mean UInt64.toNat hrows hcounts
  refine ⟨paths, hnodup, hmem, ?_⟩
  simp only [output, hm]
  exact hwrite

/-- A product that wraps around ends the generator. -/
theorem output_eq_none (mean : ℤ → ℤ → Bytes) {threads : Int64}
    (hlength : (csv rows).length < 2 ^ 61)
    (hnot : ¬Dividable (csv rows) (header.length + 1) threads) :
    output mean (csv rows) threads = none := by
  cases hdivide : divide (csv rows) (header.length + 1) threads with
  | some chunks =>
    exact absurd (dividable_of_divide (by decide) (le_length_csv rows) hlength hdivide) hnot
  | none => simp only [output, analyzeMemory, readHeader_csv, bind, Except.bind, hdivide]

/-- A file whose expected output was generated could be divided. -/
theorem dividable_of_generate {mean : ℤ → ℤ → Bytes} {threads : Int64} {lines : List Bytes}
    (h : generate mean (csv rows) threads = some lines) :
    Dividable (csv rows) (header.length + 1) threads := by
  obtain ⟨-, -, hlength, houtput⟩ := generate_eq_some.mp h
  by_contra hnot
  rw [output_eq_none mean (Nat.lt_of_le_of_lt hlength (by decide)) hnot] at houtput
  cases houtput

end Rows
end OneBrc.Analyzer.Expected
