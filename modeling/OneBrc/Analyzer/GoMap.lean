import OneBrc.Analyzer.TagMap

/-! What the two analyzers in Go share, the reference generator and the optimized one: their hash
table grows, and chunks without rows are left out. -/
namespace OneBrc.Analyzer.GoMap
open Lib FlatMap TagMap

def defaultMapCap : ℕ := 2 ^ 15

def rotateLeft (x : UInt64) (k : UInt64) : UInt64 := x <<< k ||| x >>> (64 - k)

def mix64 (x : UInt64) : UInt64 :=
  let x := x ^^^ x >>> 30
  let x := x * 0xbf58476d1ce4e5b9
  let x := x ^^^ x >>> 27
  let x := x * 0x94d049bb133111eb
  x ^^^ x >>> 31

/-- Samples of the first, the middle and the last eight bytes; of a short key all bytes. -/
def hashBytes (data : Bytes) : UInt32 :=
  let n := data.length
  let (a, b, c) : UInt64 × UInt64 × UInt64 :=
    if 24 ≤ n then
      (Swar.load64 data, Swar.load64 (data.drop (n / 2 - 4)), Swar.load64 (data.drop (n - 8)))
    else if 8 ≤ n then (Swar.load64 data, 0, Swar.load64 (data.drop (n - 8)))
    else (UInt64.ofNat (Swar.littleEndian data), 0, 0)
  let h := a * 0x9e3779b185ebca87 ^^^ rotateLeft b 21 ^^^ rotateLeft c 43
  (mix64 (h ^^^ UInt64.ofNat n * 0xd6e8feb86659fd93)).toUInt32

section Table
variable {ω : Type} [OfNat ω 0]

variable (ω) in
abbrev mapKind : TableKind UInt16 (Stats ω) := kind ω hashBytes

def newFlatMap (capacity : ℕ) : Table ω := FlatMap.empty (mapKind ω) capacity

/-- A table that is filled to seven tenths is doubled. -/
def grow (m : Table ω) : Option (Table ω) :=
  if (m.size + 1) * 10 ≥ m.entries.length * 7 then rehash (mapKind ω) m (m.entries.length * 2)
  else some m

variable [Add ω]

def add (wide : UInt32 → ω) (m : Table ω) (row : ParsedRow) : Option (Table ω) :=
  TagMap.add hashBytes grow wide m row

def mergeFrom (m other : Table ω) : Option (Table ω) := TagMap.mergeFrom hashBytes grow m other

/-- The channel ends at the first comma of the chunk. -/
def channelLength (after : ℕ) (rest : Bytes) : Option ℕ :=
  (rest.take (rest.length - after)).findIdx? fun b => decide (b = comma)

/-- At the end of a chunk less than a timestamp is left out. -/
def analyzeChunk (wide : UInt32 → ω) (monthOf : Bytes → Option (Fin 12)) (data : Bytes)
    (chunk : ℕ × ℕ) : Option (Table ω) :=
  TagMap.analyzeChunk hashBytes grow 10 monthOf channelLength wide defaultMapCap data chunk

/-- Why an analysis fails: the header, or a fault of the program. -/
inductive AnalyzeError where
  | readHeader
  | unsupportedHeader (line : Bytes)
  | fault

/-- The start of the rows. -/
def readHeader (data : Bytes) : Except AnalyzeError ℕ :=
  match Lines.indexFrom newline data 0 with
  | none => .error .readHeader
  | some headerEnd =>
      if data.take headerEnd ≠ header then .error (.unsupportedHeader (data.take headerEnd))
      else .ok (headerEnd + 1)

end Table

section Correctness
variable {ω : Type} [Add ω] [OfNat ω 0] {wide : UInt32 → ω} {cast : ℕ → ω} {rows : List Row}

/-- The table tallies the rows. -/
def Counts (cast : ℕ → ω) (m : Table ω) (rows : List Row) : Prop :=
  TagMap.Counts hashBytes cast (fun _ => True) m rows

/-- Doubling at seven tenths makes room. -/
theorem reserves_doubling {τ σ : Type} (K : TableKind τ σ) (n : ℕ) :
    Reserves K (fun _ => True) n fun m =>
      if (m.size + 1) * 10 ≥ m.entries.length * 7 then rehash K m (m.entries.length * 2)
      else some m := by
  intro m keys c h _ _
  obtain ⟨k, hk⟩ := h.sound.length_eq
  have hle := h.length_le
  have hsize := h.size
  have hpos : 0 < 2 ^ k := Nat.two_pow_pos k
  dsimp only
  split
  · obtain ⟨m', hrun, h', hlen⟩ := h.rehash (k := k + 1) (by rw [Nat.pow_succ]; omega)
    rw [hk, ← Nat.pow_succ]
    exact ⟨m', hrun, h', trivial, by rw [hlen, Nat.pow_succ]; omega⟩
  · exact ⟨m, rfl, h, trivial, by omega⟩

omit [Add ω] in
theorem reserves_grow (n : ℕ) : Reserves (mapKind ω) (fun _ => True) n grow :=
  reserves_doubling (mapKind ω) n

omit [Add ω] in
theorem newFlatMap_counts (hzero : cast 0 = 0) :
    Counts cast (newFlatMap defaultMapCap : Table ω) [] :=
  empty_counts hzero trivial

/-- The first comma of a chunk after the path. -/
theorem channelLength_path {path rest : Bytes} {after : ℕ} (hcomma : comma ∉ path)
    (hafter : after ≤ rest.length) :
    channelLength after (path ++ comma :: rest) = some path.length := by
  rw [channelLength, take_path_append hafter, List.findIdx?_append]
  have hnone : path.findIdx? (fun b => decide (b = comma)) = none := by
    rw [List.findIdx?_eq_none_iff]
    intro b hb
    exact decide_eq_false fun heq => hcomma (heq ▸ hb)
  rw [hnone]
  simp [List.findIdx?_cons]

theorem analyzeChunk_counts (hwide : Stats.Widens wide cast) (hzero : cast 0 = 0)
    {monthOf : Bytes → Option (Fin 12)}
    (hmonth : ∀ r ∈ rows, ∀ rest, monthOf (Decimal.encode r.timestamp ++ rest) = some r.month)
    (hrows : Countable rows) {text : Bytes} {chunk : ℕ × ℕ} {part : List Row}
    (hpart : part.Sublist rows) (hchunk : Chunk text chunk part) :
    ∃ m, analyzeChunk wide monthOf text chunk = some m ∧ Counts cast m part :=
  TagMap.analyzeChunk_counts (reserves_grow _) hwide hzero (Nat.le_refl 10) trivial hmonth
    (fun r hr _ _ hrest => channelLength_path (hrows.valid r hr).comma_notMem hrest) hrows hpart
    hchunk

theorem mergeFrom_counts (hwide : Stats.Widens wide cast) (hrows : Countable rows)
    {m other : Table ω} {done part : List Row} (hdone : (done ++ part).Sublist rows)
    (h : Counts cast m done) (h' : Counts cast other part) :
    ∃ m', mergeFrom m other = some m' ∧ Counts cast m' (done ++ part) :=
  TagMap.mergeFrom_counts (reserves_grow _) hwide hrows hdone h h'

theorem readHeader_csv (rows : List Row) : readHeader (csv rows) = .ok (header.length + 1) := by
  have hindex : Lines.indexFrom newline (csv rows) 0 = some header.length := by
    have hnotMem : header.findIdx? (fun b => decide (b = newline)) = none := by decide
    rw [Lines.indexFrom, List.drop_zero, csv, List.append_assoc, List.findIdx?_append, hnotMem]
    simp [List.findIdx?_cons]
  have htake : (csv rows).take header.length = header := by
    rw [csv, List.append_assoc, List.take_left]
  simp only [readHeader, hindex, htake, ne_eq, not_true_eq_false, if_false]

end Correctness
end OneBrc.Analyzer.GoMap
