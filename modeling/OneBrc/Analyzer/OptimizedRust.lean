import OneBrc.Analyzer.BaselineRust
import OneBrc.Analyzer.TagMap
import OneBrc.Lib.BlockSearch
import OneBrc.Lib.Division
import OneBrc.Lib.Fallible

/-! The optimized analyzer in Rust: a table of fixed length whose keys stay in the input. -/
namespace OneBrc.Analyzer.OptimizedRust
open Lib TagMap FlatMap

def cap : ℕ := 2 ^ 15

/-- The words of eight bytes up to the end, and where the rest begins. -/
def hashWords (key : Bytes) : ℕ → ℕ → UInt64 → UInt64 × ℕ
  | 0, i, hash => (hash, i)
  | fuel + 1, i, hash =>
      if i + 8 ≤ key.length then
        hashWords key fuel (i + 8) (Swar.crc32 hash (Swar.load64 (key.drop i)))
      else (hash, i)

/-- The last word overlaps the one before; a short key is a word of its own. -/
def hashBytes (key : Bytes) : UInt32 :=
  let n := key.length
  let (hash, i) := hashWords key n 0 (UInt64.ofNat n)
  let hash :=
    if n < 8 then Swar.crc32 hash (UInt64.ofNat (Swar.littleEndian key))
    else if i < n then Swar.crc32 hash (Swar.load64 (key.drop (n - 8)))
    else hash
  hash.toUInt32

/-- The first comma of the chunk, by blocks of 32 bytes. -/
def channelLength (after : ℕ) (rest : Bytes) : Option ℕ :=
  let text := rest.take (rest.length - after)
  some (BlockSearch.search 32 comma text text.length 0)

def analyzeChunk (data : Bytes) (chunk : ℕ × ℕ) : Option (Table UInt32) :=
  TagMap.analyzeChunk hashBytes some 0 monthOfHundreds channelLength id cap data chunk

def merge (m other : Table UInt32) : Option (Table UInt32) := mergeFrom hashBytes some m other

/-- Where the search for the end of a chunk begins; the product may wrap around. -/
def target (data : Bytes) (start threads i : ℕ) : ℕ :=
  start + (data.length - start) * i % 2 ^ 64 / threads

/-- The position after the next LF; a search that begins outside of the data is a panic. -/
def findNewline (data : Bytes) (target : ℕ) : Option ℕ :=
  if target ≤ data.length then some (Lines.nextCut newline data target) else none

/-- The chunks of the threads, which may be empty. -/
def chunks (data : Bytes) (start threads : ℕ) : Option (List (ℕ × ℕ)) := do
  let stops ← (List.range' 1 (threads - 1)).mapM fun i =>
    findNewline data (target data start threads i)
  some (Lines.chunksUpTo true start (stops ++ [data.length]))

/-- The lines of the output; none after an error or a fault. -/
def run (mean : ℤ → ℤ → Bytes) (data : Bytes) (threads : ℕ) : Option (List Bytes) := do
  if threads = 0 ∨ (header ++ [newline]).isPrefixOf data = false then none
  else
    let results ← (← chunks data (header.length + 1) threads).mapM (analyzeChunk data)
    writeResult mean UInt32.toNat (← mergeAll merge results)

section Correctness
variable {rows : List Row}

/-- A table with a free slot has room. -/
theorem reserves_some {τ σ : Type} {K : TableKind τ σ} {n : ℕ} (hn : n < cap) :
    Reserves K (· = cap) n some := by
  intro m keys c h hok hkeys
  refine ⟨m, rfl, h, hok, ?_⟩
  rw [hok]
  omega

theorem channelLength_path {path rest : Bytes} {after : ℕ} (hcomma : comma ∉ path)
    (hafter : after ≤ rest.length) :
    channelLength after (path ++ comma :: rest) = some path.length := by
  simp only [channelLength, take_path_append hafter, BlockSearch.search_append hcomma]

theorem analyzeChunk_counts (hrows : Countable rows)
    (hchannels : (rows.map Row.path).dedup.length < cap) {text : Bytes} {chunk : ℕ × ℕ}
    {part : List Row} (hpart : part.Sublist rows) (hchunk : Chunk text chunk part) :
    ∃ m, analyzeChunk text chunk = some m ∧
      Counts hashBytes UInt32.ofNat (· = cap) m part :=
  TagMap.analyzeChunk_counts (reserves_some hchannels) widens_id rfl (Nat.zero_le 10) rfl
    (fun r hr => monthOfHundreds_encode (hrows.valid r hr).in2027)
    (fun r hr _ _ hrest => channelLength_path (hrows.valid r hr).comma_notMem hrest) hrows hpart
    hchunk

/-- No search begins outside of the data, whatever wraps around. -/
theorem chunks_eq {data : Bytes} {start : ℕ} (hstart : start ≤ data.length) (threads : ℕ) :
    chunks data start threads = some (Lines.chunksUpTo true start
      ((List.range' 1 (threads - 1)).map (fun i =>
        Lines.nextCut newline data (target data start threads i)) ++ [data.length])) := by
  have hfind : ∀ i ∈ List.range' 1 (threads - 1),
      findNewline data (target data start threads i) =
        some (Lines.nextCut newline data (target data start threads i)) := by
    intro i hi
    have hlt : i < threads := by
      rw [List.mem_range'_1] at hi
      omega
    have hmod : (data.length - start) * i % 2 ^ 64 ≤ (data.length - start) * threads :=
      (Nat.mod_le _ _).trans (Nat.mul_le_mul_left _ hlt.le)
    have hquot := Nat.div_le_of_le_mul (Nat.mul_comm _ threads ▸ hmod)
    exact if_pos (by unfold target; omega)
  rw [chunks, show (List.range' 1 (threads - 1)).mapM _ = some _ from
    Fallible.mapM_eq_pure (m := Option) hfind]
  rfl

/-- A product that fits gives even parts. -/
theorem chunks_even {data : Bytes} {start threads : ℕ} (hstart : start ≤ data.length)
    (hproduct : data.length * threads < 2 ^ 64) : chunks data start threads =
      some (Lines.chunksUpTo true start (Lines.evenStops newline data start threads)) := by
  rw [chunks_eq hstart, Lines.evenStops]
  congr 3
  apply List.map_congr_left
  intro i hi
  rw [List.mem_range'_1] at hi
  have hle : (data.length - start) * i ≤ data.length * threads :=
    Nat.mul_le_mul (Nat.sub_le _ _) (by omega)
  rw [target, Nat.mod_eq_of_lt (by omega)]

/-- What a worker reads: the rows of its chunk, and nothing when the chunk ends before it begins. -/
def Reads (text : Bytes) (chunk : ℕ × ℕ) (part : List Row) : Prop :=
  Chunk text chunk part ∨ chunk.2 ≤ chunk.1 ∧ part = []

theorem analyzeChunk_reads (hrows : Countable rows)
    (hchannels : (rows.map Row.path).dedup.length < cap) {text : Bytes} {chunk : ℕ × ℕ}
    {part : List Row} (hpart : part.Sublist rows) (hreads : Reads text chunk part) :
    ∃ m, analyzeChunk text chunk = some m ∧
      Counts hashBytes UInt32.ofNat (· = cap) m part := by
  rcases hreads with hchunk | ⟨hle, rfl⟩
  · exact analyzeChunk_counts hrows hchannels hpart hchunk
  · have hdone : (text.drop chunk.1).length ≤ text.length - chunk.2 := by
      rw [List.length_drop]
      omega
    refine ⟨_, ?_, empty_counts rfl rfl⟩
    exact if_pos hdone

/-- The output has the lines of all groups of what the workers read together. -/
theorem run_of_parts (mean : ℤ → ℤ → Bytes) {all : List Row} (hall : Countable all)
    (hchannels : (all.map Row.path).dedup.length < cap) {threads : ℕ} (hthreads : 1 ≤ threads)
    {workers : List (ℕ × ℕ)} {parts : List (List Row)}
    (hchunks : chunks (csv rows) (header.length + 1) threads = some workers)
    (hreads : List.Forall₂ (Reads (csv rows)) workers parts) (hne : parts ≠ [])
    (hparts : parts.flatten = all) :
    ∃ lines, run mean (csv rows) threads = some lines ∧
      IsReport (Stats.line mean UInt32.toNat UInt32.ofNat) all lines := by
  obtain ⟨results, hresults, hcounts⟩ := mapM_parts hreads fun chunk part hpart hread =>
    analyzeChunk_reads hall hchannels (hparts ▸ List.sublist_flatten_of_mem hpart) hread
  obtain ⟨m, hmerge, htotal⟩ := mergeAll_parts merge
    (fun m done other part hstart h h' => mergeFrom_counts (reserves_some hchannels) widens_id hall
      hstart.sublist h h') hcounts hne hparts
  obtain ⟨lines, hwrite, hreport⟩ := isReport_writeResult mean UInt32.toNat hall htotal
  have hheader : (header ++ [newline]).isPrefixOf (csv rows) = true := by
    rw [List.isPrefixOf_iff_prefix]
    exact List.prefix_append _ _
  have hstart : ¬ (threads = 0 ∨ (header ++ [newline]).isPrefixOf (csv rows) = false) := by
    rw [hheader]
    rintro (hzero | hfalse)
    · omega
    · cases hfalse
  refine ⟨lines, ?_, hreport⟩
  rw [run, if_neg hstart]
  simp only [hchunks, hresults, hmerge, bind, Option.bind]
  exact hwrite

theorem le_length_csv (rows : List Row) : header.length + 1 ≤ (csv rows).length := by
  rw [csv, List.length_append, List.length_append, List.length_singleton]
  exact Nat.le_add_right _ _

/-- The output has the lines of all groups. -/
theorem run_csv (mean : ℤ → ℤ → Bytes) (hrows : Countable rows)
    (hchannels : (rows.map Row.path).dedup.length < cap) {threads : ℕ} (hthreads : 1 ≤ threads)
    (hproduct : (csv rows).length * threads < 2 ^ 64) :
    ∃ lines, run mean (csv rows) threads = some lines ∧
      IsReport (Stats.line mean UInt32.toNat UInt32.ofNat) rows lines := by
  obtain ⟨parts, hparts, hchunks⟩ := chunksUpTo_parts true hrows.valid threads
  have hne : parts ≠ [] := by
    apply List.ne_nil_of_length_pos
    rw [← hchunks.length_eq, Lines.length_chunksUpTo_true, Lines.evenStops, List.length_append,
      List.length_singleton]
    omega
  exact run_of_parts mean hrows hchannels hthreads (chunks_even (le_length_csv rows) hproduct)
    (hchunks.imp fun _ _ hchunk => .inl hchunk) hne hparts

/-- The baseline on the files of the contest. -/
theorem baseline_csv (mean : ℤ → ℤ → Bytes) (h : IsContract rows) :
    ∃ lines, BaselineRust.output mean (csv rows) = some lines ∧
      IsReport (reportLine mean) rows lines := by
  obtain ⟨lines, hlines, hreport⟩ := BaselineRust.output_csv mean (valid_of_isContract h)
    (fun r hr b hb => ((h.path r hr).byte b hb).1) (fits_of_isContract h)
  exact ⟨lines, hlines, isReport_of_isContract h hreport⟩

/-- Where no product wraps around, the records are those of the baseline. -/
theorem run_perm (mean : ℤ → ℤ → Bytes) (h : IsContract rows)
    (hshort : ∀ r ∈ rows, r.messageLength ≤ 65535) {threads : ℕ} (hthreads : 1 ≤ threads)
    (hproduct : (csv rows).length * threads < 2 ^ 64) :
    ∃ lines lines', run mean (csv rows) threads = some lines ∧
      BaselineRust.output mean (csv rows) = some lines' ∧ lines.Perm lines' := by
  have hchannels : (rows.map Row.path).dedup.length < cap :=
    Nat.lt_of_le_of_lt h.channels (by decide)
  obtain ⟨lines, hrun, hreport⟩ := run_csv mean (countable_of_isContract h) hchannels hthreads
    hproduct
  obtain ⟨lines', hbaseline, hreport'⟩ := baseline_csv mean h
  exact ⟨lines, lines', hrun, hbaseline, (hreport.congr fun path month _ =>
    line_eq_reportLine mean h hshort path month).perm hreport'⟩

/-- Two posts of a channel in a month. -/
def sample : List Row := [⟨1798761600, [97], 5, 2⟩, ⟨1798761700, [97], 7, 0⟩]

theorem isContract_sample : IsContract sample := by
  apply isContract_of_short (by decide) (by decide) (by decide)
  intro r hr
  have hpath : IsChannelPath [97] := ⟨[[97]], by decide, by decide, by decide, by decide +kernel⟩
  simp only [sample, List.mem_cons, List.not_mem_nil, or_false] at hr
  rcases hr with rfl | rfl
  · exact ⟨by decide, hpath, by decide⟩
  · exact ⟨by decide, hpath, by decide⟩

theorem run_perm_sample : ∃ lines lines', run wholeMean (csv sample) 3 = some lines ∧
    BaselineRust.output wholeMean (csv sample) = some lines' ∧ lines.Perm lines' :=
  run_perm wholeMean isContract_sample (by decide) (by decide) (by decide +kernel)

end Correctness

section Wrapping
variable {r : Row} {n : ℕ}

/-- How many rows are read by workers whose chunks end after so many rows. -/
def rowsRead : ℕ → List ℕ → ℕ
  | _, [] => 0
  | k, k' :: ks => (k' - k) + rowsRead k' ks

theorem rowsRead_append (k : ℕ) (ks ks' : List ℕ) :
    rowsRead k (ks ++ ks') = rowsRead k ks + rowsRead (ks.getLastD k) ks' := by
  induction ks generalizing k with
  | nil => exact (Nat.zero_add _).symm
  | cons i ks ih =>
    rw [List.cons_append, rowsRead, rowsRead, ih, Nat.add_assoc, List.getLastD_cons]

section Ends
variable {f : ℕ → ℕ}

/-- Ends that increase lead to the last one. -/
theorem rowsRead_map_range' (hf : Monotone f) (k i c : ℕ) :
    rowsRead k ((List.range' i (c + 1)).map f) = (f i - k) + (f (i + c) - f i) := by
  induction c generalizing k i with
  | zero => simp [rowsRead]
  | succ c ih =>
    have hle := hf (Nat.le_add_right i 1)
    have hle' := hf (show i + 1 ≤ i + (c + 1) by omega)
    rw [List.range'_succ, List.map_cons, rowsRead, ih, show i + 1 + c = i + (c + 1) by omega]
    omega

theorem getLastD_map_range' (k i c : ℕ) :
    ((List.range' i (c + 1)).map f).getLastD k = f (i + c) := by
  rw [List.range'_concat, List.map_append, Nat.one_mul]
  exact List.getLastD_concat ..

/-- Workers that go through the ends twice. -/
theorem rowsRead_twice (hf : Monotone f) (c stop : ℕ) :
    rowsRead 0 ((List.range' 1 (c + 1)).map f ++ ((List.range' 0 (c + 2)).map f ++ [stop])) =
      f (c + 1) + (f (c + 1) - f 0) + (stop - f (c + 1)) := by
  have hle := hf (Nat.zero_le (c + 1))
  have hle' := hf (Nat.le_add_left 1 c)
  rw [rowsRead_append, rowsRead_append, rowsRead_map_range' hf, getLastD_map_range',
    rowsRead_map_range' hf, getLastD_map_range', rowsRead, rowsRead, Nat.add_comm 1 c, Nat.zero_add]
  omega

/-- Positions that begin again after half of the threads. -/
theorem map_range'_twice {e g : ℕ → ℕ} {c : ℕ} (hg : ∀ i < c, g i = e (f i))
    (hg' : ∀ i < c, g (c + i) = e (f i)) (hc : 0 < c) :
    (List.range' 1 (2 * c - 1)).map g =
      ((List.range' 1 (c - 1)).map f ++ (List.range' 0 c).map f).map e := by
  have hsplit : List.range' 1 (2 * c - 1) = List.range' 1 (c - 1) ++ List.range' c c := by
    rw [show 2 * c - 1 = (c - 1) + c by omega, ← List.range'_append, Nat.one_mul,
      Nat.add_sub_cancel' hc]
  have hshift : List.range' c c = (List.range' 0 c).map (c + ·) := by
    rw [List.map_add_range', Nat.add_zero]
  rw [hsplit, hshift, List.map_append, List.map_append, List.map_map, List.map_map, List.map_map]
  congr 1
  · apply List.map_congr_left
    intro i hi
    rw [List.mem_range'_1] at hi
    exact hg i (by omega)
  · apply List.map_congr_left
    intro i hi
    rw [List.mem_range'_1] at hi
    exact hg' i (by omega)

end Ends

/-- Where the first rows of a file of equal rows end. -/
def rowsEnd (r : Row) (n k : ℕ) : ℕ :=
  Lines.offset (header ++ [newline]) ((List.replicate n r).map Row.line) k

theorem rowsEnd_eq {k : ℕ} (hk : k ≤ n) : rowsEnd r n k = 55 + k * r.line.length := by
  have hheader : (header ++ [newline]).length = 55 := by decide
  rw [rowsEnd, Lines.offset, hheader, List.map_replicate, List.take_replicate, Nat.min_eq_left hk,
    List.length_flatten, List.map_replicate, List.sum_replicate]
  rfl

/-- What the workers read of a file of equal rows. -/
theorem exists_reads {k : ℕ} (ks : List ℕ) (hk : k ≤ n) (hks : ∀ k' ∈ ks, k' ≤ n) :
    ∃ parts, List.Forall₂ (Reads (csv (List.replicate n r)))
      (Lines.chunksUpTo true (rowsEnd r n k) (ks.map (rowsEnd r n))) parts ∧
        parts.flatten = List.replicate (rowsRead k ks) r := by
  rw [Lines.chunksUpTo_true]
  induction ks generalizing k with
  | nil => exact ⟨[], .nil, rfl⟩
  | cons k' ks ih =>
    obtain ⟨hk', htail⟩ := List.forall_mem_cons.mp hks
    obtain ⟨parts, hparts, hflatten⟩ := ih hk' htail
    refine ⟨List.replicate (k' - k) r :: parts, .cons ?_ hparts, ?_⟩
    · by_cases hle : k ≤ k'
      · have hsegment : Lines.Segment (csv (List.replicate n r)) (rowsEnd r n k, rowsEnd r n k')
            ((((List.replicate n r).map Row.line).drop k).take (k' - k)) := Lines.segment_of_le hle
        rw [List.map_replicate, List.drop_replicate, List.take_replicate,
          Nat.min_eq_left (by omega), ← List.map_replicate] at hsegment
        exact .inl hsegment
      · refine .inr ⟨?_, by rw [Nat.sub_eq_zero_of_le (by omega)]; rfl⟩
        rw [rowsEnd_eq hk, rowsEnd_eq hk']
        exact Nat.add_le_add_left (Nat.mul_le_mul_right _ (by omega)) 55
    · rw [List.flatten_cons, hflatten, ← List.replicate_add]
      rfl

/-- A post in a line of 32 bytes. -/
def wideRow : Row := ⟨1798761600, List.replicate 16 97, 1, 0⟩

theorem isContract_replicate {n : ℕ} (hne : n ≠ 0) (hn : n < 2 ^ 32) :
    IsContract (List.replicate n wideRow) := by
  have hpath : IsChannelPath wideRow.path :=
    ⟨[List.replicate 16 97], by decide, by decide, by decide, by decide +kernel⟩
  apply isContract_of_totals
  · rw [List.map_replicate, List.replicate_dedup hne]
    decide
  · rw [List.length_replicate]
    exact hn
  · rw [lengths, List.map_replicate, List.sum_replicate]
    show n * 1 < 2 ^ 32
    rwa [Nat.mul_one]
  · rw [stamps, List.map_replicate, List.sum_replicate]
    show n * 0 < 2 ^ 32
    rw [Nat.mul_zero]
    decide
  · intro r hr
    obtain rfl := List.eq_of_mem_replicate hr
    exact ⟨by decide, hpath, by decide⟩

theorem short_replicate (n : ℕ) : ∀ r ∈ List.replicate n wideRow, r.messageLength ≤ 65535 := by
  intro r hr
  obtain rfl := List.eq_of_mem_replicate hr
  decide

theorem group_replicate (n : ℕ) :
    group (List.replicate n wideRow) wideRow.path wideRow.month = List.replicate n wideRow := by
  apply List.filter_eq_self.mpr
  intro r hr
  rw [List.eq_of_mem_replicate hr]
  decide

theorem slash_notMem_wholeMean (total count : ℤ) : slash ∉ wholeMean total count := by
  have hdigits (n : ℕ) : slash ∉ Decimal.encode n := Decimal.notMem_encode (by decide)
  unfold wholeMean Decimal.encodeInt
  split
  · simp [slash]
    exact hdigits _
  · simp [slash]
    exact hdigits _

/-- The number of rows can be read from a line of the report. -/
theorem length_of_reportLine {path : Bytes} {month : Fin 12} {g g' : List Row}
    (h : reportLine wholeMean path month g = reportLine wholeMean path month g') :
    g.length = g'.length := by
  have hslash (n : ℕ) : slash ∉ Decimal.encode n := Decimal.notMem_encode (by decide)
  simp only [reportLine, recordLine, List.append_cancel_left_eq, List.cons.injEq, true_and] at h
  obtain ⟨-, hmean⟩ := append_cons_inj (hslash _) (hslash _) h
  obtain ⟨-, hgreatest⟩ :=
    append_cons_inj (slash_notMem_wholeMean _ _) (slash_notMem_wholeMean _ _) hmean
  obtain ⟨-, hmessages⟩ := append_cons_inj (hslash _) (hslash _) hgreatest
  exact Decimal.encode_injective (append_cons_inj (hslash _) (hslash _) hmessages).1

/-- With 2³¹ posts and 2²⁹ threads, the product begins again after half of the threads. -/
theorem chunks_replicate : chunks (csv (List.replicate (2 ^ 31) wideRow)) (header.length + 1)
    (2 ^ 29) = some (Lines.chunksUpTo true (rowsEnd wideRow (2 ^ 31) 0)
      (((List.range' 1 (2 ^ 28 - 1)).map (fun i => 4 * i + 1) ++
        ((List.range' 0 (2 ^ 28)).map (fun i => 4 * i + 1) ++ [2 ^ 31])).map
          (rowsEnd wideRow (2 ^ 31)))) := by
  generalize hn : (2 ^ 31 : ℕ) = n
  have hterminated : ∀ l ∈ (List.replicate n wideRow).map Row.line, Lines.Terminated newline l := by
    intro l hl
    obtain ⟨r, hr, rfl⟩ := List.mem_map.mp hl
    rw [List.eq_of_mem_replicate hr]
    exact (valid_of_isContract (isContract_replicate (n := 1) (by decide) (by decide)) wideRow
      List.mem_cons_self).terminated
  have hline : wideRow.line.length = 32 := by decide
  have hstart : header.length + 1 = 55 := by decide
  have hlength : (csv (List.replicate n wideRow)).length = 55 + n * 32 := by
    rw [length_csv_replicate, hline]
  -- a search begins at the start of a row
  have hend (i j : ℕ) (hj : j < 2 ^ 28) (hmod : 2 ^ 36 * i % 2 ^ 64 = 2 ^ 36 * j) :
      Lines.nextCut newline (csv (List.replicate n wideRow))
        (target (csv (List.replicate n wideRow)) (header.length + 1) (2 ^ 29) i) =
          rowsEnd wideRow n (4 * j + 1) := by
    have hk : 4 * j < ((List.replicate n wideRow).map Row.line).length := by
      rw [List.length_map, List.length_replicate]
      omega
    have hm : 0 < (((List.replicate n wideRow).map Row.line)[4 * j]).length := by
      rw [List.getElem_map, List.getElem_replicate, hline]
      decide
    have htarget : target (csv (List.replicate n wideRow)) (header.length + 1) (2 ^ 29) i =
        rowsEnd wideRow n (4 * j) + 0 := by
      rw [rowsEnd_eq (by omega), hline, target, hlength, hstart, Nat.add_sub_cancel_left,
        show n * 32 = 2 ^ 36 by omega, hmod]
      omega
    rw [htarget]
    exact Lines.nextCut_offset hterminated hk hm
  rw [chunks_eq (le_length_csv _)]
  have hstops := map_range'_twice (f := fun i => 4 * i + 1) (e := rowsEnd wideRow n)
    (fun i hi => hend i i hi (Nat.mod_eq_of_lt (by omega)))
    (fun i hi => hend (2 ^ 28 + i) i hi (by omega)) (by decide : 0 < 2 ^ 28)
  rw [show 2 ^ 29 - 1 = 2 * 2 ^ 28 - 1 by decide, hstops]
  have hfirst : header.length + 1 = rowsEnd wideRow n 0 := by
    rw [rowsEnd_eq (Nat.zero_le n), hstart, Nat.zero_mul]
  have hlast : (csv (List.replicate n wideRow)).length = rowsEnd wideRow n n := by
    rw [rowsEnd_eq le_rfl, hlength, hline]
  have hmap (ks : List ℕ) : ks.map (rowsEnd wideRow n) ++ [rowsEnd wideRow n n] =
      (ks ++ [n]).map (rowsEnd wideRow n) := by
    rw [List.map_append, List.map_singleton]
  rw [hlast, hfirst, hmap, List.append_assoc]

/-- Where the product wraps around, rows are counted twice. -/
theorem not_run_perm : ¬∀ (mean : ℤ → ℤ → Bytes) (rows : List Row) (threads : ℕ), IsContract rows →
    (∀ r ∈ rows, r.messageLength ≤ 65535) → 1 ≤ threads →
      ∃ lines lines', run mean (csv rows) threads = some lines ∧
        BaselineRust.output mean (csv rows) = some lines' ∧ lines.Perm lines' := by
  intro h
  have hmono : Monotone fun i => 4 * i + 1 := fun i j hij => by
    dsimp only
    omega
  obtain ⟨parts, hreads, hflatten⟩ := exists_reads (r := wideRow) (n := 2 ^ 31)
    ((List.range' 1 (2 ^ 28 - 1)).map (fun i => 4 * i + 1) ++
      ((List.range' 0 (2 ^ 28)).map (fun i => 4 * i + 1) ++ [2 ^ 31])) (Nat.zero_le _) (by
    intro k hk
    simp only [List.mem_append, List.mem_map, List.mem_range'_1, List.mem_singleton] at hk
    rcases hk with ⟨i, hi, rfl⟩ | ⟨i, hi, rfl⟩ | rfl
    · omega
    · omega
    · exact le_rfl)
  have htwice := rowsRead_twice hmono (2 ^ 28 - 2) (2 ^ 31)
  rw [show 2 ^ 28 - 2 + 1 = 2 ^ 28 - 1 by decide, show 2 ^ 28 - 2 + 2 = 2 ^ 28 by decide] at htwice
  rw [htwice] at hflatten
  generalize hm : 4 * (2 ^ 28 - 1) + 1 + (4 * (2 ^ 28 - 1) + 1 - (4 * 0 + 1)) +
    (2 ^ 31 - (4 * (2 ^ 28 - 1) + 1)) = m at hflatten
  have hall : IsContract (List.replicate m wideRow) := isContract_replicate (by omega) (by omega)
  have hrows : IsContract (List.replicate (2 ^ 31) wideRow) :=
    isContract_replicate (by decide) (by decide)
  have hne : parts ≠ [] := by
    rintro rfl
    rw [List.flatten_nil, eq_comm, List.replicate_eq_nil_iff] at hflatten
    omega
  obtain ⟨lines, hrun, hreport⟩ := run_of_parts wholeMean (countable_of_isContract hall)
    (Nat.lt_of_le_of_lt hall.channels (by decide)) (by decide) chunks_replicate hreads hne hflatten
  obtain ⟨_, lines', hrun', hbaseline, hperm⟩ :=
    h wholeMean _ (2 ^ 29) hrows (short_replicate _) (by decide)
  obtain rfl := Option.some.inj (hrun.symm.trans hrun')
  obtain ⟨_, hbaseline', hreport'⟩ := baseline_csv wholeMean hrows
  obtain rfl := Option.some.inj (hbaseline.symm.trans hbaseline')
  have hreport := hreport.congr fun path month _ =>
    line_eq_reportLine wholeMean hall (short_replicate m) path month
  have hnonempty : group (List.replicate m wideRow) wideRow.path wideRow.month ≠ [] := by
    rw [group_replicate, Ne, List.replicate_eq_nil_iff]
    omega
  obtain ⟨path, month, hgroup, heq⟩ := (hreport'.mem _).mp
    (hperm.mem_iff.mp ((hreport.mem _).mpr ⟨wideRow.path, wideRow.month, hnonempty, rfl⟩))
  obtain ⟨r, hr⟩ := List.exists_mem_of_ne_nil _ hgroup
  obtain ⟨hmem, rfl, rfl⟩ := mem_group.mp hr
  obtain rfl := List.eq_of_mem_replicate hmem
  have hlengths := length_of_reportLine heq
  rw [group_replicate, group_replicate, List.length_replicate, List.length_replicate] at hlengths
  omega

end Wrapping
end OneBrc.Analyzer.OptimizedRust
