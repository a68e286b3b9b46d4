import OneBrc.Analyzer.ArenaMap
import OneBrc.Analyzer.BaselineCsharp
import OneBrc.Analyzer.Chunks
import OneBrc.Analyzer.Expected
import OneBrc.Analyzer.OptimizedRust

/-! The optimized analyzer in C#: positions of 64 bits divide the file, and the tables of the
threads have their keys in arenas. -/
namespace OneBrc.Analyzer.OptimizedCsharp
open Lib
open ArenaMap (capacity keyCapacity pathBound)
open Chunks (position)

section Reading

/-- `(uint)(b - '0')` -/
def digit (b : UInt8) : UInt32 := b.toUInt32 - 48

/-- All ten digits of a timestamp. -/
def timestamp (rest : Bytes) : Option UInt32 := do
  let first8 ← timestampHundreds rest
  let tens : UInt8 ← rest[8]?
  let ones : UInt8 ← rest[9]?
  some (first8 * 100 + digit tens * 10 + digit ones)

def monthOf (rest : Bytes) : Option (Fin 12) := do
  Expected.monthIndexFromUnixTimestamp (← timestamp rest)

/-- The first comma of the chunk, by blocks of 32 bytes with AVX2. -/
def channelLength (avx2 : Bool) (after : ℕ) (rest : Bytes) : ℕ :=
  let text := rest.take (rest.length - after)
  if avx2 then BlockSearch.search 32 comma text text.length 0
  else BlockSearch.scalarTail comma text 0

/-- The digits up to a character, after which it goes on. -/
def digitsUntil (stop : UInt8) (n : UInt32) : Bytes → Option (UInt32 × Bytes)
  | [] => none
  | b :: rest => if b = stop then some (n, rest) else digitsUntil stop (n * 10 + digit b) rest

/-- A first character, and the digits up to another one. -/
def readNumber (stop : UInt8) : Bytes → Option (UInt32 × Bytes)
  | [] => none
  | b :: rest => digitsUntil stop (digit b) rest

/-- A row from its timestamp to its LF. -/
def readRow (avx2 : Bool) (after : ℕ) (rest : Bytes) : Option (ParsedRow × Bytes) := do
  let month ← monthOf rest
  let rest := rest.drop 11
  let length := channelLength avx2 after rest
  let (messageLength, tail) ← readNumber comma (rest.drop (length + 1))
  let (stampCount, tail) ← readNumber newline tail
  some (⟨rest.take length, month, messageLength, stampCount⟩, tail)

theorem digit_eq {b : UInt8} (h : Decimal.isDigit b = true) : digit b = (b - 48).toUInt32 := by
  have hb := Decimal.isDigit_iff.mp h
  have hle : (48 : UInt8) ≤ b := by
    rw [UInt8.le_iff_toNat_le]
    exact hb.1
  have hle' : (48 : UInt32) ≤ b.toUInt32 := by
    rw [UInt32.le_iff_toNat_le, UInt8.toNat_toUInt32]
    exact hb.1
  apply UInt32.toNat_inj.mp
  rw [digit, UInt32.toNat_sub_of_le _ _ hle', UInt8.toNat_toUInt32, UInt8.toNat_toUInt32,
    UInt8.toNat_sub_of_le _ _ hle]
  rfl

theorem timestamp_encode {t : ℕ} (h : In2027 t) (tail : Bytes) :
    timestamp (Decimal.encode t ++ tail) = some (UInt32.ofNat t) := by
  have hlength := length_encode_of_in2027 h
  have hget {i : ℕ} (hi : i < 10) : ∃ b, (Decimal.encode t ++ tail)[i]? = some b ∧
      Decimal.isDigit b = true := by
    have hlt : i < (Decimal.encode t).length := by omega
    refine ⟨(Decimal.encode t)[i], ?_, Decimal.isDigit_of_mem_encode (List.getElem_mem hlt)⟩
    rw [List.getElem?_append_left hlt, List.getElem?_eq_getElem hlt]
  obtain ⟨tens, htens, htens'⟩ := hget (show 8 < 10 by decide)
  obtain ⟨ones, hones, hones'⟩ := hget (show 9 < 10 by decide)
  have hexpected := Expected.unixTimestamp_encode h tail
  rw [← hexpected]
  simp only [timestamp, Expected.unixTimestamp, timestampHundreds_encode h, htens, hones,
    digit_eq htens', digit_eq hones', bind, Option.bind]

theorem monthOf_encode {t : ℕ} (h : In2027 t) (tail : Bytes) :
    monthOf (Decimal.encode t ++ tail) = some (utcMonth t) := by
  rw [← Expected.monthOf_encode h tail, monthOf, Expected.monthOf, timestamp_encode h,
    Expected.unixTimestamp_encode h]

theorem channelLength_path {path rest : Bytes} (avx2 : Bool) {after : ℕ} (hcomma : comma ∉ path)
    (hafter : after ≤ rest.length) :
    channelLength avx2 after (path ++ comma :: rest) = path.length := by
  simp only [channelLength, take_path_append hafter]
  cases avx2 with
  | true => exact BlockSearch.search_append hcomma _
  | false =>
    show BlockSearch.search 32 comma _ 0 0 = _
    exact BlockSearch.search_append hcomma _

theorem digitsUntil_eq {stop : UInt8} (hstop : Decimal.isDigit stop = false) {bs : Bytes}
    (h : ∀ b ∈ bs, Decimal.isDigit b = true) (n : UInt32) (tail : Bytes) :
    digitsUntil stop n (bs ++ stop :: tail) = Analyzer.digitsUntil stop n (bs ++ stop :: tail) := by
  induction bs generalizing n with
  | nil => simp [digitsUntil, Analyzer.digitsUntil]
  | cons b bs ih =>
    obtain ⟨hb, hbs⟩ := List.forall_mem_cons.mp h
    have hne : b ≠ stop := by
      rintro rfl
      rw [hb] at hstop
      cases hstop
    rw [List.cons_append, digitsUntil, Analyzer.digitsUntil, if_neg hne, if_neg hne, digit_eq hb,
      ih hbs]

/-- A canonical decimal is read in the arithmetic of 32 bits. -/
theorem readNumber_encode {stop : UInt8} (hstop : Decimal.isDigit stop = false) (n : ℕ)
    (tail : Bytes) :
    readNumber stop (Decimal.encode n ++ stop :: tail) = some (UInt32.ofNat n, tail) := by
  rw [← Analyzer.readNumber_encode hstop n tail]
  have hdigits : ∀ b ∈ Decimal.encode n, Decimal.isDigit b = true :=
    fun b hb => Decimal.isDigit_of_mem_encode hb
  cases hcs : Decimal.encode n with
  | nil => exact absurd hcs (Decimal.encode_ne_nil n)
  | cons b bs =>
    rw [hcs] at hdigits
    obtain ⟨hb, hbs⟩ := List.forall_mem_cons.mp hdigits
    rw [List.cons_append, readNumber, Analyzer.readNumber, digitsUntil_eq hstop hbs, digit_eq hb]

/-- The row read from the head of a text. -/
theorem readRow_line {r : Row} (h : r.Valid) (avx2 : Bool) {after : ℕ} {tail : Bytes}
    (hafter : after ≤ tail.length) : readRow avx2 after (r.line ++ tail) =
      some (⟨r.path, r.month, UInt32.ofNat r.messageLength, UInt32.ofNat r.stampCount⟩, tail) := by
  have hlength := length_encode_of_in2027 h.in2027
  have htext : r.line ++ tail = Decimal.encode r.timestamp ++ comma :: (r.path ++ comma ::
      (Decimal.encode r.messageLength ++ comma :: (Decimal.encode r.stampCount ++
        newline :: tail))) := by
    simp [Row.line]
  have hdrop (rest : Bytes) : (Decimal.encode r.timestamp ++ comma :: rest).drop 11 = rest := by
    rw [List.drop_append, hlength, List.drop_eq_nil_of_le (by omega)]
    rfl
  have hfields (rest : Bytes) : (r.path ++ comma :: rest).drop (r.path.length + 1) = rest := by
    rw [List.drop_append, List.drop_eq_nil_of_le (by omega), Nat.add_sub_cancel_left]
    rfl
  have htail : after ≤ (Decimal.encode r.messageLength ++ comma ::
      (Decimal.encode r.stampCount ++ newline :: tail)).length := by
    simp only [List.length_append, List.length_cons]
    omega
  have hmonth (rest : Bytes) : monthOf (Decimal.encode r.timestamp ++ rest) = some r.month :=
    monthOf_encode h.in2027 rest
  rw [htext]
  simp only [readRow, hmonth, hdrop, channelLength_path avx2 h.comma_notMem htail, hfields, bind,
    Option.bind, readNumber_encode (show Decimal.isDigit comma = false by decide),
    readNumber_encode (show Decimal.isDigit newline = false by decide), List.take_left]

end Reading

/-- The hash where SSE4.2 is missing. -/
def fallbackHash (key : Bytes) : UInt32 :=
  key.foldl (fun fallback b => (fallback ^^^ b.toUInt32) * 16777619) 2166136261

/-- With SSE4.2 it is the hash of the analyzer in Rust. -/
def hash (sse42 : Bool) (key : Bytes) : UInt32 :=
  if sse42 then OptimizedRust.hashBytes key else fallbackHash key

def analyze (sse42 avx2 : Bool) (data : Bytes) (chunk : ℕ × ℕ) : Option ArenaMap :=
  scan 0 (readRow avx2) (ArenaMap.add (hash sse42)) (data.length - chunk.2) (data.length + 1)
    (data.drop chunk.1) .empty

/-- The position after the next LF; a search that begins before the data is a fault. -/
def findNewline (data : Bytes) (start : ℤ) : Option ℕ :=
  if start < 0 then none else some (Lines.nextCut newline data start.toNat)

/-- The chunks of the threads, which may be empty. -/
def chunks (data : Bytes) (start threads : ℕ) : Option (List (ℕ × ℕ)) := do
  let stops ← (List.range' 1 (threads - 1)).mapM fun i : ℕ =>
    findNewline data (position start data.length threads i)
  some (Lines.chunksUpTo true start (stops ++ [data.length]))

/-- The lines of the output; none after an error or a fault. -/
def run (sse42 avx2 : Bool) (mean : ℤ → ℤ → Bytes) (data : Bytes) (threads : ℕ) :
    Option (List Bytes) := do
  if threads < 1 ∨ (header ++ [newline]).isPrefixOf data = false then none
  else
    let maps ← (← chunks data (header.length + 1) threads).mapM (analyze sse42 avx2 data)
    (← mergeAll (ArenaMap.merge (hash sse42)) maps).writeResult mean

/-- The table tallies the rows, and its keys are in the arena. -/
def Counts (sse42 : Bool) (m : ArenaMap) (rows : List Row) : Prop :=
  m.Inside ∧ TagMap.Counts (hash sse42) UInt32.ofNat (· = capacity) m.view rows

section Correctness
variable {rows : List Row} {sse42 : Bool}

/-- A product that fits gives even parts. -/
theorem chunks_eq {data : Bytes} {start threads : ℕ} (hstart : start ≤ data.length)
    (hproduct : data.length * threads < 2 ^ 63) : chunks data start threads =
      some (Lines.chunksUpTo true start (Lines.evenStops newline data start threads)) := by
  have hposition : ∀ i ∈ List.range' 1 (threads - 1),
      findNewline data (position start data.length threads i) =
        some (Lines.nextCut newline data (start + (data.length - start) * i / threads)) := by
    intro i hi
    have hi' : i ≤ threads := by
      rw [List.mem_range'_1] at hi
      omega
    have hle : (data.length - start) * i ≤ data.length * threads :=
      Nat.mul_le_mul (Nat.sub_le _ _) hi'
    have hcast : ((data.length : ℤ) - start) * i = ((data.length - start) * i : ℕ) := by
      rw [Nat.cast_mul, Nat.cast_sub hstart]
    have hnat : position start data.length threads i =
        (start + (data.length - start) * i / threads : ℕ) := by
      rw [position, hcast, Int.bmod_eq_of_le (by omega) (by omega),
        Int.tdiv_eq_ediv_of_nonneg (Int.natCast_nonneg _)]
      norm_cast
    rw [hnat, findNewline, if_neg (Int.not_lt.mpr (Int.natCast_nonneg _)), Int.toNat_natCast]
  have hstops := Fallible.mapM_eq_pure hposition
  rw [chunks, hstops]
  rfl

theorem reserves {n : ℕ} (hn : n < capacity) :
    FlatMap.Reserves (TagMap.kind UInt32 (hash sse42)) (· = capacity) n some :=
  OptimizedRust.reserves_some hn

theorem channels_lt (h : IsContract rows) : (rows.map Row.path).dedup.length < capacity :=
  Nat.lt_of_le_of_lt h.channels (by decide)

/-- The arena has room for one more key. -/
theorem room (h : IsContract rows) {t : TagMap.Table UInt32} {done : List Row}
    (ht : TagMap.Counts (hash sse42) UInt32.ofNat (· = capacity) t done)
    (hdone : done.Sublist rows) : pathBound * (t.size + 1) ≤ keyCapacity := by
  obtain ⟨⟨keys, hkeys, hmem⟩, -⟩ := ht
  have hsub : keys ⊆ (rows.map Row.path).dedup := by
    intro key hkey
    obtain ⟨r, hr, rfl⟩ := (hmem key).mp hkey
    exact TagMap.mem_channels (hdone.subset hr)
  have hle : t.size ≤ 10000 := by
    rw [hkeys.size]
    exact (List.subperm_of_subset hkeys.nodup hsub).length_le.trans h.channels
  have hcapacity : pathBound * (10000 + 1) ≤ keyCapacity := by decide
  exact Nat.le_trans (Nat.mul_le_mul_left _ (Nat.succ_le_succ hle)) hcapacity

theorem empty_counts : Counts sse42 .empty [] := by
  refine ⟨?_, ?_⟩
  · exact {
      entries := by
        intro e he
        rw [List.eq_of_mem_replicate he]
        exact Nat.le_refl _
      paths := by
        intro e he
        rw [List.eq_of_mem_replicate he]
        exact Nat.zero_le _
      storage := Nat.le_refl _
      aggs := List.length_replicate
      fresh := by
        intro i _
        rw [List.getD_eq_getElem?_getD, ArenaMap.empty, List.getElem?_replicate]
        split
        · rfl
        · rfl }
  · have hview : ArenaMap.empty.view =
        FlatMap.empty (TagMap.kind UInt32 (hash sse42)) (2 ^ 15) := by
      have hentries : ArenaMap.empty.view.entries =
          FlatMap.freeEntries (TagMap.kind UInt32 (hash sse42)) (2 ^ 15) := List.map_replicate
      exact congrArg (fun entries => (⟨entries, [], 0⟩ : TagMap.Table UInt32)) hentries
    rw [hview]
    exact TagMap.empty_counts rfl rfl

/-- A row counted by a worker. -/
theorem add_counts (h : IsContract rows) (hshort : ∀ r ∈ rows, r.messageLength ≤ 65535)
    {done : List Row} {r : Row} (hdone : (done ++ [r]).Sublist rows) {m : ArenaMap}
    (hm : Counts sse42 m done) :
    ∃ m', m.add (hash sse42) ⟨r.path, r.month, UInt32.ofNat r.messageLength,
      UInt32.ofNat r.stampCount⟩ = some m' ∧ Counts sse42 m' (done ++ [r]) := by
  have hr : r ∈ rows := hdone.subset List.mem_concat_self
  have hroom := room h hm.2 ((List.sublist_append_left _ _).trans hdone)
  have hlt : (UInt32.ofNat r.messageLength).toNat < 2 ^ 16 := by
    have hle := hshort r hr
    rw [UInt32.toNat_ofNat_of_lt' (h.number_lt hr).1]
    omega
  obtain ⟨t, hadd, ht⟩ := TagMap.add_counts (reserves (channels_lt h)) TagMap.widens_id
    (TagMap.countable_of_isContract h) hdone hm.2
  obtain ⟨m', hrun, rfl, hm'⟩ := ArenaMap.add_view hm.1 (h.path r hr).length_le hlt hroom hadd
  exact ⟨m', hrun, hm', ht⟩

theorem analyze_counts (avx2 : Bool) (h : IsContract rows)
    (hshort : ∀ r ∈ rows, r.messageLength ≤ 65535) {text : Bytes} {chunk : ℕ × ℕ}
    {part : List Row} (hpart : part.Sublist rows) (hchunk : Chunk text chunk part) :
    ∃ m, analyze sse42 avx2 text chunk = some m ∧ Counts sse42 m part := by
  have hvalid : ∀ r ∈ part, r.Valid := fun r hr => TagMap.valid_of_isContract h r (hpart.subset hr)
  apply scan_chunk (Nat.zero_le 10) (fun r => ⟨r.path, r.month, UInt32.ofNat r.messageLength,
    UInt32.ofNat r.stampCount⟩) hchunk hvalid ?_ ?_ empty_counts
  · intro r hr rest hafter
    exact readRow_line (hvalid r hr) avx2 hafter
  · intro m done r hstart hm
    exact add_counts h hshort (hstart.sublist.trans hpart) hm

theorem merge_counts (h : IsContract rows) {m other : ArenaMap} {done part : List Row}
    (hdone : (done ++ part).Sublist rows) (hm : Counts sse42 m done)
    (hother : Counts sse42 other part) :
    ∃ m', m.merge (hash sse42) other = some m' ∧ Counts sse42 m' (done ++ part) := by
  obtain ⟨t, hmerge, ht⟩ := TagMap.mergeFrom_counts (reserves (channels_lt h)) TagMap.widens_id
    (TagMap.countable_of_isContract h) hdone hm.2 hother.2
  have hother' := room h hother.2 ((List.sublist_append_right _ _).trans hdone)
  obtain ⟨m', hrun, rfl, hm'⟩ :=
    ArenaMap.merge_view hm.1 hother.1 hother' (room h ht hdone) hmerge
  exact ⟨m', hrun, hm', ht⟩

theorem not_refused (rows : List Row) {threads : ℕ} (hthreads : 1 ≤ threads) :
    ¬ (threads < 1 ∨ (header ++ [newline]).isPrefixOf (csv rows) = false) := by
  have hheader : (header ++ [newline]).isPrefixOf (csv rows) = true :=
    List.isPrefixOf_iff_prefix.mpr (List.prefix_append _ _)
  rw [hheader]
  rintro (hzero | hfalse)
  · omega
  · cases hfalse

/-- The output has the lines of all groups. -/
theorem run_csv (sse42 avx2 : Bool) (mean : ℤ → ℤ → Bytes) (h : IsContract rows)
    (hshort : ∀ r ∈ rows, r.messageLength ≤ 65535) {threads : ℕ} (hthreads : 1 ≤ threads)
    (hproduct : (csv rows).length * threads < 2 ^ 63) :
    ∃ lines, run sse42 avx2 mean (csv rows) threads = some lines ∧
      IsReport (reportLine mean) rows lines := by
  have hvalid := TagMap.valid_of_isContract h
  have hlength : header.length + 1 ≤ (csv rows).length :=
    (List.prefix_append (header ++ [newline]) _).length_le
  obtain ⟨parts, hparts, hchunks⟩ := chunksUpTo_parts true hvalid threads
  have hne : Lines.chunksUpTo true (header.length + 1)
      (Lines.evenStops newline (csv rows) (header.length + 1) threads) ≠ [] := by
    apply List.ne_nil_of_length_pos
    rw [Lines.length_chunksUpTo_true, Lines.evenStops, List.length_append, List.length_singleton]
    omega
  obtain ⟨maps, m, hmaps, hm, hcounts⟩ := mapM_mergeAll (T := Counts sse42) hchunks hne hparts
    (fun chunk part hpart hchunk => analyze_counts avx2 h hshort hpart hchunk)
    (fun m done other part hdone hm hother => merge_counts h hdone hm hother)
  obtain ⟨lines, hwrite, hreport⟩ := TagMap.isReport_writeResult mean UInt32.toNat
    (TagMap.countable_of_isContract h) hcounts.2
  have hwrite' := ArenaMap.writeResult_view hcounts.1
    (room h hcounts.2 (List.Sublist.refl _)) mean hwrite
  refine ⟨lines, ?_, hreport.congr fun path month _ =>
    TagMap.line_eq_reportLine mean h hshort path month⟩
  rw [run, if_neg (not_refused rows hthreads), chunks_eq hlength hproduct]
  simp only [hmaps, hm, bind, Option.bind]
  exact hwrite'

/-- Files of the contest whose lengths have 16 bits and whose stamp counts have 31. -/
structure IsShort (rows : List Row) : Prop where
  contract : IsContract rows
  messageLength_le : ∀ r ∈ rows, r.messageLength ≤ 65535
  stampCount_lt : ∀ r ∈ rows, r.stampCount < 2 ^ 31

/-- The records are those of the baseline. -/
def Agrees (sse42 avx2 : Bool) (mean : ℤ → ℤ → Bytes) (rows : List Row) (threads : ℕ) : Prop :=
  ∃ lines lines', run sse42 avx2 mean (csv rows) threads = some lines ∧
    BaselineCsharp.output mean (csv rows) = some lines' ∧ lines.Perm lines'

/-- The baseline on the files without a CR in a path. -/
theorem baseline_csv (mean : ℤ → ℤ → Bytes) (h : IsShort rows)
    (hcr : ∀ r ∈ rows, carriageReturn ∉ r.path) :
    ∃ lines, BaselineCsharp.output mean (csv rows) = some lines ∧
      IsReport (reportLine mean) rows lines := by
  have hfits : ∀ r ∈ rows, BaselineCsharp.Fits32 r := fun r hr =>
    { in2027 := h.contract.in2027 r hr
      messageLength_lt := Nat.lt_of_le_of_lt (h.messageLength_le r hr) (by decide)
      stampCount_lt := h.stampCount_lt r hr }
  obtain ⟨lines, hlines, hreport⟩ :=
    BaselineCsharp.output_csv mean (TagMap.valid_of_isContract h.contract) hcr hfits
  exact ⟨lines, hlines, isReport_of_isContract h.contract hreport⟩

/-- Without a CR in a path, and when the product for the positions fits, the analyzers agree. -/
theorem agrees_of_isShort (sse42 avx2 : Bool) (mean : ℤ → ℤ → Bytes) (h : IsShort rows)
    (hcr : ∀ r ∈ rows, carriageReturn ∉ r.path) {threads : ℕ} (hthreads : 1 ≤ threads)
    (hproduct : (csv rows).length * threads < 2 ^ 63) : Agrees sse42 avx2 mean rows threads := by
  obtain ⟨lines, hrun, hreport⟩ :=
    run_csv sse42 avx2 mean h.contract h.messageLength_le hthreads hproduct
  obtain ⟨lines', hbaseline, hreport'⟩ := baseline_csv mean h hcr
  exact ⟨lines, lines', hrun, hbaseline, hreport.perm hreport'⟩

theorem agrees_sample : Agrees true true wholeMean OptimizedRust.sample 3 :=
  agrees_of_isShort true true wholeMean
    ⟨OptimizedRust.isContract_sample, by decide, by decide⟩ (by decide) (by decide)
    (by decide +kernel)

/-- A post in a channel with a CR. -/
def crRow : Row := ⟨1798761600, [97, 13, 98], 5, 2⟩

theorem isShort_crRow : IsShort [crRow] where
  contract := by
    apply isContract_of_short (by decide) (by decide) (by decide)
    intro r hr
    obtain rfl := List.mem_singleton.mp hr
    exact ⟨by decide, ⟨[[97, 13, 98]], by decide, by decide, by decide, by decide +kernel⟩,
      by decide⟩
  messageLength_le := by decide
  stampCount_lt := by decide

/-- A post of 17 bytes. -/
def plainRow : Row := ⟨1798761600, [97], 1, 0⟩

theorem isShort_replicate {n : ℕ} (hne : n ≠ 0) (hn : n < 2 ^ 32) :
    IsShort (List.replicate n plainRow) where
  contract := by
    have hpath : IsChannelPath plainRow.path :=
      ⟨[[97]], by decide, by decide, by decide, by decide +kernel⟩
    apply isContract_of_totals
    · rw [List.map_replicate, List.replicate_dedup hne]
      decide
    · rw [List.length_replicate]
      exact hn
    · rw [lengths, List.map_replicate, List.sum_replicate]
      show n * 1 < 2 ^ 32
      rwa [Nat.mul_one]
    · rw [stamps, List.map_replicate, List.sum_replicate]
      show n * 0 < 2 ^ 32
      rw [Nat.mul_zero]
      decide
    · intro r hr
      obtain rfl := List.eq_of_mem_replicate hr
      exact ⟨by decide, hpath, by decide⟩
  messageLength_le r hr := by
    obtain rfl := List.eq_of_mem_replicate hr
    decide
  stampCount_lt r hr := by
    obtain rfl := List.eq_of_mem_replicate hr
    decide

theorem length_csv_replicate (n : ℕ) : (csv (List.replicate n plainRow)).length =
    header.length + 1 + n * 17 := by
  have hline : plainRow.line.length = 17 := by decide
  rw [csv, List.length_append, List.length_append, List.length_singleton, List.map_replicate,
    List.length_flatten, List.map_replicate, List.sum_replicate, hline]
  rfl

/-- With 2³⁰ posts and as many threads the search for the end of a chunk begins before the file. -/
theorem chunks_replicate : chunks (csv (List.replicate (2 ^ 30) plainRow)) (header.length + 1)
    (2 ^ 30) = none := by
  have hposition : position (header.length + 1 : ℕ)
      (csv (List.replicate (2 ^ 30) plainRow)).length (2 ^ 30 : ℕ) (2 ^ 29 : ℕ) < 0 := by
    rw [length_csv_replicate]
    decide +kernel
  have hmem : 2 ^ 29 ∈ List.range' 1 (2 ^ 30 - 1) := by
    rw [List.mem_range'_1]
    omega
  rw [chunks, Fallible.mapM_eq_none hmem (if_pos hposition)]
  rfl

/-- The analyzers differ on a channel with a CR, and where the product overflows. -/
theorem not_agrees : ¬(∀ sse42 avx2 mean rows threads, IsShort rows → 1 ≤ threads →
      (csv rows).length * threads < 2 ^ 63 → Agrees sse42 avx2 mean rows threads) ∧
    ¬∀ sse42 avx2 mean rows threads, IsShort rows → (∀ r ∈ rows, carriageReturn ∉ r.path) →
      1 ≤ threads → Agrees sse42 avx2 mean rows threads := by
  constructor
  · intro h
    obtain ⟨_, lines', -, hlines', -⟩ :=
      h true true wholeMean [crRow] 1 isShort_crRow (by decide) (by decide +kernel)
    have hnone : BaselineCsharp.output wholeMean (csv [crRow]) = none := by decide +kernel
    rw [hnone] at hlines'
    cases hlines'
  · intro h
    have hcr : ∀ r ∈ List.replicate (2 ^ 30) plainRow, carriageReturn ∉ r.path := by
      intro r hr
      rw [List.eq_of_mem_replicate hr]
      decide
    obtain ⟨lines, _, hlines, -⟩ := h true true wholeMean (List.replicate (2 ^ 30) plainRow)
      (2 ^ 30) (isShort_replicate (by norm_num) (by norm_num)) hcr (by norm_num)
    rw [run, if_neg (not_refused _ (by norm_num)), chunks_replicate] at hlines
    cases hlines

end Correctness
end OneBrc.Analyzer.OptimizedCsharp
