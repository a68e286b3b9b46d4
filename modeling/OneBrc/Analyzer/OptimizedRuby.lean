import OneBrc.Analyzer.BaselineRuby
import OneBrc.Lib.Objects

/-! The optimized analyzer in Ruby: processes that read their parts of the file line by line, and
hashes of arrays that the parent merges. -/
namespace OneBrc.Analyzer.OptimizedRuby
open Lib

/-- `MONTH_BY_DAY` -/
def monthByDay : List ℕ :=
  (List.range 365).map fun d =>
    monthStartUnix.findIdx (fun start => decide (start > yearStart + d * 86400)) - 1

/-- An element of an array; a negative index counts from its end. -/
def element (l : List ℕ) (i : ℤ) : Option ℕ :=
  if 0 ≤ i then l[i.toNat]? else if -i ≤ l.length then l[(l.length + i).toNat]? else none

/-- The arrays have twelve months. -/
def monthAt (ts : ℤ) : Option (Fin 12) := do
  let month ← element monthByDay ((ts - yearStart) / 86400)
  if h : month < 12 then some ⟨month, h⟩ else none

/-- The offsets of the rows with which the workers begin, each with the next one. -/
def splitRanges (text : Bytes) (threads : ℕ) : Option (List (ℕ × ℕ)) :=
  let size := text.length
  let start := (header ++ [newline]).length
  if (header ++ [newline]).isPrefixOf text = false then none
  else
    let cuts := (List.range' 1 (threads - 1)).map fun i =>
      Lines.nextCut newline text (start + (size - start) * i / threads)
    some ((start :: cuts).zip (cuts ++ [size]))

/-- A line of a range. -/
def analyzeLine (stats : ChannelMap ℤ) (line : Bytes) : Option (ChannelMap ℤ) := do
  if line = [] then some stats
  else
    let month ← monthAt (RubyInteger.toI line)
    let comma1 ← Lines.indexFrom comma line 11
    let comma2 ← Lines.indexFrom comma line (comma1 + 1)
    let channel := (line.drop 11).take (comma1 - 11)
    let ml := RubyInteger.toI ((line.drop (comma1 + 1)).take (comma2 - comma1 - 1))
    let stamps := RubyInteger.toI ((line.drop (comma2 + 1)).take (line.length - comma2 - 1))
    some (addRow (· + ·) stats channel month ml stamps)

/-- Lines are read as long as bytes of the range remain. -/
def readLines (remaining : ℤ) (stats : ChannelMap ℤ) : List Bytes → Option (ChannelMap ℤ)
  | [] => some stats
  | line :: lines =>
      if remaining ≤ 0 then some stats
      else do readLines (remaining - line.length) (← analyzeLine stats line) lines

def analyzeRange (text : Bytes) (range : ℕ × ℕ) : Option (ChannelMap ℤ) :=
  readLines (range.2 - range.1) [] (Lines.split newline (text.drop range.1))

/-- The merged hash holds arrays of the hashes that the workers sent. -/
def merged (payloads : List (ChannelMap ℤ)) : Option (ChannelMap ℤ) := do
  let (heap, payloads) := Objects.loadAll payloads
  let (heap, all) ← payloads.foldlM (Objects.mergeInto (joinAgg (· + ·))) (heap, [])
  Objects.contents heap all

/-- The two decimals of a number given by its bits. -/
def fixed2 (bits : ℕ) : Bytes :=
  let exponentBits := bits >>> 52 &&& 0x7FF
  let fraction := bits &&& (1 <<< 52) - 1
  let (mantissa, exponent) : ℕ × ℤ :=
    if exponentBits = 0 then (fraction, -1074) else (1 <<< 52 ||| fraction, exponentBits - 1075)
  let scaled := mantissa * 100
  let cents :=
    if exponent ≥ 0 then scaled <<< exponent.toNat
    else
      let denominator := 1 <<< (-exponent).toNat
      let (cents, remainder) := (scaled / denominator, scaled % denominator)
      let twice := remainder * 2
      if twice > denominator ∨ twice = denominator ∧ cents % 2 = 1 then cents + 1 else cents
  Decimal.encode (cents / 100) ++ 46 :: Decimal.encode (cents % 100 / 10) ++
    Decimal.encode (cents % 10)

/-- The lines of the output; none after an error. -/
def run (quotient : ℤ → ℤ → ℕ) (text : Bytes) (threads : ℕ) : Option (List Bytes) := do
  if threads < 1 then none
  else
    let ranges ← splitRanges text threads
    let payloads ← ranges.mapM (analyzeRange text)
    writeAggs Decimal.encodeInt (fun total count => fixed2 (quotient total count))
      (← merged payloads)

theorem fixed2_eq (bits : ℕ) : fixed2 bits = formatFixed2 bits := by
  have hexponent (n : ℤ) : n - 1023 - 52 = n - 1075 := by omega
  have hleast : (-1022 - 52 : ℤ) = -1074 := by decide
  simp only [fixed2, formatFixed2, hexponent, hleast]

section Lines
variable {r : Row}

theorem monthByDay_eq_utcMonth : ∀ day < 365,
    monthByDay[day]? = some (utcMonth ((20819 + day) * 86400)).val := by
  decide +kernel

theorem monthByDay_of_timestamp {timestamp : ℕ} (h : In2027 timestamp) :
    monthByDay[timestamp / 86400 - 20819]? = some (utcMonth timestamp).val := by
  obtain ⟨hlow, hhigh⟩ := day_of_in2027 h
  have hmonth := monthByDay_eq_utcMonth (timestamp / 86400 - 20819) (by omega)
  have hmul : 20819 + (timestamp / 86400 - 20819) = timestamp / 86400 := by omega
  have hsame : utcMonth (timestamp / 86400 * 86400) = utcMonth timestamp := by
    simp only [utcMonth, Nat.mul_div_cancel _ (show 0 < 86400 by decide)]
  rw [hmul, hsame] at hmonth
  exact hmonth

theorem monthAt_of_element {ts : ℤ} {month : Fin 12}
    (h : element monthByDay ((ts - yearStart) / 86400) = some month.val) :
    monthAt ts = some month := by
  rw [monthAt, h]
  exact dif_pos month.isLt

theorem monthAt_of_in2027 {timestamp : ℕ} (h : In2027 timestamp) :
    monthAt timestamp = some (utcMonth timestamp) := by
  obtain ⟨hlow, -⟩ := day_of_in2027 h
  have hday : ((timestamp : ℤ) - yearStart) / 86400 = ((timestamp / 86400 - 20819 : ℕ) : ℤ) := by
    unfold yearStart
    omega
  apply monthAt_of_element
  rw [hday, element, if_pos (Int.natCast_nonneg _), Int.toNat_natCast]
  exact monthByDay_of_timestamp h

theorem ends_comma : RubyInteger.Ends comma := ⟨by decide, by decide, by decide⟩
theorem ends_newline : RubyInteger.Ends newline := ⟨by decide, by decide, by decide⟩

/-- The line of a row is counted. -/
theorem analyzeLine_line (h : r.Valid) (stats : ChannelMap ℤ) : analyzeLine stats r.line =
    some (addRow (· + ·) stats r.path r.month (r.messageLength : ℤ) r.stampCount) := by
  have hlength := length_encode_of_in2027 h.in2027
  have hdigits (n : ℕ) : comma ∉ Decimal.encode n := Decimal.notMem_encode (by decide)
  have hts : RubyInteger.toI r.line = (r.timestamp : ℤ) :=
    RubyInteger.toI_encode_append _ (by rintro b ⟨⟩; exact ends_comma)
  have hdrop : r.line.drop 11 = r.path ++ comma :: (Decimal.encode r.messageLength ++
      comma :: (Decimal.encode r.stampCount ++ [newline])) := by
    rw [Row.line, List.drop_append, hlength, List.drop_eq_nil_of_le (by omega)]
    rfl
  have hdrop₁ : r.line.drop (11 + r.path.length + 1) = Decimal.encode r.messageLength ++
      comma :: (Decimal.encode r.stampCount ++ [newline]) := by
    rw [Nat.add_assoc, ← List.drop_drop, hdrop, List.drop_append, List.drop_eq_nil_of_le (by omega),
      Nat.add_sub_cancel_left]
    rfl
  have hdrop₂ : r.line.drop (11 + r.path.length + 1 + (Decimal.encode r.messageLength).length + 1) =
      Decimal.encode r.stampCount ++ [newline] := by
    rw [Nat.add_assoc, ← List.drop_drop, hdrop₁, List.drop_append,
      List.drop_eq_nil_of_le (by omega), Nat.add_sub_cancel_left]
    rfl
  have hcomma1 := Lines.indexFrom_of_drop hdrop h.comma_notMem
  have hcomma2 := Lines.indexFrom_of_drop hdrop₁ (hdigits r.messageLength)
  have hchannel : (r.line.drop 11).take (11 + r.path.length - 11) = r.path := by
    rw [hdrop, Nat.add_sub_cancel_left, List.take_left]
  have hml : (r.line.drop (11 + r.path.length + 1)).take
      (11 + r.path.length + 1 + (Decimal.encode r.messageLength).length -
        (11 + r.path.length) - 1) = Decimal.encode r.messageLength ++ [] := by
    rw [hdrop₁, show 11 + r.path.length + 1 + (Decimal.encode r.messageLength).length -
      (11 + r.path.length) - 1 = (Decimal.encode r.messageLength).length by omega,
      List.take_left, List.append_nil]
  have hstamps : (r.line.drop (11 + r.path.length + 1 +
      (Decimal.encode r.messageLength).length + 1)).take (r.line.length - (11 + r.path.length + 1 +
        (Decimal.encode r.messageLength).length) - 1) =
      Decimal.encode r.stampCount ++ [newline] := by
    have hlen := congrArg List.length hdrop₂
    rw [List.length_drop] at hlen
    rw [hdrop₂]
    exact List.take_of_length_le (by omega)
  have hmlValue : RubyInteger.toI (Decimal.encode r.messageLength ++ []) = r.messageLength :=
    RubyInteger.toI_encode_append _ (by rintro b ⟨⟩)
  have hstampsValue : RubyInteger.toI (Decimal.encode r.stampCount ++ [newline]) = r.stampCount :=
    RubyInteger.toI_encode_append _ (by rintro b ⟨⟩; exact ends_newline)
  rw [analyzeLine, if_neg h.line_ne_nil]
  simp only [hts, monthAt_of_in2027 h.in2027, hcomma1, hcomma2, hchannel, hml, hstamps, hmlValue,
    hstampsValue, bind, Option.bind]
  rfl

end Lines

section Ranges
variable {rows : List Row}

/-- The budget of a range is used up by its rows. -/
theorem readLines_rows {part done : List Row} {stats : ChannelMap ℤ} (h : ∀ r ∈ part, r.Valid)
    (hstats : GroupBy.Groups Row.path aggOf stats done) (rest : List Bytes) {remaining : ℤ}
    (hremaining : remaining = ((part.map Row.line).flatten.length : ℤ) ∨
      part = [] ∧ remaining ≤ 0) :
    ∃ stats', readLines remaining stats (part.map Row.line ++ rest) = some stats' ∧
      GroupBy.Groups Row.path aggOf stats' (done ++ part) := by
  induction part generalizing done stats remaining with
  | nil =>
    have hzero : remaining ≤ 0 := by
      rcases hremaining with hzero | ⟨-, hzero⟩
      · exact hzero.le
      · exact hzero
    rw [List.append_nil]
    refine ⟨stats, ?_, hstats⟩
    cases rest with
    | nil => rfl
    | cons line rest => exact if_pos hzero
  | cons r part ih =>
    obtain ⟨hr, hpart⟩ := List.forall_mem_cons.mp h
    have hpos := List.length_pos_of_ne_nil hr.line_ne_nil
    rcases hremaining with hremaining | ⟨hnil, -⟩
    · rw [List.map_cons, List.flatten_cons, List.length_append] at hremaining
      have hstep := addRow_groups BaselineRuby.adds hstats (BaselineRuby.sums _) (r := r)
      have hrest : remaining - r.line.length = ((part.map Row.line).flatten.length : ℤ) ∨
          part = [] ∧ remaining - r.line.length ≤ 0 := .inl (by omega)
      obtain ⟨stats', hrun, hgroups⟩ := ih hpart hstep hrest
      rw [List.append_cons]
      refine ⟨stats', ?_, hgroups⟩
      rw [List.map_cons, List.cons_append, readLines, if_neg (by omega), analyzeLine_line hr]
      exact hrun
    · exact absurd hnil (List.cons_ne_nil _ _)

/-- A worker counts the rows of its part. -/
theorem analyzeRange_groups {text : Bytes} {range : ℕ × ℕ} {part : List Row}
    (h : ∀ r ∈ part, r.Valid) (hchunk : Chunk text range part) :
    ∃ stats, analyzeRange text range = some stats ∧
      GroupBy.Groups Row.path aggOf stats part := by
  obtain ⟨htext, hle⟩ := hchunk
  have hlength := congrArg List.length htext
  rw [List.length_append, List.length_drop, List.length_drop] at hlength
  have hterminated : ∀ l ∈ part.map Row.line, Lines.Terminated newline l := by
    intro l hl
    obtain ⟨r, hr, rfl⟩ := List.mem_map.mp hl
    exact (h r hr).terminated
  have hremaining : ((range.2 : ℤ) - range.1) = ((part.map Row.line).flatten.length : ℤ) ∨
      part = [] ∧ ((range.2 : ℤ) - range.1) ≤ 0 := by
    by_cases hstart : range.1 ≤ text.length
    · exact .inl (by omega)
    · have hlines := length_le_flatten_lines h
      refine .inr ⟨List.length_eq_zero_iff.mp (by omega), by omega⟩
  obtain ⟨stats, hrun, hgroups⟩ := readLines_rows h GroupBy.Groups.nil
    (Lines.split newline (text.drop range.2)) hremaining
  refine ⟨stats, ?_, hgroups⟩
  rw [analyzeRange, htext, Lines.split_flatten_append hterminated]
  exact hrun

theorem splitRanges_csv (rows : List Row) (threads : ℕ) : splitRanges (csv rows) threads =
    some (Lines.chunksUpTo true (header.length + 1)
      (Lines.evenStops newline (csv rows) (header.length + 1) threads)) := by
  have hheader : (header ++ [newline]).isPrefixOf (csv rows) = true := by
    rw [List.isPrefixOf_iff_prefix]
    exact List.prefix_append _ _
  have hzip (start size : ℕ) (cuts : List ℕ) :
      (start :: cuts).zip (cuts ++ [size]) = (start :: (cuts ++ [size])).zip (cuts ++ [size]) := by
    induction cuts generalizing start with
    | nil => rfl
    | cons cut cuts ih => exact congrArg _ (ih cut)
  have hlength : (header ++ [newline]).length = header.length + 1 := List.length_append
  rw [splitRanges, if_neg (by rw [hheader]; decide), Lines.chunksUpTo_true, Lines.evenStops]
  dsimp only
  rw [hzip, hlength]

/-- The merged hash has all rows. -/
theorem merged_groups {payloads : List (ChannelMap ℤ)} {parts : List (List Row)}
    (h : List.Forall₂ (GroupBy.Groups Row.path aggOf) payloads parts) :
    ∃ m, merged payloads = some m ∧ GroupBy.Groups Row.path aggOf m parts.flatten := by
  obtain ⟨hstores, hrefs⟩ := Objects.loadAll_stores payloads
  have hnodup : (([] ++ (Objects.loadAll payloads).2.flatten).map Prod.snd).Nodup := by
    rw [List.nil_append, hrefs]
    exact List.nodup_range
  obtain ⟨heap, all, hrun, hall⟩ := Objects.foldlM_mergeInto (joinAgg (· + ·)) .nil
    hstores hnodup
  refine ⟨_, ?_, foldl_merge_groups BaselineRuby.adds h GroupBy.Groups.nil
    fun _ _ => BaselineRuby.sums _⟩
  simp only [merged, hrun, bind, Option.bind]
  exact hall.contents_eq

/-- The output has the lines of all groups. -/
theorem run_csv (quotient : ℤ → ℤ → ℕ) (h : ∀ r ∈ rows, r.Valid) {threads : ℕ}
    (hthreads : 1 ≤ threads) :
    ∃ lines, run quotient (csv rows) threads = some lines ∧
      IsReport (groupLine Decimal.encodeInt fun total count => formatFixed2 (quotient total count))
        rows lines := by
  obtain ⟨parts, rfl, hchunks⟩ := chunksUpTo_parts true h threads
  obtain ⟨payloads, hpayloads, hgroups⟩ := mapM_parts hchunks fun range part hpart hchunk =>
    analyzeRange_groups (fun r hr => h r (List.mem_flatten_of_mem hpart hr)) hchunk
  obtain ⟨m, hm, hmerged⟩ := merged_groups hgroups
  obtain ⟨lines, hwrite, hreport⟩ := isReport_writeAggs Decimal.encodeInt
    (fun total count => formatFixed2 (quotient total count)) hmerged
    fun r hr => (h r hr).comma_notMem
  refine ⟨lines, ?_, hreport⟩
  simp only [run, if_neg (show ¬ threads < 1 by omega), splitRanges_csv, hpayloads, hm, bind,
    Option.bind, fixed2_eq]
  exact hwrite

/-- Each worker counts each row of its part once, and the parts have all rows. -/
theorem run_perm_baselineRuby (quotient : ℤ → ℤ → ℕ) (h : ∀ r ∈ rows, r.Valid)
    (hascii : ∀ r ∈ rows, ∀ b ∈ r.path, b < 128) {threads : ℕ} (hthreads : 1 ≤ threads) :
    (∃ ranges parts, splitRanges (csv rows) threads = some ranges ∧ parts.flatten = rows ∧
      List.Forall₂ (Chunk (csv rows)) ranges parts) ∧
    ∃ lines lines', run quotient (csv rows) threads = some lines ∧
      BaselineRuby.output quotient (csv rows) = some lines' ∧ lines.Perm lines' := by
  obtain ⟨parts, hparts, hchunks⟩ := chunksUpTo_parts true h threads
  obtain ⟨lines, hrun, hreport⟩ := run_csv quotient h hthreads
  obtain ⟨lines', hbaseline, hreport'⟩ := BaselineRuby.output_csv quotient h hascii
  exact ⟨⟨_, parts, splitRanges_csv rows threads, hparts, hchunks⟩,
    lines, lines', hrun, hbaseline, hreport.perm hreport'⟩

/-- Two posts of a channel in a month. -/
def sample : List Row := [⟨1798761600, [97], 5, 2⟩, ⟨1798761700, [97], 7, 0⟩]

theorem valid_sample : ∀ r ∈ sample, r.Valid := by
  intro r hr
  simp only [sample, List.mem_cons, List.not_mem_nil, or_false] at hr
  rcases hr with rfl | rfl
  · exact ⟨by decide, by decide, by decide, by decide⟩
  · exact ⟨by decide, by decide, by decide, by decide⟩

/-- The bits of the quotients of `sample`, whose mean is six. -/
def sixBits (_ _ : ℤ) : ℕ := 0x4018000000000000

theorem run_perm_baselineRuby_sample :
    (∃ ranges parts, splitRanges (csv sample) 3 = some ranges ∧ parts.flatten = sample ∧
      List.Forall₂ (Chunk (csv sample)) ranges parts) ∧
    ∃ lines lines', run sixBits (csv sample) 3 = some lines ∧
      BaselineRuby.output sixBits (csv sample) = some lines' ∧ lines.Perm lines' :=
  run_perm_baselineRuby sixBits valid_sample (by decide +kernel) (by decide)

end Ranges
end OneBrc.Analyzer.OptimizedRuby
