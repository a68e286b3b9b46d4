import OneBrc.Analyzer.Contract
import OneBrc.Lib.ByteOrder
import OneBrc.Lib.Csv
import OneBrc.Lib.GroupBy

/-! The baselines: a map from a channel and a month to its figures, written in the order of its
keys. -/
namespace OneBrc.Analyzer
open Lib StableSort

@[ext] structure ChannelStats where
  minLen : Int64
  maxLen : Int64
  totalLen : Int64
  messages : Int64
  stamps : Int64

/-- Why a row is refused. -/
inductive RecordError where
  | columns (got : ℕ)
  | timestamp (unixTimestamp : Bytes)
  | outOfRange (timestamp : Int64)
  | messageLength (text : Bytes)
  | stampCount (text : Bytes)

abbrev StatsMap := List (Bytes × ChannelStats)

/-- Whether a time is in the month with index `i`. -/
def inMonth (timestamp : Int64) (i : ℕ) : Bool :=
  monthStartUnix[i]?.any (fun start => Int64.ofNat start ≤ timestamp) &&
    monthStartUnix[i + 1]?.any fun stop => timestamp < Int64.ofNat stop

/-- The months are tried from the last to the first. -/
def monthLabelFromUnixTimestamp (timestamp : Int64) : Option Bytes := do
  let i ← (List.range 12).reverse.find? (inMonth timestamp)
  monthLabels[i]?

def orError {ε α : Type} (e : ε) : Option α → Except ε α
  | none => .error e
  | some a => .ok a

def resultKey (parseInt : Bytes → Option Int64) (unixTimestamp channelPath : Bytes) :
    Except RecordError Bytes := do
  let timestamp ← orError (.timestamp unixTimestamp) (parseInt unixTimestamp)
  let month ← orError (.outOfRange timestamp) (monthLabelFromUnixTimestamp timestamp)
  .ok (channelPath ++ comma :: month)

/-- The figures of a key with one more row. -/
def ChannelStats.add (messageLength stampCount : Int64) : Option ChannelStats → ChannelStats
  | none => ⟨messageLength, messageLength, messageLength, 1, stampCount⟩
  | some s => {
      minLen := if messageLength < s.minLen then messageLength else s.minLen
      maxLen := if messageLength > s.maxLen then messageLength else s.maxLen
      totalLen := s.totalLen + messageLength
      messages := s.messages + 1
      stamps := s.stamps + stampCount }

/-- A record counted under its key. -/
def analyzeRecord (parseInt : Bytes → Option Int64) (stats : StatsMap) :
    List Bytes → Except RecordError StatsMap
  | [unixTimestamp, channelPath, messageLength, stampCount] => do
      let key ← resultKey parseInt unixTimestamp channelPath
      let length ← orError (.messageLength messageLength) (parseInt messageLength)
      let stamps ← orError (.stampCount stampCount) (parseInt stampCount)
      .ok (GroupBy.upsert key (ChannelStats.add length stamps) stats)
  | record => .error (.columns record.length)

def statsLine (mean : ℤ → ℤ → Bytes) (key : Bytes) (s : ChannelStats) : Bytes :=
  key ++ equals :: (Decimal.encodeInt s.minLen.toInt ++ slash ::
    (mean s.totalLen.toInt s.messages.toInt ++ slash :: (Decimal.encodeInt s.maxLen.toInt ++
      slash :: (Decimal.encodeInt s.messages.toInt ++ slash ::
        (Decimal.encodeInt s.stamps.toInt ++ [newline])))))

/-- The lines that are written, in the order of the keys. -/
def writeStats (mean : ℤ → ℤ → Bytes) (stats : StatsMap) : Option (List Bytes) :=
  (sliceStable ByteOrder.less (stats.map Prod.fst)).mapM fun key =>
    (GroupBy.lookup key stats).map (statsLine mean key)

def Row.fields (r : Row) : List Bytes :=
  [Decimal.encode r.timestamp, r.path, Decimal.encode r.messageLength, Decimal.encode r.stampCount]

def resultKeyOf (path : Bytes) (month : Fin 12) : Bytes := path ++ comma :: monthLabel month

def Row.key (r : Row) : Bytes := resultKeyOf r.path r.month

/-- The figures of a group in the arithmetic of 64 bits. -/
def ChannelStats.of (g : List Row) : ChannelStats where
  minLen := Int64.ofNat (least (lengths g))
  maxLen := Int64.ofNat (greatest (lengths g))
  totalLen := Int64.ofNat (lengths g).sum
  messages := Int64.ofNat g.length
  stamps := Int64.ofNat (Analyzer.stamps g).sum

/-- The line of a group in the arithmetic of 64 bits. -/
def wrappedLine (mean : ℤ → ℤ → Bytes) (path : Bytes) (month : Fin 12) (g : List Row) : Bytes :=
  statsLine mean (resultKeyOf path month) (ChannelStats.of g)

/-- Numbers that a row of a baseline may have. -/
structure Row.Fits (r : Row) : Prop where
  in2027 : In2027 r.timestamp
  messageLength_lt : r.messageLength < 2 ^ 63
  stampCount_lt : r.stampCount < 2 ^ 63

section Months

theorem toInt_ofNat {n : ℕ} (h : n < 2 ^ 63) : (Int64.ofNat n).toInt = n :=
  Int64.toInt_ofNat_of_lt h

theorem ofNat_lt {m n : ℕ} (hm : m < 2 ^ 63) (hn : n < 2 ^ 63) :
    Int64.ofNat m < Int64.ofNat n ↔ m < n := by
  rw [Int64.lt_iff_toInt_lt, toInt_ofNat hm, toInt_ofNat hn, Int.ofNat_lt]

theorem ofNat_le {m n : ℕ} (hm : m < 2 ^ 63) (hn : n < 2 ^ 63) :
    Int64.ofNat m ≤ Int64.ofNat n ↔ m ≤ n := by
  rw [Int64.le_iff_toInt_le, toInt_ofNat hm, toInt_ofNat hn, Int.ofNat_le]

/-- Whether a day is in the month with index `i`. -/
def dayInMonth (day i : ℕ) : Bool :=
  monthStartUnix[i]?.any (fun start => decide (start ≤ day * 86400)) &&
    monthStartUnix[i + 1]?.any fun stop => decide (day * 86400 < stop)

theorem month_of_day : ∀ day < 365, (List.range 12).reverse.find? (dayInMonth (20819 + day)) =
    some (utcMonth ((20819 + day) * 86400)).val := by
  decide +kernel

theorem monthStartUnix_spec : ∀ start ∈ monthStartUnix, start < 2 ^ 62 ∧ start % 86400 = 0 := by
  decide

/-- Months begin at the beginning of a day. -/
theorem inMonth_eq_dayInMonth {timestamp : ℕ} (h : timestamp < 2 ^ 62) (i : ℕ) :
    inMonth (Int64.ofNat timestamp) i = dayInMonth (timestamp / 86400) i := by
  have hstart : ∀ start ∈ monthStartUnix,
      decide (Int64.ofNat start ≤ Int64.ofNat timestamp) =
        decide (start ≤ timestamp / 86400 * 86400) ∧
      decide (Int64.ofNat timestamp < Int64.ofNat start) =
        decide (timestamp / 86400 * 86400 < start) := by
    intro start hmem
    obtain ⟨hlt, hmod⟩ := monthStartUnix_spec start hmem
    constructor
    · rw [decide_eq_decide, ofNat_le (by omega) (by omega)]
      omega
    · rw [decide_eq_decide, ofNat_lt (by omega) (by omega)]
      omega
  unfold inMonth dayInMonth
  congr 1
  · cases hi : monthStartUnix[i]? with
    | none => rfl
    | some start => exact (hstart start (List.mem_of_getElem? hi)).1
  · cases hi : monthStartUnix[i + 1]? with
    | none => rfl
    | some stop => exact (hstart stop (List.mem_of_getElem? hi)).2

theorem monthLabelFromUnixTimestamp_of_in2027 {timestamp : ℕ} (h : In2027 timestamp) :
    monthLabelFromUnixTimestamp (Int64.ofNat timestamp) =
      some (monthLabel (utcMonth timestamp)) := by
  obtain ⟨hlow, hhigh⟩ := day_of_in2027 h
  have hdiv : timestamp / 86400 * 86400 / 86400 = timestamp / 86400 := by omega
  have hmonth : utcMonth (timestamp / 86400 * 86400) = utcMonth timestamp := by
    simp only [utcMonth, hdiv]
  have hfind : (List.range 12).reverse.find? (inMonth (Int64.ofNat timestamp)) =
      some (utcMonth timestamp).val := by
    have hday := month_of_day (timestamp / 86400 - 20819) (by omega)
    have hin : inMonth (Int64.ofNat timestamp) = dayInMonth (timestamp / 86400) :=
      funext (inMonth_eq_dayInMonth (by omega))
    rwa [show 20819 + (timestamp / 86400 - 20819) = timestamp / 86400 by omega, ← hin,
      hmonth] at hday
  simp only [monthLabelFromUnixTimestamp, hfind, bind, Option.bind]
  exact List.getElem?_eq_getElem _

end Months

section Keys

theorem resultKeyOf_inj {path path' : Bytes} {month month' : Fin 12} :
    resultKeyOf path month = resultKeyOf path' month' ↔ path = path' ∧ month = month' := by
  constructor
  · intro h
    have hlength : (comma :: monthLabel month).length = (comma :: monthLabel month').length := by
      rw [List.length_cons, List.length_cons, length_monthLabel, length_monthLabel]
    obtain ⟨hpath, hrest⟩ := List.append_inj' h hlength
    exact ⟨hpath, monthLabel_injective (List.cons.inj hrest).2⟩
  · rintro ⟨rfl, rfl⟩
    rfl

/-- The rows with a key are the group of its channel and month. -/
theorem members_resultKeyOf (rows : List Row) (path : Bytes) (month : Fin 12) :
    GroupBy.members Row.key rows (resultKeyOf path month) = group rows path month := by
  apply List.filter_congr
  intro r _
  exact decide_eq_decide.mpr resultKeyOf_inj

end Keys

section Rows
variable {stats : StatsMap} {rows : List Row} {r : Row}

theorem ChannelStats.add_none (r : Row) :
    add (Int64.ofNat r.messageLength) (Int64.ofNat r.stampCount) none = of [r] := by
  simp [add, of, least, greatest, lengths, Analyzer.stamps]

theorem ChannelStats.add_some {g : List Row} (hne : g ≠ [])
    (hlt : ∀ r' ∈ g ++ [r], r'.messageLength < 2 ^ 63) :
    add (Int64.ofNat r.messageLength) (Int64.ofNat r.stampCount) (some (of g)) =
      of (g ++ [r]) := by
  have hlengths : lengths g ≠ [] := by simpa [lengths] using hne
  have hr : r.messageLength < 2 ^ 63 := hlt r List.mem_concat_self
  have hg : ∀ n ∈ lengths g, n < 2 ^ 63 := by
    intro n hn
    obtain ⟨r', hr', rfl⟩ := List.mem_map.mp hn
    exact hlt r' (List.mem_append_left _ hr')
  have hleast : least (lengths g) < 2 ^ 63 := hg _ (least_mem hlengths)
  have hgreatest : greatest (lengths g) < 2 ^ 63 := by
    have hle : greatest (lengths g) ≤ 2 ^ 63 - 1 := greatest_le fun n hn => by
      have hn' := hg n hn
      omega
    omega
  have hconcat : lengths (g ++ [r]) = lengths g ++ [r.messageLength] := List.map_append
  have hmin : (if Int64.ofNat r.messageLength < Int64.ofNat (least (lengths g)) then
      Int64.ofNat r.messageLength else Int64.ofNat (least (lengths g))) =
      Int64.ofNat (least (lengths (g ++ [r]))) := by
    rw [hconcat, least_append hlengths (List.cons_ne_nil _ _), least_singleton]
    simp only [ofNat_lt hr hleast]
    split
    · next h => rw [Nat.min_eq_right h.le]
    · next h => rw [Nat.min_eq_left (not_lt.mp h)]
  have hmax : (if Int64.ofNat r.messageLength > Int64.ofNat (greatest (lengths g)) then
      Int64.ofNat r.messageLength else Int64.ofNat (greatest (lengths g))) =
      Int64.ofNat (greatest (lengths (g ++ [r]))) := by
    rw [hconcat, greatest_append, greatest_singleton]
    simp only [gt_iff_lt, ofNat_lt hgreatest hr]
    split
    · next h => rw [Nat.max_eq_right h.le]
    · next h => rw [Nat.max_eq_left (not_lt.mp h)]
  have htotal : Int64.ofNat (lengths g).sum + Int64.ofNat r.messageLength =
      Int64.ofNat (lengths (g ++ [r])).sum := by
    rw [hconcat, List.sum_append, List.sum_singleton, Int64.ofNat_add]
  have hmessages : Int64.ofNat g.length + 1 = Int64.ofNat (g ++ [r]).length := by
    rw [List.length_append, List.length_singleton, Int64.ofNat_add]
    rfl
  have hstamps : Int64.ofNat (Analyzer.stamps g).sum + Int64.ofNat r.stampCount =
      Int64.ofNat (Analyzer.stamps (g ++ [r])).sum := by
    have hconcat : Analyzer.stamps (g ++ [r]) = Analyzer.stamps g ++ [r.stampCount] :=
      List.map_append
    rw [hconcat, List.sum_append, List.sum_singleton, Int64.ofNat_add]
  exact ChannelStats.ext hmin hmax htotal hmessages hstamps

/-- A reader of canonical decimals. -/
def ReadsInt (parseInt : Bytes → Option Int64) : Prop :=
  ∀ n < 2 ^ 63, parseInt (Decimal.encode n) = some (Int64.ofNat n)

theorem analyzeRecord_fields {parseInt : Bytes → Option Int64} (hparse : ReadsInt parseInt)
    (hr : r.Fits) : analyzeRecord parseInt stats r.fields =
      .ok (GroupBy.upsert r.key (ChannelStats.add (Int64.ofNat r.messageLength)
        (Int64.ofNat r.stampCount)) stats) := by
  obtain ⟨hlow, hhigh⟩ := day_of_in2027 hr.in2027
  have htimestamp := hparse r.timestamp (by omega)
  have hlength := hparse r.messageLength hr.messageLength_lt
  have hstamps := hparse r.stampCount hr.stampCount_lt
  have hmonth := monthLabelFromUnixTimestamp_of_in2027 hr.in2027
  simp only [analyzeRecord, Row.fields, resultKey, htimestamp, hlength, hstamps, hmonth, orError,
    bind, Except.bind]
  rfl

/-- One more row in the map. -/
theorem analyzeRecord_groups {parseInt : Bytes → Option Int64} (hparse : ReadsInt parseInt)
    (h : GroupBy.Groups Row.key ChannelStats.of stats rows) (hrows : ∀ r' ∈ rows ++ [r], r'.Fits) :
    ∃ stats', analyzeRecord parseInt stats r.fields = .ok stats' ∧
      GroupBy.Groups Row.key ChannelStats.of stats' (rows ++ [r]) := by
  refine ⟨_, analyzeRecord_fields hparse (hrows r List.mem_concat_self), h.upsert ?_ ?_⟩
  · intro _
    exact ChannelStats.add_none r
  · intro hne
    apply ChannelStats.add_some hne
    intro r' hr'
    rcases List.mem_append.mp hr' with hmem | hmem
    · exact (hrows r' (List.mem_append_left _ (List.mem_filter.mp hmem).1)).messageLength_lt
    · exact (hrows r' (List.mem_append_right _ hmem)).messageLength_lt

end Rows

section Output
variable {mean : ℤ → ℤ → Bytes} {stats : StatsMap} {rows : List Row} {path : Bytes}
  {month : Fin 12} {g : List Row}

theorem wrappedLine_eq : wrappedLine mean path month g = recordLine path month
    (Decimal.encodeInt (ChannelStats.of g).minLen.toInt)
    (mean (ChannelStats.of g).totalLen.toInt (ChannelStats.of g).messages.toInt)
    (Decimal.encodeInt (ChannelStats.of g).maxLen.toInt)
    (Decimal.encodeInt (ChannelStats.of g).messages.toInt)
    (Decimal.encodeInt (ChannelStats.of g).stamps.toInt) := by
  simp [wrappedLine, statsLine, resultKeyOf, recordLine]

/-- A group whose totals are in the range of 64 bits. -/
structure Fits63 (g : List Row) : Prop where
  total : (lengths g).sum < 2 ^ 63
  messages : g.length < 2 ^ 63
  stamps : (Analyzer.stamps g).sum < 2 ^ 63

theorem wrappedLine_eq_reportLine (hne : g ≠ []) (h : Fits63 g) :
    wrappedLine mean path month g = reportLine mean path month g := by
  have hlengths : lengths g ≠ [] := by simpa [lengths] using hne
  have hleast : least (lengths g) < 2 ^ 63 := Nat.lt_of_le_of_lt (least_le_sum hlengths) h.total
  have hgreatest : greatest (lengths g) < 2 ^ 63 :=
    Nat.lt_of_le_of_lt (greatest_le_sum _) h.total
  rw [wrappedLine_eq]
  simp only [ChannelStats.of, toInt_ofNat hleast, toInt_ofNat hgreatest, toInt_ofNat h.total,
    toInt_ofNat h.messages, toInt_ofNat h.stamps, Decimal.encodeInt_natCast]
  rfl

/-- The keys in the order in which their lines are written. -/
def writtenKeys (stats : StatsMap) : List Bytes :=
  sliceStable ByteOrder.less (stats.map Prod.fst)

theorem writeStats_groups (h : GroupBy.Groups Row.key ChannelStats.of stats rows) :
    writeStats mean stats = some ((writtenKeys stats).map fun key =>
      statsLine mean key (ChannelStats.of (GroupBy.members Row.key rows key))) :=
  h.mapM_lookup (fun _ hk => mem_sliceStable.mp hk) (statsLine mean)

/-- Two maps of the same rows are written alike. -/
theorem writeStats_eq {stats' : StatsMap} (h : GroupBy.Groups Row.key ChannelStats.of stats rows)
    (h' : GroupBy.Groups Row.key ChannelStats.of stats' rows) :
    writeStats mean stats = writeStats mean stats' := by
  have hkeys : writtenKeys stats = writtenKeys stats' := by
    apply ByteOrder.sort_eq ((sliceStable_perm ..).trans ?_) (ByteOrder.sort_strict h'.nodup)
    refine (List.perm_ext_iff_of_nodup h'.nodup h.nodup).mpr fun key => ?_
    rw [h.mem_keys, h'.mem_keys]
  rw [writeStats_groups h, writeStats_groups h', hkeys]

theorem members_ne_nil {key : Bytes} (h : GroupBy.members Row.key rows key ≠ []) :
    ∃ path month, key = resultKeyOf path month := by
  obtain ⟨r, hr⟩ := List.exists_mem_of_ne_nil _ h
  have hkey := of_decide_eq_true (List.mem_filter.mp hr).2
  exact ⟨r.path, r.month, hkey.symm⟩

/-- What is written for the keys of a map in their order is a report. -/
theorem isReport_mapM_lookup {α : Type} {summary : List Row → α} {stats : List (Bytes × α)}
    {line : Bytes → Fin 12 → List Row → Bytes} (write : Bytes → α → Bytes)
    (hwrite : ∀ path month g, write (resultKeyOf path month) (summary g) = line path month g)
    (h : GroupBy.Groups Row.key summary stats rows) (hline : Distinguishes line rows) :
    ∃ lines, ((sliceStable ByteOrder.less (stats.map Prod.fst)).mapM fun key =>
      (GroupBy.lookup key stats).map (write key)) = some lines ∧ IsReport line rows lines := by
  refine ⟨_, h.mapM_lookup (fun _ hk => mem_sliceStable.mp hk) write, ?_, ?_⟩
  · have hnodup : (sliceStable ByteOrder.less (stats.map Prod.fst)).Nodup :=
      (sliceStable_perm _ _).nodup_iff.mpr h.nodup
    apply List.Nodup.map_on _ hnodup
    intro key hkey key' hkey' heq
    have hne := h.mem_keys.mp (mem_sliceStable.mp hkey)
    have hne' := h.mem_keys.mp (mem_sliceStable.mp hkey')
    obtain ⟨path, month, rfl⟩ := members_ne_nil hne
    obtain ⟨path', month', rfl⟩ := members_ne_nil hne'
    rw [members_resultKeyOf] at hne hne' heq
    rw [members_resultKeyOf, hwrite, hwrite] at heq
    exact resultKeyOf_inj.mpr (hline path month path' month' hne hne' heq)
  · intro l
    rw [List.mem_map]
    constructor
    · rintro ⟨key, hkey, rfl⟩
      have hne := h.mem_keys.mp (mem_sliceStable.mp hkey)
      obtain ⟨path, month, rfl⟩ := members_ne_nil hne
      rw [members_resultKeyOf] at hne ⊢
      exact ⟨path, month, hne, hwrite _ _ _⟩
    · rintro ⟨path, month, hne, rfl⟩
      refine ⟨resultKeyOf path month, mem_sliceStable.mpr (h.mem_keys.mpr ?_), ?_⟩
      · rwa [members_resultKeyOf]
      · rw [members_resultKeyOf, hwrite]

theorem distinguishes_wrappedLine (mean : ℤ → ℤ → Bytes) (hcomma : ∀ r ∈ rows, comma ∉ r.path) :
    Distinguishes (wrappedLine mean) rows :=
  distinguishes_recordLine (fun _ _ _ => wrappedLine_eq) hcomma

/-- A baseline writes the record of each group once. -/
theorem isReport_writeStats (mean : ℤ → ℤ → Bytes)
    (h : GroupBy.Groups Row.key ChannelStats.of stats rows)
    (hcomma : ∀ r ∈ rows, comma ∉ r.path) :
    ∃ lines, writeStats mean stats = some lines ∧ IsReport (wrappedLine mean) rows lines :=
  isReport_mapM_lookup (statsLine mean) (fun _ _ _ => rfl) h (distinguishes_wrappedLine mean hcomma)

end Output
section Columns
variable {r : Row}

/-- The text of a row before its LF. -/
def Row.text (r : Row) : Bytes := List.intercalate [comma] r.fields

theorem Row.line_eq_text (r : Row) : r.line = r.text ++ [newline] := by
  simp [Row.text, Row.fields, Row.line, List.intercalate]

/-- The columns of a row are found again. -/
theorem splitOn_text (hcomma : comma ∉ r.path) : r.text.splitOn comma = r.fields := by
  have hdigits (n : ℕ) : comma ∉ Decimal.encode n := Decimal.notMem_encode (by decide)
  apply List.splitOn_intercalate
  · intro field hfield
    simp only [Row.fields, List.mem_cons, List.not_mem_nil, or_false] at hfield
    rcases hfield with rfl | rfl | rfl | rfl
    · exact hdigits _
    · exact hcomma
    · exact hdigits _
    · exact hdigits _
  · exact List.cons_ne_nil _ _

/-- A row ends with a digit. -/
theorem getLast?_text (r : Row) : ∃ b, r.text.getLast? = some b ∧ Decimal.isDigit b = true := by
  have hne := Decimal.encode_ne_nil r.stampCount
  have htext : r.text = (Decimal.encode r.timestamp ++ comma :: (r.path ++ comma ::
      (Decimal.encode r.messageLength ++ [comma]))) ++ Decimal.encode r.stampCount := by
    simp [Row.text, Row.fields, List.intercalate]
  refine ⟨(Decimal.encode r.stampCount).getLast hne, ?_, ?_⟩
  · rw [htext, List.getLast?_append, List.getLast?_eq_some_getLast hne]
    rfl
  · exact Decimal.isDigit_of_mem_encode (List.getLast_mem hne)

theorem getLast?_text_ne {b : UInt8} (hb : Decimal.isDigit b = false) :
    r.text.getLast? ≠ some b := by
  obtain ⟨b', hlast, hdigit⟩ := getLast?_text r
  rw [hlast]
  rintro ⟨⟩
  rw [hb] at hdigit
  cases hdigit

theorem text_ne_nil (r : Row) : r.text ≠ [] := by
  obtain ⟨b, hlast, -⟩ := getLast?_text r
  intro hnil
  rw [hnil] at hlast
  cases hlast

/-- A row is made of digits, commas and the characters of its channel. -/
theorem mem_text {b : UInt8} (h : b ∈ r.text) :
    Decimal.isDigit b = true ∨ b = comma ∨ b ∈ r.path := by
  simp only [Row.text, Row.fields, List.intercalate, List.intersperse, List.flatten_cons,
    List.flatten_nil, List.mem_append, List.mem_cons, List.not_mem_nil, or_false] at h
  rcases h with h | h | h | h | h | h | h
  · exact .inl (Decimal.isDigit_of_mem_encode h)
  · exact .inr (.inl h)
  · exact .inr (.inr h)
  · exact .inr (.inl h)
  · exact .inl (Decimal.isDigit_of_mem_encode h)
  · exact .inr (.inl h)
  · exact .inl (Decimal.isDigit_of_mem_encode h)

theorem ascii_text (h : ∀ b ∈ r.path, b < 128) : ∀ b ∈ r.text, b < 128 := by
  intro b hb
  rcases mem_text hb with hb | rfl | hb
  · have hrange := Decimal.isDigit_iff.mp hb
    rw [UInt8.lt_iff_toNat_lt]
    exact Nat.lt_of_le_of_lt hrange.2 (by decide)
  · decide
  · exact h b hb

/-- The rows of a file are its lines after the header. -/
theorem split_csv {rows : List Row} (h : ∀ r ∈ rows, Lines.Terminated newline r.line) :
    Lines.split newline (csv rows) =
      (header ++ [newline]) :: rows.map fun r => r.text ++ [newline] := by
  have hheader : Lines.Terminated newline (header ++ [newline]) := ⟨header, rfl, by decide⟩
  rw [csv, Lines.split_line hheader, Lines.split_flatten]
  · exact congrArg _ (List.map_congr_left fun r _ => Row.line_eq_text r)
  · intro l hl
    obtain ⟨r, hr, rfl⟩ := List.mem_map.mp hl
    exact h r hr

end Columns

section Lines
variable {ε β : Type}

/-- The lines of a file one after the other, with their numbers. -/
def analyzeFrom (analyzeLine : ℕ → StatsMap → β → Except ε StatsMap) (lineNumber : ℕ)
    (stats : StatsMap) : List β → Except ε StatsMap
  | [] => .ok stats
  | line :: lines =>
      match analyzeLine lineNumber stats line with
      | .error e => .error e
      | .ok stats => analyzeFrom analyzeLine (lineNumber + 1) stats lines

/-- All lines after the header, when each is counted as the record of its row. -/
theorem analyzeFrom_groups {parseInt : Bytes → Option Int64} (hparse : ReadsInt parseInt)
    {analyzeLine : ℕ → StatsMap → β → Except ε StatsMap} (line : Row → β)
    {stats : StatsMap} {done rows : List Row}
    (hline : ∀ r ∈ rows, ∀ lineNumber stats stats',
      analyzeRecord parseInt stats r.fields = .ok stats' →
        analyzeLine (lineNumber + 2) stats (line r) = .ok stats')
    (h : GroupBy.Groups Row.key ChannelStats.of stats done) (hfits : ∀ r ∈ done ++ rows, r.Fits)
    (lineNumber : ℕ) : ∃ stats',
      analyzeFrom analyzeLine (lineNumber + 2) stats (rows.map line) = .ok stats' ∧
      GroupBy.Groups Row.key ChannelStats.of stats' (done ++ rows) := by
  induction rows generalizing stats done lineNumber with
  | nil => exact ⟨stats, rfl, by simpa using h⟩
  | cons r rows ih =>
    rw [List.append_cons] at hfits
    obtain ⟨stats₁, hrun₁, h₁⟩ := analyzeRecord_groups hparse h fun r' hr' =>
      hfits r' (List.mem_append_left _ hr')
    obtain ⟨stats₂, hrun₂, h₂⟩ := ih (fun r' hr' => hline r' (List.mem_cons_of_mem _ hr')) h₁ hfits
      (lineNumber + 1)
    refine ⟨stats₂, ?_, by rwa [← List.append_cons] at h₂⟩
    rw [List.map_cons, analyzeFrom, hline r List.mem_cons_self _ _ _ hrun₁]
    exact hrun₂

/-- A line that is refused after all others ends the run. -/
theorem analyzeFrom_error {analyzeLine : ℕ → StatsMap → β → Except ε StatsMap} {lines : List β}
    (h : ∃ line ∈ lines, ∀ lineNumber stats, ∃ e, analyzeLine lineNumber stats line = .error e)
    (lineNumber : ℕ) (stats : StatsMap) :
    ∃ e, analyzeFrom analyzeLine lineNumber stats lines = .error e := by
  obtain ⟨line, hmem, hline⟩ := h
  induction hmem generalizing lineNumber stats with
  | head lines =>
    obtain ⟨e, he⟩ := hline lineNumber stats
    exact ⟨e, by rw [analyzeFrom, he]⟩
  | tail first _ ih =>
    rw [analyzeFrom]
    cases analyzeLine lineNumber stats first with
    | error e => exact ⟨e, rfl⟩
    | ok stats => exact ih _ _

end Lines
section Contract
variable {rows : List Row}

theorem fits_of_isContract (h : IsContract rows) : ∀ r ∈ rows, r.Fits := fun r hr =>
  { in2027 := h.in2027 r hr
    messageLength_lt := Nat.lt_trans (h.number_lt hr).1 (by decide)
    stampCount_lt := Nat.lt_trans (h.number_lt hr).2 (by decide) }

/-- The report of a baseline on the files of the contest. -/
theorem isReport_of_isContract {mean : ℤ → ℤ → Bytes} {lines : List Bytes} (h : IsContract rows)
    (hreport : IsReport (wrappedLine mean) rows lines) : IsReport (reportLine mean) rows lines := by
  apply hreport.congr
  intro path month hne
  apply wrappedLine_eq_reportLine hne
  exact ⟨Nat.lt_trans (h.total_lt path month) (by decide),
    Nat.lt_trans (h.messages_lt path month) (by decide),
    Nat.lt_trans (h.stamps_lt path month) (by decide)⟩

end Contract
end OneBrc.Analyzer
