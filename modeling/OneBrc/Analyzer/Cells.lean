import Mathlib.Algebra.Order.Ring.Cast
import OneBrc.Analyzer.Baseline
import OneBrc.Analyzer.Tally

/-! The analyzers in languages with maps: the figures of a channel are five numbers for each month.
`plus` is the addition of the numbers of the language. -/
namespace OneBrc.Analyzer
open Lib StableSort

/-- The five numbers of a month. -/
@[ext] structure Cell (ν : Type) where
  minLen : ν
  totalLen : ν
  maxLen : ν
  messages : ν
  stamps : ν
  deriving DecidableEq

/-- The numbers of a channel, by months. -/
abbrev Agg (ν : Type) := Fin 12 → Cell ν

abbrev ChannelMap (ν : Type) := List (Bytes × Agg ν)

namespace Cell
variable {ν : Type} [Semiring ν] [LinearOrder ν] (plus : ν → ν → ν)

def zero : Cell ν := ⟨0, 0, 0, 0, 0⟩

/-- The first row of a month. -/
def first (messageLength stampCount : ν) : Cell ν :=
  ⟨messageLength, messageLength, messageLength, 1, stampCount⟩

/-- A further row of a month. -/
def next (messageLength stampCount : ν) (c : Cell ν) : Cell ν where
  minLen := if messageLength < c.minLen then messageLength else c.minLen
  maxLen := if messageLength > c.maxLen then messageLength else c.maxLen
  totalLen := plus c.totalLen messageLength
  messages := plus c.messages 1
  stamps := plus c.stamps stampCount

/-- A row of a month. -/
def push (messageLength stampCount : ν) (c : Cell ν) : Cell ν :=
  if c.messages = 0 then first messageLength stampCount
  else next plus messageLength stampCount c

/-- A month of another map. -/
def join (c src : Cell ν) : Cell ν :=
  if src.messages = 0 then c
  else if c.messages = 0 then src
  else
    { minLen := if src.minLen < c.minLen then src.minLen else c.minLen
      maxLen := if src.maxLen > c.maxLen then src.maxLen else c.maxLen
      totalLen := plus c.totalLen src.totalLen
      messages := plus c.messages src.messages
      stamps := plus c.stamps src.stamps }

/-- The numbers of a group. -/
def of (g : List Row) : Cell ν where
  minLen := least (lengths g)
  totalLen := (lengths g).sum
  maxLen := greatest (lengths g)
  messages := g.length
  stamps := (Analyzer.stamps g).sum

end Cell

/-- The numbers of the rows of a channel. -/
def aggOf {ν : Type} [Semiring ν] (rows : List Row) : Agg ν :=
  fun month => Cell.of (rows.filter fun r => decide (r.month = month))

/-- Natural numbers up to `limit` are added exactly. -/
structure Adds {ν : Type} [Semiring ν] (plus : ν → ν → ν) (ok : ℕ → Prop) : Prop where
  add : ∀ m n, ok (m + n) → plus m n = ((m + n : ℕ) : ν)
  mono : ∀ m n, m ≤ n → ok n → ok m

/-- The totals of a group are added exactly. -/
structure Sums (ok : ℕ → Prop) (g : List Row) : Prop where
  total : ok (lengths g).sum
  messages : ok g.length
  stamps : ok (Analyzer.stamps g).sum

section Cells
variable {ν : Type} [Semiring ν] [LinearOrder ν] [IsStrictOrderedRing ν] {plus : ν → ν → ν}
  {ok : ℕ → Prop} {g g' : List Row} {r : Row}

theorem Cell.messages_of : (Cell.of g : Cell ν).messages = 0 ↔ g = [] := by
  rw [Cell.of, Nat.cast_eq_zero, List.length_eq_zero_iff]

omit [LinearOrder ν] [IsStrictOrderedRing ν] in
theorem Cell.of_nil : (Cell.of [] : Cell ν) = Cell.zero := by
  simp [Cell.of, Cell.zero, lengths, Analyzer.stamps, least, greatest]

omit [LinearOrder ν] [IsStrictOrderedRing ν] in
theorem Cell.of_singleton (r : Row) :
    (Cell.of [r] : Cell ν) = Cell.first (r.messageLength : ν) r.stampCount := by
  simp [Cell.of, Cell.first, lengths, Analyzer.stamps, least_singleton, greatest_singleton]

/-- Numbers are joined to those of all rows. -/
theorem Cell.join_of (hplus : Adds plus ok) (hsums : Sums ok (g ++ g')) :
    Cell.join plus (Cell.of g) (Cell.of g') = Cell.of (g ++ g') := by
  rw [Cell.join]
  by_cases hnil' : g' = []
  · rw [if_pos (Cell.messages_of.mpr hnil'), hnil', List.append_nil]
  rw [if_neg (mt Cell.messages_of.mp hnil')]
  by_cases hnil : g = []
  · rw [if_pos (Cell.messages_of.mpr hnil), hnil, List.nil_append]
  rw [if_neg (mt Cell.messages_of.mp hnil)]
  have hlengths : lengths (g ++ g') = lengths g ++ lengths g' := List.map_append
  have hstamps : Analyzer.stamps (g ++ g') = Analyzer.stamps g ++ Analyzer.stamps g' :=
    List.map_append
  have hg : lengths g ≠ [] := by simpa [lengths] using hnil
  have hg' : lengths g' ≠ [] := by simpa [lengths] using hnil'
  have htotal := hsums.total
  have hcount := hsums.stamps
  have hmessages := hsums.messages
  rw [hlengths, List.sum_append] at htotal
  rw [hstamps, List.sum_append] at hcount
  rw [List.length_append] at hmessages
  apply Cell.ext
  · show (if (least (lengths g') : ν) < (least (lengths g) : ν) then (least (lengths g') : ν)
      else (least (lengths g) : ν)) = (least (lengths (g ++ g')) : ν)
    rw [hlengths, least_append hg hg']
    simp only [Nat.cast_lt]
    split
    · next h => rw [Nat.min_eq_right h.le]
    · next h => rw [Nat.min_eq_left (not_lt.mp h)]
  · show plus ((lengths g).sum : ν) ((lengths g').sum : ν) = ((lengths (g ++ g')).sum : ν)
    rw [hlengths, List.sum_append]
    exact hplus.add _ _ htotal
  · show (if (greatest (lengths g') : ν) > (greatest (lengths g) : ν) then
      (greatest (lengths g') : ν) else (greatest (lengths g) : ν)) =
        (greatest (lengths (g ++ g')) : ν)
    rw [hlengths, greatest_append]
    simp only [gt_iff_lt, Nat.cast_lt]
    split
    · next h => rw [Nat.max_eq_right h.le]
    · next h => rw [Nat.max_eq_left (not_lt.mp h)]
  · show plus (g.length : ν) (g'.length : ν) = ((g ++ g').length : ν)
    rw [List.length_append]
    exact hplus.add _ _ hmessages
  · show plus ((Analyzer.stamps g).sum : ν) ((Analyzer.stamps g').sum : ν) =
      ((Analyzer.stamps (g ++ g')).sum : ν)
    rw [hstamps, List.sum_append]
    exact hplus.add _ _ hcount

/-- A further row counts as a month of its own. -/
theorem Cell.next_of (hplus : Adds plus ok) (hne : g ≠ []) (hsums : Sums ok (g ++ [r])) :
    Cell.next plus (r.messageLength : ν) r.stampCount (Cell.of g) = Cell.of (g ++ [r]) := by
  rw [← Cell.join_of hplus hsums, Cell.join,
    if_neg (mt Cell.messages_of.mp (List.cons_ne_nil r [])), if_neg (mt Cell.messages_of.mp hne),
    Cell.of_singleton]
  rfl

theorem Cell.push_of (hplus : Adds plus ok) (hsums : Sums ok (g ++ [r])) :
    Cell.push plus (r.messageLength : ν) r.stampCount (Cell.of g) = Cell.of (g ++ [r]) := by
  rw [Cell.push]
  by_cases hnil : g = []
  · rw [if_pos (Cell.messages_of.mpr hnil), hnil, List.nil_append, Cell.of_singleton]
  · rw [if_neg (mt Cell.messages_of.mp hnil), Cell.next_of hplus hnil hsums]

omit [LinearOrder ν] [IsStrictOrderedRing ν] in
theorem Sums.of_sublist (hplus : Adds plus ok) (h : Sums ok g') (hsub : g.Sublist g') :
    Sums ok g where
  total := hplus.mono _ _ ((hsub.map _).sum_le_sum fun _ _ => Nat.zero_le _) h.total
  messages := hplus.mono _ _ hsub.length_le h.messages
  stamps := hplus.mono _ _ ((hsub.map _).sum_le_sum fun _ _ => Nat.zero_le _) h.stamps

omit [LinearOrder ν] [IsStrictOrderedRing ν] in
theorem Sums.of_append (hplus : Adds plus ok) (h : Sums ok (g ++ g')) : Sums ok g :=
  h.of_sublist hplus (List.sublist_append_left g g')

/-- Numbers joined to those of no rows. -/
theorem Cell.join_zero (plus : ν → ν → ν) (g : List Row) :
    Cell.join plus Cell.zero (Cell.of g) = Cell.of g := by
  rw [Cell.join]
  by_cases hnil : g = []
  · rw [if_pos (Cell.messages_of.mpr hnil), hnil, Cell.of_nil]
  · rw [if_neg (mt Cell.messages_of.mp hnil)]
    exact if_pos rfl

end Cells

section Maps
variable {ν : Type} [Semiring ν] [LinearOrder ν] (plus : ν → ν → ν)

/-- A row of a channel, whose numbers are new if the channel is. -/
def addRow (m : ChannelMap ν) (path : Bytes) (month : Fin 12) (messageLength stampCount : ν) :
    ChannelMap ν :=
  GroupBy.upsert path (fun agg =>
    let agg := agg.getD fun _ => Cell.zero
    Function.update agg month (Cell.push plus messageLength stampCount (agg month))) m

/-- The numbers of a channel of another map. -/
def joinAgg (dst src : Agg ν) : Agg ν := fun month => Cell.join plus (dst month) (src month)

/-- A row under its key, in a baseline. -/
def countRow (messageLength stampCount : ν) : Option (Cell ν) → Cell ν
  | none => Cell.first messageLength stampCount
  | some c => Cell.next plus messageLength stampCount c

variable (print : ν → Bytes) (mean : ν → ν → Bytes)

/-- What follows a key in its line. -/
def cellText (c : Cell ν) : Bytes :=
  equals :: (print c.minLen ++ slash :: (mean c.totalLen c.messages ++ slash ::
    (print c.maxLen ++ slash :: (print c.messages ++ slash :: (print c.stamps ++ [newline])))))

/-- The lines of a channel; months without rows have none. -/
def aggLines (path : Bytes) (agg : Agg ν) : List Bytes :=
  (List.finRange 12).filterMap fun month =>
    if (agg month).messages = 0 then none
    else some (resultKeyOf path month ++ cellText print mean (agg month))

/-- The lines of all channels in the order of their paths. -/
def writeAggs (m : ChannelMap ν) : Option (List Bytes) := do
  some (← (sliceStable ByteOrder.less (m.map Prod.fst)).mapM fun path =>
    (GroupBy.lookup path m).map (aggLines print mean path)).flatten

/-- The lines of a baseline in the order of the keys. -/
def writeCells (m : List (Bytes × Cell ν)) : Option (List Bytes) :=
  (sliceStable ByteOrder.less (m.map Prod.fst)).mapM fun key =>
    (GroupBy.lookup key m).map fun c => key ++ cellText print mean c

/-- The line of a group. -/
def groupLine (path : Bytes) (month : Fin 12) (g : List Row) : Bytes :=
  resultKeyOf path month ++ cellText print mean (Cell.of g)

end Maps

section Groups
variable {ν : Type} [Semiring ν] [LinearOrder ν] [IsStrictOrderedRing ν] {plus : ν → ν → ν}
  {ok : ℕ → Prop} {rows rows' : List Row} {r : Row} {m : ChannelMap ν}

theorem filter_members (path : Bytes) (month : Fin 12) :
    (GroupBy.members Row.path rows path).filter (fun r => decide (r.month = month)) =
      group rows path month := by
  rw [GroupBy.members, List.filter_filter, group]
  apply List.filter_congr
  intro r _
  rw [Bool.decide_and, Bool.and_comm]

omit [LinearOrder ν] [IsStrictOrderedRing ν] in
theorem aggOf_members (path : Bytes) (month : Fin 12) :
    aggOf (GroupBy.members Row.path rows path) month =
      (Cell.of (group rows path month) : Cell ν) := by
  rw [aggOf, filter_members]

/-- The numbers of a channel with one more row. -/
theorem aggOf_concat (hplus : Adds plus ok) {g : List Row}
    (hsums : Sums ok (g.filter (fun r' => decide (r'.month = r.month)) ++ [r])) :
    Function.update (aggOf g : Agg ν) r.month
      (Cell.push plus (r.messageLength : ν) r.stampCount (aggOf g r.month)) = aggOf (g ++ [r]) := by
  funext month
  by_cases hmonth : month = r.month
  · subst hmonth
    rw [Function.update_self, aggOf, Cell.push_of hplus hsums, aggOf, List.filter_append]
    simp
  · rw [Function.update_of_ne hmonth]
    simp [Ne.symm hmonth, aggOf]

omit [LinearOrder ν] [IsStrictOrderedRing ν] in
theorem aggOf_nil : (aggOf [] : Agg ν) = fun _ => Cell.zero := by
  funext month
  exact Cell.of_nil

/-- One more row in the map. -/
theorem addRow_groups (hplus : Adds plus ok) (h : GroupBy.Groups Row.path aggOf m rows)
    (hsums : Sums ok (group (rows ++ [r]) r.path r.month)) :
    GroupBy.Groups Row.path aggOf (addRow plus m r.path r.month (r.messageLength : ν) r.stampCount)
      (rows ++ [r]) := by
  rw [group_concat_self, ← filter_members] at hsums
  refine h.upsert ?_ ?_
  · intro hnil
    rw [hnil] at hsums
    have hconcat := aggOf_concat (ν := ν) hplus hsums
    rw [aggOf_nil] at hconcat
    exact hconcat
  · intro _
    exact aggOf_concat hplus hsums

/-- A merged map has the rows of both. -/
theorem merge_groups (hplus : Adds plus ok) {m' : ChannelMap ν}
    (h : GroupBy.Groups Row.path aggOf m rows) (h' : GroupBy.Groups Row.path aggOf m' rows')
    (hsums : ∀ path month, Sums ok (group (rows ++ rows') path month)) :
    GroupBy.Groups Row.path aggOf (GroupBy.merge (joinAgg plus) m m') (rows ++ rows') := by
  apply h.merge h'
  intro path _ _
  funext month
  rw [joinAgg, aggOf_members, aggOf_members, ← GroupBy.members_append, aggOf_members,
    Cell.join_of hplus (group_append ▸ hsums path month), group_append]

/-- The maps of all parts merged one after the other. -/
theorem foldl_merge_groups (hplus : Adds plus ok) {ms : List (ChannelMap ν)}
    {parts : List (List Row)} (hparts : List.Forall₂ (GroupBy.Groups Row.path aggOf) ms parts)
    (h : GroupBy.Groups Row.path aggOf m rows)
    (hsums : ∀ path month, Sums ok (group (rows ++ parts.flatten) path month)) :
    GroupBy.Groups Row.path aggOf (ms.foldl (GroupBy.merge (joinAgg plus)) m)
      (rows ++ parts.flatten) := by
  induction hparts generalizing m rows with
  | nil => simpa using h
  | @cons m' part ms parts hpart _ ih =>
    rw [List.flatten_cons, ← List.append_assoc] at hsums ⊢
    have hboth (path : Bytes) (month : Fin 12) : Sums ok (group (rows ++ part) path month) :=
      Sums.of_append hplus (group_append ▸ hsums path month)
    exact ih (merge_groups hplus h hpart hboth) hsums

variable (print : ν → Bytes) (mean : ν → ν → Bytes)

omit [LinearOrder ν] [IsStrictOrderedRing ν] in
theorem distinguishes_groupLine (hcomma : ∀ r ∈ rows, comma ∉ r.path) :
    Distinguishes (groupLine print mean) rows := by
  apply distinguishes_recordLine _ hcomma
  · exact fun g => print (Cell.of g).minLen
  · exact fun g => mean (Cell.of g).totalLen (Cell.of g).messages
  · exact fun g => print (Cell.of g).maxLen
  · exact fun g => print (Cell.of g).messages
  · exact fun g => print (Cell.of g).stamps
  · intro path month g
    simp [groupLine, resultKeyOf, cellText, recordLine]

/-- The lines of a channel are those of its groups. -/
theorem aggLines_aggOf (path : Bytes) :
    aggLines print mean path (aggOf (GroupBy.members Row.path rows path) : Agg ν) =
      channelLines (groupLine print mean) rows path := by
  apply List.filterMap_congr
  intro month _
  rw [aggOf_members]
  by_cases hnil : group rows path month = []
  · rw [if_pos (Cell.messages_of.mpr hnil), if_pos hnil]
  · rw [if_neg (mt Cell.messages_of.mp hnil), if_neg hnil, groupLine]

/-- The lines of all channels are a report. -/
theorem isReport_writeAggs (h : GroupBy.Groups Row.path aggOf m rows)
    (hcomma : ∀ r ∈ rows, comma ∉ r.path) :
    ∃ lines, writeAggs print mean m = some lines ∧
      IsReport (groupLine print mean) rows lines := by
  have hkeys : ∀ path ∈ sliceStable ByteOrder.less (m.map Prod.fst), path ∈ m.map Prod.fst :=
    fun _ hpath => mem_sliceStable.mp hpath
  refine ⟨(sliceStable ByteOrder.less (m.map Prod.fst)).flatMap
    (channelLines (groupLine print mean) rows), ?_, ?_⟩
  · rw [writeAggs, h.mapM_lookup hkeys (aggLines print mean)]
    simp only [aggLines_aggOf]
    rw [List.flatMap]
    rfl
  · apply isReport_channelLines (distinguishes_groupLine print mean hcomma)
    · exact (sliceStable_perm _ _).nodup_iff.mpr h.nodup
    · intro r hr
      rw [mem_sliceStable, h.mem_keys]
      exact List.ne_nil_of_mem (List.mem_filter.mpr ⟨hr, decide_eq_true rfl⟩)

omit [LinearOrder ν] [IsStrictOrderedRing ν] in
/-- The lines of a baseline are a report. -/
theorem isReport_writeCells {cells : List (Bytes × Cell ν)}
    (h : GroupBy.Groups Row.key Cell.of cells rows) (hcomma : ∀ r ∈ rows, comma ∉ r.path) :
    ∃ lines, writeCells print mean cells = some lines ∧
      IsReport (groupLine print mean) rows lines :=
  isReport_mapM_lookup _ (fun _ _ _ => rfl) h (distinguishes_groupLine print mean hcomma)

/-- One more row in the map of a baseline. -/
theorem countRow_groups (hplus : Adds plus ok) {cells : List (Bytes × Cell ν)}
    (h : GroupBy.Groups Row.key Cell.of cells rows)
    (hsums : Sums ok (group (rows ++ [r]) r.path r.month)) :
    GroupBy.Groups Row.key Cell.of
      (GroupBy.upsert r.key (countRow plus (r.messageLength : ν) r.stampCount) cells)
      (rows ++ [r]) := by
  rw [group_concat_self, ← members_resultKeyOf] at hsums
  refine h.upsert ?_ ?_
  · intro _
    exact (Cell.of_singleton r).symm
  · intro hne
    exact Cell.next_of hplus hne hsums

end Groups

section Records
variable {ν : Type} [Semiring ν] [LinearOrder ν]

/-- Why a row is refused. -/
inductive Refusal (ν : Type) where
  | columns (got : ℕ)
  | timestamp (unixTimestamp : Bytes)
  | outOfRange (timestamp : ν)
  | messageLength (text : Bytes)
  | stampCount (text : Bytes)

/-- Whether a time is in the month with index `i`. -/
def holdsMonth (timestamp : ν) (i : ℕ) : Bool :=
  monthStartUnix[i]?.any (fun start => decide ((start : ν) ≤ timestamp)) &&
    monthStartUnix[i + 1]?.any fun stop => decide (timestamp < (stop : ν))

/-- The months are tried from the last to the first. -/
def monthLabelAt (timestamp : ν) : Option Bytes := do
  let i ← (List.range 12).reverse.find? (holdsMonth timestamp)
  monthLabels[i]?

/-- A record counted under its key. -/
def countRecord (plus : ν → ν → ν) (parse : Bytes → Option ν) (stats : List (Bytes × Cell ν)) :
    List Bytes → Except (Refusal ν) (List (Bytes × Cell ν))
  | [unixTimestamp, channelPath, messageLength, stampCount] => do
      let timestamp ← orError (.timestamp unixTimestamp) (parse unixTimestamp)
      let month ← orError (.outOfRange timestamp) (monthLabelAt timestamp)
      let length ← orError (.messageLength messageLength) (parse messageLength)
      let stamps ← orError (.stampCount stampCount) (parse stampCount)
      .ok (GroupBy.upsert (channelPath ++ comma :: month) (countRow plus length stamps) stats)
  | record => .error (.columns record.length)

/-- The numbers of a row are read. -/
structure ReadsRow (parse : Bytes → Option ν) (r : Row) : Prop where
  timestamp : parse (Decimal.encode r.timestamp) = some (r.timestamp : ν)
  messageLength : parse (Decimal.encode r.messageLength) = some (r.messageLength : ν)
  stampCount : parse (Decimal.encode r.stampCount) = some (r.stampCount : ν)

variable [IsStrictOrderedRing ν] {plus : ν → ν → ν} {ok : ℕ → Prop} {parse : Bytes → Option ν}
  {rows : List Row} {r : Row} {stats : List (Bytes × Cell ν)}

theorem holdsMonth_natCast (timestamp i : ℕ) :
    holdsMonth (timestamp : ν) i = dayInMonth (timestamp / 86400) i := by
  unfold holdsMonth dayInMonth
  congr 1
  · cases hi : monthStartUnix[i]? with
    | none => rfl
    | some start =>
      have hmod := (monthStartUnix_spec start (List.mem_of_getElem? hi)).2
      show decide ((start : ν) ≤ timestamp) = decide (start ≤ timestamp / 86400 * 86400)
      rw [decide_eq_decide, Nat.cast_le]
      omega
  · cases hi : monthStartUnix[i + 1]? with
    | none => rfl
    | some stop =>
      have hmod := (monthStartUnix_spec stop (List.mem_of_getElem? hi)).2
      show decide ((timestamp : ν) < stop) = decide (timestamp / 86400 * 86400 < stop)
      rw [decide_eq_decide, Nat.cast_lt]
      omega

theorem monthLabelAt_natCast {timestamp : ℕ} (h : In2027 timestamp) :
    monthLabelAt (timestamp : ν) = some (monthLabel (utcMonth timestamp)) := by
  have hlabel := monthLabelFromUnixTimestamp_of_in2027 h
  obtain ⟨hlow, hhigh⟩ := day_of_in2027 h
  have hfind : holdsMonth (timestamp : ν) = inMonth (Int64.ofNat timestamp) :=
    funext fun i => (holdsMonth_natCast timestamp i).trans (inMonth_eq_dayInMonth (by omega) i).symm
  rwa [monthLabelAt, hfind]

/-- The record of a row in the map. -/
theorem countRecord_groups (hplus : Adds plus ok) (hread : ReadsRow parse r)
    (h2027 : In2027 r.timestamp) (h : GroupBy.Groups Row.key Cell.of stats rows)
    (hsums : Sums ok (group (rows ++ [r]) r.path r.month)) :
    ∃ stats', countRecord plus parse stats r.fields = .ok stats' ∧
      GroupBy.Groups Row.key Cell.of stats' (rows ++ [r]) := by
  refine ⟨_, ?_, countRow_groups hplus h hsums⟩
  simp only [countRecord, Row.fields, hread.timestamp, hread.messageLength, hread.stampCount,
    monthLabelAt_natCast h2027, orError, bind, Except.bind]
  rfl

/-- A loop that counts the record of each row. -/
theorem foldlM_groups {ε β : Type} (hplus : Adds plus ok) {step : List (Bytes × Cell ν) → β →
    Except ε (List (Bytes × Cell ν))} {lines : List β} {done : List Row}
    (hread : ∀ r ∈ rows, ReadsRow parse r ∧ In2027 r.timestamp)
    (hsums : ∀ path month, Sums ok (group (done ++ rows) path month))
    (hstep : List.Forall₂ (fun line r => ∀ stats stats',
      countRecord plus parse stats r.fields = .ok stats' → step stats line = .ok stats') lines rows)
    (h : GroupBy.Groups Row.key Cell.of stats done) :
    ∃ stats', lines.foldlM step stats = .ok stats' ∧
      GroupBy.Groups Row.key Cell.of stats' (done ++ rows) := by
  induction hstep generalizing stats done with
  | nil => exact ⟨stats, rfl, by simpa using h⟩
  | @cons line r lines rows hline _ ih =>
    obtain ⟨⟨hr, h2027⟩, hread⟩ := List.forall_mem_cons.mp hread
    rw [List.append_cons] at hsums ⊢
    have hone : Sums ok (group (done ++ [r]) r.path r.month) :=
      Sums.of_append hplus (group_append ▸ hsums r.path r.month)
    obtain ⟨stats₁, hrun₁, h₁⟩ := countRecord_groups hplus hr h2027 h hone
    obtain ⟨stats₂, hrun₂, h₂⟩ := ih hread hsums h₁
    refine ⟨stats₂, ?_, h₂⟩
    rw [List.foldlM_cons, hline stats stats₁ hrun₁]
    exact hrun₂

end Records

section Means

/-- The two decimals of a number given by the bits of its binary representation, to the nearest;
halves go to the even one. -/
def formatFixed2 (bits : ℕ) : Bytes :=
  let exponentBits := bits >>> 52 &&& 0x7FF
  let fraction := bits &&& (1 <<< 52) - 1
  let (mantissa, exponent) : ℕ × ℤ :=
    if exponentBits = 0 then (fraction, -1022 - 52)
    else (1 <<< 52 ||| fraction, exponentBits - 1023 - 52)
  let scaled := mantissa * 100
  let cents :=
    if exponent ≥ 0 then scaled <<< exponent.toNat
    else
      let denominator := 1 <<< (-exponent).toNat
      let rounded := scaled / denominator
      let twice := scaled % denominator * 2
      if twice > denominator ∨ twice = denominator ∧ rounded % 2 = 1 then rounded + 1 else rounded
  Decimal.encode (cents / 100) ++ 46 :: Decimal.encode (cents % 100 / 10) ++
    Decimal.encode (cents % 10)

end Means
end OneBrc.Analyzer
