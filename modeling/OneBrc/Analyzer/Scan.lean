import OneBrc.Analyzer.Contract

/-! The loop in which a worker reads the rows of its chunk. A cursor is the text from it on; a chunk
ends `after` bytes before the end of the text. -/
namespace OneBrc.Analyzer
open Lib

structure ParsedRow where
  path : Bytes
  month : Fin 12
  messageLength : UInt32
  stampCount : UInt32
  deriving DecidableEq

/-- Digits up to the byte `stop`, which is passed. -/
def digitsUntil (stop : UInt8) (n : UInt32) : Bytes → Option (UInt32 × Bytes)
  | [] => none
  | b :: rest =>
      if b = stop then some (n, rest) else digitsUntil stop (n * 10 + (b - 48).toUInt32) rest

/-- A number: its first character is taken for a digit. -/
def readNumber (stop : UInt8) : Bytes → Option (UInt32 × Bytes)
  | [] => none
  | b :: rest => digitsUntil stop (b - 48).toUInt32 rest

/-- A row from its timestamp to its LF. -/
def readRow (monthOf : Bytes → Option (Fin 12)) (channelLength : ℕ → Bytes → Option ℕ)
    (after : ℕ) (rest : Bytes) : Option (ParsedRow × Bytes) := do
  let month ← monthOf rest
  let rest := rest.drop 11
  let length ← channelLength after rest
  let (messageLength, tail) ← readNumber comma (rest.drop (length + 1))
  let (stampCount, tail) ← readNumber newline tail
  some (⟨rest.take length, month, messageLength, stampCount⟩, tail)

/-- The loop of a worker. Blank lines are skipped; the loop is left when at most `guard` bytes of
the chunk remain. -/
def scan {ρ μ : Type} (guard : ℕ) (read : ℕ → Bytes → Option (ρ × Bytes))
    (add : μ → ρ → Option μ) (after : ℕ) : ℕ → Bytes → μ → Option μ
  | 0, _, _ => none
  | fuel + 1, rest, m =>
      if rest.length ≤ after then some m
      else match rest with
        | [] => none
        | b :: tail =>
            if b = newline ∨ b = carriageReturn then scan guard read add after fuel tail m
            else if rest.length ≤ after + guard then some m
            else do
              let (row, tail) ← read after rest
              scan guard read add after fuel tail (← add m row)

section Numbers

theorem digitsUntil_append {stop : UInt8} {bs : Bytes} (h : stop ∉ bs) (n : UInt32)
    (tail : Bytes) : digitsUntil stop n (bs ++ stop :: tail) =
      some (bs.foldl (fun a b => a * 10 + (b - 48).toUInt32) n, tail) := by
  induction bs generalizing n with
  | nil => simp [digitsUntil]
  | cons b bs ih =>
    have hb : stop ≠ b := fun heq => h (heq ▸ List.mem_cons_self)
    have hbs : stop ∉ bs := fun hmem => h (List.mem_cons_of_mem _ hmem)
    rw [List.cons_append, digitsUntil, if_neg (Ne.symm hb), ih hbs, List.foldl_cons]

/-- A canonical decimal is read in the arithmetic of 32 bits. -/
theorem readNumber_encode {stop : UInt8} (hstop : Decimal.isDigit stop = false) (n : ℕ)
    (tail : Bytes) :
    readNumber stop (Decimal.encode n ++ stop :: tail) = some (UInt32.ofNat n, tail) := by
  have hnotMem : stop ∉ Decimal.encode n := Decimal.notMem_encode hstop
  have hvalue := Decimal.foldl_uint32 (Decimal.encode n) 0
  rw [Decimal.value_encode, Nat.zero_mul, Nat.zero_add] at hvalue
  cases hcs : Decimal.encode n with
  | nil => exact absurd hcs (Decimal.encode_ne_nil n)
  | cons b bs =>
    rw [hcs] at hnotMem hvalue
    rw [List.cons_append, readNumber,
      digitsUntil_append (fun h => hnotMem (List.mem_cons_of_mem _ h)), ← hvalue,
      List.foldl_cons]
    simp

end Numbers

section Timestamps

def yearStart : ℕ := 1798761600

/-- The months of the days: at each day the month advances when its end is reached. -/
def monthsFrom (month : Fin 12) : List ℕ → List (Fin 12)
  | [] => []
  | day :: days =>
      let timestamp := yearStart + day * 86400
      let month := if monthStartUnix[month.val + 1]?.any (· ≤ timestamp) then month + 1 else month
      month :: monthsFrom month days

def monthByDay : List (Fin 12) := monthsFrom 0 (List.range 365)

theorem monthByDay_eq : ∀ day < 365,
    monthByDay[day]? = some (utcMonth ((20819 + day) * 86400)) := by
  decide +kernel

/-- The table has the month of each day of the year. -/
theorem monthByDay_of_in2027 {timestamp : ℕ} (h : In2027 timestamp) :
    monthByDay[timestamp / 86400 - 20819]? = some (utcMonth timestamp) := by
  obtain ⟨hlow, hhigh⟩ := day_of_in2027 h
  rw [monthByDay_eq _ (by omega)]
  have hday : 20819 + (timestamp / 86400 - 20819) = timestamp / 86400 := by omega
  simp only [hday, utcMonth, Nat.mul_div_cancel _ (show 0 < 86400 by decide)]

/-- A timestamp of the year has ten digits. -/
theorem length_encode_of_in2027 {timestamp : ℕ} (h : In2027 timestamp) :
    (Decimal.encode timestamp).length = 10 := by
  obtain ⟨hlow, hhigh⟩ := day_of_in2027 h
  exact Decimal.length_encode (show 0 < 9 by decide) (by omega) (by omega)

/-- The seconds without the last two digits, from the first eight characters. -/
def timestampHundreds (rest : Bytes) : Option UInt32 :=
  if rest.length < 8 then none else some (Swar.eightDigits (Swar.load64 rest))

theorem value_take_encode {timestamp : ℕ} (h : In2027 timestamp) :
    Decimal.value ((Decimal.encode timestamp).take 8) = timestamp / 100 ∧
      Decimal.value ((Decimal.encode timestamp).drop 8) = timestamp % 100 := by
  have hlength := length_encode_of_in2027 h
  have hvalue := Decimal.value_encode timestamp
  rw [← List.take_append_drop 8 (Decimal.encode timestamp), Decimal.value_append,
    List.length_drop, hlength] at hvalue
  have hlt : Decimal.value ((Decimal.encode timestamp).drop 8) < 10 ^ 2 := by
    have hdigits : Decimal.value ((Decimal.encode timestamp).drop 8) <
        10 ^ ((Decimal.encode timestamp).drop 8).length :=
      Decimal.value_lt fun b hb => Decimal.isDigit_of_mem_encode (List.mem_of_mem_drop hb)
    rwa [List.length_drop, hlength] at hdigits
  omega

theorem timestampHundreds_encode {timestamp : ℕ} (h : In2027 timestamp) (tail : Bytes) :
    timestampHundreds (Decimal.encode timestamp ++ tail) =
      some (UInt32.ofNat (timestamp / 100)) := by
  have hlength := length_encode_of_in2027 h
  have htake : ((Decimal.encode timestamp).take 8).length = 8 := by
    rw [List.length_take, hlength]
    rfl
  rw [timestampHundreds, if_neg (by rw [List.length_append, hlength]; omega)]
  conv_lhs => rw [← List.take_append_drop 8 (Decimal.encode timestamp), List.append_assoc]
  rw [Swar.eightDigits_load64 htake fun b hb =>
    Decimal.isDigit_of_mem_encode (List.mem_of_mem_take hb), (value_take_encode h).1]

/-- Day boundaries are multiples of 100 seconds. -/
def monthOfHundreds (rest : Bytes) : Option (Fin 12) := do
  let hundreds ← timestampHundreds rest
  monthByDay[((hundreds - UInt32.ofNat (yearStart / 100)) / 864).toNat]?

theorem monthOfHundreds_encode {timestamp : ℕ} (h : In2027 timestamp) (tail : Bytes) :
    monthOfHundreds (Decimal.encode timestamp ++ tail) = some (utcMonth timestamp) := by
  obtain ⟨hlow, hhigh⟩ := day_of_in2027 h
  have hday : ((UInt32.ofNat (timestamp / 100) - UInt32.ofNat (yearStart / 100)) / 864).toNat =
      timestamp / 86400 - 20819 := by
    have hsub : timestamp / 100 - yearStart / 100 = timestamp / 100 - 20819 * 864 := rfl
    have hdiv : timestamp / 100 / 864 = timestamp / 86400 := Nat.div_div_eq_div_mul _ _ _
    rw [← UInt32.ofNat_sub (show yearStart / 100 ≤ timestamp / 100 by unfold yearStart; omega),
      UInt32.toNat_div, UInt32.toNat_ofNat_of_lt' (show _ < 2 ^ 32 by omega), hsub]
    show (timestamp / 100 - 20819 * 864) / 864 = _
    omega
  simp only [monthOfHundreds, timestampHundreds_encode h, bind, Option.bind, hday,
    monthByDay_of_in2027 h]

end Timestamps

/-- A row that every analyzer reads. -/
structure Row.Valid (r : Row) : Prop where
  in2027 : In2027 r.timestamp
  path_ne : r.path ≠ []
  comma_notMem : comma ∉ r.path
  newline_notMem : newline ∉ r.path

namespace Row.Valid
variable {r : Row}

theorem line_eq (h : r.Valid) : ∃ b tail, r.line = b :: tail ∧ Decimal.isDigit b = true ∧
    11 ≤ tail.length := by
  have hlength := length_encode_of_in2027 h.in2027
  cases hts : Decimal.encode r.timestamp with
  | nil => exact absurd hts (Decimal.encode_ne_nil _)
  | cons b bs =>
    refine ⟨b, _, by rw [Row.line, hts, List.cons_append], ?_, ?_⟩
    · exact Decimal.isDigit_of_mem_encode (hts ▸ List.mem_cons_self)
    · rw [hts, List.length_cons] at hlength
      simp only [List.length_append, List.length_cons]
      omega

theorem line_ne_nil (h : r.Valid) : r.line ≠ [] := by
  obtain ⟨b, tail, hline, -⟩ := h.line_eq
  rw [hline]
  exact List.cons_ne_nil b tail

theorem terminated (h : r.Valid) : Lines.Terminated newline r.line := by
  refine ⟨Decimal.encode r.timestamp ++ comma :: (r.path ++ comma ::
    (Decimal.encode r.messageLength ++ comma :: Decimal.encode r.stampCount)), ?_, ?_⟩
  · simp [Row.line]
  · have hdigit (n : ℕ) : newline ∉ Decimal.encode n := Decimal.notMem_encode (by decide)
    have hcomma : newline ≠ comma := by decide
    simp [hdigit, hcomma, h.newline_notMem]

/-- The row read from the head of a text. -/
theorem readRow_line (h : r.Valid) {monthOf : Bytes → Option (Fin 12)}
    {channelLength : ℕ → Bytes → Option ℕ} {after : ℕ} {tail : Bytes} (hafter : after ≤ tail.length)
    (hmonth : ∀ rest, monthOf (Decimal.encode r.timestamp ++ rest) = some r.month)
    (hchannel : ∀ rest, after ≤ rest.length →
      channelLength after (r.path ++ comma :: rest) = some r.path.length) :
    readRow monthOf channelLength after (r.line ++ tail) =
      some (⟨r.path, r.month, UInt32.ofNat r.messageLength, UInt32.ofNat r.stampCount⟩, tail) := by
  have hlength := length_encode_of_in2027 h.in2027
  have htext : r.line ++ tail = Decimal.encode r.timestamp ++ comma :: (r.path ++ comma ::
      (Decimal.encode r.messageLength ++ comma :: (Decimal.encode r.stampCount ++
        newline :: tail))) := by
    simp [Row.line]
  have hdrop (rest : Bytes) : (Decimal.encode r.timestamp ++ comma :: rest).drop 11 = rest := by
    rw [List.drop_append, hlength, List.drop_eq_nil_of_le (by omega)]
    rfl
  have hfields (rest : Bytes) : (r.path ++ comma :: rest).drop (r.path.length + 1) = rest := by
    rw [List.drop_append, List.drop_eq_nil_of_le (by omega), Nat.add_sub_cancel_left]
    rfl
  have htail : after ≤ (Decimal.encode r.messageLength ++ comma ::
      (Decimal.encode r.stampCount ++ newline :: tail)).length := by
    simp only [List.length_append, List.length_cons]
    omega
  rw [htext]
  simp only [readRow, hmonth, hdrop, hchannel _ htail, hfields, bind, Option.bind,
    readNumber_encode (show Decimal.isDigit comma = false by decide),
    readNumber_encode (show Decimal.isDigit newline = false by decide), List.take_left]

end Row.Valid

/-- The loop over the rows of a chunk: what each row does to the state. -/
theorem scan_rows {μ : Type} {guard : ℕ} (hguard : guard ≤ 10)
    {read : ℕ → Bytes → Option (ParsedRow × Bytes)} {add : μ → ParsedRow → Option μ}
    {parsed : Row → ParsedRow} {P : μ → List Row → Prop} {tail : Bytes} {all : List Row}
    (hvalid : ∀ r ∈ all, r.Valid)
    (hread : ∀ r ∈ all, ∀ rest, tail.length ≤ rest.length →
      read tail.length (r.line ++ rest) = some (parsed r, rest))
    (hadd : ∀ m done r, done ++ [r] <+: all → P m done →
      ∃ m', add m (parsed r) = some m' ∧ P m' (done ++ [r]))
    {m : μ} {done rows : List Row} (h : P m done) (hall : done ++ rows = all) {fuel : ℕ}
    (hfuel : rows.length < fuel) :
    ∃ m', scan guard read add tail.length fuel ((rows.map Row.line).flatten ++ tail) m = some m' ∧
      P m' all := by
  induction rows generalizing m done fuel with
  | nil =>
    obtain ⟨fuel, rfl⟩ : ∃ n, fuel = n + 1 := ⟨fuel - 1, by simp at hfuel; omega⟩
    rw [List.append_nil] at hall
    exact ⟨m, by simp [scan], hall ▸ h⟩
  | cons r rows ih =>
    obtain ⟨fuel, rfl⟩ : ∃ n, fuel = n + 1 := ⟨fuel - 1, by simp at hfuel; omega⟩
    rw [List.append_cons] at hall
    have hr : r ∈ all := by
      rw [← hall]
      exact List.mem_append_left _ List.mem_concat_self
    obtain ⟨b, line, hline, hb, hlen⟩ := (hvalid r hr).line_eq
    have hblank : ¬ (b = newline ∨ b = carriageReturn) := by
      rintro (rfl | rfl) <;> simp [newline, carriageReturn, Decimal.isDigit] at hb
    have hrest : tail.length ≤ ((rows.map Row.line).flatten ++ tail).length := by simp
    obtain ⟨m₁, hm₁, h₁⟩ := hadd m done r ⟨rows, hall⟩ h
    obtain ⟨m', hm', h'⟩ := ih h₁ hall (show rows.length < fuel by simp at hfuel; omega)
    refine ⟨m', ?_, h'⟩
    have hr := hread r hr _ hrest
    rw [List.map_cons, List.flatten_cons, List.append_assoc]
    rw [hline, List.cons_append] at hr ⊢
    rw [scan, if_neg (by simp only [List.length_cons, List.length_append]; omega), if_neg hblank,
      if_neg (by simp only [List.length_cons, List.length_append]; omega)]
    simp only [hr, hm₁, bind, Option.bind]
    exact hm'

section Chunks
variable {μ χ : Type} {T : μ → List Row → Prop}

/-- Every worker has its part. -/
theorem mapM_parts {analyze : χ → Option μ} {chunks : List χ} {parts : List (List Row)}
    {S : χ → List Row → Prop} (h : List.Forall₂ S chunks parts)
    (hanalyze : ∀ chunk part, part ∈ parts → S chunk part →
      ∃ m, analyze chunk = some m ∧ T m part) :
    ∃ locals, chunks.mapM analyze = some locals ∧ List.Forall₂ T locals parts := by
  induction h with
  | nil => exact ⟨[], rfl, .nil⟩
  | @cons chunk part chunks parts hhead _ ih =>
    obtain ⟨m, hm, hT⟩ := hanalyze chunk part List.mem_cons_self hhead
    obtain ⟨locals, hlocals, htail⟩ := ih fun c p hp => hanalyze c p (List.mem_cons_of_mem _ hp)
    refine ⟨m :: locals, ?_, .cons hT htail⟩
    rw [List.mapM_cons, hm, hlocals]
    rfl

/-- The results of the workers joined one after the other. -/
theorem foldlM_parts (merge : μ → μ → Option μ) {all : List Row}
    (hmerge : ∀ m done other part, done ++ part <+: all → T m done → T other part →
      ∃ m', merge m other = some m' ∧ T m' (done ++ part))
    {locals : List μ} {parts : List (List Row)} (h : List.Forall₂ T locals parts) {m : μ}
    {done : List Row} (hm : T m done) (hall : done ++ parts.flatten = all) :
    ∃ m', locals.foldlM merge m = some m' ∧ T m' all := by
  induction h generalizing m done with
  | nil =>
    rw [List.flatten_nil, List.append_nil] at hall
    exact ⟨m, rfl, hall ▸ hm⟩
  | @cons other part locals parts hhead _ ih =>
    rw [List.flatten_cons, ← List.append_assoc] at hall
    obtain ⟨m₁, hm₁, hT⟩ := hmerge m done other part ⟨_, hall⟩ hm hhead
    obtain ⟨m', hm', hT'⟩ := ih hT hall
    refine ⟨m', ?_, hT'⟩
    rw [List.foldlM_cons, hm₁]
    exact hm'

/-- The results of the workers joined to the first one; none without workers. -/
def mergeAll (merge : μ → μ → Option μ) : List μ → Option μ
  | [] => none
  | first :: locals => locals.foldlM merge first

theorem mergeAll_parts (merge : μ → μ → Option μ) {all : List Row}
    (hmerge : ∀ m done other part, done ++ part <+: all → T m done → T other part →
      ∃ m', merge m other = some m' ∧ T m' (done ++ part))
    {locals : List μ} {parts : List (List Row)} (h : List.Forall₂ T locals parts)
    (hne : parts ≠ []) (hall : parts.flatten = all) :
    ∃ m', mergeAll merge locals = some m' ∧ T m' all := by
  cases h with
  | nil => exact absurd rfl hne
  | cons hfirst hrest => exact foldlM_parts merge hmerge hrest hfirst hall

end Chunks

/-- The lines of a part stand in the text of a chunk. -/
def Chunk (text : Bytes) (chunk : ℕ × ℕ) (part : List Row) : Prop :=
  Lines.Segment text chunk (part.map Row.line)

/-- The chunks of a file have all rows. -/
theorem exists_parts {rows : List Row} {chunks : List (ℕ × ℕ)} {groups : List (List Bytes)}
    (hflatten : groups.flatten = rows.map Row.line)
    (h : List.Forall₂ (Lines.Segment (csv rows)) chunks groups) :
    ∃ parts, parts.flatten = rows ∧ List.Forall₂ (Chunk (csv rows)) chunks parts := by
  obtain ⟨parts, hparts, rfl⟩ := Lines.exists_map_groups hflatten
  have hparts' := List.forall₂_map_right_iff.mp h
  exact ⟨parts, hparts, hparts'⟩

/-- The chunks of workers with even parts of a file have all rows. -/
theorem chunksUpTo_parts (keepEmpty : Bool) {rows : List Row} (hvalid : ∀ r ∈ rows, r.Valid)
    (threads : ℕ) : ∃ parts, parts.flatten = rows ∧ List.Forall₂ (Chunk (csv rows))
      (Lines.chunksUpTo keepEmpty (header.length + 1)
        (Lines.evenStops newline (csv rows) (header.length + 1) threads)) parts := by
  have hterminated : ∀ l ∈ rows.map Row.line, Lines.Terminated newline l := by
    intro l hl
    obtain ⟨r, hr, rfl⟩ := List.mem_map.mp hl
    exact (hvalid r hr).terminated
  obtain ⟨groups, hgroups, hsegments⟩ := Lines.exists_groups_evenStops (header ++ [newline])
    keepEmpty hterminated threads
  exact exists_parts hgroups hsegments

/-- The text of a chunk from a path on. -/
theorem take_path_append {path rest : Bytes} {after : ℕ} (hafter : after ≤ rest.length) :
    (path ++ comma :: rest).take ((path ++ comma :: rest).length - after) =
      path ++ comma :: rest.take (rest.length - after) := by
  rw [List.length_append, List.length_cons,
    show path.length + (rest.length + 1) - after = path.length + (rest.length - after + 1) by
      omega, List.take_append]
  simp

/-- The workers' results on their chunks, and all of them merged. -/
theorem mapM_mergeAll {μ : Type} {T : μ → List Row → Prop} {text : Bytes} {rows : List Row}
    {chunks : List (ℕ × ℕ)} {parts : List (List Row)} {analyze : ℕ × ℕ → Option μ}
    {merge : μ → μ → Option μ} (hchunks : List.Forall₂ (Chunk text) chunks parts)
    (hne : chunks ≠ []) (hparts : parts.flatten = rows)
    (hanalyze : ∀ chunk part, part.Sublist rows → Chunk text chunk part →
      ∃ m, analyze chunk = some m ∧ T m part)
    (hmerge : ∀ m done other part, (done ++ part).Sublist rows → T m done → T other part →
      ∃ m', merge m other = some m' ∧ T m' (done ++ part)) :
    ∃ locals m, chunks.mapM analyze = some locals ∧ mergeAll merge locals = some m ∧
      T m rows := by
  obtain ⟨locals, hlocals, hT⟩ := mapM_parts hchunks fun chunk part hpart hchunk =>
    hanalyze chunk part (hparts ▸ List.sublist_flatten_of_mem hpart) hchunk
  have hne' : parts ≠ [] := by
    rintro rfl
    cases hchunks
    exact hne rfl
  obtain ⟨m, hm, htotal⟩ := mergeAll_parts merge
    (fun m done other part hstart h h' => hmerge m done other part hstart.sublist h h')
    hT hne' hparts
  exact ⟨locals, m, hlocals, hm, htotal⟩

theorem length_le_flatten_lines {rows : List Row} (h : ∀ r ∈ rows, r.Valid) :
    rows.length ≤ ((rows.map Row.line).flatten).length := by
  induction rows with
  | nil => exact Nat.zero_le _
  | cons r rows ih =>
    have hpos := List.length_pos_of_ne_nil (h r List.mem_cons_self).line_ne_nil
    have htail := ih fun r' hr' => h r' (List.mem_cons_of_mem _ hr')
    rw [List.map_cons, List.flatten_cons, List.length_append, List.length_cons]
    omega

/-- The loop of a worker over its chunk of a text. -/
theorem scan_chunk {μ : Type} {guard : ℕ} (hguard : guard ≤ 10)
    {read : ℕ → Bytes → Option (ParsedRow × Bytes)} {add : μ → ParsedRow → Option μ}
    (parsed : Row → ParsedRow) {P : μ → List Row → Prop} {text : Bytes} {chunk : ℕ × ℕ}
    {part : List Row} (hchunk : Chunk text chunk part) (hvalid : ∀ r ∈ part, r.Valid)
    (hread : ∀ r ∈ part, ∀ rest, text.length - chunk.2 ≤ rest.length →
      read (text.length - chunk.2) (r.line ++ rest) = some (parsed r, rest))
    (hadd : ∀ m done r, done ++ [r] <+: part → P m done →
      ∃ m', add m (parsed r) = some m' ∧ P m' (done ++ [r])) {m : μ} (h : P m []) :
    ∃ m', scan guard read add (text.length - chunk.2) (text.length + 1) (text.drop chunk.1) m =
      some m' ∧ P m' part := by
  obtain ⟨htext, hle⟩ := hchunk
  have hlength : (text.drop chunk.2).length = text.length - chunk.2 := List.length_drop
  have hfuel : part.length < text.length + 1 := by
    have hlines := length_le_flatten_lines hvalid
    have htotal := congrArg List.length htext
    rw [List.length_append, List.length_drop] at htotal
    omega
  rw [htext, ← hlength]
  rw [← hlength] at hread
  exact scan_rows hguard hvalid hread hadd h (List.nil_append part) hfuel

end OneBrc.Analyzer
