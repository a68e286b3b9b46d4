import OneBrc.Analyzer.BaselineTypeScript
import OneBrc.Lib.Fallible

/-! The optimized analyzer in TypeScript: ranges that are read block by block, and stores whose
array of numbers doubles when it is full. -/
namespace OneBrc.Analyzer.OptimizedTypeScript
open Lib StableSort BaselineTypeScript

/-- `stats` has sixty numbers for each channel, in the order of `keys`. -/
structure Store where
  ids : List (Bytes × ℕ)
  keys : List Bytes
  stats : List (Agg ℚ)
  size : ℕ

def zeros : Agg ℚ := fun _ => Cell.zero

def makeStore : Store := ⟨[], [], List.replicate 1024 zeros, 0⟩

def ensure (s : Store) : Store :=
  if s.size < s.stats.length then s
  else { s with stats := s.stats ++ List.replicate s.stats.length zeros }

/-- The number of a channel, which is new if the channel is. -/
def channelId (s : Store) (channel : Bytes) : ℕ × Store :=
  match GroupBy.lookup channel s.ids with
  | some id => (id, s)
  | none =>
      let id := s.size
      let s := ensure { s with size := s.size + 1 }
      (id, { s with ids := s.ids ++ [(channel, id)], keys := s.keys ++ [channel] })

/-- Changed numbers of a channel. -/
def modify (s : Store) (id : ℕ) (f : Agg ℚ → Agg ℚ) : Option Store := do
  let agg ← s.stats[id]?
  some { s with stats := s.stats.set id (f agg) }

/-- The first ten characters as digits. -/
def timestamp10 (line : Bytes) : Option ℤ :=
  if line.length < 10 then none
  else some ((line.take 10).foldl (fun x b => x * 10 + b.toNat - 48) 0)

def monthAt (round : ℚ → ℚ) (ts : ℤ) : Option (Fin 12) :=
  let day := ⌊round (((ts - yearStart : ℤ) : ℚ) / (86400 : ℕ))⌋
  if day < 0 then none else monthByDay[day.toNat]?

/-- `Number` of a text of digits. -/
def number (round : ℚ → ℚ) (bs : Bytes) : Option ℚ :=
  if bs = [] ∨ ¬ bs.all Decimal.isDigit then none else some (round (Decimal.value bs))

def processLine (round : ℚ → ℚ) (s : Store) (line : Bytes) : Option Store := do
  if line = [] then some s
  else
    let month ← monthAt round (← timestamp10 line)
    let c1 ← Lines.indexFrom comma line 11
    let c2 ← Lines.indexFrom comma line (c1 + 1)
    let channel := (line.drop 11).take (c1 - 11)
    let (id, s) := channelId s channel
    let ml ← number round ((line.drop (c1 + 1)).take (c2 - (c1 + 1)))
    let stamps ← number round (line.drop (c2 + 1))
    modify s id fun agg =>
      Function.update agg month (Cell.push (plus round) ml stamps (agg month))

/-- The loop over the blocks of a range. The last part of a block, which may be the beginning of a
line, is carried over to the next one. -/
def readBlocks (round : ℚ → ℚ) (text : Bytes) (stop : ℕ) :
    ℕ → ℕ → Bytes → Store → Option (Bytes × Store)
  | 0, _, _, _ => none
  | fuel + 1, pos, carry, s =>
      if stop ≤ pos then some (carry, s)
      else
        let n := min (min (8 <<< 20) (stop - pos)) (text.length - pos)
        if n = 0 then some (carry, s)
        else do
          let block := ((text.drop pos).take n).map (· &&& 0x7F)
          let parts := (carry ++ block).splitOn newline
          readBlocks round text stop fuel (pos + n) (parts.getLast?.getD [])
            (← parts.dropLast.foldlM (processLine round) s)

/-- The keys and the numbers that a worker sends. -/
def analyzeRange (round : ℚ → ℚ) (text : Bytes) (range : ℕ × ℕ) :
    Option (List Bytes × List (Agg ℚ)) := do
  let (carry, s) ← readBlocks round text range.2 (text.length + 1) range.1 [] makeStore
  let s ← if carry = [] then some s else processLine round s carry
  some (s.keys, s.stats.take s.size)

def mergeResult (round : ℚ → ℚ) (all : Store) (result : List Bytes × List (Agg ℚ)) :
    Option Store :=
  result.1.zipIdx.foldlM (fun all entry => do
    let src ← result.2[entry.2]?
    let (id, all) := channelId all entry.1
    modify all id fun dst => joinAgg (plus round) dst src) all

/-- The two decimals of a number given by its bits. -/
def formatFixed2 (bits : ℕ) : Bytes :=
  let eb := bits >>> 52 &&& 0x7FF
  let fraction := bits &&& (1 <<< 52) - 1
  let (mantissa, exponent) : ℕ × ℤ :=
    if eb = 0 then (fraction, -1074) else (1 <<< 52 ||| fraction, eb - 1075)
  let scaled := mantissa * 100
  let cents :=
    if exponent ≥ 0 then scaled <<< exponent.toNat
    else
      let denominator := 1 <<< (-exponent).toNat
      let cents := scaled / denominator
      let remainder := scaled % denominator
      let twice := remainder * 2
      if twice > denominator ∨ twice = denominator ∧ cents % 2 = 1 then cents + 1 else cents
  let digits := Decimal.encode (cents % 100)
  Decimal.encode (cents / 100) ++ 46 :: (List.replicate (2 - digits.length) 48 ++ digits)

/-- The text of a mean; `bits` gives the representation of a number. -/
def printMean (round : ℚ → ℚ) (bits : ℚ → ℕ) (total count : ℚ) : Bytes :=
  formatFixed2 (bits (round (total / count)))

/-- The lines of the channels in the order of their keys. -/
def writeResult (print : ℚ → Bytes) (mean : ℚ → ℚ → Bytes) (all : Store) :
    Option (List Bytes) := do
  let key (id : ℕ) := all.keys[id]?.getD []
  let order := sliceStable (fun a b => ByteOrder.less (key a) (key b)) (List.range all.size)
  let lines ← order.mapM fun id => do
    some (aggLines print mean (← all.keys[id]?) (← all.stats[id]?))
  some lines.flatten

/-- The end of the line at `pos`, found block by block. What a block does not fill of the buffer
`b` stays in it, and is searched too. -/
def findNewline (text : Bytes) (stop : ℕ) : ℕ → Bytes → ℕ → Option ℕ
  | 0, _, _ => none
  | fuel + 1, b, pos =>
      if stop ≤ pos then some stop
      else
        let n := min (min b.length (stop - pos)) (text.length - pos)
        let b := (text.drop pos).take n ++ b.drop n
        match b.findIdx? (· = newline) with
        | some i => some (pos + i + 1)
        | none => if n = 0 then some stop else findNewline text stop fuel b (pos + n)

/-- A buffer of one MiB with what the memory happens to hold. -/
def allocUnsafe (memory : ℕ → UInt8) : Bytes := (List.range (1 <<< 20)).map memory

/-- Where the search for the end of the range `i` begins. -/
def target (round : ℚ → ℚ) (size start threads i : ℕ) : ℕ :=
  start + ⌊round (round (((size - start) * (i + 1) : ℕ) : ℚ) / threads)⌋.toNat

/-- The ranges of the workers; `memory i` is what the buffer of the search `i` holds at first. -/
def ranges (round : ℚ → ℚ) (memory : ℕ → ℕ → UInt8) (text : Bytes) (threads : ℕ) :
    Option (List (ℕ × ℕ)) := do
  let size := text.length
  let start := (header ++ [newline]).length
  let stops ← (List.range threads).mapM fun i =>
    if i + 1 = threads then some size
    else findNewline text size (size + 1) (allocUnsafe (memory i))
      (target round size start threads i)
  some (Lines.chunksUpTo true start stops)

/-- The lines of the output; none after an error. -/
def run (round : ℚ → ℚ) (bits : ℚ → ℕ) (memory : ℕ → ℕ → UInt8) (text : Bytes) (threads : ℕ) :
    Option (List Bytes) := do
  if threads < 1 ∨ (header ++ [newline]).isPrefixOf text = false then none
  else
    let results ← (← ranges round memory text threads).mapM (analyzeRange round text)
    let merged ← results.foldlM (mergeResult round) makeStore
    writeResult printNumber (printMean round bits) merged

theorem formatFixed2_eq (bits : ℕ) : formatFixed2 bits = Analyzer.formatFixed2 bits := by
  have hexponent (n : ℤ) : n - 1023 - 52 = n - 1075 := by omega
  have hleast : (-1022 - 52 : ℤ) = -1074 := by decide
  have hpad : ∀ n < 100, List.replicate (2 - (Decimal.encode n).length) 48 ++ Decimal.encode n =
      Decimal.encode (n / 10) ++ Decimal.encode (n % 10) := by decide +kernel
  have hmod (cents : ℕ) : cents % 100 % 10 = cents % 10 :=
    Nat.mod_mod_of_dvd cents (by decide)
  simp only [formatFixed2, Analyzer.formatFixed2, hexponent, hleast,
    hpad _ (Nat.mod_lt _ (by decide)), hmod, List.append_assoc, List.cons_append]

theorem printMean_eq (round : ℚ → ℚ) (bits : ℚ → ℕ) :
    printMean round bits = BaselineTypeScript.printMean round bits := by
  funext total count
  exact formatFixed2_eq _

section Stores
variable {s : Store} {m : ChannelMap ℚ}

/-- The store has the channels of a map, and room for another one. -/
structure Represents (s : Store) (m : ChannelMap ℚ) : Prop where
  keys : s.keys = m.map Prod.fst
  ids : s.ids = s.keys.zipIdx
  size : s.size = m.length
  stats : ∃ k, s.stats = m.map Prod.snd ++ List.replicate (k + 1) zeros

theorem represents_makeStore : Represents makeStore [] :=
  ⟨rfl, rfl, rfl, 1023, rfl⟩

theorem modify_of_append {id : ℕ} {before after : List (Agg ℚ)} {agg : Agg ℚ}
    (hstats : s.stats = before ++ agg :: after) (hid : id = before.length)
    (f : Agg ℚ → Agg ℚ) :
    modify s id f = some { s with stats := before ++ f agg :: after } := by
  have hget : s.stats[id]? = some agg := by
    rw [hstats, hid]
    simp
  have hset : s.stats.set id (f agg) = before ++ f agg :: after := by
    rw [hstats, hid]
    simp
  simp only [modify, hget, bind, Option.bind, hset]

/-- The array grows before its last place is taken. -/
theorem Represents.ensure (h : Represents s m) :
    ∃ k, ensure { s with size := s.size + 1 } = { s with
      size := s.size + 1
      stats := m.map Prod.snd ++ zeros :: List.replicate (k + 1) zeros } := by
  obtain ⟨k, hstats⟩ := h.stats
  have hlength : s.stats.length = m.length + (k + 1) := by
    rw [hstats, List.length_append, List.length_map, List.length_replicate]
  rw [OptimizedTypeScript.ensure]
  dsimp only
  split
  · next hroom =>
    rw [h.size, hlength] at hroom
    obtain ⟨k, rfl⟩ : ∃ k', k = k' + 1 := ⟨k - 1, by omega⟩
    exact ⟨k, by rw [hstats]; rfl⟩
  · next hfull =>
    rw [h.size, hlength] at hfull
    obtain rfl : k = 0 := by omega
    refine ⟨m.length, ?_⟩
    rw [hlength, hstats, List.append_assoc]
    rfl

/-- The numbers of a channel changed, which are zeros if the channel is new. -/
theorem Represents.modify (h : Represents s m) (channel : Bytes) (f : Agg ℚ → Agg ℚ) :
    ∃ s', modify (channelId s channel).2 (channelId s channel).1 f = some s' ∧
      Represents s' (GroupBy.upsert channel (fun agg => f (agg.getD zeros)) m) := by
  cases hlookup : GroupBy.lookup channel s.ids with
  | some id =>
    obtain ⟨k, hstats⟩ := h.stats
    rw [h.ids, h.keys] at hlookup
    obtain ⟨before, agg, after, rfl, hid, hupsert⟩ := GroupBy.upsert_of_lookup_zipIdx hlookup
      (fun agg => f (agg.getD zeros))
    rw [← h.keys, ← h.ids] at hlookup
    simp only [channelId, hlookup]
    rw [List.map_append, List.map_cons, List.append_assoc, List.cons_append] at hstats
    refine ⟨_, modify_of_append hstats (by rw [hid, List.length_map, Nat.zero_add]) f, ?_⟩
    rw [hupsert]
    exact ⟨by rw [h.keys]; simp, h.ids, by rw [h.size]; simp, k, by simp⟩
  | none =>
    obtain ⟨k, hensure⟩ := h.ensure
    have hnew : channel ∉ m.map Prod.fst := by
      rw [← h.keys]
      intro hmem
      have hkeys : channel ∈ s.ids.map Prod.fst := by rwa [h.ids, List.zipIdx_map_fst]
      exact GroupBy.lookup_eq_none_iff.mp hlookup hkeys
    have hsize : s.size = s.keys.length := by rw [h.size, h.keys, List.length_map]
    simp only [channelId, hlookup, hensure]
    refine ⟨_, modify_of_append rfl (by rw [h.size, List.length_map]) f, ?_⟩
    rw [GroupBy.upsert_of_notMem _ hnew]
    refine ⟨by simp [h.keys], ?_, by simp [h.size], k, by simp⟩
    dsimp only
    rw [h.ids, hsize, List.zipIdx_append, Nat.zero_add]
    rfl

end Stores

section Lines
variable {round : ℚ → ℚ} {rows : List Row} {r : Row} {s : Store}

theorem foldl_digits {bs : Bytes} (h : ∀ b ∈ bs, Decimal.isDigit b = true) (n : ℕ) :
    bs.foldl (fun (x : ℤ) b => x * 10 + b.toNat - 48) n =
      ((bs.foldl (fun n b => n * 10 + Decimal.digit b) n : ℕ) : ℤ) := by
  induction bs generalizing n with
  | nil => rfl
  | cons b bs ih =>
    obtain ⟨hb, hbs⟩ := List.forall_mem_cons.mp h
    have hle := (Decimal.isDigit_iff.mp hb).1
    have hstep : (n : ℤ) * 10 + b.toNat - 48 = ((n * 10 + Decimal.digit b : ℕ) : ℤ) := by
      rw [Decimal.digit_eq hb]
      omega
    rw [List.foldl_cons, List.foldl_cons, hstep, ih hbs]

theorem text_eq (r : Row) : r.text = Decimal.encode r.timestamp ++ comma :: (r.path ++
    comma :: (Decimal.encode r.messageLength ++ comma :: Decimal.encode r.stampCount)) := by
  simp [Row.text, Row.fields, List.intercalate]

theorem timestamp10_text (h : r.Valid) : timestamp10 r.text = some (r.timestamp : ℤ) := by
  have hlength := length_encode_of_in2027 h.in2027
  have hten : ¬ r.text.length < 10 := by
    rw [text_eq, List.length_append, hlength]
    omega
  have htake : r.text.take 10 = Decimal.encode r.timestamp := by
    rw [text_eq, ← hlength, List.take_left]
  rw [timestamp10, if_neg hten, htake]
  have hfold := foldl_digits
    (fun b hb => Decimal.isDigit_of_mem_encode (n := r.timestamp) hb) 0
  rw [Nat.cast_zero] at hfold
  rw [hfold]
  exact congrArg (fun n : ℕ => some (n : ℤ)) (Decimal.value_encode r.timestamp)

theorem monthAt_of_day (h : Binary64.Rounds round) {ts : ℤ} {n : ℕ} {month : Fin 12}
    (hts : ts - yearStart = n) (hn : n < 2 ^ 53) (hmonth : monthByDay[n / 86400]? = some month) :
    monthAt round ts = some month := by
  have hfloor := h.floor_div hn (show 0 < 86400 by decide) (by decide)
  unfold monthAt
  rw [hts, Int.cast_natCast, hfloor]
  dsimp only
  rw [if_neg (not_lt.mpr (Int.natCast_nonneg _)), Int.toNat_natCast, hmonth]

theorem monthAt_of_in2027 (h : Binary64.Rounds round) {timestamp : ℕ} (h2027 : In2027 timestamp) :
    monthAt round timestamp = some (utcMonth timestamp) := by
  have hmonth := monthByDay_of_in2027 h2027
  obtain ⟨hlow, hhigh⟩ := day_of_in2027 h2027
  have hsmall : timestamp - yearStart < 2 ^ 53 := by omega
  have hsub : ((timestamp : ℤ) - yearStart) = ((timestamp - yearStart : ℕ) : ℤ) := by
    unfold yearStart
    omega
  have hday : (timestamp - yearStart) / 86400 = timestamp / 86400 - 20819 := by
    unfold yearStart
    omega
  rw [← hday] at hmonth
  exact monthAt_of_day h hsub hsmall hmonth

theorem number_encode (h : Binary64.Rounds round) {n : ℕ} (hn : n ≤ 2 ^ 53) :
    number round (Decimal.encode n) = some (n : ℚ) := by
  have hdigits : (Decimal.encode n).all Decimal.isDigit = true :=
    List.all_eq_true.mpr fun b hb => Decimal.isDigit_of_mem_encode hb
  rw [number, if_neg, Decimal.value_encode, h.exact n hn]
  rintro (hnil | hnot)
  · exact Decimal.encode_ne_nil n hnil
  · exact hnot hdigits

/-- The line of a row changes the numbers of its channel. -/
theorem processLine_text (hround : Binary64.Rounds round) (h : IsPlain rows) (hr : r ∈ rows)
    (s : Store) : processLine round s r.text =
      modify (channelId s r.path).2 (channelId s r.path).1 fun agg =>
        Function.update agg r.month
          (Cell.push (plus round) (r.messageLength : ℚ) r.stampCount (agg r.month)) := by
  have hvalid := h.valid r hr
  obtain ⟨-, hlength, hstamps⟩ := h.number_le hr
  have hten := length_encode_of_in2027 hvalid.in2027
  have hdrop : r.text.drop 11 = r.path ++ comma ::
      (Decimal.encode r.messageLength ++ comma :: Decimal.encode r.stampCount) := by
    rw [text_eq, List.drop_append, hten, List.drop_eq_nil_of_le (by omega)]
    rfl
  have hdrop₁ : r.text.drop (11 + r.path.length + 1) =
      Decimal.encode r.messageLength ++ comma :: Decimal.encode r.stampCount := by
    rw [Nat.add_assoc, ← List.drop_drop, hdrop, List.drop_append, List.drop_eq_nil_of_le (by omega),
      Nat.add_sub_cancel_left]
    rfl
  have hdrop₂ : r.text.drop (11 + r.path.length + 1 + (Decimal.encode r.messageLength).length + 1) =
      Decimal.encode r.stampCount := by
    rw [Nat.add_assoc, ← List.drop_drop, hdrop₁, List.drop_append,
      List.drop_eq_nil_of_le (by omega), Nat.add_sub_cancel_left]
    rfl
  have hc1 := Lines.indexFrom_of_drop hdrop hvalid.comma_notMem
  have hc2 := Lines.indexFrom_of_drop hdrop₁
    (Decimal.notMem_encode (n := r.messageLength) (b := comma) (by decide))
  have hchannel : (r.text.drop 11).take (11 + r.path.length - 11) = r.path := by
    rw [hdrop, Nat.add_sub_cancel_left, List.take_left]
  have hml : (r.text.drop (11 + r.path.length + 1)).take
      (11 + r.path.length + 1 + (Decimal.encode r.messageLength).length -
        (11 + r.path.length + 1)) = Decimal.encode r.messageLength := by
    rw [hdrop₁, Nat.add_sub_cancel_left, List.take_left]
  rw [processLine, if_neg (text_ne_nil r)]
  simp only [timestamp10_text hvalid, monthAt_of_in2027 hround hvalid.in2027, hc1, hc2, hchannel,
    hml, hdrop₂, number_encode hround hlength, number_encode hround hstamps, bind, Option.bind]
  rfl

/-- The store has the numbers of the rows so far. -/
def Counted (s : Store) (done : List Row) : Prop :=
  ∃ m, Represents s m ∧ GroupBy.Groups Row.path aggOf m done

theorem foldlM_processLine (hround : Binary64.Rounds round) (h : IsPlain rows)
    {done part : List Row} (hpart : (done ++ part).Sublist rows) (hs : Counted s done) :
    ∃ s', (part.map Row.text).foldlM (processLine round) s = some s' ∧
      Counted s' (done ++ part) := by
  induction part generalizing s done with
  | nil => exact ⟨s, rfl, by rwa [List.append_nil]⟩
  | cons r part ih =>
    obtain ⟨m, hm, hgroups⟩ := hs
    have hr : r ∈ rows := hpart.subset (List.mem_append_right _ List.mem_cons_self)
    obtain ⟨s₁, hs₁, hm₁⟩ := hm.modify r.path fun agg =>
      Function.update agg r.month
        (Cell.push (plus round) (r.messageLength : ℚ) r.stampCount (agg r.month))
    rw [List.append_cons] at hpart ⊢
    have hsums : Sums (· ≤ 2 ^ 53) (group (done ++ [r]) r.path r.month) :=
      (h.sums r.path r.month).of_sublist (adds hround)
        (((List.sublist_append_left _ _).trans hpart).filter _)
    obtain ⟨s', hs', hcounted⟩ := ih hpart
      ⟨_, hm₁, addRow_groups (adds hround) hgroups hsums⟩
    refine ⟨s', ?_, hcounted⟩
    rw [List.map_cons, List.foldlM_cons, processLine_text hround h hr, hs₁]
    exact hs'

end Lines

section Blocks
variable {round : ℚ → ℚ} {text : Bytes} {stop : ℕ}

theorem map_and_of_ascii {bs : Bytes} (h : ∀ b ∈ bs, b < 128) : bs.map (· &&& 0x7F) = bs := by
  have hbyte : ∀ n < 128, UInt8.ofNat n &&& 0x7F = UInt8.ofNat n := by decide +kernel
  refine (List.map_congr_left fun b hb => ?_).trans (List.map_id bs)
  have hb' := hbyte b.toNat (UInt8.lt_iff_toNat_lt.mp (h b hb))
  rwa [UInt8.ofNat_toNat] at hb'

variable (round) in
/-- The lines of a range do not depend on the blocks. -/
theorem readBlocks_eq (hstop : stop ≤ text.length) (hascii : ∀ b ∈ text, b < 128) {fuel pos : ℕ}
    (hfuel : stop - pos < fuel) {carry : Bytes} (hcarry : newline ∉ carry) :
    ∃ front last, (carry ++ (text.drop pos).take (stop - pos)).splitOn newline =
        front ++ [last] ∧
      ∀ s, readBlocks round text stop fuel pos carry s =
        (front.foldlM (processLine round) s).map fun s => (last, s) := by
  induction fuel generalizing pos carry with
  | zero => omega
  | succ fuel ih =>
    by_cases hpos : stop ≤ pos
    · refine ⟨[], carry, ?_, fun s => by rw [readBlocks, if_pos hpos]; rfl⟩
      rw [Nat.sub_eq_zero_of_le hpos, List.take_zero, List.append_nil]
      exact List.splitOn_eq_singleton hcarry
    · obtain ⟨n, hn⟩ : ∃ n, n = min (min (8 <<< 20) (stop - pos)) (text.length - pos) := ⟨_, rfl⟩
      have hnpos : n ≠ 0 := by omega
      have hmask : ((text.drop pos).take n).map (· &&& 0x7F) = (text.drop pos).take n :=
        map_and_of_ascii fun b hb => hascii b (List.mem_of_mem_drop (List.mem_of_mem_take hb))
      have hrest : (text.drop pos).take (stop - pos) =
          (text.drop pos).take n ++ (text.drop (pos + n)).take (stop - (pos + n)) := by
        rw [← List.drop_drop, show stop - pos = n + (stop - (pos + n)) by omega, List.take_add]
      obtain ⟨front, carry', hcarry', hblock, hall⟩ := Lines.exists_splitOn_append newline
        (carry ++ (text.drop pos).take n) ((text.drop (pos + n)).take (stop - (pos + n)))
      obtain ⟨front', last, hsplit, hrun⟩ := ih (show stop - (pos + n) < fuel by omega) hcarry'
      refine ⟨front ++ front', last, ?_, ?_⟩
      · rw [hrest, ← List.append_assoc, hall, hsplit, List.append_assoc]
      · intro s
        simp only [readBlocks, if_neg hpos, ← hn, if_neg hnpos, hmask, hblock,
          List.dropLast_concat, List.getLast?_concat, Option.getD_some, hrun, List.foldlM_append]
        cases front.foldlM (processLine round) s <;> rfl

end Blocks

section Ranges
variable {round : ℚ → ℚ} {rows : List Row}

/-- The keys and the numbers are those of the rows of a part. -/
def Sent (result : List Bytes × List (Agg ℚ)) (part : List Row) : Prop :=
  ∃ m : ChannelMap ℚ, result = (m.map Prod.fst, m.map Prod.snd) ∧
    GroupBy.Groups Row.path aggOf m part

/-- What a worker sends of its part. -/
theorem analyzeRange_sent (hround : Binary64.Rounds round) (h : IsPlain rows) {text : Bytes}
    (hascii : ∀ b ∈ text, b < 128) {range : ℕ × ℕ} {part : List Row} (hpart : part.Sublist rows)
    (hchunk : Chunk text range part) :
    ∃ result, analyzeRange round text range = some result ∧ Sent result part := by
  obtain ⟨htext, hle⟩ := hchunk
  have hlength := congrArg List.length htext
  rw [List.length_append, List.length_drop, List.length_drop] at hlength
  have htake : (text.drop range.1).take (range.2 - range.1) = (part.map Row.line).flatten := by
    rw [htext]
    by_cases hstart : range.1 ≤ text.length
    · rw [show range.2 - range.1 = (part.map Row.line).flatten.length by omega, List.take_left]
    · rw [show range.2 - range.1 = 0 by omega, List.take_zero, eq_comm, ← List.length_eq_zero_iff]
      omega
  have hbodies : ∀ body ∈ part.map Row.text, newline ∉ body := by
    intro body hbody
    obtain ⟨r, hr, rfl⟩ := List.mem_map.mp hbody
    exact notMem_text (by decide) (by decide) (h.valid r (hpart.subset hr)).newline_notMem
  have hsplit : ((part.map Row.line).flatten).splitOn newline = part.map Row.text ++ [[]] := by
    rw [← Lines.splitOn_flatten hbodies, List.map_map]
    congr 3
    funext r
    exact Row.line_eq_text r
  obtain ⟨front, last, hfront, hrun⟩ := readBlocks_eq round hle hascii
    (show range.2 - range.1 < text.length + 1 by omega) (List.not_mem_nil (a := newline))
  rw [List.nil_append, htake, hsplit] at hfront
  obtain ⟨rfl, hlast⟩ := List.append_inj' hfront rfl
  obtain rfl := List.singleton_inj.mp hlast
  have hall : ([] ++ part).Sublist rows := hpart
  obtain ⟨s, hs, m, hm, hgroups⟩ := foldlM_processLine hround h hall
    ⟨[], represents_makeStore, GroupBy.Groups.nil⟩
  obtain ⟨k, hstats⟩ := hm.stats
  have hsent : s.stats.take s.size = m.map Prod.snd := by
    rw [hstats, hm.size, ← List.length_map (f := Prod.snd), List.take_left]
  refine ⟨_, ?_, m, rfl, hgroups⟩
  simp only [analyzeRange, hrun, hs, Option.map_some, bind, Option.bind, if_true, hm.keys, hsent]

theorem joinAgg_zeros (g : List Row) : joinAgg (plus round) zeros (aggOf g) = aggOf g := by
  funext month
  exact Cell.join_zero _ _

variable (round) in
/-- The numbers of a worker in the merged store. -/
theorem mergeResult_represents {all : Store} {m m' : ChannelMap ℚ} {part : List Row}
    (hall : Represents all m) (hm' : GroupBy.Groups Row.path aggOf m' part) :
    ∃ all', mergeResult round all (m'.map Prod.fst, m'.map Prod.snd) = some all' ∧
      Represents all' (GroupBy.merge (joinAgg (plus round)) m m') := by
  have haggs : ∀ e ∈ m', joinAgg (plus round) zeros e.2 = e.2 := by
    intro e he
    rw [((hm'.mem e.1 e.2).mp he).2, joinAgg_zeros]
  -- the places of the keys are those of their numbers
  have hloop (before entries : ChannelMap ℚ) (hsplit : m' = before ++ entries) {all : Store}
      {m : ChannelMap ℚ} (hall : Represents all m) :
      ∃ all', (((entries.map Prod.fst).zipIdx before.length).foldlM (fun all entry => do
        let src ← (m'.map Prod.snd)[entry.2]?
        let (id, all) := channelId all entry.1
        modify all id fun dst => joinAgg (plus round) dst src) all) = some all' ∧
        Represents all' (GroupBy.merge (joinAgg (plus round)) m entries) := by
    induction entries generalizing before all m with
    | nil => exact ⟨all, rfl, hall⟩
    | cons e entries ih =>
      have hsrc : (m'.map Prod.snd)[before.length]? = some e.2 := by
        rw [hsplit]
        simp
      obtain ⟨all₁, hrun₁, hall₁⟩ := hall.modify e.1 fun dst => joinAgg (plus round) dst e.2
      have hsame : (fun agg : Option (Agg ℚ) => joinAgg (plus round) (agg.getD zeros) e.2) =
          fun agg => agg.elim e.2 fun dst => joinAgg (plus round) dst e.2 := by
        funext agg
        cases agg with
        | none => exact haggs e (hsplit ▸ List.mem_append_right _ List.mem_cons_self)
        | some dst => rfl
      rw [hsame] at hall₁
      obtain ⟨all', hrun, hall'⟩ := ih (before ++ [e]) (by rw [hsplit]; simp) hall₁
      refine ⟨all', ?_, hall'⟩
      rw [List.map_cons, List.zipIdx_cons, List.foldlM_cons, hsrc]
      rw [List.length_append] at hrun
      simp only [bind, Option.bind] at hrun ⊢
      rw [hrun₁]
      exact hrun
  exact hloop [] m' rfl hall

variable (round) in
theorem foldlM_mergeResult {ms : List (ChannelMap ℚ)} {parts : List (List Row)}
    (hms : List.Forall₂ (GroupBy.Groups Row.path aggOf) ms parts) {all : Store}
    {m : ChannelMap ℚ} (hall : Represents all m) :
    ∃ all', (ms.map fun m => (m.map Prod.fst, m.map Prod.snd)).foldlM (mergeResult round) all =
        some all' ∧
      Represents all' (ms.foldl (GroupBy.merge (joinAgg (plus round))) m) := by
  induction hms generalizing all m with
  | nil => exact ⟨all, rfl, hall⟩
  | @cons m' part ms parts hpart _ ih =>
    obtain ⟨all₁, hrun₁, hall₁⟩ := mergeResult_represents round hall hpart
    obtain ⟨all', hrun, hall'⟩ := ih hall₁
    refine ⟨all', ?_, hall'⟩
    rw [List.map_cons, List.foldlM_cons, hrun₁]
    exact hrun

/-- The lines of a store are those of its channels. -/
theorem writeResult_eq {all : Store} {m : ChannelMap ℚ} (hall : Represents all m)
    (hn : (m.map Prod.fst).Nodup) (print : ℚ → Bytes) (mean : ℚ → ℚ → Bytes) :
    writeResult print mean all = writeAggs print mean m := by
  obtain ⟨k, hstats⟩ := hall.stats
  have hkeys : (List.range all.size).map (fun id => all.keys[id]?.getD []) = m.map Prod.fst := by
    apply List.ext_getElem
    · rw [List.length_map, List.length_range, hall.size, List.length_map]
    · intro i _ hi
      rw [List.getElem_map, List.getElem_range, hall.keys, List.getElem?_eq_getElem hi]
      rfl
  have hlines : ∀ id ∈ sliceStable (fun a b => ByteOrder.less (all.keys[a]?.getD [])
      (all.keys[b]?.getD [])) (List.range all.size),
      (do some (aggLines print mean (← all.keys[id]?) (← all.stats[id]?))) =
        (GroupBy.lookup (all.keys[id]?.getD []) m).map
          (aggLines print mean (all.keys[id]?.getD [])) := by
    intro id hid
    have hlt : id < m.length := by
      rw [← hall.size]
      exact List.mem_range.mp (mem_sliceStable.mp hid)
    have hkey : all.keys[id]? = some m[id].1 := by
      rw [hall.keys, List.getElem?_map, List.getElem?_eq_getElem hlt]
      rfl
    have hagg : all.stats[id]? = some m[id].2 := by
      rw [hstats, List.getElem?_append_left (by rwa [List.length_map]), List.getElem?_map,
        List.getElem?_eq_getElem hlt]
      rfl
    have hlookup : GroupBy.lookup m[id].1 m = some m[id].2 :=
      GroupBy.lookup_of_mem hn (List.getElem_mem hlt)
    simp only [hkey, hagg, Option.getD_some, bind, Option.bind]
    rw [hlookup, Option.map_some]
  rw [writeAggs, ← hkeys, sliceStable_map, List.mapM_map, writeResult]
  dsimp only
  rw [Fallible.mapM_congr hlines]
  rfl

/-- The buffer may hold more than what is read, but the text ends with LF. -/
theorem findNewline_eq {text : Bytes} (hlast : text.getLast? = some newline) {fuel pos : ℕ}
    (hfuel : text.length - pos < fuel) {b : Bytes} (hb : b ≠ []) :
    findNewline text text.length fuel b pos = some (Lines.nextCut newline text pos) := by
  induction fuel generalizing pos b with
  | zero => omega
  | succ fuel ih =>
    have hbpos := List.length_pos_of_ne_nil hb
    rw [findNewline]
    by_cases hpos : text.length ≤ pos
    · rw [if_pos hpos, Lines.nextCut, Lines.indexFrom, List.drop_eq_nil_of_le hpos]
      rfl
    rw [if_neg hpos]
    obtain ⟨n, hn⟩ : ∃ n, n = min (min b.length (text.length - pos)) (text.length - pos) :=
      ⟨_, rfl⟩
    simp only [← hn]
    cases hfind : ((text.drop pos).take n).findIdx? (fun c => decide (c = newline)) with
    | some i =>
      have hindex : Lines.indexFrom newline text pos = some (pos + i) := by
        rw [Lines.indexFrom, ← List.take_append_drop n (text.drop pos), List.findIdx?_append, hfind]
        rfl
      rw [List.findIdx?_append, hfind, Lines.nextCut, hindex]
      rfl
    | none =>
      have hread : newline ∉ (text.drop pos).take n := by
        intro hmem
        have hfalse := List.findIdx?_eq_none_iff.mp hfind newline hmem
        simp at hfalse
      have hfull : n = b.length := by
        by_contra hne
        have hall : (text.drop pos).take n = text.drop pos := by
          apply List.take_of_length_le
          rw [List.length_drop]
          omega
        rw [hall] at hread
        apply hread
        apply List.mem_of_getLast?
        rw [List.getLast?_drop, if_neg hpos, hlast]
      have hempty : b.drop n = [] := List.drop_eq_nil_of_le hfull.ge
      have hlength : ((text.drop pos).take n).length = n := by
        rw [List.length_take, List.length_drop]
        omega
      rw [hempty, List.append_nil, hfind]
      simp only [if_neg (show n ≠ 0 by omega)]
      rw [ih (by omega) (List.ne_nil_of_length_pos (by omega)), Lines.nextCut_add hread]

theorem getLast?_csv (rows : List Row) : (csv rows).getLast? = some newline := by
  rcases List.eq_nil_or_concat rows with rfl | ⟨init, r, rfl⟩
  · decide
  · have hcsv : csv (init.concat r) =
        (header ++ [newline] ++ (init.map Row.line).flatten ++ r.text) ++ [newline] := by
      rw [csv, List.concat_eq_append, List.map_append, List.flatten_append, List.map_singleton,
        List.flatten_singleton, Row.line_eq_text]
      simp only [List.append_assoc]
    rw [hcsv, List.getLast?_concat]

/-- The ranges end with lines. -/
theorem ranges_csv (round : ℚ → ℚ) (memory : ℕ → ℕ → UInt8) (rows : List Row) {threads : ℕ}
    (hthreads : 1 ≤ threads) : ranges round memory (csv rows) threads =
      some (Lines.chunksUpTo true (header ++ [newline]).length
        (((List.range (threads - 1)).map (target round (csv rows).length
          (header ++ [newline]).length threads)).map (Lines.nextCut newline (csv rows)) ++
            [(csv rows).length])) := by
  have hbuffer (i : ℕ) : allocUnsafe (memory i) ≠ [] := by
    apply List.ne_nil_of_length_pos
    rw [allocUnsafe, List.length_map, List.length_range]
    decide
  have hstop (i : ℕ) : findNewline (csv rows) (csv rows).length ((csv rows).length + 1)
      (allocUnsafe (memory i)) (target round (csv rows).length (header ++ [newline]).length
        threads i) = some (Lines.nextCut newline (csv rows) (target round (csv rows).length
          (header ++ [newline]).length threads i)) :=
    findNewline_eq (getLast?_csv rows) (by omega) (hbuffer i)
  obtain ⟨last, rfl⟩ : ∃ last, threads = last + 1 := ⟨threads - 1, by omega⟩
  have hstops : (List.range (last + 1)).mapM (fun i =>
      if i + 1 = last + 1 then some (csv rows).length
      else findNewline (csv rows) (csv rows).length ((csv rows).length + 1)
        (allocUnsafe (memory i)) (target round (csv rows).length (header ++ [newline]).length
          (last + 1) i)) =
      some ((List.range (last + 1)).map fun i => if i + 1 = last + 1 then (csv rows).length
        else Lines.nextCut newline (csv rows) (target round (csv rows).length
          (header ++ [newline]).length (last + 1) i)) := by
    apply Fallible.mapM_eq_pure
    intro i _
    rw [hstop]
    split <;> rfl
  have hinner : ∀ i ∈ List.range last, (if i + 1 = last + 1 then (csv rows).length
      else Lines.nextCut newline (csv rows) (target round (csv rows).length
        (header ++ [newline]).length (last + 1) i)) = Lines.nextCut newline (csv rows)
          (target round (csv rows).length (header ++ [newline]).length (last + 1) i) := by
    intro i hi
    have hlt := List.mem_range.mp hi
    exact if_neg (by omega)
  simp only [ranges]
  rw [hstops, List.range_succ, List.map_append, List.map_congr_left hinner, List.map_singleton,
    if_pos rfl, List.map_map]
  rfl

theorem target_mono (hround : Binary64.Rounds round) (size start threads : ℕ) {i j : ℕ}
    (h : i ≤ j) : target round size start threads i ≤ target round size start threads j := by
  have hproduct : (((size - start) * (i + 1) : ℕ) : ℚ) ≤ ((size - start) * (j + 1) : ℕ) :=
    Nat.cast_le.mpr (Nat.mul_le_mul_left _ (Nat.succ_le_succ h))
  have hquotient : round (((size - start) * (i + 1) : ℕ) : ℚ) / threads ≤
      round (((size - start) * (j + 1) : ℕ) : ℚ) / threads :=
    div_le_div_of_nonneg_right (hround.mono hproduct) (Nat.cast_nonneg _)
  exact Nat.add_le_add_left (Int.toNat_le_toNat (Int.floor_mono (hround.mono hquotient))) _

/-- The ranges have all rows. -/
theorem exists_ranges (hround : Binary64.Rounds round) (h : ∀ r ∈ rows, r.Valid)
    (memory : ℕ → ℕ → UInt8) {threads : ℕ} (hthreads : 1 ≤ threads) :
    ∃ chunks parts, ranges round memory (csv rows) threads = some chunks ∧
      parts.flatten = rows ∧ List.Forall₂ (Chunk (csv rows)) chunks parts := by
  have hterminated : ∀ l ∈ rows.map Row.line, Lines.Terminated newline l := by
    intro l hl
    obtain ⟨r, hr, rfl⟩ := List.mem_map.mp hl
    exact (h r hr).terminated
  have hlow : ∀ t ∈ (List.range (threads - 1)).map (target round (csv rows).length
      (header ++ [newline]).length threads), (header ++ [newline]).length ≤ t := by
    intro t ht
    obtain ⟨i, -, rfl⟩ := List.mem_map.mp ht
    exact Nat.le_add_right _ _
  have hsorted : ((List.range (threads - 1)).map (target round (csv rows).length
      (header ++ [newline]).length threads)).Pairwise (· ≤ ·) := by
    rw [List.pairwise_map]
    exact List.pairwise_lt_range.imp fun hij => target_mono hround _ _ _ hij.le
  obtain ⟨groups, hgroups, hsegments⟩ := Lines.exists_groups_targets (header ++ [newline]) true
    hterminated hlow hsorted
  obtain ⟨parts, hparts, hchunks⟩ := exists_parts hgroups hsegments
  exact ⟨_, parts, ranges_csv round memory rows hthreads, hparts, hchunks⟩

theorem ascii_csv (h : IsPlain rows) : ∀ b ∈ csv rows, b < 128 := by
  intro b hb
  rw [csv, List.mem_append] at hb
  rcases hb with hb | hb
  · have hheader : ∀ b ∈ header ++ [newline], b < 128 := by decide +kernel
    exact hheader b hb
  · obtain ⟨line, hline, hb⟩ := List.mem_flatten.mp hb
    obtain ⟨r, hr, rfl⟩ := List.mem_map.mp hline
    rw [Row.line_eq_text, List.mem_append, List.mem_singleton] at hb
    rcases hb with hb | rfl
    · exact ascii_text (fun b hb => (h.byte r hr b hb).1) b hb
    · decide

theorem exists_maps {results : List (List Bytes × List (Agg ℚ))} {parts : List (List Row)}
    (h : List.Forall₂ Sent results parts) : ∃ ms : List (ChannelMap ℚ),
      results = ms.map (fun m => (m.map Prod.fst, m.map Prod.snd)) ∧
      List.Forall₂ (GroupBy.Groups Row.path aggOf) ms parts := by
  induction h with
  | nil => exact ⟨[], rfl, .nil⟩
  | cons hsent _ ih =>
    obtain ⟨m, rfl, hm⟩ := hsent
    obtain ⟨ms, rfl, hms⟩ := ih
    exact ⟨m :: ms, rfl, .cons hm hms⟩

/-- The output has the lines of all groups. -/
theorem run_csv (hround : Binary64.Rounds round) (bits : ℚ → ℕ) (memory : ℕ → ℕ → UInt8)
    (h : IsPlain rows) {threads : ℕ} (hthreads : 1 ≤ threads) :
    ∃ lines, run round bits memory (csv rows) threads = some lines ∧
      IsReport (groupLine printNumber (BaselineTypeScript.printMean round bits)) rows lines := by
  obtain ⟨chunks, parts, hranges, hparts, hchunks⟩ := exists_ranges hround h.valid memory hthreads
  obtain ⟨ms, hresults, hgroups⟩ : ∃ ms : List (ChannelMap ℚ),
      chunks.mapM (analyzeRange round (csv rows)) =
        some (ms.map fun m => (m.map Prod.fst, m.map Prod.snd)) ∧
      List.Forall₂ (GroupBy.Groups Row.path aggOf) ms parts := by
    obtain ⟨results, hresults, hsent⟩ := mapM_parts hchunks fun range part hpart hchunk =>
      analyzeRange_sent hround h (ascii_csv h) (hparts ▸ List.sublist_flatten_of_mem hpart) hchunk
    obtain ⟨ms, rfl, hgroups⟩ := exists_maps hsent
    exact ⟨ms, hresults, hgroups⟩
  have hheader : ¬ (threads < 1 ∨ (header ++ [newline]).isPrefixOf (csv rows) = false) := by
    rintro (hlt | hfalse)
    · omega
    · have hstart : (header ++ [newline]).isPrefixOf (csv rows) = true :=
        List.isPrefixOf_iff_prefix.mpr (List.prefix_append _ _)
      rw [hstart] at hfalse
      cases hfalse
  obtain ⟨merged, hmerged, hrepresents⟩ := foldlM_mergeResult round hgroups
    represents_makeStore
  have hall := foldl_merge_groups (adds hround) hgroups GroupBy.Groups.nil
    (by rw [List.nil_append, hparts]; exact h.sums)
  rw [List.nil_append, hparts] at hall
  obtain ⟨lines, hwrite, hreport⟩ := isReport_writeAggs printNumber
    (BaselineTypeScript.printMean round bits) hall fun r hr => (h.valid r hr).comma_notMem
  refine ⟨lines, ?_, hreport⟩
  simp only [run, if_neg hheader, hranges, hresults, hmerged, printMean_eq,
    writeResult_eq hrepresents hall.nodup, bind, Option.bind]
  exact hwrite

/-- The ranges have all rows, and the output has the lines of the baseline. -/
theorem run_perm_baselineTypeScript (hround : Binary64.Rounds round) (bits : ℚ → ℕ)
    (memory : ℕ → ℕ → UInt8) (h : IsPlain rows) (hcr : ∀ r ∈ rows, carriageReturn ∉ r.path)
    {threads : ℕ} (hthreads : 1 ≤ threads) :
    (∃ chunks parts, ranges round memory (csv rows) threads = some chunks ∧
      parts.flatten = rows ∧ List.Forall₂ (Chunk (csv rows)) chunks parts) ∧
    ∃ lines lines', run round bits memory (csv rows) threads = some lines ∧
      output round bits (csv rows) = some lines' ∧ lines.Perm lines' := by
  obtain ⟨lines, hrun, hreport⟩ := run_csv hround bits memory h hthreads
  obtain ⟨lines', hbaseline, hreport'⟩ := output_csv hround bits h hcr
  exact ⟨exists_ranges hround h.valid memory hthreads,
    lines, lines', hrun, hbaseline, hreport.perm hreport'⟩

/-- Two posts of a channel in a month. -/
def plainRows : List Row := [⟨1798761600, [97], 5, 2⟩, ⟨1798761700, [97], 7, 0⟩]

/-- The bits of six, the mean of `plainRows`. -/
def bitsOfSix (_ : ℚ) : ℕ := 0x4018000000000000

theorem isPlain_plainRows : IsPlain plainRows :=
  isPlain_of_short (by decide) (by decide) (by decide +kernel)

theorem run_perm_plainRows :
    (∃ chunks parts, ranges id (fun _ _ => newline) (csv plainRows) 2 = some chunks ∧
      parts.flatten = plainRows ∧ List.Forall₂ (Chunk (csv plainRows)) chunks parts) ∧
    ∃ lines lines', run id bitsOfSix (fun _ _ => newline) (csv plainRows) 2 = some lines ∧
      output id bitsOfSix (csv plainRows) = some lines' ∧ lines.Perm lines' :=
  run_perm_baselineTypeScript Binary64.rounds_id bitsOfSix _ isPlain_plainRows (by decide)
    (by decide)

/-- A post in a channel with a CR. -/
def splitRow : List Row := [⟨1798761600, [97, 13, 98], 5, 2⟩]

/-- The baseline reads the row as two lines, and fails. -/
theorem splitRow_not_perm : IsPlain splitRow ∧ output id bitsOfSix (csv splitRow) = none ∧
    ¬ ∃ lines lines', run id bitsOfSix (fun _ _ => newline) (csv splitRow) 1 = some lines ∧
      output id bitsOfSix (csv splitRow) = some lines' ∧ lines.Perm lines' := by
  have hnone : output id bitsOfSix (csv splitRow) = none := by decide +kernel
  refine ⟨isPlain_of_short (by decide) (by decide) (by decide +kernel), hnone, ?_⟩
  rintro ⟨lines, lines', -, hlines', -⟩
  rw [hnone] at hlines'
  cases hlines'

end Ranges

end OneBrc.Analyzer.OptimizedTypeScript
