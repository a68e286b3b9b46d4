import OneBrc.Analyzer.Scan

/-! What the Zig program reads of its mapping: the loads of `analyzeWorker`, and how far they go. -/
namespace OneBrc.Analyzer.ZigReads
open Lib

/-- A load by its address and its width. -/
abbrev Load := ℕ × ℕ

/-- The loads of `hashBytes` for a key of `n` bytes. -/
def hashBytes (key n : ℕ) : List Load :=
  if n ≥ 24 then [(key, 8), (key + n / 2 - 4, 8), (key + n - 8, 8)]
  else if n ≥ 8 then [(key, 8), (key + n - 8, 8)]
  else [(key, 8)]

/-- The loop of `commaOffset` over single bytes, and where it ends. -/
def commaBytes (data : Bytes) (stop i : ℕ) : List Load × ℕ :=
  if i < stop then
    if data[i]? = some comma then ([(i, 1)], i)
    else ((i, 1) :: (commaBytes data stop (i + 1)).1, (commaBytes data stop (i + 1)).2)
  else ([], i)
termination_by stop - i

/-- `commaOffset` -/
def commaOffset (data : Bytes) (stop i : ℕ) : List Load × ℕ :=
  if i + 16 ≤ stop then
    match ((data.drop i).take 16).findIdx? fun b => decide (b = comma) with
    | some offset => ([(i, 16)], i + offset)
    | none =>
        ((i, 16) :: (commaOffset data stop (i + 16)).1, (commaOffset data stop (i + 16)).2)
  else commaBytes data stop i
termination_by stop - i

/-- The loop over the digits up to a mark, from `i` on; `none` is a loop that leaves the file. -/
def digits (mark : UInt8) : Bytes → ℕ → Option (List Load × ℕ)
  | [], _ => none
  | b :: bs, i =>
      if b = mark then some ([(i, 1)], i)
      else do
        let (loads, q) ← digits mark bs (i + 1)
        some ((i, 1) :: loads, q)

/-- A number up to a mark; its first digit is taken without a test. -/
def number (data : Bytes) (mark : UInt8) (i : ℕ) : Option (List Load × ℕ) := do
  let (loads, q) ← digits mark (data.drop (i + 1)) (i + 1)
  some ((i, 1) :: loads, q)

/-- The rest of the loop's body, and where the next row begins. -/
def readRow (data : Bytes) (stop p : ℕ) : Option (List Load × ℕ) := do
  let key := p + 11
  let (commas, p₁) := commaOffset data stop key
  let (ml, p₂) ← number data comma (p₁ + 1)
  let (stamps, p₃) ← number data newline (p₂ + 1)
  some ((p, 8) :: (commas ++ hashBytes key (p₁ - key) ++ ml ++ stamps), p₃ + 1)

/-- The loop; `none` also where the fuel does not suffice. -/
def analyzeWorker (data : Bytes) (stop : ℕ) : ℕ → ℕ → Option (List Load)
  | 0, p => if p < stop then none else some []
  | fuel + 1, p =>
      if p < stop then
        if data[p]? = some newline ∨ data[p]? = some carriageReturn then do
          let loads ← analyzeWorker data stop fuel (p + 1)
          some ((p, 1) :: loads)
        else do
          let (row, q) ← readRow data stop p
          let loads ← analyzeWorker data stop fuel q
          some ((p, 1) :: (row ++ loads))
      else some []

/-- The chunks of the threads, of which each ends with a row. The products are natural numbers here.
One that does not fit a `usize` would give a smaller target, which lies in the file too, so that
other workers would read some rows, or read them twice; the last row, behind which alone the loads
may end, is read in any case. -/
def chunks (data : Bytes) (threads : ℕ) : List (ℕ × ℕ) :=
  Lines.chunksUpTo true (header ++ [newline]).length
    (Lines.evenStops newline data (header ++ [newline]).length threads)

/-- The loads of all workers. -/
def loads (data : Bytes) (threads : ℕ) : Option (List Load) := do
  let workers ← (chunks data threads).mapM fun chunk =>
    analyzeWorker data chunk.2 (chunk.2 - chunk.1) chunk.1
  some workers.flatten

/-- The file size rounded up to a multiple of the page. -/
def mappedSize (size : ℕ) : ℕ := (size + 4095) / 4096 * 4096

def Below (limit : ℕ) (loads : List Load) : Prop := ∀ l ∈ loads, l.1 + l.2 ≤ limit

section Key
variable {data : Bytes} {stop i n : ℕ}

theorem commaBytes_eq (hlt : i + n < stop) (hn : ∀ j < n, data[i + j]? ≠ some comma)
    (hcomma : data[i + n]? = some comma) :
    (commaBytes data stop i).2 = i + n ∧ Below stop (commaBytes data stop i).1 := by
  induction n generalizing i with
  | zero =>
    rw [Nat.add_zero] at hlt hcomma
    rw [commaBytes, if_pos hlt, if_pos hcomma]
    refine ⟨rfl, ?_⟩
    intro l hl
    obtain rfl := List.mem_singleton.mp hl
    dsimp only
    omega
  | succ n ih =>
    have hnot := hn 0 (Nat.succ_pos n)
    rw [Nat.add_zero] at hnot
    have hnext (j : ℕ) : i + 1 + j = i + (j + 1) := by omega
    obtain ⟨hend, hbelow⟩ := ih (i := i + 1) (by omega)
      (fun j hj => by rw [hnext]; exact hn (j + 1) (Nat.succ_lt_succ hj))
      (by rw [hnext]; exact hcomma)
    rw [commaBytes, if_pos (by omega), if_neg hnot]
    refine ⟨by dsimp only; omega, ?_⟩
    intro l hl
    rcases List.mem_cons.mp hl with rfl | hl
    · dsimp only
      omega
    · exact hbelow l hl

theorem findIdx?_block (hn : ∀ j < n, data[i + j]? ≠ some comma)
    (hcomma : data[i + n]? = some comma) :
    ((data.drop i).take 16).findIdx? (fun b => decide (b = comma)) =
      if n < 16 then some n else none := by
  have hget (j : ℕ) : (data.drop i)[j]? = data[i + j]? := List.getElem?_drop
  have hlength : n < (data.drop i).length :=
    (List.getElem?_eq_some_iff.mp ((hget n).trans hcomma)).1
  split
  · next hlt =>
    rw [List.findIdx?_eq_some_iff_getElem]
    refine ⟨by rw [List.length_take]; omega, ?_, ?_⟩
    · have hat := (List.getElem?_eq_some_iff.mp ((hget n).trans hcomma)).2
      simpa using hat
    · intro j hj
      have hne := hn j hj
      rw [← hget j, List.getElem?_eq_getElem (by omega)] at hne
      simpa using hne
  · next hlt =>
    rw [List.findIdx?_eq_none_iff]
    intro b hb
    obtain ⟨j, hj, rfl⟩ := List.mem_iff_getElem.mp hb
    rw [List.length_take] at hj
    have hne := hn j (by omega)
    rw [← hget j, List.getElem?_eq_getElem (by omega)] at hne
    simpa using hne

theorem commaOffset_eq (hlt : i + n < stop)
    (hn : ∀ j < n, data[i + j]? ≠ some comma) (hcomma : data[i + n]? = some comma) :
    (commaOffset data stop i).2 = i + n ∧ Below stop (commaOffset data stop i).1 := by
  induction n using Nat.strong_induction_on generalizing i with
  | h n ih =>
    rw [commaOffset]
    by_cases hblock : i + 16 ≤ stop
    · rw [if_pos hblock, findIdx?_block hn hcomma]
      by_cases hsmall : n < 16
      · rw [if_pos hsmall]
        refine ⟨rfl, ?_⟩
        intro l hl
        obtain rfl := List.mem_singleton.mp hl
        exact hblock
      · rw [if_neg hsmall]
        have hnext (j : ℕ) : i + 16 + j = i + (16 + j) := Nat.add_assoc _ _ _
        obtain ⟨hend, hbelow⟩ := ih (n - 16) (by omega) (i := i + 16) (by omega)
          (fun j hj => by rw [hnext]; exact hn (16 + j) (by omega))
          (by rw [hnext, Nat.add_sub_cancel' (Nat.le_of_not_lt hsmall)]; exact hcomma)
        refine ⟨by dsimp only; omega, ?_⟩
        intro l hl
        rcases List.mem_cons.mp hl with rfl | hl
        · exact hblock
        · exact hbelow l hl
    · rw [if_neg hblock]
      exact commaBytes_eq hlt hn hcomma

end Key

section Rows
variable {data rest ds : Bytes} {stop p i : ℕ} {mark : UInt8} {r : Row}

theorem digits_eq (hds : mark ∉ ds) (rest : Bytes) (i : ℕ) :
    ∃ loads, digits mark (ds ++ mark :: rest) i = some (loads, i + ds.length) ∧
      Below (i + ds.length + 1) loads := by
  induction ds generalizing i with
  | nil =>
    refine ⟨[(i, 1)], by simp [digits], ?_⟩
    intro l hl
    obtain rfl := List.mem_singleton.mp hl
    exact Nat.le_refl _
  | cons d ds ih =>
    rw [List.mem_cons, not_or] at hds
    obtain ⟨loads, hloads, hbelow⟩ := ih hds.2 (i + 1)
    refine ⟨(i, 1) :: loads, ?_, ?_⟩
    · rw [List.cons_append, digits, if_neg (Ne.symm hds.1), hloads, List.length_cons,
        Nat.add_assoc, Nat.add_comm 1]
      rfl
    · intro l hl
      rw [List.length_cons]
      rcases List.mem_cons.mp hl with rfl | hl
      · dsimp only
        omega
      · have hle := hbelow l hl
        omega

/-- A number and the mark after it. -/
theorem number_eq (n : ℕ) (hmark : Decimal.isDigit mark = false)
    (hdata : data.drop i = Decimal.encode n ++ mark :: rest) :
    ∃ loads, number data mark i = some (loads, i + (Decimal.encode n).length) ∧
      Below (i + (Decimal.encode n).length + 1) loads := by
  obtain ⟨d, ds, hencode⟩ := List.exists_cons_of_ne_nil (Decimal.encode_ne_nil n)
  have hds : mark ∉ ds := by
    intro hmem
    have hdigit := Decimal.isDigit_of_mem_encode (n := n)
      (hencode ▸ List.mem_cons_of_mem _ hmem)
    rw [hmark] at hdigit
    exact absurd hdigit (by decide)
  have hdrop : data.drop (i + 1) = ds ++ mark :: rest := by
    rw [← List.drop_drop, hdata, hencode]
    rfl
  obtain ⟨loads, hloads, hbelow⟩ := digits_eq hds rest (i + 1)
  refine ⟨(i, 1) :: loads, ?_, ?_⟩
  · rw [number, hdrop, hloads, hencode, List.length_cons, Nat.add_assoc, Nat.add_comm 1]
    rfl
  · intro l hl
    rw [hencode, List.length_cons]
    rcases List.mem_cons.mp hl with rfl | hl
    · dsimp only
      omega
    · have hle := hbelow l hl
      omega

theorem below_append {limit : ℕ} {xs ys : List Load} :
    Below limit (xs ++ ys) ↔ Below limit xs ∧ Below limit ys := by
  simp only [Below, List.mem_append, or_imp, forall_and]

theorem Below.mono {limit limit' : ℕ} {xs : List Load} (h : Below limit xs) (hle : limit ≤ limit') :
    Below limit' xs := fun l hl => (h l hl).trans hle

/-- Only the load of a short key goes beyond the key. -/
theorem below_hashBytes {key n limit : ℕ} (hkey : key + n ≤ limit) :
    Below limit (hashBytes key n) ↔ 8 ≤ n ∨ key + 8 ≤ limit := by
  unfold hashBytes
  split_ifs with hlong hmiddle
  · refine iff_of_true ?_ (.inl (by omega))
    simp only [Below, List.forall_mem_cons, List.not_mem_nil, false_implies, implies_true, and_true]
    omega
  · refine iff_of_true ?_ (.inl hmiddle)
    simp only [Below, List.forall_mem_cons, List.not_mem_nil, false_implies, implies_true, and_true]
    omega
  · simp only [Below, List.forall_mem_cons, List.not_mem_nil, false_implies, implies_true, and_true]
    omega

theorem length_line (h : r.Valid) : r.line.length = r.path.length +
    (Decimal.encode r.messageLength).length + (Decimal.encode r.stampCount).length + 14 := by
  have hlength := length_encode_of_in2027 h.in2027
  rw [Row.line]
  simp only [List.length_append, List.length_cons, List.length_nil, hlength]
  omega

/-- What a row reads: within the chunk, but for the key's first eight bytes. -/
theorem readRow_eq (h : r.Valid) {tail : Bytes} (hdata : data.drop p = r.line ++ tail)
    (hstop : p + r.line.length ≤ stop) :
    ∃ loads, readRow data stop p = some (loads, p + r.line.length) ∧ ∀ limit, stop ≤ limit →
      (Below limit loads ↔ 8 ≤ r.path.length ∨ p + 19 ≤ limit) := by
  have hlength := length_encode_of_in2027 h.in2027
  have hline := length_line h
  have htext : data.drop p = Decimal.encode r.timestamp ++ ([comma] ++ (r.path ++ ([comma] ++
      (Decimal.encode r.messageLength ++ comma :: (Decimal.encode r.stampCount ++
        newline :: tail))))) := by
    rw [hdata]
    simp [Row.line]
  have hskip {i : ℕ} {front back : Bytes} (hi : data.drop i = front ++ back) :
      data.drop (i + front.length) = back := by
    rw [← List.drop_drop, hi, List.drop_left]
  have hkey : data.drop (p + 11) = r.path ++ ([comma] ++ (Decimal.encode r.messageLength ++
      comma :: (Decimal.encode r.stampCount ++ newline :: tail))) := by
    have hnext := hskip (hskip htext)
    rwa [hlength] at hnext
  have hafter : data.drop (p + 11 + r.path.length + 1) = Decimal.encode r.messageLength ++
      comma :: (Decimal.encode r.stampCount ++ newline :: tail) := hskip (hskip hkey)
  have hget (j : ℕ) : data[p + 11 + j]? = (r.path ++ ([comma] ++ (Decimal.encode r.messageLength ++
      comma :: (Decimal.encode r.stampCount ++ newline :: tail))))[j]? := by
    rw [← hkey, List.getElem?_drop]
  obtain ⟨hend, hcommas⟩ : (commaOffset data stop (p + 11)).2 = p + 11 + r.path.length ∧
      Below stop (commaOffset data stop (p + 11)).1 := by
    apply commaOffset_eq (by omega)
    · intro j hj hcomma
      rw [hget, List.getElem?_append_left hj] at hcomma
      exact h.comma_notMem (List.mem_of_getElem? hcomma)
    · rw [hget, List.getElem?_append_right (Nat.le_refl _), Nat.sub_self]
      rfl
  obtain ⟨ml, hml, hmlBelow⟩ :=
    number_eq r.messageLength (by decide : Decimal.isDigit comma = false) hafter
  have hcomma : data.drop (p + 11 + r.path.length + 1 + (Decimal.encode r.messageLength).length) =
      [comma] ++ (Decimal.encode r.stampCount ++ newline :: tail) := hskip hafter
  have hstamps : data.drop (p + 11 + r.path.length + 1 +
      (Decimal.encode r.messageLength).length + 1) = Decimal.encode r.stampCount ++
        newline :: tail := hskip hcomma
  obtain ⟨st, hst, hstBelow⟩ :=
    number_eq r.stampCount (by decide : Decimal.isDigit newline = false) hstamps
  have hn : p + 11 + r.path.length - (p + 11) = r.path.length := Nat.add_sub_cancel_left _ _
  refine ⟨(p, 8) :: ((commaOffset data stop (p + 11)).1 ++ hashBytes (p + 11) r.path.length ++
    ml ++ st), ?_, ?_⟩
  · simp only [readRow, hend, hml, hst, hn, bind, Option.bind, Option.some.injEq, Prod.mk.injEq,
      true_and]
    omega
  · intro limit hlimit
    have hfirst : Below limit [(p, 8)] := by
      intro l hl
      obtain rfl := List.mem_singleton.mp hl
      dsimp only
      omega
    rw [← List.singleton_append, below_append, below_append, below_append, below_append,
      below_hashBytes (by omega)]
    have hmlLimit : Below limit ml := hmlBelow.mono (by omega)
    have hstLimit : Below limit st := hstBelow.mono (by omega)
    have hcommasLimit := hcommas.mono hlimit
    simp only [hfirst, hcommasLimit, hmlLimit, hstLimit, true_and, and_true]

/-- Every short key is followed by eight bytes of the mapping. -/
def Fits (limit : ℕ) : ℕ → List Row → Prop
  | _, [] => True
  | p, r :: rows => (8 ≤ r.path.length ∨ p + 19 ≤ limit) ∧ Fits limit (p + r.line.length) rows

theorem analyzeWorker_eq {part : List Row} (hvalid : ∀ r ∈ part, r.Valid) {tail : Bytes} {fuel : ℕ}
    (hdata : data.drop p = (part.map Row.line).flatten ++ tail)
    (hstop : p + (part.map Row.line).flatten.length = stop) (hfuel : stop - p ≤ fuel) :
    ∃ loads, analyzeWorker data stop fuel p = some loads ∧ ∀ limit, stop ≤ limit →
      (Below limit loads ↔ Fits limit p part) := by
  induction part generalizing p fuel with
  | nil =>
    have hnot : ¬p < stop := by
      rw [← hstop]
      exact Nat.lt_irrefl p
    refine ⟨[], ?_, fun limit _ => iff_of_true (fun l hl => absurd hl List.not_mem_nil) trivial⟩
    cases fuel <;> rw [analyzeWorker, if_neg hnot]
  | cons r part ih =>
    obtain ⟨hr, hpart⟩ := List.forall_mem_cons.mp hvalid
    have hline := length_line hr
    rw [List.map_cons, List.flatten_cons, List.append_assoc] at hdata
    rw [List.map_cons, List.flatten_cons, List.length_append] at hstop
    have hin : p + r.line.length ≤ stop := by omega
    obtain ⟨row, hrow, hrowBelow⟩ := readRow_eq hr hdata hin
    have hnext : data.drop (p + r.line.length) = (part.map Row.line).flatten ++ tail := by
      rw [← List.drop_drop, hdata, List.drop_left]
    obtain ⟨fuel, rfl⟩ : ∃ n, fuel = n + 1 := ⟨fuel - 1, by omega⟩
    have henough : stop - (p + r.line.length) ≤ fuel := by omega
    obtain ⟨loads, hloads, hbelow⟩ := ih hpart hnext (by omega) henough
    have hbyte : ¬(data[p]? = some newline ∨ data[p]? = some carriageReturn) := by
      obtain ⟨b, bs, heq, hdigit, -⟩ := hr.line_eq
      have hget : data[p]? = some b := by
        have hhead : (data.drop p)[0]? = some b := by rw [hdata, heq]; rfl
        rwa [List.getElem?_drop] at hhead
      rw [hget]
      rintro (hb | hb) <;> obtain rfl := Option.some.inj hb <;> exact absurd hdigit (by decide)
    refine ⟨(p, 1) :: (row ++ loads), ?_, ?_⟩
    · rw [analyzeWorker, if_pos (by omega), if_neg hbyte, hrow]
      simp only [bind, Option.bind, hloads]
    · intro limit hlimit
      have hfirst : Below limit [(p, 1)] := by
        intro l hl
        obtain rfl := List.mem_singleton.mp hl
        dsimp only
        omega
      rw [← List.singleton_append, below_append, below_append, hrowBelow limit hlimit,
        hbelow limit hlimit, Fits]
      simp only [hfirst, true_and]

theorem fits_append {limit : ℕ} (part rows : List Row) (p : ℕ) : Fits limit p (part ++ rows) ↔
    Fits limit p part ∧ Fits limit (p + (part.map Row.line).flatten.length) rows := by
  induction part generalizing p with
  | nil => simp [Fits]
  | cons r part ih =>
    rw [List.cons_append, Fits, Fits, ih, and_assoc, List.map_cons, List.flatten_cons,
      List.length_append, Nat.add_assoc]

/-- The workers of adjacent chunks, of which the last ends with the file. -/
theorem workers_eq {stops : List ℕ} {parts : List (List Row)} (start : ℕ)
    (hstart : start ≤ data.length) (hvalid : ∀ r ∈ parts.flatten, r.Valid)
    (hparts : List.Forall₂ (Chunk data) ((start :: stops).zip stops) parts)
    (hlast : (start :: stops).getLast (List.cons_ne_nil _ _) = data.length) :
    data.drop start = (parts.flatten.map Row.line).flatten ∧
      ∃ workers, (((start :: stops).zip stops).mapM fun chunk =>
          analyzeWorker data chunk.2 (chunk.2 - chunk.1) chunk.1) = some workers ∧
        ∀ limit, data.length ≤ limit →
          (Below limit workers.flatten ↔ Fits limit start parts.flatten) := by
  induction stops generalizing start parts with
  | nil =>
    cases hparts
    have hend : start = data.length := hlast
    refine ⟨?_, [], rfl, fun limit _ =>
      iff_of_true (fun l hl => absurd hl List.not_mem_nil) trivial⟩
    rw [hend, List.drop_length]
    rfl
  | cons stop stops ih =>
    rw [List.zip_cons_cons] at hparts ⊢
    obtain ⟨part, rest, hchunk, hrest, rfl⟩ := List.forall₂_cons_left_iff.mp hparts
    rw [List.flatten_cons] at hvalid
    obtain ⟨hsegment, hstop⟩ := hchunk
    dsimp only at hsegment hstop
    obtain ⟨htail, workers, hworkers, hbelow⟩ := ih stop hstop
      (fun r hr => hvalid r (List.mem_append_right _ hr)) hrest
      (by rwa [List.getLast_cons (List.cons_ne_nil _ _)] at hlast)
    have hlength : start + (part.map Row.line).flatten.length = stop := by
      have hlengths := congrArg List.length hsegment
      rw [List.length_append, List.length_drop, List.length_drop] at hlengths
      omega
    obtain ⟨loads, hloads, hloadsBelow⟩ := analyzeWorker_eq
      (fun r hr => hvalid r (List.mem_append_left _ hr)) hsegment hlength (Nat.le_refl _)
    refine ⟨?_, loads :: workers, ?_, ?_⟩
    · rw [hsegment, htail, List.flatten_cons, List.map_append, List.flatten_append]
    · simp only [List.mapM_cons, hloads, hworkers]
      rfl
    · intro limit hlimit
      rw [List.flatten_cons, below_append, hloadsBelow limit (hstop.trans hlimit),
        hbelow limit hlimit, List.flatten_cons, fits_append, hlength]

/-- Only the last key can be too short. -/
theorem fits_iff {limit : ℕ} {rows : List Row} (hvalid : ∀ r ∈ rows, r.Valid)
    (hend : p + (rows.map Row.line).flatten.length ≤ limit) : Fits limit p rows ↔
      ∀ r, rows.getLast? = some r → p + (rows.map Row.line).flatten.length + 5 ≤ limit +
        r.path.length + (Decimal.encode r.messageLength).length +
          (Decimal.encode r.stampCount).length := by
  induction rows generalizing p with
  | nil => simp [Fits]
  | cons r rows ih =>
    obtain ⟨hr, hrows⟩ := List.forall_mem_cons.mp hvalid
    have hline := length_line hr
    have hml := List.length_pos_iff.mpr (Decimal.encode_ne_nil r.messageLength)
    have hst := List.length_pos_iff.mpr (Decimal.encode_ne_nil r.stampCount)
    rw [List.map_cons, List.flatten_cons, List.length_append] at hend ⊢
    rw [Fits, ih hrows (by omega)]
    cases rows with
    | nil =>
      simp only [List.getLast?_nil, List.getLast?_singleton, Option.some.injEq, List.map_nil,
        List.flatten_nil, List.length_nil, forall_eq', reduceCtorEq, false_implies, implies_true,
        and_true]
      omega
    | cons r' rows =>
      have hline' := length_line (hrows r' List.mem_cons_self)
      have hfirst : 8 ≤ r.path.length ∨ p + 19 ≤ limit := by
        rw [List.map_cons, List.flatten_cons, List.length_append] at hend
        exact .inr (by omega)
      rw [List.getLast?_cons_cons]
      simp only [hfirst, true_and, Nat.add_assoc]

end Rows
section Files
variable {rows : List Row} {r : Row}

/-- A row of an input. -/
structure IsInput (r : Row) : Prop where
  in2027 : In2027 r.timestamp
  path : IsChannelPath r.path
  length_pos : 1 ≤ r.messageLength
  length_le : r.messageLength ≤ 65535

theorem IsInput.valid (h : IsInput r) : r.Valid where
  in2027 := h.in2027
  path_ne := h.path.ne_nil
  comma_notMem hmem := (h.path.byte _ hmem).2.1 rfl
  newline_notMem hmem := (h.path.byte _ hmem).2.2 rfl

theorem le_mappedSize (size : ℕ) : size ≤ mappedSize size := by
  unfold mappedSize
  omega

/-- All workers end, and it is the rows that say how far they read. -/
theorem loads_eq (hvalid : ∀ r ∈ rows, r.Valid) (threads : ℕ) :
    ∃ ls, loads (csv rows) threads = some ls ∧ ∀ limit, (csv rows).length ≤ limit →
      (Below limit ls ↔ ∀ r, rows.getLast? = some r →
        (csv rows).length + 5 ≤ limit + r.path.length +
          (Decimal.encode r.messageLength).length + (Decimal.encode r.stampCount).length) := by
  obtain ⟨parts, hparts, hchunks⟩ := chunksUpTo_parts true hvalid threads
  subst hparts
  rw [Lines.chunksUpTo_true] at hchunks
  have hlength : (csv parts.flatten).length =
      header.length + 1 + (parts.flatten.map Row.line).flatten.length := by
    rw [csv, List.length_append, List.length_append]
    rfl
  have hlast : ((header.length + 1) :: Lines.evenStops newline (csv parts.flatten)
      (header.length + 1) threads).getLast (List.cons_ne_nil _ _) = (csv parts.flatten).length := by
    simp [Lines.evenStops]
  obtain ⟨-, workers, hworkers, hbelow⟩ := workers_eq (header.length + 1) (by omega) hvalid hchunks
    hlast
  have hstart : (header ++ [newline]).length = header.length + 1 := List.length_append
  refine ⟨workers.flatten, ?_, ?_⟩
  · rw [loads, chunks, hstart, Lines.chunksUpTo_true, hworkers]
    rfl
  · intro limit hlimit
    rw [hbelow limit hlimit, fits_iff hvalid (by rwa [← hlength]), ← hlength]

/-- The loads stay in the pages of the file exactly where enough follows the last key. -/
theorem loads_below_iff (hrows : ∀ r ∈ rows, IsInput r) (threads : ℕ) :
    ∃ ls, loads (csv rows) threads = some ls ∧
      (Below (mappedSize (csv rows).length) ls ↔ ∀ r, rows.getLast? = some r →
        (csv rows).length + 5 ≤ mappedSize (csv rows).length + r.path.length +
          (Decimal.encode r.messageLength).length + (Decimal.encode r.stampCount).length) := by
  obtain ⟨ls, hls, hbelow⟩ := loads_eq (fun r hr => (hrows r hr).valid) threads
  exact ⟨ls, hls, hbelow _ (le_mappedSize _)⟩

def rowOf (n : ℕ) : Row := ⟨1798761600, List.replicate n 97, 1, 1⟩

theorem isInput_rowOf {n : ℕ} (hpos : 1 ≤ n) (hle : n ≤ 20) : IsInput (rowOf n) where
  in2027 := (by decide : In2027 1798761600)
  path := by
    refine ⟨[List.replicate n 97], ?_, Nat.le_refl 1, (by decide : 1 ≤ 5), ?_⟩
    · simp [rowOf, List.intercalate]
    · intro level hlevel
      obtain rfl := List.mem_singleton.mp hlevel
      refine ⟨by rwa [List.length_replicate], by rwa [List.length_replicate], ?_⟩
      intro b hb
      obtain rfl := List.eq_of_mem_replicate hb
      decide
  length_pos := Nat.le_refl _
  length_le := (by decide : 1 ≤ 65535)

theorem length_line_rowOf {n : ℕ} (hpos : 1 ≤ n) (hle : n ≤ 20) :
    (rowOf n).line.length = n + 16 := by
  rw [length_line (isInput_rowOf hpos hle).valid, rowOf]
  dsimp only
  rw [List.length_replicate, show Decimal.encode 1 = [49] from rfl]
  rfl

/-- Rows with keys of one and of twenty bytes, and a last one with a key of eight. -/
def shortFile : List Row := [rowOf 1, rowOf 20, rowOf 8]

theorem loads_below_short : ∃ ls, loads (csv shortFile) 3 = some ls ∧
    Below (mappedSize (csv shortFile).length) ls := by
  have hrows : ∀ r ∈ shortFile, IsInput r := by
    intro r hr
    simp only [shortFile, List.mem_cons, List.not_mem_nil, or_false] at hr
    rcases hr with rfl | rfl | rfl <;> exact isInput_rowOf (by decide) (by decide)
  obtain ⟨ls, hls, hbelow⟩ := loads_below_iff hrows 3
  refine ⟨ls, hls, hbelow.mpr ?_⟩
  intro r hr
  obtain rfl : rowOf 8 = r := Option.some.inj hr
  have hlength : (rowOf 8).path.length = 8 := List.length_replicate
  have hle := le_mappedSize (csv shortFile).length
  omega

/-- 111 rows with keys of 20 bytes, one with a key of 12 and a last one with a key of one byte. -/
def fullPage : List Row := List.replicate 111 (rowOf 20) ++ [rowOf 12, rowOf 1]

/-- The file fills its page, and the last key's load ends two bytes behind it. -/
theorem loads_beyond : (∀ r ∈ fullPage, IsInput r) ∧ (csv fullPage).length = 4096 ∧
    ∀ threads, ∃ ls, loads (csv fullPage) threads = some ls ∧
      ¬Below (mappedSize (csv fullPage).length) ls := by
  have hrows : ∀ r ∈ fullPage, IsInput r := by
    intro r hr
    rw [fullPage, List.mem_append] at hr
    rcases hr with hr | hr
    · obtain rfl := List.eq_of_mem_replicate hr
      exact isInput_rowOf (by decide) (by decide)
    · rcases List.mem_cons.mp hr with rfl | hr
      · exact isInput_rowOf (by decide) (by decide)
      · obtain rfl := List.mem_singleton.mp hr
        exact isInput_rowOf (by decide) (by decide)
  have hlength : (csv fullPage).length = 4096 := by
    have hheader : (header ++ [newline]).length = 55 := by decide
    have h20 := length_line_rowOf (n := 20) (by decide) (by decide)
    have h12 := length_line_rowOf (n := 12) (by decide) (by decide)
    have h1 := length_line_rowOf (n := 1) (by decide) (by decide)
    rw [csv, List.length_append, hheader, fullPage, List.map_append, List.map_replicate,
      List.flatten_append, List.length_append, List.length_flatten, List.map_replicate,
      List.sum_replicate, h20]
    simp only [List.map_cons, List.map_nil, List.flatten_cons, List.flatten_nil, List.length_append,
      List.length_nil, h12, h1]
    rfl
  refine ⟨hrows, hlength, fun threads => ?_⟩
  obtain ⟨ls, hls, hbelow⟩ := loads_eq (fun r hr => (hrows r hr).valid) threads
  refine ⟨ls, hls, fun hall => ?_⟩
  have hend : fullPage.getLast? = some (rowOf 1) := by
    rw [fullPage, List.getLast?_append]
    rfl
  have hlast := (hbelow _ (le_mappedSize _)).mp hall (rowOf 1) hend
  have hencode : (Decimal.encode 1).length = 1 := rfl
  have hpath : (rowOf 1).path.length = 1 := rfl
  have hml : (rowOf 1).messageLength = 1 := rfl
  have hst : (rowOf 1).stampCount = 1 := rfl
  have hsize : mappedSize 4096 = 4096 := rfl
  rw [hlength, hpath, hml, hst, hencode, hsize] at hlast
  omega

end Files
end OneBrc.Analyzer.ZigReads
