import OneBrc.Analyzer.Scan
import OneBrc.Lib.Division

/-! The division of the data among the workers of the two analyzers in Go, which have the same
`splitChunks`, with its integers of 64 bits. -/
namespace OneBrc.Analyzer.Chunks
open Lib Lines

/-- `data[i]`, or a panic outside of the data. -/
def byteAt (data : Bytes) (i : Int64) : Option UInt8 :=
  if 0 ≤ i then data[i.toInt.toNat]? else none

theorem toInt_succ {i stop : Int64} (h : i < stop) : (i + 1).toInt = i.toInt + 1 := by
  have hi := Int64.le_toInt i
  have hstop := Int64.toInt_lt stop
  have hlt := Int64.lt_iff_toInt_lt.mp h
  rw [Int64.toInt_add, Int64.toInt_one, Int.bmod_eq_of_le (by omega) (by omega)]

/-- `indexByte`: -1 when there is no such byte, and `none` for a panic. -/
def indexByte (data : Bytes) (i stop : Int64) (needle : UInt8) : Option Int64 :=
  if _h : i < stop then do
    if (← byteAt data i) = needle then some i else indexByte data (i + 1) stop needle
  else some (-1)
termination_by (stop.toInt - i.toInt).toNat
decreasing_by
  rw [toInt_succ _h]
  have hlt := Int64.lt_iff_toInt_lt.mp _h
  omega

def clampThreads (bytes threads : Int64) : Int64 :=
  let maxThreads := bytes / 4096 + 1
  let threads := if threads > maxThreads then maxThreads else threads
  if threads < 1 then 1 else threads

/-- Where the loop begins to look for the end of a line; the product may wrap around. -/
def target (start stop threads i : Int64) : Int64 := start + (stop - start) * i / threads

/-- The chunks so far, and where the next one begins. -/
abbrev State := List (Int64 × Int64) × Int64

/-- One pass of the loop. -/
def splitStep (data : Bytes) (start stop threads : Int64) (state : State) (i : Int64) :
    Option State := do
  let newline ← indexByte data (target start stop threads i) stop newline
  let chunkEnd := if newline ≥ 0 then newline + 1 else stop
  some (if state.2 < chunkEnd then state.1 ++ [(state.2, chunkEnd)] else state.1, chunkEnd)

/-- `splitChunks` -/
def splitChunks (data : Bytes) (start stop threads : Int64) : Option (List (Int64 × Int64)) :=
  if start ≥ stop then some []
  else do
    let threads := clampThreads (stop - start) threads
    let (chunks, chunkBegin) ← (List.range' 1 (threads.toInt.toNat - 1)).foldlM
      (fun state i => splitStep data start stop threads state (Int64.ofNat i)) ([], start)
    some (if chunkBegin < stop then chunks ++ [(chunkBegin, stop)] else chunks)

/-- The number of workers, as integers. -/
def workers (start stop threads : ℤ) : ℤ := max 1 (min threads ((stop - start) / 4096 + 1))

/-- The position where the part of a worker begins, with a product of 64 bits. -/
def position (start stop threads i : ℤ) : ℤ :=
  start + (((stop - start) * i).bmod (2 ^ 64)).tdiv threads

/-- The data are divided into chunks of whole lines, not more than there are workers. -/
def Splits (data : Bytes) (start stop threads : Int64) : Prop :=
  ∃ chunks, splitChunks data start stop threads = some chunks ∧
    (chunks.length : ℤ) ≤ workers start.toInt stop.toInt threads.toInt ∧
    Division (fun i : ℤ => data[(i - 1).toNat]? = some newline) start.toInt stop.toInt
      (chunks.map (Prod.map Int64.toInt Int64.toInt))

/-- No position is negative, and where one is below the start or below an earlier one, no line ends
between them. -/
def InOrder (data : Bytes) (start stop threads : ℤ) : Prop :=
  ∀ i : ℕ, 0 < i → i < threads →
    0 ≤ position start stop threads i ∧
    (∀ k : ℕ, position start stop threads i ≤ k → (k : ℤ) + 1 < start →
      data[k]? ≠ some newline) ∧
    ∀ j : ℕ, 0 < j → j < i → ∀ k : ℕ, position start stop threads i ≤ k →
      k < position start stop threads j → data[k]? ≠ some newline

section Arithmetic
variable {start stop threads : Int64}

theorem toInt_sub (hstart : 0 ≤ start.toInt) (hle : start.toInt ≤ stop.toInt) :
    (stop - start).toInt = stop.toInt - start.toInt := by
  have hstop := Int64.toInt_lt stop
  rw [Int64.toInt_sub, Int.bmod_eq_of_le (by omega) (by omega)]

theorem toInt_clampThreads (hstart : 0 ≤ start.toInt) (hle : start.toInt ≤ stop.toInt) :
    (clampThreads (stop - start) threads).toInt =
      workers start.toInt stop.toInt threads.toInt := by
  have hstop := Int64.toInt_lt stop
  have hbytes := toInt_sub hstart hle
  have h4096 : (4096 : Int64).toInt = 4096 := rfl
  have hquot : ((stop - start) / 4096).toInt = (stop.toInt - start.toInt) / 4096 := by
    rw [Int64.toInt_div_of_ne_right _ _ (by decide), hbytes, h4096,
      Int.tdiv_eq_ediv_of_nonneg (by omega)]
  have hmax : ((stop - start) / 4096 + 1).toInt = (stop.toInt - start.toInt) / 4096 + 1 := by
    rw [Int64.toInt_add, hquot, Int64.toInt_one, Int.bmod_eq_of_le (by omega) (by omega)]
  simp only [clampThreads, gt_iff_lt, Int64.lt_iff_toInt_lt, hmax, workers]
  split
  · rw [hmax, Int64.toInt_one, if_neg (by omega), hmax]
    omega
  · rw [Int64.toInt_one]
    split
    · rw [Int64.toInt_one]
      omega
    · omega

/-- A product of 64 bits is not greater than the product. -/
theorem bmod_le {x : ℤ} (hx : 0 ≤ x) : x.bmod (2 ^ 64) ≤ x := by
  have hlt := Int.bmod_lt (x := x) (m := 2 ^ 64) (by decide)
  by_cases hsmall : x < 2 ^ 63
  · rw [Int.bmod_eq_of_le (by omega) (by omega)]
  · omega

theorem position_lt {s e t i : ℤ} (hlt : s < e) (hi : 0 < i) (hit : i < t) :
    position s e t i < e := by
  have hproduct : 0 ≤ (e - s) * i := Int.mul_nonneg (by omega) (by omega)
  have hbound : (e - s) * i < (e - s) * t := Int.mul_lt_mul_of_pos_left hit (by omega)
  have hquot : (((e - s) * i).bmod (2 ^ 64)).tdiv t < e - s :=
    calc (((e - s) * i).bmod (2 ^ 64)).tdiv t ≤ ((e - s) * i).tdiv t :=
          Int.tdiv_le_tdiv (by omega) (bmod_le hproduct)
      _ = (e - s) * i / t := Int.tdiv_eq_ediv_of_nonneg hproduct
      _ < e - s := Int.ediv_lt_of_lt_mul (by omega) hbound
  unfold position
  omega

theorem toInt_target (hstart : 0 ≤ start.toInt) (hlt : start.toInt < stop.toInt) {i : Int64}
    (hi : 0 < i.toInt) (hit : i.toInt < threads.toInt) :
    (target start stop threads i).toInt =
      position start.toInt stop.toInt threads.toInt i.toInt := by
  have hstop := Int64.toInt_lt stop
  have hless := position_lt hlt hi hit
  have hquot : ((stop - start) * i / threads).toInt =
      (((stop.toInt - start.toInt) * i.toInt).bmod (2 ^ 64)).tdiv threads.toInt := by
    have hthreads : threads ≠ -1 := by
      rintro rfl
      have hneg : (-1 : Int64).toInt = -1 := rfl
      omega
    rw [Int64.toInt_div_of_ne_right _ _ hthreads, Int64.toInt_mul,
      toInt_sub hstart (Int.le_of_lt hlt)]
  have habs := Int.natAbs_tdiv_le_natAbs
    (((stop.toInt - start.toInt) * i.toInt).bmod (2 ^ 64)) threads.toInt
  have hlow := Int.le_bmod (x := (stop.toInt - start.toInt) * i.toInt) (m := 2 ^ 64) (by decide)
  have hhigh := Int.bmod_lt (x := (stop.toInt - start.toInt) * i.toInt) (m := 2 ^ 64) (by decide)
  unfold position at hless ⊢
  rw [target, Int64.toInt_add, hquot, Int.bmod_eq_of_le (by omega) (by omega)]

end Arithmetic

section Search
variable {data : Bytes} {start stop : Int64}

theorem ofNat_toNat {x : Int64} (hx : 0 ≤ x.toInt) : Int64.ofNat x.toInt.toNat = x := by
  have hlt := Int64.toInt_lt x
  rw [← Int64.toInt_inj, Int64.toInt_ofNat_of_lt (by omega), Int.toNat_of_nonneg hx]

/-- A search that begins before the data is a panic. -/
theorem indexByte_neg (hlt : start < stop) (hneg : start.toInt < 0) (needle : UInt8) :
    indexByte data start stop needle = none := by
  have hnot : ¬0 ≤ start := fun h => absurd (Int64.le_iff_toInt_le.mp h) (Int.not_le.mpr hneg)
  rw [indexByte, dif_pos hlt, byteAt, if_neg hnot]
  rfl

theorem indexFrom_step {α : Type} [DecidableEq α] {nl : α} {text : List α} {t : ℕ}
    (ht : t < text.length) :
    indexFrom nl text t = if text[t] = nl then some t else indexFrom nl text (t + 1) := by
  rw [indexFrom, indexFrom, List.drop_eq_getElem_cons ht, List.findIdx?_cons]
  by_cases hnl : text[t] = nl
  · simp [hnl]
  · simp only [hnl, decide_false, Bool.false_eq_true, if_false, Option.map_map]
    congr 1
    funext k
    simp only [Function.comp_apply]
    omega

/-- A search in the data finds the first byte before the end. -/
theorem indexByte_eq (hstart : 0 ≤ start.toInt) (hle : start.toInt ≤ stop.toInt)
    (hstop : stop.toInt ≤ data.length) (needle : UInt8) :
    indexByte data start stop needle =
      some (match indexFrom needle (data.take stop.toInt.toNat) start.toInt.toNat with
        | some i => Int64.ofNat i
        | none => -1) := by
  induction hd : (stop.toInt - start.toInt).toNat generalizing start with
  | zero =>
    have hnot : ¬start < stop := by
      rw [Int64.lt_iff_toInt_lt]
      omega
    have hnone : indexFrom needle (data.take stop.toInt.toNat) start.toInt.toNat = none := by
      rw [indexFrom, List.drop_eq_nil_of_le (by rw [List.length_take]; omega)]
      rfl
    rw [indexByte, dif_neg hnot, hnone]
  | succ d ih =>
    have hlt : start < stop := by
      rw [Int64.lt_iff_toInt_lt]
      omega
    have hnext := toInt_succ hlt
    have hinside : start.toInt.toNat < (data.take stop.toInt.toNat).length := by
      rw [List.length_take]
      omega
    have hbyte : byteAt data start = some (data.take stop.toInt.toNat)[start.toInt.toNat] := by
      have hnonneg : 0 ≤ start := Int64.le_iff_toInt_le.mpr (by rwa [Int64.toInt_zero])
      rw [byteAt, if_pos hnonneg, ← List.getElem?_eq_getElem hinside,
        List.getElem?_take_of_lt (by omega)]
    rw [indexByte, dif_pos hlt, indexFrom_step hinside]
    simp only [hbyte, bind, Option.bind]
    split
    · exact congrArg some (ofNat_toNat hstart).symm
    · have hrest := @ih (start + 1) (by omega) (by omega) (by omega)
      rw [hrest, hnext, show (start.toInt + 1).toNat = start.toInt.toNat + 1 by omega]

end Search

section Run
variable {data : Bytes} {start stop threads : Int64}

/-- The state of the loop as numbers. -/
def IsState (state : State) (numbers : List (ℕ × ℕ) × ℕ) : Prop :=
  state.1.map (Prod.map Int64.toInt Int64.toInt) = numbers.1.map (Prod.map (↑) (↑)) ∧
    state.2.toInt = numbers.2

/-- The end of the line at the position of a worker. -/
def cut (data : Bytes) (start stop threads : ℤ) (n : ℕ) : ℕ :=
  nextCut newline (data.take stop.toNat) (position start stop threads n).toNat

theorem IsState.chunkUpTo {state : State} {numbers : List (ℕ × ℕ) × ℕ}
    (h : IsState state numbers) {chunkEnd : Int64} {i : ℕ} (hi : chunkEnd.toInt = i) :
    IsState (if state.2 < chunkEnd then state.1 ++ [(state.2, chunkEnd)] else state.1, chunkEnd)
      (chunkUpTo false numbers i) := by
  obtain ⟨hchunks, hbegin⟩ := h
  have hlt : state.2 < chunkEnd ↔ numbers.2 < i := by
    rw [Int64.lt_iff_toInt_lt, hbegin, hi, Int.ofNat_lt]
  refine ⟨?_, hi⟩
  simp only [Lines.chunkUpTo, Bool.false_eq_true, false_or]
  by_cases hnew : numbers.2 < i
  · rw [if_pos (hlt.mpr hnew), if_pos hnew, List.map_append, List.map_append, hchunks]
    simp [hbegin, hi]
  · rw [if_neg (fun h => hnew (hlt.mp h)), if_neg hnew, hchunks]

/-- The position of a pass as the code computes it. -/
theorem toInt_target_ofNat (hstart : 0 ≤ start.toInt) (hlt : start.toInt < stop.toInt) {n : ℕ}
    (hn : 0 < n) (hnt : n < threads.toInt) :
    (target start stop threads (Int64.ofNat n)).toInt =
      position start.toInt stop.toInt threads.toInt n := by
  have hthreads := Int64.toInt_lt threads
  have hcount : (Int64.ofNat n).toInt = n := Int64.toInt_ofNat_of_lt (by omega)
  rw [toInt_target hstart hlt (by omega) (by omega), hcount]

theorem splitStep_eq (hstart : 0 ≤ start.toInt) (hlt : start.toInt < stop.toInt)
    (hstop : stop.toInt ≤ data.length) {n : ℕ} (hn : 0 < n) (hnt : n < threads.toInt)
    (hposition : 0 ≤ position start.toInt stop.toInt threads.toInt n) {state : State}
    {numbers : List (ℕ × ℕ) × ℕ} (h : IsState state numbers) :
    ∃ state', splitStep data start stop threads state (Int64.ofNat n) = some state' ∧
      IsState state' (chunkUpTo false numbers
        (cut data start.toInt stop.toInt threads.toInt n)) := by
  have hword := Int64.toInt_lt stop
  have htarget := toInt_target_ofNat hstart hlt hn hnt
  have hbelow : position start.toInt stop.toInt threads.toInt n < stop.toInt :=
    position_lt hlt (by omega) hnt
  have hsearch := indexByte_eq (htarget ▸ hposition) (by omega) hstop newline
  rw [htarget] at hsearch
  simp only [splitStep, hsearch, bind, Option.bind]
  refine ⟨_, rfl, h.chunkUpTo ?_⟩
  unfold cut nextCut
  have hlength : (data.take stop.toInt.toNat).length = stop.toInt.toNat := by
    rw [List.length_take]
    omega
  cases hi : indexFrom newline (data.take stop.toInt.toNat)
      (position start.toInt stop.toInt threads.toInt n).toNat with
  | some i =>
    obtain ⟨hlti, -⟩ := List.getElem?_eq_some_iff.mp (indexFrom_eq_some hi).2.1
    have hvalue : (Int64.ofNat i).toInt = i := Int64.toInt_ofNat_of_lt (by omega)
    have hnonneg : Int64.ofNat i ≥ 0 := by
      rw [ge_iff_le, Int64.le_iff_toInt_le, hvalue, Int64.toInt_zero]
      omega
    have hless : Int64.ofNat i < stop := by
      rw [Int64.lt_iff_toInt_lt, hvalue]
      omega
    dsimp only
    rw [if_pos hnonneg, toInt_succ hless, hvalue]
    rfl
  | none =>
    dsimp only
    rw [if_neg (by decide), hlength]
    omega

theorem splitStep_neg (hstart : 0 ≤ start.toInt) (hlt : start.toInt < stop.toInt) {n : ℕ}
    (hn : 0 < n) (hnt : n < threads.toInt)
    (hposition : position start.toInt stop.toInt threads.toInt n < 0) (state : State) :
    splitStep data start stop threads state (Int64.ofNat n) = none := by
  have htarget := toInt_target_ofNat hstart hlt hn hnt
  have hless : target start stop threads (Int64.ofNat n) < stop := by
    rw [Int64.lt_iff_toInt_lt]
    omega
  rw [splitStep, indexByte_neg hless (by omega)]
  rfl

/-- The loop over positions that are not negative. -/
theorem foldlM_eq (hstart : 0 ≤ start.toInt) (hlt : start.toInt < stop.toInt)
    (hstop : stop.toInt ≤ data.length) {counts : List ℕ}
    (hcounts : ∀ n ∈ counts, 0 < n ∧ n < threads.toInt ∧
      0 ≤ position start.toInt stop.toInt threads.toInt n) {state : State}
    {numbers : List (ℕ × ℕ) × ℕ} (h : IsState state numbers) :
    ∃ state', counts.foldlM (fun state n => splitStep data start stop threads state
      (Int64.ofNat n)) state = some state' ∧ IsState state' ((counts.map
        (cut data start.toInt stop.toInt threads.toInt)).foldl (chunkUpTo false) numbers) := by
  induction counts generalizing state numbers with
  | nil => exact ⟨state, rfl, h⟩
  | cons n counts ih =>
    obtain ⟨⟨hn, hnt, hposition⟩, hrest⟩ := List.forall_mem_cons.mp hcounts
    obtain ⟨state₁, hstep, h₁⟩ := splitStep_eq hstart hlt hstop hn hnt hposition h
    obtain ⟨state', hrun, h'⟩ := ih hrest h₁
    refine ⟨state', ?_, h'⟩
    rw [List.foldlM_cons, hstep]
    exact hrun

/-- One negative position is enough for a panic. -/
theorem foldlM_neg (hstart : 0 ≤ start.toInt) (hlt : start.toInt < stop.toInt) {counts : List ℕ}
    (hcounts : ∀ n ∈ counts, 0 < n ∧ n < threads.toInt)
    (hneg : ∃ n ∈ counts, position start.toInt stop.toInt threads.toInt n < 0) (state : State) :
    counts.foldlM (fun state n => splitStep data start stop threads state (Int64.ofNat n)) state =
      none := by
  induction counts generalizing state with
  | nil => simp at hneg
  | cons n counts ih =>
    obtain ⟨⟨hn, hnt⟩, hrest⟩ := List.forall_mem_cons.mp hcounts
    rw [List.foldlM_cons]
    by_cases hposition : position start.toInt stop.toInt threads.toInt n < 0
    · rw [splitStep_neg hstart hlt hn hnt hposition]
      rfl
    · obtain ⟨m, hm, hmneg⟩ := hneg
      have hmem : m ∈ counts := by
        rcases List.mem_cons.mp hm with rfl | hmem
        · exact absurd hmneg hposition
        · exact hmem
      cases hstep : splitStep data start stop threads state (Int64.ofNat n) with
      | none => rfl
      | some state₁ => exact ih hrest ⟨m, hmem, hmneg⟩ state₁

/-- Where the chunks end when they end in order. -/
def stops (data : Bytes) (start stop threads : ℤ) : List ℕ :=
  (List.range' 1 (threads.toNat - 1)).map (cut data start stop threads) ++ [stop.toNat]

theorem mem_counts {t : ℤ} (ht : 1 ≤ t) {n : ℕ} :
    n ∈ List.range' 1 (t.toNat - 1) ↔ 0 < n ∧ n < t := by
  rw [List.mem_range'_1]
  omega

/-- The chunks of the code are those up to the ends of lines, unless a position is negative. -/
theorem splitChunks_eq (hstart : 0 ≤ start.toInt) (hlt : start.toInt < stop.toInt)
    (hstop : stop.toInt ≤ data.length) {t : ℤ}
    (ht : t = workers start.toInt stop.toInt threads.toInt)
    (hpositions : ∀ n : ℕ, 0 < n → n < t → 0 ≤ position start.toInt stop.toInt t n) :
    ∃ chunks, splitChunks data start stop threads = some chunks ∧
      chunks.map (Prod.map Int64.toInt Int64.toInt) =
        (chunksUpTo false start.toInt.toNat (stops data start.toInt stop.toInt t)).map
          (Prod.map (↑) (↑)) := by
  have hclamp : (clampThreads (stop - start) threads).toInt = t :=
    (toInt_clampThreads hstart (Int.le_of_lt hlt)).trans ht.symm
  have hone : 1 ≤ t := ht ▸ le_max_left _ _
  have hnot : ¬start ≥ stop := by
    rw [ge_iff_le, Int64.le_iff_toInt_le]
    omega
  have hinit : IsState ([], start) ([], start.toInt.toNat) :=
    ⟨rfl, (Int.toNat_of_nonneg hstart).symm⟩
  have hcounts : ∀ n ∈ List.range' 1 (t.toNat - 1), 0 < n ∧
      n < (clampThreads (stop - start) threads).toInt ∧
      0 ≤ position start.toInt stop.toInt (clampThreads (stop - start) threads).toInt n := by
    intro n hn
    obtain ⟨hpos, hnt⟩ := (mem_counts hone).mp hn
    rw [hclamp]
    exact ⟨hpos, hnt, hpositions n hpos hnt⟩
  obtain ⟨state, hrun, hstate⟩ := foldlM_eq hstart hlt hstop hcounts hinit
  have hlast := hstate.chunkUpTo (Int.toNat_of_nonneg (by omega : 0 ≤ stop.toInt)).symm
  rw [hclamp] at hlast
  refine ⟨_, ?_, hlast.1.trans ?_⟩
  · simp only [splitChunks, if_neg hnot, hclamp, hrun, bind, Option.bind]
  · rw [chunksUpTo, stops, List.foldl_append]
    rfl

theorem splitChunks_neg (hstart : 0 ≤ start.toInt) (hlt : start.toInt < stop.toInt) {t : ℤ}
    (ht : t = workers start.toInt stop.toInt threads.toInt) {n : ℕ} (hn : 0 < n) (hnt : n < t)
    (hneg : position start.toInt stop.toInt t n < 0) :
    splitChunks data start stop threads = none := by
  have hclamp : (clampThreads (stop - start) threads).toInt = t :=
    (toInt_clampThreads hstart (Int.le_of_lt hlt)).trans ht.symm
  have hone : 1 ≤ t := ht ▸ le_max_left _ _
  have hnot : ¬start ≥ stop := by
    rw [ge_iff_le, Int64.le_iff_toInt_le]
    omega
  have hcounts : ∀ m ∈ List.range' 1 (t.toNat - 1), 0 < m ∧
      m < (clampThreads (stop - start) threads).toInt := by
    intro m hm
    rw [hclamp]
    exact (mem_counts hone).mp hm
  have hrun := @foldlM_neg data _ _ _ hstart hlt _ hcounts
    ⟨n, (mem_counts hone).mpr ⟨hn, hnt⟩, hclamp.symm ▸ hneg⟩ ([], start)
  simp only [splitChunks, if_neg hnot, hclamp, hrun, bind, Option.bind]

end Run
section Order
variable {data : Bytes} {s e t : ℤ}

theorem getElem?_take_toNat {k : ℕ} (hk : k < e) : (data.take e.toNat)[k]? = data[k]? :=
  List.getElem?_take_of_lt (by omega)

theorem le_cut_iff (hse : s ≤ e) (he : e ≤ data.length) {n : ℕ} (hn : 0 ≤ position s e t n) :
    s.toNat ≤ cut data s e t n ↔
      ∀ k : ℕ, position s e t n ≤ k → (k : ℤ) + 1 < s → data[k]? ≠ some newline := by
  rw [cut, le_nextCut_iff (by rw [List.length_take]; omega)]
  constructor
  · intro h k hk hks
    rw [← getElem?_take_toNat (e := e) (by omega)]
    exact h k (by omega) (by omega)
  · intro h k hk hks
    rw [getElem?_take_toNat (by omega)]
    exact h k (by omega) (by omega)

theorem cut_le_cut_iff (he : e ≤ data.length) {m n : ℕ} (hm : 0 ≤ position s e t m)
    (hme : position s e t m < e) (hn : 0 ≤ position s e t n) :
    cut data s e t m ≤ cut data s e t n ↔
      ∀ k : ℕ, position s e t n ≤ k → k < position s e t m → data[k]? ≠ some newline := by
  rw [cut, cut, nextCut_le_nextCut_iff (by rw [List.length_take]; omega)]
  constructor
  · intro h k hk hkm
    rw [← getElem?_take_toNat (e := e) (by omega)]
    exact h k (by omega) (by omega)
  · intro h k hk hkm
    rw [getElem?_take_toNat (by omega)]
    exact h k (by omega) (by omega)

theorem pairwise_range'_iff {R : ℕ → ℕ → Prop} {c : ℕ} :
    (List.range' 1 c).Pairwise R ↔ ∀ m n, 0 < m → m < n → n < c + 1 → R m n := by
  simp only [List.pairwise_iff_getElem, List.length_range', List.getElem_range', Nat.one_mul]
  constructor
  · intro h m n hm hmn hn
    have hR := h (m - 1) (n - 1) (by omega) (by omega) (by omega)
    rwa [Nat.add_sub_cancel' hm, Nat.add_sub_cancel' (by omega)] at hR
  · intro h i j hi hj hij
    exact h (1 + i) (1 + j) (by omega) (by omega) (by omega)

/-- The chunks end in order just when the positions allow it. -/
theorem isChain_stops_iff (hs : 0 ≤ s) (hse : s < e) (he : e ≤ data.length) (ht : 1 ≤ t)
    (hpositions : ∀ n : ℕ, 0 < n → n < t → 0 ≤ position s e t n) :
    (s.toNat :: stops data s e t).IsChain (· ≤ ·) ↔ InOrder data s e t := by
  have hcut (n : ℕ) : cut data s e t n ≤ e.toNat := by
    have hle : cut data s e t n ≤ (data.take e.toNat).length := nextCut_le _ _
    rw [List.length_take] at hle
    exact Nat.le_trans hle (Nat.min_le_left _ _)
  have hchain : (s.toNat :: stops data s e t).IsChain (· ≤ ·) ↔
      (∀ n ∈ List.range' 1 (t.toNat - 1), s.toNat ≤ cut data s e t n) ∧
        (List.range' 1 (t.toNat - 1)).Pairwise fun m n =>
          cut data s e t m ≤ cut data s e t n := by
    rw [List.isChain_iff_pairwise, List.pairwise_cons, stops, List.pairwise_append,
      List.pairwise_map]
    simp only [List.mem_append, List.mem_map, List.mem_singleton]
    constructor
    · rintro ⟨hstart, hpairs, -⟩
      exact ⟨fun n hn => hstart _ (.inl ⟨n, hn, rfl⟩), hpairs⟩
    · rintro ⟨hstart, hpairs⟩
      refine ⟨?_, hpairs, List.pairwise_singleton _ _, ?_⟩
      · rintro i (⟨n, hn, rfl⟩ | rfl)
        · exact hstart n hn
        · omega
      · rintro _ ⟨n, -, rfl⟩ _ rfl
        exact hcut n
  rw [hchain, pairwise_range'_iff]
  constructor
  · rintro ⟨hstart, hpairs⟩ i hi hit
    refine ⟨hpositions i hi hit, ?_, ?_⟩
    · exact (le_cut_iff (by omega) he (hpositions i hi hit)).mp
        (hstart i ((mem_counts ht).mpr ⟨hi, hit⟩))
    · intro j hj hji
      exact (cut_le_cut_iff he (hpositions j hj (by omega)) (position_lt hse (by omega) (by omega))
        (hpositions i hi hit)).mp (hpairs j i hj hji (by omega))
  · intro h
    constructor
    · intro n hn
      obtain ⟨hpos, hnt⟩ := (mem_counts ht).mp hn
      exact (le_cut_iff (by omega) he (hpositions n hpos hnt)).mpr (h n hpos hnt).2.1
    · intro m n hm hmn hn
      exact (cut_le_cut_iff he (hpositions m hm (by omega)) (position_lt hse (by omega) (by omega))
        (hpositions n (by omega) (by omega))).mpr ((h n (by omega) (by omega)).2.2 m hm hmn)

end Order

section Correctness
variable {data : Bytes} {start stop threads : Int64}

/-- The inner boundaries are after line feeds. -/
theorem lineEnd_of_mem_stops {s e t : ℤ} (he : e ≤ data.length) {i : ℕ}
    (hi : i ∈ stops data s e t) : data[i - 1]? = some newline ∨ i = e.toNat := by
  rcases List.mem_append.mp hi with hmem | hmem
  · obtain ⟨n, -, rfl⟩ := List.mem_map.mp hmem
    unfold cut nextCut
    split
    · next k hk =>
      obtain ⟨-, hnl, -⟩ := indexFrom_eq_some hk
      have hlt : k < e.toNat := by
        by_contra hge
        rw [List.getElem?_eq_none (by rw [List.length_take]; omega)] at hnl
        cases hnl
      rw [List.getElem?_take_of_lt hlt] at hnl
      exact .inl hnl
    · refine .inr ?_
      rw [List.length_take]
      omega
  · exact .inr (List.mem_singleton.mp hmem)

/-- The division as numbers. -/
theorem splits_iff_division (hstart : 0 ≤ start.toInt) (hlt : start.toInt < stop.toInt)
    (hstop : stop.toInt ≤ data.length) {t : ℤ}
    (ht : t = workers start.toInt stop.toInt threads.toInt)
    (hpositions : ∀ n : ℕ, 0 < n → n < t → 0 ≤ position start.toInt stop.toInt t n) :
    Splits data start stop threads ↔
      Division (fun i => data[i - 1]? = some newline) start.toInt.toNat stop.toInt.toNat
        (chunksUpTo false start.toInt.toNat (stops data start.toInt stop.toInt t)) := by
  have hone : 1 ≤ t := ht ▸ le_max_left _ _
  obtain ⟨chunks, hrun, hchunks⟩ := splitChunks_eq hstart hlt hstop ht hpositions
  have hdivision : Division (fun i : ℤ => data[(i - 1).toNat]? = some newline) start.toInt
      stop.toInt (chunks.map (Prod.map Int64.toInt Int64.toInt)) ↔
      Division (fun i => data[i - 1]? = some newline) start.toInt.toNat stop.toInt.toNat
        (chunksUpTo false start.toInt.toNat (stops data start.toInt stop.toInt t)) := by
    have hmap : Division (fun i : ℤ => data[(i - 1).toNat]? = some newline)
        (start.toInt.toNat : ℤ) (stop.toInt.toNat : ℤ)
        ((chunksUpTo false start.toInt.toNat (stops data start.toInt stop.toInt t)).map
          (Prod.map (↑) (↑))) ↔
        Division (fun i => data[i - 1]? = some newline) start.toInt.toNat stop.toInt.toNat
          (chunksUpTo false start.toInt.toNat (stops data start.toInt stop.toInt t)) :=
      Division.map_iff Int.ofNat_lt Nat.cast_injective fun {i} => by
        rw [show ((i : ℤ) - 1).toNat = i - 1 by omega]
    rwa [Int.toNat_of_nonneg hstart, Int.toNat_of_nonneg (by omega : 0 ≤ stop.toInt),
      ← hchunks] at hmap
  have hlength : (chunks.length : ℤ) ≤ t := by
    have hle := length_chunksUpTo_false_le start.toInt.toNat (stops data start.toInt stop.toInt t)
    have hsame := congrArg List.length hchunks
    rw [List.length_map, List.length_map] at hsame
    rw [← hsame, stops, List.length_append, List.length_map, List.length_range',
      List.length_singleton] at hle
    omega
  rw [← hdivision]
  constructor
  · rintro ⟨chunks', hrun', -, h⟩
    obtain rfl := Option.some.inj (hrun.symm.trans hrun')
    exact h
  · intro h
    exact ⟨chunks, hrun, ht ▸ hlength, h⟩

/-- Nothing is divided when there is nothing. -/
theorem splits_self (h : start.toInt = stop.toInt) :
    Splits data start stop threads ∧
      workers start.toInt stop.toInt threads.toInt = 1 := by
  have hge : start ≥ stop := Int64.le_iff_toInt_le.mpr (Int.le_of_eq h.symm)
  have hone : workers start.toInt stop.toInt threads.toInt = 1 := by
    rw [workers, h, Int.sub_self]
    exact max_eq_left (min_le_right _ _)
  refine ⟨⟨[], if_pos hge, ?_, ?_⟩, hone⟩
  · rw [hone]
    exact Int.zero_le_ofNat 1
  · rw [h]
    exact Division.nil _ _

theorem inOrder_of_splits (hstart : 0 ≤ start.toInt) (hle : start.toInt ≤ stop.toInt)
    (hstop : stop.toInt ≤ data.length) (h : Splits data start stop threads) :
    InOrder data start.toInt stop.toInt (workers start.toInt stop.toInt threads.toInt) := by
  by_cases hlt : start.toInt < stop.toInt
  · generalize ht : workers start.toInt stop.toInt threads.toInt = t
    have hone : 1 ≤ t := ht ▸ le_max_left _ _
    have hpositions (n : ℕ) (hn : 0 < n) (hnt : n < t) :
        0 ≤ position start.toInt stop.toInt t n := by
      by_contra hneg
      obtain ⟨chunks, hrun, -⟩ := h
      rw [splitChunks_neg hstart hlt ht.symm hn hnt (Int.lt_of_not_ge hneg)] at hrun
      cases hrun
    have hdivision := (splits_iff_division hstart hlt hstop ht.symm hpositions).mp h
    rw [division_chunksUpTo_iff (fun i hi => lineEnd_of_mem_stops hstop hi) (by simp [stops])]
      at hdivision
    exact (isChain_stops_iff hstart hlt hstop hone hpositions).mp hdivision
  · have hone : workers start.toInt stop.toInt threads.toInt = 1 :=
      (@splits_self data _ _ _ (Int.le_antisymm hle (Int.le_of_not_gt hlt))).2
    rw [hone]
    intro i hi hit
    omega

theorem splits_of_inOrder (hstart : 0 ≤ start.toInt) (hle : start.toInt ≤ stop.toInt)
    (hstop : stop.toInt ≤ data.length)
    (h : InOrder data start.toInt stop.toInt (workers start.toInt stop.toInt threads.toInt)) :
    Splits data start stop threads := by
  by_cases hlt : start.toInt < stop.toInt
  · generalize ht : workers start.toInt stop.toInt threads.toInt = t at h
    have hone : 1 ≤ t := ht ▸ le_max_left _ _
    have hpositions (n : ℕ) (hn : 0 < n) (hnt : n < t) :
        0 ≤ position start.toInt stop.toInt t n := (h n hn hnt).1
    rw [splits_iff_division hstart hlt hstop ht.symm hpositions,
      division_chunksUpTo_iff (fun i hi => lineEnd_of_mem_stops hstop hi) (by simp [stops])]
    exact (isChain_stops_iff hstart hlt hstop hone hpositions).mpr h
  · exact (splits_self (Int.le_antisymm hle (Int.le_of_not_gt hlt))).1

end Correctness

section Bounds
variable {s e t : ℤ}

/-- A product of less than 64 bits is not changed. -/
theorem position_of_lt (hse : s ≤ e) (h : (e - s) * (t - 1) < 2 ^ 63) {i : ℕ} (hit : i < t) :
    position s e t i = s + (e - s) * i / t := by
  have hproduct : 0 ≤ (e - s) * i := Int.mul_nonneg (by omega) (by omega)
  have hle : (e - s) * i ≤ (e - s) * (t - 1) := Int.mul_le_mul_of_nonneg_left (by omega) (by omega)
  rw [position, Int.bmod_eq_of_le (by omega) (by omega), Int.tdiv_eq_ediv_of_nonneg hproduct]

/-- Positions without wrapping around are in order, whatever the data are. -/
theorem inOrder_of_lt (hse : s ≤ e) (hs : 0 ≤ s) (h : (e - s) * (t - 1) < 2 ^ 63) (data : Bytes) :
    InOrder data s e t := by
  intro i hi hit
  have hlow : 0 ≤ (e - s) * i / t :=
    Int.ediv_nonneg (Int.mul_nonneg (by omega) (by omega)) (by omega)
  rw [position_of_lt hse h hit]
  refine ⟨by omega, fun k hk hks => by omega, ?_⟩
  intro j hj hji k hk hkj
  have hmono : (e - s) * j / t ≤ (e - s) * i / t :=
    Int.ediv_le_ediv (by omega) (Int.mul_le_mul_of_nonneg_left (by omega) (by omega))
  rw [position_of_lt hse h (by omega)] at hkj
  omega

/-- No product reaches 64 bits below 128 GiB, for any number of threads. -/
theorem product_lt (hse : s ≤ e) (hsmall : e - s < 2 ^ 37) (threads : ℤ) :
    (e - s) * (workers s e threads - 1) < 2 ^ 63 := by
  have hworkers : workers s e threads - 1 ≤ 2 ^ 25 := by
    unfold workers
    omega
  calc (e - s) * (workers s e threads - 1) ≤ (e - s) * 2 ^ 25 :=
        Int.mul_le_mul_of_nonneg_left hworkers (by omega)
    _ < 2 ^ 63 := by omega

end Bounds

/-- Data are divided at the ends of lines just when the positions are in order. -/
theorem splits_iff_inOrder {data : Bytes} {start stop : Int64} (hstart : 0 ≤ start.toInt)
    (hle : start.toInt ≤ stop.toInt) (hstop : stop.toInt ≤ data.length) (threads : Int64) :
    Splits data start stop threads ↔
      InOrder data start.toInt stop.toInt (workers start.toInt stop.toInt threads.toInt) :=
  ⟨inOrder_of_splits hstart hle hstop, splits_of_inOrder hstart hle hstop⟩

/-- Two pages of empty lines for five threads. -/
theorem splits_iff_inOrder_lines : Splits (List.replicate 8192 newline) 0 8192 5 := by
  refine (splits_iff_inOrder ?_ ?_ ?_ 5).mpr (inOrder_of_lt ?_ ?_ ?_ _)
  · decide
  · decide
  · rw [List.length_replicate]
    decide
  · decide
  · decide
  · decide

/-- The product of 2³⁸ bytes and the number 2²⁵ of a worker is negative. -/
theorem not_forall_splits : ¬∀ (data : Bytes) (start stop threads : Int64), 0 ≤ start.toInt →
    start.toInt ≤ stop.toInt → stop.toInt ≤ data.length → Splits data start stop threads := by
  intro h
  have hstop : (Int64.ofNat (2 ^ 38)).toInt = 2 ^ 38 := Int64.toInt_ofNat_of_lt (by norm_num)
  have hthreads : (Int64.ofNat (2 ^ 26)).toInt = 2 ^ 26 := Int64.toInt_ofNat_of_lt (by norm_num)
  have hlength : (Int64.ofNat (2 ^ 38)).toInt ≤ (List.replicate (2 ^ 38) newline).length := by
    rw [List.length_replicate, hstop]
    norm_num
  have horder := inOrder_of_splits (by decide) (by rw [hstop]; decide) hlength
    (h (List.replicate (2 ^ 38) newline) 0 (Int64.ofNat (2 ^ 38)) (Int64.ofNat (2 ^ 26))
      (by decide) (by rw [hstop]; decide) hlength)
  rw [hstop, hthreads, Int64.toInt_zero] at horder
  have hposition := (horder (2 ^ 25) (by norm_num) (by decide)).1
  exact absurd hposition (by decide)

section Rows
variable {data : Bytes} {start : ℕ} {threads : Int64}

/-- The chunks of all data from `start` on; `none` is a panic. -/
def divide (data : Bytes) (start : ℕ) (threads : Int64) : Option (List (ℕ × ℕ)) :=
  (splitChunks data (Int64.ofNat start) (Int64.ofNat data.length) threads).map fun chunks =>
    chunks.map (Prod.map (·.toInt.toNat) (·.toInt.toNat))

/-- The length has 64 bits with a sign, and so has the greatest product of the loop. -/
def Dividable (data : Bytes) (start : ℕ) (threads : Int64) : Prop :=
  data.length < 2 ^ 63 ∧
    (data.length - start : ℤ) * (workers start data.length threads.toInt - 1) < 2 ^ 63

/-- Below 128 GiB any number of threads will do. -/
theorem dividable_of_lt (hstart : start ≤ data.length) (hsmall : data.length < 2 ^ 37)
    (threads : Int64) : Dividable data start threads :=
  ⟨by omega, product_lt (by omega) (by omega) threads.toInt⟩

/-- There are no more workers than threads. -/
theorem dividable_of_product (hstart : start ≤ data.length) (hthreads : 0 < threads)
    (h : data.length * threads.toInt.toNat < 2 ^ 63) : Dividable data start threads := by
  have hpos : 0 < threads.toInt := Int64.lt_iff_toInt_lt.mp hthreads
  obtain ⟨count, hcount⟩ := Int.eq_ofNat_of_zero_le hpos.le
  rw [hcount, Int.toNat_natCast] at h
  have hone : 1 ≤ count := by omega
  refine ⟨Nat.lt_of_le_of_lt (Nat.le_mul_of_pos_right _ hone) h, ?_⟩
  have hworkers : workers start data.length threads.toInt - 1 ≤ count := by
    unfold workers
    omega
  calc (data.length - start : ℤ) * (workers start data.length threads.toInt - 1)
      ≤ (data.length - start : ℤ) * count := Int.mul_le_mul_of_nonneg_left hworkers (by omega)
    _ ≤ (data.length : ℤ) * count := Int.mul_le_mul_of_nonneg_right (by omega) (by omega)
    _ < 2 ^ 63 := by exact_mod_cast h

/-- Without wrapping around the data are divided evenly. -/
theorem divide_eq (hlt : start < data.length) (h : Dividable data start threads) :
    divide data start threads = some (chunksUpTo false start (evenStops newline data start
      (workers start data.length threads.toInt).toNat)) := by
  obtain ⟨hlength, hproduct⟩ := h
  have hs : (Int64.ofNat start).toInt = start := Int64.toInt_ofNat_of_lt (by omega)
  have he : (Int64.ofNat data.length).toInt = data.length := Int64.toInt_ofNat_of_lt (by omega)
  have hone : 1 ≤ workers start data.length threads.toInt := le_max_left _ _
  obtain ⟨count, hcount⟩ := Int.eq_ofNat_of_zero_le (by omega : 0 ≤ workers start data.length
    threads.toInt)
  rw [hcount] at hproduct ⊢
  have hposition (n : ℕ) (hn : n < count) : position start data.length count n =
      (start + (data.length - start) * n / count : ℕ) := by
    rw [position_of_lt (by omega) hproduct (by omega)]
    push_cast [Nat.cast_sub hlt.le]
    rfl
  have hstops : stops data start data.length count = evenStops newline data start count := by
    rw [stops, evenStops, Int.toNat_natCast, Int.toNat_natCast]
    congr 1
    apply List.map_congr_left
    intro n hn
    have hlt : n < count := by
      rw [List.mem_range'_1] at hn
      omega
    rw [cut, hposition n hlt, Int.toNat_natCast, Int.toNat_natCast, List.take_length]
  have hpositions (n : ℕ) (_ : 0 < n) (hn : (n : ℤ) < count) :
      0 ≤ position (Int64.ofNat start).toInt (Int64.ofNat data.length).toInt count n := by
    rw [hs, he, hposition n (by omega)]
    exact Int.natCast_nonneg _
  obtain ⟨chunks, hrun, hchunks⟩ := @splitChunks_eq data (Int64.ofNat start)
    (Int64.ofNat data.length) threads (by omega) (by omega) (by omega) count
    (by rw [hs, he, hcount]) hpositions
  rw [divide, hrun, Option.map_some]
  have hnat : chunks.map (Prod.map (·.toInt.toNat) (·.toInt.toNat)) =
      (chunks.map (Prod.map Int64.toInt Int64.toInt)).map (Prod.map Int.toNat Int.toNat) := by
    rw [List.map_map]
    rfl
  rw [hnat, hchunks, hs, he, Int.toNat_natCast, hstops, List.map_map, Int.toNat_natCast]
  simp [Function.comp_def, Prod.map]

/-- The first product that wraps around leads below the data. -/
theorem exists_position_neg {b t : ℤ} (hstart : start < 4096) (hb : 0 < b) (hlength : b < 2 ^ 61)
    (ht : 4096 * t ≤ b + 4096) (h : 2 ^ 63 ≤ b * (t - 1)) :
    ∃ n : ℕ, 0 < n ∧ n < t ∧ start + ((b * n).bmod (2 ^ 64)).tdiv t < 0 := by
  have hdiv := Int.emod_add_mul_ediv (2 ^ 63 + b - 1) b
  have hmod := Int.emod_nonneg (2 ^ 63 + b - 1) hb.ne'
  have hmod' := Int.emod_lt_of_pos (2 ^ 63 + b - 1) hb
  generalize (2 ^ 63 + b - 1) / b = q at hdiv
  have hqpos : 0 < q := by
    by_contra hq
    have hle := Int.mul_le_mul_of_nonneg_left (Int.le_of_not_gt hq) hb.le
    omega
  have hqt : q ≤ t - 1 := by
    by_contra hq
    have hle := Int.mul_le_mul_of_nonneg_left (show t ≤ q by omega) hb.le
    have hexpand : b * (t - 1) = b * t - b := by ring
    omega
  obtain ⟨n, rfl⟩ := Int.eq_ofNat_of_zero_le hqpos.le
  refine ⟨n, by omega, by omega, ?_⟩
  have hwrap : (b * n).bmod (2 ^ 64) = -(2 ^ 64 - b * n) := by
    rw [Int.bmod_def, Int.emod_eq_of_lt (by omega) (by push_cast; omega),
      if_neg (by push_cast; omega)]
    push_cast
    omega
  have hbelow : (start + 1 : ℤ) * t ≤ 2 ^ 64 - b * n := by
    have hle : (start + 1 : ℤ) * t ≤ 4096 * t :=
      Int.mul_le_mul_of_nonneg_right (by omega) (by omega)
    omega
  have hquot : (start + 1 : ℤ) ≤ (2 ^ 64 - b * n) / t :=
    (Int.le_ediv_iff_mul_le (by omega)).mpr hbelow
  rw [hwrap, Int.neg_tdiv, Int.tdiv_eq_ediv_of_nonneg (by omega)]
  omega

/-- A product that wraps around is a panic. -/
theorem divide_eq_none (hstart : start < 4096) (hlt : start < data.length)
    (hlength : data.length < 2 ^ 61) (h : ¬Dividable data start threads) :
    divide data start threads = none := by
  have hs : (Int64.ofNat start).toInt = start := Int64.toInt_ofNat_of_lt (by omega)
  have he : (Int64.ofNat data.length).toInt = data.length := Int64.toInt_ofNat_of_lt (by omega)
  have hproduct : 2 ^ 63 ≤ (data.length - start : ℤ) *
      (workers start data.length threads.toInt - 1) := by
    by_contra hsmall
    exact h ⟨by omega, Int.lt_of_not_ge hsmall⟩
  have hone : 1 < workers start data.length threads.toInt := by
    by_contra hle
    have hnonpos := Int.mul_nonpos_of_nonneg_of_nonpos (by omega : 0 ≤ (data.length - start : ℤ))
      (by omega : workers start data.length threads.toInt - 1 ≤ 0)
    omega
  have hworkers : 4096 * workers start data.length threads.toInt ≤
      (data.length - start : ℤ) + 4096 := by
    have hle : workers start data.length threads.toInt ≤
        max 1 ((data.length - start : ℤ) / 4096 + 1) := max_le_max (le_refl 1) (min_le_right _ _)
    omega
  obtain ⟨n, hn, hnt, hneg⟩ := exists_position_neg hstart (by omega) (by omega) hworkers hproduct
  rw [divide, splitChunks_neg (by omega) (by omega) rfl hn (by rwa [hs, he])
    (by rw [hs, he]; exact hneg)]
  rfl

/-- Data that were divided could be. -/
theorem dividable_of_divide (hstart : start < 4096) (hle : start ≤ data.length)
    (hlength : data.length < 2 ^ 61) {chunks : List (ℕ × ℕ)}
    (h : divide data start threads = some chunks) : Dividable data start threads := by
  by_contra hnot
  have hlt : start < data.length := by
    by_contra hge
    have heq : (data.length : ℤ) - start = 0 := by omega
    exact hnot ⟨by omega, by rw [heq, Int.zero_mul]; decide⟩
  rw [divide_eq_none hstart hlt hlength hnot] at h
  cases h

theorem le_length_csv (rows : List Row) : header.length + 1 ≤ (csv rows).length := by
  rw [csv, List.length_append, List.length_append, List.length_singleton]
  exact Nat.le_add_right _ _

/-- The chunks have all rows. -/
theorem divide_parts {rows : List Row} (hvalid : ∀ r ∈ rows, r.Valid)
    (h : Dividable (csv rows) (header.length + 1) threads) :
    ∃ chunks parts, divide (csv rows) (header.length + 1) threads = some chunks ∧
      parts.flatten = rows ∧ List.Forall₂ (Chunk (csv rows)) chunks parts := by
  by_cases hlt : header.length + 1 < (csv rows).length
  · obtain ⟨parts, hparts, hchunks⟩ := chunksUpTo_parts false hvalid
      (workers (header.length + 1 : ℕ) (csv rows).length threads.toInt).toNat
    exact ⟨_, parts, divide_eq hlt h, hparts, hchunks⟩
  · have hrows : rows = [] := by
      by_contra hne
      obtain ⟨r, rest, rfl⟩ := List.exists_cons_of_ne_nil hne
      have hpos := List.length_pos_of_ne_nil (hvalid r List.mem_cons_self).line_ne_nil
      simp only [csv, List.length_append, List.length_singleton, List.map_cons,
        List.flatten_cons] at hlt
      omega
    subst hrows
    exact ⟨[], [], rfl, rfl, .nil⟩

end Rows
end OneBrc.Analyzer.Chunks
