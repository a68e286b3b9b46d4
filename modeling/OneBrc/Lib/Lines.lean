import Mathlib.Data.List.Basic
import Mathlib.Data.List.Forall2

/-! Texts of terminated lines and their division into segments that end at the ends of lines. -/
namespace OneBrc.Lib.Lines
variable {α : Type*}

/-- A line ends at its only terminator. -/
def Terminated (nl : α) (line : List α) : Prop := ∃ body, line = body ++ [nl] ∧ nl ∉ body

/-- Where the first `k` lines after a header end. -/
def offset (header : List α) (lines : List (List α)) (k : ℕ) : ℕ :=
  header.length + ((lines.take k).flatten).length

/-- A position between two lines. -/
def IsCut (header : List α) (lines : List (List α)) (i : ℕ) : Prop :=
  ∃ k ≤ lines.length, i = offset header lines k

/-- The lines of a group fill the text from `chunk.1` to `chunk.2`. -/
def Segment (text : List α) (chunk : ℕ × ℕ) (group : List (List α)) : Prop :=
  text.drop chunk.1 = group.flatten ++ text.drop chunk.2 ∧ chunk.2 ≤ text.length

section Offset
variable {header : List α} {lines : List (List α)} {k k' : ℕ}

theorem drop_offset (header : List α) (lines : List (List α)) (k : ℕ) :
    (header ++ lines.flatten).drop (offset header lines k) = (lines.drop k).flatten := by
  rw [offset, List.drop_append, List.drop_eq_nil_of_le (Nat.le_add_right _ _), List.nil_append,
    Nat.add_sub_cancel_left]
  conv_lhs => rw [← List.take_append_drop k lines, List.flatten_append]
  rw [List.take_append_drop]
  exact List.drop_left

theorem offset_le (header : List α) (lines : List (List α)) (k : ℕ) :
    offset header lines k ≤ (header ++ lines.flatten).length := by
  have hsplit : lines.flatten.length = (lines.take k).flatten.length +
      (lines.drop k).flatten.length := by
    rw [← List.length_append, ← List.flatten_append, List.take_append_drop]
  rw [offset, List.length_append]
  omega

theorem offset_zero : offset header lines 0 = header.length := by simp [offset]

theorem offset_length : offset header lines lines.length = (header ++ lines.flatten).length := by
  rw [offset, List.take_length, List.length_append]

/-- Lines that are not empty have different offsets. -/
theorem le_of_offset_le (hne : ∀ l ∈ lines, l ≠ []) (hk : k ≤ lines.length)
    (h : offset header lines k ≤ offset header lines k') : k ≤ k' := by
  by_contra hlt
  have hlt' : k' < lines.length := by omega
  have hsplit : lines.take k = lines.take k' ++ (lines.take k).drop k' := by
    conv_lhs => rw [← List.take_append_drop k' (lines.take k)]
    rw [List.take_take, Nat.min_eq_left (by omega)]
  have hmem : lines[k'] ∈ (lines.take k).drop k' := by
    rw [List.mem_iff_getElem?]
    refine ⟨0, ?_⟩
    rw [List.getElem?_drop, List.getElem?_take, if_pos (by omega)]
    exact List.getElem?_eq_getElem hlt'
  have hpos : 0 < ((lines.take k).drop k').flatten.length := by
    rw [List.length_pos_iff, Ne, List.flatten_eq_nil_iff]
    intro hall
    exact hne _ (List.getElem_mem hlt') (hall _ hmem)
  rw [offset, offset, hsplit, List.flatten_append, List.length_append] at h
  omega

theorem segment_of_le (h : k ≤ k') :
    Segment (header ++ lines.flatten) (offset header lines k, offset header lines k')
      ((lines.drop k).take (k' - k)) := by
  refine ⟨?_, offset_le header lines k'⟩
  rw [drop_offset, drop_offset, ← List.flatten_append]
  congr 1
  conv_lhs => rw [← List.take_append_drop (k' - k) (lines.drop k)]
  rw [List.drop_drop, show k + (k' - k) = k' by omega]

end Offset

section Newline
variable [DecidableEq α] {nl : α}

/-- The first terminator from `t` on. -/
def indexFrom (nl : α) (text : List α) (t : ℕ) : Option ℕ :=
  ((text.drop t).findIdx? fun c => decide (c = nl)).map (t + ·)

/-- The end of the line at `t`. -/
def nextCut (nl : α) (text : List α) (t : ℕ) : ℕ :=
  match indexFrom nl text t with
  | some i => i + 1
  | none => text.length

theorem indexFrom_eq_some {text : List α} {t i : ℕ} (h : indexFrom nl text t = some i) :
    t ≤ i ∧ text[i]? = some nl ∧ ∀ j, t ≤ j → text[j]? = some nl → i ≤ j := by
  obtain ⟨d, hd, rfl⟩ := Option.map_eq_some_iff.mp h
  rw [List.findIdx?_eq_some_iff_getElem] at hd
  obtain ⟨hlt, hnl, hbefore⟩ := hd
  refine ⟨Nat.le_add_right t d, ?_, ?_⟩
  · rw [← List.getElem?_drop, List.getElem?_eq_getElem hlt]
    exact congrArg some (of_decide_eq_true hnl)
  · intro j hj hjnl
    by_contra hij
    have hjlt : j - t < d := by omega
    have hjd : (text.drop t)[j - t]? = some nl := by
      rw [List.getElem?_drop, show t + (j - t) = j by omega]
      exact hjnl
    rw [List.getElem?_eq_getElem (by omega)] at hjd
    exact hbefore (j - t) hjlt (decide_eq_true (Option.some.inj hjd))

theorem indexFrom_eq_none {text : List α} {t j : ℕ} (h : indexFrom nl text t = none)
    (hj : t ≤ j) : text[j]? ≠ some nl := by
  intro hnl
  rw [indexFrom, Option.map_eq_none_iff, List.findIdx?_eq_none_iff] at h
  have hmem : nl ∈ text.drop t := by
    rw [List.mem_iff_getElem?]
    exact ⟨j - t, by rwa [List.getElem?_drop, show t + (j - t) = j by omega]⟩
  simpa using h nl hmem

/-- The terminator of the line at `t`. -/
theorem indexFrom_of_drop {text body rest : List α} {t : ℕ} (h : text.drop t = body ++ nl :: rest)
    (hbody : nl ∉ body) : indexFrom nl text t = some (t + body.length) := by
  rw [indexFrom, h, List.findIdx?_append, List.findIdx?_eq_none_iff.mpr, List.findIdx?_cons]
  · simp
  · intro c hc
    exact decide_eq_false fun heq => hbody (heq ▸ hc)

theorem nextCut_le (text : List α) (t : ℕ) : nextCut nl text t ≤ text.length := by
  unfold nextCut
  split
  · next i h =>
    obtain ⟨hlt, -⟩ := List.getElem?_eq_some_iff.mp (indexFrom_eq_some h).2.1
    exact hlt
  · exact Nat.le_refl _

theorem le_nextCut {text : List α} {t : ℕ} (ht : t ≤ text.length) : t ≤ nextCut nl text t := by
  unfold nextCut
  split
  · next i h =>
    have hle := (indexFrom_eq_some h).1
    omega
  · exact ht

theorem nextCut_mono {text : List α} {t t' : ℕ} (h : t ≤ t') :
    nextCut nl text t ≤ nextCut nl text t' := by
  cases ht' : indexFrom nl text t' with
  | none =>
    rw [nextCut.eq_def nl text t', ht']
    exact nextCut_le text t
  | some i' =>
    obtain ⟨hle, hnl, -⟩ := indexFrom_eq_some ht'
    cases ht : indexFrom nl text t with
    | none => exact absurd hnl (indexFrom_eq_none ht (Nat.le_trans h hle))
    | some i =>
      have hi := (indexFrom_eq_some ht).2.2 i' (Nat.le_trans h hle) hnl
      simp only [nextCut, ht, ht']
      omega

/-- A search that goes on after elements that are no terminators. -/
theorem nextCut_add {text : List α} {t n : ℕ} (h : nl ∉ (text.drop t).take n) :
    nextCut nl text (t + n) = nextCut nl text t := by
  have hindex : indexFrom nl text t = indexFrom nl text (t + n) := by
    have hnone : ((text.drop t).take n).findIdx? (fun c => decide (c = nl)) = none := by
      rw [List.findIdx?_eq_none_iff]
      intro c hc
      exact decide_eq_false fun heq => h (heq ▸ hc)
    by_cases hn : n ≤ (text.drop t).length
    · have hdrop : text.drop t = (text.drop t).take n ++ text.drop (t + n) := by
        rw [← List.drop_drop, List.take_append_drop]
      rw [indexFrom, indexFrom, hdrop, List.findIdx?_append, hnone, List.length_take,
        Nat.min_eq_left hn]
      cases (text.drop (t + n)).findIdx? (fun c => decide (c = nl)) <;> simp
      omega
    · have hall : (text.drop t).take n = text.drop t := List.take_of_length_le (by omega)
      rw [List.length_drop] at hn
      rw [hall] at hnone
      rw [indexFrom, indexFrom, hnone, List.drop_eq_nil_of_le (by omega)]
      rfl
  simp only [nextCut, hindex]

omit [DecidableEq α] in
/-- A terminator is the last element of a line. -/
theorem exists_take_of_getElem? {lines : List (List α)} (hl : ∀ l ∈ lines, Terminated nl l)
    {i : ℕ} (h : lines.flatten[i]? = some nl) :
    ∃ k ≤ lines.length, i + 1 = (lines.take k).flatten.length := by
  induction lines generalizing i with
  | nil => simp at h
  | cons l ls ih =>
    obtain ⟨body, rfl, hbody⟩ := hl l List.mem_cons_self
    rw [List.flatten_cons] at h
    by_cases hi : i < (body ++ [nl]).length
    · refine ⟨1, by simp, ?_⟩
      rw [List.getElem?_append_left hi] at h
      have hlast : ¬ i < body.length := by
        intro hib
        rw [List.getElem?_append_left hib] at h
        exact hbody (List.mem_of_getElem? h)
      simp only [List.length_append, List.length_singleton] at hi
      simp
      omega
    · rw [List.getElem?_append_right (by omega)] at h
      obtain ⟨k, hk, hik⟩ := ih (fun l hl' => hl l (List.mem_cons_of_mem _ hl')) h
      refine ⟨k + 1, by simpa using hk, ?_⟩
      rw [List.take_succ_cons, List.flatten_cons, List.length_append, ← hik]
      omega

/-- The ends of lines are cuts. -/
theorem isCut_nextCut {header : List α} {lines : List (List α)}
    (hl : ∀ l ∈ lines, Terminated nl l) {t : ℕ} (ht : header.length ≤ t) :
    IsCut header lines (nextCut nl (header ++ lines.flatten) t) := by
  unfold nextCut
  split
  · next i h =>
    obtain ⟨hle, hnl, -⟩ := indexFrom_eq_some h
    rw [List.getElem?_append_right (by omega)] at hnl
    obtain ⟨k, hk, hik⟩ := exists_take_of_getElem? hl hnl
    refine ⟨k, hk, ?_⟩
    rw [offset, ← hik]
    omega
  · exact ⟨lines.length, Nat.le_refl _, offset_length.symm⟩

end Newline

/-- The chunks so far are groups of lines and end at `i`. -/
def Split (header : List α) (lines : List (List α)) (chunks : List (ℕ × ℕ)) (i : ℕ) : Prop :=
  ∃ groups k, k ≤ lines.length ∧ i = offset header lines k ∧ groups.flatten = lines.take k ∧
    List.Forall₂ (Segment (header ++ lines.flatten)) chunks groups

namespace Split
variable {header : List α} {lines : List (List α)} {chunks : List (ℕ × ℕ)} {i j : ℕ}

theorem nil (header : List α) (lines : List (List α)) : Split header lines [] header.length :=
  ⟨[], 0, Nat.zero_le _, offset_zero.symm, rfl, .nil⟩

/-- The next chunk ends at a later cut. -/
theorem concat (h : Split header lines chunks i) (hne : ∀ l ∈ lines, l ≠ [])
    (hj : IsCut header lines j) (hle : i ≤ j) : Split header lines (chunks ++ [(i, j)]) j := by
  obtain ⟨groups, k, hk, rfl, hgroups, hsegments⟩ := h
  obtain ⟨k', hk', rfl⟩ := hj
  have hkk : k ≤ k' := le_of_offset_le hne hk hle
  refine ⟨groups ++ [(lines.drop k).take (k' - k)], k', hk', rfl, ?_, ?_⟩
  · rw [List.flatten_append, hgroups, List.flatten_singleton, ← List.take_add,
      show k + (k' - k) = k' by omega]
  · exact List.rel_append hsegments (.cons (segment_of_le hkk) .nil)

/-- Chunks up to the end of the text hold all lines. -/
theorem finish (h : Split header lines chunks (header ++ lines.flatten).length)
    (hne : ∀ l ∈ lines, l ≠ []) :
    ∃ groups, groups.flatten = lines ∧
      List.Forall₂ (Segment (header ++ lines.flatten)) chunks groups := by
  obtain ⟨groups, k, hk, hi, hgroups, hsegments⟩ := h
  rw [← offset_length] at hi
  have hle : lines.length ≤ k := le_of_offset_le hne (Nat.le_refl _) (Nat.le_of_eq hi)
  refine ⟨groups, ?_, hsegments⟩
  rw [hgroups, List.take_of_length_le hle]

end Split

section Chunks
variable {header : List α} {lines : List (List α)} {keepEmpty : Bool}

/-- The chunk up to a position, which an empty one may be left out of. -/
def chunkUpTo (keepEmpty : Bool) (state : List (ℕ × ℕ) × ℕ) (stop : ℕ) : List (ℕ × ℕ) × ℕ :=
  (if keepEmpty ∨ state.2 < stop then state.1 ++ [(state.2, stop)] else state.1, stop)

/-- The chunks from `start` that end at the positions of a list. -/
def chunksUpTo (keepEmpty : Bool) (start : ℕ) (stops : List ℕ) : List (ℕ × ℕ) :=
  (stops.foldl (chunkUpTo keepEmpty) ([], start)).1

/-- With empty ones there is a chunk for each position. -/
theorem length_chunksUpTo_true (start : ℕ) (stops : List ℕ) :
    (chunksUpTo true start stops).length = stops.length := by
  have hfold (state : List (ℕ × ℕ) × ℕ) :
      (stops.foldl (chunkUpTo true) state).1.length = state.1.length + stops.length := by
    induction stops generalizing state with
    | nil => rfl
    | cons stop stops ih =>
      rw [List.foldl_cons, ih]
      simp only [chunkUpTo, true_or, if_true, List.length_append, List.length_cons,
        List.length_nil]
      omega
  exact (hfold ([], start)).trans (Nat.zero_add _)

/-- With empty ones each chunk ends where the next one begins. -/
theorem chunksUpTo_true (start : ℕ) (stops : List ℕ) :
    chunksUpTo true start stops = (start :: stops).zip stops := by
  have hfold (chunks : List (ℕ × ℕ)) (i : ℕ) : (stops.foldl (chunkUpTo true) (chunks, i)).1 =
      chunks ++ (i :: stops).zip stops := by
    induction stops generalizing chunks i with
    | nil => simp
    | cons stop stops ih =>
      rw [List.foldl_cons, chunkUpTo, ih]
      simp
  exact hfold [] start

variable (keepEmpty) in
theorem Split.chunkUpTo {state : List (ℕ × ℕ) × ℕ} (h : Split header lines state.1 state.2)
    (hne : ∀ l ∈ lines, l ≠ []) {stop : ℕ} (hstop : IsCut header lines stop)
    (hle : state.2 ≤ stop) :
    Split header lines (chunkUpTo keepEmpty state stop).1 (chunkUpTo keepEmpty state stop).2 := by
  unfold Lines.chunkUpTo
  split
  · exact h.concat hne hstop hle
  · next hskip =>
    rw [not_or, Nat.not_lt] at hskip
    have hsame : state.2 = stop := Nat.le_antisymm hle hskip.2
    exact hsame ▸ h

variable (keepEmpty) in
private theorem split_foldl (hne : ∀ l ∈ lines, l ≠ []) {stops : List ℕ}
    {state : List (ℕ × ℕ) × ℕ} (h : Split header lines state.1 state.2)
    (hcuts : ∀ stop ∈ stops, IsCut header lines stop)
    (hsorted : (state.2 :: stops).Pairwise (· ≤ ·)) :
    Split header lines (stops.foldl (chunkUpTo keepEmpty) state).1
      ((state.2 :: stops).getLast (List.cons_ne_nil _ _)) := by
  induction stops generalizing state with
  | nil => exact h
  | cons stop stops ih =>
    have hle : state.2 ≤ stop := (List.pairwise_cons.mp hsorted).1 stop List.mem_cons_self
    have hstep := h.chunkUpTo keepEmpty hne (hcuts stop List.mem_cons_self) hle
    have hrest := ih hstep (fun stop' hmem => hcuts stop' (List.mem_cons_of_mem _ hmem))
      (List.pairwise_cons.mp hsorted).2
    rw [List.foldl_cons, List.getLast_cons (List.cons_ne_nil _ _)]
    exact hrest

/-- Chunks that end at the ends of lines, the last at the end of the text, hold all lines. -/
theorem exists_groups {stops : List ℕ} (hne : ∀ l ∈ lines, l ≠ [])
    (hcuts : ∀ stop ∈ stops, IsCut header lines stop)
    (hsorted : (header.length :: stops).Pairwise (· ≤ ·))
    (hlast : (header.length :: stops).getLast (List.cons_ne_nil _ _) =
      (header ++ lines.flatten).length) :
    ∃ groups, groups.flatten = lines ∧ List.Forall₂ (Segment (header ++ lines.flatten))
      (chunksUpTo keepEmpty header.length stops) groups := by
  have hsplit := split_foldl keepEmpty hne
    (show Split header lines ([], header.length).1 ([], header.length).2 from
      Split.nil header lines) hcuts hsorted
  rw [hlast] at hsplit
  exact hsplit.finish hne

end Chunks

/-- Groups of the images of a list are images of groups. -/
theorem exists_map_groups {β : Type*} {f : β → List α} {groups : List (List (List α))}
    {rows : List β} (h : groups.flatten = rows.map f) :
    ∃ parts : List (List β), parts.flatten = rows ∧ groups = parts.map fun part => part.map f := by
  induction groups generalizing rows with
  | nil => exact ⟨[], by simpa [eq_comm] using h, rfl⟩
  | cons g groups ih =>
    obtain ⟨part, rest, rfl, rfl, hrest⟩ := List.map_eq_append_iff.mp h.symm
    obtain ⟨parts, rfl, rfl⟩ := ih hrest.symm
    exact ⟨part :: parts, rfl, rfl⟩

section Targets
variable [DecidableEq α] {nl : α} {header : List α} {lines : List (List α)} {keepEmpty : Bool}

/-- The ends of the lines at `count` equal parts of the text after the header. -/
def evenStops (nl : α) (text : List α) (start count : ℕ) : List ℕ :=
  (List.range' 1 (count - 1)).map (fun i =>
    nextCut nl text (start + (text.length - start) * i / count)) ++ [text.length]

variable (header keepEmpty) in
/-- Chunks that end with the lines at positions of an increasing list, and with the text. -/
theorem exists_groups_targets (hl : ∀ l ∈ lines, Terminated nl l) {targets : List ℕ}
    (hlow : ∀ t ∈ targets, header.length ≤ t) (hsorted : targets.Pairwise (· ≤ ·)) :
    ∃ groups, groups.flatten = lines ∧ List.Forall₂ (Segment (header ++ lines.flatten))
      (chunksUpTo keepEmpty header.length (targets.map (nextCut nl (header ++ lines.flatten)) ++
        [(header ++ lines.flatten).length])) groups := by
  have hne : ∀ l ∈ lines, l ≠ [] := by
    intro l hmem
    obtain ⟨body, rfl, -⟩ := hl l hmem
    simp
  have hheader : header.length ≤ (header ++ lines.flatten).length := by simp
  have hend : IsCut header lines (header ++ lines.flatten).length :=
    ⟨lines.length, Nat.le_refl _, offset_length.symm⟩
  apply exists_groups hne
  · intro stop hstop
    rcases List.mem_append.mp hstop with hmem | hmem
    · obtain ⟨t, ht, rfl⟩ := List.mem_map.mp hmem
      exact isCut_nextCut hl (hlow t ht)
    · rw [List.mem_singleton.mp hmem]
      exact hend
  · rw [List.pairwise_cons]
    constructor
    · intro stop hstop
      rcases List.mem_append.mp hstop with hmem | hmem
      · obtain ⟨t, ht, rfl⟩ := List.mem_map.mp hmem
        exact Nat.le_trans (le_nextCut hheader) (nextCut_mono (hlow t ht))
      · rw [List.mem_singleton.mp hmem]
        exact hheader
    · rw [List.pairwise_append]
      refine ⟨?_, List.pairwise_singleton _ _, ?_⟩
      · rw [List.pairwise_map]
        exact hsorted.imp fun hle => nextCut_mono hle
      · intro stop hstop stop' hstop'
        obtain ⟨t, -, rfl⟩ := List.mem_map.mp hstop
        rw [List.mem_singleton.mp hstop']
        exact nextCut_le _ _
  · simp

variable (header keepEmpty) in
/-- A text divided evenly among workers. -/
theorem exists_groups_evenStops (hl : ∀ l ∈ lines, Terminated nl l) (count : ℕ) :
    ∃ groups, groups.flatten = lines ∧ List.Forall₂ (Segment (header ++ lines.flatten))
      (chunksUpTo keepEmpty header.length
        (evenStops nl (header ++ lines.flatten) header.length count)) groups := by
  have hstops : evenStops nl (header ++ lines.flatten) header.length count =
      ((List.range' 1 (count - 1)).map fun i => header.length +
        ((header ++ lines.flatten).length - header.length) * i / count).map
          (nextCut nl (header ++ lines.flatten)) ++ [(header ++ lines.flatten).length] := by
    rw [evenStops, List.map_map]
    rfl
  rw [hstops]
  apply exists_groups_targets header keepEmpty hl
  · intro t ht
    obtain ⟨i, -, rfl⟩ := List.mem_map.mp ht
    exact Nat.le_add_right _ _
  · rw [List.pairwise_map]
    apply (List.pairwise_lt_range' (s := 1) (n := count - 1)).imp
    intro i j hij
    have hmul := Nat.mul_le_mul_left ((header ++ lines.flatten).length - header.length)
      (Nat.le_of_lt hij)
    exact Nat.add_le_add_left (Nat.div_le_div_right hmul) _

end Targets
section Reader
variable [DecidableEq α] {nl : α}

/-- The lines of a text with their terminators, which the last one may lack. -/
def split (nl : α) : List α → List (List α)
  | [] => []
  | c :: text =>
      if c = nl then [c] :: split nl text
      else match split nl text with
        | [] => [[c]]
        | line :: lines => (c :: line) :: lines

theorem split_line {line : List α} (h : Terminated nl line) (text : List α) :
    split nl (line ++ text) = line :: split nl text := by
  obtain ⟨body, rfl, hbody⟩ := h
  induction body with
  | nil => simp [split]
  | cons c body ih =>
    have hc : c ≠ nl := fun heq => hbody (heq ▸ List.mem_cons_self)
    rw [List.cons_append, List.cons_append, split, if_neg hc,
      ih fun hmem => hbody (List.mem_cons_of_mem _ hmem)]

theorem split_flatten_append {lines : List (List α)} (h : ∀ l ∈ lines, Terminated nl l)
    (text : List α) : split nl (lines.flatten ++ text) = lines ++ split nl text := by
  induction lines with
  | nil => rfl
  | cons l lines ih =>
    rw [List.flatten_cons, List.append_assoc, split_line (h l List.mem_cons_self),
      ih fun l' hl' => h l' (List.mem_cons_of_mem _ hl'), List.cons_append]

/-- The lines of a text of terminated lines. -/
theorem split_flatten {lines : List (List α)} (h : ∀ l ∈ lines, Terminated nl l) :
    split nl lines.flatten = lines := by
  have happend := split_flatten_append h []
  rwa [List.append_nil, split, List.append_nil] at happend

/-- A text that is split piece by piece: the last part is carried over to the next piece. -/
theorem exists_splitOn_append (nl : α) (xs ys : List α) :
    ∃ front last, nl ∉ last ∧ xs.splitOn nl = front ++ [last] ∧
      (xs ++ ys).splitOn nl = front ++ (last ++ ys).splitOn nl := by
  induction xs with
  | nil => exact ⟨[], [], List.not_mem_nil, by simp, rfl⟩
  | cons x xs ih =>
    obtain ⟨front, last, hlast, hsplit, happend⟩ := ih
    rw [List.cons_append, List.splitOn_cons_eq_if_modifyHead,
      List.splitOn_cons_eq_if_modifyHead, hsplit, happend]
    by_cases hx : (x == nl) = true
    · rw [if_pos hx, if_pos hx]
      exact ⟨[] :: front, last, hlast, rfl, rfl⟩
    · rw [if_neg hx, if_neg hx]
      cases front with
      | nil =>
        have hne : nl ≠ x := fun heq => hx (beq_iff_eq.mpr heq.symm)
        refine ⟨[], x :: last, List.not_mem_cons_of_ne_of_not_mem hne hlast, rfl, ?_⟩
        rw [List.nil_append, List.nil_append, List.cons_append,
          List.splitOn_cons_eq_if_modifyHead, if_neg hx]
      | cons f front => exact ⟨(x :: f) :: front, last, hlast, rfl, rfl⟩

/-- The lines of a text without their terminators, and nothing after the last one. -/
theorem splitOn_flatten {bodies : List (List α)} (h : ∀ body ∈ bodies, nl ∉ body) :
    ((bodies.map fun body => body ++ [nl]).flatten).splitOn nl = bodies ++ [[]] := by
  induction bodies with
  | nil => simp
  | cons body bodies ih =>
    obtain ⟨hbody, hbodies⟩ := List.forall_mem_cons.mp h
    rw [List.map_cons, List.flatten_cons, List.append_assoc, List.singleton_append,
      List.splitOn_append_cons_self_of_not_mem hbody, ih hbodies, List.cons_append]

end Reader

end OneBrc.Lib.Lines
