import Mathlib.Data.List.Chain
import Mathlib.Data.Nat.Basic
import Mathlib.Tactic.MkIffOfInductiveProp
import OneBrc.Lib.Lines

/-! Divisions of a text at the ends of lines, and when chunks up to given positions are one. -/
namespace OneBrc.Lib.Lines
variable {α : Type*}

section Newline
variable [DecidableEq α] {nl : α}

/-- A later search ends where an earlier one does, unless a terminator lies between them. -/
theorem nextCut_le_nextCut_iff {text : List α} {t t' : ℕ} (ht : t < text.length) :
    nextCut nl text t ≤ nextCut nl text t' ↔ ∀ k, t' ≤ k → k < t → text[k]? ≠ some nl := by
  constructor
  · intro hle k hk hkt hnl
    have hpast : t < nextCut nl text t := by
      unfold nextCut
      split
      · next i hi => exact Nat.lt_succ_of_le (indexFrom_eq_some hi).1
      · exact ht
    have hcut : nextCut nl text t' ≤ k + 1 := by
      cases hi : indexFrom nl text t' with
      | none => exact absurd hnl (indexFrom_eq_none hi hk)
      | some i =>
        rw [nextCut, hi]
        exact Nat.succ_le_succ ((indexFrom_eq_some hi).2.2 k hk hnl)
    omega
  · intro hnone
    by_cases hle : t ≤ t'
    · exact nextCut_mono hle
    · have hbetween : nl ∉ (text.drop t').take (t - t') := by
        intro hmem
        obtain ⟨k, hk⟩ := List.mem_iff_getElem?.mp hmem
        rw [List.getElem?_take] at hk
        split at hk
        · next hlt =>
          rw [List.getElem?_drop] at hk
          exact hnone (t' + k) (Nat.le_add_right t' k) (by omega) hk
        · cases hk
      have heq := nextCut_add hbetween
      rw [Nat.add_sub_cancel' (Nat.le_of_not_le hle)] at heq
      exact Nat.le_of_eq heq

theorem le_nextCut_iff {text : List α} {s t : ℕ} (hs : s ≤ text.length) :
    s ≤ nextCut nl text t ↔ ∀ k, t ≤ k → k + 1 < s → text[k]? ≠ some nl := by
  unfold nextCut
  split
  · next i hi =>
    obtain ⟨hle, hnl, hfirst⟩ := indexFrom_eq_some hi
    constructor
    · intro hsi k hk hks hknl
      have hik := hfirst k hk hknl
      omega
    · intro hnone
      by_contra hlt
      exact hnone i hle (by omega) hnl
  · next hi => exact iff_of_true hs fun k hk _ => indexFrom_eq_none hi hk

/-- A search within a line ends where the line does. -/
theorem nextCut_offset {header : List α} {lines : List (List α)}
    (hl : ∀ l ∈ lines, Terminated nl l) {k m : ℕ} (hk : k < lines.length)
    (hm : m < lines[k].length) :
    nextCut nl (header ++ lines.flatten) (offset header lines k + m) =
      offset header lines (k + 1) := by
  obtain ⟨body, hline, hbody⟩ := hl lines[k] (List.getElem_mem hk)
  rw [hline, List.length_append, List.length_singleton] at hm
  have hdrop : (header ++ lines.flatten).drop (offset header lines k + m) =
      body.drop m ++ nl :: (lines.drop (k + 1)).flatten := by
    rw [← List.drop_drop, drop_offset, List.drop_eq_getElem_cons hk, List.flatten_cons, hline,
      List.append_assoc, List.drop_append, Nat.sub_eq_zero_of_le (by omega)]
    rfl
  have hnext : offset header lines (k + 1) = offset header lines k + (body.length + 1) := by
    rw [offset, offset, List.take_succ_eq_append_getElem hk, List.flatten_append,
      List.length_append, List.flatten_singleton, hline, List.length_append, Nat.add_assoc]
    rfl
  rw [nextCut, indexFrom_of_drop hdrop fun hmem => hbody (List.mem_of_mem_drop hmem), hnext,
    List.length_drop]
  dsimp only
  omega

end Newline

/-- The positions from `start` to `stop` in chunks, between which lines end. -/
@[mk_iff] structure Division {ι : Type*} [LT ι] (lineEnd : ι → Prop) (start stop : ι)
    (chunks : List (ι × ι)) : Prop where
  nonempty : ∀ c ∈ chunks, c.1 < c.2
  consecutive : chunks.IsChain fun c c' => c.2 = c'.1
  first : ∀ c, chunks.head? = some c → c.1 = start
  last : ∀ c, chunks.getLast? = some c → c.2 = stop
  nil_iff : chunks = [] ↔ start = stop
  lineEnds : chunks.IsChain fun c _ => lineEnd c.2

namespace Division
variable {ι : Type*} [Preorder ι] {lineEnd : ι → Prop} {start mid stop : ι}
  {c : ι × ι} {chunks : List (ι × ι)}

theorem nil (lineEnd : ι → Prop) (start : ι) : Division lineEnd start start [] where
  nonempty _ hc := absurd hc List.not_mem_nil
  consecutive := .nil
  first _ hc := by cases hc
  last _ hc := by cases hc
  nil_iff := iff_of_true rfl rfl
  lineEnds := .nil

/-- Consecutive chunks that are not empty lead upwards. -/
theorem lt_getLast (hlt : ∀ d ∈ c :: chunks, d.1 < d.2)
    (hchain : (c :: chunks).IsChain fun c c' => c.2 = c'.1) :
    c.1 < ((c :: chunks).getLast (List.cons_ne_nil _ _)).2 := by
  induction chunks generalizing c with
  | nil => exact hlt c List.mem_cons_self
  | cons d chunks ih =>
    obtain ⟨heq, htail⟩ := List.isChain_cons_cons.mp hchain
    rw [List.getLast_cons (List.cons_ne_nil _ _)]
    calc c.1 < c.2 := hlt c List.mem_cons_self
      _ = d.1 := heq
      _ < _ := ih (fun e he => hlt e (List.mem_cons_of_mem _ he)) htail

theorem getLast (h : Division lineEnd start stop (c :: chunks)) :
    ((c :: chunks).getLast (List.cons_ne_nil _ _)).2 = stop :=
  h.last _ (List.getLast?_eq_some_getLast (List.cons_ne_nil c chunks))

theorem le (h : Division lineEnd start stop chunks) : start ≤ stop := by
  cases chunks with
  | nil => exact le_of_eq (h.nil_iff.mp rfl)
  | cons c chunks =>
    have hlt := lt_getLast h.nonempty h.consecutive
    rw [h.first c rfl, h.getLast] at hlt
    exact le_of_lt hlt

/-- A chunk in front of a division. -/
theorem cons (h : Division lineEnd mid stop chunks) (hlt : start < mid)
    (hmid : lineEnd mid ∨ mid = stop) : Division lineEnd start stop ((start, mid) :: chunks) := by
  have hne : start ≠ stop := ne_of_lt (lt_of_lt_of_le hlt h.le)
  have hfirst (c : ι × ι) (hc : some (start, mid) = some c) : c.1 = start := by
    obtain rfl := Option.some.inj hc
    rfl
  cases chunks with
  | nil =>
    constructor
    · exact List.forall_mem_singleton.mpr hlt
    · exact .singleton _
    · exact hfirst
    · intro c hc
      obtain rfl := Option.some.inj hc
      exact h.nil_iff.mp rfl
    · exact iff_of_false (List.cons_ne_nil _ _) hne
    · exact .singleton _
  | cons c chunks =>
    have hmid' : mid ≠ stop := fun heq => List.cons_ne_nil c chunks (h.nil_iff.mpr heq)
    constructor
    · exact List.forall_mem_cons.mpr ⟨hlt, h.nonempty⟩
    · exact List.isChain_cons_cons.mpr ⟨(h.first c rfl).symm, h.consecutive⟩
    · exact hfirst
    · intro d hd
      rw [List.getLast?_cons_cons] at hd
      exact h.last d hd
    · exact iff_of_false (List.cons_ne_nil _ _) hne
    · exact List.isChain_cons_cons.mpr ⟨hmid.resolve_right hmid', h.lineEnds⟩

/-- The rest of a division after its first chunk. -/
theorem tail (h : Division lineEnd start stop (c :: chunks)) :
    Division lineEnd c.2 stop chunks := by
  cases chunks with
  | nil =>
    rw [h.last c rfl]
    exact nil lineEnd stop
  | cons d chunks =>
    obtain ⟨heq, hchain⟩ := List.isChain_cons_cons.mp h.consecutive
    have hnonempty : ∀ e ∈ d :: chunks, e.1 < e.2 :=
      fun e he => h.nonempty e (List.mem_cons_of_mem _ he)
    have hlast (e : ι × ι) (he : (d :: chunks).getLast? = some e) : e.2 = stop :=
      h.last e (by rwa [List.getLast?_cons_cons])
    constructor
    · exact hnonempty
    · exact hchain
    · intro e he
      obtain rfl := Option.some.inj he
      exact heq.symm
    · exact hlast
    · have hlt := lt_getLast hnonempty hchain
      rw [← heq, hlast _ (List.getLast?_eq_some_getLast (List.cons_ne_nil d chunks))] at hlt
      exact iff_of_false (List.cons_ne_nil _ _) (ne_of_lt hlt)
    · exact (List.isChain_cons_cons.mp h.lineEnds).2

/-- The positions of a division as positions of another kind. -/
theorem map_iff {κ : Type*} [LT κ] {f : ι → κ} (hf : ∀ {i j}, f i < f j ↔ i < j)
    (hinj : Function.Injective f) {lineEnd' : κ → Prop}
    (hends : ∀ {i}, lineEnd' (f i) ↔ lineEnd i) :
    Division lineEnd' (f start) (f stop) (chunks.map (Prod.map f f)) ↔
      Division lineEnd start stop chunks := by
  simp only [division_iff, List.forall_mem_map, List.isChain_map, Prod.map_fst, Prod.map_snd, hf,
    hinj.eq_iff, hends, List.map_eq_nil_iff, List.head?_map, List.getLast?_map,
    Option.map_eq_some_iff, forall_exists_index, and_imp, forall_apply_eq_imp_iff₂]

end Division

section Chunks
variable {keepEmpty : Bool}

theorem foldl_chunkUpTo (stops : List ℕ) (chunks : List (ℕ × ℕ)) (start : ℕ) :
    (stops.foldl (chunkUpTo keepEmpty) (chunks, start)).1 =
      chunks ++ chunksUpTo keepEmpty start stops := by
  induction stops generalizing chunks start with
  | nil => simp [chunksUpTo]
  | cons stop stops ih =>
    rw [chunksUpTo, List.foldl_cons, List.foldl_cons, chunkUpTo, chunkUpTo, ih, ih]
    by_cases hkeep : keepEmpty ∨ start < stop
    · simp only [if_pos hkeep, List.nil_append, List.append_assoc]
    · simp only [if_neg hkeep, List.nil_append]

theorem chunksUpTo_false_cons (start stop : ℕ) (stops : List ℕ) :
    chunksUpTo false start (stop :: stops) =
      if start < stop then (start, stop) :: chunksUpTo false stop stops
      else chunksUpTo false stop stops := by
  rw [chunksUpTo, List.foldl_cons, chunkUpTo, foldl_chunkUpTo]
  simp only [Bool.false_eq_true, false_or]
  split
  · rfl
  · rfl

/-- There are no more chunks than positions. -/
theorem length_chunksUpTo_false_le (start : ℕ) (stops : List ℕ) :
    (chunksUpTo false start stops).length ≤ stops.length := by
  induction stops generalizing start with
  | nil => exact Nat.le_refl 0
  | cons stop stops ih =>
    have hle := ih stop
    rw [chunksUpTo_false_cons]
    split
    · exact Nat.succ_le_succ hle
    · exact Nat.le_succ_of_le hle

/-- Positions that lead above the start have a chunk, and the first one begins no later than it. -/
theorem exists_head_chunksUpTo {start : ℕ} {stops : List ℕ}
    (h : start < (start :: stops).getLast (List.cons_ne_nil _ _)) :
    ∃ c, (chunksUpTo false start stops).head? = some c ∧ c.1 ≤ start := by
  induction stops generalizing start with
  | nil => exact absurd h (Nat.lt_irrefl start)
  | cons stop stops ih =>
    rw [List.getLast_cons (List.cons_ne_nil _ _)] at h
    rw [chunksUpTo_false_cons]
    split
    · exact ⟨(start, stop), rfl, Nat.le_refl start⟩
    · next hle =>
      obtain ⟨c, hc, hcstop⟩ := ih (Nat.lt_of_le_of_lt (Nat.le_of_not_lt hle) h)
      exact ⟨c, hc, Nat.le_trans hcstop (Nat.le_of_not_lt hle)⟩

/-- Chunks up to the positions of a list divide the text just when the positions increase. -/
theorem division_chunksUpTo_iff {lineEnd : ℕ → Prop} {start stop : ℕ} {stops : List ℕ}
    (hends : ∀ i ∈ stops, lineEnd i ∨ i = stop)
    (hlast : (start :: stops).getLast (List.cons_ne_nil _ _) = stop) :
    Division lineEnd start stop (chunksUpTo false start stops) ↔
      (start :: stops).IsChain (· ≤ ·) := by
  induction stops generalizing start with
  | nil =>
    obtain rfl : start = stop := hlast
    exact iff_of_true (Division.nil lineEnd start) (.singleton start)
  | cons i stops ih =>
    obtain ⟨hi, hstops⟩ := List.forall_mem_cons.mp hends
    rw [List.getLast_cons (List.cons_ne_nil _ _)] at hlast
    have hih := ih hstops hlast
    rw [chunksUpTo_false_cons, List.isChain_cons_cons, ← hih]
    split
    · next hlt =>
      constructor
      · exact fun h => ⟨Nat.le_of_lt hlt, h.tail⟩
      · exact fun h => h.2.cons hlt hi
    · next hge =>
      constructor
      · intro h
        -- below the start there is no chunk that could be the first one
        have hle : start ≤ i := by
          by_contra hlt
          have hbelow : i < (i :: stops).getLast (List.cons_ne_nil _ _) := by
            rw [hlast]
            exact Nat.lt_of_lt_of_le (Nat.lt_of_not_le hlt) h.le
          obtain ⟨c, hc, hci⟩ := exists_head_chunksUpTo hbelow
          have hfirst := h.first c hc
          omega
        have heq : start = i := Nat.le_antisymm hle (Nat.le_of_not_lt hge)
        exact ⟨hle, heq ▸ h⟩
      · rintro ⟨hle, h⟩
        have heq : start = i := Nat.le_antisymm hle (Nat.le_of_not_lt hge)
        exact heq ▸ h

end Chunks
end OneBrc.Lib.Lines
