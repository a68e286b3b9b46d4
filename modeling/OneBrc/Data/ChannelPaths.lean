import Mathlib.Algebra.BigOperators.Fin
import Mathlib.Algebra.BigOperators.Group.Finset.Piecewise
import Mathlib.Algebra.Order.BigOperators.Group.Finset
import Mathlib.Algebra.Order.BigOperators.GroupWithZero.List
import Mathlib.Tactic.IntervalCases

/-! `buildChannelPaths`: how many paths of each depth there are, and the path of an index. -/
namespace OneBrc.Data.ChannelPaths

abbrev Word := List UInt8

/-- The words of the five levels. -/
abbrev WordTable := Fin 5 → List Word

/-- The levels of a depth. -/
def levels (depth : ℕ) : List (Fin 5) := (List.finRange 5).take depth

def weights : Fin 5 → Int64 := ![2, 12, 34, 32, 20]

def depthCapacity (words : WordTable) (depth : ℕ) : Int64 :=
  (levels depth).foldl (fun capacity i => capacity * Int64.ofNat (words i).length) 1

/-- The variables of `depthTargets`. -/
structure Filling where
  targets : Fin 5 → Int64
  remaining : Int64
  added : Bool

/-- The share of a depth, before it is topped up. -/
def share (count weight remaining capacity : Int64) : Int64 :=
  let target := count * weight / 100
  let target := if target = 0 ∧ remaining > 0 then 1 else target
  if target > capacity then capacity else target

/-- The body of the first loop. -/
def addShare (words : WordTable) (count : Int64) (s : Filling) (depth : Fin 5) : Filling :=
  let target := share count (weights depth) s.remaining (depthCapacity words (depth + 1))
  { s with targets := Function.update s.targets depth target, remaining := s.remaining - target }

def shares (words : WordTable) (count : Int64) : Filling :=
  (List.finRange 5).foldl (addShare words count) ⟨fun _ => 0, count, false⟩

/-- The body of the inner loop, which ends when nothing remains. -/
def topUp (words : WordTable) (s : Filling) (depth : Fin 5) : Filling :=
  if s.remaining > 0 then
    if s.targets depth ≥ depthCapacity words (depth + 1) then s
    else
      { targets := Function.update s.targets depth (s.targets depth + 1)
        remaining := s.remaining - 1
        added := true }
  else s

/-- A round from the deepest level on. -/
def round (words : WordTable) (s : Filling) : Filling :=
  [4, 3, 2, 1, 0].foldl (topUp words) { s with added := false }

section Rounds
variable {words : WordTable} {s : Filling}

theorem toInt_sub_one {x : Int64} (h : x > 0) : (x - 1).toInt = x.toInt - 1 := by
  rw [gt_iff_lt, Int64.lt_iff_toInt_lt, Int64.toInt_zero] at h
  have hlt := x.toInt_lt
  rw [Int64.toInt_sub, Int64.toInt_one, Int.bmod_eq_of_le (by omega) (by omega)]

/-- What remains goes down when something was added, and does not change otherwise. -/
theorem topUp_remaining (words : WordTable) (s : Filling) (depth : Fin 5) :
    topUp words s depth = s ∨ 0 < s.remaining.toInt ∧ (topUp words s depth).added = true ∧
      (topUp words s depth).remaining.toInt = s.remaining.toInt - 1 := by
  unfold topUp
  split
  · next h =>
    split
    · exact .inl rfl
    · refine .inr ⟨?_, rfl, toInt_sub_one h⟩
      rwa [gt_iff_lt, Int64.lt_iff_toInt_lt, Int64.toInt_zero] at h
  · exact .inl rfl

theorem foldl_topUp_remaining (words : WordTable) (depths : List (Fin 5)) (s : Filling) :
    depths.foldl (topUp words) s = s ∨ 0 < s.remaining.toInt ∧
      (depths.foldl (topUp words) s).added = true ∧
      (depths.foldl (topUp words) s).remaining.toInt < s.remaining.toInt := by
  induction depths generalizing s with
  | nil => exact .inl rfl
  | cons depth depths ih =>
    rw [List.foldl_cons]
    rcases topUp_remaining words s depth with heq | ⟨hpos, hadded, hrem⟩
    · rw [heq]
      exact ih s
    · rcases ih (topUp words s depth) with heq | ⟨-, hadded', hrem'⟩
      · rw [heq]
        exact .inr ⟨hpos, hadded, by omega⟩
      · exact .inr ⟨hpos, hadded', by omega⟩

theorem round_lt (h : (round words s).added = true) :
    0 < s.remaining.toInt ∧ (round words s).remaining.toInt < s.remaining.toInt := by
  rcases foldl_topUp_remaining words [4, 3, 2, 1, 0] { s with added := false } with
    heq | ⟨hpos, -, hrem⟩
  · rw [round, heq] at h
    exact nomatch h
  · exact ⟨hpos, hrem⟩

end Rounds

/-- The second loop; `none` is the error that the count exceeds the capacity. -/
def fill (words : WordTable) (s : Filling) : Option (Fin 5 → Int64) :=
  if s.remaining > 0 then
    if _h : (round words s).added then fill words (round words s) else none
  else some s.targets
termination_by s.remaining.toInt.toNat
decreasing_by
  have hlt := round_lt _h
  omega

def depthTargets (count : Int64) (words : WordTable) : Option (Fin 5 → Int64) :=
  fill words (shares words count)

/-- The words of an index, a level after the other; `none` is a panic. -/
def pathParts (words : WordTable) : List (Fin 5) → ℕ → Option (List Word)
  | [], _ => some []
  | level :: levels, index => do
      let part ← (words level)[index % (words level).length]?
      let parts ← pathParts words levels (index / (words level).length)
      some (part :: parts)

def channelPathForIndex (words : WordTable) (depth index : ℕ) : Option Word := do
  let parts ← pathParts words (levels depth) index
  some (List.intercalate [47] parts)

inductive BuildResult where
  | paths (paths : List Word)
  | error
  | panic

/-- The bytes that an allocation of Go has at most. -/
def maxAlloc : ℤ := 2 ^ 48

/-- Whether `make([]string, 0, count)` succeeds; a string has a pointer and a length. -/
def makesStrings (count : Int64) : Prop := 0 ≤ count.toInt ∧ 16 * count.toInt ≤ maxAlloc

instance (count : Int64) : Decidable (makesStrings count) := inferInstanceAs (Decidable (_ ∧ _))

def buildChannelPaths (count : Int64) (words : WordTable) : BuildResult :=
  if makesStrings count then
    match depthTargets count words with
    | none => .error
    | some targets =>
        let indices := (List.finRange 5).flatMap fun depth =>
          (List.range (targets depth).toInt.toNat).map (depth, ·)
        match indices.mapM fun (depth, i) => channelPathForIndex words (depth + 1) i with
        | none => .panic
        | some paths => .paths paths
  else .panic

/-- The number of paths of a depth. -/
def pathCount (words : WordTable) (depth : ℕ) : ℕ :=
  ((levels depth).map fun i => (words i).length).prod

/-- The number of paths of depth 1 to 5. -/
def pathTotal (words : WordTable) : ℕ := ∑ d : Fin 5, pathCount words (d + 1)

/-- No product of the code exceeds 63 bits. -/
structure Bounded (words : WordTable) (count : ℕ) : Prop where
  words_ne : ∀ level, words level ≠ []
  capacity : pathCount words 5 < 2 ^ 63
  count : 34 * count < 2 ^ 63

section Numbers
variable {words : WordTable} {n m : ℕ}

theorem depthCapacity_eq (words : WordTable) (depth : ℕ) :
    depthCapacity words depth = Int64.ofNat (pathCount words depth) := by
  have hfold (ls : List (Fin 5)) (c : ℕ) :
      ls.foldl (fun capacity i => capacity * Int64.ofNat (words i).length) (Int64.ofNat c) =
        Int64.ofNat (c * (ls.map fun i => (words i).length).prod) := by
    induction ls generalizing c with
    | nil => simp
    | cons l ls ih => rw [List.foldl_cons, ← Int64.ofNat_mul, ih, List.map_cons, List.prod_cons,
        Nat.mul_assoc]
  have h := hfold (levels depth) 1
  rwa [Nat.one_mul] at h

theorem pathCount_le (h : ∀ level, words level ≠ []) (depth : ℕ) :
    pathCount words depth ≤ pathCount words 5 := by
  have hsplit : levels 5 = levels depth ++ (List.finRange 5).drop depth := by
    rw [levels, levels, List.take_append_drop]
    rfl
  have hpos : 0 < (((List.finRange 5).drop depth).map fun i => (words i).length).prod := by
    apply List.prod_pos
    intro c hc
    obtain ⟨i, -, rfl⟩ := List.mem_map.mp hc
    exact List.length_pos_iff.mpr (h i)
  rw [pathCount, pathCount, hsplit, List.map_append, List.prod_append]
  exact Nat.le_mul_of_pos_right _ hpos

/-- The share of a depth in whole numbers. -/
def shareNat (n weight remaining capacity : ℕ) : ℕ :=
  min capacity (if n * weight / 100 = 0 ∧ 0 < remaining then 1 else n * weight / 100)

theorem share_ofNat {weight remaining capacity : ℕ} (hweight : n * weight < 2 ^ 63)
    (hremaining : remaining < 2 ^ 63) (hcapacity : capacity < 2 ^ 63) :
    share (Int64.ofNat n) (Int64.ofNat weight) (Int64.ofNat remaining) (Int64.ofNat capacity) =
      Int64.ofNat (shareNat n weight remaining capacity) := by
  have hquotient : Int64.ofNat n * Int64.ofNat weight / 100 =
      Int64.ofNat (n * weight / 100) := by
    rw [← Int64.ofNat_mul]
    exact (Int64.ofNat_div hweight (by decide)).symm
  have hlt : n * weight / 100 < 2 ^ 63 := Nat.lt_of_le_of_lt (Nat.div_le_self _ _) hweight
  have hzero : Int64.ofNat (n * weight / 100) = 0 ↔ n * weight / 100 = 0 := by
    rw [← Int64.toInt_inj, Int64.toInt_ofNat_of_lt hlt, Int64.toInt_zero]
    omega
  have hpos : Int64.ofNat remaining > 0 ↔ 0 < remaining :=
    Int64.ofNat_lt_iff_lt (by decide) hremaining
  have htarget : (if Int64.ofNat (n * weight / 100) = 0 ∧ Int64.ofNat remaining > 0 then 1
      else Int64.ofNat (n * weight / 100)) = Int64.ofNat (if n * weight / 100 = 0 ∧ 0 < remaining
        then 1 else n * weight / 100) := by
    simp only [hzero, hpos]
    split
    · rfl
    · rfl
  have hbound : (if n * weight / 100 = 0 ∧ 0 < remaining then 1 else n * weight / 100) <
      2 ^ 63 := by
    split
    · decide
    · exact hlt
  unfold share
  dsimp only
  rw [hquotient, htarget, shareNat]
  generalize (if n * weight / 100 = 0 ∧ 0 < remaining then 1 else n * weight / 100) = target
    at hbound ⊢
  have hcut : Int64.ofNat target > Int64.ofNat capacity ↔ capacity < target :=
    Int64.ofNat_lt_iff_lt hcapacity hbound
  simp only [hcut]
  split
  · next h => rw [Nat.min_eq_left h.le]
  · next h => rw [Nat.min_eq_right (Nat.le_of_not_lt h)]

/-- A share is rounded down, or it is the one path of a depth that would have none. -/
theorem shareNat_cases (n weight remaining capacity : ℕ) :
    shareNat n weight remaining capacity ≤ n * weight / 100 ∨
      n * weight / 100 = 0 ∧ 0 < remaining ∧ shareNat n weight remaining capacity ≤ 1 := by
  unfold shareNat
  split
  · next h => exact .inr ⟨h.1, h.2, Nat.min_le_right _ _⟩
  · exact .inl (Nat.min_le_right _ _)

/-- The shares never exceed what remains. -/
theorem shareNat_le {c₀ c₁ c₂ c₃ c₄ t₀ t₁ t₂ t₃ t₄ : ℕ} (ht₀ : t₀ = shareNat n 2 n c₀)
    (ht₁ : t₁ = shareNat n 12 (n - t₀) c₁) (ht₂ : t₂ = shareNat n 34 (n - t₀ - t₁) c₂)
    (ht₃ : t₃ = shareNat n 32 (n - t₀ - t₁ - t₂) c₃)
    (ht₄ : t₄ = shareNat n 20 (n - t₀ - t₁ - t₂ - t₃) c₄) : t₀ + t₁ + t₂ + t₃ + t₄ ≤ n := by
  have h₀ := shareNat_cases n 2 n c₀
  have h₁ := shareNat_cases n 12 (n - t₀) c₁
  have h₂ := shareNat_cases n 34 (n - t₀ - t₁) c₂
  have h₃ := shareNat_cases n 32 (n - t₀ - t₁ - t₂) c₃
  have h₄ := shareNat_cases n 20 (n - t₀ - t₁ - t₂ - t₃) c₄
  rw [← ht₀] at h₀
  rw [← ht₁] at h₁
  rw [← ht₂] at h₂
  rw [← ht₃] at h₃
  rw [← ht₄] at h₄
  clear ht₀ ht₁ ht₂ ht₃ ht₄
  by_cases hsmall : n ≤ 8
  · interval_cases n <;> omega
  · omega

end Numbers

/-- The numbers of a state, within the capacities and with the count as their sum. -/
structure Reflects (words : WordTable) (n : ℕ) (s : Filling) (t : Fin 5 → ℕ) (r : ℕ) : Prop where
  targets : s.targets = fun d => Int64.ofNat (t d)
  remaining : s.remaining = Int64.ofNat r
  le : ∀ d : Fin 5, t d ≤ pathCount words (d + 1)
  sum : ∑ d, t d + r = n

def weightsNat : Fin 5 → ℕ := ![2, 12, 34, 32, 20]

section Invariant
variable {words : WordTable} {n r : ℕ} {s : Filling} {t : Fin 5 → ℕ}

theorem weights_eq (d : Fin 5) : weights d = Int64.ofNat (weightsNat d) := by
  revert d
  decide

theorem weightsNat_le (d : Fin 5) : weightsNat d ≤ 34 := by
  revert d
  decide

theorem Bounded.count_lt (h : Bounded words n) : n < 2 ^ 63 := by
  have hcount := h.count
  omega

theorem Bounded.capacity_lt (h : Bounded words n) (depth : ℕ) : pathCount words depth < 2 ^ 63 :=
  Nat.lt_of_le_of_lt (pathCount_le h.words_ne depth) h.capacity

theorem sum_update_zero {d : Fin 5} (hd : t d = 0) (x : ℕ) :
    ∑ i, Function.update t d x i = ∑ i, t i + x := by
  rw [Finset.sum_update_of_mem (Finset.mem_univ d), Nat.add_comm, ← Finset.sum_sdiff
    (Finset.subset_univ {d}), Finset.sum_singleton, hd, Nat.add_zero]

theorem Reflects.le_count (h : Reflects words n s t r) : r ≤ n := by
  have hsum := h.sum
  omega

/-- A share that does not exceed what remains. -/
theorem Reflects.addShare (h : Reflects words n s t r) (hb : Bounded words n) {d : Fin 5}
    (hd : t d = 0) {x : ℕ} (hx : x = shareNat n (weightsNat d) r (pathCount words (d + 1)))
    (hle : x ≤ r) :
    Reflects words n (addShare words (Int64.ofNat n) s d) (Function.update t d x) (r - x) := by
  have hweight : n * weightsNat d < 2 ^ 63 := by
    have hcount := hb.count
    exact Nat.lt_of_le_of_lt (Nat.mul_le_mul_left n (weightsNat_le d)) (by rwa [Nat.mul_comm])
  have hr : r < 2 ^ 63 := Nat.lt_of_le_of_lt h.le_count hb.count_lt
  have hshare : share (Int64.ofNat n) (weights d) s.remaining (depthCapacity words (d + 1)) =
      Int64.ofNat x := by
    rw [weights_eq, h.remaining, depthCapacity_eq, hx]
    exact share_ofNat hweight hr (hb.capacity_lt _)
  constructor
  case targets =>
    unfold ChannelPaths.addShare
    dsimp only
    rw [hshare, h.targets]
    funext i
    by_cases hi : i = d
    · subst hi
      rw [Function.update_self, Function.update_self]
    · rw [Function.update_of_ne hi, Function.update_of_ne hi]
  case remaining =>
    unfold ChannelPaths.addShare
    dsimp only
    rw [hshare, h.remaining, Int64.ofNat_sub _ _ hle]
  case le =>
    intro i
    by_cases hi : i = d
    · subst hi
      rw [Function.update_self, hx]
      exact Nat.min_le_left _ _
    · rw [Function.update_of_ne hi]
      exact h.le i
  case sum =>
    have hsum := h.sum
    rw [sum_update_zero hd]
    omega

/-- Another path of a depth with room. -/
theorem Reflects.topUp (h : Reflects words n s t r) (hb : Bounded words n) (d : Fin 5) :
    ∃ t' r', Reflects words n (topUp words s d) t' r' := by
  have hr : r < 2 ^ 63 := Nat.lt_of_le_of_lt h.le_count hb.count_lt
  have hcap := hb.capacity_lt (d + 1)
  have ht : t d < 2 ^ 63 := Nat.lt_of_le_of_lt (h.le d) hcap
  have hpos : s.remaining > 0 ↔ 0 < r := by
    rw [h.remaining]
    exact Int64.ofNat_lt_iff_lt (by decide) hr
  have hfull : s.targets d ≥ depthCapacity words (d + 1) ↔ pathCount words (d + 1) ≤ t d := by
    rw [h.targets, depthCapacity_eq]
    exact Int64.ofNat_le_iff_le hcap ht
  unfold ChannelPaths.topUp
  simp only [hpos, hfull]
  split_ifs with hrem hroom
  · exact ⟨t, r, h⟩
  · refine ⟨Function.update t d (t d + 1), r - 1, ?_, ?_, ?_, ?_⟩
    · rw [h.targets]
      dsimp only
      funext i
      by_cases hi : i = d
      · subst hi
        rw [Function.update_self, Function.update_self, Int64.ofNat_add]
        rfl
      · rw [Function.update_of_ne hi, Function.update_of_ne hi]
    · rw [h.remaining, Int64.ofNat_sub _ _ hrem]
      rfl
    · intro i
      by_cases hi : i = d
      · subst hi
        rw [Function.update_self]
        omega
      · rw [Function.update_of_ne hi]
        exact h.le i
    · have hsum := h.sum
      have hupdate : ∑ i, Function.update t d (t d + 1) i = ∑ i, t i + 1 := by
        rw [Finset.sum_update_of_mem (Finset.mem_univ d), ← Finset.sum_sdiff
          (Finset.subset_univ {d}), Finset.sum_singleton]
        omega
      rw [hupdate]
      omega
  · exact ⟨t, r, h⟩

theorem Reflects.foldl_topUp (h : Reflects words n s t r) (hb : Bounded words n)
    (depths : List (Fin 5)) :
    ∃ t' r', Reflects words n (depths.foldl (ChannelPaths.topUp words) s) t' r' := by
  induction depths generalizing s t r with
  | nil => exact ⟨t, r, h⟩
  | cons d depths ih =>
    obtain ⟨t', r', h'⟩ := h.topUp hb d
    exact ih h'

/-- The states of the first loop. -/
theorem reflects_shares (hb : Bounded words n) (k : ℕ) :
    ∃ t r, Reflects words n (((List.finRange 5).take k).foldl
      (ChannelPaths.addShare words (Int64.ofNat n)) ⟨fun _ => 0, Int64.ofNat n, false⟩) t r := by
  have h₀ : Reflects words n ⟨fun _ => 0, Int64.ofNat n, false⟩ (fun _ => 0) n :=
    ⟨rfl, rfl, fun _ => Nat.zero_le _, by simp⟩
  obtain ⟨t₀, ht₀⟩ : ∃ x, x = shareNat n 2 n (pathCount words 1) := ⟨_, rfl⟩
  obtain ⟨t₁, ht₁⟩ : ∃ x, x = shareNat n 12 (n - t₀) (pathCount words 2) := ⟨_, rfl⟩
  obtain ⟨t₂, ht₂⟩ : ∃ x, x = shareNat n 34 (n - t₀ - t₁) (pathCount words 3) := ⟨_, rfl⟩
  obtain ⟨t₃, ht₃⟩ : ∃ x, x = shareNat n 32 (n - t₀ - t₁ - t₂) (pathCount words 4) := ⟨_, rfl⟩
  obtain ⟨t₄, ht₄⟩ : ∃ x, x = shareNat n 20 (n - t₀ - t₁ - t₂ - t₃) (pathCount words 5) :=
    ⟨_, rfl⟩
  have hle := shareNat_le ht₀ ht₁ ht₂ ht₃ ht₄
  have h₁ := h₀.addShare hb (d := 0) rfl ht₀ (by omega)
  have h₂ := h₁.addShare hb (d := 1) rfl ht₁ (by omega)
  have h₃ := h₂.addShare hb (d := 2) rfl ht₂ (by omega)
  have h₄ := h₃.addShare hb (d := 3) rfl ht₃ (by omega)
  have h₅ := h₄.addShare hb (d := 4) rfl ht₄ (by omega)
  match k with
  | 0 => exact ⟨_, _, h₀⟩
  | 1 => exact ⟨_, _, h₁⟩
  | 2 => exact ⟨_, _, h₂⟩
  | 3 => exact ⟨_, _, h₃⟩
  | 4 => exact ⟨_, _, h₄⟩
  | k + 5 =>
    rw [List.take_of_length_le (by simp)]
    exact ⟨_, _, h₅⟩

theorem foldl_topUp_full (depths : List (Fin 5)) (hrem : s.remaining > 0)
    (h : (depths.foldl (ChannelPaths.topUp words) s).added = false) :
    depths.foldl (ChannelPaths.topUp words) s = s ∧
      ∀ d ∈ depths, s.targets d ≥ depthCapacity words (d + 1) := by
  induction depths with
  | nil => exact ⟨rfl, nofun⟩
  | cons d depths ih =>
    rw [List.foldl_cons] at h ⊢
    by_cases hfull : s.targets d ≥ depthCapacity words (d + 1)
    · have hsame : ChannelPaths.topUp words s d = s := by
        rw [ChannelPaths.topUp, if_pos hrem, if_pos hfull]
      rw [hsame] at h ⊢
      obtain ⟨heq, hall⟩ := ih h
      exact ⟨heq, List.forall_mem_cons.mpr ⟨hfull, hall⟩⟩
    · exfalso
      have hadded : (ChannelPaths.topUp words s d).added = true := by
        rw [ChannelPaths.topUp, if_pos hrem, if_neg hfull]
      rcases foldl_topUp_remaining words depths (ChannelPaths.topUp words s d) with
        heq | ⟨-, hadded', -⟩
      · rw [heq, hadded] at h
        exact nomatch h
      · rw [hadded'] at h
        exact nomatch h

theorem fill_round (hrem : s.remaining > 0) (hadded : (round words s).added = true) :
    fill words s = fill words (round words s) := by
  conv_lhs => rw [fill, if_pos hrem, dif_pos hadded]

/-- The second loop ends with the count, or with an error when the capacity is exceeded. -/
theorem fill_spec (hb : Bounded words n) (h : Reflects words n s t r) :
    (fill words s = none ∧ pathTotal words < n) ∨
      ∃ t' : Fin 5 → ℕ, fill words s = some (fun d => Int64.ofNat (t' d)) ∧
        (∀ d : Fin 5, t' d ≤ pathCount words (d + 1)) ∧ ∑ d, t' d = n := by
  induction s using fill.induct words generalizing t r with
  | case1 s hrem hadded ih =>
    obtain ⟨t', r', h'⟩ : ∃ t' r', Reflects words n (round words s) t' r' :=
      Reflects.foldl_topUp (s := { s with added := false }) ⟨h.targets, h.remaining, h.le, h.sum⟩
        hb _
    rw [fill_round hrem hadded]
    exact ih h'
  | case2 s hrem hadded =>
    refine .inl ⟨by rw [fill, if_pos hrem, dif_neg hadded], ?_⟩
    obtain ⟨-, hfull⟩ := foldl_topUp_full (s := { s with added := false }) [4, 3, 2, 1, 0] hrem
      (by simpa [round] using hadded)
    have hcap : ∀ d : Fin 5, pathCount words (d + 1) ≤ t d := by
      intro d
      have hmem : d ∈ [(4 : Fin 5), 3, 2, 1, 0] := by
        revert d
        decide
      have hge := hfull d hmem
      dsimp only at hge
      rw [h.targets, depthCapacity_eq] at hge
      exact (Int64.ofNat_le_iff_le (hb.capacity_lt _)
        (Nat.lt_of_le_of_lt (h.le d) (hb.capacity_lt _))).mp hge
    have hpos : 0 < r := by
      rw [h.remaining] at hrem
      exact (Int64.ofNat_lt_iff_lt (by decide)
        (Nat.lt_of_le_of_lt h.le_count hb.count_lt)).mp hrem
    have hsum := h.sum
    have htotal : pathTotal words ≤ ∑ d, t d := Finset.sum_le_sum fun d _ => hcap d
    omega
  | case3 s hrem =>
    have hzero : r = 0 := by
      by_contra hpos
      apply hrem
      rw [h.remaining]
      exact (Int64.ofNat_lt_iff_lt (by decide)
        (Nat.lt_of_le_of_lt h.le_count hb.count_lt)).mpr (Nat.pos_of_ne_zero hpos)
    refine .inr ⟨t, by rw [fill, if_neg hrem, h.targets], h.le, ?_⟩
    have hsum := h.sum
    omega

theorem depthTargets_spec (hb : Bounded words n) :
    (depthTargets (Int64.ofNat n) words = none ∧ pathTotal words < n) ∨
      ∃ t : Fin 5 → ℕ, depthTargets (Int64.ofNat n) words = some (fun d => Int64.ofNat (t d)) ∧
        (∀ d : Fin 5, t d ≤ pathCount words (d + 1)) ∧ ∑ d, t d = n := by
  obtain ⟨t, r, h⟩ := reflects_shares hb 5
  exact fill_spec hb h

theorem depthTargets_eq_none_iff (hb : Bounded words n) :
    depthTargets (Int64.ofNat n) words = none ↔ pathTotal words < n := by
  rcases depthTargets_spec hb with ⟨hnone, hlt⟩ | ⟨t, hsome, hle, hsum⟩
  · exact iff_of_true hnone hlt
  · have htotal : ∑ d, t d ≤ pathTotal words := Finset.sum_le_sum fun d _ => hle d
    rw [hsome]
    exact iff_of_false nofun (by omega)

end Invariant

/-- Levels with words, which are different, not empty and without a slash. -/
structure WellFormed (words : WordTable) : Prop where
  words_ne : ∀ level, words level ≠ []
  word_ne : ∀ level, ∀ word ∈ words level, word ≠ []
  slash : ∀ level, ∀ word ∈ words level, 47 ∉ word
  nodup : ∀ level, (words level).Nodup

/-- A path of one to five words, each of its level. -/
def IsPath (words : WordTable) (path : Word) : Prop :=
  ∃ depth parts, 1 ≤ depth ∧ depth ≤ 5 ∧ path = List.intercalate [47] parts ∧
    List.Forall₂ (fun level part => part ∈ words level) (levels depth) parts

section Paths
variable {words : WordTable} {ls : List (Fin 5)} {i j : ℕ} {parts : List Word}

theorem exists_pathParts (h : ∀ level, words level ≠ []) (ls : List (Fin 5)) (i : ℕ) :
    ∃ parts, pathParts words ls i = some parts ∧
      List.Forall₂ (fun level part => part ∈ words level) ls parts := by
  induction ls generalizing i with
  | nil => exact ⟨[], rfl, .nil⟩
  | cons level ls ih =>
    obtain ⟨parts, hparts, hall⟩ := ih (i / (words level).length)
    have hlt : i % (words level).length < (words level).length :=
      Nat.mod_lt _ (List.length_pos_iff.mpr (h level))
    refine ⟨(words level)[i % (words level).length] :: parts, ?_,
      .cons (List.getElem_mem hlt) hall⟩
    simp only [pathParts, List.getElem?_eq_getElem hlt, hparts, bind, Option.bind]

/-- The words of a path tell its index. -/
theorem pathParts_inj (h : WellFormed words)
    (hi : i < (ls.map fun level => (words level).length).prod)
    (hj : j < (ls.map fun level => (words level).length).prod)
    (hiparts : pathParts words ls i = some parts) (hjparts : pathParts words ls j = some parts) :
    i = j := by
  induction ls generalizing i j parts with
  | nil =>
    rw [List.map_nil, List.prod_nil] at hi hj
    omega
  | cons level ls ih =>
    obtain ⟨part, hpart, hrest⟩ := Option.bind_eq_some_iff.mp hiparts
    obtain ⟨rest, hrest, heq⟩ := Option.bind_eq_some_iff.mp hrest
    obtain ⟨part', hpart', hrest'⟩ := Option.bind_eq_some_iff.mp hjparts
    obtain ⟨rest', hrest', heq'⟩ := Option.bind_eq_some_iff.mp hrest'
    obtain ⟨rfl, rfl⟩ := List.cons.inj ((Option.some.inj heq).trans (Option.some.inj heq').symm)
    rw [List.map_cons, List.prod_cons] at hi hj
    have hquotient := ih (Nat.div_lt_of_lt_mul hi) (Nat.div_lt_of_lt_mul hj) hrest hrest'
    have hremainder : i % (words level).length = j % (words level).length := by
      obtain ⟨hlt, hget⟩ := List.getElem?_eq_some_iff.mp hpart
      obtain ⟨hlt', hget'⟩ := List.getElem?_eq_some_iff.mp hpart'
      exact ((h.nodup level).getElem_inj_iff).mp (hget.trans hget'.symm)
    rw [← Nat.div_add_mod i (words level).length, hquotient, hremainder, Nat.div_add_mod]

theorem length_levels (d : Fin 5) : (levels (d + 1)).length = d + 1 := by
  rw [levels, List.length_take, List.length_finRange]
  omega

/-- The words of a path are those between its slashes. -/
theorem intercalate_inj {parts parts' : List Word} (hne : parts ≠ []) (hne' : parts' ≠ [])
    (hslash : ∀ part ∈ parts, 47 ∉ part) (hslash' : ∀ part ∈ parts', 47 ∉ part)
    (h : List.intercalate [(47 : UInt8)] parts = List.intercalate [47] parts') :
    parts = parts' := by
  rw [← List.splitOn_intercalate 47 hslash hne, h, List.splitOn_intercalate 47 hslash' hne']

theorem slash_of_forall₂ (h : WellFormed words)
    (hparts : List.Forall₂ (fun level part => part ∈ words level) ls parts) :
    ∀ part ∈ parts, 47 ∉ part := by
  intro part hmem
  induction hparts with
  | nil => exact absurd hmem (List.not_mem_nil)
  | cons hpart _ ih =>
    rcases List.mem_cons.mp hmem with rfl | hmem
    · exact h.slash _ _ hpart
    · exact ih hmem

/-- Paths of different indices or depths are different. -/
theorem channelPathForIndex_inj (h : WellFormed words) {d d' : Fin 5} {path : Word}
    (hi : i < pathCount words (d + 1)) (hj : j < pathCount words (d' + 1))
    (hpath : channelPathForIndex words (d + 1) i = some path)
    (hpath' : channelPathForIndex words (d' + 1) j = some path) : d = d' ∧ i = j := by
  obtain ⟨parts, hparts, hall⟩ := exists_pathParts h.words_ne (levels (d + 1)) i
  obtain ⟨parts', hparts', hall'⟩ := exists_pathParts h.words_ne (levels (d' + 1)) j
  simp only [channelPathForIndex, hparts, hparts', bind, Option.bind] at hpath hpath'
  have hlength := hall.length_eq
  have hlength' := hall'.length_eq
  rw [length_levels] at hlength hlength'
  have heq : parts = parts' := by
    refine intercalate_inj (List.length_pos_iff.mp (by omega)) (List.length_pos_iff.mp (by omega))
      (slash_of_forall₂ h hall) (slash_of_forall₂ h hall') ?_
    exact (Option.some.inj hpath).trans (Option.some.inj hpath').symm
  subst heq
  obtain rfl : d = d' := Fin.ext (by omega)
  exact ⟨rfl, pathParts_inj h hi hj hparts hparts'⟩

theorem isPath_channelPathForIndex (h : WellFormed words) (d : Fin 5) (i : ℕ) :
    ∃ path, channelPathForIndex words (d + 1) i = some path ∧ IsPath words path := by
  obtain ⟨parts, hparts, hall⟩ := exists_pathParts h.words_ne (levels (d + 1)) i
  refine ⟨List.intercalate [47] parts, ?_, d + 1, parts, by omega, by omega, rfl, hall⟩
  simp only [channelPathForIndex, hparts, bind, Option.bind]

/-- The depths and indices of the paths that are built. -/
def indices (t : Fin 5 → ℕ) : List (Fin 5 × ℕ) :=
  (List.finRange 5).flatMap fun depth => (List.range (t depth)).map (depth, ·)

theorem mem_indices {t : Fin 5 → ℕ} {d : Fin 5} : (d, i) ∈ indices t ↔ i < t d := by
  simp [indices]

theorem length_indices (t : Fin 5 → ℕ) : (indices t).length = ∑ d, t d := by
  rw [indices, List.length_flatMap, Fin.sum_univ_def]
  simp

theorem nodup_indices (t : Fin 5 → ℕ) : (indices t).Nodup := by
  rw [indices, List.nodup_flatMap]
  refine ⟨fun d _ => List.nodup_range.map fun _ _ h => (Prod.mk.inj h).2, ?_⟩
  refine (List.nodup_finRange 5).imp fun hne => ?_
  rw [Function.onFun_apply, List.disjoint_left]
  intro x hx hx'
  obtain ⟨_, -, rfl⟩ := List.mem_map.mp hx
  obtain ⟨_, -, heq⟩ := List.mem_map.mp hx'
  exact hne (Prod.mk.inj heq).1.symm

/-- The path of a depth and an index. -/
def pathOf (words : WordTable) (x : Fin 5 × ℕ) : Word :=
  (channelPathForIndex words (x.1 + 1) x.2).getD []

theorem channelPathForIndex_eq (h : WellFormed words) (d : Fin 5) (i : ℕ) :
    channelPathForIndex words (d + 1) i = some (pathOf words (d, i)) ∧
      IsPath words (pathOf words (d, i)) := by
  obtain ⟨path, hpath, his⟩ := isPath_channelPathForIndex h d i
  have hof : pathOf words (d, i) = path := by rw [pathOf, hpath, Option.getD_some]
  exact ⟨hof ▸ hpath, hof ▸ his⟩

theorem mapM_channelPathForIndex (h : WellFormed words) (xs : List (Fin 5 × ℕ)) :
    (xs.mapM fun (depth, i) => channelPathForIndex words (depth + 1) i) =
      some (xs.map (pathOf words)) := by
  induction xs with
  | nil => rfl
  | cons x xs ih =>
    obtain ⟨d, i⟩ := x
    have hpath := (channelPathForIndex_eq h d i).1
    simp only [List.mapM_cons, ih, hpath, List.map_cons]
    rfl

theorem nodup_map_pathOf (h : WellFormed words) {t : Fin 5 → ℕ}
    (hle : ∀ d : Fin 5, t d ≤ pathCount words (d + 1)) :
    ((indices t).map (pathOf words)).Nodup := by
  refine (nodup_indices t).map_on ?_
  rintro ⟨d, i⟩ hi ⟨d', j⟩ hj heq
  have hpath := (channelPathForIndex_eq h d i).1
  rw [heq] at hpath
  obtain ⟨rfl, rfl⟩ := channelPathForIndex_inj h ((mem_indices.mp hi).trans_le (hle d))
    ((mem_indices.mp hj).trans_le (hle d')) hpath (channelPathForIndex_eq h d' j).1
  rfl

end Paths

section Results
variable {words : WordTable} {n : ℕ}

/-- The states of both loops: some shares, and any topping up after all of them. -/
theorem remaining_nonneg (hb : Bounded words n) (k : ℕ) (depths : List (Fin 5)) :
    0 ≤ (depths.foldl (topUp words) (((List.finRange 5).take k).foldl
      (addShare words (Int64.ofNat n)) ⟨fun _ => 0, Int64.ofNat n, false⟩)).remaining.toInt := by
  obtain ⟨t, r, h⟩ := reflects_shares hb k
  obtain ⟨t', r', h'⟩ := h.foldl_topUp hb depths
  rw [h'.remaining, Int64.toInt_ofNat_of_lt (Nat.lt_of_le_of_lt h'.le_count hb.count_lt)]
  exact Int.natCast_nonneg r'

theorem toInt_target (hb : Bounded words n) {t : Fin 5 → ℕ} {d : Fin 5}
    (hle : t d ≤ pathCount words (d + 1)) : (Int64.ofNat (t d)).toInt = t d :=
  Int64.toInt_ofNat_of_lt (Nat.lt_of_le_of_lt hle (hb.capacity_lt _))

theorem makesStrings_ofNat (hb : Bounded words n) :
    makesStrings (Int64.ofNat n) ↔ n ≤ 2 ^ 44 := by
  rw [makesStrings, maxAlloc, Int64.toInt_ofNat_of_lt hb.count_lt]
  omega

/-- Without overflow the targets are exact; the paths are complete and different if a slice for them
can be made. -/
theorem buildChannelPaths_spec (h : WellFormed words) (hb : Bounded words n) :
    (depthTargets (Int64.ofNat n) words = none ↔ pathTotal words < n) ∧
    (∀ targets, depthTargets (Int64.ofNat n) words = some targets →
      (∀ d : Fin 5, 0 ≤ (targets d).toInt ∧ (targets d).toInt ≤ pathCount words (d + 1)) ∧
        ∑ d, (targets d).toInt = n) ∧
    (∀ (k : ℕ) (depths : List (Fin 5)), 0 ≤ (depths.foldl (topUp words)
      (((List.finRange 5).take k).foldl (addShare words (Int64.ofNat n))
        ⟨fun _ => 0, Int64.ofNat n, false⟩)).remaining.toInt) ∧
    (n ≤ 2 ^ 44 →
      (n ≤ pathTotal words → ∃ paths, buildChannelPaths (Int64.ofNat n) words = .paths paths ∧
        paths.length = n ∧ paths.Nodup ∧ ∀ path ∈ paths, IsPath words path) ∧
      (pathTotal words < n → buildChannelPaths (Int64.ofNat n) words = .error)) ∧
    (2 ^ 44 < n → buildChannelPaths (Int64.ofNat n) words = .panic) := by
  refine ⟨depthTargets_eq_none_iff hb, ?_, remaining_nonneg hb, fun hmake => ⟨?_, ?_⟩, ?_⟩
  · intro targets htargets
    rcases depthTargets_spec hb with ⟨hnone, -⟩ | ⟨t, hsome, hle, hsum⟩
    · rw [hnone] at htargets
      exact nomatch htargets
    · obtain rfl := Option.some.inj (hsome.symm.trans htargets)
      constructor
      · intro d
        rw [toInt_target hb (hle d)]
        exact ⟨Int.natCast_nonneg _, Int.ofNat_le.mpr (hle d)⟩
      · rw [Finset.sum_congr rfl fun d _ => toInt_target hb (hle d)]
        exact_mod_cast hsum
  · intro htotal
    rcases depthTargets_spec hb with ⟨-, hlt⟩ | ⟨t, hsome, hle, hsum⟩
    · omega
    · have hindices : ((List.finRange 5).flatMap fun depth =>
          (List.range (Int64.ofNat (t depth)).toInt.toNat).map (depth, ·)) = indices t := by
        refine List.flatMap_congr fun d _ => ?_
        rw [toInt_target hb (hle d), Int.toNat_natCast]
      refine ⟨(indices t).map (pathOf words), ?_, ?_, nodup_map_pathOf h hle, ?_⟩
      · unfold buildChannelPaths
        rw [if_pos ((makesStrings_ofNat hb).mpr hmake), hsome]
        dsimp only
        rw [hindices, mapM_channelPathForIndex h]
      · rw [List.length_map, length_indices, hsum]
      · intro path hpath
        obtain ⟨⟨d, i⟩, -, rfl⟩ := List.mem_map.mp hpath
        exact (channelPathForIndex_eq h d i).2
  · intro hlt
    unfold buildChannelPaths
    rw [if_pos ((makesStrings_ofNat hb).mpr hmake), (depthTargets_eq_none_iff hb).mpr hlt]
  · intro hlt
    exact if_neg fun hmake => Nat.not_le.mpr hlt ((makesStrings_ofNat hb).mp hmake)

/-- Words of `a`, as many as the lengths say. -/
def tableOf (lengths : Fin 5 → ℕ) : WordTable := fun level =>
  (List.range (lengths level)).map fun k => List.replicate (k + 1) 97

theorem wellFormed_tableOf {lengths : Fin 5 → ℕ} (h : ∀ level, 0 < lengths level) :
    WellFormed (tableOf lengths) where
  words_ne level := by
    rw [tableOf, ← List.length_pos_iff, List.length_map, List.length_range]
    exact h level
  word_ne level word hword := by
    obtain ⟨k, -, rfl⟩ := List.mem_map.mp hword
    simp
  slash level word hword := by
    obtain ⟨k, -, rfl⟩ := List.mem_map.mp hword
    intro hmem
    exact absurd (List.eq_of_mem_replicate hmem) (by decide)
  nodup level := by
    refine List.nodup_range.map fun k l heq => ?_
    have hlength := congrArg List.length heq
    simpa using hlength

theorem buildChannelPaths_spec_two :
    ∃ paths, buildChannelPaths (Int64.ofNat 6) (tableOf fun _ => 2) = .paths paths ∧
      paths.length = 6 ∧ paths.Nodup := by
  have h : WellFormed (tableOf fun _ => 2) := wellFormed_tableOf fun _ => by decide
  have hb : Bounded (tableOf fun _ => 2) 6 := ⟨h.words_ne, by decide, by decide⟩
  obtain ⟨paths, hpaths, hlength, hnodup, -⟩ :=
    ((buildChannelPaths_spec h hb).2.2.2.1 (by decide)).1 (by decide)
  exact ⟨paths, hpaths, hlength, hnodup⟩

/-- A table with 2 ^ 63 paths of depth 5. -/
def hugeLengths : Fin 5 → ℕ := ![8192, 8192, 8192, 4096, 4096]

theorem pathCount_tableOf (lengths : Fin 5 → ℕ) (depth : ℕ) :
    pathCount (tableOf lengths) depth = ((levels depth).map lengths).prod := by
  rw [pathCount]
  congr 1
  refine List.map_congr_left fun level _ => ?_
  rw [tableOf, List.length_map, List.length_range]

theorem pathCount_le_total (words : WordTable) (d : Fin 5) :
    pathCount words (d + 1) ≤ pathTotal words :=
  Finset.single_le_sum (f := fun d : Fin 5 => pathCount words (d + 1)) (fun _ _ => Nat.zero_le _)
    (Finset.mem_univ d)

/-- With that table, a target is negative. -/
theorem depthTargets_huge : WellFormed (tableOf hugeLengths) ∧
    100 ≤ pathTotal (tableOf hugeLengths) ∧
    ∃ targets, depthTargets 100 (tableOf hugeLengths) = some targets ∧ (targets 4).toInt < 0 := by
  have h : WellFormed (tableOf hugeLengths) := wellFormed_tableOf (by decide)
  have hcap (d : ℕ) : depthCapacity (tableOf hugeLengths) d =
      Int64.ofNat ((levels d).map hugeLengths).prod := by
    rw [depthCapacity_eq, pathCount_tableOf]
  have hshares : shares (tableOf hugeLengths) 100 =
      ⟨![2, 12, 34, 32, Int64.minValue], 20 - Int64.minValue, false⟩ := by
    simp only [shares, addShare, List.finRange, List.ofFn, Fin.foldr, Fin.foldr.loop,
      List.foldl_cons, List.foldl_nil, hcap, Filling.mk.injEq]
    refine ⟨?_, by decide, trivial⟩
    decide
  refine ⟨h, ?_, ![2, 12, 34, 32, Int64.minValue], ?_, by decide⟩
  · have hle := pathCount_le_total (tableOf hugeLengths) 0
    rw [pathCount_tableOf] at hle
    exact (by decide : 100 ≤ ((levels ((0 : Fin 5) + 1)).map hugeLengths).prod).trans hle
  · rw [depthTargets, hshares, fill, if_neg (by decide)]

/-- With a table of 2 ^ 63 paths of depth 5 a target is negative, and from 2 ^ 44 paths on the slice
for them is not made. -/
theorem not_buildChannelPaths_complete :
    (WellFormed (tableOf hugeLengths) ∧ 100 ≤ pathTotal (tableOf hugeLengths) ∧
      ∃ targets, depthTargets 100 (tableOf hugeLengths) = some targets ∧ (targets 4).toInt < 0) ∧
    WellFormed (tableOf fun _ => 512) ∧ 2 ^ 44 + 1 ≤ pathTotal (tableOf fun _ => 512) ∧
      buildChannelPaths (2 ^ 44 + 1) (tableOf fun _ => 512) = .panic := by
  refine ⟨depthTargets_huge, wellFormed_tableOf fun _ => by decide, ?_, if_neg (by decide)⟩
  refine le_trans ?_ (pathCount_le_total _ 4)
  rw [pathCount_tableOf]
  decide

end Results

end OneBrc.Data.ChannelPaths
