import OneBrc.Lib.Swar

/-! Keys as words: `key_equal` and `hash_bytes` of the C and the C++ program. They compare and hash
strings of bytes, although they read words that overlap or that reach out of a key. -/
namespace OneBrc.Analyzer.KeyWords
open Lib Swar

/-- A load of `width` bytes, or nothing outside of a string. -/
def load (width : ℕ) (p : Bytes) : Option ℕ :=
  if width ≤ p.length then some (littleEndian (p.take width)) else none

def load64 (p : Bytes) : Option UInt64 := (load 8 p).map UInt64.ofNat
def load32 (p : Bytes) : Option UInt32 := (load 4 p).map UInt32.ofNat
def load16 (p : Bytes) : Option UInt16 := (load 2 p).map UInt16.ofNat

section Equality

/-- Whether two loads give the same word. -/
def equal {ω : Type} [BEq ω] (load : Bytes → Option ω) (a b : Bytes) : Option Bool := do
  some ((← load a) == (← load b))

/-- A second test when the first one succeeds, after `if (!…) return 0` or in `&&`. -/
def both (x y : Option Bool) : Option Bool := x.bind fun x => if x then y else some false

/-- `memcmp`: the difference of the first two bytes that differ. -/
def memcmp : Bytes → Bytes → ℕ → Option ℤ
  | _, _, 0 => some 0
  | a :: as, b :: bs, n + 1 => if a = b then memcmp as bs n else some ((a.toNat : ℤ) - b.toNat)
  | _, _, _ + 1 => none

/-- `key_equal`, the same in both programs. -/
def keyEqual (a b : Bytes) (n : UInt32) : Option Bool :=
  if n ≥ 8 then
    both (equal load64 a b) <|
      if n = 8 then some true
      else if n ≤ 16 then equal load64 (a.drop (n.toNat - 8)) (b.drop (n.toNat - 8))
      else
        both (equal load64 (a.drop 8) (b.drop 8)) <|
          if n ≤ 24 then equal load64 (a.drop (n.toNat - 8)) (b.drop (n.toNat - 8))
          else if n ≤ 32 then
            both (equal load64 (a.drop 16) (b.drop 16))
              (equal load64 (a.drop (n.toNat - 8)) (b.drop (n.toNat - 8)))
          else (memcmp (a.drop 16) (b.drop 16) (n - 16).toNat).map (· == 0)
  else if n ≥ 4 then
    both (equal load32 a b) <|
      if n = 4 then some true
      else equal load32 (a.drop (n.toNat - 4)) (b.drop (n.toNat - 4))
  else if n ≥ 2 then
    both (equal load16 a b) <|
      if n = 2 then some true
      else equal load16 (a.drop (n.toNat - 2)) (b.drop (n.toNat - 2))
  else if n = 0 then some true
  else equal List.head? a b

end Equality

section Hash

/-- The word that begins `back` bytes before `p`, where memory begins at zero. -/
def loadBefore (memory : Bytes) (p back : ℕ) : Option UInt64 :=
  if back ≤ p then load64 (memory.drop (p - back)) else none

/-- `_bzhi_u64`: the bits from an index on are cleared; of the index only eight bits count. -/
def bzhi (src : UInt64) (index : UInt32) : UInt64 :=
  if index.toNat % 2 ^ 8 < 64 then UInt64.ofNat (src.toNat % 2 ^ (index.toNat % 2 ^ 8)) else src

def rotl64 (x : UInt64) (n : UInt32) : UInt64 :=
  x <<< (n &&& 63).toUInt64 ||| x >>> ((64 - n) &&& 63).toUInt64

/-- What `hash_bytes` is in both programs, which mix in further words in different ways. -/
def hashBytes (mix : UInt64 → UInt32 → UInt64) (memory : Bytes) (p : ℕ) (n : UInt64) :
    Option UInt32 := do
  let first ← load64 (memory.drop p)
  let shortX := bzhi first (n.toUInt32 * 8)
  let last ← loadBefore memory (p + n.toNat) 8
  let longX := first ^^^ mix last n.toUInt32
  -- the conditional move is taken above eight
  let x := if n > 8 then longX else shortX
  if n > 16 then
    let middle ← loadBefore memory (p + (n / 2).toNat) 4
    some (crc32 n (x ^^^ mix middle (n.toUInt32 / 2))).toUInt32
  else some (crc32 n x).toUInt32

/-- `hash_bytes` in C. -/
def C.hashBytes : Bytes → ℕ → UInt64 → Option UInt32 := KeyWords.hashBytes fun x _ => x

/-- `hash_bytes` in C++. -/
def Cpp.hashBytes : Bytes → ℕ → UInt64 → Option UInt32 := KeyWords.hashBytes rotl64

end Hash

/-- A test runs and finds out whether `P` holds. -/
def Decides (x : Option Bool) (P : Prop) : Prop := ∃ r, x = some r ∧ (r = true ↔ P)

section Decides
variable {x y : Option Bool} {P Q : Prop}

theorem Decides.congr (h : Decides x P) (hiff : P ↔ Q) : Decides x Q := by
  obtain ⟨r, hx, hr⟩ := h
  exact ⟨r, hx, hr.trans hiff⟩

theorem decides_true (hP : P) : Decides (some true) P := ⟨true, rfl, iff_of_true rfl hP⟩

/-- The second test runs only when the first one succeeds. -/
theorem Decides.both (hx : Decides x P) (hy : Decides y Q) : Decides (both x y) (P ∧ Q) := by
  obtain ⟨r, rfl, hr⟩ := hx
  cases r with
  | false =>
    refine ⟨false, rfl, ?_⟩
    have hP : ¬P := fun hP => Bool.false_ne_true (hr.mpr hP)
    exact iff_of_false Bool.false_ne_true fun h => hP h.1
  | true =>
    obtain ⟨s, rfl, hs⟩ := hy
    exact ⟨s, rfl, hs.trans (and_iff_right (hr.mp rfl)).symm⟩

end Decides

/-- Two strings have the same bytes from `i` up to `j`. -/
def Same (a b : Bytes) (i j : ℕ) : Prop := ∀ k, i ≤ k → k < j → a[k]? = b[k]?

section Same
variable {a b : Bytes} {i j i' j' w n : ℕ}

theorem same_slice : (a.drop i).take w = (b.drop i).take w ↔ Same a b i (i + w) := by
  constructor
  · intro h k hi hk
    have hget := congrArg (fun l : Bytes => l[k - i]?) h
    rwa [List.getElem?_take_of_lt (by omega), List.getElem?_take_of_lt (by omega),
      List.getElem?_drop, List.getElem?_drop, show i + (k - i) = k by omega] at hget
  · intro h
    apply List.ext_getElem?
    intro k
    rw [List.getElem?_take, List.getElem?_take, List.getElem?_drop, List.getElem?_drop]
    split
    · exact h (i + k) (by omega) (by omega)
    · rfl

/-- Ranges that touch or overlap cover all between their ends. -/
theorem same_union (hi : i ≤ i') (hj : i' ≤ j) (hj' : j ≤ j') :
    Same a b i j ∧ Same a b i' j' ↔ Same a b i j' := by
  constructor
  · rintro ⟨h, h'⟩ k hk hk'
    by_cases hlt : k < j
    · exact h k hk hlt
    · exact h' k (by omega) hk'
  · intro h
    exact ⟨fun k hk hk' => h k hk (by omega), fun k hk hk' => h k (by omega) hk'⟩

/-- Words of `w` bytes are equal when their bytes are. -/
theorem decides_equal {ω : Type} [BEq ω] [LawfulBEq ω] {f : ℕ → ω}
    (hf : ∀ x < 2 ^ (8 * w), ∀ y < 2 ^ (8 * w), f x = f y ↔ x = y) (ha : i + w ≤ a.length)
    (hb : i + w ≤ b.length) :
    Decides (equal (fun p => (load w p).map f) (a.drop i) (b.drop i)) (Same a b i (i + w)) := by
  have hlength {c : Bytes} (hc : i + w ≤ c.length) : ((c.drop i).take w).length = w := by
    rw [List.length_take, List.length_drop]
    omega
  have hload {c : Bytes} (hc : i + w ≤ c.length) :
      (load w (c.drop i)).map f = some (f (littleEndian ((c.drop i).take w))) := by
    rw [load, List.length_drop, if_pos (by omega), Option.map_some]
  have hlt {c : Bytes} (hc : i + w ≤ c.length) :
      littleEndian ((c.drop i).take w) < 2 ^ (8 * w) := by
    have hlt := littleEndian_lt ((c.drop i).take w)
    rwa [hlength hc] at hlt
  refine ⟨f (littleEndian ((a.drop i).take w)) == f (littleEndian ((b.drop i).take w)), ?_, ?_⟩
  · simp only [equal, hload ha, hload hb, bind, Option.bind]
  · rw [beq_iff_eq, hf _ (hlt ha) _ (hlt hb), littleEndian_inj ((hlength ha).trans
      (hlength hb).symm), same_slice]

theorem decides_equal64 (i : ℕ) (ha : i + 8 ≤ a.length) (hb : i + 8 ≤ b.length) :
    Decides (equal load64 (a.drop i) (b.drop i)) (Same a b i (i + 8)) := by
  apply decides_equal _ ha hb
  intro x hx y hy
  rw [← UInt64.toNat_inj, UInt64.toNat_ofNat_of_lt' hx, UInt64.toNat_ofNat_of_lt' hy]

theorem decides_equal32 (i : ℕ) (ha : i + 4 ≤ a.length) (hb : i + 4 ≤ b.length) :
    Decides (equal load32 (a.drop i) (b.drop i)) (Same a b i (i + 4)) := by
  apply decides_equal _ ha hb
  intro x hx y hy
  rw [← UInt32.toNat_inj, UInt32.toNat_ofNat_of_lt' hx, UInt32.toNat_ofNat_of_lt' hy]

theorem decides_equal16 (i : ℕ) (ha : i + 2 ≤ a.length) (hb : i + 2 ≤ b.length) :
    Decides (equal load16 (a.drop i) (b.drop i)) (Same a b i (i + 2)) := by
  apply decides_equal _ ha hb
  intro x hx y hy
  rw [← UInt16.toNat_inj, UInt16.toNat_ofNat_of_lt' hx, UInt16.toNat_ofNat_of_lt' hy]

theorem decides_equal8 (ha : 1 ≤ a.length) (hb : 1 ≤ b.length) :
    Decides (equal List.head? a b) (Same a b 0 1) := by
  obtain ⟨x, as, rfl⟩ := List.exists_cons_of_length_pos ha
  obtain ⟨y, bs, rfl⟩ := List.exists_cons_of_length_pos hb
  refine ⟨x == y, rfl, ?_⟩
  rw [← same_slice (w := 1), beq_iff_eq]
  simp

/-- The result of `memcmp` is zero when the bytes are equal. -/
theorem exists_memcmp (ha : n ≤ a.length) (hb : n ≤ b.length) :
    ∃ d, memcmp a b n = some d ∧ (d = 0 ↔ a.take n = b.take n) := by
  induction n generalizing a b with
  | zero => exact ⟨0, by cases a <;> rfl, by simp⟩
  | succ n ih =>
    obtain ⟨x, as, rfl⟩ := List.exists_cons_of_length_pos (Nat.zero_lt_of_lt ha)
    obtain ⟨y, bs, rfl⟩ := List.exists_cons_of_length_pos (Nat.zero_lt_of_lt hb)
    rw [memcmp, List.take_succ_cons, List.take_succ_cons, List.cons.injEq]
    by_cases hxy : x = y
    · obtain ⟨d, hd, hzero⟩ := ih (Nat.le_of_succ_le_succ ha) (Nat.le_of_succ_le_succ hb)
      rw [if_pos hxy, and_iff_right hxy]
      exact ⟨d, hd, hzero⟩
    · have hne : x.toNat ≠ y.toNat := fun heq => hxy (UInt8.toNat_inj.mp heq)
      rw [if_neg hxy]
      refine ⟨_, rfl, iff_of_false ?_ fun h => hxy h.1⟩
      omega

theorem decides_memcmp (ha : i + n ≤ a.length) (hb : i + n ≤ b.length) :
    Decides ((memcmp (a.drop i) (b.drop i) n).map (· == 0)) (Same a b i (i + n)) := by
  obtain ⟨d, hd, hzero⟩ := exists_memcmp (a := a.drop i) (b := b.drop i) (n := n)
    (by rw [List.length_drop]; omega) (by rw [List.length_drop]; omega)
  rw [hd]
  exact ⟨d == 0, rfl, beq_iff_eq.trans (hzero.trans same_slice)⟩

/-- Up to twice a word, the first and the last word cover a key; a key of one word has no more. -/
theorem decides_ends {x y : Option Bool} (hw : w ≤ n) (hn : n ≤ 2 * w)
    (hx : Decides x (Same a b 0 w)) (hy : Decides y (Same a b (n - w) n)) :
    Decides (both x (if n = w then some true else y)) (Same a b 0 n) := by
  split
  · next heq =>
    subst heq
    exact (hx.both (decides_true trivial)).congr (and_iff_left trivial)
  · exact (hx.both hy).congr (same_union (Nat.zero_le _) (by omega) hw)

end Same

/-- Every class of lengths reads all bytes of the keys, and no other ones. -/
theorem decides_keyEqual {a b : Bytes} {n : UInt32} (ha : n.toNat ≤ a.length)
    (hb : n.toNat ≤ b.length) : Decides (keyEqual a b n) (Same a b 0 n.toNat) := by
  have hle (k : UInt32) : n ≥ k ↔ k.toNat ≤ n.toNat := UInt32.le_iff_toNat_le
  have hge (k : UInt32) : n ≤ k ↔ n.toNat ≤ k.toNat := UInt32.le_iff_toNat_le
  have heq (k : UInt32) : n = k ↔ n.toNat = k.toNat := UInt32.toNat_inj.symm
  unfold keyEqual
  simp only [hle, hge, heq, UInt32.reduceToNat]
  by_cases h8 : 8 ≤ n.toNat
  · have hfirst : Decides (equal load64 a b) (Same a b 0 8) :=
      decides_equal64 0 (by omega) (by omega)
    have hlast : Decides (equal load64 (a.drop (n.toNat - 8)) (b.drop (n.toNat - 8)))
        (Same a b (n.toNat - 8) n.toNat) := by
      have hlast := decides_equal64 (a := a) (b := b) (n.toNat - 8) (by omega) (by omega)
      rwa [Nat.sub_add_cancel h8] at hlast
    rw [if_pos h8]
    by_cases h16 : n.toNat ≤ 16
    · rw [if_pos h16]
      exact decides_ends h8 h16 hfirst hlast
    · rw [if_neg (show n.toNat ≠ 8 by omega), if_neg h16]
      have hsecond : Decides (equal load64 (a.drop 8) (b.drop 8)) (Same a b 8 16) :=
        decides_equal64 8 (by omega) (by omega)
      have hrest {y : Option Bool} (hy : Decides y (Same a b 16 n.toNat)) :
          Decides (both (equal load64 a b) (both (equal load64 (a.drop 8) (b.drop 8)) y))
            (Same a b 0 n.toNat) := by
        have htail := (hsecond.both hy).congr (same_union (by decide) (Nat.le_refl 16) (by omega))
        exact (hfirst.both htail).congr (same_union (by decide) (Nat.le_refl 8) h8)
      by_cases h24 : n.toNat ≤ 24
      · rw [if_pos h24]
        have htail := (hsecond.both hlast).congr (same_union (by omega) (by omega) (by omega))
        exact (hfirst.both htail).congr (same_union (by decide) (Nat.le_refl 8) h8)
      · rw [if_neg h24]
        by_cases h32 : n.toNat ≤ 32
        · rw [if_pos h32]
          have hthird : Decides (equal load64 (a.drop 16) (b.drop 16)) (Same a b 16 24) :=
            decides_equal64 16 (by omega) (by omega)
          exact hrest ((hthird.both hlast).congr (same_union (by omega) (by omega) (by omega)))
        · rw [if_neg h32]
          have hsub : (n - 16).toNat = n.toNat - 16 := by
            rw [UInt32.toNat_sub_of_le _ _ ((hle 16).mpr (show 16 ≤ n.toNat by omega))]
            rfl
          have hmemcmp := decides_memcmp (a := a) (b := b) (i := 16) (n := (n - 16).toNat)
            (by omega) (by omega)
          rw [show 16 + (n - 16).toNat = n.toNat by omega] at hmemcmp
          exact hrest hmemcmp
  · rw [if_neg h8]
    by_cases h4 : 4 ≤ n.toNat
    · have hlast := decides_equal32 (a := a) (b := b) (n.toNat - 4) (by omega) (by omega)
      rw [Nat.sub_add_cancel h4] at hlast
      rw [if_pos h4]
      exact decides_ends h4 (by omega) (decides_equal32 0 (by omega) (by omega)) hlast
    · rw [if_neg h4]
      by_cases h2 : 2 ≤ n.toNat
      · have hlast := decides_equal16 (a := a) (b := b) (n.toNat - 2) (by omega) (by omega)
        rw [Nat.sub_add_cancel h2] at hlast
        rw [if_pos h2]
        exact decides_ends h2 (by omega) (decides_equal16 0 (by omega) (by omega)) hlast
      · rw [if_neg h2]
        by_cases h0 : n.toNat = 0
        · rw [if_pos h0, h0]
          exact decides_true fun k _ hk => absurd hk (Nat.not_lt_zero k)
        · rw [if_neg h0, show n.toNat = 1 by omega]
          exact decides_equal8 (by omega) (by omega)

/-- The hash of a key, which no other byte goes into. -/
def hashKey (mix : UInt64 → UInt32 → UInt64) (key : Bytes) : UInt32 :=
  let n := UInt64.ofNat key.length
  let x :=
    if 8 < key.length then
      Swar.load64 key ^^^ mix (Swar.load64 (key.drop (key.length - 8))) n.toUInt32
    else UInt64.ofNat (littleEndian key)
  if 16 < key.length then
    (crc32 n (x ^^^ mix (Swar.load64 (key.drop (key.length / 2 - 4)))
      (n.toUInt32 / 2))).toUInt32
  else (crc32 n x).toUInt32

section Hash
variable {before key after : Bytes} {n : UInt64}

theorem load64_eq (p : Bytes) :
    load64 p = if 8 ≤ p.length then some (Swar.load64 p) else none := by
  unfold load64 load
  split <;> rfl

/-- A word inside of the key. -/
theorem load64_inside {i : ℕ} (hi : i + 8 ≤ key.length) :
    load64 ((before ++ key ++ after).drop (before.length + i)) =
      some (Swar.load64 (key.drop i)) := by
  have hdrop : (before ++ key ++ after).drop (before.length + i) = key.drop i ++ after := by
    rw [List.append_assoc, List.drop_length_add_append, List.drop_append_of_le_length (by omega)]
  have hlength : 8 ≤ (key.drop i).length := by
    rw [List.length_drop]
    omega
  rw [hdrop, load64_eq, if_pos (by rw [List.length_append]; omega), Swar.load64, Swar.load64,
    List.take_append_of_le_length hlength]

/-- Of the word at a short key the bits of the key are kept. -/
theorem bzhi_key (hn : n.toNat = key.length) (hkey : key.length ≤ 8) :
    bzhi (Swar.load64 (key ++ after)) (n.toUInt32 * 8) = UInt64.ofNat (littleEndian key) := by
  have hindex : (n.toUInt32 * 8).toNat % 2 ^ 8 = 8 * key.length := by
    rw [UInt32.toNat_mul, UInt64.toNat_toUInt32, hn]
    show key.length % 2 ^ 32 * 8 % 2 ^ 32 % 2 ^ 8 = _
    omega
  have htake : (key ++ after).take 8 = key ++ after.take (8 - key.length) := by
    rw [List.take_append, List.take_of_length_le hkey]
  rw [bzhi, hindex]
  split
  · have hlt : littleEndian ((key ++ after).take 8) < 2 ^ 64 := by
      apply Nat.lt_of_lt_of_le (littleEndian_lt _)
      apply Nat.pow_le_pow_right (by decide)
      rw [List.length_take]
      omega
    rw [Swar.load64, UInt64.toNat_ofNat_of_lt' hlt, htake, littleEndian_append_mod]
  · have hlength : key.length = 8 := by omega
    rw [Swar.load64, htake, hlength, Nat.sub_self, List.take_zero, List.append_nil]

/-- The function gives the hash of the key, wherever the key is and whatever is around it. -/
theorem hashBytes_key (mix : UInt64 → UInt32 → UInt64) (hn : n.toNat = key.length) :
    hashBytes mix (before ++ key ++ after) before.length n =
      if 8 ≤ before.length + key.length ∧ 8 ≤ key.length + after.length then
        some (hashKey mix key)
      else none := by
  have hname : n = UInt64.ofNat key.length := by rw [← hn, UInt64.ofNat_toNat]
  have h8 : n > 8 ↔ 8 < key.length := by rw [gt_iff_lt, UInt64.lt_iff_toNat_lt, hn]; rfl
  have h16 : n > 16 ↔ 16 < key.length := by rw [gt_iff_lt, UInt64.lt_iff_toNat_lt, hn]; rfl
  have hhalf : (n / 2).toNat = key.length / 2 := by rw [UInt64.toNat_div, hn]; rfl
  have hfirst : load64 ((before ++ key ++ after).drop before.length) =
      if 8 ≤ key.length + after.length then some (Swar.load64 (key ++ after)) else none := by
    rw [List.append_assoc, List.drop_left, load64_eq, List.length_append]
  simp only [hashBytes, hfirst, h8, h16, hhalf]
  by_cases hafter : 8 ≤ key.length + after.length
  · by_cases hbefore : 8 ≤ before.length + key.length
    · have hlast : ∃ last, loadBefore (before ++ key ++ after) (before.length + n.toNat) 8 =
          some last ∧ (8 < key.length → last = Swar.load64 (key.drop (key.length - 8))) := by
        rw [loadBefore, hn, if_pos hbefore]
        by_cases hlong : 8 < key.length
        · rw [Nat.add_sub_assoc (Nat.le_of_lt hlong), load64_inside (by omega)]
          exact ⟨_, rfl, fun _ => rfl⟩
        · have hlength : 8 ≤ ((before ++ key ++ after).drop
              (before.length + key.length - 8)).length := by
            rw [List.length_drop, List.length_append, List.length_append]
            omega
          rw [load64_eq, if_pos hlength]
          exact ⟨_, rfl, fun h => absurd h hlong⟩
      obtain ⟨last, hlast, hinside⟩ := hlast
      -- the foreign bytes are in the form that is not selected
      have hx : (if 8 < key.length then Swar.load64 (key ++ after) ^^^ mix last n.toUInt32
          else bzhi (Swar.load64 (key ++ after)) (n.toUInt32 * 8)) =
          if 8 < key.length then
            Swar.load64 key ^^^ mix (Swar.load64 (key.drop (key.length - 8))) n.toUInt32
          else UInt64.ofNat (littleEndian key) := by
        by_cases hlong : 8 < key.length
        · have hword : Swar.load64 (key ++ after) = Swar.load64 key := by
            rw [Swar.load64, List.take_append_of_le_length (Nat.le_of_lt hlong), Swar.load64]
          rw [if_pos hlong, if_pos hlong, hinside hlong, hword]
        · rw [if_neg hlong, if_neg hlong, bzhi_key hn (Nat.le_of_not_lt hlong)]
      rw [if_pos hafter, if_pos ⟨hbefore, hafter⟩, hlast]
      simp only [bind, Option.bind, hx, hashKey, ← hname]
      by_cases hlong : 16 < key.length
      · have hmiddle : loadBefore (before ++ key ++ after) (before.length + key.length / 2) 4 =
            some (Swar.load64 (key.drop (key.length / 2 - 4))) := by
          rw [loadBefore, if_pos (by omega), Nat.add_sub_assoc (by omega),
            load64_inside (by omega)]
        rw [if_pos hlong, if_pos hlong, hmiddle]
      · rw [if_neg hlong, if_neg hlong]
    · rw [if_pos hafter, if_neg fun h => hbefore h.1, hn, loadBefore, if_neg hbefore]
      rfl
  · rw [if_neg hafter, if_neg fun h => hafter h.2]
    rfl

end Hash

/-- Keys are equal when `key_equal` says so, and their hash depends on their own bytes only: the
loads that reach out of a key have to succeed, but what they read does not count. -/
theorem key_words :
    (∀ (a b : Bytes) (n : UInt32), n.toNat ≤ a.length → n.toNat ≤ b.length →
      keyEqual a b n = some (decide (a.take n.toNat = b.take n.toNat))) ∧
    ∀ hashBytes ∈ [C.hashBytes, Cpp.hashBytes], ∃ hash : Bytes → UInt32,
      ∀ (before key after : Bytes) (n : UInt64), n.toNat = key.length →
        hashBytes (before ++ key ++ after) before.length n =
          if 8 ≤ before.length + key.length ∧ 8 ≤ key.length + after.length then
            some (hash key)
          else none := by
  constructor
  · intro a b n ha hb
    obtain ⟨r, hr, hiff⟩ := decides_keyEqual ha hb
    have hsame := same_slice (a := a) (b := b) (i := 0) (w := n.toNat)
    rw [List.drop_zero, List.drop_zero, Nat.zero_add] at hsame
    rw [hr, Bool.eq_iff_iff.mpr (hiff.trans (hsame.symm.trans decide_eq_true_iff.symm))]
  · intro hashBytes hmem
    rw [List.mem_pair] at hmem
    rcases hmem with rfl | rfl
    · exact ⟨hashKey _, fun _ _ _ _ hn => hashBytes_key _ hn⟩
    · exact ⟨hashKey _, fun _ _ _ _ hn => hashBytes_key _ hn⟩

/-- Two rows in which the key `ab` stands between different bytes. -/
theorem key_words_ab :
    keyEqual [1, 2, 3, 4, 5, 6, 7, 8, 9] [1, 2, 3, 4, 5, 6, 7, 8, 10] 9 = some false ∧
    ∀ hashBytes ∈ [C.hashBytes, Cpp.hashBytes], ∃ h,
      hashBytes ([48, 49, 50, 51, 52, 53] ++ [97, 98] ++ [44, 55, 44, 49, 10, 50]) 6 2 = some h ∧
      hashBytes ([57, 57, 57, 57, 57, 57] ++ [97, 98] ++ [44, 54, 44, 50, 10, 51]) 6 2 =
        some h := by
  constructor
  · rw [key_words.1 _ _ 9 (by decide) (by decide)]
    decide
  · intro hashBytes hmem
    obtain ⟨hash, hhash⟩ := key_words.2 hashBytes hmem
    refine ⟨hash [97, 98], ?_, ?_⟩
    · exact (hhash [48, 49, 50, 51, 52, 53] [97, 98] _ 2 rfl).trans (if_pos (by decide))
    · exact (hhash [57, 57, 57, 57, 57, 57] [97, 98] _ 2 rfl).trans (if_pos (by decide))

end OneBrc.Analyzer.KeyWords
