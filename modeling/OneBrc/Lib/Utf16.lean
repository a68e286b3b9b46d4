import Mathlib.Data.List.Basic
import Mathlib.Data.Char

/-! UTF-16 code units of a string of Unicode scalar values, and decoding with replacement. -/
namespace OneBrc.Lib.Utf16

/-- One unit below `0x10000`, otherwise a high and a low surrogate. -/
def encodeChar (c : Char) : List UInt16 :=
  if c.toNat < 0x10000 then [UInt16.ofNat c.toNat]
  else [UInt16.ofNat (0xD800 + (c.toNat - 0x10000) / 0x400),
    UInt16.ofNat (0xDC00 + (c.toNat - 0x10000) % 0x400)]

def encode (cs : List Char) : List UInt16 := cs.flatMap encodeChar

def isHigh (u : UInt16) : Bool := 0xD800 ≤ u.toNat && u.toNat < 0xDC00

def isLow (u : UInt16) : Bool := 0xDC00 ≤ u.toNat && u.toNat < 0xE000

/-- U+FFFD, which stands for an unpaired surrogate. -/
def replacement : Char := Char.ofNat 0xFFFD

def decodePair (u v : UInt16) : Char :=
  Char.ofNat (0x10000 + (u.toNat - 0xD800) * 0x400 + (v.toNat - 0xDC00))

def decodeUnit (u : UInt16) : Char :=
  if isHigh u || isLow u then replacement else Char.ofNat u.toNat

def decode : List UInt16 → List Char
  | [] => []
  | [u] => [decodeUnit u]
  | u :: v :: rest =>
      if isHigh u && isLow v then decodePair u v :: decode rest
      else decodeUnit u :: decode (v :: rest)

/-- Length in UTF-16 units. -/
def length (s : String) : ℕ := (encode s.toList).length

/-- No character takes less than a unit. -/
theorem length_toList_le (s : String) : s.toList.length ≤ length s := by
  rw [length]
  generalize s.toList = cs
  induction cs with
  | nil => exact Nat.le_refl 0
  | cons c cs ih =>
    have hc : 1 ≤ (encodeChar c).length := by
      unfold encodeChar
      split <;> simp
    rw [encode, List.flatMap_cons, List.length_append, List.length_cons]
    change cs.length ≤ (cs.flatMap encodeChar).length at ih
    omega

theorem char_range (c : Char) :
    c.toNat < 0xD800 ∨ (0xDFFF < c.toNat ∧ c.toNat < 0x110000) := by
  have h : c.toNat.isValidChar := c.valid
  rcases h with h | ⟨h, h'⟩
  · exact .inl h
  · exact .inr ⟨h, h'⟩

private theorem toNat_ofNat {n : ℕ} (h : n < 0x10000) : (UInt16.ofNat n).toNat = n := by
  rw [UInt16.toNat_ofNat']
  exact Nat.mod_eq_of_lt h

theorem decode_basic {u : UInt16} (hu : (isHigh u || isLow u) = false) (rest : List UInt16) :
    decode (u :: rest) = Char.ofNat u.toNat :: decode rest := by
  obtain ⟨hh, hl⟩ := Bool.or_eq_false_iff.mp hu
  cases rest with
  | nil => simp [decode, decodeUnit, hh, hl]
  | cons v rest => simp [decode, decodeUnit, hh, hl]

theorem decode_encodeChar (c : Char) (rest : List UInt16) :
    decode (encodeChar c ++ rest) = c :: decode rest := by
  have hr := char_range c
  unfold encodeChar
  split
  · next hc =>
    have hn := toNat_ofNat hc
    have hu : (isHigh (UInt16.ofNat c.toNat) || isLow (UInt16.ofNat c.toNat)) = false := by
      simp only [isHigh, isLow, hn, Bool.or_eq_false_iff, Bool.and_eq_false_iff,
        decide_eq_false_iff_not]
      omega
    rw [List.singleton_append, decode_basic hu, hn, Char.ofNat_toNat]
  · next hc =>
    have hd : (c.toNat - 0x10000) / 0x400 < 0x400 := by omega
    have hm : (c.toNat - 0x10000) % 0x400 < 0x400 := Nat.mod_lt _ (by decide)
    have hh := toNat_ofNat (n := 0xD800 + (c.toNat - 0x10000) / 0x400) (by omega)
    have hl := toNat_ofNat (n := 0xDC00 + (c.toNat - 0x10000) % 0x400) (by omega)
    have hpair : 0x10000 + (c.toNat - 0x10000) / 0x400 * 0x400 + (c.toNat - 0x10000) % 0x400 =
        c.toNat := by omega
    have hhigh : isHigh (UInt16.ofNat (0xD800 + (c.toNat - 0x10000) / 0x400)) = true := by
      simp only [isHigh, hh, Bool.and_eq_true, decide_eq_true_eq]
      omega
    have hlow : isLow (UInt16.ofNat (0xDC00 + (c.toNat - 0x10000) % 0x400)) = true := by
      simp only [isLow, hl, Bool.and_eq_true, decide_eq_true_eq]
      omega
    simp only [List.cons_append, List.nil_append, decode, hhigh, hlow, Bool.and_self, if_true,
      decodePair, hh, hl, Nat.add_sub_cancel_left, hpair, Char.ofNat_toNat]

/-- Decoding inverts encoding. -/
@[simp] theorem decode_encode (cs : List Char) : decode (encode cs) = cs := by
  induction cs with
  | nil => rfl
  | cons c cs ih =>
    rw [encode, List.flatMap_cons, decode_encodeChar]
    exact congrArg _ ih

theorem toNat_ofNat_char {n : ℕ} (h : n.isValidChar) : (Char.ofNat n).toNat = n := by
  rw [Char.ofNat, dif_pos h]
  rfl

theorem encodeChar_ofNat {u : UInt16} (hu : (isHigh u || isLow u) = false) :
    encodeChar (Char.ofNat u.toNat) = [u] := by
  have hlt : u.toNat < 0x10000 := u.toNat_lt
  have hvalid : u.toNat.isValidChar := by
    simp only [isHigh, isLow, Bool.or_eq_false_iff, Bool.and_eq_false_iff,
      decide_eq_false_iff_not] at hu
    rw [Nat.isValidChar]
    omega
  have hn : (Char.ofNat u.toNat).toNat = u.toNat := toNat_ofNat_char hvalid
  rw [encodeChar, hn, if_pos hlt, UInt16.ofNat_toNat]

theorem encodeChar_decodePair {u v : UInt16} (hu : isHigh u = true) (hv : isLow v = true) :
    encodeChar (decodePair u v) = [u, v] := by
  simp only [isHigh, isLow, Bool.and_eq_true, decide_eq_true_eq] at hu hv
  have hvalid :
      (0x10000 + (u.toNat - 0xD800) * 0x400 + (v.toNat - 0xDC00)).isValidChar := by
    rw [Nat.isValidChar]
    omega
  have hn : (decodePair u v).toNat =
      0x10000 + (u.toNat - 0xD800) * 0x400 + (v.toNat - 0xDC00) :=
    toNat_ofNat_char hvalid
  have hhigh : 0xD800 + ((decodePair u v).toNat - 0x10000) / 0x400 = u.toNat := by omega
  have hlow : 0xDC00 + ((decodePair u v).toNat - 0x10000) % 0x400 = v.toNat := by omega
  rw [encodeChar, if_neg (by omega), hhigh, hlow, UInt16.ofNat_toNat, UInt16.ofNat_toNat]

theorem decodeUnit_eq {u : UInt16} (h : decodeUnit u ≠ replacement) :
    (isHigh u || isLow u) = false ∧ decodeUnit u = Char.ofNat u.toNat := by
  unfold decodeUnit at h ⊢
  split at h
  · exact absurd rfl h
  · next hu =>
    rw [if_neg hu]
    exact ⟨by simpa using hu, rfl⟩

/-- Encoding inverts decoding when nothing was replaced. -/
theorem encode_decode {units : List UInt16} (h : replacement ∉ decode units) :
    encode (decode units) = units := by
  induction units using decode.induct with
  | case1 => rfl
  | case2 u =>
    obtain ⟨hu, heq⟩ := decodeUnit_eq (u := u) fun heq => h (by simp [decode, heq])
    rw [decode, heq]
    simp [encode, encodeChar_ofNat hu]
  | case3 u v rest hpair ih =>
    obtain ⟨hu, hv⟩ := Bool.and_eq_true_iff.mp hpair
    rw [decode, if_pos hpair] at h ⊢
    rw [encode, List.flatMap_cons, encodeChar_decodePair hu hv]
    exact congrArg (u :: v :: ·) (ih fun hmem => h (List.mem_cons_of_mem _ hmem))
  | case4 u v rest hpair ih =>
    rw [decode, if_neg hpair] at h ⊢
    obtain ⟨hu, heq⟩ := decodeUnit_eq (u := u) fun heq => h (by simp [heq])
    rw [encode, List.flatMap_cons, heq, encodeChar_ofNat hu]
    exact congrArg (u :: ·) (ih fun hmem => h (List.mem_cons_of_mem _ hmem))

/-- A text without the replacement character is decoded from one sequence of units only. -/
theorem decode_eq_iff {units : List UInt16} {cs : List Char} (h : replacement ∉ cs) :
    decode units = cs ↔ units = encode cs := by
  constructor
  · rintro rfl
    exact (encode_decode h).symm
  · rintro rfl
    exact decode_encode cs

/-- The cut after `n` units falls between the two units of a character. -/
def Splits (cs : List Char) (n : ℕ) : Prop :=
  ∃ front c rest, cs = front ++ c :: rest ∧ 0x10000 ≤ c.toNat ∧ n = (encode front).length + 1

theorem encode_append (cs ds : List Char) : encode (cs ++ ds) = encode cs ++ encode ds :=
  List.flatMap_append

theorem encode_cons (c : Char) (cs : List Char) : encode (c :: cs) = encodeChar c ++ encode cs :=
  List.flatMap_cons

theorem length_encodeChar_of_lt {c : Char} (h : c.toNat < 0x10000) :
    (encodeChar c).length = 1 := by
  rw [encodeChar, if_pos h, List.length_singleton]

theorem encodeChar_of_le {c : Char} (h : 0x10000 ≤ c.toNat) :
    ∃ u v, encodeChar c = [u, v] ∧ decodeUnit u = replacement := by
  refine ⟨_, _, by rw [encodeChar, if_neg (Nat.not_lt.mpr h)], ?_⟩
  have hr := char_range c
  have hn := toNat_ofNat (n := 0xD800 + (c.toNat - 0x10000) / 0x400) (by omega)
  have hhigh : isHigh (UInt16.ofNat (0xD800 + (c.toNat - 0x10000) / 0x400)) = true := by
    simp only [isHigh, hn, Bool.and_eq_true, decide_eq_true_eq]
    omega
  rw [decodeUnit, hhigh, Bool.true_or, if_pos rfl]

/-- A cut leaves the units of a prefix of the text, or it splits a character. -/
theorem take_encode (cs : List Char) (n : ℕ) :
    (∃ front, front <+: cs ∧ (encode cs).take n = encode front) ∨ Splits cs n := by
  induction cs generalizing n with
  | nil => exact .inl ⟨[], List.prefix_rfl, List.take_nil⟩
  | cons c cs ih =>
    rw [encode_cons]
    by_cases hn : n < (encodeChar c).length
    · rcases Nat.eq_zero_or_pos n with rfl | hpos
      · exact .inl ⟨[], List.nil_prefix, rfl⟩
      · have hc : 0x10000 ≤ c.toNat := by
          by_contra hc
          have hlen := length_encodeChar_of_lt (Nat.lt_of_not_le hc)
          omega
        obtain ⟨u, v, heq, -⟩ := encodeChar_of_le hc
        rw [heq, List.length_cons, List.length_singleton] at hn
        have hone : n = 1 := by omega
        exact .inr ⟨[], c, cs, rfl, hc, hone⟩
    · rw [List.take_append, List.take_of_length_le (Nat.le_of_not_lt hn)]
      rcases ih (n - (encodeChar c).length) with ⟨front, hfront, htake⟩ | hsplit
      · exact .inl ⟨c :: front, List.cons_prefix_cons.mpr ⟨rfl, hfront⟩, by
          rw [htake, encode_cons]⟩
      · obtain ⟨front, d, rest, rfl, hd, hcut⟩ := hsplit
        refine .inr ⟨c :: front, d, rest, rfl, hd, ?_⟩
        rw [encode_cons, List.length_append]
        omega

/-- A character that is split leaves the replacement character. -/
theorem decode_take_encode {front : List Char} {c : Char} (rest : List Char)
    (hc : 0x10000 ≤ c.toNat) :
    decode ((encode (front ++ c :: rest)).take ((encode front).length + 1)) =
      front ++ [replacement] := by
  obtain ⟨u, v, heq, hu⟩ := encodeChar_of_le hc
  have htake : (encode (front ++ c :: rest)).take ((encode front).length + 1) =
      encode front ++ [u] := by
    rw [encode_append, encode_cons, heq, List.take_length_add_append]
    rfl
  rw [htake]
  clear htake
  induction front with
  | nil => rw [encode, List.flatMap_nil, List.nil_append, decode, hu, List.nil_append]
  | cons d front ih =>
    rw [encode_cons, List.append_assoc, decode_encodeChar, ih, List.cons_append]

end OneBrc.Lib.Utf16
