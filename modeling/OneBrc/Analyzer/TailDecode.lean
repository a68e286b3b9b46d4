import Mathlib.Tactic.Linarith
import OneBrc.Analyzer.Scan
import OneBrc.Lib.Simd

/-! The end of a row, `len,stamps` and LF, in the loops of the analyzers in C and C++: one load of
eight bytes tells the common shapes apart, and sums of products decode them. The loops of both
programs have the same text here. -/
namespace OneBrc.Analyzer.TailDecode
open Lib Swar Simd

/-- What the classification of the eight bytes chooses. -/
inductive Branch
  | oneDigitStamps
  | twoDigitStamps
  | fourDigitLength
  | scalar
  deriving DecidableEq

/-- What is added to the months of the channel, or what goes to its wide table, and the cursor. -/
inductive Decoded
  | increment (lanes : List UInt32) (rest : Bytes)
  | wide (ml stamps : UInt32) (rest : Bytes)
  deriving DecidableEq

def uint16Max : ℕ := 65535

/-- The eight bytes at a cursor; behind the file there are zeros. -/
def load64 (rest : Bytes) : ℕ := littleEndian (rest.take 8)

/-- Whether the comparison of the fourth byte moves the raw word and the later cursor. -/
def isThreeDigits (tail : ℕ) : Bool := tail / 2 ^ 24 % 2 ^ 8 = 44

/-- The word with its first comma in the fourth byte, where that takes at most one byte. -/
def alignedTail (tail : ℕ) : ℕ :=
  if isThreeDigits tail then tail else tail * 2 ^ 8 % 2 ^ 64 ||| 48

def delimiters (aligned : ℕ) : ℕ := pext 64 aligned 0x0000ff00ff000000

def classify (aligned : ℕ) : Branch :=
  if delimiters aligned = 0x0a2c then .oneDigitStamps
  else if delimiters aligned % 2 ^ 8 = 44 ∧ aligned / 2 ^ 48 % 2 ^ 8 = 10 then .twoDigitStamps
  else if delimiters aligned / 2 ^ 8 % 2 ^ 8 = 44 ∧ aligned / 2 ^ 56 % 2 ^ 8 = 10 then
    .fourDigitLength
  else .scalar

def fourDigitIncrement (aligned : ℕ → ℕ) : List UInt32 :=
  dpwssd (setr [-53328, -48, 1, 0]) (maddubs (srliByte aligned) (setr [10, 1, 10, 1, 0, 1, 0, 0]))
    (setr [100, 1, 1, 0])

/-- The row from its length to its LF. It is `none` when a loop runs off the text. -/
def decodeTail (rest : Bytes) : Option Decoded :=
  let tail := load64 rest
  let aligned := alignedTail tail
  let fastNext := if isThreeDigits tail then 6 else 5
  match classify aligned with
  | .oneDigitStamps => some (.increment (dpbusd (setr [-5328, -48, 1, 0]) (cvtsi64 aligned)
      (setr [100, 10, 1, 0, 1, 0, 0, 0])) (rest.drop fastNext))
  | .twoDigitStamps => some (.increment (dpbusd (setr [-5328, -48, 1, 0]) (cvtsi64 aligned)
      (setr [100, 10, 1, 0, 10, 1, -48, 0])) (rest.drop (fastNext + 1)))
  | .fourDigitLength => some (.increment (fourDigitIncrement (cvtsi64 aligned)) (rest.drop 7))
  | .scalar => do
      let (ml, rest) ← readNumber comma rest
      let (stamps, rest) ← readNumber newline rest
      if uint16Max ≤ ml.toNat then some (.wide ml stamps rest)
      else some (.increment [ml, stamps, 1, 0] rest)

/-- What may stand behind a row: the timestamp, the comma and the path of the next one, or the
zeros behind the file. -/
def Continues (rest : Bytes) : Prop :=
  (∃ timestamp path, timestamp.length = 10 ∧ (∀ b ∈ timestamp, Decimal.isDigit b = true) ∧
    rest = timestamp ++ comma :: path) ∨ ∀ b ∈ rest, b = 0

/-- The branch that is meant for numbers of these lengths. -/
def shape (length stamps : ℕ) : Branch :=
  if (length = 2 ∨ length = 3) ∧ stamps = 1 then .oneDigitStamps
  else if (length = 2 ∨ length = 3) ∧ stamps = 2 then .twoDigitStamps
  else if length = 4 ∧ stamps = 1 then .fourDigitLength
  else .scalar

section Bytes
variable {rest : Bytes} {i : ℕ}

theorem Continues.getD (h : Continues rest) (hi : i < 10) :
    (rest.getD i 0).toNat ≠ 44 ∧ (rest.getD i 0).toNat ≠ 10 := by
  rcases h with ⟨timestamp, path, hlength, hdigits, rfl⟩ | hzeros
  · have hi' : i < timestamp.length := hlength ▸ hi
    have hb := Decimal.isDigit_iff.mp (hdigits _ (List.getElem_mem hi'))
    rw [List.getD_eq_getElem?_getD, List.getElem?_append_left hi', List.getElem?_eq_getElem hi',
      Option.getD_some]
    omega
  · have hzero : rest.getD i 0 = 0 := by
      rw [List.getD_eq_getElem?_getD]
      cases hget : rest[i]? with
      | none => rfl
      | some b => exact hzeros b (List.mem_of_getElem? hget)
    rw [hzero]
    decide

theorem byteAt_load64 (hi : i < 8) : byteAt (load64 rest) i = (rest.getD i 0).toNat := by
  rw [load64, byteAt_littleEndian, List.getD_eq_getElem?_getD, List.getElem?_take_of_lt hi,
    List.getD_eq_getElem?_getD]

theorem isThreeDigits_iff :
    isThreeDigits (load64 rest) = true ↔ (rest.getD 3 0).toNat = 44 := by
  rw [isThreeDigits, decide_eq_true_iff, ← byteAt_load64 (by decide)]
  rfl

/-- The bytes of the aligned word. -/
def alignedByte (rest : Bytes) (i : ℕ) : ℕ :=
  if (rest.getD 3 0).toNat = 44 then (rest.getD i 0).toNat
  else if i = 0 then 48 else (rest.getD (i - 1) 0).toNat

theorem byteAt_alignedTail (hi : i < 8) :
    byteAt (alignedTail (load64 rest)) i = alignedByte rest i := by
  rw [alignedTail, alignedByte]
  by_cases hthree : (rest.getD 3 0).toNat = 44
  · rw [if_pos (isThreeDigits_iff.mpr hthree), if_pos hthree, byteAt_load64 hi]
  · rw [if_neg (fun h => hthree (isThreeDigits_iff.mp h)), if_neg hthree,
      shiftLeft_or (by decide)]
    cases i with
    | zero => exact byteAt_zero (by decide)
    | succ i =>
      rw [byteAt_succ (by decide), byteAt_mod (by omega), byteAt_load64 (by omega),
        if_neg (Nat.succ_ne_zero i), Nat.succ_sub_one]

theorem delimiters_eq (aligned : ℕ) :
    delimiters aligned = byteAt aligned 3 + 2 ^ 8 * byteAt aligned 5 := by
  have hmask : 0x0000ff00ff000000 =
      2 ^ 24 * (2 ^ 8 - 1 + 2 ^ 8 * (2 ^ 8 * (2 ^ 8 - 1 + 2 ^ 8 * 0))) := rfl
  rw [delimiters, hmask, pext_clear 40 _ _ 24, pext_set 32 _ _ 8, pext_clear 24 _ _ 8,
    pext_set 16 _ _ 8, pext_zero, Nat.mul_zero, Nat.add_zero, Nat.div_div_eq_div_mul,
    Nat.div_div_eq_div_mul]
  rfl

/-- The classification looks at four bytes. -/
theorem classify_eq (aligned : ℕ) : classify aligned =
    if byteAt aligned 3 = 44 ∧ byteAt aligned 5 = 10 then .oneDigitStamps
    else if byteAt aligned 3 = 44 ∧ byteAt aligned 6 = 10 then .twoDigitStamps
    else if byteAt aligned 5 = 44 ∧ byteAt aligned 7 = 10 then .fourDigitLength
    else .scalar := by
  have hthree : byteAt aligned 3 < 2 ^ 8 := Nat.mod_lt _ (by decide)
  have hfive : byteAt aligned 5 < 2 ^ 8 := Nat.mod_lt _ (by decide)
  have hboth : delimiters aligned = 0x0a2c ↔ byteAt aligned 3 = 44 ∧ byteAt aligned 5 = 10 := by
    rw [delimiters_eq]
    omega
  have hlow : delimiters aligned % 2 ^ 8 = byteAt aligned 3 := by
    rw [delimiters_eq]
    omega
  have hhigh : delimiters aligned / 2 ^ 8 % 2 ^ 8 = byteAt aligned 5 := by
    rw [delimiters_eq]
    omega
  rw [classify, hlow, hhigh]
  simp only [hboth]
  rfl

end Bytes

section Shapes
variable {length stamps rest : Bytes}

/-- No tail is taken for one of another shape, whatever follows it. -/
theorem classify_tail (hlength : ∀ b ∈ length, Decimal.isDigit b = true) (hne : length ≠ [])
    (hstamps : ∀ b ∈ stamps, Decimal.isDigit b = true) (hne' : stamps ≠ [])
    (hrest : Continues rest) :
    classify (alignedTail (load64 (length ++ comma :: (stamps ++ newline :: rest)))) =
      shape length.length stamps.length := by
  have hdigit (b : UInt8) (hb : b ∈ length) := Decimal.isDigit_iff.mp (hlength b hb)
  have hdigit' (b : UInt8) (hb : b ∈ stamps) := Decimal.isDigit_iff.mp (hstamps b hb)
  rw [classify_eq, byteAt_alignedTail (by decide), byteAt_alignedTail (by decide),
    byteAt_alignedTail (by decide), byteAt_alignedTail (by decide)]
  match length, stamps with
  | [], _ => exact absurd rfl hne
  | _, [] => exact absurd rfl hne'
  | [l0], [s0] =>
    have hnext := hrest.getD (show 0 < 10 by decide)
    simp [alignedByte, shape, comma, newline] at hdigit' hnext ⊢
    split_ifs <;> first | rfl | omega
  | [l0], [s0, s1] =>
    simp [alignedByte, shape, comma, newline] at hdigit' ⊢
    split_ifs <;> first | rfl | omega
  | [l0], s0 :: s1 :: s2 :: stamps =>
    simp [alignedByte, shape, comma, newline] at hdigit' ⊢
    split_ifs <;> first | rfl | omega
  | [l0, l1], [s0] =>
    simp [alignedByte, shape, comma, newline] at hdigit' ⊢
    split_ifs <;> first | rfl | omega
  | [l0, l1], [s0, s1] =>
    simp [alignedByte, shape, comma, newline] at hdigit' ⊢
    split_ifs <;> first | rfl | omega
  | [l0, l1], s0 :: s1 :: s2 :: stamps =>
    simp [alignedByte, shape, comma, newline] at hdigit' ⊢
    split_ifs <;> first | rfl | omega
  | [l0, l1, l2], [s0] =>
    simp [alignedByte, shape, comma, newline]
  | [l0, l1, l2], [s0, s1] =>
    simp [alignedByte, shape, comma, newline] at hdigit' ⊢
    omega
  | [l0, l1, l2], s0 :: s1 :: s2 :: stamps =>
    simp [alignedByte, shape, comma, newline] at hdigit' ⊢
    split_ifs <;> first | rfl | omega
  | [l0, l1, l2, l3], [s0] =>
    simp [alignedByte, shape, comma, newline] at hdigit ⊢
    split_ifs <;> first | rfl | omega
  | [l0, l1, l2, l3], s0 :: s1 :: stamps =>
    simp [alignedByte, shape, comma, newline] at hdigit hdigit' ⊢
    split_ifs <;> first | rfl | omega
  | l0 :: l1 :: l2 :: l3 :: l4 :: length, s0 :: stamps =>
    simp [alignedByte, shape, comma, newline] at hdigit ⊢
    split_ifs <;> first | rfl | omega

end Shapes

section Lanes
variable {a : ℕ → ℕ} (len stamps : ℕ)

/-- The ASCII bias of the digits is in the start values. -/
theorem dpbusd_oneDigit (hlen : (a 0 : ℤ) * 100 + a 1 * 10 + a 2 - 5328 = len)
    (hstamps : (a 4 : ℤ) - 48 = stamps) :
    dpbusd (setr [-5328, -48, 1, 0]) a (setr [100, 10, 1, 0, 1, 0, 0, 0]) =
      [UInt32.ofNat len, UInt32.ofNat stamps, 1, 0] := by
  apply lanes_eq
  · simp [setr]
    linarith
  · simp [setr]
    linarith
  · simp [setr]
  · simp [setr]

/-- The LF adds the rest of the bias of the second digit. -/
theorem dpbusd_twoDigit (hlen : (a 0 : ℤ) * 100 + a 1 * 10 + a 2 - 5328 = len)
    (hstamps : (a 4 : ℤ) * 10 + a 5 - a 6 * 48 - 48 = stamps) :
    dpbusd (setr [-5328, -48, 1, 0]) a (setr [100, 10, 1, 0, 10, 1, -48, 0]) =
      [UInt32.ofNat len, UInt32.ofNat stamps, 1, 0] := by
  apply lanes_eq
  · simp [setr]
    linarith
  · simp [setr]
    linarith
  · simp [setr]
  · simp [setr]

/-- Pairs of digits are joined before their bias is taken away. -/
theorem fourDigitIncrement_eq (hbytes : ∀ i, a i < 2 ^ 8)
    (hlen : (a 1 : ℤ) * 1000 + a 2 * 100 + a 3 * 10 + a 4 - 53328 = len)
    (hstamps : (a 6 : ℤ) - 48 = stamps) :
    fourDigitIncrement a = [UInt32.ofNat len, UInt32.ofNat stamps, 1, 0] := by
  have hpair (x y : ℕ) : saturate16 ((a x : ℤ) * 10 + a y) = a x * 10 + a y := by
    have hx := hbytes x
    have hy := hbytes y
    exact saturate16_of_lt (by omega) (by omega)
  have hsingle (x : ℕ) : saturate16 (a x : ℤ) = a x := by
    have hx := hbytes x
    exact saturate16_of_lt (by omega) (by omega)
  unfold fourDigitIncrement
  apply lanes_eq
  · simp [setr, maddubs, srliByte, hpair]
    linarith
  · simp [setr, maddubs, srliByte, hsingle]
    linarith
  · simp [setr]
  · simp [setr]

end Lanes

section Branches
variable {text : Bytes} (len stamps : ℕ)

theorem cvtsi64_alignedTail {i : ℕ} (hi : i < 8) :
    cvtsi64 (alignedTail (load64 text)) i = alignedByte text i := by
  rw [cvtsi64, if_pos hi, byteAt_alignedTail hi]

theorem decodeTail_oneDigit (h : classify (alignedTail (load64 text)) = .oneDigitStamps)
    (hlen : (alignedByte text 0 : ℤ) * 100 + alignedByte text 1 * 10 + alignedByte text 2 - 5328 =
      len) (hstamps : (alignedByte text 4 : ℤ) - 48 = stamps) :
    decodeTail text = some (.increment [UInt32.ofNat len, UInt32.ofNat stamps, 1, 0]
      (text.drop (if (text.getD 3 0).toNat = 44 then 6 else 5))) := by
  unfold decodeTail
  simp only [h]
  rw [dpbusd_oneDigit len stamps]
  · simp only [isThreeDigits_iff]
  · rw [cvtsi64_alignedTail (by decide), cvtsi64_alignedTail (by decide),
      cvtsi64_alignedTail (by decide), hlen]
  · rw [cvtsi64_alignedTail (by decide), hstamps]

theorem decodeTail_twoDigit (h : classify (alignedTail (load64 text)) = .twoDigitStamps)
    (hlen : (alignedByte text 0 : ℤ) * 100 + alignedByte text 1 * 10 + alignedByte text 2 - 5328 =
      len)
    (hstamps : (alignedByte text 4 : ℤ) * 10 + alignedByte text 5 - alignedByte text 6 * 48 - 48 =
      stamps) :
    decodeTail text = some (.increment [UInt32.ofNat len, UInt32.ofNat stamps, 1, 0]
      (text.drop ((if (text.getD 3 0).toNat = 44 then 6 else 5) + 1))) := by
  unfold decodeTail
  simp only [h]
  rw [dpbusd_twoDigit len stamps]
  · simp only [isThreeDigits_iff]
  · rw [cvtsi64_alignedTail (by decide), cvtsi64_alignedTail (by decide),
      cvtsi64_alignedTail (by decide), hlen]
  · rw [cvtsi64_alignedTail (by decide), cvtsi64_alignedTail (by decide),
      cvtsi64_alignedTail (by decide), hstamps]

theorem decodeTail_fourDigit (h : classify (alignedTail (load64 text)) = .fourDigitLength)
    (hlen : (alignedByte text 1 : ℤ) * 1000 + alignedByte text 2 * 100 + alignedByte text 3 * 10 +
      alignedByte text 4 - 53328 = len) (hstamps : (alignedByte text 6 : ℤ) - 48 = stamps) :
    decodeTail text = some (.increment [UInt32.ofNat len, UInt32.ofNat stamps, 1, 0]
      (text.drop 7)) := by
  have hbytes (i : ℕ) : cvtsi64 (alignedTail (load64 text)) i < 2 ^ 8 := by
    rw [cvtsi64]
    split_ifs
    · exact Nat.mod_lt _ (by decide)
    · decide
  unfold decodeTail
  simp only [h]
  rw [fourDigitIncrement_eq len stamps hbytes]
  · rw [cvtsi64_alignedTail (by decide), cvtsi64_alignedTail (by decide),
      cvtsi64_alignedTail (by decide), cvtsi64_alignedTail (by decide), hlen]
  · rw [cvtsi64_alignedTail (by decide), hstamps]

end Branches

section Rows
variable {length stamps rest : Bytes}

/-- The shapes with a branch of their own. -/
theorem decodeTail_fast (hlength : ∀ b ∈ length, Decimal.isDigit b = true) (hne : length ≠ [])
    (hstamps : ∀ b ∈ stamps, Decimal.isDigit b = true) (hne' : stamps ≠ [])
    (hrest : Continues rest) (hshape : shape length.length stamps.length ≠ .scalar) :
    decodeTail (length ++ comma :: (stamps ++ newline :: rest)) =
      some (.increment [UInt32.ofNat (Decimal.value length), UInt32.ofNat (Decimal.value stamps),
        1, 0] rest) := by
  have hclass := classify_tail hlength hne hstamps hne' hrest
  have hdigit (b : UInt8) (hb : b ∈ length) := Decimal.isDigit_iff.mp (hlength b hb)
  have hdigit' (b : UInt8) (hb : b ∈ stamps) := Decimal.isDigit_iff.mp (hstamps b hb)
  have hvalue (b : UInt8) (hb : b ∈ length) := Decimal.digit_eq (hlength b hb)
  have hvalue' (b : UInt8) (hb : b ∈ stamps) := Decimal.digit_eq (hstamps b hb)
  rcases length with _ | ⟨l0, _ | ⟨l1, _ | ⟨l2, _ | ⟨l3, _ | ⟨l4, length⟩⟩⟩⟩⟩
  · exact absurd rfl hne
  · exact absurd (by simp [shape]) hshape
  · simp only [List.forall_mem_cons] at hdigit hvalue
    rcases stamps with _ | ⟨s0, _ | ⟨s1, _ | ⟨s2, stamps⟩⟩⟩
    · exact absurd rfl hne'
    · simp only [List.forall_mem_cons] at hdigit' hvalue'
      have hthree : s0.toNat ≠ 44 := by omega
      rw [decodeTail_oneDigit (Decimal.value [l0, l1]) (Decimal.value [s0]) hclass]
      · simp [comma, newline, hthree]
      · simp [alignedByte, comma, hthree, Decimal.value, hvalue.1, hvalue.2.1]
        omega
      · simp [alignedByte, comma, hthree, Decimal.value, hvalue'.1]
        omega
    · simp only [List.forall_mem_cons] at hdigit' hvalue'
      have hthree : s0.toNat ≠ 44 := by omega
      rw [decodeTail_twoDigit (Decimal.value [l0, l1]) (Decimal.value [s0, s1])
        hclass]
      · simp [comma, newline, hthree]
      · simp [alignedByte, comma, hthree, Decimal.value, hvalue.1, hvalue.2.1]
        omega
      · simp [alignedByte, comma, newline, hthree, Decimal.value, hvalue'.1, hvalue'.2.1]
        omega
    · exact absurd (by simp [shape]) hshape
  · simp only [List.forall_mem_cons] at hdigit hvalue
    rcases stamps with _ | ⟨s0, _ | ⟨s1, _ | ⟨s2, stamps⟩⟩⟩
    · exact absurd rfl hne'
    · simp only [List.forall_mem_cons] at hdigit' hvalue'
      rw [decodeTail_oneDigit (Decimal.value [l0, l1, l2]) (Decimal.value [s0]) hclass]
      · simp [comma, newline]
      · simp [alignedByte, comma, Decimal.value, hvalue.1, hvalue.2.1, hvalue.2.2.1]
        omega
      · simp [alignedByte, comma, Decimal.value, hvalue'.1]
        omega
    · simp only [List.forall_mem_cons] at hdigit' hvalue'
      rw [decodeTail_twoDigit (Decimal.value [l0, l1, l2]) (Decimal.value [s0, s1])
        hclass]
      · simp [comma, newline]
      · simp [alignedByte, comma, Decimal.value, hvalue.1, hvalue.2.1, hvalue.2.2.1]
        omega
      · simp [alignedByte, comma, newline, Decimal.value, hvalue'.1, hvalue'.2.1]
        omega
    · exact absurd (by simp [shape]) hshape
  · simp only [List.forall_mem_cons] at hdigit hvalue
    rcases stamps with _ | ⟨s0, _ | ⟨s1, stamps⟩⟩
    · exact absurd rfl hne'
    · simp only [List.forall_mem_cons] at hdigit' hvalue'
      have hthree : l3.toNat ≠ 44 := by omega
      rw [decodeTail_fourDigit (Decimal.value [l0, l1, l2, l3]) (Decimal.value [s0]) hclass]
      · simp [comma, newline]
      · simp [alignedByte, hthree, Decimal.value, hvalue.1, hvalue.2.1, hvalue.2.2.1,
          hvalue.2.2.2.1]
        omega
      · simp [alignedByte, comma, hthree, Decimal.value, hvalue'.1]
        omega
    · exact absurd (by simp [shape]) hshape
  · exact absurd (by simp [shape]) hshape

end Rows

section Tails
variable {len stamps : ℕ} {rest : Bytes}

/-- The end of a row in canonical decimals, and what stands behind it. -/
def tailText (len stamps : ℕ) (rest : Bytes) : Bytes :=
  Decimal.encode len ++ comma :: (Decimal.encode stamps ++ newline :: rest)

theorem classify_tailText (hrest : Continues rest) :
    classify (alignedTail (load64 (tailText len stamps rest))) =
      shape (Decimal.encode len).length (Decimal.encode stamps).length :=
  classify_tail (fun _ => Decimal.isDigit_of_mem_encode) (Decimal.encode_ne_nil len)
    (fun _ => Decimal.isDigit_of_mem_encode) (Decimal.encode_ne_nil stamps) hrest

theorem decodeTail_scalar
    (h : classify (alignedTail (load64 (tailText len stamps rest))) = .scalar) :
    decodeTail (tailText len stamps rest) =
      some (if uint16Max ≤ (UInt32.ofNat len).toNat then
          .wide (UInt32.ofNat len) (UInt32.ofNat stamps) rest
        else .increment [UInt32.ofNat len, UInt32.ofNat stamps, 1, 0] rest) := by
  unfold decodeTail
  simp only [h]
  rw [tailText, readNumber_encode (by decide), Option.bind_eq_bind, Option.bind_some]
  dsimp only
  rw [readNumber_encode (by decide), Option.bind_some]
  dsimp only
  split_ifs <;> rfl

/-- A length in a branch of its own is in the range of 16 bits. -/
theorem len_lt_of_shape
    (h : shape (Decimal.encode len).length (Decimal.encode stamps).length ≠ .scalar) :
    len < uint16Max := by
  have hlength : (Decimal.encode len).length ≤ 4 := by
    by_contra hlong
    apply h
    rw [shape, if_neg (by omega), if_neg (by omega), if_neg (by omega)]
  have hlt := (Decimal.length_encode_le_iff (by decide)).mp hlength
  have hmax : uint16Max = 65535 := rfl
  omega

/-- Each tail is taken by the branch for its shape, decoded exactly, and passed. -/
theorem decodesTails (hlen : len < 2 ^ 32) (hstamps : stamps < 2 ^ 32)
    (hrest : Continues rest) : ∃ ml st : UInt32, ml.toNat = len ∧ st.toNat = stamps ∧
      classify (alignedTail (load64 (tailText len stamps rest))) =
        shape (Decimal.encode len).length (Decimal.encode stamps).length ∧
      decodeTail (tailText len stamps rest) =
        some (if uint16Max ≤ len then .wide ml st rest else .increment [ml, st, 1, 0] rest) := by
  have hml : (UInt32.ofNat len).toNat = len := UInt32.toNat_ofNat_of_lt' hlen
  have hst : (UInt32.ofNat stamps).toNat = stamps := UInt32.toNat_ofNat_of_lt' hstamps
  have hclass : classify (alignedTail (load64 (tailText len stamps rest))) =
      shape (Decimal.encode len).length (Decimal.encode stamps).length := classify_tailText hrest
  refine ⟨UInt32.ofNat len, UInt32.ofNat stamps, hml, hst, hclass, ?_⟩
  by_cases hscalar : shape (Decimal.encode len).length (Decimal.encode stamps).length = .scalar
  · rw [decodeTail_scalar (hclass.trans hscalar), hml]
  · have hfast := decodeTail_fast (fun _ => Decimal.isDigit_of_mem_encode)
      (Decimal.encode_ne_nil len) (fun _ => Decimal.isDigit_of_mem_encode)
      (Decimal.encode_ne_nil stamps) hrest hscalar
    rw [Decimal.value_encode, Decimal.value_encode] at hfast
    rw [if_neg (Nat.not_le.mpr (len_lt_of_shape hscalar))]
    exact hfast

theorem decodesTails_lastRow : ∃ ml st : UInt32, ml.toNat = 70 ∧ st.toNat = 3 ∧
    classify (alignedTail (load64 (tailText 70 3 []))) =
      shape (Decimal.encode 70).length (Decimal.encode 3).length ∧
    decodeTail (tailText 70 3 []) =
      some (if uint16Max ≤ 70 then .wide ml st [] else .increment [ml, st, 1, 0] []) :=
  decodesTails (by decide) (by decide) (Or.inr nofun)

end Tails

end OneBrc.Analyzer.TailDecode
