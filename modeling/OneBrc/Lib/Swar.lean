import Mathlib.Tactic.Ring
import OneBrc.Lib.Decimal

/-! Words of 64 bits: eight decimal digits read two lanes at a time, and the CRC instruction. -/
namespace OneBrc.Lib.Swar

def littleEndian : Bytes → ℕ
  | [] => 0
  | b :: bs => b.toNat + 2 ^ 8 * littleEndian bs

/-- The word of the first eight bytes. -/
def load64 (bs : Bytes) : UInt64 := UInt64.ofNat (littleEndian (bs.take 8))

/-- The value of eight digits: pairs of digits, pairs of pairs, and then the two halves. -/
def eightDigits (word : UInt64) : UInt32 :=
  let x := word &&& (0x0f0f0f0f0f0f0f0f : UInt64)
  let x := (x &&& (0x000f000f000f000f : UInt64)) * 10 +
    ((x >>> (8 : UInt64)) &&& (0x000f000f000f000f : UInt64))
  let x := (x &&& (0x000000ff000000ff : UInt64)) * 100 +
    ((x >>> (16 : UInt64)) &&& (0x000000ff000000ff : UInt64))
  x.toUInt32 * 10000 + (x >>> (32 : UInt64)).toUInt32

section Lanes

/-- Lanes of a word are masked one by one. -/
theorem land_lane {w a c : ℕ} (b d : ℕ) (ha : a < 2 ^ w) (hc : c < 2 ^ w) :
    (a + 2 ^ w * b) &&& (c + 2 ^ w * d) = (a &&& c) + 2 ^ w * (b &&& d) := by
  have hac : a &&& c < 2 ^ w := Nat.lt_of_le_of_lt Nat.and_le_left ha
  apply Nat.eq_of_testBit_eq
  intro i
  rw [Nat.testBit_and, Nat.add_comm a, Nat.add_comm c, Nat.add_comm (a &&& c),
    Nat.testBit_two_pow_mul_add _ ha, Nat.testBit_two_pow_mul_add _ hc,
    Nat.testBit_two_pow_mul_add _ hac]
  split
  · rw [Nat.testBit_and]
  · rw [Nat.testBit_and]

theorem land_mask (w mask : ℕ) {a : ℕ} (hmask : mask = 2 ^ w - 1) (ha : a < 2 ^ w) :
    a &&& mask = a := by
  rw [hmask, Nat.and_two_pow_sub_one_eq_mod, Nat.mod_eq_of_lt ha]

theorem ofNat_shiftRight {n k : ℕ} (hn : n < 2 ^ 64) (hk : k < 64) :
    UInt64.ofNat n >>> UInt64.ofNat k = UInt64.ofNat (n >>> k) := by
  apply UInt64.toNat_inj.mp
  have hle : n >>> k ≤ n := Nat.shiftRight_le n k
  rw [UInt64.toNat_shiftRight, UInt64.toNat_ofNat_of_lt' hn,
    UInt64.toNat_ofNat_of_lt' (show k < 2 ^ 64 by omega),
    UInt64.toNat_ofNat_of_lt' (show n >>> k < 2 ^ 64 by omega), Nat.mod_eq_of_lt hk]

theorem lane_lt {w n a b : ℕ} (ha : a < 2 ^ w) (hb : b < 2 ^ n) : a + 2 ^ w * b < 2 ^ (w + n) := by
  calc a + 2 ^ w * b < 2 ^ w * (b + 1) := by rw [Nat.mul_succ]; omega
    _ ≤ 2 ^ w * 2 ^ n := Nat.mul_le_mul_left _ hb
    _ = 2 ^ (w + n) := (Nat.pow_add 2 w n).symm

theorem shiftRight_lane {w a : ℕ} (b : ℕ) (ha : a < 2 ^ w) : (a + 2 ^ w * b) >>> w = b := by
  rw [Nat.shiftRight_eq_div_pow, Nat.add_mul_div_left _ _ (Nat.two_pow_pos w),
    Nat.div_eq_of_lt ha, Nat.zero_add]

end Lanes

section Bytes

theorem littleEndian_lt (bs : Bytes) : littleEndian bs < 2 ^ (8 * bs.length) := by
  induction bs with
  | nil => exact Nat.one_pos
  | cons b bs ih =>
    rw [littleEndian, List.length_cons, Nat.mul_succ, Nat.add_comm (8 * bs.length)]
    exact lane_lt b.toNat_lt ih

theorem littleEndian_append (as bs : Bytes) :
    littleEndian (as ++ bs) = littleEndian as + 2 ^ (8 * as.length) * littleEndian bs := by
  induction as with
  | nil => simp [littleEndian]
  | cons a as ih =>
    rw [List.cons_append, littleEndian, ih, littleEndian, List.length_cons, Nat.mul_succ,
      Nat.pow_add]
    ring

/-- The number of the first bytes. -/
theorem littleEndian_append_mod (as bs : Bytes) :
    littleEndian (as ++ bs) % 2 ^ (8 * as.length) = littleEndian as := by
  rw [littleEndian_append, Nat.add_mul_mod_self_left, Nat.mod_eq_of_lt (littleEndian_lt as)]

/-- Strings of one length are told apart by their numbers. -/
theorem littleEndian_inj {as bs : Bytes} (hlen : as.length = bs.length) :
    littleEndian as = littleEndian bs ↔ as = bs := by
  induction as generalizing bs with
  | nil => simp [List.length_eq_zero_iff.mp hlen.symm]
  | cons a as ih =>
    cases bs with
    | nil => simp at hlen
    | cons b bs =>
      have htail := ih (Nat.succ.inj hlen)
      have ha : a.toNat < 2 ^ 8 := a.toNat_lt
      have hb : b.toNat < 2 ^ 8 := b.toNat_lt
      rw [littleEndian, littleEndian, List.cons.injEq, ← htail, ← UInt8.toNat_inj]
      omega

end Bytes

/-- Four lanes of 16 bits. -/
def words (p q r s : ℕ) : ℕ := p + 2 ^ 16 * (q + 2 ^ 16 * (r + 2 ^ 16 * s))

/-- Eight lanes of 8 bits. -/
def octets (a b c d e f g h : ℕ) : ℕ :=
  a + 2 ^ 8 * (b + 2 ^ 8 * (c + 2 ^ 8 * (d + 2 ^ 8 * (e + 2 ^ 8 * (f + 2 ^ 8 * (g + 2 ^ 8 * h))))))

section Stages
variable {a b c d e f g h : ℕ}

private theorem land_ascii {n : ℕ} (hn : n < 10) : (48 + n) &&& 15 = n := by
  have hand : (48 + n) &&& (2 ^ 4 - 1) = (48 + n) % 2 ^ 4 := Nat.and_two_pow_sub_one_eq_mod _ 4
  simp only [show (2 : ℕ) ^ 4 - 1 = 15 by rfl] at hand
  omega

/-- The low halves of eight characters. -/
theorem octets_land_ascii (ha : a < 10) (hb : b < 10) (hc : c < 10) (hd : d < 10) (he : e < 10)
    (hf : f < 10) (hg : g < 10) (hh : h < 10) :
    octets (48 + a) (48 + b) (48 + c) (48 + d) (48 + e) (48 + f) (48 + g) (48 + h) &&&
      octets 15 15 15 15 15 15 15 15 = octets a b c d e f g h := by
  unfold octets
  repeat rw [land_lane _ _ (by omega) (by omega)]
  rw [land_ascii ha, land_ascii hb, land_ascii hc, land_ascii hd, land_ascii he, land_ascii hf,
    land_ascii hg, land_ascii hh]

/-- The even octets. -/
theorem octets_land_even (ha : a < 2 ^ 4) (hb : b < 2 ^ 4) (hc : c < 2 ^ 4) (hd : d < 2 ^ 4)
    (he : e < 2 ^ 4) (hf : f < 2 ^ 4) (hg : g < 2 ^ 4) :
    octets a b c d e f g h &&& octets 15 0 15 0 15 0 15 0 = words a c e g := by
  unfold octets words
  repeat rw [land_lane _ _ (by omega) (by omega)]
  rw [land_mask 4 15 rfl ha, land_mask 4 15 rfl hc, land_mask 4 15 rfl he, land_mask 4 15 rfl hg]
  simp only [Nat.and_zero]
  ring

/-- The even words. -/
theorem words_land_even {p q r s : ℕ} (hp : p < 2 ^ 8) (hq : q < 2 ^ 16) (hr : r < 2 ^ 8) :
    words p q r s &&& words 255 0 255 0 = p + 2 ^ 32 * r := by
  unfold words
  rw [land_lane _ _ (by omega) (by omega), land_lane _ _ hq (by omega),
    land_lane _ _ (by omega) (by omega), land_mask 8 255 rfl hp, land_mask 8 255 rfl hr]
  simp only [Nat.and_zero]
  ring

theorem octets_lt (ha : a < 2 ^ 8) (hb : b < 2 ^ 8) (hc : c < 2 ^ 8) (hd : d < 2 ^ 8)
    (he : e < 2 ^ 8) (hf : f < 2 ^ 8) (hg : g < 2 ^ 8) (hh : h < 2 ^ 8) :
    octets a b c d e f g h < 2 ^ 64 := by
  show _ < 2 ^ (8 + (8 + (8 + (8 + (8 + (8 + (8 + 8)))))))
  exact lane_lt ha (lane_lt hb (lane_lt hc (lane_lt hd (lane_lt he (lane_lt hf (lane_lt hg hh))))))

theorem words_lt {p q r s : ℕ} (hp : p < 2 ^ 16) (hq : q < 2 ^ 16) (hr : r < 2 ^ 16)
    (hs : s < 2 ^ 16) : words p q r s < 2 ^ 64 := by
  show _ < 2 ^ (16 + (16 + (16 + 16)))
  exact lane_lt hp (lane_lt hq (lane_lt hr hs))

end Stages

/-- The digits of eight characters. -/
theorem eightDigits_octets {a b c d e f g h : ℕ} (ha : a < 10) (hb : b < 10) (hc : c < 10)
    (hd : d < 10) (he : e < 10) (hf : f < 10) (hg : g < 10) (hh : h < 10) :
    eightDigits (UInt64.ofNat (octets (48 + a) (48 + b) (48 + c) (48 + d) (48 + e) (48 + f)
      (48 + g) (48 + h))) =
      UInt32.ofNat (a * 10 ^ 7 + b * 10 ^ 6 + c * 10 ^ 5 + d * 10 ^ 4 + e * 10 ^ 3 + f * 10 ^ 2 +
        g * 10 + h) := by
  have hdigits : UInt64.ofNat (octets (48 + a) (48 + b) (48 + c) (48 + d) (48 + e) (48 + f)
      (48 + g) (48 + h)) &&& (0x0f0f0f0f0f0f0f0f : UInt64) =
      UInt64.ofNat (octets a b c d e f g h) := by
    rw [← octets_land_ascii ha hb hc hd he hf hg hh, UInt64.ofNat_and]
    rfl
  have hmask : (0x000f000f000f000f : UInt64) = UInt64.ofNat (octets 15 0 15 0 15 0 15 0) := rfl
  have heven : UInt64.ofNat (octets a b c d e f g h) &&& (0x000f000f000f000f : UInt64) =
      UInt64.ofNat (words a c e g) := by
    rw [hmask, ← UInt64.ofNat_and, octets_land_even (by omega) (by omega) (by omega) (by omega)
      (by omega) (by omega) (by omega)]
  have hodd : (UInt64.ofNat (octets a b c d e f g h) >>> (8 : UInt64)) &&&
      (0x000f000f000f000f : UInt64) = UInt64.ofNat (words b d f h) := by
    have hshift : UInt64.ofNat (octets a b c d e f g h) >>> (8 : UInt64) =
        UInt64.ofNat (octets b c d e f g h 0) := by
      have hlt : octets a b c d e f g h < 2 ^ 64 := octets_lt (by omega) (by omega) (by omega)
        (by omega) (by omega) (by omega) (by omega) (by omega)
      rw [show (8 : UInt64) = UInt64.ofNat 8 by rfl, ofNat_shiftRight hlt (by decide), octets,
        shiftRight_lane _ (show a < 2 ^ 8 by omega)]
      rfl
    rw [hshift, hmask, ← UInt64.ofNat_and, octets_land_even (by omega) (by omega) (by omega)
      (by omega) (by omega) (by omega) (by omega)]
  have hpairs : UInt64.ofNat (words a c e g) * 10 + UInt64.ofNat (words b d f h) =
      UInt64.ofNat (words (a * 10 + b) (c * 10 + d) (e * 10 + f) (g * 10 + h)) := by
    rw [show (10 : UInt64) = UInt64.ofNat 10 by rfl, ← UInt64.ofNat_mul, ← UInt64.ofNat_add]
    congr 1
    unfold words
    ring
  have hlow : UInt64.ofNat (words (a * 10 + b) (c * 10 + d) (e * 10 + f) (g * 10 + h)) &&&
      (0x000000ff000000ff : UInt64) = UInt64.ofNat (a * 10 + b + 2 ^ 32 * (e * 10 + f)) := by
    rw [show (0x000000ff000000ff : UInt64) = UInt64.ofNat (words 255 0 255 0) by rfl,
      ← UInt64.ofNat_and, words_land_even (by omega) (by omega) (by omega)]
  have hhigh : (UInt64.ofNat (words (a * 10 + b) (c * 10 + d) (e * 10 + f) (g * 10 + h)) >>>
      (16 : UInt64)) &&& (0x000000ff000000ff : UInt64) =
      UInt64.ofNat (c * 10 + d + 2 ^ 32 * (g * 10 + h)) := by
    have hlt : words (a * 10 + b) (c * 10 + d) (e * 10 + f) (g * 10 + h) < 2 ^ 64 :=
      words_lt (by omega) (by omega) (by omega) (by omega)
    have hshift : words (a * 10 + b) (c * 10 + d) (e * 10 + f) (g * 10 + h) >>> 16 =
        words (c * 10 + d) (e * 10 + f) (g * 10 + h) 0 := by
      rw [words, shiftRight_lane _ (show a * 10 + b < 2 ^ 16 by omega)]
      rfl
    rw [show (16 : UInt64) = UInt64.ofNat 16 by rfl, ofNat_shiftRight hlt (by decide), hshift,
      show (0x000000ff000000ff : UInt64) = UInt64.ofNat (words 255 0 255 0) by rfl,
      ← UInt64.ofNat_and, words_land_even (by omega) (by omega) (by omega)]
  have hquads : UInt64.ofNat (a * 10 + b + 2 ^ 32 * (e * 10 + f)) * 100 +
      UInt64.ofNat (c * 10 + d + 2 ^ 32 * (g * 10 + h)) =
      UInt64.ofNat (a * 1000 + b * 100 + c * 10 + d +
        2 ^ 32 * (e * 1000 + f * 100 + g * 10 + h)) := by
    rw [show (100 : UInt64) = UInt64.ofNat 100 by rfl, ← UInt64.ofNat_mul, ← UInt64.ofNat_add]
    congr 1
    ring
  have hupper : UInt64.ofNat (a * 1000 + b * 100 + c * 10 + d +
      2 ^ 32 * (e * 1000 + f * 100 + g * 10 + h)) >>> (32 : UInt64) =
      UInt64.ofNat (e * 1000 + f * 100 + g * 10 + h) := by
    rw [show (32 : UInt64) = UInt64.ofNat 32 by rfl, ofNat_shiftRight (by omega) (by decide),
      shiftRight_lane _ (by omega)]
  have hlower : UInt32.ofNat (a * 1000 + b * 100 + c * 10 + d +
      2 ^ 32 * (e * 1000 + f * 100 + g * 10 + h)) =
      UInt32.ofNat (a * 1000 + b * 100 + c * 10 + d) := by
    rw [← UInt32.ofNat_mod_size, Nat.add_mul_mod_self_left, UInt32.ofNat_mod_size]
  simp only [eightDigits]
  rw [hdigits, heven, hodd, hpairs, hlow, hhigh, hquads, hupper, UInt64.toUInt32_ofNat',
    UInt64.toUInt32_ofNat', hlower, show (10000 : UInt32) = UInt32.ofNat 10000 by rfl,
    ← UInt32.ofNat_mul, ← UInt32.ofNat_add]
  exact congrArg UInt32.ofNat (by ring)

/-- Eight digits at the start of a string. -/
theorem eightDigits_load64 {bs : Bytes} (hlen : bs.length = 8)
    (hbs : ∀ b ∈ bs, Decimal.isDigit b = true) (rest : Bytes) :
    eightDigits (load64 (bs ++ rest)) = UInt32.ofNat (Decimal.value bs) := by
  obtain ⟨a, b, c, d, e, f, g, h, rfl⟩ :
      ∃ a b c d e f g h, bs = [a, b, c, d, e, f, g, h] := by
    match bs, hlen with
    | [a, b, c, d, e, f, g, h], _ => exact ⟨a, b, c, d, e, f, g, h, rfl⟩
  simp only [List.forall_mem_cons] at hbs
  obtain ⟨ha, hb, hc, hd, he, hf, hg, hh, -⟩ := hbs
  have hdigit {b : UInt8} (hb : Decimal.isDigit b = true) :
      b.toNat = 48 + Decimal.digit b := by
    have hrange := Decimal.isDigit_iff.mp hb
    rw [Decimal.digit_eq hb]
    omega
  have hword : load64 ([a, b, c, d, e, f, g, h] ++ rest) = UInt64.ofNat (octets
      (48 + Decimal.digit a) (48 + Decimal.digit b) (48 + Decimal.digit c) (48 + Decimal.digit d)
      (48 + Decimal.digit e) (48 + Decimal.digit f) (48 + Decimal.digit g)
      (48 + Decimal.digit h)) := by
    rw [← hdigit ha, ← hdigit hb, ← hdigit hc, ← hdigit hd, ← hdigit he, ← hdigit hf, ← hdigit hg,
      ← hdigit hh]
    rfl
  rw [hword, eightDigits_octets (Decimal.digit_lt ha) (Decimal.digit_lt hb) (Decimal.digit_lt hc)
    (Decimal.digit_lt hd) (Decimal.digit_lt he) (Decimal.digit_lt hf) (Decimal.digit_lt hg)
    (Decimal.digit_lt hh)]
  congr 1
  simp only [Decimal.value_cons, List.length_cons, List.length_nil]
  simp [Decimal.value]
  ring

section Crc32

/-- The reversed CRC-32C polynomial. -/
def polynomial : UInt64 := 0x82f63b78

def shift (r : UInt64) : UInt64 :=
  if r &&& 1 = (1 : UInt64) then r >>> 1 ^^^ polynomial else r >>> 1

def shifts : ℕ → UInt64 → UInt64
  | 0, r => r
  | n + 1, r => shifts n (shift r)

/-- The instruction `crc32`, which adds eight bytes to a checksum of 32 bits. -/
def crc32 (crc value : UInt64) : UInt64 := shifts 64 (crc.toUInt32.toUInt64 ^^^ value)

/-- The checksum of 32 zero bytes. -/
example : (List.range 4).foldl (fun crc _ => crc32 crc 0) 0xffffffff ^^^ 0xffffffff =
    0x8a9136aa := by
  decide +kernel

end Crc32

end OneBrc.Lib.Swar
