import Mathlib.Algebra.GroupWithZero.Nat
import OneBrc.Lib.Utf16

/-! Decoding of UTF-8 bytes. Every maximal part that is not UTF-8 is replaced by U+FFFD. -/
namespace OneBrc.Lib.Utf8
open Utf16 (replacement)

/-- A character whose first bytes have been read: how many are owed, the range of the next one, and
the bits so far. -/
structure Pending where
  owed : ℕ
  low : ℕ
  high : ℕ
  bits : ℕ

/-- A byte between characters: what it completes, and what it begins. -/
def first (b : ℕ) : List Char × Option Pending :=
  if b ≤ 0x7F then ([Char.ofNat b], none)
  else if 0xC2 ≤ b ∧ b ≤ 0xDF then ([], some ⟨1, 0x80, 0xBF, b - 0xC0⟩)
  else if b = 0xE0 then ([], some ⟨2, 0xA0, 0xBF, 0⟩)
  else if b = 0xED then ([], some ⟨2, 0x80, 0x9F, 0xD⟩)
  else if 0xE1 ≤ b ∧ b ≤ 0xEF then ([], some ⟨2, 0x80, 0xBF, b - 0xE0⟩)
  else if b = 0xF0 then ([], some ⟨3, 0x90, 0xBF, 0⟩)
  else if 0xF1 ≤ b ∧ b ≤ 0xF3 then ([], some ⟨3, 0x80, 0xBF, b - 0xF0⟩)
  else if b = 0xF4 then ([], some ⟨3, 0x80, 0x8F, 4⟩)
  else ([replacement], none)

/-- A byte inside a character. One that cannot continue it ends it and is read again. -/
def next (p : Pending) (b : ℕ) : List Char × Option Pending :=
  if p.low ≤ b ∧ b ≤ p.high then
    let bits := p.bits * 0x40 + (b - 0x80)
    if p.owed ≤ 1 then ([Char.ofNat bits], none) else ([], some ⟨p.owed - 1, 0x80, 0xBF, bits⟩)
  else (replacement :: (first b).1, (first b).2)

def decodeFrom : Option Pending → List UInt8 → List Char
  | none, [] => []
  | some _, [] => [replacement]
  | none, b :: bytes => (first b.toNat).1 ++ decodeFrom (first b.toNat).2 bytes
  | some p, b :: bytes => (next p b.toNat).1 ++ decodeFrom (next p b.toNat).2 bytes

def decode (bytes : List UInt8) : List Char := decodeFrom none bytes

/-- The bytes of a text of characters below `0x80`. -/
def encodeAscii (cs : List Char) : List UInt8 := cs.map fun c => UInt8.ofNat c.toNat

theorem decode_encodeAscii {cs : List Char} (h : ∀ c ∈ cs, c.toNat < 0x80) :
    decode (encodeAscii cs) = cs := by
  induction cs with
  | nil => rfl
  | cons c cs ih =>
    have hc := h c List.mem_cons_self
    have hbyte : (UInt8.ofNat c.toNat).toNat = c.toNat := by
      rw [UInt8.toNat_ofNat']
      exact Nat.mod_eq_of_lt (by omega)
    have hfirst : first (UInt8.ofNat c.toNat).toNat = ([c], none) := by
      rw [hbyte, first, if_pos (by omega), Char.ofNat_toNat]
    change (first (UInt8.ofNat c.toNat).toNat).1 ++
      decodeFrom (first (UInt8.ofNat c.toNat).toNat).2 (encodeAscii cs) = c :: cs
    rw [hfirst]
    exact congrArg _ (ih fun d hd => h d (List.mem_cons_of_mem _ hd))

/-- A text has the bytes of its characters. -/
theorem utf8ByteSize_ofList (cs : List Char) :
    (String.ofList cs).utf8ByteSize = (cs.map Char.utf8Size).sum := by
  induction cs with
  | nil => simp
  | cons c cs ih =>
    have happend : String.ofList (c :: cs) = String.singleton c ++ String.ofList cs := by
      rw [String.singleton_eq_ofList, ← String.ofList_append]
      rfl
    rw [happend, String.utf8ByteSize_append, String.utf8ByteSize_singleton, ih, List.map_cons,
      List.sum_cons]

theorem length_le_utf8ByteSize (cs : List Char) : cs.length ≤ (String.ofList cs).utf8ByteSize := by
  rw [utf8ByteSize_ofList]
  induction cs with
  | nil => simp
  | cons c cs ih =>
    have hc := Char.utf8Size_pos c
    rw [List.length_cons, List.map_cons, List.sum_cons]
    omega

theorem utf8EncodeChar_ascii :
    ∀ n < 128, String.utf8EncodeChar (Char.ofNat n) = [UInt8.ofNat n] := by
  decide

/-- The bytes of a text. -/
def encode (cs : List Char) : List UInt8 := cs.flatMap String.utf8EncodeChar

theorem encode_eq_encodeAscii {cs : List Char} (h : ∀ c ∈ cs, c.toNat < 0x80) :
    encode cs = encodeAscii cs := by
  induction cs with
  | nil => rfl
  | cons c cs ih =>
    obtain ⟨hc, hcs⟩ := List.forall_mem_cons.mp h
    have hbytes := utf8EncodeChar_ascii c.toNat hc
    rw [Char.ofNat_toNat] at hbytes
    rw [encode, List.flatMap_cons, hbytes]
    exact congrArg _ (ih hcs)

/-- Bytes below `0x80` are UTF-8. -/
theorem validateUTF8_of_ascii {bytes : List UInt8} (h : ∀ b ∈ bytes, b < 128) :
    bytes.toByteArray.validateUTF8 = true := by
  rw [ByteArray.validateUTF8_eq_true_iff]
  refine .intro (bytes.map fun b => Char.ofNat b.toNat) ?_
  rw [List.utf8Encode, List.flatMap_map]
  congr 1
  induction bytes with
  | nil => rfl
  | cons b bytes ih =>
    have hb := utf8EncodeChar_ascii b.toNat (UInt8.lt_iff_toNat_lt.mp (h b List.mem_cons_self))
    rw [List.flatMap_cons, hb, UInt8.ofNat_toNat, List.singleton_append,
      ← ih fun b' hb' => h b' (List.mem_cons_of_mem _ hb')]

end OneBrc.Lib.Utf8
