import OneBrc.Analyzer.Contract

/-! The figures of a month in the tables of the fast analyzers: sums in words of type `ω`, extrema
in 16 bits. -/
namespace OneBrc.Analyzer
open Lib

@[ext] structure Stats (ω : Type) where
  totalLen : ω
  stamps : ω
  messages : UInt32
  minLen : UInt16
  maxLen : UInt16

namespace Stats
variable {ω : Type} [Add ω]

/-- A row of a month. -/
def push (wide : UInt32 → ω) (messageLength stampCount : UInt32) (s : Stats ω) : Stats ω :=
  if s.messages = 0 then
    { messages := 1
      totalLen := wide messageLength
      stamps := wide stampCount
      minLen := messageLength.toUInt16
      maxLen := messageLength.toUInt16 }
  else
    { messages := s.messages + 1
      totalLen := s.totalLen + wide messageLength
      stamps := s.stamps + wide stampCount
      minLen := if messageLength.toUInt16 < s.minLen then messageLength.toUInt16 else s.minLen
      maxLen := if messageLength.toUInt16 > s.maxLen then messageLength.toUInt16 else s.maxLen }

/-- A month of another table. -/
def join (s incoming : Stats ω) : Stats ω :=
  if incoming.messages = 0 then s
  else if s.messages = 0 then incoming
  else
    { messages := s.messages + incoming.messages
      totalLen := s.totalLen + incoming.totalLen
      stamps := s.stamps + incoming.stamps
      minLen := if incoming.minLen < s.minLen then incoming.minLen else s.minLen
      maxLen := if incoming.maxLen > s.maxLen then incoming.maxLen else s.maxLen }

/-- The line of a month with posts. -/
def cell (mean : ℤ → ℤ → Bytes) (number : ω → ℕ) (path : Bytes) (month : Fin 12) (s : Stats ω) :
    Option Bytes :=
  if s.messages = 0 then none
  else some (recordLine path month (Decimal.encode s.minLen.toNat)
    (mean (number s.totalLen) s.messages.toNat) (Decimal.encode s.maxLen.toNat)
    (Decimal.encode s.messages.toNat) (Decimal.encode (number s.stamps)))

/-- The message lengths as they are kept for the extrema. -/
def narrow (g : List Row) : List ℕ := (lengths g).map (· % 2 ^ 16)

/-- The figures of a group. -/
def of (cast : ℕ → ω) (g : List Row) : Stats ω where
  totalLen := cast (lengths g).sum
  stamps := cast (Analyzer.stamps g).sum
  messages := UInt32.ofNat g.length
  minLen := UInt16.ofNat (least (narrow g))
  maxLen := UInt16.ofNat (greatest (narrow g))

/-- Words of type `ω` add up and hold the numbers of 32 bits. -/
structure Widens (wide : UInt32 → ω) (cast : ℕ → ω) : Prop where
  add : ∀ m n, cast (m + n) = cast m + cast n
  wide : ∀ n < 2 ^ 32, wide (UInt32.ofNat n) = cast n

section Of
variable {wide : UInt32 → ω} {cast : ℕ → ω} {g g' : List Row} {r : Row}

theorem narrow_append (g g' : List Row) : narrow (g ++ g') = narrow g ++ narrow g' := by
  simp [narrow, lengths]

theorem narrow_ne_nil (h : g ≠ []) : narrow g ≠ [] := by simpa [narrow, lengths] using h

theorem lt_of_mem_narrow {n : ℕ} (h : n ∈ narrow g) : n < 2 ^ 16 := by
  obtain ⟨m, -, rfl⟩ := List.mem_map.mp h
  exact Nat.mod_lt _ (by decide)

theorem greatest_narrow_lt (g : List Row) : greatest (narrow g) < 2 ^ 16 := by
  have hle : greatest (narrow g) ≤ 2 ^ 16 - 1 := greatest_le fun n hn => by
    have hlt := lt_of_mem_narrow hn
    omega
  omega

theorem toUInt16_ofNat (n : ℕ) : (UInt32.ofNat n).toUInt16 = UInt16.ofNat (n % 2 ^ 16) := by
  apply UInt16.toNat_inj.mp
  rw [UInt32.toNat_toUInt16, UInt32.toNat_ofNat', UInt16.toNat_ofNat']
  omega

theorem ofNat_eq_zero {n : ℕ} (h : n < 2 ^ 32) : UInt32.ofNat n = 0 ↔ n = 0 := by
  rw [← UInt32.toNat_inj, UInt32.toNat_ofNat_of_lt' h]
  rfl

theorem if_lt_ofNat {m n : ℕ} (hm : m < 2 ^ 16) (hn : n < 2 ^ 16) :
    (if UInt16.ofNat m < UInt16.ofNat n then UInt16.ofNat m else UInt16.ofNat n) =
      UInt16.ofNat (min n m) := by
  simp only [UInt16.lt_iff_toNat_lt, UInt16.toNat_ofNat_of_lt' hm, UInt16.toNat_ofNat_of_lt' hn]
  split
  · next h => rw [Nat.min_eq_right h.le]
  · next h => rw [Nat.min_eq_left (not_lt.mp h)]

theorem if_gt_ofNat {m n : ℕ} (hm : m < 2 ^ 16) (hn : n < 2 ^ 16) :
    (if UInt16.ofNat m > UInt16.ofNat n then UInt16.ofNat m else UInt16.ofNat n) =
      UInt16.ofNat (max n m) := by
  simp only [gt_iff_lt, UInt16.lt_iff_toNat_lt, UInt16.toNat_ofNat_of_lt' hm,
    UInt16.toNat_ofNat_of_lt' hn]
  split
  · next h => rw [Nat.max_eq_right h.le]
  · next h => rw [Nat.max_eq_left (not_lt.mp h)]

/-- Figures are joined to those of all rows. -/
theorem join_of (h : Widens wide cast) (hlt : (g ++ g').length < 2 ^ 32) :
    join (of cast g) (of cast g') = of cast (g ++ g') := by
  have hg : g.length < 2 ^ 32 := by
    rw [List.length_append] at hlt
    omega
  have hg' : g'.length < 2 ^ 32 := by
    rw [List.length_append] at hlt
    omega
  by_cases hnil' : g' = []
  · subst hnil'
    rw [List.append_nil]
    exact if_pos rfl
  have hne' : ¬ (of cast g').messages = 0 := fun hzero =>
    hnil' (List.length_eq_zero_iff.mp ((ofNat_eq_zero hg').mp hzero))
  by_cases hnil : g = []
  · subst hnil
    rw [join, if_neg hne']
    exact if_pos rfl
  have hne : ¬ (of cast g).messages = 0 := fun hzero =>
    hnil (List.length_eq_zero_iff.mp ((ofNat_eq_zero hg).mp hzero))
  have htotal : cast (lengths g).sum + cast (lengths g').sum = cast (lengths (g ++ g')).sum := by
    rw [lengths, lengths, lengths, List.map_append, List.sum_append, h.add]
  have hstamps : cast (Analyzer.stamps g).sum + cast (Analyzer.stamps g').sum =
      cast (Analyzer.stamps (g ++ g')).sum := by
    rw [Analyzer.stamps, Analyzer.stamps, Analyzer.stamps, List.map_append, List.sum_append, h.add]
  have hmessages : UInt32.ofNat g.length + UInt32.ofNat g'.length =
      UInt32.ofNat (g ++ g').length := by
    rw [List.length_append, UInt32.ofNat_add]
  have hmin := if_lt_ofNat (lt_of_mem_narrow (least_mem (narrow_ne_nil hnil')))
    (lt_of_mem_narrow (least_mem (narrow_ne_nil hnil)))
  rw [← least_append (narrow_ne_nil hnil) (narrow_ne_nil hnil'), ← narrow_append] at hmin
  have hmax := if_gt_ofNat (greatest_narrow_lt g') (greatest_narrow_lt g)
  rw [← greatest_append, ← narrow_append] at hmax
  rw [join, if_neg hne', if_neg hne]
  exact Stats.ext htotal hstamps hmessages hmin hmax

/-- A row as figures of its own. -/
theorem push_eq_join (h : Widens wide cast) (s : Stats ω) (hlength : r.messageLength < 2 ^ 32)
    (hstamps : r.stampCount < 2 ^ 32) :
    push wide (UInt32.ofNat r.messageLength) (UInt32.ofNat r.stampCount) s =
      join s (of cast [r]) := by
  have hone : ¬ (of cast [r]).messages = 0 := show ¬ UInt32.ofNat 1 = 0 by decide
  have hnarrow : narrow [r] = [r.messageLength % 2 ^ 16] := rfl
  have hextremum : (of cast [r]).minLen = (UInt32.ofNat r.messageLength).toUInt16 ∧
      (of cast [r]).maxLen = (UInt32.ofNat r.messageLength).toUInt16 := by
    rw [toUInt16_ofNat, of, hnarrow, least_singleton, greatest_singleton]
    exact ⟨rfl, rfl⟩
  have htotal : (of cast [r]).totalLen = wide (UInt32.ofNat r.messageLength) := by
    rw [h.wide _ hlength]
    simp [of, lengths]
  have hcount : (of cast [r]).stamps = wide (UInt32.ofNat r.stampCount) := by
    rw [h.wide _ hstamps]
    simp [of, Analyzer.stamps]
  have hmessages : (of cast [r]).messages = 1 := rfl
  rw [join, if_neg hone, push]
  split
  · exact Stats.ext htotal.symm hcount.symm hmessages.symm hextremum.1.symm hextremum.2.symm
  · rw [htotal, hcount, hmessages, hextremum.1, hextremum.2]

theorem push_of (h : Widens wide cast) (hlength : r.messageLength < 2 ^ 32)
    (hstamps : r.stampCount < 2 ^ 32) (hlt : (g ++ [r]).length < 2 ^ 32) :
    push wide (UInt32.ofNat r.messageLength) (UInt32.ofNat r.stampCount) (of cast g) =
      of cast (g ++ [r]) := by
  rw [push_eq_join h _ hlength hstamps, join_of h hlt]

end Of

section Line
variable {mean : ℤ → ℤ → Bytes} {number : ω → ℕ} {cast : ℕ → ω} {g : List Row} {path : Bytes}
  {month : Fin 12}

omit [Add ω] in
/-- What is printed for a group. -/
def line (mean : ℤ → ℤ → Bytes) (number : ω → ℕ) (cast : ℕ → ω) (path : Bytes) (month : Fin 12)
    (g : List Row) : Bytes :=
  recordLine path month (Decimal.encode (least (narrow g)))
    (mean (number (cast (lengths g).sum)) g.length) (Decimal.encode (greatest (narrow g)))
    (Decimal.encode g.length) (Decimal.encode (number (cast (Analyzer.stamps g).sum)))

omit [Add ω] in
theorem cell_of (hlt : g.length < 2 ^ 32) : cell mean number path month (of cast g) =
    if g = [] then none else some (line mean number cast path month g) := by
  by_cases hnil : g = []
  · subst hnil
    rfl
  · have hne : ¬ (of cast g).messages = 0 := fun hzero =>
      hnil (List.length_eq_zero_iff.mp ((ofNat_eq_zero hlt).mp hzero))
    have hleast := lt_of_mem_narrow (least_mem (narrow_ne_nil hnil))
    rw [cell, if_neg hne, if_neg hnil, line]
    simp only [of, UInt16.toNat_ofNat_of_lt' hleast,
      UInt16.toNat_ofNat_of_lt' (greatest_narrow_lt g), UInt32.toNat_ofNat_of_lt' hlt]

theorem narrow_eq (h : ∀ r ∈ g, r.messageLength < 2 ^ 16) : narrow g = lengths g := by
  have hmod : ∀ n ∈ lengths g, n % 2 ^ 16 = n := by
    intro n hn
    obtain ⟨r, hr, rfl⟩ := List.mem_map.mp hn
    exact Nat.mod_eq_of_lt (h r hr)
  exact (List.map_congr_left hmod).trans (List.map_id _)

omit [Add ω] in
/-- The record of a group with lengths of 16 bits and totals that fit. -/
theorem line_eq_reportLine (h : ∀ r ∈ g, r.messageLength < 2 ^ 16)
    (htotal : number (cast (lengths g).sum) = (lengths g).sum)
    (hstamps : number (cast (Analyzer.stamps g).sum) = (Analyzer.stamps g).sum) :
    line mean number cast path month g = reportLine mean path month g := by
  rw [line, narrow_eq h, htotal, hstamps, reportLine]

end Line
end Stats
end OneBrc.Analyzer
