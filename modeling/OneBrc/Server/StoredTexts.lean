import OneBrc.Server.Worker

/-! The texts that are stored after `truncateUTF16`: they are prefixes of the texts that were given,
unless the cut splits a character. -/
namespace OneBrc.Server
open Lib Utf16

/-- `truncateUTF16` with a limit of any sign; `none` is the panic of a slice that ends below 0. -/
def truncateUTF16? (value : String) (limit : ℤ) : Option String :=
  if (Utf16.length value : ℤ) ≤ limit then some value
  else if limit < 0 then none
  else some (String.ofList (decode ((encode value.toList).take limit.toNat)))

/-- The longest prefix of `value` with at most `limit` units. -/
structure Truncation (value : String) (limit : ℤ) (t : String) : Prop where
  isPrefix : t.toList <+: value.toList
  fits : (Utf16.length t : ℤ) ≤ limit
  longest : ∀ front, front <+: value.toList → ((encode front).length : ℤ) ≤ limit →
    front.length ≤ t.toList.length
  chars : ∀ c ∈ t.toList, c ∈ value.toList

variable {value t : String} {limit : ℤ}

theorem truncateUTF16?_natCast (value : String) (limit : ℕ) :
    truncateUTF16? value limit = some (truncateUTF16 value limit) := by
  rw [truncateUTF16?, truncateUTF16]
  by_cases hle : Utf16.length value ≤ limit
  · rw [if_pos (Int.ofNat_le.mpr hle), if_pos hle]
  · rw [if_neg (by omega), if_neg (by omega), if_neg hle]
    rfl

/-- A prefix whose units are all the units that fit is the longest one that fits. -/
theorem Truncation.of_take {front : List Char} (hfront : front <+: value.toList)
    (hlimit : 0 ≤ limit) (hfull : (encode front).length = limit.toNat) :
    Truncation value limit (String.ofList front) where
  isPrefix := by rwa [String.toList_ofList]
  fits := by
    rw [Utf16.length, String.toList_ofList]
    omega
  longest := by
    intro longer hlonger hfits
    rw [String.toList_ofList]
    by_contra hlt
    obtain ⟨tail, rfl⟩ := List.prefix_of_prefix_length_le hfront hlonger (by omega)
    have htail : 1 ≤ (encode tail).length := by
      have hle := length_toList_le (String.ofList tail)
      rw [Utf16.length, String.toList_ofList] at hle
      rw [List.length_append] at hlt
      omega
    rw [encode_append, List.length_append] at hfits
    omega
  chars := by
    intro c hc
    rw [String.toList_ofList] at hc
    exact hfront.subset hc

theorem Truncation.refl (h : (Utf16.length value : ℤ) ≤ limit) : Truncation value limit value where
  isPrefix := List.prefix_rfl
  fits := h
  longest _ hfront _ := hfront.length_le
  chars _ hc := hc

theorem truncation_of_not_splits (hlimit : 0 ≤ limit)
    (hsplit : ¬Splits value.toList limit.toNat) :
    ∃ t, truncateUTF16? value limit = some t ∧ Truncation value limit t := by
  by_cases hle : (Utf16.length value : ℤ) ≤ limit
  · exact ⟨value, if_pos hle, .refl hle⟩
  · obtain ⟨front, hfront, htake⟩ := (take_encode value.toList limit.toNat).resolve_right hsplit
    have hfull : (encode front).length = limit.toNat := by
      rw [← htake, List.length_take]
      rw [Utf16.length] at hle
      omega
    refine ⟨String.ofList front, ?_, .of_take hfront hlimit hfull⟩
    rw [truncateUTF16?, if_neg hle, if_neg (Int.not_lt.mpr hlimit), htake, decode_encode]

/-- Where the cut splits a character, the result ends with the replacement character. -/
theorem truncateUTF16?_split {front rest : List Char} {c : Char}
    (hvalue : value.toList = front ++ c :: rest) (hc : 0x10000 ≤ c.toNat)
    (hlimit : limit = (encode front).length + 1) :
    truncateUTF16? value limit = some (String.ofList (front ++ [replacement])) := by
  obtain ⟨u, v, heq, -⟩ := encodeChar_of_le hc
  have hlong : ¬(Utf16.length value : ℤ) ≤ limit := by
    rw [Utf16.length, hvalue, encode_append, encode_cons, heq]
    simp only [List.length_append, List.length_cons]
    omega
  have hnat : limit.toNat = (encode front).length + 1 := by omega
  rw [truncateUTF16?, if_neg hlong, if_neg (by omega), hnat, hvalue, decode_take_encode rest hc]

theorem not_truncation_of_splits (hsplit : Splits value.toList limit.toNat) (hlimit : 0 ≤ limit)
    (h : truncateUTF16? value limit = some t) : ¬Truncation value limit t := by
  obtain ⟨front, c, rest, hvalue, hc, hcut⟩ := hsplit
  rw [truncateUTF16?_split hvalue hc (by omega)] at h
  obtain rfl := Option.some.inj h
  intro ht
  have hstart := ht.isPrefix
  rw [String.toList_ofList, hvalue, List.prefix_append_right_inj, List.cons_prefix_cons] at hstart
  rw [← hstart.1] at hc
  exact absurd hc (by decide)

theorem truncateUTF16?_neg (h : limit < 0) : truncateUTF16? value limit = none := by
  rw [truncateUTF16?, if_neg (by omega), if_pos h]

theorem truncateUTF16?_truncation_iff (value : String) (limit : ℤ) :
    (∃ t, truncateUTF16? value limit = some t ∧ Truncation value limit t) ↔
      0 ≤ limit ∧ ¬Splits value.toList limit.toNat := by
  constructor
  · rintro ⟨t, hsome, ht⟩
    have hlimit : 0 ≤ limit := by
      by_contra hneg
      rw [truncateUTF16?_neg (Int.not_le.mp hneg)] at hsome
      exact nomatch hsome
    exact ⟨hlimit, fun hsplit => not_truncation_of_splits hsplit hlimit hsome ht⟩
  · rintro ⟨hlimit, hsplit⟩
    exact truncation_of_not_splits hlimit hsplit

theorem truncation_truncateUTF16_iff (value : String) (limit : ℕ) :
    Truncation value limit (truncateUTF16 value limit) ↔ ¬Splits value.toList limit := by
  have h := truncateUTF16?_truncation_iff value limit
  rw [truncateUTF16?_natCast] at h
  simpa using h

/-- The text in a column of a row. -/
def storedText (column : Submission → Option String) (id : String) (db : Database) :
    Option String :=
  (db.submissions.get? id).bind column

theorem storedText_disqualify {db db' : Database} {id reason : String}
    (h : disqualifySubmission id reason db = .ok db') :
    storedText Submission.disqualifiedReason id db' = some (truncateUTF16 reason 8192) := by
  obtain ⟨⟨row, hrow, -, -⟩, rfl⟩ := disqualifySubmission_ok h
  have hid : row.id = id := Table.get?_key hrow
  rw [storedText, Database.updateSubmissions_submissions, Table.get?_update, hrow]
  simp [hid, Submission.disqualify]

theorem storedText_infrastructureError {db : Database} {id message : String}
    (h : db.status id = some .running) :
    storedText Submission.infrastructureError id (markInfrastructureFailure id message db) =
      some (truncateUTF16 message 8192) := by
  rw [Database.status] at h
  obtain ⟨row, hrow, hstatus⟩ := Option.map_eq_some_iff.mp h
  have hid : row.id = id := Table.get?_key hrow
  rw [storedText, markInfrastructureFailure, Database.updateSubmissions_submissions,
    Table.get?_update, hrow]
  simp [hid, hstatus, Submission.matching, Submission.fail]

/-- A result is the longest prefix that fits exactly where the cut splits no character; and what
`disqualifySubmission` and `markInfrastructureFailure` store is such a prefix under the same
condition, for the limit that they use. -/
theorem truncation_and_stored_texts (value : String) (limit : ℤ) (db : Database) (id : String) :
    ((∃ t, truncateUTF16? value limit = some t ∧ Truncation value limit t) ↔
      0 ≤ limit ∧ ¬Splits value.toList limit.toNat) ∧
    (∀ db', disqualifySubmission id value db = .ok db' →
      ((∃ t, storedText Submission.disqualifiedReason id db' = some t ∧
        Truncation value 8192 t) ↔ ¬Splits value.toList 8192)) ∧
    (db.status id = some .running →
      ((∃ t, storedText Submission.infrastructureError id
          (markInfrastructureFailure id value db) = some t ∧
        Truncation value 8192 t) ↔ ¬Splits value.toList 8192)) := by
  refine ⟨truncateUTF16?_truncation_iff value limit, ?_, ?_⟩
  · intro db' h
    rw [storedText_disqualify h, ← truncation_truncateUTF16_iff value 8192]
    simp
  · intro h
    rw [storedText_infrastructureError h, ← truncation_truncateUTF16_iff value 8192]
    simp

theorem length_encode_replicate (n : ℕ) : (encode (List.replicate n 'a')).length = n := by
  induction n with
  | zero => rfl
  | succ n ih =>
    rw [List.replicate_succ, encode_cons, List.length_append, ih,
      length_encodeChar_of_lt (by decide), Nat.add_comm]

/-- `n` characters of one unit and one of two. -/
def splitText (n : ℕ) : String := String.ofList (List.replicate n 'a' ++ ['😀'])

theorem truncateUTF16?_splitText (n : ℕ) :
    ∃ t, truncateUTF16? (splitText n) (n + 1) = some t ∧ replacement ∈ t.toList ∧
      replacement ∉ (splitText n).toList := by
  have htext : (splitText n).toList = List.replicate n 'a' ++ '😀' :: [] := by
    rw [splitText, String.toList_ofList]
  have hsome : truncateUTF16? (splitText n) (n + 1) =
      some (String.ofList (List.replicate n 'a' ++ [replacement])) :=
    truncateUTF16?_split htext (by decide) (by rw [length_encode_replicate])
  refine ⟨_, hsome, ?_, ?_⟩
  · rw [String.toList_ofList]
    exact List.mem_append_right _ (List.mem_singleton_self _)
  · intro hmem
    rw [htext, List.mem_append, List.mem_singleton] at hmem
    rcases hmem with hmem | hmem
    · exact absurd (List.eq_of_mem_replicate hmem) (by decide)
    · exact absurd hmem (by decide)

/-- What is stored of a reason of 8191 characters and one of two units ends with U+FFFD. -/
theorem truncateUTF16?_8192 :
    ∃ t, truncateUTF16? (splitText 8191) 8192 = some t ∧ replacement ∈ t.toList ∧
      replacement ∉ (splitText 8191).toList ∧ ¬Truncation (splitText 8191) 8192 t := by
  obtain ⟨t, hsome, hmem, hnot⟩ := truncateUTF16?_splitText 8191
  exact ⟨t, hsome, hmem, hnot, fun ht => hnot (ht.chars _ hmem)⟩

end OneBrc.Server
