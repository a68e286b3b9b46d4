import OneBrc.Lib.Lines
import OneBrc.Runner.Compare

/-! What the comparison decides: whether two files of `key=value` lines denote the same map. -/
namespace OneBrc.Runner
open Lib

/-- ASCII bytes with no CR that is not followed by LF. -/
structure IsPlainText (bytes : List UInt8) : Prop where
  ascii : ∀ b ∈ bytes, b < 128
  cr : ∀ front rest, bytes = front ++ 13 :: rest → rest.head? = some 10

/-- The characters of ASCII bytes. -/
def asciiText (bytes : List UInt8) : List Char := bytes.map fun b => Char.ofNat b.toNat

/-- The lines, which end at LF or CRLF, without the empty ones. -/
def textLines (bytes : List UInt8) : List (List Char) :=
  (((asciiText bytes).filter (· ≠ '\r')).splitOn '\n').filter (· ≠ [])

def IsDigits (cs : List Char) : Prop := cs ≠ [] ∧ ∀ c ∈ cs, '0' ≤ c ∧ c ≤ '9'

/-- Least, average, greatest, messages and stamps; the average has two digits after its point. -/
def IsValue (value : List Char) : Prop :=
  ∃ least units hundredths greatest messages stamps,
    (∀ cs ∈ [least, units, hundredths, greatest, messages, stamps], IsDigits cs) ∧
      hundredths.length = 2 ∧
      value = ['/'].intercalate [least, units ++ '.' :: hundredths, greatest, messages, stamps]

/-- A key and its value. -/
abbrev Entry := List Char × List Char

def Entry.text (e : Entry) : List Char := e.1 ++ '=' :: e.2

structure Entry.Valid (e : Entry) : Prop where
  key_ne_nil : e.1 ≠ []
  separator : '=' ∉ e.1
  value : IsValue e.2

/-- The file consists of the lines of these entries, whose keys are distinct. -/
structure Denotes (bytes : List UInt8) (entries : List Entry) : Prop where
  lines : textLines bytes = entries.map Entry.text
  valid : ∀ e ∈ entries, e.Valid
  nodup : (entries.map (·.1)).Nodup

/-- Lines, each with its end: CRLF or LF. -/
def writeLines (rows : List (List Char × Bool)) : List UInt8 :=
  rows.flatMap fun (line, crlf) => Utf8.encodeAscii line ++ if crlf then [13, 10] else [10]

/-- The checker decides the equality of two maps. Hence only the lines count, in any order and with
any ends and blank lines between them, and a malformed line or a repeated key fails. -/
structure DecidesMaps : Prop where
  accepts : ∀ {a b}, IsPlainText a → IsPlainText b →
    (compareOutput (.regular a) (.regular b) = .ok () ↔
      ∃ entries entries', Denotes a entries ∧ Denotes b entries' ∧
        ∀ e, e ∈ entries ↔ e ∈ entries')
  rearranged : ∀ {a a' b b'}, IsPlainText a → IsPlainText a' → IsPlainText b → IsPlainText b' →
    (textLines a).Perm (textLines a') → (textLines b).Perm (textLines b') →
    (compareOutput (.regular a) (.regular b) = .ok () ↔
      compareOutput (.regular a') (.regular b') = .ok ())
  written : ∀ {rows}, (∀ row ∈ rows, ∀ c ∈ row.1, c.toNat < 128 ∧ c ≠ '\n' ∧ c ≠ '\r') →
    IsPlainText (writeLines rows) ∧
      textLines (writeLines rows) = (rows.map (·.1)).filter (· ≠ [])
  malformed : ∀ {a b}, IsPlainText a → IsPlainText b →
    (∃ line ∈ textLines a ++ textLines b, ∀ e : Entry, e.Valid → line ≠ e.text) →
    compareOutput (.regular a) (.regular b) ≠ .ok ()
  repeated : ∀ {a b bytes}, IsPlainText a → IsPlainText b → bytes = a ∨ bytes = b →
    ¬((textLines bytes).map (·.takeWhile (· ≠ '='))).Nodup →
    compareOutput (.regular a) (.regular b) ≠ .ok ()

section Values
variable {value cs : List Char}

theorem isInteger_iff : isInteger cs = true ↔ IsDigits cs := by
  simp [isInteger, IsDigits, Digits.allDigits, Digits.isDigit]

/-- Digits contain no separator. -/
theorem IsDigits.notMem {c : Char} (h : IsDigits cs) (hc : ¬('0' ≤ c ∧ c ≤ '9')) : c ∉ cs :=
  fun hmem => hc (h.2 c hmem)

theorem isAverage_iff : isAverage cs = true ↔ ∃ units hundredths, IsDigits units ∧
    IsDigits hundredths ∧ hundredths.length = 2 ∧ cs = units ++ '.' :: hundredths := by
  unfold isAverage
  constructor
  · intro h
    split at h
    · next units hundredths hsplit =>
      simp only [Bool.and_eq_true, isInteger_iff, decide_eq_true_eq] at h
      have hjoin : ['.'].intercalate (cs.splitOn '.') = cs := List.intercalate_splitOn '.'
      rw [hsplit] at hjoin
      exact ⟨units, hundredths, h.1.1, h.1.2, h.2, by simpa using hjoin.symm⟩
    · contradiction
  · rintro ⟨units, hundredths, hunits, hhundredths, hlength, rfl⟩
    have hsplit : (units ++ '.' :: hundredths).splitOn '.' = [units, hundredths] := by
      rw [List.splitOn_append_cons_self_of_not_mem (hunits.notMem (by decide)),
        List.splitOn_eq_singleton (hhundredths.notMem (by decide))]
    rw [hsplit]
    simp only [Bool.and_eq_true, isInteger_iff, decide_eq_true_eq]
    exact ⟨⟨hunits, hhundredths⟩, hlength⟩

theorem isValue_iff : isValue value = true ↔ IsValue value := by
  unfold isValue
  constructor
  · intro h
    split at h
    · next least average greatest messages stamps hsplit =>
      simp only [Bool.and_eq_true, isInteger_iff, isAverage_iff] at h
      obtain ⟨⟨⟨⟨hleast, units, hundredths, hunits, hhundredths, hlength, rfl⟩, hgreatest⟩,
        hmessages⟩, hstamps⟩ := h
      have hjoin : ['/'].intercalate (value.splitOn '/') = value := List.intercalate_splitOn '/'
      rw [hsplit] at hjoin
      refine ⟨least, units, hundredths, greatest, messages, stamps, ?_, hlength, hjoin.symm⟩
      simp only [List.forall_mem_cons, List.not_mem_nil, false_imp_iff, implies_true, and_true]
      exact ⟨hleast, hunits, hhundredths, hgreatest, hmessages, hstamps⟩
    · contradiction
  · rintro ⟨least, units, hundredths, greatest, messages, stamps, hdigits, hlength, rfl⟩
    simp only [List.forall_mem_cons, List.not_mem_nil, false_imp_iff, implies_true,
      and_true] at hdigits
    obtain ⟨hleast, hunits, hhundredths, hgreatest, hmessages, hstamps⟩ := hdigits
    have hslash {cs : List Char} (h : IsDigits cs) : '/' ∉ cs := h.notMem (by decide)
    rw [List.splitOn_intercalate _ ?_ (by simp)]
    · simp only [Bool.and_eq_true, isInteger_iff, isAverage_iff]
      exact ⟨⟨⟨⟨hleast, units, hundredths, hunits, hhundredths, hlength, rfl⟩, hgreatest⟩,
        hmessages⟩, hstamps⟩
    · simp [hslash hleast, hslash hunits, hslash hhundredths, hslash hgreatest, hslash hmessages,
        hslash hstamps]

end Values

section Text
variable {bytes : List UInt8} {cs : List Char}

theorem asciiText_encodeAscii (h : ∀ c ∈ cs, c.toNat < 128) :
    asciiText (Utf8.encodeAscii cs) = cs := by
  rw [asciiText, Utf8.encodeAscii, List.map_map]
  conv_rhs => rw [← List.map_id cs]
  apply List.map_congr_left
  intro c hc
  have hbyte : (UInt8.ofNat c.toNat).toNat = c.toNat := by
    rw [UInt8.toNat_ofNat']
    exact Nat.mod_eq_of_lt (by have := h c hc; omega)
  rw [Function.comp_apply, hbyte, Char.ofNat_toNat, id]

theorem toNat_asciiChar : ∀ n < 128, (Char.ofNat n).toNat = n := by decide

theorem encodeAscii_asciiText (h : ∀ b ∈ bytes, b < 128) :
    Utf8.encodeAscii (asciiText bytes) = bytes := by
  rw [asciiText, Utf8.encodeAscii, List.map_map]
  conv_rhs => rw [← List.map_id bytes]
  apply List.map_congr_left
  intro b hb
  rw [Function.comp_apply, toNat_asciiChar _ (UInt8.lt_iff_toNat_lt.mp (h b hb)),
    UInt8.ofNat_toNat, id]

theorem decode_asciiText (h : ∀ b ∈ bytes, b < 128) : Utf8.decode bytes = asciiText bytes := by
  conv_lhs => rw [← encodeAscii_asciiText h]
  apply Utf8.decode_encodeAscii
  intro c hc
  obtain ⟨b, hb, rfl⟩ := List.mem_map.mp hc
  have hlt := UInt8.lt_iff_toNat_lt.mp (h b hb)
  rw [toNat_asciiChar _ hlt]
  exact hlt

/-- In plain text a CR is followed by LF. -/
theorem IsPlainText.crlf (h : IsPlainText bytes) {front rest : List Char}
    (heq : asciiText bytes = front ++ '\r' :: rest) : rest.head? = some '\n' := by
  obtain ⟨front', tail, rfl, hfront, htail⟩ := List.map_eq_append_iff.mp heq
  obtain ⟨b, rest', rfl, hb, rfl⟩ := List.map_eq_cons_iff.mp htail
  have hlt := UInt8.lt_iff_toNat_lt.mp (h.ascii b (by simp))
  have hcr : b = 13 := by
    have hnat : b.toNat = 13 := by
      rw [← toNat_asciiChar b.toNat hlt, hb]
      decide
    exact UInt8.toNat_inj.mp hnat
  subst hcr
  have hhead := h.cr front' rest' rfl
  rw [List.head?_map, hhead]
  rfl

/-- The lines of the reader, up to empty ones. -/
theorem readLines_filter {line : List Char} (hline : ∀ c ∈ line, c ≠ '\n' ∧ c ≠ '\r')
    (hcr : ∀ front rest, cs = front ++ '\r' :: rest → rest.head? = some '\n') :
    (readLines line cs).filter (· ≠ []) =
      ((line ++ cs.filter (· ≠ '\r')).splitOn '\n').filter (· ≠ []) := by
  have hstart {line rest : List Char} (hline : ∀ c ∈ line, c ≠ '\n' ∧ c ≠ '\r') :
      ((line ++ '\n' :: rest).splitOn '\n').filter (· ≠ []) =
        (line :: rest.splitOn '\n').filter (· ≠ []) := by
    rw [List.splitOn_append_cons_self_of_not_mem fun hmem => (hline _ hmem).1 rfl]
  induction line, cs using readLines.induct with
  | case1 => rfl
  | case2 line hne =>
    rw [readLines, if_neg hne, List.filter_nil, List.append_nil,
      List.splitOn_eq_singleton fun hmem => (hline _ hmem).1 rfl]
  | case3 line rest ih =>
    have hrest := ih (by simp) fun front tail heq =>
      hcr ('\r' :: '\n' :: front) tail (by rw [heq]; rfl)
    have hfilter : ('\r' :: '\n' :: rest).filter (· ≠ '\r') = '\n' :: rest.filter (· ≠ '\r') := by
      rw [List.filter_cons_of_neg (by decide), List.filter_cons_of_pos (by decide)]
    rw [readLines, hfilter, hstart hline, List.filter_cons, List.filter_cons, hrest]
    rfl
  | case4 line c rest hcrlf hc ih =>
    have hnl : c = '\n' := by
      refine hc.resolve_right ?_
      rintro rfl
      have hhead := hcr [] rest rfl
      cases rest with
      | nil => contradiction
      | cons d rest => exact hcrlf rest rfl (congrArg (· :: rest) (Option.some.inj hhead))
    subst hnl
    have hrest := ih (by simp) fun front tail heq => hcr ('\n' :: front) tail (by rw [heq]; rfl)
    have hfilter : ('\n' :: rest).filter (· ≠ '\r') = '\n' :: rest.filter (· ≠ '\r') := by
      rw [List.filter_cons_of_pos (by decide)]
    rw [readLines, if_pos (.inl rfl), hfilter, hstart hline, List.filter_cons, List.filter_cons,
      hrest]
    · rfl
    · exact hcrlf
  | case5 line c rest hcrlf hc ih =>
    obtain ⟨hlf, hcr'⟩ := not_or.mp hc
    have hline' : ∀ d ∈ line ++ [c], d ≠ '\n' ∧ d ≠ '\r' := by
      intro d hd
      rcases List.mem_append.mp hd with hd | hd
      · exact hline d hd
      · rw [List.mem_singleton.mp hd]
        exact ⟨hlf, hcr'⟩
    have hrest := ih hline' fun front tail heq => hcr (c :: front) tail (by rw [heq]; rfl)
    rw [readLines, if_neg hc, hrest, List.filter_cons_of_pos (by simpa using hcr'),
      List.append_assoc, List.singleton_append]
    exact hcrlf

theorem readLines_plainText (h : IsPlainText bytes) :
    (readLines [] (Utf8.decode bytes)).filter (· ≠ []) = textLines bytes := by
  rw [decode_asciiText h.ascii]
  exact readLines_filter (by simp) fun _ _ => h.crlf

end Text

section Load
variable {bytes a b : List UInt8} {records result : Records} {entries : List Entry}

def Entry.record (e : Entry) : Record := ⟨e.1, e.2⟩

theorem Entry.text_ne_nil (e : Entry) : e.text ≠ [] := by
  simp [Entry.text]

/-- A line is skipped, or it adds an entry with a new key. -/
theorem loadLine_iff {line : List Char} {lineNumber : ℕ} :
    loadLine records line lineNumber = .ok result ↔
      line = [] ∧ result = records ∨
        ∃ e : Entry, e.Valid ∧ line = e.text ∧ records.get? e.1 = none ∧
          result = records.put e.record := by
  constructor
  · intro h
    unfold loadLine at h
    split at h
    · next hnil => exact .inl ⟨hnil, (Except.ok.inj h).symm⟩
    · split at h
      · contradiction
      · next separator hfind =>
        split at h
        · contradiction
        · next hends =>
          dsimp only at h
          split at h
          · contradiction
          · next hnew =>
            split at h
            · contradiction
            · next hvalue =>
              obtain ⟨hlt, heq, hfirst⟩ := List.findIdx?_eq_some_iff_getElem.mp hfind
              refine .inr ⟨(line.take separator, line.drop (separator + 1)), ⟨?_, ?_, ?_⟩,
                ?_, ?_, ?_⟩
              · simp only [ne_eq, List.take_eq_nil_iff]
                rintro (rfl | rfl)
                · exact hends (.inl rfl)
                · contradiction
              · intro hmem
                obtain ⟨i, hi, hget⟩ := List.mem_take_iff_getElem.mp hmem
                exact hfirst i (by omega) (decide_eq_true hget)
              · exact isValue_iff.mp (by simpa using hvalue)
              · rw [Entry.text, ← of_decide_eq_true heq, ← List.drop_eq_getElem_cons,
                  List.take_append_drop]
              · simpa using hnew
              · exact (Except.ok.inj h).symm
  · rintro (⟨rfl, rfl⟩ | ⟨e, hvalid, rfl, hnew, rfl⟩)
    · rfl
    · exact loadLine_entry hvalid.key_ne_nil hvalid.separator (isValue_iff.mpr hvalid.value) hnew

theorem put_rows {e : Entry} (h : records.get? e.1 = none) :
    (records.put e.record).rows = records.rows ++ [e.record] := by
  change records.rows.filter _ ++ [e.record] = _
  rw [List.filter_eq_self.mpr]
  intro record hrecord
  have hne : record.key ≠ e.1 := by
    intro hkey
    apply Table.get?_eq_none h
    rw [← hkey]
    exact List.mem_map_of_mem hrecord
  exact decide_eq_true hne

/-- The loop of `loadRecords` over these lines. -/
theorem foldlM_loadLine {lines : List (List Char)} {n : ℕ} :
    (lines.zipIdx n).foldlM (fun records (line, lineNumber) => loadLine records line lineNumber)
        records = .ok result ↔
      ∃ entries : List Entry, lines.filter (· ≠ []) = entries.map Entry.text ∧
        (∀ e ∈ entries, e.Valid) ∧ result.rows = records.rows ++ entries.map Entry.record := by
  induction lines generalizing records n with
  | nil =>
    constructor
    · intro h
      obtain rfl := Except.ok.inj h
      exact ⟨[], rfl, by simp, by simp⟩
    · rintro ⟨entries, hentries, -, hrows⟩
      obtain rfl := List.map_eq_nil_iff.mp hentries.symm
      obtain rfl : result = records := Table.ext_rows (by simpa using hrows)
      rfl
  | cons line lines ih =>
    rw [List.zipIdx_cons, List.foldlM_cons, Fallible.bind_eq_ok]
    constructor
    · rintro ⟨next, hline, hrest⟩
      obtain ⟨entries, hentries, hvalid, hrows⟩ := ih.mp hrest
      rcases loadLine_iff.mp hline with ⟨rfl, rfl⟩ | ⟨e, he, rfl, hnew, rfl⟩
      · exact ⟨entries, hentries, hvalid, hrows⟩
      · refine ⟨e :: entries, ?_, List.forall_mem_cons.mpr ⟨he, hvalid⟩, ?_⟩
        · rw [List.filter_cons_of_pos (by simpa using e.text_ne_nil), hentries, List.map_cons]
        · rw [hrows, put_rows hnew, List.append_assoc, List.singleton_append, List.map_cons]
    · rintro ⟨entries, hentries, hvalid, hrows⟩
      by_cases hnil : line = []
      · subst hnil
        exact ⟨records, rfl, ih.mpr ⟨entries, hentries, hvalid, hrows⟩⟩
      · rw [List.filter_cons_of_pos (by simpa using hnil)] at hentries
        obtain ⟨e, rest, rfl, rfl, hrest⟩ := List.map_eq_cons_iff.mp hentries.symm
        obtain ⟨he, hvalid⟩ := List.forall_mem_cons.mp hvalid
        -- the keys of the result are distinct
        have hnew : records.get? e.1 = none := by
          have hn := result.nodup
          rw [hrows, List.map_append, List.map_cons, List.map_cons, List.nodup_append] at hn
          cases hget : records.get? e.1 with
          | none => rfl
          | some record =>
            have hmem := List.mem_map_of_mem (f := Record.key) (Table.mem_of_get? hget)
            exact absurd (Table.get?_key hget) (hn.2.2 _ hmem _ List.mem_cons_self)
        refine ⟨records.put e.record, loadLine_iff.mpr (.inr ⟨e, he, rfl, hnew, rfl⟩),
          ih.mpr ⟨rest, hrest.symm, hvalid, ?_⟩⟩
        rw [hrows, put_rows hnew, List.append_assoc, List.singleton_append, List.map_cons]

theorem loadRecords_iff (h : IsPlainText bytes) : loadRecords (.regular bytes) = .ok result ↔
    ∃ entries, Denotes bytes entries ∧ result.rows = entries.map Entry.record := by
  have hload : loadRecords (.regular bytes) =
      ((readLines [] (Utf8.decode bytes)).zipIdx 1).foldlM
        (fun records (line, lineNumber) => loadLine records line lineNumber) .empty := rfl
  rw [hload, foldlM_loadLine, readLines_plainText h]
  refine exists_congr fun entries => ⟨?_, ?_⟩
  · rintro ⟨hlines, hvalid, hrows⟩
    refine ⟨⟨hlines, hvalid, ?_⟩, hrows⟩
    have hn := result.nodup
    rwa [hrows, List.map_append, List.map_map] at hn
  · rintro ⟨hdenotes, hrows⟩
    exact ⟨hdenotes.lines, hdenotes.valid, hrows⟩

theorem compareRecords_iff {actual expected : Records} :
    compareRecords actual expected = .ok () ↔
      ∀ record, record ∈ actual.rows ↔ record ∈ expected.rows := by
  have hexpected : actual.rows.findSome? (compareRecord expected) = none ↔
      ∀ record ∈ actual.rows, record ∈ expected.rows := by
    rw [List.findSome?_eq_none_iff]
    refine forall₂_congr fun record _ => ?_
    rw [Table.mem_iff_get?]
    unfold compareRecord
    cases hget : expected.get? record.key with
    | none => simp only [reduceCtorEq]
    | some wanted =>
      have hkey := Table.get?_key hget
      obtain ⟨key, value⟩ := record
      obtain ⟨wantedKey, wantedValue⟩ := wanted
      obtain rfl : wantedKey = key := Table.get?_key hget
      by_cases hvalue : wantedValue = value
      · simp only [hvalue, ne_eq, not_true_eq_false, if_false]
      · simp only [hvalue, ne_eq, not_false_eq_true, if_true, reduceCtorEq, Option.some.injEq,
          Record.mk.injEq, and_false]
  have hmissing : expected.rows.findSome? (missingRecord actual) = none ↔
      ∀ record ∈ expected.rows, (actual.get? record.key).isSome := by
    rw [List.findSome?_eq_none_iff]
    refine forall₂_congr fun record _ => ?_
    unfold missingRecord
    cases actual.get? record.key with
    | none =>
      simp only [Option.isNone_none, if_true, reduceCtorEq, Option.isSome_none,
        Bool.false_eq_true]
    | some found =>
      simp only [Option.isNone_some, Bool.false_eq_true, if_false, Option.isSome_some]
  have hok : compareRecords actual expected = .ok () ↔
      actual.rows.findSome? (compareRecord expected) = none ∧
        expected.rows.findSome? (missingRecord actual) = none := by
    unfold compareRecords
    cases actual.rows.findSome? (compareRecord expected) with
    | some error => simp
    | none =>
      cases expected.rows.findSome? (missingRecord actual) with
      | some error => simp
      | none => simp
  rw [hok, hexpected, hmissing]
  constructor
  · rintro ⟨hsub, hall⟩ record
    refine ⟨hsub record, fun hrecord => ?_⟩
    obtain ⟨found, hfound⟩ := Option.isSome_iff_exists.mp (hall record hrecord)
    have hmem := Table.mem_of_get? hfound
    obtain rfl := Table.eq_of_key_eq (hsub found hmem) hrecord (Table.get?_key hfound)
    exact hmem
  · intro hiff
    refine ⟨fun record => (hiff record).mp, fun record hrecord => ?_⟩
    rw [Table.get?_of_mem ((hiff record).mpr hrecord)]
    rfl

theorem exists_records (hn : (entries.map (·.1)).Nodup) :
    ∃ records : Records, records.rows = entries.map Entry.record :=
  ⟨⟨entries.map Entry.record, by rwa [List.map_map]⟩, rfl⟩

/-- The files are compared as the maps that they denote. -/
theorem compareOutput_iff (ha : IsPlainText a) (hb : IsPlainText b) :
    compareOutput (.regular a) (.regular b) = .ok () ↔
      ∃ entries entries', Denotes a entries ∧ Denotes b entries' ∧
        ∀ e, e ∈ entries ↔ e ∈ entries' := by
  have hrecord (entries : List Entry) (e : Entry) :
      e.record ∈ entries.map Entry.record ↔ e ∈ entries := by
    refine List.mem_map_of_injective ?_
    rintro ⟨key, value⟩ ⟨key', value'⟩ h
    exact Prod.ext (congrArg Record.key h) (congrArg Record.value h)
  have hmap {f : List Char → ComparisonError} {x : Except (List Char) Records} {records : Records} :
      x.mapError f = .ok records ↔ x = .ok records := by
    cases x with
    | error e => simp [Except.mapError]
    | ok value => simp [Except.mapError]
  unfold compareOutput
  simp only [Fallible.bind_eq_ok, hmap, compareRecords_iff]
  constructor
  · rintro ⟨expected, hexpected, actual, hactual, hiff⟩
    obtain ⟨entries, hentries, hrows⟩ := (loadRecords_iff ha).mp hactual
    obtain ⟨entries', hentries', hrows'⟩ := (loadRecords_iff hb).mp hexpected
    refine ⟨entries, entries', hentries, hentries', fun e => ?_⟩
    rw [← hrecord entries, ← hrecord entries', ← hrows, ← hrows', hiff]
  · rintro ⟨entries, entries', hentries, hentries', hiff⟩
    obtain ⟨actual, hrows⟩ := exists_records hentries.nodup
    obtain ⟨expected, hrows'⟩ := exists_records hentries'.nodup
    refine ⟨expected, (loadRecords_iff hb).mpr ⟨entries', hentries', hrows'⟩, actual,
      (loadRecords_iff ha).mpr ⟨entries, hentries, hrows⟩, ?_⟩
    rintro ⟨key, value⟩
    rw [hrows, hrows']
    exact (hrecord entries (key, value)).trans ((hiff _).trans (hrecord entries' (key, value)).symm)

/-- A line is cut at its first separator. -/
def entryOf (line : List Char) : Entry :=
  (line.takeWhile (· ≠ '='), (line.dropWhile (· ≠ '=')).tail)

theorem entryOf_text {e : Entry} (h : '=' ∉ e.1) : entryOf e.text = e := by
  have hkey : ∀ c ∈ e.1, decide (c ≠ '=') = true := by
    intro c hc
    have hne : c ≠ '=' := fun heq => h (heq ▸ hc)
    simpa using hne
  obtain ⟨key, value⟩ := e
  rw [entryOf, Entry.text, List.takeWhile_append_of_pos hkey, List.dropWhile_append_of_pos hkey]
  simp

theorem Denotes.keys (h : Denotes bytes entries) :
    (textLines bytes).map (·.takeWhile (· ≠ '=')) = entries.map (·.1) := by
  rw [h.lines, List.map_map]
  apply List.map_congr_left
  intro e he
  exact congrArg Prod.fst (entryOf_text (h.valid e he).separator)

/-- The order of the lines and what lies between them do not count. -/
theorem Denotes.perm (h : Denotes a entries) (hperm : (textLines a).Perm (textLines b)) :
    ∃ entries', Denotes b entries' ∧ entries.Perm entries' := by
  have hentries : entries.Perm ((textLines b).map entryOf) := by
    have hself : (textLines a).map entryOf = entries := by
      rw [h.lines, List.map_map]
      conv_rhs => rw [← List.map_id entries]
      exact List.map_congr_left fun e he => entryOf_text (h.valid e he).separator
    have hmap := hperm.map entryOf
    rwa [hself] at hmap
  refine ⟨_, ⟨?_, ?_, ?_⟩, hentries⟩
  · rw [List.map_map]
    conv_lhs => rw [← List.map_id (textLines b)]
    apply List.map_congr_left
    intro line hline
    have hmem := hperm.mem_iff.mpr hline
    rw [h.lines] at hmem
    obtain ⟨e, he, rfl⟩ := List.mem_map.mp hmem
    rw [Function.comp_apply, entryOf_text (h.valid e he).separator, id]
  · intro e he
    exact h.valid e (hentries.mem_iff.mpr he)
  · exact (hentries.map _).nodup_iff.mp h.nodup

theorem compareOutput_of_perm {a' b' : List UInt8} (ha : IsPlainText a) (ha' : IsPlainText a')
    (hb : IsPlainText b) (hb' : IsPlainText b') (hpermA : (textLines a).Perm (textLines a'))
    (hpermB : (textLines b).Perm (textLines b'))
    (h : compareOutput (.regular a) (.regular b) = .ok ()) :
    compareOutput (.regular a') (.regular b') = .ok () := by
  obtain ⟨entries, entries', hentries, hentries', hiff⟩ := (compareOutput_iff ha hb).mp h
  obtain ⟨moved, hmoved, hperm⟩ := hentries.perm hpermA
  obtain ⟨moved', hmoved', hperm'⟩ := hentries'.perm hpermB
  refine (compareOutput_iff ha' hb').mpr ⟨moved, moved', hmoved, hmoved', fun e => ?_⟩
  rw [← hperm.mem_iff, ← hperm'.mem_iff, hiff]

theorem isPlainText_writeLines {rows : List (List Char × Bool)}
    (h : ∀ row ∈ rows, ∀ c ∈ row.1, c.toNat < 128 ∧ c ≠ '\n' ∧ c ≠ '\r') :
    IsPlainText (writeLines rows) := by
  have hbyte {c : Char} (hc : c.toNat < 128) : (UInt8.ofNat c.toNat).toNat = c.toNat := by
    rw [UInt8.toNat_ofNat']
    exact Nat.mod_eq_of_lt (by omega)
  constructor
  · intro b hb
    obtain ⟨⟨line, crlf⟩, hrow, hb⟩ := List.mem_flatMap.mp hb
    rcases List.mem_append.mp hb with hb | hb
    · obtain ⟨c, hc, rfl⟩ := List.mem_map.mp hb
      rw [UInt8.lt_iff_toNat_lt, hbyte (h _ hrow c hc).1]
      exact (h _ hrow c hc).1
    · have hend : ∀ b ∈ (if crlf then [13, 10] else [10] : List UInt8), b < 128 := by
        cases crlf <;> decide +kernel
      exact hend b hb
  · induction rows with
    | nil =>
      intro front rest hnil
      exact absurd hnil.symm (List.append_ne_nil_of_right_ne_nil _ (List.cons_ne_nil _ _))
    | cons row rows ih =>
      obtain ⟨line, crlf⟩ := row
      obtain ⟨hline, hrows⟩ := List.forall_mem_cons.mp h
      have hcr : 13 ∉ Utf8.encodeAscii line := by
        intro hmem
        obtain ⟨c, hc, hbad⟩ := List.mem_map.mp hmem
        apply (hline c hc).2.2
        rw [← Char.ofNat_toNat c, ← hbyte (hline c hc).1, hbad]
        rfl
      -- a CR behind the line is in its end or in a later line
      have hend {tail rest : List UInt8} (htail : (if crlf then [13, 10] else [10]) ++
          writeLines rows = tail ++ 13 :: rest) : rest.head? = some 10 := by
        cases crlf with
        | false =>
          cases tail with
          | nil => simp at htail
          | cons b tail => exact ih hrows tail rest (List.cons.inj htail).2
        | true =>
          match tail with
          | [] =>
            rw [← (List.cons.inj htail).2]
            rfl
          | [_] => simp at htail
          | _ :: _ :: tail =>
            exact ih hrows tail rest (List.cons.inj (List.cons.inj htail).2).2
      intro front rest heq
      rw [writeLines, List.flatMap_cons, ← writeLines, List.append_assoc,
        List.append_eq_append_iff] at heq
      rcases heq with ⟨tail, _, htail⟩ | ⟨tail, hline', htail⟩
      · exact hend htail
      · cases tail with
        | nil => exact hend (by rw [List.nil_append] at htail ⊢; exact htail.symm)
        | cons b tail =>
          obtain ⟨rfl, _⟩ := List.cons.inj htail
          exact absurd (hline' ▸ List.mem_append_right front List.mem_cons_self) hcr

theorem textLines_writeLines {rows : List (List Char × Bool)}
    (h : ∀ row ∈ rows, ∀ c ∈ row.1, c.toNat < 128 ∧ c ≠ '\n' ∧ c ≠ '\r') :
    textLines (writeLines rows) = (rows.map (·.1)).filter (· ≠ []) := by
  have htext : (asciiText (writeLines rows)).filter (· ≠ '\r') =
      ((rows.map (·.1)).map fun line => line ++ ['\n']).flatten := by
    rw [asciiText, writeLines, List.map_flatMap, List.filter_flatMap, ← List.flatMap_def,
      List.flatMap_map]
    apply List.flatMap_congr
    rintro ⟨line, crlf⟩ hrow
    have hself : (Utf8.encodeAscii line).map (fun b => Char.ofNat b.toNat) = line :=
      asciiText_encodeAscii fun c hc => (h _ hrow c hc).1
    have hkeep : line.filter (· ≠ '\r') = line := by
      rw [List.filter_eq_self]
      intro c hc
      simpa using (h _ hrow c hc).2.2
    simp only [List.map_append, hself, List.filter_append, hkeep]
    cases crlf <;> rfl
  rw [textLines, htext, Lines.splitOn_flatten, List.filter_append]
  · simp
  · intro body hbody hmem
    obtain ⟨row, hrow, rfl⟩ := List.mem_map.mp hbody
    exact (h row hrow _ hmem).2.1 rfl

end Load

theorem decidesMaps : DecidesMaps where
  accepts := compareOutput_iff
  rearranged := by
    intro a a' b b' ha ha' hb hb' hpermA hpermB
    exact ⟨compareOutput_of_perm ha ha' hb hb' hpermA hpermB,
      compareOutput_of_perm ha' ha hb' hb hpermA.symm hpermB.symm⟩
  written := by
    intro rows h
    exact ⟨isPlainText_writeLines h, textLines_writeLines h⟩
  malformed := by
    rintro a b ha hb ⟨line, hline, hbad⟩ h
    obtain ⟨entries, entries', hentries, hentries', _⟩ := (compareOutput_iff ha hb).mp h
    rw [hentries.lines, hentries'.lines, List.mem_append, List.mem_map, List.mem_map] at hline
    rcases hline with ⟨e, he, rfl⟩ | ⟨e, he, rfl⟩
    · exact hbad e (hentries.valid e he) rfl
    · exact hbad e (hentries'.valid e he) rfl
  repeated := by
    rintro a b bytes ha hb hbytes hrepeated h
    obtain ⟨entries, entries', hentries, hentries', _⟩ := (compareOutput_iff ha hb).mp h
    rcases hbytes with rfl | rfl
    · exact hrepeated (hentries.keys ▸ hentries.nodup)
    · exact hrepeated (hentries'.keys ▸ hentries'.nodup)

end OneBrc.Runner
