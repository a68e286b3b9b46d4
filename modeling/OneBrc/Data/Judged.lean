import OneBrc.Analyzer.Baselines
import OneBrc.Analyzer.OptimizedCsharp
import OneBrc.Analyzer.OptimizedGo
import OneBrc.Analyzer.OptimizedRust
import OneBrc.Analyzer.Reference
import OneBrc.Data.Importable
import OneBrc.Runner.Checker

/-! From the datasets to the verdicts: what the checker reads in a report, which outputs it accepts
for a generated dataset, and that the analyzers of the repository are among them. -/
namespace OneBrc.Data
open Lib Analyzer Runner Chunks

/-- What prints a mean gives two digits after the point. -/
def PrintsMeans (mean : ℤ → ℤ → Bytes) : Prop :=
  ∀ total count : ℕ, 0 < count → ∃ units hundredths : Bytes,
    mean total count = units ++ 46 :: hundredths ∧ units ≠ [] ∧ hundredths.length = 2 ∧
      (∀ b ∈ units, Decimal.isDigit b = true) ∧ ∀ b ∈ hundredths, Decimal.isDigit b = true

/-- A byte that does not end a line or a key. -/
def IsKeyByte (b : UInt8) : Prop := b < 128 ∧ b ≠ equals ∧ b ≠ newline ∧ b ≠ carriageReturn

/-- The figures of a group, as a report has them behind the key. -/
def groupValue (mean : ℤ → ℤ → Bytes) (g : List Row) : Bytes :=
  Decimal.encode (least (lengths g)) ++ slash :: (mean (lengths g).sum g.length ++ slash ::
    (Decimal.encode (greatest (lengths g)) ++ slash :: (Decimal.encode g.length ++ slash ::
      Decimal.encode (stamps g).sum)))

/-- The key and the value of a group for the checker. -/
def groupEntry (mean : ℤ → ℤ → Bytes) (path : Bytes) (month : Fin 12) (g : List Row) : Entry :=
  (asciiText (resultKeyOf path month), asciiText (groupValue mean g))

/-- One of the records that the rows have: that of a channel and a month that occur. -/
def IsGroupEntry (mean : ℤ → ℤ → Bytes) (rows : List Row) (e : Entry) : Prop :=
  ∃ path month, group rows path month ≠ [] ∧ e = groupEntry mean path month (group rows path month)

section Text
variable {bytes : Bytes} {b : UInt8}

theorem asciiText_append (as bs : Bytes) : asciiText (as ++ bs) = asciiText as ++ asciiText bs :=
  List.map_append

theorem asciiText_cons (b : UInt8) (bs : Bytes) :
    asciiText (b :: bs) = Char.ofNat b.toNat :: asciiText bs := rfl

/-- ASCII characters are those of their bytes. -/
theorem mem_asciiText {c : Char} (h : ∀ b ∈ bytes, b < 128) (hc : c ∈ asciiText bytes) :
    ∃ b ∈ bytes, c = Char.ofNat b.toNat ∧ c.toNat = b.toNat := by
  obtain ⟨b, hb, rfl⟩ := List.mem_map.mp hc
  exact ⟨b, hb, rfl, toNat_asciiChar _ (UInt8.lt_iff_toNat_lt.mp (h b hb))⟩

theorem isDigits_asciiText (hne : bytes ≠ []) (h : ∀ b ∈ bytes, Decimal.isDigit b = true) :
    IsDigits (asciiText bytes) := by
  refine ⟨fun hnil => hne (List.map_eq_nil_iff.mp hnil), fun c hc => ?_⟩
  have hbounds (b : UInt8) (hb : b ∈ bytes) := Decimal.isDigit_iff.mp (h b hb)
  obtain ⟨b, hb, -, hc⟩ := mem_asciiText (fun b hb => UInt8.lt_iff_toNat_lt.mpr
    (Nat.lt_of_le_of_lt (hbounds b hb).2 (by decide))) hc
  obtain ⟨hlow, hhigh⟩ := hbounds b hb
  rw [Char.le_def, Char.le_def, UInt32.le_iff_toNat_le, UInt32.le_iff_toNat_le]
  exact ⟨by rw [← hc] at hlow; exact hlow, by rw [← hc] at hhigh; exact hhigh⟩

theorem isDigits_encode (n : ℕ) : IsDigits (asciiText (Decimal.encode n)) :=
  isDigits_asciiText (Decimal.encode_ne_nil n) fun _ hb => Decimal.isDigit_of_mem_encode hb

theorem isKeyByte_of_isDigit (h : Decimal.isDigit b = true) : IsKeyByte b := by
  obtain ⟨hlow, hhigh⟩ := Decimal.isDigit_iff.mp h
  have hne (c : UInt8) (hc : c.toNat < 48 ∨ 57 < c.toNat) : b ≠ c := by
    rintro rfl
    omega
  exact ⟨UInt8.lt_iff_toNat_lt.mpr (Nat.lt_of_le_of_lt hhigh (by decide)),
    hne _ (.inr (by decide)), hne _ (.inl (by decide)), hne _ (.inl (by decide))⟩

theorem isKeyByte_encode {n : ℕ} (h : b ∈ Decimal.encode n) : IsKeyByte b :=
  isKeyByte_of_isDigit (Decimal.isDigit_of_mem_encode h)

theorem isKeyByte_monthLabel {month : Fin 12} (h : b ∈ monthLabel month) : IsKeyByte b := by
  have hall : ∀ month, ((monthLabel month).all fun b => decide (b < 128) && decide (b ≠ equals) &&
      decide (b ≠ newline) && decide (b ≠ carriageReturn)) = true := by decide
  have hb := List.all_eq_true.mp (hall month) b h
  simp only [Bool.and_eq_true, decide_eq_true_eq] at hb
  exact ⟨hb.1.1.1, hb.1.1.2, hb.1.2, hb.2⟩

theorem isKeyByte_resultKeyOf {path : Bytes} {month : Fin 12} (hpath : ∀ b ∈ path, IsKeyByte b)
    (h : b ∈ resultKeyOf path month) : IsKeyByte b := by
  rcases List.mem_append.mp h with h | h
  · exact hpath b h
  · rcases List.mem_cons.mp h with rfl | h
    · exact ⟨by decide, by decide, by decide, by decide⟩
    · exact isKeyByte_monthLabel h

theorem equals_notMem_asciiText (h : ∀ b ∈ bytes, IsKeyByte b) : '=' ∉ asciiText bytes := by
  intro hmem
  obtain ⟨b, hb, -, hc⟩ := mem_asciiText (fun b hb => (h b hb).1) hmem
  exact (h b hb).2.1 (UInt8.toNat_inj.mp hc.symm)

end Text

section Groups
variable {mean : ℤ → ℤ → Bytes} {g : List Row} {path : Bytes} {month : Fin 12}

theorem isKeyByte_mean {total count : ℕ} {b : UInt8} (hmean : PrintsMeans mean) (hcount : 0 < count)
    (h : b ∈ mean total count) : IsKeyByte b := by
  obtain ⟨units, hundredths, heq, -, -, hunits, hhundredths⟩ := hmean total count hcount
  rw [heq] at h
  rcases List.mem_append.mp h with h | h
  · exact isKeyByte_of_isDigit (hunits b h)
  · rcases List.mem_cons.mp h with rfl | h
    · exact ⟨by decide, by decide, by decide, by decide⟩
    · exact isKeyByte_of_isDigit (hhundredths b h)

theorem isKeyByte_groupValue {b : UInt8} (hmean : PrintsMeans mean) (hg : g ≠ [])
    (h : b ∈ groupValue mean g) : IsKeyByte b := by
  have hslash : IsKeyByte slash := ⟨by decide, by decide, by decide, by decide⟩
  simp only [groupValue, List.mem_append, List.mem_cons] at h
  rcases h with h | rfl | h | rfl | h | rfl | h | rfl | h
  · exact isKeyByte_encode h
  · exact hslash
  · exact isKeyByte_mean hmean (List.length_pos_of_ne_nil hg) h
  · exact hslash
  · exact isKeyByte_encode h
  · exact hslash
  · exact isKeyByte_encode h
  · exact hslash
  · exact isKeyByte_encode h

/-- The checker's pattern matches what a report has behind a key. -/
theorem isValue_groupValue (hmean : PrintsMeans mean) (hg : g ≠ []) :
    IsValue (asciiText (groupValue mean g)) := by
  obtain ⟨units, hundredths, heq, hne, htwo, hunits, hhundredths⟩ :=
    hmean (lengths g).sum g.length (List.length_pos_of_ne_nil hg)
  have hne' : hundredths ≠ [] := by
    rintro rfl
    cases htwo
  have htwo' : (asciiText hundredths).length = 2 := by rwa [asciiText, List.length_map]
  refine ⟨asciiText (Decimal.encode (least (lengths g))), asciiText units, asciiText hundredths,
    asciiText (Decimal.encode (greatest (lengths g))), asciiText (Decimal.encode g.length),
    asciiText (Decimal.encode (stamps g).sum), ?_, htwo', ?_⟩
  · simp only [List.forall_mem_cons, List.not_mem_nil, false_implies, implies_true, and_true]
    exact ⟨isDigits_encode (least (lengths g)), isDigits_asciiText hne hunits,
      isDigits_asciiText hne' hhundredths, isDigits_encode (greatest (lengths g)),
      isDigits_encode g.length, isDigits_encode (stamps g).sum⟩
  · rw [groupValue, heq]
    have hslash : Char.ofNat slash.toNat = '/' := rfl
    simp [asciiText_append, asciiText_cons, hslash, List.intercalate]

theorem groupEntry_valid (hmean : PrintsMeans mean) (hpath : ∀ b ∈ path, IsKeyByte b)
    (hg : g ≠ []) : (groupEntry mean path month g).Valid where
  key_ne_nil := by
    intro hnil
    have hkey := List.map_eq_nil_iff.mp hnil
    simp [resultKeyOf] at hkey
  separator := equals_notMem_asciiText fun _ hb => isKeyByte_resultKeyOf hpath hb
  value := isValue_groupValue hmean hg

theorem reportLine_eq : reportLine mean path month g =
    (resultKeyOf path month ++ equals :: groupValue mean g) ++ [newline] := by
  simp [reportLine, recordLine, resultKeyOf, groupValue]

/-- A line of a report is that of its entry. -/
theorem encodeAscii_groupEntry (hmean : PrintsMeans mean) (hpath : ∀ b ∈ path, IsKeyByte b)
    (hg : g ≠ []) : Utf8.encodeAscii (groupEntry mean path month g).text ++ [10] =
      reportLine mean path month g ∧
    ∀ c ∈ (groupEntry mean path month g).text, c.toNat < 128 ∧ c ≠ '\n' ∧ c ≠ '\r' := by
  have htext : (groupEntry mean path month g).text =
      asciiText (resultKeyOf path month ++ equals :: groupValue mean g) := by
    rw [asciiText_append, asciiText_cons]
    rfl
  have hbyte : ∀ b ∈ resultKeyOf path month ++ equals :: groupValue mean g,
      b < 128 ∧ b ≠ newline ∧ b ≠ carriageReturn := by
    intro b hb
    rcases List.mem_append.mp hb with hb | hb
    · obtain ⟨hascii, -, hrest⟩ := isKeyByte_resultKeyOf hpath hb
      exact ⟨hascii, hrest⟩
    · rcases List.mem_cons.mp hb with rfl | hb
      · exact ⟨by decide, by decide, by decide⟩
      · obtain ⟨hascii, -, hrest⟩ := isKeyByte_groupValue hmean hg hb
        exact ⟨hascii, hrest⟩
  rw [htext]
  constructor
  · rw [encodeAscii_asciiText fun b hb => (hbyte b hb).1, reportLine_eq]
    rfl
  · intro c hc
    obtain ⟨b, hb, -, hc⟩ := mem_asciiText (fun b hb => (hbyte b hb).1) hc
    obtain ⟨hascii, hnewline, hcr⟩ := hbyte b hb
    refine ⟨hc ▸ UInt8.lt_iff_toNat_lt.mp hascii, ?_, ?_⟩
    · rintro rfl
      exact hnewline (UInt8.toNat_inj.mp hc.symm)
    · rintro rfl
      exact hcr (UInt8.toNat_inj.mp hc.symm)

/-- The entry that the checker reads in a line. -/
def lineEntry (line : Bytes) : Entry := entryOf (asciiText line.dropLast)

theorem lineEntry_reportLine (hpath : ∀ b ∈ path, IsKeyByte b) :
    lineEntry (reportLine mean path month g) = groupEntry mean path month g := by
  have htext : asciiText (resultKeyOf path month ++ equals :: groupValue mean g) =
      (groupEntry mean path month g).text := by
    rw [asciiText_append, asciiText_cons]
    rfl
  rw [lineEntry, reportLine_eq, List.dropLast_concat, htext]
  exact entryOf_text (equals_notMem_asciiText fun _ hb => isKeyByte_resultKeyOf hpath hb)

/-- The label of a month has a fixed length. -/
theorem resultKeyOf_inj {path' : Bytes} {month' : Fin 12}
    (h : resultKeyOf path month = resultKeyOf path' month') : path = path' ∧ month = month' := by
  obtain ⟨hpath, hlabel⟩ := List.append_inj' h (by
    rw [List.length_cons, List.length_cons, length_monthLabel, length_monthLabel])
  exact ⟨hpath, monthLabel_injective (List.cons.inj hlabel).2⟩

theorem groupEntry_inj {path' : Bytes} {month' : Fin 12} {g' : List Row}
    (hpath : ∀ b ∈ path, IsKeyByte b) (hpath' : ∀ b ∈ path', IsKeyByte b)
    (h : (groupEntry mean path month g).1 = (groupEntry mean path' month' g').1) :
    path = path' ∧ month = month' := by
  have hbytes := congrArg Utf8.encodeAscii h
  rw [groupEntry, groupEntry, encodeAscii_asciiText fun b hb => (isKeyByte_resultKeyOf hpath hb).1,
    encodeAscii_asciiText fun b hb => (isKeyByte_resultKeyOf hpath' hb).1] at hbytes
  exact resultKeyOf_inj hbytes

end Groups

section Reports
variable {mean : ℤ → ℤ → Bytes} {rows : List Row} {lines : List Bytes}

/-- A line of a report is that of a group, whose channel has bytes of keys. -/
theorem line_of_report (hpath : ∀ r ∈ rows, ∀ b ∈ r.path, IsKeyByte b)
    (h : IsReport (reportLine mean) rows lines) {line : Bytes} (hline : line ∈ lines) :
    ∃ path month, group rows path month ≠ [] ∧ (∀ b ∈ path, IsKeyByte b) ∧
      line = reportLine mean path month (group rows path month) := by
  obtain ⟨path, month, hne, rfl⟩ := (h.mem line).mp hline
  obtain ⟨r, hr⟩ := List.exists_mem_of_ne_nil _ hne
  obtain ⟨hrows, rfl, -⟩ := mem_group.mp hr
  exact ⟨r.path, month, hne, hpath r hrows, rfl⟩

/-- The checker reads a report as the records of the groups. -/
theorem denotes_report (hmean : PrintsMeans mean) (hpath : ∀ r ∈ rows, ∀ b ∈ r.path, IsKeyByte b)
    (h : IsReport (reportLine mean) rows lines) :
    IsPlainText lines.flatten ∧ Denotes lines.flatten (lines.map lineEntry) ∧
      ∀ e, e ∈ lines.map lineEntry ↔ IsGroupEntry mean rows e := by
  have hentry {line : Bytes} (hline : line ∈ lines) := line_of_report hpath h hline
  have hwritten : lines.flatten =
      Runner.writeLines (lines.map fun line => ((lineEntry line).text, false)) := by
    rw [Runner.writeLines, List.flatMap_map, ← List.flatMap_id]
    apply List.flatMap_congr
    intro line hline
    obtain ⟨path, month, hne, hbytes, rfl⟩ := hentry hline
    rw [lineEntry_reportLine hbytes]
    exact (encodeAscii_groupEntry hmean hbytes hne).1.symm
  have hchars : ∀ row ∈ lines.map fun line => ((lineEntry line).text, false),
      ∀ c ∈ row.1, c.toNat < 128 ∧ c ≠ '\n' ∧ c ≠ '\r' := by
    intro row hrow
    obtain ⟨line, hline, rfl⟩ := List.mem_map.mp hrow
    obtain ⟨path, month, hne, hbytes, rfl⟩ := hentry hline
    rw [lineEntry_reportLine hbytes]
    exact (encodeAscii_groupEntry hmean hbytes hne).2
  refine ⟨hwritten ▸ isPlainText_writeLines hchars, ⟨?_, ?_, ?_⟩, fun e => ?_⟩
  · rw [hwritten, textLines_writeLines hchars, List.map_map, List.map_map, List.filter_eq_self.mpr]
    · rfl
    · intro text htext
      obtain ⟨line, -, rfl⟩ := List.mem_map.mp htext
      exact decide_eq_true (Entry.text_ne_nil _)
  · intro e he
    obtain ⟨line, hline, rfl⟩ := List.mem_map.mp he
    obtain ⟨path, month, hne, hbytes, rfl⟩ := hentry hline
    rw [lineEntry_reportLine hbytes]
    exact groupEntry_valid hmean hbytes hne
  · rw [List.map_map]
    refine h.nodup.map_on fun line hline line' hline' heq => ?_
    obtain ⟨path, month, hne, hbytes, rfl⟩ := hentry hline
    obtain ⟨path', month', hne', hbytes', rfl⟩ := hentry hline'
    rw [Function.comp_apply, Function.comp_apply, lineEntry_reportLine hbytes,
      lineEntry_reportLine hbytes'] at heq
    obtain ⟨rfl, rfl⟩ := groupEntry_inj hbytes hbytes' heq
    rfl
  · constructor
    · intro he
      obtain ⟨line, hline, rfl⟩ := List.mem_map.mp he
      obtain ⟨path, month, hne, hbytes, rfl⟩ := hentry hline
      exact ⟨path, month, hne, lineEntry_reportLine hbytes⟩
    · rintro ⟨path, month, hne, rfl⟩
      obtain ⟨r, hr⟩ := List.exists_mem_of_ne_nil _ hne
      obtain ⟨hrows, rfl, -⟩ := mem_group.mp hr
      rw [← lineEntry_reportLine (hpath r hrows)]
      exact List.mem_map_of_mem ((h.mem _).mpr ⟨r.path, month, hne, rfl⟩)

theorem denotes_unique {bytes : Bytes} {entries entries' : List Entry}
    (h : Denotes bytes entries) (h' : Denotes bytes entries') : entries = entries' := by
  have hread {entries : List Entry} (h : Denotes bytes entries) :
      (textLines bytes).map entryOf = entries := by
    rw [h.lines, List.map_map]
    conv_rhs => rw [← List.map_id entries]
    exact List.map_congr_left fun e he => entryOf_text (h.valid e he).separator
  rw [← hread h, hread h']

/-- An output is accepted against a report exactly when it denotes the records of the groups. -/
theorem compareOutput_report (hmean : PrintsMeans mean)
    (hpath : ∀ r ∈ rows, ∀ b ∈ r.path, IsKeyByte b) (h : IsReport (reportLine mean) rows lines)
    {bytes : Bytes} (hbytes : IsPlainText bytes) :
    compareOutput (.regular bytes) (.regular lines.flatten) = .ok () ↔
      ∃ entries, Denotes bytes entries ∧ ∀ e, e ∈ entries ↔ IsGroupEntry mean rows e := by
  obtain ⟨hplain, hdenotes, hmem⟩ := denotes_report hmean hpath h
  rw [compareOutput_iff hbytes hplain]
  constructor
  · rintro ⟨entries, entries', hentries, hentries', hiff⟩
    obtain rfl := denotes_unique hentries' hdenotes
    exact ⟨entries, hentries, fun e => (hiff e).trans (hmem e)⟩
  · rintro ⟨entries, hentries, hiff⟩
    exact ⟨entries, _, hentries, hdenotes, fun e => (hiff e).trans (hmem e).symm⟩

/-- Two reports on the same rows. -/
theorem compareOutput_reports {lines' : List Bytes} (hmean : PrintsMeans mean)
    (hpath : ∀ r ∈ rows, ∀ b ∈ r.path, IsKeyByte b) (h : IsReport (reportLine mean) rows lines)
    (h' : IsReport (reportLine mean) rows lines') :
    compareOutput (.regular lines'.flatten) (.regular lines.flatten) = .ok () := by
  obtain ⟨hplain, hdenotes, hmem⟩ := denotes_report hmean hpath h'
  exact (compareOutput_report hmean hpath h hplain).mpr ⟨_, hdenotes, hmem⟩

end Reports

section Datasets
variable {mean : ℤ → ℤ → Bytes} {random : Random} {options : Options} {rows : List Row}

theorem Generated.isKeyByte {r : Row} (h : Generated r) : ∀ b ∈ r.path, IsKeyByte b := by
  intro b hb
  obtain ⟨hascii, -, hnewline⟩ := h.path.byte b hb
  have hne (c : UInt8) (hc : c ≠ slash) (hlow : c.toNat < 97) : b ≠ c := by
    rintro rfl
    rcases h.letters b hb with hslash | ⟨hle, -⟩
    · exact hc hslash
    · rw [UInt8.le_iff_toNat_le] at hle
      exact absurd hle (Nat.not_le.mpr hlow)
  exact ⟨hascii, hne _ (by decide) (by decide), hnewline, hne _ (by decide) (by decide)⟩

theorem toNat_le_of_le {n m : Int64} (h : n ≤ m) : n.toInt.toNat ≤ m.toInt.toNat :=
  Int.toNat_le_toNat (Int64.le_iff_toInt_le.mp h)

/-- The report on a generated dataset. -/
theorem expected_isReport (mean : ℤ → ℤ → Bytes) (hdataset : IsDataset options rows)
    (hchannels : options.channels.toInt.toNat ≤ 65536)
    (hgroup : ∀ path month, (group rows path month).length < 2 ^ 32) {threads : Int64}
    (hdividable : Dividable (csv rows) (header.length + 1) threads) :
    ∃ lines, Expected.output mean (csv rows) threads = some lines ∧
      IsReport (reportLine mean) rows lines := by
  have hinput : Expected.IsInput rows := {
    in2027 := fun r hr => (hdataset.generated r hr).in2027
    path_ne := fun r hr => (hdataset.generated r hr).path.ne_nil
    path_plain := by
      intro r hr b hb hmem
      have hletters := (hdataset.generated r hr).letters b hmem
      simp only [List.mem_cons, List.not_mem_nil, or_false] at hb
      rcases hb with rfl | rfl | rfl | rfl <;> revert hletters <;> decide
    channels := hdataset.channels.trans hchannels
    messageLength_pos := fun r hr => (hdataset.generated r hr).messageLength_pos
    messageLength_le := fun r hr => (hdataset.generated r hr).messageLength_le.trans (by decide)
    stampCount_lt := fun r hr =>
      Nat.lt_of_le_of_lt (hdataset.generated r hr).stampCount_le (by decide)
    group_lt := hgroup }
  have hpath : ∀ r ∈ rows, r.path.length < 2 ^ 32 := fun r hr =>
    Nat.lt_of_le_of_lt (hdataset.generated r hr).path.length_le (by decide)
  obtain ⟨paths, hnodup, hmem, houtput⟩ :=
    Expected.output_csv mean (hinput.countable hpath) hdividable
  have hline : Distinguishes (Stats.line mean UInt64.toNat UInt64.ofNat) rows :=
    distinguishes_recordLine (fun _ _ _ => rfl) fun r hr => (hinput.valid r hr).comma_notMem
  exact ⟨_, houtput, (TagMap.isReport_sorted hline hnodup hmem).congr fun _ _ _ =>
    hinput.line_eq mean⟩

/-- The expected output of a generated dataset is read by the checker as one record for each channel
and month that occur, and an output is accepted exactly when it denotes these records. -/
theorem dataset_judged (hmean : PrintsMeans mean) (hchannels : options.channels ≤ 65536)
    (hrows : generateRows random options = .ok rows)
    (hgroup : ∀ path month, (group rows path month).length < 2 ^ 32) {threads : Int64}
    (hdividable : Dividable (csv rows) (header.length + 1) threads) :
    ∃ lines, Expected.output mean (csv rows) threads = some lines ∧
      (∃ entries, Denotes lines.flatten entries ∧ ∀ e, e ∈ entries ↔ IsGroupEntry mean rows e) ∧
      ∀ bytes, IsPlainText bytes →
        (compareOutput (.regular bytes) (.regular lines.flatten) = .ok () ↔
          ∃ entries, Denotes bytes entries ∧ ∀ e, e ∈ entries ↔ IsGroupEntry mean rows e) := by
  have hdataset := generateRows_isDataset hchannels hrows
  obtain ⟨lines, houtput, hreport⟩ :=
    expected_isReport mean hdataset (toNat_le_of_le hchannels) hgroup hdividable
  have hpath : ∀ r ∈ rows, ∀ b ∈ r.path, IsKeyByte b := fun r hr =>
    (hdataset.generated r hr).isKeyByte
  obtain ⟨-, hdenotes, hmem⟩ := denotes_report hmean hpath hreport
  exact ⟨lines, houtput, ⟨_, hdenotes, hmem⟩, fun bytes hbytes =>
    compareOutput_report hmean hpath hreport hbytes⟩

/-- The contest's conditions on a generated dataset whose totals have 32 bits. -/
theorem isContract_of_dataset (hdataset : IsDataset options rows)
    (hchannels : options.channels.toInt.toNat ≤ 10000)
    (htotals : ∀ path month, (lengths (group rows path month)).sum < 2 ^ 32 ∧
      (stamps (group rows path month)).sum < 2 ^ 32) : IsContract rows where
  in2027 r hr := (hdataset.generated r hr).in2027
  path r hr := (hdataset.generated r hr).path
  channels := hdataset.channels.trans hchannels
  messageLength_pos r hr := (hdataset.generated r hr).messageLength_pos
  messages_lt path month := by
    have hpos : ∀ n ∈ lengths (group rows path month), 1 ≤ n := by
      intro n hn
      obtain ⟨r, hr, rfl⟩ := List.mem_map.mp hn
      exact (hdataset.generated r (mem_group.mp hr).1).messageLength_pos
    have hle := List.length_le_sum_of_one_le _ hpos
    rw [lengths, List.length_map] at hle
    exact Nat.lt_of_le_of_lt hle (htotals path month).1
  total_lt path month := (htotals path month).1
  stamps_lt path month := (htotals path month).2

/-- The outputs of the analyzers in Go, Rust, Zig, C++ and C#, and of the optimized ones in Go, Rust
and C#, are accepted against the expected output of a generated dataset. -/
theorem analyzers_accepted (hmean : PrintsMeans mean) (hchannels : options.channels ≤ 10000)
    (hrows : generateRows random options = .ok rows)
    (htotals : ∀ path month, (lengths (group rows path month)).sum < 2 ^ 32 ∧
      (stamps (group rows path month)).sum < 2 ^ 32)
    {threads generatorThreads : Int64} (hthreads : 0 < threads)
    (hproduct : (csv rows).length * threads.toInt.toNat < 2 ^ 63)
    (hdividable : Dividable (csv rows) (header.length + 1) generatorThreads) (sse42 avx2 : Bool) :
    ∃ expected, Expected.output mean (csv rows) generatorThreads = some expected ∧
      ∀ output ∈ [BaselineGo.output mean (csv rows), BaselineRust.output mean (csv rows),
          BaselineZig.output mean (csv rows), BaselineCpp.output mean (csv rows),
          BaselineCsharp.output mean (csv rows), OptimizedGo.output mean (csv rows) threads,
          OptimizedRust.run mean (csv rows) threads.toInt.toNat,
          OptimizedCsharp.run sse42 avx2 mean (csv rows) threads.toInt.toNat],
        ∃ lines, output = some lines ∧
          compareOutput (.regular lines.flatten) (.regular expected.flatten) = .ok () := by
  have hchannels' : options.channels.toInt.toNat ≤ 10000 := toNat_le_of_le hchannels
  have hdataset := generateRows_isDataset
    (Int64.le_trans hchannels (show (10000 : Int64) ≤ 65536 by decide)) hrows
  have h := isContract_of_dataset hdataset hchannels' htotals
  have hvalid := TagMap.valid_of_isContract h
  have hfits := fits_of_isContract h
  have hcomma : ∀ r ∈ rows, comma ∉ r.path := fun r hr => (hvalid r hr).comma_notMem
  have hpath : ∀ r ∈ rows, ∀ b ∈ r.path, IsKeyByte b := fun r hr =>
    (hdataset.generated r hr).isKeyByte
  have hshort : ∀ r ∈ rows, r.messageLength ≤ 65535 := fun r hr =>
    (hdataset.generated r hr).messageLength_le.trans (by decide)
  have hcr : ∀ r ∈ rows, carriageReturn ∉ r.path := fun r hr hmem =>
    (hpath r hr _ hmem).2.2.2 rfl
  have hquote : ∀ r ∈ rows, quote ∉ r.path := by
    intro r hr hmem
    have hletters := (hdataset.generated r hr).letters _ hmem
    revert hletters
    decide
  have hint : ∀ r ∈ rows, BaselineCpp.InInt r := fun r hr =>
    ⟨Nat.lt_of_le_of_lt (hdataset.generated r hr).messageLength_le (by decide),
      Nat.lt_of_le_of_lt (hdataset.generated r hr).stampCount_le (by decide)⟩
  have hbuffer : ∀ r ∈ rows, BaselineZig.InBuffer r := by
    intro r hr
    have hle := BaselineC.length_line_le h hr
    rw [Row.line_eq_text, List.length_append, List.length_singleton] at hle
    rw [BaselineZig.InBuffer, BaselineZig.bufferSize]
    omega
  obtain ⟨expected, hexpected, hreport⟩ := expected_isReport mean hdataset
    (hchannels'.trans (by decide)) h.messages_lt hdividable
  have hone : 1 ≤ threads.toInt.toNat := by
    have hpos : 0 < threads.toInt := Int64.lt_iff_toInt_lt.mp hthreads
    omega
  have haccept {output : Option (List Bytes)} (houtput : ∃ lines, output = some lines ∧
      IsReport (reportLine mean) rows lines) : ∃ lines, output = some lines ∧
        compareOutput (.regular lines.flatten) (.regular expected.flatten) = .ok () := by
    obtain ⟨lines, hlines, hreport'⟩ := houtput
    exact ⟨lines, hlines, compareOutput_reports hmean hpath hreport hreport'⟩
  -- a baseline writes the figures of its groups
  have hwrite {stats : StatsMap} (hgroups : GroupBy.Groups Row.key ChannelStats.of stats rows) :
      ∃ lines, writeStats mean stats = some lines ∧ IsReport (reportLine mean) rows lines := by
    obtain ⟨lines, hlines, hreport'⟩ := isReport_writeStats mean hgroups hcomma
    exact ⟨lines, hlines, isReport_of_isContract h hreport'⟩
  refine ⟨expected, hexpected, ?_⟩
  simp only [List.forall_mem_cons, List.not_mem_nil, false_implies, implies_true, and_true]
  refine ⟨haccept (OptimizedGo.baseline_csv mean h hquote),
    haccept (OptimizedRust.baseline_csv mean h), haccept ?_, haccept ?_, haccept ?_, haccept ?_,
    haccept ?_, haccept (OptimizedCsharp.run_csv sse42 avx2 mean h hshort hone hproduct)⟩
  · obtain ⟨stats, hrun, hgroups⟩ := BaselineZig.analyze_csv hvalid hfits hbuffer
    simp only [BaselineZig.output, hrun]
    exact hwrite hgroups
  · obtain ⟨stats, hrun, hgroups⟩ := BaselineCpp.analyze_csv hvalid hfits hint
    simp only [BaselineCpp.output, hrun]
    exact hwrite hgroups
  · obtain ⟨stats, hrun, hgroups⟩ := BaselineCsharp.analyze_csv hvalid hcr fun r hr =>
      ⟨h.in2027 r hr, (hint r hr).1, (hint r hr).2⟩
    simp only [BaselineCsharp.output, hrun]
    exact hwrite hgroups
  · obtain ⟨lines, hlines, hreport'⟩ :=
      OptimizedGo.output_csv mean (TagMap.countable_of_isContract h)
        (dividable_of_product (le_length_csv rows) hthreads hproduct)
    exact ⟨lines, hlines, hreport'.congr fun path month _ =>
      TagMap.line_eq_reportLine mean h hshort path month⟩
  · obtain ⟨lines, hlines, hreport'⟩ := OptimizedRust.run_csv mean
      (TagMap.countable_of_isContract h) (Nat.lt_of_le_of_lt h.channels (by decide)) hone
      (Nat.lt_trans hproduct (by decide))
    exact ⟨lines, hlines, hreport'.congr fun path month _ =>
      TagMap.line_eq_reportLine mean h hshort path month⟩

theorem printsMeans_wholeMean : PrintsMeans wholeMean := by
  intro total count _
  refine ⟨Decimal.encode (total / count), [48, 48], ?_, Decimal.encode_ne_nil _, rfl,
    fun _ hb => Decimal.isDigit_of_mem_encode hb, fun b hb => ?_⟩
  · rw [wholeMean, ← Int.natCast_ediv, Decimal.encodeInt_natCast]
  · obtain rfl : b = 48 := by simpa using hb
    rfl

theorem printsMeans_sample : PrintsMeans sampleEnvironment.mean := by
  intro total count _
  exact ⟨[49, 48, 48], [48, 48], rfl, List.cons_ne_nil _ _, rfl, by decide +kernel,
    by decide +kernel⟩

/-- One row of the public words. -/
def singleOptions : Options := ⟨1, 10000, 1, .publicWordset⟩

/-- The draws of `sampleEnvironment`. -/
def singleRandom : Random := sampleEnvironment.random

theorem exists_single : ∃ r, generateRows singleRandom singleOptions = .ok [r] ∧
    IsDataset singleOptions [r] := by
  obtain ⟨rows, hrows, hdataset⟩ := exists_generateRows singleRandom singleOptions (by decide)
    (by decide) (by decide)
  obtain ⟨r, rfl⟩ := List.length_eq_one_iff.mp hdataset.length
  exact ⟨r, hrows, hdataset⟩

theorem sum_group_single {r : Row} (f : Row → ℕ) (path : Bytes) (month : Fin 12) :
    ((group [r] path month).map f).sum ≤ f r := by
  have hsub : ((group [r] path month).map f).Sublist [f r] := List.filter_sublist.map f
  exact (hsub.sum_le_sum fun _ _ => Nat.zero_le _).trans_eq (by simp)

theorem dividable_single {r : Row} (hr : Generated r) (threads : Int64) :
    Dividable (csv [r]) (header.length + 1) threads := by
  have hle := length_csv_generated fun r' (hr' : r' ∈ [r]) => List.mem_singleton.mp hr' ▸ hr
  exact dividable_of_lt (le_length_csv [r]) (Nat.lt_of_le_of_lt hle (by simp)) threads

theorem dataset_judged_single : ∃ rows lines, generateRows singleRandom singleOptions = .ok rows ∧
    Expected.output wholeMean (csv rows) 2 = some lines ∧
      ∃ entries, Denotes lines.flatten entries ∧
        ∀ e, e ∈ entries ↔ IsGroupEntry wholeMean rows e := by
  obtain ⟨r, hrows, hdataset⟩ := exists_single
  have hgroup (path : Bytes) (month : Fin 12) : (group [r] path month).length < 2 ^ 32 :=
    Nat.lt_of_le_of_lt (List.length_filter_le _ _) (by simp)
  obtain ⟨lines, houtput, hentries, -⟩ := dataset_judged printsMeans_wholeMean (by decide) hrows
    hgroup (dividable_single (hdataset.generated r List.mem_cons_self) 2)
  exact ⟨[r], lines, hrows, houtput, hentries⟩

theorem analyzers_accepted_single : ∃ rows expected lines,
    generateRows singleRandom singleOptions = .ok rows ∧
      Expected.output wholeMean (csv rows) 2 = some expected ∧
      OptimizedRust.run wholeMean (csv rows) 1 = some lines ∧
        compareOutput (.regular lines.flatten) (.regular expected.flatten) = .ok () := by
  obtain ⟨r, hrows, hdataset⟩ := exists_single
  have hr := hdataset.generated r List.mem_cons_self
  have htotals (path : Bytes) (month : Fin 12) :
      (lengths (group [r] path month)).sum < 2 ^ 32 ∧
        (stamps (group [r] path month)).sum < 2 ^ 32 :=
    ⟨Nat.lt_of_le_of_lt ((sum_group_single _ path month).trans hr.messageLength_le) (by decide),
      Nat.lt_of_le_of_lt ((sum_group_single _ path month).trans hr.stampCount_le) (by decide)⟩
  have hproduct : (csv [r]).length * (1 : Int64).toInt.toNat < 2 ^ 63 := by
    have hle := length_csv_generated hdataset.generated
    rw [show (1 : Int64).toInt.toNat = 1 by decide, Nat.mul_one]
    exact Nat.lt_of_le_of_lt hle (by simp)
  obtain ⟨expected, hexpected, haccepted⟩ := analyzers_accepted printsMeans_wholeMean
    (by decide) hrows htotals (by decide) hproduct (dividable_single hr 2) true true
  obtain ⟨lines, hlines, haccept⟩ :=
    haccepted (OptimizedRust.run wholeMean (csv [r]) 1) (by simp)
  exact ⟨[r], expected, lines, hrows, hexpected, hlines, haccept⟩

end Datasets
end OneBrc.Data
