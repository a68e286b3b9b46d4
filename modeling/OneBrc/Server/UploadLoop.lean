import Mathlib.Data.List.Count
import OneBrc.Server.Upload

/-! What the loop of `parseUpload` lets through, and its variables then. -/
namespace OneBrc.Server
open Lib GoText

def Part.IsText (part : Part) (name : PartName) : Prop :=
  part.formName = ofString name.name ∧ part.filename = []

def Part.IsFile (part : Part) (name : PartName) : Prop :=
  part.formName = ofString name.name ∧ part.filename ≠ []

/-- The name under which a file is kept. -/
def Part.savedName (part : Part) : List Rune := trimSpace (base (slashes (base part.filename)))

/-- The name is not blank, not too long and without control characters. -/
structure Part.WellNamed (part : Part) : Prop where
  ne_nil : part.savedName ≠ []
  short : utf16Length part.savedName ≤ 255
  printable : ∀ r ∈ part.savedName, r.isControl = false

section Read
variable {sha256 : List UInt8 → String} {r r' : Reading} {part : Part} {parts : List Part}
  {name : PartName}

theorem of?_eq_some {text : List Rune} :
    PartName.of? text = some name ↔ text = ofString name.name := by
  constructor
  · intro h
    unfold PartName.of? at h
    have hfound := List.find?_some h
    exact (of_decide_eq_true hfound).symm
  · rintro rfl
    cases name <;> decide

theorem base_ne_nil (path : List Rune) : base path ≠ [] := by
  unfold base
  split
  · exact List.cons_ne_nil _ _
  · dsimp only
    split
    · exact List.cons_ne_nil _ _
    · assumption

theorem fileName_eq_nil : part.fileName = [] ↔ part.filename = [] := by
  unfold Part.fileName
  split
  · next h => simp [h]
  · next h => simp [h, base_ne_nil]

theorem sanitizeFilename_ok (hfile : part.filename ≠ []) {saved : List Rune} :
    sanitizeFilename part.fileName = .ok saved ↔ part.WellNamed ∧ saved = part.savedName := by
  have hname : trimSpace (base (slashes part.fileName)) = part.savedName := by
    rw [Part.fileName, if_neg hfile, Part.savedName]
  unfold sanitizeFilename
  rw [hname]
  dsimp only
  split
  · next hbad =>
    constructor
    · intro h
      contradiction
    · rintro ⟨hnamed, _⟩
      rcases hbad with hbad | hbad
      · exact absurd hbad hnamed.ne_nil
      · exact absurd hnamed.short (Nat.not_le.mpr hbad)
  · next hgood =>
    obtain ⟨hne, hshort⟩ := not_or.mp hgood
    split
    · next hcontrol =>
      constructor
      · intro h
        contradiction
      · rintro ⟨hnamed, _⟩
        obtain ⟨c, hc, hcontrol⟩ := List.any_eq_true.mp hcontrol
        rw [hnamed.printable c hc] at hcontrol
        contradiction
    · next hprintable =>
      constructor
      · intro h
        refine ⟨⟨hne, Nat.le_of_not_lt hshort, ?_⟩, (Except.ok.inj h).symm⟩
        intro c hc
        rw [← Bool.not_eq_true]
        intro hcontrol
        exact hprintable (List.any_eq_true.mpr ⟨c, hc, hcontrol⟩)
      · rintro ⟨_, rfl⟩
        rfl

/-- The file that a part leaves. -/
def Part.file (sha256 : List UInt8 → String) (part : Part) : UploadedFile :=
  ⟨part.savedName, part.content, sha256 part.content⟩

/-- The variables after a part that is let through. -/
def Reading.add (sha256 : List UInt8 → String) (r : Reading) (part : Part) : Reading :=
  match PartName.of? part.formName with
  | none => r
  | some name =>
      if part.filename = [] then r.addField name part.content
      else r.addFile name (part.file sha256)

/-- The name of a file part. -/
def Part.fileOf? (part : Part) : Option PartName :=
  if part.filename = [] then none else PartName.of? part.formName

/-- What the loop asks of a part, whatever it has read before. -/
structure Part.Readable (part : Part) : Prop where
  header : multipartHeaderSize part.header ≤ 4 * 1024
  name : ∃ name, PartName.of? part.formName = some name
  text : part.filename = [] → part.content.length ≤ 64
  file : ∀ name, part.fileOf? = some name → (name = .source ∨ name = .binary) ∧
    part.WellNamed ∧ part.content.length ≤ fileLimit name

theorem Part.fileOf?_eq_none (h : part.filename = []) : part.fileOf? = none := if_pos h

theorem Part.fileOf?_eq_of (h : part.filename ≠ []) :
    part.fileOf? = PartName.of? part.formName := if_neg h

theorem readPart_text (hname : PartName.of? part.formName = some name)
    (htext : part.filename = []) : readPart sha256 r part = .ok r' ↔
      r.parts < 4 ∧ multipartHeaderSize part.header ≤ 4 * 1024 ∧ part.content.length ≤ 64 ∧
        r' = r.addField name part.content := by
  have htake (h : part.content.length ≤ 64) : part.content.take 65 = part.content :=
    List.take_of_length_le (by omega)
  unfold readPart
  rw [hname, fileName_eq_nil.mpr htext]
  dsimp only
  rw [if_pos rfl, List.length_take]
  split_ifs with hparts hheader hlong
  · rw [false_iff]
    omega
  · rw [false_iff]
    omega
  · rw [false_iff]
    omega
  · have hshort : part.content.length ≤ 64 := by omega
    rw [htake hshort, Except.ok.injEq]
    constructor
    · rintro rfl
      exact ⟨by omega, by omega, hshort, rfl⟩
    · rintro ⟨_, _, _, rfl⟩
      rfl

theorem readPart_file (hname : PartName.of? part.formName = some name)
    (hfile : part.filename ≠ []) : readPart sha256 r part = .ok r' ↔
      r.parts < 4 ∧ multipartHeaderSize part.header ≤ 4 * 1024 ∧
        (name = .source ∨ name = .binary) ∧ r.files name = none ∧ r.fileCount < 2 ∧
        part.WellNamed ∧ part.content.length ≤ fileLimit name ∧
        r' = r.addFile name (part.file sha256) := by
  have htake (h : part.content.length ≤ fileLimit name) :
      part.content.take (fileLimit name + 1) = part.content :=
    List.take_of_length_le (by omega)
  unfold readPart
  rw [hname]
  dsimp only
  rw [if_neg (mt fileName_eq_nil.mp hfile), List.length_take]
  split_ifs with hparts hheader hkind htwice hcount hlong
  · rw [false_iff]
    omega
  · rw [false_iff]
    omega
  · rw [false_iff]
    rintro ⟨_, _, hbad, _⟩
    exact hbad.elim hkind.1 hkind.2
  · rw [false_iff]
    rintro ⟨_, _, _, hnone, _⟩
    rw [hnone] at htwice
    contradiction
  · rw [false_iff]
    rintro ⟨_, _, _, _, hlt, _⟩
    omega
  · rw [Fallible.bind_eq_ok]
    constructor
    · rintro ⟨_, _, h⟩
      contradiction
    · rintro ⟨_, _, _, _, _, _, hshort, _⟩
      omega
  · rw [Option.not_isSome_iff_eq_none] at htwice
    have hshort : part.content.length ≤ fileLimit name := by omega
    rw [Fallible.bind_eq_ok, htake hshort]
    constructor
    · rintro ⟨saved, hsaved, h⟩
      obtain ⟨hnamed, rfl⟩ := (sanitizeFilename_ok hfile).mp hsaved
      exact ⟨by omega, by omega, by tauto, htwice, by omega, hnamed, hshort,
        (Except.ok.inj h).symm⟩
    · rintro ⟨_, _, _, _, _, hnamed, _, rfl⟩
      exact ⟨part.savedName, (sanitizeFilename_ok hfile).mpr ⟨hnamed, rfl⟩, rfl⟩

theorem readPart_ok : readPart sha256 r part = .ok r' ↔ r.parts < 4 ∧ part.Readable ∧
    (∀ name, part.fileOf? = some name → r.files name = none ∧ r.fileCount < 2) ∧
    r' = r.add sha256 part := by
  cases hname : PartName.of? part.formName with
  | none =>
    have herror : readPart sha256 r part ≠ .ok r' := by
      unfold readPart
      rw [hname]
      split_ifs <;> exact nofun
    refine ⟨fun h => absurd h herror, ?_⟩
    rintro ⟨_, hreadable, _⟩
    obtain ⟨name, hsome⟩ := hreadable.name
    rw [hname] at hsome
    contradiction
  | some name =>
    by_cases hfile : part.filename = []
    · have hof : part.fileOf? = none := Part.fileOf?_eq_none hfile
      have hadd : r.add sha256 part = r.addField name part.content := by
        rw [Reading.add, hname]
        exact if_pos hfile
      rw [readPart_text hname hfile, hadd]
      constructor
      · rintro ⟨hparts, hheader, hshort, rfl⟩
        refine ⟨hparts, ⟨hheader, ⟨name, hname⟩, fun _ => hshort, ?_⟩, ?_, rfl⟩
        all_goals
          intro n hn
          rw [hof] at hn
          contradiction
      · rintro ⟨hparts, hreadable, _, rfl⟩
        exact ⟨hparts, hreadable.header, hreadable.text hfile, rfl⟩
    · have hof : part.fileOf? = some name := by rw [Part.fileOf?_eq_of hfile, hname]
      have hadd : r.add sha256 part = r.addFile name (part.file sha256) := by
        rw [Reading.add, hname]
        exact if_neg hfile
      rw [readPart_file hname hfile, hadd]
      constructor
      · rintro ⟨hparts, hheader, hkind, hnone, hcount, hnamed, hshort, rfl⟩
        refine ⟨hparts, ⟨hheader, ⟨name, hname⟩, fun h => absurd h hfile, ?_⟩, ?_, rfl⟩
        all_goals
          intro n hn
          obtain rfl : name = n := Option.some.inj (hof.symm.trans hn)
        · exact ⟨hkind, hnamed, hshort⟩
        · exact ⟨hnone, hcount⟩
      · rintro ⟨hparts, hreadable, hfree, rfl⟩
        obtain ⟨hkind, hnamed, hshort⟩ := hreadable.file name hof
        obtain ⟨hnone, hcount⟩ := hfree name hof
        exact ⟨hparts, hreadable.header, hkind, hnone, hcount, hnamed, hshort, rfl⟩

end Read

instance (part : Part) (name : PartName) : Decidable (part.IsText name) :=
  inferInstanceAs (Decidable (_ ∧ _))

instance (part : Part) (name : PartName) : Decidable (part.IsFile name) :=
  inferInstanceAs (Decidable (_ ∧ _))

/-- The variables after parts that are let through. -/
def Reading.of (sha256 : List UInt8 → String) (parts : List Part) : Reading where
  parts := parts.length
  fileCount := (parts.filterMap Part.fileOf?).length
  fields name := (parts.filter fun part => part.IsText name).map Part.content
  files name := ((parts.filter fun part => part.IsFile name).getLast?).map (Part.file sha256)

section Loop
variable {sha256 : List UInt8 → String} {r : Reading} {part : Part} {parts : List Part}
  {name other : PartName}

theorem name_inj (h : ofString name.name = ofString other.name) : name = other :=
  Option.some.inj ((of?_eq_some.mpr rfl).symm.trans (of?_eq_some.mpr h))

theorem Part.IsText.iff (h : part.IsText name) : part.IsText other ↔ name = other :=
  ⟨fun h' => name_inj (h.1.symm.trans h'.1), fun hname => hname ▸ h⟩

theorem Part.IsFile.iff (h : part.IsFile name) : part.IsFile other ↔ name = other :=
  ⟨fun h' => name_inj (h.1.symm.trans h'.1), fun hname => hname ▸ h⟩

theorem Part.IsText.not_isFile (h : part.IsText name) : ¬part.IsFile other := fun h' => h'.2 h.2

theorem Part.IsFile.not_isText (h : part.IsFile name) : ¬part.IsText other := fun h' => h.2 h'.2

theorem Part.IsText.fileOf? (h : part.IsText name) : part.fileOf? = none :=
  Part.fileOf?_eq_none h.2

theorem Part.IsFile.fileOf? (h : part.IsFile name) : part.fileOf? = some name := by
  rw [Part.fileOf?_eq_of h.2]
  exact of?_eq_some.mpr h.1

theorem fileOf?_eq_some : part.fileOf? = some name ↔ part.IsFile name := by
  constructor
  · intro h
    have hfile : part.filename ≠ [] := by
      intro htext
      rw [Part.fileOf?_eq_none htext] at h
      contradiction
    rw [Part.fileOf?_eq_of hfile] at h
    exact ⟨of?_eq_some.mp h, hfile⟩
  · exact Part.IsFile.fileOf?

theorem Part.Readable.kind (h : part.Readable) :
    ∃ name, part.IsText name ∨ part.IsFile name := by
  obtain ⟨name, hname⟩ := h.name
  rcases Decidable.em (part.filename = []) with htext | hfile
  · exact ⟨name, .inl ⟨of?_eq_some.mp hname, htext⟩⟩
  · exact ⟨name, .inr ⟨of?_eq_some.mp hname, hfile⟩⟩

theorem Reading.ext' {a b : Reading} (hparts : a.parts = b.parts)
    (hcount : a.fileCount = b.fileCount) (hfields : ∀ name, a.fields name = b.fields name)
    (hfiles : ∀ name, a.files name = b.files name) : a = b := by
  cases a
  cases b
  congr 1
  · exact funext hfields
  · exact funext hfiles

theorem Reading.of_append (h : part.Readable) :
    Reading.of sha256 (parts ++ [part]) = (Reading.of sha256 parts).add sha256 part := by
  obtain ⟨name, htext | hfile⟩ := h.kind
  · have hadd : (Reading.of sha256 parts).add sha256 part =
        (Reading.of sha256 parts).addField name part.content := by
      rw [Reading.add, of?_eq_some.mpr htext.1]
      exact if_pos htext.2
    rw [hadd]
    apply Reading.ext'
    · exact List.length_append
    · simp only [Reading.of, Reading.addField, List.filterMap_append, List.filterMap_cons,
        htext.fileOf?, List.filterMap_nil, List.append_nil]
    · intro other
      simp only [Reading.of, Reading.addField, List.filter_append, List.filter_cons, htext.iff,
        List.filter_nil, Function.update_apply]
      rcases eq_or_ne other name with rfl | hne
      · simp
      · simp [hne, hne.symm]
    · intro other
      simp [Reading.of, Reading.addField, List.filter_append, htext.not_isFile]
  · have hadd : (Reading.of sha256 parts).add sha256 part =
        (Reading.of sha256 parts).addFile name (part.file sha256) := by
      rw [Reading.add, of?_eq_some.mpr hfile.1]
      exact if_neg hfile.2
    rw [hadd]
    apply Reading.ext'
    · exact List.length_append
    · simp [Reading.of, Reading.addFile, List.filterMap_append, hfile.fileOf?]
    · intro other
      simp [Reading.of, Reading.addFile, List.filter_append, hfile.not_isText]
    · intro other
      simp only [Reading.of, Reading.addFile, List.filter_append, List.filter_cons, hfile.iff,
        List.filter_nil, Function.update_apply]
      rcases eq_or_ne other name with rfl | hne
      · simp
      · simp [hne, hne.symm]

theorem Reading.of_files_eq_none :
    (Reading.of sha256 parts).files name = none ↔ name ∉ parts.filterMap Part.fileOf? := by
  rw [Reading.of]
  simp [fileOf?_eq_some]

/-- What the loop asks of the parts together. -/
structure AreReadable (parts : List Part) : Prop where
  length : parts.length ≤ 4
  readable : ∀ part ∈ parts, part.Readable
  nodup : (parts.filterMap Part.fileOf?).Nodup
  files : (parts.filterMap Part.fileOf?).length ≤ 2

theorem areReadable_append : AreReadable (parts ++ [part]) ↔ AreReadable parts ∧
    parts.length < 4 ∧ part.Readable ∧ ∀ name, part.fileOf? = some name →
      name ∉ parts.filterMap Part.fileOf? ∧ (parts.filterMap Part.fileOf?).length < 2 := by
  have hnames : (parts ++ [part]).filterMap Part.fileOf? =
      parts.filterMap Part.fileOf? ++ part.fileOf?.toList := by
    rw [List.filterMap_append, List.filterMap_cons]
    cases part.fileOf? <;> rfl
  constructor
  · intro h
    have hlength := h.length
    have hnodup := h.nodup
    have hfiles := h.files
    rw [List.length_append, List.length_singleton] at hlength
    rw [hnames] at hnodup hfiles
    rw [List.length_append] at hfiles
    obtain ⟨hrest, _, hdisjoint⟩ := List.nodup_append.mp hnodup
    refine ⟨⟨by omega, ?_, hrest, by omega⟩, by omega, ?_, ?_⟩
    · exact fun p hp => h.readable p (List.mem_append_left _ hp)
    · exact h.readable part (List.mem_append_right _ (List.mem_singleton_self _))
    · intro name hname
      rw [hname] at hdisjoint hfiles
      refine ⟨fun hmem => hdisjoint name hmem name (List.mem_singleton_self _) rfl, ?_⟩
      rw [Option.toList_some, List.length_singleton] at hfiles
      omega
  · rintro ⟨h, hlength, hreadable, hname⟩
    constructor
    · rw [List.length_append, List.length_singleton]
      omega
    · intro p hp
      rcases List.mem_append.mp hp with hp | hp
      · exact h.readable p hp
      · exact (List.mem_singleton.mp hp) ▸ hreadable
    all_goals rw [hnames]
    · cases hof : part.fileOf? with
      | none => simpa using h.nodup
      | some name =>
        refine List.nodup_append.mpr ⟨h.nodup, List.nodup_singleton _, ?_⟩
        rintro other hmem _ hother rfl
        exact (hname name hof).1 (List.mem_singleton.mp hother ▸ hmem)
    · rw [List.length_append]
      cases hof : part.fileOf? with
      | none => exact h.files
      | some name =>
        have hlt := (hname name hof).2
        rw [Option.toList_some, List.length_singleton]
        omega

theorem foldlM_readPart {r : Reading} : parts.foldlM (readPart sha256) .start = .ok r ↔
    AreReadable parts ∧ r = .of sha256 parts := by
  induction parts using List.reverseRecOn generalizing r with
  | nil =>
    have hof : Reading.of sha256 [] = .start := rfl
    rw [hof]
    constructor
    · intro h
      exact ⟨⟨by simp, by simp, by simp, by simp⟩, (Except.ok.inj h).symm⟩
    · rintro ⟨_, rfl⟩
      rfl
  | append_singleton parts part ih =>
    rw [List.foldlM_append, Fallible.bind_eq_ok, areReadable_append]
    have hone {a : Reading} : List.foldlM (readPart sha256) a [part] = readPart sha256 a part := by
      rw [List.foldlM_cons]
      exact bind_pure _
    constructor
    · rintro ⟨a, ha, hr⟩
      obtain ⟨hareadable, rfl⟩ := ih.mp ha
      rw [hone] at hr
      obtain ⟨hlength, hreadable, hname, rfl⟩ := readPart_ok.mp hr
      refine ⟨⟨hareadable, hlength, hreadable, ?_⟩, (Reading.of_append hreadable).symm⟩
      exact fun name h => ⟨Reading.of_files_eq_none.mp (hname name h).1, (hname name h).2⟩
    · rintro ⟨⟨hareadable, hlength, hreadable, hname⟩, rfl⟩
      refine ⟨_, ih.mpr ⟨hareadable, rfl⟩, ?_⟩
      rw [hone, Reading.of_append hreadable]
      refine readPart_ok.mpr ⟨hlength, hreadable, ?_, rfl⟩
      exact fun name h => ⟨Reading.of_files_eq_none.mpr (hname name h).1, (hname name h).2⟩

end Loop

end OneBrc.Server
