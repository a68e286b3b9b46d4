import OneBrc.Server.UploadLoop

/-! The forms that `parseUpload` accepts, the digest it reports, and what it leaves behind. -/
namespace OneBrc.Server
open Lib GoText

/-- A source file in the language. -/
structure Part.IsSource (part : Part) (language : Language) : Prop where
  file : part.IsFile .source
  named : part.WellNamed
  size : part.content.length ≤ sourceLimit
  utf8 : ∃ cs, part.content = Utf8.encode cs
  noNul : 0 ∉ part.content
  extension : sourceExtensions language = [] ∨ ∃ e ∈ sourceExtensions language,
    (ext part.savedName).map Rune.toLower = ofString e

/-- The first 20 bytes are those of a little-endian ELF header for x86-64. -/
def IsElf (content : List UInt8) : Prop :=
  ∃ middle rest, middle.length = 12 ∧
    content = [0x7F, 0x45, 0x4C, 0x46, 2, 1] ++ middle ++ [0x3E, 0] ++ rest

structure Part.IsBinary (part : Part) : Prop where
  file : part.IsFile .binary
  size : part.content.length ≤ binaryLimit
  elf : IsElf part.content

/-- The two forms, for what a part with the executable has to be. -/
inductive Form (executable : Part → Prop) (parts : List Part) : Prop
  | native (kind choice source binary : Part) (language : Language)
      (hkind : kind.IsText .executionKind ∧ kind.content = bytes "native")
      (hlanguage : language ∈ nativeLanguages)
      (hchoice : choice.IsText .language ∧ choice.content = bytes language.name)
      (hsource : source.IsSource language) (hbinary : executable binary)
      (hparts : parts.Perm [kind, choice, source, binary]) : Form executable parts
  | script (kind source : Part) (script : ExecutionKind) (hscript : script ≠ .native)
      (hkind : kind.IsText .executionKind ∧ kind.content = bytes script.name)
      (hsource : source.IsSource (scriptLanguage script))
      (hparts : parts.Perm [kind, source]) : Form executable parts

/-- A multipart request whose parts have short headers. -/
structure UploadRequest.IsMultipart (request : UploadRequest) : Prop where
  contentType : ∃ mediaType boundary, request.contentType = some (mediaType, boundary) ∧
    mediaType.toLower = "multipart/form-data" ∧ boundary ≠ ""
  nonempty : request.empty = false
  headers : ∀ part ∈ request.parts, multipartHeaderSize part.header ≤ 4 * 1024

/-- Exactly the forms are accepted, among the parts of this kind; the digest is the artifact's; a
failure leaves no directory; and no index is out of range. -/
structure AcceptsForms (form considered : List Part → Prop) : Prop where
  accepts : ∀ {sha256 request}, request.IsMultipart → considered request.parts →
    ((∃ parsed, (parseUpload sha256 request).result = .ok parsed) ↔ form request.parts)
  digest : ∀ {sha256 request parsed}, (parseUpload sha256 request).result = .ok parsed →
    ∃ part ∈ request.parts, part.IsFile (if parsed.kind = .native then .binary else .source) ∧
      parsed.artifactDigest = sha256 part.content
  removed : ∀ {sha256 request storeSource upload queueUpload},
    (acceptSubmission (parseUpload sha256 request) storeSource upload queueUpload).accepted =
      false →
    (acceptSubmission (parseUpload sha256 request) storeSource upload queueUpload).directory =
      false
  inRange : ∀ {sha256 request}, (parseUpload sha256 request).result ≠ .error .indexOutOfRange

/-- A script kind comes with one short text part named `binary`, and with no such file. -/
structure BinaryText (parts : List Part) : Prop where
  kind : ∃ kind ∈ parts, kind.IsText .executionKind ∧
    ∃ script, script ≠ ExecutionKind.native ∧ kind.content = bytes script.name
  noFile : ∀ part ∈ parts, ¬part.IsFile .binary
  text : ∃ text, (parts.filter fun part => part.IsText .binary) = [text] ∧ text.content.length ≤ 64

theorem perm_flatMap_filter {α β : Type} [DecidableEq β] {f : α → β} {keys : List β}
    (hkeys : keys.Nodup) {xs : List α} (h : ∀ a ∈ xs, f a ∈ keys) :
    xs.Perm (keys.flatMap fun key => xs.filter (f · = key)) := by
  induction keys generalizing xs with
  | nil =>
    rw [List.eq_nil_iff_forall_not_mem.mpr fun a ha => List.not_mem_nil (h a ha)]
    rfl
  | cons key keys ih =>
    obtain ⟨hkey, hkeys⟩ := List.nodup_cons.mp hkeys
    have hrest : ∀ a ∈ xs.filter (fun a => !decide (f a = key)), f a ∈ keys := by
      intro a ha
      obtain ⟨ha, hne⟩ := List.mem_filter.mp ha
      exact (List.mem_cons.mp (h a ha)).resolve_left (by simpa using hne)
    have hfilter : ∀ other ∈ keys, (xs.filter fun a => !decide (f a = key)).filter (f · = other) =
        xs.filter (f · = other) := by
      intro other hother
      rw [List.filter_filter]
      refine List.filter_congr fun a _ => ?_
      rw [Bool.and_eq_left_iff_imp]
      intro hf
      have hne : other ≠ key := fun h => hkey (h ▸ hother)
      simpa [of_decide_eq_true hf] using hne
    rw [List.flatMap_cons]
    refine (List.filter_append_perm (f · = key) xs).symm.trans (List.Perm.append_left _ ?_)
    refine (ih hkeys hrest).trans (List.Perm.of_eq ?_)
    rw [List.flatMap_def, List.flatMap_def, List.map_congr_left hfilter]

/-- The parts, one by one. -/
structure Shape (parts : List Part) (kind source : Part) (languages binaries : List Part) :
    Prop where
  perm : parts.Perm (kind :: source :: (languages ++ binaries))
  kind : kind.IsText .executionKind
  source : source.IsFile .source
  languages : ∀ part ∈ languages, part.IsText .language
  binaries : ∀ part ∈ binaries, part.IsFile .binary

section Shapes
variable {parts languages binaries : List Part} {kind source : Part} {name : PartName}

theorem Shape.texts (h : Shape parts kind source languages binaries) (name : PartName) :
    (parts.filter fun part => part.IsText name).Perm
      (if name = .executionKind then [kind] else if name = .language then languages else []) := by
  refine (h.perm.filter _).trans (List.Perm.of_eq ?_)
  have hbinaries : binaries.filter (fun part => decide (part.IsText name)) = [] :=
    List.filter_eq_nil_iff.mpr fun part hpart => by simpa using (h.binaries part hpart).not_isText
  have hlanguages : languages.filter (fun part => decide (part.IsText name)) =
      if name = .language then languages else [] := by
    split_ifs with hname
    · exact List.filter_eq_self.mpr fun part hpart => by simpa [hname] using h.languages part hpart
    · refine List.filter_eq_nil_iff.mpr fun part hpart => ?_
      simpa [(h.languages part hpart).iff] using Ne.symm hname
  rw [List.filter_cons, List.filter_cons, List.filter_append, hbinaries, hlanguages]
  cases name <;> simp [h.kind.iff, h.source.not_isText]

theorem Shape.files (h : Shape parts kind source languages binaries) (name : PartName) :
    (parts.filter fun part => part.IsFile name).Perm
      (if name = .source then [source] else if name = .binary then binaries else []) := by
  refine (h.perm.filter _).trans (List.Perm.of_eq ?_)
  have hlanguages : languages.filter (fun part => decide (part.IsFile name)) = [] :=
    List.filter_eq_nil_iff.mpr fun part hpart => by simpa using (h.languages part hpart).not_isFile
  have hbinaries : binaries.filter (fun part => decide (part.IsFile name)) =
      if name = .binary then binaries else [] := by
    split_ifs with hname
    · exact List.filter_eq_self.mpr fun part hpart => by simpa [hname] using h.binaries part hpart
    · refine List.filter_eq_nil_iff.mpr fun part hpart => ?_
      simpa [(h.binaries part hpart).iff] using Ne.symm hname
  rw [List.filter_cons, List.filter_cons, List.filter_append, hlanguages, hbinaries]
  cases name <;> simp [h.source.iff, h.kind.not_isFile]

theorem Shape.names (h : Shape parts kind source languages binaries) :
    (parts.filterMap Part.fileOf?).Perm (.source :: binaries.map fun _ => .binary) := by
  refine (h.perm.filterMap _).trans (List.Perm.of_eq ?_)
  have hlanguages : languages.filterMap Part.fileOf? = [] :=
    List.filterMap_eq_nil_iff.mpr fun part hpart => (h.languages part hpart).fileOf?
  have hbinaries : binaries.filterMap Part.fileOf? = binaries.map fun _ => .binary := by
    rw [← List.filterMap_eq_map]
    exact List.filterMap_congr fun part hpart => (h.binaries part hpart).fileOf?
  rw [List.filterMap_cons, h.kind.fileOf?]
  dsimp only
  rw [List.filterMap_cons, h.source.fileOf?, List.filterMap_append, hlanguages, hbinaries]
  rfl

/-- The name of a part and whether it is a text. -/
def Part.named (part : Part) : Option PartName × Bool :=
  (PartName.of? part.formName, decide (part.filename = []))

theorem named_text {part : Part} : part.named = (some name, true) ↔ part.IsText name := by
  rw [Part.named, Prod.mk.injEq, of?_eq_some, decide_eq_true_iff]
  rfl

theorem named_file {part : Part} : part.named = (some name, false) ↔ part.IsFile name := by
  rw [Part.named, Prod.mk.injEq, of?_eq_some, decide_eq_false_iff_not]
  rfl

/-- Parts of which none is a text in place of a file. -/
theorem perm_of_readable (hreadable : ∀ part ∈ parts, part.Readable)
    (hsource : (parts.filter fun part => part.IsText .source) = [])
    (hbinary : (parts.filter fun part => part.IsText .binary) = []) :
    parts.Perm ((parts.filter fun part => part.IsText .executionKind) ++
      ((parts.filter fun part => part.IsFile .source) ++
        ((parts.filter fun part => part.IsText .language) ++
          (parts.filter fun part => part.IsFile .binary)))) := by
  have hperm : parts.Perm (([(some .executionKind, true), (some .source, false),
      (some .language, true), (some .binary, false)] : List (Option PartName × Bool)).flatMap
        fun key => parts.filter (Part.named · = key)) := by
    refine perm_flatMap_filter (by decide) fun part hpart => ?_
    obtain ⟨name, htext | hfile⟩ := (hreadable part hpart).kind
    · rw [named_text.mpr htext]
      cases name with
      | executionKind => decide
      | language => decide
      | source => exact absurd htext (by simpa using List.filter_eq_nil_iff.mp hsource part hpart)
      | binary => exact absurd htext (by simpa using List.filter_eq_nil_iff.mp hbinary part hpart)
    · rw [named_file.mpr hfile]
      rcases ((hreadable part hpart).file name hfile.fileOf?).1 with rfl | rfl <;> decide
  simpa only [List.flatMap_cons, List.flatMap_nil, List.append_nil, named_text, named_file]
    using hperm

end Shapes

section Check
variable {r : Reading} {kind : ExecutionKind} {language : Language} {source : UploadedFile}
  {content : List UInt8}

theorem index_ok {α : Type} {xs : List α} {i : ℕ} (h : i < xs.length) :
    index xs i = .ok (xs.get ⟨i, h⟩) := by
  rw [index, List.getElem?_eq_getElem h]
  rfl

theorem checkSource_ok : checkSource language source = .ok () ↔
    (∃ cs, source.content = Utf8.encode cs) ∧ 0 ∉ source.content ∧
      (sourceExtensions language = [] ∨ ∃ e ∈ sourceExtensions language,
        (ext source.filename).map Rune.toLower = ofString e) := by
  have hutf8 : source.content.toByteArray.validateUTF8 = true ↔
      ∃ cs, source.content = Utf8.encode cs := by
    rw [ByteArray.validateUTF8_eq_true_iff]
    constructor
    · rintro ⟨cs, hcs⟩
      exact ⟨cs, List.toByteArray_inj.mp hcs⟩
    · rintro ⟨cs, hcs⟩
      exact ⟨cs, congrArg List.toByteArray hcs⟩
  have hext : (0 < (sourceExtensions language).length ∧ (ext source.filename).map Rune.toLower ∉
      (sourceExtensions language).map ofString) ↔ ¬(sourceExtensions language = [] ∨
        ∃ e ∈ sourceExtensions language, (ext source.filename).map Rune.toLower = ofString e) := by
    rw [List.length_pos_iff, not_or, List.mem_map]
    exact and_congr Iff.rfl (not_congr (exists_congr fun e => and_congr Iff.rfl eq_comm))
  rw [← hutf8]
  unfold checkSource
  split_ifs with hvalid hnul hbad
  · simp_all
  · simp [hnul]
  · rw [hext] at hbad
    exact ⟨nofun, fun h => absurd h.2.2 hbad⟩
  · rw [hext, not_not] at hbad
    exact ⟨fun _ => ⟨by simpa using hvalid, hnul, hbad⟩, fun _ => rfl⟩

theorem isElf_iff : IsElf content ↔ 20 ≤ content.length ∧
    content.take 6 = [0x7F, 0x45, 0x4C, 0x46, 2, 1] ∧ content[18]? = some 0x3E ∧
      content[19]? = some 0 := by
  constructor
  · rintro ⟨middle, rest, hmiddle, rfl⟩
    refine ⟨?_, rfl, ?_, ?_⟩
    · simp only [List.length_append, List.length_cons, List.length_nil, hmiddle]
      omega
    · simp [hmiddle]
    · simp [List.getElem?_append, hmiddle]
  · rintro ⟨hlength, hmagic, hmachine, hhigh⟩
    refine ⟨(content.drop 6).take 12, content.drop 20, ?_, ?_⟩
    · rw [List.length_take, List.length_drop]
      omega
    obtain ⟨h18, hmachine⟩ := List.getElem?_eq_some_iff.mp hmachine
    obtain ⟨h19, hhigh⟩ := List.getElem?_eq_some_iff.mp hhigh
    calc content = content.take 6 ++ ((content.drop 6).take 12 ++ content.drop 18) := by
          rw [← List.drop_drop (i := 12) (j := 6), List.take_append_drop, List.take_append_drop]
      _ = _ := by
          rw [List.drop_eq_getElem_cons h18, List.drop_eq_getElem_cons h19, hmachine, hhigh, hmagic]
          simp only [List.append_assoc, List.cons_append, List.nil_append]

theorem checkElf_cases : IsElf content ∧ checkElf content = .ok () ∨
    ¬IsElf content ∧ checkElf content = .error invalidElf := by
  rw [isElf_iff]
  by_cases hlength : 20 ≤ content.length
  · have htake : ¬(content.take 20).length < 20 := by
      rw [List.length_take]
      omega
    have hindex (i : ℕ) (hi : i < 20) : index (content.take 20) i =
        .ok (content.get ⟨i, by omega⟩) := by
      rw [index, List.getElem?_take_of_lt hi, List.getElem?_eq_getElem (by omega)]
      rfl
    have hget (i : ℕ) (hi : i < 20) (b : UInt8) :
        content[i]? = some b ↔ content.get ⟨i, by omega⟩ = b := by
      rw [List.getElem?_eq_getElem (by omega), Option.some.injEq]
      rfl
    have hcheck : checkElf content = if content.take 6 ≠ [0x7F, 0x45, 0x4C, 0x46, 2, 1] ∨
        content.get ⟨18, by omega⟩ ≠ 0x3E ∨ content.get ⟨19, by omega⟩ ≠ 0 then
          .error invalidElf else .ok () := by
      unfold checkElf
      dsimp only
      rw [if_neg htake, hindex 18 (by decide), hindex 19 (by decide), List.take_take]
      rfl
    rw [hcheck, hget 18 (by decide), hget 19 (by decide)]
    split_ifs with hbad
    · exact .inr ⟨fun h => by tauto, rfl⟩
    · exact .inl ⟨⟨hlength, by tauto⟩, rfl⟩
  · refine .inr ⟨fun h => hlength h.1, ?_⟩
    have htake : (content.take 20).length < 20 := by
      rw [List.length_take]
      omega
    exact if_pos htake

theorem find?_bytes {α : Type} {name : α → String} {xs : List α} {text : List UInt8} {a : α}
    (hfind : ∀ a ∈ xs, (xs.find? fun x => bytes (name x) = bytes (name a)) = some a) :
    (xs.find? fun x => bytes (name x) = text) = some a ↔ a ∈ xs ∧ text = bytes (name a) := by
  constructor
  · intro h
    have hname := List.find?_some h
    exact ⟨List.mem_of_find?_eq_some h, (of_decide_eq_true hname).symm⟩
  · rintro ⟨ha, rfl⟩
    exact hfind a ha

theorem executionKinds_find? {text : List UInt8} :
    (executionKinds.find? fun kind => bytes kind.name = text) = some kind ↔
      text = bytes kind.name := by
  have hmem (kind : ExecutionKind) : kind ∈ executionKinds := by cases kind <;> decide
  rw [find?_bytes (by decide +kernel)]
  exact and_iff_right (hmem kind)

theorem nativeLanguages_find? {text : List UInt8} :
    (nativeLanguages.find? fun language => bytes language.name = text) = some language ↔
      language ∈ nativeLanguages ∧ text = bytes language.name :=
  find?_bytes (by decide +kernel)

theorem chooseLanguage_native : chooseLanguage r .native = .ok language ↔
    language ∈ nativeLanguages ∧ r.fields .language = [bytes language.name] := by
  unfold chooseLanguage
  rw [if_pos rfl]
  cases hfields : r.fields .language with
  | nil => exact ⟨nofun, fun h => nomatch h.2⟩
  | cons text rest =>
    cases rest with
    | cons _ _ => exact ⟨nofun, fun h => nomatch h.2⟩
    | nil =>
      rw [List.cons.injEq, and_iff_left rfl, ← nativeLanguages_find?]
      simp only [List.length_singleton, ne_eq, not_true_eq_false, if_false, index,
        List.getElem?_cons_zero]
      cases hfound : nativeLanguages.find? fun language => bytes language.name = text with
      | none => simp [hfound, bind, Except.bind]
      | some found => simp [hfound, bind, Except.bind]

theorem chooseLanguage_script (hkind : kind ≠ .native) : chooseLanguage r kind = .ok language ↔
    r.fields .language = [] ∧ language = scriptLanguage kind := by
  rw [chooseLanguage, if_neg hkind]
  split
  · next h => exact ⟨nofun, fun h' => absurd (List.length_eq_zero_iff.mpr h'.1) h⟩
  · next h =>
    rw [not_not, List.length_eq_zero_iff] at h
    rw [and_iff_right h, Except.ok.injEq, eq_comm]

theorem chooseArtifact_native {artifact : UploadedFile} :
    chooseArtifact r .native source = .ok artifact ↔ r.files .binary = some artifact := by
  rw [chooseArtifact, if_pos rfl]
  split
  · next hnone => simp [hnone]
  · next hsome => simp [hsome]

theorem chooseArtifact_script (hkind : kind ≠ .native) {artifact : UploadedFile} :
    chooseArtifact r kind source = .ok artifact ↔ r.files .binary = none ∧ artifact = source := by
  rw [chooseArtifact, if_neg hkind, ← Option.not_isSome_iff_eq_none]
  split
  · next hsome => exact ⟨nofun, fun h => absurd hsome h.1⟩
  · next hnone => rw [and_iff_right hnone, Except.ok.injEq, eq_comm]

theorem partCount_of_none {name : PartName} (h : r.files name = none) :
    r.partCount name = (r.fields name).length := by
  rw [Reading.partCount, h]
  rfl

theorem partCount_of_some {name : PartName} {file : UploadedFile}
    (h : r.files name = some file) : r.partCount name = (r.fields name).length + 1 := by
  rw [Reading.partCount, h]
  rfl

/-- The checks that a form of this kind passes. -/
structure Passes (r : Reading) (kind : ExecutionKind) (language : Language)
    (source artifact : UploadedFile) : Prop where
  kinds : r.fields .executionKind = [bytes kind.name]
  noText : r.fields .source = []
  file : r.files .source = some source
  binaries : r.partCount .binary ≤ 1
  chosen : chooseLanguage r kind = .ok language
  benchmarked : chooseArtifact r kind source = .ok artifact
  checked : checkSource language source = .ok ()
  elf : kind = .native → IsElf artifact.content

theorem checkForm_ok (hkind : r.files .executionKind = none) (hlanguage : r.files .language = none)
    {parsed : ParsedForm} : checkForm r = .ok parsed ↔
      ∃ kind language source artifact, Passes r kind language source artifact ∧
        parsed = ⟨kind, language, source.filename, source.content, artifact.content,
          artifact.digest⟩ := by
  constructor
  · intro h
    unfold checkForm at h
    split_ifs at h with hcounts
    rw [partCount_of_none hkind, partCount_of_none hlanguage] at hcounts
    obtain ⟨text, htext, h⟩ := Fallible.bind_eq_ok.mp h
    have hfield : r.fields .executionKind = [text] := by
      obtain ⟨a, ha⟩ := List.length_eq_one_iff.mp (not_not.mp (not_or.mp hcounts).1)
      rw [ha] at htext ⊢
      rw [Except.ok.inj htext]
    split at h
    · contradiction
    next kind hfind =>
    obtain rfl := executionKinds_find?.mp hfind
    obtain ⟨language, hchosen, h⟩ := Fallible.bind_eq_ok.mp h
    split at h
    · contradiction
    next source hsource =>
    rw [partCount_of_some hsource] at hcounts
    obtain ⟨artifact, hartifact, h⟩ := Fallible.bind_eq_ok.mp h
    obtain ⟨_, hchecked, h⟩ := Fallible.bind_eq_ok.mp h
    refine ⟨kind, language, source, artifact, ⟨hfield, ?_, hsource, by omega, hchosen, hartifact,
      hchecked, ?_⟩, ?_⟩
    · exact List.length_eq_zero_iff.mp (by omega)
    all_goals split_ifs at h with hnative
    · obtain ⟨_, helf, _⟩ := Fallible.bind_eq_ok.mp h
      intro _
      rcases checkElf_cases with ⟨hisElf, _⟩ | ⟨_, herror⟩
      · exact hisElf
      · rw [herror] at helf
        contradiction
    · exact fun h' => absurd h' hnative
    · obtain ⟨_, _, h⟩ := Fallible.bind_eq_ok.mp h
      exact (Except.ok.inj h).symm
    · exact (Except.ok.inj h).symm
  · rintro ⟨kind, language, source, artifact, h, rfl⟩
    have hlanguages : (r.fields .language).length ≤ 1 := by
      rcases eq_or_ne kind .native with rfl | hscript
      · rw [(chooseLanguage_native.mp h.chosen).2]
        exact le_rfl
      · rw [((chooseLanguage_script hscript).mp h.chosen).1]
        exact Nat.zero_le 1
    have hcounts : ¬(r.partCount .executionKind ≠ 1 ∨ 1 < r.partCount .language ∨
        r.partCount .source ≠ 1 ∨ 1 < r.partCount .binary) := by
      rw [partCount_of_none hkind, partCount_of_none hlanguage, partCount_of_some h.file,
        h.kinds, h.noText]
      have hbinary := h.binaries
      simp only [List.length_cons, List.length_nil]
      omega
    unfold checkForm
    rw [if_neg hcounts, h.kinds]
    refine Fallible.bind_eq_ok.mpr ⟨bytes kind.name, rfl, ?_⟩
    rw [executionKinds_find?.mpr rfl]
    dsimp only
    rw [h.chosen, h.file]
    change (chooseArtifact r kind source >>= _) = _
    rw [h.benchmarked]
    change (checkSource language source >>= _) = _
    rw [h.checked]
    change (if kind = .native then _ else _) = Except.ok _
    split_ifs with hnative
    · rcases checkElf_cases with ⟨_, hok⟩ | ⟨hnot, _⟩
      · rw [hok]
        rfl
      · exact absurd (h.elf hnative) hnot
    · rfl

theorem of_parseUpload_ok {sha256 : List UInt8 → String} {request : UploadRequest}
    {parsed : ParsedForm} (h : (parseUpload sha256 request).result = .ok parsed) :
    AreReadable request.parts ∧ checkForm (.of sha256 request.parts) = .ok parsed := by
  unfold parseUpload at h
  split at h
  · contradiction
  split_ifs at h
  split at h
  · contradiction
  next r hr =>
  obtain ⟨hreadable, rfl⟩ := foldlM_readPart.mp hr
  exact ⟨hreadable, h⟩

theorem parseUpload_ok {sha256 : List UInt8 → String} {request : UploadRequest}
    (h : request.IsMultipart) {parsed : ParsedForm} :
    (parseUpload sha256 request).result = .ok parsed ↔ AreReadable request.parts ∧
      checkForm (.of sha256 request.parts) = .ok parsed := by
  refine ⟨of_parseUpload_ok, fun ⟨hreadable, hform⟩ => ?_⟩
  obtain ⟨mediaType, boundary, htype, hmedia, hboundary⟩ := h.contentType
  unfold parseUpload
  rw [htype]
  dsimp only
  rw [if_neg (not_not.mpr hmedia), if_neg hboundary, h.nonempty, if_neg Bool.false_ne_true,
    foldlM_readPart.mpr ⟨hreadable, rfl⟩]
  exact hform

theorem AreReadable.files_eq_none {sha256 : List UInt8 → String} {parts : List Part}
    (h : AreReadable parts) {name : PartName} (hname : name ≠ .source ∧ name ≠ .binary) :
    (Reading.of sha256 parts).files name = none := by
  rw [Reading.of_files_eq_none]
  intro hmem
  obtain ⟨part, hpart, hof⟩ := List.mem_filterMap.mp hmem
  rcases ((h.readable part hpart).file name hof).1 with rfl | rfl
  · exact hname.1 rfl
  · exact hname.2 rfl

end Check

section Forms
variable {sha256 : List UInt8 → String} {parts : List Part} {name : PartName}
  {kind : ExecutionKind} {language : Language} {source artifact file : UploadedFile}

theorem AreReadable.file_eq (h : AreReadable parts)
    (hfile : (Reading.of sha256 parts).files name = some file) :
    ∃ part, (parts.filter fun part => part.IsFile name) = [part] ∧ file = part.file sha256 := by
  obtain ⟨part, hlast, rfl⟩ := Option.map_eq_some_iff.mp hfile
  refine ⟨part, ?_, rfl⟩
  have hpairwise := (List.pairwise_filterMap.mp h.nodup).sublist
    (List.filter_sublist (p := fun part => decide (part.IsFile name)))
  have hmem : ∀ p ∈ parts.filter (fun part => decide (part.IsFile name)), p.IsFile name :=
    fun p hp => of_decide_eq_true (List.mem_filter.mp hp).2
  match hparts : parts.filter (fun part => decide (part.IsFile name)) with
  | [] =>
    rw [hparts] at hlast
    contradiction
  | [p] =>
    rw [hparts] at hlast
    obtain rfl : p = part := Option.some.inj hlast
    exact hparts
  | p :: p' :: rest =>
    rw [hparts] at hpairwise hmem
    have hp := (hmem p List.mem_cons_self).fileOf?
    have hp' := (hmem p' (List.mem_cons_of_mem _ List.mem_cons_self)).fileOf?
    exact absurd rfl ((List.pairwise_cons.mp hpairwise).1 p' List.mem_cons_self _ hp _ hp')

theorem field_eq {content : List UInt8} (h : (Reading.of sha256 parts).fields name = [content]) :
    ∃ part, (parts.filter fun part => part.IsText name) = [part] ∧ part.content = content := by
  obtain ⟨part, hpart, rfl⟩ := List.map_eq_singleton_iff.mp h
  exact ⟨part, hpart, rfl⟩

theorem files_of : (Reading.of sha256 parts).files name =
    ((parts.filter fun part => part.IsFile name).getLast?).map (Part.file sha256) := rfl

theorem fields_eq_nil : (Reading.of sha256 parts).fields name = [] ↔
    (parts.filter fun part => part.IsText name) = [] := List.map_eq_nil_iff

theorem mem_of_filter {p : Part → Bool} {part : Part} (h : parts.filter p = [part]) :
    part ∈ parts ∧ p part = true :=
  List.mem_filter.mp (h ▸ List.mem_singleton_self part)

theorem isSource_of_checked (hreadable : AreReadable parts) {part : Part} (hpart : part ∈ parts)
    (hfile : part.IsFile .source) (h : checkSource language (part.file sha256) = .ok ()) :
    part.IsSource language := by
  obtain ⟨hutf8, hnul, hext⟩ := checkSource_ok.mp h
  obtain ⟨_, hnamed, hsize⟩ := (hreadable.readable part hpart).file _ hfile.fileOf?
  exact ⟨hfile, hnamed, hsize, hutf8, hnul, hext⟩

theorem form_of_passes (hreadable : AreReadable parts) (hno : ¬BinaryText parts)
    (h : Passes (.of sha256 parts) kind language source artifact) :
    Form (fun part => part.IsBinary ∧ part.WellNamed) parts := by
  obtain ⟨k, hk, hkind⟩ := field_eq h.kinds
  obtain ⟨s, hs, rfl⟩ := hreadable.file_eq h.file
  have hktext : k.IsText .executionKind := of_decide_eq_true (mem_of_filter hk).2
  have hsfile : s.IsFile .source := of_decide_eq_true (mem_of_filter hs).2
  have hnoText := fields_eq_nil.mp h.noText
  rcases eq_or_ne kind .native with rfl | hscript
  · obtain ⟨hlanguage, hfield⟩ := chooseLanguage_native.mp h.chosen
    obtain ⟨l, hl, hltext⟩ := field_eq hfield
    have hbinary := chooseArtifact_native.mp h.benchmarked
    obtain ⟨b, hb, rfl⟩ := hreadable.file_eq hbinary
    have hbfile : b.IsFile .binary := of_decide_eq_true (mem_of_filter hb).2
    have hnoBinary : (Reading.of sha256 parts).fields .binary = [] := by
      have hcount := h.binaries
      rw [partCount_of_some hbinary] at hcount
      exact List.length_eq_zero_iff.mp (by omega)
    have hperm := perm_of_readable hreadable.readable hnoText (fields_eq_nil.mp hnoBinary)
    rw [hk, hl, hs, hb] at hperm
    obtain ⟨_, hnamed, hsize⟩ :=
      (hreadable.readable b (mem_of_filter hb).1).file _ hbfile.fileOf?
    refine .native k l s b language ⟨hktext, hkind⟩ hlanguage
      ⟨of_decide_eq_true (mem_of_filter hl).2, hltext⟩
      (isSource_of_checked hreadable (mem_of_filter hs).1 hsfile h.checked)
      ⟨⟨hbfile, hsize, h.elf rfl⟩, hnamed⟩ (hperm.trans ?_)
    exact List.Perm.cons _ (List.Perm.swap _ _ _)
  · obtain ⟨hfield, rfl⟩ := (chooseLanguage_script hscript).mp h.chosen
    obtain ⟨hnone, rfl⟩ := (chooseArtifact_script hscript).mp h.benchmarked
    -- a text in place of the executable would not be noticed
    have hfiles : (parts.filter fun part => part.IsFile .binary) = [] :=
      List.getLast?_eq_none_iff.mp (Option.map_eq_none_iff.mp hnone)
    have hnoBinary : (parts.filter fun part => part.IsText .binary) = [] := by
      by_contra hne
      have hcount := h.binaries
      have hlength : ((Reading.of sha256 parts).fields .binary).length =
          (parts.filter fun part => part.IsText .binary).length := List.length_map ..
      rw [partCount_of_none hnone, hlength] at hcount
      obtain ⟨b, hb⟩ := List.length_eq_one_iff.mp
        (Nat.le_antisymm hcount (List.length_pos_of_ne_nil hne))
      obtain ⟨hbmem, hbtext⟩ := mem_of_filter hb
      refine hno ⟨⟨k, (mem_of_filter hk).1, hktext, kind, hscript, hkind⟩, ?_, b, hb,
        (hreadable.readable b hbmem).text (of_decide_eq_true hbtext : b.IsText .binary).2⟩
      simpa using List.filter_eq_nil_iff.mp hfiles
    have hperm := perm_of_readable hreadable.readable hnoText hnoBinary
    rw [hk, fields_eq_nil.mp hfield, hs, hfiles] at hperm
    exact .script k s kind hscript ⟨hktext, hkind⟩
      (isSource_of_checked hreadable (mem_of_filter hs).1 hsfile h.checked) hperm

theorem readable_of_text {part : Part} (hheader : multipartHeaderSize part.header ≤ 4 * 1024)
    (h : part.IsText name) (hshort : part.content.length ≤ 64) : part.Readable := by
  refine ⟨hheader, ⟨name, of?_eq_some.mpr h.1⟩, fun _ => hshort, fun other hother => ?_⟩
  rw [h.fileOf?] at hother
  contradiction

theorem readable_of_file {part : Part} (hheader : multipartHeaderSize part.header ≤ 4 * 1024)
    (h : part.IsFile name) (hname : name = .source ∨ name = .binary) (hnamed : part.WellNamed)
    (hsize : part.content.length ≤ fileLimit name) : part.Readable := by
  refine ⟨hheader, ⟨name, of?_eq_some.mpr h.1⟩, fun htext => absurd htext h.2, ?_⟩
  intro other hother
  obtain rfl : name = other := Option.some.inj (h.fileOf?.symm.trans hother)
  exact ⟨hname, hnamed, hsize⟩

section Accepted
variable {k s : Part} {languages binaries : List Part}

theorem Shape.areReadable (h : Shape parts k s languages binaries)
    (hlength : languages.length ≤ 1 ∧ binaries.length ≤ 1) (hk : k.Readable) (hs : s.Readable)
    (hlanguages : ∀ part ∈ languages, part.Readable)
    (hbinaries : ∀ part ∈ binaries, part.Readable) : AreReadable parts := by
  constructor
  · rw [h.perm.length_eq, List.length_cons, List.length_cons, List.length_append]
    omega
  · intro part hpart
    rcases List.mem_cons.mp (h.perm.mem_iff.mp hpart) with rfl | hpart
    · exact hk
    rcases List.mem_cons.mp hpart with rfl | hpart
    · exact hs
    rcases List.mem_append.mp hpart with hpart | hpart
    · exact hlanguages part hpart
    · exact hbinaries part hpart
  · rw [h.names.nodup_iff, List.nodup_cons]
    refine ⟨by simp, ?_⟩
    rw [List.map_const', List.nodup_replicate]
    exact hlength.2
  · rw [h.names.length_eq, List.length_cons, List.length_map]
    omega

theorem Shape.fields (h : Shape parts k s languages binaries) (name : PartName) :
    ((Reading.of sha256 parts).fields name).Perm
      ((if name = .executionKind then [k] else if name = .language then languages else []).map
        Part.content) :=
  (h.texts name).map _

theorem Shape.sourceFile (h : Shape parts k s languages binaries) :
    (Reading.of sha256 parts).files .source = some (s.file sha256) := by
  rw [files_of, List.perm_singleton.mp (h.files .source)]
  rfl

/-- The variables after parts of such a shape pass the checks that the parts pass. -/
theorem Shape.passes (h : Shape parts k s languages binaries) (hkind : k.content = bytes kind.name)
    (hchosen : chooseLanguage (.of sha256 parts) kind = .ok language)
    (hartifact : chooseArtifact (.of sha256 parts) kind (s.file sha256) = .ok artifact)
    (hsource : s.IsSource language) (helf : kind = .native → IsElf artifact.content) :
    Passes (.of sha256 parts) kind language (s.file sha256) artifact := by
  refine ⟨?_, ?_, h.sourceFile, ?_, hchosen, hartifact, ?_, helf⟩
  · have hfields : (Reading.of sha256 parts).fields .executionKind = [k.content] :=
      List.perm_singleton.mp (h.fields .executionKind)
    rw [hfields, hkind]
  · exact List.perm_nil.mp (h.fields .source)
  · have hfields : (Reading.of sha256 parts).fields .binary = [] :=
      List.perm_nil.mp (h.fields .binary)
    rw [Reading.partCount, hfields]
    split <;> decide
  · exact checkSource_ok.mpr ⟨hsource.utf8, hsource.noNul, hsource.extension⟩

end Accepted

theorem bytes_short : (∀ kind ∈ executionKinds, (bytes kind.name).length ≤ 64) ∧
    ∀ language ∈ nativeLanguages, (bytes language.name).length ≤ 64 := by
  decide +kernel

theorem mem_executionKinds (kind : ExecutionKind) : kind ∈ executionKinds := by
  cases kind <;> decide

theorem passes_of_form (hheaders : ∀ part ∈ parts, multipartHeaderSize part.header ≤ 4 * 1024)
    (h : Form (fun part => part.IsBinary ∧ part.WellNamed) parts) : AreReadable parts ∧
      ∃ kind language source artifact,
        Passes (.of sha256 parts) kind language source artifact := by
  have hsourceReadable {s : Part} {language : Language} (hs : s ∈ parts)
      (h : s.IsSource language) : s.Readable :=
    readable_of_file (hheaders s hs) h.file (.inl rfl) h.named h.size
  cases h with
  | native k l s b language hkind hlanguage hchoice hsource hbinary hparts =>
    have hshape : Shape parts k s [l] [b] := by
      refine ⟨hparts.trans (List.Perm.cons _ (List.Perm.swap _ _ _)), hkind.1, hsource.file, ?_, ?_⟩
      · exact List.forall_mem_singleton.mpr hchoice.1
      · exact List.forall_mem_singleton.mpr hbinary.1.file
    have hmem {p : Part} (hp : p ∈ [k, l, s, b]) : p ∈ parts := hparts.mem_iff.mpr hp
    have hk : k.content.length ≤ 64 := by
      rw [hkind.2]
      exact bytes_short.1 .native (mem_executionKinds _)
    have hl : l.content.length ≤ 64 := by
      rw [hchoice.2]
      exact bytes_short.2 language hlanguage
    refine ⟨hshape.areReadable ⟨le_rfl, le_rfl⟩
      (readable_of_text (hheaders k (hmem (by simp))) hkind.1 hk)
      (hsourceReadable (hmem (by simp)) hsource)
      (List.forall_mem_singleton.mpr
        (readable_of_text (hheaders l (hmem (by simp))) hchoice.1 hl))
      (List.forall_mem_singleton.mpr (readable_of_file (hheaders b (hmem (by simp)))
        hbinary.1.file (.inr rfl) hbinary.2 hbinary.1.size)), ?_⟩
    refine ⟨.native, language, _, b.file sha256, hshape.passes hkind.2 ?_ ?_ hsource
      fun _ => hbinary.1.elf⟩
    · have hfields : (Reading.of sha256 parts).fields .language = [l.content] :=
        List.perm_singleton.mp (hshape.fields .language)
      rw [chooseLanguage_native, hfields, hchoice.2]
      exact ⟨hlanguage, rfl⟩
    · rw [chooseArtifact_native, files_of, List.perm_singleton.mp (hshape.files .binary)]
      rfl
  | script k s kind hscript hkind hsource hparts =>
    have hshape : Shape parts k s [] [] :=
      ⟨hparts, hkind.1, hsource.file, List.forall_mem_nil _, List.forall_mem_nil _⟩
    have hmem {p : Part} (hp : p ∈ [k, s]) : p ∈ parts := hparts.mem_iff.mpr hp
    have hk : k.content.length ≤ 64 := by
      rw [hkind.2]
      exact bytes_short.1 kind (mem_executionKinds _)
    refine ⟨hshape.areReadable ⟨zero_le_one, zero_le_one⟩
      (readable_of_text (hheaders k (hmem (by simp))) hkind.1 hk)
      (hsourceReadable (hmem (by simp)) hsource) (List.forall_mem_nil _)
      (List.forall_mem_nil _), ?_⟩
    refine ⟨kind, scriptLanguage kind, _, s.file sha256, hshape.passes hkind.2 ?_ ?_
      hsource fun h => absurd h hscript⟩
    · rw [chooseLanguage_script hscript]
      exact ⟨List.perm_nil.mp (hshape.fields .language), rfl⟩
    · rw [chooseArtifact_script hscript, files_of, List.perm_nil.mp (hshape.files .binary)]
      exact ⟨rfl, rfl⟩

theorem form_iff {request : UploadRequest} (hmultipart : request.IsMultipart)
    (hno : ¬BinaryText request.parts) :
    (∃ parsed, (parseUpload sha256 request).result = .ok parsed) ↔
      Form (fun part => part.IsBinary ∧ part.WellNamed) request.parts := by
  simp only [parseUpload_ok hmultipart]
  constructor
  · rintro ⟨parsed, hreadable, h⟩
    obtain ⟨kind, language, source, artifact, hpasses, _⟩ := (checkForm_ok
      (hreadable.files_eq_none (by decide)) (hreadable.files_eq_none (by decide))).mp h
    exact form_of_passes hreadable hno hpasses
  · intro h
    obtain ⟨hreadable, kind, language, source, artifact, hpasses⟩ :=
      passes_of_form hmultipart.headers h
    exact ⟨_, hreadable, (checkForm_ok (hreadable.files_eq_none (by decide))
      (hreadable.files_eq_none (by decide))).mpr ⟨kind, language, source, artifact, hpasses, rfl⟩⟩

theorem digest_of_parseUpload {request : UploadRequest} {parsed : ParsedForm}
    (h : (parseUpload sha256 request).result = .ok parsed) :
    ∃ part ∈ request.parts, part.IsFile (if parsed.kind = .native then .binary else .source) ∧
      parsed.artifactDigest = sha256 part.content := by
  obtain ⟨hreadable, hform⟩ := of_parseUpload_ok h
  obtain ⟨kind, language, source, artifact, hpasses, rfl⟩ := (checkForm_ok
    (hreadable.files_eq_none (by decide)) (hreadable.files_eq_none (by decide))).mp hform
  have hfile : (Reading.of sha256 request.parts).files
      (if kind = .native then .binary else .source) = some artifact := by
    split_ifs with hkind
    · obtain rfl := hkind
      exact chooseArtifact_native.mp hpasses.benchmarked
    · rw [((chooseArtifact_script hkind).mp hpasses.benchmarked).2]
      exact hpasses.file
  obtain ⟨part, hpart, rfl⟩ := hreadable.file_eq hfile
  exact ⟨part, (mem_of_filter hpart).1, of_decide_eq_true (mem_of_filter hpart).2, rfl⟩

theorem directory_removed {request : UploadRequest} {storeSource upload queueUpload : Bool} :
    (acceptSubmission (parseUpload sha256 request) storeSource upload queueUpload).directory =
      false := by
  have hparse : ((parseUpload sha256 request).directory &&
      !(parseUpload sha256 request).returned) = false := by
    unfold parseUpload
    split
    · rfl
    split_ifs
    · rfl
    · rfl
    · rfl
    split <;> rfl
  unfold acceptSubmission
  split <;> exact hparse

end Forms

/-- The computation does not panic. -/
def Safe {α : Type} (x : Except UploadError α) : Prop := x ≠ .error .indexOutOfRange

section Safety
variable {α β : Type} {sha256 : List UInt8 → String} {r : Reading} {parts : List Part}

theorem Safe.ok {a : α} : Safe (.ok a : Except UploadError α) := nofun

theorem Safe.badRequest {code message : String} :
    Safe (.error (badRequest code message) : Except UploadError α) := nofun

theorem Safe.invalidFile {name : PartName} :
    Safe (.error (invalidFile name) : Except UploadError α) := by
  unfold Server.invalidFile
  split_ifs <;> exact Safe.badRequest

theorem Safe.bind {x : Except UploadError α} {f : α → Except UploadError β} (hx : Safe x)
    (hf : ∀ a, x = .ok a → Safe (f a)) : Safe (x >>= f) := by
  cases x with
  | error error => exact fun h => hx (congrArg _ (Except.error.inj h))
  | ok a => exact hf a rfl

theorem Safe.ite {p : Prop} [Decidable p] {x y : Except UploadError α} (hx : p → Safe x)
    (hy : ¬p → Safe y) : Safe (if p then x else y) := by
  split_ifs with h
  · exact hx h
  · exact hy h

theorem Safe.index {xs : List α} {i : ℕ} (h : i < xs.length) : Safe (index xs i) := by
  rw [index_ok h]
  exact Safe.ok

theorem sanitizeFilename_safe {filename : List Rune} : Safe (sanitizeFilename filename) :=
  Safe.ite (fun _ => Safe.badRequest) fun _ =>
    Safe.ite (fun _ => Safe.badRequest) fun _ => Safe.ok

theorem readPart_safe {part : Part} : Safe (readPart sha256 r part) := by
  refine Safe.ite (fun _ => Safe.badRequest) fun _ => ?_
  refine Safe.ite (fun _ => Safe.badRequest) fun _ => ?_
  split
  · exact Safe.badRequest
  refine Safe.ite (fun _ => ?_) fun _ => ?_
  · exact Safe.ite (fun _ => Safe.badRequest) fun _ => Safe.ok
  refine Safe.ite (fun _ => Safe.badRequest) fun _ => ?_
  refine Safe.ite (fun _ => Safe.badRequest) fun _ => ?_
  refine Safe.ite (fun _ => Safe.badRequest) fun _ => ?_
  exact Safe.bind sanitizeFilename_safe fun _ _ =>
    Safe.ite (fun _ => Safe.invalidFile) fun _ => Safe.ok

theorem foldlM_readPart_safe : Safe (parts.foldlM (readPart sha256) r) := by
  induction parts generalizing r with
  | nil => exact Safe.ok
  | cons part parts ih =>
    rw [List.foldlM_cons]
    exact readPart_safe.bind fun _ _ => ih

theorem checkElf_safe {content : List UInt8} : Safe (checkElf content) := by
  rcases checkElf_cases with ⟨_, h⟩ | ⟨_, h⟩
  · rw [h]
    exact Safe.ok
  · rw [h]
    exact Safe.badRequest

theorem chooseLanguage_safe {kind : ExecutionKind} : Safe (chooseLanguage r kind) := by
  refine Safe.ite (fun _ => ?_) fun _ => Safe.ite (fun _ => Safe.badRequest) fun _ => Safe.ok
  refine Safe.ite (fun _ => Safe.invalidFile) fun hone => ?_
  refine (Safe.index (by omega)).bind fun text _ => ?_
  split
  · exact Safe.invalidFile
  · exact Safe.ok

/-- The counts let the first field be read, as no file is kept under its name. -/
theorem checkForm_safe (hkind : r.files .executionKind = none) : Safe (checkForm r) := by
  refine Safe.ite (fun _ => Safe.badRequest) fun hcounts => ?_
  rw [partCount_of_none hkind] at hcounts
  refine (Safe.index (by omega)).bind fun text _ => ?_
  split
  · exact Safe.badRequest
  refine chooseLanguage_safe.bind fun language _ => ?_
  split
  · exact Safe.invalidFile
  refine Safe.bind ?_ fun artifact _ => Safe.bind ?_ fun _ _ => ?_
  · refine Safe.ite (fun _ => ?_) fun _ => Safe.ite (fun _ => Safe.badRequest) fun _ => Safe.ok
    split
    · exact Safe.invalidFile
    · exact Safe.ok
  · refine Safe.ite (fun _ => Safe.badRequest) fun _ => ?_
    exact Safe.ite (fun _ => Safe.badRequest) fun _ =>
      Safe.ite (fun _ => Safe.badRequest) fun _ => Safe.ok
  · exact Safe.ite (fun _ => checkElf_safe.bind fun _ _ => Safe.ok) fun _ => Safe.ok

theorem parseUpload_safe {request : UploadRequest} :
    Safe (parseUpload sha256 request).result := by
  unfold parseUpload
  split
  · exact Safe.badRequest
  split_ifs
  · exact Safe.badRequest
  · exact Safe.badRequest
  · exact Safe.badRequest
  split
  · next error herror =>
    have hsafe : Safe (request.parts.foldlM (readPart sha256) .start) := foldlM_readPart_safe
    rw [herror] at hsafe
    exact fun h => hsafe (congrArg _ (Except.error.inj h))
  · next r hr =>
    obtain ⟨hreadable, rfl⟩ := foldlM_readPart.mp hr
    exact checkForm_safe (hreadable.files_eq_none (by decide))

end Safety

/-- The executable has to be well named too. -/
theorem acceptsForms : AcceptsForms (Form fun part => part.IsBinary ∧ part.WellNamed)
    (fun parts => ¬BinaryText parts) where
  accepts := form_iff
  digest := digest_of_parseUpload
  removed _ := directory_removed
  inRange := parseUpload_safe

/-- The executable's name is a control character. -/
def unnamedExecutable : List Part :=
  [⟨[], ofString "executionKind", [], bytes "native"⟩,
    ⟨[], ofString "language", [], bytes "c"⟩,
    ⟨[], ofString "source", ofString "a.c", bytes "x"⟩,
    ⟨[], ofString "binary", [.char '\x01'],
      [0x7F, 0x45, 0x4C, 0x46, 2, 1] ++ List.replicate 12 0 ++ [0x3E, 0]⟩]

theorem unnamedExecutable_isSource :
    (⟨[], ofString "source", ofString "a.c", bytes "x"⟩ : Part).IsSource .c where
  file := ⟨rfl, by decide⟩
  named := ⟨by decide +kernel, by decide +kernel, by decide +kernel⟩
  size := by decide +kernel
  utf8 := ⟨_, rfl⟩
  noNul := by decide +kernel
  extension := .inr ⟨".c", by decide, by decide +kernel⟩

/-- The control character is refused. -/
theorem not_accepts_unnamed {considered : List Part → Prop} (hall : considered unnamedExecutable) :
    ¬AcceptsForms (Form Part.IsBinary) considered := by
  intro h
  have hmultipart : UploadRequest.IsMultipart
      ⟨some ("multipart/form-data", "b"), false, unnamedExecutable⟩ :=
    ⟨⟨_, _, rfl, by decide +kernel, by decide⟩, rfl, by decide⟩
  have hform : Form Part.IsBinary unnamedExecutable :=
    .native _ _ _ _ .c ⟨⟨rfl, rfl⟩, rfl⟩ (by decide) ⟨⟨rfl, rfl⟩, rfl⟩ unnamedExecutable_isSource
      ⟨⟨rfl, by decide⟩, by decide +kernel, ⟨_, [], List.length_replicate, rfl⟩⟩ (.refl _)
  obtain ⟨parsed, hok⟩ : ∃ parsed, (parseUpload (fun _ => "") _).result = .ok parsed :=
    (h.accepts hmultipart hall).mpr hform
  have hbinary := ((of_parseUpload_ok hok).1.readable (unnamedExecutable.get ⟨3, by decide⟩)
    (List.get_mem _ _)).file .binary (Part.IsFile.fileOf? ⟨rfl, by decide⟩)
  exact absurd (hbinary.2.1.printable (.char '\x01') (by decide +kernel)) (by decide)

/-- A Ruby program with a text part in place of an executable. -/
def textExecutable : List Part :=
  [⟨[], ofString "executionKind", [], bytes "ruby"⟩,
    ⟨[], ofString "source", ofString "a.rb", bytes "x"⟩,
    ⟨[], ofString "binary", [], bytes "x"⟩]

/-- Neither change of the forms is enough alone: a name that is a control character is refused, and
a text part that no form has is accepted. -/
theorem not_acceptsForms : ¬AcceptsForms (Form Part.IsBinary) (fun _ => True) ∧
    (¬AcceptsForms (Form Part.IsBinary) fun parts => ¬BinaryText parts) ∧
    ¬AcceptsForms (Form fun part => part.IsBinary ∧ part.WellNamed) fun _ => True := by
  refine ⟨not_accepts_unnamed trivial, not_accepts_unnamed fun h => ?_, fun h => ?_⟩
  · exact h.noFile (unnamedExecutable.get ⟨3, by decide⟩) (List.get_mem _ _) ⟨rfl, by decide⟩
  have hmultipart : UploadRequest.IsMultipart
      ⟨some ("multipart/form-data", "b"), false, textExecutable⟩ :=
    ⟨⟨_, _, rfl, by decide +kernel, by decide⟩, rfl, by decide⟩
  have hok : (parseUpload (fun _ => "") ⟨some ("multipart/form-data", "b"), false,
      textExecutable⟩).result.toOption.isSome = true := by
    decide +kernel
  obtain ⟨parsed, hparsed⟩ : ∃ parsed, (parseUpload (fun _ => "")
      ⟨some ("multipart/form-data", "b"), false, textExecutable⟩).result = .ok parsed := by
    revert hok
    cases (parseUpload (fun _ => "")
      ⟨some ("multipart/form-data", "b"), false, textExecutable⟩).result with
    | ok parsed => exact fun _ => ⟨parsed, rfl⟩
    | error => exact nofun
  have hlength : textExecutable.length = 3 := rfl
  cases (h.accepts hmultipart trivial).mp ⟨parsed, hparsed⟩ with
  | native _ _ _ _ _ _ _ _ _ _ hparts =>
    rw [hparts.length_eq] at hlength
    simp at hlength
  | script _ _ _ _ _ _ hparts =>
    rw [hparts.length_eq] at hlength
    simp at hlength

end OneBrc.Server
