import OneBrc.Data.ContestFiles
import OneBrc.Server.ManifestSchema

/-! Generated contest data is importable: the server accepts its manifest, and the runner's files
are those of the manifest. -/
namespace OneBrc.Data
open Lib Analyzer Server

/-- `selectRunnerArtifacts`: the greatest number of rows of an input in a scope. -/
def rowsByScope (artifacts : List Artifact) (isPublic : Bool) : Int64 :=
  artifacts.foldl (fun rows item =>
    if item.kind = "input" ∧ item.isPublic = isPublic ∧ rows < item.rows then item.rows else rows) 0

structure Target where
  name : String
  kind : String
  isPublic : Bool
  rows : Int64

def Target.matches (target : Target) (item : Artifact) : Bool :=
  item.kind = target.kind && item.isPublic = target.isPublic && item.rows = target.rows

def targets (artifacts : List Artifact) : List Target :=
  [⟨"public.csv", "input", true, rowsByScope artifacts true⟩,
    ⟨"public.expected", "expected", true, rowsByScope artifacts true⟩,
    ⟨"private.csv", "input", false, rowsByScope artifacts false⟩,
    ⟨"private.expected", "expected", false, rowsByScope artifacts false⟩]

/-- The first artifact that matches; without one the object key is empty. -/
def selectArtifact (artifacts : List Artifact) (target : Target) :
    Except String (String × Artifact) :=
  match artifacts.find? target.matches with
  | none => .error ("manifest does not contain runner artifact " ++ target.name)
  | some item =>
      if item.objectKey = "" then
        .error ("manifest does not contain runner artifact " ++ target.name)
      else .ok (target.name, item)

/-- The map from the names of the files, in the order in which it is filled. -/
def selectRunnerArtifacts (manifest : Manifest) : Except String (List (String × Artifact)) :=
  if rowsByScope manifest.artifacts true = 0 ∨ rowsByScope manifest.artifacts false = 0 then
    .error "manifest must contain public and private input artifacts"
  else (targets manifest.artifacts).mapM (selectArtifact manifest.artifacts)

/-- The artifact as the server decodes it. -/
def Artifact.decoded (a : Artifact) : DatasetArtifact where
  id := a.id
  kind := a.kind
  label := a.label
  objectKey := a.objectKey
  rows := a.rows
  compressedBytes := a.compressedBytes
  uncompressedBytes := a.uncompressedBytes
  compressedSha256 := a.compressedSha256
  uncompressedSha256 := a.uncompressedSha256
  isPublic := a.isPublic

def Manifest.decoded (m : Manifest) : DatasetManifest where
  schemaVersion := m.schemaVersion
  contestId := m.contestId
  generatedAt := m.generatedAt
  generatorRevision := m.generatorRevision
  artifacts := m.artifacts.map Artifact.decoded

/-- `filepath.Base` of the object key. -/
def Artifact.baseName (a : Artifact) : List GoText.Rune := GoText.base (GoText.ofString a.objectKey)

section Slots

/-- An artifact of a manifest: its scope, its rows, and whether it is an input. -/
structure Slot where
  isPublic : Bool
  rows : Int64
  isInput : Bool

def Slot.kind (s : Slot) : String := if s.isInput then "input" else "expected"

def Slot.extension (s : Slot) : Extension := if s.isInput then .csv else .expected

/-- The label of the private dataset does not depend on its rows. -/
def Slot.label (s : Slot) : String := if s.isPublic then tierLabel s.rows else "1b"

def Slot.id (s : Slot) : String := scopeName s.isPublic ++ ("-" ++ (s.label ++ ("-" ++ s.kind)))

def Slot.title (s : Slot) : String :=
  (if s.isPublic then "Public " ++ s.label.toUpper else "Private 1B") ++ (" " ++ s.kind)

def GenerateOptions.slots (options : GenerateOptions) : List Slot :=
  options.tiers.flatMap (fun tier => [⟨true, tier, true⟩, ⟨true, tier, false⟩]) ++
    [⟨false, options.privateRows, true⟩, ⟨false, options.privateRows, false⟩]

variable (env : Environment) (options : GenerateOptions) (rows rows' : List Row)

/-- What is packaged for a slot. -/
def Slot.bytes (s : Slot) : Bytes :=
  let input := csv (if s.isPublic then tierRows rows s.rows else rows')
  if s.isInput then input else expectedOf env options.threads input

def Slot.artifact (s : Slot) : Artifact :=
  artifactOf env options.contestId s.id s.kind s.title s.rows s.isPublic
    (options.file s.isPublic s.rows s.extension) (s.bytes env options rows rows')

/-- The artifacts of the manifest, slot by slot. -/
theorem manifestOf_artifacts : (manifestOf env options rows rows').artifacts =
    options.slots.map (Slot.artifact env options rows rows') := by
  have hid (tier : Int64) (isInput : Bool) : Slot.id ⟨true, tier, isInput⟩ =
      "public-" ++ tierLabel tier ++ (if isInput then "-input" else "-expected") := by
    cases isInput <;> simp [Slot.id, Slot.label, Slot.kind, scopeName, ← String.toList_inj]
  have htitle (tier : Int64) (isInput : Bool) : Slot.title ⟨true, tier, isInput⟩ =
      "Public " ++ (tierLabel tier).toUpper ++ (if isInput then " input" else " expected") := by
    cases isInput <;> simp [Slot.title, Slot.label, Slot.kind]
  have htier (tier : Int64) : tierArtifacts env options tier (csv (tierRows rows tier)) =
      [(⟨true, tier, true⟩ : Slot).artifact env options rows rows',
        (⟨true, tier, false⟩ : Slot).artifact env options rows rows'] := by
    simp only [tierArtifacts, Slot.artifact, hid, htitle]
    rfl
  have hprivate : privateArtifacts env options (csv rows') =
      [(⟨false, options.privateRows, true⟩ : Slot).artifact env options rows rows',
        (⟨false, options.privateRows, false⟩ : Slot).artifact env options rows rows'] := rfl
  rw [manifestOf, hprivate, GenerateOptions.slots, List.map_append, List.map_flatMap]
  simp only [htier]
  rfl

end Slots

section Distinct
variable {options : GenerateOptions} {s s' : Slot}

theorem mem_slots : s ∈ options.slots ↔
    s.isPublic = true ∧ s.rows ∈ options.tiers ∨
      s.isPublic = false ∧ s.rows = options.privateRows := by
  obtain ⟨isPublic, rows, isInput⟩ := s
  rw [GenerateOptions.slots, List.mem_append, List.mem_flatMap]
  cases isPublic <;> cases isInput <;> simp [eq_comm]

theorem slots_pos (htiers : ∀ tier ∈ options.tiers, 0 < tier) (hprivate : 0 < options.privateRows)
    (h : s ∈ options.slots) : 0 < s.rows := by
  rcases mem_slots.mp h with ⟨-, hmem⟩ | ⟨-, heq⟩
  · exact htiers _ hmem
  · rwa [heq]

theorem slots_nodup (h : options.tiers.Nodup) : options.slots.Nodup := by
  rw [GenerateOptions.slots, List.nodup_append]
  refine ⟨?_, by simp, ?_⟩
  · rw [List.nodup_flatMap]
    refine ⟨fun tier _ => by simp, h.imp fun {tier tier'} hne => ?_⟩
    rw [Function.onFun_apply, List.disjoint_left]
    intro s hs hs'
    apply hne
    simp only [List.mem_cons, List.not_mem_nil, or_false] at hs hs'
    have hrows : s.rows = tier := by rcases hs with rfl | rfl <;> rfl
    have hrows' : s.rows = tier' := by rcases hs' with rfl | rfl <;> rfl
    exact hrows.symm.trans hrows'
  · intro s hs s' hs' heq
    obtain ⟨tier, -, hs⟩ := List.mem_flatMap.mp hs
    simp only [List.mem_cons, List.not_mem_nil, or_false] at hs hs'
    have hpublic : s.isPublic = true := by rcases hs with rfl | rfl <;> rfl
    have hprivate : s'.isPublic = false := by rcases hs' with rfl | rfl <;> rfl
    rw [heq, hprivate] at hpublic
    contradiction

/-- The scope and the number of rows of the slots of a manifest are told by its label. -/
theorem slot_eq_of_label (htiers : ∀ tier ∈ options.tiers, 0 < tier) (h : s ∈ options.slots)
    (h' : s' ∈ options.slots) (hscope : s.isPublic = s'.isPublic) (hinput : s.isInput = s'.isInput)
    (hlabel : s.label = s'.label) : s = s' := by
  obtain ⟨isPublic, rows, isInput⟩ := s
  obtain ⟨isPublic', rows', isInput'⟩ := s'
  obtain rfl : isPublic = isPublic' := hscope
  obtain rfl : isInput = isInput' := hinput
  rw [mem_slots] at h h'
  cases isPublic with
  | true =>
    have hmem : rows ∈ options.tiers := by simpa using h
    have hmem' : rows' ∈ options.tiers := by simpa using h'
    rw [tierLabel_inj (htiers _ hmem) (htiers _ hmem') hlabel]
  | false =>
    have heq : rows = options.privateRows := by simpa using h
    have heq' : rows' = options.privateRows := by simpa using h'
    rw [heq, heq']

/-- The ids differ in the scope, in the label or in the kind. -/
theorem id_inj (htiers : ∀ tier ∈ options.tiers, 0 < tier) (h : s ∈ options.slots)
    (h' : s' ∈ options.slots) (hid : s.id = s'.id) : s = s' := by
  have hlist := congrArg String.toList hid
  simp only [Slot.id, String.toList_append] at hlist
  have hscope : s.isPublic = s'.isPublic := by
    cases hs : s.isPublic <;> cases hs' : s'.isPublic
    · rfl
    · simp [hs, hs', scopeName] at hlist
    · simp [hs, hs', scopeName] at hlist
    · rfl
  rw [hscope] at hlist
  have htail := List.append_cancel_left (List.append_cancel_left hlist)
  have hinput : s.isInput = s'.isInput := by
    have hlast := congrArg List.reverse htail
    cases hs : s.isInput <;> cases hs' : s'.isInput
    · rfl
    · simp [hs, hs', Slot.kind] at hlast
    · simp [hs, hs', Slot.kind] at hlast
    · rfl
  have hkind : s.kind = s'.kind := by rw [Slot.kind, Slot.kind, hinput]
  rw [hkind] at htail
  exact slot_eq_of_label htiers h h' hscope hinput
    (String.toList_inj.mp (List.append_cancel_right htail))

/-- The names of the archives differ. -/
theorem zstPath_inj (htiers : ∀ tier ∈ options.tiers, 0 < tier) (hprivate : 0 < options.privateRows)
    (h : s ∈ options.slots) (h' : s' ∈ options.slots)
    (hname : (zstPath (options.file s.isPublic s.rows s.extension)).name =
      (zstPath (options.file s'.isPublic s'.rows s'.extension)).name) : s = s' := by
  have hpath : options.file s.isPublic s.rows s.extension =
      options.file s'.isPublic s'.rows s'.extension := by
    rw [GenerateOptions.file, GenerateOptions.file, Path.mk.injEq]
    have hlist := congrArg String.toList hname
    simp only [zstPath, String.toList_append] at hlist
    exact ⟨rfl, String.toList_inj.mp (List.append_cancel_right hlist)⟩
  obtain ⟨hscope, hrows, hextension⟩ := (file_inj (slots_pos htiers hprivate h)
    (slots_pos htiers hprivate h')).mp hpath
  have hinput : s.isInput = s'.isInput := by
    revert hextension
    unfold Slot.extension
    cases s.isInput <;> cases s'.isInput <;> simp
  obtain ⟨isPublic, rows, isInput⟩ := s
  obtain ⟨isPublic', rows', isInput'⟩ := s'
  obtain rfl : isPublic = isPublic' := hscope
  obtain rfl : rows = rows' := hrows
  obtain rfl : isInput = isInput' := hinput
  rfl

end Distinct

section Texts

/-- The base of a key is what follows its last slash. -/
theorem base_append {pre name : List GoText.Rune} (hname : name ≠ [])
    (hslash : .char '/' ∉ name) : GoText.base (pre ++ .char '/' :: name) = name := by
  have hdrop : (pre ++ .char '/' :: name).rdropWhile (· = .char '/') =
      pre ++ .char '/' :: name := by
    refine List.rdropWhile_eq_self_iff.mpr fun hne hlast => ?_
    rw [decide_eq_true_eq, List.getLast_append_of_ne_nil _ (List.cons_ne_nil _ _),
      List.getLast_cons hname] at hlast
    exact hslash (hlast ▸ List.getLast_mem hname)
  have htake : (pre ++ .char '/' :: name).rtakeWhile (· ≠ .char '/') = name := by
    rw [List.rtakeWhile, List.reverse_append, List.reverse_cons, List.append_assoc,
      List.takeWhile_append_of_pos]
    · simp
    · intro r hr
      rw [decide_eq_true_eq]
      rintro rfl
      exact hslash (List.mem_reverse.mp hr)
  rw [GoText.base, if_neg (by simp), hdrop, htake]
  exact if_neg hname

theorem isPrintable_iff {c : Char} : isPrintable c = true ↔ 32 ≤ c.toNat ∧ c.toNat ≤ 126 := by
  rw [isPrintable, Bool.and_eq_true, decide_eq_true_eq, decide_eq_true_eq]

theorem isIdTail_bounds {c : Char} (h : isIdTail c = true) :
    isPrintable c = true ∧ c ≠ '/' := by
  have hle {a b : Char} : a ≤ b ↔ a.toNat ≤ b.toNat := Iff.rfl
  have hrange : 97 ≤ c.toNat ∧ c.toNat ≤ 122 ∨ 48 ≤ c.toNat ∧ c.toNat ≤ 57 ∨ c.toNat = 45 := by
    rw [isIdTail, Bool.or_eq_true, decide_eq_true_eq, isIdHead, Bool.or_eq_true, Bool.and_eq_true,
      decide_eq_true_eq, decide_eq_true_eq, hle, hle, Digits.isDigit_iff] at h
    rcases h with (h | h) | rfl
    · exact .inl h
    · exact .inr (.inl h)
    · exact .inr (.inr rfl)
  constructor
  · rw [isPrintable_iff]
    omega
  · rintro rfl
    revert hrange
    decide

theorem isIdTail_labelChar {c : Char} (h : isLabelChar c = true) : isIdTail c = true := by
  rw [isLabelChar, Bool.or_eq_true, Bool.or_eq_true, decide_eq_true_eq, decide_eq_true_eq] at h
  rcases h with (h | rfl) | rfl
  · rw [isIdTail, isIdHead, h]
    simp
  · decide
  · decide

theorem isPrintable_toUpper {c : Char} (h : isLabelChar c = true) :
    isPrintable c.toUpper = true := by
  rw [isLabelChar, Bool.or_eq_true, Bool.or_eq_true, decide_eq_true_eq, decide_eq_true_eq] at h
  rcases h with (h | rfl) | rfl
  · obtain ⟨hlow, hhigh⟩ := Digits.isDigit_iff.mp h
    have hupper : c.toUpper = c := by
      apply dif_neg
      rintro ⟨hlower, -⟩
      have hlower : 97 ≤ c.toNat := UInt32.le_iff_toNat_le.mp hlower
      omega
    rw [hupper, isPrintable_iff]
    omega
  · decide
  · decide

theorem digitChar_isHex : ∀ n < 16, ('a' ≤ Nat.digitChar n && Nat.digitChar n ≤ 'f' ||
    Digits.isDigit (Nat.digitChar n)) = true := by decide

theorem shaPattern_hexEncode (digest : Fin 32 → UInt8) : shaPattern (hexEncode digest) = true := by
  rw [shaPattern, hexEncode, String.toList_ofList, Bool.and_eq_true, decide_eq_true_eq,
    List.all_eq_true]
  constructor
  · simp [List.length_flatMap]
  · intro c hc
    obtain ⟨i, -, hc⟩ := List.mem_flatMap.mp hc
    simp only [List.mem_cons, List.not_mem_nil, or_false] at hc
    have hlt := (digest i).toNat_lt
    rcases hc with rfl | rfl
    · exact digitChar_isHex _ (by omega)
    · exact digitChar_isHex _ (Nat.mod_lt _ (by decide))

end Texts

section Validity
variable {env : Environment} {options : GenerateOptions} {rows rows' : List Row} {s : Slot}

theorem idPattern_cons {tail : ℕ} {text : String} {c : Char} {cs : List Char}
    (h : text.toList = c :: cs) (hc : isIdHead c = true) (hcs : cs.all isIdTail = true)
    (hlength : cs.length ≤ tail) : idPattern tail text = true := by
  rw [idPattern, h]
  simp [hc, hcs, hlength]

theorem idPattern_chars {tail : ℕ} {text : String} (h : idPattern tail text = true) :
    text.toList.all isIdTail = true ∧ text.toList.length ≤ tail + 1 := by
  unfold idPattern at h
  split at h
  · contradiction
  · next c cs hlist =>
    rw [Bool.and_eq_true, Bool.and_eq_true, decide_eq_true_eq] at h
    obtain ⟨⟨hc, hcs⟩, hlength⟩ := h
    rw [hlist, List.all_cons, List.length_cons, hcs, isIdTail, hc]
    exact ⟨rfl, by omega⟩

theorem label_chars (hpos : 0 < s.rows) :
    s.label.toList.all isLabelChar = true ∧ s.label.toList.length ≤ 19 := by
  unfold Slot.label
  split
  · exact tierLabel_chars hpos
  · decide

theorem artifactIDPattern_id (hpos : 0 < s.rows) : artifactIDPattern s.id = true := by
  obtain ⟨hlabel, hlength⟩ := label_chars hpos
  have hall : s.label.toList.all isIdTail = true := by
    rw [List.all_eq_true] at hlabel ⊢
    exact fun c hc => isIdTail_labelChar (hlabel c hc)
  have hkind : s.kind.toList.all isIdTail = true ∧ s.kind.toList.length ≤ 8 := by
    unfold Slot.kind
    split <;> decide
  have hscope : ∃ cs, (scopeName s.isPublic).toList = 'p' :: cs ∧ cs.all isIdTail = true ∧
      cs.length ≤ 6 := by
    cases s.isPublic
    · exact ⟨"rivate".toList, by decide, by decide, by decide⟩
    · exact ⟨"ublic".toList, by decide, by decide, by decide⟩
  obtain ⟨cs, hcs, hcsall, hcslength⟩ := hscope
  have hlist : s.id.toList = 'p' :: (cs ++ '-' :: (s.label.toList ++ '-' :: s.kind.toList)) := by
    simp [Slot.id, hcs]
  apply idPattern_cons hlist (by decide)
  · simp only [List.all_append, List.all_cons, hcsall, hall, hkind.1]
    decide
  · simp only [List.length_append, List.length_cons]
    omega

theorem title_chars (hpos : 0 < s.rows) :
    s.title.toList.all isPrintable = true ∧ s.title.toList.length ≤ 35 ∧ s.title ≠ "" := by
  obtain ⟨hlabel, hlength⟩ := label_chars hpos
  have hkind : s.kind.toList.all isPrintable = true ∧ s.kind.toList.length ≤ 8 := by
    unfold Slot.kind
    split <;> decide
  have hupper : s.label.toUpper.toList.all isPrintable = true ∧
      s.label.toUpper.toList.length ≤ 19 := by
    rw [String.toUpper, String.toList_map, List.length_map]
    refine ⟨?_, hlength⟩
    rw [List.all_eq_true] at hlabel ⊢
    intro c hc
    obtain ⟨c', hc', rfl⟩ := List.mem_map.mp hc
    exact isPrintable_toUpper (hlabel c' hc')
  unfold Slot.title
  split
  · refine ⟨?_, ?_, ?_⟩
    · simp only [String.toList_append, List.all_append, hupper.1, hkind.1]
      decide
    · simp only [String.toList_append, List.length_append]
      have hpublic : "Public ".toList.length = 7 ∧ " ".toList.length = 1 := by decide
      omega
    · rw [ne_eq, ← String.toList_eq_nil_iff]
      simp
  · refine ⟨?_, ?_, ?_⟩
    · simp only [String.toList_append, List.all_append, hkind.1]
      decide
    · simp only [String.toList_append, List.length_append]
      have hprivate : "Private 1B".toList.length = 10 ∧ " ".toList.length = 1 := by decide
      omega
    · rw [ne_eq, ← String.toList_eq_nil_iff]
      simp

variable (options) in
/-- The name of the archive of a slot. -/
def Slot.archive (s : Slot) : String :=
  (zstPath (options.file s.isPublic s.rows s.extension)).name

variable (options) in
theorem archive_chars (hpos : 0 < s.rows) :
    ((s.archive options).toList.all fun c => isPrintable c && decide (c ≠ '/')) = true ∧
      (s.archive options).toList.length ≤ 50 ∧ (s.archive options).toList ≠ [] := by
  obtain ⟨hdigits, hlength⟩ := toString_chars hpos
  have hnumber : ((toString s.rows.toInt).toList.all fun c =>
      isPrintable c && decide (c ≠ '/')) = true := by
    rw [Digits.allDigits, List.all_eq_true] at hdigits
    rw [List.all_eq_true]
    intro c hc
    obtain ⟨hprintable, hslash⟩ := isIdTail_bounds (isIdTail_labelChar
      (show isLabelChar c = true by rw [isLabelChar, hdigits c hc]; rfl))
    rw [hprintable, decide_eq_true hslash]
    rfl
  have hscope : ((scopeName s.isPublic).toList.all fun c =>
      isPrintable c && decide (c ≠ '/')) = true ∧ (scopeName s.isPublic).toList.length ≤ 7 := by
    cases s.isPublic <;> decide
  have hextension : ((s.extension.text ++ ".zst").toList.all fun c =>
      isPrintable c && decide (c ≠ '/')) = true ∧
        (s.extension.text ++ ".zst").toList.length ≤ 13 := by
    unfold Slot.extension
    split <;> decide
  have hlist : (s.archive options).toList = (scopeName s.isPublic).toList ++
      '-' :: ((toString s.rows.toInt).toList ++ (s.extension.text ++ ".zst").toList) := by
    simp [Slot.archive, zstPath, GenerateOptions.file, datasetName]
  rw [hlist]
  refine ⟨?_, ?_, by simp⟩
  · simp only [List.all_append, List.all_cons, hscope.1, hnumber, hextension.1]
    decide
  · simp only [List.length_append, List.length_cons]
    omega

/-- The dataset of a slot and its archive are not empty and fit the file system. -/
structure Slot.Packed (env : Environment) (options : GenerateOptions) (rows rows' : List Row)
    (s : Slot) : Prop where
  bytes_ne : s.bytes env options rows rows' ≠ []
  bytes_lt : (s.bytes env options rows rows').length < 2 ^ 63
  compressed_lt : (env.compress (s.bytes env options rows rows')).length < 2 ^ 63

theorem ofNat_length_pos {bytes : Bytes} (hne : bytes ≠ []) (hlt : bytes.length < 2 ^ 63) :
    0 < Int64.ofNat bytes.length := by
  rw [Int64.lt_iff_toInt_lt, Int64.toInt_ofNat_of_lt hlt]
  exact Int.natCast_pos.mpr (List.length_pos_of_ne_nil hne)

theorem objectKey_toList : (s.artifact env options rows rows').objectKey.toList =
    ("datasets/" ++ options.contestId ++ "/" ++ scopeName s.isPublic).toList ++
      '/' :: (s.archive options).toList := by
  simp [Slot.artifact, artifactOf, Slot.archive]

/-- The artifacts of generated data pass their checks. -/
theorem slot_valid (hcontest : contestIDPattern options.contestId = true) (hpos : 0 < s.rows)
    (hcompress : ∀ bytes, bytes ≠ [] → env.compress bytes ≠ [])
    (hpacked : s.Packed env options rows rows') :
    (s.artifact env options rows rows').decoded.Valid options.contestId := by
  obtain ⟨hcontestChars, hcontestLength⟩ := idPattern_chars hcontest
  obtain ⟨htitle, htitleLength, htitleNe⟩ := title_chars hpos
  obtain ⟨harchive, harchiveLength, -⟩ := archive_chars options hpos
  have hkeyPrintable : (s.artifact env options rows rows').objectKey.toList.all isPrintable =
      true := by
    have hname : (s.archive options).toList.all isPrintable = true := by
      rw [List.all_eq_true] at harchive ⊢
      exact fun c hc => (Bool.and_eq_true .. ▸ harchive c hc).1
    have hid : options.contestId.toList.all isPrintable = true := by
      rw [List.all_eq_true] at hcontestChars ⊢
      exact fun c hc => (isIdTail_bounds (hcontestChars c hc)).1
    have hscope : (scopeName s.isPublic).toList.all isPrintable = true := by
      cases s.isPublic <;> decide
    rw [objectKey_toList]
    simp only [String.toList_append, List.all_append, List.all_cons, hname, hid, hscope]
    decide
  have hscopeLength : (scopeName s.isPublic).toList.length ≤ 7 := by
    cases s.isPublic <;> decide
  have hcompressed := hcompress _ hpacked.bytes_ne
  exact {
    id := artifactIDPattern_id hpos
    suffix := by
      rw [hasSuffix_iff]
      refine ⟨(scopeName s.isPublic ++ ("-" ++ s.label)).toList, ?_⟩
      simp [Artifact.decoded, Slot.artifact, artifactOf, Slot.id]
    kind := by
      show s.kind ∈ datasetKinds
      unfold Slot.kind
      split <;> decide
    label := htitleNe
    labelLength := by
      show Utf16.length s.title ≤ 128
      rw [(Shared.length_eq_of_printable htitle).1]
      omega
    keyLength := by
      show (s.artifact env options rows rows').objectKey.utf8ByteSize ≤ 1024
      rw [(Shared.length_eq_of_printable hkeyPrintable).2, objectKey_toList]
      have hfixed : "datasets/".toList.length = 9 ∧ "/".toList.length = 1 := by decide
      simp only [String.toList_append, List.length_append, List.length_cons]
      omega
    keyPrintable := hkeyPrintable
    keyPrefix := by
      rw [hasPrefix_iff]
      refine ⟨(s.archive options).toList, ?_⟩
      show _ = (s.artifact env options rows rows').objectKey.toList
      rw [objectKey_toList]
      have hscope : (s.artifact env options rows rows').decoded.scope = scopeName s.isPublic := rfl
      rw [hscope]
      simp [scopePrefix]
    rows := hpos
    compressedBytes := ofNat_length_pos hcompressed hpacked.compressed_lt
    uncompressedBytes := ofNat_length_pos hpacked.bytes_ne hpacked.bytes_lt
    compressedSha256 := shaPattern_hexEncode _
    uncompressedSha256 := shaPattern_hexEncode _ }

end Validity

section Manifests
variable {env : Environment} {options : GenerateOptions} {rows rows' : List Row}
  {manifest : Manifest} {disk : Disk}

theorem baseName_eq {s : Slot} (hpos : 0 < s.rows) :
    (s.artifact env options rows rows').baseName = GoText.ofString (s.archive options) := by
  obtain ⟨harchive, -, hne⟩ := archive_chars options hpos
  rw [Artifact.baseName, GoText.ofString, objectKey_toList, List.map_append, List.map_cons]
  apply base_append
  · rwa [ne_eq, List.map_eq_nil_iff]
  · intro hmem
    obtain ⟨c, hc, heq⟩ := List.mem_map.mp hmem
    obtain rfl := GoText.Rune.char.inj heq
    rw [List.all_eq_true] at harchive
    exact absurd (harchive '/' hc) (by decide)

variable (env rows rows') in
theorem baseName_inj {s s' : Slot} (htiers : ∀ tier ∈ options.tiers, 0 < tier)
    (hprivate : 0 < options.privateRows) (h : s ∈ options.slots) (h' : s' ∈ options.slots)
    (heq : (s.artifact env options rows rows').baseName =
      (s'.artifact env options rows rows').baseName) : s = s' := by
  rw [baseName_eq (slots_pos htiers hprivate h), baseName_eq (slots_pos htiers hprivate h')] at heq
  have hlist := List.map_injective_iff.mpr (fun _ _ => GoText.Rune.char.inj) heq
  exact zstPath_inj htiers hprivate h h' (String.toList_inj.mp hlist)

theorem decoded_artifacts : (manifestOf env options rows rows').decoded.artifacts =
    options.slots.map fun s => (s.artifact env options rows rows').decoded := by
  rw [Manifest.decoded, manifestOf_artifacts, List.map_map]
  rfl

/-- The artifacts of generated data are consistent. -/
theorem slots_consistent (htiers : IsTiers options.publicRows options.tiers)
    (hprivate : 0 < options.privateRows) :
    Consistent (options.slots.map fun s => (s.artifact env options rows rows').decoded) := by
  have hslots := slots_nodup htiers.nodup
  have hlast : options.publicRows ∈ options.tiers := List.mem_of_getLast? htiers.last
  have hmem {s : Slot} : s ∈ options.slots →
      (s.artifact env options rows rows').decoded ∈
        options.slots.map fun s => (s.artifact env options rows rows').decoded :=
    fun h => List.mem_map_of_mem h
  refine ⟨?_, ?_, ?_, ?_, ?_, ?_⟩
  · rw [List.map_map]
    exact hslots.map_on fun s hs s' hs' heq => id_inj htiers.pos hs hs' heq
  · rw [List.map_map]
    refine hslots.map_on fun s hs s' hs' heq => ?_
    apply baseName_inj env rows rows' htiers.pos hprivate hs hs'
    exact congrArg (fun key => GoText.base (GoText.ofString key)) heq
  · rw [List.map_map]
    refine hslots.map_on fun s hs s' hs' heq => ?_
    obtain ⟨hscope, hrest⟩ := Prod.mk.inj heq
    obtain ⟨hrows, hkind⟩ := Prod.mk.inj hrest
    have hinput : s.isInput = s'.isInput := by
      have hkind : s.kind = s'.kind := hkind
      revert hkind
      unfold Slot.kind
      cases s.isInput <;> cases s'.isInput <;> decide
    obtain ⟨isPublic, rows, isInput⟩ := s
    obtain ⟨isPublic', rows', isInput'⟩ := s'
    obtain rfl : isPublic = isPublic' := hscope
    obtain rfl : rows = rows' := hrows
    obtain rfl : isInput = isInput' := hinput
    rfl
  · intro a ha kind hkind
    obtain ⟨s, hs, rfl⟩ := List.mem_map.mp ha
    refine ⟨_, hmem (s := ⟨s.isPublic, s.rows, decide (kind = "input")⟩) ?_, ⟨rfl, rfl⟩, ?_⟩
    · rw [mem_slots] at hs ⊢
      exact hs
    · show (if decide (kind = "input") = true then "input" else "expected") = kind
      simp only [datasetKinds, List.mem_cons, List.not_mem_nil, or_false] at hkind
      rcases hkind with rfl | rfl <;> rfl
  · exact ⟨_, hmem (s := ⟨true, options.publicRows, true⟩)
      (mem_slots.mpr (.inl ⟨rfl, hlast⟩)), rfl⟩
  · exact ⟨_, hmem (s := ⟨false, options.privateRows, true⟩) (mem_slots.mpr (.inr ⟨rfl, rfl⟩)), rfl⟩

/-- Nothing that a run packages is empty if no dataset wraps all of its counts. -/
theorem slots_packed (hrun : Run env options manifest disk rows rows')
    (hspread : ∀ tier ∈ options.tiers, Expected.Spread (tierRows rows tier))
    (hspread' : Expected.Spread rows') :
    ∀ s ∈ options.slots, s.Packed env options rows rows' := by
  have hcsv (part : List Row) : csv part ≠ [] := by simp [csv]
  have hexpected {part : List Row} (hscan : Expected.Scannable part)
      (harchived : Archived env options.threads (csv part)) (hpart : Expected.Spread part) :
      expectedOf env options.threads (csv part) ≠ [] := by
    obtain ⟨lines, hlines, heq⟩ := harchived.expected
    obtain ⟨-, -, -, houtput⟩ := Expected.generate_eq_some.mp hlines
    obtain ⟨lines', hlines', hne⟩ :=
      Expected.output_ne_nil_iff env.mean hscan (Expected.dividable_of_generate hlines)
    obtain rfl := Option.some.inj (houtput.symm.trans hlines')
    rw [heq]
    exact hne.mpr hpart
  have hdataset := generateRows_isDataset defaultChannels_le hrun.publicRows
  have hdataset' := generateRows_isDataset defaultChannels_le hrun.privateRows
  intro s hs
  have harchived : Archived env options.threads
      (csv (if s.isPublic then tierRows rows s.rows else rows')) ∧
      expectedOf env options.threads
        (csv (if s.isPublic then tierRows rows s.rows else rows')) ≠ [] := by
    rcases mem_slots.mp hs with ⟨hpublic, hmem⟩ | ⟨hpublic, -⟩
    · rw [if_pos hpublic]
      exact ⟨hrun.tiers _ hmem, hexpected (scannable_of_subset hdataset defaultChannels_le
        (List.take_subset _ _)) (hrun.tiers _ hmem) (hspread _ hmem)⟩
    · rw [if_neg (by simp [hpublic])]
      exact ⟨hrun.privateArchived, hexpected (scannable_of_subset hdataset' defaultChannels_le
        (List.Subset.refl _)) hrun.privateArchived hspread'⟩
  obtain ⟨harchived, hne⟩ := harchived
  cases hinput : s.isInput with
  | true =>
    have hbytes : s.bytes env options rows rows' =
        csv (if s.isPublic then tierRows rows s.rows else rows') := by
      rw [Slot.bytes, hinput]
      rfl
    exact ⟨hbytes ▸ hcsv _, hbytes ▸ harchived.input_lt, hbytes ▸ harchived.compressed_lt⟩
  | false =>
    have hbytes : s.bytes env options rows rows' = expectedOf env options.threads
        (csv (if s.isPublic then tierRows rows s.rows else rows')) := by
      rw [Slot.bytes, hinput]
      rfl
    exact ⟨hbytes ▸ hne, hbytes ▸ harchived.expected_lt, hbytes ▸ harchived.compressedExpected_lt⟩

/-- A manifest of packed artifacts passes the checks of the server. -/
theorem validateManifest_manifestOf (htiers : IsTiers options.publicRows options.tiers)
    (hprivate : 0 < options.privateRows) (hnow : env.now < 253402300800)
    (hcontest : contestIDPattern options.contestId = true)
    (hrevision : 1 ≤ Utf16.length options.revision ∧ Utf16.length options.revision ≤ 128)
    (hcompress : ∀ bytes, bytes ≠ [] → env.compress bytes ≠ [])
    (hpacked : ∀ s ∈ options.slots, s.Packed env options rows rows') :
    validateManifest (manifestOf env options rows rows').decoded = .ok () := by
  have hlast : options.publicRows ∈ options.tiers := List.mem_of_getLast? htiers.last
  rw [validateManifest_ok_iff]
  refine ⟨⟨rfl, hcontest, Shared.one_le_length.mp hrevision.1, hrevision.2, ?_, ?_, ?_⟩, ?_⟩
  · rw [decoded_artifacts, List.length_map, GenerateOptions.slots, List.length_append,
      List.length_flatMap]
    obtain ⟨tier, tiers, heq⟩ := List.exists_cons_of_ne_nil (List.ne_nil_of_mem hlast)
    rw [heq, List.map_cons, List.sum_cons]
    simp only [List.length_cons, List.length_nil]
    omega
  · rw [decoded_artifacts]
    intro a ha
    obtain ⟨s, hs, rfl⟩ := List.mem_map.mp ha
    exact slot_valid hcontest (slots_pos htiers.pos hprivate hs) hcompress (hpacked s hs)
  · rw [decoded_artifacts]
    exact slots_consistent htiers hprivate
  · show (Rfc3339.parse (Rfc3339.format env.now)).isSome = true
    rw [Rfc3339.parse_format hnow]

end Manifests

section Selection
variable {env : Environment} {options : GenerateOptions} {rows rows' : List Row}
  {artifacts : List Artifact} {isPublic : Bool} {n : Int64}

/-- The greatest number of rows is found wherever it is on the list. -/
theorem rowsByScope_eq (hpos : 0 ≤ n)
    (hle : ∀ a ∈ artifacts, a.kind = "input" → a.isPublic = isPublic → a.rows ≤ n)
    (hmem : ∃ a ∈ artifacts, a.kind = "input" ∧ a.isPublic = isPublic ∧ a.rows = n) :
    rowsByScope artifacts isPublic = n := by
  suffices hfold : ∀ (items : List Artifact) (acc : Int64), acc ≤ n →
      (∀ a ∈ items, a.kind = "input" → a.isPublic = isPublic → a.rows ≤ n) →
      (acc = n ∨ ∃ a ∈ items, a.kind = "input" ∧ a.isPublic = isPublic ∧ a.rows = n) →
      items.foldl (fun rows item => if item.kind = "input" ∧ item.isPublic = isPublic ∧
        rows < item.rows then item.rows else rows) acc = n from
    hfold artifacts 0 hpos hle (.inr hmem)
  intro items
  induction items with
  | nil =>
    rintro acc - - (rfl | ⟨a, ha, -⟩)
    · rfl
    · contradiction
  | cons item items ih =>
    intro acc hacc hall hgreatest
    obtain ⟨hitem, hitems⟩ := List.forall_mem_cons.mp hall
    rw [List.foldl_cons]
    apply ih _ _ hitems
    · rcases hgreatest with rfl | ⟨a, ha, hkind, hscope, hrows⟩
      · left
        apply if_neg
        rintro ⟨hkind, hscope, hlt⟩
        exact Int64.not_le.mpr hlt (hitem hkind hscope)
      · rcases List.mem_cons.mp ha with rfl | ha
        · left
          split
          · exact hrows
          · next hnot =>
            have hge : n ≤ acc := by
              rw [← Int64.not_lt, ← hrows]
              exact fun hlt => hnot ⟨hkind, hscope, hlt⟩
            exact Int64.le_antisymm hacc hge
        · exact .inr ⟨a, ha, hkind, hscope, hrows⟩
    · split
      · next h => exact hitem h.1 h.2.1
      · exact hacc

theorem kind_inj {s s' : Slot} (h : s.kind = s'.kind) : s.isInput = s'.isInput := by
  revert h
  unfold Slot.kind
  cases s.isInput <;> cases s'.isInput <;> decide

/-- The public rows are those of the last tier, the private ones those of the private dataset. -/
theorem rowsByScope_slots (htiers : IsTiers options.publicRows options.tiers)
    (hprivate : 0 < options.privateRows) (isPublic : Bool) :
    rowsByScope (options.slots.map (Slot.artifact env options rows rows')) isPublic =
      if isPublic then options.publicRows else options.privateRows := by
  have hlast : options.publicRows ∈ options.tiers := List.mem_of_getLast? htiers.last
  have hin : (⟨isPublic, if isPublic then options.publicRows else options.privateRows, true⟩ :
      Slot) ∈ options.slots := by
    rw [mem_slots]
    cases isPublic
    · exact .inr ⟨rfl, rfl⟩
    · exact .inl ⟨rfl, hlast⟩
  apply rowsByScope_eq
  · exact Int64.le_of_lt (slots_pos htiers.pos hprivate hin)
  · intro a ha _ hscope
    obtain ⟨s, hs, rfl⟩ := List.mem_map.mp ha
    have hscope : s.isPublic = isPublic := hscope
    show s.rows ≤ _
    rcases mem_slots.mp hs with ⟨hpublic, hmem⟩ | ⟨hpublic, heq⟩
    · rw [← hscope, if_pos hpublic]
      exact htiers.le _ hmem
    · rw [← hscope, if_neg (by simp [hpublic]), heq]
      exact Int64.le_refl _
  · exact ⟨_, List.mem_map_of_mem hin, rfl, rfl, rfl⟩

/-- A target is met by the artifact of its slot and by no other. -/
theorem selectArtifact_slot {s : Slot} (hs : s ∈ options.slots) (name : String) :
    selectArtifact (options.slots.map (Slot.artifact env options rows rows'))
      ⟨name, s.kind, s.isPublic, s.rows⟩ = .ok (name, s.artifact env options rows rows') := by
  have hmatches (s' : Slot) : Target.matches ⟨name, s.kind, s.isPublic, s.rows⟩
      (s'.artifact env options rows rows') = true ↔ s' = s := by
    have hfields : Target.matches ⟨name, s.kind, s.isPublic, s.rows⟩
        (s'.artifact env options rows rows') = true ↔
        (s'.kind = s.kind ∧ s'.isPublic = s.isPublic) ∧ s'.rows = s.rows := by
      rw [Target.matches, Bool.and_eq_true, Bool.and_eq_true, decide_eq_true_eq,
        decide_eq_true_eq, decide_eq_true_eq]
      rfl
    rw [hfields]
    constructor
    · rintro ⟨⟨hkind, hscope⟩, hrows⟩
      have hinput := kind_inj hkind
      obtain ⟨isPublic, rows, isInput⟩ := s
      obtain ⟨isPublic', rows', isInput'⟩ := s'
      obtain rfl : isPublic' = isPublic := hscope
      obtain rfl : rows' = rows := hrows
      obtain rfl : isInput' = isInput := hinput
      rfl
    · rintro rfl
      exact ⟨⟨rfl, rfl⟩, rfl⟩
  have hfind : (options.slots.map (Slot.artifact env options rows rows')).find?
      (Target.matches ⟨name, s.kind, s.isPublic, s.rows⟩) =
        some (s.artifact env options rows rows') := by
    rw [List.find?_map]
    cases hfound : options.slots.find?
        (Target.matches ⟨name, s.kind, s.isPublic, s.rows⟩ ∘
          Slot.artifact env options rows rows') with
    | none =>
      exact absurd ((hmatches s).mpr rfl) (List.find?_eq_none.mp hfound s hs)
    | some s' =>
      have heq : s' = s := by
        rw [← hmatches]
        exact (List.find?_some hfound : (Target.matches ⟨name, s.kind, s.isPublic, s.rows⟩ ∘
          Slot.artifact env options rows rows') s' = true)
      rw [heq]
      rfl
  have hkey : (s.artifact env options rows rows').objectKey ≠ "" := by
    rw [ne_eq, ← String.toList_eq_nil_iff, objectKey_toList]
    simp
  rw [selectArtifact, hfind]
  exact if_neg hkey

variable (env rows rows') in
/-- The artifacts of the full datasets are selected. -/
theorem selectRunnerArtifacts_manifestOf (htiers : IsTiers options.publicRows options.tiers)
    (hpublic : 0 < options.publicRows) (hprivate : 0 < options.privateRows) :
    selectRunnerArtifacts (manifestOf env options rows rows') = .ok
      [("public.csv", (⟨true, options.publicRows, true⟩ : Slot).artifact env options rows rows'),
        ("public.expected",
          (⟨true, options.publicRows, false⟩ : Slot).artifact env options rows rows'),
        ("private.csv",
          (⟨false, options.privateRows, true⟩ : Slot).artifact env options rows rows'),
        ("private.expected",
          (⟨false, options.privateRows, false⟩ : Slot).artifact env options rows rows')] := by
  have hlast : options.publicRows ∈ options.tiers := List.mem_of_getLast? htiers.last
  have hne {n : Int64} (hpos : 0 < n) : n ≠ 0 := by
    rintro rfl
    exact absurd hpos (by decide)
  have htrue (isInput : Bool) : (⟨true, options.publicRows, isInput⟩ : Slot) ∈ options.slots :=
    mem_slots.mpr (.inl ⟨rfl, hlast⟩)
  have hfalse (isInput : Bool) : (⟨false, options.privateRows, isInput⟩ : Slot) ∈ options.slots :=
    mem_slots.mpr (.inr ⟨rfl, rfl⟩)
  have hrows : rowsByScope (options.slots.map (Slot.artifact env options rows rows')) true =
      options.publicRows := rowsByScope_slots htiers hprivate true
  have hrows' : rowsByScope (options.slots.map (Slot.artifact env options rows rows')) false =
      options.privateRows := rowsByScope_slots htiers hprivate false
  rw [selectRunnerArtifacts, manifestOf_artifacts, hrows, hrows',
    if_neg (not_or.mpr ⟨hne hpublic, hne hprivate⟩), targets, hrows, hrows']
  have hselect (t : Target) (s : Slot) (ht : t = ⟨t.name, s.kind, s.isPublic, s.rows⟩)
      (hs : s ∈ options.slots) :
      selectArtifact (options.slots.map (Slot.artifact env options rows rows')) t =
        .ok (t.name, s.artifact env options rows rows') := by
    rw [ht]
    exact selectArtifact_slot hs t.name
  rw [List.mapM_cons, hselect _ _ rfl (htrue true), List.mapM_cons, hselect _ _ rfl (htrue false),
    List.mapM_cons, hselect _ _ rfl (hfalse true), List.mapM_cons, hselect _ _ rfl (hfalse false)]
  rfl

end Selection

/-- The artifact describes the file at the path, as `packageArtifact` does. -/
def PackagedFrom (env : Environment) (contestId : String) (path : Path) (bytes : Bytes)
    (a : Artifact) : Prop :=
  ∃ id kind label rows isPublic, a = artifactOf env contestId id kind label rows isPublic path bytes

/-- A file of the runner has the contents of its source, from which the selected artifact is
packaged. -/
structure RunnerFile (env : Environment) (options : GenerateOptions) (disk : Disk)
    (selected : List (String × Artifact)) (source : Path) (name : String) (bytes : Bytes) :
    Prop where
  origin : disk.Has source bytes
  copy : options.runnerDir ≠ "" → disk.Has ⟨options.runnerDir, name⟩ bytes
  artifact : ∃ a, (name, a) ∈ selected ∧ PackagedFrom env options.contestId source bytes a

section Importable
variable {env : Environment} {options : GenerateOptions} {disk disk' : Disk} {manifest : Manifest}

/-- Only numbers of rows that are multiples of 2 ^ 32 can be spread so that all counts wrap. -/
theorem spread_tierRows {rows : List Row} (hdataset : IsDataset options.publicDataset rows)
    (htiers : IsTiers options.publicRows options.tiers) {tier : Int64} (hmem : tier ∈ options.tiers)
    (h : 2 ^ 32 ∣ tier.toInt.toNat → Expected.Spread (tierRows rows tier)) :
    Expected.Spread (tierRows rows tier) := by
  by_cases hdvd : 2 ^ 32 ∣ tier.toInt.toNat
  · exact h hdvd
  · apply Expected.spread_of_not_dvd
    have hle : tier.toInt.toNat ≤ rows.length := by
      rw [hdataset.length]
      exact Int.toNat_le_toNat (Int64.le_iff_toInt_le.mp (htiers.le tier hmem))
    rwa [tierRows, List.length_take, Nat.min_eq_left hle]

/-- No two artifacts share an id, a key or the base name of a key. -/
theorem names_nodup (htiers : IsTiers options.publicRows options.tiers)
    (hprivate : 0 < options.privateRows) (rows rows' : List Row) :
    ((manifestOf env options rows rows').artifacts.map Artifact.id).Nodup ∧
      ((manifestOf env options rows rows').artifacts.map Artifact.objectKey).Nodup ∧
      ((manifestOf env options rows rows').artifacts.map Artifact.baseName).Nodup := by
  have hconsistent : Consistent (options.slots.map fun s =>
      (s.artifact env options rows rows').decoded) := slots_consistent htiers hprivate
  have hids := hconsistent.ids
  have hkeys := hconsistent.keys
  rw [List.map_map] at hids hkeys
  rw [manifestOf_artifacts, List.map_map, List.map_map, List.map_map]
  refine ⟨hids, hkeys, (slots_nodup htiers.nodup).map_on fun s hs s' hs' heq => ?_⟩
  rw [Function.comp_apply, Function.comp_apply] at heq
  exact baseName_inj env rows rows' htiers.pos hprivate hs hs' heq

/-- The runner's files are the ones that are selected. -/
theorem runnerFiles_selected {rows rows' : List Row}
    (htiers : IsTiers options.publicRows options.tiers)
    (hrun : Run env options manifest disk rows rows') :
    ∃ selected, selectRunnerArtifacts manifest = .ok selected ∧
      (∀ a ∈ selected, a.2 ∈ manifest.artifacts) ∧
      RunnerFile env options disk selected options.publicFull "public.csv" (csv rows) ∧
      RunnerFile env options disk selected (expectedPath options.publicFull) "public.expected"
        (expectedOf env options.threads (csv rows)) ∧
      RunnerFile env options disk selected options.privateFull "private.csv" (csv rows') ∧
      RunnerFile env options disk selected (expectedPath options.privateFull) "private.expected"
        (expectedOf env options.threads (csv rows')) := by
  obtain rfl := hrun.manifest
  have hlast : options.publicRows ∈ options.tiers := List.mem_of_getLast? htiers.last
  have hdataset := generateRows_isDataset defaultChannels_le hrun.publicRows
  have hfiles := hrun.files
  simp only [runnerContents, List.forall_mem_cons, List.not_mem_nil, false_implies,
    implies_true, and_true] at hfiles
  obtain ⟨⟨h₁, h₁'⟩, ⟨h₂, h₂'⟩, ⟨h₃, h₃'⟩, h₄, h₄'⟩ := hfiles
  have hall : csv (tierRows rows options.publicRows) = csv rows :=
    congrArg csv (tierRows_all hdataset)
  refine ⟨_, selectRunnerArtifacts_manifestOf env rows rows' htiers hrun.publicRows_pos
    hrun.privateRows_pos, ?_, ?_⟩
  · rw [manifestOf_artifacts]
    simp only [List.forall_mem_cons, List.not_mem_nil, false_implies, implies_true, and_true]
    exact ⟨List.mem_map_of_mem (mem_slots.mpr (.inl ⟨rfl, hlast⟩)),
      List.mem_map_of_mem (mem_slots.mpr (.inl ⟨rfl, hlast⟩)),
      List.mem_map_of_mem (mem_slots.mpr (.inr ⟨rfl, rfl⟩)),
      List.mem_map_of_mem (mem_slots.mpr (.inr ⟨rfl, rfl⟩))⟩
  · rw [publicFull_eq, privateFull_eq, expectedPath_file, expectedPath_file]
    refine ⟨⟨h₁, h₁', _, List.mem_cons_self, ?_⟩,
      ⟨h₂, h₂', _, List.mem_cons_of_mem _ List.mem_cons_self, ?_⟩,
      ⟨h₃, h₃', _, List.mem_cons_of_mem _ (List.mem_cons_of_mem _ List.mem_cons_self), ?_⟩,
      ⟨h₄, h₄', _, List.mem_cons_of_mem _ (List.mem_cons_of_mem _ (List.mem_cons_of_mem _
        List.mem_cons_self)), ?_⟩⟩
    · rw [← hall]
      exact ⟨_, _, _, _, _, rfl⟩
    · rw [← hall]
      exact ⟨_, _, _, _, _, rfl⟩
    · exact ⟨_, _, _, _, _, rfl⟩
    · exact ⟨_, _, _, _, _, rfl⟩

theorem generateFile_eq {random : Random} {dataset : Options} {rows : List Row}
    (h : generateRows random dataset = .ok rows) :
    generateFile random dataset = .ok (csv rows) := by
  rw [generateFile, h]
  rfl

/-- Generated data can be imported, and the runner's files are the ones that it lists. Where the
number of rows of a dataset is a multiple of 2 ^ 32, the draws shall not give every channel and
month a multiple of that, since the expected output would then be empty. -/
theorem generated_importable {value : List GoText.Rune}
    (horder : ∀ files, (env.order files).Perm files)
    (hcompress : ∀ bytes, bytes ≠ [] → env.compress bytes ≠ [])
    (hnow : env.now < 253402300800)
    (hspread : ∀ rows, generateRows env.random options.publicDataset = .ok rows →
      ∀ tier ∈ options.tiers, 2 ^ 32 ∣ tier.toInt.toNat → Expected.Spread (tierRows rows tier))
    (hspread' : ∀ rows, generateRows env.random options.privateDataset = .ok rows →
      2 ^ 32 ∣ options.privateRows.toInt.toNat → Expected.Spread rows)
    (htiers : parseTiers value options.publicRows = .ok options.tiers)
    (hcontest : contestIDPattern options.contestId = true)
    (hrevision : 1 ≤ Utf16.length options.revision ∧ Utf16.length options.revision ≤ 128)
    (hrun : generate env options disk = .ok (manifest, disk')) :
    validateManifest manifest.decoded = .ok () ∧
      ((manifest.artifacts.map Artifact.id).Nodup ∧
        (manifest.artifacts.map Artifact.objectKey).Nodup ∧
        (manifest.artifacts.map Artifact.baseName).Nodup) ∧
      ∃ publicCsv publicExpected privateCsv privateExpected selected,
        (generateFile env.random options.publicDataset = .ok publicCsv ∧
          IsExpected env options.threads publicCsv publicExpected) ∧
        (generateFile env.random options.privateDataset = .ok privateCsv ∧
          IsExpected env options.threads privateCsv privateExpected) ∧
        selectRunnerArtifacts manifest = .ok selected ∧
        (∀ a ∈ selected, a.2 ∈ manifest.artifacts) ∧
        RunnerFile env options disk' selected options.publicFull "public.csv" publicCsv ∧
        RunnerFile env options disk' selected (expectedPath options.publicFull) "public.expected"
          publicExpected ∧
        RunnerFile env options disk' selected options.privateFull "private.csv" privateCsv ∧
        RunnerFile env options disk' selected (expectedPath options.privateFull) "private.expected"
          privateExpected := by
  have htiers := isTiers_parseTiers htiers
  obtain ⟨rows, rows', hrun⟩ := generate_run horder htiers hrun
  obtain ⟨selected, hselected⟩ := runnerFiles_selected htiers hrun
  have hmanifest := hrun.manifest
  have hdataset := generateRows_isDataset defaultChannels_le hrun.publicRows
  have hdataset' := generateRows_isDataset defaultChannels_le hrun.privateRows
  have hlast : options.publicRows ∈ options.tiers := List.mem_of_getLast? htiers.last
  have hspreads (tier : Int64) (hmem : tier ∈ options.tiers) :
      Expected.Spread (tierRows rows tier) :=
    spread_tierRows hdataset htiers hmem (hspread rows hrun.publicRows tier hmem)
  have hspreads' : Expected.Spread rows' := by
    by_cases hdvd : 2 ^ 32 ∣ options.privateRows.toInt.toNat
    · exact hspread' rows' hrun.privateRows hdvd
    · apply Expected.spread_of_not_dvd
      rwa [show rows'.length = options.privateRows.toInt.toNat from hdataset'.length]
  have hexpected := (hrun.tiers _ hlast).expected
  rw [tierRows_all hdataset] at hexpected
  refine ⟨?_, ?_, csv rows, expectedOf env options.threads (csv rows), csv rows',
    expectedOf env options.threads (csv rows'), selected,
    ⟨generateFile_eq hrun.publicRows, hexpected⟩,
    ⟨generateFile_eq hrun.privateRows, hrun.privateArchived.expected⟩, hselected⟩
  · rw [hmanifest]
    exact validateManifest_manifestOf htiers hrun.privateRows_pos hnow hcontest hrevision hcompress
      (slots_packed hrun hspreads hspreads')
  · rw [hmanifest]
    exact names_nodup htiers hrun.privateRows_pos rows rows'

/-- A run with two public tiers, of one row and of two rows. -/
def sampleOptions : GenerateOptions :=
  { outputDir := "data", runnerDir := "runner", contestId := "contest", publicRows := 2,
    privateRows := 1, publicSeed := 1, privateSeed := 2, tiers := [1, 2], threads := 1,
    revision := "test" }

/-- The bytes in a frame of one raw block, which has at most 128 KiB. -/
def rawFrame (bytes : Bytes) : Bytes :=
  let size := bytes.length
  let header := 8 * size + 1
  [0x28, 0xB5, 0x2F, 0xFD, 0xA0, UInt8.ofNat size, UInt8.ofNat (size / 256),
    UInt8.ofNat (size / 65536), 0, UInt8.ofNat header, UInt8.ofNat (header / 256),
    UInt8.ofNat (header / 65536)] ++ bytes

/-- Every draw is the first channel, the start of the year and 100 characters. -/
def sampleEnvironment : Environment :=
  { random := fun _ _ _ => ⟨0, 0, 0, 0, 0, 100, .zero⟩
    reads := fun _ => 0
    mean := fun _ _ => Utf8.encodeAscii "100.00".toList
    compress := rawFrame
    sha256 := fun _ _ => 0
    marshal := fun _ => []
    order := id
    now := 1798761600 }

theorem length_flatten_le {lines : List Bytes} {n : ℕ} (h : ∀ line ∈ lines, line.length ≤ n) :
    lines.flatten.length ≤ lines.length * n := by
  rw [List.length_flatten, ← List.length_map List.length]
  exact List.sum_le_card_nsmul _ _ fun k hk => by
    obtain ⟨line, hline, rfl⟩ := List.mem_map.mp hk
    exact h line hline

theorem length_csv_generated {part : List Row} (hrows : ∀ r ∈ part, Generated r) :
    (csv part).length ≤ 55 + part.length * 131 := by
  have hheader : (header ++ [newline]).length = 55 := by decide
  rw [csv, List.length_append, hheader, ← List.length_map Row.line]
  refine Nat.add_le_add_left (length_flatten_le fun line hline => ?_) 55
  obtain ⟨r, hr, rfl⟩ := List.mem_map.mp hline
  exact (hrows r hr).length_line_le

theorem least_narrow_lt {g : List Row} (h : g ≠ []) : least (Stats.narrow g) < 2 ^ 16 :=
  Stats.lt_of_mem_narrow (least_mem (Stats.narrow_ne_nil h))

section Sample
variable {part : List Row}

/-- A record of the sample is short. -/
theorem length_line_sample {path : Bytes} {month : Fin 12} (hpath : path.length ≤ 104)
    (hgroup : group part path month ≠ []) (hfew : part.length < 10) :
    (Stats.line sampleEnvironment.mean UInt64.toNat UInt64.ofNat path month
      (group part path month)).length ≤ 200 := by
  have hlabel := length_monthLabel month
  have hleast := (Decimal.length_encode_le_iff (show 0 < 5 by decide)).mpr
    (Nat.lt_of_lt_of_le (least_narrow_lt hgroup) (show 2 ^ 16 ≤ 10 ^ 5 by decide))
  have hgreatest := (Decimal.length_encode_le_iff (show 0 < 5 by decide)).mpr
    (Nat.lt_of_lt_of_le (Stats.greatest_narrow_lt (group part path month))
      (show 2 ^ 16 ≤ 10 ^ 5 by decide))
  have hcount : (group part path month).length < 10 ^ 1 :=
    Nat.lt_of_le_of_lt (List.length_filter_le _ _) hfew
  have hmessages := (Decimal.length_encode_le_iff (show 0 < 1 by decide)).mpr hcount
  have hstamps := (Decimal.length_encode_le_iff (show 0 < 20 by decide)).mpr
    (Nat.lt_of_lt_of_le (UInt64.toNat_lt (UInt64.ofNat (stamps (group part path month)).sum))
      (show 2 ^ 64 ≤ 10 ^ 20 by decide))
  have hmean (total count : ℤ) : (sampleEnvironment.mean total count).length = 6 := rfl
  simp only [Stats.line, recordLine, List.length_append, List.length_cons, List.length_nil, hmean]
  omega

/-- The records of a few rows are short. -/
theorem length_expectedOf_sample (hrows : ∀ r ∈ part, Generated r) (hfew : part.length < 10) :
    IsExpected sampleEnvironment 1 (csv part) (expectedOf sampleEnvironment 1 (csv part)) ∧
      (expectedOf sampleEnvironment 1 (csv part)).length ≤ 9 * (12 * 200) := by
  have hlength : (csv part).length < 2 ^ 37 := by
    have hle := length_csv_generated hrows
    omega
  have hpaths : (part.map Row.path).dedup.length < 10 :=
    Nat.lt_of_le_of_lt (List.dedup_sublist _).length_le (by rwa [List.length_map])
  have hcountable : TagMap.Countable part := {
    valid := fun r hr => (hrows r hr).valid
    channels := by omega
    path_lt := fun r hr => Nat.lt_of_le_of_lt (hrows r hr).path.length_le (by decide)
    messageLength_lt := fun r hr => Nat.lt_of_le_of_lt (hrows r hr).messageLength_le (by decide)
    stampCount_lt := fun r hr => Nat.lt_of_le_of_lt (hrows r hr).stampCount_le (by decide)
    group_lt := fun path month =>
      Nat.lt_of_le_of_lt (List.length_filter_le _ _) (Nat.lt_trans hfew (by decide)) }
  obtain ⟨paths, hnodup, hmem, houtput⟩ :=
    Expected.output_csv sampleEnvironment.mean hcountable
      (Chunks.dividable_of_lt (Chunks.le_length_csv part) hlength 1)
  have hne : csv part ≠ [] := List.append_ne_nil_of_left_ne_nil (by decide) _
  have hgenerate := Expected.generate_eq_some.mpr
    ⟨(by decide : (0 : Int64) < 1), hne, hlength.le.trans (by decide), houtput⟩
  refine ⟨⟨_, hgenerate, by rw [expectedOf, hgenerate, Option.getD_some]⟩, ?_⟩
  have hcount : paths.length ≤ 9 := by
    have hsub : paths ⊆ part.map Row.path := fun path hpath =>
      List.mem_map.mpr ((hmem path).mp hpath)
    have hle := (hnodup.subperm hsub).length_le
    rw [List.length_map] at hle
    omega
  have hmonths (path : Bytes) : (channelLines (Stats.line sampleEnvironment.mean UInt64.toNat
      UInt64.ofNat) part path).length ≤ 12 :=
    (List.length_filterMap_le _ _).trans_eq List.length_finRange
  rw [expectedOf, hgenerate, Option.getD_some]
  refine (length_flatten_le (n := 200) fun line hline => ?_).trans ?_
  · obtain ⟨path, hpath, hline⟩ := List.mem_flatMap.mp hline
    obtain ⟨month, hgroup, rfl⟩ := mem_channelLines.mp hline
    obtain ⟨r, hr, rfl⟩ := (hmem path).mp (StableSort.mem_sliceStable.mp hpath)
    exact length_line_sample (hrows r hr).path.length_le hgroup hfew
  · rw [← Nat.mul_assoc]
    refine Nat.mul_le_mul_right 200 ?_
    rw [List.length_flatMap]
    have hsum := List.sum_le_card_nsmul _ 12 (List.forall_mem_map.mpr fun path
      (_ : path ∈ StableSort.sliceStable ByteOrder.less paths) => hmonths path)
    rw [List.length_map, (StableSort.sliceStable_perm _ _).length_eq, smul_eq_mul] at hsum
    exact hsum.trans (Nat.mul_le_mul_right 12 hcount)

theorem archived_sample (hrows : ∀ r ∈ part, Generated r) (hfew : part.length < 10) :
    Archived sampleEnvironment 1 (csv part) := by
  have hcsv := length_csv_generated hrows
  obtain ⟨hexpected, hlength⟩ := length_expectedOf_sample hrows hfew
  have hframe (bytes : Bytes) : (sampleEnvironment.compress bytes).length = 12 + bytes.length := by
    rw [show sampleEnvironment.compress bytes = rawFrame bytes from rfl, rawFrame,
      List.length_append]
    rfl
  refine ⟨hexpected, ?_, ?_, ?_, ?_⟩
  · omega
  · omega
  · rw [hframe]
    omega
  · rw [hframe]
    omega

theorem parseTiers_sample : parseTiers (GoText.ofString "1,2") sampleOptions.publicRows =
    .ok sampleOptions.tiers := by rfl

/-- The run with two tiers succeeds. -/
theorem exists_generate_sample : ∃ manifest disk',
    generate sampleEnvironment sampleOptions (fun _ => none) = .ok (manifest, disk') := by
  obtain ⟨rows, hrows, hdataset⟩ := exists_generateRows sampleEnvironment.random
    sampleOptions.publicDataset (by decide) (by decide) (by decide)
  obtain ⟨rows', hrows', hdataset'⟩ := exists_generateRows sampleEnvironment.random
    sampleOptions.privateDataset (by decide) (by decide) (by decide)
  have htwo : rows.length = 2 := hdataset.length
  have hone : rows'.length = 1 := hdataset'.length
  have hfits : Fits sampleEnvironment sampleOptions rows rows' := {
    publicRows := hrows
    privateRows := hrows'
    tiers := fun tier _ => archived_sample
      (fun r hr => hdataset.generated r (List.take_subset _ _ hr))
      (Nat.lt_of_le_of_lt (List.length_take_le' _ _) (by omega))
    privateArchived := archived_sample hdataset'.generated (by omega)
    marshal := fun _ => Nat.two_pow_pos 63 }
  obtain ⟨⟨manifest, disk'⟩, hrun⟩ := exists_generate (fun files => List.Perm.refl files)
    (isTiers_parseTiers parseTiers_sample) (by decide) (by decide) (by decide) hfits fun _ => none
  exact ⟨manifest, disk', hrun⟩

end Sample

theorem generated_importable_sample : ∃ manifest disk',
    generate sampleEnvironment sampleOptions (fun _ => none) = .ok (manifest, disk') ∧
      validateManifest manifest.decoded = .ok () := by
  obtain ⟨manifest, disk', hrun⟩ := exists_generate_sample
  refine ⟨manifest, disk', hrun, (generated_importable (fun files => List.Perm.refl files) ?_
    (by decide) ?_ ?_ parseTiers_sample (by decide) (by decide) hrun).1⟩
  · intro bytes _
    exact List.cons_ne_nil _ _
  · intro part _ tier htier hdvd
    simp only [sampleOptions, List.mem_cons, List.not_mem_nil, or_false] at htier
    rcases htier with rfl | rfl <;> exact absurd hdvd (by decide)
  · intro part _ hdvd
    exact absurd hdvd (by decide)

end Importable
end OneBrc.Data
