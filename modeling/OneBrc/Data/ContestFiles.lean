import OneBrc.Data.Generate

/-! What a run of `Generate` leaves behind: the contents of the files and the artifacts. -/
namespace OneBrc.Data
open Lib Analyzer

theorem mapError_eq_ok {ε ε' α : Type} {f : ε → ε'} {x : Except ε α} {a : α} :
    x.mapError f = .ok a ↔ x = .ok a := by
  cases x with
  | error e => simp [Except.mapError]
  | ok b => simp [Except.mapError]

@[simp] theorem wrap_eq_ok {α : Type} {context : String} {x : Except Failure α} {a : α} :
    wrap context x = .ok a ↔ x = .ok a := mapError_eq_ok

def scopeName (isPublic : Bool) : String := if isPublic then "public" else "private"

section Names
variable (options : GenerateOptions)

/-- The files of the datasets in the output directory. -/
def GenerateOptions.file (isPublic : Bool) (rows : Int64) (e : Extension) : Path :=
  ⟨options.outputDir, datasetName (scopeName isPublic) rows e⟩

theorem publicFull_eq : options.publicFull = options.file true options.publicRows .csv := rfl

theorem privateFull_eq : options.privateFull = options.file false options.privateRows .csv := rfl

theorem tierFile_eq (rows : Int64) : options.tierFile rows = options.file true rows .csv := by
  unfold GenerateOptions.tierFile
  split
  · next h =>
    rw [h]
    rfl
  · rfl

@[simp] theorem expectedPath_file (isPublic : Bool) (rows : Int64) :
    expectedPath (options.file isPublic rows .csv) = options.file isPublic rows .expected := by
  unfold expectedPath GenerateOptions.file datasetName
  rw [Path.mk.injEq]
  exact ⟨rfl, congrArg (· ++ ".expected") (trimSuffix_append _ ".csv")⟩

@[simp] theorem zstPath_csv (isPublic : Bool) (rows : Int64) :
    zstPath (options.file isPublic rows .csv) = options.file isPublic rows .csvZst := by
  simp [zstPath, GenerateOptions.file, datasetName, Extension.text, String.append_assoc]

@[simp] theorem zstPath_expected (isPublic : Bool) (rows : Int64) :
    zstPath (options.file isPublic rows .expected) = options.file isPublic rows .expectedZst := by
  simp [zstPath, GenerateOptions.file, datasetName, Extension.text, String.append_assoc]

variable {options}

theorem file_inj {isPublic isPublic' : Bool} {rows rows' : Int64} {e e' : Extension}
    (hrows : 0 < rows) (hrows' : 0 < rows') :
    options.file isPublic rows e = options.file isPublic' rows' e' ↔
      isPublic = isPublic' ∧ rows = rows' ∧ e = e' := by
  have hscope (isPublic : Bool) : '-' ∉ (scopeName isPublic).toList := by
    cases isPublic <;> decide
  constructor
  · intro h
    obtain ⟨hname, hrest⟩ := datasetName_inj (hscope isPublic) (hscope isPublic') hrows hrows'
      (congrArg Path.name h)
    refine ⟨?_, hrest⟩
    revert hname
    cases isPublic <;> cases isPublic' <;> decide
  · rintro ⟨rfl, rfl, rfl⟩
    rfl

/-- A name without a hyphen is none of a dataset. -/
theorem file_ne_of_plain {isPublic : Bool} {rows : Int64} {e : Extension} {dir name : String}
    (h : '-' ∉ name.toList) : options.file isPublic rows e ≠ ⟨dir, name⟩ := by
  intro heq
  have hname : datasetName (scopeName isPublic) rows e = name := congrArg Path.name heq
  rw [← hname] at h
  exact h hyphen_mem_datasetName

end Names

section Packaging
variable {env : Environment} {contestId id kind label : String} {rows : Int64} {isPublic : Bool}
  {path : Path} {bytes : Bytes} {disk disk' : Disk} {a : Artifact}

variable (env contestId id kind label rows isPublic path bytes) in
/-- The artifact of a file with these contents. -/
def artifactOf : Artifact where
  id := id
  kind := kind
  label := label
  objectKey := "datasets/" ++ contestId ++ "/" ++ scopeName isPublic ++ "/" ++ (zstPath path).name
  rows := rows
  compressedBytes := Int64.ofNat (env.compress bytes).length
  uncompressedBytes := Int64.ofNat bytes.length
  compressedSha256 := hexEncode (env.sha256 (env.compress bytes))
  uncompressedSha256 := hexEncode (env.sha256 bytes)
  isPublic := isPublic

theorem zstPath_ne (path : Path) : path ≠ zstPath path := by
  intro h
  have hlength := congrArg (fun path => path.name.toList.length) h
  simp [zstPath] at hlength

theorem packageArtifact_eq (h : disk.Has path bytes) :
    packageArtifact env contestId id kind label rows isPublic path disk =
      (wrap ("compress " ++ path.dir ++ "/" ++ path.name)
        ((disk.write (zstPath path) (env.compress bytes)).mapError .file)).map
          fun disk' =>
            (disk', artifactOf env contestId id kind label rows isPublic path bytes) := by
  obtain ⟨hlt, hread⟩ := h.read
  simp only [packageArtifact, hread, Except.mapError, bind, Except.bind]
  cases hwrite : disk.write (zstPath path) (env.compress bytes) with
  | error e => rfl
  | ok disk' =>
    obtain ⟨hzst, hframe⟩ := Disk.write_eq_ok hwrite
    obtain ⟨hlt, hsource⟩ := (h.congr (hframe path (zstPath_ne path))).read
    obtain ⟨hlt', htarget⟩ := hzst.read
    simp only [wrap, Except.mapError, info, hsource, htarget, bind, Except.bind, Except.map]
    rfl

/-- Packaging writes the archive only. -/
theorem packageArtifact_spec (h : disk.Has path bytes)
    (hrun : packageArtifact env contestId id kind label rows isPublic path disk = .ok (disk', a)) :
    a = artifactOf env contestId id kind label rows isPublic path bytes ∧
      (env.compress bytes).length < 2 ^ 63 ∧
      ∀ other, other ≠ zstPath path → disk' other = disk other := by
  rw [packageArtifact_eq h] at hrun
  cases hwrite : disk.write (zstPath path) (env.compress bytes) with
  | error e =>
    rw [hwrite] at hrun
    contradiction
  | ok disk₁ =>
    rw [hwrite] at hrun
    obtain ⟨rfl, rfl⟩ := Prod.mk.inj (Except.ok.inj hrun)
    obtain ⟨hzst, hframe⟩ := Disk.write_eq_ok hwrite
    exact ⟨rfl, hzst.length_lt, hframe⟩

variable (contestId id kind label rows isPublic) in
theorem exists_packageArtifact (h : disk.Has path bytes)
    (hfit : (env.compress bytes).length < 2 ^ 63) :
    ∃ result, packageArtifact env contestId id kind label rows isPublic path disk = .ok result := by
  obtain ⟨disk', hwrite⟩ := Disk.exists_write hfit disk (zstPath path)
  rw [packageArtifact_eq h, hwrite]
  exact ⟨_, rfl⟩

/-- The lines of the expected output of a dataset, one after the other. -/
def IsExpected (env : Environment) (threads : Int64) (input output : Bytes) : Prop :=
  ∃ lines, Expected.generate env.mean input threads = some lines ∧ output = lines.flatten

/-- It is computed from the dataset and the number of threads. -/
def expectedOf (env : Environment) (threads : Int64) (input : Bytes) : Bytes :=
  ((Expected.generate env.mean input threads).getD []).flatten

theorem generateExpected_spec {threads : Int64} {output : Path} (h : disk.Has path bytes)
    (hrun : generateExpected env threads path output disk = .ok disk') :
    IsExpected env threads bytes (expectedOf env threads bytes) ∧
      disk'.Has output (expectedOf env threads bytes) ∧
      ∀ other, other ≠ output → disk' other = disk other := by
  obtain ⟨hlt, hread⟩ := h.read
  simp only [generateExpected, hread, Except.mapError, bind, Except.bind] at hrun
  cases hlines : Expected.generate env.mean bytes threads with
  | none =>
    rw [hlines] at hrun
    contradiction
  | some lines =>
    rw [hlines] at hrun
    obtain ⟨hhas, hframe⟩ := Disk.write_eq_ok (mapError_eq_ok.mp hrun)
    have hexpected : expectedOf env threads bytes = lines.flatten := by
      rw [expectedOf, hlines, Option.getD_some]
    rw [hexpected]
    exact ⟨⟨lines, hlines, rfl⟩, hhas, hframe⟩

theorem exists_generateExpected {threads : Int64} (output : Path) (h : disk.Has path bytes)
    (hexpected : IsExpected env threads bytes (expectedOf env threads bytes))
    (hfit : (expectedOf env threads bytes).length < 2 ^ 63) :
    ∃ disk', generateExpected env threads path output disk = .ok disk' := by
  obtain ⟨hlt, hread⟩ := h.read
  obtain ⟨lines, hlines, heq⟩ := hexpected
  obtain ⟨disk', hwrite⟩ := Disk.exists_write hfit disk output
  refine ⟨disk', ?_⟩
  rw [heq] at hwrite
  simp only [generateExpected, hread, hlines, hwrite, Except.mapError, bind, Except.bind]

end Packaging

section Prefixes
variable {r : Row} {rows : List Row}

theorem Generated.length_line_le (h : Generated r) : r.line.length ≤ 131 := by
  have hpath := h.path.length_le
  have htime := length_encode_of_in2027 h.in2027
  have hlength := (Decimal.length_encode_le_iff (show 0 < 5 by decide)).mpr
    (Nat.lt_of_le_of_lt h.messageLength_le (by decide))
  have hstamps := (Decimal.length_encode_le_iff (show 0 < 3 by decide)).mpr
    (Nat.lt_of_le_of_lt h.stampCount_le (by decide))
  simp only [Row.line, List.length_append, List.length_cons, List.length_nil]
  omega

theorem Generated.sourceLine (h : Generated r) : SourceLine r.line where
  terminated := h.valid.terminated
  noCR hmem := by
    have hdigits (n : ℕ) : (13 : UInt8) ∉ Decimal.encode n := Decimal.notMem_encode (by decide)
    have hpath : (13 : UInt8) ∉ r.path := by
      intro hmem
      rcases h.letters 13 hmem with heq | hletter
      · exact absurd heq (by decide)
      · exact absurd hletter.1 (by decide)
    simp [Row.line, hdigits, hpath, comma, newline] at hmem
  length_le := h.length_line_le.trans (by decide)

theorem sourceLines_csv (hrows : ∀ r ∈ rows, Generated r) :
    ∀ line ∈ (header ++ [newline]) :: rows.map Row.line, SourceLine line := by
  rw [List.forall_mem_cons]
  refine ⟨⟨⟨header, rfl, by decide⟩, by decide, by decide⟩, fun line hline => ?_⟩
  obtain ⟨r, hr, rfl⟩ := List.mem_map.mp hline
  exact (hrows r hr).sourceLine

variable {read : ℕ → ℕ} {n : ℕ}

/-- A prefix of a generated dataset has its first rows. -/
theorem writePrefix_csv {destination : Bytes} (hrows : ∀ r ∈ rows, Generated r)
    (hrun : writePrefix read (csv rows) n = .ok destination) :
    destination = csv (rows.take n) := by
  have hflatten : csv rows = ((header ++ [newline]) :: rows.map Row.line).flatten := rfl
  rw [hflatten] at hrun
  rw [(writePrefix_exact read n (sourceLines_csv hrows)).2.1 destination hrun, csv, List.map_take]
  rfl

theorem exists_writePrefix_csv (read : ℕ → ℕ) (hrows : ∀ r ∈ rows, Generated r)
    (hle : n ≤ rows.length) :
    ∃ destination, writePrefix read (csv rows) n = .ok destination := by
  apply (writePrefix_exact read n (sourceLines_csv hrows)).1.mpr
  refine ⟨?_, List.cons_ne_nil _ _⟩
  rwa [List.drop_one, List.tail_cons, List.length_map]

end Prefixes

section Loops
variable {env : Environment} {options : GenerateOptions} {disk disk' : Disk}
  {rows : List Row} {tiers : List Int64}

/-- The rows of a tier of the public dataset. -/
def tierRows (rows : List Row) (tier : Int64) : List Row := rows.take tier.toInt.toNat

/-- The prefix of a tier has its rows; the whole dataset has all of them. -/
theorem prefixTier_spec {tier : Int64} (hrows : ∀ r ∈ rows, Generated r)
    (hlength : rows.length = options.publicRows.toInt.toNat)
    (hfull : disk.Has (options.file true options.publicRows .csv) (csv rows))
    (hrun : prefixTier env options disk tier = .ok disk') :
    disk'.Has (options.file true tier .csv) (csv (tierRows rows tier)) ∧
      ∀ path, path ≠ options.file true tier .csv → disk' path = disk path := by
  unfold prefixTier at hrun
  split at hrun
  · next heq =>
    obtain rfl := Except.ok.inj hrun
    rw [heq, tierRows, ← hlength, List.take_length]
    exact ⟨hfull, fun _ _ => rfl⟩
  · rw [wrap_eq_ok, publicFull_eq, tierFile_eq] at hrun
    obtain ⟨hlt, hread⟩ := hfull.read
    simp only [writePrefixFile, hread, Except.mapError, bind, Except.bind] at hrun
    cases hpart : writePrefix env.reads (csv rows) tier.toInt.toNat with
    | error e =>
      rw [hpart] at hrun
      contradiction
    | ok bytes =>
      rw [hpart] at hrun
      obtain ⟨hhas, hframe⟩ := Disk.write_eq_ok (mapError_eq_ok.mp hrun)
      rw [writePrefix_csv hrows hpart] at hhas
      exact ⟨hhas, hframe⟩

/-- Later tiers keep the whole dataset. -/
theorem prefixTier_full {tier : Int64} (hpublic : 0 < options.publicRows) (hpos : 0 < tier)
    (hrows : ∀ r ∈ rows, Generated r) (hlength : rows.length = options.publicRows.toInt.toNat)
    (hfull : disk.Has (options.file true options.publicRows .csv) (csv rows))
    (hrun : prefixTier env options disk tier = .ok disk') :
    disk'.Has (options.file true options.publicRows .csv) (csv rows) := by
  obtain ⟨hhas, hframe⟩ := prefixTier_spec hrows hlength hfull hrun
  by_cases heq : options.publicRows = tier
  · rwa [← heq, tierRows, ← hlength, List.take_length] at hhas
  · exact hfull.congr (hframe _ fun h => heq ((file_inj hpublic hpos).mp h).2.1)

/-- After the prefixes of some tiers: they have their rows, other files are not changed. -/
theorem prefixTier_foldlM (hrows : ∀ r ∈ rows, Generated r)
    (hlength : rows.length = options.publicRows.toInt.toNat)
    (hpos : ∀ tier ∈ tiers, 0 < tier) (hpublic : 0 < options.publicRows)
    (hfull : disk.Has (options.file true options.publicRows .csv) (csv rows))
    (hrun : tiers.foldlM (prefixTier env options) disk = .ok disk') :
    (∀ tier ∈ tiers, disk'.Has (options.file true tier .csv) (csv (tierRows rows tier))) ∧
      ∀ path, (∀ tier ∈ tiers, path ≠ options.file true tier .csv) → disk' path = disk path := by
  induction tiers generalizing disk with
  | nil =>
    obtain rfl := Except.ok.inj hrun
    exact ⟨by simp, fun _ _ => rfl⟩
  | cons tier tiers ih =>
    obtain ⟨hpos', hposs⟩ := List.forall_mem_cons.mp hpos
    rw [List.foldlM_cons] at hrun
    obtain ⟨disk₁, hstep, hrun⟩ := Fallible.bind_eq_ok.mp hrun
    have hfile := prefixTier_spec hrows hlength hfull hstep
    have hfull' := prefixTier_full hpublic hpos' hrows hlength hfull hstep
    obtain ⟨htiers, hframe⟩ := ih hposs hfull' hrun
    refine ⟨List.forall_mem_cons.mpr ⟨?_, htiers⟩, ?_⟩
    · by_cases hmem : tier ∈ tiers
      · exact htiers tier hmem
      · exact hfile.1.congr (hframe _ fun other hother h =>
          hmem (((file_inj hpos' (hposs other hother)).mp h).2.1 ▸ hother))
    · intro path hpath
      obtain ⟨hne, hnes⟩ := List.forall_mem_cons.mp hpath
      exact (hframe path hnes).trans (hfile.2 path hne)

variable (env) in
/-- The prefixes are written if they fit. -/
theorem exists_prefixTier_foldlM (hrows : ∀ r ∈ rows, Generated r)
    (hlength : rows.length = options.publicRows.toInt.toNat)
    (hpos : ∀ tier ∈ tiers, 0 < tier) (hpublic : 0 < options.publicRows)
    (hle : ∀ tier ∈ tiers, tier ≤ options.publicRows)
    (hfit : ∀ tier ∈ tiers, (csv (tierRows rows tier)).length < 2 ^ 63)
    (hfull : disk.Has (options.file true options.publicRows .csv) (csv rows)) :
    ∃ disk', tiers.foldlM (prefixTier env options) disk = .ok disk' := by
  induction tiers generalizing disk with
  | nil => exact ⟨disk, rfl⟩
  | cons tier tiers ih =>
    obtain ⟨hpos', hposs⟩ := List.forall_mem_cons.mp hpos
    obtain ⟨hle', hles⟩ := List.forall_mem_cons.mp hle
    obtain ⟨hfit', hfits⟩ := List.forall_mem_cons.mp hfit
    have hstep : ∃ disk₁, prefixTier env options disk tier = .ok disk₁ := by
      unfold prefixTier
      split
      · exact ⟨disk, rfl⟩
      · have hcount : tier.toInt.toNat ≤ rows.length := by
          rw [hlength]
          exact Int.toNat_le_toNat (Int64.le_iff_toInt_le.mp hle')
        obtain ⟨bytes, hpart⟩ := exists_writePrefix_csv env.reads hrows hcount
        have hbytes := writePrefix_csv hrows hpart
        obtain ⟨hlt, hread⟩ := hfull.read
        obtain ⟨disk₁, hwrite⟩ := Disk.exists_write (hbytes ▸ hfit') disk
          (options.file true tier .csv)
        refine ⟨disk₁, wrap_eq_ok.mpr ?_⟩
        rw [publicFull_eq, tierFile_eq]
        simp only [writePrefixFile, hread, hpart, hwrite, Except.mapError, bind, Except.bind]
    obtain ⟨disk₁, hstep⟩ := hstep
    obtain ⟨disk', hrun⟩ := ih hposs hles hfits
      (prefixTier_full hpublic hpos' hrows hlength hfull hstep)
    refine ⟨disk', ?_⟩
    rw [List.foldlM_cons, hstep]
    exact hrun

/-- The input and the expected output of a tier. -/
def tierArtifacts (env : Environment) (options : GenerateOptions) (tier : Int64) (input : Bytes) :
    List Artifact :=
  let label := tierLabel tier
  [artifactOf env options.contestId ("public-" ++ label ++ "-input") "input"
      ("Public " ++ label.toUpper ++ " input") tier true (options.file true tier .csv) input,
    artifactOf env options.contestId ("public-" ++ label ++ "-expected") "expected"
      ("Public " ++ label.toUpper ++ " expected") tier true (options.file true tier .expected)
      (expectedOf env options.threads input)]

/-- The archives of a dataset fit the file system. -/
structure Archived (env : Environment) (threads : Int64) (input : Bytes) : Prop where
  expected : IsExpected env threads input (expectedOf env threads input)
  input_lt : input.length < 2 ^ 63
  expected_lt : (expectedOf env threads input).length < 2 ^ 63
  compressed_lt : (env.compress input).length < 2 ^ 63
  compressedExpected_lt : (env.compress (expectedOf env threads input)).length < 2 ^ 63

/-- A dataset is packaged: its expected output is written, and two archives. -/
theorem packageDataset_spec {isPublic : Bool} {tier : Int64} {input : Bytes} {disk₁ disk₂ : Disk}
    {contestId id id' label label' kind kind' : String} {a a' : Artifact} (hpos : 0 < tier)
    (hinput : disk.Has (options.file isPublic tier .csv) input)
    (hexpected : generateExpected env options.threads (options.file isPublic tier .csv)
      (options.file isPublic tier .expected) disk = .ok disk₁)
    (ha : packageArtifact env contestId id kind label tier isPublic
      (options.file isPublic tier .csv) disk₁ = .ok (disk₂, a))
    (ha' : packageArtifact env contestId id' kind' label' tier isPublic
      (options.file isPublic tier .expected) disk₂ = .ok (disk', a')) :
    Archived env options.threads input ∧
      disk'.Has (options.file isPublic tier .expected) (expectedOf env options.threads input) ∧
      (a = artifactOf env contestId id kind label tier isPublic (options.file isPublic tier .csv)
          input ∧
        a' = artifactOf env contestId id' kind' label' tier isPublic
          (options.file isPublic tier .expected) (expectedOf env options.threads input)) ∧
      ∀ path, (∀ e, e ≠ .csv → path ≠ options.file isPublic tier e) → disk' path = disk path := by
  have hne {e e' : Extension} (h : e ≠ e') :
      options.file isPublic tier e ≠ options.file isPublic tier e' :=
    fun heq => h ((file_inj hpos hpos).mp heq).2.2
  obtain ⟨hlines, hhas, hframe⟩ := generateExpected_spec hinput hexpected
  obtain ⟨rfl, hfit, hframe'⟩ := packageArtifact_spec
    (hinput.congr (hframe _ (hne (by decide)))) ha
  rw [zstPath_csv] at hframe'
  have hhas' := hhas.congr (hframe' _ (hne (by decide)))
  obtain ⟨rfl, hfit', hframe''⟩ := packageArtifact_spec hhas' ha'
  rw [zstPath_expected] at hframe''
  refine ⟨⟨hlines, hinput.length_lt, hhas.length_lt, hfit, hfit'⟩,
    hhas'.congr (hframe'' _ (hne (by decide))), ⟨rfl, rfl⟩, fun path hpath => ?_⟩
  rw [hframe'' path (hpath _ (by decide)), hframe' path (hpath _ (by decide)),
    hframe path (hpath _ (by decide))]

/-- A dataset is packaged if everything fits. -/
theorem exists_packageDataset {isPublic : Bool} {tier : Int64} {input : Bytes} (hpos : 0 < tier)
    (hinput : disk.Has (options.file isPublic tier .csv) input)
    (harchived : Archived env options.threads input) (contestId id label id' label' : String) :
    ∃ disk₁ disk₂ disk₃ a a', generateExpected env options.threads
        (options.file isPublic tier .csv) (options.file isPublic tier .expected) disk = .ok disk₁ ∧
      packageArtifact env contestId id "input" label tier isPublic
        (options.file isPublic tier .csv) disk₁ = .ok (disk₂, a) ∧
      packageArtifact env contestId id' "expected" label' tier isPublic
        (options.file isPublic tier .expected) disk₂ = .ok (disk₃, a') := by
  have hne {e e' : Extension} (h : e ≠ e') :
      options.file isPublic tier e ≠ options.file isPublic tier e' :=
    fun heq => h ((file_inj hpos hpos).mp heq).2.2
  obtain ⟨disk₁, h₁⟩ := exists_generateExpected (options.file isPublic tier .expected) hinput
    harchived.expected harchived.expected_lt
  obtain ⟨-, hhas, hframe⟩ := generateExpected_spec hinput h₁
  have hinput₁ := hinput.congr (hframe _ (hne (by decide)))
  obtain ⟨⟨disk₂, a⟩, h₂⟩ := exists_packageArtifact contestId id "input" label tier isPublic
    hinput₁ harchived.compressed_lt
  obtain ⟨-, -, hframe'⟩ := packageArtifact_spec hinput₁ h₂
  rw [zstPath_csv] at hframe'
  obtain ⟨⟨disk₃, a'⟩, h₃⟩ := exists_packageArtifact contestId id' "expected" label' tier
    isPublic (hhas.congr (hframe' _ (hne (by decide)))) harchived.compressedExpected_lt
  exact ⟨disk₁, disk₂, disk₃, a, a', h₁, h₂, h₃⟩

/-- After the packaging of some tiers. -/
theorem packageTier_foldlM {items items' : List Artifact} (hpos : ∀ tier ∈ tiers, 0 < tier)
    (hnodup : tiers.Nodup) {input : Int64 → Bytes}
    (hinput : ∀ tier ∈ tiers, disk.Has (options.file true tier .csv) (input tier))
    (hrun : tiers.foldlM (packageTier env options) (disk, items) = .ok (disk', items')) :
    (∀ tier ∈ tiers, Archived env options.threads (input tier) ∧
        disk'.Has (options.file true tier .expected)
          (expectedOf env options.threads (input tier))) ∧
      items' = items ++ tiers.flatMap (fun tier => tierArtifacts env options tier (input tier)) ∧
      ∀ path, (∀ tier ∈ tiers, ∀ e, e ≠ .csv → path ≠ options.file true tier e) →
        disk' path = disk path := by
  induction tiers generalizing disk items with
  | nil =>
    obtain ⟨rfl, rfl⟩ := Prod.mk.inj (Except.ok.inj hrun)
    exact ⟨by simp, by simp, fun _ _ => rfl⟩
  | cons tier tiers ih =>
    obtain ⟨hpos', hposs⟩ := List.forall_mem_cons.mp hpos
    obtain ⟨hhead, htail⟩ := List.forall_mem_cons.mp hinput
    obtain ⟨hnew, hnodup⟩ := List.nodup_cons.mp hnodup
    rw [List.foldlM_cons] at hrun
    obtain ⟨⟨disk₁, items₁⟩, hstep, hrun⟩ := Fallible.bind_eq_ok.mp hrun
    unfold packageTier at hstep
    rw [tierFile_eq] at hstep
    dsimp only at hstep
    rw [expectedPath_file] at hstep
    obtain ⟨diskA, hexpected, hstep⟩ := Fallible.bind_eq_ok.mp hstep
    obtain ⟨⟨diskB, a⟩, ha, hstep⟩ := Fallible.bind_eq_ok.mp hstep
    obtain ⟨⟨diskC, a'⟩, ha', hstep⟩ := Fallible.bind_eq_ok.mp hstep
    obtain ⟨rfl, rfl⟩ := Prod.mk.inj (Except.ok.inj hstep)
    obtain ⟨harchived, hhas, ⟨rfl, rfl⟩, hframe⟩ :=
      packageDataset_spec hpos' hhead (wrap_eq_ok.mp hexpected) ha ha'
    have hother {other : Int64} (hmem : other ∈ tiers) (e e' : Extension) :
        options.file true other e ≠ options.file true tier e' := fun h =>
      hnew (((file_inj (hposs other hmem) hpos').mp h).2.1 ▸ hmem)
    obtain ⟨htiers, hitems, hframe'⟩ := ih hposs hnodup (fun other hmem =>
      (htail other hmem).congr (hframe _ fun e _ => hother hmem _ e)) hrun
    refine ⟨List.forall_mem_cons.mpr ⟨⟨harchived, ?_⟩, htiers⟩, ?_, ?_⟩
    · exact hhas.congr (hframe' _ fun other hmem e _ => (hother hmem e _).symm)
    · rw [hitems, List.flatMap_cons, ← List.append_assoc]
      rfl
    · intro path hpath
      obtain ⟨hne, hnes⟩ := List.forall_mem_cons.mp hpath
      exact (hframe' path hnes).trans (hframe path hne)

theorem exists_packageTier_foldlM {items : List Artifact} (hpos : ∀ tier ∈ tiers, 0 < tier)
    (hnodup : tiers.Nodup) {input : Int64 → Bytes}
    (hinput : ∀ tier ∈ tiers, disk.Has (options.file true tier .csv) (input tier))
    (harchived : ∀ tier ∈ tiers, Archived env options.threads (input tier)) :
    ∃ result, tiers.foldlM (packageTier env options) (disk, items) = .ok result := by
  induction tiers generalizing disk items with
  | nil => exact ⟨_, rfl⟩
  | cons tier tiers ih =>
    obtain ⟨hpos', hposs⟩ := List.forall_mem_cons.mp hpos
    obtain ⟨hhead, htail⟩ := List.forall_mem_cons.mp hinput
    obtain ⟨harchive, harchives⟩ := List.forall_mem_cons.mp harchived
    obtain ⟨hnew, hnodup⟩ := List.nodup_cons.mp hnodup
    obtain ⟨disk₁, disk₂, disk₃, a, a', h₁, h₂, h₃⟩ := exists_packageDataset hpos' hhead harchive
      options.contestId ("public-" ++ tierLabel tier ++ "-input")
      ("Public " ++ (tierLabel tier).toUpper ++ " input")
      ("public-" ++ tierLabel tier ++ "-expected")
      ("Public " ++ (tierLabel tier).toUpper ++ " expected")
    obtain ⟨-, -, -, hframe⟩ := packageDataset_spec hpos' hhead h₁ h₂ h₃
    have hstep : packageTier env options (disk, items) tier = .ok (disk₃, items ++ [a, a']) := by
      unfold packageTier
      rw [tierFile_eq]
      dsimp only
      rw [expectedPath_file, wrap_eq_ok.mpr h₁]
      simp only [bind, Except.bind, h₂, h₃]
      rfl
    obtain ⟨result, hrun⟩ := ih hposs hnodup (fun other hmem => (htail other hmem).congr (hframe _
      fun e _ heq => hnew (((file_inj (hposs other hmem) hpos').mp heq).2.1 ▸ hmem))) harchives
    refine ⟨result, ?_⟩
    rw [List.foldlM_cons, hstep]
    exact hrun

end Loops

section Runner
variable {env : Environment} {options : GenerateOptions} {disk : Disk}
  {files : List (Path × String)}

/-- Each file gets its name in the directory of the runner; a hyphen tells the files of datasets
from those. -/
theorem linkFiles (dir : String) (hnames : (files.map Prod.snd).Nodup)
    (hsource : ∀ f ∈ files, '-' ∈ f.1.name.toList) (hplain : ∀ f ∈ files, '-' ∉ f.2.toList)
    (hhas : ∀ f ∈ files, ∃ bytes, disk.Has f.1 bytes) :
    ∃ disk', files.foldlM (fun disk file =>
        (disk.linkOrCopy file.1 ⟨dir, file.2⟩).mapError Failure.file) disk = .ok disk' ∧
      (∀ f ∈ files, ∀ bytes, disk.Has f.1 bytes → disk'.Has ⟨dir, f.2⟩ bytes) ∧
      ∀ path, (∀ f ∈ files, path ≠ ⟨dir, f.2⟩) → disk' path = disk path := by
  induction files generalizing disk with
  | nil => exact ⟨disk, rfl, by simp, fun _ _ => rfl⟩
  | cons f files ih =>
    obtain ⟨⟨bytes, hbytes⟩, hall⟩ := List.forall_mem_cons.mp hhas
    obtain ⟨hsource', hsources⟩ := List.forall_mem_cons.mp hsource
    obtain ⟨hplain', hplains⟩ := List.forall_mem_cons.mp hplain
    rw [List.map_cons, List.nodup_cons] at hnames
    have hne {path : Path} {name : String} (hpath : '-' ∈ path.name.toList)
        (hname : '-' ∉ name.toList) : path ≠ ⟨dir, name⟩ := by
      rintro rfl
      exact hname hpath
    obtain ⟨disk₁, hrun₁, hhas₁, hframe₁⟩ := Disk.linkOrCopy_eq (hne hsource' hplain') hbytes
    have hkeep (g : Path × String) (hg : g ∈ files) : disk₁ g.1 = disk g.1 :=
      hframe₁ _ (hne (hsources g hg) hplain')
    obtain ⟨disk', hrun, hlinked, hframe⟩ := ih hnames.2 hsources hplains fun g hg =>
      (hall g hg).imp fun _ h => h.congr (hkeep g hg)
    refine ⟨disk', ?_, List.forall_mem_cons.mpr ⟨fun bytes' hbytes' => ?_,
      fun g hg bytes' hbytes' => hlinked g hg bytes' (hbytes'.congr (hkeep g hg))⟩,
      fun path hpath => ?_⟩
    · rw [List.foldlM_cons, hrun₁]
      exact hrun
    · obtain rfl := hbytes.unique hbytes'
      apply hhas₁.congr
      apply hframe
      intro g hg heq
      have hname : f.2 = g.2 := congrArg Path.name heq
      exact hnames.1 (hname ▸ List.mem_map_of_mem hg)
    · obtain ⟨hhead, htail⟩ := List.forall_mem_cons.mp hpath
      exact (hframe path htail).trans (hframe₁ path hhead)

theorem runnerFiles_eq (h : options.tiers.getLast? = some options.publicRows) :
    runnerFiles options = [(options.file true options.publicRows .csv, "public.csv"),
      (options.file true options.publicRows .expected, "public.expected"),
      (options.file false options.privateRows .csv, "private.csv"),
      (options.file false options.privateRows .expected, "private.expected")] := by
  rw [runnerFiles, h, Option.getD_some, tierFile_eq, expectedPath_file, publicFull_eq,
    privateFull_eq, expectedPath_file]

theorem mem_runnerFiles (htiers : options.tiers.getLast? = some options.publicRows)
    {f : Path × String} (hf : f ∈ runnerFiles options) :
    '-' ∈ f.1.name.toList ∧ '-' ∉ f.2.toList := by
  rw [runnerFiles_eq htiers] at hf
  simp only [List.mem_cons, List.not_mem_nil, or_false] at hf
  rcases hf with rfl | rfl | rfl | rfl <;> exact ⟨hyphen_mem_datasetName, by simp⟩

/-- The runner gets what the output directory has. -/
theorem exists_prepareRunner (horder : ∀ files, (env.order files).Perm files)
    (htiers : options.tiers.getLast? = some options.publicRows)
    (hhas : ∀ f ∈ runnerFiles options, ∃ bytes, disk.Has f.1 bytes) :
    ∃ disk', prepareRunner env options disk = .ok disk' ∧
      ∀ f ∈ runnerFiles options, ∀ bytes, disk.Has f.1 bytes → disk'.Has f.1 bytes ∧
        (options.runnerDir ≠ "" → disk'.Has ⟨options.runnerDir, f.2⟩ bytes) := by
  unfold prepareRunner
  split
  · next hdir =>
    exact ⟨disk, rfl, fun _ _ _ hbytes => ⟨hbytes, fun h => absurd hdir h⟩⟩
  · have hmem {f : Path × String} : f ∈ env.order (runnerFiles options) ↔ f ∈ runnerFiles options :=
      (horder _).mem_iff
    have hnames : ((env.order (runnerFiles options)).map Prod.snd).Nodup := by
      rw [((horder (runnerFiles options)).map Prod.snd).nodup_iff, runnerFiles_eq htiers]
      simp
    obtain ⟨disk', hrun, hlinked, hframe⟩ := linkFiles options.runnerDir hnames
      (fun f hf => (mem_runnerFiles htiers (hmem.mp hf)).1)
      (fun f hf => (mem_runnerFiles htiers (hmem.mp hf)).2) fun f hf => hhas f (hmem.mp hf)
    refine ⟨disk', hrun, fun f hf bytes hbytes => ⟨hbytes.congr (hframe _ fun g hg heq => ?_),
      fun _ => hlinked f (hmem.mpr hf) bytes hbytes⟩⟩
    apply (mem_runnerFiles htiers (hmem.mp hg)).2
    have hname : f.1.name = g.2 := congrArg Path.name heq
    rw [← hname]
    exact (mem_runnerFiles htiers hf).1

end Runner

section Runs
variable {env : Environment} {options : GenerateOptions} {disk disk' : Disk} {manifest : Manifest}

def privateArtifacts (env : Environment) (options : GenerateOptions) (input : Bytes) :
    List Artifact :=
  [artifactOf env options.contestId "private-1b-input" "input" "Private 1B input"
      options.privateRows false (options.file false options.privateRows .csv) input,
    artifactOf env options.contestId "private-1b-expected" "expected" "Private 1B expected"
      options.privateRows false (options.file false options.privateRows .expected)
      (expectedOf env options.threads input)]

/-- The manifest of the datasets with these rows. -/
def manifestOf (env : Environment) (options : GenerateOptions) (rows rows' : List Row) :
    Manifest where
  schemaVersion := 1
  contestId := options.contestId
  generatedAt := Rfc3339.format env.now
  generatorRevision := options.revision
  artifacts := options.tiers.flatMap (fun tier =>
    tierArtifacts env options tier (csv (tierRows rows tier))) ++
      privateArtifacts env options (csv rows')

/-- What the files of the runner are made of. -/
def runnerContents (env : Environment) (options : GenerateOptions) (rows rows' : List Row) :
    List (Path × String × Bytes) :=
  [(options.file true options.publicRows .csv, "public.csv", csv rows),
    (options.file true options.publicRows .expected, "public.expected",
      expectedOf env options.threads (csv rows)),
    (options.file false options.privateRows .csv, "private.csv", csv rows'),
    (options.file false options.privateRows .expected, "private.expected",
      expectedOf env options.threads (csv rows'))]

/-- A run that has written all files. -/
structure Run (env : Environment) (options : GenerateOptions) (manifest : Manifest) (disk : Disk)
    (rows rows' : List Row) : Prop where
  publicRows_pos : 0 < options.publicRows
  privateRows_pos : 0 < options.privateRows
  publicRows : generateRows env.random options.publicDataset = .ok rows
  privateRows : generateRows env.random options.privateDataset = .ok rows'
  tiers : ∀ tier ∈ options.tiers, Archived env options.threads (csv (tierRows rows tier))
  privateArchived : Archived env options.threads (csv rows')
  manifest : manifest = manifestOf env options rows rows'
  files : ∀ f ∈ runnerContents env options rows rows', disk.Has f.1 f.2.2 ∧
    (options.runnerDir ≠ "" → disk.Has ⟨options.runnerDir, f.2.1⟩ f.2.2)

theorem generateCSV_spec {path : Path} {dataset : Options}
    (hrun : generateCSV env path dataset disk = .ok disk') :
    ∃ rows, generateRows env.random dataset = .ok rows ∧ disk'.Has path (csv rows) ∧
      ∀ other, other ≠ path → disk' other = disk other := by
  obtain ⟨bytes, hbytes, hwrite⟩ := Fallible.bind_eq_ok.mp hrun
  obtain ⟨rows, hrows, hcsv⟩ := Fallible.bind_eq_ok.mp (mapError_eq_ok.mp hbytes)
  obtain rfl := Except.ok.inj hcsv
  obtain ⟨hhas, hframe⟩ := Disk.write_eq_ok (mapError_eq_ok.mp hwrite)
  exact ⟨rows, hrows, hhas, hframe⟩

theorem exists_generateCSV (disk : Disk) (path : Path) {dataset : Options} {rows : List Row}
    (hrows : generateRows env.random dataset = .ok rows) (hfit : (csv rows).length < 2 ^ 63) :
    ∃ disk', generateCSV env path dataset disk = .ok disk' := by
  obtain ⟨disk', hwrite⟩ := Disk.exists_write hfit disk path
  refine ⟨disk', ?_⟩
  simp only [generateCSV, generateFile, hrows, hwrite, Except.mapError, bind, Except.bind, pure,
    Except.pure]

theorem scope_ne {tier tier' : Int64} (ht : 0 < tier) (ht' : 0 < tier') (e e' : Extension) :
    options.file true tier e ≠ options.file false tier' e' := fun h =>
  absurd ((file_inj ht ht').mp h).1 (by decide)

/-- The two datasets are written, neither over the other. -/
theorem datasets_spec {disk₁ : Disk} {rows rows' : List Row} (hpublic : 0 < options.publicRows)
    (hprivate : 0 < options.privateRows)
    (hrows : generateRows env.random options.publicDataset = .ok rows)
    (hrows' : generateRows env.random options.privateDataset = .ok rows')
    (hrun : generateCSV env options.publicFull options.publicDataset disk = .ok disk₁)
    (hrun' : generateCSV env options.privateFull options.privateDataset disk₁ = .ok disk') :
    disk'.Has (options.file true options.publicRows .csv) (csv rows) ∧
      disk'.Has (options.file false options.privateRows .csv) (csv rows') := by
  obtain ⟨r, hr, hcsv, -⟩ := generateCSV_spec hrun
  obtain rfl := Except.ok.inj (hr.symm.trans hrows)
  obtain ⟨r', hr', hcsv', hframe⟩ := generateCSV_spec hrun'
  obtain rfl := Except.ok.inj (hr'.symm.trans hrows')
  exact ⟨hcsv.congr (hframe _ (scope_ne hpublic hprivate _ _)), hcsv'⟩

/-- The prefixes leave the private dataset as it is. -/
theorem prefixes_spec {rows rows' : List Row} (hdataset : IsDataset options.publicDataset rows)
    (htiers : IsTiers options.publicRows options.tiers) (hpublic : 0 < options.publicRows)
    (hprivate : 0 < options.privateRows)
    (hfull : disk.Has (options.file true options.publicRows .csv) (csv rows))
    (hcsv : disk.Has (options.file false options.privateRows .csv) (csv rows'))
    (hrun : options.tiers.foldlM (prefixTier env options) disk = .ok disk') :
    (∀ tier ∈ options.tiers, disk'.Has (options.file true tier .csv) (csv (tierRows rows tier))) ∧
      disk'.Has (options.file false options.privateRows .csv) (csv rows') := by
  obtain ⟨htier, hframe⟩ := prefixTier_foldlM hdataset.generated hdataset.length htiers.pos hpublic
    hfull hrun
  exact ⟨htier, hcsv.congr (hframe _ fun tier hmem =>
    (scope_ne (htiers.pos tier hmem) hprivate _ _).symm)⟩

/-- All datasets are packaged, the datasets themselves are not changed. -/
theorem packageAll_spec {items : List Artifact} {input : Int64 → Bytes} {input' : Bytes}
    (htiers : IsTiers options.publicRows options.tiers) (hprivate : 0 < options.privateRows)
    (hinput : ∀ tier ∈ options.tiers, disk.Has (options.file true tier .csv) (input tier))
    (hinput' : disk.Has (options.file false options.privateRows .csv) input')
    (hrun : packageAll env options disk = .ok (disk', items)) :
    (∀ tier ∈ options.tiers, Archived env options.threads (input tier) ∧
        disk'.Has (options.file true tier .expected)
          (expectedOf env options.threads (input tier))) ∧
      Archived env options.threads input' ∧
      disk'.Has (options.file false options.privateRows .expected)
        (expectedOf env options.threads input') ∧
      items = options.tiers.flatMap (fun tier => tierArtifacts env options tier (input tier)) ++
        privateArtifacts env options input' ∧
      ∀ isPublic tier, 0 < tier → disk' (options.file isPublic tier .csv) =
        disk (options.file isPublic tier .csv) := by
  unfold packageAll at hrun
  obtain ⟨⟨disk₁, items₁⟩, hloop, hrun⟩ := Fallible.bind_eq_ok.mp hrun
  dsimp only at hrun
  rw [privateFull_eq, expectedPath_file] at hrun
  obtain ⟨disk₂, hexpected, hrun⟩ := Fallible.bind_eq_ok.mp hrun
  obtain ⟨⟨disk₃, a⟩, ha, hrun⟩ := Fallible.bind_eq_ok.mp hrun
  obtain ⟨⟨disk₄, a'⟩, ha', hrun⟩ := Fallible.bind_eq_ok.mp hrun
  obtain ⟨rfl, rfl⟩ := Prod.mk.inj (Except.ok.inj hrun)
  obtain ⟨hall, rfl, hframe⟩ := packageTier_foldlM htiers.pos htiers.nodup hinput hloop
  have hscope {tier tier' : Int64} (ht : 0 < tier) (ht' : 0 < tier') (e e' : Extension) :
      options.file true tier e ≠ options.file false tier' e' := fun h =>
    absurd ((file_inj ht ht').mp h).1 (by decide)
  obtain ⟨harchived, hhas, ⟨rfl, rfl⟩, hframe'⟩ := packageDataset_spec hprivate
    (hinput'.congr (hframe _ fun tier hmem e _ =>
      (hscope (htiers.pos tier hmem) hprivate e _).symm)) (wrap_eq_ok.mp hexpected) ha ha'
  refine ⟨fun tier hmem => ⟨(hall tier hmem).1, (hall tier hmem).2.congr (hframe' _ fun e _ =>
    hscope (htiers.pos tier hmem) hprivate _ e)⟩, harchived, hhas, rfl, ?_⟩
  intro isPublic tier hpos
  exact (hframe' _ fun e he h => he ((file_inj hpos hprivate).mp h).2.2.symm).trans
    (hframe _ fun other hmem e he h =>
      he ((file_inj hpos (htiers.pos other hmem)).mp h).2.2.symm)

theorem exists_packageAll {input : Int64 → Bytes} {input' : Bytes}
    (htiers : IsTiers options.publicRows options.tiers) (hprivate : 0 < options.privateRows)
    (hinput : ∀ tier ∈ options.tiers, disk.Has (options.file true tier .csv) (input tier))
    (hinput' : disk.Has (options.file false options.privateRows .csv) input')
    (harchived : ∀ tier ∈ options.tiers, Archived env options.threads (input tier))
    (harchived' : Archived env options.threads input') :
    ∃ result, packageAll env options disk = .ok result := by
  obtain ⟨⟨disk₁, items⟩, hloop⟩ := exists_packageTier_foldlM htiers.pos htiers.nodup hinput
    harchived
  obtain ⟨-, -, hframe⟩ := packageTier_foldlM htiers.pos htiers.nodup hinput hloop
  have hprivateFile := hinput'.congr (hframe _ fun tier hmem e _ heq =>
    absurd ((file_inj hprivate (htiers.pos tier hmem)).mp heq).1 (by decide))
  obtain ⟨disk₂, disk₃, disk₄, a, a', h₁, h₂, h₃⟩ := exists_packageDataset hprivate hprivateFile
    harchived' options.contestId "private-1b-input" "Private 1B input" "private-1b-expected"
    "Private 1B expected"
  refine ⟨(disk₄, items ++ [a, a']), ?_⟩
  unfold packageAll
  rw [hloop]
  simp only [bind, Except.bind]
  rw [privateFull_eq, expectedPath_file, wrap_eq_ok.mpr h₁]
  simp only [h₂, h₃]
  rfl

/-- The greatest tier has all rows. -/
theorem tierRows_all {rows : List Row} (h : IsDataset options.publicDataset rows) :
    tierRows rows options.publicRows = rows := by
  rw [tierRows, show options.publicRows.toInt.toNat = rows.length from h.length.symm,
    List.take_length]

/-- Packaging leaves what the runner gets. -/
theorem runnerContents_spec {rows rows' : List Row} {items : List Artifact}
    (hdataset : IsDataset options.publicDataset rows)
    (htiers : IsTiers options.publicRows options.tiers) (hpublic : 0 < options.publicRows)
    (hprivate : 0 < options.privateRows)
    (htier : ∀ tier ∈ options.tiers, disk.Has (options.file true tier .csv)
      (csv (tierRows rows tier)))
    (hcsv : disk.Has (options.file false options.privateRows .csv) (csv rows'))
    (hrun : packageAll env options disk = .ok (disk', items)) :
    ∀ f ∈ runnerContents env options rows rows', disk'.Has f.1 f.2.2 := by
  obtain ⟨hexpected, -, hexpected', -, hframe⟩ :=
    packageAll_spec htiers hprivate htier hcsv hrun
  have hlast : options.publicRows ∈ options.tiers := List.mem_of_getLast? htiers.last
  have hfull := (htier _ hlast).congr (hframe true _ hpublic)
  have hfull' := (hexpected _ hlast).2
  rw [tierRows_all hdataset] at hfull hfull'
  simp only [runnerContents, List.forall_mem_cons, List.not_mem_nil, false_implies, implies_true,
    and_true]
  exact ⟨hfull, hfull', hcsv.congr (hframe false _ hprivate), hexpected'⟩

variable (env) in
theorem runnerFiles_contents (htiers : IsTiers options.publicRows options.tiers)
    (rows rows' : List Row) :
    runnerFiles options = (runnerContents env options rows rows').map fun f => (f.1, f.2.1) :=
  runnerFiles_eq htiers.last

/-- The manifest is written over none of the files of the datasets. -/
theorem write_manifest {bytes : Bytes} {dir : String} {isPublic : Bool} {tier : Int64}
    {e : Extension} (hrun : disk.write ⟨dir, "manifest.json"⟩ bytes = .ok disk') :
    disk' (options.file isPublic tier e) = disk (options.file isPublic tier e) :=
  (Disk.write_eq_ok hrun).2 _ (file_ne_of_plain (by decide))

/-- The manifest is written and the runner gets its files. -/
theorem exists_finish {bytes : Bytes} {rows rows' : List Row} {dir : String}
    (horder : ∀ files, (env.order files).Perm files)
    (htiers : IsTiers options.publicRows options.tiers)
    (hcontents : ∀ f ∈ runnerContents env options rows rows', disk.Has f.1 f.2.2)
    (hrun : disk.write ⟨dir, "manifest.json"⟩ bytes = .ok disk') :
    ∃ disk₁, prepareRunner env options disk' = .ok disk₁ ∧
      ∀ f ∈ runnerContents env options rows rows', disk₁.Has f.1 f.2.2 ∧
        (options.runnerDir ≠ "" → disk₁.Has ⟨options.runnerDir, f.2.1⟩ f.2.2) := by
  have hkept : ∀ f ∈ runnerContents env options rows rows', disk'.Has f.1 f.2.2 := by
    intro f hf
    refine (hcontents f hf).congr ?_
    simp only [runnerContents, List.mem_cons, List.not_mem_nil, or_false] at hf
    rcases hf with rfl | rfl | rfl | rfl <;> exact write_manifest hrun
  have hfiles := runnerFiles_contents env htiers rows rows'
  obtain ⟨disk₁, hrunner, hlinked⟩ := exists_prepareRunner horder htiers.last (by
    rw [hfiles]
    intro f hf
    obtain ⟨g, hg, rfl⟩ := List.mem_map.mp hf
    exact ⟨_, hkept g hg⟩)
  refine ⟨disk₁, hrunner, fun f hf => hlinked (f.1, f.2.1) ?_ f.2.2 (hkept f hf)⟩
  rw [hfiles]
  exact List.mem_map_of_mem hf

theorem defaultChannels_le : defaultChannels ≤ 65536 := by decide

/-- A run that succeeds has written all files. -/
theorem generate_run (horder : ∀ files, (env.order files).Perm files)
    (htiers : IsTiers options.publicRows options.tiers)
    (hrun : generate env options disk = .ok (manifest, disk')) :
    ∃ rows rows', Run env options manifest disk' rows rows' := by
  unfold generate at hrun
  split at hrun
  · contradiction
  next hchecks =>
  split at hrun
  · contradiction
  rw [not_or, not_or, Int64.not_le, Int64.not_le] at hchecks
  obtain ⟨hpublic, hprivate, -⟩ := hchecks
  obtain ⟨disk₁, hrun₁, hrun⟩ := Fallible.bind_eq_ok.mp hrun
  obtain ⟨disk₂, hrun₂, hrun⟩ := Fallible.bind_eq_ok.mp hrun
  obtain ⟨disk₃, hrun₃, hrun⟩ := Fallible.bind_eq_ok.mp hrun
  obtain ⟨⟨disk₄, items⟩, hrun₄, hrun⟩ := Fallible.bind_eq_ok.mp hrun
  obtain ⟨disk₅, hrun₅, hrun⟩ := Fallible.bind_eq_ok.mp hrun
  obtain ⟨disk₆, hrun₆, hrun⟩ := Fallible.bind_eq_ok.mp hrun
  obtain ⟨rfl, rfl⟩ := Prod.mk.inj (Except.ok.inj hrun)
  have hrun₁ := wrap_eq_ok.mp hrun₁
  have hrun₂ := wrap_eq_ok.mp hrun₂
  obtain ⟨rows, hrows, -⟩ := generateCSV_spec hrun₁
  obtain ⟨rows', hrows', -⟩ := generateCSV_spec hrun₂
  have hdataset := generateRows_isDataset defaultChannels_le hrows
  obtain ⟨hfull, hcsv⟩ := datasets_spec hpublic hprivate hrows hrows' hrun₁ hrun₂
  obtain ⟨htier, hcsv₃⟩ := prefixes_spec hdataset htiers hpublic hprivate hfull hcsv hrun₃
  obtain ⟨hexpected, hprivateArchived, -, hitems, -⟩ :=
    packageAll_spec htiers hprivate htier hcsv₃ hrun₄
  obtain ⟨disk₇, hrun₇, hfiles⟩ := exists_finish horder htiers
    (runnerContents_spec hdataset htiers hpublic hprivate htier hcsv₃ hrun₄)
    (mapError_eq_ok.mp hrun₅)
  obtain rfl := Except.ok.inj (hrun₆.symm.trans hrun₇)
  exact ⟨rows, rows', {
    publicRows_pos := hpublic
    privateRows_pos := hprivate
    publicRows := hrows
    privateRows := hrows'
    tiers := fun tier hmem => (hexpected tier hmem).1
    privateArchived := hprivateArchived
    manifest := by rw [hitems]; rfl
    files := hfiles }⟩

/-- The datasets of the options, and what of them has to fit the file system. -/
structure Fits (env : Environment) (options : GenerateOptions) (rows rows' : List Row) : Prop where
  publicRows : generateRows env.random options.publicDataset = .ok rows
  privateRows : generateRows env.random options.privateDataset = .ok rows'
  tiers : ∀ tier ∈ options.tiers, Archived env options.threads (csv (tierRows rows tier))
  privateArchived : Archived env options.threads (csv rows')
  marshal : ∀ manifest, (env.marshal manifest).length < 2 ^ 63

/-- When everything fits, a run succeeds. -/
theorem exists_generate (horder : ∀ files, (env.order files).Perm files)
    (htiers : IsTiers options.publicRows options.tiers) (hpublic : 0 < options.publicRows)
    (hprivate : 0 < options.privateRows) (hthreads : 0 < options.threads) {rows rows' : List Row}
    (hfits : Fits env options rows rows') (disk : Disk) :
    ∃ result, generate env options disk = .ok result := by
  have hdataset := generateRows_isDataset defaultChannels_le hfits.publicRows
  have hlast : options.publicRows ∈ options.tiers := List.mem_of_getLast? htiers.last
  have hpublicFit := (hfits.tiers _ hlast).input_lt
  rw [tierRows_all hdataset] at hpublicFit
  obtain ⟨disk₁, hrun₁⟩ := exists_generateCSV disk options.publicFull hfits.publicRows hpublicFit
  obtain ⟨disk₂, hrun₂⟩ := exists_generateCSV disk₁ options.privateFull hfits.privateRows
    hfits.privateArchived.input_lt
  obtain ⟨hfull, hcsv⟩ :=
    datasets_spec hpublic hprivate hfits.publicRows hfits.privateRows hrun₁ hrun₂
  obtain ⟨disk₃, hrun₃⟩ := exists_prefixTier_foldlM env hdataset.generated hdataset.length
    htiers.pos hpublic htiers.le (fun tier hmem => (hfits.tiers tier hmem).input_lt) hfull
  obtain ⟨htier, hcsv₃⟩ := prefixes_spec hdataset htiers hpublic hprivate hfull hcsv hrun₃
  obtain ⟨⟨disk₄, items⟩, hrun₄⟩ := exists_packageAll htiers hprivate htier hcsv₃ hfits.tiers
    hfits.privateArchived
  obtain ⟨disk₅, hrun₅⟩ := Disk.exists_write (hfits.marshal
    ⟨1, options.contestId, Rfc3339.format env.now, options.revision, items⟩) disk₄
    ⟨options.outputDir, "manifest.json"⟩
  obtain ⟨disk₆, hrun₆, -⟩ := exists_finish horder htiers
    (runnerContents_spec hdataset htiers hpublic hprivate htier hcsv₃ hrun₄) hrun₅
  refine ⟨(⟨1, options.contestId, Rfc3339.format env.now, options.revision, items⟩, disk₆), ?_⟩
  have hchecks : ¬(options.publicRows ≤ 0 ∨ options.privateRows ≤ 0 ∨ options.threads ≤ 0) := by
    rw [not_or, not_or, Int64.not_le, Int64.not_le, Int64.not_le]
    exact ⟨hpublic, hprivate, hthreads⟩
  rw [generate, if_neg hchecks, if_neg (List.ne_nil_of_mem hlast), wrap_eq_ok.mpr hrun₁]
  simp only [bind, Except.bind]
  rw [wrap_eq_ok.mpr hrun₂]
  simp only [hrun₃, hrun₄]
  rw [mapError_eq_ok.mpr hrun₅]
  simp only [hrun₆]
  rfl

end Runs
end OneBrc.Data
