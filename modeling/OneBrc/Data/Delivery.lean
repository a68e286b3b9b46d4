import OneBrc.Data.Transfer

/-! From `Generate` to the host of the runner: the archives in the output directory are those of the
manifest, and `Upload`, `PresignRunner` and `Download` pass them on. -/
namespace OneBrc.Data
open Lib Analyzer

/-- `runnerDownload` -/
structure RunnerDownload where
  url : String
  sha256 : String
  compressedSha256 : String

/-- `runnerDownloads`, with the files in the order in which they are signed. -/
structure RunnerDownloads where
  generatedAt : String
  expiresAt : String
  files : List (String × RunnerDownload)

def runnerFileNames : List String :=
  ["public.csv", "public.expected", "private.csv", "private.expected"]

def second : ℕ := 1000000000

/-- The zero value of an artifact, for a name that is not in the map. -/
def Artifact.zero : Artifact := ⟨"", "", "", "", 0, 0, 0, "", "", false⟩

section Presign
variable (sign : String → Option String)

/-- A key may fail to be signed. -/
def presignFile (artifacts : List (String × Artifact)) (name : String) :
    Except String (String × RunnerDownload) :=
  let item := (artifacts.lookup name).getD .zero
  match sign item.objectKey with
  | none => .error ("presign " ++ item.objectKey)
  | some url => .ok (name, ⟨url, item.uncompressedSha256, item.compressedSha256⟩)

/-- `PresignRunner` at a time in nanoseconds. -/
def presignRunner (now expires : ℕ) (manifest : Manifest) : Except String RunnerDownloads := do
  if expires < second ∨ 7 * 24 * 3600 * second < expires then
    .error "expires must be between 1s and 168h"
  else
    let artifacts ← selectRunnerArtifacts manifest
    let files ← runnerFileNames.mapM (presignFile sign artifacts)
    return ⟨Rfc3339.format (now / second), Rfc3339.format ((now + expires) / second), files⟩

variable {sign}

theorem presignFile_eq {artifacts : List (String × Artifact)} {name url : String} {a : Artifact}
    (ha : artifacts.lookup name = some a) (hurl : sign a.objectKey = some url) :
    presignFile sign artifacts name =
      .ok (name, ⟨url, a.uncompressedSha256, a.compressedSha256⟩) := by
  rw [presignFile, ha]
  dsimp only [Option.getD_some]
  rw [hurl]

/-- Each selected artifact is signed. -/
theorem presignRunner_selected {a₁ a₂ a₃ a₄ : Artifact} {manifest : Manifest}
    {url : String → String} {expires : ℕ} (now : ℕ) (hurl : ∀ key, sign key = some (url key))
    (hle : second ≤ expires) (hle' : expires ≤ 7 * 24 * 3600 * second)
    (hselected : selectRunnerArtifacts manifest = .ok [("public.csv", a₁),
      ("public.expected", a₂), ("private.csv", a₃), ("private.expected", a₄)]) :
    ∃ downloads, presignRunner sign now expires manifest = .ok downloads ∧
      downloads.files = [("public.csv", a₁), ("public.expected", a₂), ("private.csv", a₃),
        ("private.expected", a₄)].map fun f =>
          (f.1, ⟨url f.2.objectKey, f.2.uncompressedSha256, f.2.compressedSha256⟩) := by
  have hrange : ¬(expires < second ∨ 7 * 24 * 3600 * second < expires) :=
    not_or.mpr ⟨Nat.not_lt.mpr hle, Nat.not_lt.mpr hle'⟩
  rw [presignRunner, if_neg hrange, hselected]
  refine ⟨⟨Rfc3339.format (now / second), Rfc3339.format ((now + expires) / second), _⟩, ?_, rfl⟩
  simp only [bind, Except.bind, runnerFileNames, List.mapM_cons, List.mapM_nil]
  rw [presignFile_eq (by rfl) (hurl a₁.objectKey), presignFile_eq (by rfl) (hurl a₂.objectKey),
    presignFile_eq (by rfl) (hurl a₃.objectKey), presignFile_eq (by rfl) (hurl a₄.objectKey)]
  rfl

end Presign

section Archives
variable {env : Environment} {options : GenerateOptions} {disk disk' : Disk} {manifest : Manifest}
  {path : Path} {bytes : Bytes} {rows rows' : List Row}

/-- Both archives of a dataset. -/
structure HasArchives (env : Environment) (options : GenerateOptions) (disk : Disk)
    (isPublic : Bool) (tier : Int64) (input : Bytes) : Prop where
  archive : disk.Has (options.file isPublic tier .csvZst) (env.compress input)
  expectedArchive : disk.Has (options.file isPublic tier .expectedZst)
    (env.compress (expectedOf env options.threads input))

theorem HasArchives.congr {isPublic : Bool} {tier : Int64} {input : Bytes}
    (h : HasArchives env options disk isPublic tier input)
    (heq : ∀ e, disk' (options.file isPublic tier e) = disk (options.file isPublic tier e)) :
    HasArchives env options disk' isPublic tier input :=
  ⟨h.archive.congr (heq _), h.expectedArchive.congr (heq _)⟩

theorem packageArtifact_archive {contestId id kind label : String} {tier : Int64} {isPublic : Bool}
    {a : Artifact} (h : disk.Has path bytes)
    (hrun : packageArtifact env contestId id kind label tier isPublic path disk = .ok (disk', a)) :
    disk'.Has (zstPath path) (env.compress bytes) := by
  rw [packageArtifact_eq h] at hrun
  cases hwrite : disk.write (zstPath path) (env.compress bytes) with
  | error e =>
    rw [hwrite] at hrun
    contradiction
  | ok disk₁ =>
    rw [hwrite] at hrun
    obtain ⟨rfl, -⟩ := Prod.mk.inj (Except.ok.inj hrun)
    exact (Disk.write_eq_ok hwrite).1

/-- A dataset that is packaged has its archives, and no file of another dataset is changed. -/
theorem packageDataset_archives {isPublic : Bool} {tier : Int64} {input : Bytes}
    {disk₁ disk₂ : Disk} {contestId id id' label label' kind kind' : String} {a a' : Artifact}
    (hpos : 0 < tier) (hinput : disk.Has (options.file isPublic tier .csv) input)
    (hexpected : generateExpected env options.threads (options.file isPublic tier .csv)
      (options.file isPublic tier .expected) disk = .ok disk₁)
    (ha : packageArtifact env contestId id kind label tier isPublic
      (options.file isPublic tier .csv) disk₁ = .ok (disk₂, a))
    (ha' : packageArtifact env contestId id' kind' label' tier isPublic
      (options.file isPublic tier .expected) disk₂ = .ok (disk', a')) :
    HasArchives env options disk' isPublic tier input := by
  have hne {e e' : Extension} (h : e ≠ e') :
      options.file isPublic tier e ≠ options.file isPublic tier e' :=
    fun heq => h ((file_inj hpos hpos).mp heq).2.2
  obtain ⟨-, hhas, hframe⟩ := generateExpected_spec hinput hexpected
  have hinput₁ := hinput.congr (hframe _ (hne (by decide)))
  have harchive := packageArtifact_archive hinput₁ ha
  obtain ⟨-, -, hframe'⟩ := packageArtifact_spec hinput₁ ha
  rw [zstPath_csv] at harchive hframe'
  have hhas' := hhas.congr (hframe' _ (hne (by decide)))
  have harchive' := packageArtifact_archive hhas' ha'
  obtain ⟨-, -, hframe''⟩ := packageArtifact_spec hhas' ha'
  rw [zstPath_expected] at harchive' hframe''
  exact ⟨harchive.congr (hframe'' _ (hne (by decide))), harchive'⟩

/-- The archives of the tiers. -/
theorem packageTier_archives {tiers : List Int64} {items items' : List Artifact}
    (hpos : ∀ tier ∈ tiers, 0 < tier) (hnodup : tiers.Nodup) {input : Int64 → Bytes}
    (hinput : ∀ tier ∈ tiers, disk.Has (options.file true tier .csv) (input tier))
    (hrun : tiers.foldlM (packageTier env options) (disk, items) = .ok (disk', items')) :
    ∀ tier ∈ tiers, HasArchives env options disk' true tier (input tier) := by
  induction tiers generalizing disk items with
  | nil => simp
  | cons tier tiers ih =>
    obtain ⟨hpos', hposs⟩ := List.forall_mem_cons.mp hpos
    obtain ⟨hhead, htail⟩ := List.forall_mem_cons.mp hinput
    obtain ⟨hnew, hnodup⟩ := List.nodup_cons.mp hnodup
    rw [List.foldlM_cons] at hrun
    obtain ⟨⟨disk₁, items₁⟩, hstep, hrun⟩ := Fallible.bind_eq_ok.mp hrun
    unfold packageTier at hstep
    rw [tierFile_eq] at hstep
    dsimp only at hstep
    rw [expectedPath_file] at hstep
    obtain ⟨diskA, hexpected, hstep⟩ := Fallible.bind_eq_ok.mp hstep
    obtain ⟨⟨diskB, a⟩, ha, hstep⟩ := Fallible.bind_eq_ok.mp hstep
    obtain ⟨⟨diskC, a'⟩, ha', hstep⟩ := Fallible.bind_eq_ok.mp hstep
    obtain ⟨rfl, rfl⟩ := Prod.mk.inj (Except.ok.inj hstep)
    have harchives := packageDataset_archives hpos' hhead (wrap_eq_ok.mp hexpected) ha ha'
    obtain ⟨-, -, -, hframe⟩ :=
      packageDataset_spec hpos' hhead (wrap_eq_ok.mp hexpected) ha ha'
    have hother {other : Int64} (hmem : other ∈ tiers) (e e' : Extension) :
        options.file true other e ≠ options.file true tier e' := fun h =>
      hnew (((file_inj (hposs other hmem) hpos').mp h).2.1 ▸ hmem)
    have htail' : ∀ other ∈ tiers, diskC.Has (options.file true other .csv) (input other) :=
      fun other hmem => (htail other hmem).congr (hframe _ fun e _ => hother hmem _ e)
    obtain ⟨-, -, hrest⟩ := packageTier_foldlM hposs hnodup htail' hrun
    exact List.forall_mem_cons.mpr ⟨harchives.congr fun e =>
      hrest _ fun other hmem e' _ => (hother hmem e' e).symm, ih hposs hnodup htail' hrun⟩

theorem packageAll_archives {items : List Artifact} {input : Int64 → Bytes} {input' : Bytes}
    (htiers : IsTiers options.publicRows options.tiers) (hprivate : 0 < options.privateRows)
    (hinput : ∀ tier ∈ options.tiers, disk.Has (options.file true tier .csv) (input tier))
    (hinput' : disk.Has (options.file false options.privateRows .csv) input')
    (hrun : packageAll env options disk = .ok (disk', items)) :
    (∀ tier ∈ options.tiers, HasArchives env options disk' true tier (input tier)) ∧
      HasArchives env options disk' false options.privateRows input' := by
  unfold packageAll at hrun
  obtain ⟨⟨disk₁, items₁⟩, hloop, hrun⟩ := Fallible.bind_eq_ok.mp hrun
  dsimp only at hrun
  rw [privateFull_eq, expectedPath_file] at hrun
  obtain ⟨disk₂, hexpected, hrun⟩ := Fallible.bind_eq_ok.mp hrun
  obtain ⟨⟨disk₃, a⟩, ha, hrun⟩ := Fallible.bind_eq_ok.mp hrun
  obtain ⟨⟨disk₄, a'⟩, ha', hrun⟩ := Fallible.bind_eq_ok.mp hrun
  obtain ⟨rfl, rfl⟩ := Prod.mk.inj (Except.ok.inj hrun)
  obtain ⟨-, -, hframe⟩ := packageTier_foldlM htiers.pos htiers.nodup hinput hloop
  have hprivateFile := hinput'.congr (hframe _ fun tier hmem e _ =>
    (scope_ne (htiers.pos tier hmem) hprivate e _).symm)
  obtain ⟨-, -, -, hframe'⟩ :=
    packageDataset_spec hprivate hprivateFile (wrap_eq_ok.mp hexpected) ha ha'
  refine ⟨fun tier hmem => ?_,
    packageDataset_archives hprivate hprivateFile (wrap_eq_ok.mp hexpected) ha ha'⟩
  exact (packageTier_archives htiers.pos htiers.nodup hinput hloop tier hmem).congr fun e =>
    hframe' _ fun e' _ => scope_ne (htiers.pos tier hmem) hprivate e e'

/-- The runner gets its files under names without a hyphen. -/
theorem linkFiles_frame {files : List (Path × String)} {dir : String}
    (hplain : ∀ f ∈ files, '-' ∉ f.2.toList) (hpath : '-' ∈ path.name.toList)
    (hrun : files.foldlM (fun disk file =>
      (disk.linkOrCopy file.1 ⟨dir, file.2⟩).mapError Failure.file) disk = .ok disk') :
    disk' path = disk path := by
  induction files generalizing disk with
  | nil =>
    obtain rfl := Except.ok.inj hrun
    rfl
  | cons f files ih =>
    obtain ⟨hplain', hplains⟩ := List.forall_mem_cons.mp hplain
    rw [List.foldlM_cons] at hrun
    obtain ⟨disk₁, hlink, hrun⟩ := Fallible.bind_eq_ok.mp hrun
    have hlink := mapError_eq_ok.mp hlink
    unfold Disk.linkOrCopy at hlink
    obtain ⟨-, -, hlink⟩ := Fallible.bind_eq_ok.mp hlink
    obtain ⟨file, -, hlink⟩ := Fallible.bind_eq_ok.mp hlink
    obtain rfl := Except.ok.inj hlink
    have hne : path ≠ ⟨dir, f.2⟩ := by
      rintro rfl
      exact hplain' hpath
    rw [ih hplains hrun, Function.update_of_ne hne, Function.update_of_ne hne]

theorem prepareRunner_frame (horder : ∀ files, (env.order files).Perm files)
    (htiers : options.tiers.getLast? = some options.publicRows) (hpath : '-' ∈ path.name.toList)
    (hrun : prepareRunner env options disk = .ok disk') : disk' path = disk path := by
  unfold prepareRunner at hrun
  split at hrun
  · obtain rfl := Except.ok.inj hrun
    rfl
  · exact linkFiles_frame
      (fun f hf => (mem_runnerFiles htiers ((horder _).mem_iff.mp hf)).2) hpath hrun

/-- The archives are in the output directory when `Generate` has ended. -/
theorem generate_archives (horder : ∀ files, (env.order files).Perm files)
    (htiers : IsTiers options.publicRows options.tiers)
    (hrun : generate env options disk = .ok (manifest, disk')) :
    ∃ rows rows', Run env options manifest disk' rows rows' ∧
      (∀ tier ∈ options.tiers,
        HasArchives env options disk' true tier (csv (tierRows rows tier))) ∧
      HasArchives env options disk' false options.privateRows (csv rows') := by
  obtain ⟨rows, rows', hfull⟩ := generate_run horder htiers hrun
  refine ⟨rows, rows', hfull, ?_⟩
  unfold generate at hrun
  split at hrun
  · contradiction
  split at hrun
  · contradiction
  obtain ⟨disk₁, hrun₁, hrun⟩ := Fallible.bind_eq_ok.mp hrun
  obtain ⟨disk₂, hrun₂, hrun⟩ := Fallible.bind_eq_ok.mp hrun
  obtain ⟨disk₃, hrun₃, hrun⟩ := Fallible.bind_eq_ok.mp hrun
  obtain ⟨⟨disk₄, items⟩, hrun₄, hrun⟩ := Fallible.bind_eq_ok.mp hrun
  obtain ⟨disk₅, hrun₅, hrun⟩ := Fallible.bind_eq_ok.mp hrun
  obtain ⟨disk₆, hrun₆, hrun⟩ := Fallible.bind_eq_ok.mp hrun
  obtain ⟨-, rfl⟩ := Prod.mk.inj (Except.ok.inj hrun)
  have hdataset := generateRows_isDataset defaultChannels_le hfull.publicRows
  obtain ⟨hcsv, hcsv'⟩ := datasets_spec hfull.publicRows_pos hfull.privateRows_pos hfull.publicRows
    hfull.privateRows (wrap_eq_ok.mp hrun₁) (wrap_eq_ok.mp hrun₂)
  obtain ⟨htier, hcsv₃⟩ := prefixes_spec hdataset htiers hfull.publicRows_pos
    hfull.privateRows_pos hcsv hcsv' hrun₃
  obtain ⟨hall, hprivate⟩ := packageAll_archives htiers hfull.privateRows_pos htier hcsv₃ hrun₄
  have hkept (isPublic : Bool) (tier : Int64) (e : Extension) :
      disk₆ (options.file isPublic tier e) = disk₄ (options.file isPublic tier e) :=
    (prepareRunner_frame horder htiers.last hyphen_mem_datasetName hrun₆).trans
      (write_manifest (mapError_eq_ok.mp hrun₅))
  exact ⟨fun tier hmem => (hall tier hmem).congr (hkept true tier),
    hprivate.congr (hkept false options.privateRows)⟩

end Archives

section Delivery
variable {env : Environment} {options : GenerateOptions} {disk disk' : Disk} {manifest : Manifest}
  {rows rows' : List Row}

theorem fileName_slot {s : Slot} (hpos : 0 < s.rows) :
    (s.artifact env options rows rows').fileName = s.archive options := by
  have hchars (cs : List Char) : (cs.map GoText.Rune.char).filterMap charOf = cs := by
    rw [List.filterMap_map]
    exact List.filterMap_some
  rw [Artifact.fileName, baseName_eq hpos, GoText.ofString, hchars, String.ofList_toList]

/-- The archives of a manifest that was generated are the files that it describes. -/
theorem localFile_slot {s : Slot} (htiers : IsTiers options.publicRows options.tiers)
    (hrun : Run env options manifest disk rows rows')
    (hall : ∀ tier ∈ options.tiers, HasArchives env options disk true tier
      (csv (tierRows rows tier)))
    (hprivate : HasArchives env options disk false options.privateRows (csv rows'))
    (hs : s ∈ options.slots) :
    ∃ file, LocalFile env disk options.outputDir (s.artifact env options rows rows') file ∧
      file.bytes = env.compress (s.bytes env options rows rows') := by
  have hpos := slots_pos htiers.pos hrun.privateRows_pos hs
  have hhas : disk.Has (zstPath (options.file s.isPublic s.rows s.extension))
      (env.compress (s.bytes env options rows rows')) := by
    have harchives : HasArchives env options disk s.isPublic s.rows
        (csv (if s.isPublic then tierRows rows s.rows else rows')) := by
      rcases mem_slots.mp hs with ⟨hscope, hmem⟩ | ⟨hscope, hrows⟩
      · rw [hscope]
        exact hall _ hmem
      · rw [hscope, hrows]
        exact hprivate
    obtain ⟨isPublic, tier, isInput⟩ := s
    cases isInput with
    | true =>
      have hpath := zstPath_csv options isPublic tier
      exact hpath.symm ▸ harchives.archive
    | false =>
      have hpath := zstPath_expected options isPublic tier
      exact hpath.symm ▸ harchives.expectedArchive
  have hhyphen : '-' ∈ (s.archive options).toList := by
    rw [Slot.archive, zstPath, String.toList_append]
    exact List.mem_append_left _ hyphen_mem_datasetName
  obtain ⟨hlt, hfile⟩ := hhas
  refine ⟨⟨env.compress (s.bytes env options rows rows'), hlt⟩, ⟨?_, ?_, rfl, rfl⟩, rfl⟩
  · rw [Artifact.localFile, fileName_slot hpos, if_neg]
    intro hmem
    simp only [List.mem_cons, List.not_mem_nil, or_false] at hmem
    rcases hmem with hname | hname | hname <;>
    · rw [hname] at hhyphen
      exact absurd hhyphen (by decide)
  · rw [fileName_slot hpos]
    exact hfile

/-- A file of the runner is offered to it: the URL is that of an object which is the archive of the
file, and the digests are those of the file and of the archive. -/
def Offered (env : Environment) (disk : Disk) (bucket : Bucket) (sign : String → Option String)
    (files : List (String × RunnerDownload)) (source : Path) (name : String) : Prop :=
  ∃ bytes archive key url, disk.Has source bytes ∧ bucket key = some archive ∧
    archive.bytes = env.compress bytes ∧ sign key = some url ∧
    (name, (⟨url, hexEncode (env.sha256 bytes), hexEncode (env.sha256 archive.bytes)⟩ :
      RunnerDownload)) ∈ files

/-- What `Generate` has written is uploaded without an error, and then every host that downloads it
gets the archives as they were, and the runner is offered the archives of its own files. -/
theorem generated_delivered {value : List GoText.Rune} {puts : ℕ → PutOutcome}
    (horder : ∀ files, (env.order files).Perm files)
    (htiers : parseTiers value options.publicRows = .ok options.tiers)
    (hrun : generate env options disk = .ok (manifest, disk')) (hputs : ∀ i, puts i = .stored)
    (bucket : Bucket) :
    ∃ bucket', upload env puts disk' options.outputDir 0 manifest.artifacts bucket =
        (bucket', none) ∧
      (∀ fetches, Serves bucket' fetches → ∀ host dir, ∃ host',
        download env fetches dir 0 manifest.artifacts host = (host', none) ∧
          ∀ a ∈ manifest.artifacts, (host' ⟨dir, a.fileName⟩).isSome ∧
            host' ⟨dir, a.fileName⟩ = disk' ⟨options.outputDir, a.fileName⟩) ∧
      ∀ sign now expires, (∀ key, (sign key).isSome) → second ≤ expires →
        expires ≤ 7 * 24 * 3600 * second →
          ∃ downloads, presignRunner sign now expires manifest = .ok downloads ∧
            ∀ f ∈ runnerFiles options, Offered env disk' bucket' sign downloads.files f.1 f.2 := by
  have htiers := isTiers_parseTiers htiers
  obtain ⟨rows, rows', hfull, hall, hprivate⟩ := generate_archives horder htiers hrun
  obtain rfl := hfull.manifest
  have hslot {s : Slot} (hs : s ∈ options.slots) :=
    localFile_slot htiers hfull hall hprivate hs
  have hlocal : ∀ a ∈ (manifestOf env options rows rows').artifacts,
      ∃ file, LocalFile env disk' options.outputDir a file := by
    rw [manifestOf_artifacts]
    intro a ha
    obtain ⟨s, hs, rfl⟩ := List.mem_map.mp ha
    exact (hslot hs).imp fun _ h => h.1
  have hnone := upload_complete hputs hlocal 0 bucket
  have hupload : upload env puts disk' options.outputDir 0
      (manifestOf env options rows rows').artifacts bucket = (_, none) := Prod.ext rfl hnone
  have hbucket := (upload_uploaded puts hupload).complete rfl
  refine ⟨_, hupload, fun fetches hserves host dir => ?_,
    fun sign now expires hsign hle hle' => ?_⟩
  · obtain ⟨host', hdownload, hfiles⟩ := download_serves hserves hbucket dir 0 host
    refine ⟨host', hdownload, fun a ha => ⟨?_, hfiles a ha⟩⟩
    obtain ⟨file, hfile⟩ := hlocal a ha
    rw [hfiles a ha, hfile.content]
    rfl
  · choose url hurl using fun key => Option.isSome_iff_exists.mp (hsign key)
    obtain ⟨downloads, hpresign, hdownloads⟩ := presignRunner_selected now hurl hle hle'
      (selectRunnerArtifacts_manifestOf env rows rows' htiers hfull.publicRows_pos
        hfull.privateRows_pos)
    refine ⟨downloads, hpresign, ?_⟩
    have hlast : options.publicRows ∈ options.tiers := List.mem_of_getLast? htiers.last
    have hoffer {s : Slot} {name : String} {bytes : Bytes} (hs : s ∈ options.slots)
        (hbytes : s.bytes env options rows rows' = bytes)
        (hhas : disk'.Has (options.file s.isPublic s.rows s.extension) bytes)
        (hmem : (name, (⟨url (s.artifact env options rows rows').objectKey,
          (s.artifact env options rows rows').uncompressedSha256,
          (s.artifact env options rows rows').compressedSha256⟩ : RunnerDownload)) ∈
            downloads.files) :
        Offered env disk' (upload env puts disk' options.outputDir 0
          (manifestOf env options rows rows').artifacts bucket).1 sign downloads.files
          (options.file s.isPublic s.rows s.extension) name := by
      subst hbytes
      obtain ⟨file, hfile, harchive⟩ := hslot hs
      obtain ⟨file', hfile', hobject⟩ := hbucket (s.artifact env options rows rows') (by
        rw [manifestOf_artifacts]
        exact List.mem_map_of_mem hs)
      obtain rfl := hfile.unique hfile' rfl
      refine ⟨_, file', _, _, hhas, hobject, harchive, hurl _, ?_⟩
      rw [harchive]
      exact hmem
    have hdataset := generateRows_isDataset defaultChannels_le hfull.publicRows
    have hrows : csv (tierRows rows options.publicRows) = csv rows :=
      congrArg csv (tierRows_all hdataset)
    have hfiles := hfull.files
    simp only [runnerContents, List.forall_mem_cons, List.not_mem_nil, false_implies,
      implies_true, and_true] at hfiles
    obtain ⟨⟨h₁, -⟩, ⟨h₂, -⟩, ⟨h₃, -⟩, h₄, -⟩ := hfiles
    rw [runnerFiles_eq htiers.last]
    simp only [List.forall_mem_cons, List.not_mem_nil, false_implies, implies_true, and_true]
    refine ⟨hoffer (s := ⟨true, options.publicRows, true⟩) (mem_slots.mpr (.inl ⟨rfl, hlast⟩))
      hrows h₁ ?_, hoffer (s := ⟨true, options.publicRows, false⟩)
        (mem_slots.mpr (.inl ⟨rfl, hlast⟩)) (congrArg (expectedOf env options.threads) hrows) h₂ ?_,
      hoffer (s := ⟨false, options.privateRows, true⟩) (mem_slots.mpr (.inr ⟨rfl, rfl⟩)) rfl h₃ ?_,
      hoffer (s := ⟨false, options.privateRows, false⟩) (mem_slots.mpr (.inr ⟨rfl, rfl⟩)) rfl h₄
        ?_⟩
    all_goals
      rw [hdownloads]
      simp

theorem generated_delivered_sample : ∃ manifest disk' bucket',
    generate sampleEnvironment sampleOptions (fun _ => none) = .ok (manifest, disk') ∧
      upload sampleEnvironment (fun _ => .stored) disk' sampleOptions.outputDir 0
        manifest.artifacts (fun _ => none) = (bucket', none) := by
  obtain ⟨manifest, disk', hrun⟩ := exists_generate_sample
  obtain ⟨bucket', hupload, -⟩ := generated_delivered (fun files => List.Perm.refl files)
    parseTiers_sample hrun (fun _ => rfl) fun _ => none
  exact ⟨manifest, disk', bucket', hrun, hupload⟩

end Delivery
end OneBrc.Data
