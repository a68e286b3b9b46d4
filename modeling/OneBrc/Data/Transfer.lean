import OneBrc.Data.Importable

/-! `Upload` and `Download`: the archives of a manifest on their way through a bucket. -/
namespace OneBrc.Data
open Lib

def charOf : GoText.Rune → Option Char
  | .char c => some c
  | .invalid _ => none

/-- The base of the key as the name of a file; a key has no invalid bytes. -/
def Artifact.fileName (a : Artifact) : String := String.ofList (a.baseName.filterMap charOf)

/-- The file of an artifact in a directory, unless its name is one of a directory. -/
def Artifact.localFile (dir : String) (a : Artifact) : Option Path :=
  if a.fileName ∈ [".", "..", "/"] then none else some ⟨dir, a.fileName⟩

inductive TransferError where
  | directory (name : String)
  | file (cause : Failure)
  | mismatch (text : String)
  | transfer (key : String)

/-- The objects of a bucket. -/
abbrev Bucket := String → Option File

/-- What comes of an upload: the answer can be lost after the object is stored. -/
inductive PutOutcome where
  | stored
  | lost
  | refused

/-- What comes of a download: the file cannot be created, is left incomplete, or is the object. -/
inductive Fetch where
  | uncreated
  | broken (written : File)
  | complete (object : File)

section Steps
variable (env : Environment)

/-- One pass of the loop of `Upload`. The file is verified first. -/
def uploadItem (put : PutOutcome) (disk : Disk) (dir : String) (a : Artifact) (bucket : Bucket) :
    Bucket × Option TransferError :=
  match a.localFile dir with
  | none => (bucket, some (.directory a.fileName))
  | some path =>
      match info env disk path with
      | .error cause => (bucket, some (.file cause))
      | .ok (size, digest) =>
          if size ≠ a.compressedBytes ∨ digest ≠ a.compressedSha256 then
            (bucket, some (.mismatch ("local artifact does not match manifest: " ++ a.objectKey)))
          else
            let uploaded : Bucket := Function.update bucket a.objectKey (disk path)
            match put with
            | .stored => (uploaded, none)
            | .lost => (uploaded, some (.transfer a.objectKey))
            | .refused => (bucket, some (.transfer a.objectKey))

/-- `Upload`, with the outcome of each of its uploads. -/
def upload (puts : ℕ → PutOutcome) (disk : Disk) (dir : String) :
    ℕ → List Artifact → Bucket → Bucket × Option TransferError
  | _, [], bucket => (bucket, none)
  | i, a :: artifacts, bucket =>
      match uploadItem env (puts i) disk dir a bucket with
      | (bucket, some error) => (bucket, some error)
      | (bucket, none) => upload puts disk dir (i + 1) artifacts bucket

/-- One pass of the loop of `Download`. The file is verified after it is written. -/
def downloadItem (fetch : Fetch) (dir : String) (a : Artifact) (disk : Disk) :
    Disk × Option TransferError :=
  match a.localFile dir with
  | none => (disk, some (.directory a.fileName))
  | some path =>
      match fetch with
      | .uncreated => (disk, some (.file (.file (.notExist path))))
      | .broken written =>
          (Function.update disk path (some written), some (.transfer a.objectKey))
      | .complete object =>
          let disk : Disk := Function.update disk path (some object)
          match info env disk path with
          | .error cause => (disk, some (.file cause))
          | .ok (_, digest) =>
              if digest ≠ a.compressedSha256 then
                (disk, some (.mismatch ("checksum mismatch for " ++ a.objectKey)))
              else (disk, none)

/-- `Download`, with what comes of each of its requests. -/
def download (fetches : ℕ → String → Fetch) (dir : String) :
    ℕ → List Artifact → Disk → Disk × Option TransferError
  | _, [], disk => (disk, none)
  | i, a :: artifacts, disk =>
      match downloadItem env (fetches i a.objectKey) dir a disk with
      | (disk, some error) => (disk, some error)
      | (disk, none) => download fetches dir (i + 1) artifacts disk

end Steps

/-- The file of an artifact is the one that the manifest describes. -/
structure LocalFile (env : Environment) (disk : Disk) (dir : String) (a : Artifact) (file : File) :
    Prop where
  isFile : a.localFile dir = some ⟨dir, a.fileName⟩
  content : disk ⟨dir, a.fileName⟩ = some file
  size : Int64.ofNat file.bytes.length = a.compressedBytes
  digest : hexEncode (env.sha256 file.bytes) = a.compressedSha256

/-- The bucket after an upload. Whatever has changed is a file that the manifest describes; after
one that succeeds the bucket has all of them. -/
structure Uploaded (env : Environment) (disk : Disk) (dir : String) (artifacts : List Artifact)
    (bucket bucket' : Bucket) (error : Option TransferError) : Prop where
  changed : ∀ key, bucket' key = bucket key ∨ ∃ a ∈ artifacts, a.objectKey = key ∧
    ∃ file, LocalFile env disk dir a file ∧ bucket' key = some file
  complete : error = none → ∀ a ∈ artifacts, ∃ file, LocalFile env disk dir a file ∧
    bucket' a.objectKey = some file

/-- The files after a download. Whatever has changed is a file of an artifact; after a download that
succeeds, each file has the digest of the manifest, where artifacts of one name agree on it. -/
structure Downloaded (env : Environment) (dir : String) (artifacts : List Artifact)
    (disk disk' : Disk) (error : Option TransferError) : Prop where
  frame : ∀ path, (∀ a ∈ artifacts, path ≠ ⟨dir, a.fileName⟩) → disk' path = disk path
  complete : error = none → ∀ a ∈ artifacts,
    (∀ b ∈ artifacts, b.fileName = a.fileName → b.compressedSha256 = a.compressedSha256) →
      ∃ file, disk' ⟨dir, a.fileName⟩ = some file ∧
        hexEncode (env.sha256 file.bytes) = a.compressedSha256

section Facts
variable {env : Environment} {disk disk' : Disk} {dir : String} {a b : Artifact} {file file' : File}
  {bucket bucket' : Bucket} {path : Path} {error : Option TransferError}

theorem localFile_of_dir {dir' : String} (h : a.localFile dir' = some path) :
    a.localFile dir = some ⟨dir, a.fileName⟩ := by
  unfold Artifact.localFile at h ⊢
  split at h
  · cases h
  · next hname => rw [if_neg hname]

theorem localFile_eq_some (h : a.localFile dir = some path) : path = ⟨dir, a.fileName⟩ := by
  unfold Artifact.localFile at h
  split at h
  · cases h
  · exact (Option.some.inj h).symm

/-- The file of an artifact depends on its key only. -/
theorem fileName_congr (h : a.objectKey = b.objectKey) : a.fileName = b.fileName := by
  rw [Artifact.fileName, Artifact.baseName, h, Artifact.fileName, Artifact.baseName]

theorem info_eq (h : disk path = some file) :
    info env disk path =
      .ok (Int64.ofNat file.bytes.length, hexEncode (env.sha256 file.bytes)) := by
  rw [info, Disk.read, h]
  rfl

theorem info_eq_ok {size : Int64} {digest : String} (h : info env disk path = .ok (size, digest)) :
    ∃ file, disk path = some file ∧ size = Int64.ofNat file.bytes.length ∧
      digest = hexEncode (env.sha256 file.bytes) := by
  cases hfile : disk path with
  | none =>
    rw [info, Disk.read, hfile] at h
    cases h
  | some file =>
    rw [info_eq hfile] at h
    cases h
    exact ⟨file, rfl, rfl, rfl⟩

/-- What one upload does. -/
theorem uploadItem_cases (put : PutOutcome)
    (h : uploadItem env put disk dir a bucket = (bucket', error)) :
    (bucket' = bucket ∧ error ≠ none) ∨ ∃ file, LocalFile env disk dir a file ∧
      bucket' = Function.update bucket a.objectKey (some file) := by
  unfold uploadItem at h
  split at h
  · cases h
    exact .inl ⟨rfl, Option.some_ne_none _⟩
  · next path hpath =>
    obtain rfl := localFile_eq_some hpath
    split at h
    · cases h
      exact .inl ⟨rfl, Option.some_ne_none _⟩
    · next size digest hinfo =>
      obtain ⟨file, hfile, rfl, rfl⟩ := info_eq_ok hinfo
      split at h
      · cases h
        exact .inl ⟨rfl, Option.some_ne_none _⟩
      · next hmatch =>
        obtain ⟨hsize, hdigest⟩ := not_or.mp hmatch
        have hlocal : LocalFile env disk dir a file :=
          ⟨hpath, hfile, not_not.mp hsize, not_not.mp hdigest⟩
        rw [hfile] at h
        cases put with
        | stored | lost =>
          cases h
          exact .inr ⟨file, hlocal, rfl⟩
        | refused =>
          cases h
          exact .inl ⟨rfl, Option.some_ne_none _⟩

/-- Artifacts of one key have one file. -/
theorem LocalFile.unique (h : LocalFile env disk dir a file) (h' : LocalFile env disk dir b file')
    (hkey : b.objectKey = a.objectKey) : file' = file := by
  have hcontent := h'.content
  rw [fileName_congr hkey, h.content] at hcontent
  exact (Option.some.inj hcontent).symm

/-- The file is the same in another directory. -/
theorem LocalFile.move {source : Disk} {dir' : String} (h : LocalFile env source dir' a file)
    (heq : disk ⟨dir, a.fileName⟩ = source ⟨dir', a.fileName⟩) : LocalFile env disk dir a file where
  isFile := localFile_of_dir h.isFile
  content := heq.trans h.content
  size := h.size
  digest := h.digest

/-- The loop of `Upload`. -/
theorem upload_uploaded (puts : ℕ → PutOutcome) {i : ℕ} {artifacts : List Artifact}
    (h : upload env puts disk dir i artifacts bucket = (bucket', error)) :
    Uploaded env disk dir artifacts bucket bucket' error := by
  induction artifacts generalizing i bucket with
  | nil =>
    cases h
    exact ⟨fun _ => .inl rfl, by simp⟩
  | cons a artifacts ih =>
    rw [upload] at h
    split at h
    · next bucket₁ cause hitem =>
      cases h
      refine ⟨fun key => ?_, by simp⟩
      rcases uploadItem_cases (puts i) hitem with ⟨rfl, -⟩ | ⟨file, hlocal, rfl⟩
      · exact .inl rfl
      · by_cases hkey : key = a.objectKey
        · subst hkey
          exact .inr ⟨a, List.mem_cons_self, rfl, file, hlocal, Function.update_self ..⟩
        · exact .inl (Function.update_of_ne hkey ..)
    · next bucket₁ hitem =>
      obtain ⟨file, hlocal, rfl⟩ : ∃ file, LocalFile env disk dir a file ∧
          bucket₁ = Function.update bucket a.objectKey (some file) := by
        rcases uploadItem_cases (puts i) hitem with ⟨-, hnone⟩ | hstored
        · exact absurd rfl hnone
        · exact hstored
      have hrest := ih h
      -- a later artifact of the same key has the same file
      have hself : bucket' a.objectKey = some file := by
        rcases hrest.changed a.objectKey with hkept | ⟨b, hb, hkey, file', hlocal', hfile'⟩
        · rw [hkept, Function.update_self]
        · rw [hfile', hlocal.unique hlocal' hkey]
      refine ⟨fun key => ?_, fun hnone => List.forall_mem_cons.mpr
        ⟨⟨file, hlocal, hself⟩, hrest.complete hnone⟩⟩
      rcases hrest.changed key with hkept | ⟨b, hb, hkey, hfile⟩
      · by_cases hkey : key = a.objectKey
        · subst hkey
          exact .inr ⟨a, List.mem_cons_self, rfl, file, hlocal, hself⟩
        · exact .inl (hkept.trans (Function.update_of_ne hkey ..))
      · exact .inr ⟨b, List.mem_cons_of_mem _ hb, hkey, hfile⟩

variable (env bucket) in
/-- No upload stores a file that differs from the manifest, also when it fails. -/
theorem upload_verified (puts : ℕ → PutOutcome) (disk : Disk) (dir : String) (manifest : Manifest) :
    let run := upload env puts disk dir 0 manifest.artifacts bucket
    Uploaded env disk dir manifest.artifacts bucket run.1 run.2 := upload_uploaded puts rfl

/-- An upload of files that the manifest describes, all of whose requests succeed. -/
theorem upload_complete {puts : ℕ → PutOutcome} {artifacts : List Artifact}
    (hputs : ∀ i, puts i = .stored)
    (hlocal : ∀ a ∈ artifacts, ∃ file, LocalFile env disk dir a file) (i : ℕ) (bucket : Bucket) :
    (upload env puts disk dir i artifacts bucket).2 = none := by
  induction artifacts generalizing i bucket with
  | nil => rfl
  | cons a artifacts ih =>
    obtain ⟨⟨file, hfile⟩, hrest⟩ := List.forall_mem_cons.mp hlocal
    have hitem : (uploadItem env (puts i) disk dir a bucket).2 = none := by
      unfold uploadItem
      rw [hfile.isFile]
      dsimp only
      rw [info_eq hfile.content]
      dsimp only
      rw [if_neg (not_or.mpr ⟨not_not.mpr hfile.size, not_not.mpr hfile.digest⟩), hputs]
    rw [upload]
    split
    · next hfail =>
      rw [hfail] at hitem
      cases hitem
    · exact ih hrest _ _

/-- What one download does. -/
theorem downloadItem_cases (fetch : Fetch)
    (h : downloadItem env fetch dir a disk = (disk', error)) :
    (∀ path, path ≠ ⟨dir, a.fileName⟩ → disk' path = disk path) ∧
      (error = none → ∃ file, fetch = .complete file ∧
        disk' ⟨dir, a.fileName⟩ = some file ∧
        hexEncode (env.sha256 file.bytes) = a.compressedSha256) := by
  unfold downloadItem at h
  split at h
  · cases h
    exact ⟨fun _ _ => rfl, by simp⟩
  · next path hpath =>
    obtain rfl := localFile_eq_some hpath
    cases fetch with
    | uncreated =>
      cases h
      exact ⟨fun _ _ => rfl, by simp⟩
    | broken written =>
      cases h
      exact ⟨fun path hne => Function.update_of_ne hne .., by simp⟩
    | complete object =>
      dsimp only at h
      rw [info_eq (Function.update_self ..)] at h
      dsimp only at h
      split at h
      · cases h
        exact ⟨fun path hne => Function.update_of_ne hne .., by simp⟩
      · next hdigest =>
        cases h
        exact ⟨fun path hne => Function.update_of_ne hne .., fun _ =>
          ⟨object, rfl, Function.update_self .., not_not.mp hdigest⟩⟩

/-- The loop of `Download`, whatever the requests give. -/
theorem download_downloaded (fetches : ℕ → String → Fetch) {i : ℕ} {artifacts : List Artifact}
    (h : download env fetches dir i artifacts disk = (disk', error)) :
    Downloaded env dir artifacts disk disk' error := by
  induction artifacts generalizing i disk with
  | nil =>
    cases h
    exact ⟨fun _ _ => rfl, by simp⟩
  | cons a artifacts ih =>
    rw [download] at h
    split at h
    · next disk₁ cause hitem =>
      cases h
      obtain ⟨hframe, -⟩ := downloadItem_cases _ hitem
      exact ⟨fun path hpath => hframe path (hpath a List.mem_cons_self), by simp⟩
    · next disk₁ hitem =>
      obtain ⟨hframe, hfile⟩ := downloadItem_cases _ hitem
      obtain ⟨file, -, hfile, hdigest⟩ := hfile rfl
      have hrest := ih h
      refine ⟨fun path hpath => ?_, fun hnone b hb hagree => ?_⟩
      · obtain ⟨hne, hnes⟩ := List.forall_mem_cons.mp hpath
        exact (hrest.frame path hnes).trans (hframe path hne)
      · -- either a later artifact has the name, or this file is kept
        by_cases hlater : ∃ c ∈ artifacts, c.fileName = b.fileName
        · obtain ⟨c, hc, hname⟩ := hlater
          have hsame := hagree c (List.mem_cons_of_mem _ hc) hname
          obtain ⟨file', hfile', hdigest'⟩ := hrest.complete hnone c hc fun d hd hd' => by
            rw [hagree d (List.mem_cons_of_mem _ hd) (hd'.trans hname), hsame]
          rw [hname] at hfile'
          exact ⟨file', hfile', hdigest'.trans hsame⟩
        · rcases List.mem_cons.mp hb with rfl | hb
          · refine ⟨file, ?_, hdigest⟩
            rw [hrest.frame _ fun c hc heq => hlater ⟨c, hc, (congrArg Path.name heq).symm⟩, hfile]
          · exact absurd ⟨b, hb, rfl⟩ hlater

variable (env disk) in
/-- Whatever its requests give, a download that succeeds has the files of the manifest. -/
theorem download_verified (fetches : ℕ → String → Fetch) (dir : String) (manifest : Manifest) :
    let run := download env fetches dir 0 manifest.artifacts disk
    Downloaded env dir manifest.artifacts disk run.1 run.2 := download_downloaded fetches rfl

/-- Requests that are answered from a bucket. -/
def Serves (bucket : Bucket) (fetches : ℕ → String → Fetch) : Prop :=
  ∀ i key file, bucket key = some file → fetches i key = .complete file

/-- A download of what the bucket has, which is what the manifest describes. -/
theorem download_serves {fetches : ℕ → String → Fetch} {source : Disk} {dir' : String}
    {artifacts : List Artifact} (hserves : Serves bucket fetches)
    (hbucket : ∀ a ∈ artifacts, ∃ file, LocalFile env source dir' a file ∧
      bucket a.objectKey = some file) (dir : String) (i : ℕ) (disk : Disk) :
    ∃ disk', download env fetches dir i artifacts disk = (disk', none) ∧
      ∀ a ∈ artifacts, disk' ⟨dir, a.fileName⟩ = source ⟨dir', a.fileName⟩ := by
  induction artifacts generalizing i disk with
  | nil => exact ⟨disk, rfl, by simp⟩
  | cons a artifacts ih =>
    obtain ⟨⟨file, hlocal, hobject⟩, hrest⟩ := List.forall_mem_cons.mp hbucket
    have hitem : downloadItem env (fetches i a.objectKey) dir a disk =
        (Function.update disk ⟨dir, a.fileName⟩ (some file), none) := by
      rw [hserves i _ _ hobject, downloadItem, localFile_of_dir hlocal.isFile]
      dsimp only
      rw [info_eq (Function.update_self ..)]
      dsimp only
      rw [if_neg (not_not.mpr hlocal.digest)]
    obtain ⟨disk', hrun, hfiles⟩ :=
      ih hrest (i + 1) (Function.update disk ⟨dir, a.fileName⟩ (some file))
    have hdownload : download env fetches dir i (a :: artifacts) disk = (disk', none) := by
      rw [download, hitem]
      exact hrun
    refine ⟨disk', hdownload, List.forall_mem_cons.mpr ⟨?_, hfiles⟩⟩
    by_cases hlater : ∃ c ∈ artifacts, c.fileName = a.fileName
    · obtain ⟨c, hc, hname⟩ := hlater
      rw [← hname]
      exact hfiles c hc
    · rw [(download_downloaded fetches hrun).frame _ fun c hc heq =>
        hlater ⟨c, hc, (congrArg Path.name heq).symm⟩, Function.update_self, hlocal.content]

/-- What an upload that succeeds has put into the bucket, a download brings into any directory:
the files of the manifest as they were, and nothing else is touched. -/
theorem upload_download {puts : ℕ → PutOutcome} {fetches : ℕ → String → Fetch} {source : Disk}
    {dir' : String} {manifest : Manifest}
    (hupload : upload env puts source dir' 0 manifest.artifacts bucket = (bucket', none))
    (hserves : Serves bucket' fetches) (disk : Disk) (dir : String) :
    ∃ disk', download env fetches dir 0 manifest.artifacts disk = (disk', none) ∧
      (∀ a ∈ manifest.artifacts, disk' ⟨dir, a.fileName⟩ = source ⟨dir', a.fileName⟩ ∧
        ∃ file, LocalFile env disk' dir a file) ∧
      ∀ path, (∀ a ∈ manifest.artifacts, path ≠ ⟨dir, a.fileName⟩) → disk' path = disk path := by
  have hbucket := (upload_uploaded puts hupload).complete rfl
  obtain ⟨disk', hrun, hfiles⟩ := download_serves hserves hbucket dir 0 disk
  refine ⟨disk', hrun, fun a ha => ⟨hfiles a ha, ?_⟩, (download_downloaded fetches hrun).frame⟩
  obtain ⟨file, hlocal, -⟩ := hbucket a ha
  exact ⟨file, hlocal.move (hfiles a ha)⟩

def sampleFile : File := ⟨[1, 2, 3], by decide⟩

/-- The SHA-256 of the file. -/
def sampleDigest : Fin 32 → UInt8 :=
  ![0x03, 0x90, 0x58, 0xc6, 0xf2, 0xc0, 0xcb, 0x49, 0x2c, 0x53, 0x3b, 0x0a,
    0x4d, 0x14, 0xef, 0x77, 0xcc, 0x0f, 0x78, 0xab, 0xcc, 0xce, 0xd5, 0x28,
    0x7d, 0x84, 0xa1, 0xa2, 0x01, 0x1c, 0xfb, 0x81]

def transferEnvironment : Environment := { sampleEnvironment with sha256 := fun _ => sampleDigest }

def sampleArtifact : Artifact where
  id := "public-1-input"
  kind := "input"
  label := "Public 1 input"
  objectKey := "datasets/contest/public/public-1.csv.zst"
  rows := 1
  compressedBytes := 3
  uncompressedBytes := 9
  compressedSha256 := hexEncode sampleDigest
  uncompressedSha256 := hexEncode sampleDigest
  isPublic := true

def sampleManifest : Manifest := ⟨1, "contest", "2027-01-01T00:00:00Z", "test", [sampleArtifact]⟩

def sampleDisk : Disk := fun path =>
  if path = ⟨"data", "public-1.csv.zst"⟩ then some sampleFile else none

theorem localFile_sample :
    LocalFile transferEnvironment sampleDisk "data" sampleArtifact sampleFile := by
  have hname : sampleArtifact.fileName = "public-1.csv.zst" := by decide +kernel
  refine ⟨?_, ?_, rfl, rfl⟩
  · rw [Artifact.localFile, hname]
    rfl
  · rw [hname]
    rfl

theorem upload_download_sample : ∃ bucket' disk',
    upload transferEnvironment (fun _ => .stored) sampleDisk "data" 0 sampleManifest.artifacts
        (fun _ => none) = (bucket', none) ∧
      download transferEnvironment (fun _ key => ((bucket' key).map .complete).getD .uncreated)
        "host" 0 sampleManifest.artifacts (fun _ => none) = (disk', none) := by
  have hlocal : ∀ a ∈ sampleManifest.artifacts,
      ∃ file, LocalFile transferEnvironment sampleDisk "data" a file := by
    intro a ha
    obtain rfl := List.mem_singleton.mp ha
    exact ⟨sampleFile, localFile_sample⟩
  have hputs (i : ℕ) : (fun _ : ℕ => PutOutcome.stored) i = .stored := rfl
  have hnone := upload_complete hputs hlocal 0 fun _ => none
  obtain ⟨disk', hrun, -⟩ := upload_download (Prod.ext rfl hnone) (fun i key file hfile => by
    exact congrArg (fun object => (object.map Fetch.complete).getD .uncreated) hfile)
      (fun _ => none) "host"
  exact ⟨_, disk', Prod.ext rfl hnone, hrun⟩

end Facts
end OneBrc.Data
