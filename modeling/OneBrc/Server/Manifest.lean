import Mathlib.Data.Rat.Defs
import OneBrc.Lib.Fallible
import OneBrc.Lib.Rfc3339
import OneBrc.Server.Handlers

/-! The dataset manifest and `validateManifest`. -/
namespace OneBrc.Server
open Lib

/-- `api.DatasetArtifact` -/
structure DatasetArtifact where
  id : String
  kind : String
  label : String
  objectKey : String
  rows : Int64
  compressedBytes : Int64
  uncompressedBytes : Int64
  compressedSha256 : String
  uncompressedSha256 : String
  isPublic : Bool
  deriving DecidableEq

/-- `api.DatasetManifest` -/
structure DatasetManifest where
  schemaVersion : ℚ
  contestId : String
  generatedAt : String
  generatorRevision : String
  artifacts : List DatasetArtifact
  deriving DecidableEq

/-- The two kinds, `api.Input` and `api.Expected`. -/
def datasetKinds : List String := ["input", "expected"]

def hasPrefix (text start : String) : Bool := start.toList.isPrefixOf text.toList
def hasSuffix (text ending : String) : Bool := ending.toList.isSuffixOf text.toList

def isIdHead (c : Char) : Bool := 'a' ≤ c && c ≤ 'z' || Digits.isDigit c
def isIdTail (c : Char) : Bool := isIdHead c || c = '-'

/-- `^[a-z0-9][a-z0-9-]{0,tail}$` -/
def idPattern (tail : ℕ) (text : String) : Bool :=
  match text.toList with
  | [] => false
  | c :: cs => isIdHead c && cs.all isIdTail && cs.length ≤ tail

def artifactIDPattern : String → Bool := idPattern 63
def contestIDPattern : String → Bool := idPattern 127

/-- `^[a-f0-9]{64}$` -/
def shaPattern (text : String) : Bool :=
  text.toList.length = 64 && text.toList.all fun c => 'a' ≤ c && c ≤ 'f' || Digits.isDigit c

/-- From the blank to the tilde. -/
def isPrintable (c : Char) : Bool := 0x20 ≤ c.toNat && c.toNat ≤ 0x7e

def DatasetArtifact.scope (a : DatasetArtifact) : String :=
  if a.isPublic then "public" else "private"

/-- `fmt.Sprintf("%s:%d", scope, a.Rows)` -/
def DatasetArtifact.pair (a : DatasetArtifact) : String := a.scope ++ ":" ++ toString a.rows.toInt

/-- The prefix of the object keys of a scope. -/
def scopePrefix (contestId scope : String) : String :=
  "datasets/" ++ contestId ++ "/" ++ scope ++ "/"

/-- What the loop of `validateManifest` has seen; `pairs` holds each pair with each of its kinds. -/
structure Seen where
  ids : List String
  keys : List String
  pairs : List (String × String)
  hasPublic : Bool
  hasPrivate : Bool

/-- One iteration of the loop. -/
def validateArtifact (contestId : String) (seen : Seen) (a : DatasetArtifact) :
    Except AppError Seen :=
  if !artifactIDPattern a.id || a.kind ∉ datasetKinds || a.label = "" ||
      128 < Utf16.length a.label || 1024 < a.objectKey.utf8ByteSize ||
      !hasPrefix a.objectKey "datasets/" || a.rows ≤ 0 || a.compressedBytes ≤ 0 ||
      a.uncompressedBytes ≤ 0 || !shaPattern a.compressedSha256 ||
      !shaPattern a.uncompressedSha256 || a.id ∈ seen.ids || a.objectKey ∈ seen.keys ||
      !hasSuffix a.id ("-" ++ a.kind) then .error invalidRequest
  else if !a.objectKey.toList.all isPrintable then .error invalidRequest
  else if !hasPrefix a.objectKey (scopePrefix contestId a.scope) then .error invalidRequest
  else if (a.pair, a.kind) ∈ seen.pairs then .error invalidRequest
  else .ok
    { ids := a.id :: seen.ids
      keys := a.objectKey :: seen.keys
      pairs := (a.pair, a.kind) :: seen.pairs
      hasPublic := seen.hasPublic || a.isPublic
      hasPrivate := seen.hasPrivate || !a.isPublic }

def validateManifest (manifest : DatasetManifest) : Except AppError Unit :=
  if manifest.schemaVersion ≠ 1 || !contestIDPattern manifest.contestId ||
      manifest.generatorRevision = "" || 128 < Utf16.length manifest.generatorRevision ||
      manifest.artifacts.length < 4 then .error invalidRequest
  else match Rfc3339.parse manifest.generatedAt with
    | none => .error invalidRequest
    | some _ =>
        match manifest.artifacts.foldlM (validateArtifact manifest.contestId)
          ⟨[], [], [], false, false⟩ with
        | .error e => .error e
        | .ok seen =>
            if !seen.hasPublic || !seen.hasPrivate then .error invalidRequest
            else if !seen.pairs.all fun entry =>
              datasetKinds.all fun kind => (entry.1, kind) ∈ seen.pairs
            then .error invalidRequest
            else .ok ()

def sampleArtifact (id kind : String) (isPublic : Bool) : DatasetArtifact :=
  let scope := if isPublic then "public" else "private"
  { id := scope ++ "-" ++ id ++ "-" ++ kind
    kind
    label := id
    objectKey := "datasets/contest/" ++ scope ++ "/" ++ id ++ "." ++ kind ++ ".zst"
    rows := 100
    compressedBytes := 1
    uncompressedBytes := 1
    compressedSha256 := String.ofList (List.replicate 64 'a')
    uncompressedSha256 := String.ofList (List.replicate 64 'b')
    isPublic }

/-- A manifest generated at a given time. -/
def sampleManifest (generatedAt : String) : DatasetManifest :=
  { schemaVersion := 1
    contestId := "contest"
    generatedAt
    generatorRevision := "test"
    artifacts := [sampleArtifact "full" "input" true, sampleArtifact "full" "expected" true,
      sampleArtifact "full" "input" false, sampleArtifact "full" "expected" false] }

section Specification

/-- An artifact that passes its own checks. -/
structure DatasetArtifact.Valid (contestId : String) (a : DatasetArtifact) : Prop where
  id : artifactIDPattern a.id = true
  suffix : hasSuffix a.id ("-" ++ a.kind) = true
  kind : a.kind ∈ datasetKinds
  label : a.label ≠ ""
  labelLength : Utf16.length a.label ≤ 128
  keyLength : a.objectKey.utf8ByteSize ≤ 1024
  keyPrintable : a.objectKey.toList.all isPrintable = true
  keyPrefix : hasPrefix a.objectKey (scopePrefix contestId a.scope) = true
  rows : 0 < a.rows
  compressedBytes : 0 < a.compressedBytes
  uncompressedBytes : 0 < a.uncompressedBytes
  compressedSha256 : shaPattern a.compressedSha256 = true
  uncompressedSha256 : shaPattern a.uncompressedSha256 = true

/-- The two artifacts hold the same dataset in the same scope. -/
def DatasetArtifact.Paired (a b : DatasetArtifact) : Prop :=
  b.isPublic = a.isPublic ∧ b.rows = a.rows

/-- The rules across artifacts: unique ids, keys and kinds of a dataset, both kinds of each dataset,
and a dataset of each scope. -/
structure Consistent (artifacts : List DatasetArtifact) : Prop where
  ids : (artifacts.map DatasetArtifact.id).Nodup
  keys : (artifacts.map DatasetArtifact.objectKey).Nodup
  pairs : (artifacts.map fun a => (a.isPublic, a.rows, a.kind)).Nodup
  complete : ∀ a ∈ artifacts, ∀ kind ∈ datasetKinds, ∃ b ∈ artifacts, a.Paired b ∧ b.kind = kind
  hasPublic : ∃ a ∈ artifacts, a.isPublic = true
  hasPrivate : ∃ a ∈ artifacts, a.isPublic = false

/-- Everything that is checked of a manifest but for the time of its generation. -/
structure DatasetManifest.WellFormed (manifest : DatasetManifest) : Prop where
  schemaVersion : manifest.schemaVersion = 1
  contestId : contestIDPattern manifest.contestId = true
  generatorRevision : manifest.generatorRevision ≠ ""
  revisionLength : Utf16.length manifest.generatorRevision ≤ 128
  length : 4 ≤ manifest.artifacts.length
  artifacts : ∀ a ∈ manifest.artifacts, a.Valid manifest.contestId
  consistent : Consistent manifest.artifacts

/-- `validateManifest` accepts these. -/
def DatasetManifest.Valid (manifest : DatasetManifest) : Prop :=
  manifest.WellFormed ∧ (Rfc3339.parse manifest.generatedAt).isSome

end Specification

section Texts

theorem hasPrefix_iff {text start : String} :
    hasPrefix text start = true ↔ start.toList <+: text.toList := List.isPrefixOf_iff_prefix

theorem hasSuffix_iff {text ending : String} :
    hasSuffix text ending = true ↔ ending.toList <:+ text.toList := List.isSuffixOf_iff_suffix

theorem hasPrefix_datasets {text contestId scope : String}
    (h : hasPrefix text (scopePrefix contestId scope) = true) :
    hasPrefix text "datasets/" = true := by
  rw [hasPrefix_iff] at h ⊢
  refine List.IsPrefix.trans ?_ h
  simp only [scopePrefix, String.toList_append, List.append_assoc]
  exact List.prefix_append _ _

/-- The text of a pair tells its scope and its rows. -/
theorem pair_inj {a b : DatasetArtifact} : a.pair = b.pair ↔ b.Paired a := by
  rw [DatasetArtifact.Paired, DatasetArtifact.pair, DatasetArtifact.pair, DatasetArtifact.scope,
    DatasetArtifact.scope, ← String.toList_inj]
  simp only [String.toList_append, List.append_assoc]
  constructor
  · intro h
    cases ha : a.isPublic <;> cases hb : b.isPublic <;> simp [ha, hb] at h ⊢
    · exact Int64.toInt_inj.mp (Digits.toString_injective (String.toList_inj.mp (by simpa using h)))
    · exact Int64.toInt_inj.mp (Digits.toString_injective (String.toList_inj.mp (by simpa using h)))
  · rintro ⟨hpublic, hrows⟩
    rw [hpublic, hrows]

end Texts

section Validation
variable {contestId : String} {a : DatasetArtifact} {seen seen' : Seen}

/-- What has been seen after some artifacts, the last one first. -/
def Seen.of (done : List DatasetArtifact) : Seen :=
  ⟨done.map DatasetArtifact.id, done.map DatasetArtifact.objectKey,
    done.map fun a => (a.pair, a.kind), done.any (·.isPublic), done.any (!·.isPublic)⟩

/-- No two artifacts share an id, a key or a pair and a kind. -/
structure Distinct (artifacts : List DatasetArtifact) : Prop where
  ids : (artifacts.map DatasetArtifact.id).Nodup
  keys : (artifacts.map DatasetArtifact.objectKey).Nodup
  pairs : (artifacts.map fun a => (a.pair, a.kind)).Nodup

theorem Distinct.nil : Distinct [] := ⟨List.nodup_nil, List.nodup_nil, List.nodup_nil⟩

theorem Distinct.of_append {artifacts done : List DatasetArtifact}
    (h : Distinct (artifacts ++ done)) : Distinct done :=
  ⟨(List.map_append ▸ h.ids).of_append_right, (List.map_append ▸ h.keys).of_append_right,
    (List.map_append ▸ h.pairs).of_append_right⟩

theorem distinct_cons {done : List DatasetArtifact} : Distinct (a :: done) ↔
    (a.id ∉ (Seen.of done).ids ∧ a.objectKey ∉ (Seen.of done).keys ∧
      (a.pair, a.kind) ∉ (Seen.of done).pairs) ∧ Distinct done := by
  constructor
  · rintro ⟨hids, hkeys, hpairs⟩
    rw [List.map_cons, List.nodup_cons] at hids hkeys hpairs
    exact ⟨⟨hids.1, hkeys.1, hpairs.1⟩, hids.2, hkeys.2, hpairs.2⟩
  · rintro ⟨⟨hid, hkey, hpair⟩, h⟩
    exact ⟨List.nodup_cons.mpr ⟨hid, h.ids⟩, List.nodup_cons.mpr ⟨hkey, h.keys⟩,
      List.nodup_cons.mpr ⟨hpair, h.pairs⟩⟩

/-- An iteration accepts a valid artifact that shares nothing with the ones before it. -/
theorem validateArtifact_ok_iff {done : List DatasetArtifact} :
    validateArtifact contestId (Seen.of done) a = .ok seen' ↔
      a.Valid contestId ∧ (a.id ∉ (Seen.of done).ids ∧ a.objectKey ∉ (Seen.of done).keys ∧
        (a.pair, a.kind) ∉ (Seen.of done).pairs) ∧ seen' = Seen.of (a :: done) := by
  have hadd : (⟨a.id :: (Seen.of done).ids, a.objectKey :: (Seen.of done).keys,
      (a.pair, a.kind) :: (Seen.of done).pairs, (Seen.of done).hasPublic || a.isPublic,
      (Seen.of done).hasPrivate || !a.isPublic⟩ : Seen) = Seen.of (a :: done) := by
    simp [Seen.of, Bool.or_comm]
  rw [validateArtifact, hadd]
  constructor
  · intro h
    split at h
    · contradiction
    · next hchecks =>
      split at h
      · contradiction
      · next hprintable =>
        split at h
        · contradiction
        · next hstart =>
          split at h
          · contradiction
          · next hpair =>
            simp only [Bool.or_eq_true, decide_eq_true_eq, Bool.not_eq_true', not_or,
              Bool.not_eq_false, not_not, not_lt] at hchecks hprintable hstart
            obtain ⟨⟨⟨⟨⟨⟨⟨⟨⟨⟨⟨⟨⟨hid, hkind⟩, hlabel⟩, hlabelLength⟩, hkeyLength⟩, -⟩, hrows⟩,
              hcompressed⟩, huncompressed⟩, hsha⟩, hsha'⟩, hfreshId⟩, hfreshKey⟩, hsuffix⟩ :=
              hchecks
            refine ⟨⟨hid, hsuffix, hkind, hlabel, hlabelLength, hkeyLength, hprintable, hstart,
              ?_, ?_, ?_, hsha, hsha'⟩, ⟨hfreshId, hfreshKey, hpair⟩, (Except.ok.inj h).symm⟩
            · exact Int64.not_le.mp hrows
            · exact Int64.not_le.mp hcompressed
            · exact Int64.not_le.mp huncompressed
  · rintro ⟨h, ⟨hid, hkey, hpair⟩, rfl⟩
    rw [if_neg, if_neg, if_neg, if_neg hpair]
    · simp [h.keyPrefix]
    · simp [h.keyPrintable]
    · simp [h.id, h.kind, h.label, h.labelLength, h.keyLength, hasPrefix_datasets h.keyPrefix,
        h.rows, h.compressedBytes, h.uncompressedBytes, h.compressedSha256, h.uncompressedSha256,
        hid, hkey, h.suffix]

/-- The loop accepts valid artifacts that share nothing. -/
theorem foldlM_validateArtifact (contestId : String) (artifacts : List DatasetArtifact)
    (seen' : Seen) {done : List DatasetArtifact} (h : Distinct done) :
    artifacts.foldlM (validateArtifact contestId) (Seen.of done) = .ok seen' ↔
      (∀ a ∈ artifacts, a.Valid contestId) ∧ Distinct (artifacts.reverse ++ done) ∧
        seen' = Seen.of (artifacts.reverse ++ done) := by
  induction artifacts generalizing done with
  | nil =>
    rw [List.foldlM_nil]
    constructor
    · intro hok
      exact ⟨nofun, h, (Except.ok.inj hok).symm⟩
    · rintro ⟨-, -, rfl⟩
      rfl
  | cons a artifacts ih =>
    rw [List.foldlM_cons, List.reverse_cons, List.append_assoc, List.singleton_append]
    constructor
    · intro hok
      obtain ⟨seen, hseen, hrest⟩ := Fallible.bind_eq_ok.mp hok
      obtain ⟨hvalid, hfresh, rfl⟩ := validateArtifact_ok_iff.mp hseen
      obtain ⟨hall, hdistinct, hseen'⟩ := (ih (distinct_cons.mpr ⟨hfresh, h⟩)).mp hrest
      exact ⟨List.forall_mem_cons.mpr ⟨hvalid, hall⟩, hdistinct, hseen'⟩
    · rintro ⟨hall, hdistinct, hseen'⟩
      obtain ⟨hvalid, hall⟩ := List.forall_mem_cons.mp hall
      have hcons : Distinct (a :: done) := hdistinct.of_append
      obtain ⟨hfresh, -⟩ := distinct_cons.mp hcons
      rw [validateArtifact_ok_iff.mpr ⟨hvalid, hfresh, rfl⟩]
      exact (ih hcons).mpr ⟨hall, hdistinct, hseen'⟩

theorem distinct_reverse {artifacts : List DatasetArtifact} :
    Distinct artifacts.reverse ↔ (artifacts.map DatasetArtifact.id).Nodup ∧
      (artifacts.map DatasetArtifact.objectKey).Nodup ∧
      (artifacts.map fun a => (a.isPublic, a.rows, a.kind)).Nodup := by
  have hpairs : (artifacts.map fun a => (a.pair, a.kind)).Nodup ↔
      (artifacts.map fun a => (a.isPublic, a.rows, a.kind)).Nodup := by
    rw [List.Nodup, List.Nodup, List.pairwise_map, List.pairwise_map]
    apply List.Pairwise.iff
    intro a b
    rw [ne_eq, ne_eq, Prod.mk.injEq, Prod.mk.injEq, Prod.mk.injEq, pair_inj,
      DatasetArtifact.Paired, and_assoc]
  constructor
  · rintro ⟨hids, hkeys, hpairs'⟩
    rw [List.map_reverse, List.nodup_reverse] at hids hkeys hpairs'
    exact ⟨hids, hkeys, hpairs.mp hpairs'⟩
  · rintro ⟨hids, hkeys, hpairs'⟩
    refine ⟨?_, ?_, ?_⟩ <;> rw [List.map_reverse, List.nodup_reverse]
    · exact hids
    · exact hkeys
    · exact hpairs.mpr hpairs'

/-- Each pair that was seen was seen with both kinds. -/
theorem seen_complete_iff {artifacts : List DatasetArtifact} :
    ((Seen.of artifacts.reverse).pairs.all fun entry =>
      datasetKinds.all fun kind => (entry.1, kind) ∈ (Seen.of artifacts.reverse).pairs) = true ↔
    ∀ a ∈ artifacts, ∀ kind ∈ datasetKinds, ∃ b ∈ artifacts, a.Paired b ∧ b.kind = kind := by
  simp only [Seen.of, List.all_eq_true, List.mem_map, List.mem_reverse, decide_eq_true_eq,
    forall_exists_index, and_imp, forall_apply_eq_imp_iff₂, Prod.mk.injEq, pair_inj]

theorem validateManifest_ok_iff {manifest : DatasetManifest} :
    validateManifest manifest = .ok () ↔ manifest.Valid := by
  have hloop (seen : Seen) : manifest.artifacts.foldlM (validateArtifact manifest.contestId)
      ⟨[], [], [], false, false⟩ = .ok seen ↔
        (∀ a ∈ manifest.artifacts, a.Valid manifest.contestId) ∧
          Distinct manifest.artifacts.reverse ∧ seen = Seen.of manifest.artifacts.reverse := by
    have h := foldlM_validateArtifact manifest.contestId manifest.artifacts seen Distinct.nil
    rwa [List.append_nil] at h
  have hpublic : (Seen.of manifest.artifacts.reverse).hasPublic = true ↔
      ∃ a ∈ manifest.artifacts, a.isPublic = true := by
    simp [Seen.of]
  have hprivate : (Seen.of manifest.artifacts.reverse).hasPrivate = true ↔
      ∃ a ∈ manifest.artifacts, a.isPublic = false := by
    simp [Seen.of]
  rw [validateManifest]
  constructor
  · intro h
    split at h
    · contradiction
    · next hheader =>
      cases htime : Rfc3339.parse manifest.generatedAt with
      | none =>
        rw [htime] at h
        contradiction
      | some time =>
        rw [htime] at h
        dsimp only at h
        split at h
        · contradiction
        · next seen hseen =>
          obtain ⟨hartifacts, hdistinct, rfl⟩ := (hloop seen).mp hseen
          split at h
          · contradiction
          · next hscopes =>
            split at h
            · contradiction
            · next hcomplete =>
              simp only [Bool.or_eq_true, decide_eq_true_eq, Bool.not_eq_true', not_or,
                Bool.not_eq_false, not_not, not_lt] at hheader hscopes hcomplete
              obtain ⟨⟨⟨⟨hversion, hcontest⟩, hrevision⟩, hrevisionLength⟩, hlength⟩ := hheader
              obtain ⟨hids, hkeys, hpairs⟩ := distinct_reverse.mp hdistinct
              refine ⟨⟨hversion, hcontest, hrevision, hrevisionLength, hlength, hartifacts,
                ⟨hids, hkeys, hpairs, seen_complete_iff.mp hcomplete, hpublic.mp hscopes.1,
                  hprivate.mp hscopes.2⟩⟩, ?_⟩
              rw [htime]
              rfl
  · rintro ⟨h, htime⟩
    obtain ⟨time, htime⟩ := Option.isSome_iff_exists.mp htime
    have hseen := (hloop _).mpr ⟨h.artifacts, distinct_reverse.mpr ⟨h.consistent.ids,
      h.consistent.keys, h.consistent.pairs⟩, rfl⟩
    have hcomplete := seen_complete_iff.mpr h.consistent.complete
    rw [if_neg, htime]
    · dsimp only
      rw [hseen]
      dsimp only
      rw [hpublic.mpr h.consistent.hasPublic, hprivate.mpr h.consistent.hasPrivate, hcomplete]
      rfl
    · simp [h.schemaVersion, h.contestId, h.generatorRevision, h.revisionLength, h.length]

theorem validateManifest_sample :
    validateManifest (sampleManifest "2026-01-01T00:00:00Z") = .ok () := by
  decide +kernel

/-- Its time is no matter. -/
theorem wellFormed_sampleManifest (generatedAt : String) :
    (sampleManifest generatedAt).WellFormed := by
  obtain ⟨h, -⟩ := validateManifest_ok_iff.mp validateManifest_sample
  exact ⟨h.schemaVersion, h.contestId, h.generatorRevision, h.revisionLength, h.length,
    h.artifacts, h.consistent⟩

end Validation

end OneBrc.Server
