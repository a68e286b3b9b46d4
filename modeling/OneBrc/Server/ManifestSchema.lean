import OneBrc.Lib.Utf8
import OneBrc.Server.ManifestJson
import OneBrc.Server.RunnerSchema

/-! The manifest schema of the admin page, and where it differs from what the server does with the
same value. -/
namespace OneBrc.Shared
open Lib Server
open Runner (units)

/-- `z.iso.datetime()`: the seconds and their fraction may be left out, the `Z` may not. -/
def isoDatetime (text : String) : Bool :=
  Option.isSome do
    let (_, cs) ← Rfc3339.date text.toList
    let (hour, cs) ← CivilTime.field 2 ':' cs
    let (minute, cs) ← Rfc3339.number 2 cs
    guard (hour < 24 ∧ minute < 60)
    match cs with
    | ':' :: cs => do
        let (second, cs) ← Rfc3339.number 2 cs
        guard (second < 60 ∧ (Rfc3339.fraction ['.'] cs).2 = ['Z'])
    | cs => guard (cs = ['Z'])

/-- `Number.MAX_SAFE_INTEGER` -/
def maxSafeInteger : ℤ := 9007199254740991

/-- JavaScript has the nearest number, and `z.number()` refuses infinite ones. -/
def readNumber (literal : String) : Option ℚ := do
  BinaryFormat.binary64.round (← JsonNumber.parse literal).value

/-- `z.number().int()` of such a number. -/
def readInt (literal : String) : Option Int64 := do
  let q ← readNumber literal
  if q.den = 1 ∧ |q.num| ≤ maxSafeInteger then some (Int64.ofInt q.num) else none

section Types
variable (members : List Member) (name : String)

/-- `z.string()`. Neither a pattern nor a length tells an unpaired surrogate from U+FFFD. -/
def stringProperty : Option String :=
  match property? members name with
  | some (.string s) => some (goString s)
  | _ => none

/-- `z.boolean()` -/
def booleanProperty : Option Bool :=
  match property? members name with
  | some (.bool b) => some b
  | _ => none

/-- `z.number()` -/
def numberProperty : Option ℚ :=
  match property? members name with
  | some (.number literal) => readNumber literal
  | _ => none

/-- `z.number().int()` -/
def intProperty : Option Int64 :=
  match property? members name with
  | some (.number literal) => readInt literal
  | _ => none

/-- The types of `datasetArtifactSchema`. -/
def readArtifact : RawMessage → Option DatasetArtifact
  | .object members => do
      let id ← stringProperty members "id"
      let kind ← stringProperty members "kind"
      let label ← stringProperty members "label"
      let objectKey ← stringProperty members "objectKey"
      let rows ← intProperty members "rows"
      let compressedBytes ← intProperty members "compressedBytes"
      let uncompressedBytes ← intProperty members "uncompressedBytes"
      let compressedSha256 ← stringProperty members "compressedSha256"
      let uncompressedSha256 ← stringProperty members "uncompressedSha256"
      let isPublic ← booleanProperty members "isPublic"
      pure ⟨id, kind, label, objectKey, rows, compressedBytes, uncompressedBytes, compressedSha256,
        uncompressedSha256, isPublic⟩
  | _ => none

/-- `z.array(datasetArtifactSchema)`, its types only. -/
def artifactsProperty : Option (List DatasetArtifact) :=
  match property? members name with
  | some (.array elements) => elements.mapM readArtifact
  | _ => none

/-- The types of `datasetManifestSchema` on what `JSON.parse` returns. -/
def readManifest : RawMessage → Option DatasetManifest
  | .object members => do
      let schemaVersion ← numberProperty members "schemaVersion"
      let contestId ← stringProperty members "contestId"
      let generatedAt ← stringProperty members "generatedAt"
      let generatorRevision ← stringProperty members "generatorRevision"
      let artifacts ← artifactsProperty members "artifacts"
      pure ⟨schemaVersion, contestId, generatedAt, generatorRevision, artifacts⟩
  | _ => none

end Types

/-- The checks of `datasetArtifactSchema` on values of its types. -/
def artifactChecks (a : DatasetArtifact) : Bool :=
  idPattern 63 a.id && a.kind ∈ datasetKinds && 1 ≤ Utf16.length a.label &&
    Utf16.length a.label ≤ 128 && hasPrefix a.objectKey "datasets/" &&
    Utf16.length a.objectKey ≤ 1024 && !a.objectKey.toList.isEmpty &&
    a.objectKey.toList.all isPrintable && 0 < a.rows && 0 < a.compressedBytes &&
    0 < a.uncompressedBytes && shaPattern a.compressedSha256 && shaPattern a.uncompressedSha256

inductive PathSegment where
  | key (name : String)
  | index (i : ℕ)
  deriving DecidableEq

structure Issue where
  message : String
  path : List PathSegment
  deriving DecidableEq

/-- The sets and the map of `superRefine`, and its issues; `pairs` holds each key with each of its
kinds, the last one first. -/
structure Refined where
  ids : List String
  keys : List String
  pairs : List (String × String)
  issues : List Issue

def issueWhen (condition : Bool) (message : String) (path : List PathSegment) : List Issue :=
  if condition then [⟨message, path⟩] else []

/-- One iteration of the loop over the artifacts. -/
def refineArtifact (contestId : String) (state : Refined) (entry : DatasetArtifact × ℕ) : Refined :=
  let (artifact, index) := entry
  let path (field : String) : List PathSegment := [.key "artifacts", .index index, .key field]
  { ids := artifact.id :: state.ids
    keys := artifact.objectKey :: state.keys
    pairs := (artifact.pair, artifact.kind) :: state.pairs
    issues := state.issues ++
      issueWhen (artifact.id ∈ state.ids) "artifact id must be unique" (path "id") ++
      issueWhen (artifact.objectKey ∈ state.keys) "object key must be unique" (path "objectKey") ++
      issueWhen (!hasSuffix artifact.id ("-" ++ artifact.kind))
        ("artifact id must end with -" ++ artifact.kind) (path "id") ++
      issueWhen (!hasPrefix artifact.objectKey (scopePrefix contestId artifact.scope))
        ("object key must be under the " ++ artifact.scope ++ " dataset prefix")
        (path "objectKey") ++
      issueWhen (state.pairs.contains (artifact.pair, artifact.kind))
        "dataset rows and kind must be unique within a scope" (path "kind") }

/-- `superRefine` -/
def refineManifest (manifest : DatasetManifest) : List Issue :=
  let state := manifest.artifacts.zipIdx.foldl (refineArtifact manifest.contestId) ⟨[], [], [], []⟩
  let pairKeys := (state.pairs.map (·.1)).reverse.eraseDups
  state.issues ++
    (pairKeys.flatMap fun pairKey =>
      issueWhen (!datasetKinds.all fun kind => state.pairs.contains (pairKey, kind))
        (pairKey ++ " must contain both input and expected artifacts") [.key "artifacts"]) ++
    issueWhen (!pairKeys.any (hasPrefix · "public:")) "at least one public dataset is required"
      [.key "artifacts"] ++
    issueWhen (!pairKeys.any (hasPrefix · "private:")) "at least one private dataset is required"
      [.key "artifacts"]

/-- The checks of `datasetManifestSchema` on values of its types. -/
def manifestChecks (manifest : DatasetManifest) : Bool :=
  manifest.schemaVersion = 1 && idPattern 127 manifest.contestId &&
    isoDatetime manifest.generatedAt && 1 ≤ Utf16.length manifest.generatorRevision &&
    Utf16.length manifest.generatorRevision ≤ 128 &&
    manifest.artifacts.all artifactChecks && 4 ≤ manifest.artifacts.length &&
    (refineManifest manifest).isEmpty

def datasetManifestSchema (content : RawMessage) : Bool :=
  (readManifest content).any manifestChecks

section Artifacts
variable {contestId : String} {a : DatasetArtifact}

theorem length_eq_of_printable {text : String} (h : text.toList.all isPrintable = true) :
    Utf16.length text = text.toList.length ∧ text.utf8ByteSize = text.toList.length := by
  have hsize : text.utf8ByteSize = (text.toList.map Char.utf8Size).sum := by
    rw [← Utf8.utf8ByteSize_ofList, String.ofList_toList]
  rw [hsize, Utf16.length]
  generalize text.toList = cs at h
  induction cs with
  | nil => exact ⟨rfl, rfl⟩
  | cons c cs ih =>
    rw [List.all_cons, Bool.and_eq_true] at h
    obtain ⟨hunits, hbytes⟩ := ih h.2
    have hc : c.toNat ≤ 126 := by
      have hc := h.1
      rw [isPrintable, Bool.and_eq_true, decide_eq_true_eq, decide_eq_true_eq] at hc
      exact hc.2
    have hunit : Utf16.encodeChar c = [UInt16.ofNat c.toNat] := if_pos (by omega)
    have hbyte : c.utf8Size = 1 := Char.utf8Size_eq_one_iff.mpr (show c.toNat ≤ 127 by omega)
    constructor
    · rw [Utf16.encode, List.flatMap_cons, hunit, List.singleton_append, List.length_cons,
        List.length_cons]
      exact congrArg (· + 1) hunits
    · rw [List.map_cons, List.sum_cons, hbyte, hbytes, List.length_cons, Nat.add_comm]

theorem one_le_length {text : String} : 1 ≤ Utf16.length text ↔ text ≠ "" := by
  rw [Utf16.length, Nat.one_le_iff_ne_zero, Ne, List.length_eq_zero_iff, not_iff_not]
  constructor
  · intro h
    have hempty : Utf16.decode (Utf16.encode text.toList) = [] := by rw [h]; rfl
    rw [Utf16.decode_encode] at hempty
    exact String.toList_eq_nil_iff.mp hempty
  · rintro rfl
    rfl

theorem ne_nil_of_hasPrefix {text : String} (h : hasPrefix text "datasets/" = true) :
    text.toList.isEmpty = false := by
  have hstart := hasPrefix_iff.mp h
  cases htext : text.toList with
  | nil =>
    rw [htext] at hstart
    exact absurd (List.prefix_nil.mp hstart) (by decide)
  | cons c cs => rfl

/-- The schema and the rules of `superRefine` on one artifact are the checks of the server. -/
theorem artifactChecks_iff (contestId : String) (a : DatasetArtifact) :
    (artifactChecks a = true ∧ hasSuffix a.id ("-" ++ a.kind) = true ∧
      hasPrefix a.objectKey (scopePrefix contestId a.scope) = true) ↔ a.Valid contestId := by
  simp only [artifactChecks, Bool.and_eq_true, decide_eq_true_eq, one_le_length]
  constructor
  · rintro ⟨⟨⟨⟨⟨⟨⟨⟨⟨⟨⟨⟨⟨hid, hkind⟩, hlabel⟩, hlabelLength⟩, -⟩, hkeyLength⟩, -⟩, hprintable⟩,
      hrows⟩, hcompressed⟩, huncompressed⟩, hsha⟩, hsha'⟩, hsuffix, hstart⟩
    obtain ⟨hunits, hbytes⟩ := length_eq_of_printable hprintable
    exact ⟨hid, hsuffix, hkind, hlabel, hlabelLength, by omega, hprintable, hstart, hrows,
      hcompressed, huncompressed, hsha, hsha'⟩
  · intro h
    obtain ⟨hunits, hbytes⟩ := length_eq_of_printable h.keyPrintable
    have hdatasets := hasPrefix_datasets h.keyPrefix
    have hlength := h.keyLength
    refine ⟨⟨⟨⟨⟨⟨⟨⟨⟨⟨⟨⟨⟨h.id, h.kind⟩, h.label⟩, h.labelLength⟩, hdatasets⟩, by omega⟩, ?_⟩,
      h.keyPrintable⟩, h.rows⟩, h.compressedBytes⟩, h.uncompressedBytes⟩, h.compressedSha256⟩,
      h.uncompressedSha256⟩, h.suffix, h.keyPrefix⟩
    rw [ne_nil_of_hasPrefix hdatasets]
    rfl

end Artifacts

section Refinement
variable {contestId : String} {a : DatasetArtifact}

theorem issueWhen_eq_nil {condition : Bool} {message : String} {path : List PathSegment} :
    issueWhen condition message path = [] ↔ condition = false := by
  cases condition <;> simp [issueWhen]

/-- The state after some artifacts, the last one first. -/
def Refined.of (done : List DatasetArtifact) (issues : List Issue) : Refined :=
  ⟨done.map DatasetArtifact.id, done.map DatasetArtifact.objectKey,
    done.map fun a => (a.pair, a.kind), issues⟩

/-- An iteration adds no issue for an artifact that shares nothing with the ones before it and has
its suffix and its prefix. -/
theorem refineArtifact_of (contestId : String) {done : List DatasetArtifact} {issues : List Issue}
    (a : DatasetArtifact) (index : ℕ) (hdone : issues = [] → Distinct done) : ∃ issues',
      refineArtifact contestId (.of done issues) (a, index) = .of (a :: done) issues' ∧
        (issues' = [] ↔ issues = [] ∧ Distinct (a :: done) ∧
          hasSuffix a.id ("-" ++ a.kind) = true ∧
          hasPrefix a.objectKey (scopePrefix contestId a.scope) = true) := by
  refine ⟨_, rfl, ?_⟩
  rw [distinct_cons]
  dsimp only [Refined.of, Seen.of]
  simp only [List.append_eq_nil_iff, issueWhen_eq_nil, Bool.not_eq_false', List.contains_eq_mem]
  constructor
  · rintro ⟨⟨⟨⟨⟨hnil, hid⟩, hkey⟩, hsuffix⟩, hstart⟩, hpair⟩
    exact ⟨hnil, ⟨⟨of_decide_eq_false hid, of_decide_eq_false hkey, of_decide_eq_false hpair⟩,
      hdone hnil⟩, hsuffix, hstart⟩
  · rintro ⟨hnil, ⟨⟨hid, hkey, hpair⟩, -⟩, hsuffix, hstart⟩
    exact ⟨⟨⟨⟨⟨hnil, decide_eq_false hid⟩, decide_eq_false hkey⟩, hsuffix⟩, hstart⟩,
      decide_eq_false hpair⟩

theorem foldl_refineArtifact (contestId : String) (artifacts : List DatasetArtifact)
    {done : List DatasetArtifact} {issues : List Issue} (hdone : issues = [] → Distinct done)
    (index : ℕ) : ∃ issues',
      (artifacts.zipIdx index).foldl (refineArtifact contestId) (.of done issues) =
        .of (artifacts.reverse ++ done) issues' ∧
        (issues' = [] ↔ issues = [] ∧ Distinct (artifacts.reverse ++ done) ∧
          ∀ a ∈ artifacts, hasSuffix a.id ("-" ++ a.kind) = true ∧
            hasPrefix a.objectKey (scopePrefix contestId a.scope) = true) := by
  induction artifacts generalizing done issues index with
  | nil => exact ⟨issues, rfl, by simpa using hdone⟩
  | cons a artifacts ih =>
    obtain ⟨issues₁, hstep, hissues₁⟩ := refineArtifact_of contestId a index hdone
    obtain ⟨issues', hrest, hissues'⟩ := ih (fun h => (hissues₁.mp h).2.1) (index + 1)
    refine ⟨issues', ?_, ?_⟩
    · rw [List.zipIdx_cons, List.foldl_cons, hstep, hrest, List.reverse_cons, List.append_assoc,
        List.singleton_append]
    · rw [hissues', hissues₁, List.reverse_cons, List.append_assoc, List.singleton_append,
        List.forall_mem_cons]
      constructor
      · rintro ⟨⟨hnil, -, ha⟩, hdistinct, hall⟩
        exact ⟨hnil, hdistinct, ha, hall⟩
      · rintro ⟨hnil, hdistinct, ha, hall⟩
        exact ⟨⟨hnil, hdistinct.of_append, ha⟩, hdistinct, hall⟩

theorem hasPrefix_pair {a : DatasetArtifact} :
    (hasPrefix a.pair "public:" = true ↔ a.isPublic = true) ∧
      (hasPrefix a.pair "private:" = true ↔ a.isPublic = false) := by
  rw [hasPrefix_iff, hasPrefix_iff, DatasetArtifact.pair, DatasetArtifact.scope]
  cases a.isPublic <;> simp [String.toList_append]

/-- `superRefine` finds no issue in consistent artifacts with their suffixes and prefixes. -/
theorem refineManifest_eq_nil {manifest : DatasetManifest} :
    refineManifest manifest = [] ↔ Consistent manifest.artifacts ∧
      ∀ a ∈ manifest.artifacts, hasSuffix a.id ("-" ++ a.kind) = true ∧
        hasPrefix a.objectKey (scopePrefix manifest.contestId a.scope) = true := by
  have hempty : ([] : List Issue) = [] → Distinct [] := fun _ => Distinct.nil
  obtain ⟨issues, hfold, hissues⟩ :=
    foldl_refineArtifact manifest.contestId manifest.artifacts hempty 0
  rw [List.append_nil] at hfold hissues
  change manifest.artifacts.zipIdx.foldl (refineArtifact manifest.contestId) ⟨[], [], [], []⟩ = _
    at hfold
  have hkeys (pairKey : String) :
      pairKey ∈ ((Refined.of manifest.artifacts.reverse issues).pairs.map (·.1)).reverse.eraseDups ↔
        ∃ a ∈ manifest.artifacts, a.pair = pairKey := by
    simp [Refined.of, List.mem_eraseDups]
  have hcomplete (a : DatasetArtifact) : (datasetKinds.all fun kind =>
      (Refined.of manifest.artifacts.reverse issues).pairs.contains (a.pair, kind)) = true ↔
        ∀ kind ∈ datasetKinds, ∃ b ∈ manifest.artifacts, a.Paired b ∧ b.kind = kind := by
    rw [List.all_eq_true]
    refine forall₂_congr fun kind _ => ?_
    rw [List.contains_iff_mem]
    simp only [Refined.of, List.mem_map, List.mem_reverse, Prod.mk.injEq, pair_inj]
  have hscopes : ((∃ key, (∃ a ∈ manifest.artifacts, a.pair = key) ∧
      hasPrefix key "public:" = true) ↔ ∃ a ∈ manifest.artifacts, a.isPublic = true) ∧
    ((∃ key, (∃ a ∈ manifest.artifacts, a.pair = key) ∧ hasPrefix key "private:" = true) ↔
      ∃ a ∈ manifest.artifacts, a.isPublic = false) := by
    simp [hasPrefix_pair]
  simp only [refineManifest, hfold, List.append_eq_nil_iff, List.flatMap_eq_nil_iff,
    issueWhen_eq_nil, Bool.not_eq_false', List.any_eq_true, hkeys, forall_exists_index, and_imp,
    forall_apply_eq_imp_iff₂, hcomplete, hscopes.1, hscopes.2]
  change ((issues = [] ∧ _) ∧ _) ∧ _ ↔ _
  rw [hissues, distinct_reverse]
  constructor
  · rintro ⟨⟨⟨⟨-, ⟨hids, hkeys, hpairs⟩, hall⟩, hcomplete⟩, hpublic⟩, hprivate⟩
    exact ⟨⟨hids, hkeys, hpairs, hcomplete, hpublic, hprivate⟩, hall⟩
  · rintro ⟨h, hall⟩
    exact ⟨⟨⟨⟨rfl, ⟨h.ids, h.keys, h.pairs⟩, hall⟩, h.complete⟩, h.hasPublic⟩, h.hasPrivate⟩

end Refinement

section Agreement
variable {content : RawMessage}

/-- Both sides accept the value, or both refuse it. -/
def SameManifests (content : RawMessage) : Prop :=
  datasetManifestSchema content = true ↔ acceptsManifest content = true

instance (content : RawMessage) : Decidable (SameManifests content) :=
  inferInstanceAs (Decidable (_ ↔ _))

theorem manifestChecks_iff {manifest : DatasetManifest} : manifestChecks manifest = true ↔
    manifest.WellFormed ∧ isoDatetime manifest.generatedAt = true := by
  have hartifacts (a : DatasetArtifact) := artifactChecks_iff manifest.contestId a
  simp only [manifestChecks, Bool.and_eq_true, decide_eq_true_eq, List.isEmpty_iff,
    List.all_eq_true, one_le_length, refineManifest_eq_nil]
  constructor
  · rintro ⟨⟨⟨⟨⟨⟨⟨hversion, hcontest⟩, htime⟩, hrevision⟩, hrevisionLength⟩, hall⟩, hlength⟩,
      hconsistent, hrules⟩
    exact ⟨⟨hversion, hcontest, hrevision, hrevisionLength, hlength,
      fun a ha => (hartifacts a).mp ⟨hall a ha, hrules a ha⟩, hconsistent⟩, htime⟩
  · rintro ⟨h, htime⟩
    have hvalid (a : DatasetArtifact) (ha : a ∈ manifest.artifacts) :=
      (hartifacts a).mpr (h.artifacts a ha)
    exact ⟨⟨⟨⟨⟨⟨⟨h.schemaVersion, h.contestId⟩, htime⟩, h.generatorRevision⟩, h.revisionLength⟩,
      fun a ha => (hvalid a ha).1⟩, h.length⟩, h.consistent, fun a ha => (hvalid a ha).2⟩

/-- What the admin page accepts. -/
theorem datasetManifestSchema_iff : datasetManifestSchema content = true ↔
    ∃ manifest, readManifest content = some manifest ∧ manifest.WellFormed ∧
      isoDatetime manifest.generatedAt = true := by
  rw [datasetManifestSchema, Option.any_eq_true]
  exact exists_congr fun manifest => and_congr Iff.rfl manifestChecks_iff

end Agreement

section Spellings
variable {a : DatasetArtifact} {manifest : DatasetManifest} {members : List Member} {name : String}
  {version : String} {rows : DatasetArtifact → String} {scope : Bool → List Member}

/-- The members of an artifact but the last one, with a spelling of its rows. -/
def artifactMembers (a : DatasetArtifact) (rows : String) : List Member :=
  [(units "id", .string (units a.id)), (units "kind", .string (units a.kind)),
    (units "label", .string (units a.label)), (units "objectKey", .string (units a.objectKey)),
    (units "rows", .number rows),
    (units "compressedBytes", .number (toString a.compressedBytes.toInt)),
    (units "uncompressedBytes", .number (toString a.uncompressedBytes.toInt)),
    (units "compressedSha256", .string (units a.compressedSha256)),
    (units "uncompressedSha256", .string (units a.uncompressedSha256))]

/-- An artifact as a text, with the members that say whether it is public. -/
def artifactText (rows : DatasetArtifact → String) (scope : Bool → List Member)
    (a : DatasetArtifact) : RawMessage :=
  .object (artifactMembers a (rows a) ++ scope a.isPublic)

/-- A manifest as a text, with a spelling of its version. -/
def manifestText (manifest : DatasetManifest) (version : String) (rows : DatasetArtifact → String)
    (scope : Bool → List Member) : RawMessage :=
  .object [(units "schemaVersion", .number version),
    (units "contestId", .string (units manifest.contestId)),
    (units "generatedAt", .string (units manifest.generatedAt)),
    (units "generatorRevision", .string (units manifest.generatorRevision)),
    (units "artifacts", .array (manifest.artifacts.map (artifactText rows scope)))]

def isPublicMember (isPublic : Bool) : List Member := [(units "isPublic", .bool isPublic)]

/-- Only what is public says so. -/
def isPublicMember? (isPublic : Bool) : List Member :=
  if isPublic then isPublicMember true else []

/-- A count that JavaScript tells from its neighbours. -/
def SafeCount (n : Int64) : Prop := 0 ≤ n.toInt ∧ n.toInt ≤ maxSafeInteger

def SafeSizes (a : DatasetArtifact) : Prop :=
  SafeCount a.compressedBytes ∧ SafeCount a.uncompressedBytes

@[simp] theorem property?_nil : property? [] name = none := rfl

@[simp] theorem property?_cons (member : Member) : property? (member :: members) name =
    (property? members name).or (if member.1 = units name then some member.2 else none) := by
  unfold property?
  rw [List.reverse_cons, List.find?_append, Option.map_or, List.find?_singleton]
  by_cases h : member.1 = units name <;> simp [h]

theorem SafeCount.text {n : Int64} (h : SafeCount n) :
    ∃ k : ℕ, n.toInt = k ∧ k < 2 ^ 53 ∧ toString n.toInt = k.repr := by
  obtain ⟨hpos, hle⟩ := h
  obtain ⟨k, hk⟩ := Int.eq_ofNat_of_zero_le hpos
  rw [hk, maxSafeInteger] at hle
  exact ⟨k, hk, by omega, by rw [hk]; rfl⟩

/-- The page reads a count that a text spells out. -/
theorem readInt_count {n : Int64} (h : SafeCount n) : readInt (toString n.toInt) = some n := by
  obtain ⟨k, hk, hlt, htext⟩ := h.text
  have hround : BinaryFormat.binary64.round (k : ℤ) = some ((k : ℤ) : ℚ) :=
    BinaryFormat.round_intCast (by decide) (by decide) hlt
  have hnumber : readNumber (toString n.toInt) = some ((k : ℤ) : ℚ) := by
    rw [readNumber, htext, JsonNumber.parse_repr, Option.bind_eq_bind, Option.bind_some,
      JsonNumber.value_repr]
    exact hround
  have hsafe : |(k : ℤ)| ≤ maxSafeInteger := by
    rw [abs_of_nonneg (Int.natCast_nonneg k), ← hk]
    exact h.2
  rw [readInt, hnumber, Option.bind_eq_bind, Option.bind_some, Rat.den_intCast,
    Rat.num_intCast, if_pos ⟨rfl, hsafe⟩, ← hk, Int64.ofInt_toInt]

/-- So does the server. -/
theorem decodeInt64_count {n : Int64} (h : SafeCount n) (old : Int64) :
    decodeInt64 old (.number (toString n.toInt)) = some n := by
  obtain ⟨k, hk, -, htext⟩ := h.text
  rw [decodeInt64, htext, JsonNumber.parse_repr, Option.bind_eq_bind, Option.bind_some,
    JsonNumber.int?_repr, Option.bind_eq_bind, Option.bind_some, ← hk,
    if_pos ⟨n.le_toInt, n.toInt_lt⟩, Int64.ofInt_toInt]

theorem readArtifact_text (h : SafeSizes a) : readArtifact (artifactText rows isPublicMember a) =
    (readInt (rows a)).map fun n => { a with rows := n } := by
  have hnumbers : intProperty (artifactMembers a (rows a) ++ isPublicMember a.isPublic) "rows" =
        readInt (rows a) ∧
      intProperty (artifactMembers a (rows a) ++ isPublicMember a.isPublic) "compressedBytes" =
        some a.compressedBytes ∧
      intProperty (artifactMembers a (rows a) ++ isPublicMember a.isPublic) "uncompressedBytes" =
        some a.uncompressedBytes := by
    rw [← readInt_count h.1, ← readInt_count h.2]
    simp [intProperty, artifactMembers, isPublicMember, units_inj]
  simp only [readArtifact, artifactText, hnumbers.1, hnumbers.2.1, hnumbers.2.2]
  cases readInt (rows a) <;>
    simp [stringProperty, booleanProperty, artifactMembers, isPublicMember, units_inj]

/-- Names that differ by more than their case. -/
theorem namesField_of_nodup {fields : List String}
    (h : (fields.map fun field => field.toList.map foldRune).Nodup) :
    ∀ name ∈ fields, ∀ field ∈ fields, namesField name field = decide (name = field) := by
  intro name hname field hfield
  refine decide_eq_decide.mpr ⟨fun heq => ?_, fun heq => by rw [heq]⟩
  exact List.inj_on_of_nodup_map h hname hfield heq

def artifactFields : List String :=
  ["compressedBytes", "compressedSha256", "id", "isPublic", "kind", "label", "objectKey", "rows",
    "uncompressedBytes", "uncompressedSha256"]

def manifestFields : List String :=
  ["artifacts", "contestId", "generatedAt", "generatorRevision", "schemaVersion"]

theorem nodup_artifactFields :
    (artifactFields.map fun field => field.toList.map foldRune).Nodup := by
  decide +kernel

theorem nodup_manifestFields :
    (manifestFields.map fun field => field.toList.map foldRune).Nodup := by
  decide +kernel

theorem foldlM_artifactMembers (h : SafeSizes a) (old : DatasetArtifact) (rows : String) :
    (artifactMembers a rows).foldlM DatasetArtifact.decodeMember old =
      (decodeInt64 old.rows (.number rows)).map fun n =>
        { a with rows := n, isPublic := old.isPublic } := by
  have hnames := namesField_of_nodup nodup_artifactFields
  simp only [artifactFields, List.mem_cons, List.not_mem_nil, or_false, forall_eq_or_imp, forall_eq,
    String.reduceEq, decide_true, decide_false] at hnames
  simp only [artifactMembers, List.foldlM_cons, List.foldlM_nil, DatasetArtifact.decodeMember,
    goString_units, hnames, decodeString, Option.map_some, Option.bind_eq_bind, Option.bind_some,
    if_true, if_false, Bool.false_eq_true]
  cases decodeInt64 old.rows (.number rows) with
  | none => rfl
  | some n =>
    simp only [Option.map_some, Option.bind_some, decodeInt64_count h.1, decodeInt64_count h.2]
    rfl

theorem decodeMember_isPublic (a : DatasetArtifact) (b : Bool) :
    a.decodeMember (units "isPublic", .bool b) = some { a with isPublic := b } := by
  have hnames := namesField_of_nodup nodup_artifactFields "isPublic" (by decide)
  simp only [artifactFields, List.mem_cons, List.not_mem_nil, or_false, forall_eq_or_imp, forall_eq,
    String.reduceEq, decide_true, decide_false] at hnames
  simp only [DatasetArtifact.decodeMember, goString_units, hnames, decodeBool, Option.map_some,
    if_true, if_false, Bool.false_eq_true]

/-- The server takes an artifact that does not say whether it is public for one that is not. -/
theorem decode_text (h : SafeSizes a)
    (hscope : scope a.isPublic = isPublicMember a.isPublic ∨
      scope a.isPublic = [] ∧ a.isPublic = false) :
    DatasetArtifact.decode .zero (artifactText rows scope a) =
      (decodeInt64 0 (.number (rows a))).map fun n => { a with rows := n } := by
  have hzero : DatasetArtifact.zero.rows = 0 := rfl
  rw [artifactText, DatasetArtifact.decode, List.foldlM_append, foldlM_artifactMembers h, hzero]
  cases decodeInt64 0 (.number (rows a)) with
  | none => rfl
  | some n =>
    rw [Option.map_some, Option.bind_eq_bind, Option.bind_some]
    rcases hscope with hscope | ⟨hscope, hprivate⟩
    · rw [hscope, isPublicMember, List.foldlM_cons, decodeMember_isPublic]
      rfl
    · rw [hscope, hprivate]
      rfl

theorem readManifest_text : readManifest (manifestText manifest version rows scope) =
    (readNumber version).bind fun q =>
      ((manifest.artifacts.map (artifactText rows scope)).mapM readArtifact).bind fun artifacts =>
        some { manifest with schemaVersion := q, artifacts } := by
  simp [readManifest, manifestText, numberProperty, stringProperty, artifactsProperty, units_inj]

theorem decodeManifest_text : decodeManifest (manifestText manifest version rows scope) =
    (decodeFloat32 0 (.number version)).bind fun q =>
      (decodeSlice DatasetArtifact.decode .zero none
        (.array (manifest.artifacts.map (artifactText rows scope)))).map fun slice =>
          { manifest with
            schemaVersion := q, artifacts := slice.elim [] fun slice => slice.elements } := by
  have hnames := namesField_of_nodup nodup_manifestFields
  simp only [manifestFields, List.mem_cons, List.not_mem_nil, or_false, forall_eq_or_imp, forall_eq,
    String.reduceEq, decide_true, decide_false] at hnames
  simp only [decodeManifest, manifestText, List.foldlM_cons, List.foldlM_nil,
    DecodedManifest.decodeMember, DecodedManifest.zero, goString_units, hnames, decodeString,
    Option.map_some, Option.bind_eq_bind, Option.bind_some, if_true, if_false,
    Bool.false_eq_true]
  cases decodeFloat32 0 (.number version) with
  | none => rfl
  | some q =>
    simp only [Option.map_some, Option.bind_some]
    cases decodeSlice DatasetArtifact.decode .zero none
      (.array (manifest.artifacts.map (artifactText rows scope))) <;> rfl

/-- What the page reads when the spellings of the counts are read. -/
theorem readManifest_spelled {q : ℚ} (hversion : readNumber version = some q)
    (hrows : ∀ a ∈ manifest.artifacts, readInt (rows a) = some a.rows ∧ SafeSizes a) :
    readManifest (manifestText manifest version rows isPublicMember) =
      some { manifest with schemaVersion := q } := by
  have hartifacts : (manifest.artifacts.map (artifactText rows isPublicMember)).mapM readArtifact =
      some manifest.artifacts := by
    generalize manifest.artifacts = artifacts at hrows
    induction artifacts with
    | nil => rfl
    | cons a artifacts ih =>
      rw [List.forall_mem_cons] at hrows
      rw [List.map_cons, List.mapM_cons, readArtifact_text hrows.1.2, hrows.1.1, ih hrows.2]
      rfl
  rw [readManifest_text, hversion, hartifacts]
  rfl

/-- What the server reads when it reads them. -/
theorem decodeManifest_spelled {q : ℚ} (hversion : decodeFloat32 0 (.number version) = some q)
    (hrows : ∀ a ∈ manifest.artifacts,
      decodeInt64 0 (.number (rows a)) = some a.rows ∧ SafeSizes a)
    (hscope : ∀ a ∈ manifest.artifacts, scope a.isPublic = isPublicMember a.isPublic ∨
      scope a.isPublic = [] ∧ a.isPublic = false) :
    decodeManifest (manifestText manifest version rows scope) =
      some { manifest with schemaVersion := q } := by
  have helements : decodeElements DatasetArtifact.decode .zero []
      (manifest.artifacts.map (artifactText rows scope)) = some ⟨manifest.artifacts, []⟩ := by
    generalize manifest.artifacts = artifacts at hrows hscope
    induction artifacts with
    | nil => rfl
    | cons a artifacts ih =>
      rw [List.forall_mem_cons] at hrows hscope
      have hfirst : DatasetArtifact.decode .zero (artifactText rows scope a) = _ :=
        decode_text hrows.1.2 hscope.1
      rw [hrows.1.1] at hfirst
      simp only [List.map_cons, decodeElements, List.headD_nil, List.tail_nil, hfirst,
        ih hrows.2 hscope.2, Option.map_some, Option.bind_eq_bind, Option.bind_some]
      rfl
  have hslice : decodeSlice DatasetArtifact.decode .zero none
      (.array (manifest.artifacts.map (artifactText rows scope))) =
        some (some ⟨manifest.artifacts, []⟩) := by
    cases hartifacts : manifest.artifacts with
    | nil => rfl
    | cons a artifacts =>
      rw [hartifacts] at helements
      exact congrArg (Option.map some) helements
  rw [decodeManifest_text, hversion, hslice]
  rfl

end Spellings

section Samples

def utcManifest : DatasetManifest := sampleManifest "2026-01-01T00:00:00Z"

theorem valid_utcManifest : utcManifest.Valid :=
  validateManifest_ok_iff.mp validateManifest_sample

theorem counts_sampleManifest {generatedAt : String} {a : DatasetArtifact}
    (ha : a ∈ (sampleManifest generatedAt).artifacts) : a.rows = 100 ∧ SafeSizes a := by
  have hsafe : SafeCount 1 := ⟨by decide, by decide⟩
  simp only [sampleManifest, List.mem_cons, List.not_mem_nil, or_false] at ha
  rcases ha with rfl | rfl | rfl | rfl <;> exact ⟨rfl, hsafe, hsafe⟩

end Samples

end OneBrc.Shared
