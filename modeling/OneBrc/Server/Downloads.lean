import OneBrc.Lib.PercentEncoding
import OneBrc.Lib.StableSort
import OneBrc.Server.Releases

/-! `GetDatasets`, the route of its URLs and `DownloadDataset`. -/
namespace OneBrc.Server
open Lib

abbrev Bytes := List UInt8

/-- `api.PublicDataset` -/
structure PublicDataset where
  id : String
  kind : String
  label : String
  rows : String
  compressedBytes : String
  uncompressedBytes : String
  compressedSha256 : String
  uncompressedSha256 : String
  downloadUrl : Bytes

/-- `ReplaceAllString` of `-(input|expected)$` by the empty text. -/
def datasetBase (id : String) : List Char :=
  match datasetKinds.find? fun kind => hasSuffix id ("-" ++ kind) with
  | some kind => id.toList.take (id.toList.length - ("-" ++ kind).toList.length)
  | none => id.toList

/-- The bytes that `url.PathEscape` keeps: letters, digits, `-_.~` and `$&+:=@`. -/
def isPathByte (b : UInt8) : Bool :=
  97 ≤ b && b ≤ 122 || 65 ≤ b && b ≤ 90 || 48 ≤ b && b ≤ 57 ||
    b ∈ [45, 95, 46, 126, 36, 38, 43, 58, 61, 64]

/-- `"/api/v1/datasets/%s/%s/download"` -/
def downloadUrl (base : List Char) (kind : String) : Bytes :=
  Utf8.encode "/api/v1/datasets/".toList ++
    PercentEncoding.escape isPathByte (Utf8.encode base) ++ Utf8.encode "/".toList ++
    Utf8.encode kind.toList ++ Utf8.encode "/download".toList

def DatasetRelease.publicDataset (r : DatasetRelease) : PublicDataset :=
  { id := r.artifactId
    kind := r.kind
    label := r.label
    rows := toString r.rowsCount
    compressedBytes := toString r.compressedBytes
    uncompressedBytes := toString r.uncompressedBytes
    compressedSha256 := r.compressedSha256
    uncompressedSha256 := r.uncompressedSha256
    downloadUrl := downloadUrl (datasetBase r.artifactId) r.kind }

/-- The rows of `publicDatasets`; `tie` orders those that ORDER BY leaves level. -/
def publicDatasets (config : Config) (tie : DatasetRelease → ℕ) (t : Releases) :
    List DatasetRelease :=
  StableSort.orderBy
    (fun a b => a.rowsCount < b.rowsCount || a.rowsCount = b.rowsCount && a.kind < b.kind) tie
    (t.rows.filter fun r => unpadded r.contestId = unpadded config.contestID && r.isPublic)

/-- What is used of the router and of the generated binder, which give the parameters that
`/api/v1/datasets/:datasetId/:artifact/download` finds in a path: parameters of bytes that a path
keeps are bound as they are. -/
def RoutesPlain (route : Bytes → Option (Bytes × Bytes)) : Prop :=
  ∀ datasetId artifact : Bytes, datasetId ≠ [] → artifact ≠ [] →
    (∀ b ∈ datasetId ++ artifact, isPathByte b = true) →
    route (Utf8.encode "/api/v1/datasets/".toList ++ datasetId ++ Utf8.encode "/".toList ++
      artifact ++ Utf8.encode "/download".toList) = some (datasetId, artifact)

/-- A router: the path is unescaped for the routing, and each parameter when it is bound. -/
def routeDownload (path : Bytes) : Option (Bytes × Bytes) := do
  let decoded ← PercentEncoding.unescape path
  match decoded.splitOn 47 with
  | [start, api, version, datasets, datasetId, artifact, download] =>
      if start = [] ∧ api = Utf8.encode "api".toList ∧ version = Utf8.encode "v1".toList ∧
          datasets = Utf8.encode "datasets".toList ∧ download = Utf8.encode "download".toList then
        return (← PercentEncoding.unescape datasetId, ← PercentEncoding.unescape artifact)
      else none
  | _ => none

/-- `"%s-%s"` -/
def sanitizeDownloadID (id kind : Bytes) : Bytes := id ++ Utf8.encode "-".toList ++ kind

/-- The rows that the query of `publicDataset` selects, of which it takes one. -/
def selected (config : Config) (t : Releases) (id : Bytes) : List DatasetRelease :=
  t.rows.filter fun r => unpadded r.contestId = unpadded config.contestID &&
    (Utf8.encode r.artifactId.toList).rdropWhile (· = 32) = id.rdropWhile (· = 32) && r.isPublic

def publicDataset (config : Config) (t : Releases) (id : Bytes) : Option DatasetRelease :=
  (selected config t id).head?

/-- `path.Base` -/
def pathBase (path : String) : List Char :=
  if path.toList = [] then ['.']
  else match path.toList.rdropWhile (· = '/') with
    | [] => ['/']
    | cs => cs.rtakeWhile (· ≠ '/')

/-- What `signDownload` is asked to sign. -/
structure SignRequest where
  key : String
  filename : List Char
  deriving DecidableEq

def datasetNotFound : AppError := ⟨.notFound, "dataset_not_found", "公開データが見つかりません"⟩

/-- `DownloadDataset`, up to the call of `signDownload`. -/
def downloadDataset (config : Config) (t : Releases) (datasetID artifact : Bytes) :
    Except AppError SignRequest :=
  if artifact ∉ datasetKinds.map (Utf8.encode ·.toList) then .error datasetNotFound
  else match publicDataset config t (sanitizeDownloadID datasetID artifact) with
    | none => .error datasetNotFound
    | some row =>
        if hasPrefix row.objectKey (scopePrefix config.contestID "public") then
          .ok ⟨row.objectKey, pathBase row.objectKey⟩
        else .error datasetNotFound

section Law
variable (route : Bytes → Option (Bytes × Bytes)) (config : Config) (t : Releases)

/-- The request for its URL selects the row, and no other one, and signs its key. -/
def Downloadable (r : DatasetRelease) : Prop :=
  ∃ datasetId artifact, route r.publicDataset.downloadUrl = some (datasetId, artifact) ∧
    selected config t (sanitizeDownloadID datasetId artifact) = [r] ∧
    downloadDataset config t datasetId artifact = .ok ⟨r.objectKey, pathBase r.objectKey⟩

/-- A key that is signed is that of a public row of the contest, under its public prefix, and of no
private row. -/
def Isolated : Prop :=
  ∀ datasetID artifact request, downloadDataset config t datasetID artifact = .ok request →
    (∃ r ∈ t.rows, r.objectKey = request.key ∧ r.contestId = config.contestID ∧
      r.isPublic = true ∧ hasPrefix r.objectKey (scopePrefix config.contestID "public") = true) ∧
    ∀ r ∈ t.rows, r.isPublic = false → r.objectKey ≠ request.key

end Law

section Ids

theorem isIdTail_of_idPattern {tail : ℕ} {text : String} (h : idPattern tail text = true) :
    ∀ c ∈ text.toList, isIdTail c = true := by
  rw [idPattern] at h
  cases htext : text.toList with
  | nil =>
    intro c hc
    cases hc
  | cons c cs =>
    rw [htext] at h
    simp only [Bool.and_eq_true, decide_eq_true_eq, List.all_eq_true] at h
    obtain ⟨⟨hc, hcs⟩, -⟩ := h
    refine List.forall_mem_cons.mpr ⟨?_, hcs⟩
    rw [isIdTail, hc, Bool.true_or]

/-- A character of an id is one byte, which paths keep. -/
theorem byte_of_isIdTail {c : Char} (h : isIdTail c = true) :
    c.toNat < 0x80 ∧ isPathByte (UInt8.ofNat c.toNat) = true := by
  have hrange : ∀ n < 0x80, isIdTail (Char.ofNat n) = true → isPathByte (UInt8.ofNat n) = true := by
    decide
  have hlt : c.toNat < 0x80 := by
    simp only [isIdTail, isIdHead, Digits.isDigit, Bool.or_eq_true, Bool.and_eq_true,
      decide_eq_true_eq, Char.le_def, UInt32.le_iff_toNat_le] at h
    rcases h with (h | h) | rfl
    · exact lt_of_le_of_lt h.2 (by decide)
    · exact lt_of_le_of_lt h.2 (by decide)
    · decide
  exact ⟨hlt, hrange c.toNat hlt (by rwa [Char.ofNat_toNat])⟩

/-- The id of an artifact is its base, a hyphen and its kind. -/
theorem toList_eq_datasetBase {id kind : String} (hkind : kind ∈ datasetKinds)
    (hsuffix : hasSuffix id ("-" ++ kind) = true) :
    id.toList = datasetBase id ++ ("-" ++ kind).toList := by
  have hlast : ∀ k ∈ datasetKinds, ∀ k' ∈ datasetKinds,
      ("-" ++ k).toList.getLast? = ("-" ++ k').toList.getLast? → k = k' := by decide
  have hnonempty (k : String) : ("-" ++ k).toList ≠ [] := by
    rw [String.toList_append]
    exact List.append_ne_nil_of_left_ne_nil (by decide) _
  cases hfind : datasetKinds.find? fun k => hasSuffix id ("-" ++ k) with
  | none => exact absurd hsuffix (by simpa using List.find?_eq_none.mp hfind kind hkind)
  | some k =>
    have hk := List.find?_some hfind
    obtain ⟨base, hbase⟩ := hasSuffix_iff.mp hsuffix
    obtain ⟨base', hbase'⟩ := hasSuffix_iff.mp hk
    have hlasts : ("-" ++ k).toList.getLast? = ("-" ++ kind).toList.getLast? := by
      have hboth := congrArg List.getLast? (hbase'.trans hbase.symm)
      rwa [List.getLast?_append_of_ne_nil _ (hnonempty k),
        List.getLast?_append_of_ne_nil _ (hnonempty kind)] at hboth
    obtain rfl := hlast k (List.mem_of_find?_eq_some hfind) kind hkind hlasts
    rw [datasetBase, hfind]
    dsimp only
    conv_lhs => rw [← hbase]
    rw [← hbase]
    simp

theorem datasetBase_ne_nil {id kind : String} (hid : artifactIDPattern id = true)
    (hkind : kind ∈ datasetKinds) (hsuffix : hasSuffix id ("-" ++ kind) = true) :
    datasetBase id ≠ [] := by
  intro hnil
  have hsplit := toList_eq_datasetBase hkind hsuffix
  rw [hnil, List.nil_append, String.toList_append] at hsplit
  rw [artifactIDPattern, idPattern, hsplit] at hid
  contradiction

theorem isPathByte_plain {b : UInt8} (h : isPathByte b = true) : b ≠ 37 ∧ b ≠ 47 := by
  constructor
  · rintro rfl
    contradiction
  · rintro rfl
    contradiction

/-- The router binds plain parameters as they are. -/
theorem routesPlain_routeDownload : RoutesPlain routeDownload := by
  intro datasetId artifact _ _ hbytes
  have hplain (parameter : Bytes) (h : ∀ b ∈ parameter, isPathByte b = true) :
      (37 : UInt8) ∉ parameter ∧ (47 : UInt8) ∉ parameter :=
    ⟨fun hb => (isPathByte_plain (h 37 hb)).1 rfl, fun hb => (isPathByte_plain (h 47 hb)).2 rfl⟩
  have hid := hplain datasetId fun b hb => hbytes b (List.mem_append_left _ hb)
  have hartifact := hplain artifact fun b hb => hbytes b (List.mem_append_right _ hb)
  have hsegments : Utf8.encode "/api/v1/datasets/".toList ++ datasetId ++
      Utf8.encode "/".toList ++ artifact ++ Utf8.encode "/download".toList =
      List.intercalate [47] [[], Utf8.encode "api".toList, Utf8.encode "v1".toList,
        Utf8.encode "datasets".toList, datasetId, artifact, Utf8.encode "download".toList] := by
    have hstart : Utf8.encode "/api/v1/datasets/".toList = 47 :: (Utf8.encode "api".toList ++
        47 :: (Utf8.encode "v1".toList ++ 47 :: (Utf8.encode "datasets".toList ++ [47]))) := by
      decide
    have hend : Utf8.encode "/download".toList = 47 :: Utf8.encode "download".toList := by decide
    have hmiddle : Utf8.encode "/".toList = [47] := by decide
    rw [hstart, hend, hmiddle]
    simp [List.intercalate, List.intersperse]
  have hsplit : (List.intercalate [47] [[], Utf8.encode "api".toList, Utf8.encode "v1".toList,
      Utf8.encode "datasets".toList, datasetId, artifact,
      Utf8.encode "download".toList]).splitOn (47 : UInt8) = [[], Utf8.encode "api".toList,
        Utf8.encode "v1".toList, Utf8.encode "datasets".toList, datasetId, artifact,
        Utf8.encode "download".toList] := by
    apply List.splitOn_intercalate
    · simp only [List.forall_mem_cons, List.not_mem_nil, not_false_eq_true, true_and, hid.2,
        hartifact.2, IsEmpty.forall_iff, implies_true, and_true]
      decide
    · exact List.cons_ne_nil _ _
  rw [routeDownload, PercentEncoding.unescape_of_notMem, hsegments]
  · dsimp only [Option.bind_eq_bind, Option.bind_some]
    rw [hsplit]
    dsimp only
    rw [if_pos ⟨rfl, rfl, rfl, rfl, rfl⟩, PercentEncoding.unescape_of_notMem hid.1,
      PercentEncoding.unescape_of_notMem hartifact.1]
    rfl
  · simp only [List.mem_append, hid.1, hartifact.1, or_false]
    decide

/-- A route gives back the base and the kind of which an URL is made. -/
theorem route_downloadUrl {route : Bytes → Option (Bytes × Bytes)} (hroute : RoutesPlain route)
    {base : List Char} {kind : String} (hne : base ≠ [])
    (hbase : ∀ c ∈ base, isIdTail c = true) (hkind : kind ∈ datasetKinds) :
    route (downloadUrl base kind) = some (Utf8.encode base, Utf8.encode kind.toList) := by
  have hascii := Utf8.encode_eq_encodeAscii fun c hc => (byte_of_isIdTail (hbase c hc)).1
  have hbytes : ∀ b ∈ Utf8.encode base, isPathByte b = true := by
    rw [hascii]
    intro b hb
    obtain ⟨c, hc, rfl⟩ := List.mem_map.mp hb
    exact (byte_of_isIdTail (hbase c hc)).2
  have hkinds : ∀ k ∈ datasetKinds, Utf8.encode k.toList ≠ [] ∧
      ∀ b ∈ Utf8.encode k.toList, isPathByte b = true := by decide +kernel
  rw [downloadUrl, PercentEncoding.escape_of_keep hbytes]
  apply hroute
  · rw [hascii]
    exact List.map_eq_nil_iff.not.mpr hne
  · exact (hkinds kind hkind).1
  · intro b hb
    rcases List.mem_append.mp hb with hb | hb
    · exact hbytes b hb
    · exact (hkinds kind hkind).2 b hb

end Ids

section Rows
variable {route : Bytes → Option (Bytes × Bytes)} {config : Config} {t : Releases}
  {r : DatasetRelease}

theorem DatasetRelease.Released.artifactId (h : r.Released) :
    artifactIDPattern r.artifactId = true ∧ r.kind ∈ datasetKinds ∧
      hasSuffix r.artifactId ("-" ++ r.kind) = true := by
  obtain ⟨manifest, generatedAt, hmanifest, a, ha, rfl⟩ := h
  have hvalid := hmanifest.artifacts a ha
  exact ⟨hvalid.id, hvalid.kind, hvalid.suffix⟩

/-- The object key of a row lies under the prefix of its contest and scope. -/
theorem DatasetRelease.Released.keyPrefix (h : r.Released) :
    contestIDPattern r.contestId = true ∧
      hasPrefix r.objectKey
        (scopePrefix r.contestId (if r.isPublic then "public" else "private")) = true := by
  obtain ⟨manifest, generatedAt, hmanifest, a, ha, rfl⟩ := h
  exact ⟨hmanifest.contestId, (hmanifest.artifacts a ha).keyPrefix⟩

/-- The bytes of an id, which have no blanks to leave out. -/
theorem rdropWhile_encode {id : List Char} (h : ∀ c ∈ id, isIdTail c = true) :
    (Utf8.encode id).rdropWhile (· = 32) = Utf8.encodeAscii id := by
  rw [Utf8.encode_eq_encodeAscii fun c hc => (byte_of_isIdTail (h c hc)).1,
    List.rdropWhile_eq_self_iff]
  intro hne hlast
  obtain ⟨c, hc, heq⟩ := List.mem_map.mp (List.getLast_mem hne)
  have hpath := (byte_of_isIdTail (h c hc)).2
  rw [heq, of_decide_eq_true hlast] at hpath
  exact absurd hpath (by decide)

/-- The query for the id of a row selects that row. -/
theorem selected_artifactId (ht : Imported t) (hr : r ∈ t.rows) (hpublic : r.isPublic = true)
    (hcontest : unpadded r.contestId = unpadded config.contestID) :
    selected config t (Utf8.encode r.artifactId.toList) = [r] := by
  have hid := isIdTail_of_idPattern (ht.released r hr).artifactId.1
  have hnodup : (t.rows.map DatasetRelease.primaryKey).Nodup := t.nodup
  have hrows : t.rows.Nodup := hnodup.of_map
  have hsingle : ∀ r' ∈ t.rows, (unpadded r'.contestId = unpadded config.contestID &&
      (Utf8.encode r'.artifactId.toList).rdropWhile (· = 32) =
        (Utf8.encode r.artifactId.toList).rdropWhile (· = 32) && r'.isPublic) =
      (r' == r) := by
    intro r' hr'
    have hid' := isIdTail_of_idPattern (ht.released r' hr').artifactId.1
    rw [Bool.eq_iff_iff, beq_iff_eq, rdropWhile_encode hid, rdropWhile_encode hid']
    constructor
    · intro h
      simp only [Bool.and_eq_true, decide_eq_true_eq] at h
      obtain ⟨⟨hcontest', hbytes⟩, -⟩ := h
      have hids := congrArg Utf8.decode hbytes
      rw [Utf8.decode_encodeAscii fun c hc => (byte_of_isIdTail (hid' c hc)).1,
        Utf8.decode_encodeAscii fun c hc => (byte_of_isIdTail (hid c hc)).1] at hids
      refine t.toTable.eq_of_key_eq hr' hr ?_
      have hpadded : unpadded r'.artifactId = unpadded r.artifactId :=
        congrArg (List.rdropWhile (· = ' ')) hids
      rw [DatasetRelease.primaryKey, DatasetRelease.primaryKey, hcontest', hcontest, hpadded]
    · rintro rfl
      simp [hcontest, hpublic]
  rw [selected, List.filter_congr hsingle, List.filter_beq, List.count_eq_one_of_mem hrows hr]
  rfl

/-- The configured contest is the one of the row as soon as they agree but for blanks and a key of
the row lies under the prefix of the configured one. -/
theorem contestId_of_hasPrefix (h : r.Released)
    (hcontest : unpadded r.contestId = unpadded config.contestID)
    (hstart : hasPrefix r.objectKey (scopePrefix config.contestID "public") = true) :
    r.contestId = config.contestID := by
  obtain ⟨hpattern, hown⟩ := h.keyPrefix
  obtain ⟨hblank, hslash, -⟩ := blank_notMem_of_idPattern hpattern
  rw [unpadded_eq_toList hblank] at hcontest
  obtain ⟨blanks, hblanks⟩ : r.contestId.toList <+: config.contestID.toList :=
    hcontest ▸ List.rdropWhile_prefix _ _
  obtain ⟨rest, hrest⟩ := hasPrefix_iff.mp hstart
  obtain ⟨rest', hrest'⟩ := hasPrefix_iff.mp hown
  have hsame := hrest.trans hrest'.symm
  have hslashes : "/".toList = ['/'] := rfl
  simp only [scopePrefix, String.toList_append, List.append_assoc, List.append_cancel_left_eq,
    ← hblanks, hslashes, List.cons_append, List.nil_append] at hsame
  cases blanks with
  | nil => rw [← String.toList_inj, ← hblanks, List.append_nil]
  | cons c blanks =>
    rw [List.cons_append, List.cons.injEq] at hsame
    have hc : c = ' ' := by
      have hmem : c ∈ config.contestID.toList.rtakeWhile (· = ' ') := by
        have hparts : unpadded config.contestID ++ config.contestID.toList.rtakeWhile (· = ' ') =
            config.contestID.toList := List.rdropWhile_append_rtakeWhile
        rw [← hcontest, ← hblanks, List.append_cancel_left_eq, hblanks] at hparts
        rw [hparts]
        exact List.mem_cons_self
      have hp := List.mem_rtakeWhile_imp (p := (· = ' ')) hmem
      exact of_decide_eq_true hp
    rw [hc] at hsame
    exact absurd hsame.1 (by decide)

/-- A request is answered with the key of a row that it selects and that passes the check of the
prefix. -/
theorem downloadDataset_ok_iff {datasetID artifact : Bytes} {request : SignRequest} :
    downloadDataset config t datasetID artifact = .ok request ↔
      artifact ∈ datasetKinds.map (Utf8.encode ·.toList) ∧
        ∃ row, publicDataset config t (sanitizeDownloadID datasetID artifact) = some row ∧
          hasPrefix row.objectKey (scopePrefix config.contestID "public") = true ∧
          request = ⟨row.objectKey, pathBase row.objectKey⟩ := by
  rw [downloadDataset]
  constructor
  · intro h
    split at h
    · contradiction
    · next hkind =>
      split at h
      · contradiction
      · next row hrow =>
        split at h
        · next hstart =>
          exact ⟨not_not.mp hkind, row, hrow, hstart, (Except.ok.inj h).symm⟩
        · contradiction
  · rintro ⟨hkind, row, hrow, hstart, rfl⟩
    rw [if_neg (not_not.mpr hkind), hrow]
    dsimp only
    rw [if_pos hstart]

theorem mem_selected {id : Bytes} (h : r ∈ selected config t id) :
    r ∈ t.rows ∧ unpadded r.contestId = unpadded config.contestID ∧ r.isPublic = true := by
  obtain ⟨hr, h⟩ := List.mem_filter.mp h
  simp only [Bool.and_eq_true, decide_eq_true_eq] at h
  exact ⟨hr, h.1.1, h.2⟩

/-- Two rows of one key are one row. -/
theorem eq_of_objectKey {r' : DatasetRelease} (hr : r ∈ t.rows) (hr' : r' ∈ t.rows)
    (h : r.objectKey = r'.objectKey) : r = r' :=
  List.inj_on_of_nodup_map t.unique hr hr' (congrArg unpadded h)

/-- Nothing private is signed, nor anything of another contest. -/
theorem isolated (ht : Imported t) : Isolated config t := by
  intro datasetID artifact request h
  obtain ⟨-, row, hrow, hstart, rfl⟩ := downloadDataset_ok_iff.mp h
  obtain ⟨hmem, hcontest, hpublic⟩ := mem_selected (List.mem_of_mem_head? hrow)
  refine ⟨⟨row, hmem, rfl, contestId_of_hasPrefix (ht.released row hmem) hcontest hstart,
    hpublic, hstart⟩, ?_⟩
  intro r hr hprivate hkey
  obtain rfl := eq_of_objectKey hr hmem hkey
  rw [hprivate] at hpublic
  contradiction

/-- A public row of the configured contest can be downloaded. -/
theorem downloadable (hroute : RoutesPlain route) (ht : Imported t) (hr : r ∈ t.rows)
    (hpublic : r.isPublic = true) (hcontest : r.contestId = config.contestID) :
    Downloadable route config t r := by
  obtain ⟨hid, hkind, hsuffix⟩ := (ht.released r hr).artifactId
  have hsplit := toList_eq_datasetBase hkind hsuffix
  have hbase : ∀ c ∈ datasetBase r.artifactId, isIdTail c = true := fun c hc =>
    isIdTail_of_idPattern hid c (hsplit ▸ List.mem_append_left _ hc)
  have hne := datasetBase_ne_nil hid hkind hsuffix
  have hsanitize : sanitizeDownloadID (Utf8.encode (datasetBase r.artifactId))
      (Utf8.encode r.kind.toList) = Utf8.encode r.artifactId.toList := by
    rw [hsplit]
    simp [sanitizeDownloadID, Utf8.encode, String.toList_append]
  have hselected := selected_artifactId ht hr hpublic (congrArg unpadded hcontest)
  refine ⟨_, _, route_downloadUrl hroute hne hbase hkind, hsanitize ▸ hselected, ?_⟩
  rw [downloadDataset_ok_iff]
  refine ⟨List.mem_map_of_mem hkind, r, ?_, ?_, rfl⟩
  · rw [publicDataset, hsanitize, hselected]
    rfl
  · have hown := (ht.released r hr).keyPrefix.2
    rwa [if_pos hpublic, hcontest] at hown

/-- What can be downloaded is of the configured contest. -/
theorem contestId_of_downloadable (ht : Imported t) (hr : r ∈ t.rows)
    (h : Downloadable route config t r) : r.contestId = config.contestID := by
  obtain ⟨datasetId, artifact, -, -, hok⟩ := h
  obtain ⟨⟨r', hr', hkey, hcontest, -⟩, -⟩ := isolated ht datasetId artifact _ hok
  rwa [eq_of_objectKey hr hr' hkey.symm]

theorem mem_publicDatasets {tie : DatasetRelease → ℕ} :
    r ∈ publicDatasets config tie t ↔
      r ∈ t.rows ∧ unpadded r.contestId = unpadded config.contestID ∧ r.isPublic = true := by
  rw [publicDatasets, StableSort.mem_orderBy, List.mem_filter, Bool.and_eq_true,
    decide_eq_true_eq]

/-- Nothing but public artifacts can be downloaded, and every one that is listed can, exactly when
no row is listed whose contest is the configured one only but for blanks at the end. -/
theorem downloads_iff (hroute : RoutesPlain route) (ht : Imported t)
    (tie : DatasetRelease → ℕ) :
    ((∀ r ∈ publicDatasets config tie t, Downloadable route config t r) ∧ Isolated config t) ↔
      ∀ r ∈ t.rows, r.isPublic = true → unpadded r.contestId = unpadded config.contestID →
        r.contestId = config.contestID := by
  constructor
  · rintro ⟨hdownloads, -⟩ r hr hpublic hcontest
    exact contestId_of_downloadable ht hr
      (hdownloads r (mem_publicDatasets.mpr ⟨hr, hcontest, hpublic⟩))
  · intro hcontests
    refine ⟨?_, isolated ht⟩
    intro r hr
    obtain ⟨hmem, hcontest, hpublic⟩ := mem_publicDatasets.mp hr
    exact downloadable hroute ht hmem hpublic (hcontests r hmem hpublic hcontest)

/-- The table after one import. -/
def sampleReleases : Releases :=
  (importManifest (fun _ => false) true (sampleManifest "2026-01-01T00:00:00Z") .empty).2

theorem imported_sampleReleases : Imported sampleReleases := by
  rw [sampleReleases]
  exact .run _ _ _ _ validateManifest_sample .empty

/-- Its rows are of one contest, and some are public. -/
theorem rows_sampleReleases : (∀ r ∈ sampleReleases.rows, r.contestId = "contest") ∧
    ∃ r ∈ sampleReleases.rows, r.isPublic = true := by
  decide +kernel

def contestConfig (contestID : String) : Config :=
  { contestID, contestStartAt := 0, contestEndAt := 0, admins := [], benchmarkEnvironmentID := "" }

theorem downloads_sample :
    (∀ r ∈ publicDatasets (contestConfig "contest") (fun _ => 0) sampleReleases,
      Downloadable routeDownload (contestConfig "contest") sampleReleases r) ∧
      Isolated (contestConfig "contest") sampleReleases :=
  (downloads_iff routesPlain_routeDownload imported_sampleReleases _).mpr fun r hr _ _ =>
    rows_sampleReleases.1 r hr

/-- With a blank at the end of the configured contest, a dataset is listed that no router finds. -/
theorem paddedContest_notFound : Imported sampleReleases ∧
    ∃ r ∈ publicDatasets (contestConfig "contest ") (fun _ => 0) sampleReleases,
      ∀ route, ¬ Downloadable route (contestConfig "contest ") sampleReleases r := by
  obtain ⟨r, hr, hpublic⟩ := rows_sampleReleases.2
  have hcontest := rows_sampleReleases.1 r hr
  have hpadded : unpadded r.contestId = unpadded (contestConfig "contest ").contestID := by
    rw [hcontest]
    decide
  refine ⟨imported_sampleReleases, r, mem_publicDatasets.mpr ⟨hr, hpadded, hpublic⟩, ?_⟩
  intro route h
  have hsame := contestId_of_downloadable imported_sampleReleases hr h
  rw [hcontest] at hsame
  exact absurd hsame (by decide)

end Rows

end OneBrc.Server
