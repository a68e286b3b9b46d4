import Mathlib.Data.List.DropRight
import OneBrc.Lib.Table
import OneBrc.Lib.Utf8
import OneBrc.Server.Manifest

/-! The table `dataset_releases` with its keys and column types, and `importManifest`. -/
namespace OneBrc.Server
open Lib

/-- A text as comparisons see it, without its trailing blanks. -/
def unpadded (text : String) : List Char := text.toList.rdropWhile (· = ' ')

structure DatasetRelease where
  contestId : String
  artifactId : String
  kind : String
  label : String
  objectKey : String
  rowsCount : ℤ
  compressedBytes : ℤ
  uncompressedBytes : ℤ
  compressedSha256 : String
  uncompressedSha256 : String
  isPublic : Bool
  generatorRevision : String
  generatedAt : ℤ
  deriving DecidableEq

def DatasetRelease.primaryKey (r : DatasetRelease) : List Char × List Char :=
  (unpadded r.contestId, unpadded r.artifactId)

/-- The column of `uq_dataset_object_key`. -/
def DatasetRelease.uniqueKey (r : DatasetRelease) : List Char := unpadded r.objectKey

def isBigintUnsigned (n : ℤ) : Bool := 0 ≤ n && n < 2 ^ 64

/-- Microseconds of a time that `datetime(6)` holds, from the year 1000 up to 9999. -/
def isDatetime (micros : ℤ) : Bool :=
  CivilTime.dayFromYear 1000 * 86400000000 ≤ micros &&
    micros < CivilTime.dayFromYear 10000 * 86400000000

/-- Every value is one of its column's type. -/
def DatasetRelease.fits (r : DatasetRelease) : Bool :=
  r.contestId.length ≤ 128 && r.artifactId.length ≤ 64 && r.kind.length ≤ 16 &&
    r.label.length ≤ 128 && r.objectKey.length ≤ 1024 &&
    r.objectKey.toList.all (·.toNat < 128) && isBigintUnsigned r.rowsCount &&
    isBigintUnsigned r.compressedBytes && isBigintUnsigned r.uncompressedBytes &&
    r.compressedSha256.length ≤ 64 && r.uncompressedSha256.length ≤ 64 &&
    r.generatorRevision.length ≤ 128 && isDatetime r.generatedAt

/-- The rows, under the primary and the unique key. -/
structure Releases extends
    Table (List Char × List Char) DatasetRelease DatasetRelease.primaryKey where
  unique : (rows.map DatasetRelease.uniqueKey).Nodup

inductive StatementError where
  | invalidValue | duplicatePrimaryKey | duplicateObjectKey | connection
  deriving DecidableEq

namespace Releases

def empty : Releases := ⟨Table.empty, List.nodup_nil⟩

/-- INSERT -/
def insert (t : Releases) (r : DatasetRelease) : Except StatementError Releases :=
  if !r.fits then .error .invalidValue
  else if hprimary : t.get? r.primaryKey = none then
    if hunique : r.uniqueKey ∉ t.rows.map DatasetRelease.uniqueKey then
      .ok ⟨t.toTable.insert r hprimary, by
        show ((t.rows ++ [r]).map DatasetRelease.uniqueKey).Nodup
        rw [List.map_append, List.map_singleton]
        exact t.unique.append (List.nodup_singleton _) (List.disjoint_singleton.mpr hunique)⟩
    else .error .duplicateObjectKey
  else .error .duplicatePrimaryKey

/-- `DELETE FROM dataset_releases WHERE contest_id=?` -/
def deleteContest (t : Releases) (contestId : String) : Releases :=
  ⟨t.toTable.delete (unpadded ·.contestId = unpadded contestId),
    t.unique.sublist (List.filter_sublist.map _)⟩

end Releases

/-- The row of an artifact. -/
def DatasetManifest.release (manifest : DatasetManifest) (generatedAt : ℤ) (a : DatasetArtifact) :
    DatasetRelease :=
  { contestId := manifest.contestId
    artifactId := a.id
    kind := a.kind
    label := a.label
    objectKey := a.objectKey
    rowsCount := a.rows.toInt
    compressedBytes := a.compressedBytes.toInt
    uncompressedBytes := a.uncompressedBytes.toInt
    compressedSha256 := a.compressedSha256
    uncompressedSha256 := a.uncompressedSha256
    isPublic := a.isPublic
    generatorRevision := manifest.generatorRevision
    generatedAt }

/-- Statements one after the other, up to one that fails; `faults i` is a fault of the connection
during the statement `i`. -/
def execute (faults : ℕ → Bool) :
    ℕ → List (Releases → Except StatementError Releases) → Releases → Except StatementError Releases
  | i, [], t => if faults i then .error .connection else .ok t
  | i, statement :: rest, t =>
      if faults i then .error .connection
      else match statement t with
        | .error e => .error e
        | .ok t' => execute faults (i + 1) rest t'

/-- `withTx`: BEGIN, the statements and COMMIT, or a rollback. A COMMIT may be executed without an
acknowledgement. -/
def withTx (faults : ℕ → Bool) (acknowledged : Bool)
    (statements : List (Releases → Except StatementError Releases)) (t : Releases) :
    Except AppError Unit × Releases :=
  match execute faults 0 (.ok :: statements) t with
  | .error _ => (.error databaseError, t)
  | .ok t' => (if acknowledged then .ok () else .error databaseError, t')

/-- The result and the table that `importManifest` leaves. -/
def importManifest (faults : ℕ → Bool) (acknowledged : Bool) (manifest : DatasetManifest)
    (t : Releases) : Except AppError Unit × Releases :=
  match Rfc3339.parse manifest.generatedAt with
  | none => (.error invalidRequest, t)
  | some generatedAt =>
      withTx faults acknowledged
        ((fun t => .ok (t.deleteContest manifest.contestId)) ::
          manifest.artifacts.map fun a t => t.insert (manifest.release generatedAt a)) t

/-- The contents that validated imports can leave, whichever contests they are for and whether or
not they succeed. -/
inductive Imported : Releases → Prop
  | empty : Imported .empty
  | run (faults : ℕ → Bool) (acknowledged : Bool) (manifest : DatasetManifest) (t : Releases)
      (hvalid : validateManifest manifest = .ok ()) (ht : Imported t) :
      Imported (importManifest faults acknowledged manifest t).2

section Padding

theorem rdropWhile_append_of_last {p : Char → Bool} {cs rest : List Char}
    (h : ∀ hne : cs ≠ [], ¬ p (cs.getLast hne)) :
    cs <+: (cs ++ rest).rdropWhile p := by
  induction rest using List.reverseRecOn with
  | nil =>
    have hself : (cs ++ []).rdropWhile p = cs := by
      rw [List.append_nil]
      exact List.rdropWhile_eq_self_iff.mpr h
    simp only [hself, List.prefix_rfl]
  | append_singleton rest c ih =>
    rw [← List.append_assoc, List.rdropWhile_concat]
    split
    · exact ih
    · rw [List.append_assoc]
      exact List.prefix_append _ _

/-- Blanks at the end do not reach into a prefix that ends otherwise. -/
theorem prefix_unpadded {start text : String} (hlast : start.toList.getLast? = some '/')
    (h : hasPrefix text start = true) : start.toList <+: unpadded text := by
  obtain ⟨rest, hrest⟩ := hasPrefix_iff.mp h
  rw [unpadded, ← hrest]
  apply rdropWhile_append_of_last
  intro hne
  rw [List.getLast?_eq_some_getLast hne] at hlast
  rw [Option.some.inj hlast]
  decide

theorem unpadded_eq_toList {text : String} (h : ' ' ∉ text.toList) :
    unpadded text = text.toList := by
  rw [unpadded, List.rdropWhile_eq_self_iff]
  intro hne hlast
  exact h (of_decide_eq_true hlast ▸ List.getLast_mem hne)

theorem blank_notMem_of_idPattern {tail : ℕ} {text : String} (h : idPattern tail text = true) :
    ' ' ∉ text.toList ∧ '/' ∉ text.toList ∧ text.toList.length ≤ tail + 1 := by
  rw [idPattern] at h
  cases htext : text.toList with
  | nil => simp
  | cons c cs =>
    rw [htext] at h
    simp only [Bool.and_eq_true, decide_eq_true_eq, List.all_eq_true] at h
    obtain ⟨⟨hc, hcs⟩, hlength⟩ := h
    have hnot (d : Char) (hd : isIdTail d = false) : d ∉ c :: cs := by
      intro hmem
      rcases List.mem_cons.mp hmem with rfl | hmem
      · rw [isIdTail, hc] at hd
        cases hd
      · rw [hcs d hmem] at hd
        cases hd
    exact ⟨hnot ' ' (by decide), hnot '/' (by decide), by simpa using hlength⟩

/-- Object keys of two contests differ, blanks at the end or not. -/
theorem contestId_of_uniqueKey {c₁ c₂ s₁ s₂ k₁ k₂ : String} (hc₁ : contestIDPattern c₁ = true)
    (hc₂ : contestIDPattern c₂ = true) (h₁ : hasPrefix k₁ (scopePrefix c₁ s₁) = true)
    (h₂ : hasPrefix k₂ (scopePrefix c₂ s₂) = true) (h : unpadded k₁ = unpadded k₂) :
    c₁ = c₂ := by
  have hlast (c s : String) : (scopePrefix c s).toList.getLast? = some '/' := by
    rw [scopePrefix, String.toList_append]
    exact List.getLast?_concat
  have hp₁ := prefix_unpadded (hlast c₁ s₁) h₁
  have hp₂ := prefix_unpadded (hlast c₂ s₂) h₂
  obtain ⟨-, hslash₁, -⟩ := blank_notMem_of_idPattern hc₁
  obtain ⟨-, hslash₂, -⟩ := blank_notMem_of_idPattern hc₂
  obtain ⟨r₁, hr₁⟩ := hp₁
  obtain ⟨r₂, hr₂⟩ := hp₂
  rw [← h, ← hr₁] at hr₂
  simp only [scopePrefix, String.toList_append, List.append_assoc, List.append_cancel_left_eq]
    at hr₂
  have hslash : "/".toList = ['/'] := rfl
  simp only [hslash, List.singleton_append] at hr₂
  rw [← String.toList_inj]
  have htake (cs rest : List Char) (hcs : '/' ∉ cs) :
      (cs ++ '/' :: rest).takeWhile (· ≠ '/') = cs := by
    have hne (c : Char) (hc : c ∈ cs) : c ≠ '/' := fun heq => hcs (heq ▸ hc)
    rw [List.takeWhile_append_of_pos fun c hc => decide_eq_true (hne c hc)]
    simp
  rw [← htake c₂.toList _ hslash₂, hr₂, htake c₁.toList _ hslash₁]

end Padding

section Statements
variable {t t' : Releases} {r : DatasetRelease} {rs : List DatasetRelease}

theorem Releases.ext_rows (h : t.rows = t'.rows) : t = t' := by
  obtain ⟨table, hunique⟩ := t
  obtain ⟨table', hunique'⟩ := t'
  obtain rfl : table = table' := Table.ext_rows h
  rfl

/-- What an INSERT needs, and what it does. -/
theorem insert_ok_iff : t.insert r = .ok t' ↔
    r.fits = true ∧ r.primaryKey ∉ t.rows.map DatasetRelease.primaryKey ∧
      r.uniqueKey ∉ t.rows.map DatasetRelease.uniqueKey ∧ t'.rows = t.rows ++ [r] := by
  have hprimary : t.get? r.primaryKey = none ↔
      r.primaryKey ∉ t.rows.map DatasetRelease.primaryKey := by
    rw [Table.get?, List.find?_eq_none]
    simp
  rw [Releases.insert]
  constructor
  · intro h
    split at h
    · contradiction
    · next hfits =>
      split at h
      · next hnone =>
        split at h
        · next hfresh =>
          obtain rfl := Except.ok.inj h
          exact ⟨by simpa using hfits, hprimary.mp hnone, hfresh, rfl⟩
        · contradiction
      · contradiction
  · rintro ⟨hfits, hnone, hfresh, hrows⟩
    rw [if_neg (by simp [hfits]), dif_pos (hprimary.mpr hnone), dif_pos hfresh]
    exact congrArg Except.ok (Releases.ext_rows hrows.symm)

/-- Insertions one after the other succeed when the keys differ, from each other and from the ones
in the table. -/
theorem foldlM_insert_ok_iff : rs.foldlM Releases.insert t = .ok t' ↔
    (∀ r ∈ rs, r.fits = true) ∧ ((t.rows ++ rs).map DatasetRelease.primaryKey).Nodup ∧
      ((t.rows ++ rs).map DatasetRelease.uniqueKey).Nodup ∧ t'.rows = t.rows ++ rs := by
  induction rs generalizing t with
  | nil =>
    rw [List.foldlM_nil, List.append_nil]
    constructor
    · intro h
      obtain rfl := Except.ok.inj h
      exact ⟨nofun, t.nodup, t.unique, rfl⟩
    · rintro ⟨-, -, -, hrows⟩
      exact congrArg Except.ok (Releases.ext_rows hrows.symm)
  | cons r rs ih =>
    rw [List.foldlM_cons]
    have happend : t.rows ++ r :: rs = (t.rows ++ [r]) ++ rs := by simp
    constructor
    · intro h
      obtain ⟨t₁, hinsert, hrest⟩ := Fallible.bind_eq_ok.mp h
      obtain ⟨hfits, -, -, hrows₁⟩ := insert_ok_iff.mp hinsert
      obtain ⟨hall, hprimary, hunique, hrows⟩ := ih.mp hrest
      rw [hrows₁] at hprimary hunique hrows
      rw [happend]
      exact ⟨List.forall_mem_cons.mpr ⟨hfits, hall⟩, hprimary, hunique, hrows⟩
    · rintro ⟨hall, hprimary, hunique, hrows⟩
      obtain ⟨hfits, hall⟩ := List.forall_mem_cons.mp hall
      have hfresh {κ : Type} {key : DatasetRelease → κ}
          (h : ((t.rows ++ r :: rs).map key).Nodup) : key r ∉ t.rows.map key := by
        rw [List.map_append, List.map_cons] at h
        exact fun hmem => (List.disjoint_of_nodup_append h) hmem List.mem_cons_self
      have hunique₁ : ((t.rows ++ [r]).map DatasetRelease.uniqueKey).Nodup := by
        rw [happend, List.map_append] at hunique
        exact hunique.of_append_left
      have hprimary₁ : ((t.rows ++ [r]).map DatasetRelease.primaryKey).Nodup := by
        rw [happend, List.map_append] at hprimary
        exact hprimary.of_append_left
      have hinsert : t.insert r = .ok ⟨⟨t.rows ++ [r], hprimary₁⟩, hunique₁⟩ :=
        insert_ok_iff.mpr ⟨hfits, hfresh hprimary, hfresh hunique, rfl⟩
      rw [hinsert]
      refine ih.mpr ⟨hall, ?_, ?_, ?_⟩
      · rwa [happend] at hprimary
      · rwa [happend] at hunique
      · rwa [happend] at hrows

/-- A transaction that commits has executed its statements. -/
theorem foldlM_of_execute {faults : ℕ → Bool}
    {statements : List (Releases → Except StatementError Releases)} {i : ℕ}
    (h : execute faults i statements t = .ok t') :
    statements.foldlM (fun t statement => statement t) t = .ok t' := by
  induction statements generalizing i t with
  | nil =>
    rw [execute] at h
    split at h
    · contradiction
    · exact h
  | cons statement statements ih =>
    rw [execute] at h
    split at h
    · contradiction
    · split at h
      · contradiction
      · next t₁ hstatement =>
        rw [List.foldlM_cons, hstatement]
        exact ih h

theorem execute_of_foldlM {statements : List (Releases → Except StatementError Releases)}
    (i : ℕ) (h : statements.foldlM (fun t statement => statement t) t = .ok t') :
    execute (fun _ => false) i statements t = .ok t' := by
  induction statements generalizing i t with
  | nil => exact h
  | cons statement statements ih =>
    rw [List.foldlM_cons] at h
    obtain ⟨t₁, hstatement, hrest⟩ := Fallible.bind_eq_ok.mp h
    rw [execute, if_neg Bool.false_ne_true, hstatement]
    exact ih (i + 1) hrest

end Statements

section Import
variable {manifest : DatasetManifest} {t t' : Releases} {faults : ℕ → Bool}

/-- The statements of an import are a DELETE and the insertions. -/
theorem foldlM_statements (manifest : DatasetManifest) (generatedAt : ℤ) (t : Releases) :
    (Except.ok :: (fun t : Releases => .ok (t.deleteContest manifest.contestId)) ::
      manifest.artifacts.map fun a (t : Releases) =>
        t.insert (manifest.release generatedAt a)).foldlM (fun t statement => statement t) t =
    (manifest.artifacts.map (manifest.release generatedAt)).foldlM Releases.insert
      (t.deleteContest manifest.contestId) := by
  show (manifest.artifacts.map fun a (t : Releases) =>
    t.insert (manifest.release generatedAt a)).foldlM (fun t statement => statement t)
      (t.deleteContest manifest.contestId) = _
  rw [List.foldlM_map, List.foldlM_map]

/-- An import that reports an error has changed nothing, when its COMMIT is acknowledged. -/
theorem importManifest_error {e : AppError}
    (h : (importManifest faults true manifest t).1 = .error e) :
    (importManifest faults true manifest t).2 = t := by
  unfold importManifest withTx at h ⊢
  cases hparse : Rfc3339.parse manifest.generatedAt with
  | none => rfl
  | some generatedAt =>
    rw [hparse] at h
    dsimp only at h ⊢
    split
    · rfl
    · next hexecute =>
      rw [hexecute] at h
      contradiction

/-- Without the acknowledgement the server reports an error, and the table is the same as with it:
all of the import or nothing. -/
theorem importManifest_lost : (∃ e, (importManifest faults false manifest t).1 = .error e) ∧
    (importManifest faults false manifest t).2 = (importManifest faults true manifest t).2 := by
  unfold importManifest withTx
  cases Rfc3339.parse manifest.generatedAt with
  | none => exact ⟨⟨_, rfl⟩, rfl⟩
  | some generatedAt =>
    dsimp only
    split
    · exact ⟨⟨_, rfl⟩, rfl⟩
    · exact ⟨⟨_, rfl⟩, rfl⟩

/-- The table after an import that reports success. -/
theorem importManifest_ok (h : (importManifest faults true manifest t).1 = .ok ()) :
    ∃ generatedAt, Rfc3339.parse manifest.generatedAt = some generatedAt ∧
      (manifest.artifacts.map (manifest.release generatedAt)).foldlM Releases.insert
        (t.deleteContest manifest.contestId) = .ok (importManifest faults true manifest t).2 := by
  unfold importManifest withTx at h ⊢
  cases hparse : Rfc3339.parse manifest.generatedAt with
  | none =>
    rw [hparse] at h
    contradiction
  | some generatedAt =>
    rw [hparse] at h
    refine ⟨generatedAt, rfl, ?_⟩
    dsimp only at h ⊢
    split
    · next hexecute =>
      rw [hexecute] at h
      contradiction
    · next hexecute =>
      rw [← foldlM_statements]
      exact foldlM_of_execute hexecute

theorem importManifest_of_foldlM {generatedAt : ℤ}
    (hparse : Rfc3339.parse manifest.generatedAt = some generatedAt)
    (h : (manifest.artifacts.map (manifest.release generatedAt)).foldlM Releases.insert
      (t.deleteContest manifest.contestId) = .ok t') :
    importManifest (fun _ => false) true manifest t = (.ok (), t') := by
  rw [← foldlM_statements] at h
  rw [importManifest, hparse]
  dsimp only
  rw [withTx, execute_of_foldlM 0 h]
  rfl

/-- The row of an artifact of a valid manifest. -/
def DatasetRelease.Released (r : DatasetRelease) : Prop :=
  ∃ (manifest : DatasetManifest) (generatedAt : ℤ), manifest.WellFormed ∧
    ∃ a ∈ manifest.artifacts, r = manifest.release generatedAt a

/-- Every row comes from a validated manifest. -/
theorem Imported.released (h : Imported t) : ∀ r ∈ t.rows, r.Released := by
  induction h with
  | empty => exact nofun
  | run faults acknowledged manifest t hvalid _ ih =>
    have hsame : (importManifest faults acknowledged manifest t).2 =
        (importManifest faults true manifest t).2 := by
      cases acknowledged with
      | false => exact importManifest_lost.2
      | true => rfl
    rw [hsame]
    cases hresult : (importManifest faults true manifest t).1 with
    | error e =>
      rw [importManifest_error hresult]
      exact ih
    | ok =>
      obtain ⟨generatedAt, -, hrows⟩ := importManifest_ok hresult
      rw [(foldlM_insert_ok_iff.mp hrows).2.2.2]
      intro r hr
      rcases List.mem_append.mp hr with hkept | hnew
      · exact ih r (List.mem_of_mem_filter hkept)
      · obtain ⟨a, ha, rfl⟩ := List.mem_map.mp hnew
        exact ⟨manifest, generatedAt, (validateManifest_ok_iff.mp hvalid).1, a, ha, rfl⟩

/-- A row of a valid manifest fits its columns when its time does. -/
theorem release_fits (h : manifest.WellFormed) {a : DatasetArtifact} (ha : a ∈ manifest.artifacts)
    (generatedAt : ℤ) : (manifest.release generatedAt a).fits = isDatetime generatedAt := by
  have hvalid := h.artifacts a ha
  have hcontest := (blank_notMem_of_idPattern h.contestId).2.2
  have hid := (blank_notMem_of_idPattern hvalid.id).2.2
  have hkind : a.kind.length ≤ 16 := by
    have hkinds : ∀ kind ∈ datasetKinds, kind.length ≤ 16 := by decide
    exact hkinds a.kind hvalid.kind
  have hlabel := (Utf16.length_toList_le a.label).trans hvalid.labelLength
  have hrevision := (Utf16.length_toList_le manifest.generatorRevision).trans h.revisionLength
  have hkey : a.objectKey.toList.length ≤ 1024 := by
    have hsize := Utf8.length_le_utf8ByteSize a.objectKey.toList
    rw [String.ofList_toList] at hsize
    exact hsize.trans hvalid.keyLength
  have hascii : (a.objectKey.toList.all (·.toNat < 128)) = true := by
    rw [List.all_eq_true]
    intro c hc
    have hprintable := List.all_eq_true.mp hvalid.keyPrintable c hc
    rw [isPrintable, Bool.and_eq_true, decide_eq_true_eq, decide_eq_true_eq] at hprintable
    exact decide_eq_true (by omega)
  have hcount (n : Int64) (hn : 0 < n) : isBigintUnsigned n.toInt = true := by
    have hpos : 0 < n.toInt := Int64.lt_iff_toInt_lt.mp hn
    have hlt := n.toInt_lt
    rw [isBigintUnsigned, Bool.and_eq_true, decide_eq_true_eq, decide_eq_true_eq]
    omega
  have hsha (text : String) (htext : shaPattern text = true) : text.length ≤ 64 := by
    rw [shaPattern, Bool.and_eq_true, decide_eq_true_eq, String.length_toList] at htext
    exact htext.1.le
  simp only [String.length_toList] at hcontest hid hlabel hrevision hkey
  simp [DatasetRelease.fits, DatasetManifest.release, hcontest, hid, hkind, hlabel, hrevision,
    hkey, hascii, hcount _ hvalid.rows, hcount _ hvalid.compressedBytes,
    hcount _ hvalid.uncompressedBytes, hsha _ hvalid.compressedSha256,
    hsha _ hvalid.uncompressedSha256]

/-- No two object keys differ in trailing blanks only. -/
def KeysDistinct (manifest : DatasetManifest) : Prop :=
  (manifest.artifacts.map fun a => unpadded a.objectKey).Nodup

/-- The import replaces the rows of its contest by the artifacts of the manifest. -/
def Replaces (manifest : DatasetManifest) (t : Releases) : Prop :=
  ∃ generatedAt, Rfc3339.parse manifest.generatedAt = some generatedAt ∧
    (importManifest (fun _ => false) true manifest t).1 = .ok () ∧
    (importManifest (fun _ => false) true manifest t).2.rows =
      t.rows.filter (·.contestId ≠ manifest.contestId) ++
        manifest.artifacts.map (manifest.release generatedAt)

/-- Whatever statement fails, COMMIT included, an import that reports an error leaves the table as it
is. -/
def Unchanged (manifest : DatasetManifest) (t : Releases) : Prop :=
  ∀ faults e, (importManifest faults true manifest t).1 = .error e →
    (importManifest faults true manifest t).2 = t

theorem unpadded_contestId {c₁ c₂ : String} (h₁ : contestIDPattern c₁ = true)
    (h₂ : contestIDPattern c₂ = true) : unpadded c₁ = unpadded c₂ ↔ c₁ = c₂ := by
  rw [unpadded_eq_toList (blank_notMem_of_idPattern h₁).1,
    unpadded_eq_toList (blank_notMem_of_idPattern h₂).1, String.toList_inj]

/-- The DELETE leaves the rows of other contests. -/
theorem rows_deleteContest (ht : Imported t) (h : manifest.WellFormed) :
    (t.deleteContest manifest.contestId).rows =
      t.rows.filter (·.contestId ≠ manifest.contestId) := by
  show t.rows.filter _ = _
  apply List.filter_congr
  intro r hr
  obtain ⟨m, generatedAt, hm, a, -, rfl⟩ := ht.released r hr
  have hiff := unpadded_contestId hm.contestId h.contestId
  change (!decide (unpadded m.contestId = unpadded manifest.contestId)) =
    decide (m.contestId ≠ manifest.contestId)
  rw [decide_eq_decide.mpr hiff, decide_not]

/-- Under a primary key of the kept rows and of the new ones there is one row. -/
theorem primaryKey_nodup (ht : Imported t) (h : manifest.WellFormed) (generatedAt : ℤ) :
    (((t.deleteContest manifest.contestId).rows ++
      manifest.artifacts.map (manifest.release generatedAt)).map
        DatasetRelease.primaryKey).Nodup := by
  rw [List.map_append, List.nodup_append']
  refine ⟨(t.deleteContest manifest.contestId).nodup, ?_, ?_⟩
  · have hids := h.consistent.ids
    rw [List.map_map]
    rw [List.Nodup, List.pairwise_map] at hids ⊢
    refine hids.imp_of_mem ?_
    intro a b ha hb hne heq
    obtain ⟨-, hid⟩ := Prod.mk.inj heq
    change unpadded a.id = unpadded b.id at hid
    rw [unpadded_eq_toList (blank_notMem_of_idPattern (h.artifacts a ha).id).1,
      unpadded_eq_toList (blank_notMem_of_idPattern (h.artifacts b hb).id).1] at hid
    exact hne (String.toList_inj.mp hid)
  · rw [rows_deleteContest ht h]
    rintro key hkept hnew
    obtain ⟨r, hr, rfl⟩ := List.mem_map.mp hkept
    obtain ⟨row, hrow, heq⟩ := List.mem_map.mp hnew
    obtain ⟨a, -, rfl⟩ := List.mem_map.mp hrow
    obtain ⟨hr, hother⟩ := List.mem_filter.mp hr
    obtain ⟨m, time, hm, b, -, rfl⟩ := ht.released r hr
    obtain ⟨hcontest, -⟩ := Prod.mk.inj heq
    have hsame := (unpadded_contestId h.contestId hm.contestId).mp hcontest
    exact of_decide_eq_true hother hsame.symm

/-- A clash of object keys is one among the new rows. -/
theorem uniqueKey_nodup_iff (ht : Imported t) (h : manifest.WellFormed) (generatedAt : ℤ) :
    (((t.deleteContest manifest.contestId).rows ++
      manifest.artifacts.map (manifest.release generatedAt)).map
        DatasetRelease.uniqueKey).Nodup ↔ KeysDistinct manifest := by
  have hmap : (manifest.artifacts.map (manifest.release generatedAt)).map
      DatasetRelease.uniqueKey = manifest.artifacts.map fun a => unpadded a.objectKey := by
    rw [List.map_map]
    rfl
  rw [List.map_append, List.nodup_append', hmap]
  constructor
  · rintro ⟨-, hnew, -⟩
    exact hnew
  · intro hdistinct
    refine ⟨(t.deleteContest manifest.contestId).unique, hdistinct, ?_⟩
    rw [rows_deleteContest ht h]
    rintro key hkept hnew
    obtain ⟨r, hr, rfl⟩ := List.mem_map.mp hkept
    obtain ⟨a, ha, heq⟩ := List.mem_map.mp hnew
    obtain ⟨hr, hother⟩ := List.mem_filter.mp hr
    obtain ⟨m, time, hm, b, hb, rfl⟩ := ht.released r hr
    have hsame := contestId_of_uniqueKey hm.contestId h.contestId (hm.artifacts b hb).keyPrefix
      (h.artifacts a ha).keyPrefix heq.symm
    exact of_decide_eq_true hother hsame

/-- A validated manifest is imported exactly when its object keys differ by more than trailing
blanks and its time lies in the years of the column. -/
theorem importable_iff (hvalid : validateManifest manifest = .ok ()) (ht : Imported t) :
    (Replaces manifest t ∧ Unchanged manifest t) ↔
      KeysDistinct manifest ∧ ∃ generatedAt,
        Rfc3339.parse manifest.generatedAt = some generatedAt ∧ isDatetime generatedAt = true := by
  obtain ⟨h, -⟩ := validateManifest_ok_iff.mp hvalid
  have hunchanged : Unchanged manifest t := fun _ _ => importManifest_error
  obtain ⟨a, ha, -⟩ := h.consistent.hasPublic
  constructor
  · rintro ⟨⟨time, htime, hok, -⟩, -⟩
    obtain ⟨time', htime', hrows⟩ := importManifest_ok hok
    obtain ⟨hfits, -, hunique, -⟩ := foldlM_insert_ok_iff.mp hrows
    have hfit := hfits _ (List.mem_map_of_mem ha)
    rw [release_fits h ha] at hfit
    exact ⟨(uniqueKey_nodup_iff ht h time').mp hunique, time', htime', hfit⟩
  · rintro ⟨hdistinct, time, htime, hdatetime⟩
    refine ⟨⟨time, htime, ?_⟩, hunchanged⟩
    have hprimary := primaryKey_nodup ht h time
    have hunique := (uniqueKey_nodup_iff ht h time).mpr hdistinct
    have hfits : ∀ r ∈ manifest.artifacts.map (manifest.release time), r.fits = true := by
      intro r hr
      obtain ⟨b, hb, rfl⟩ := List.mem_map.mp hr
      rw [release_fits h hb]
      exact hdatetime
    have hfold : (manifest.artifacts.map (manifest.release time)).foldlM Releases.insert
        (t.deleteContest manifest.contestId) = .ok ⟨⟨_, hprimary⟩, hunique⟩ :=
      foldlM_insert_ok_iff.mpr ⟨hfits, hprimary, hunique, rfl⟩
    rw [importManifest_of_foldlM htime hfold]
    refine ⟨rfl, ?_⟩
    show (t.deleteContest manifest.contestId).rows ++ _ = _
    rw [rows_deleteContest ht h]

theorem importable_sample : Replaces (sampleManifest "2026-01-01T00:00:00Z") .empty ∧
    Unchanged (sampleManifest "2026-01-01T00:00:00Z") .empty :=
  (importable_iff validateManifest_sample .empty).mpr
    ⟨by unfold KeysDistinct; decide +kernel, 1767225600000000, by decide +kernel, by decide⟩

/-- A manifest in which one object key is another one and a blank. -/
def paddedManifest : DatasetManifest :=
  let publicInput := sampleArtifact "full" "input" true
  let publicExpected := sampleArtifact "full" "expected" true
  { sampleManifest "2026-01-01T00:00:00Z" with
    artifacts := [publicInput, { publicExpected with objectKey := publicInput.objectKey ++ " " },
      sampleArtifact "full" "input" false, sampleArtifact "full" "expected" false] }

/-- It is valid, and its import fails. -/
theorem paddedManifest_refused : validateManifest paddedManifest = .ok () ∧
    ¬ (Replaces paddedManifest .empty ∧ Unchanged paddedManifest .empty) := by
  refine ⟨by decide +kernel, ?_⟩
  rintro ⟨⟨time, -, hok, -⟩, -⟩
  exact absurd hok (by decide +kernel)

end Import

end OneBrc.Server
