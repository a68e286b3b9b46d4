import Mathlib.Logic.Function.Basic
import OneBrc.Data.Tiers

/-! The files of a run of the generator: their names and their contents. -/
namespace OneBrc.Data
open Lib

/-- A file in a directory. -/
structure Path where
  dir : String
  name : String
  deriving DecidableEq

/-- The size of a file fits 63 bits. -/
structure File where
  bytes : Bytes
  size_lt : bytes.length < 2 ^ 63

abbrev Disk := Path → Option File

inductive FileError where
  | notExist (path : Path)
  | tooLarge (path : Path)

namespace Disk

def read (disk : Disk) (path : Path) : Except FileError File :=
  match disk path with
  | none => .error (.notExist path)
  | some file => .ok file

/-- A file created anew, or in place of the one before. -/
def write (disk : Disk) (path : Path) (bytes : Bytes) : Except FileError Disk :=
  if h : bytes.length < 2 ^ 63 then .ok (Function.update disk path (some ⟨bytes, h⟩))
  else .error (.tooLarge path)

/-- `LinkOrCopy`: the destination is removed before. -/
def linkOrCopy (disk : Disk) (source destination : Path) : Except FileError Disk := do
  let _ ← disk.read source
  let removed : Disk := Function.update disk destination none
  let file ← removed.read source
  return Function.update removed destination (some file)

/-- The file at the path has these contents. -/
def Has (disk : Disk) (path : Path) (bytes : Bytes) : Prop :=
  ∃ h, disk path = some ⟨bytes, h⟩

variable {disk disk' : Disk} {path path' source destination : Path} {bytes bytes' : Bytes}
  {file : File}

theorem Has.length_lt (h : disk.Has path bytes) : bytes.length < 2 ^ 63 := h.1

theorem Has.congr (h : disk.Has path bytes) (heq : disk' path = disk path) :
    disk'.Has path bytes := by
  obtain ⟨hlt, hfile⟩ := h
  exact ⟨hlt, heq.trans hfile⟩

theorem Has.unique (h : disk.Has path bytes) (h' : disk.Has path bytes') : bytes = bytes' := by
  obtain ⟨_, hfile⟩ := h
  obtain ⟨_, hfile'⟩ := h'
  exact congrArg File.bytes (Option.some.inj (hfile.symm.trans hfile'))

theorem read_eq_ok : disk.read path = .ok file ↔ disk path = some file := by
  unfold read
  cases disk path with
  | none => simp
  | some file' => simp

theorem Has.read (h : disk.Has path bytes) : ∃ hlt, disk.read path = .ok ⟨bytes, hlt⟩ := by
  obtain ⟨hlt, hfile⟩ := h
  exact ⟨hlt, read_eq_ok.mpr hfile⟩

/-- A write changes one file. -/
theorem write_eq_ok (h : disk.write path bytes = .ok disk') :
    disk'.Has path bytes ∧ ∀ other, other ≠ path → disk' other = disk other := by
  unfold write at h
  split at h
  · next hlt =>
    obtain rfl := Except.ok.inj h
    exact ⟨⟨hlt, Function.update_self ..⟩, fun other hne => Function.update_of_ne hne ..⟩
  · contradiction

theorem exists_write (h : bytes.length < 2 ^ 63) (disk : Disk) (path : Path) :
    ∃ disk', disk.write path bytes = .ok disk' := ⟨_, dif_pos h⟩

/-- Another file gets the contents of the source. -/
theorem linkOrCopy_eq (hne : source ≠ destination) (h : disk.Has source bytes) :
    ∃ disk', disk.linkOrCopy source destination = .ok disk' ∧ disk'.Has destination bytes ∧
      ∀ other, other ≠ destination → disk' other = disk other := by
  obtain ⟨hlt, hread⟩ := h.read
  have hremoved : Disk.read (Function.update disk destination none) source = .ok ⟨bytes, hlt⟩ := by
    rw [read_eq_ok, Function.update_of_ne hne]
    exact read_eq_ok.mp hread
  refine ⟨Function.update (Function.update disk destination none) destination
    (some ⟨bytes, hlt⟩), ?_, ⟨hlt, Function.update_self ..⟩, ?_⟩
  · unfold linkOrCopy
    rw [hread]
    simp only [bind, Except.bind]
    rw [hremoved]
    rfl
  · intro other hother
    rw [Function.update_of_ne hother, Function.update_of_ne hother]

end Disk

section Names

/-- `strings.TrimSuffix` -/
def trimSuffix (text ending : String) : String :=
  if ending.toList.isSuffixOf text.toList then
    String.ofList (text.toList.take (text.toList.length - ending.toList.length))
  else text

theorem trimSuffix_append (text ending : String) : trimSuffix (text ++ ending) ending = text := by
  rw [trimSuffix, if_pos]
  · rw [String.toList_append, List.length_append, Nat.add_sub_cancel, List.take_left,
      String.ofList_toList]
  · rw [String.toList_append, List.isSuffixOf_iff_suffix]
    exact List.suffix_append _ _

/-- A dataset or its expected output, as it is or compressed. -/
inductive Extension where
  | csv
  | expected
  | csvZst
  | expectedZst
  deriving DecidableEq

def Extension.text : Extension → String
  | .csv => ".csv"
  | .expected => ".expected"
  | .csvZst => ".csv.zst"
  | .expectedZst => ".expected.zst"

/-- The names of the files of a dataset. -/
def datasetName (scope : String) (rows : Int64) (extension : Extension) : String :=
  scope ++ "-" ++ toString rows.toInt ++ extension.text

variable {scope scope' : String} {rows rows' : Int64} {e e' : Extension}

theorem hyphen_mem_datasetName : '-' ∈ (datasetName scope rows e).toList := by
  simp [datasetName]

/-- The scope is before the first hyphen, the digits end at a dot. -/
theorem datasetName_inj (hscope : '-' ∉ scope.toList) (hscope' : '-' ∉ scope'.toList)
    (hrows : 0 < rows) (hrows' : 0 < rows')
    (h : datasetName scope rows e = datasetName scope' rows' e') :
    scope = scope' ∧ rows = rows' ∧ e = e' := by
  have hlist (scope : String) (rows : Int64) (e : Extension) :
      (datasetName scope rows e).toList =
        scope.toList ++ '-' :: ((toString rows.toInt).toList ++ e.text.toList) := by
    simp [datasetName]
  have htake {scope : String} (hscope : '-' ∉ scope.toList) (rows : Int64) (e : Extension) :
      (datasetName scope rows e).toList.takeWhile (· ≠ '-') = scope.toList := by
    rw [hlist, List.takeWhile_append_of_pos]
    · simp
    · intro c hc
      rw [decide_eq_true_iff]
      rintro rfl
      exact hscope hc
  have heq : scope = scope' := by
    rw [← String.toList_inj, ← htake hscope rows e, ← htake hscope' rows' e', h]
  subst heq
  have hrest := congrArg String.toList h
  rw [hlist, hlist] at hrest
  have hrest := (List.cons.inj (List.append_cancel_left hrest)).2
  have hdigits {rows : Int64} (hrows : 0 < rows) (e : Extension) :
      ((toString rows.toInt).toList ++ e.text.toList).takeWhile Digits.isDigit =
        (toString rows.toInt).toList := by
    have hall := Digits.allDigits_repr rows.toInt.toNat
    rw [← toString_toInt hrows, Digits.allDigits, List.all_eq_true] at hall
    rw [List.takeWhile_append_of_pos hall]
    cases e <;> simp [Extension.text, Digits.isDigit]
  have hnumber : (toString rows.toInt).toList = (toString rows'.toInt).toList := by
    rw [← hdigits hrows e, ← hdigits hrows' e', hrest]
  rw [hnumber] at hrest
  refine ⟨rfl, Int64.toInt_inj.mp (Digits.toString_injective (String.toList_inj.mp hnumber)), ?_⟩
  have hext := List.append_cancel_left hrest
  revert hext
  cases e <;> cases e' <;> decide

end Names
end OneBrc.Data
