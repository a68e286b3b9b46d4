import Mathlib.Data.List.Dedup
import Mathlib.Data.List.Find
import Mathlib.Data.List.Induction
import OneBrc.Server.Protocol

/-! The shared schema of runner results next to the decoder of the server: what each of the two
accepts of one text, and on which texts they differ. -/
namespace OneBrc.Shared
open Lib Server
open Runner (units)

/-- A JavaScript string. -/
abbrev JsString := List UInt16

/-- A property of what `JSON.parse` returns: the last member of a name wins. -/
def property? (members : List Member) (name : String) : Option RawMessage :=
  (members.reverse.find? fun member => member.1 = units name).map (·.2)

structure BenchmarkResult where
  verdict : Verdict
  durationsNs : Option (List JsString)
  medianNs : Option JsString
  error : Option JsString
  deriving DecidableEq

structure RunnerJobResult where
  publicResult : BenchmarkResult
  privateResult : Option BenchmarkResult
  environmentId : JsString
  deriving DecidableEq

/-- `\d+` -/
def isDigits (s : JsString) : Bool := !s.isEmpty && s.all fun u => 48 ≤ u.toNat && u.toNat ≤ 57

def nanosecondsSchema : RawMessage → Option JsString
  | .string s => if isDigits s then some s else none
  | _ => none

def verdictSchema : RawMessage → Option Verdict
  | .string s => Verdict.all.find? fun v => units v.name = s
  | _ => none

/-- The union of the tuples of one and of three durations. -/
def durationsSchema : RawMessage → Option (List JsString)
  | .array elements =>
      if elements.length = 1 || elements.length = 3 then elements.mapM nanosecondsSchema else none
  | _ => none

/-- `z.string().nullable()` -/
def errorSchema : RawMessage → Option (Option JsString)
  | .string s => some (some s)
  | .null => some none
  | _ => none

/-- The members of the discriminated union after the verdict. -/
def verdictResult (durationsNs medianNs error : RawMessage) (verdict : Verdict) :
    Option BenchmarkResult :=
  if verdict = .accepted then do
    let durations ← durationsSchema durationsNs
    let median ← nanosecondsSchema medianNs
    guard (isNull error)
    pure ⟨verdict, some durations, some median, none⟩
  else do
    guard (isNull durationsNs && isNull medianNs)
    let text ← errorSchema error
    pure ⟨verdict, none, none, text⟩

/-- A strict object of the four properties; `verdict` is the value that decides the union. -/
def strictResult (members : List Member) (verdict durationsNs : Option RawMessage) :
    Option BenchmarkResult := do
  guard (members.all fun member => member.1 ∈ benchmarkResultFields.map units)
  let durationsNs ← durationsNs
  let medianNs ← property? members "medianNs"
  let error ← property? members "error"
  (verdict.bind verdictSchema).bind (verdictResult durationsNs medianNs error)

def benchmarkResultSchema : RawMessage → Option BenchmarkResult
  | .object members =>
      strictResult members (property? members "verdict") (property? members "durationsNs")
  | _ => none

/-- `benchmarkResultSchema.nullable()` -/
def privateSchema (schema : RawMessage → Option BenchmarkResult) (value : RawMessage) :
    Option (Option BenchmarkResult) :=
  if isNull value then some none else (schema value).map some

/-- `z.string().min(1)` -/
def environmentIdSchema : RawMessage → Option JsString
  | .string s => if s.isEmpty then none else some s
  | _ => none

def runnerJobResultFields : List String := ["public", "private", "environmentId"]

def runnerJobResultSchema : RawMessage → Option RunnerJobResult
  | .object members => do
      guard (members.all fun member => member.1 ∈ runnerJobResultFields.map units)
      let publicValue ← property? members "public"
      let privateValue ← property? members "private"
      let environmentValue ← property? members "environmentId"
      let environmentId ← environmentIdSchema environmentValue
      let publicResult ← benchmarkResultSchema publicValue
      let privateResult ← privateSchema benchmarkResultSchema privateValue
      pure ⟨publicResult, privateResult, environmentId⟩
  | _ => none

/-- The same values as in JavaScript. -/
def ofDecodedResult (result : OneBrc.BenchmarkResult) : BenchmarkResult :=
  ⟨result.verdict, result.durationsNS.map (·.map units), result.medianNS.map units,
    result.error.map units⟩

def ofDecoded (result : OneBrc.RunnerJobResult) : RunnerJobResult :=
  ⟨ofDecodedResult result.publicResult, result.privateResult.map ofDecodedResult,
    units result.environmentID⟩

/-- Both refuse the text, or both accept it with the same values. -/
def SameLanguage (content : RawMessage) : Prop :=
  (decodeRunnerResult content).map ofDecoded = runnerJobResultSchema content

instance (content : RawMessage) : Decidable (SameLanguage content) :=
  inferInstanceAs (Decidable (_ = _))

section Loose

/-- A property with the nulls skipped. -/
def settled? (members : List Member) (name : String) : Option RawMessage :=
  (members.reverse.find? fun member => member.1 = units name && !isNull member.2).map (·.2)

/-- Elements where a null stands for what an array has in its place. -/
def fillNulls : List RawMessage → List RawMessage → List RawMessage
  | _, [] => []
  | array, element :: elements =>
      (if isNull element then array.headD .null else element) :: fillNulls array.tail elements

def refill (array : List RawMessage) : RawMessage → RawMessage
  | .array elements => .array (fillNulls array elements)
  | value => value

/-- A list that is read again and again, and what is left of longer ones before it. -/
structure Refilled where
  value : Option RawMessage
  spare : List RawMessage

def Refilled.array (list : Refilled) : List RawMessage :=
  match list.value with
  | some (.array elements) => elements ++ list.spare
  | _ => []

/-- An empty list leaves nothing, and neither does a null. -/
def Refilled.next (list : Refilled) (value : RawMessage) : Refilled where
  value := some (refill list.array value)
  spare :=
    match value with
    | .array [] => []
    | .array elements => list.array.drop elements.length
    | _ => []

/-- The durations of a result with their nulls filled, member by member. -/
def refilled (members : List Member) : Refilled :=
  members.foldl (fun list member =>
    if member.1 = units "durationsNs" then list.next member.2 else list) ⟨none, []⟩

/-- `benchmarkResultSchema` where a null leaves the verdict, or the duration in its place, of the
members before it. -/
def looseResult : RawMessage → Option BenchmarkResult
  | .object members => strictResult members (settled? members "verdict") (refilled members).value
  | _ => none

/-- The last counted member whose name differs from the field's in case at most. -/
def field? (counts : RawMessage → Bool) (members : List Member) (field : String) :
    Option RawMessage :=
  (members.reverse.find? fun member =>
    namesField (goString member.1) field && counts member.2).map (·.2)

def isField (member : Member) : Bool :=
  runnerJobResultFields.any (namesField (goString member.1))

/-- `runnerJobResultSchema` where names match without regard to case and a null leaves the string
of the member before it. -/
def looseRunnerResult : RawMessage → Option RunnerJobResult
  | .object members => do
      guard (members.all isField)
      let publicValue ← field? (fun _ => true) members "public"
      let privateValue ← field? (fun _ => true) members "private"
      let environmentValue ← field? (!isNull ·) members "environmentId"
      let environmentId ← environmentIdSchema environmentValue
      let publicResult ← looseResult publicValue
      let privateResult ← privateSchema looseResult privateValue
      pure ⟨publicResult, privateResult, environmentId⟩
  | _ => none

/-- What a Go string can be decoded from. -/
def isText : RawMessage → Bool
  | .string _ | .null => true
  | _ => false

def isTexts : RawMessage → Bool
  | .array elements => elements.all isText
  | .null => true
  | _ => false

/-- A member of a result with a value that its Go field can hold. -/
def hasFieldType (member : Member) : Bool :=
  if member.1 = units "durationsNs" then isTexts member.2 else isText member.2

/-- Some member of a result, be it the last of its name or not, has a wrong type. -/
def illTyped : RawMessage → Bool
  | .object members => !members.all hasFieldType
  | _ => false

def hasNullElement : RawMessage → Bool
  | .array elements => elements.any isNull
  | _ => false

/-- A null is the last value of the verdict or of a duration. -/
def keepsNull : RawMessage → Bool
  | .object members =>
      (property? members "verdict").any isNull ||
      (property? members "durationsNs").any hasNullElement
  | _ => false

def isIllTypedEnvironment (member : Member) : Bool :=
  namesField (goString member.1) "environmentId" && !isText member.2

/-- Some member that `JSON.parse` may drop has a type that its Go field cannot hold. -/
def hasIllTyped : RawMessage → Bool
  | .object members =>
      members.any isIllTypedEnvironment ||
      (field? (fun _ => true) members "public").any illTyped ||
      (field? (fun _ => true) members "private").any illTyped
  | _ => false

def isRecased (member : Member) : Bool := member.1 ∉ runnerJobResultFields.map units

/-- A name is spelled in another case, or a null is the last value of a string. -/
def needsLoose : RawMessage → Bool
  | .object members =>
      members.any isRecased ||
      (field? (fun _ => true) members "environmentId").any isNull ||
      (field? (fun _ => true) members "public").any keepsNull ||
      (field? (fun _ => true) members "private").any keepsNull
  | _ => false

/-- Without unpaired surrogates. -/
def Paired (s : JsString) : Prop := Utf16.encode (Utf16.decode s) = s

structure BenchmarkResult.Paired (result : BenchmarkResult) : Prop where
  durationsNs : ∀ durations, result.durationsNs = some durations → ∀ s ∈ durations, Shared.Paired s
  medianNs : ∀ s, result.medianNs = some s → Shared.Paired s
  error : ∀ s, result.error = some s → Shared.Paired s

structure RunnerJobResult.Paired (result : RunnerJobResult) : Prop where
  publicResult : result.publicResult.Paired
  privateResult : ∀ p, result.privateResult = some p → p.Paired
  environmentId : Shared.Paired result.environmentId

def BenchmarkResult.decoded (result : BenchmarkResult) : OneBrc.BenchmarkResult :=
  ⟨result.verdict, result.durationsNs.map (·.map goString), result.medianNs.map goString,
    result.error.map goString⟩

def RunnerJobResult.decoded (result : RunnerJobResult) : OneBrc.RunnerJobResult :=
  ⟨result.publicResult.decoded, result.privateResult.map BenchmarkResult.decoded,
    goString result.environmentId⟩

end Loose

section Names

theorem units_inj {a b : String} : units a = units b ↔ a = b := by
  constructor
  · intro h
    rw [← goString_units a, h, goString_units]
  · rintro rfl
    rfl

theorem goString_eq_iff {s : JsString} {name : String}
    (h : Utf16.replacement ∉ name.toList) : goString s = name ↔ s = units name := by
  rw [goString, units, ← Utf16.decode_eq_iff h]
  constructor
  · rintro rfl
    rw [String.toList_ofList]
  · intro heq
    rw [heq, String.ofList_toList]

theorem find?_last {p q : Member → Bool} {members : List Member}
    (h : ∀ member ∈ members, p member = q member) :
    members.reverse.find? p = members.reverse.find? q := by
  apply List.find?_congr
  intro member hmember
  exact h member (List.mem_reverse.mp hmember)

theorem lastMember?_eq {members : List Member} {name : String}
    (h : Utf16.replacement ∉ name.toList) :
    lastMember? members name = property? members name := by
  unfold lastMember? property?
  rw [find?_last fun member _ => decide_eq_decide.mpr (goString_eq_iff h)]

@[simp] theorem property?_append (members : List Member) (member : Member) (name : String) :
    property? (members ++ [member]) name =
      if member.1 = units name then some member.2 else property? members name := by
  unfold property?
  rw [List.reverse_append, List.reverse_singleton, List.singleton_append, List.find?_cons]
  split
  · next h => rw [if_pos (of_decide_eq_true h)]; rfl
  · next h => rw [if_neg (of_decide_eq_false h)]

@[simp] theorem refilled_append (members : List Member) (member : Member) :
    refilled (members ++ [member]) =
      if member.1 = units "durationsNs" then (refilled members).next member.2
      else refilled members := by
  rw [refilled, List.foldl_append]
  rfl

@[simp] theorem settled?_append (members : List Member) (member : Member) (name : String) :
    settled? (members ++ [member]) name =
      if member.1 = units name && !isNull member.2 then some member.2
      else settled? members name := by
  unfold settled?
  rw [List.reverse_append, List.reverse_singleton, List.singleton_append, List.find?_cons]
  split
  · next h => rw [if_pos h]; rfl
  · next h => rw [if_neg (by rw [h]; exact Bool.false_ne_true)]

/-- Nothing is skipped when the last value is not null. -/
theorem settled?_eq {members : List Member} {name : String}
    (h : (property? members name).any isNull = false) :
    settled? members name = property? members name := by
  induction members using List.reverseRecOn with
  | nil => rfl
  | append_singleton members member ih =>
    rw [property?_append] at h ⊢
    rw [settled?_append]
    by_cases hname : member.1 = units name
    · rw [if_pos hname, Option.any_some] at h
      rw [if_pos hname, if_pos (by simp [hname, h])]
    · rw [if_neg hname] at h
      rw [if_neg hname, if_neg (by simp [hname])]
      exact ih h

end Names

section Members
variable {members : List Member}

theorem goString_mem_iff {s : JsString} {names : List String}
    (h : ∀ name ∈ names, Utf16.replacement ∉ name.toList) :
    goString s ∈ names ↔ s ∈ names.map units := by
  rw [List.mem_map]
  constructor
  · intro hmem
    exact ⟨goString s, hmem, ((goString_eq_iff (h _ hmem)).mp rfl).symm⟩
  · rintro ⟨name, hmem, rfl⟩
    rwa [goString_units]

theorem mem_of_property? {name : String} {value : RawMessage}
    (h : property? members name = some value) : (units name, value) ∈ members := by
  obtain ⟨member, hfind, rfl⟩ := Option.map_eq_some_iff.mp h
  have hfound := List.find?_some hfind
  rw [decide_eq_true_eq] at hfound
  rw [← hfound]
  exact List.mem_reverse.mp (List.mem_of_find?_eq_some hfind)

theorem mem_of_settled? {name : String} {value : RawMessage}
    (h : settled? members name = some value) :
    (units name, value) ∈ members ∧ isNull value = false := by
  obtain ⟨member, hfind, rfl⟩ := Option.map_eq_some_iff.mp h
  have hfound := List.find?_some hfind
  rw [Bool.and_eq_true, decide_eq_true_eq, Bool.not_eq_true'] at hfound
  rw [← hfound.1]
  exact ⟨List.mem_reverse.mp (List.mem_of_find?_eq_some hfind), hfound.2⟩

/-- The last durations, with their nulls filled from texts. -/
theorem refilled_value (members : List Member) :
    (refilled members).value = none ∧ property? members "durationsNs" = none ∨
      ∃ array value, (refilled members).value = some (refill array value) ∧
        property? members "durationsNs" = some value := by
  induction members using List.reverseRecOn with
  | nil => exact .inl ⟨rfl, rfl⟩
  | append_singleton members member ih =>
    rw [refilled_append, property?_append]
    split
    · exact .inr ⟨_, _, rfl, rfl⟩
    · exact ih

theorem refill_eq {value : RawMessage} (h : hasNullElement value = false)
    (array : List RawMessage) : refill array value = value := by
  cases value with
  | null | bool | number | string | object => rfl
  | array elements =>
    rw [refill]
    congr 1
    rw [hasNullElement, List.any_eq_false] at h
    induction elements generalizing array with
    | nil => rfl
    | cons element elements ih =>
      rw [fillNulls, if_neg (h element List.mem_cons_self),
        ih _ fun e he => h e (List.mem_cons_of_mem _ he)]

theorem isNull_refill (array : List RawMessage) (value : RawMessage) :
    isNull (refill array value) = isNull value := by
  cases value <;> rfl

theorem isText_fillNulls {array elements : List RawMessage} (harray : ∀ e ∈ array, isText e = true)
    (helements : ∀ e ∈ elements, isText e = true) : ∀ e ∈ fillNulls array elements,
      isText e = true := by
  induction elements generalizing array with
  | nil => exact nofun
  | cons element elements ih =>
    obtain ⟨helement, hrest⟩ := List.forall_mem_cons.mp helements
    refine List.forall_mem_cons.mpr ⟨?_, ih (fun e he => harray e (List.mem_of_mem_tail he)) hrest⟩
    split
    · cases array with
      | nil => rfl
      | cons first array => exact harray first List.mem_cons_self
    · exact helement

/-- Of well-typed durations the array has texts only. -/
theorem isText_refilled (h : ∀ value, (units "durationsNs", value) ∈ members →
    isTexts value = true) : ∀ e ∈ (refilled members).array, isText e = true := by
  induction members using List.reverseRecOn with
  | nil => exact nofun
  | append_singleton members member ih =>
    have hbefore := ih fun value hvalue => h value (List.mem_append_left _ hvalue)
    rw [refilled_append]
    split
    · next hname =>
      have hvalue := h member.2 (hname ▸ List.mem_append_right _ (List.mem_singleton_self member))
      intro e he
      cases hmember : member.2 with
      | null | bool | number | string | object => rw [hmember] at he; cases he
      | array elements =>
        rw [hmember, isTexts, List.all_eq_true] at hvalue
        rw [hmember] at he
        rcases List.mem_append.mp he with he | he
        · exact isText_fillNulls hbefore hvalue e he
        · cases elements with
          | nil => cases he
          | cons => exact hbefore e (List.mem_of_mem_drop he)
    · exact hbefore

/-- Filling the nulls of well-typed durations keeps their type. -/
theorem isTexts_refill (h : ∀ value, (units "durationsNs", value) ∈ members →
    isTexts value = true) {array : List RawMessage} {value : RawMessage}
    (hfilled : (refilled members).value = some (refill array value))
    (hvalue : isTexts value = true) : isTexts (refill array value) = true := by
  cases value with
  | null | bool | number | string | object => exact hvalue
  | array elements =>
    rw [refill] at hfilled ⊢
    rw [isTexts, List.all_eq_true]
    intro e he
    refine isText_refilled h e ?_
    rw [Refilled.array, hfilled]
    exact List.mem_append_left _ he

theorem benchmarkResultFields_plain :
    ∀ name ∈ benchmarkResultFields, Utf16.replacement ∉ name.toList := by decide

/-- The count of the map's keys and their presence make the object strict. -/
theorem hasBenchmarkFields_iff : hasBenchmarkFields members = true ↔
    (∀ member ∈ members, member.1 ∈ benchmarkResultFields.map units) ∧
      ∀ name ∈ benchmarkResultFields, (property? members name).isSome := by
  simp only [hasBenchmarkFields, Bool.and_eq_true, decide_eq_true_eq, List.all_eq_true]
  have hlast : (∀ name ∈ benchmarkResultFields, (lastMember? members name).isSome) ↔
      ∀ name ∈ benchmarkResultFields, (property? members name).isSome := by
    refine forall₂_congr fun name hname => ?_
    rw [lastMember?_eq (benchmarkResultFields_plain name hname)]
  rw [hlast, and_congr_left_iff]
  intro hpresent
  have hnodup : (memberNames members).Nodup := List.nodup_dedup _
  have hfields : benchmarkResultFields ⊆ memberNames members := by
    intro name hname
    obtain ⟨value, hvalue⟩ := Option.isSome_iff_exists.mp (hpresent name hname)
    exact List.mem_dedup.mpr (List.mem_map.mpr ⟨_, mem_of_property? hvalue, goString_units name⟩)
  have hnames : (∀ member ∈ members, member.1 ∈ benchmarkResultFields.map units) ↔
      memberNames members ⊆ benchmarkResultFields := by
    constructor
    · intro h name hname
      obtain ⟨member, hmember, rfl⟩ := List.mem_map.mp (List.mem_dedup.mp hname)
      exact (goString_mem_iff benchmarkResultFields_plain).mpr (h member hmember)
    · intro h member hmember
      exact (goString_mem_iff benchmarkResultFields_plain).mp
        (h (List.mem_dedup.mpr (List.mem_map_of_mem hmember)))
  have hperm := List.subperm_of_subset (show benchmarkResultFields.Nodup by decide) hfields
  rw [hnames]
  constructor
  · intro hlength
    exact (hperm.perm_of_length_le hlength.le).symm.subset
  · intro hsubset
    exact ((List.perm_ext_iff_of_nodup hnodup (by decide)).mpr fun name =>
      ⟨fun h => hsubset h, fun h => hfields h⟩).length_eq

def text : RawMessage → String
  | .string s => goString s
  | _ => ""

def text? : RawMessage → Option String
  | .string s => some (goString s)
  | _ => none

def texts? : RawMessage → Option (List String)
  | .array elements => some (elements.map text)
  | _ => none

/-- The slice that the server has of a list. -/
def Refilled.slice? (list : Refilled) : Option StringSlice :=
  match list.value with
  | some (.array elements) => some ⟨elements.map text, list.spare.map text⟩
  | _ => none

theorem decodeString_eq (old : String) (value : RawMessage) : decodeString old value =
    if isText value then some (if isNull value then old else text value) else none := by
  cases value <;> rfl

theorem decodeStringPointer_eq (value : RawMessage) :
    decodeStringPointer value = if isText value then some (text? value) else none := by
  cases value <;> rfl

theorem decodeElements_eq (array elements : List RawMessage) :
    decodeElements decodeString "" (array.map text) elements =
      if elements.all isText then
        some ⟨(fillNulls array elements).map text, (array.drop elements.length).map text⟩
      else none := by
  induction elements generalizing array with
  | nil => rfl
  | cons element elements ih =>
    have hhead : (array.map text).headD "" = text (array.headD .null) := by cases array <;> rfl
    have htail : (array.map text).tail = array.tail.map text := by cases array <;> rfl
    rw [decodeElements, decodeString_eq, hhead, htail, ih, List.all_cons]
    cases isText element with
    | false => rfl
    | true =>
      cases elements.all isText with
      | false => rfl
      | true => cases hnull : isNull element <;> simp [fillNulls, hnull]

theorem slice?_array (list : Refilled) :
    list.slice?.elim [] Slice.array = list.array.map text := by
  obtain ⟨value, spare⟩ := list
  unfold Refilled.slice? Refilled.array
  rcases value with _ | (_ | _ | _ | _ | _ | _) <;> simp [Slice.array]

theorem slice?_elements (list : Refilled) :
    list.slice?.map (·.elements) = list.value.bind texts? := by
  obtain ⟨value, spare⟩ := list
  unfold Refilled.slice?
  rcases value with _ | (_ | _ | _ | _ | _ | _) <;> rfl

theorem decodeStrings_eq (list : Refilled) (value : RawMessage) :
    decodeStrings list.slice? value =
      if isTexts value then some (list.next value).slice? else none := by
  cases value with
  | null | bool | number | string | object => rfl
  | array elements =>
    cases elements with
    | nil => rfl
    | cons element elements =>
      have helements := decodeElements_eq list.array (element :: elements)
      rw [← slice?_array] at helements
      have hslice : decodeStrings list.slice? (.array (element :: elements)) =
          (decodeElements decodeString "" (list.slice?.elim [] Slice.array)
            (element :: elements)).map some := rfl
      have htexts : isTexts (.array (element :: elements)) = (element :: elements).all isText := rfl
      rw [hslice, helements, htexts]
      cases (element :: elements).all isText <;> rfl

/-- What decoding has left of the members. -/
def decodedMembers (members : List Member) : DecodedBenchmarkResult :=
  ⟨(settled? members "verdict").elim "" text, (refilled members).slice?,
    (property? members "medianNs").bind text?, (property? members "error").bind text?⟩

theorem decodeBenchmarkMember_eq (member : Member)
    (hname : member.1 ∈ benchmarkResultFields.map units) :
    decodeBenchmarkMember (decodedMembers members) member =
      if hasFieldType member then some (decodedMembers (members ++ [member])) else none := by
  obtain ⟨name, value⟩ := member
  simp only [benchmarkResultFields, List.map_cons, List.map_nil, List.mem_cons,
    List.not_mem_nil, or_false] at hname
  rcases hname with rfl | rfl | rfl | rfl
  · simp only [decodeBenchmarkMember, goString_units, decodeString_eq, hasFieldType,
      decodedMembers, property?_append, settled?_append, refilled_append]
    cases isText value with
    | false => simp [units_inj]
    | true => cases isNull value <;> simp [units_inj]
  · simp only [decodeBenchmarkMember, goString_units, decodeStrings_eq, hasFieldType,
      decodedMembers, property?_append, settled?_append, refilled_append]
    cases isTexts value <;> simp [units_inj]
  · simp only [decodeBenchmarkMember, goString_units, decodeStringPointer_eq, hasFieldType,
      decodedMembers, property?_append, settled?_append, refilled_append]
    cases isText value <;> simp [units_inj]
  · simp only [decodeBenchmarkMember, goString_units, decodeStringPointer_eq, hasFieldType,
      decodedMembers, property?_append, settled?_append, refilled_append]
    cases isText value <;> simp [units_inj]

theorem foldlM_decodeBenchmarkMember
    (hnames : ∀ member ∈ members, member.1 ∈ benchmarkResultFields.map units) :
    members.foldlM decodeBenchmarkMember ⟨"", none, none, none⟩ =
      if members.all hasFieldType then some (decodedMembers members) else none := by
  induction members using List.reverseRecOn with
  | nil => rfl
  | append_singleton members member ih =>
    have hmember : member.1 ∈ benchmarkResultFields.map units :=
      hnames member (List.mem_append_right _ (List.mem_singleton_self _))
    rw [List.foldlM_append, ih fun m hm => hnames m (List.mem_append_left _ hm), List.all_append]
    cases members.all hasFieldType with
    | false => rfl
    | true =>
      rw [if_pos rfl, Option.bind_eq_bind, Option.bind_some, List.foldlM_cons,
        decodeBenchmarkMember_eq member hmember]
      by_cases htype : hasFieldType member = true <;> simp [htype]

end Members

section Values

theorem isDigit_decodePair {u v : UInt16} (hu : Utf16.isHigh u = true)
    (hv : Utf16.isLow v = true) : Digits.isDigit (Utf16.decodePair u v) = false := by
  have hpair := Utf16.encodeChar_decodePair hu hv
  generalize Utf16.decodePair u v = c at hpair
  rw [← Bool.not_eq_true]
  intro hdigit
  have hrange := Digits.isDigit_iff.mp hdigit
  rw [Utf16.encodeChar, if_pos (by omega)] at hpair
  simp at hpair

theorem isDigit_decodeUnit (u : UInt16) :
    Digits.isDigit (Utf16.decodeUnit u) = decide (48 ≤ u.toNat ∧ u.toNat ≤ 57) := by
  by_cases hsurrogate : (Utf16.isHigh u || Utf16.isLow u) = true
  · have hrange : 0xD800 ≤ u.toNat := by
      simp only [Utf16.isHigh, Utf16.isLow, Bool.or_eq_true, Bool.and_eq_true,
        decide_eq_true_eq] at hsurrogate
      omega
    rw [Utf16.decodeUnit, if_pos hsurrogate, decide_eq_false (by omega)]
    decide
  · have hvalid : u.toNat.isValidChar := by
      have hlt : u.toNat < 0x10000 := u.toNat_lt
      simp only [Utf16.isHigh, Utf16.isLow, Bool.or_eq_true, Bool.and_eq_true,
        decide_eq_true_eq] at hsurrogate
      rw [Nat.isValidChar]
      omega
    rw [Utf16.decodeUnit, if_neg hsurrogate, Bool.eq_iff_iff, Digits.isDigit_iff,
      Utf16.toNat_ofNat_char hvalid, decide_eq_true_eq]

theorem allDigits_decode (s : JsString) : Digits.allDigits (Utf16.decode s) =
    s.all fun u => 48 ≤ u.toNat && u.toNat ≤ 57 := by
  induction s using Utf16.decode.induct with
  | case1 => rfl
  | case2 u => simp [Utf16.decode, Digits.allDigits, isDigit_decodeUnit]
  | case3 u v rest hpair ih =>
    obtain ⟨hu, hv⟩ := Bool.and_eq_true_iff.mp hpair
    have hrange : 0xD800 ≤ u.toNat := by
      simp only [Utf16.isHigh, Bool.and_eq_true, decide_eq_true_eq] at hu
      exact hu.1
    have hnot : (decide (48 ≤ u.toNat) && decide (u.toNat ≤ 57)) = false := by
      rw [Bool.and_eq_false_iff]
      exact .inr (decide_eq_false (by omega))
    rw [Utf16.decode, if_pos hpair, Digits.allDigits, List.all_cons, isDigit_decodePair hu hv,
      List.all_cons, hnot, Bool.false_and, Bool.false_and]
  | case4 u v rest hpair ih =>
    rw [Utf16.decode, if_neg hpair, Digits.allDigits, List.all_cons, isDigit_decodeUnit,
      List.all_cons, Bool.decide_and]
    exact congrArg _ ih

theorem isEmpty_decode (s : JsString) : (Utf16.decode s).isEmpty = s.isEmpty := by
  cases s using Utf16.decode.induct with
  | case1 => rfl
  | case2 u => rfl
  | case3 u v rest hpair =>
    rw [Utf16.decode, if_pos hpair, List.isEmpty_cons, List.isEmpty_cons]
  | case4 u v rest hpair =>
    rw [Utf16.decode, if_neg hpair, List.isEmpty_cons, List.isEmpty_cons]

theorem digits_goString (s : JsString) : digits (goString s) = isDigits s := by
  rw [digits, goString, String.toList_ofList, isEmpty_decode, allDigits_decode, isDigits]

theorem verdictName_plain (v : Verdict) : Utf16.replacement ∉ v.name.toList := by
  cases v <;> decide

theorem ofName?_goString (s : JsString) :
    Verdict.ofName? (goString s) = verdictSchema (.string s) := by
  rw [Verdict.ofName?, verdictSchema]
  apply List.find?_congr
  intro v _
  have hplain : Utf16.replacement ∉ v.name.toList := verdictName_plain v
  rw [decide_eq_decide, eq_comm, goString_eq_iff hplain, eq_comm]

/-- The string of a value that has passed `nanosecondsSchema`. -/
def raw : RawMessage → JsString
  | .string s => s
  | _ => []

theorem mapM_nanosecondsSchema {elements : List RawMessage} (h : elements.all isText = true) :
    elements.mapM nanosecondsSchema =
      if (elements.map text).all digits then some (elements.map raw) else none := by
  induction elements with
  | nil => rfl
  | cons element elements ih =>
    rw [List.all_cons, Bool.and_eq_true] at h
    rw [List.mapM_cons, ih h.2, List.map_cons, List.all_cons]
    cases element with
    | null => rfl
    | string s =>
      rw [text, digits_goString, nanosecondsSchema]
      cases isDigits s with
      | false => rfl
      | true => cases (elements.map text).all digits <;> rfl
    | bool | number | array | object => cases h.1

theorem map_goString_raw (elements : List RawMessage) (h : (elements.map text).all digits = true) :
    (elements.map raw).map goString = elements.map text := by
  rw [List.map_map]
  apply List.map_congr_left
  intro element hmem
  have hdigits := List.all_eq_true.mp h (text element) (List.mem_map_of_mem hmem)
  cases element with
  | string s => rfl
  | null | bool | number | array | object => cases hdigits

end Values

section Results
variable {members : List Member} {durationsNs medianNs error : RawMessage} {verdict : Verdict}

variable (verdict) in
/-- The checks of the decoder on well-typed values are those of the union. -/
theorem verdictResult_decoded (hdurations : isTexts durationsNs = true)
    (hmedian : isText medianNs = true) (herror : isText error = true) :
    (verdictResult durationsNs medianNs error verdict).map BenchmarkResult.decoded =
      if validateBenchmarkResult ⟨verdict, texts? durationsNs, text? medianNs, text? error⟩ &&
        (if verdict = .accepted then isNull error else isNull durationsNs && isNull medianNs)
      then some ⟨verdict, texts? durationsNs, text? medianNs, text? error⟩ else none := by
  by_cases haccepted : verdict = .accepted
  · subst haccepted
    simp only [verdictResult, validateBenchmarkResult, if_true]
    cases durationsNs with
    | bool | number | string | object => cases hdurations
    | null => simp [durationsSchema, texts?]
    | array elements =>
      have hmap := mapM_nanosecondsSchema hdurations
      rw [durationsSchema, texts?, hmap]
      cases hlength : decide (elements.length = 1) || decide (elements.length = 3) with
      | false => simp [hlength]
      | true =>
        cases hdigits : (elements.map text).all digits with
        | false => simp [hdigits, hlength]
        | true =>
          have hstrings := map_goString_raw elements hdigits
          cases medianNs with
          | bool | number | array | object => cases hmedian
          | null => simp [nanosecondsSchema, text?]
          | string s =>
            rw [nanosecondsSchema, text?, Option.any_some, digits_goString]
            cases hs : isDigits s with
            | false => simp
            | true =>
              cases error with
              | bool | number | array | object => cases herror
              | string e => simp [isNull]
              | null => simp [isNull, hlength, hdigits, BenchmarkResult.decoded, hstrings, text?]
  · simp only [verdictResult, validateBenchmarkResult, if_neg haccepted]
    cases durationsNs with
    | bool | number | string | object => cases hdurations
    | array elements => simp [isNull]
    | null =>
      cases medianNs with
      | bool | number | array | object => cases hmedian
      | string s => simp [isNull]
      | null =>
        cases error with
        | bool | number | array | object => cases herror
        | string e => simp [isNull, errorSchema, BenchmarkResult.decoded, texts?, text?]
        | null => simp [isNull, errorSchema, BenchmarkResult.decoded, texts?, text?]

theorem hasBenchmarkFields_of_strict {result : BenchmarkResult} (h : strictResult members
    (settled? members "verdict") (refilled members).value = some result) :
    hasBenchmarkFields members = true := by
  simp only [strictResult, Option.bind_eq_bind, Option.bind_eq_some_iff] at h
  obtain ⟨_, hguard, d, hd, m, hm, e, he, verdict, ⟨v, hv, -⟩, -⟩ := h
  have hnames := (Option.guard_eq_some' _).mp hguard
  rw [List.all_eq_true] at hnames
  refine hasBenchmarkFields_iff.mpr ⟨fun member hmem => by simpa using hnames member hmem, ?_⟩
  have hverdict : (property? members "verdict").isSome := by
    by_contra hnone
    rw [Bool.not_eq_true, Option.isSome_eq_false_iff, Option.isNone_iff_eq_none] at hnone
    rw [settled?_eq (by rw [hnone]; rfl), hnone] at hv
    cases hv
  have hdurations : (property? members "durationsNs").isSome := by
    rcases refilled_value members with ⟨hnone, -⟩ | ⟨_, _, -, hvalue⟩
    · rw [hnone] at hd
      cases hd
    · rw [hvalue]
      rfl
  simp [benchmarkResultFields, hverdict, hdurations, hm, he]

/-- The decoder reads a result as the schema does, but checks the types of all members and takes
the last verdict that is not null. -/
theorem decodeBenchmarkResult_eq (value : RawMessage) : decodeBenchmarkResult value =
    if illTyped value then none else (looseResult value).map BenchmarkResult.decoded := by
  cases value with
  | null | bool | number | string | array => rfl
  | object members =>
    rw [decodeBenchmarkResult, illTyped, looseResult]
    cases hfields : hasBenchmarkFields members with
    | false =>
      have hnone : strictResult members (settled? members "verdict") (refilled members).value =
          none := by
        rw [Option.eq_none_iff_forall_ne_some]
        intro result hresult
        rw [hasBenchmarkFields_of_strict hresult] at hfields
        cases hfields
      rw [hnone]
      simp
    | true =>
      obtain ⟨hnames, hpresent⟩ := hasBenchmarkFields_iff.mp hfields
      rw [foldlM_decodeBenchmarkMember hnames]
      cases htyped : members.all hasFieldType with
      | false => simp
      | true =>
        have htype (name : String) (value : RawMessage) (h : (units name, value) ∈ members) :
            hasFieldType (units name, value) = true := List.all_eq_true.mp htyped _ h
        have hne (name : String) (h : name ≠ "durationsNs") : units name ≠ units "durationsNs" :=
          fun heq => h (units_inj.mp heq)
        obtain ⟨array, d, hfilled, hd⟩ := (refilled_value members).resolve_left fun hnone => by
          have hsome := hpresent "durationsNs" (by decide)
          rw [hnone.2] at hsome
          cases hsome
        obtain ⟨m, hm⟩ := Option.isSome_iff_exists.mp (hpresent "medianNs" (by decide))
        obtain ⟨e, he⟩ := Option.isSome_iff_exists.mp (hpresent "error" (by decide))
        have hdtype := htype _ _ (mem_of_property? hd)
        have hmtype := htype _ _ (mem_of_property? hm)
        have hetype := htype _ _ (mem_of_property? he)
        rw [hasFieldType, if_pos rfl] at hdtype
        rw [hasFieldType, if_neg (hne _ (by decide))] at hmtype hetype
        dsimp only at hdtype hmtype hetype
        have hfilledType := isTexts_refill (fun value hvalue => by
          have hvalueType := htype _ _ hvalue
          rwa [hasFieldType, if_pos rfl] at hvalueType) hfilled hdtype
        have hall : (members.all fun member => member.1 ∈ benchmarkResultFields.map units) =
            true := by
          rw [List.all_eq_true]
          exact fun member hmem => decide_eq_true (hnames member hmem)
        have hplain := benchmarkResultFields_plain
        have hnulls (verdict : Verdict) : hasNulls members verdict =
            if verdict = .accepted then isNull e else isNull (refill array d) && isNull m := by
          rw [hasNulls, lastMember?_eq (hplain _ (by decide)),
            lastMember?_eq (hplain _ (by decide)), lastMember?_eq (hplain _ (by decide)), hd, hm,
            he, isNull_refill]
          rfl
        simp only [strictResult, hall, hfilled, hm, he, decodedMembers, slice?_elements, hnulls,
          guard, if_true, Option.bind_eq_bind, Option.pure_def, Option.bind_some, Bool.not_true,
          Bool.false_eq_true, if_false]
        cases hv : settled? members "verdict" with
        | none =>
          have hempty : Verdict.ofName? "" = none := by decide
          simp [hempty]
        | some v =>
          obtain ⟨hmem, hnull⟩ := mem_of_settled? hv
          have hvtype := htype _ _ hmem
          rw [hasFieldType, if_neg (hne _ (by decide))] at hvtype
          cases v with
          | bool | number | array | object => cases hvtype
          | null => cases hnull
          | string s =>
            simp only [Option.elim_some, text, ofName?_goString, Option.bind_some]
            cases hverdict : verdictSchema (.string s) with
            | none => simp
            | some verdict =>
              have hdecoded := verdictResult_decoded verdict hfilledType hmtype hetype
              rw [Option.bind_some, Option.bind_some, hdecoded]
              generalize validateBenchmarkResult _ = valid
              generalize (if verdict = .accepted then isNull e
                else isNull (refill array d) && isNull m) = nulls
              cases valid <;> cases nulls <;> rfl

/-- No result has a null among its durations. -/
theorem verdictResult_hasNullElement (h : hasNullElement durationsNs = true)
    (medianNs error : RawMessage) (verdict : Verdict) :
    verdictResult durationsNs medianNs error verdict = none := by
  cases durationsNs with
  | null | bool | number | string | object => cases h
  | array elements =>
    obtain ⟨element, hmem, hnull⟩ := List.any_eq_true.mp h
    have hmapM : elements.mapM nanosecondsSchema = none := by
      induction elements with
      | nil => cases hmem
      | cons first elements ih =>
        rw [List.mapM_cons]
        rcases List.mem_cons.mp hmem with rfl | hmem
        · cases element with
          | bool | number | string | array | object => cases hnull
          | null => rfl
        · have hnone := ih (List.any_eq_true.mpr ⟨element, hmem, hnull⟩) hmem
          rw [hnone]
          cases nanosecondsSchema first <;> rfl
    rw [verdictResult, durationsSchema, hmapM]
    cases decide (verdict = .accepted) <;> simp [isNull]

/-- The schema refuses a result whose last verdict, or one of whose last durations, is null. -/
theorem benchmarkResultSchema_eq (value : RawMessage) :
    benchmarkResultSchema value = if keepsNull value then none else looseResult value := by
  cases value with
  | null | bool | number | string | array => rfl
  | object members =>
    rw [benchmarkResultSchema, keepsNull, looseResult]
    cases hnull : (property? members "verdict").any isNull with
    | true =>
      obtain ⟨v, hv, hvnull⟩ := (Option.any_eq_true ..).mp hnull
      cases v with
      | bool | number | string | array | object => cases hvnull
      | null => simp [strictResult, hv, verdictSchema]
    | false =>
      rw [settled?_eq hnull, Bool.false_or]
      rcases refilled_value members with ⟨hnone, hnone'⟩ | ⟨array, d, hfilled, hd⟩
      · rw [hnone, hnone']
        rfl
      rw [hfilled, hd, Option.any_some]
      cases hdurations : hasNullElement d with
      | false => rw [refill_eq hdurations, if_neg Bool.false_ne_true]
      | true =>
        rw [if_pos rfl]
        simp [strictResult, verdictResult_hasNullElement hdurations]

theorem decodePrivateResult_eq (value : RawMessage) : decodePrivateResult value =
    if illTyped value then none
    else (privateSchema looseResult value).map (·.map BenchmarkResult.decoded) := by
  rw [decodePrivateResult, privateSchema, decodeBenchmarkResult_eq]
  cases value with
  | null => rfl
  | bool | number | string | array => rfl
  | object members =>
    have hnot : isNull (.object members) = false := rfl
    rw [hnot, if_neg Bool.false_ne_true, if_neg Bool.false_ne_true]
    cases illTyped (.object members) <;> cases looseResult (.object members) <;> rfl

theorem privateSchema_eq (value : RawMessage) : privateSchema benchmarkResultSchema value =
    if keepsNull value then none else privateSchema looseResult value := by
  rw [privateSchema, privateSchema, benchmarkResultSchema_eq]
  cases value with
  | null => rfl
  | bool | number | string | array => rfl
  | object members =>
    have hnot : isNull (.object members) = false := rfl
    rw [hnot, if_neg Bool.false_ne_true, if_neg Bool.false_ne_true]
    cases keepsNull (.object members) <;> rfl

end Results

section Runner
variable {members : List Member}

/-- No name is that of two fields. -/
theorem namesField_disjoint {name a b : String} (ha : namesField name a = true)
    (hne : a.toList.map foldRune ≠ b.toList.map foldRune) : namesField name b = false := by
  rw [namesField, decide_eq_true_eq] at ha
  rw [namesField, decide_eq_false_iff_not, ha]
  exact hne

@[simp] theorem field?_append (counts : RawMessage → Bool) (members : List Member)
    (member : Member) (field : String) : field? counts (members ++ [member]) field =
      if namesField (goString member.1) field && counts member.2 then some member.2
      else field? counts members field := by
  unfold field?
  rw [List.reverse_append, List.reverse_singleton, List.singleton_append, List.find?_cons]
  split
  · next h => rw [if_pos h]; rfl
  · next h => rw [if_neg (by rw [h]; exact Bool.false_ne_true)]

theorem of_field? {counts : RawMessage → Bool} {field : String} {value : RawMessage}
    (h : field? counts members field = some value) :
    (∃ member ∈ members, namesField (goString member.1) field = true ∧ member.2 = value) ∧
      counts value = true := by
  obtain ⟨member, hfind, rfl⟩ := Option.map_eq_some_iff.mp h
  have hfound := List.find?_some hfind
  rw [Bool.and_eq_true] at hfound
  exact ⟨⟨member, List.mem_reverse.mp (List.mem_of_find?_eq_some hfind), hfound.1, rfl⟩, hfound.2⟩

/-- What the first decoding has left of the members. -/
def rawMembers (members : List Member) : RawResult :=
  ⟨field? (fun _ => true) members "public", field? (fun _ => true) members "private",
    (field? (!isNull ·) members "environmentId").elim "" text⟩

theorem decodeRawMember_eq (member : Member) :
    decodeRawMember (rawMembers members) member =
      if isField member then
        if isIllTypedEnvironment member then none else some (rawMembers (members ++ [member]))
      else none := by
  rw [decodeRawMember, rawMembers, rawMembers, isField, isIllTypedEnvironment]
  simp only [field?_append, runnerJobResultFields, List.any_cons, List.any_nil, Bool.and_true]
  generalize goString member.1 = name
  cases hpublic : namesField name "public" with
  | true =>
    have hprivate := namesField_disjoint (b := "private") hpublic (by decide)
    have henvironment := namesField_disjoint (b := "environmentId") hpublic (by decide)
    simp [hprivate, henvironment]
  | false =>
    cases hprivate : namesField name "private" with
    | true =>
      have henvironment := namesField_disjoint (b := "environmentId") hprivate (by decide)
      simp [henvironment]
    | false =>
      cases henvironment : namesField name "environmentId" with
      | false => simp
      | true =>
        rw [decodeString_eq]
        cases isText member.2 with
        | false => simp
        | true => cases isNull member.2 <;> simp

theorem foldlM_decodeRawMember : members.foldlM decodeRawMember ⟨none, none, ""⟩ =
    if members.all isField then
      if members.any isIllTypedEnvironment then none else some (rawMembers members)
    else none := by
  induction members using List.reverseRecOn with
  | nil => rfl
  | append_singleton members member ih =>
    rw [List.foldlM_append, ih, List.all_append, List.any_append, List.all_cons, List.any_cons]
    cases members.all isField with
    | false => rfl
    | true =>
      cases members.any isIllTypedEnvironment with
      | true => cases isField member <;> rfl
      | false =>
        rw [if_pos rfl, if_neg Bool.false_ne_true, Option.bind_eq_bind, Option.bind_some,
          List.foldlM_cons, decodeRawMember_eq member]
        cases isField member with
        | false => rfl
        | true => cases isIllTypedEnvironment member <;> rfl

theorem isEmpty_goString (s : JsString) : goString s = "" ↔ s.isEmpty = true := by
  rw [← isEmpty_decode, List.isEmpty_iff, goString, ← String.toList_inj, String.toList_ofList]
  rfl

/-- The decoder accepts what the loose schema does when every type is right. -/
theorem decodeRunnerResult_eq (content : RawMessage) : decodeRunnerResult content =
    if hasIllTyped content then none
    else (looseRunnerResult content).map RunnerJobResult.decoded := by
  cases content with
  | null | bool | number | string | array => rfl
  | object members =>
    rw [decodeRunnerResult, decodeRaw, foldlM_decodeRawMember, hasIllTyped, looseRunnerResult]
    cases members.all isField with
    | false => exact (ite_self _).symm
    | true =>
      cases hill : members.any isIllTypedEnvironment with
      | true => rfl
      | false =>
        simp only [if_true, Bool.false_eq_true, if_false, Option.bind_eq_bind, Option.bind_some,
          rawMembers, guard, Option.pure_def, Bool.false_or]
        cases field? (fun _ => true) members "public" with
        | none => simp
        | some publicValue =>
          cases field? (fun _ => true) members "private" with
          | none => simp
          | some privateValue =>
            simp only [Option.bind_some, Option.any_some]
            cases henvironment : field? (!isNull ·) members "environmentId" with
            | none => simp
            | some environmentValue =>
              obtain ⟨⟨member, hmember, hname, rfl⟩, hnull⟩ := of_field? henvironment
              have htext : isText member.2 = true := by
                have hwell := List.any_eq_false.mp hill member hmember
                rw [isIllTypedEnvironment, hname] at hwell
                simpa using hwell
              cases hvalue : member.2 with
              | null => rw [hvalue] at hnull; cases hnull
              | bool | number | array | object => rw [hvalue] at htext; cases htext
              | string s =>
                simp only [Option.elim_some, text, environmentIdSchema, Option.bind_some, ne_eq,
                  isEmpty_goString, decodeBenchmarkResult_eq, decodePrivateResult_eq]
                cases s.isEmpty with
                | true => simp
                | false =>
                  cases illTyped publicValue <;> cases illTyped privateValue <;>
                    cases looseResult publicValue <;>
                    cases privateSchema looseResult privateValue <;>
                    simp [RunnerJobResult.decoded]

/-- With exact names, a field is a property. -/
theorem field?_exact (h : ∀ member ∈ members, member.1 ∈ runnerJobResultFields.map units)
    {field : String} (hfield : field ∈ runnerJobResultFields) (counts : RawMessage → Bool) :
    field? counts members field =
      (members.reverse.find? fun member =>
        member.1 = units field && counts member.2).map (·.2) := by
  unfold field?
  rw [find?_last]
  intro member hmember
  obtain ⟨name, hname, heq⟩ := List.mem_map.mp (h member hmember)
  have hself : ∀ a ∈ runnerJobResultFields, ∀ b ∈ runnerJobResultFields,
      namesField a b = decide (a = b) := by decide
  rw [← heq, goString_units, hself name hname field hfield]
  simp only [units_inj]

/-- The schema accepts what the loose one does when nothing was read loosely. -/
theorem runnerJobResultSchema_eq (content : RawMessage) : runnerJobResultSchema content =
    if needsLoose content then none else looseRunnerResult content := by
  cases content with
  | null | bool | number | string | array => rfl
  | object members =>
    rw [runnerJobResultSchema, needsLoose, looseRunnerResult]
    cases hrecased : members.any isRecased with
    | true =>
      have hall : ¬ (members.all fun member => member.1 ∈ runnerJobResultFields.map units) =
          true := by
        obtain ⟨member, hmember, hne⟩ := List.any_eq_true.mp hrecased
        rw [List.all_eq_true]
        intro hall
        exact of_decide_eq_true hne (of_decide_eq_true (hall member hmember))
      rw [guard, if_neg hall]
      rfl
    | false =>
      have hexact : ∀ member ∈ members, member.1 ∈ runnerJobResultFields.map units := by
        intro member hmember
        simpa [isRecased] using List.any_eq_false.mp hrecased member hmember
      have hall : (members.all fun member => member.1 ∈ runnerJobResultFields.map units) =
          true := List.all_eq_true.mpr fun member hmember => decide_eq_true (hexact member hmember)
      have hnamed : members.all isField = true := by
        rw [List.all_eq_true]
        intro member hmember
        obtain ⟨name, hname, heq⟩ := List.mem_map.mp (hexact member hmember)
        rw [isField, ← heq, goString_units]
        exact List.any_eq_true.mpr ⟨name, hname, decide_eq_true rfl⟩
      have hfield (field : String) (hmem : field ∈ runnerJobResultFields) :
          field? (fun _ => true) members field = property? members field := by
        rw [field?_exact hexact hmem]
        simp only [Bool.and_true]
        rfl
      have hsettled : field? (!isNull ·) members "environmentId" =
          settled? members "environmentId" := field?_exact hexact (by decide) _
      rw [hall, hnamed, hfield _ (by decide), hfield _ (by decide), hfield _ (by decide), hsettled]
      simp only [Bool.false_or, guard, if_true, Option.bind_eq_bind, Option.pure_def,
        Option.bind_some, benchmarkResultSchema_eq, privateSchema_eq]
      cases property? members "public" with
      | none => simp
      | some publicValue =>
        cases property? members "private" with
        | none => simp
        | some privateValue =>
          cases hnull : (property? members "environmentId").any isNull with
          | true =>
            obtain ⟨value, hvalue, hvaluenull⟩ := (Option.any_eq_true ..).mp hnull
            cases value with
            | bool | number | string | array | object => cases hvaluenull
            | null => simp [hvalue, environmentIdSchema]
          | false =>
            rw [settled?_eq hnull]
            cases property? members "environmentId" with
            | none => simp
            | some value =>
              simp only [Option.bind_some]
              cases environmentIdSchema value with
              | none => simp
              | some environmentId =>
                by_cases hpublic : keepsNull publicValue = true <;>
                  by_cases hprivate : keepsNull privateValue = true <;>
                  cases looseResult publicValue <;> simp [hpublic, hprivate]

end Runner

section Language

theorem paired_iff {s : JsString} : Paired s ↔ units (goString s) = s := by
  rw [Paired, units, goString, String.toList_ofList]

theorem ofDecodedResult_decoded (result : BenchmarkResult) :
    ofDecodedResult result.decoded = result ↔ result.Paired := by
  obtain ⟨verdict, durationsNs, medianNs, error⟩ := result
  have hdurations : ((durationsNs.map (·.map goString)).map (·.map units) = durationsNs) ↔
      ∀ durations, durationsNs = some durations → ∀ s ∈ durations, Paired s := by
    cases durationsNs with
    | none => simp
    | some durations =>
      simp only [Option.map_some, Option.some.injEq, forall_eq', List.map_map, paired_iff]
      rw [← List.map_inj_left, List.map_id']
      rfl
  have htext (o : Option JsString) : ((o.map goString).map units = o) ↔
      ∀ s, o = some s → Paired s := by
    cases o with
    | none => simp
    | some s => simp [paired_iff]
  simp only [ofDecodedResult, BenchmarkResult.decoded, BenchmarkResult.mk.injEq, true_and,
    hdurations, htext]
  exact ⟨fun ⟨h₁, h₂, h₃⟩ => ⟨h₁, h₂, h₃⟩, fun h => ⟨h.durationsNs, h.medianNs, h.error⟩⟩

theorem ofDecoded_decoded (result : RunnerJobResult) :
    ofDecoded result.decoded = result ↔ result.Paired := by
  obtain ⟨publicResult, privateResult, environmentId⟩ := result
  have hprivate : ((privateResult.map BenchmarkResult.decoded).map ofDecodedResult =
      privateResult) ↔ ∀ p, privateResult = some p → p.Paired := by
    cases privateResult with
    | none => simp
    | some p => simp [ofDecodedResult_decoded]
  simp only [ofDecoded, RunnerJobResult.decoded, RunnerJobResult.mk.injEq,
    ofDecodedResult_decoded, hprivate, ← paired_iff]
  exact ⟨fun ⟨h₁, h₂, h₃⟩ => ⟨h₁, h₂, h₃⟩, fun h => ⟨h.publicResult, h.privateResult,
    h.environmentId⟩⟩

/-- A text of the runner with a name for the public result, and with what its durations are. -/
def resultText (name : String) (durations : List Member) : RawMessage :=
  .object [(units name, .object ([(units "verdict", .string (units "accepted"))] ++ durations ++
      [(units "medianNs", .string (units "1")), (units "error", .null)])),
    (units "private", .null), (units "environmentId", .string (units "environment"))]

/-- Another spelling of `public`. -/
def recasedText : RawMessage :=
  resultText "Public" [(units "durationsNs", .array [.string (units "1")])]

/-- The durations are repeated with a null. -/
def repeatedText : RawMessage :=
  resultText "public" [(units "durationsNs", .array [.string (units "1")]),
    (units "durationsNs", .array [.null])]

end Language
end OneBrc.Shared
