import Mathlib.Data.List.Dedup
import Mathlib.Data.List.ProdSigma
import Mathlib.Algebra.Order.BigOperators.Group.List
import OneBrc.Lib.CivilTime
import OneBrc.Lib.Lines
import OneBrc.Lib.Swar
import OneBrc.Lib.Utf8

/-! The input of the analyzers, rows of posts, and the report on them: one line for each channel
and month. -/
namespace OneBrc.Analyzer
open Lib

def newline : UInt8 := 10
def carriageReturn : UInt8 := 13
def comma : UInt8 := 44
def slash : UInt8 := 47
def equals : UInt8 := 61
def quote : UInt8 := 34

structure Row where
  timestamp : ℕ
  path : Bytes
  messageLength : ℕ
  stampCount : ℕ
  deriving DecidableEq

def header : Bytes :=
  Utf8.encodeAscii "unix_timestamp,channel_path,message_length,stamp_count".toList

/-- A row with canonical decimals, ended by LF. -/
def Row.line (r : Row) : Bytes :=
  Decimal.encode r.timestamp ++ comma :: (r.path ++ comma :: (Decimal.encode r.messageLength ++
    comma :: (Decimal.encode r.stampCount ++ [newline])))

def csv (rows : List Row) : Bytes := (header ++ [newline]) ++ (rows.map Row.line).flatten

/-- The month of a time in UTC, from January. -/
def utcMonth (timestamp : ℕ) : Fin 12 :=
  ⟨(CivilTime.civilFromDays (timestamp / 86400)).month - 1, by
    have h := CivilTime.civilFromDays_bounds (timestamp / 86400)
    omega⟩

def In2027 (timestamp : ℕ) : Prop := (CivilTime.civilFromDays (timestamp / 86400)).year = 2027

instance (timestamp : ℕ) : Decidable (In2027 timestamp) := by
  unfold In2027
  infer_instance

def monthLabels : List Bytes := ["2027-01", "2027-02", "2027-03", "2027-04", "2027-05", "2027-06",
  "2027-07", "2027-08", "2027-09", "2027-10", "2027-11", "2027-12"].map
    fun label => Utf8.encodeAscii label.toList

def monthStartUnix : List ℕ := [1798761600, 1801440000, 1803859200, 1806537600, 1809129600,
  1811808000, 1814400000, 1817078400, 1819756800, 1822348800, 1825027200, 1827619200, 1830297600]

def monthLabel (month : Fin 12) : Bytes :=
  monthLabels.get ⟨month.val, by simp [monthLabels]⟩

/-- The days of the year 2027. -/
theorem day_of_in2027 {timestamp : ℕ} (h : In2027 timestamp) :
    20819 ≤ timestamp / 86400 ∧ timestamp / 86400 < 20819 + 365 := by
  have hdays := CivilTime.daysFromCivil_civilFromDays (timestamp / 86400)
  obtain ⟨-, -, hlow, hhigh⟩ := CivilTime.civilFromDays_bounds (timestamp / 86400)
  have hmonth (month : ℕ) : 0 ≤ CivilTime.daysBeforeMonth (CivilTime.isLeapYear 2027) month ∧
      CivilTime.daysBeforeMonth (CivilTime.isLeapYear 2027) month ≤ 334 := by
    rw [show CivilTime.isLeapYear 2027 = false by decide]
    unfold CivilTime.daysBeforeMonth
    split <;> decide
  have hyear : CivilTime.dayFromYear 2027 = 20819 := by decide
  unfold CivilTime.daysFromCivil at hdays
  unfold In2027 at h
  rw [h, show ((2027 : ℕ) : ℤ) = 2027 by rfl, hyear] at hdays
  have hbounds := hmonth (CivilTime.civilFromDays (timestamp / 86400)).month
  omega

def Row.month (r : Row) : Fin 12 := utcMonth r.timestamp

/-- The rows of a channel in a month. -/
def group (rows : List Row) (path : Bytes) (month : Fin 12) : List Row :=
  rows.filter fun r => decide (r.path = path ∧ r.month = month)

def least (ns : List ℕ) : ℕ := ns.min?.getD 0

def greatest (ns : List ℕ) : ℕ := ns.foldl max 0

def lengths (g : List Row) : List ℕ := g.map Row.messageLength

def stamps (g : List Row) : List ℕ := g.map Row.stampCount

/-- A path of one to five levels of up to 20 ASCII characters. -/
def IsChannelPath (path : Bytes) : Prop :=
  ∃ levels : List Bytes, path = List.intercalate [slash] levels ∧ 1 ≤ levels.length ∧
    levels.length ≤ 5 ∧ ∀ level ∈ levels, 1 ≤ level.length ∧ level.length ≤ 20 ∧
      ∀ b ∈ level, b < 128 ∧ b ≠ comma ∧ b ≠ slash ∧ b ≠ newline

/-- What the contest guarantees about its input. -/
structure IsContract (rows : List Row) : Prop where
  in2027 : ∀ r ∈ rows, In2027 r.timestamp
  path : ∀ r ∈ rows, IsChannelPath r.path
  channels : (rows.map Row.path).dedup.length ≤ 10000
  messageLength_pos : ∀ r ∈ rows, 1 ≤ r.messageLength
  messages_lt : ∀ path month, (group rows path month).length < 2 ^ 32
  total_lt : ∀ path month, (lengths (group rows path month)).sum < 2 ^ 32
  stamps_lt : ∀ path month, (stamps (group rows path month)).sum < 2 ^ 32

/-- A line of an output: the channel, the month and the printed figures. -/
def recordLine (path : Bytes) (month : Fin 12) (least mean greatest messages stamps : Bytes) :
    Bytes :=
  path ++ comma :: (monthLabel month ++ equals :: (least ++ slash :: (mean ++ slash ::
    (greatest ++ slash :: (messages ++ slash :: (stamps ++ [newline]))))))

/-- The record of a group, when `mean` prints the average of a total and a count. -/
def reportLine (mean : ℤ → ℤ → Bytes) (path : Bytes) (month : Fin 12) (g : List Row) : Bytes :=
  recordLine path month (Decimal.encode (least (lengths g)))
    (mean (lengths g).sum g.length) (Decimal.encode (greatest (lengths g)))
    (Decimal.encode g.length) (Decimal.encode (stamps g).sum)

/-- A mean with two decimals of numbers whose average is whole. -/
def wholeMean (total count : ℤ) : Bytes := Decimal.encodeInt (total / count) ++ [46, 48, 48]

/-- An output with a line for each group that occurs, each once. -/
structure IsReport (line : Bytes → Fin 12 → List Row → Bytes) (rows : List Row)
    (lines : List Bytes) : Prop where
  nodup : lines.Nodup
  mem : ∀ l, l ∈ lines ↔ ∃ path month, group rows path month ≠ [] ∧
    l = line path month (group rows path month)

/-- Two reports on the same rows have the same records. -/
theorem IsReport.perm {line : Bytes → Fin 12 → List Row → Bytes} {rows : List Row}
    {lines lines' : List Bytes} (h : IsReport line rows lines) (h' : IsReport line rows lines') :
    lines.Perm lines' := by
  rw [List.perm_ext_iff_of_nodup h.nodup h'.nodup]
  intro l
  rw [h.mem, h'.mem]

section Extrema

theorem least_append {ns ms : List ℕ} (hns : ns ≠ []) (hms : ms ≠ []) :
    least (ns ++ ms) = min (least ns) (least ms) := by
  obtain ⟨n, ns, rfl⟩ := List.exists_cons_of_ne_nil hns
  obtain ⟨m, ms, rfl⟩ := List.exists_cons_of_ne_nil hms
  simp only [least, List.cons_append, List.min?_cons', Option.getD_some, List.foldl_append,
    List.foldl_cons]
  exact List.foldl_assoc

theorem least_mem {ns : List ℕ} (h : ns ≠ []) : least ns ∈ ns := by
  obtain ⟨n, hn⟩ := Option.isSome_iff_exists.mp (List.isSome_min?_of_ne_nil h)
  rw [least, hn, Option.getD_some]
  exact List.min?_mem hn

@[simp] theorem least_singleton (n : ℕ) : least [n] = n := rfl

@[simp] theorem greatest_singleton (n : ℕ) : greatest [n] = n := Nat.zero_max n

theorem greatest_append (ns ms : List ℕ) :
    greatest (ns ++ ms) = max (greatest ns) (greatest ms) := by
  rw [greatest, List.foldl_append]
  have hfold : ms.foldl max (max (ns.foldl max 0) 0) = max (ns.foldl max 0) (ms.foldl max 0) :=
    List.foldl_assoc
  rwa [Nat.max_zero] at hfold

theorem le_greatest {ns : List ℕ} {n : ℕ} (h : n ∈ ns) : n ≤ greatest ns := by
  obtain ⟨as, bs, rfl⟩ := List.append_of_mem h
  rw [greatest_append, greatest, greatest, List.foldl_cons]
  have hb := greatest_append [n] bs
  rw [greatest, greatest, greatest, List.singleton_append, List.foldl_cons] at hb
  rw [hb]
  simp

theorem greatest_le {ns : List ℕ} {bound : ℕ} (h : ∀ n ∈ ns, n ≤ bound) : greatest ns ≤ bound := by
  induction ns with
  | nil => exact Nat.zero_le bound
  | cons n ns ih =>
    rw [← List.singleton_append, greatest_append]
    apply max_le
    · simpa [greatest] using h n List.mem_cons_self
    · exact ih fun m hm => h m (List.mem_cons_of_mem _ hm)

theorem greatest_le_sum (ns : List ℕ) : greatest ns ≤ ns.sum :=
  greatest_le fun _ hn => List.le_sum_of_mem hn

theorem least_le_sum {ns : List ℕ} (h : ns ≠ []) : least ns ≤ ns.sum :=
  List.le_sum_of_mem (least_mem h)

end Extrema

/-- A report on the same rows where the lines of all groups that occur are the same. -/
theorem IsReport.congr {line line' : Bytes → Fin 12 → List Row → Bytes} {rows : List Row}
    {lines : List Bytes} (h : IsReport line rows lines)
    (heq : ∀ path month, group rows path month ≠ [] →
      line path month (group rows path month) = line' path month (group rows path month)) :
    IsReport line' rows lines := by
  refine ⟨h.nodup, fun l => ?_⟩
  rw [h.mem]
  apply exists_congr
  intro path
  apply exists_congr
  intro month
  apply and_congr_right
  intro hne
  rw [heq path month hne]

section Group
variable {rows rows' : List Row} {path : Bytes} {month : Fin 12} {r : Row}

@[simp] theorem group_nil : group [] path month = [] := rfl

theorem group_append : group (rows ++ rows') path month =
    group rows path month ++ group rows' path month := List.filter_append _ _

theorem group_concat_self : group (rows ++ [r]) r.path r.month =
    group rows r.path r.month ++ [r] := by
  rw [group_append]
  simp [group]

theorem group_concat_of_ne (h : ¬ (r.path = path ∧ r.month = month)) :
    group (rows ++ [r]) path month = group rows path month := by
  rw [group_append]
  simp [group, h]

theorem mem_group : r ∈ group rows path month ↔ r ∈ rows ∧ r.path = path ∧ r.month = month := by
  simp [group]

theorem group_eq_nil_of_forall_ne (h : ∀ r ∈ rows, r.path ≠ path) : group rows path month = [] := by
  apply List.filter_eq_nil_iff.mpr
  intro r hr
  simp [h r hr]

theorem length_group_le (h : rows.Sublist rows') :
    (group rows path month).length ≤ (group rows' path month).length :=
  (h.filter _).length_le

end Group

section RecordLine

theorem append_cons_inj {α : Type} {a : α} {xs ys xs' ys' : List α} (hx : a ∉ xs) (hy : a ∉ ys)
    (h : xs ++ a :: xs' = ys ++ a :: ys') : xs = ys ∧ xs' = ys' := by
  induction xs generalizing ys with
  | nil =>
    cases ys with
    | nil => exact ⟨rfl, (List.cons.inj h).2⟩
    | cons y ys => exact absurd (List.mem_cons.mpr (.inl (List.cons.inj h).1)) hy
  | cons x xs ih =>
    cases ys with
    | nil => exact absurd (List.mem_cons.mpr (.inl (List.cons.inj h).1.symm)) hx
    | cons y ys =>
      obtain ⟨hxy, hrest⟩ := List.cons.inj h
      obtain ⟨hxs, hxs'⟩ := ih (fun hmem => hx (List.mem_cons_of_mem _ hmem))
        (fun hmem => hy (List.mem_cons_of_mem _ hmem)) hrest
      exact ⟨by rw [hxy, hxs], hxs'⟩

theorem length_monthLabel (month : Fin 12) : (monthLabel month).length = 7 := by
  revert month
  decide

theorem monthLabel_injective {month month' : Fin 12} (h : monthLabel month = monthLabel month') :
    month = month' := by
  revert month month'
  decide

/-- The channel and the month can be read from a line. -/
theorem recordLine_inj {path path' : Bytes} {month month' : Fin 12}
    {least mean greatest messages stamps least' mean' greatest' messages' stamps' : Bytes}
    (hpath : comma ∉ path) (hpath' : comma ∉ path')
    (h : recordLine path month least mean greatest messages stamps =
      recordLine path' month' least' mean' greatest' messages' stamps') :
    path = path' ∧ month = month' := by
  obtain ⟨rfl, hrest⟩ := append_cons_inj hpath hpath' h
  have hlabel := List.append_inj_left hrest
    ((length_monthLabel month).trans (length_monthLabel month').symm)
  exact ⟨rfl, monthLabel_injective hlabel⟩

/-- Different channels and months have different lines. -/
def Distinguishes (line : Bytes → Fin 12 → List Row → Bytes) (rows : List Row) : Prop :=
  ∀ path month path' month', group rows path month ≠ [] → group rows path' month' ≠ [] →
    line path month (group rows path month) = line path' month' (group rows path' month') →
    path = path' ∧ month = month'

theorem distinguishes_recordLine {rows : List Row}
    {line : Bytes → Fin 12 → List Row → Bytes}
    {least mean greatest messages stamps : List Row → Bytes}
    (hline : ∀ path month g, line path month g = recordLine path month (least g) (mean g)
      (greatest g) (messages g) (stamps g)) (hcomma : ∀ r ∈ rows, comma ∉ r.path) :
    Distinguishes line rows := by
  intro path month path' month' hne hne' heq
  obtain ⟨r, hr⟩ := List.exists_mem_of_ne_nil _ hne
  obtain ⟨r', hr'⟩ := List.exists_mem_of_ne_nil _ hne'
  obtain ⟨hmem, rfl, -⟩ := mem_group.mp hr
  obtain ⟨hmem', rfl, -⟩ := mem_group.mp hr'
  rw [hline, hline] at heq
  exact recordLine_inj (hcomma r hmem) (hcomma r' hmem') heq

/-- The extrema can be read from lines with the same mean. -/
theorem recordLine_extrema {path mean messages stamps messages' stamps' : Bytes} {month : Fin 12}
    {least least' greatest greatest' : ℕ}
    (h : recordLine path month (Decimal.encode least) mean (Decimal.encode greatest) messages
      stamps = recordLine path month (Decimal.encode least') mean (Decimal.encode greatest')
        messages' stamps') : least = least' ∧ greatest = greatest' := by
  have hslash (n : ℕ) : slash ∉ Decimal.encode n := Decimal.notMem_encode (by decide)
  simp only [recordLine, List.append_cancel_left_eq, List.cons.injEq, true_and] at h
  obtain ⟨hleast, hrest⟩ := append_cons_inj (hslash least) (hslash least') h
  have hrest' := (List.append_cancel_left_eq _ _ _).mp hrest
  obtain ⟨hgreatest, -⟩ :=
    append_cons_inj (hslash greatest) (hslash greatest') (List.cons.inj hrest').2
  exact ⟨Decimal.encode_injective hleast, Decimal.encode_injective hgreatest⟩

end RecordLine

section Contract
variable {rows : List Row} {path : Bytes} {r : Row}

theorem length_intercalate_le {levels : List Bytes} {n : ℕ} (hne : levels ≠ [])
    (h : ∀ level ∈ levels, level.length ≤ n) :
    (List.intercalate [slash] levels).length + 1 ≤ levels.length * (n + 1) := by
  induction levels with
  | nil => exact absurd rfl hne
  | cons level levels ih =>
    have hlevel := h level List.mem_cons_self
    cases levels with
    | nil => simpa [List.intercalate] using hlevel
    | cons level' levels =>
      have htail := ih (List.cons_ne_nil _ _) fun l hl => h l (List.mem_cons_of_mem _ hl)
      have hsplit : List.intercalate [slash] (level :: level' :: levels) =
          level ++ slash :: List.intercalate [slash] (level' :: levels) := by
        simp [List.intercalate]
      rw [hsplit, List.length_append, List.length_cons, List.length_cons, Nat.succ_mul]
      rw [List.length_cons] at htail ⊢
      omega

theorem mem_intercalate {levels : List Bytes} {b : UInt8}
    (h : b ∈ List.intercalate [slash] levels) : b = slash ∨ ∃ level ∈ levels, b ∈ level := by
  induction levels with
  | nil => cases h
  | cons level levels ih =>
    cases levels with
    | nil =>
      rw [show List.intercalate [slash] [level] = level by simp [List.intercalate]] at h
      exact .inr ⟨level, List.mem_cons_self, h⟩
    | cons level' levels =>
      have hsplit : List.intercalate [slash] (level :: level' :: levels) =
          level ++ slash :: List.intercalate [slash] (level' :: levels) := by
        simp [List.intercalate]
      rw [hsplit, List.mem_append, List.mem_cons] at h
      rcases h with h | h | h
      · exact .inr ⟨level, List.mem_cons_self, h⟩
      · exact .inl h
      · rcases ih h with hslash | ⟨l, hl, hb⟩
        · exact .inl hslash
        · exact .inr ⟨l, List.mem_cons_of_mem _ hl, hb⟩

/-- A path has up to 104 ASCII characters. -/
theorem IsChannelPath.length_le (h : IsChannelPath path) : path.length ≤ 104 := by
  obtain ⟨levels, rfl, hpos, hle, hlevels⟩ := h
  have hbound := length_intercalate_le (List.ne_nil_of_length_pos hpos)
    fun level hl => (hlevels level hl).2.1
  omega

theorem IsChannelPath.byte (h : IsChannelPath path) :
    ∀ b ∈ path, b < 128 ∧ b ≠ comma ∧ b ≠ newline := by
  obtain ⟨levels, rfl, -, -, hlevels⟩ := h
  intro b hb
  rcases mem_intercalate hb with rfl | ⟨level, hl, hb⟩
  · decide
  · obtain ⟨hascii, hcomma, -, hnewline⟩ := (hlevels level hl).2.2 b hb
    exact ⟨hascii, hcomma, hnewline⟩

theorem IsChannelPath.ne_nil (h : IsChannelPath path) : path ≠ [] := by
  obtain ⟨levels, rfl, hpos, -, hlevels⟩ := h
  obtain ⟨level, levels, rfl⟩ := List.exists_cons_of_ne_nil (List.ne_nil_of_length_pos hpos)
  obtain ⟨b, bs, rfl⟩ := List.exists_cons_of_ne_nil
    (List.ne_nil_of_length_pos (hlevels level List.mem_cons_self).1)
  cases levels <;> simp [List.intercalate]

/-- A list whose values are among the keys, each of which few elements have. -/
theorem length_le_of_filter {α κ : Type} [DecidableEq κ] (f : α → κ) {keys : List κ} {c : ℕ}
    {l : List α} (hkeys : ∀ a ∈ l, f a ∈ keys)
    (hc : ∀ k, (l.filter fun a => decide (f a = k)).length ≤ c) : l.length ≤ keys.length * c := by
  induction keys generalizing l with
  | nil =>
    rw [List.eq_nil_iff_forall_not_mem.mpr fun a ha => List.not_mem_nil (hkeys a ha)]
    exact Nat.zero_le _
  | cons k keys ih =>
    have hsplit := List.length_eq_length_filter_add (l := l) fun a => decide (f a = k)
    have hrest : (l.filter fun a => !decide (f a = k)).length ≤ keys.length * c := by
      apply ih
      · intro a ha
        obtain ⟨hmem, hne⟩ := List.mem_filter.mp ha
        rcases List.mem_cons.mp (hkeys a hmem) with heq | hin
        · simp [heq] at hne
        · exact hin
      · intro k'
        exact (List.filter_sublist.filter _).length_le.trans (hc k')
    have hk := hc k
    rw [List.length_cons, Nat.succ_mul]
    omega

namespace IsContract

/-- The numbers of a row are at most the totals of its group. -/
theorem number_lt (h : IsContract rows) (hr : r ∈ rows) :
    r.messageLength < 2 ^ 32 ∧ r.stampCount < 2 ^ 32 := by
  have hmem : r ∈ group rows r.path r.month := mem_group.mpr ⟨hr, rfl, rfl⟩
  have hlength : r.messageLength ≤ (lengths (group rows r.path r.month)).sum :=
    List.le_sum_of_mem (List.mem_map_of_mem hmem)
  have hstamps : r.stampCount ≤ (stamps (group rows r.path r.month)).sum :=
    List.le_sum_of_mem (List.mem_map_of_mem hmem)
  exact ⟨Nat.lt_of_le_of_lt hlength (h.total_lt _ _), Nat.lt_of_le_of_lt hstamps (h.stamps_lt _ _)⟩

theorem length_line_le (h : IsContract rows) (hr : r ∈ rows) : r.line.length ≤ 256 := by
  obtain ⟨hlength, hstamps⟩ := h.number_lt hr
  have hpath := (h.path r hr).length_le
  have hday := (day_of_in2027 (h.in2027 r hr)).2
  have hdigits {n : ℕ} (hn : n < 2 ^ 32) : (Decimal.encode n).length ≤ 10 :=
    (Decimal.length_encode_le_iff (by decide)).mpr (Nat.lt_trans hn (by decide))
  have h₁ := hdigits (show r.timestamp < 2 ^ 32 by omega)
  have h₂ := hdigits hlength
  have h₃ := hdigits hstamps
  simp only [Row.line, List.length_append, List.length_cons, List.length_nil]
  omega

theorem length_le (h : IsContract rows) : rows.length ≤ 2 ^ 49 := by
  have hle : rows.length ≤
      ((rows.map Row.path).dedup ×ˢ List.finRange 12).length * 2 ^ 32 := by
    apply length_le_of_filter fun r => (r.path, r.month)
    · intro r hr
      exact List.mem_product.mpr ⟨List.mem_dedup.mpr (List.mem_map_of_mem hr), List.mem_finRange _⟩
    · rintro ⟨path, month⟩
      simp only [Prod.mk.injEq]
      exact (h.messages_lt path month).le
  rw [List.length_product, List.length_finRange] at hle
  have hchannels := h.channels
  omega

/-- A file of the contest is far below 64 bits. -/
theorem length_csv_lt (h : IsContract rows) : (csv rows).length < 2 ^ 61 := by
  have hlines : ((rows.map Row.line).flatten).length ≤ rows.length * 256 := by
    rw [List.length_flatten, ← List.length_map (f := fun r : Row => r.line.length),
      List.map_map]
    exact List.sum_le_card_nsmul _ _ fun k hk => by
      obtain ⟨r, hr, rfl⟩ := List.mem_map.mp hk
      exact h.length_line_le hr
  have hrows := h.length_le
  have hheader : (header ++ [newline]).length = 55 := by decide
  rw [csv, List.length_append, hheader]
  omega

end IsContract

theorem length_csv_replicate (n : ℕ) (r : Row) :
    (csv (List.replicate n r)).length = 55 + n * r.line.length := by
  have hheader : (header ++ [newline]).length = 55 := by decide
  rw [csv, List.length_append, hheader, List.map_replicate, List.length_flatten,
    List.map_replicate, List.sum_replicate]
  rfl

theorem sum_lengths_group_le (path : Bytes) (month : Fin 12) :
    (lengths (group rows path month)).sum ≤ (lengths rows).sum := by
  have hsub : (lengths (group rows path month)).Sublist (lengths rows) := List.filter_sublist.map _
  exact hsub.sum_le_sum fun _ _ => Nat.zero_le _

theorem sum_stamps_group_le (path : Bytes) (month : Fin 12) :
    (stamps (group rows path month)).sum ≤ (stamps rows).sum := by
  have hsub : (stamps (group rows path month)).Sublist (stamps rows) := List.filter_sublist.map _
  exact hsub.sum_le_sum fun _ _ => Nat.zero_le _

/-- A file whose totals fit all together. -/
theorem isContract_of_totals (hchannels : (rows.map Row.path).dedup.length ≤ 10000)
    (hlength : rows.length < 2 ^ 32) (htotal : (lengths rows).sum < 2 ^ 32)
    (hstamps : (stamps rows).sum < 2 ^ 32)
    (h : ∀ r ∈ rows, In2027 r.timestamp ∧ IsChannelPath r.path ∧ 1 ≤ r.messageLength) :
    IsContract rows where
  in2027 r hr := (h r hr).1
  path r hr := (h r hr).2.1
  channels := hchannels
  messageLength_pos r hr := (h r hr).2.2
  messages_lt _ _ := Nat.lt_of_le_of_lt (List.length_filter_le _ _) hlength
  total_lt path month := Nat.lt_of_le_of_lt (sum_lengths_group_le path month) htotal
  stamps_lt path month := Nat.lt_of_le_of_lt (sum_stamps_group_le path month) hstamps

/-- A short file whose totals fit. -/
theorem isContract_of_short (hlength : rows.length ≤ 10000) (htotal : (lengths rows).sum < 2 ^ 32)
    (hstamps : (stamps rows).sum < 2 ^ 32)
    (h : ∀ r ∈ rows, In2027 r.timestamp ∧ IsChannelPath r.path ∧ 1 ≤ r.messageLength) :
    IsContract rows := by
  have hle := (List.dedup_sublist (rows.map Row.path)).length_le
  rw [List.length_map] at hle
  exact isContract_of_totals (by omega) (by omega) htotal hstamps h

end Contract
end OneBrc.Analyzer
