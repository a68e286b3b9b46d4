import OneBrc.Analyzer.BaselineCpp
import OneBrc.Analyzer.BaselineCReport
import OneBrc.Analyzer.BaselineCsharp
import OneBrc.Analyzer.BaselineRust
import OneBrc.Analyzer.BaselineZig

/-! The baselines whose numbers are machine integers, against each other: they write the same lines
where they write any. The means are printed by a parameter, which is the same for all of them. -/
namespace OneBrc.Analyzer.Baselines
open Lib
open BaselineCpp (InInt)
open BaselineZig (InBuffer)

section Csharp
variable {r : Row} {rows : List Row}

theorem parse_of_le {bits n : ℕ} (h : 2 ^ (bits - 1) ≤ n) :
    BaselineCsharp.parse bits (Decimal.encode n) = none := by
  have hdigit : ∀ b ∈ Decimal.encode n, Decimal.isDigit b = true :=
    fun b hb => Decimal.isDigit_of_mem_encode hb
  have hspace := Decimal.dropWhile_isSpace_encode n []
  rw [List.append_nil] at hspace
  have htake : (Decimal.encode n).takeWhile Decimal.isDigit = Decimal.encode n :=
    List.takeWhile_eq_self_iff.mpr hdigit
  have hrange : ¬ (-2 ^ (bits - 1) ≤ (n : ℤ) ∧ (n : ℤ) < 2 ^ (bits - 1)) := by
    rintro ⟨-, hlt⟩
    exact absurd h (Nat.not_le.mpr (by exact_mod_cast hlt))
  simp only [BaselineCsharp.parse, hspace, Decimal.sign_encode, htake, Decimal.value_encode,
    Bool.false_eq_true, if_false, if_neg hrange, ite_self]

/-- A row out of the range of `int` is refused. -/
theorem csharp_analyzeLine_error (hcomma : comma ∉ r.path) (hin2027 : In2027 r.timestamp)
    (hint : ¬ InInt r) (lineNumber : ℕ) (stats : StatsMap) :
    ∃ e, BaselineCsharp.analyzeLine lineNumber stats r.text = .error e := by
  obtain ⟨-, hhigh⟩ := day_of_in2027 hin2027
  have htimestamp : BaselineCsharp.parse 64 (Decimal.encode r.timestamp) =
      some (Int64.ofNat r.timestamp) := BaselineCsharp.parse_encode (by omega)
  have hmonth := monthLabelFromUnixTimestamp_of_in2027 hin2027
  have hcount : ∃ e, BaselineCsharp.countRecord stats (Decimal.encode r.timestamp) r.path
      (Decimal.encode r.messageLength) (Decimal.encode r.stampCount) = .error e := by
    simp only [BaselineCsharp.countRecord, resultKey, htimestamp, hmonth, orError, bind,
      Except.bind]
    by_cases hlength : r.messageLength < 2 ^ 31
    · have hstamps : 2 ^ 31 ≤ r.stampCount := Nat.not_lt.mp fun hlt => hint ⟨hlength, hlt⟩
      rw [BaselineCsharp.parse_encode hlength, parse_of_le hstamps]
      exact ⟨_, rfl⟩
    · rw [parse_of_le (Nat.not_lt.mp hlength)]
      exact ⟨_, rfl⟩
  obtain ⟨e, he⟩ := hcount
  refine ⟨.record lineNumber e, ?_⟩
  simp only [BaselineCsharp.analyzeLine, if_neg (text_ne_nil r), splitOn_text hcomma, Row.fields,
    he]

theorem csharp_analyze_error (h : ∀ r ∈ rows, r.Valid) (hcr : ∀ r ∈ rows, carriageReturn ∉ r.path)
    (hint : ¬ ∀ r ∈ rows, InInt r) : ∃ e, BaselineCsharp.analyze (csv rows) = .error e := by
  push Not at hint
  obtain ⟨r, hr, hrange⟩ := hint
  have hcolumns : ¬ (header.splitOn comma).length ≠ 4 := by decide
  rw [BaselineCsharp.analyze, BaselineTypeScript.readLines_csv h hcr]
  simp only [if_neg hcolumns]
  exact analyzeFrom_error ⟨_, List.mem_map_of_mem hr, fun lineNumber stats =>
    csharp_analyzeLine_error (h r hr).comma_notMem (h r hr).in2027 hrange lineNumber stats⟩ 2 []

end Csharp

section Zig
variable {rows : List Row}

/-- The baseline in Zig writes what the one in Go writes, exactly when its buffer holds every line;
otherwise it writes nothing. -/
theorem zig_output (mean : ℤ → ℤ → Bytes) (h : ∀ r ∈ rows, r.Valid)
    (hquote : ∀ r ∈ rows, quote ∉ r.path) (hfits : ∀ r ∈ rows, r.Fits)
    (hsums : ∀ path month, group rows path month ≠ [] → Fits63 (group rows path month)) :
    ∃ lines, BaselineGo.output mean (csv rows) = some lines ∧
      IsReport (reportLine mean) rows lines ∧
      BaselineZig.output mean (csv rows) =
        if ∀ r ∈ rows, InBuffer r then some lines else none := by
  obtain ⟨stats, hrun, hgroups⟩ := BaselineGo.analyze_csv h hquote hfits
  obtain ⟨lines, hwrite, hreport⟩ :=
    isReport_writeStats mean hgroups fun r hr => (h r hr).comma_notMem
  refine ⟨lines, ?_, ?_, ?_⟩
  · simp only [BaselineGo.output, hrun]
    exact hwrite
  · exact hreport.congr fun path month hne => wrappedLine_eq_reportLine hne (hsums path month hne)
  · by_cases hbuffer : ∀ r ∈ rows, InBuffer r
    · obtain ⟨stats', hrun', hgroups'⟩ := BaselineZig.analyze_csv h hfits hbuffer
      simp only [BaselineZig.output, hrun', if_pos hbuffer]
      rw [writeStats_eq hgroups' hgroups, hwrite]
    · obtain ⟨e, he⟩ := BaselineZig.analyze_error h hfits hbuffer
      simp only [BaselineZig.output, he, if_neg hbuffer]

/-- Posts of two channels, and one with a path of `n` bytes. -/
def posts (n : ℕ) : List Row :=
  [⟨1798761600, [97], 7, 0⟩, ⟨1798761600, [98], 300, 2⟩,
    ⟨1798761600, List.replicate n 97, 9, 1⟩]

theorem mem_path_posts {n : ℕ} (hn : n ≠ 0) {r : Row} (hr : r ∈ posts n) :
    r.path ≠ [] ∧ ∀ b ∈ r.path, b = 97 ∨ b = 98 := by
  simp only [posts, List.mem_cons, List.not_mem_nil, or_false] at hr
  rcases hr with rfl | rfl | rfl
  · exact ⟨List.cons_ne_nil _ _, fun b hb => .inl (List.mem_singleton.mp hb)⟩
  · exact ⟨List.cons_ne_nil _ _, fun b hb => .inr (List.mem_singleton.mp hb)⟩
  · exact ⟨by simpa using hn, fun b hb => .inl (List.eq_of_mem_replicate hb)⟩

theorem fits_posts {n : ℕ} {r : Row} (hr : r ∈ posts n) : r.Fits := by
  simp only [posts, List.mem_cons, List.not_mem_nil, or_false] at hr
  rcases hr with rfl | rfl | rfl <;>
    exact ⟨(by decide : In2027 1798761600), by norm_num, by norm_num⟩

theorem length_path_le (r : Row) : r.path.length ≤ r.text.length := by
  simp only [Row.text, Row.fields, List.intercalate, List.intersperse, List.flatten_cons,
    List.length_append]
  omega

/-- Posts whose lines the buffer holds, and a post whose line it does not hold. -/
theorem zig_output_posts :
    (∃ lines, BaselineGo.output wholeMean (csv (posts 5)) = some lines ∧
      IsReport (reportLine wholeMean) (posts 5) lines ∧
      BaselineZig.output wholeMean (csv (posts 5)) = some lines) ∧
    ∃ lines, BaselineGo.output wholeMean (csv (posts 4096)) = some lines ∧
      IsReport (reportLine wholeMean) (posts 4096) lines ∧
      BaselineZig.output wholeMean (csv (posts 4096)) = none := by
  have houtput {n : ℕ} (hn : n ≠ 0) : ∃ lines,
      BaselineGo.output wholeMean (csv (posts n)) = some lines ∧
        IsReport (reportLine wholeMean) (posts n) lines ∧
        BaselineZig.output wholeMean (csv (posts n)) =
          if ∀ r ∈ posts n, InBuffer r then some lines else none := by
    have hother {b : UInt8} (hb : b ≠ 97 ∧ b ≠ 98) : ∀ r ∈ posts n, b ∉ r.path := by
      intro r hr hmem
      rcases (mem_path_posts hn hr).2 b hmem with rfl | rfl
      · exact hb.1 rfl
      · exact hb.2 rfl
    refine zig_output wholeMean (fun r hr => ?_) (hother (by decide)) (fun r => fits_posts)
      fun path month _ => ⟨?_, ?_, ?_⟩
    · exact ⟨(fits_posts hr).in2027, (mem_path_posts hn hr).1, hother (by decide) r hr,
        hother (by decide) r hr⟩
    · exact Nat.lt_of_le_of_lt (sum_lengths_group_le path month)
        (show 316 < 2 ^ 63 by decide)
    · exact Nat.lt_of_le_of_lt (List.length_filter_le _ _) (show 3 < 2 ^ 63 by decide)
    · exact Nat.lt_of_le_of_lt (sum_stamps_group_le path month) (show 3 < 2 ^ 63 by decide)
  obtain ⟨lines, hgo, hreport, hzig⟩ := houtput (n := 5) (by decide)
  obtain ⟨lines', hgo', hreport', hzig'⟩ := houtput (n := 4096) (by decide)
  have hlong : ¬∀ r ∈ posts 4096, InBuffer r := by
    intro hall
    have hmem : (⟨1798761600, List.replicate 4096 97, 9, 1⟩ : Row) ∈ posts 4096 :=
      List.mem_cons_of_mem _ (List.mem_cons_of_mem _ List.mem_cons_self)
    have hlast := hall _ hmem
    have hle := length_path_le ⟨1798761600, List.replicate 4096 97, 9, 1⟩
    rw [List.length_replicate] at hle
    exact Nat.not_lt.mpr hle hlast
  exact ⟨⟨lines, hgo, hreport, by rw [hzig, if_pos (by decide +kernel)]⟩, lines', hgo', hreport',
    by rw [hzig', if_neg hlong]⟩

end Zig

section Contract
variable {rows : List Row}

/-- On the files of the contest whose channels hold neither quotes nor CR, the baselines in Go, Rust
and Zig write the same lines. Those in C++ and C# write them too, exactly when all numbers are in
the range of `int`; otherwise they write nothing. -/
theorem baselines_agree (mean : ℤ → ℤ → Bytes) (h : IsContract rows)
    (hquote : ∀ r ∈ rows, quote ∉ r.path) (hcr : ∀ r ∈ rows, carriageReturn ∉ r.path) :
    ∃ lines, BaselineGo.output mean (csv rows) = some lines ∧
      IsReport (reportLine mean) rows lines ∧
      BaselineRust.output mean (csv rows) = some lines ∧
      BaselineZig.output mean (csv rows) = some lines ∧
      BaselineCpp.output mean (csv rows) =
        (if ∀ r ∈ rows, InInt r then some lines else none) ∧
      BaselineCsharp.output mean (csv rows) =
        (if ∀ r ∈ rows, InInt r then some lines else none) := by
  have hvalid := TagMap.valid_of_isContract h
  have hfits := fits_of_isContract h
  have hbuffer : ∀ r ∈ rows, InBuffer r := by
    intro r hr
    have hle := BaselineC.length_line_le h hr
    rw [Row.line_eq_text, List.length_append, List.length_singleton] at hle
    rw [InBuffer, BaselineZig.bufferSize]
    omega
  obtain ⟨stats, hrun, hgroups⟩ := BaselineGo.analyze_csv hvalid hquote hfits
  obtain ⟨lines, hwrite, hreport⟩ :=
    isReport_writeStats mean hgroups fun r hr => (hvalid r hr).comma_notMem
  have hlines {stats' : StatsMap} (hgroups' : GroupBy.Groups Row.key ChannelStats.of stats' rows) :
      writeStats mean stats' = some lines := by
    rw [writeStats_eq hgroups' hgroups, hwrite]
  refine ⟨lines, ?_, isReport_of_isContract h hreport, ?_, ?_, ?_, ?_⟩
  · simp only [BaselineGo.output, hrun, hwrite]
  · obtain ⟨stats', hrun', hgroups'⟩ := BaselineRust.analyze_csv hvalid
      (fun r hr b hb => ((h.path r hr).byte b hb).1) hfits
    simp only [BaselineRust.output, hrun', hlines hgroups']
  · obtain ⟨stats', hrun', hgroups'⟩ := BaselineZig.analyze_csv hvalid hfits hbuffer
    simp only [BaselineZig.output, hrun', hlines hgroups']
  · by_cases hint : ∀ r ∈ rows, InInt r
    · obtain ⟨stats', hrun', hgroups'⟩ := BaselineCpp.analyze_csv hvalid hfits hint
      simp only [BaselineCpp.output, hrun', hlines hgroups', if_pos hint]
    · obtain ⟨e, he⟩ := BaselineCpp.analyze_error hvalid hfits hint
      simp only [BaselineCpp.output, he, if_neg hint]
  · by_cases hint : ∀ r ∈ rows, InInt r
    · obtain ⟨stats', hrun', hgroups'⟩ := BaselineCsharp.analyze_csv hvalid hcr fun r hr =>
        ⟨h.in2027 r hr, (hint r hr).1, (hint r hr).2⟩
      simp only [BaselineCsharp.output, hrun', hlines hgroups', if_pos hint]
    · obtain ⟨e, he⟩ := csharp_analyze_error hvalid hcr hint
      simp only [BaselineCsharp.output, he, if_neg hint]

/-- A message of 2 GiB. -/
def longMessage : List Row := [⟨1798761600, [97], 2 ^ 31, 0⟩]

theorem baselines_agree_longMessage : ∃ lines,
    BaselineGo.output (fun _ _ => []) (csv longMessage) = some lines ∧
      IsReport (reportLine fun _ _ => []) longMessage lines ∧
      BaselineRust.output (fun _ _ => []) (csv longMessage) = some lines ∧
      BaselineZig.output (fun _ _ => []) (csv longMessage) = some lines ∧
      BaselineCpp.output (fun _ _ => []) (csv longMessage) =
        (if ∀ r ∈ longMessage, InInt r then some lines else none) ∧
      BaselineCsharp.output (fun _ _ => []) (csv longMessage) =
        (if ∀ r ∈ longMessage, InInt r then some lines else none) := by
  have hpath {b : UInt8} (hb : b ≠ 97) : ∀ r ∈ longMessage, b ∉ r.path := by
    intro r hr
    obtain rfl := List.mem_singleton.mp hr
    exact fun hmem => hb (List.mem_singleton.mp hmem)
  exact baselines_agree _ (BaselineC.isContract_single (by decide) (by decide))
    (hpath (by decide)) (hpath (by decide))

end Contract
end OneBrc.Analyzer.Baselines
