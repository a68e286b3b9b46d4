import Mathlib.Data.List.Induction
import Mathlib.Data.List.TakeWhile
import OneBrc.Analyzer.BaselineC
import OneBrc.Analyzer.Reference

/-! The baseline in C against the one in Go: they write the same when all numbers of the file are in
the range of `int` and no path holds a character that ends a line of C. -/
namespace OneBrc.Analyzer.BaselineC
open Lib OpenAddressing ProbeTable StableSort

/-- The entry of a key with one more row. -/
def addTo (key : Bytes) (messageLength stampCount : Int32) : Option Entry → Entry
  | none => ⟨key, messageLength, messageLength, messageLength.toInt64, 1, stampCount.toInt64, true⟩
  | some e => e.add messageLength stampCount

/-- The entries of the table are those of a map. -/
structure Holds (map : Map) (m : List (Bytes × Entry)) : Prop where
  sound : Sound Entry.isFree Entry.key (fun key => (hashString key).toNat) map.entries
  count : map.count = (live Entry.isFree map.entries).length
  perm : ((live Entry.isFree map.entries).map fun e => (e.key, e)).Perm m

section Table
variable {map : Map} {m : List (Bytes × Entry)} {key : Bytes} {messageLength stampCount : Int32}

theorem Holds.init : Holds mapInit [] := by
  have hlive : live Entry.isFree mapInit.entries = [] := by
    refine List.filter_eq_nil_iff.mpr fun e he => ?_
    rw [List.eq_of_mem_replicate he]
    decide
  refine ⟨Sound.replicate rfl 15, ?_, ?_⟩
  · rw [hlive]
    rfl
  · rw [hlive]
    exact List.Perm.nil

theorem Holds.nodup (h : Holds map m) : (m.map Prod.fst).Nodup := by
  have hkeys := (h.perm.map Prod.fst).nodup_iff
  rw [List.map_map] at hkeys
  exact hkeys.mp h.sound.nodup

theorem Holds.rehash (h : Holds map m) : ∃ map', mapRehash map = some map' ∧ Holds map' m ∧
    map'.entries.length = map.entries.length * 2 := by
  obtain ⟨k, hk⟩ := h.sound.length_eq
  have hpos := Nat.two_pow_pos k
  have hle : (live Entry.isFree map.entries).length ≤ map.entries.length :=
    List.length_filter_le _ _
  have hempty : live Entry.isFree (List.replicate (map.entries.length * 2) Entry.zero) = [] := by
    refine List.filter_eq_nil_iff.mpr fun e he => ?_
    rw [List.eq_of_mem_replicate he]
    decide
  have hsound : Sound Entry.isFree Entry.key (fun key => (hashString key).toNat)
      (List.replicate (map.entries.length * 2) Entry.zero) := by
    rw [hk, ← Nat.pow_succ]
    exact Sound.replicate rfl (k + 1)
  obtain ⟨entries, hfold, hsound', hperm, hlength⟩ := exists_refill
    (live Entry.isFree map.entries) hsound (fun e he => (mem_live.mp he).2)
    (by rw [hempty]; exact h.sound.nodup)
    (by rw [hempty, List.length_nil, List.length_replicate]; omega)
  rw [hempty, List.nil_append] at hperm
  refine ⟨⟨entries, (live Entry.isFree map.entries).length⟩, ?_, ⟨hsound', ?_, ?_⟩, ?_⟩
  · rw [mapRehash, hfold]
    rfl
  · exact hperm.length_eq.symm
  · exact (hperm.map _).trans h.perm
  · rw [hlength, List.length_replicate]

/-- There is room for one more key. -/
theorem Holds.reserve (h : Holds map m) : ∃ map', reserve map = some map' ∧ Holds map' m ∧
    (live Entry.isFree map'.entries).length < map'.entries.length := by
  have hle : (live Entry.isFree map.entries).length ≤ map.entries.length :=
    List.length_filter_le _ _
  obtain ⟨k, hk⟩ := h.sound.length_eq
  have hpos := Nat.two_pow_pos k
  unfold BaselineC.reserve
  split_ifs with hfull
  · obtain ⟨map', hrehash, h', hlength⟩ := h.rehash
    refine ⟨map', hrehash, h', ?_⟩
    have hsame : (live Entry.isFree map'.entries).length =
        (live Entry.isFree map.entries).length := by
      have hperm := (h'.perm.trans h.perm.symm).length_eq
      rwa [List.length_map, List.length_map] at hperm
    omega
  · refine ⟨map, rfl, h, ?_⟩
    have hcount := h.count
    omega

theorem live_set {entries : List Entry} {i : ℕ} {e : Entry} (hi : entries[i]? = some e)
    (he : e.isFree = false) (e' : Entry) (he' : e'.isFree = false) : ∃ rest,
      (live Entry.isFree entries).Perm (e :: rest) ∧
        (live Entry.isFree (entries.set i e')).Perm (e' :: rest) := by
  obtain ⟨hlt, hget⟩ := List.getElem?_eq_some_iff.mp hi
  refine ⟨live Entry.isFree (entries.eraseIdx i), ?_, ?_⟩
  · have hperm := (List.getElem_cons_eraseIdx_perm hlt).symm.filter fun e => !e.isFree
    rw [hget, List.filter_cons_of_pos (by simp [he])] at hperm
    exact hperm
  · have hperm := (List.set_perm_cons_eraseIdx hlt e').filter fun e => !e.isFree
    rw [List.filter_cons_of_pos (by simp [he'])] at hperm
    exact hperm

/-- A key that is counted, found or new. -/
def countKey (map : Map) (key : Bytes) (messageLength stampCount : Int32) :
    Except AnalyzeError Map :=
  match mapGetOrInsert map key messageLength stampCount with
  | none => .error .endless
  | some (map, _, true) => .ok map
  | some (map, pos, false) =>
      .ok { map with entries := map.entries.modify pos (.add messageLength stampCount) }

theorem Holds.countKey (h : Holds map m) (key : Bytes) (messageLength stampCount : Int32) : ∃ map',
    countKey map key messageLength stampCount = .ok map' ∧
      Holds map' (GroupBy.upsert key (addTo key messageLength stampCount) m) := by
  obtain ⟨map₁, hreserve, h₁, hroom⟩ := h.reserve
  obtain ⟨i, hi⟩ : ∃ i, locate Entry.isFree (fun e => decide (e.key = key)) map₁.entries
      (hashString key).toNat = some i := exists_locate h₁.sound.length_eq hroom
  have hlt := locate_lt h₁.sound.length_eq hi
  have hget : map₁.entries[i]? = some map₁.entries[i] := List.getElem?_eq_getElem hlt
  have hrun : mapGetOrInsert map key messageLength stampCount =
      if map₁.entries[i].used then some (map₁, i, false)
      else some (⟨map₁.entries.set i ⟨key, messageLength, messageLength, messageLength.toInt64, 1,
        stampCount.toInt64, true⟩, map₁.count + 1⟩, i, true) := by
    simp only [mapGetOrInsert, hreserve, find_eq_locate h₁.sound.length_eq, hi, hget, bind,
      Option.bind]
  generalize map₁.entries[i] = e at hget hrun
  unfold BaselineC.countKey
  rw [hrun]
  cases hused : e.used with
  | true =>
    have hfree : e.isFree = false := by rw [Entry.isFree, hused]; rfl
    have hkey : e.key = key := Sound.key_of_locate hi hget hfree
    rw [if_pos rfl]
    have hmodify : map₁.entries.modify i (.add messageLength stampCount) =
        map₁.entries.set i (e.add messageLength stampCount) := by
      rw [List.modify_eq_set_getElem?, hget]
      rfl
    refine ⟨_, rfl, ?_⟩
    rw [hmodify]
    have hadd : (e.add messageLength stampCount).isFree = false := by
      rw [Entry.isFree, Entry.add, hused]
      rfl
    have haddKey : (e.add messageLength stampCount).key = key := hkey
    obtain ⟨rest, hold, hnew⟩ := live_set hget hfree (e.add messageLength stampCount) hadd
    have hmem : (key, e) ∈ m := by
      refine h₁.perm.mem_iff.mp (List.mem_map.mpr ⟨e, ?_, by rw [hkey]⟩)
      exact hold.mem_iff.mpr List.mem_cons_self
    obtain ⟨m₁, m₂, rfl, hupsert⟩ := GroupBy.upsert_of_mem
      (addTo key messageLength stampCount) h₁.nodup hmem
    refine ⟨h₁.sound.set (by rw [haddKey, hi]) hadd, ?_, ?_⟩
    · rw [hnew.length_eq, List.length_cons, ← List.length_cons (a := e), ← hold.length_eq]
      exact h₁.count
    · rw [hupsert]
      have hrest := ((hold.map fun e => (e.key, e)).symm.trans h₁.perm).trans List.perm_middle
      rw [List.map_cons, hkey] at hrest
      refine ((hnew.map _).trans ?_).trans List.perm_middle.symm
      rw [List.map_cons, haddKey]
      exact hrest.cons_inv.cons _
  | false =>
    have hfree : e.isFree = true := by rw [Entry.isFree, hused]; rfl
    have hnew : key ∉ m.map Prod.fst := by
      intro hmem
      obtain ⟨⟨k, f⟩, hf, rfl⟩ := List.mem_map.mp hmem
      obtain ⟨f', hf', heq⟩ := List.mem_map.mp (h₁.perm.mem_iff.mpr hf)
      exact h₁.sound.ne_of_locate_free hi hget hfree f' hf' (congrArg Prod.fst heq)
    have hperm := live_set_perm hget hfree (e := ⟨key, messageLength, messageLength,
      messageLength.toInt64, 1, stampCount.toInt64, true⟩) rfl
    rw [if_neg Bool.false_ne_true]
    refine ⟨_, rfl, h₁.sound.set hi rfl, ?_, ?_⟩
    · rw [hperm.length_eq, List.length_cons, h₁.count]
    · rw [GroupBy.upsert_of_notMem _ hnew]
      refine ((hperm.map _).trans ?_).trans (List.perm_append_singleton _ _).symm
      exact h₁.perm.cons _

end Table

/-- No byte of the path ends a line of C. -/
def Clean (path : Bytes) : Prop := 0 ∉ path ∧ carriageReturn ∉ path

section Reading
variable {r : Row} {n : ℕ} {text : Bytes}

theorem fgets_terminated {body rest : Bytes} (hbody : newline ∉ body) (hn : body.length < n) :
    fgets n (body ++ newline :: rest) = (body ++ [newline], rest) := by
  induction body generalizing n with
  | nil =>
    obtain ⟨n, rfl⟩ := Nat.exists_eq_succ_of_ne_zero (Nat.ne_of_gt hn)
    exact if_pos rfl
  | cons b body ih =>
    obtain ⟨n, rfl⟩ := Nat.exists_eq_succ_of_ne_zero (Nat.ne_of_gt (Nat.zero_lt_of_lt hn))
    obtain ⟨hb, hbody⟩ := not_or.mp (mt List.mem_cons.mpr hbody)
    rw [List.cons_append, fgets, if_neg (Ne.symm hb), ih hbody (Nat.lt_of_succ_lt_succ hn)]
    rfl

theorem readLines_flatten {lines : List Bytes} {fuel : ℕ}
    (hlines : ∀ line ∈ lines, Lines.Terminated newline line ∧ line.length ≤ n)
    (hfuel : lines.length ≤ fuel) : readLines n fuel lines.flatten = lines := by
  induction lines generalizing fuel with
  | nil => cases fuel <;> rfl
  | cons line lines ih =>
    obtain ⟨⟨⟨body, rfl, hbody⟩, hlength⟩, hrest⟩ := List.forall_mem_cons.mp hlines
    obtain ⟨fuel, rfl⟩ := Nat.exists_eq_succ_of_ne_zero
      (Nat.ne_of_gt (Nat.lt_of_lt_of_le (Nat.zero_lt_succ _) hfuel))
    have htext : ((body ++ [newline]) :: lines).flatten = body ++ newline :: lines.flatten := by
      rw [List.flatten_cons, List.append_assoc]
      rfl
    have hread : fgets n (body ++ newline :: lines.flatten) =
        (body ++ [newline], lines.flatten) := by
      apply fgets_terminated hbody
      rw [List.length_append, List.length_singleton] at hlength
      omega
    have hcons : ∃ b tail, body ++ newline :: lines.flatten = b :: tail := by
      cases body with
      | nil => exact ⟨_, _, rfl⟩
      | cons b body => exact ⟨_, _, rfl⟩
    obtain ⟨b, tail, hcons⟩ := hcons
    rw [htext, hcons, readLines, ← hcons, hread, ih hrest (Nat.le_of_succ_le_succ hfuel)]
    · exact nofun

/-- A field goes on to the next comma. -/
theorem splitLine_comma {field body rest : Bytes}
    (hbody : ∀ b ∈ body, b ≠ comma ∧ b ≠ 0 ∧ b ≠ newline ∧ b ≠ carriageReturn) :
    splitLine field (body ++ comma :: rest) = (field ++ body) :: splitLine [] rest := by
  induction body generalizing field with
  | nil =>
    rw [List.nil_append, splitLine, if_pos rfl, List.append_nil]
  | cons b body ih =>
    obtain ⟨⟨hcomma, hnul, hnewline, hcr⟩, hbody⟩ := List.forall_mem_cons.mp hbody
    rw [List.cons_append, splitLine, if_neg hcomma, if_neg (by simp [hnul, hnewline, hcr]),
      ih hbody, List.append_assoc]
    rfl

theorem splitLine_stop {field body rest : Bytes} {stop : UInt8}
    (hbody : ∀ b ∈ body, b ≠ comma ∧ b ≠ 0 ∧ b ≠ newline ∧ b ≠ carriageReturn)
    (hstop : stop = 0 ∨ stop = newline ∨ stop = carriageReturn) :
    splitLine field (body ++ stop :: rest) = [field ++ body] := by
  induction body generalizing field with
  | nil =>
    have hcomma : stop ≠ comma := by
      rcases hstop with rfl | rfl | rfl <;> decide
    rw [List.nil_append, splitLine, if_neg hcomma, if_pos hstop, List.append_nil]
  | cons b body ih =>
    obtain ⟨⟨hcomma, hnul, hnewline, hcr⟩, hbody⟩ := List.forall_mem_cons.mp hbody
    rw [List.cons_append, splitLine, if_neg hcomma, if_neg (by simp [hnul, hnewline, hcr]),
      ih hbody, List.append_assoc]
    rfl

theorem plain_encode (n : ℕ) :
    ∀ b ∈ Decimal.encode n, b ≠ comma ∧ b ≠ 0 ∧ b ≠ newline ∧ b ≠ carriageReturn := by
  intro b hb
  have hdigit := Decimal.isDigit_of_mem_encode hb
  refine ⟨?_, ?_, ?_, ?_⟩ <;>
  · rintro rfl
    cases hdigit

theorem splitLine_line (h : r.Valid) (hclean : Clean r.path) :
    splitLine [] r.line = r.fields := by
  have hpath : ∀ b ∈ r.path, b ≠ comma ∧ b ≠ 0 ∧ b ≠ newline ∧ b ≠ carriageReturn := by
    intro b hb
    refine ⟨?_, ?_, ?_, ?_⟩ <;> rintro rfl
    · exact h.comma_notMem hb
    · exact hclean.1 hb
    · exact h.newline_notMem hb
    · exact hclean.2 hb
  rw [Row.line, splitLine_comma (plain_encode _), splitLine_comma hpath,
    splitLine_comma (plain_encode _), splitLine_stop (plain_encode _) (.inr (.inl rfl))]
  rfl

theorem splitLine_dirty (field : Bytes) {body rest : Bytes} (hcomma : comma ∉ body)
    (hstop : ∃ b ∈ body, b = 0 ∨ b = newline ∨ b = carriageReturn) :
    ∃ last, splitLine field (body ++ rest) = [last] := by
  induction body generalizing field with
  | nil =>
    obtain ⟨b, hb, _⟩ := hstop
    cases hb
  | cons b body ih =>
    obtain ⟨hb, hcomma⟩ := not_or.mp (mt List.mem_cons.mpr hcomma)
    rw [List.cons_append, splitLine, if_neg (Ne.symm hb)]
    split_ifs with hhere
    · exact ⟨field, rfl⟩
    · obtain ⟨c, hc, hstop⟩ := hstop
      rcases List.mem_cons.mp hc with rfl | hc
      · exact absurd hstop hhere
      · exact ih _ hcomma ⟨c, hc, hstop⟩

/-- Such a path cuts the line in its second field. -/
theorem length_splitLine_line (h : r.Valid) (hdirty : ¬Clean r.path) :
    (splitLine [] r.line).length = 2 := by
  have hstop : ∃ b ∈ r.path, b = 0 ∨ b = newline ∨ b = carriageReturn := by
    rw [Clean, not_and_or, not_not, not_not] at hdirty
    rcases hdirty with hnul | hcr
    · exact ⟨0, hnul, .inl rfl⟩
    · exact ⟨carriageReturn, hcr, .inr (.inr rfl)⟩
  rw [Row.line, splitLine_comma (plain_encode _)]
  obtain ⟨last, hlast⟩ := splitLine_dirty [] h.comma_notMem hstop
  rw [hlast]
  rfl

theorem strtol_encode (hn : n < 2 ^ 63) : strtol (Decimal.encode n) = n := by
  have hspace := Decimal.dropWhile_isSpace_encode n []
  rw [List.append_nil] at hspace
  have htake : (Decimal.encode n).takeWhile Decimal.isDigit = Decimal.encode n :=
    List.takeWhile_eq_self_iff.mpr fun b hb => Decimal.isDigit_of_mem_encode hb
  have hrun : strtol (Decimal.encode n) = max (-2 ^ 63) (min (2 ^ 63 - 1) (n : ℤ)) := by
    unfold strtol
    rw [hspace, Decimal.sign_encode]
    dsimp only
    rw [htake, Decimal.value_encode]
    rfl
  rw [hrun]
  omega

theorem atoi_encode (hn : n < 2 ^ 63) : atoi (Decimal.encode n) = Int32.ofNat n := by
  rw [atoi, strtol_encode hn]
  rfl

theorem atoll_encode (hn : n < 2 ^ 63) : atoll (Decimal.encode n) = Int64.ofNat n := by
  rw [atoll, strtol_encode hn]
  rfl

theorem makeKey_row (h : In2027 r.timestamp) :
    makeKey (Decimal.encode r.timestamp) r.path = some r.key := by
  obtain ⟨hlow, hhigh⟩ := day_of_in2027 h
  rw [makeKey, atoll_encode (by omega), monthLabelFromUnixTimestamp_of_in2027 h]
  rfl

end Reading

section Rows
variable {r : Row} {rows : List Row} {map : Map} {m : List (Bytes × Entry)} {lineNumber : ℕ}

/-- The entry of the rows of a key. -/
def summary (rows : List Row) : Option Entry :=
  rows.foldl (fun e r => some (addTo r.key (Int32.ofNat r.messageLength)
    (Int32.ofNat r.stampCount) e)) none

def entryOf (rows : List Row) : Entry := (summary rows).getD .zero

theorem head?_line (h : r.Valid) : ¬(r.line.head? = some newline ∨
    r.line.head? = some carriageReturn ∨ r.line.head? = some 0) := by
  obtain ⟨b, tail, hline, hdigit, _⟩ := h.line_eq
  rw [hline, List.head?_cons]
  rintro (hb | hb | hb) <;>
  · rw [Option.some.inj hb] at hdigit
    cases hdigit

theorem analyzeLine_clean (lineNumber : ℕ) (h : r.Valid) (hfits : r.Fits) (hclean : Clean r.path)
    (hmap : Holds map m) : ∃ map', analyzeLine lineNumber map r.line = .ok map' ∧
      Holds map' (GroupBy.upsert r.key (addTo r.key (Int32.ofNat r.messageLength)
        (Int32.ofNat r.stampCount)) m) := by
  obtain ⟨map', hcount, hmap'⟩ := hmap.countKey r.key (Int32.ofNat r.messageLength)
    (Int32.ofNat r.stampCount)
  refine ⟨map', ?_, hmap'⟩
  rw [analyzeLine, if_neg (head?_line h), splitLine_line h hclean, Row.fields]
  dsimp only
  rw [makeKey_row h.in2027, atoi_encode hfits.messageLength_lt, atoi_encode hfits.stampCount_lt]
  exact hcount

theorem analyzeLine_dirty (h : r.Valid) (hdirty : ¬Clean r.path) :
    analyzeLine lineNumber map r.line = .error (.line lineNumber) := by
  have hlength := length_splitLine_line h hdirty
  rw [analyzeLine, if_neg (head?_line h)]
  split
  · next hfields =>
    rw [hfields] at hlength
    exact absurd hlength (by simp)
  · rfl

theorem summary_concat : summary (rows ++ [r]) = some (addTo r.key (Int32.ofNat r.messageLength)
    (Int32.ofNat r.stampCount) (summary rows)) := by
  rw [summary, List.foldl_append]
  rfl

theorem summary_of_ne_nil (h : rows ≠ []) : summary rows = some (entryOf rows) := by
  cases rows using List.reverseRecOn with
  | nil => exact absurd rfl h
  | append_singleton rows r => rw [entryOf, summary_concat, Option.getD_some]

theorem analyzeLines_clean (lineNumber : ℕ) {done : List Row}
    (h : ∀ r ∈ rows, r.Valid ∧ r.Fits ∧ Clean r.path)
    (hmap : Holds map m) (hgroups : GroupBy.Groups Row.key entryOf m done) : ∃ map' m',
      analyzeLines lineNumber map (rows.map Row.line) = .ok map' ∧ Holds map' m' ∧
        GroupBy.Groups Row.key entryOf m' (done ++ rows) := by
  induction rows generalizing map m done lineNumber with
  | nil => exact ⟨map, m, rfl, hmap, by rwa [List.append_nil]⟩
  | cons r rows ih =>
    obtain ⟨⟨hvalid, hfits, hclean⟩, hrows⟩ := List.forall_mem_cons.mp h
    obtain ⟨map₁, hrun, hmap₁⟩ := analyzeLine_clean lineNumber hvalid hfits hclean
      hmap
    have hgroups₁ := hgroups.upsert (r := r) (f := addTo r.key (Int32.ofNat r.messageLength)
      (Int32.ofNat r.stampCount)) (fun _ => rfl) ?_
    · obtain ⟨map₂, m₂, hrun₂, hmap₂, hgroups₂⟩ := ih (lineNumber + 1) hrows hmap₁ hgroups₁
      refine ⟨map₂, m₂, ?_, hmap₂, by rwa [List.append_cons]⟩
      rw [List.map_cons, analyzeLines, hrun]
      exact hrun₂
    · intro hne
      rw [← summary_of_ne_nil hne]
      exact (Option.some.inj (summary_concat.symm.trans
        (summary_of_ne_nil (List.append_ne_nil_of_right_ne_nil _ (List.cons_ne_nil r []))))).trans
          rfl

theorem analyzeLines_dirty (h : ∀ r ∈ rows, r.Valid ∧ r.Fits) (hmap : Holds map m)
    (hdirty : ∃ r ∈ rows, ¬Clean r.path) :
    ∃ e, analyzeLines lineNumber map (rows.map Row.line) = .error e := by
  induction rows generalizing map m lineNumber with
  | nil =>
    obtain ⟨r, hr, _⟩ := hdirty
    cases hr
  | cons r rows ih =>
    obtain ⟨⟨hvalid, hfits⟩, hrows⟩ := List.forall_mem_cons.mp h
    rw [List.map_cons, analyzeLines]
    by_cases hclean : Clean r.path
    · obtain ⟨map₁, hrun, hmap₁⟩ := analyzeLine_clean lineNumber hvalid hfits
        hclean hmap
      rw [hrun]
      refine ih hrows hmap₁ ?_
      obtain ⟨r', hr', hdirty⟩ := hdirty
      rcases List.mem_cons.mp hr' with rfl | hr'
      · exact absurd hclean hdirty
      · exact ⟨r', hr', hdirty⟩
    · rw [analyzeLine_dirty hvalid hclean]
      exact ⟨_, rfl⟩

end Rows

section Files
variable {rows : List Row}

theorem length_line_le {r : Row} (h : IsContract rows) (hr : r ∈ rows) : r.line.length ≤ 4095 := by
  have hpath := (h.path r hr).length_le
  have htimestamp := length_encode_of_in2027 (h.in2027 r hr)
  obtain ⟨hlength, hstamps⟩ := h.number_lt hr
  have hdigits {n : ℕ} (hn : n < 2 ^ 32) : (Decimal.encode n).length ≤ 10 :=
    (Decimal.length_encode_le_iff (by decide)).mpr (Nat.lt_trans hn (by decide))
  have hlength' := hdigits hlength
  have hstamps' := hdigits hstamps
  simp only [Row.line, List.length_append, List.length_cons, List.length_nil]
  omega

theorem analyze_eq (h : IsContract rows) :
    analyze (csv rows) = analyzeLines 2 mapInit (rows.map Row.line) := by
  have hheader : Lines.Terminated newline (header ++ [newline]) := ⟨header, rfl, by decide⟩
  have hlines : ∀ line ∈ (header ++ [newline]) :: rows.map Row.line,
      Lines.Terminated newline line ∧ line.length ≤ 4095 := by
    intro line hline
    rcases List.mem_cons.mp hline with rfl | hline
    · exact ⟨hheader, by decide⟩
    · obtain ⟨r, hr, rfl⟩ := List.mem_map.mp hline
      exact ⟨(TagMap.valid_of_isContract h r hr).terminated, length_line_le h hr⟩
  have hcsv : csv rows = ((header ++ [newline]) :: rows.map Row.line).flatten := rfl
  have hfuel : ((header ++ [newline]) :: rows.map Row.line).length ≤ (csv rows).length := by
    rw [hcsv, List.length_flatten, ← List.length_map (f := List.length)]
    refine List.length_le_sum_of_one_le _ fun n hn => ?_
    obtain ⟨line, hline, rfl⟩ := List.mem_map.mp hn
    obtain ⟨⟨body, rfl, _⟩, _⟩ := hlines line hline
    rw [List.length_append, List.length_singleton]
    exact Nat.le_add_left 1 _
  have hcolumns : ¬(splitLine [] (header ++ [newline])).length ≠ 4 := by decide +kernel
  unfold analyze
  rw [show readLines 4095 (csv rows).length (csv rows) =
    (header ++ [newline]) :: rows.map Row.line by
      rw [hcsv] at hfuel ⊢
      exact readLines_flatten hlines hfuel]
  exact if_neg hcolumns

theorem analyze_clean (h : IsContract rows) (hclean : ∀ r ∈ rows, Clean r.path) : ∃ map m,
    analyze (csv rows) = .ok map ∧ Holds map m ∧ GroupBy.Groups Row.key entryOf m rows := by
  obtain ⟨map, m, hrun, hmap, hgroups⟩ := analyzeLines_clean 2
    (fun r hr => ⟨TagMap.valid_of_isContract h r hr, fits_of_isContract h r hr, hclean r hr⟩)
    Holds.init GroupBy.Groups.nil
  exact ⟨map, m, (analyze_eq h).trans hrun, hmap, hgroups⟩

theorem analyze_dirty (h : IsContract rows) (hdirty : ∃ r ∈ rows, ¬Clean r.path) :
    ∃ e, analyze (csv rows) = .error e := by
  rw [analyze_eq h]
  refine analyzeLines_dirty (fun r hr => ?_) Holds.init hdirty
  exact ⟨TagMap.valid_of_isContract h r hr, fits_of_isContract h r hr⟩

/-- The lines in the order of the keys, with the entries of their rows. -/
theorem writeResult_eq {map : Map} {m : List (Bytes × Entry)} (hmap : Holds map m)
    (hgroups : GroupBy.Groups Row.key entryOf m rows) (mean : ℤ → ℤ → Bytes) :
    writeResult mean map = (sliceStable ByteOrder.less (m.map Prod.fst)).map fun key =>
      entryLine mean (entryOf (GroupBy.members Row.key rows key)) := by
  let sorted := sliceStable (fun a b : Entry => ByteOrder.less a.key b.key)
    (live Entry.isFree map.entries)
  have hkeys : sliceStable ByteOrder.less (m.map Prod.fst) = sorted.map Entry.key := by
    have hmapped : sorted.map Entry.key =
        sliceStable ByteOrder.less ((live Entry.isFree map.entries).map Entry.key) :=
      (sliceStable_map ..).symm
    have hperm : ((live Entry.isFree map.entries).map Entry.key).Perm (m.map Prod.fst) := by
      have hfst := hmap.perm.map Prod.fst
      rwa [List.map_map] at hfst
    rw [hmapped]
    exact ByteOrder.sort_eq ((sliceStable_perm ..).trans hperm)
      (ByteOrder.sort_strict hmap.sound.nodup)
  have hentry : ∀ e ∈ sorted, e = entryOf (GroupBy.members Row.key rows e.key) := by
    intro e he
    have hmem : (e.key, e) ∈ m :=
      hmap.perm.mem_iff.mp (List.mem_map_of_mem (mem_sliceStable.mp he))
    exact ((hgroups.mem e.key e).mp hmem).2
  rw [hkeys, List.map_map]
  exact List.map_congr_left fun e he => congrArg _ (hentry e he)

/-- The keys are those of the baseline in Go. -/
theorem sortedKeys_eq {m : List (Bytes × Entry)} {stats : StatsMap}
    (h : GroupBy.Groups Row.key entryOf m rows)
    (h' : GroupBy.Groups Row.key ChannelStats.of stats rows) :
    sliceStable ByteOrder.less (m.map Prod.fst) = writtenKeys stats := by
  apply ByteOrder.sort_eq ((sliceStable_perm ..).trans ?_) (ByteOrder.sort_strict h'.nodup)
  refine (List.perm_ext_iff_of_nodup h'.nodup h.nodup).mpr fun key => ?_
  rw [h.mem_keys, h'.mem_keys]

end Files

section Numbers
variable {g : List Row} {r : Row} {key : Bytes}

theorem toInt_ofNat32 {n : ℕ} (h : n < 2 ^ 32) :
    (Int32.ofNat n).toInt = if n < 2 ^ 31 then (n : ℤ) else n - 2 ^ 32 := by
  rw [Int32.toInt_ofNat', show Int32.size = 2 ^ 32 by rfl, Int.bmod_def]
  split_ifs <;> omega

theorem toInt64_ofNat {n : ℕ} (h : n < 2 ^ 31) : (Int32.ofNat n).toInt64 = Int64.ofNat n := by
  apply Int64.toInt_inj.mp
  rw [Int32.toInt_toInt64, Int32.toInt_ofNat_of_lt h, Int64.toInt_ofNat_of_lt (by omega)]

theorem entryOf_concat (hne : g ≠ []) : entryOf (g ++ [r]) =
    (entryOf g).add (Int32.ofNat r.messageLength) (Int32.ofNat r.stampCount) := by
  rw [entryOf, summary_concat, summary_of_ne_nil hne]
  rfl

theorem entryOf_key (hne : g ≠ []) (hkey : ∀ r ∈ g, r.key = key) : (entryOf g).key = key := by
  induction g using List.reverseRecOn with
  | nil => exact absurd rfl hne
  | append_singleton g r ih =>
    rcases eq_or_ne g [] with rfl | hg
    · exact hkey r List.mem_cons_self
    · rw [entryOf_concat hg]
      exact ih hg fun r' hr' => hkey r' (List.mem_append_left _ hr')

/-- The figures of numbers in the range of `int` are those of the baseline in Go. -/
structure SameFigures (e : Entry) (s : ChannelStats) : Prop where
  minLen : e.minLen.toInt64 = s.minLen
  maxLen : e.maxLen.toInt64 = s.maxLen
  totalLen : e.totalLen = s.totalLen
  messages : e.messages = s.messages
  stamps : e.stamps = s.stamps

theorem SameFigures.add {e : Entry} {s : ChannelStats} (h : SameFigures e s)
    (messageLength stampCount : Int32) : SameFigures (e.add messageLength stampCount)
      (.add messageLength.toInt64 stampCount.toInt64 (some s)) := by
  have hlt (a b : Int32) : a < b ↔ a.toInt64 < b.toInt64 := by
    rw [Int32.lt_iff_toInt_lt, Int64.lt_iff_toInt_lt, Int32.toInt_toInt64, Int32.toInt_toInt64]
  constructor
  · simp only [Entry.add, ChannelStats.add, ← h.minLen, ← hlt]
    split <;> rfl
  · simp only [Entry.add, ChannelStats.add, ← h.maxLen, gt_iff_lt, ← hlt]
    split <;> rfl
  · simp only [Entry.add, ChannelStats.add, h.totalLen]
  · simp only [Entry.add, ChannelStats.add, h.messages]
  · simp only [Entry.add, ChannelStats.add, h.stamps]

theorem sameFigures (hne : g ≠ [])
    (hrange : ∀ r ∈ g, r.messageLength < 2 ^ 31 ∧ r.stampCount < 2 ^ 31) :
    SameFigures (entryOf g) (ChannelStats.of g) := by
  induction g using List.reverseRecOn with
  | nil => exact absurd rfl hne
  | append_singleton g r ih =>
    obtain ⟨hlength, hstamps⟩ := hrange r List.mem_concat_self
    rcases eq_or_ne g [] with rfl | hg
    · rw [List.nil_append, ← ChannelStats.add_none, ← toInt64_ofNat hlength,
        ← toInt64_ofNat hstamps]
      exact ⟨rfl, rfl, rfl, rfl, rfl⟩
    · have hfit : ∀ r' ∈ g ++ [r], r'.messageLength < 2 ^ 63 := fun r' hr' =>
        Nat.lt_trans (hrange r' hr').1 (by decide)
      rw [entryOf_concat hg, ← ChannelStats.add_some hg hfit, ← toInt64_ofNat hlength,
        ← toInt64_ofNat hstamps]
      exact (ih hg fun r' hr' => hrange r' (List.mem_append_left _ hr')).add _ _

theorem SameFigures.line_eq {e : Entry} {s : ChannelStats} (h : SameFigures e s)
    (hkey : e.key = key) (mean : ℤ → ℤ → Bytes) : entryLine mean e = statsLine mean key s := by
  rw [entryLine, statsLine, ← h.minLen, ← h.maxLen, ← h.totalLen, ← h.messages, ← h.stamps, hkey,
    Int32.toInt_toInt64, Int32.toInt_toInt64]

/-- The least length is below each. -/
theorem minLen_le (hr : r ∈ g) :
    (entryOf g).minLen.toInt ≤ (Int32.ofNat r.messageLength).toInt := by
  induction g using List.reverseRecOn with
  | nil => cases hr
  | append_singleton g r' ih =>
    rcases eq_or_ne g [] with rfl | hg
    · obtain rfl := List.mem_singleton.mp hr
      exact le_rfl
    · rw [entryOf_concat hg, Entry.add]
      dsimp only
      rcases List.mem_append.mp hr with hr | hr
      · split_ifs with hlt
        · exact (Int32.lt_iff_toInt_lt.mp hlt).le.trans (ih hr)
        · exact ih hr
      · obtain rfl := List.mem_singleton.mp hr
        split_ifs with hlt
        · exact le_rfl
        · exact not_lt.mp (mt Int32.lt_iff_toInt_lt.mpr hlt)

/-- The stamp counts as `int`. -/
def intStamps (g : List Row) : List ℤ := g.map fun r => (Int32.ofNat r.stampCount).toInt

theorem stamps_eq (hne : g ≠ []) : (entryOf g).stamps = Int64.ofInt (intStamps g).sum := by
  have hint (x : Int32) : x.toInt64 = Int64.ofInt x.toInt := by
    rw [← Int32.toInt_toInt64, Int64.ofInt_toInt]
  induction g using List.reverseRecOn with
  | nil => exact absurd rfl hne
  | append_singleton g r ih =>
    have hsum : (intStamps (g ++ [r])).sum =
        (intStamps g).sum + (Int32.ofNat r.stampCount).toInt := by
      rw [intStamps, List.map_append, List.sum_append]
      exact congrArg _ (List.sum_singleton)
    rcases eq_or_ne g [] with rfl | hg
    · rw [hsum]
      exact (hint _).trans (congrArg _ (Int.zero_add _).symm)
    · rw [entryOf_concat hg, hsum, Int64.ofInt_add, ← ih hg, ← hint]
      rfl

theorem eq_of_encodeInt {n : ℤ} {m : ℕ} (h : Decimal.encodeInt n = Decimal.encode m) : n = m := by
  rcases lt_or_ge n 0 with hneg | hpos
  · exact absurd h (Expected.encodeInt_of_neg hneg m)
  · obtain ⟨k, rfl⟩ := Int.eq_ofNat_of_zero_le hpos
    rw [Decimal.encodeInt_natCast] at h
    rw [Decimal.encode_injective h]

theorem intStamps_bounds (hg : ∀ r ∈ g, r.stampCount < 2 ^ 32) :
    -(2 ^ 31 * (g.length : ℤ)) ≤ (intStamps g).sum ∧
      (intStamps g).sum ≤ ((stamps g).sum : ℤ) ∧
      ((∃ r ∈ g, 2 ^ 31 ≤ r.stampCount) → (intStamps g).sum < ((stamps g).sum : ℤ)) := by
  induction g with
  | nil => exact ⟨le_rfl, le_rfl, fun ⟨r, hr, _⟩ => by cases hr⟩
  | cons r g ih =>
    obtain ⟨hr, hrest⟩ := List.forall_mem_cons.mp hg
    obtain ⟨hlow, hle, hlt⟩ := ih hrest
    have hint := toInt_ofNat32 hr
    have hsum : (intStamps (r :: g)).sum = (Int32.ofNat r.stampCount).toInt + (intStamps g).sum :=
      List.sum_cons
    have hstamps : (stamps (r :: g)).sum = r.stampCount + (stamps g).sum := List.sum_cons
    rw [hsum, hstamps, hint, List.length_cons, Nat.cast_add, Nat.cast_succ]
    refine ⟨?_, ?_, ?_⟩
    · split_ifs <;> omega
    · split_ifs <;> omega
    · rintro ⟨r', hr', hlarge⟩
      rcases List.mem_cons.mp hr' with rfl | hr'
      · rw [if_neg (Nat.not_lt.mpr hlarge)]
        omega
      · have hlt' := hlt ⟨r', hr', hlarge⟩
        split_ifs <;> omega

end Numbers

section Lines
variable {key : Bytes}

theorem notMem_encodeInt {b : UInt8} (hdigit : Decimal.isDigit b = false) (hminus : b ≠ 45)
    (n : ℤ) : b ∉ Decimal.encodeInt n := by
  rw [Decimal.encodeInt]
  split_ifs
  · rw [List.mem_cons, not_or]
    exact ⟨hminus, Decimal.notMem_encode hdigit⟩
  · exact Decimal.notMem_encode hdigit

/-- A line whose mean is left out. -/
def bareLine (key : Bytes) (least greatest messages stamps : ℤ) : Bytes :=
  key ++ equals :: (Decimal.encodeInt least ++ slash :: ([] ++ slash ::
    (Decimal.encodeInt greatest ++ slash :: (Decimal.encodeInt messages ++ slash ::
      (Decimal.encodeInt stamps ++ [newline])))))

theorem terminated_bareLine (hkey : newline ∉ key) (least greatest messages stamps : ℤ) :
    Lines.Terminated newline (bareLine key least greatest messages stamps) := by
  have hdigits := notMem_encodeInt (b := newline) (by decide) (by decide)
  refine ⟨key ++ equals :: (Decimal.encodeInt least ++ slash :: ([] ++ slash ::
    (Decimal.encodeInt greatest ++ slash :: (Decimal.encodeInt messages ++ slash ::
      Decimal.encodeInt stamps)))), by simp [bareLine], ?_⟩
  simp only [List.mem_append, List.mem_cons, List.not_mem_nil, not_or, false_or]
  exact ⟨hkey, by decide, hdigits _, by decide, by decide, hdigits _, by decide, hdigits _,
    by decide, hdigits _⟩

theorem bareLine_inj {least greatest messages stamps least' greatest' messages' stamps' : ℤ}
    (h : bareLine key least greatest messages stamps =
      bareLine key least' greatest' messages' stamps') :
    Decimal.encodeInt least = Decimal.encodeInt least' ∧
      Decimal.encodeInt stamps = Decimal.encodeInt stamps' := by
  have hslash := notMem_encodeInt (b := slash) (by decide) (by decide)
  have hfigures := (List.cons.inj (List.append_cancel_left h)).2
  obtain ⟨hleast, hmean⟩ := append_cons_inj (hslash _) (hslash _) hfigures
  obtain ⟨_, hrest⟩ := append_cons_inj (hslash _) (hslash _) (List.cons.inj hmean).2
  obtain ⟨_, hstamps⟩ := append_cons_inj (hslash _) (hslash _) hrest
  exact ⟨hleast, List.append_cancel_right hstamps⟩

end Lines

/-- Both baselines write the same bytes, whatever prints the mean of a total and a count. -/
def WritesAlike (rows : List Row) : Prop :=
  ∀ mean, (output mean (csv rows)).map List.flatten =
    (BaselineGo.output mean (csv rows)).map List.flatten

section Agreement
variable {rows : List Row}

theorem writesAlike_of_range (h : IsContract rows) (hquote : ∀ r ∈ rows, quote ∉ r.path)
    (hrange : ∀ r ∈ rows, r.messageLength < 2 ^ 31 ∧ r.stampCount < 2 ^ 31 ∧ Clean r.path) :
    WritesAlike rows := by
  intro mean
  obtain ⟨map, m, hrun, hmap, hgroups⟩ := analyze_clean h fun r hr => (hrange r hr).2.2
  obtain ⟨stats, hrun', hgroups'⟩ := BaselineGo.analyze_csv (TagMap.valid_of_isContract h) hquote
    (fits_of_isContract h)
  have hlines : writeResult mean map = (writtenKeys stats).map fun key =>
      statsLine mean key (ChannelStats.of (GroupBy.members Row.key rows key)) := by
    rw [writeResult_eq hmap hgroups, sortedKeys_eq hgroups hgroups']
    refine List.map_congr_left fun key hkey => ?_
    have hne := hgroups'.mem_keys.mp (mem_sliceStable.mp hkey)
    have hmember : ∀ r ∈ GroupBy.members Row.key rows key, r ∈ rows ∧ r.key = key :=
      fun r hr => ⟨(List.mem_filter.mp hr).1, of_decide_eq_true (List.mem_filter.mp hr).2⟩
    exact (sameFigures hne fun r hr => ⟨(hrange r (hmember r hr).1).1,
      (hrange r (hmember r hr).1).2.1⟩).line_eq
        (entryOf_key hne fun r hr => (hmember r hr).2) mean
  rw [output, hrun, BaselineGo.output, hrun']
  dsimp only
  rw [writeStats_groups hgroups', hlines]

theorem clean_of_writesAlike (h : IsContract rows) (hquote : ∀ r ∈ rows, quote ∉ r.path)
    (halike : WritesAlike rows) : ∀ r ∈ rows, Clean r.path := by
  by_contra hdirty
  push Not at hdirty
  obtain ⟨e, herror⟩ := analyze_dirty h hdirty
  obtain ⟨lines, hlines, _⟩ := BaselineGo.output_csv (fun _ _ => [])
    (TagMap.valid_of_isContract h) hquote (fits_of_isContract h)
  have hbytes := halike fun _ _ => []
  rw [output, herror, hlines] at hbytes
  contradiction

theorem newline_notMem_key (h : IsContract rows) {r : Row} (hr : r ∈ rows) : newline ∉ r.key := by
  have hlabel : ∀ month : Fin 12, newline ∉ monthLabel month := by decide +kernel
  have hpath := (TagMap.valid_of_isContract h r hr).newline_notMem
  rw [Row.key, resultKeyOf, List.mem_append, List.mem_cons, not_or, not_or]
  exact ⟨hpath, by decide, hlabel _⟩

/-- Where the bytes agree, the figures of each key are printed alike. -/
theorem figures_of_writesAlike (h : IsContract rows) (hquote : ∀ r ∈ rows, quote ∉ r.path)
    (halike : WritesAlike rows) {r : Row} (hr : r ∈ rows) :
    Decimal.encodeInt (entryOf (GroupBy.members Row.key rows r.key)).minLen.toInt =
        Decimal.encodeInt (ChannelStats.of (GroupBy.members Row.key rows r.key)).minLen.toInt ∧
      Decimal.encodeInt (entryOf (GroupBy.members Row.key rows r.key)).stamps.toInt =
        Decimal.encodeInt (ChannelStats.of (GroupBy.members Row.key rows r.key)).stamps.toInt := by
  obtain ⟨map, m, hrun, hmap, hgroups⟩ := analyze_clean h (clean_of_writesAlike h hquote halike)
  obtain ⟨stats, hrun', hgroups'⟩ := BaselineGo.analyze_csv (TagMap.valid_of_isContract h) hquote
    (fits_of_isContract h)
  have hbytes := halike fun _ _ => []
  rw [output, hrun, BaselineGo.output, hrun'] at hbytes
  dsimp only at hbytes
  rw [writeStats_groups hgroups', writeResult_eq hmap hgroups, sortedKeys_eq hgroups hgroups',
    Option.map_some, Option.map_some, Option.some.injEq] at hbytes
  have hmembers : ∀ key ∈ writtenKeys stats, GroupBy.members Row.key rows key ≠ [] ∧
      newline ∉ key ∧ (entryOf (GroupBy.members Row.key rows key)).key = key := by
    intro key hkey
    have hne := hgroups'.mem_keys.mp (mem_sliceStable.mp hkey)
    refine ⟨hne, ?_, entryOf_key hne fun r hr => of_decide_eq_true (List.mem_filter.mp hr).2⟩
    obtain ⟨r', hr'⟩ := List.exists_mem_of_ne_nil _ hne
    obtain ⟨hmem, hkey'⟩ := List.mem_filter.mp hr'
    exact of_decide_eq_true hkey' ▸ newline_notMem_key h hmem
  have hentry : ∀ key ∈ writtenKeys stats,
      entryLine (fun _ _ => []) (entryOf (GroupBy.members Row.key rows key)) =
        bareLine key (entryOf (GroupBy.members Row.key rows key)).minLen.toInt
          (entryOf (GroupBy.members Row.key rows key)).maxLen.toInt
          (entryOf (GroupBy.members Row.key rows key)).messages.toInt
          (entryOf (GroupBy.members Row.key rows key)).stamps.toInt := by
    intro key hkey
    rw [entryLine, (hmembers key hkey).2.2]
    rfl
  have hlines := congrArg (Lines.split newline) hbytes
  rw [Lines.split_flatten, Lines.split_flatten] at hlines
  · have hkey : r.key ∈ writtenKeys stats := by
      refine mem_sliceStable.mpr (hgroups'.mem_keys.mpr ?_)
      exact List.ne_nil_of_mem (List.mem_filter.mpr ⟨hr, decide_eq_true rfl⟩)
    have hline := List.map_inj_left.mp hlines r.key hkey
    rw [hentry r.key hkey] at hline
    exact bareLine_inj hline
  · intro line hline
    obtain ⟨key, hkey, rfl⟩ := List.mem_map.mp hline
    exact terminated_bareLine (hmembers key hkey).2.1 ..
  · intro line hline
    obtain ⟨key, hkey, rfl⟩ := List.mem_map.mp hline
    rw [hentry key hkey]
    exact terminated_bareLine (hmembers key hkey).2.1 ..

theorem range_of_writesAlike (h : IsContract rows) (hquote : ∀ r ∈ rows, quote ∉ r.path)
    (halike : WritesAlike rows) : ∀ r ∈ rows, r.messageLength < 2 ^ 31 ∧ r.stampCount < 2 ^ 31 ∧
      Clean r.path := by
  intro r hr
  obtain ⟨hmin, hstamps⟩ := figures_of_writesAlike h hquote halike hr
  have hmem : r ∈ GroupBy.members Row.key rows r.key :=
    List.mem_filter.mpr ⟨hr, decide_eq_true rfl⟩
  have hgroup : GroupBy.members Row.key rows r.key = group rows r.path r.month :=
    members_resultKeyOf rows r.path r.month
  rw [hgroup] at hmin hstamps hmem
  have hne : group rows r.path r.month ≠ [] := List.ne_nil_of_mem hmem
  have hlengths : lengths (group rows r.path r.month) ≠ [] := by simpa [lengths] using hne
  have hrow : ∀ r' ∈ group rows r.path r.month, r'.stampCount < 2 ^ 32 :=
    fun r' hr' => (h.number_lt (List.mem_filter.mp hr').1).2
  refine ⟨?_, ?_, clean_of_writesAlike h hquote halike r hr⟩
  · -- a length beyond `int` makes the least one negative
    have hleast : least (lengths (group rows r.path r.month)) < 2 ^ 63 :=
      Nat.lt_of_le_of_lt (least_le_sum hlengths) (Nat.lt_trans (h.total_lt _ _) (by decide))
    rw [ChannelStats.of, toInt_ofNat hleast, Decimal.encodeInt_natCast] at hmin
    have hle := minLen_le hmem
    rw [eq_of_encodeInt hmin, toInt_ofNat32 (h.number_lt hr).1] at hle
    by_contra hlarge
    rw [if_neg hlarge] at hle
    have hlt := (h.number_lt hr).1
    omega
  · have hsum : (stamps (group rows r.path r.month)).sum < 2 ^ 63 :=
      Nat.lt_trans (h.stamps_lt _ _) (by decide)
    rw [ChannelStats.of, toInt_ofNat hsum, Decimal.encodeInt_natCast] at hstamps
    have hequal := eq_of_encodeInt hstamps
    obtain ⟨hlow, hle, hlt⟩ := intStamps_bounds hrow
    have htotal := h.stamps_lt r.path r.month
    have hmessages := h.messages_lt r.path r.month
    rw [stamps_eq hne, Int64.toInt_ofInt_of_le (by omega) (by omega)] at hequal
    by_contra hlarge
    have hless := hlt ⟨r, hmem, Nat.not_lt.mp hlarge⟩
    omega

/-- The baselines agree exactly on the files whose numbers are in the range of `int` and whose paths
hold neither NUL nor CR. -/
theorem writesAlike_iff (h : IsContract rows) (hquote : ∀ r ∈ rows, quote ∉ r.path) :
    WritesAlike rows ↔
      ∀ r ∈ rows, r.messageLength < 2 ^ 31 ∧ r.stampCount < 2 ^ 31 ∧ Clean r.path :=
  ⟨range_of_writesAlike h hquote, writesAlike_of_range h hquote⟩

end Agreement

/-- A file of one row. -/
theorem isContract_single {messageLength : ℕ} (hpos : 1 ≤ messageLength)
    (hlt : messageLength < 2 ^ 32) : IsContract [⟨1798761600, [97], messageLength, 0⟩] := by
  have hin2027 : In2027 1798761600 := by decide
  refine isContract_of_short (Nat.le_of_lt (by simp)) ?_ (by simp [stamps]) ?_
  · simpa [lengths] using hlt
  · intro r hr
    obtain rfl := List.mem_singleton.mp hr
    refine ⟨hin2027, ⟨[[97]], rfl, by decide, by decide, ?_⟩, hpos⟩
    intro level hlevel
    obtain rfl := List.mem_singleton.mp hlevel
    exact ⟨by decide, by decide, by decide +kernel⟩

theorem writesAlike_iff_single : WritesAlike [⟨1798761600, [97], 7, 0⟩] ↔
    ∀ r ∈ ([⟨1798761600, [97], 7, 0⟩] : List Row),
      r.messageLength < 2 ^ 31 ∧ r.stampCount < 2 ^ 31 ∧ Clean r.path :=
  writesAlike_iff (isContract_single (by decide) (by decide)) (by decide)

/-- A message of 2 GiB. -/
theorem not_writesAlike : ¬ ∀ rows, IsContract rows → (∀ r ∈ rows, quote ∉ r.path) →
    WritesAlike rows := by
  intro hall
  have hcontract : IsContract [⟨1798761600, [97], 2 ^ 31, 0⟩] :=
    isContract_single (by decide) (by decide)
  have hquote : ∀ r ∈ ([⟨1798761600, [97], 2 ^ 31, 0⟩] : List Row), quote ∉ r.path := by
    intro r hr
    obtain rfl := List.mem_singleton.mp hr
    exact (by decide : quote ∉ ([97] : Bytes))
  have hrange := range_of_writesAlike hcontract hquote (hall _ hcontract hquote) _
    (List.mem_singleton_self _)
  exact Nat.lt_irrefl _ hrange.1

end OneBrc.Analyzer.BaselineC
