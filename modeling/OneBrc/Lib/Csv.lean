import OneBrc.Lib.Decimal

/-! A reader of records of comma-separated fields, which may be quoted. -/
namespace OneBrc.Lib.Csv

inductive ReadError where
  | bareQuote
  | quote
  | fieldCount
  deriving DecidableEq, Repr

/-- The ends of lines as the reader sees them: CRLF is LF, and a CR before the end of the text is
dropped. -/
def unixLines : Bytes → Bytes
  | [] => []
  | [b] => if b = 13 then [] else [b]
  | b :: c :: rest => if b = 13 ∧ c = 10 then 10 :: unixLines rest else b :: unixLines (c :: rest)

/-- Where the reader stands: between records, at the start of a field, in a plain field, in a
quoted one, or behind a quote in a quoted one. -/
inductive Reading where
  | idle
  | start (fields : List Bytes)
  | plain (fields : List Bytes) (field : Bytes)
  | quoted (fields : List Bytes) (field : Bytes)
  | closed (fields : List Bytes) (field : Bytes)

inductive Outcome where
  | more (reading : Reading)
  | record (fields : List Bytes)
  | error (e : ReadError)

def startStep (fields : List Bytes) (b : UInt8) : Outcome :=
  if b = 34 then .more (.quoted fields [])
  else if b = 44 then .more (.start (fields ++ [[]]))
  else if b = 10 then .record (fields ++ [[]])
  else .more (.plain fields [b])

/-- One character of the text. Empty lines between records are skipped. -/
def step : Reading → UInt8 → Outcome
  | .idle, b => if b = 10 then .more .idle else startStep [] b
  | .start fields, b => startStep fields b
  | .plain fields field, b =>
      if b = 44 then .more (.start (fields ++ [field]))
      else if b = 10 then .record (fields ++ [field])
      else if b = 34 then .error .bareQuote
      else .more (.plain fields (field ++ [b]))
  | .quoted fields field, b =>
      if b = 34 then .more (.closed fields field) else .more (.quoted fields (field ++ [b]))
  | .closed fields field, b =>
      if b = 34 then .more (.quoted fields (field ++ [b]))
      else if b = 44 then .more (.start (fields ++ [field]))
      else if b = 10 then .record (fields ++ [field])
      else .error .quote

/-- The end of the text ends the record. -/
def finish : Reading → Option (Except ReadError (List Bytes))
  | .idle => none
  | .start fields => some (.ok (fields ++ [[]]))
  | .plain fields field => some (.ok (fields ++ [field]))
  | .quoted _ _ => some (.error .quote)
  | .closed fields field => some (.ok (fields ++ [field]))

/-- All records have as many fields as the first. -/
def checked (count : Option ℕ) (fields : List Bytes) : Except ReadError (List Bytes) :=
  if count.all (· = fields.length) then .ok fields else .error .fieldCount

/-- The records of a text with LF line ends, up to the first error. -/
def readFrom (count : Option ℕ) (reading : Reading) :
    Bytes → List (Except ReadError (List Bytes))
  | [] => ((finish reading).map fun result => result.bind (checked count)).toList
  | b :: rest =>
      match step reading b with
      | .more reading => readFrom count reading rest
      | .error e => [.error e]
      | .record fields =>
          match checked count fields with
          | .error e => [.error e]
          | .ok fields => .ok fields :: readFrom (some fields.length) .idle rest

def readAll (text : Bytes) : List (Except ReadError (List Bytes)) :=
  readFrom none .idle (unixLines text)

/-- A part of the text without CR. -/
theorem unixLines_append {as : Bytes} (h : (13 : UInt8) ∉ as) (rest : Bytes) :
    unixLines (as ++ rest) = as ++ unixLines rest := by
  induction as with
  | nil => rfl
  | cons a as ih =>
    have ha : a ≠ 13 := fun heq => h (heq ▸ List.mem_cons_self)
    have htail := ih fun hmem => h (List.mem_cons_of_mem _ hmem)
    rw [List.cons_append, List.cons_append, ← htail]
    cases as ++ rest with
    | nil => simp [unixLines, ha]
    | cons c cs => rw [unixLines, if_neg fun hboth => ha hboth.1]

/-- A CR that no LF follows is kept. -/
theorem unixLines_append_cons {as : Bytes} {b : UInt8} (has : (10 : UInt8) ∉ as) (hb : b ≠ 10)
    (rest : Bytes) : unixLines (as ++ b :: rest) = as ++ unixLines (b :: rest) := by
  induction as with
  | nil => rfl
  | cons a as ih =>
    have htail := ih fun hmem => has (List.mem_cons_of_mem _ hmem)
    rw [List.cons_append, List.cons_append, ← htail]
    cases as with
    | nil => rw [List.nil_append, unixLines, if_neg fun hboth => hb hboth.2]
    | cons c cs =>
      have hc : c ≠ 10 := fun heq => has (heq ▸ List.mem_cons_of_mem _ List.mem_cons_self)
      rw [List.cons_append, unixLines, if_neg fun hboth => hc hboth.2]

/-- A field that needs no quotes. -/
def Plain (field : Bytes) : Prop := ∀ b ∈ field, b ≠ 34 ∧ b ≠ 44 ∧ b ≠ 10

section Plain
variable {count : Option ℕ} {fields : List Bytes} {field : Bytes} {rest : Bytes}

private theorem readFrom_plain (h : Plain field) (done : Bytes) :
    readFrom count (.plain fields done) (field ++ rest) =
      readFrom count (.plain fields (done ++ field)) rest := by
  induction field generalizing done with
  | nil => rw [List.nil_append, List.append_nil]
  | cons b field ih =>
    obtain ⟨hquote, hcomma, hnewline⟩ := h b List.mem_cons_self
    have hstep : step (.plain fields done) b = .more (.plain fields (done ++ [b])) := by
      rw [step, if_neg hcomma, if_neg hnewline, if_neg hquote]
    have htail := ih (fun c hc => h c (List.mem_cons_of_mem _ hc)) (done ++ [b])
    rw [List.cons_append, readFrom, hstep]
    rw [List.append_assoc, List.singleton_append] at htail
    exact htail

/-- A plain field before a comma. -/
theorem readFrom_field (h : Plain field) :
    readFrom count (.start fields) (field ++ 44 :: rest) =
      readFrom count (.start (fields ++ [field])) rest := by
  cases field with
  | nil => rfl
  | cons b field =>
    obtain ⟨hquote, hcomma, hnewline⟩ := h b List.mem_cons_self
    have hstep : step (.start fields) b = .more (.plain fields [b]) := by
      rw [step, startStep, if_neg hquote, if_neg hcomma, if_neg hnewline]
    rw [List.cons_append, readFrom, hstep]
    refine (readFrom_plain (fun c hc => h c (List.mem_cons_of_mem _ hc)) [b]).trans ?_
    rfl

private theorem readFrom_record {reading : Reading} {b : UInt8}
    (hstep : step reading b = .record fields)
    (hcount : count.all (· = fields.length)) :
    readFrom count reading (b :: rest) =
      .ok fields :: readFrom (some fields.length) .idle rest := by
  have hchecked : checked count fields = .ok fields := if_pos hcount
  rw [readFrom, hstep]
  simp only [hchecked]

/-- The last field of a record. -/
theorem readFrom_last (h : Plain field) (hcount : count.all (· = (fields ++ [field]).length)) :
    readFrom count (.start fields) (field ++ 10 :: rest) =
      .ok (fields ++ [field]) :: readFrom (some (fields ++ [field]).length) .idle rest := by
  cases field with
  | nil => exact readFrom_record rfl hcount
  | cons b field =>
    obtain ⟨hquote, hcomma, hnewline⟩ := h b List.mem_cons_self
    have hstep : step (.start fields) b = .more (.plain fields [b]) := by
      rw [step, startStep, if_neg hquote, if_neg hcomma, if_neg hnewline]
    rw [List.cons_append, readFrom, hstep]
    refine (readFrom_plain (fun c hc => h c (List.mem_cons_of_mem _ hc)) [b]).trans ?_
    exact readFrom_record rfl hcount

private theorem readFrom_intercalate {fs : List Bytes} (hne : fs ≠ []) (h : ∀ f ∈ fs, Plain f)
    (hcount : count.all (· = (fields ++ fs).length)) :
    readFrom count (.start fields) (List.intercalate [44] fs ++ 10 :: rest) =
      .ok (fields ++ fs) :: readFrom (some (fields ++ fs).length) .idle rest := by
  induction fs generalizing fields with
  | nil => exact absurd rfl hne
  | cons f fs ih =>
    have hf := h f List.mem_cons_self
    cases fs with
    | nil => simpa [List.intercalate] using readFrom_last hf hcount
    | cons g fs =>
      have hsplit : List.intercalate [44] (f :: g :: fs) ++ 10 :: rest =
          f ++ 44 :: (List.intercalate [44] (g :: fs) ++ 10 :: rest) := by
        simp [List.intercalate]
      rw [hsplit, readFrom_field hf,
        ih (List.cons_ne_nil g fs) (fun f' hf' => h f' (List.mem_cons_of_mem _ hf')) (by
          simpa using hcount)]
      simp

/-- A line of plain fields is a record. -/
theorem readFrom_line {f : Bytes} {fs : List Bytes} (hne : f ≠ []) (h : ∀ f' ∈ f :: fs, Plain f')
    (hcount : count.all (· = (f :: fs).length)) :
    readFrom count .idle (List.intercalate [44] (f :: fs) ++ 10 :: rest) =
      .ok (f :: fs) :: readFrom (some (f :: fs).length) .idle rest := by
  obtain ⟨b, bs, rfl⟩ := List.exists_cons_of_ne_nil hne
  obtain ⟨-, -, hnewline⟩ := h (b :: bs) List.mem_cons_self b List.mem_cons_self
  have hidle (text : Bytes) : readFrom count .idle (b :: text) =
      readFrom count (.start []) (b :: text) := by
    rw [readFrom, readFrom, step, if_neg hnewline, step]
  have hhead : ∃ text, List.intercalate [44] ((b :: bs) :: fs) ++ 10 :: rest = b :: text := by
    cases fs <;> exact ⟨_, rfl⟩
  obtain ⟨text, htext⟩ := hhead
  have hread : readFrom count (.start []) (List.intercalate [44] ((b :: bs) :: fs) ++ 10 :: rest) =
      .ok ([] ++ (b :: bs) :: fs) :: readFrom (some ([] ++ (b :: bs) :: fs).length) .idle rest :=
    readFrom_intercalate (List.cons_ne_nil (b :: bs) fs) h hcount
  rw [htext, hidle, ← htext]
  exact hread

/-- The line of a record without quotes. -/
def line (fields : List Bytes) : Bytes := List.intercalate [44] fields ++ [10]

/-- A record that is read back from its line. -/
structure IsPlainRecord (fields : List Bytes) : Prop where
  head : ∃ f fs, fields = f :: fs ∧ f ≠ []
  plain : ∀ f ∈ fields, Plain f

/-- Records of `n` plain fields are read from their lines. -/
theorem readFrom_lines {n : ℕ} (hcount : count.all (· = n)) {records : List (List Bytes)}
    (h : ∀ fields ∈ records, IsPlainRecord fields ∧ fields.length = n) :
    readFrom count .idle (records.map line).flatten = records.map .ok := by
  induction records generalizing count with
  | nil => rfl
  | cons fields records ih =>
    obtain ⟨⟨⟨f, fs, rfl, hne⟩, hplain⟩, hlength⟩ := h fields List.mem_cons_self
    have hrest : readFrom (some n) .idle (records.map line).flatten = records.map .ok :=
      ih (by simp) fun fields' hmem => h fields' (List.mem_cons_of_mem _ hmem)
    rw [List.map_cons, List.flatten_cons, line, List.append_assoc, List.singleton_append,
      readFrom_line hne hplain (hlength ▸ hcount), hlength, hrest, List.map_cons]

theorem readAll_lines {n : ℕ} {records : List (List Bytes)}
    (h : ∀ fields ∈ records, IsPlainRecord fields ∧ fields.length = n)
    (hcr : unixLines (records.map line).flatten = (records.map line).flatten) :
    readAll (records.map line).flatten = records.map .ok := by
  rw [readAll, hcr]
  exact readFrom_lines rfl h

end Plain
end OneBrc.Lib.Csv
