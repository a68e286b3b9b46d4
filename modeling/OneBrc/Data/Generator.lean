import OneBrc.Analyzer.Messages
import OneBrc.Data.ChannelPaths

/-! The generator of datasets. The random source yields the draws of each row; what becomes of them
is computed here. -/
namespace OneBrc.Data
open Lib Analyzer ChannelPaths

inductive Wordset where
  | publicWordset
  | privateWordset
  deriving DecidableEq

def publicWords : Fin 5 → List String := ![
  ["team", "project", "club", "lab", "class", "event", "help", "bot", "game", "music", "art",
    "book", "photo", "video", "news", "data", "infra", "design", "staff", "admin", "sales", "ops",
    "home", "work"],
  ["core", "dev", "web", "app", "api", "mobile", "server", "client", "data", "search", "auth",
    "chat", "voice", "image", "build", "test", "docs", "plan", "meet", "room", "topic", "note",
    "task", "release", "support", "random", "social", "media", "study", "learn", "write", "read"],
  ["main", "alpha", "beta", "green", "blue", "red", "gold", "fast", "slow", "daily", "weekly",
    "night", "idea", "bug", "fix", "review", "deploy", "log", "alert", "queue", "cache", "store",
    "index", "job", "skill", "tool", "link", "feed", "draft", "memo", "board", "map"],
  ["open", "close", "new", "old", "hot", "cold", "north", "south", "east", "west", "local",
    "global", "public", "private", "small", "large", "light", "dark", "early", "late", "first",
    "last", "next", "back", "front", "inner", "outer", "quiet", "active", "ready", "live", "safe"],
  ["inbox", "outbox", "todo", "done", "wait", "hold", "sync", "async", "push", "pull", "send",
    "recv", "read", "write", "edit", "view", "watch", "build", "ship", "run", "test", "check",
    "note", "memo", "list", "grid", "feed", "chat", "voice", "call", "desk", "room"]]

def privateWords : Fin 5 → List String := ![
  ["circle", "square", "river", "mountain", "forest", "ocean", "garden", "bridge", "castle",
    "market", "station", "kitchen", "library", "museum", "theater", "hospital", "airport",
    "factory", "office", "school", "temple", "harbor", "village", "planet"],
  ["engine", "window", "button", "canvas", "column", "cursor", "dialog", "filter", "header",
    "layout", "module", "packet", "parser", "query", "router", "schema", "socket", "stream",
    "table", "token", "widget", "worker", "archive", "branch", "commit", "console", "kernel",
    "memory", "network", "portal", "script", "signal"],
  ["amber", "bronze", "coral", "silver", "violet", "yellow", "rapid", "gentle", "hourly",
    "monthly", "morning", "sunset", "concept", "issue", "patch", "audit", "launch", "trace",
    "notice", "stack", "buffer", "vault", "catalog", "process", "talent", "device", "route",
    "digest", "sketch", "record", "panel", "chart"],
  ["above", "below", "fresh", "ancient", "warm", "cool", "upward", "downward", "leftward",
    "rightward", "nearby", "remote", "shared", "hidden", "narrow", "broad", "bright", "shadow",
    "sooner", "later", "primary", "final", "forward", "inward", "outward", "silent", "busy",
    "stable", "online", "secure", "vacant", "pending"],
  ["entry", "exit", "begin", "finish", "pause", "resume", "upload", "download", "import", "export",
    "accept", "reject", "create", "remove", "update", "browse", "follow", "compile", "deliver",
    "execute", "verify", "message", "report", "folder", "screen", "terminal", "calendar",
    "contact", "account", "profile", "status", "summary"]]

def wordsOf : Wordset → Fin 5 → List String
  | .publicWordset => publicWords
  | .privateWordset => privateWords

def channelWordsets (wordset : Wordset) : WordTable := fun level =>
  (wordsOf wordset level).map fun word => Utf8.encodeAscii word.toList

/-- The draw of `pickStampCount`: how far it gets, and what it draws there. -/
inductive StampDraw where
  | zero
  | few (n : Fin 3)
  | several (goesOn : ℕ → Bool)
  | many (goesOn : ℕ → Bool)

/-- The draws of a row: a value of the Zipf distribution up to `imax`, the day and the hour that
the weights select, the minute and the second, a rounded length and the stamps. A draw of
milliseconds does not change the second. -/
structure Draw (imax : ℕ) where
  channel : Fin (imax + 1)
  day : Fin 365
  hour : Fin 24
  minute : Fin 60
  second : Fin 60
  length : ℤ
  stamps : StampDraw

/-- The draws that fail to stop the loop, 200 at most. -/
def geometric (goesOn : ℕ → Bool) : ℕ := ((List.range 200).takeWhile goesOn).length

/-- In seconds; the day is counted from the first of January 2027. -/
def pickTimestamp {imax : ℕ} (d : Draw imax) : ℕ :=
  yearStart + d.day * 86400 + d.hour * 3600 + d.minute * 60 + d.second

def pickMessageLength {imax : ℕ} (d : Draw imax) : ℕ :=
  if d.length < 1 then 1 else if d.length > 12000 then 12000 else d.length.toNat

def pickStampCount {imax : ℕ} (d : Draw imax) : ℕ :=
  match d.stamps with
  | .zero => 0
  | .few n => 1 + n
  | .several goesOn => 4 + geometric goesOn
  | .many goesOn => 12 + geometric goesOn

/-- The numbers and the path that `appendRow` prints; `none` when there is no such channel. -/
def appendRow {imax : ℕ} (paths : List Word) (d : Draw imax) : Option Row := do
  let path ← paths[d.channel.val]?
  some ⟨pickTimestamp d, path, pickMessageLength d, pickStampCount d⟩

/-- A stream of draws for each seed and greatest value of the Zipf distribution. -/
abbrev Random := Int64 → (imax : ℕ) → ℕ → Draw imax

structure Options where
  rows : Int64
  channels : Int64
  seed : Int64
  wordset : Wordset

inductive GenerateError where
  | message (text : String)
  | panic

/-- The rows of a file. -/
def generateRows (random : Random) (options : Options) : Except GenerateError (List Row) :=
  if options.rows < 0 then .error (.message "rows must be greater than or equal to 0")
  else if options.channels ≤ 0 then .error (.message "channels must be greater than 0")
  else match buildChannelPaths options.channels (channelWordsets options.wordset) with
    | .error => .error (.message "channel count exceeds channel path capacity")
    | .panic => .error .panic
    | .paths paths =>
        match (List.range options.rows.toInt.toNat).mapM fun i =>
            appendRow paths (random options.seed (options.channels.toInt.toNat - 1) i) with
        | none => .error .panic
        | some rows => .ok rows

/-- The contents of the file. -/
def generateFile (random : Random) (options : Options) : Except GenerateError Bytes := do
  let rows ← generateRows random options
  return csv rows

/-- What every generated row keeps to. -/
structure Generated (r : Row) : Prop where
  in2027 : In2027 r.timestamp
  path : IsChannelPath r.path
  letters : ∀ b ∈ r.path, b = slash ∨ 97 ≤ b ∧ b ≤ 122
  messageLength_pos : 1 ≤ r.messageLength
  messageLength_le : r.messageLength ≤ 12000
  stampCount_le : r.stampCount ≤ 212

theorem Generated.valid {r : Row} (h : Generated r) : r.Valid where
  in2027 := h.in2027
  path_ne := h.path.ne_nil
  comma_notMem hmem := (h.path.byte comma hmem).2.1 rfl
  newline_notMem hmem := (h.path.byte newline hmem).2.2 rfl

section Words

/-- The words are short and in lower case. -/
theorem channelWordsets_word : ∀ wordset level, ∀ word ∈ channelWordsets wordset level,
    (1 ≤ word.length ∧ word.length ≤ 20) ∧ ∀ b ∈ word, 97 ≤ b ∧ b ≤ 122 := by
  -- Booleans, since the letters of a word are few but there are 256 bytes.
  have hall : ∀ wordset level, ∀ word ∈ channelWordsets wordset level,
      (1 ≤ word.length ∧ word.length ≤ 20) ∧
        (word.all fun b => decide (97 ≤ b) && decide (b ≤ 122)) = true := by
    intro wordset
    cases wordset <;> decide +kernel
  intro wordset level word hword
  obtain ⟨hlength, hletters⟩ := hall wordset level word hword
  refine ⟨hlength, fun b hb => ?_⟩
  simpa only [Bool.and_eq_true, decide_eq_true_eq] using List.all_eq_true.mp hletters b hb

theorem channelWordsets_wellFormed (wordset : Wordset) : WellFormed (channelWordsets wordset) where
  words_ne := by cases wordset <;> decide +kernel
  word_ne level word hword := by
    rintro rfl
    exact absurd (channelWordsets_word wordset level [] hword).1.1 (by decide)
  slash level word hword hmem :=
    absurd ((channelWordsets_word wordset level word hword).2 47 hmem).1 (by decide)
  nodup := by cases wordset <;> decide +kernel

theorem channelWordsets_count (wordset : Wordset) :
    pathCount (channelWordsets wordset) 5 < 2 ^ 63 ∧
      65536 ≤ pathTotal (channelWordsets wordset) := by
  cases wordset <;> decide +kernel

theorem channelWordsets_bounded (wordset : Wordset) {n : ℕ} (h : n ≤ 65536) :
    Bounded (channelWordsets wordset) n where
  words_ne := (channelWordsets_wellFormed wordset).words_ne
  capacity := (channelWordsets_count wordset).1
  count := by omega

/-- A path of words is one of the contest. -/
theorem isChannelPath_of_isPath {wordset : Wordset} {path : Word}
    (h : IsPath (channelWordsets wordset) path) :
    IsChannelPath path ∧ ∀ b ∈ path, b = slash ∨ 97 ≤ b ∧ b ≤ 122 := by
  obtain ⟨depth, parts, hpos, hle, rfl, hparts⟩ := h
  have hlength : parts.length = depth := by
    rw [← hparts.length_eq, levels, List.length_take, List.length_finRange]
    omega
  have hword : ∀ part ∈ parts, (1 ≤ part.length ∧ part.length ≤ 20) ∧
      ∀ b ∈ part, 97 ≤ b ∧ b ≤ 122 := by
    intro part hpart
    obtain ⟨i, hi, rfl⟩ := List.mem_iff_getElem.mp hpart
    exact channelWordsets_word wordset _ _ (hparts.get (by rw [hparts.length_eq]; exact hi) hi)
  constructor
  · refine ⟨parts, rfl, by omega, by omega, ?_⟩
    intro part hpart
    obtain ⟨⟨hmin, hmax⟩, hletters⟩ := hword part hpart
    refine ⟨hmin, hmax, fun b hb => ?_⟩
    obtain ⟨hlow, hhigh⟩ := hletters b hb
    rw [UInt8.le_iff_toNat_le] at hlow hhigh
    have hne (c : UInt8) (hc : c.toNat < 97) : b ≠ c := by
      rintro rfl
      exact absurd hlow (by simpa using hc)
    exact ⟨UInt8.lt_iff_toNat_lt.mpr (Nat.lt_of_le_of_lt hhigh (by decide)), hne _ (by decide),
      hne _ (by decide), hne _ (by decide)⟩
  · intro b hb
    rcases mem_intercalate hb with rfl | ⟨part, hpart, hmem⟩
    · exact .inl rfl
    · exact .inr ((hword part hpart).2 b hmem)

end Words

section Draws
variable {imax : ℕ} (d : Draw imax)

theorem pickMessageLength_bounds : 1 ≤ pickMessageLength d ∧ pickMessageLength d ≤ 12000 := by
  unfold pickMessageLength
  split
  · decide
  · split
    · decide
    · omega

theorem geometric_le (goesOn : ℕ → Bool) : geometric goesOn ≤ 200 := by
  have hle := (List.takeWhile_sublist goesOn (l := List.range 200)).length_le
  rwa [List.length_range] at hle

theorem pickStampCount_le : pickStampCount d ≤ 212 := by
  unfold pickStampCount
  split
  · decide
  · omega
  · next goesOn _ =>
    have hle := geometric_le goesOn
    omega
  · next goesOn _ =>
    have hle := geometric_le goesOn
    omega

theorem year_eq : ∀ day : Fin 365, (CivilTime.civilFromDays (20819 + day)).year = 2027 := by
  decide +kernel

theorem in2027_pickTimestamp : In2027 (pickTimestamp d) := by
  have hday : pickTimestamp d / 86400 = 20819 + d.day := by
    have hstart : yearStart = 20819 * 86400 := rfl
    unfold pickTimestamp
    omega
  rw [In2027, hday]
  exact year_eq d.day

end Draws

section Rows
variable {random : Random} {options : Options} {rows : List Row}

theorem generated_row {imax : ℕ} {paths : List Word} (d : Draw imax)
    (hpath : ∀ path ∈ paths, IsPath (channelWordsets options.wordset) path)
    (hlength : paths.length = imax + 1) : ∃ r, appendRow paths d = some r ∧ Generated r ∧
      r.path ∈ paths := by
  have hchannel : paths[d.channel.val]? = some paths[d.channel.val] :=
    List.getElem?_eq_getElem _
  have hmem : paths[d.channel.val] ∈ paths := List.getElem_mem _
  obtain ⟨hcontest, hletters⟩ := isChannelPath_of_isPath (hpath _ hmem)
  refine ⟨⟨pickTimestamp d, paths[d.channel.val], pickMessageLength d, pickStampCount d⟩, ?_,
    ⟨in2027_pickTimestamp d, hcontest, hletters, (pickMessageLength_bounds d).1,
      (pickMessageLength_bounds d).2, pickStampCount_le d⟩, hmem⟩
  simp only [appendRow, hchannel, bind, Option.bind]

/-- The loop of the generator fails for no row. -/
theorem mapM_appendRow {imax : ℕ} {paths : List Word} (draws : ℕ → Draw imax)
    (hpath : ∀ path ∈ paths, IsPath (channelWordsets options.wordset) path)
    (hlength : paths.length = imax + 1) (is : List ℕ) :
    ∃ rows, (is.mapM fun i => appendRow paths (draws i)) = some rows ∧ rows.length = is.length ∧
      ∀ r ∈ rows, Generated r ∧ r.path ∈ paths := by
  induction is with
  | nil => exact ⟨[], rfl, rfl, by simp⟩
  | cons i is ih =>
    obtain ⟨rows, hrows, hcount, hall⟩ := ih
    obtain ⟨r, hr, hgen, hmem⟩ := generated_row (draws i) hpath hlength
    refine ⟨r :: rows, ?_, congrArg (· + 1) hcount, List.forall_mem_cons.mpr ⟨⟨hgen, hmem⟩, hall⟩⟩
    rw [List.mapM_cons, hr, hrows]
    rfl

/-- The rows of a file, as many as it shall have. -/
structure IsDataset (options : Options) (rows : List Row) : Prop where
  length : rows.length = options.rows.toInt.toNat
  generated : ∀ r ∈ rows, Generated r
  channels : (rows.map Row.path).dedup.length ≤ options.channels.toInt.toNat

variable (random options) in
/-- With enough words for the channels the generator writes its rows. -/
theorem exists_generateRows (hrows : 0 ≤ options.rows) (hpos : 0 < options.channels)
    (hle : options.channels ≤ 65536) :
    ∃ rows, generateRows random options = .ok rows ∧ IsDataset options rows := by
  have hpos' : 0 < options.channels.toInt := Int64.lt_iff_toInt_lt.mp hpos
  have hle' : options.channels.toInt ≤ 65536 := Int64.le_iff_toInt_le.mp hle
  obtain ⟨n, hn⟩ := Int.eq_ofNat_of_zero_le hpos'.le
  have hcount : options.channels = Int64.ofNat n := by
    rw [← Int64.ofInt_toInt options.channels, hn]
    rfl
  obtain ⟨-, -, -, hmade, -⟩ := buildChannelPaths_spec
    (channelWordsets_wellFormed options.wordset)
    (channelWordsets_bounded options.wordset (show n ≤ 65536 by omega))
  have htotal := (channelWordsets_count options.wordset).2
  obtain ⟨paths, hpaths, hlength, -, hpath⟩ := (hmade (by omega)).1 (by omega)
  have hchannels : options.channels.toInt.toNat = n := by omega
  obtain ⟨rows, hrun, hlen, hall⟩ := mapM_appendRow
    (random options.seed (options.channels.toInt.toNat - 1)) hpath (by omega)
    (List.range options.rows.toInt.toNat)
  refine ⟨rows, ?_, hlen.trans List.length_range, fun r hr => (hall r hr).1, ?_⟩
  · rw [generateRows, if_neg (Int64.not_lt.mpr hrows), if_neg (Int64.not_le.mpr hpos),
      congrArg (buildChannelPaths · _) hcount, hpaths]
    dsimp only
    rw [hrun]
  · have hsub : (rows.map Row.path).dedup.Subperm paths := by
      apply List.subperm_of_subset (List.nodup_dedup _)
      intro path hmem
      obtain ⟨r, hr, rfl⟩ := List.mem_map.mp (List.mem_dedup.mp hmem)
      exact (hall r hr).2
    exact hsub.length_le.trans (hlength.trans hchannels.symm).le

theorem generateRows_isDataset (hle : options.channels ≤ 65536)
    (hrun : generateRows random options = .ok rows) : IsDataset options rows := by
  have hrows : 0 ≤ options.rows := by
    by_contra h
    rw [generateRows, if_pos (Int64.not_le.mp h)] at hrun
    contradiction
  have hpos : 0 < options.channels := by
    by_contra h
    rw [generateRows, if_neg (Int64.not_lt.mpr hrows), if_pos (Int64.not_lt.mp h)] at hrun
    contradiction
  obtain ⟨rows', hrun', h⟩ := exists_generateRows random options hrows hpos hle
  obtain rfl := Except.ok.inj (hrun.symm.trans hrun')
  exact h

/-- Every part of a dataset can be scanned by the generator of expected outputs. -/
theorem scannable_of_subset {part : List Row} (h : IsDataset options rows)
    (hle : options.channels ≤ 65536) (hpart : part ⊆ rows) : Expected.Scannable part where
  valid r hr := (h.generated r (hpart hr)).valid
  channels := by
    have hle' : options.channels.toInt ≤ 65536 := Int64.le_iff_toInt_le.mp hle
    have hsub : (part.map Row.path).dedup.Subperm (rows.map Row.path).dedup := by
      apply List.subperm_of_subset (List.nodup_dedup _)
      intro path hmem
      obtain ⟨r, hr, rfl⟩ := List.mem_map.mp (List.mem_dedup.mp hmem)
      exact List.mem_dedup.mpr (List.mem_map_of_mem (hpart hr))
    have hlength := hsub.length_le.trans h.channels
    omega
  path_lt r hr := Nat.lt_of_le_of_lt (h.generated r (hpart hr)).path.length_le (by decide)

end Rows
end OneBrc.Data
