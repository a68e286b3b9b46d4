import OneBrc.Server.Publication
import OneBrc.Server.Query
import OneBrc.Server.Ranking

/-! Published leaderboards: after the publication their entries change by disqualification only, in
every run that retries no listed submission. -/
namespace OneBrc.Server
open Lib StableSort

/-- All entries of a leaderboard. -/
def Leaderboard.entries (leaderboard : Leaderboard) : List LeaderboardEntry :=
  leaderboard.ranked ++ leaderboard.disqualified

/-- What a disqualification leaves of an entry. -/
def LeaderboardEntry.core (entry : LeaderboardEntry) :
    (String × String × String) × Option String × String :=
  ((entry.submissionId, entry.username, entry.language), entry.scoreNs, entry.submittedAt)

/-- The leaderboards differ by the disqualification of the `newly` disqualified submissions. -/
structure LeaderboardKept (newly : String → Bool) (before after : Leaderboard) : Prop where
  core : (after.entries.map (·.core)).Perm (before.entries.map (·.core))
  verdict : ∀ entry ∈ before.entries, ∀ entry' ∈ after.entries,
    entry'.submissionId = entry.submissionId → newly entry.submissionId = false →
    entry'.verdict = entry.verdict ∧ entry'.rank.isSome = entry.rank.isSome
  dropped : ∀ entry' ∈ after.entries, newly entry'.submissionId = true →
    entry'.verdict = Verdict.disqualified.name ∧ entry'.rank = none
  order : before.ranked.length < 2 ^ 31 → after.ranked.map (·.submissionId) =
    (before.ranked.map (·.submissionId)).filter fun id => !newly id

section Disqualification
variable {rows : List LeaderboardRecord} {board : LeaderboardBoard} {d : String → Option String}
  {newly : String → Bool}

/-- The row with the disqualification that `d` gives. -/
def LeaderboardRecord.disqualifiedBy (d : String → Option String) (row : LeaderboardRecord) :
    LeaderboardRecord := { row with disqualified := d row.id }

theorem entries_perm (rows : List LeaderboardRecord) (board : LeaderboardBoard)
    (privatePublished : Bool) : (buildLeaderboard rows board privatePublished).entries.Perm
      (rows.map (entryOf rows board privatePublished)) := by
  have hranked := sliceStable_perm lessRank
    ((rows.map (entryOf rows board privatePublished)).filter (·.rank.isSome))
  have hunranked : (buildLeaderboard rows board privatePublished).disqualified =
      (rows.map (entryOf rows board privatePublished)).filter fun entry => !entry.rank.isSome := by
    change List.filter _ _ = _
    apply List.filter_congr
    intro entry _
    rw [Option.not_isSome]
  rw [Leaderboard.entries, hunranked]
  exact (hranked.append_right _).trans (List.filter_append_perm _ _)

theorem mem_entries {rows : List LeaderboardRecord} {privatePublished : Bool}
    {entry : LeaderboardEntry} :
    entry ∈ (buildLeaderboard rows board privatePublished).entries ↔
      ∃ row ∈ rows, entryOf rows board privatePublished row = entry := by
  rw [(entries_perm rows board privatePublished).mem_iff, List.mem_map]

theorem disqualifiedBy_ids (hids : (rows.map (·.id)).Nodup) (d : String → Option String) :
    ((rows.map (LeaderboardRecord.disqualifiedBy d)).map (·.id)).Nodup := by
  rw [List.map_map]
  exact hids

/-- Rows that stay rankable are those that are not newly disqualified. -/
theorem rankable_disqualifiedBy {row : LeaderboardRecord}
    (hkeep : row.disqualified ≠ none → d row.id ≠ none)
    (hnewly : newly row.id = (row.disqualified.isNone && (d row.id).isSome)) :
    (row.disqualifiedBy d).rankable board = (row.rankable board && !newly row.id) := by
  rw [hnewly]
  change ((d row.id).isNone && _ && _) = (row.disqualified.isNone && _ && _ && _)
  cases hd : d row.id with
  | none =>
    have hnone : row.disqualified = none := by
      by_contra hne
      exact hkeep hne hd
    rw [hnone]
    simp
    rfl
  | some reason =>
    cases row.disqualified with
    | none => simp
    | some old => simp

theorem acceptedRows_disqualifiedBy
    (hkeep : ∀ row ∈ rows, row.disqualified ≠ none → d row.id ≠ none)
    (hnewly : ∀ row ∈ rows, newly row.id = (row.disqualified.isNone && (d row.id).isSome)) :
    acceptedRows (rows.map (LeaderboardRecord.disqualifiedBy d)) board =
      ((acceptedRows rows board).filter fun row => !newly row.id).map
        (LeaderboardRecord.disqualifiedBy d) := by
  unfold acceptedRows
  rw [sliceStable_filter (lessRecord_iff board), List.filter_filter, List.filter_map,
    sliceStable_map]
  congr 2
  apply List.filter_congr
  intro row hrow
  rw [Function.comp_apply, rankable_disqualifiedBy (hkeep row hrow) (hnewly row hrow),
    Bool.and_comm]

/-- Disqualifications change a leaderboard as `LeaderboardKept` says. -/
theorem leaderboardKept (hids : (rows.map (·.id)).Nodup)
    (hkeep : ∀ row ∈ rows, row.disqualified ≠ none → d row.id ≠ none)
    (hnewly : ∀ row ∈ rows, newly row.id = (row.disqualified.isNone && (d row.id).isSome)) :
    LeaderboardKept newly (buildLeaderboard rows board true)
      (buildLeaderboard (rows.map (LeaderboardRecord.disqualifiedBy d)) board true) where
  core := by
    apply ((entries_perm _ _ _).map _).trans
    refine List.Perm.trans ?_ ((entries_perm rows board true).map _).symm
    rw [List.map_map, List.map_map, List.map_map]
    cases board <;> exact List.Perm.refl _
  verdict := by
    intro entry hentry entry' hentry' hid hnew
    obtain ⟨row, hrow, rfl⟩ := mem_entries.mp hentry
    obtain ⟨_, hmem, rfl⟩ := mem_entries.mp hentry'
    obtain ⟨row', hrow', rfl⟩ := List.mem_map.mp hmem
    obtain rfl : row' = row := List.inj_on_of_nodup_map hids hrow' hrow hid
    have hnew' : newly row'.id = false := hnew
    have hsame : (d row'.id).isSome = row'.disqualified.isSome := by
      have h := hnewly row' hrow'
      rw [hnew'] at h
      cases hdis : row'.disqualified with
      | none =>
        rw [hdis] at h
        simpa using h.symm
      | some reason =>
        have hd := hkeep row' hrow' (by rw [hdis]; exact Option.some_ne_none _)
        exact Option.isSome_iff_ne_none.mpr hd
    constructor
    · change (if (d row'.id).isSome then _ else _) = if row'.disqualified.isSome then _ else _
      rw [hsame]
      rfl
    · have hids' := disqualifiedBy_ids hids d
      rw [entryOf_rank hids hrow', entryOf_rank hids' hmem, ranks_isSome hids hrow',
        ranks_isSome hids' hmem,
        rankable_disqualifiedBy (hkeep row' hrow') (hnewly row' hrow'), hnew']
      simp
  dropped := by
    intro entry' hentry' hnew
    obtain ⟨_, hmem, rfl⟩ := mem_entries.mp hentry'
    obtain ⟨row, hrow, rfl⟩ := List.mem_map.mp hmem
    have hnew' : newly row.id = true := hnew
    rw [hnewly row hrow, Bool.and_eq_true] at hnew'
    constructor
    · change (if (d row.id).isSome then _ else _) = _
      rw [if_pos hnew'.2]
    · change (if (d row.id).isSome then none else _) = _
      rw [if_pos hnew'.2]
  order := by
    intro hlen
    have hids' := disqualifiedBy_ids hids d
    have hlen' : (rows.filter (LeaderboardRecord.rankable board)).length < 2 ^ 31 := by
      rwa [ranked_length hids] at hlen
    have hlen'' : ((rows.map (LeaderboardRecord.disqualifiedBy d)).filter
        (LeaderboardRecord.rankable board)).length < 2 ^ 31 := by
      rw [← (acceptedRows_perm _ _).length_eq, acceptedRows_disqualifiedBy hkeep hnewly,
        List.length_map]
      apply (List.length_filter_le _ _).trans_lt
      rwa [(acceptedRows_perm rows board).length_eq]
    rw [ranked_eq hids' hlen'', ranked_eq hids hlen', acceptedRows_disqualifiedBy hkeep hnewly,
      List.map_map, List.map_map, List.map_map, List.filter_map]
    rfl

end Disqualification

/-- The reason for which a submission is disqualified. -/
def System.disqualifiedReason (s : System) (id : String) : Option String :=
  (s.row id).bind (·.disqualifiedReason)

/-- The submission was disqualified between the two states. -/
def newlyDisqualified (s t : System) (id : String) : Bool :=
  (s.disqualifiedReason id).isNone && (t.disqualifiedReason id).isSome

/-- From `s` to `t` the leaderboards of every language change by disqualification only. -/
def FinalLaw (config : Config) (s t : System) : Prop :=
  ∀ (tie : String → ℕ) (language : Option String), ∃ before after,
    leaderboardRows config tie language s.db = .ok before ∧
    leaderboardRows config tie language t.db = .ok after ∧
    ∀ board, LeaderboardKept (newlyDisqualified s t) (buildLeaderboard before board true)
      (buildLeaderboard after board true)

section Records
variable {config : Config} {tie : String → ℕ} {language : Option String} {s t : System}

/-- The record of a row that has a language and a verdict. -/
def leaderboardRecord (joined : User × Submission) : LeaderboardRecord where
  username := joined.1.username
  id := joined.2.id
  language := (joined.2.language.map Language.name).getD ""
  publicVerdict := (joined.2.publicVerdict.map Verdict.name).getD ""
  publicScore := joined.2.publicScoreNS.map Nat.repr
  privateVerdict := joined.2.privateVerdict.map Verdict.name
  privateScore := joined.2.privateScoreNS.map Nat.repr
  disqualified := joined.2.disqualifiedReason
  submittedAt := joined.2.uploadStartedAt

/-- The listed record of the user with this name. -/
def recordOf? (config : Config) (language : Option String) (db : Database) (username : String) :
    Option LeaderboardRecord :=
  (((db.users.get? username).bind (representativeOf config language db)).filter
    fun joined => !config.admins.contains joined.1.username).map leaderboardRecord

theorem scanLeaderboardRecord_ok {joined : User × Submission} (hlanguage : joined.2.language ≠ none)
    (hverdict : joined.2.publicVerdict ≠ none) :
    scanLeaderboardRecord joined = .ok (leaderboardRecord joined) := by
  obtain ⟨language, hl⟩ := Option.ne_none_iff_exists'.mp hlanguage
  obtain ⟨verdict, hv⟩ := Option.ne_none_iff_exists'.mp hverdict
  unfold scanLeaderboardRecord leaderboardRecord
  rw [hl, hv]
  rfl

/-- The rows of the leaderboard, when every representative has a language. -/
theorem leaderboardRows_eq {db : Database}
    (hlanguage : ∀ joined ∈ representatives config language db, joined.2.language ≠ none) :
    leaderboardRows config tie language db =
      .ok (orderBy (fun a b => a.submittedAt < b.submittedAt) (fun record => tie record.id)
        ((db.users.rows.map (·.username)).filterMap (recordOf? config language db))) := by
  have hscan : (leaderboardQuery config tie language db).mapM scanLeaderboardRecord =
      .ok ((leaderboardQuery config tie language db).map leaderboardRecord) := by
    apply Fallible.mapM_ok
    intro joined hjoined
    have hmem := mem_orderBy.mp hjoined
    obtain ⟨user, _, hof⟩ := List.mem_filterMap.mp hmem
    obtain ⟨_, _, _, _, hverdict, _⟩ := representativeOf_eq_some.mp hof
    exact scanLeaderboardRecord_ok (hlanguage joined hmem) (by rw [hverdict]; nofun)
  have hsort : (leaderboardQuery config tie language db).map leaderboardRecord =
      orderBy (fun a b => a.submittedAt < b.submittedAt) (fun record => tie record.id)
        ((representatives config language db).map leaderboardRecord) := by
    rw [orderBy_map]
    rfl
  unfold leaderboardRows
  rw [hscan, hsort]
  change Except.ok ((orderBy _ _ _).filter _) = _
  rw [orderBy_filter (f := LeaderboardRecord.submittedAt) (by simp)]
  congr 2
  unfold representatives
  rw [List.map_filterMap, List.filter_filterMap, List.filterMap_map]
  refine List.filterMap_congr fun user huser => ?_
  rw [Function.comp_apply, recordOf?, Table.get?_of_mem huser, Option.bind_some]
  cases representativeOf config language db user with
  | none => rfl
  | some joined =>
    rw [Option.map_some, Option.filter_some, Option.filter_some]
    change (if (!config.admins.contains joined.1.username) = true then _ else _) = _
    split <;> rfl

theorem recordOf?_eq_some {db : Database} {username : String} {record : LeaderboardRecord} :
    recordOf? config language db username = some record ↔
      ∃ user row id, db.users.get? username = some user ∧ username ∉ config.admins ∧
        user.representativeSubmissionId = some id ∧ db.submissions.get? id = some row ∧
        row.publicVerdict = some .accepted ∧ row.uploadStartedAt ≤ config.contestEndAt ∧
        (∀ name ∈ language, row.language.map Language.name = some name) ∧
        leaderboardRecord (user, row) = record := by
  rw [recordOf?, Option.map_eq_some_iff]
  constructor
  · rintro ⟨⟨user, row⟩, hfilter, hrecord⟩
    rw [Option.filter_eq_some_iff, Option.bind_eq_some_iff] at hfilter
    obtain ⟨⟨user', huser, hof⟩, hadmin⟩ := hfilter
    obtain ⟨id, hid, rfl, hrow, hverdict, htime, hlanguage⟩ := representativeOf_eq_some.mp hof
    have hname : user.username = username := Table.get?_key huser
    refine ⟨user, row, id, huser, ?_, hid, hrow, hverdict, htime, hlanguage, hrecord⟩
    simpa [hname] using hadmin
  · rintro ⟨user, row, id, huser, hadmin, hid, hrow, hverdict, htime, hlanguage, hrecord⟩
    have hname : user.username = username := Table.get?_key huser
    refine ⟨(user, row), ?_, hrecord⟩
    rw [Option.filter_eq_some_iff, Option.bind_eq_some_iff]
    refine ⟨⟨user, huser, representativeOf_eq_some.mpr
      ⟨id, hid, rfl, hrow, hverdict, htime, hlanguage⟩⟩, ?_⟩
    simpa [hname] using hadmin

/-- In a reachable state every representative has a language. -/
theorem representatives_language (howned : Owned s) (hpointers : Pointers config s)
    {joined : User × Submission} (h : joined ∈ representatives config language s.db) :
    joined.2.language ≠ none := by
  obtain ⟨user, huser, hof⟩ := List.mem_filterMap.mp h
  obtain ⟨id, hid, _, hrow, _⟩ := representativeOf_eq_some.mp hof
  obtain ⟨row, hrow', _, hverdict, _⟩ :=
    hpointers.named user.username user id (Table.get?_of_mem huser) hid
  obtain rfl : row = joined.2 := Option.some.inj (hrow'.symm.trans hrow)
  exact howned.uploaded id _ hrow' (howned.measured id _ hrow' hverdict)

/-- Two users have different representatives. -/
theorem records_ids (hpointers : Pointers config s) :
    (((s.db.users.rows.map (·.username)).filterMap
      (recordOf? config language s.db)).map (·.id)).Nodup := by
  rw [List.map_filterMap]
  refine List.Nodup.filterMap ?_ s.db.users.nodup
  intro name name' id hid hid'
  have howner {name : String} (h : id ∈ (recordOf? config language s.db name).map (·.id)) :
      ∃ row, s.row id = some row ∧ row.username = name := by
    obtain ⟨record, hrecord, rfl⟩ := Option.map_eq_some_iff.mp h
    obtain ⟨user, row, id', huser, _, hpointer, hrow, _, _, _, rfl⟩ :=
      recordOf?_eq_some.mp hrecord
    obtain ⟨row', hrow', hname, _⟩ := hpointers.named name user id' huser hpointer
    have hkey : row'.id = id' := Table.get?_key hrow'
    obtain rfl : row' = row := Option.some.inj (hrow'.symm.trans hrow)
    refine ⟨row', ?_, hname⟩
    change s.row row'.id = _
    rw [hkey, hrow']
  obtain ⟨row, hrow, rfl⟩ := howner hid
  obtain ⟨row', hrow', rfl⟩ := howner hid'
  rw [Option.some.inj (hrow.symm.trans hrow')]

theorem leaderboardRecord_kept {user : User} {row row' : Submission} (hkept : row.Kept row')
    (hrow' : t.row row.id = some row') : leaderboardRecord (user, row') =
      (leaderboardRecord (user, row)).disqualifiedBy t.disqualifiedReason := by
  have hresults := hkept.results
  simp only [Submission.results, Prod.mk.injEq] at hresults
  obtain ⟨⟨hverdict, hscore⟩, hprivateVerdict, hprivateScore⟩ := hresults
  have htime : row'.uploadStartedAt = row.uploadStartedAt :=
    congrArg (fun key => (ofLex key).1) hkept.order
  have hreason : t.disqualifiedReason row.id = row'.disqualifiedReason := by
    rw [System.disqualifiedReason, hrow', Option.bind_some]
  simp only [leaderboardRecord, LeaderboardRecord.disqualifiedBy, hkept.id, hkept.language,
    hverdict, hscore, hprivateVerdict, hprivateScore, htime, hreason]

/-- A pointer that names a listed row, and that row after the publication. -/
theorem pointed_listed (hpointers : Pointers config s) (hkept : ResultsKept config s t)
    {username : String} (hadmin : username ∉ config.admins) {user : User} {id : String}
    (huser : s.db.users.get? username = some user)
    (hpointer : user.representativeSubmissionId = some id) :
    ∃ row row', s.row id = some row ∧ t.row id = some row' ∧ row.id = id ∧ row.Kept row' := by
  obtain ⟨row, hrow, hname, _, htime⟩ := hpointers.named username user id huser hpointer
  obtain ⟨row', hrow', hrowKept⟩ := hkept.rows id row hrow ⟨htime, hname ▸ hadmin⟩
  exact ⟨row, row', hrow, hrow', Table.get?_key hrow, hrowKept⟩

/-- The record of a user after the publication. -/
theorem recordOf?_kept (hpointers : Pointers config s) (hkept : ResultsKept config s t)
    {username : String} (huser : s.db.users.get? username ≠ none) :
    recordOf? config language t.db username = (recordOf? config language s.db username).map
      (LeaderboardRecord.disqualifiedBy t.disqualifiedReason) := by
  have hsame (hadmin : username ∉ config.admins) :
      t.db.users.get? username = s.db.users.get? username :=
    (hkept.users username hadmin).resolve_right fun h => huser h.1
  refine Option.ext fun record => ?_
  rw [recordOf?_eq_some, Option.map_eq_some_iff]
  constructor
  · rintro ⟨user, row', id, huser', hadmin, hpointer, hget, hverdict, htime, hlanguage, rfl⟩
    rw [hsame hadmin] at huser'
    obtain ⟨row, row'', hrow, hrow', hid, hrowKept⟩ :=
      pointed_listed hpointers hkept hadmin huser' hpointer
    obtain rfl := Option.some.inj (hget.symm.trans hrow')
    refine ⟨leaderboardRecord (user, row), recordOf?_eq_some.mpr ⟨user, row, id, huser', hadmin,
      hpointer, hrow, ?_, ?_, ?_, rfl⟩, (leaderboardRecord_kept hrowKept (hid ▸ hrow')).symm⟩
    · exact (congrArg (fun results => results.1.1) hrowKept.results).symm.trans hverdict
    · exact (congrArg (fun key => (ofLex key).1) hrowKept.order).symm.trans_le htime
    · rwa [← hrowKept.language]
  · rintro ⟨_, hrecord, rfl⟩
    obtain ⟨user, row, id, huser', hadmin, hpointer, hget, hverdict, htime, hlanguage, rfl⟩ :=
      recordOf?_eq_some.mp hrecord
    obtain ⟨row₀, row', hrow, hrow', hid, hrowKept⟩ :=
      pointed_listed hpointers hkept hadmin huser' hpointer
    obtain rfl := Option.some.inj (hget.symm.trans hrow)
    refine ⟨user, row', id, (hsame hadmin).trans huser', hadmin, hpointer, hrow', ?_, ?_, ?_,
      leaderboardRecord_kept hrowKept (hid ▸ hrow')⟩
    · exact (congrArg (fun results => results.1.1) hrowKept.results).trans hverdict
    · exact (congrArg (fun key => (ofLex key).1) hrowKept.order).trans_le htime
    · rwa [hrowKept.language]

/-- A user without a record before the publication has none after it. -/
theorem recordOf?_new (hkept : ResultsKept config s t) {username : String}
    (huser : s.db.users.get? username = none) :
    recordOf? config language t.db username = none := by
  rw [Option.eq_none_iff_forall_ne_some]
  intro record hrecord
  obtain ⟨user, _, id, huser', hadmin, hpointer, _⟩ := recordOf?_eq_some.mp hrecord
  rcases hkept.users username hadmin with hsame | ⟨_, hnew⟩
  · rw [hsame, huser] at huser'
    contradiction
  · obtain rfl := Option.some.inj (hnew.symm.trans huser')
    contradiction

/-- The records after the publication, in the order of the users. -/
theorem records_kept (hpointers : Pointers config s) (hkept : ResultsKept config s t) :
    (t.db.users.rows.map (·.username)).filterMap (recordOf? config language t.db) =
      ((s.db.users.rows.map (·.username)).filterMap (recordOf? config language s.db)).map
        (LeaderboardRecord.disqualifiedBy t.disqualifiedReason) := by
  obtain ⟨extra, hnames⟩ := hkept.names
  have hextra : extra.filterMap (recordOf? config language t.db) = [] := by
    rw [List.filterMap_eq_nil_iff]
    intro name hname
    apply recordOf?_new hkept
    have hnodup : (s.db.users.rows.map (·.username) ++ extra).Nodup :=
      hnames ▸ t.db.users.nodup
    cases huser : s.db.users.get? name with
    | none => rfl
    | some user =>
      have hkey : user.username = name := Table.get?_key huser
      have hmem : name ∈ s.db.users.rows.map (·.username) :=
        hkey ▸ List.mem_map_of_mem (Table.mem_of_get? huser)
      exact absurd hname (List.disjoint_of_nodup_append hnodup hmem)
  rw [← hnames, List.filterMap_append, hextra, List.append_nil, List.map_filterMap]
  refine List.filterMap_congr fun name hname => ?_
  apply recordOf?_kept hpointers hkept
  obtain ⟨user, huser, rfl⟩ := List.mem_map.mp hname
  rw [Table.get?_of_mem huser]
  exact Option.some_ne_none _

/-- Records of listed rows show their disqualification, which the rows keep. -/
theorem record_disqualified (hpointers : Pointers config s) (hkept : ResultsKept config s t)
    {record : LeaderboardRecord} (hrecord : record ∈ (s.db.users.rows.map (·.username)).filterMap
      (recordOf? config language s.db)) :
    s.disqualifiedReason record.id = record.disqualified ∧
      (record.disqualified ≠ none → t.disqualifiedReason record.id ≠ none) := by
  obtain ⟨name, _, hof⟩ := List.mem_filterMap.mp hrecord
  obtain ⟨user, row, id, huser, hadmin, hpointer, hget, _, _, _, rfl⟩ := recordOf?_eq_some.mp hof
  obtain ⟨row₀, row', hrow, hrow', hid, hrowKept⟩ :=
    pointed_listed hpointers hkept hadmin huser hpointer
  obtain rfl := Option.some.inj (hget.symm.trans hrow)
  have hreason {u : System} {other : Submission} (hother : u.row id = some other) :
      u.disqualifiedReason row.id = other.disqualifiedReason := by
    rw [hid, System.disqualifiedReason, hother, Option.bind_some]
  constructor
  · exact hreason hrow
  · intro hdisqualified
    change t.disqualifiedReason row.id ≠ none
    rw [hreason hrow']
    exact hrowKept.disqualified hdisqualified

end Records

/-- Published leaderboards change by disqualification only, in every run in which no listed
submission is retried or still being measured once the results are closed. -/
theorem finalLaw_of_keepsResults {config : Config} {s t : System}
    (hs : (contestSystem config).Reachable (KeepsResults config) s)
    (hpublished : s.db.contestState.privatePublishedAt ≠ none)
    (h : (contestSystem config).Path
      (fun s a => KeepsResults config s a ∧ a ≠ .admin .unpublish) s t) :
    FinalLaw config s t := by
  have ht : (contestSystem config).Reachable TransitionSystem.Free t :=
    hs.free.path (h.mono fun _ _ _ => trivial)
  have hkept := resultsKept hs hpublished h
  have hpointers : Pointers config s := pointers hs.free
  intro tie language
  refine ⟨_, _, leaderboardRows_eq fun joined hjoined =>
      representatives_language (owned hs.free) hpointers hjoined,
    leaderboardRows_eq fun joined hjoined =>
      representatives_language (owned ht) (pointers ht) hjoined, ?_⟩
  intro board
  rw [records_kept hpointers hkept, orderBy_map]
  refine leaderboardKept ?_ ?_ ?_
  · rw [((orderBy_perm ..).map fun record : LeaderboardRecord => record.id).nodup_iff]
    exact records_ids hpointers
  · intro record hrecord
    exact (record_disqualified hpointers hkept (mem_orderBy.mp hrecord)).2
  · intro record hrecord
    rw [newlyDisqualified,
      (record_disqualified hpointers hkept (mem_orderBy.mp hrecord)).1]

/-- The steps of a contest with one submission up to the publication; `result` is what the
benchmark of the submission returned, if it returned. -/
def publishedRun (result : Option RunnerJobResult) : List Action :=
  boot 0 ++ lead 0 ++ accept 0 "a" "alice" ⟨.ruby, .ruby, "main.rb", [], "e3b0", "e3b0"⟩ ++
    (match result with
      | none => benchmarkFailure 0
      | some result => benchmark 0 result ++
          [.worker 0 (.storeResult true), .worker 0 (.cleanup true)]) ++
    [.tick 200, .admin .publishCheck, .admin .publishCommit]

theorem finalLaw_disqualified : ∃ s t, FinalLaw ⟨"1brc", 0, 100, [], "env"⟩ s t ∧
    newlyDisqualified s t "a" = true := by
  have hrun : ((contestSystem ⟨"1brc", 0, 100, [], "env"⟩).run
      (KeepsResults ⟨"1brc", 0, 100, [], "env"⟩) .initial
      (publishedRun (some ⟨⟨.accepted, some ["5"], some "5", none⟩, none, "env"⟩))).any (fun s =>
        s.db.contestState.privatePublishedAt.isSome &&
        ((contestSystem ⟨"1brc", 0, 100, [], "env"⟩).run
          (fun s a => KeepsResults ⟨"1brc", 0, 100, [], "env"⟩ s a ∧ a ≠ .admin .unpublish) s
          [.admin (.disqualify "a" "")]).any fun t => newlyDisqualified s t "a") = true := by
    decide
  obtain ⟨s, hs, hcheck⟩ := TransitionSystem.exists_path_of_run hrun
  rw [Bool.and_eq_true] at hcheck
  obtain ⟨t, ht, hnewly⟩ := TransitionSystem.exists_path_of_run hcheck.2
  exact ⟨s, t, finalLaw_of_keepsResults hs (Option.isSome_iff_ne_none.mp hcheck.1) ht, hnewly⟩

/-- A submission whose benchmark failed is retried after the publication, and enters the
leaderboards. -/
theorem not_finalLaw : ¬ ∀ (config : Config) (s t : System),
    (contestSystem config).Reachable TransitionSystem.Free s →
    s.db.contestState.privatePublishedAt ≠ none →
    (contestSystem config).Path (fun _ a => a ≠ .admin .unpublish) s t → FinalLaw config s t := by
  intro hall
  have hrun : ((contestSystem ⟨"1brc", 0, 100, [], "env"⟩).run TransitionSystem.Free .initial
      (publishedRun none)).any (fun s => s.db.contestState.privatePublishedAt.isSome &&
        (leaderboardRows ⟨"1brc", 0, 100, [], "env"⟩ (fun _ => 0) none s.db).toOption = some [] &&
        ((contestSystem ⟨"1brc", 0, 100, [], "env"⟩).run (fun _ a => a ≠ .admin .unpublish) s
          (.admin (.retry "a") :: benchmark 0 ⟨⟨.accepted, some ["5"], some "5", none⟩, none, "env"⟩
            ++ [.worker 0 (.storeResult true)])).any fun t =>
          (leaderboardRows ⟨"1brc", 0, 100, [], "env"⟩ (fun _ => 0) none t.db).toOption.map
            List.length = some 1) = true := by
    decide
  obtain ⟨s, hs, hcheck⟩ := TransitionSystem.exists_path_of_run hrun
  simp only [Bool.and_eq_true, decide_eq_true_eq] at hcheck
  obtain ⟨⟨hpublished, hempty⟩, hlater⟩ := hcheck
  obtain ⟨t, ht, hone⟩ := TransitionSystem.exists_path_of_run hlater
  obtain ⟨before, after, hbefore, hafter, hkept⟩ :=
    hall _ s t hs (Option.isSome_iff_ne_none.mp hpublished) ht (fun _ => 0) none
  rw [hbefore] at hempty
  rw [hafter] at hone
  obtain rfl := Option.some.inj hempty
  have hlength := (hkept .publicBoard).core.length_eq
  rw [List.length_map, List.length_map, (entries_perm _ _ _).length_eq,
    (entries_perm _ _ _).length_eq, List.length_map] at hlength
  have hafterLength : after.length = 1 := Option.some.inj (of_decide_eq_true hone)
  rw [hafterLength] at hlength
  exact Nat.one_ne_zero hlength

end OneBrc.Server
