import Mathlib.Data.Set.Card
import Mathlib.Logic.Encodable.Basic
import Mathlib.Logic.Equiv.List
import OneBrc.Server.Finality
import OneBrc.Server.Ranking
import OneBrc.Server.Representative
import OneBrc.Web.Leaderboard

/-! The last frame of the replay and the private leaderboard list the same submissions. They order
them alike up to ties of equal scores in one millisecond. -/
namespace OneBrc.Server
open Lib StableSort

/-- What is compared of an entry. -/
def LeaderboardEntry.standing (entry : LeaderboardEntry) :
    Option ℤ × String × String × Option String :=
  (entry.rank, entry.username, entry.submissionId, entry.scoreNs)

/-- The user's representative, if it has a place on the private board. -/
structure Listed (config : Config) (language : Option String) (s : System) (row : Submission) :
    Prop where
  stored : s.row row.id = some row
  latest : IsGreatest (s.eligible config row.username) row.order
  contestant : row.username ∉ config.admins
  language : ∀ name ∈ language, row.language.map Language.name = some name
  fair : row.disqualifiedReason = none
  accepted : row.privateVerdict = some .accepted
  scored : row.privateScoreNS ≠ none

/-- The first accepted submission of one user is before those of another one. -/
def System.startsBefore (s : System) (config : Config) (username other : String) : Prop :=
  ∃ p ∈ s.eligible config username, ∀ q ∈ s.eligible config other, p < q

/-- Representatives with one score that were uploaded in one millisecond come in the order in which
their users had their first accepted submission. -/
def TiesAgree (config : Config) (tie : String → ℕ) (language : Option String) (s : System) : Prop :=
  ∀ a b, Listed config language s a → Listed config language s b →
    a.privateScoreNS = b.privateScoreNS → a.uploadStartedAt / 1000 = b.uploadStartedAt / 1000 →
    toLex (a.uploadStartedAt, tie a.id) < toLex (b.uploadStartedAt, tie b.id) →
    s.startsBefore config a.username b.username

section
variable {config : Config} {tie : String → ℕ} {language : Option String} {s : System}
  {row : Submission}

def Submission.privateScore (row : Submission) : ℕ := row.privateScoreNS.getD 0

/-- The record of a row, under the name of its user. -/
def Submission.record (row : Submission) : LeaderboardRecord :=
  leaderboardRecord (⟨row.username, none⟩, row)

/-- The listed row of the user with this name. -/
def rowOf? (config : Config) (language : Option String) (db : Database) (username : String) :
    Option Submission :=
  (((db.users.get? username).bind (representativeOf config language db)).filter
    fun joined => !config.admins.contains joined.1.username).map (·.2)

theorem rowOf?_eq_some {db : Database} {username : String} :
    rowOf? config language db username = some row ↔
      ∃ user id, db.users.get? username = some user ∧ username ∉ config.admins ∧
        user.representativeSubmissionId = some id ∧ db.submissions.get? id = some row ∧
        row.publicVerdict = some .accepted ∧ row.uploadStartedAt ≤ config.contestEndAt ∧
        ∀ name ∈ language, row.language.map Language.name = some name := by
  rw [rowOf?, Option.map_eq_some_iff]
  constructor
  · rintro ⟨⟨user, _⟩, hfilter, rfl⟩
    rw [Option.filter_eq_some_iff, Option.bind_eq_some_iff] at hfilter
    obtain ⟨⟨user', huser, hof⟩, hadmin⟩ := hfilter
    obtain ⟨id, hid, rfl, hrest⟩ := representativeOf_eq_some.mp hof
    have hname : user.username = username := Table.get?_key huser
    exact ⟨user, id, huser, by simpa [hname] using hadmin, hid, hrest⟩
  · rintro ⟨user, id, huser, hadmin, hid, hrest⟩
    have hname : user.username = username := Table.get?_key huser
    refine ⟨(user, row), ?_, rfl⟩
    rw [Option.filter_eq_some_iff]
    refine ⟨Option.bind_eq_some_iff.mpr ⟨user, huser, ?_⟩, by simpa [hname] using hadmin⟩
    exact representativeOf_eq_some.mpr ⟨id, hid, rfl, hrest⟩

theorem recordOf?_eq (hpointers : Pointers config s) (username : String) :
    recordOf? config language s.db username =
      (rowOf? config language s.db username).map Submission.record := by
  rw [recordOf?, rowOf?, Option.map_map]
  cases hjoined : ((s.db.users.get? username).bind (representativeOf config language s.db)).filter
      fun joined => !config.admins.contains joined.1.username with
  | none => rfl
  | some joined =>
    obtain ⟨user, row⟩ := joined
    rw [Option.filter_eq_some_iff, Option.bind_eq_some_iff] at hjoined
    obtain ⟨⟨user', huser, hof⟩, _⟩ := hjoined
    obtain ⟨id, hid, rfl, hrow, _⟩ := representativeOf_eq_some.mp hof
    obtain ⟨row', hrow', hname', _⟩ := hpointers.named username user id huser hid
    obtain rfl : row' = row := Option.some.inj (hrow'.symm.trans hrow)
    have hname : user.username = row'.username := (Table.get?_key huser).trans hname'.symm
    simp [Submission.record, leaderboardRecord, hname]

theorem Submission.rankable_record : row.record.rankable .privateBoard = true ↔
    row.disqualifiedReason = none ∧ row.privateVerdict = some .accepted ∧
      row.privateScoreNS ≠ none := by
  have hverdict : (row.privateVerdict.map Verdict.name).getD "" = Verdict.accepted.name ↔
      row.privateVerdict = some .accepted := by
    cases row.privateVerdict with
    | none => decide
    | some verdict => cases verdict <;> decide
  have hscore : row.privateScoreNS.map Nat.repr ≠ none ↔ row.privateScoreNS ≠ none := by simp
  rw [rankable_iff, ← hverdict, ← hscore]
  rfl

/-- The rows of the leaderboard query without those of administrators. -/
def contestantRows (config : Config) (tie : String → ℕ) (language : Option String)
    (db : Database) : List Submission :=
  orderBy (fun a b => a.uploadStartedAt < b.uploadStartedAt) (fun row => tie row.id)
    ((db.users.rows.map (·.username)).filterMap (rowOf? config language db))

theorem leaderboardRows_record (howned : Owned s) (hpointers : Pointers config s) :
    leaderboardRows config tie language s.db =
      .ok ((contestantRows config tie language s.db).map Submission.record) := by
  rw [leaderboardRows_eq fun joined h => representatives_language howned hpointers h,
    funext (recordOf?_eq hpointers), ← List.map_filterMap, orderBy_map]
  rfl

/-- The rankable rows in the order of the private board. -/
def boardOrder (config : Config) (tie : String → ℕ) (language : Option String)
    (db : Database) : List Submission :=
  sliceStable (fun a b => lessRecord .privateBoard a.record b.record)
    ((contestantRows config tie language db).filter fun row => row.record.rankable .privateBoard)

theorem acceptedRows_record :
    acceptedRows ((contestantRows config tie language s.db).map Submission.record) .privateBoard =
      (boardOrder config tie language s.db).map Submission.record := by
  rw [acceptedRows, List.filter_map, sliceStable_map]
  rfl

theorem mem_contestantRows (howned : Owned s) (hlaw : RepresentativeLaw config s) :
    row ∈ contestantRows config tie language s.db ↔
      s.row row.id = some row ∧ IsGreatest (s.eligible config row.username) row.order ∧
        row.username ∉ config.admins ∧
        ∀ name ∈ language, row.language.map Language.name = some name := by
  rw [contestantRows, mem_orderBy, List.mem_filterMap]
  constructor
  · rintro ⟨name, _, hof⟩
    obtain ⟨user, id, huser, hadmin, hid, hrow, _, _, hlanguage⟩ := rowOf?_eq_some.mp hof
    obtain ⟨o, htracks, hpointer⟩ := hlaw name user huser
    rw [hid] at hpointer
    obtain ⟨key, rfl, rfl⟩ := Option.map_eq_some_iff.mp hpointer.symm
    obtain ⟨row', hrow', horder, hname, _⟩ := eligible_row htracks.mem
    obtain rfl : row' = row := Option.some.inj (hrow'.symm.trans hrow)
    have hkey : row'.id = (ofLex key).2 := Table.get?_key hrow
    refine ⟨?_, ?_, hname ▸ hadmin, hlanguage⟩
    · rw [hkey]
      exact hrow'
    · rw [hname, horder]
      exact htracks
  · rintro ⟨hrow, hlatest, hadmin, hlanguage⟩
    obtain ⟨user, huser⟩ := Option.ne_none_iff_exists'.mp (howned.owner _ row hrow)
    obtain ⟨o, htracks, hpointer⟩ := hlaw row.username user huser
    obtain rfl : o = some row.order := htracks.unique hlatest
    obtain ⟨row', hrow', _, _, hverdict, htime⟩ := eligible_row hlatest.1
    obtain rfl : row' = row := Option.some.inj (hrow'.symm.trans hrow)
    have hname : user.username = row'.username := Table.get?_key huser
    refine ⟨row'.username, ?_, rowOf?_eq_some.mpr
      ⟨user, row'.id, huser, hadmin, hpointer, hrow, hverdict, htime, hlanguage⟩⟩
    rw [← hname]
    exact List.mem_map_of_mem (Table.mem_of_get? huser)

theorem mem_boardOrder (howned : Owned s) (hlaw : RepresentativeLaw config s) :
    row ∈ boardOrder config tie language s.db ↔ Listed config language s row := by
  rw [boardOrder, mem_sliceStable, List.mem_filter, mem_contestantRows howned hlaw,
    Submission.rankable_record]
  constructor
  · rintro ⟨⟨hstored, hlatest, hadmin, hlanguage⟩, hfair, haccepted, hscored⟩
    exact ⟨hstored, hlatest, hadmin, hlanguage, hfair, haccepted, hscored⟩
  · intro h
    exact ⟨⟨h.stored, h.latest, h.contestant, h.language⟩, h.fair, h.accepted, h.scored⟩

variable (tie language) in
theorem contestantRows_ids (hpointers : Pointers config s) :
    ((contestantRows config tie language s.db).map (·.id)).Nodup := by
  have h : (((s.db.users.rows.map (·.username)).filterMap
      (recordOf? config language s.db)).map (·.id)).Nodup := records_ids hpointers
  rw [funext (recordOf?_eq hpointers), ← List.map_filterMap, List.map_map] at h
  exact ((orderBy_perm _ _ _).map _).nodup_iff.mpr h

/-- The order of the private board. -/
def boardBefore (tie : String → ℕ) (a b : Submission) : Prop :=
  a.privateScore < b.privateScore ∨ a.privateScore = b.privateScore ∧
    toLex (a.uploadStartedAt, tie a.id) < toLex (b.uploadStartedAt, tie b.id)

theorem contestantRows_sorted (hpointers : Pointers config s) (htie : Function.Injective tie) :
    (contestantRows config tie language s.db).Pairwise fun a b =>
      toLex (a.uploadStartedAt, tie a.id) < toLex (b.uploadStartedAt, tie b.id) := by
  have hids := contestantRows_ids tie language hpointers
  rw [contestantRows, ((orderBy_perm _ _ _).map _).nodup_iff] at hids
  have hties := hids.map htie
  rw [List.map_map] at hties
  exact orderBy_sorted (by simp) hties

theorem isScore_repr (n : ℕ) : IsScore n.repr := ⟨Nat.repr_ne_empty, Digits.allDigits_repr n⟩

theorem Submission.record_score (hscored : row.privateScoreNS ≠ none) :
    (row.record.scoreOn .privateBoard).getD "" = row.privateScore.repr := by
  obtain ⟨score, hscore⟩ := Option.ne_none_iff_exists'.mp hscored
  simp [Submission.record, leaderboardRecord, LeaderboardRecord.scoreOn, Submission.privateScore,
    hscore]

variable (language) in
theorem boardOrder_sorted (hpointers : Pointers config s) (htie : Function.Injective tie) :
    (boardOrder config tie language s.db).Pairwise (boardBefore tie) := by
  have hnodup : ((contestantRows config tie language s.db).filter
      fun row => row.record.rankable .privateBoard).Nodup :=
    (List.Nodup.of_map _ (contestantRows_ids tie language hpointers)).filter _
  have hsorted := sliceStable_stable
    (fun a b => lessRecord_iff .privateBoard a.record b.record) hnodup
  apply List.Pairwise.imp_of_mem _ hsorted
  intro a b ha hb hab
  have hscored {row : Submission} (h : row ∈ boardOrder config tie language s.db) :
      row.privateScoreNS ≠ none :=
    (Submission.rankable_record.mp (List.mem_filter.mp (mem_sliceStable.mp h)).2).2.2
  have hvalue (n : ℕ) : scoreValue n.repr = n := Digits.value_repr n
  rw [recordKey, recordKey, Prod.Lex.toLex_lt_toLex, Submission.record_score (hscored ha),
    Submission.record_score (hscored hb)] at hab
  rcases hab with (hlt | ⟨heq, hlt⟩) | ⟨heq, hsub⟩
  · left
    simpa only [hvalue] using (scoreKey_lt_iff (isScore_repr _) (isScore_repr _)).mp hlt
  · right
    have hscore := (scoreKey_eq_iff (isScore_repr _) (isScore_repr _)).mp heq
    exact ⟨by simpa only [hvalue] using hscore, Prod.Lex.toLex_lt_toLex.mpr (.inl hlt)⟩
  · right
    have hscore := (scoreKey_eq_iff (isScore_repr _) (isScore_repr _)).mp
      (congrArg (fun key => (ofLex key).1) heq)
    exact ⟨by simpa only [hvalue] using hscore, List.pairwise_iff_forall_sublist.mp
      (contestantRows_sorted hpointers htie) (hsub.trans List.filter_sublist)⟩

/-- The rows of the replay, in its order. -/
def replayRows (config : Config) (db : Database) : List Submission :=
  (sliceStable Submission.uploadedBefore (db.submissions.rows.filter fun row =>
    row.publicVerdict = some .accepted && row.uploadStartedAt ≤ config.contestEndAt)).filter
      fun row => !config.admins.contains row.username

/-- The users' entries of a frame, in the order of their first submissions. -/
def replayMap (config : Config) (db : Database) : OrderedMap String Submission :=
  .ofList (·.username) (replayRows config db)

/-- The rows that the last frame shows, in its order. -/
def frameOrder (config : Config) (language : Option String) (db : Database) : List Submission :=
  sliceStable (fun a b => Web.compareSubmissions a.replayItem b.replayItem < 0)
    ((replayMap config db).values.filter fun row => Web.shown language row.replayItem)

theorem leaderboardReplay_eq (db : Database) :
    leaderboardReplay config db = (replayRows config db).map Submission.replayItem := rfl

theorem mem_replayRows {db : Database} : row ∈ replayRows config db ↔
    db.submissions.get? row.id = some row ∧ row.publicVerdict = some .accepted ∧
      row.uploadStartedAt ≤ config.contestEndAt ∧ row.username ∉ config.admins := by
  rw [replayRows, List.mem_filter, mem_sliceStable, List.mem_filter, Table.mem_iff_get?]
  simp [and_assoc]

theorem frame_eq (db : Database) :
    Web.buildLeaderboardReplayFrame (leaderboardReplay config db)
      (leaderboardReplay config db).length language =
        (frameOrder config language db).zipIdx.map fun p => Web.replayEntry p.1.replayItem p.2 := by
  have haccepted : ∀ item ∈ (replayRows config db).map Submission.replayItem,
      item.publicVerdict = some Verdict.accepted.name := by
    intro item hitem
    obtain ⟨row, hrow, rfl⟩ := List.mem_map.mp hitem
    simp [Submission.replayItem, (mem_replayRows.mp hrow).2.1]
  rw [Web.buildLeaderboardReplayFrame, leaderboardReplay_eq, Web.representatives_length haccepted,
    OrderedMap.values_ofList_map, List.filter_map, sliceStable_map, List.zipIdx_map, List.map_map]
  rfl

/-- Keys of eligible submissions are those of the rows of the replay. -/
theorem mem_eligible {key : ℕ ×ₗ String} {username : String} :
    key ∈ s.eligible config username ↔ ∃ row, s.row row.id = some row ∧ row.order = key ∧
      row.username = username ∧ row.publicVerdict = some .accepted ∧
      row.uploadStartedAt ≤ config.contestEndAt := by
  constructor
  · intro h
    obtain ⟨row, hrow, horder, hrest⟩ := eligible_row h
    have hid : row.id = (ofLex key).2 := Table.get?_key hrow
    exact ⟨row, hid ▸ hrow, horder, hrest⟩
  · rintro ⟨row, hrow, rfl, hcond⟩
    exact ⟨row.id, by rw [hrow, Option.bind_some, eligible?, if_pos hcond]⟩

theorem replayRows_sorted (config : Config) (db : Database) :
    (replayRows config db).Pairwise fun a b => a.order < b.order := by
  exact (uploadOrder_sorted db _).filter _

theorem mem_replayMap : row ∈ (replayMap config s.db).values ↔ s.row row.id = some row ∧
    IsGreatest (s.eligible config row.username) row.order ∧ row.username ∉ config.admins := by
  have hmem : row ∈ (replayMap config s.db).values ↔
      (row.username, row) ∈ (replayMap config s.db).entries := by
    constructor
    · intro h
      obtain ⟨e, he, rfl⟩ := List.mem_map.mp h
      have hkey : e.2.username = e.1 := OrderedMap.key_of_mem he
      rwa [hkey]
    · exact fun h => List.mem_map_of_mem (f := (·.2)) h
  rw [hmem, replayMap, OrderedMap.mem_ofList (replayRows_sorted config s.db), mem_replayRows]
  constructor
  · rintro ⟨⟨hrow, hverdict, htime, hadmin⟩, hmax⟩
    refine ⟨hrow, ⟨mem_eligible.mpr ⟨row, hrow, rfl, rfl, hverdict, htime⟩, ?_⟩, hadmin⟩
    intro key hkey
    obtain ⟨other, hother, rfl, hname, hverdict', htime'⟩ := mem_eligible.mp hkey
    exact hmax other (mem_replayRows.mpr ⟨hother, hverdict', htime', hname ▸ hadmin⟩) hname
  · rintro ⟨hrow, ⟨hmine, hmax⟩, hadmin⟩
    obtain ⟨other, hother, horder, _, hverdict, htime⟩ := mem_eligible.mp hmine
    have hid : other.id = row.id := congrArg (fun key => (ofLex key).2) horder
    obtain rfl : other = row := Option.some.inj ((hid ▸ hother).symm.trans hrow)
    refine ⟨⟨hrow, hverdict, htime, hadmin⟩, fun b hb hname => ?_⟩
    obtain ⟨hb', hbv, hbt, _⟩ := mem_replayRows.mp hb
    exact hmax (mem_eligible.mpr ⟨b, hb', rfl, hname, hbv, hbt⟩)

theorem shown_iff (hlanguage : row.language ≠ none) : Web.shown language row.replayItem = true ↔
    (∀ name ∈ language, row.language.map Language.name = some name) ∧
      row.disqualifiedReason = none ∧ row.privateVerdict = some .accepted ∧
        row.privateScoreNS ≠ none := by
  obtain ⟨own, hown⟩ := Option.ne_none_iff_exists'.mp hlanguage
  have hverdict : row.privateVerdict.map Verdict.name = some Verdict.accepted.name ↔
      row.privateVerdict = some .accepted := by
    cases row.privateVerdict with
    | none => decide
    | some verdict => cases verdict <;> decide
  have hfilter : (language.isNone || row.language.map Language.name == language) = true ↔
      ∀ name ∈ language, row.language.map Language.name = some name := by
    cases language <;> simp
  rw [← hverdict, ← hfilter]
  simp only [Web.shown, Submission.replayItem, Bool.and_eq_true, decide_eq_true_eq, hown,
    Option.map_some, Option.isSome_some, Option.isSome_map, Option.isSome_iff_ne_none,
    Bool.not_eq_true', Option.isSome_eq_false_iff, Option.isNone_iff_eq_none]
  tauto

theorem mem_frameOrder (howned : Owned s) :
    row ∈ frameOrder config language s.db ↔ Listed config language s row := by
  rw [frameOrder, mem_sliceStable, List.mem_filter, mem_replayMap]
  have hlanguage (hrow : s.row row.id = some row)
      (hlatest : IsGreatest (s.eligible config row.username) row.order) : row.language ≠ none := by
    obtain ⟨other, hother, horder, _, hverdict, _⟩ := mem_eligible.mp hlatest.1
    have hid : other.id = row.id := congrArg (fun key => (ofLex key).2) horder
    obtain rfl : other = row := Option.some.inj ((hid ▸ hother).symm.trans hrow)
    exact howned.uploaded _ _ hrow (howned.measured _ _ hrow (by rw [hverdict]; nofun))
  constructor
  · rintro ⟨⟨hrow, hlatest, hadmin⟩, hshown⟩
    obtain ⟨hfilter, hfair, haccepted, hscored⟩ := (shown_iff (hlanguage hrow hlatest)).mp hshown
    exact ⟨hrow, hlatest, hadmin, hfilter, hfair, haccepted, hscored⟩
  · intro h
    exact ⟨⟨h.stored, h.latest, h.contestant⟩, (shown_iff (hlanguage h.stored h.latest)).mpr
      ⟨h.language, h.fair, h.accepted, h.scored⟩⟩

/-- The order of the last frame. -/
def frameBefore (config : Config) (s : System) (a b : Submission) : Prop :=
  toLex (a.privateScore, a.uploadStartedAt / 1000) <
      toLex (b.privateScore, b.uploadStartedAt / 1000) ∨
    toLex (a.privateScore, a.uploadStartedAt / 1000) =
      toLex (b.privateScore, b.uploadStartedAt / 1000) ∧ s.startsBefore config a.username b.username

theorem bigInt_score (row : Submission) :
    Web.bigInt (row.replayItem.privateScoreNs.getD "") = row.privateScore := by
  rw [Submission.replayItem, Submission.privateScore]
  cases row.privateScoreNS with
  | none => rfl
  | some score => exact Digits.value_repr score

/-- Up to the year 9999 the comparison of a frame is by score and millisecond. -/
theorem compareSubmissions_lt {a b : Submission} (ha : a.uploadStartedAt < 253402300800000000)
    (hb : b.uploadStartedAt < 253402300800000000) :
    Web.compareSubmissions a.replayItem b.replayItem < 0 ↔
      toLex (a.privateScore, a.uploadStartedAt / 1000) <
        toLex (b.privateScore, b.uploadStartedAt / 1000) := by
  have hitem (row : Submission) :
      row.replayItem.submittedAt = CivilTime.isoTime row.uploadStartedAt := rfl
  have htimes := Web.compareTimes_of_some (CivilTime.parseIsoTime_isoTime ha)
    (CivilTime.parseIsoTime_isoTime hb)
  rw [Web.compareSubmissions, Web.compareNanoseconds, bigInt_score, bigInt_score, hitem, hitem,
    htimes, Prod.Lex.toLex_lt_toLex]
  generalize a.uploadStartedAt / 1000 = x
  generalize b.uploadStartedAt / 1000 = y
  dsimp only
  rcases lt_trichotomy a.privateScore b.privateScore with h | h | h
  · simp [h]
  · simp [h]
  · simp [h, h.not_gt, h.ne']

theorem boardBefore_asymm {a b : Submission} (h : boardBefore tie a b) : ¬boardBefore tie b a := by
  rintro (h' | ⟨heq', h'⟩)
  · rcases h with h | ⟨heq, _⟩
    · exact lt_asymm h h'
    · exact h'.ne heq.symm
  · rcases h with h | ⟨_, h⟩
    · exact h.ne heq'.symm
    · exact lt_asymm h h'

theorem startsBefore_asymm {username other : String} (h : s.startsBefore config username other) :
    ¬s.startsBefore config other username := by
  rintro ⟨q, hq, hq'⟩
  obtain ⟨p, hp, hp'⟩ := h
  exact lt_asymm (hp' q hq) (hq' p hp)

theorem frameBefore_asymm {a b : Submission} (h : frameBefore config s a b) :
    ¬frameBefore config s b a := by
  rintro (h' | ⟨heq', h'⟩)
  · rcases h with h | ⟨heq, _⟩
    · exact lt_asymm h h'
    · exact h'.ne heq.symm
  · rcases h with h | ⟨_, h⟩
    · exact h.ne heq'.symm
    · exact startsBefore_asymm h h'

theorem Listed.score_eq {a b : Submission} (ha : Listed config language s a)
    (hb : Listed config language s b) :
    a.privateScoreNS = b.privateScoreNS ↔ a.privateScore = b.privateScore := by
  obtain ⟨x, hx⟩ := Option.ne_none_iff_exists'.mp ha.scored
  obtain ⟨y, hy⟩ := Option.ne_none_iff_exists'.mp hb.scored
  simp [Submission.privateScore, hx, hy]

/-- The two orders agree when ties do. -/
theorem before_iff_tiesAgree : (∀ a, Listed config language s a → ∀ b, Listed config language s b →
    boardBefore tie a b → frameBefore config s a b) ↔ TiesAgree config tie language s := by
  constructor
  · intro h a b ha hb hscore hmillis hlt
    have hscore' := (ha.score_eq hb).mp hscore
    rcases h a ha b hb (.inr ⟨hscore', hlt⟩) with hbefore | ⟨_, hstarts⟩
    · rw [hscore', hmillis] at hbefore
      exact absurd hbefore (lt_irrefl _)
    · exact hstarts
  · rintro h a ha b hb (hlt | ⟨heq, hlt⟩)
    · exact .inl (Prod.Lex.toLex_lt_toLex.mpr (.inl hlt))
    · have hle : a.uploadStartedAt ≤ b.uploadStartedAt := by
        rcases Prod.Lex.toLex_lt_toLex.mp hlt with h | ⟨h, _⟩
        · exact h.le
        · exact h.le
      rcases (Nat.div_le_div_right (c := 1000) hle).lt_or_eq with hmillis | hmillis
      · exact .inl (Prod.Lex.toLex_lt_toLex.mpr (.inr ⟨heq, hmillis⟩))
      · right
        refine ⟨by rw [heq, hmillis], ?_⟩
        exact h a b ha hb ((ha.score_eq hb).mpr heq) hmillis hlt

variable (config s) in
theorem replayMap_sorted : (replayMap config s.db).values.Pairwise fun a b =>
    s.startsBefore config a.username b.username := by
  rw [OrderedMap.values, List.pairwise_map]
  apply List.Pairwise.imp_of_mem _ (OrderedMap.ofList_pairwise (replayRows_sorted config s.db))
  rintro e e' he he' ⟨p, hp, hkey, hmin⟩
  have hname : e.2.username = e.1 := OrderedMap.key_of_mem he
  have hname' : e'.2.username = e'.1 := OrderedMap.key_of_mem he'
  obtain ⟨hrow, hverdict, htime, _⟩ := mem_replayRows.mp hp
  have hadmin : e'.2.username ∉ config.admins :=
    (mem_replayMap.mp (List.mem_map_of_mem (f := (·.2)) he')).2.2
  refine ⟨p.order, mem_eligible.mpr ⟨p, hrow, rfl, hkey.trans hname.symm, hverdict, htime⟩, ?_⟩
  intro q hq
  obtain ⟨other, hother, rfl, howner, hverdict', htime'⟩ := mem_eligible.mp hq
  exact hmin other (mem_replayRows.mpr ⟨hother, hverdict', htime', howner ▸ hadmin⟩)
    (howner.trans hname')

variable (language s) in
theorem frameOrder_sorted (hend : config.contestEndAt < 253402300800000000) :
    (frameOrder config language s.db).Pairwise (frameBefore config s) := by
  have hstarts := (replayMap_sorted config s).filter
    fun row => Web.shown language row.replayItem
  have hnodup : ((replayMap config s.db).values.filter
      fun row => Web.shown language row.replayItem).Nodup := by
    apply hstarts.imp
    rintro a _ h rfl
    exact startsBefore_asymm h h
  have htime : ∀ row ∈ (replayMap config s.db).values.filter
      (fun row => Web.shown language row.replayItem), row.uploadStartedAt < 253402300800000000 := by
    intro row hrow
    obtain ⟨hrow, hlatest, _⟩ := mem_replayMap.mp (List.mem_of_mem_filter hrow)
    obtain ⟨other, _, horder, _, _, htime⟩ := mem_eligible.mp hlatest.1
    have heq : other.uploadStartedAt = row.uploadStartedAt :=
      congrArg (fun key => (ofLex key).1) horder
    rw [← heq]
    exact lt_of_le_of_lt htime hend
  have hcongr : frameOrder config language s.db = sliceStable (fun a b : Submission =>
      toLex (a.privateScore, a.uploadStartedAt / 1000) <
        toLex (b.privateScore, b.uploadStartedAt / 1000))
      ((replayMap config s.db).values.filter fun row => Web.shown language row.replayItem) := by
    apply sliceStable_congr
    intro a ha b hb
    rw [decide_eq_decide]
    exact compareSubmissions_lt (htime a ha) (htime b hb)
  rw [hcongr]
  have hsorted := sliceStable_stable
    (f := fun row : Submission => toLex (row.privateScore, row.uploadStartedAt / 1000))
    (fun _ _ => decide_eq_true_iff) hnodup
  apply hsorted.imp
  rintro a b (hlt | ⟨heq, hsub⟩)
  · exact .inl hlt
  · exact .inr ⟨heq, List.pairwise_iff_forall_sublist.mp hstarts hsub⟩

/-- The standing of a row at a place of the list. -/
def standingAt (p : Submission × ℕ) : Option ℤ × String × String × Option String :=
  (some (p.2 + 1), p.1.username, p.1.id, p.1.privateScoreNS.map Nat.repr)

theorem frame_standings (db : Database) :
    (Web.buildLeaderboardReplayFrame (leaderboardReplay config db)
      (leaderboardReplay config db).length language).map LeaderboardEntry.standing =
        (frameOrder config language db).zipIdx.map standingAt := by
  rw [frame_eq, List.map_map]
  rfl

variable (tie language) in
theorem records_nodup (hpointers : Pointers config s) :
    (((contestantRows config tie language s.db).map Submission.record).map (·.id)).Nodup := by
  rw [List.map_map]
  exact contestantRows_ids tie language hpointers

variable (config tie language s) in
theorem boardOrder_length : (((contestantRows config tie language s.db).map
    Submission.record).filter (LeaderboardRecord.rankable .privateBoard)).length =
      (boardOrder config tie language s.db).length := by
  rw [← (acceptedRows_perm _ _).length_eq, acceptedRows_record, List.length_map]

theorem ranked_standings (hpointers : Pointers config s)
    (hlen : (boardOrder config tie language s.db).length < 2 ^ 31) :
    (buildLeaderboard ((contestantRows config tie language s.db).map Submission.record)
      .privateBoard true).ranked.map LeaderboardEntry.standing =
        (boardOrder config tie language s.db).zipIdx.map standingAt := by
  have hids := records_nodup tie language hpointers
  have hlen' := boardOrder_length config tie language s
  rw [ranked_eq hids (by rw [hlen']; exact hlen), List.map_map]
  apply List.ext_getElem
  · rw [acceptedRows_record]
    simp
  · intro i hi _
    have hi' : i < (acceptedRows ((contestantRows config tie language s.db).map
        Submission.record) .privateBoard).length := by simpa using hi
    have hboard : i < (boardOrder config tie language s.db).length := by
      rwa [acceptedRows_record, List.length_map] at hi'
    have hrank := ranks_getElem_of_lt hids (by rw [hlen']; exact hlen) hi'
    have hrow : (acceptedRows ((contestantRows config tie language s.db).map
        Submission.record) .privateBoard)[i] =
          ((boardOrder config tie language s.db)[i]).record := by
      simp only [acceptedRows_record, List.getElem_map]
    rw [List.getElem_map, List.getElem_map, List.getElem_zipIdx, Function.comp_apply,
      LeaderboardEntry.standing, entryOf_rank hids (mem_acceptedRows.mp (List.getElem_mem hi')).1,
      hrank, hrow, Nat.zero_add]
    rfl

/-- The rank after 2^31 - 1 others is negative; no frame has it. -/
theorem boardOrder_length_lt (hpointers : Pointers config s)
    (h : (Web.buildLeaderboardReplayFrame (leaderboardReplay config s.db)
      (leaderboardReplay config s.db).length language).map LeaderboardEntry.standing =
        (buildLeaderboard ((contestantRows config tie language s.db).map Submission.record)
          .privateBoard true).ranked.map LeaderboardEntry.standing) :
    (boardOrder config tie language s.db).length < 2 ^ 31 := by
  by_contra hge
  have hids := records_nodup tie language hpointers
  have hlast : 2 ^ 31 - 1 < (acceptedRows ((contestantRows config tie language s.db).map
      Submission.record) .privateBoard).length := by
    rw [acceptedRows_record, List.length_map]
    omega
  have hrank := ranks_getElem hids hlast
  obtain ⟨hrow, _⟩ := mem_acceptedRows.mp (List.getElem_mem hlast)
  have hentry : (entryOf ((contestantRows config tie language s.db).map Submission.record)
      .privateBoard true _).rank = _ := (entryOf_rank hids hrow).trans hrank
  generalize (acceptedRows ((contestantRows config tie language s.db).map
    Submission.record) .privateBoard)[2 ^ 31 - 1] = last at *
  have hmem : (entryOf ((contestantRows config tie language s.db).map Submission.record)
      .privateBoard true last).standing ∈ (buildLeaderboard
        ((contestantRows config tie language s.db).map Submission.record)
          .privateBoard true).ranked.map LeaderboardEntry.standing := by
    apply List.mem_map_of_mem
    apply mem_sliceStable.mpr
    exact List.mem_filter.mpr ⟨List.mem_map_of_mem hrow, by rw [hentry]; rfl⟩
  rw [← h, frame_standings] at hmem
  obtain ⟨p, _, hp⟩ := List.mem_map.mp hmem
  have hneg : some ((p.2 : ℤ) + 1) = some (int32 ((2 ^ 31 - 1 : ℕ) + 1)) :=
    (congrArg (·.1) hp).trans hentry
  have hvalue : int32 ((2 ^ 31 - 1 : ℕ) + 1) = -2 ^ 31 := by decide
  rw [hvalue] at hneg
  have := Option.some.inj hneg
  omega

theorem standings_inj (howned : Owned s) (hlaw : RepresentativeLaw config s)
    (h : (frameOrder config language s.db).zipIdx.map standingAt =
      (boardOrder config tie language s.db).zipIdx.map standingAt) :
    boardOrder config tie language s.db = frameOrder config language s.db := by
  have hids (l : List Submission) (hl : ∀ row ∈ l, s.row row.id = some row) :
      ((l.zipIdx.map standingAt).map (·.2.2.1)).filterMap s.row = l := by
    have hmap : (l.zipIdx.map standingAt).map (·.2.2.1) = l.map (·.id) := by
      have hfst : l.map (·.id) = (l.zipIdx.map (·.1)).map (·.id) := by
        rw [List.zipIdx_map_fst]
      rw [hfst, List.map_map, List.map_map]
      rfl
    rw [hmap, List.filterMap_map]
    have hsome : l.filterMap (s.row ∘ fun row => row.id) = l.filterMap some :=
      List.filterMap_congr fun row hrow => hl row hrow
    rw [hsome, List.filterMap_some]
  have hframe := hids (frameOrder config language s.db) fun row hrow =>
    ((mem_frameOrder howned).mp hrow).stored
  have hboard := hids (boardOrder config tie language s.db) fun row hrow =>
    ((mem_boardOrder howned hlaw).mp hrow).stored
  rw [h] at hframe
  exact hboard.symm.trans hframe

end

/-- The last frame shows the ranked list of the private board. -/
def ReplayEnds (config : Config) (language : Option String) (db : Database)
    (rows : List LeaderboardRecord) : Prop :=
  (Web.buildLeaderboardReplayFrame (leaderboardReplay config db)
    (leaderboardReplay config db).length language).map LeaderboardEntry.standing =
      (buildLeaderboard rows .privateBoard true).ranked.map LeaderboardEntry.standing

/-- In every run with one worker loop, the replay ends in the private leaderboard exactly when ties
agree and fewer than 2^31 submissions are ranked. -/
theorem replayEnds_iff {config : Config} {tie : String → ℕ} {s : System}
    (hs : (contestSystem config).Reachable OneWorkerLoop s)
    (hend : config.contestEndAt < 253402300800000000) (htie : Function.Injective tie)
    (language : Option String) :
    ∃ rows, leaderboardRows config tie language s.db = .ok rows ∧
      (ReplayEnds config language s.db rows ↔
        {row | Listed config language s row}.ncard < 2 ^ 31 ∧
          TiesAgree config tie language s) := by
  have howned := owned hs.free
  have hpointers : Pointers config s := pointers hs.free
  have hlaw := representativeLaw hs
  refine ⟨_, leaderboardRows_record howned hpointers, ?_⟩
  have hboard := boardOrder_sorted language hpointers htie
  have hframe := frameOrder_sorted language s hend
  have hnodup : (boardOrder config tie language s.db).Nodup := by
    apply hboard.imp
    rintro a _ h rfl
    exact boardBefore_asymm h h
  have hnodup' : (frameOrder config language s.db).Nodup := by
    apply hframe.imp
    rintro a _ h rfl
    exact frameBefore_asymm h h
  have hperm : (boardOrder config tie language s.db).Perm (frameOrder config language s.db) := by
    rw [List.perm_ext_iff_of_nodup hnodup hnodup']
    intro row
    rw [mem_boardOrder howned hlaw, mem_frameOrder howned]
  have hcard : {row | Listed config language s row}.ncard =
      (boardOrder config tie language s.db).length := by
    rw [← List.toFinset_card_of_nodup hnodup, ← Set.ncard_coe_finset]
    congr 1
    ext row
    simp [mem_boardOrder howned hlaw]
  have horders : boardOrder config tie language s.db = frameOrder config language s.db ↔
      TiesAgree config tie language s := by
    rw [eq_iff_of_pairwise hperm hboard hframe (fun _ _ => boardBefore_asymm)
      fun _ _ => frameBefore_asymm, ← before_iff_tiesAgree]
    simp only [mem_boardOrder howned hlaw]
  rw [hcard, ← horders]
  constructor
  · intro hends
    have hlen := boardOrder_length_lt hpointers hends
    refine ⟨hlen, standings_inj howned hlaw ?_⟩
    rw [← frame_standings, ← ranked_standings hpointers hlen]
    exact hends
  · rintro ⟨hlen, heq⟩
    rw [ReplayEnds, frame_standings, ranked_standings hpointers hlen, heq]

/-- One order in which an engine may return rows. -/
def idTie (id : String) : ℕ := Encodable.encode (id.toList.map Char.toNat)

theorem idTie_injective : Function.Injective idTie := by
  intro a b h
  have hchars := Encodable.encode_injective h
  exact String.toList_inj.mp (List.map_injective_iff.mpr (fun _ _ => Char.toNat_inj.mp) hchars)

/-- The steps of one accepted submission with private score 5. -/
def acceptedRun (id username : String) : List Action :=
  accept 0 id username ⟨.ruby, .ruby, "main.rb", [], "e3b0", "e3b0"⟩ ++
    benchmark 0 ⟨⟨.accepted, some ["5"], some "5", none⟩,
      some ⟨.accepted, some ["5"], some "5", none⟩, "env"⟩ ++
    [.worker 0 (.storeResult true), .worker 0 (.cleanup true), .tick 1]

/-- A contest up to the publication. -/
def replayRun (submissions : List (String × String)) : List Action :=
  boot 0 ++ lead 0 ++ submissions.flatMap (fun p => acceptedRun p.1 p.2) ++
    [.tick 200, .admin .publishCheck, .admin .publishCommit]

theorem replayEnds_one : ∃ s rows, s.db.contestState.privatePublishedAt ≠ none ∧
    leaderboardRows ⟨"1brc", 0, 100, [], "env"⟩ idTie none s.db = .ok rows ∧
    (ReplayEnds ⟨"1brc", 0, 100, [], "env"⟩ none s.db rows ↔
      {row | Listed ⟨"1brc", 0, 100, [], "env"⟩ none s row}.ncard < 2 ^ 31 ∧
        TiesAgree ⟨"1brc", 0, 100, [], "env"⟩ idTie none s) := by
  have hrun : ((contestSystem ⟨"1brc", 0, 100, [], "env"⟩).run OneWorkerLoop .initial
      (replayRun [("a", "alice")])).any
        (fun s => s.db.contestState.privatePublishedAt.isSome) = true := by
    decide
  obtain ⟨s, hs, hpublished⟩ := TransitionSystem.exists_path_of_run hrun
  obtain ⟨rows, hrows, hiff⟩ :=
    replayEnds_iff hs (by decide) idTie_injective none
  exact ⟨s, rows, Option.isSome_iff_ne_none.mp hpublished, hrows, hiff⟩

/-- Alice's second submission follows bob's in the same millisecond, with the same score. The board
ranks bob first; in the frame alice keeps the place of her first submission. -/
theorem not_replayEnds : ¬ ∀ (config : Config) (tie : String → ℕ) (language : Option String)
    (s : System) (rows : List LeaderboardRecord), config.contestEndAt < 253402300800000000 →
    Function.Injective tie → (contestSystem config).Reachable OneWorkerLoop s →
    s.db.contestState.privatePublishedAt ≠ none →
    leaderboardRows config tie language s.db = .ok rows →
    ReplayEnds config language s.db rows := by
  intro hall
  have hrun : ((contestSystem ⟨"1brc", 0, 100, [], "env"⟩).run OneWorkerLoop .initial
      (replayRun [("a", "alice"), ("b", "bob"), ("c", "alice")])).any (fun s =>
        s.db.contestState.privatePublishedAt.isSome &&
        (boardOrder ⟨"1brc", 0, 100, [], "env"⟩ idTie none s.db).map (·.id) =
          ["b", "c"] &&
        (frameOrder ⟨"1brc", 0, 100, [], "env"⟩ none s.db).map (·.id) = ["c", "b"]) = true := by
    decide
  obtain ⟨s, hs, hcheck⟩ := TransitionSystem.exists_path_of_run hrun
  simp only [Bool.and_eq_true, decide_eq_true_eq] at hcheck
  obtain ⟨⟨hpublished, hboard⟩, hframe⟩ := hcheck
  have hs : (contestSystem ⟨"1brc", 0, 100, [], "env"⟩).Reachable OneWorkerLoop s := hs
  have howned := owned hs.free
  have hpointers : Pointers ⟨"1brc", 0, 100, [], "env"⟩ s := pointers hs.free
  have hends := hall _ idTie none s _ (by decide) idTie_injective hs
    (Option.isSome_iff_ne_none.mp hpublished) (leaderboardRows_record howned hpointers)
  have hlen := boardOrder_length_lt hpointers hends
  rw [ReplayEnds, frame_standings, ranked_standings hpointers hlen] at hends
  rw [standings_inj howned (representativeLaw hs) hends, hframe] at hboard
  exact absurd hboard (by decide)

end OneBrc.Server
