import OneBrc.Server.Leaderboard

/-! What the leaderboard lists: the rankable rows in the order of their scores with ranks from one
on, the others in the order of the input. Ranks are 32-bit numbers, which bounds the number of
rows. -/
namespace OneBrc.Server
open Lib StableSort LeaderboardRecord

/-- The score that counts on the board. -/
def LeaderboardRecord.valueOn (row : LeaderboardRecord) (board : LeaderboardBoard) : ℕ :=
  scoreValue ((row.scoreOn board).getD "")

/-- The order of the ranked list: smaller scores first, then earlier submissions, then the order of
the input. -/
def Precedes (rows : List LeaderboardRecord) (board : LeaderboardBoard)
    (a b : LeaderboardRecord) : Prop :=
  a.valueOn board < b.valueOn board ∨ a.valueOn board = b.valueOn board ∧
    (a.submittedAt < b.submittedAt ∨ a.submittedAt = b.submittedAt ∧ [a, b].Sublist rows)

/-- What the leaderboard of one board says about its rows. -/
structure RankingLaw (rows : List LeaderboardRecord) (board : LeaderboardBoard)
    (privatePublished : Bool) : Prop where
  partition : List.Perm
    (((buildLeaderboard rows board privatePublished).ranked ++
      (buildLeaderboard rows board privatePublished).disqualified).map (·.submissionId))
    (rows.map (·.id))
  ranked_iff : ∀ row ∈ rows, row.id ∈
    (buildLeaderboard rows board privatePublished).ranked.map (·.submissionId) ↔
    row.disqualified = none ∧ row.verdictOn board = Verdict.accepted.name ∧
      row.scoreOn board ≠ none
  ranked : ∃ order : List LeaderboardRecord, order.Pairwise (Precedes rows board) ∧
    (∀ row ∈ order, row ∈ rows) ∧
    (buildLeaderboard rows board privatePublished).ranked.map (·.submissionId) =
      order.map (·.id) ∧
    (buildLeaderboard rows board privatePublished).ranked.map (·.rank) =
      (List.range order.length).map fun i : ℕ => some ((i : ℤ) + 1)
  unranked : (buildLeaderboard rows board privatePublished).disqualified.map (·.submissionId) =
    (rows.filter fun row => !row.rankable board).map (·.id)
  rankChange : ∀ row ∈ rows, ∀ entry ∈ (buildLeaderboard rows board privatePublished).ranked ++
    (buildLeaderboard rows board privatePublished).disqualified, entry.submissionId = row.id →
    if privatePublished = true ∧ row.rankable .publicBoard = true ∧
      row.rankable .privateBoard = true
    then ∃ p ∈ (buildLeaderboard rows .publicBoard privatePublished).ranked,
      ∃ q ∈ (buildLeaderboard rows .privateBoard privatePublished).ranked,
      p.submissionId = row.id ∧ q.submissionId = row.id ∧
        ∃ x y, p.rank = some x ∧ q.rank = some y ∧ entry.rankChange = some (x - y)
    else entry.rankChange = none

section
variable {rows : List LeaderboardRecord} {board : LeaderboardBoard} {privatePublished : Bool}

theorem rankable_iff {row : LeaderboardRecord} : row.rankable board = true ↔
    row.disqualified = none ∧ row.verdictOn board = Verdict.accepted.name ∧
      row.scoreOn board ≠ none := by
  simp [LeaderboardRecord.rankable, and_assoc, Option.isSome_iff_ne_none]

/-- The key of the sort inside `ranks`. -/
def recordKey (board : LeaderboardBoard) (row : LeaderboardRecord) : (ℕ ×ₗ String) ×ₗ ℕ :=
  toLex (scoreKey ((row.scoreOn board).getD ""), row.submittedAt)

theorem lessRecord_iff (board : LeaderboardBoard) (a b : LeaderboardRecord) :
    lessRecord board a b = true ↔ recordKey board a < recordKey board b := by
  rw [lessRecord, compareDecimal_eq, recordKey, recordKey, Prod.Lex.toLex_lt_toLex]
  rcases lt_trichotomy (scoreKey ((a.scoreOn board).getD ""))
    (scoreKey ((b.scoreOn board).getD "")) with h | h | h
  · rw [compare_lt_iff_lt.mpr h]
    simp [h]
  · rw [compare_eq_iff_eq.mpr h]
    simp [h]
  · rw [compare_gt_iff_gt.mpr h]
    simp [h.not_gt, h.ne']

theorem mem_acceptedRows {row : LeaderboardRecord} :
    row ∈ acceptedRows rows board ↔ row ∈ rows ∧ row.rankable board = true := by
  rw [acceptedRows, mem_sliceStable, List.mem_filter]

theorem acceptedRows_perm (rows : List LeaderboardRecord) (board : LeaderboardBoard) :
    (acceptedRows rows board).Perm (rows.filter (LeaderboardRecord.rankable board)) :=
  sliceStable_perm _ _

theorem acceptedRows_ids (hids : (rows.map (·.id)).Nodup) (board : LeaderboardBoard) :
    ((acceptedRows rows board).map (·.id)).Nodup := by
  rw [((acceptedRows_perm rows board).map (·.id)).nodup_iff]
  exact hids.sublist (List.filter_sublist.map _)

/-- The rows in the order of their ranks. -/
theorem acceptedRows_sorted (hids : (rows.map (·.id)).Nodup)
    (hscores : ∀ row ∈ rows, ∀ score ∈ row.scoreOn board, IsScore score) :
    (acceptedRows rows board).Pairwise (Precedes rows board) := by
  have hnodup : (rows.filter (LeaderboardRecord.rankable board)).Nodup :=
    (List.Nodup.of_map _ hids).filter _
  have hsorted := sliceStable_stable (lessRecord_iff board) hnodup
  refine List.Pairwise.imp_of_mem ?_ hsorted
  intro a b ha hb hab
  have hscore {row : LeaderboardRecord} (hrow : row ∈ acceptedRows rows board) :
      IsScore ((row.scoreOn board).getD "") := by
    obtain ⟨hmem, hrankable⟩ := mem_acceptedRows.mp hrow
    obtain ⟨score, hs⟩ := Option.ne_none_iff_exists'.mp (rankable_iff.mp hrankable).2.2
    rw [hs]
    exact hscores row hmem score hs
  have ha' := hscore ha
  have hb' := hscore hb
  rw [recordKey, recordKey, Prod.Lex.toLex_lt_toLex] at hab
  rcases hab with (hlt | ⟨heq, hlt⟩) | ⟨heq, hsub⟩
  · exact .inl ((scoreKey_lt_iff ha' hb').mp hlt)
  · exact .inr ⟨(scoreKey_eq_iff ha' hb').mp heq, .inl hlt⟩
  · have hkey := congrArg (fun key => (ofLex key).1) heq
    have htime := congrArg (fun key => (ofLex key).2) heq
    exact .inr ⟨(scoreKey_eq_iff ha' hb').mp hkey, .inr ⟨htime, hsub.trans List.filter_sublist⟩⟩

/-- The rank of the row at a position of the sorted slice. -/
theorem ranks_getElem (hids : (rows.map (·.id)).Nodup) {i : ℕ}
    (hi : i < (acceptedRows rows board).length) :
    ranks rows board (acceptedRows rows board)[i].id = some (int32 (i + 1)) :=
  indexMap_getElem (acceptedRows_ids hids board) hi

theorem mem_of_id {row : LeaderboardRecord} {l : List LeaderboardRecord}
    (hids : (rows.map (·.id)).Nodup) (hl : ∀ row ∈ l, row ∈ rows) (hrow : row ∈ rows) :
    row.id ∈ l.map (·.id) ↔ row ∈ l := by
  constructor
  · intro h
    obtain ⟨other, hother, hid⟩ := List.mem_map.mp h
    rwa [← List.inj_on_of_nodup_map hids (hl other hother) hrow hid]
  · exact fun h => List.mem_map_of_mem h

theorem ranks_isSome (hids : (rows.map (·.id)).Nodup) {row : LeaderboardRecord}
    (hrow : row ∈ rows) : (ranks rows board row.id).isSome = row.rankable board := by
  rw [Bool.eq_iff_iff, ranks, indexMap_isSome (acceptedRows_ids hids board),
    mem_of_id hids (fun row h => (mem_acceptedRows.mp h).1) hrow, mem_acceptedRows]
  exact and_iff_right hrow

/-- The entry of a row in the leaderboard. -/
abbrev entryOf (rows : List LeaderboardRecord) (board : LeaderboardBoard)
    (privatePublished : Bool) : LeaderboardRecord → LeaderboardEntry :=
  leaderboardEntry (ranks rows .publicBoard) (ranks rows .privateBoard) board privatePublished

/-- A disqualified row has no place in the rank maps. -/
theorem entryOf_rank (hids : (rows.map (·.id)).Nodup) {row : LeaderboardRecord}
    (hrow : row ∈ rows) :
    (entryOf rows board privatePublished row).rank = ranks rows board row.id := by
  change (if row.disqualified.isSome then none else _) = _
  split
  · next hdisqualified =>
    have hnone : (ranks rows board row.id).isSome = row.rankable board := ranks_isSome hids hrow
    rw [LeaderboardRecord.rankable, Option.isNone_eq_false_iff.mpr hdisqualified, Bool.false_and,
      Bool.false_and] at hnone
    exact (Option.not_isSome_iff_eq_none.mp (by rw [hnone]; decide)).symm
  · cases board <;> rfl

theorem int32_of_lt {n : ℤ} (hlow : -(2 ^ 31) ≤ n) (hhigh : n < 2 ^ 31) : int32 n = n :=
  Int.bmod_eq_of_le (by simpa using hlow) (by simpa using hhigh)

/-- Below 2^31 rankable rows, the rank of a row is its place in the sorted slice. -/
theorem ranks_getElem_of_lt (hids : (rows.map (·.id)).Nodup)
    (hlen : (rows.filter (LeaderboardRecord.rankable board)).length < 2 ^ 31) {i : ℕ}
    (hi : i < (acceptedRows rows board).length) :
    ranks rows board (acceptedRows rows board)[i].id = some ((i : ℤ) + 1) := by
  have hlen' := (acceptedRows_perm rows board).length_eq
  rw [ranks_getElem hids hi, int32_of_lt (by omega) (by omega)]

theorem entries_ranked (hids : (rows.map (·.id)).Nodup) :
    (rows.map (entryOf rows board privatePublished)).filter (·.rank.isSome) =
      (rows.filter (LeaderboardRecord.rankable board)).map
        (entryOf rows board privatePublished) := by
  rw [List.filter_map]
  congr 1
  apply List.filter_congr
  intro row hrow
  rw [Function.comp_apply, entryOf_rank hids hrow, ranks_isSome hids hrow]

theorem entries_unranked (hids : (rows.map (·.id)).Nodup) :
    (rows.map (entryOf rows board privatePublished)).filter (·.rank.isNone) =
      (rows.filter fun row => !row.rankable board).map
        (entryOf rows board privatePublished) := by
  rw [List.filter_map]
  congr 1
  apply List.filter_congr
  intro row hrow
  rw [Function.comp_apply, entryOf_rank hids hrow, ← ranks_isSome hids hrow, Option.not_isSome]

theorem ranked_length (hids : (rows.map (·.id)).Nodup) :
    (buildLeaderboard rows board privatePublished).ranked.length =
      (rows.filter (LeaderboardRecord.rankable board)).length := by
  change (sliceStable lessRank ((rows.map _).filter _)).length = _
  rw [(sliceStable_perm _ _).length_eq, entries_ranked hids, List.length_map]

/-- The ranked list is the sorted slice of the board. -/
theorem ranked_eq (hids : (rows.map (·.id)).Nodup)
    (hlen : (rows.filter (LeaderboardRecord.rankable board)).length < 2 ^ 31) :
    (buildLeaderboard rows board privatePublished).ranked =
      (acceptedRows rows board).map (entryOf rows board privatePublished) := by
  change sliceStable lessRank ((rows.map _).filter _) = _
  rw [entries_ranked hids]
  refine sliceStable_eq (f := fun entry : LeaderboardEntry => entry.rank.getD 0)
    (fun a b => by simp [lessRank]) ((acceptedRows_perm rows board).map _) ?_
  rw [List.pairwise_map, List.pairwise_iff_getElem]
  intro i j hi hj hij
  have hrank {n : ℕ} (hn : n < (acceptedRows rows board).length) :
      (entryOf rows board privatePublished (acceptedRows rows board)[n]).rank =
        some ((n : ℤ) + 1) := by
    rw [entryOf_rank hids (mem_acceptedRows.mp (List.getElem_mem hn)).1,
      ranks_getElem_of_lt hids hlen hn]
  rw [hrank hi, hrank hj, Option.getD_some, Option.getD_some]
  omega

theorem ranked_ranks (hids : (rows.map (·.id)).Nodup)
    (hlen : (rows.filter (LeaderboardRecord.rankable board)).length < 2 ^ 31) :
    (buildLeaderboard rows board privatePublished).ranked.map (·.rank) =
      (List.range (acceptedRows rows board).length).map fun i : ℕ => some ((i : ℤ) + 1) := by
  rw [ranked_eq hids hlen, List.map_map]
  apply List.ext_getElem
  · simp
  · intro i hi hi'
    have hn : i < (acceptedRows rows board).length := by simpa using hi
    rw [List.getElem_map, List.getElem_map, List.getElem_range, Function.comp_apply,
      entryOf_rank hids (mem_acceptedRows.mp (List.getElem_mem hn)).1,
      ranks_getElem_of_lt hids hlen hn]

/-- The rank of a rankable row is the one its entry shows on the board. -/
theorem ranks_entry (privatePublished : Bool) (hids : (rows.map (·.id)).Nodup)
    (hlen : (rows.filter (LeaderboardRecord.rankable board)).length < 2 ^ 31)
    {row : LeaderboardRecord} (hrow : row ∈ rows) (hrankable : row.rankable board = true) :
    ∃ p ∈ (buildLeaderboard rows board privatePublished).ranked, p.submissionId = row.id ∧
      ∃ x : ℤ, p.rank = some x ∧ ranks rows board row.id = some x ∧ 0 < x ∧ x < 2 ^ 31 := by
  have hmem : row ∈ acceptedRows rows board := mem_acceptedRows.mpr ⟨hrow, hrankable⟩
  obtain ⟨i, hi, rfl⟩ := List.getElem_of_mem hmem
  have hlen' := (acceptedRows_perm rows board).length_eq
  refine ⟨entryOf rows board privatePublished (acceptedRows rows board)[i], ?_, rfl, (i : ℤ) + 1,
    ?_, ranks_getElem_of_lt hids hlen hi, by omega, by omega⟩
  · rw [ranked_eq hids hlen]
    exact List.mem_map_of_mem hmem
  · rw [entryOf_rank hids hrow, ranks_getElem_of_lt hids hlen hi]

/-- The change of a row's rank between the boards. -/
theorem entryOf_rankChange (hids : (rows.map (·.id)).Nodup)
    (hpublic : (rows.filter (LeaderboardRecord.rankable .publicBoard)).length < 2 ^ 31)
    (hprivate : (rows.filter (LeaderboardRecord.rankable .privateBoard)).length < 2 ^ 31)
    {row : LeaderboardRecord} (hrow : row ∈ rows) :
    if privatePublished = true ∧ row.rankable .publicBoard = true ∧
      row.rankable .privateBoard = true
    then ∃ p ∈ (buildLeaderboard rows .publicBoard privatePublished).ranked,
      ∃ q ∈ (buildLeaderboard rows .privateBoard privatePublished).ranked,
      p.submissionId = row.id ∧ q.submissionId = row.id ∧ ∃ x y, p.rank = some x ∧
        q.rank = some y ∧ (entryOf rows board privatePublished row).rankChange = some (x - y)
    else (entryOf rows board privatePublished row).rankChange = none := by
  have hchange : (entryOf rows board privatePublished row).rankChange =
      if privatePublished then
        (ranks rows .publicBoard row.id).bind fun pr =>
          (ranks rows .privateBoard row.id).map fun qr => int32 (pr - qr)
      else none := by
    unfold entryOf leaderboardEntry
    cases ranks rows .publicBoard row.id <;> cases ranks rows .privateBoard row.id <;> rfl
  rw [hchange]
  split
  · next hall =>
    obtain ⟨hpublished, hp, hq⟩ := hall
    obtain ⟨p, hpmem, hpid, x, hpx, hx, hx0, hx1⟩ :=
      ranks_entry privatePublished hids hpublic hrow hp
    obtain ⟨q, hqmem, hqid, y, hqy, hy, hy0, hy1⟩ :=
      ranks_entry privatePublished hids hprivate hrow hq
    refine ⟨p, hpmem, q, hqmem, hpid, hqid, x, y, hpx, hqy, ?_⟩
    rw [if_pos hpublished, hx, hy]
    change some (int32 (x - y)) = _
    rw [int32_of_lt (by omega) (by omega)]
  · next hnot =>
    split
    · next hpublished =>
      have hp : (ranks rows .publicBoard row.id).isSome = row.rankable .publicBoard :=
        ranks_isSome hids hrow
      have hq : (ranks rows .privateBoard row.id).isSome = row.rankable .privateBoard :=
        ranks_isSome hids hrow
      cases hpr : ranks rows .publicBoard row.id with
      | none => rfl
      | some pr =>
        cases hqr : ranks rows .privateBoard row.id with
        | none => rfl
        | some qr =>
          rw [hpr] at hp
          rw [hqr] at hq
          exact absurd ⟨hpublished, hp.symm, hq.symm⟩ hnot
    · rfl

/-- The leaderboard of any list of rows with distinct ids and numeric scores, while fewer than 2^31
rows are rankable on each board. -/
theorem rankingLaw (hids : (rows.map (·.id)).Nodup)
    (hscores : ∀ row ∈ rows, ∀ board, ∀ score ∈ row.scoreOn board, IsScore score)
    (hlen : ∀ board, (rows.filter (LeaderboardRecord.rankable board)).length < 2 ^ 31) :
    RankingLaw rows board privatePublished where
  partition := by
    rw [List.map_append, ranked_eq hids (hlen board), List.map_map]
    change List.Perm (_ ++ List.map _ ((rows.map _).filter _)) _
    rw [entries_unranked hids, List.map_map]
    have hperm := (acceptedRows_perm rows board).append_right
      (rows.filter fun row => !row.rankable board)
    have hall := (hperm.trans (List.filter_append_perm _ rows)).map (·.id)
    rwa [List.map_append] at hall
  ranked_iff := by
    intro row hrow
    rw [ranked_eq hids (hlen board), List.map_map, ← rankable_iff]
    change row.id ∈ (acceptedRows rows board).map (·.id) ↔ _
    rw [mem_of_id hids (fun row h => (mem_acceptedRows.mp h).1) hrow, mem_acceptedRows]
    exact and_iff_right hrow
  ranked := by
    refine ⟨acceptedRows rows board,
      acceptedRows_sorted hids fun row hrow => hscores row hrow board,
      fun row h => (mem_acceptedRows.mp h).1, ?_, ranked_ranks hids (hlen board)⟩
    rw [ranked_eq hids (hlen board), List.map_map]
    rfl
  unranked := by
    change List.map _ ((rows.map _).filter _) = _
    rw [entries_unranked hids, List.map_map]
    rfl
  rankChange := by
    intro row hrow entry hentry hid
    have hrowEntry : entry = entryOf rows board privatePublished row := by
      have hmem : ∃ other ∈ rows, entryOf rows board privatePublished other = entry := by
        rcases List.mem_append.mp hentry with h | h
        · rw [ranked_eq hids (hlen board)] at h
          obtain ⟨other, hother, rfl⟩ := List.mem_map.mp h
          exact ⟨other, (mem_acceptedRows.mp hother).1, rfl⟩
        · exact List.mem_map.mp (List.mem_of_mem_filter h)
      obtain ⟨other, hother, rfl⟩ := hmem
      rw [List.inj_on_of_nodup_map hids hother hrow hid]
    rw [hrowEntry]
    exact entryOf_rankChange hids (hlen .publicBoard) (hlen .privateBoard) hrow

end

/-- A row with the score on both boards. -/
def recordOf (id score : String) : LeaderboardRecord where
  username := id
  id := id
  language := Language.go.name
  publicVerdict := Verdict.accepted.name
  publicScore := some score
  privateVerdict := some Verdict.accepted.name
  privateScore := some score
  disqualified := none
  submittedAt := 0

theorem rankingLaw_three : RankingLaw
    [recordOf "a" "10", recordOf "b" "9", { recordOf "c" "009" with disqualified := some "" }]
    .privateBoard true :=
  rankingLaw (by decide) (by intro row hrow board; revert row; cases board <;> decide)
    (by intro board; cases board <;> decide)

/-- Rows with distinct ids, all with one score. -/
def equalRows (n : ℕ) : List LeaderboardRecord :=
  (List.range n).map fun i => recordOf (String.ofList (List.replicate i 'a')) "1"

theorem equalRows_ids (n : ℕ) : ((equalRows n).map (·.id)).Nodup := by
  rw [equalRows, List.map_map]
  refine List.Nodup.map ?_ List.nodup_range
  intro i j hij
  have hlist : List.replicate i 'a' = List.replicate j 'a' := by
    simpa [recordOf] using congrArg String.toList hij
  simpa using congrArg List.length hlist

theorem equalRows_rankable {n : ℕ} {row : LeaderboardRecord} (hrow : row ∈ equalRows n)
    (board : LeaderboardBoard) : row.rankable board = true := by
  obtain ⟨i, _, rfl⟩ := List.mem_map.mp hrow
  cases board <;> rfl

theorem equalRows_isScore {n : ℕ} : ∀ row ∈ equalRows n, ∀ board, ∀ score ∈ row.scoreOn board,
    IsScore score := by
  intro row hrow board score hscore
  obtain ⟨i, _, rfl⟩ := List.mem_map.mp hrow
  have hone : score = "1" := by
    cases board <;> exact (Option.some.inj hscore).symm
  rw [hone]
  decide

/-- The law makes the rank of the last row positive. -/
theorem int32_pos_of_rankingLaw {n : ℕ}
    (hlaw : RankingLaw (equalRows (n + 1)) .publicBoard false) : 0 < int32 (n + 1) := by
  have hids := equalRows_ids (n + 1)
  have hlast : n < (acceptedRows (equalRows (n + 1)) .publicBoard).length := by
    rw [(acceptedRows_perm _ _).length_eq,
      List.filter_eq_self.mpr fun row hrow => equalRows_rankable hrow .publicBoard, equalRows,
      List.length_map, List.length_range]
    exact Nat.lt_succ_self n
  have hrank := ranks_getElem hids hlast
  obtain ⟨hrow, hrankable⟩ := mem_acceptedRows.mp (List.getElem_mem hlast)
  obtain ⟨entry, hentry, hid⟩ := List.mem_map.mp
    ((hlaw.ranked_iff _ hrow).mpr (rankable_iff.mp hrankable))
  have hentries := (List.mem_filter.mp (mem_sliceStable.mp hentry)).1
  obtain ⟨other, hother, rfl⟩ := List.mem_map.mp hentries
  obtain rfl : other = _ := List.inj_on_of_nodup_map hids hother hrow hid
  obtain ⟨order, _, _, _, hranks⟩ := hlaw.ranked
  have hmem : _ ∈ (buildLeaderboard _ _ _).ranked.map (·.rank) := List.mem_map_of_mem hentry
  rw [hranks] at hmem
  obtain ⟨i, _, hi⟩ := List.mem_map.mp hmem
  have hposition : some ((i : ℤ) + 1) = some (int32 (n + 1)) :=
    hi.trans ((entryOf_rank hids hother).trans hrank)
  have hvalue := Option.some.inj hposition
  omega

/-- The row after 2^31 - 1 others has a negative rank. -/
theorem not_rankingLaw : ¬ ∀ (rows : List LeaderboardRecord) (board : LeaderboardBoard)
    (privatePublished : Bool), (rows.map (·.id)).Nodup →
    (∀ row ∈ rows, ∀ board, ∀ score ∈ row.scoreOn board, IsScore score) →
    RankingLaw rows board privatePublished := by
  intro h
  have hpos := int32_pos_of_rankingLaw (h (equalRows (2 ^ 31 - 1 + 1)) .publicBoard false
    (equalRows_ids _) equalRows_isScore)
  revert hpos
  decide

end OneBrc.Server
