import DemonBoard.Proofs.NationRecords
import DemonBoard.Proofs.PositiveScores
import DemonBoard.Proofs.RankTables

/-! Who is ranked. A place goes to a positive total, and a total is positive exactly if somebody who counts for the
entity has made score on a demon of the pool. So the ranks can be told from the records, without a look at a score. -/

namespace DemonBoard

namespace Board

variable {κ : Type} [Ord κ] [DecidableEq κ]

/-- No total is negative, and none counts for more over the rated demons than over all. -/
def Nested (b : Board κ ℝ) : Prop := ∀ k, 0 ≤ (b.total k).score ∧ (b.total k).score ≤ (b.total k).unratedScore

def RatedAmongAll (b : Board κ ℝ) : Prop := ∀ k, (b.rankOf k .rated).isSome → (b.rankOf k .unrated).isSome

end Board

namespace Database

variable {db : Database ℝ}

section Earned

variable {κ ρ : Type} [Ord κ] [DecidableEq κ] [Std.TransOrd κ] {entities : Table κ ρ} {mayRank : κ → ρ → Bool}
  {counts : κ → Int → Bool} {pool : Pool} {k : κ}

noncomputable def earnedBoard (db : Database ℝ) (entities : Table κ ρ) (mayRank : κ → ρ → Bool)
    (counts : κ → Int → Bool) : Board κ ℝ := Board.ofTotals entities mayRank fun k => db.earned (counts k)

theorem nested_earnedBoard : (db.earnedBoard entities mayRank counts).Nested := by
  intro k
  by_cases known : k ∈ entities.keys
  · rw [earnedBoard, Board.total_ofTotals known]
    exact earned_bounds db (counts k)
  · have nothing : (db.earnedBoard entities mayRank counts).total k = Totals.zero := by
      rw [Board.total, earnedBoard, Board.ofTotals, Table.find?_mapRows, Table.find?_eq_none_iff.2 known]
      rfl
    rw [nothing]
    exact ⟨le_refl 0, le_refl 0⟩

variable [Std.LawfulEqOrd κ]

/-- An entity is ranked if it may be, and somebody who counts for it has made score. -/
theorem isSome_rankOf_earnedBoard (dense : db.Dense) (bounded : db.WithinHundred) :
    ((db.earnedBoard entities mayRank counts).rankOf k pool).isSome ↔
      ∃ row, entities.find? k = some row ∧ mayRank k row ∧ ∃ id, counts k id ∧ db.Scores pool id := by
  simp only [earnedBoard, Board.isSome_rankOf_ofTotals, earned_pos_iff dense bounded]

theorem ratedAmongAll_earnedBoard (dense : db.Dense) (bounded : db.WithinHundred) :
    (db.earnedBoard entities mayRank counts).RatedAmongAll := by
  intro k
  simp only [isSome_rankOf_earnedBoard dense bounded]
  rintro ⟨row, found, may, id, counted, scores⟩
  exact ⟨row, found, may, id, counted, scores.unrated⟩

theorem unranked_earnedBoard (dense : db.Dense) (bounded : db.WithinHundred)
    (nobody : ∀ id, counts k id → ¬ db.Scores .unrated id) :
    (db.earnedBoard entities mayRank counts).ranks.find? k = none := by
  cases found : (db.earnedBoard entities mayRank counts).ranks.find? k with
  | none => rfl
  | some s =>
    obtain ⟨pool, ranked⟩ := Board.exists_rankOf_ofTotals found
    have unrated : ((db.earnedBoard entities mayRank counts).rankOf k .unrated).isSome := by
      cases pool with
      | rated => exact ratedAmongAll_earnedBoard dense bounded k ranked
      | unrated => exact ranked
    obtain ⟨-, -, -, id, counted, scores⟩ := (isSome_rankOf_earnedBoard dense bounded).1 unrated
    exact absurd scores (nobody id counted)

end Earned

section Boards

theorem Fresh.playerBoard_eq (fresh : db.Fresh) (bounded : db.WithinHundred) :
    db.playerBoard = db.earnedBoard db.players (fun _ p => !p.banned) fun id id' => id' = id := by
  rw [← freshIn_player.1 (fresh_iff.1 fresh .player)]
  apply congrArg (Board.ofTotals _ _)
  funext id
  exact totalIn_eq_earned bounded Grouping.faithful_players (db.selects_players scoredWindow id)

theorem Fresh.total_playerBoard (fresh : db.Fresh) (bounded : db.WithinHundred) {id : Int}
    (known : id ∈ db.players.keys) : db.playerBoard.total id = db.earned fun id' => id' = id := by
  rw [fresh.playerBoard_eq bounded, earnedBoard, Board.total_ofTotals known]

theorem Fresh.nationBoard_eq (fresh : db.Fresh) (bounded : db.WithinHundred) :
    db.nationBoard = db.earnedBoard db.nations (fun _ _ => true) fun code => db.playersWho (Player.countsFor code) := by
  rw [← freshIn_nation.1 (fresh_iff.1 fresh .nation)]
  apply congrArg (Board.ofTotals _ _)
  funext code
  exact totalIn_eq_earned bounded Grouping.faithful_nations (db.selects_nations scoredWindow code)

theorem Fresh.subdivisionBoard_eq (fresh : db.Fresh) (bounded : db.WithinHundred) :
    db.subdivisionBoard = db.earnedBoard db.subdivisions (fun _ _ => true) fun region =>
      db.playersWho (Player.countsForRegion region) := by
  rw [← freshIn_subdivision.1 (fresh_iff.1 fresh .subdivision)]
  apply congrArg (Board.ofTotals _ _)
  funext region
  exact totalIn_eq_earned bounded Grouping.faithful_subdivisions (db.selects_subdivisions scoredWindow region)

theorem Fresh.isSome_rankOf_verifier (fresh : db.Fresh) (dense : db.Dense) (bounded : db.WithinHundred) {id : Int}
    {d : Demon} {player : Player} {pool : Pool} (found : db.demons.find? id = some d) (listed : d.listed)
    (counted : pool.counts d) (known : db.players.find? d.verifierId = some player) (free : player.banned = false) :
    (db.playerBoard.rankOf d.verifierId pool).isSome := by
  rw [fresh.playerBoard_eq bounded, isSome_rankOf_earnedBoard dense bounded]
  have scores : db.Scores pool d.verifierId := ⟨id, d, found, listed, counted, .inl rfl⟩
  exact ⟨player, known, by simp [free], d.verifierId, by simp, scores⟩

end Boards

/-- Some player on file who meets a condition has made score. -/
def SomeoneScores {α : Type} (db : Database α) (condition : Player → Bool) (pool : Pool) : Prop :=
  ∃ id player, db.players.find? id = some player ∧ condition player ∧ db.Scores pool id

theorem exists_playersWho_iff {condition : Player → Bool} {pool : Pool} :
    (∃ id, db.playersWho condition id ∧ db.Scores pool id) ↔ db.SomeoneScores condition pool := by
  simp only [playersWho, Option.any_eq_true, SomeoneScores]
  constructor
  · rintro ⟨id, ⟨player, found, meets⟩, scores⟩
    exact ⟨id, player, found, meets, scores⟩
  · rintro ⟨id, player, found, meets, scores⟩
    exact ⟨id, ⟨player, found, meets⟩, scores⟩

/-- Who is ranked, on a fresh database with a dense list: in each pool the players who are not banned and have made
score on a demon of it, and the nations and subdivisions of such players. -/
theorem ranked_iff_scores (fresh : db.Fresh) (dense : db.Dense) (bounded : db.WithinHundred) :
    (db.playerBoard.Nested ∧ db.nationBoard.Nested ∧ db.subdivisionBoard.Nested) ∧
    (∀ id pool, (db.playerBoard.rankOf id pool).isSome ↔
      ∃ player, db.players.find? id = some player ∧ player.banned = false ∧ db.Scores pool id) ∧
    (∀ code pool, (db.nationBoard.rankOf code pool).isSome ↔
      code ∈ db.nations.keys ∧ db.SomeoneScores (Player.countsFor code) pool) ∧
    (∀ region pool, (db.subdivisionBoard.rankOf region pool).isSome ↔
      region ∈ db.subdivisions.keys ∧ db.SomeoneScores (Player.countsForRegion region) pool) ∧
    (db.playerBoard.RatedAmongAll ∧ db.nationBoard.RatedAmongAll ∧ db.subdivisionBoard.RatedAmongAll) ∧
    (∀ id, ¬ db.Scores .unrated id → db.playerBoard.ranks.find? id = none) ∧
    (∀ code, ¬ db.SomeoneScores (Player.countsFor code) .unrated → db.nationBoard.ranks.find? code = none) ∧
    ∀ region, ¬ db.SomeoneScores (Player.countsForRegion region) .unrated →
      db.subdivisionBoard.ranks.find? region = none := by
  have known {κ ρ : Type} [Ord κ] [DecidableEq κ] {t : Table κ ρ} {k : κ} :
      k ∈ t.keys ↔ ∃ row, t.find? k = some row := by
    rw [← Table.contains_iff, Table.contains, Option.isSome_iff_exists]
  rw [fresh.playerBoard_eq bounded, fresh.nationBoard_eq bounded, fresh.subdivisionBoard_eq bounded]
  refine ⟨⟨nested_earnedBoard, nested_earnedBoard, nested_earnedBoard⟩, ?_, ?_, ?_,
    ⟨ratedAmongAll_earnedBoard dense bounded, ratedAmongAll_earnedBoard dense bounded,
      ratedAmongAll_earnedBoard dense bounded⟩, ?_, ?_, ?_⟩
  · intro id pool
    simp [isSome_rankOf_earnedBoard dense bounded]
  · intro code pool
    simp [isSome_rankOf_earnedBoard dense bounded, exists_playersWho_iff, known]
  · intro region pool
    simp [isSome_rankOf_earnedBoard dense bounded, exists_playersWho_iff, known]
  · intro id nothing
    apply unranked_earnedBoard dense bounded
    intro id' same
    rw [of_decide_eq_true same]
    exact nothing
  · intro code nobody
    apply unranked_earnedBoard dense bounded
    exact fun id member scores => nobody (exists_playersWho_iff.1 ⟨id, member, scores⟩)
  · intro region nobody
    apply unranked_earnedBoard dense bounded
    exact fun id member scores => nobody (exists_playersWho_iff.1 ⟨id, member, scores⟩)

/-- The verifier of the top demon is banned, and somebody of the same nation came past the requirement of the second
one, which is not rated. -/
theorem ranked_iff_scores_of_two :
    let first : Demon := ⟨"a", some 1, 50, none, 1, 1, true, ⟨0⟩, none⟩
    let second : Demon := ⟨"b", some 2, 40, none, 9, 9, false, ⟨0⟩, none⟩
    let db : Database ℝ := { (empty : Database ℝ) with
      nations := ⟨[("FR", ⟨"France", none⟩)], List.pairwise_singleton _ _⟩
      players := (Table.empty.append ⟨"p", some "FR", none, true⟩).append ⟨"q", some "FR", none, false⟩
      demons := (Table.empty.append first).append second
      records := Table.empty.append ⟨2, 2, 60, .approved⟩ }
    let after := (db.recomputeAll .absent).state
    (after.playerBoard.rankOf 1 .rated).isSome = false ∧ (after.playerBoard.rankOf 2 .rated).isSome = false ∧
      (after.playerBoard.rankOf 2 .unrated).isSome ∧ (after.nationBoard.rankOf "FR" .unrated).isSome := by
  intro first second db after
  have fresh : after.Fresh := fresh_recomputeAll db
  have tables : SameTables db after := sameTables_recompute .absent db Scope.all
  have bounded : after.WithinHundred := by
    rw [tables]
    decide
  have dense : after.Dense := by
    rw [tables]
    decide
  obtain ⟨-, players, nations, -⟩ := ranked_iff_scores fresh dense bounded
  have second_player : after.players.find? 2 = some ⟨"q", some "FR", none, false⟩ := by
    rw [tables]
    decide
  have scores : after.Scores .unrated 2 := by
    rw [tables]
    exact ⟨2, second, by decide, rfl, rfl, .inr ⟨1, ⟨2, 2, 60, .approved⟩, by decide, rfl, rfl, rfl,
      .inr ⟨⟨2, rfl, by decide⟩, by decide⟩⟩⟩
  have none_rated : ¬ after.Scores .rated 2 := by
    rw [tables]
    rintro ⟨id, d, found, -, rated, verified | ⟨recordId, record, found', -, -, about, -⟩⟩
    · rcases List.mem_cons.1 (Table.mem_of_find? found) with same | other
      · cases same
        exact absurd verified (by decide)
      · cases List.mem_singleton.1 other
        cases rated
    · cases List.mem_singleton.1 (Table.mem_of_find? found')
      subst about
      obtain rfl : second = d := Option.some_inj.1 found
      cases rated
  refine ⟨?_, ?_, ?_, ?_⟩
  · rw [Bool.eq_false_iff, ne_eq, players]
    rintro ⟨player, found, free, -⟩
    obtain rfl : (⟨"p", some "FR", none, true⟩ : Player) = player := by
      rw [tables] at found
      exact Option.some_inj.1 found
    cases free
  · rw [Bool.eq_false_iff, ne_eq, players]
    rintro ⟨-, -, -, rated⟩
    exact none_rated rated
  · rw [players]
    exact ⟨_, second_player, rfl, scores⟩
  · rw [nations]
    refine ⟨?_, 2, _, second_player, by decide, scores⟩
    rw [tables]
    decide

end Database

end DemonBoard
