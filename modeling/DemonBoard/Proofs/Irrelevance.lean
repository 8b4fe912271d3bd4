import DemonBoard.Proofs.Edits
import DemonBoard.Proofs.Passes

/-! What the boards do not depend on. A player's own totals are the same whatever the player represents, and
no board looks at a demon's name, video or publisher. -/

namespace DemonBoard

section Sorting

variable {β γ δ : Type} {f : β → γ}

theorem insertBy_map {le : β → β → Bool} {le' : γ → γ → Bool} (same : ∀ a b, le' (f a) (f b) = le a b)
    (x : β) (xs : List β) : insertBy le' (f x) (xs.map f) = (insertBy le x xs).map f := by
  induction xs with
  | nil => rfl
  | cons y ys ih =>
    simp only [List.map_cons, insertBy, same]
    split
    · rfl
    · rw [List.map_cons, ih]

theorem sortBy_map {le : β → β → Bool} {le' : γ → γ → Bool} (same : ∀ a b, le' (f a) (f b) = le a b)
    (xs : List β) : sortBy le' (xs.map f) = (sortBy le xs).map f := by
  induction xs with
  | nil => rfl
  | cons x xs ih => rw [List.map_cons, sortBy, ih, insertBy_map same, sortBy]

variable [DecidableEq δ] {group : β → δ} {group' : γ → δ}

theorem skipGroup_map (same : ∀ a, group' (f a) = group a) (current : δ) (xs : List β) :
    skipGroup group' current (xs.map f) = (skipGroup group current xs).map f := by
  induction xs generalizing current with
  | nil => rfl
  | cons x xs ih =>
    simp only [List.map_cons, skipGroup, same]
    split
    · exact ih current
    · rw [List.map_cons, ih]

theorem firstOfGroups_map (same : ∀ a, group' (f a) = group a) (xs : List β) :
    firstOfGroups group' (xs.map f) = (firstOfGroups group xs).map f := by
  cases xs with
  | nil => rfl
  | cons x xs => rw [List.map_cons, firstOfGroups, skipGroup_map same, same, firstOfGroups, List.map_cons]

end Sorting

def Member.anonymous (m : Member) : Member := ⟨none, none, m.banned⟩

def ScoreRow.anonymous (r : ScoreRow) : ScoreRow := { r with nationality := none, subdivision := none }

def anonymousMembers (players : List (Int × Member)) : List (Int × Member) :=
  players.map fun (id, m) => (id, m.anonymous)

theorem membersOf_anonymousMembers (players : List (Int × Member)) (playerId : Int) :
    membersOf (anonymousMembers players) playerId = (membersOf players playerId).map Member.anonymous := by
  have found : (anonymousMembers players).filter (fun (id, _) => id = playerId) =
      anonymousMembers (players.filter fun (id, _) => id = playerId) := by
    unfold anonymousMembers
    rw [List.filter_map]
    rfl
  unfold membersOf
  rw [found]
  cases players.filter fun (id, _) => id = playerId with
  | nil => rfl
  | cons e rest => simp [anonymousMembers]

theorem scoreGiving_anonymousMembers (records : List (Int × Record)) (demons : List ListedDemon)
    (players : List (Int × Member)) (window : Int) :
    scoreGiving records demons (anonymousMembers players) window =
      (scoreGiving records demons players window).map ScoreRow.anonymous := by
  unfold scoreGiving
  simp only [membersOf_anonymousMembers, List.map_append, List.map_flatMap, List.map_map]
  rfl

section Players

variable {α : Type} [Scalar α]

theorem counted_players_anonymous (rows : List ScoreRow) :
    Grouping.players.counted (rows.map ScoreRow.anonymous) =
      (Grouping.players.counted rows).map ScoreRow.anonymous := by
  change bestPerDemon [.playerId] (rows.map ScoreRow.anonymous) =
    (bestPerDemon [.playerId] rows).map ScoreRow.anonymous
  have order (a b : ScoreRow) : (ScoreRow.order [.playerId] a.anonymous b.anonymous).isLE =
      (ScoreRow.order [.playerId] a b).isLE := rfl
  have group (a : ScoreRow) : ScoreRow.group [.playerId] a.anonymous = ScoreRow.group [.playerId] a := rfl
  unfold bestPerDemon sortWith
  rw [sortBy_map order, firstOfGroups_map group]

/-- A player's totals are the same whatever the players represent. -/
theorem totalIn_players_anonymous (curve : Curve α) (rows : List ScoreRow) (playerId : Int) :
    Grouping.players.totalIn (Grouping.players.scored curve (rows.map ScoreRow.anonymous)) playerId =
      Grouping.players.totalIn (Grouping.players.scored curve rows) playerId := by
  unfold Grouping.totalIn Grouping.scored
  rw [counted_players_anonymous]
  unfold withScores sumPools
  simp only [List.map_map, List.filter_map]
  rfl

end Players

theorem Board.ofTotals_modify {κ α ρ : Type} [Ord κ] [Std.TransOrd κ] [DecidableEq κ] [Scalar α]
    {entities : Table κ ρ} {key : κ} {f : ρ → ρ} {mayRank : κ → ρ → Bool} {total : κ → Totals α}
    (same : ∀ row, entities.find? key = some row → mayRank key (f row) = mayRank key row) :
    Board.ofTotals (entities.modify key f) mayRank total = Board.ofTotals entities mayRank total := by
  have totals : (entities.modify key f).mapRows (fun k _ => total k) =
      entities.mapRows fun k _ => total k := by
    refine Table.ext ?_
    simp only [Table.modify, Table.entries_mapRows, List.map_map]
    rfl
  have ranked : ((entities.modify key f).filter mayRank).mapRows (fun k _ => total k) =
      (entities.filter mayRank).mapRows fun k _ => total k := by
    refine Table.ext ?_
    change ((entities.entries.map fun e => (e.1, if e.1 = key then f e.2 else e.2)).filter _).map _ =
      (entities.entries.filter _).map _
    rw [List.filter_map, List.map_map]
    refine congrArg (List.map _) (List.filter_congr fun e mem => ?_)
    dsimp only [Function.comp]
    split
    · rename_i about
      subst about
      exact same e.2 (Table.find?_eq_some_iff.2 mem)
    · rfl
  rw [Board.ofTotals, totals, ranked]
  rfl

/-- Two demons that scores cannot tell apart. -/
structure Demon.SameScoring (d d' : Demon) : Prop where
  listed : d'.listed = d.listed
  position : d'.position = d.position
  requirement : d'.requirement = d.requirement
  rated : d'.rated = d.rated
  verifier : d'.verifierId = d.verifierId

namespace Database

variable {α : Type} {db : Database α} {id : Int}

section Nationality

variable {player : Player} {nationality subdivision : Option String}

def represented (db : Database α) (id : Int) (player : Player) (nationality subdivision : Option String) :
    Database α :=
  { db with players := db.players.modify id fun _ => { player with nationality, subdivision } }

theorem anonymousMembers_represented (found : db.players.find? id = some player) :
    anonymousMembers (db.represented id player nationality subdivision).members =
      anonymousMembers db.members := by
  unfold anonymousMembers members represented
  simp only [Table.modify, Table.entries_mapRows, List.map_map]
  refine List.map_congr_left ?_
  intro e mem
  dsimp only [Function.comp]
  split
  · rename_i about
    subst about
    rw [Table.find?_eq_some_iff.2 mem, Option.some_inj] at found
    rw [found]
    rfl
  · rfl

theorem computedPlayerBoard_represented [Scalar α] (found : db.players.find? id = some player) :
    (db.represented id player nationality subdivision).computedPlayerBoard = db.computedPlayerBoard := by
  have rows : (db.represented id player nationality subdivision).standardRows.map ScoreRow.anonymous =
      db.standardRows.map ScoreRow.anonymous := by
    unfold standardRows scoreGiving
    rw [← scoreGiving_anonymousMembers, ← scoreGiving_anonymousMembers, anonymousMembers_represented found]
    rfl
  have totals : Grouping.players.totalIn (Grouping.players.scored (Curve.standard : Curve α)
        (db.represented id player nationality subdivision).standardRows) =
      Grouping.players.totalIn (Grouping.players.scored Curve.standard db.standardRows) := by
    funext playerId
    rw [← totalIn_players_anonymous, rows, totalIn_players_anonymous]
  unfold computedPlayerBoard
  dsimp only
  rw [totals]
  refine Board.ofTotals_modify ?_
  intro row found'
  rw [found, Option.some_inj] at found'
  rw [found']

end Nationality

section Wording

variable {demon patched : Demon} {previous : Changes} {userId : Option Int} {time : Moment}

theorem candidateRecords_replaced (found : db.demons.find? id = some demon)
    (same : Demon.SameScoring demon patched) (window : Int) :
    (db.replaced id patched previous userId time).candidateRecords window = db.candidateRecords window := by
  unfold candidateRecords
  refine List.filter_congr ?_
  intro e _
  dsimp only
  rw [find?_replaced found]
  split
  · rename_i about
    rw [about, found, Option.any_some, Option.any_some, same.listed, same.position]
  · rfl

theorem placedDemons_replaced (found : db.demons.find? id = some demon)
    (same : Demon.SameScoring demon patched) :
    (db.replaced id patched previous userId time).placedDemons = db.placedDemons := by
  unfold placedDemons
  change (db.demons.entries.map fun e => (e.1, if e.1 = id then patched else e.2)).filterMap _ = _
  rw [List.filterMap_map]
  refine List.filterMap_congr ?_
  intro e mem
  dsimp only [Function.comp]
  split
  · rename_i about
    subst about
    rw [Table.find?_eq_some_iff.2 mem, Option.some_inj] at found
    rw [found, same.listed, same.position, same.requirement, same.rated, same.verifier]
  · rfl

theorem standardRows_replaced (found : db.demons.find? id = some demon)
    (same : Demon.SameScoring demon patched) :
    (db.replaced id patched previous userId time).standardRows = db.standardRows := by
  unfold standardRows scoreGiving
  rw [candidateRecords_replaced found same, placedDemons_replaced found same]
  rfl

end Wording

end Database

end DemonBoard
