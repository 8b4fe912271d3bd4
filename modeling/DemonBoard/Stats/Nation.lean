import DemonBoard.Stats.Player

/-! What stands behind a nation's score: its best record on each demon, and the demons nobody has beaten. -/

namespace DemonBoard

structure BestRecord (α : Type) where
  demon : String
  position : Int
  player : String
  progress : Int
  verification : Bool
  rated : Bool
  score : α

structure NationStats (α : Type) where
  code : String
  name : String
  rank : Option Nat
  totals : Totals α
  players : Nat
  bestRecords : List (BestRecord α)
  unbeaten : List String

namespace Database

variable {α : Type}

/-- The best row of a nation per demon, where demon and player are on file, from the top down. -/
def bestRecords [Scalar α] (db : Database α) (code : String) : List (BestRecord α) :=
  let best := bestPerDemon Grouping.nations.columns (Grouping.nations.rowsOf code db.standardRows)
  let named := (withScores Curve.standard (scoredWindow : α) best).filterMap fun (r, score) => do
    let player ← db.players.find? r.playerId
    let demon ← db.demons.find? r.demonId
    if demon.listed then
      some (⟨demon.name, r.position, player.name, r.progress, r.verification, r.rated, score⟩ : BestRecord α)
    else none
  sortOn BestRecord.position named

def unbeatenBy (db : Database α) (code : String) : List String :=
  let members := Grouping.nations.rowsOf code db.standardRows
  let beaten := (members.filter fun r => r.progress = 100).map ScoreRow.demonId
  (db.demonsInOrder.filter fun (id, _) => !beaten.contains id).map fun (_, d) => d.name

def nationStats [Scalar α] (db : Database α) (code : String) : Except Error (NationStats α) := do
  let some nation := db.nations.find? code | throw (.unknownNation code)
  return {
    code
    name := nation.name
    rank := db.nationBoard.rankOf code .rated
    totals := db.nationBoard.total code
    players := (db.players.entries.filter fun (_, p) => p.nationality = some code && !p.banned).length
    bestRecords := db.bestRecords code
    unbeaten := db.unbeatenBy code }

end Database

end DemonBoard
