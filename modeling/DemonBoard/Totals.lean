import DemonBoard.ScoreGiving.Best

/-!
Totals. An entity's total is the sum of the scores of its best rows, one per demon, once over the rated
demons and once over all. The entities of a scope are described by a `Grouping`.
-/

namespace DemonBoard

/-- How a scope groups rows: the columns, the key that they make up, and whether banned players and
rows without a key stay out. -/
structure Grouping (κ : Type) where
  columns : List Column
  key : ScoreRow → Option κ
  membersOnly : Bool

namespace Grouping

def players : Grouping Int := ⟨[.playerId], fun r => some r.playerId, false⟩

def nations : Grouping String := ⟨[.nationality], ScoreRow.nationality, true⟩

def subdivisions : Grouping Region where
  columns := [.nationality, .subdivision]
  key r := do return ⟨← r.nationality, ← r.subdivision⟩
  membersOnly := true

end Grouping

variable {κ α : Type} [DecidableEq κ] [Scalar α]

def ScoreRow.score (curve : Curve α) (cap : α) (r : ScoreRow) : α :=
  curve.recordScore r.progress r.position cap r.requirement

def withScores (curve : Curve α) (cap : α) (rows : List ScoreRow) : List (ScoreRow × α) :=
  rows.map fun r => (r, r.score curve cap)

def sumPools (scored : List (ScoreRow × α)) : Totals α where
  score := Scalar.orZero (Scalar.sum ((scored.filter (·.1.rated)).map Prod.snd))
  unratedScore := Scalar.orZero (Scalar.sum (scored.map Prod.snd))

namespace Grouping

def counted (g : Grouping κ) (rows : List ScoreRow) : List ScoreRow :=
  bestPerDemon g.columns (if g.membersOnly then memberRows g.columns rows else rows)

/-- The counted rows with their scores under the window as cap. -/
def scored (g : Grouping κ) (curve : Curve α) (rows : List ScoreRow) : List (ScoreRow × α) :=
  withScores curve (scoredWindow : α) (g.counted rows)

def totalIn (g : Grouping κ) (scored : List (ScoreRow × α)) (k : κ) : Totals α :=
  sumPools (scored.filter fun (r, _) => g.key r = some k)

def totals (g : Grouping κ) (curve : Curve α) (rows : List ScoreRow) : List (κ × Totals α) :=
  let scored := g.scored curve rows
  (firstOfGroups id (scored.filterMap fun (r, _) => g.key r)).map fun k => (k, g.totalIn scored k)

def rowsOf (g : Grouping κ) (k : κ) (rows : List ScoreRow) : List ScoreRow :=
  memberRows g.columns (rows.filter fun r => g.key r = some k)

/-- An entity's sum over the rated or over the other demons alone, computed on demand. -/
def drillDown (g : Grouping κ) (curve : Curve α) (k : κ) (rated : Bool) (rows : List ScoreRow) : α :=
  let best := bestPerDemon g.columns ((g.rowsOf k rows).filter (·.rated == rated))
  Scalar.sum ((withScores curve (scoredWindow : α) best).map Prod.snd)

end Grouping

namespace Database

def standardRows (db : Database α) : List ScoreRow := db.scoreGiving scoredWindow

def scoreOfNation (db : Database α) (rated : Bool) (nation : String) : α :=
  Grouping.nations.drillDown Curve.standard nation rated db.standardRows

def scoreOfSubdivision (db : Database α) (rated : Bool) (region : Region) : α :=
  Grouping.subdivisions.drillDown Curve.standard region rated db.standardRows

end Database

end DemonBoard
