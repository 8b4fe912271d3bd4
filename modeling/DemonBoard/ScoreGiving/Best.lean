import DemonBoard.ScoreGiving
import DemonBoard.Sorting

/-!
The best row per demon. Rows are grouped by the demon and any columns; of each group the one with the
most progress is kept, and of those the one with the lowest record id.
-/

namespace DemonBoard

inductive Cell where
  | flag (value : Bool)
  | number (value : Int)
  | text (value : String)
  | null
  deriving DecidableEq

namespace Cell

def ofText? : Option String → Cell
  | some s => text s
  | none => null

def isNull : Cell → Bool
  | null => true
  | _ => false

/-- Flags stand before numbers, numbers before texts, and null after everything. -/
def kind : Cell → Nat
  | flag _ => 0
  | number _ => 1
  | text _ => 2
  | null => 3

def flagPart : Cell → Bool
  | flag value => value
  | _ => false

def numberPart : Cell → Int
  | number value => value
  | _ => 0

def textPart : Cell → String
  | text value => value
  | _ => ""

def order : Cell → Cell → Ordering :=
  compareLex (compareOn kind) <| compareLex (compareOn flagPart) <|
    compareLex (compareOn numberPart) (compareOn textPart)

instance : Ord Cell := ⟨order⟩

instance : Std.TransOrd Cell :=
  inferInstanceAs (Std.TransCmp (compareLex (compareOn kind) (compareLex (compareOn flagPart)
    (compareLex (compareOn numberPart) (compareOn textPart)))))

instance : Std.LawfulEqOrd Cell where
  eq_of_compare {a b} h := by
    obtain ⟨kinds, h⟩ := compareLex_eq_eq.1 h
    obtain ⟨flags, h⟩ := compareLex_eq_eq.1 h
    obtain ⟨numbers, texts⟩ := compareLex_eq_eq.1 h
    replace kinds := Std.LawfulEqOrd.eq_of_compare kinds
    replace flags := Std.LawfulEqOrd.eq_of_compare flags
    replace numbers := Std.LawfulEqOrd.eq_of_compare numbers
    replace texts := Std.LawfulEqOrd.eq_of_compare texts
    cases a <;> cases b <;> simp_all [kind, flagPart, numberPart, textPart]

end Cell

inductive Column where
  | recordId
  | playerId
  | demonId
  | progress
  | position
  | requirement
  | rated
  | verification
  | nationality
  | subdivision
  | banned
  deriving DecidableEq

namespace Column

def all : List Column :=
  [.recordId, .playerId, .demonId, .progress, .position, .requirement, .rated, .verification, .nationality,
   .subdivision, .banned]

def label : Column → String
  | recordId => "record_id"
  | playerId => "player_id"
  | demonId => "demon_id"
  | progress => "progress"
  | position => "position"
  | requirement => "requirement"
  | rated => "rated"
  | verification => "verification"
  | nationality => "nationality"
  | subdivision => "subdivision"
  | banned => "banned"

def ofLabel? (s : String) : Option Column := all.find? (·.label == s)

end Column

namespace ScoreRow

def cell (r : ScoreRow) : Column → Cell
  | .recordId => .number r.recordId
  | .playerId => .number r.playerId
  | .demonId => .number r.demonId
  | .progress => .number r.progress
  | .position => .number r.position
  | .requirement => .number r.requirement
  | .rated => .flag r.rated
  | .verification => .flag r.verification
  | .nationality => .ofText? r.nationality
  | .subdivision => .ofText? r.subdivision
  | .banned => .flag r.banned

/-- What rows of one group agree on: the given columns and the demon. -/
def group (columns : List Column) (r : ScoreRow) : List Cell × Int := (columns.map r.cell, r.demonId)

def order (columns : List Column) : ScoreRow → ScoreRow → Ordering :=
  compareLex (compareOn fun r => columns.map r.cell) <| compareLex (compareOn demonId) <|
    compareLex (compareOn fun r => -r.progress) (compareOn recordId)

instance (columns : List Column) : Std.TransCmp (order columns) :=
  inferInstanceAs (Std.TransCmp (compareLex (compareOn fun r : ScoreRow => columns.map r.cell)
    (compareLex (compareOn demonId) (compareLex (compareOn fun r => -r.progress) (compareOn recordId)))))

/-- Whether a player may count for the given columns: not banned, and none of them null. -/
def mayCount (columns : List Column) (r : ScoreRow) : Bool :=
  !r.banned && columns.all fun c => !(r.cell c).isNull

end ScoreRow

/-- What follows an item without the items right after it that are in its group. -/
def skipGroup {β γ : Type} [DecidableEq γ] (group : β → γ) (current : γ) : List β → List β
  | [] => []
  | x :: rest =>
    if group x = current then skipGroup group current rest else x :: skipGroup group (group x) rest

def firstOfGroups {β γ : Type} [DecidableEq γ] (group : β → γ) : List β → List β
  | [] => []
  | x :: rest => x :: skipGroup group (group x) rest

/-- One best row per demon and combination of the columns, in the order of these. -/
def bestPerDemon (columns : List Column) (rows : List ScoreRow) : List ScoreRow :=
  firstOfGroups (ScoreRow.group columns) (sortWith (ScoreRow.order columns) rows)

def memberRows (columns : List Column) (rows : List ScoreRow) : List ScoreRow :=
  rows.filter (ScoreRow.mayCount columns)

/-- One best row per player and demon: a verifier who also handed in a record counts once. -/
def playerStream (rows : List ScoreRow) : List ScoreRow := bestPerDemon [.playerId] rows

end DemonBoard
