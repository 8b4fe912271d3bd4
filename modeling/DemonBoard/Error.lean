import DemonBoard.Moment.Text
import DemonBoard.Record
import DemonBoard.Text.Layout
import DemonBoard.Text.Quoted

/-!
What can go wrong, as causes. `Error.kind` says which sort of failure a cause is, and `Error.message`
words it.
-/

namespace DemonBoard

inductive Constraint where
  | key
  | uniqueName
  | required
  | percentage
  | subdivisionHasNation
  deriving DecidableEq

/-- An operand that a comparison or a sum was given: a number, or nothing. -/
inductive Operand where
  | whole
  | absent
  deriving DecidableEq

namespace Operand

def label : Operand → String
  | whole => "int"
  | absent => "NoneType"

end Operand

inductive Error where
  | percentage (field : String) (value : Int)
  | position (value size : Int)
  | notListed (demonId : Int)
  | cannotPatch (names : List String)
  | noRecord (recordId : Int)
  | noPlayer (playerId : Int)
  | unknownNation (code : String)
  | unknownSubdivision (code nation : String)
  | subdivisionAlone
  | subdivisionFilterAlone
  | refused (reason : String)
  | transition (recordId : Int) (old new : Status)
  | cannotLog (names : List String)
  | notDense (positions : List (Option Int))
  | positionMissing (moment : Moment) (demonIds : List Int)
  | positionsShared (moment : Moment) (positions : List Int)
  | brokenPass (reason : String)
  | exhausted (label : String) (attempts : Int)
  | constraint (violated : Constraint)
  | timeRange
  | integerRange
  | incomparable (relation : String) (left right : Operand)
  | notSummable
  | unknownEvent (name : String)
  | usage (code : Nat)
  deriving DecidableEq

inductive ErrorKind where
  | validation
  | invariant
  | transition
  | aggregation
  | constraint
  | timeRange
  | operand
  | unknownEvent
  | usage
  deriving DecidableEq

namespace Error

def kind : Error → ErrorKind
  | percentage .. | position .. | notListed _ | cannotPatch _ | noRecord _ | noPlayer _ | unknownNation _
  | unknownSubdivision .. | subdivisionAlone | subdivisionFilterAlone | refused _ => .validation
  | transition .. => .transition
  | cannotLog _ | notDense _ | positionMissing .. | positionsShared .. | brokenPass _ => .invariant
  | exhausted .. => .aggregation
  | constraint _ => .constraint
  -- an integer out of range is told like a time out of range
  | timeRange | integerRange => .timeRange
  | incomparable .. | notSummable => .operand
  | unknownEvent _ => .unknownEvent
  | usage _ => .usage

open Text in
def message : Error → String
  | percentage field value => s!"Invalid {field}: {value}. Must be between 0 and 100"
  | position value size => s!"Invalid position: {value}. Allowed values: 1 to {size}"
  | notListed demonId => s!"Demon {demonId} is not on the list"
  | cannotPatch names => "Cannot patch demon fields: " ++ sortedNames names
  | noRecord recordId => s!"Record {recordId} does not exist"
  | noPlayer playerId => s!"Player {playerId} does not exist"
  | unknownNation code => s!"Unknown nation code: {code}"
  | unknownSubdivision code nation => s!"Unknown subdivision {code} of {nation}"
  | subdivisionAlone => "A subdivision requires a nationality"
  | subdivisionFilterAlone => "Filtering by subdivision requires a nation"
  | refused reason | brokenPass reason => reason
  | transition recordId old new => s!"Record {recordId} cannot go from " ++ old.label ++ " to " ++ new.label
  | cannotLog names => "Cannot log unknown demon fields: " ++ sortedNames names
  | notDense positions =>
    "Demon positions are not dense and unique: " ++
      bracketed (positions.map fun p => (p.map toString).getD "None")
  | positionMissing moment demonIds =>
    "No position recorded at " ++ moment.spaced ++ " for demons " ++ integers demonIds
  | positionsShared moment positions =>
    "Positions " ++ integers positions ++ " are not unique at " ++ moment.spaced
  | exhausted label attempts => s!"{label} recompute failed after {attempts} attempts"
  | constraint _ => "A stored row breaks a rule of its table"
  | timeRange => "date value out of range"
  | integerRange => "An integer is out of the range of its column"
  | incomparable relation left right =>
    s!"'{relation}' not supported between instances of '" ++ left.label ++ "' and '" ++ right.label ++ "'"
  | notSummable => "unsupported operand type(s) for +: 'NoneType' and 'int'"
  | unknownEvent name => Quoted.quote name ++ " is not a valid ChangeEvent"
  | usage code => s!"usage error {code}"

end Error

end DemonBoard
