import DemonBoard.Error
import DemonBoard.Table

/-! The checks that an argument passes before anything is read or stored. -/

namespace DemonBoard

def isPercentage (value : Int) : Bool := 0 ≤ value && value ≤ 100

def requirePercentage (field : String) (value : Int) : Except Error Unit :=
  if isPercentage value then .ok () else .error (.percentage field value)

def requirePosition (value size : Int) : Except Error Unit :=
  if 1 ≤ value ∧ value ≤ size then .ok () else .error (.position value size)

def requireValue {β : Type} : Option β → Except Error β
  | some value => .ok value
  | none => .error (.constraint .required)

/-- An argument that is compared with a lower bound, and so may not be absent. -/
def requireComparable : Option Int → Except Error Int
  | some value => .ok value
  | none => .error (.incomparable "<=" .whole .absent)

/-- What an absent operand is added to is no number. -/
def requireSummable : Option Int → Except Error Int
  | some value => .ok value
  | none => .error .notSummable

/-- An integer column holds 64 bits, the sign included. -/
def isStorable (value : Int) : Bool := -9223372036854775808 ≤ value && value ≤ 9223372036854775807

def requireStorable (value : Option Int) : Except Error Unit :=
  if value.all isStorable then .ok () else .error .integerRange

/-- The row under a key. A key that no column holds cannot even be looked up. -/
def requireRow {ρ : Type} (t : Table Int ρ) (id : Int) (missing : Error) : Except Error ρ :=
  match t.find? id with
  | some row => .ok row
  | none => .error (if isStorable id then missing else .integerRange)

def requirePaired : Option String → Option String → Except Error Unit
  | none, some _ => .error .subdivisionAlone
  | _, _ => .ok ()

def requireTransition (recordId : Int) (old new : Status) : Except Error Unit :=
  if old.successors.contains new then .ok () else .error (.transition recordId old new)

def requireConstraint (violated : Constraint) (holds : Bool) : Except Error Unit :=
  if holds then .ok () else .error (.constraint violated)

def effectiveTime (now : Moment) : Option Timestamp → Except Error Moment
  | none => .ok now
  | some t =>
    match t.utc? with
    | some moment => .ok moment
    | none => .error .timeRange

end DemonBoard
