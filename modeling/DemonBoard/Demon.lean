import DemonBoard.Moment

/-!
Demons and changes to them. The fields that the log follows are named by `Field`, so what holds of each
of them is said once. A field's value may be absent: a position once the demon is off the list, a video
at any time, and any field in a change that a caller states.
-/

namespace DemonBoard

inductive Field where
  | name
  | position
  | requirement
  | video
  | verifier
  | publisher
  | rated
  deriving DecidableEq

namespace Field

def all : List Field := [.name, .position, .requirement, .video, .verifier, .publisher, .rated]

theorem mem_all (f : Field) : f ∈ all := by cases f <;> decide

def label : Field → String
  | .name => "name"
  | .position => "position"
  | .requirement => "requirement"
  | .video => "video"
  | .verifier => "verifier_id"
  | .publisher => "publisher_id"
  | .rated => "rated"

abbrev Value : Field → Type
  | .name | .video => String
  | .position | .requirement | .verifier | .publisher => Int
  | .rated => Bool

instance decEqValue : (f : Field) → DecidableEq f.Value
  | .name | .video => inferInstanceAs (DecidableEq String)
  | .position | .requirement | .verifier | .publisher => inferInstanceAs (DecidableEq Int)
  | .rated => inferInstanceAs (DecidableEq Bool)

end Field

abbrev FieldValues : Type := (f : Field) → Option f.Value

structure Demon where
  name : String
  position : Option Int
  requirement : Int
  video : Option String
  verifierId : Int
  publisherId : Int
  rated : Bool
  createdAt : Moment
  removedAt : Option Moment
  deriving DecidableEq

/-- What a change says about one field: nothing, or its new value. -/
inductive Edit (β : Type) where
  | keep
  | set (value : Option β)
  deriving DecidableEq

namespace Edit

variable {β : Type}

def isSet : Edit β → Bool
  | .keep => false
  | .set _ => true

def value? : Edit β → Option β
  | .keep => none
  | .set value => value

def applied (old : Option β) : Edit β → Option β
  | .keep => old
  | .set value => value

/-- The edited value of a field that may not be absent; nothing if the edit takes it away. -/
def required (old : β) : Edit β → Option β
  | .keep => some old
  | .set value => value

end Edit

/-- A change to a demon: an edit of every logged field, and the names it gives that are not logged fields. -/
structure Changes where
  edit : (f : Field) → Edit f.Value
  unknown : List String

namespace Changes

def none : Changes := ⟨fun _ => .keep, []⟩

def position (value : Option Int) : Changes where
  edit
    | .position => .set value
    | _ => .keep
  unknown := []

def fields (c : Changes) : List Field := Field.all.filter fun f => (c.edit f).isSet

def isEmpty (c : Changes) : Bool := c.fields.isEmpty && c.unknown.isEmpty

def values (c : Changes) : FieldValues := fun f => (c.edit f).value?

end Changes

namespace Demon

def get (d : Demon) : FieldValues
  | .name => some d.name
  | .position => d.position
  | .requirement => some d.requirement
  | .video => d.video
  | .verifier => some d.verifierId
  | .publisher => some d.publisherId
  | .rated => some d.rated

def listed (d : Demon) : Bool := d.removedAt.isNone

/-- The demon with its fields edited, or nothing if an edit takes away a value that must be there. -/
def edited? (d : Demon) (edit : (f : Field) → Edit f.Value) : Option Demon := do
  let name ← (edit .name).required d.name
  let requirement ← (edit .requirement).required d.requirement
  let verifierId ← (edit .verifier).required d.verifierId
  let publisherId ← (edit .publisher).required d.publisherId
  let rated ← (edit .rated).required d.rated
  return { d with
    name, requirement, verifierId, publisherId, rated
    position := (edit .position).applied d.position
    video := (edit .video).applied d.video }

def describe (id : Int) (d : Demon) : String :=
  let position := (d.position.map toString).getD "None"
  s!"<Demon(id={id}, name='{d.name}', position={position})>"

end Demon

/-- The previous values of the fields that a change would alter. -/
def changedFields (old : FieldValues) (c : Changes) : Changes where
  edit f :=
    match c.edit f with
    | .keep => .keep
    | .set new => if old f = new then .keep else .set (old f)
  unknown := []

end DemonBoard
