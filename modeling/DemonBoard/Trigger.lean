import DemonBoard.Recompute

/-!
Which boards a change makes stale. Every change of scores concerns all three scopes; a change of
nationality leaves the players' own totals as they are.
-/

namespace DemonBoard

inductive ChangeEvent where
  | recordStatus
  | demonAdded
  | demonRemoved
  | demonPosition
  | demonRequirement
  | demonRated
  | demonVerifier
  | playerBanned
  | playerNationality
  deriving DecidableEq

namespace ChangeEvent

def all : List ChangeEvent :=
  [.recordStatus, .demonAdded, .demonRemoved, .demonPosition, .demonRequirement, .demonRated,
   .demonVerifier, .playerBanned, .playerNationality]

def label : ChangeEvent → String
  | recordStatus => "record_status"
  | demonAdded => "demon_added"
  | demonRemoved => "demon_removed"
  | demonPosition => "demon_position"
  | demonRequirement => "demon_requirement"
  | demonRated => "demon_rated"
  | demonVerifier => "demon_verifier"
  | playerBanned => "player_banned"
  | playerNationality => "player_nationality"

def ofLabel (s : String) : Except Error ChangeEvent :=
  match all.find? (·.label == s) with
  | some event => .ok event
  | none => .error (.unknownEvent s)

def triggers : ChangeEvent → List Scope
  | playerNationality => [.nation, .subdivision]
  | _ => Scope.all

def ofField? : Field → Option ChangeEvent
  | .position => some demonPosition
  | .requirement => some demonRequirement
  | .rated => some demonRated
  | .verifier => some demonVerifier
  | .name | .video | .publisher => none

/-- The scopes of several events, each once, in the order in which they come up. -/
def scopes (events : List ChangeEvent) : List Scope :=
  events.foldl (fun found e => found ++ e.triggers.filter (!found.contains ·)) []

end ChangeEvent

def Database.onChange {α : Type} [Scalar α] (faults : Faults) (db : Database α) (event : ChangeEvent) :
    Outcome (Database α) (List PassCount) :=
  db.recompute faults event.triggers

end DemonBoard
