/-!
Records: what a player has reached on a demon, and how far the judgement of it has come.
-/

namespace DemonBoard

inductive Status where
  | submitted
  | approved
  | rejected
  | underConsideration
  deriving DecidableEq, Inhabited

namespace Status

def all : List Status := [.submitted, .approved, .rejected, .underConsideration]

def label : Status → String
  | .submitted => "submitted"
  | .approved => "approved"
  | .rejected => "rejected"
  | .underConsideration => "under_consideration"

def ofLabel? (s : String) : Option Status := all.find? (·.label == s)

/-- The judgements that may follow a status. Approval and rejection are final. -/
def successors : Status → List Status
  | .submitted => [.approved, .rejected, .underConsideration]
  | .underConsideration => [.approved, .rejected, .submitted]
  | .approved | .rejected => []

end Status

structure Record where
  playerId : Int
  demonId : Int
  progress : Int
  status : Status
  deriving DecidableEq

namespace Record

def describe (id : Int) (r : Record) : String :=
  s!"<Record(id={id}, player={r.playerId}, demon={r.demonId}, progress={r.progress})>"

end Record

end DemonBoard
