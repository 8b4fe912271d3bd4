import DemonBoard.Database
import DemonBoard.Validation

/-!
The log of edits to demons. Entries are only ever added, each under an id above all earlier ones, and
an entry holds the values from before the change.
-/

namespace DemonBoard.Database

variable {α : Type}

def logged (db : Database α) (demonId : Int) (previous : Changes) (userId : Option Int) (time : Moment) :
    Database α :=
  { db with modifications := db.modifications.append ⟨demonId, time, userId, previous.values⟩ }

/-- Logs a change and gives the entry's id. A change of nothing leaves no entry. -/
def logModification (db : Database α) (demonId : Int) (previous : Changes) (userId : Option Int)
    (time : Moment) : Except Error (Database α × Option Int) :=
  if previous.isEmpty then .ok (db, none)
  else if previous.unknown.isEmpty then do
    requireStorable userId
    return (db.logged demonId previous userId time, some db.modifications.nextKey)
  else .error (.cannotLog previous.unknown)

/-- Logs the creation of a demon, which happens once. -/
def logAddition (db : Database α) (demonId : Int) (userId : Option Int) (time : Moment) :
    Except Error (Database α) := do
  requireStorable userId
  match db.additions.insert? demonId ⟨time, userId⟩ with
  | some additions => return { db with additions }
  | none => .error (.constraint .key)

end DemonBoard.Database
