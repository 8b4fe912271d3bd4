import DemonBoard.Database
import DemonBoard.Validation
import DemonBoard.Sorting

/-!
The list at a past moment, without stored snapshots. A log entry holds the values from before its
change, so a field had at that moment the value in the earliest entry since then that names it, or the
value that it still has.
-/

namespace DemonBoard

structure DemonState where
  id : Int
  position : Int
  currentPosition : Option Int
  name : String
  requirement : Int
  video : Option String
  verifierId : Int
  publisherId : Int
  rated : Bool
  deriving DecidableEq

namespace History

abbrev Entries : Type := List (Int × Modification)

/-- Entries by time, and by id among those of one time. -/
def inOrder (entries : Entries) : Entries :=
  sortWith (compareLex (compareOn fun e => e.2.time) (compareOn Prod.fst)) entries

def firstValue (ordered : Entries) (demonId : Int) (f : Field) : Option f.Value :=
  ordered.findSome? fun (_, m) => if m.demonId = demonId then m.previous f else none

/-- Whether a demon was on the list just before a moment: added and created before it, and not removed
before it. -/
def wasListed (addedAfter : List Int) (moment : Moment) (id : Int) (d : Demon) : Bool :=
  !addedAfter.contains id && decide (d.createdAt < moment) && d.removedAt.all fun r => decide (moment ≤ r)

def valueBefore (ordered : Entries) (id : Int) (d : Demon) (f : Field) : Option f.Value :=
  firstValue ordered id f <|> d.get f

def stateBefore? (ordered : Entries) (id : Int) (d : Demon) : Option DemonState := do
  let position ← valueBefore ordered id d .position
  return {
    id
    position
    currentPosition := d.position
    name := (firstValue ordered id .name).getD d.name
    requirement := (firstValue ordered id .requirement).getD d.requirement
    video := valueBefore ordered id d .video
    verifierId := (firstValue ordered id .verifier).getD d.verifierId
    publisherId := (firstValue ordered id .publisher).getD d.publisherId
    rated := (firstValue ordered id .rated).getD d.rated }

/-- The positions that several states share, each once, in ascending order. -/
def sharedPositions (states : List DemonState) : List Int :=
  let positions := states.map (·.position)
  sortOn id (positions.filter fun p => decide (1 < positions.count p)).eraseDups

/-- The list at a moment, from the demons as they are, the ids whose addition was logged since, and the
log entries since. -/
def reconstruct (demons : List (Int × Demon)) (addedAfter : List Int) (entries : Entries) (moment : Moment) :
    Except Error (List DemonState) :=
  let ordered := inOrder entries
  let included := demons.filter fun (id, d) => wasListed addedAfter moment id d
  let missing := included.filter fun (id, d) => (stateBefore? ordered id d).isNone
  let states := included.filterMap fun (id, d) => stateBefore? ordered id d
  let shared := sharedPositions states
  if !missing.isEmpty then .error (.positionMissing moment (missing.map Prod.fst))
  else if !shared.isEmpty then .error (.positionsShared moment shared)
  else .ok (sortOn DemonState.position states)

end History

def Database.listAt {α : Type} (db : Database α) (time : Timestamp) : Except Error (List DemonState) := do
  let moment ← effectiveTime time.wall (some time)
  let added := db.additions.entries.filter fun (_, a) => decide (moment ≤ a.time)
  let since := db.modifications.entries.filter fun (_, m) => decide (moment ≤ m.time)
  History.reconstruct db.demons.entries (added.map Prod.fst) since moment

end DemonBoard
