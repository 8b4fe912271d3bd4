import DemonBoard.Trigger
import DemonBoard.Validation
import DemonBoard.Positions

/-!
Lifecycle calls: the edits of the list, of records and of players that keep the log and the boards up to
date. A call is one transaction, which is rolled back if it breaks off, followed by the passes of the scopes
that its change concerns.
-/

namespace DemonBoard

/-- Who makes an edit and when; the current moment stands for a time that is not given. -/
structure Stamp where
  userId : Option Int
  time : Option Timestamp

/-- A demon to be put on the list. An open `rated` means yes. -/
structure NewDemon where
  name : Option String
  position : Option Int
  requirement : Option Int
  video : Option String
  verifierId : Option Int
  publisherId : Option Int
  rated : Option Bool

inductive Call where
  | addDemon (demon : NewDemon) (stamp : Stamp)
  | patchDemon (demonId : Int) (changes : Changes) (stamp : Stamp)
  | removeDemon (demonId : Int) (stamp : Stamp)
  | setRecordStatus (recordId : Int) (status : Status)
  | setPlayerBanned (playerId : Int) (banned : Bool)
  | setPlayerNationality (playerId : Int) (nationality subdivision : Option String)

def Call.moveDemon (demonId : Int) (position : Option Int) (stamp : Stamp) : Call :=
  .patchDemon demonId (.position position) stamp

inductive Entity where
  | demon (id : Int) (row : Demon)
  | record (id : Int) (row : Record)
  | player (id : Int) (row : Player)
  deriving DecidableEq

structure Change (α : Type) where
  database : Database α
  entity : Entity
  events : List ChangeEvent

/-- Whether a value fits the column of its field. Positions and requirements have closer bounds. -/
def Field.fits : (f : Field) → f.Value → Bool
  | .verifier, id | .publisher, id => isStorable id
  | .name, _ | .position, _ | .requirement, _ | .video, _ | .rated, _ => true

namespace Changes

def requireKnown (c : Changes) : Except Error Unit :=
  if c.unknown.isEmpty then .ok () else .error (.cannotPatch c.unknown)

def requireFitting (c : Changes) (fields : List Field) : Except Error Unit :=
  if fields.all fun f => (c.edit f).value?.all f.fits then .ok () else .error .integerRange

end Changes

def requireRequirement : Edit Int → Except Error Unit
  | .keep => .ok ()
  | .set value => do requirePercentage "requirement" (← requireComparable value)

namespace Database

variable {α : Type}

def listedDemon (db : Database α) (demonId : Int) : Except Error Demon := do
  let demon ← requireRow db.demons demonId (.notListed demonId)
  if demon.listed then return demon else .error (.notListed demonId)

/-- Shifts the demons between a demon's old and its new position, if a change moves it. -/
def makeRoom (db : Database α) (old : Option Int) (position : Edit Int) (userId : Option Int) (time : Moment) :
    Except Error (Database α) :=
  match position with
  | .keep => return db
  | .set new =>
    if old = new then return db
    else do
      let new ← requireComparable new
      requirePosition new db.listSize
      match old with
      | none => .error (.incomparable "<" .whole .absent)
      | some old =>
        if new < old then return db.shift new (some (old - 1)) 1 userId time
        else return db.shift (old + 1) (some new) (-1) userId time

def storeDemon (db : Database α) (demonId : Int) (demon : Demon) : Database α :=
  { db with demons := db.demons.modify demonId fun _ => demon }

def storePlayer (db : Database α) (playerId : Int) (player : Player) : Database α :=
  { db with players := db.players.modify playerId fun _ => player }

def requireCodes (db : Database α) : Option String → Option String → Except Error Unit
  | none, none => .ok ()
  | none, some _ => .error .subdivisionAlone
  | some nation, subdivision =>
    if !db.nations.contains nation then .error (.unknownNation nation)
    else
      match subdivision with
      | none => .ok ()
      | some code =>
        if db.subdivisions.contains ⟨nation, code⟩ then .ok () else .error (.unknownSubdivision code nation)

end Database

abbrev Mutation (α : Type) : Type → Type := Work Error (Database α)

abbrev Edited : Type := Entity × List ChangeEvent

namespace Mutation

open Work

variable {α : Type}

/-- Puts a demon in at a position and pushes everything from there down by one. -/
def addDemon (now : Moment) (n : NewDemon) (stamp : Stamp) : Mutation α Edited := do
  let time ← effectiveTime now stamp.time
  let requirement ← requireComparable n.requirement
  requirePercentage "requirement" requirement
  let position ← requireComparable n.position
  look fun db => requirePosition position (db.listSize + 1)
  write fun db => db.shift position none 1 stamp.userId time
  requireStorable n.verifierId
  requireStorable n.publisherId
  let demon : Demon := {
    name := ← requireValue n.name
    position := some position
    requirement
    video := n.video
    verifierId := ← requireValue n.verifierId
    publisherId := ← requireValue n.publisherId
    rated := n.rated.getD true
    createdAt := time
    removedAt := none }
  let id ← look fun db => .ok db.demons.nextKey
  write fun db => { db with demons := db.demons.append demon }
  update fun db => db.logAddition id stamp.userId time
  look Database.checkPositions
  return (.demon id demon, [.demonAdded])

/-- Changes fields of a listed demon. A change of nothing is no edit: it is not logged and concerns no board. -/
def patchDemon (now : Moment) (demonId : Int) (changes : Changes) (stamp : Stamp) : Mutation α Edited := do
  changes.requireKnown
  requireRequirement (changes.edit .requirement)
  let time ← effectiveTime now stamp.time
  let demon ← look fun db => db.listedDemon demonId
  let previous := changedFields demon.get changes
  if previous.isEmpty then return (.demon demonId demon, [])
  update fun db => db.makeRoom demon.position (changes.edit .position) stamp.userId time
  changes.requireFitting previous.fields
  let patched ← requireValue (demon.edited? changes.edit)
  write fun db => db.storeDemon demonId patched
  write fun db => db.logged demonId previous stamp.userId time
  requireStorable stamp.userId
  look Database.checkPositions
  return (.demon demonId patched, previous.fields.filterMap ChangeEvent.ofField?)

def removeDemon (now : Moment) (demonId : Int) (stamp : Stamp) : Mutation α Edited := do
  let time ← effectiveTime now stamp.time
  let demon ← look fun db => db.listedDemon demonId
  let removed := { demon with position := none, removedAt := some time }
  write fun db => db.logged demonId (.position demon.position) stamp.userId time
  write fun db => db.storeDemon demonId removed
  requireStorable stamp.userId
  let old ← requireSummable demon.position
  write fun db => db.shift (old + 1) none (-1) stamp.userId time
  look Database.checkPositions
  return (.demon demonId removed, [.demonRemoved])

def setRecordStatus (recordId : Int) (status : Status) : Mutation α Edited := do
  let record ← look fun db => requireRow db.records recordId (.noRecord recordId)
  if record.status = status then return (.record recordId record, [])
  requireTransition recordId record.status status
  let judged := { record with status }
  write fun db => { db with records := db.records.modify recordId fun _ => judged }
  return (.record recordId judged, [.recordStatus])

def setPlayerBanned (playerId : Int) (banned : Bool) : Mutation α Edited := do
  let player ← look fun db => requireRow db.players playerId (.noPlayer playerId)
  if player.banned = banned then return (.player playerId player, [])
  let stored := { player with banned }
  write fun db => db.storePlayer playerId stored
  return (.player playerId stored, [.playerBanned])

def setPlayerNationality (playerId : Int) (nationality subdivision : Option String) : Mutation α Edited := do
  requirePaired nationality subdivision
  let player ← look fun db => requireRow db.players playerId (.noPlayer playerId)
  look fun db => db.requireCodes nationality subdivision
  if player.nationality = nationality ∧ player.subdivision = subdivision then
    return (.player playerId player, [])
  let stored := { player with nationality, subdivision }
  write fun db => db.storePlayer playerId stored
  return (.player playerId stored, [.playerNationality])

end Mutation

def Call.mutation {α : Type} (now : Moment) : Call → Mutation α Edited
  | .addDemon demon stamp => .addDemon now demon stamp
  | .patchDemon demonId changes stamp => .patchDemon now demonId changes stamp
  | .removeDemon demonId stamp => .removeDemon now demonId stamp
  | .setRecordStatus recordId status => .setRecordStatus recordId status
  | .setPlayerBanned playerId banned => .setPlayerBanned playerId banned
  | .setPlayerNationality playerId nationality subdivision =>
    .setPlayerNationality playerId nationality subdivision

namespace Database

variable {α : Type}

/-- What comes of the transaction of a call: the tables after it, or the reason why it breaks off. -/
def mutate (db : Database α) (now : Moment) (call : Call) : Except Error (Change α) :=
  (call.mutation now db).outcome fun database (entity, events) => ⟨database, entity, events⟩

/-- A call: its transaction, and then the passes that its change calls for. -/
def perform [Scalar α] (db : Database α) (faults : Faults) (now : Moment) (call : Call) :
    Outcome (Database α) Entity :=
  match inSession (call.mutation now) db with
  | (stored, .error cause) => ⟨stored, .error cause⟩
  | (stored, .ok (entity, events)) =>
    let recomputed := stored.recompute faults (ChangeEvent.scopes events)
    ⟨recomputed.state, recomputed.result.map fun _ => entity⟩

variable {db : Database α} {now : Moment} {call : Call} {change : Change α} {cause : Error}

theorem mutate_eq_ok_iff : db.mutate now call = .ok change ↔
    call.mutation now db = .completed change.database (change.entity, change.events) := by
  unfold mutate
  cases call.mutation now db with
  | completed state result =>
    cases change
    simp [Attempt.outcome, Prod.ext_iff]
  | brokenOff written failure => simp [Attempt.outcome]

theorem mutate_eq_error_iff :
    db.mutate now call = .error cause ↔ ∃ written, call.mutation now db = .brokenOff written cause := by
  unfold mutate
  cases call.mutation now db with
  | completed state result => simp [Attempt.outcome]
  | brokenOff written failure => simp [Attempt.outcome]

variable [Scalar α]

theorem perform_of_ok (done : db.mutate now call = .ok change) (faults : Faults) :
    db.perform faults now call =
      ⟨(change.database.recompute faults (ChangeEvent.scopes change.events)).state,
        (change.database.recompute faults (ChangeEvent.scopes change.events)).result.map fun _ => change.entity⟩ := by
  simp only [perform, inSession_of_completed (mutate_eq_ok_iff.1 done)]

theorem perform_of_error (failed : db.mutate now call = .error cause) (faults : Faults) :
    db.perform faults now call = ⟨db, .error cause⟩ := by
  obtain ⟨written, broken⟩ := mutate_eq_error_iff.1 failed
  simp only [perform, inSession_of_brokenOff broken]

end Database

end DemonBoard
