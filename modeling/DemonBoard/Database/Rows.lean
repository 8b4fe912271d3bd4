import DemonBoard.Positions
import DemonBoard.Validation

/-!
Rows as people enter and correct them by hand. A draft may leave columns open; what stands in the
database afterwards obeys the constraints of its table. Nothing here is logged or recomputed.
-/

namespace DemonBoard

structure NationDraft where
  code : Option String
  name : Option String
  continent : Option String

structure SubdivisionDraft where
  nation : Option String
  code : Option String
  name : Option String

/-- An open `banned` means no. -/
structure PlayerDraft where
  id : Option Int
  name : Option String
  nationality : Option String
  subdivision : Option String
  banned : Option Bool

/-- An open `rated` means yes. -/
structure DemonDraft where
  id : Option Int
  fields : FieldValues
  createdAt : Option Moment
  removedAt : Option Moment

/-- An open status means submitted. -/
structure RecordDraft where
  id : Option Int
  playerId : Option Int
  demonId : Option Int
  progress : Option Int
  status : Option Status

/-- Drafts for every table, entered together or not at all. -/
structure Batch where
  nations : List NationDraft
  subdivisions : List SubdivisionDraft
  players : List PlayerDraft
  demons : List DemonDraft
  records : List RecordDraft

structure TotalsEdit (α : Type) where
  score : Edit α
  unratedScore : Edit α

structure NationEdit (α : Type) where
  name : Edit String
  continent : Edit String
  totals : TotalsEdit α

structure SubdivisionEdit (α : Type) where
  name : Edit String
  totals : TotalsEdit α

structure PlayerEdit (α : Type) where
  name : Edit String
  nationality : Edit String
  subdivision : Edit String
  banned : Edit Bool
  totals : TotalsEdit α

structure DemonEdit where
  fields : (f : Field) → Edit f.Value
  createdAt : Edit Moment
  removedAt : Edit Moment

inductive RowEdit (α : Type) where
  | nation (code : String) (edit : NationEdit α)
  | subdivision (region : Region) (edit : SubdivisionEdit α)
  | player (id : Int) (edit : PlayerEdit α)
  | demon (id : Int) (edit : DemonEdit)

def insertRow {κ ρ : Type} [Ord κ] [DecidableEq κ] [Std.TransOrd κ] [Std.LawfulEqOrd κ]
    (t : Table κ ρ) (k : κ) (row : ρ) : Except Error (Table κ ρ) :=
  match t.insert? k row with
  | some t => .ok t
  | none => .error (.constraint .key)

def DemonDraft.demon (d : DemonDraft) : Except Error Demon := do
  let name ← requireValue (d.fields .name)
  let requirement ← requireValue (d.fields .requirement)
  let verifierId ← requireValue (d.fields .verifier)
  let publisherId ← requireValue (d.fields .publisher)
  let createdAt ← requireValue d.createdAt
  requireConstraint .percentage (isPercentage requirement)
  return {
    name, requirement, verifierId, publisherId, createdAt
    position := d.fields .position
    video := d.fields .video
    rated := (d.fields .rated).getD true
    removedAt := d.removedAt }

/-- Totals after a correction, none of which may be taken away. -/
def TotalsEdit.apply {α : Type} (e : TotalsEdit α) (t : Totals α) : Except Error (Totals α) := do
  return ⟨← requireValue (e.score.required t.score), ← requireValue (e.unratedScore.required t.unratedScore)⟩

def nameIsFree {κ ρ : Type} [Ord κ] [DecidableEq κ] (t : Table κ ρ) (nameOf : ρ → String) (k : κ)
    (name : String) : Bool :=
  t.entries.all fun (k', row) => k' = k || nameOf row ≠ name

namespace Database

variable {α : Type} [Scalar α]

def addNation (db : Database α) (d : NationDraft) : Except Error (Database α) := do
  let code ← requireValue d.code
  let name ← requireValue d.name
  let nations ← insertRow db.nations code ⟨name, d.continent⟩
  requireConstraint .uniqueName (nameIsFree nations Nation.name code name)
  return { db with nations, nationBoard := db.nationBoard.enter code }

def addSubdivision (db : Database α) (d : SubdivisionDraft) : Except Error (Database α) := do
  let region : Region := ⟨← requireValue d.nation, ← requireValue d.code⟩
  let subdivisions ← insertRow db.subdivisions region ⟨← requireValue d.name⟩
  return { db with subdivisions, subdivisionBoard := db.subdivisionBoard.enter region }

def requireMembership (p : Player) : Except Error Unit :=
  requireConstraint .subdivisionHasNation (p.subdivision.isNone || p.nationality.isSome)

def addPlayer (db : Database α) (d : PlayerDraft) : Except Error (Database α) := do
  let id := d.id.getD db.players.nextKey
  let player : Player := ⟨← requireValue d.name, d.nationality, d.subdivision, d.banned.getD false⟩
  requireMembership player
  let players ← insertRow db.players id player
  requireConstraint .uniqueName (nameIsFree players Player.name id player.name)
  return { db with players, playerBoard := db.playerBoard.enter id }

def addDemon (db : Database α) (d : DemonDraft) : Except Error (Database α) := do
  let demons ← insertRow db.demons (d.id.getD db.demons.nextKey) (← d.demon)
  return { db with demons }

def addRecord (db : Database α) (d : RecordDraft) : Except Error (Database α) := do
  let playerId ← requireValue d.playerId
  let demonId ← requireValue d.demonId
  let progress ← requireValue d.progress
  requireConstraint .percentage (isPercentage progress)
  let record : Record := ⟨playerId, demonId, progress, d.status.getD .submitted⟩
  let records ← insertRow db.records (d.id.getD db.records.nextKey) record
  return { db with records }

def load (db : Database α) (batch : Batch) : Except Error (Database α) := do
  let db ← batch.nations.foldlM addNation db
  let db ← batch.subdivisions.foldlM addSubdivision db
  let db ← batch.players.foldlM addPlayer db
  let db ← batch.demons.foldlM addDemon db
  batch.records.foldlM addRecord db

def editNation (db : Database α) (code : String) (e : NationEdit α) : Except Error (Database α) := do
  let some nation := db.nations.find? code | return db
  let name ← requireValue (e.name.required nation.name)
  requireConstraint .uniqueName (nameIsFree db.nations Nation.name code name)
  let totals ← e.totals.apply (db.nationBoard.total code)
  return { db with
    nations := db.nations.modify code fun _ => ⟨name, e.continent.applied nation.continent⟩
    nationBoard := db.nationBoard.amend code fun _ => totals }

def editSubdivision (db : Database α) (region : Region) (e : SubdivisionEdit α) :
    Except Error (Database α) := do
  let some subdivision := db.subdivisions.find? region | return db
  let name ← requireValue (e.name.required subdivision.name)
  let totals ← e.totals.apply (db.subdivisionBoard.total region)
  return { db with
    subdivisions := db.subdivisions.modify region fun _ => ⟨name⟩
    subdivisionBoard := db.subdivisionBoard.amend region fun _ => totals }

def editPlayer (db : Database α) (id : Int) (e : PlayerEdit α) : Except Error (Database α) := do
  let some old := db.players.find? id | return db
  let player : Player := {
    name := ← requireValue (e.name.required old.name)
    nationality := e.nationality.applied old.nationality
    subdivision := e.subdivision.applied old.subdivision
    banned := ← requireValue (e.banned.required old.banned) }
  requireMembership player
  requireConstraint .uniqueName (nameIsFree db.players Player.name id player.name)
  let totals ← e.totals.apply (db.playerBoard.total id)
  return { db with
    players := db.players.modify id fun _ => player
    playerBoard := db.playerBoard.amend id fun _ => totals }

def editDemon (db : Database α) (id : Int) (e : DemonEdit) : Except Error (Database α) := do
  let some old := db.demons.find? id | return db
  let edited ← requireValue (old.edited? e.fields)
  let createdAt ← requireValue (e.createdAt.required old.createdAt)
  requireConstraint .percentage (isPercentage edited.requirement)
  let demon := { edited with createdAt, removedAt := e.removedAt.applied old.removedAt }
  return { db with demons := db.demons.modify id fun _ => demon }

def edit (db : Database α) : RowEdit α → Except Error (Database α)
  | .nation code e => db.editNation code e
  | .subdivision region e => db.editSubdivision region e
  | .player id e => db.editPlayer id e
  | .demon id e => db.editDemon id e

/-- A correction as one transaction. With `checked` the positions are checked once the row is stored;
with a reason to refuse, nothing is kept. The row reaches its constraints at that check or at the end. -/
def correct (db : Database α) (e : RowEdit α) (checked : Bool) (refusal : Option String) :
    Except Error (Database α) := do
  if checked then (← db.edit e).checkPositions
  match refusal with
  | some reason => .error (.refused reason)
  | none => db.edit e

end Database

end DemonBoard
