import DemonBoard.Ranking
import DemonBoard.Transaction

/-!
Recomputing the boards. A pass rebuilds the totals of one scope from the score-giving rows and then the
standings from the stored totals, in one transaction, so a board's two halves always belong together.
-/

namespace DemonBoard

inductive Scope where
  | player
  | nation
  | subdivision
  deriving DecidableEq

namespace Scope

def all : List Scope := [.player, .nation, .subdivision]

def label : Scope → String
  | player => "player"
  | nation => "nation"
  | subdivision => "subdivision"

def ofLabel? (s : String) : Option Scope := all.find? (·.label == s)

end Scope

structure PassCount where
  written : Nat
  ranked : Nat
  deriving DecidableEq

/-- The two steps of a pass before which it can break off. -/
inductive PassStep where
  | totals
  | ranks
  deriving DecidableEq

structure Interruption where
  before : PassStep
  failure : Failure
  deriving DecidableEq

/-- What breaks off the attempts of the passes to come: by the number of the pass, then by that of the
attempt. -/
abbrev Faults : Type := Nat → Nat → Option Interruption

def Faults.absent : Faults := fun _ _ => none

namespace Board

variable {κ α ρ : Type} [Ord κ] [DecidableEq κ] [Scalar α]

/-- The computed totals joined onto the entities on file, zero where there is none. -/
def writeTotals (b : Board κ α) (entities : Table κ ρ) (totals : List (κ × Totals α)) : Board κ α :=
  { b with totals := entities.mapRows fun k _ => (totals.lookup k).getD Totals.zero }

/-- Standings from the stored totals of those that may be ranked, in place of all old ones. -/
def writeRanks (b : Board κ α) (entities : Table κ ρ) (mayRank : κ → ρ → Bool) : Board κ α :=
  { b with ranks := rankTable ((entities.filter mayRank).mapRows fun k _ => b.total k) }

end Board

namespace Database

variable {α : Type} [Scalar α]

def writeTotals (db : Database α) : Scope → Database α
  | .player =>
    let totals := Grouping.players.totals Curve.standard db.standardRows
    { db with playerBoard := db.playerBoard.writeTotals db.players totals }
  | .nation =>
    let totals := Grouping.nations.totals Curve.standard db.standardRows
    { db with nationBoard := db.nationBoard.writeTotals db.nations totals }
  | .subdivision =>
    let totals := Grouping.subdivisions.totals Curve.standard db.standardRows
    { db with subdivisionBoard := db.subdivisionBoard.writeTotals db.subdivisions totals }

/-- The second step of a pass. Banned players keep totals but are not ranked. -/
def writeRanks (db : Database α) : Scope → Database α
  | .player => { db with playerBoard := db.playerBoard.writeRanks db.players fun _ p => !p.banned }
  | .nation => { db with nationBoard := db.nationBoard.writeRanks db.nations fun _ _ => true }
  | .subdivision =>
    { db with subdivisionBoard := db.subdivisionBoard.writeRanks db.subdivisions fun _ _ => true }

def pass (db : Database α) (scope : Scope) : Database α := (db.writeTotals scope).writeRanks scope

def passCount (db : Database α) : Scope → PassCount
  | .player => ⟨db.playerBoard.totals.entries.length, db.playerBoard.ranks.entries.length⟩
  | .nation => ⟨db.nationBoard.totals.entries.length, db.nationBoard.ranks.entries.length⟩
  | .subdivision => ⟨db.subdivisionBoard.totals.entries.length, db.subdivisionBoard.ranks.entries.length⟩

/-- One attempt at a pass, which may break off before either of its steps. -/
def attemptPass (scope : Scope) (interruption : Option Interruption) (db : Database α) :
    Attempt (Database α) PassCount :=
  match interruption with
  | none =>
    let passed := db.pass scope
    .completed passed (passed.passCount scope)
  | some ⟨.totals, failure⟩ => .brokenOff db failure
  | some ⟨.ranks, failure⟩ => .brokenOff (db.writeTotals scope) failure

end Database

def maxAttempts : Int := 3

/-- What a sequence of transactions leaves behind: the last state that was kept, and the result. -/
structure Outcome (σ ρ : Type) where
  state : σ
  result : Except Error ρ

namespace Database

variable {α : Type} [Scalar α]

/-- Runs the pass of one scope with retries. -/
def recomputeScope (interruptions : Nat → Option Interruption) (db : Database α) (scope : Scope) :
    Outcome (Database α) PassCount :=
  let run := runInTransaction scope.label
    (fun attempt db => db.attemptPass scope (interruptions attempt)) maxAttempts db
  ⟨run.state, run.result.map fun count => count.getD ⟨0, 0⟩⟩

/-- Runs the passes of several scopes in turn, up to the first that fails. The passes that completed
before it are kept. -/
def recompute (faults : Faults) (db : Database α) : List Scope → Outcome (Database α) (List PassCount)
  | [] => ⟨db, .ok []⟩
  | scope :: rest =>
    let first := db.recomputeScope (faults 0) scope
    match first.result with
    | .error cause => ⟨first.state, .error cause⟩
    | .ok count =>
      let others := first.state.recompute (fun n => faults (n + 1)) rest
      ⟨others.state, others.result.map (count :: ·)⟩

def recomputeAll (faults : Faults) (db : Database α) : Outcome (Database α) (List PassCount) :=
  db.recompute faults Scope.all

end Database

end DemonBoard
