import DemonBoard.Command.Arguments
import DemonBoard.History
import DemonBoard.Ranking.View

/-!
The command: it recomputes the boards and shows their tops, or shows the list at a past moment and
changes nothing.
-/

namespace DemonBoard.Command

/-- What the command says, and the past list if that was asked for. -/
structure Report where
  lines : List String
  states : Option (List DemonState)

open Text

def countLine (scope : Scope) (count : PassCount) : String :=
  let label := scope.label
  s!"Recomputed {label} scores: {count.written} totals, {count.ranked} ranked"

def entryLine {κ : Type} (e : RankedEntry κ Float) : String :=
  "  #" ++ padRight 4 (toString e.rank) ++ " " ++ padRight 30 e.name ++ " " ++
    padLeft 10 (Decimal.fixed 2 e.score)

def topLines {κ : Type} (title : String) (top : Int) (entries : List (RankedEntry κ Float)) : List String :=
  s!"Top {top} {title}:" :: (Paging.page 0 (some top) entries).map entryLine

def stateLine (s : DemonState) : String :=
  "  " ++ padLeft 4 (toString s.position) ++ ". " ++ s.name ++ " (now #" ++
    (s.currentPosition.map toString).getD "None" ++ ")"

def pastList (db : Database Float) (time : Timestamp) : Except Error Report := do
  let states ← db.listAt time
  let title := "List at " ++ time.iso ++ s!" ({states.length} demons):"
  return ⟨title :: states.map stateLine, some states⟩

/-- Recomputes the scopes in the order in which they were asked for, or all of them. -/
def refresh (db : Database Float) (scopes : List Scope) (top : Int) : Outcome (Database Float) Report :=
  let scopes := if scopes.isEmpty then Scope.all else scopes
  let recomputed := db.recompute .absent scopes
  let report : Except Error Report := do
    let counts ← recomputed.result
    let players ← recomputed.state.rankedPlayers .rated ⟨none, none, none, none⟩
    let nations := recomputed.state.rankedNations .rated none
    return ⟨List.zipWith countLine scopes counts ++ topLines "players" top players ++
      topLines "nations" top nations, none⟩
  ⟨recomputed.state, report⟩

def run (db : Database Float) (arguments : List String) : Outcome (Database Float) Report :=
  match read arguments with
  | .error cause => ⟨db, .error cause⟩
  | .ok options =>
    match options.listAt with
    | some time => ⟨db, pastList db time⟩
    | none => refresh db options.scopes options.top

end DemonBoard.Command
