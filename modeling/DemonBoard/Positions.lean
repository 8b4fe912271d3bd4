import DemonBoard.Audit
import DemonBoard.Sorting

/-!
Positions on the list. Making or closing a gap shifts the demons of a range by one, each with its own
log entry, and `checkPositions` accepts the positions 1 to N and no others.
-/

namespace DemonBoard

def inRange (lower : Int) (upper : Option Int) (position : Option Int) : Bool :=
  position.any fun p => decide (lower ≤ p) && upper.all fun u => decide (p ≤ u)

/-- Positions in ascending order. An absent one can stand alone but cannot be compared. -/
def sortPositions : List (Option Int) → Except Error (List (Option Int))
  | [] => .ok []
  | [position] => .ok [position]
  | none :: next :: _ => .error (.incomparable "<" (if next.isSome then .whole else .absent) .absent)
  | some first :: rest =>
    if rest.all Option.isSome then
      .ok ((sortOn id (first :: rest.filterMap id)).map some)
    else .error (.incomparable "<" .absent .whole)

def densePositions (size : Nat) : List (Option Int) := (List.range size).map fun (i : Nat) => some ((i : Int) + 1)

def requireDense (positions : List (Option Int)) : Except Error Unit := do
  let sorted ← sortPositions positions
  if sorted = densePositions sorted.length then .ok () else .error (.notDense sorted)

namespace Database

variable {α : Type}

def listSize (db : Database α) : Nat := db.listedDemons.length

def listedPositions (db : Database α) : List (Option Int) := db.listedDemons.map fun (_, d) => d.position

def checkPositions (db : Database α) : Except Error Unit := requireDense db.listedPositions

def demonsBetween (db : Database α) (lower : Int) (upper : Option Int) : List (Int × Demon) :=
  sortOn (fun (_, d) => d.position.getD 0)
    (db.listedDemons.filter fun (_, d) => inRange lower upper d.position)

/-- Moves the listed demons in a range by `step` positions and logs each move. -/
def shift (db : Database α) (lower : Int) (upper : Option Int) (step : Int) (userId : Option Int)
    (time : Moment) : Database α :=
  let logged := (db.demonsBetween lower upper).foldl
    (fun db (id, d) => db.logged id (.position d.position) userId time) db
  { logged with
    demons := db.demons.mapRows fun _ d =>
      if d.listed && inRange lower upper d.position then
        { d with position := d.position.map (· + step) }
      else d }

end Database

end DemonBoard
