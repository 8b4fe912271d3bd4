import DemonBoard.Board
import DemonBoard.Demon
import DemonBoard.Record

/-!
The database: the tables that people edit, the log of edits to demons, and the board of each scope.
Nothing outside a board is derived, so a recompute is a function of the other tables alone.
-/

namespace DemonBoard

structure Nation where
  name : String
  continent : Option String
  deriving DecidableEq

/-- A subdivision's key. Its code is unique within its nation only. -/
structure Region where
  nation : String
  code : String
  deriving DecidableEq

namespace Region

instance : Ord Region := ⟨compareLex (compareOn Region.nation) (compareOn Region.code)⟩

instance : Std.TransOrd Region :=
  inferInstanceAs (Std.TransCmp (compareLex (compareOn Region.nation) (compareOn Region.code)))

instance : Std.LawfulEqOrd Region where
  eq_of_compare {a b} h := by
    obtain ⟨nation, code⟩ := compareLex_eq_eq.1 h
    cases a; cases b
    exact congr (congrArg Region.mk (Std.LawfulEqOrd.eq_of_compare nation))
      (Std.LawfulEqOrd.eq_of_compare code)

end Region

structure Subdivision where
  name : String
  deriving DecidableEq

structure Player where
  name : String
  nationality : Option String
  subdivision : Option String
  banned : Bool
  deriving DecidableEq

namespace Nation

def describe (code : String) (n : Nation) : String := s!"<Nationality(code='{code}', nation='{n.name}')>"

end Nation

namespace Region

def describe (r : Region) : String := s!"<Subdivision(nation='{r.nation}', iso_code='{r.code}')>"

end Region

namespace Player

def describe (id : Int) (p : Player) : String :=
  let banned := if p.banned then "True" else "False"
  s!"<Player(id={id}, name='{p.name}', banned={banned})>"

end Player

/-- One logged change of a demon: the values its fields had before, absent where a field did not change. -/
structure Modification where
  demonId : Int
  time : Moment
  userId : Option Int
  previous : FieldValues

structure Addition where
  time : Moment
  userId : Option Int
  deriving DecidableEq

structure Database (α : Type) where
  nations : Table String Nation
  subdivisions : Table Region Subdivision
  players : Table Int Player
  demons : Table Int Demon
  records : Table Int Record
  modifications : Table Int Modification
  additions : Table Int Addition
  playerBoard : Board Int α
  nationBoard : Board String α
  subdivisionBoard : Board Region α

namespace Database

variable {α : Type}

def empty : Database α where
  nations := .empty
  subdivisions := .empty
  players := .empty
  demons := .empty
  records := .empty
  modifications := .empty
  additions := .empty
  playerBoard := .empty
  nationBoard := .empty
  subdivisionBoard := .empty

def listedDemons (db : Database α) : List (Int × Demon) := db.demons.entries.filter fun (_, d) => d.listed

end Database

end DemonBoard
