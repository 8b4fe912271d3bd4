import DemonBoard.Paging
import DemonBoard.Ranking
import DemonBoard.Text.Search
import DemonBoard.Error

/-!
Ranked views: the standings of a scope in the order of their index, restricted to what a reader asks
for. Ranks stay those of the whole scope; the index is numbered anew for paging.
-/

namespace DemonBoard

structure RankedEntry (κ α : Type) where
  index : Nat
  rank : Nat
  key : κ
  name : String
  score : α
  nationality : Option String

/-- What a reader asks of players. No name, or an empty one, asks for nothing. -/
structure PlayerFilter where
  nation : Option String
  subdivision : Option String
  continent : Option String
  nameContains : Option String

namespace Board

variable {κ α : Type} [Ord κ]

def byIndex (b : Board κ α) (pool : Pool) : List (κ × Placement) :=
  sortOn (fun (_, p) => p.index) (b.ranks.entries.filterMap fun (k, s) => (s.inPool pool).map (k, ·))

def rankOf [DecidableEq κ] (b : Board κ α) (k : κ) (pool : Pool) : Option Nat :=
  (b.ranks.find? k).bind fun s => (s.inPool pool).map Placement.rank

def view [DecidableEq κ] [Scalar α] {ρ : Type} (b : Board κ α) (entities : Table κ ρ) (pool : Pool)
    (asked : κ → ρ → Bool) (name : ρ → String) (nationality : κ → ρ → Option String) :
    List (RankedEntry κ α) :=
  let found := (b.byIndex pool).filterMap fun (k, p) =>
    match entities.find? k with
    | some row => if asked k row then some (k, row, p.rank) else none
    | none => none
  (found.zipIdx 1).map fun ((k, row, rank), index) =>
    ⟨index, rank, k, name row, (b.total k).inPool pool, nationality k row⟩

end Board

def meets {β : Type} [DecidableEq β] (asked : Option β) (value : Option β) : Bool :=
  asked.all fun a => value = some a

namespace Database

variable {α : Type}

def nationInContinent (db : Database α) (continent : Option String) (nation : Option String) : Bool :=
  meets continent (nation.bind fun code => (db.nations.find? code).bind Nation.continent)

def matchesFilter (db : Database α) (f : PlayerFilter) (p : Player) : Bool :=
  !p.banned && meets f.nation p.nationality && meets f.subdivision p.subdivision &&
    db.nationInContinent f.continent p.nationality &&
    f.nameContains.all (Text.containsIgnoringCase p.name)

variable [Scalar α]

/-- All ranked players that a filter lets through. A subdivision's code means nothing without its nation. -/
def rankedPlayers (db : Database α) (pool : Pool) (f : PlayerFilter) :
    Except Error (List (RankedEntry Int α)) :=
  if f.subdivision.isSome && f.nation.isNone then .error .subdivisionFilterAlone
  else .ok (db.playerBoard.view db.players pool (fun _ => db.matchesFilter f) Player.name
    fun _ p => p.nationality)

def rankedNations (db : Database α) (pool : Pool) (continent : Option String) : List (RankedEntry String α) :=
  db.nationBoard.view db.nations pool (fun _ n => meets continent n.continent) Nation.name
    fun code _ => some code

def rankedSubdivisions (db : Database α) (pool : Pool) (nation : Option String) :
    List (RankedEntry Region α) :=
  db.subdivisionBoard.view db.subdivisions pool (fun region _ => meets nation (some region.nation))
    Subdivision.name fun region _ => some region.nation

end Database

end DemonBoard
