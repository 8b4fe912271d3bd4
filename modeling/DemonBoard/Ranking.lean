import DemonBoard.Totals

/-!
Competition ranking. In each pool the entities with a positive total are ranked from the largest down:
equal totals share a rank, the rank after a tie skips its size, and the display index goes on by one,
in the order of the keys inside a tie. An entity without a positive total has no place, not the last.
-/

namespace DemonBoard

variable {κ α : Type} [Ord κ] [Scalar α]

/-- Larger values first, equal ones by key. -/
def ranksBefore (a b : κ × α) : Bool :=
  decide (b.2 < a.2) || (!decide (a.2 < b.2) && (compare a.1 b.1).isLE)

/-- Places for values in descending order: a value smaller than the one before takes its own index as
rank, an equal one shares the rank. -/
def assignPlaces (index : Nat) (before : Option (α × Nat)) : List (Nat × α) → List (Nat × Placement)
  | [] => []
  | (row, value) :: rest =>
    let rank :=
      match before with
      | none => index
      | some (last, rank) => if value < last then index else rank
    (row, ⟨rank, index⟩) :: assignPlaces (index + 1) (some (value, rank)) rest

def placements (pool : Pool) (rows : List (κ × Totals α)) : List (Nat × Placement) :=
  let values := rows.zipIdx.map fun ((k, t), row) => (row, k, t.inPool pool)
  let ranked := values.filter fun (_, _, value) => decide (0 < value)
  let sorted := sortBy (fun a b => ranksBefore a.2 b.2) ranked
  assignPlaces 1 none (sorted.map fun (row, _, value) => (row, value))

def standingAt (rated unrated : List (Nat × Placement)) (row : Nat) : Option Standing :=
  let standing : Standing := ⟨rated.lookup row, unrated.lookup row⟩
  if standing.isRanked then some standing else none

/-- The standings of the entities that have a place in some pool, in the order of the rows. -/
def competitionRanks (rows : List (κ × Totals α)) : List (κ × Standing) :=
  let rated := placements .rated rows
  let unrated := placements .unrated rows
  rows.zipIdx.filterMap fun ((k, _), row) => (standingAt rated unrated row).map (k, ·)

omit [Ord κ] [Scalar α] in
theorem keys_filterMap_zipIdx (f : Nat → Option Standing) (rows : List (κ × Totals α)) (start : Nat) :
    (((rows.zipIdx start).filterMap fun ((k, _), row) => (f row).map (k, ·)).map Prod.fst).Sublist
      (rows.map Prod.fst) := by
  induction rows generalizing start with
  | nil => simp
  | cons e rest ih =>
    simp only [List.zipIdx_cons, List.filterMap_cons, List.map_cons]
    cases f start with
    | none => exact (ih (start + 1)).cons _
    | some s => exact (ih (start + 1)).cons_cons _

theorem keys_competitionRanks (rows : List (κ × Totals α)) :
    ((competitionRanks rows).map Prod.fst).Sublist (rows.map Prod.fst) :=
  keys_filterMap_zipIdx _ rows 0

def rankTable (totals : Table κ (Totals α)) : Table κ Standing :=
  totals.restrict (competitionRanks totals.entries) (keys_competitionRanks totals.entries)

end DemonBoard
