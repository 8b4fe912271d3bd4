import DemonBoard.Recompute
import DemonBoard.Proofs.BestRows
import DemonBoard.Proofs.Tables

/-! What a pass makes of a board. The totals that it writes are read again when it ranks, so each entity on file is
ranked by the total that its rows call for, and the board depends on nothing that was stored in it before. -/

namespace DemonBoard

section Totals

variable {κ α : Type} [DecidableEq κ] [Scalar α] {k : κ}

theorem mem_firstOfGroups_id {xs : List κ} : k ∈ firstOfGroups id xs ↔ k ∈ xs := by
  constructor
  · exact fun mem => (firstOfGroups_sublist id xs).subset mem
  · intro mem
    have inOrder : xs.Pairwise fun _ _ => True := List.pairwise_of_forall fun _ _ => trivial
    obtain ⟨k', first, rfl, -⟩ := exists_mem_firstOfGroups id inOrder mem
    exact first

namespace Grouping

variable (g : Grouping κ) (curve : Curve α) (rows : List ScoreRow) (k : κ)

/-- The totals of a scope hold an entity's total if one of its rows is counted. -/
theorem lookup_totals : (g.totals curve rows).lookup k =
    if (g.counted rows).filter (fun r => g.key r = some k) = [] then none
    else some (g.totalIn (g.scored curve rows) k) := by
  let scored := g.scored curve rows
  let keys := scored.filterMap fun e => g.key e.1
  have known_iff : k ∈ keys ↔ (g.counted rows).filter (fun r => g.key r = some k) ≠ [] := by
    simp [keys, scored, Grouping.scored, withScores]
  have listed : g.totals curve rows = (firstOfGroups id keys).map fun k => (k, g.totalIn scored k) := rfl
  rw [listed]
  split
  · rename_i nothing
    rw [List.lookup_eq_none_iff]
    intro e mem
    obtain ⟨k', first, rfl⟩ := List.mem_map.1 mem
    rw [bne_iff_ne]
    rintro rfl
    exact known_iff.1 (mem_firstOfGroups_id.1 first) nothing
  · rename_i something
    exact List.lookup_graph _ (mem_firstOfGroups_id.2 (known_iff.2 something))

theorem getD_lookup_totals :
    ((g.totals curve rows).lookup k).getD Totals.zero = g.totalIn (g.scored curve rows) k := by
  rw [lookup_totals]
  split
  · rename_i nothing
    have own : (g.scored curve rows).filter (fun e => g.key e.1 = some k) = [] := by
      simpa [scored, withScores, List.filter_map] using nothing
    have sum : Scalar.orZero (Scalar.sum ([] : List α)) = 0 := ite_self _
    simp only [totalIn, own, sumPools, List.filter_nil, List.map_nil, sum]
    rfl
  · rfl

end Grouping

end Totals

namespace Board

variable {κ α ρ : Type} [Ord κ] [DecidableEq κ] [Scalar α]

/-- A board for all entities from new totals, with standings for those that may be ranked. -/
def ofTotals (entities : Table κ ρ) (mayRank : κ → ρ → Bool) (total : κ → Totals α) : Board κ α where
  totals := entities.mapRows fun k _ => total k
  ranks := rankTable ((entities.filter mayRank).mapRows fun k _ => total k)

variable [Std.TransOrd κ] {entities : Table κ ρ} {mayRank : κ → ρ → Bool} {total : κ → Totals α}

theorem total_ofTotals {k : κ} (mem : k ∈ entities.keys) : (ofTotals entities mayRank total).total k = total k := by
  obtain ⟨e, entry, rfl⟩ := List.mem_map.1 mem
  have found : entities.find? e.1 = some e.2 := Table.find?_eq_some_iff.2 entry
  unfold Board.total ofTotals
  rw [Table.find?_mapRows, found]
  rfl

theorem writeRanks_writeTotals (b : Board κ α) {totals : List (κ × Totals α)}
    (same : ∀ k, (totals.lookup k).getD Totals.zero = total k) :
    (b.writeTotals entities totals).writeRanks entities mayRank = ofTotals entities mayRank total := by
  -- everything that is ranked is on file, so its old total has been overwritten
  have written : b.writeTotals entities totals = { b with totals := entities.mapRows fun k _ => total k } := by
    simp only [writeTotals, same]
  have stored : (entities.filter mayRank).mapRows (fun k _ => (b.writeTotals entities totals).total k) =
      (entities.filter mayRank).mapRows fun k _ => total k := by
    refine Table.ext (List.map_congr_left fun e mem => ?_)
    have known : e.1 ∈ entities.keys := List.mem_map_of_mem (List.mem_of_mem_filter mem)
    have kept : (ofTotals entities mayRank total).total e.1 = total e.1 := total_ofTotals known
    rw [written]
    exact congrArg (Prod.mk e.1) kept
  rw [writeRanks, stored, written]
  rfl

end Board

namespace Database

variable {α : Type} [Scalar α]

/-- The board that the tables call for, scope by scope. -/
def computedPlayerBoard (db : Database α) : Board Int α :=
  let scored := Grouping.players.scored Curve.standard db.standardRows
  Board.ofTotals db.players (fun _ p => !p.banned) (Grouping.players.totalIn scored)

def computedNationBoard (db : Database α) : Board String α :=
  let scored := Grouping.nations.scored Curve.standard db.standardRows
  Board.ofTotals db.nations (fun _ _ => true) (Grouping.nations.totalIn scored)

def computedSubdivisionBoard (db : Database α) : Board Region α :=
  let scored := Grouping.subdivisions.scored Curve.standard db.standardRows
  Board.ofTotals db.subdivisions (fun _ _ => true) (Grouping.subdivisions.totalIn scored)

theorem pass_player (db : Database α) : db.pass .player = { db with playerBoard := db.computedPlayerBoard } :=
  congrArg (fun b => { db with playerBoard := b })
    (Board.writeRanks_writeTotals db.playerBoard (Grouping.players.getD_lookup_totals Curve.standard db.standardRows))

theorem pass_nation (db : Database α) : db.pass .nation = { db with nationBoard := db.computedNationBoard } :=
  congrArg (fun b => { db with nationBoard := b })
    (Board.writeRanks_writeTotals db.nationBoard (Grouping.nations.getD_lookup_totals Curve.standard db.standardRows))

theorem pass_subdivision (db : Database α) :
    db.pass .subdivision = { db with subdivisionBoard := db.computedSubdivisionBoard } :=
  congrArg (fun b => { db with subdivisionBoard := b })
    (Board.writeRanks_writeTotals db.subdivisionBoard
      (Grouping.subdivisions.getD_lookup_totals Curve.standard db.standardRows))

theorem foldl_pass_all (db : Database α) : Scope.all.foldl pass db = { db with
    playerBoard := db.computedPlayerBoard
    nationBoard := db.computedNationBoard
    subdivisionBoard := db.computedSubdivisionBoard } := by
  simp only [Scope.all, List.foldl_cons, List.foldl_nil, pass_player, pass_nation, pass_subdivision]
  rfl

end Database

end DemonBoard
