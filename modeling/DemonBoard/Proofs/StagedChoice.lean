import DemonBoard.Proofs.EarnedTotals
import DemonBoard.Proofs.UniqueBest

/-! Choosing in stages. The best row of a large group is the best row of the small group that it lies in, so choosing
among the best rows of small groups gives what choosing among all rows gives. A nation's rows can be had in this way
from those of its players, and from those of its subdivisions. -/

namespace DemonBoard

namespace PicksBest

variable {columns fine coarse : List Column} {rows first second : List ScoreRow}

/-- The best of the best are the best. -/
theorem stages (h : PicksBest fine rows first) (h' : PicksBest coarse first second)
    (refines : ∀ r ∈ rows, ∀ r' ∈ rows, r.group fine = r'.group fine → r.group coarse = r'.group coarse) :
    PicksBest coarse rows second where
  drawn b kept := h.drawn b (h'.drawn b kept)
  covers r mem := by
    obtain ⟨b, kept, same⟩ := h.covers r mem
    obtain ⟨c, kept', same'⟩ := h'.covers b kept
    exact ⟨c, kept', same'.trans (refines b (h.drawn b kept) r mem same)⟩
  atLeast c kept' r mem same := by
    -- the best row of the small group stands between the one that is chosen last and the others of that group
    obtain ⟨b, kept, same'⟩ := h.covers r mem
    have inGroup : c.group coarse = b.group coarse :=
      same.trans (refines b (h.drawn b kept) r mem same').symm
    exact (h'.atLeast c kept' b kept inGroup).trans (h.atLeast b kept r mem same')
  ascending := h'.ascending

theorem filter (h : PicksBest columns rows first) {p : ScoreRow → Bool}
    (ofGroup : ∀ r ∈ rows, ∀ r' ∈ rows, r.group columns = r'.group columns → p r = p r') :
    PicksBest columns (rows.filter p) (first.filter p) where
  drawn b kept := by
    obtain ⟨kept, asked⟩ := List.mem_filter.1 kept
    exact List.mem_filter.2 ⟨h.drawn b kept, asked⟩
  covers r mem := by
    obtain ⟨mem, asked⟩ := List.mem_filter.1 mem
    obtain ⟨b, kept, same⟩ := h.covers r mem
    refine ⟨b, List.mem_filter.2 ⟨kept, ?_⟩, same⟩
    rw [ofGroup b (h.drawn b kept) r mem same]
    exact asked
  atLeast b kept r mem := h.atLeast b (List.mem_of_mem_filter kept) r (List.mem_of_mem_filter mem)
  ascending := h.ascending.filter _

end PicksBest

section Stages

variable {columns fine coarse : List Column} {rows : List ScoreRow}

theorem bestPerDemon_bestPerDemon (apart : (rows.map ScoreRow.mark).Nodup)
    (refines : ∀ r ∈ rows, ∀ r' ∈ rows, fine.map r.cell = fine.map r'.cell → coarse.map r.cell = coarse.map r'.cell) :
    bestPerDemon coarse (bestPerDemon fine rows) = bestPerDemon coarse rows := by
  have staged : PicksBest coarse rows (bestPerDemon coarse (bestPerDemon fine rows)) := by
    refine (picksBest_bestPerDemon fine rows).stages (picksBest_bestPerDemon coarse _) ?_
    intro r mem r' mem' same
    have demon : r.demonId = r'.demonId := congrArg Prod.snd same
    exact Prod.ext (refines r mem r' mem' (congrArg Prod.fst same)) demon
  exact staged.unique (ScoreRow.nodup_merits_of_marks apart coarse) (picksBest_bestPerDemon coarse rows)

theorem memberRows_bestPerDemon (apart : (rows.map ScoreRow.mark).Nodup)
    (ofGroup : ∀ r ∈ rows, ∀ r' ∈ rows, r.group fine = r'.group fine → r.mayCount columns = r'.mayCount columns) :
    memberRows columns (bestPerDemon fine rows) = bestPerDemon fine (memberRows columns rows) := by
  have kept := (picksBest_bestPerDemon fine rows).filter ofGroup
  refine kept.unique (ScoreRow.nodup_merits_of_marks ?_ fine) (picksBest_bestPerDemon fine _)
  exact apart.sublist (List.filter_sublist.map _)

/-- A nation's rows from those of its subdivisions. Its members outside of all subdivisions make up one more. -/
theorem bestPerDemon_subdivisions (apart : (rows.map ScoreRow.mark).Nodup) :
    bestPerDemon Grouping.nations.columns (bestPerDemon Grouping.subdivisions.columns rows) =
      bestPerDemon Grouping.nations.columns rows := by
  refine bestPerDemon_bestPerDemon apart ?_
  intro r _ r' _ cells
  injection cells with nationality
  change [r.cell .nationality] = [r'.cell .nationality]
  rw [nationality]

theorem memberRows_subdivisions (placed : ∀ r ∈ memberRows Grouping.nations.columns rows, r.subdivision.isSome) :
    memberRows Grouping.subdivisions.columns rows = memberRows Grouping.nations.columns rows := by
  apply List.filter_congr
  intro r mem
  rw [Database.mayCount_subdivisions, Database.mayCount_nations]
  cases nation : (!r.banned && r.nationality.isSome) with
  | false => rw [← Bool.and_assoc, nation, Bool.false_and]
  | true =>
    have member : r ∈ memberRows Grouping.nations.columns rows :=
      List.mem_filter.2 ⟨mem, (Database.mayCount_nations r).trans nation⟩
    rw [← Bool.and_assoc, nation, placed r member, Bool.true_and]

end Stages

namespace Database

variable {α : Type} {db : Database α} {window : Int}

theorem member_eq_of_player {r r' : ScoreRow} (mem : r ∈ db.scoreGiving window) (mem' : r' ∈ db.scoreGiving window)
    (same : r.playerId = r'.playerId) : r.nationality = r'.nationality ∧ r.banned = r'.banned := by
  obtain ⟨d, p, describes, -⟩ := attempt_of_row (fun _ => true) mem
  obtain ⟨d', p', describes', -⟩ := attempt_of_row (fun _ => true) mem'
  rw [describes.nationality, describes'.nationality, describes.banned, describes'.banned, same]
  exact ⟨rfl, rfl⟩

theorem counted_nations_playerStream (positive : ∀ e ∈ db.records.entries, 0 < e.1) :
    Grouping.nations.counted (playerStream (db.scoreGiving window)) =
      Grouping.nations.counted (db.scoreGiving window) := by
  have apart := nodup_marks positive window
  have player {r r' : ScoreRow} (cells : [Column.playerId].map r.cell = [Column.playerId].map r'.cell) :
      r.playerId = r'.playerId := by
    injection cells with cell
    injection cell
  change bestPerDemon _ (memberRows _ (bestPerDemon _ _)) = bestPerDemon _ (memberRows _ _)
  rw [memberRows_bestPerDemon apart]
  · refine bestPerDemon_bestPerDemon (apart.sublist (List.filter_sublist.map _)) ?_
    intro r mem r' mem' cells
    obtain ⟨nationality, -⟩ :=
      member_eq_of_player (List.mem_of_mem_filter mem) (List.mem_of_mem_filter mem') (player cells)
    change [Cell.ofText? r.nationality] = [Cell.ofText? r'.nationality]
    rw [nationality]
  · intro r mem r' mem' group
    obtain ⟨nationality, banned⟩ := member_eq_of_player mem mem' (player (congrArg Prod.fst group))
    rw [mayCount_nations, mayCount_nations, nationality, banned]

end Database

/-- Choosing the best rows in stages: the best rows of large groups are the best among those of small groups. The rows
of the nations can be had from those of each player, or of each subdivision and of who belongs to none. -/
theorem bestPerDemon_in_stages :
    (∀ (rows : List ScoreRow) (fine coarse : List Column), (rows.map ScoreRow.mark).Nodup →
      (∀ r ∈ rows, ∀ r' ∈ rows, fine.map r.cell = fine.map r'.cell → coarse.map r.cell = coarse.map r'.cell) →
      bestPerDemon coarse (bestPerDemon fine rows) = bestPerDemon coarse rows) ∧
    ∀ {α : Type} (db : Database α) (window : Int), (∀ e ∈ db.records.entries, 0 < e.1) →
      let rows := db.scoreGiving window
      let members := memberRows Grouping.nations.columns rows
      Grouping.nations.counted (playerStream rows) = Grouping.nations.counted rows ∧
      bestPerDemon Grouping.nations.columns (bestPerDemon Grouping.subdivisions.columns members) =
        Grouping.nations.counted rows ∧
      ((∀ r ∈ members, r.subdivision.isSome) →
        bestPerDemon Grouping.nations.columns (Grouping.subdivisions.counted rows) =
          Grouping.nations.counted rows) := by
  refine ⟨fun rows fine coarse => bestPerDemon_bestPerDemon, ?_⟩
  intro α db window positive rows members
  have apart : (members.map ScoreRow.mark).Nodup :=
    (Database.nodup_marks positive window).sublist (List.filter_sublist.map _)
  refine ⟨Database.counted_nations_playerStream positive, bestPerDemon_subdivisions apart, ?_⟩
  intro placed
  change bestPerDemon _ (bestPerDemon _ (memberRows _ rows)) = bestPerDemon _ members
  rw [memberRows_subdivisions placed]
  exact bestPerDemon_subdivisions apart

/-- A verifier from Paris and a compatriot have completed one demon, and the compatriot alone has got anywhere on the
other. Where the compatriot is of no subdivision, the rows that count for the subdivisions do not give the nation's. -/
theorem bestPerDemon_in_stages_of_compatriot :
    let hard : Demon := ⟨"hard", some 1, 50, none, 1, 1, true, ⟨0⟩, none⟩
    let easy : Demon := ⟨"easy", some 2, 40, none, 9, 9, true, ⟨0⟩, none⟩
    let handedIn : List Record := [⟨2, 1, 100, .approved⟩, ⟨2, 2, 60, .approved⟩, ⟨2, 2, 70, .approved⟩]
    let database (home : Option String) : Database Float := { (Database.empty : Database Float) with
      players := (Table.empty.append ⟨"p", some "FR", some "Paris", false⟩).append ⟨"q", some "FR", home, false⟩
      demons := (Table.empty.append hard).append easy
      records := handedIn.foldl Table.append Table.empty }
    let rows := (database none).scoreGiving 75
    let best := Grouping.nations.counted rows
    best.map (fun b => (b.demonId, b.playerId, b.progress, b.recordId)) = [(1, 1, 100, 0), (2, 2, 70, 3)] ∧
    bestPerDemon [.nationality] (bestPerDemon [.nationality, .playerId] rows) = bestPerDemon [.nationality] rows ∧
    Grouping.nations.counted (playerStream rows) = best ∧
    bestPerDemon [.nationality] (bestPerDemon [.nationality, .subdivision] (memberRows [.nationality] rows)) = best ∧
    bestPerDemon [.nationality] (Grouping.subdivisions.counted rows) ≠ best ∧
    bestPerDemon [.nationality] (Grouping.subdivisions.counted ((database (some "Lyon")).scoreGiving 75)) =
      Grouping.nations.counted ((database (some "Lyon")).scoreGiving 75) := by
  intro hard easy handedIn database rows best
  obtain ⟨staged, nations⟩ := bestPerDemon_in_stages
  obtain ⟨fromPlayers, fromSubdivisions, -⟩ := nations (database none) 75 (by decide)
  obtain ⟨-, -, fromCounted⟩ := nations (database (some "Lyon")) 75 (by decide)
  refine ⟨by decide, ?_, fromPlayers, fromSubdivisions, by decide, fromCounted (by decide)⟩
  exact staged rows [.nationality, .playerId] [.nationality] (by decide) (by decide)

end DemonBoard
