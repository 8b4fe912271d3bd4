import DemonBoard.Stats.Nation
import DemonBoard.Proofs.DrillDowns
import DemonBoard.Proofs.Standings

/-! What a nation's score is made of. Its best records come one for each demon on which a member has made score, from
the top of the list down; they add up to its totals, and tell which demons are left to beat. -/

namespace DemonBoard

namespace Database

section Order

variable {α : Type} {db : Database α}

theorem nullsFirst_trans (a b c : Option Int) (h : Stats.nullsFirst a b = true) (h' : Stats.nullsFirst b c = true) :
    Stats.nullsFirst a c = true := by
  cases a with
  | none => cases c <;> rfl
  | some a =>
    cases b with
    | none => cases h
    | some b =>
      cases c with
      | none => cases h'
      | some c => exact decide_eq_true (Int.le_trans (of_decide_eq_true h) (of_decide_eq_true h'))

theorem nullsFirst_total (a b : Option Int) : (Stats.nullsFirst a b || Stats.nullsFirst b a) = true := by
  cases a <;> cases b <;> simp [Stats.nullsFirst, Int.le_total]

theorem perm_demonsInOrder (db : Database α) : db.demonsInOrder.Perm db.listedDemons := sortBy_perm _ _

theorem Dense.demonsInOrder_ids (dense : db.Dense) : db.demonsInOrder.map Prod.fst = db.order := by
  have perm : (db.demonsInOrder.map Prod.fst).Perm db.order :=
    (db.perm_demonsInOrder.map _).trans db.order_perm.symm
  refine eq_of_perm_of_ascending perm ?_ dense.arranged.ascending
  have sorted : db.demonsInOrder.Pairwise fun a b => Stats.nullsFirst a.2.position b.2.position :=
    pairwise_sortBy (fun a b c => nullsFirst_trans a.2.position b.2.position c.2.position)
      (fun a b => nullsFirst_total a.2.position b.2.position) _
  refine List.pairwise_map.2 (sorted.imp_of_mem fun {a b} ha hb le => ?_)
  have listed := db.perm_demonsInOrder.subset ha
  have listed' := db.perm_demonsInOrder.subset hb
  rw [positionOf_listed listed, positionOf_listed listed']
  obtain ⟨_, -, at_p⟩ := dense.arranged.placed a.1 a.2 (mem_listedDemons.1 listed).1 (mem_listedDemons.1 listed).2
  obtain ⟨_, -, at_q⟩ := dense.arranged.placed b.1 b.2 (mem_listedDemons.1 listed').1 (mem_listedDemons.1 listed').2
  rw [at_p, at_q] at le ⊢
  exact of_decide_eq_true le

theorem Dense.ascending_demonsInOrder (dense : db.Dense) :
    db.demonsInOrder.Pairwise fun a b => a.2.position.getD 0 < b.2.position.getD 0 := by
  have ascending := dense.arranged.ascending
  rw [← dense.demonsInOrder_ids, List.pairwise_map] at ascending
  refine ascending.imp_of_mem fun {a b} ha hb lt => ?_
  rwa [positionOf_listed (db.perm_demonsInOrder.subset ha), positionOf_listed (db.perm_demonsInOrder.subset hb)] at lt

theorem Dense.positions_demonsInOrder (dense : db.Dense) :
    db.demonsInOrder.map (fun e => e.2.position) = densePositions db.listSize := by
  have stands (es : List (Int × Demon)) (part : ∀ e ∈ es, e ∈ db.listedDemons) :
      es.map (fun e => e.2.position) = (es.map Prod.fst).map db.positionOf := by
    rw [List.map_map]
    exact List.map_congr_left fun e mem => (positionOf_listed (part e mem)).symm
  rw [stands _ fun e => db.perm_demonsInOrder.mem_iff.1, dense.demonsInOrder_ids, order,
    ← stands _ fun e => (sortOn_perm _ _).mem_iff.1]
  exact map_sortOn_position dense

end Order

section Nation

variable {db : Database ℝ} {code : String}

def nationRows (db : Database ℝ) (code : String) : List ScoreRow := Grouping.nations.rowsOf code db.standardRows

def nationBest (db : Database ℝ) (code : String) : List ScoreRow :=
  bestPerDemon Grouping.nations.columns (db.nationRows code)

/-- Whether a member who is not banned has made score on a demon. -/
def scoredOn (db : Database ℝ) (code : String) (e : Int × Demon) : Bool :=
  (db.attempts (db.playersWho (Player.countsFor code)) e.1 e.2).any fun progress =>
    e.2.position.any fun p => givesScore scoredWindow p progress

theorem mem_nationRows {r : ScoreRow} :
    r ∈ db.nationRows code ↔ r ∈ db.standardRows ∧ db.playersWho (Player.countsFor code) r.playerId := by
  constructor
  · intro mem
    have standard : r ∈ db.standardRows := standard_of_mem_rowsOf mem
    exact ⟨standard, (db.selects_nations scoredWindow code r standard).1 (Grouping.mem_rowsOf.1 mem)⟩
  · rintro ⟨standard, counts⟩
    exact Grouping.mem_rowsOf.2 ((db.selects_nations scoredWindow code r standard).2 counts)

theorem bestOf_nationBest (db : Database ℝ) (code : String) : BestOf (db.nationBest code) (db.nationRows code) :=
  Grouping.faithful_nations.bestOf_bestPerDemon fun _ mem => (Grouping.mem_rowsOf.1 mem).2

theorem standard_of_mem_nationBest {b : ScoreRow} (mem : b ∈ db.nationBest code) : b ∈ db.standardRows :=
  (mem_nationRows.1 ((db.bestOf_nationBest code).drawn b mem)).1

theorem progress_le_hundred (bounded : db.WithinHundred) {r : ScoreRow} (mem : r ∈ db.standardRows) :
    r.progress ≤ 100 := by
  obtain ⟨d, p, -, attempt⟩ := attempt_of_row (fun _ => true) mem
  exact bounded.attempts (attempt rfl)

theorem position_of_row {r : ScoreRow} (mem : r ∈ db.standardRows) : db.positionOf r.demonId = some r.position := by
  obtain ⟨d, p, describes, -⟩ := attempt_of_row (fun _ => true) mem
  rw [positionOf, describes.placed.1, describes.position]
  exact describes.placed.2.2

theorem scoredOn_iff {e : Int × Demon} (listed : e ∈ db.listedDemons) :
    db.scoredOn code e = true ↔ ∃ b ∈ db.nationBest code, b.demonId = e.1 := by
  obtain ⟨found, listed⟩ := mem_listedDemons.1 listed
  simp only [scoredOn, List.any_eq_true, Option.any_eq_true]
  constructor
  · rintro ⟨progress, attempt, p, at_p, gives⟩
    obtain ⟨r, row, about, -, counts⟩ := row_of_attempt ⟨found, listed, at_p⟩ attempt gives
    obtain ⟨b, mem, about', -⟩ := (db.bestOf_nationBest code).covers r (mem_nationRows.2 ⟨row, counts⟩)
    exact ⟨b, mem, about'.trans about⟩
  · rintro ⟨b, mem, about⟩
    obtain ⟨row, counts⟩ := mem_nationRows.1 ((db.bestOf_nationBest code).drawn b mem)
    obtain ⟨d, p, describes, attempt⟩ := attempt_of_row (db.playersWho (Player.countsFor code)) row
    obtain ⟨found', -, at_p⟩ := describes.placed
    rw [about, found, Option.some_inj] at found'
    subst found'
    have gives := givesScore_of_row row
    rw [describes.position] at gives
    rw [about] at attempt
    exact ⟨b.progress, attempt counts, p, at_p, gives⟩

noncomputable def recordOf (db : Database ℝ) (r : ScoreRow) : BestRecord ℝ where
  demon := ((db.demons.find? r.demonId).map Demon.name).getD ""
  position := r.position
  player := ((db.players.find? r.playerId).map Player.name).getD ""
  progress := r.progress
  verification := r.verification
  rated := r.rated
  score := r.exactScore

/-- Every best row is shown: its player has a nation, and so is on file, and its demon is listed. -/
theorem bestRecords_eq (db : Database ℝ) (code : String) :
    db.bestRecords code = (sortOn ScoreRow.position (db.nationBest code)).map db.recordOf := by
  have shown : ∀ r ∈ db.nationBest code, ∃ player demon, db.players.find? r.playerId = some player ∧
      db.demons.find? r.demonId = some demon ∧ demon.listed = true := by
    intro r mem
    obtain ⟨row, counts⟩ := mem_nationRows.1 ((db.bestOf_nationBest code).drawn r mem)
    obtain ⟨player, found, -⟩ := (Option.any_eq_true _ _).1 counts
    obtain ⟨demon, p, describes, -⟩ := attempt_of_row (fun _ => true) row
    exact ⟨player, demon, found, describes.placed.1, describes.placed.2.1⟩
  have sorted : sortOn BestRecord.position ((db.nationBest code).map db.recordOf) =
      (sortOn ScoreRow.position (db.nationBest code)).map db.recordOf := sortBy_map (fun _ _ => rfl) _
  rw [← sorted]
  refine congrArg (sortOn BestRecord.position) ?_
  rw [withScores, List.filterMap_map, ← List.filterMap_eq_map]
  refine List.filterMap_congr ?_
  intro r mem
  obtain ⟨player, demon, found, found', listed⟩ := shown r mem
  simp only [Function.comp_apply, found, found', recordOf]
  exact if_pos listed

theorem Dense.ids_nationBest (dense : db.Dense) (code : String) :
    (sortOn ScoreRow.position (db.nationBest code)).map ScoreRow.demonId =
      (db.demonsInOrder.filter (db.scoredOn code)).map Prod.fst := by
  have perm := sortOn_perm ScoreRow.position (db.nationBest code)
  have inOrder : ((db.demonsInOrder.filter (db.scoredOn code)).map Prod.fst).Sublist db.order := by
    rw [← dense.demonsInOrder_ids]
    exact List.filter_sublist.map _
  have members : ((sortOn ScoreRow.position (db.nationBest code)).map ScoreRow.demonId).Perm
      ((db.demonsInOrder.filter (db.scoredOn code)).map Prod.fst) := by
    refine (List.perm_ext_iff_of_nodup ?_ (dense.arranged.nodup.sublist inOrder)).2 ?_
    · exact (perm.map _).nodup_iff.2 (db.bestOf_nationBest code).distinct
    · intro id
      rw [(perm.map ScoreRow.demonId).mem_iff, List.mem_map, List.mem_map]
      constructor
      · rintro ⟨b, mem, rfl⟩
        obtain ⟨d, p, describes, -⟩ := attempt_of_row (fun _ => true) (standard_of_mem_nationBest mem)
        have listed := mem_listedDemons.2 ⟨describes.placed.1, describes.placed.2.1⟩
        exact ⟨(b.demonId, d), List.mem_filter.2 ⟨db.perm_demonsInOrder.mem_iff.2 listed,
          (scoredOn_iff listed).2 ⟨b, mem, rfl⟩⟩, rfl⟩
      · rintro ⟨e, mem, rfl⟩
        obtain ⟨mem, scored⟩ := List.mem_filter.1 mem
        exact (scoredOn_iff (db.perm_demonsInOrder.mem_iff.1 mem)).1 scored
  refine eq_of_perm_of_ascending members ?_ (dense.arranged.ascending.sublist inOrder)
  refine List.pairwise_map.2 ((pairwise_sortOn ScoreRow.position _).imp_of_mem fun {a b} ha hb le => ?_)
  have place {r : ScoreRow} (mem : r ∈ sortOn ScoreRow.position (db.nationBest code)) :
      db.positionOf r.demonId = some r.position := position_of_row (standard_of_mem_nationBest (perm.mem_iff.1 mem))
  rw [place ha, place hb]
  exact le

theorem Dense.bestRecords_demons (dense : db.Dense) (code : String) :
    (db.bestRecords code).map (fun b => (b.demon, some b.position)) =
      (db.demonsInOrder.filter (db.scoredOn code)).map fun (_, d) => (d.name, d.position) := by
  let shown (id : Int) : String × Option Int := (((db.demons.find? id).map Demon.name).getD "", db.positionOf id)
  have ids := congrArg (List.map shown) (dense.ids_nationBest code)
  rw [List.map_map, List.map_map] at ids
  rw [bestRecords_eq, List.map_map]
  calc (sortOn ScoreRow.position (db.nationBest code)).map ((fun b => (b.demon, some b.position)) ∘ db.recordOf)
    _ = (sortOn ScoreRow.position (db.nationBest code)).map (shown ∘ ScoreRow.demonId) := by
      refine List.map_congr_left ?_
      intro r mem
      have row := standard_of_mem_nationBest ((sortOn_perm _ _).mem_iff.1 mem)
      simp only [Function.comp_apply, recordOf, shown, position_of_row row]
    _ = (db.demonsInOrder.filter (db.scoredOn code)).map (shown ∘ Prod.fst) := ids
    _ = (db.demonsInOrder.filter (db.scoredOn code)).map fun (_, d) => (d.name, d.position) := by
      refine List.map_congr_left ?_
      intro e mem
      have listed := db.perm_demonsInOrder.mem_iff.1 (List.mem_of_mem_filter mem)
      simp only [Function.comp_apply, shown, positionOf_listed listed, (mem_listedDemons.1 listed).1]
      rfl

theorem totalIn_eq_sum_bestRecords (db : Database ℝ) (code : String) :
    Grouping.nations.totalIn (Grouping.nations.scored (Curve.standard : Curve ℝ) db.standardRows) code =
      ⟨(((db.bestRecords code).filter (·.rated)).map BestRecord.score).sum,
        ((db.bestRecords code).map BestRecord.score).sum⟩ := by
  have perm := sortOn_perm ScoreRow.position (db.nationBest code)
  rw [totalIn_eq_sum_of_bestOf Grouping.faithful_nations rfl (db.bestOf_nationBest code), bestRecords_eq,
    List.filter_map, List.map_map, List.map_map]
  congr 1
  · exact (((perm.filter _).map ScoreRow.exactScore).sum_eq).symm
  · exact ((perm.map ScoreRow.exactScore).sum_eq).symm

theorem Dense.unbeatenBy_eq (dense : db.Dense) (bounded : db.WithinHundred) (code : String) :
    db.unbeatenBy code = (db.demonsInOrder.filter fun (_, d) => !(db.bestRecords code).any fun b =>
      decide (some b.position = d.position) && decide (b.progress = 100)).map fun (_, d) => d.name := by
  unfold unbeatenBy
  refine congrArg (List.map _) (List.filter_congr ?_)
  rintro ⟨id, d⟩ inOrder
  obtain ⟨found, listed⟩ := mem_listedDemons.1 (db.perm_demonsInOrder.mem_iff.1 inOrder)
  refine congrArg not (Bool.eq_iff_iff.2 ?_)
  simp only [List.contains_iff_mem, List.mem_map, List.mem_filter, decide_eq_true_eq, List.any_eq_true,
    Bool.and_eq_true, bestRecords_eq]
  constructor
  · rintro ⟨r, ⟨counted, complete⟩, rfl⟩
    obtain ⟨b, mem', about, le⟩ := (db.bestOf_nationBest code).covers r counted
    have row := standard_of_mem_nationBest mem'
    have most := progress_le_hundred bounded row
    refine ⟨db.recordOf b, ⟨b, (sortOn_perm _ _).mem_iff.2 mem', rfl⟩, ?_, ?_⟩
    · have position := position_of_row row
      rw [about, positionOf, found] at position
      exact position.symm
    · change b.progress = 100
      omega
  · rintro ⟨_, ⟨b, shown, rfl⟩, position, complete⟩
    have mem := (sortOn_perm _ _).mem_iff.1 shown
    obtain ⟨d', p, describes, -⟩ := attempt_of_row (fun _ => true) (standard_of_mem_nationBest mem)
    have placed : db.Placed id d p := ⟨found, listed, position.symm.trans (congrArg some describes.position)⟩
    exact ⟨b, ⟨(db.bestOf_nationBest code).drawn b mem, complete⟩, dense.eq_of_position describes.placed placed⟩

theorem Fresh.total_nation (fresh : db.Fresh) (mem : code ∈ db.nations.keys) : db.nationBoard.total code =
    Grouping.nations.totalIn (Grouping.nations.scored (Curve.standard : Curve ℝ) db.standardRows) code := by
  rw [← freshIn_nation.1 (fresh_iff.1 fresh .nation)]
  exact Board.total_ofTotals mem

theorem Fresh.total_subdivision (fresh : db.Fresh) {region : Region} (mem : region ∈ db.subdivisions.keys) :
    db.subdivisionBoard.total region = Grouping.subdivisions.totalIn
      (Grouping.subdivisions.scored (Curve.standard : Curve ℝ) db.standardRows) region := by
  rw [← freshIn_subdivision.1 (fresh_iff.1 fresh .subdivision)]
  exact Board.total_ofTotals mem

theorem nationStats_of_mem (mem : code ∈ db.nations.keys) : ∃ stats, db.nationStats code = .ok stats ∧
    stats.totals = db.nationBoard.total code ∧ stats.bestRecords = db.bestRecords code ∧
    stats.unbeaten = db.unbeatenBy code := by
  obtain ⟨nation, found⟩ := Option.isSome_iff_exists.1 (Table.contains_iff.2 mem)
  unfold nationStats
  rw [found]
  exact ⟨_, rfl, rfl, rfl, rfl⟩

/-- Every way to a score leads to the same one: what is computed on demand adds up to the stored totals, and so do a
nation's best records, of which there is one for each demon on which a member has made score. -/
theorem drill_downs_agree (fresh : db.Fresh) (dense : db.Dense) (bounded : db.WithinHundred) :
    (∀ code ∈ db.nations.keys,
      db.scoreOfNation true code = (db.nationBoard.total code).score ∧
      db.scoreOfNation true code + db.scoreOfNation false code = (db.nationBoard.total code).unratedScore ∧
      ∃ stats, db.nationStats code = .ok stats ∧ stats.totals = db.nationBoard.total code ∧
        stats.bestRecords.map (fun b => (b.demon, some b.position)) =
          (db.demonsInOrder.filter (db.scoredOn code)).map (fun (_, d) => (d.name, d.position)) ∧
        ((stats.bestRecords.filter (·.rated)).map BestRecord.score).sum = stats.totals.score ∧
        (stats.bestRecords.map BestRecord.score).sum = stats.totals.unratedScore ∧
        stats.unbeaten = (db.demonsInOrder.filter fun (_, d) => !stats.bestRecords.any fun b =>
          decide (some b.position = d.position) && decide (b.progress = 100)).map fun (_, d) => d.name) ∧
    (∀ region ∈ db.subdivisions.keys,
      db.scoreOfSubdivision true region = (db.subdivisionBoard.total region).score ∧
      db.scoreOfSubdivision true region + db.scoreOfSubdivision false region =
        (db.subdivisionBoard.total region).unratedScore) ∧
    db.demonsInOrder.Perm db.listedDemons ∧
      db.demonsInOrder.map (fun e => e.2.position) = densePositions db.listSize := by
  refine ⟨?_, ?_, db.perm_demonsInOrder, dense.positions_demonsInOrder⟩
  · intro code mem
    have total := fresh.total_nation mem
    have drilled := drillDown_eq_totalIn db code Grouping.faithful_nations rfl
    have summed := db.totalIn_eq_sum_bestRecords code
    obtain ⟨stats, read, totals, records, unbeaten⟩ := nationStats_of_mem mem
    refine ⟨?_, ?_, stats, read, totals, ?_, ?_, ?_, ?_⟩
    · rw [total, drilled]
      rfl
    · rw [total, drilled]
      rfl
    · rw [records]
      exact dense.bestRecords_demons code
    · rw [records, totals, total, summed]
    · rw [records, totals, total, summed]
    · rw [unbeaten, records]
      exact dense.unbeatenBy_eq bounded code
  · intro region mem
    have total := fresh.total_subdivision mem
    have drilled := drillDown_eq_totalIn db region Grouping.faithful_subdivisions rfl
    constructor
    · rw [total, drilled]
      rfl
    · rw [total, drilled]
      rfl

/-- The verifier of one demon and a player who came half the way on the other are of the same nation. -/
theorem drill_downs_agree_of_two :
    let first : Demon := ⟨"a", some 1, 50, none, 1, 1, true, ⟨0⟩, none⟩
    let second : Demon := ⟨"b", some 2, 40, none, 9, 9, false, ⟨0⟩, none⟩
    let db : Database ℝ := { (empty : Database ℝ) with
      nations := ⟨[("FR", ⟨"France", none⟩)], List.pairwise_singleton _ _⟩
      players := (Table.empty.append ⟨"p", some "FR", none, false⟩).append ⟨"q", some "FR", none, false⟩
      demons := (Table.empty.append first).append second
      records := Table.empty.append ⟨2, 2, 60, .approved⟩ }
    let after := (db.recomputeAll .absent).state
    after.scoreOfNation true "FR" = (after.nationBoard.total "FR").score ∧
      ∃ stats, after.nationStats "FR" = .ok stats ∧
        stats.bestRecords.map (fun b => (b.demon, some b.position)) = [("a", some 1), ("b", some 2)] ∧
        stats.unbeaten = ["b"] := by
  intro first second db after
  have fresh : after.Fresh := fresh_recomputeAll db
  have tables : SameTables db after := sameTables_recompute .absent db Scope.all
  have bounded : after.WithinHundred := by
    rw [tables]
    decide
  have dense : after.Dense := by
    rw [tables]
    decide
  have known : "FR" ∈ after.nations.keys := by
    rw [tables]
    decide
  obtain ⟨nations, -, -⟩ := drill_downs_agree fresh dense bounded
  obtain ⟨score, -, stats, read, -, records, -⟩ := nations "FR" known
  obtain ⟨stats', read', -, -, unbeaten⟩ := nationStats_of_mem known
  obtain rfl : stats = stats' := Except.ok.inj (read.symm.trans read')
  refine ⟨score, stats, read, ?_, ?_⟩
  · rw [records, tables]
    decide
  · rw [unbeaten, tables]
    decide

end Nation

end Database

end DemonBoard
