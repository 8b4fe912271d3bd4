import DemonBoard.Proofs.EarnedTotals
import DemonBoard.Proofs.Freshness

/-! Drilling down. A score that is computed on demand selects the rows of one entity, and of one pool, before it
looks for the best ones, where the stored totals select afterwards. Both orders leave one best row per demon of the
same rows, and two such choices add up to the same. -/

namespace DemonBoard

/-- One row per demon of some rows, none of which is better. -/
structure BestOf (best rows : List ScoreRow) : Prop where
  distinct : (best.map ScoreRow.demonId).Nodup
  drawn : ∀ b ∈ best, b ∈ rows
  covers : ∀ r ∈ rows, ∃ b ∈ best, b.demonId = r.demonId ∧ r.progress ≤ b.progress

namespace BestOf

variable {best best' rows : List ScoreRow}

/-- Two choices of best rows differ in rows of the same progress at most. -/
theorem matched (h : BestOf best rows) (h' : BestOf best' rows) {b : ScoreRow} (mem : b ∈ best) :
    ∃ b' ∈ best', b'.demonId = b.demonId ∧ b'.progress = b.progress := by
  obtain ⟨b', mem', about, le⟩ := h'.covers b (h.drawn b mem)
  obtain ⟨c, mem'', about', ge⟩ := h.covers b' (h'.drawn b' mem')
  obtain rfl : c = b := List.inj_on_of_nodup_map h.distinct mem'' mem (about'.trans about)
  exact ⟨b', mem', about, le_antisymm ge le⟩

theorem filter (h : BestOf best rows) {p : ScoreRow → Bool}
    (ofDemon : ∀ r ∈ rows, ∀ r' ∈ rows, r.demonId = r'.demonId → p r = p r') :
    BestOf (best.filter p) (rows.filter p) := by
  refine ⟨h.distinct.sublist (List.filter_sublist.map _), ?_, ?_⟩
  · intro b mem
    obtain ⟨mem, kept⟩ := List.mem_filter.1 mem
    exact List.mem_filter.2 ⟨h.drawn b mem, kept⟩
  · intro r mem
    obtain ⟨mem, kept⟩ := List.mem_filter.1 mem
    obtain ⟨b, mem', about, le⟩ := h.covers r mem
    refine ⟨b, List.mem_filter.2 ⟨mem', ?_⟩, about, le⟩
    rw [ofDemon b (h.drawn b mem') r mem about]
    exact kept

theorem sum_eq (h : BestOf best rows) (h' : BestOf best' rows) {f : ScoreRow → ℝ}
    (ofProgress : ∀ r ∈ rows, ∀ r' ∈ rows, r.demonId = r'.demonId → r.progress = r'.progress → f r = f r') :
    (best.map f).sum = (best'.map f).sum := by
  refine sum_map_eq_of_same_keys h.distinct h'.distinct ?_ ?_
  · intro b mem
    obtain ⟨b', mem', about, progress⟩ := h.matched h' mem
    exact ⟨b', mem', about, ofProgress b' (h'.drawn b' mem') b (h.drawn b mem) about progress⟩
  · intro b' mem'
    obtain ⟨b, mem, about, -⟩ := h'.matched h mem'
    exact ⟨b, mem, about⟩

end BestOf

namespace Grouping

variable {κ : Type} [DecidableEq κ] {g : Grouping κ} {rows : List ScoreRow} {k : κ}

theorem mem_rowsOf {r : ScoreRow} : r ∈ g.rowsOf k rows ↔ r ∈ memberRows g.columns rows ∧ g.key r = some k := by
  simp only [rowsOf, memberRows, List.mem_filter, decide_eq_true_eq]
  constructor
  · exact fun h => ⟨⟨h.1.1, h.2⟩, h.1.2⟩
  · exact fun h => ⟨⟨h.1.1, h.2⟩, h.1.2⟩

omit [DecidableEq κ] in
theorem Faithful.bestOf_bestPerDemon (h : g.Faithful) (same : ∀ r ∈ rows, g.key r = some k) :
    BestOf (bestPerDemon g.columns rows) rows := by
  refine ⟨?_, fun b => mem_of_mem_bestPerDemon, ?_⟩
  · have groups := List.pairwise_map.1 (nodup_bestPerDemon g.columns rows)
    refine List.pairwise_map.2 (groups.imp_of_mem fun {a b} ha hb differ about => differ ?_)
    have key := same a (mem_of_mem_bestPerDemon ha)
    have key' := same b (mem_of_mem_bestPerDemon hb)
    exact Prod.ext (h.cells_eq a b k key key') about
  · intro r mem
    obtain ⟨b, kept, group, le⟩ := exists_mem_bestPerDemon g.columns mem
    exact ⟨b, kept, congrArg Prod.snd group, le⟩

theorem Faithful.bestOf_bestRows (h : g.Faithful) (members : g.membersOnly = true) (rows : List ScoreRow) (k : κ) :
    BestOf (g.bestRows rows k) (g.rowsOf k rows) := by
  have eligible : g.eligible rows = memberRows g.columns rows := if_pos members
  refine ⟨h.nodup_bestRows rows k, ?_, ?_⟩
  · intro b mem
    rw [mem_rowsOf, ← eligible]
    exact eligible_of_mem_bestRows mem
  · intro r mem
    rw [mem_rowsOf, ← eligible] at mem
    exact h.exists_mem_bestRows mem.1 mem.2

theorem drillDown_real (g : Grouping κ) (k : κ) (rated : Bool) (rows : List ScoreRow) :
    g.drillDown (Curve.standard : Curve ℝ) k rated rows =
      ((bestPerDemon g.columns ((g.rowsOf k rows).filter (·.rated == rated))).map ScoreRow.exactScore).sum := by
  unfold drillDown withScores
  rw [Scalar.sum_real, List.map_map]
  rfl

end Grouping

namespace Database

variable {db : Database ℝ} {κ : Type} [DecidableEq κ] {g : Grouping κ} {k : κ}

theorem describes_same {window : Int} {r r' : ScoreRow} (mem : r ∈ db.scoreGiving window)
    (mem' : r' ∈ db.scoreGiving window) (about : r.demonId = r'.demonId) :
    ∃ d p, db.Describes r d p ∧ db.Describes r' d p := by
  obtain ⟨d, p, describes, -⟩ := attempt_of_row (fun _ => true) mem
  obtain ⟨d', p', describes', -⟩ := attempt_of_row (fun _ => true) mem'
  obtain ⟨found, -, at_p⟩ := describes.placed
  have placed' := describes'.placed
  rw [← about] at placed'
  obtain rfl : d = d' := Option.some_inj.1 (found.symm.trans placed'.1)
  obtain rfl : p = p' := Option.some_inj.1 (at_p.symm.trans placed'.2.2)
  exact ⟨d, p, describes, describes'⟩

theorem rated_eq_of_demon {window : Int} {r r' : ScoreRow} (mem : r ∈ db.scoreGiving window)
    (mem' : r' ∈ db.scoreGiving window) (about : r.demonId = r'.demonId) : r.rated = r'.rated := by
  obtain ⟨d, p, describes, describes'⟩ := describes_same mem mem' about
  exact describes.rated.trans describes'.rated.symm

theorem exactScore_eq_of_progress {r r' : ScoreRow} (mem : r ∈ db.standardRows) (mem' : r' ∈ db.standardRows)
    (about : r.demonId = r'.demonId) (progress : r.progress = r'.progress) : r.exactScore = r'.exactScore := by
  obtain ⟨d, p, describes, describes'⟩ := describes_same mem mem' about
  rw [value_of_describes describes, value_of_describes describes', progress]

theorem standard_of_mem_rowsOf {r : ScoreRow} (mem : r ∈ g.rowsOf k db.standardRows) : r ∈ db.standardRows :=
  (List.mem_filter.1 (Grouping.mem_rowsOf.1 mem).1).1

/-- Any choice of best rows of an entity adds up to its total, in either pool. -/
theorem totalIn_eq_sum_of_bestOf (faithful : g.Faithful) (members : g.membersOnly = true) {best : List ScoreRow}
    (choice : BestOf best (g.rowsOf k db.standardRows)) :
    g.totalIn (g.scored (Curve.standard : Curve ℝ) db.standardRows) k =
      ⟨((best.filter (·.rated)).map ScoreRow.exactScore).sum, (best.map ScoreRow.exactScore).sum⟩ := by
  have stored := faithful.bestOf_bestRows members db.standardRows k
  have rated : ∀ r ∈ g.rowsOf k db.standardRows, ∀ r' ∈ g.rowsOf k db.standardRows, r.demonId = r'.demonId →
      r.rated = r'.rated :=
    fun r mem r' mem' => rated_eq_of_demon (standard_of_mem_rowsOf mem) (standard_of_mem_rowsOf mem')
  have scores : ∀ r ∈ g.rowsOf k db.standardRows, ∀ r' ∈ g.rowsOf k db.standardRows, r.demonId = r'.demonId →
      r.progress = r'.progress → r.exactScore = r'.exactScore :=
    fun r mem r' mem' => exactScore_eq_of_progress (standard_of_mem_rowsOf mem) (standard_of_mem_rowsOf mem')
  have among {r : ScoreRow} (mem : r ∈ (g.rowsOf k db.standardRows).filter (·.rated)) :
      r ∈ g.rowsOf k db.standardRows := List.mem_of_mem_filter mem
  rw [Grouping.totalIn_real]
  congr 1
  · refine (stored.filter rated).sum_eq (choice.filter rated) ?_
    exact fun r mem r' mem' => scores r (among mem) r' (among mem')
  · exact stored.sum_eq choice scores

theorem drillDown_eq_totalIn (db : Database ℝ) (k : κ) (faithful : g.Faithful) (members : g.membersOnly = true) :
    let onDemand (rated : Bool) := g.drillDown (Curve.standard : Curve ℝ) k rated db.standardRows
    g.totalIn (g.scored (Curve.standard : Curve ℝ) db.standardRows) k =
      ⟨onDemand true, onDemand true + onDemand false⟩ := by
  intro onDemand
  let rows := g.rowsOf k db.standardRows
  let stored := g.bestRows db.standardRows k
  have pool (rated : Bool) : ((stored.filter (·.rated == rated)).map ScoreRow.exactScore).sum = onDemand rated := by
    have ofDemon : ∀ r ∈ rows, ∀ r' ∈ rows, r.demonId = r'.demonId → (r.rated == rated) = (r'.rated == rated) := by
      intro r mem r' mem' about
      rw [rated_eq_of_demon (standard_of_mem_rowsOf mem) (standard_of_mem_rowsOf mem') about]
    have before : BestOf (stored.filter (·.rated == rated)) (rows.filter (·.rated == rated)) :=
      (faithful.bestOf_bestRows members db.standardRows k).filter ofDemon
    have after : BestOf (bestPerDemon g.columns (rows.filter (·.rated == rated))) (rows.filter (·.rated == rated)) :=
      faithful.bestOf_bestPerDemon fun r mem => (Grouping.mem_rowsOf.1 (List.mem_of_mem_filter mem)).2
    have drilled : onDemand rated = _ := Grouping.drillDown_real g k rated db.standardRows
    rw [drilled]
    refine before.sum_eq after ?_
    intro r mem r' mem'
    exact exactScore_eq_of_progress (standard_of_mem_rowsOf (List.mem_of_mem_filter mem))
      (standard_of_mem_rowsOf (List.mem_of_mem_filter mem'))
  rw [Grouping.totalIn_real, ← pool true, ← pool false]
  congr 1
  · simp [stored]
  · rw [← List.sum_append, ← List.map_append]
    have parts := List.filter_append_perm (fun r : ScoreRow => r.rated == true) stored
    have others : (stored.filter fun r => !(r.rated == true)) = stored.filter (·.rated == false) := by simp
    rw [others] at parts
    exact ((parts.map ScoreRow.exactScore).sum_eq).symm

end Database

end DemonBoard
