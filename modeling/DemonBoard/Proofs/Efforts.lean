import DemonBoard.Proofs.LevelBounds

/-! Efforts. What an entity has is told by its efforts: on each listed demon the best progress, among what gives score,
that anybody who counts for it has come to. Which records an effort comes from and in what order they are kept makes no
difference to the total, not even to its rounding, since the efforts are always added up in the order of the demons. -/

namespace DemonBoard

theorem eq_of_ascending {β : Type} {key : β → Int} {xs ys : List β} (ascending : xs.Pairwise fun a b => key a < key b)
    (ascending' : ys.Pairwise fun a b => key a < key b) (part : ∀ y ∈ ys, y ∈ xs)
    (keys : ∀ x ∈ xs, ∃ y ∈ ys, key y = key x) : xs = ys := by
  have distinct {zs : List β} (h : zs.Pairwise fun a b => key a < key b) : (zs.map key).Nodup :=
    List.pairwise_map.2 (h.imp fun lt => Int.ne_of_lt lt)
  have members : xs.Perm ys := by
    refine (List.perm_ext_iff_of_nodup (distinct ascending).of_map (distinct ascending').of_map).2 ?_
    refine fun x => ⟨?_, part x⟩
    intro mem
    obtain ⟨y, mem', same⟩ := keys x mem
    rwa [← List.inj_on_of_nodup_map (distinct ascending) (part y mem') mem same]
  exact eq_of_perm_of_ascending members (ascending.imp Int.le_of_lt) ascending'

/-- The best that the players of an entity have come to on a demon, and what else its score depends on. -/
structure Effort where
  demonId : Int
  progress : Int
  position : Int
  requirement : Int
  rated : Bool
  deriving DecidableEq

namespace Effort

variable {α : Type} [Scalar α]

def score (e : Effort) : α :=
  (Curve.standard : Curve α).recordScore e.progress e.position (scoredWindow : α) e.requirement

def countsIn (pool : Pool) (e : Effort) : Bool :=
  match pool with
  | .rated => e.rated
  | .unrated => true

end Effort

/-- What efforts add up to in both pools. -/
def tally {α : Type} [Scalar α] (efforts : List Effort) : Totals α where
  score := Scalar.orZero (Scalar.sum ((efforts.filter (·.rated)).map Effort.score))
  unratedScore := Scalar.orZero (Scalar.sum (efforts.map Effort.score))

def Demon.gives (d : Demon) (progress : Int) : Bool := d.position.any fun p => givesScore scoredWindow p progress

def ScoreRow.effort (r : ScoreRow) : Effort := ⟨r.demonId, r.progress, r.position, r.requirement, r.rated⟩

namespace Database

variable {α : Type} {db db' : Database α} {counts counts' : Int → Bool} {id : Int} {d : Demon} {progress : Int}

/-- The best score-giving progress on a demon of those who count, a verification being a completion. -/
def bestProgress (db : Database α) (counts : Int → Bool) (id : Int) (d : Demon) : Option Int :=
  ((db.attempts counts id d).filter d.gives).max?

def efforts (db : Database α) (counts : Int → Bool) : List Effort :=
  db.listedDemons.filterMap fun (id, d) => d.position.bind fun p =>
    (db.bestProgress counts id d).map fun progress => ⟨id, progress, p, d.requirement, d.rated⟩

theorem bestProgress_eq_some_iff : db.bestProgress counts id d = some progress ↔
    (progress ∈ db.attempts counts id d ∧ d.gives progress) ∧
      ∀ other ∈ db.attempts counts id d, d.gives other → other ≤ progress := by
  rw [bestProgress, List.max?_eq_some_iff]
  simp only [List.mem_filter, and_imp]

theorem exists_bestProgress (attempt : progress ∈ db.attempts counts id d) (counted : d.gives progress) :
    ∃ best, db.bestProgress counts id d = some best ∧ progress ≤ best := by
  have mem : progress ∈ (db.attempts counts id d).filter d.gives := List.mem_filter.2 ⟨attempt, counted⟩
  cases best : db.bestProgress counts id d with
  | none =>
    rw [List.max?_eq_none_iff.1 best] at mem
    cases mem
  | some progress' => exact ⟨progress', rfl, (bestProgress_eq_some_iff.1 best).2 progress attempt counted⟩

theorem attempts_mono (more : ∀ playerId, counts playerId → counts' playerId) :
    db.attempts counts id d ⊆ db.attempts counts' id d := by
  intro progress attempt
  rcases mem_attempts.1 attempt with ⟨recordId, record, found, approved, about, counted, rfl⟩ | ⟨counted, rfl⟩
  · exact mem_attempts.2 (.inl ⟨recordId, record, found, approved, about, more _ counted, rfl⟩)
  · exact mem_attempts.2 (.inr ⟨more _ counted, rfl⟩)

theorem bestProgress_congr
    (same : ∀ progress, progress ∈ db'.attempts counts' id d ↔ progress ∈ db.attempts counts id d) :
    db'.bestProgress counts' id d = db.bestProgress counts id d := by
  refine Option.ext fun progress => ?_
  rw [bestProgress_eq_some_iff, bestProgress_eq_some_iff]
  simp only [same]

theorem mem_efforts {e : Effort} : e ∈ db.efforts counts ↔
    ∃ d, db.Placed e.demonId d e.position ∧ db.bestProgress counts e.demonId d = some e.progress ∧
      e.requirement = d.requirement ∧ e.rated = d.rated := by
  simp only [efforts, List.mem_filterMap, Prod.exists, Option.bind_eq_some_iff, Option.map_eq_some_iff,
    mem_listedDemons]
  constructor
  · rintro ⟨id, d, ⟨found, listed⟩, p, at_p, progress, best, rfl⟩
    exact ⟨d, ⟨found, listed, at_p⟩, best, rfl, rfl⟩
  · rintro ⟨d, ⟨found, listed, at_p⟩, best, requirement, rated⟩
    exact ⟨e.demonId, d, ⟨found, listed⟩, e.position, at_p, e.progress, best, by rw [← requirement, ← rated]⟩

theorem ascending_efforts (db : Database α) (counts : Int → Bool) :
    (db.efforts counts).Pairwise fun a b => a.demonId < b.demonId := by
  have listed : db.listedDemons.Pairwise fun a b => a.1 < b.1 :=
    ((List.pairwise_map.1 db.demons.ascending).imp Int.compare_eq_lt.1).sublist List.filter_sublist
  rw [efforts, List.pairwise_filterMap]
  refine listed.imp ?_
  rintro ⟨id, d⟩ ⟨id', d'⟩ lt e made e' made'
  simp only [Option.bind_eq_some_iff, Option.map_eq_some_iff] at made made'
  obtain ⟨p, -, progress, -, rfl⟩ := made
  obtain ⟨p', -, progress', -, rfl⟩ := made'
  exact lt

theorem efforts_congr (listed : db'.listedDemons = db.listedDemons)
    (same : ∀ e ∈ db.listedDemons, db'.bestProgress counts' e.1 e.2 = db.bestProgress counts e.1 e.2) :
    db'.efforts counts' = db.efforts counts := by
  unfold efforts
  rw [listed]
  refine List.filterMap_congr ?_
  intro e mem
  dsimp only
  rw [same e mem]

section Rows

variable {κ : Type} [DecidableEq κ] {g : Grouping κ} {k : κ}

/-- What the best rows of an entity stand for are its efforts. -/
theorem effort_of_mem_bestRows (faithful : g.Faithful) (selects : g.Selects db.standardRows k counts) {b : ScoreRow}
    (mem : b ∈ g.bestRows db.standardRows k) : b.effort ∈ db.efforts counts := by
  have row := Grouping.row_of_mem_bestRows mem
  obtain ⟨d, p, describes, attempt⟩ := attempt_of_row counts row
  have counted := (selects b row).1 (Grouping.eligible_of_mem_bestRows mem)
  refine mem_efforts.2 ⟨d, ?_, ?_, describes.requirement, describes.rated⟩
  · rw [show b.effort.position = p from describes.position]
    exact describes.placed
  · have giving : d.gives b.progress := by
      rw [Demon.gives, describes.placed.2.2, ← describes.position]
      exact givesScore_of_row row
    refine bestProgress_eq_some_iff.2 ⟨⟨attempt counted, giving⟩, ?_⟩
    intro other attempt' gives'
    rw [Demon.gives, describes.placed.2.2] at gives'
    obtain ⟨r, row', about, rfl, counted'⟩ := row_of_attempt describes.placed attempt' gives'
    obtain ⟨eligible, key⟩ := (selects r row').2 counted'
    obtain ⟨b', mem', about', le⟩ := faithful.exists_mem_bestRows eligible key
    obtain rfl : b' = b :=
      List.inj_on_of_nodup_map (faithful.nodup_bestRows db.standardRows k) mem' mem (about'.trans about)
    exact le

theorem exists_bestRow_of_effort (faithful : g.Faithful) (selects : g.Selects db.standardRows k counts)
    {e : Effort} (mem : e ∈ db.efforts counts) : ∃ b ∈ g.bestRows db.standardRows k, b.demonId = e.demonId := by
  obtain ⟨d, placed, best, -, -⟩ := mem_efforts.1 mem
  obtain ⟨⟨attempt, giving⟩, -⟩ := bestProgress_eq_some_iff.1 best
  rw [Demon.gives, placed.2.2] at giving
  obtain ⟨r, row, about, -, counted⟩ := row_of_attempt placed attempt giving
  obtain ⟨eligible, key⟩ := (selects r row).2 counted
  obtain ⟨b, mem', about', -⟩ := faithful.exists_mem_bestRows eligible key
  exact ⟨b, mem', about'.trans about⟩

theorem ascending_bestRows (faithful : g.Faithful) (rows : List ScoreRow) :
    (g.bestRows rows k).Pairwise fun a b => a.demonId < b.demonId := by
  have ordered : (g.bestRows rows k).Pairwise fun a b =>
      groupOrder (a.group g.columns) (b.group g.columns) = .lt :=
    (ascending_bestPerDemon g.columns _).sublist List.filter_sublist
  refine ordered.imp_of_mem ?_
  intro a b mem mem' before
  -- rows of one entity agree in the columns, so the demons decide
  have cells := faithful.cells_eq a b k (Grouping.eligible_of_mem_bestRows mem).2
    (Grouping.eligible_of_mem_bestRows mem').2
  have self : compare (g.columns.map b.cell) (g.columns.map b.cell) = .eq := Std.ReflCmp.compare_self
  change (compare (g.columns.map a.cell) (g.columns.map b.cell)).then (compare a.demonId b.demonId) = .lt at before
  rw [cells, self] at before
  exact Int.compare_eq_lt.1 before

theorem efforts_eq_map_bestRows (faithful : g.Faithful) (selects : g.Selects db.standardRows k counts) :
    db.efforts counts = (g.bestRows db.standardRows k).map ScoreRow.effort := by
  refine eq_of_ascending (db.ascending_efforts counts) (List.pairwise_map.2 (ascending_bestRows faithful _)) ?_ ?_
  · intro e mem
    obtain ⟨b, best, rfl⟩ := List.mem_map.1 mem
    exact effort_of_mem_bestRows faithful selects best
  · intro e mem
    obtain ⟨b, mem', about⟩ := exists_bestRow_of_effort faithful selects mem
    exact ⟨b.effort, List.mem_map_of_mem mem', about⟩

/-- A total is what the efforts of those who count add up to, in any arithmetic. -/
theorem totalIn_eq_tally [Scalar α] (faithful : g.Faithful) (selects : g.Selects db.standardRows k counts) :
    g.totalIn (g.scored (Curve.standard : Curve α) db.standardRows) k = tally (db.efforts counts) := by
  rw [efforts_eq_map_bestRows faithful selects]
  unfold Grouping.totalIn Grouping.scored withScores sumPools tally
  simp only [List.filter_map, List.map_map]
  rfl

end Rows

end Database

section Exact

variable {efforts efforts' : List Effort} {pool : Pool}

theorem inPool_tally (efforts : List Effort) (pool : Pool) :
    (tally efforts).inPool pool = ((efforts.filter (·.countsIn pool)).map (Effort.score : Effort → ℝ)).sum := by
  cases pool with
  | rated =>
    change Scalar.orZero (Scalar.sum _) = _
    rw [Scalar.orZero_real, Scalar.sum_real]
    rfl
  | unrated =>
    have all : efforts.filter (·.countsIn .unrated) = efforts := List.filter_eq_self.2 fun _ _ => rfl
    change Scalar.orZero (Scalar.sum _) = _
    rw [Scalar.orZero_real, Scalar.sum_real, all]

theorem inPool_tally_le (distinct : (efforts.map Effort.demonId).Nodup)
    (better : ∀ e ∈ efforts, ∃ best, e.progress ≤ best ∧ { e with progress := best } ∈ efforts') :
    ((tally efforts : Totals ℝ)).inPool pool ≤ (tally efforts').inPool pool := by
  rw [inPool_tally, inPool_tally]
  refine sum_map_le_of_keys (distinct.sublist (List.filter_sublist.map _)) ?_ ?_
  · intro e mem
    obtain ⟨mem, counted⟩ := List.mem_filter.1 mem
    obtain ⟨best, le, mem'⟩ := better e mem
    refine ⟨{ e with progress := best }, List.mem_filter.2 ⟨mem', ?_⟩, rfl, ?_⟩
    · cases pool with
      | rated => exact counted
      | unrated => rfl
    · exact Curve.recordScore_mono (Int.cast_le.2 le)
  · exact fun e _ => Curve.recordScore_nonneg

namespace Database

variable {db db' : Database ℝ} {counts counts' : Int → Bool}

theorem tally_efforts_mono (listed : db'.listedDemons = db.listedDemons)
    (more : ∀ id d, db.attempts counts id d ⊆ db'.attempts counts' id d) :
    (tally (db.efforts counts) : Totals ℝ).inPool pool ≤ (tally (db'.efforts counts')).inPool pool := by
  refine inPool_tally_le (List.pairwise_map.2 ((db.ascending_efforts counts).imp Int.ne_of_lt)) ?_
  intro e mem
  obtain ⟨d, ⟨found, onList, at_p⟩, best, requirement, rated⟩ := mem_efforts.1 mem
  obtain ⟨⟨attempt, giving⟩, -⟩ := bestProgress_eq_some_iff.1 best
  obtain ⟨best', eq, le⟩ := exists_bestProgress (more _ _ attempt) giving
  have placed : (e.demonId, d) ∈ db'.listedDemons := listed ▸ mem_listedDemons.2 ⟨found, onList⟩
  obtain ⟨found', onList'⟩ := mem_listedDemons.1 placed
  exact ⟨best', le, mem_efforts.2 ⟨d, ⟨found', onList', at_p⟩, eq, requirement, rated⟩⟩

end Database

end Exact

end DemonBoard
