import DemonBoard.Proofs.RankTables

/-! The laws of competition ranking. In each pool the indices run from 1 on, nobody comes before someone of a smaller
rank, those who are tied share a rank, and after them as many ranks are skipped as there are of them. -/

namespace DemonBoard

section Laws

variable {κ α : Type} [Ord κ] [DecidableEq α] [Scalar α] {values : List (κ × α)} {e f : κ × α}

def tied (values : List (κ × α)) (e : κ × α) : Nat := values.countP fun g => g.2 = e.2

variable [Scalar.Ordered α]

theorem rank_eq_add (pos : 0 < f.2) (less : f.2 < e.2) : (placeAmong values f).rank =
    (placeAmong values e).rank + values.countP fun g => f.2 < g.2 ∧ ¬ e.2 < g.2 := by
  have above : values.countP (fun g => f.2 < g.2 ∧ e.2 < g.2) = values.countP fun g => e.2 < g.2 := by
    congr 1
    funext g
    rw [decide_eq_decide]
    exact and_iff_right_of_imp (Scalar.Ordered.lt_trans pos less)
  simp only [placeAmong, Nat.add_assoc, ← above]
  rw [List.countP_eq_countP_filter_add values _ fun g => decide (e.2 < g.2)]
  simp only [List.countP_filter, Bool.decide_and, decide_not]

theorem rank_add_tied_le (pos : 0 < f.2) (less : f.2 < e.2) :
    (placeAmong values e).rank + tied values e ≤ (placeAmong values f).rank := by
  rw [rank_eq_add pos less]
  apply Nat.add_le_add_left
  apply List.countP_mono_left
  intro g _ same
  have same : g.2 = e.2 := of_decide_eq_true same
  have pos' : 0 < e.2 := Scalar.Ordered.pos_of_lt pos less
  rw [same, decide_eq_true_eq]
  exact ⟨less, Scalar.Ordered.lt_irrefl pos'⟩

/-- The next smaller value ranks right after those that are tied above it. -/
theorem rank_next_value (pos : 0 < f.2) (less : f.2 < e.2) (next : ∀ g ∈ values, ¬ (f.2 < g.2 ∧ g.2 < e.2)) :
    (placeAmong values f).rank = (placeAmong values e).rank + tied values e := by
  refine Nat.le_antisymm ?_ (rank_add_tied_le pos less)
  rw [rank_eq_add pos less]
  apply Nat.add_le_add_left
  apply List.countP_mono_left
  intro g mem between
  obtain ⟨above, not_above⟩ := of_decide_eq_true between
  have pos' : 0 < g.2 := Scalar.Ordered.pos_of_lt pos above
  have pos'' : 0 < e.2 := Scalar.Ordered.pos_of_lt pos less
  rcases Scalar.Ordered.trichotomy pos' pos'' with less' | same | larger
  · exact absurd ⟨above, less'⟩ (next g mem)
  · exact decide_eq_true same
  · exact absurd larger not_above

theorem rank_eq_iff (mem : e ∈ values) (mem' : f ∈ values) (pos : 0 < e.2) (pos' : 0 < f.2) :
    (placeAmong values e).rank = (placeAmong values f).rank ↔ e.2 = f.2 := by
  have apart {e f : κ × α} (mem : e ∈ values) (pos : 0 < f.2) (less : f.2 < e.2) :
      (placeAmong values e).rank < (placeAmong values f).rank := by
    have some_tied : 0 < tied values e := List.countP_pos_iff.2 ⟨e, mem, decide_eq_true rfl⟩
    have skipped : (placeAmong values e).rank + tied values e ≤ (placeAmong values f).rank :=
      rank_add_tied_le pos less
    omega
  constructor
  · intro same
    rcases Scalar.Ordered.trichotomy pos pos' with less | tie | larger
    · exact absurd same (apart mem' pos less).ne'
    · exact tie
    · exact absurd same (apart mem pos' larger).ne
  · intro tie
    rw [placeAmong, placeAmong, tie]

theorem rank_le_of_index_lt [Std.TransOrd κ] (mem : f ∈ values) (pos : 0 < e.2) (pos' : 0 < f.2)
    (before : (placeAmong values e).index < (placeAmong values f).index) :
    (placeAmong values e).rank ≤ (placeAmong values f).rank := by
  rcases Scalar.Ordered.trichotomy pos pos' with less | tie | larger
  · have behind : (placeAmong values f).index < (placeAmong values e).index := index_lt_of_leads mem (.inl less) pos
    omega
  · rw [placeAmong, placeAmong, tie]
  · have skipped : (placeAmong values e).rank + tied values e ≤ (placeAmong values f).rank :=
      rank_add_tied_le pos' larger
    omega

end Laws

section Ranking

variable {κ α : Type} [Ord κ] [Scalar α] {pool : Pool} {rows : List (κ × Totals α)}

theorem indices_assignPlaces (index : Nat) (before : Option (α × Nat)) (sorted : List (Nat × α)) :
    (assignPlaces index before sorted).map (fun place => place.2.index) = List.range' index sorted.length := by
  induction sorted generalizing index before with
  | nil => rfl
  | cons x rest ih =>
    rw [assignPlaces_cons, List.map_cons, ih, List.length_cons, List.range'_succ]

variable [DecidableEq α] [Scalar.Ordered α] [Std.TransOrd κ] [Std.LawfulEqOrd κ]

theorem indices_placesIn (distinct : (rows.map Prod.fst).Nodup) :
    ((placesIn pool (competitionRanks rows)).map fun e => e.2.index).Perm
      (List.range' 1 (placesIn pool (competitionRanks rows)).length) := by
  let values := poolValues pool rows
  let sorted := sortBy (fun a b => ranksBefore a.2 b.2) (numbered pool rows)
  have places : placesIn pool (competitionRanks rows) = _ := placesIn_competitionRanks distinct
  have perm : (sorted.map Prod.snd).Perm (values.filter fun e => decide (0 < e.2)) := by
    rw [← values_numbered]
    exact (sortBy_perm _ _).map _
  -- the walk numbers the sorted values, and each of them has the place that is due to it
  have walked : (sorted.map Prod.snd).map (fun e => (placeAmong values e).index) = List.range' 1 sorted.length := by
    have numbers : (placements pool rows).map (fun place => place.2.index) = _ := indices_assignPlaces 1 none _
    rw [placements_eq distinct, List.map_map, List.length_map] at numbers
    rw [List.map_map]
    exact numbers
  rw [places, List.map_map, List.length_map, ← perm.length_eq, List.length_map, ← walked]
  exact (perm.map _).symm

theorem compare_regions {r s : Region} :
    compare r s = .lt ↔ r.nation < s.nation ∨ r.nation = s.nation ∧ r.code < s.code := by
  change (compare r.nation s.nation).then (compare r.code s.code) = .lt ↔ _
  rw [Ordering.then_eq_lt, compare_lt_iff_lt, compare_eq_iff_eq, compare_lt_iff_lt]

/-- Competition ranking, for single and composite keys alike: each row with a positive total gets the place that
counting gives it, in the order of the rows. Ties share a rank, and what follows ranks behind all of them. -/
theorem competitionRanks_by_counting (distinct : (rows.map Prod.fst).Nodup) :
    competitionRanks rows = (rows.filter fun e => 0 < e.2.score ∨ 0 < e.2.unratedScore).map
      (fun e => (e.1, dueStanding rows e)) ∧
    (∀ pool,
      let values := poolValues pool rows
      let places := placesIn pool (competitionRanks rows)
      (places.map fun e => e.2.index).Perm (List.range' 1 places.length) ∧
      (∀ e ∈ places, ∀ f ∈ places, e.2.index < f.2.index → e.2.rank ≤ f.2.rank) ∧
      ∀ e ∈ values, ∀ f ∈ values, 0 < e.2 → 0 < f.2 →
        ((placeAmong values e).rank = (placeAmong values f).rank ↔ e.2 = f.2) ∧
        (f.2 < e.2 → (∀ g ∈ values, ¬ (f.2 < g.2 ∧ g.2 < e.2)) →
          (placeAmong values f).rank = (placeAmong values e).rank + tied values e)) ∧
    ∀ r s : Region, compare r s = .lt ↔ r.nation < s.nation ∨ r.nation = s.nation ∧ r.code < s.code := by
  refine ⟨?_, ?_, fun _ _ => compare_regions⟩
  · rw [competitionRanks_eq distinct, List.filter_map]
    congr 1
    apply List.filter_congr
    intro e _
    rw [Function.comp_apply, Bool.eq_iff_iff, decide_eq_true_eq]
    constructor
    · intro ranked
      obtain ⟨pool, pos⟩ := pos_of_isRanked ranked
      cases pool with
      | rated => exact .inl pos
      | unrated => exact .inr pos
    · rintro (pos | pos)
      · have rated : 0 < e.2.inPool .rated := pos
        exact isRanked_dueStanding rated
      · have unrated : 0 < e.2.inPool .unrated := pos
        exact isRanked_dueStanding unrated
  · intro pool values places
    refine ⟨indices_placesIn distinct, ?_, ?_⟩
    · intro e mem f mem' before
      have place {e : κ × Placement} (mem : e ∈ places) :
          ∃ c ∈ values, 0 < c.2 ∧ e.2 = placeAmong values c := by
        have due : places = _ := placesIn_competitionRanks distinct
        rw [due] at mem
        obtain ⟨c, kept, rfl⟩ := List.mem_map.1 mem
        obtain ⟨listed, pos⟩ := List.mem_filter.1 kept
        exact ⟨c, listed, of_decide_eq_true pos, rfl⟩
      obtain ⟨c, -, pos, same⟩ := place mem
      obtain ⟨d, listed, pos', same'⟩ := place mem'
      rw [same, same'] at before ⊢
      exact rank_le_of_index_lt listed pos pos' before
    · intro e mem f mem' pos pos'
      exact ⟨rank_eq_iff mem mem' pos pos', rank_next_value pos'⟩

end Ranking

/-- Two regions are tied below a third and ahead of a fourth, and two of them are in one nation; one region counts in
the unrated pool only, and one nowhere. -/
theorem competitionRanks_by_counting_of_regions :
    let rows : List (Region × Totals Float) :=
      [(⟨"b", "1"⟩, ⟨2, 5⟩), (⟨"a", "2"⟩, ⟨2, 2⟩), (⟨"a", "1"⟩, ⟨-1, 0⟩), (⟨"a", "3"⟩, ⟨0, 5⟩), (⟨"c", "1"⟩, ⟨3, 5⟩),
       (⟨"b", "2"⟩, ⟨1, 1⟩)]
    competitionRanks rows = [(⟨"b", "1"⟩, ⟨some ⟨2, 3⟩, some ⟨1, 2⟩⟩), (⟨"a", "2"⟩, ⟨some ⟨2, 2⟩, some ⟨4, 4⟩⟩),
      (⟨"a", "3"⟩, ⟨none, some ⟨1, 1⟩⟩), (⟨"c", "1"⟩, ⟨some ⟨1, 1⟩, some ⟨1, 3⟩⟩),
      (⟨"b", "2"⟩, ⟨some ⟨4, 4⟩, some ⟨5, 5⟩⟩)] ∧
    ((placesIn .rated (competitionRanks rows)).map fun e => e.2.index).Perm (List.range' 1 4) ∧
    (placeAmong (poolValues .unrated rows) (⟨"a", "2"⟩, 2)).rank =
      (placeAmong (poolValues .unrated rows) (⟨"b", "1"⟩, 5)).rank + 3 := by
  intro rows
  have distinct : (rows.map Prod.fst).Nodup := by decide
  obtain ⟨whole, laws, -⟩ := competitionRanks_by_counting distinct
  refine ⟨?_, ?_, ?_⟩
  · rw [whole]
    decide +kernel
  · have four : (placesIn .rated (competitionRanks rows)).length = 4 := by decide +kernel
    rw [← four]
    exact (laws .rated).1
  · have mem : (⟨"b", "1"⟩, 5) ∈ poolValues .unrated rows := .head _
    have mem' : (⟨"a", "2"⟩, 2) ∈ poolValues .unrated rows := .tail _ (.head _)
    obtain ⟨-, next⟩ := (laws .unrated).2.2 _ mem _ mem' (by decide +kernel) (by decide +kernel)
    have three : tied (poolValues .unrated rows) (⟨"b", "1"⟩, 5) = 3 := by decide +kernel
    rw [next (by decide +kernel) (by decide +kernel), three]

end DemonBoard
