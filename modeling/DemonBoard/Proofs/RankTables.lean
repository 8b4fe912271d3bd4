import DemonBoard.Ranking.View
import DemonBoard.Proofs.Standings

/-! What a table of standings says of its entities. Read by their indices, they are those that may be ranked and have
a positive total, from the largest total down and tied ones by their keys, each with its place among all. -/

namespace DemonBoard

section Leaders

variable {κ α : Type} [Ord κ] [Scalar α] {pool : Pool} {rows : List (κ × Totals α)}

def leaders (pool : Pool) (rows : List (κ × Totals α)) : List (κ × α) :=
  sortBy ranksBefore ((poolValues pool rows).filter fun e => decide (0 < e.2))

theorem leaders_perm (pool : Pool) (rows : List (κ × Totals α)) :
    (leaders pool rows).Perm ((poolValues pool rows).filter fun e => decide (0 < e.2)) := sortBy_perm _ _

theorem mem_leaders {e : κ × α} : e ∈ leaders pool rows ↔ e ∈ poolValues pool rows ∧ 0 < e.2 := by
  rw [(leaders_perm pool rows).mem_iff, List.mem_filter, decide_eq_true_eq]

variable [Std.TransOrd κ] [Std.LawfulEqOrd κ] [Scalar.Ordered α]

theorem pairwise_leaders (distinct : (rows.map Prod.fst).Nodup) : (leaders pool rows).Pairwise Leads := by
  have sorted : leaders pool rows =
      (sortBy (fun a b => ranksBefore a.2 b.2) (numbered pool rows)).map Prod.snd := by
    rw [leaders, ← values_numbered]
    exact sortBy_map (fun _ _ => rfl) _
  rw [sorted, List.pairwise_map]
  exact pairwise_leads_sorted distinct

variable [DecidableEq α] {values : List (κ × α)} {e f : κ × α}

omit [Std.LawfulEqOrd κ] in
theorem index_lt_of_leads (mem : e ∈ values) (leads : Leads e f) (pos : 0 < f.2) :
    (placeAmong values e).index < (placeAmong values f).index := by
  obtain ⟨front, rest, rfl⟩ := List.append_of_mem mem
  have more (part : List (κ × α)) : part.countP (fun g => Leads g e) ≤ part.countP fun g => Leads g f := by
    apply List.countP_mono_left
    intro g _ before
    exact decide_eq_true ((of_decide_eq_true before).trans leads pos)
  have self : ¬ Leads e e := not_leads_self (leads.pos pos)
  have before := more front
  have after := more rest
  simp only [placeAmong, List.countP_append, List.countP_cons, self, leads, decide_true, decide_false]
  simp only [Bool.false_eq_true, if_true, if_false]
  omega

end Leaders

namespace Board

variable {κ α ρ : Type} [Ord κ] [DecidableEq κ]

section Places

variable [Std.TransOrd κ] {b : Board κ α} {pool : Pool}

theorem mem_byIndex {k : κ} {place : Placement} :
    (k, place) ∈ b.byIndex pool ↔ ∃ s, b.ranks.find? k = some s ∧ s.inPool pool = some place := by
  rw [byIndex, (sortOn_perm _ _).mem_iff]
  simp only [List.mem_filterMap, Option.map_eq_some_iff, Prod.exists, Prod.mk.injEq, Table.find?_eq_some_iff]
  constructor
  · rintro ⟨_, s, mem, _, at_place, rfl, rfl⟩
    exact ⟨s, mem, at_place⟩
  · rintro ⟨s, mem, at_place⟩
    exact ⟨k, s, mem, place, at_place, rfl, rfl⟩

theorem rankOf_eq_some_iff {k : κ} {rank : Nat} :
    b.rankOf k pool = some rank ↔ ∃ place, (k, place) ∈ b.byIndex pool ∧ place.rank = rank := by
  simp only [rankOf, Option.bind_eq_some_iff, Option.map_eq_some_iff, mem_byIndex]
  constructor
  · rintro ⟨s, found, place, at_place, same⟩
    exact ⟨place, ⟨s, found, at_place⟩, same⟩
  · rintro ⟨place, ⟨s, found, at_place⟩, same⟩
    exact ⟨s, found, place, at_place, same⟩

end Places

section OfTotals

variable [Std.TransOrd κ] [Scalar α] {entities : Table κ ρ} {mayRank : κ → ρ → Bool} {totals : κ → Totals α}
  {pool : Pool}

omit [Scalar α] in
theorem mem_contenders {e : κ × Totals α} : e ∈ contenders entities mayRank totals ↔
    ∃ row, entities.find? e.1 = some row ∧ mayRank e.1 row ∧ e.2 = totals e.1 := by
  obtain ⟨k, t⟩ := e
  simp only [contenders, Table.entries_mapRows, Table.filter, Table.restrict, List.mem_map, List.mem_filter,
    Prod.exists, Prod.mk.injEq, Table.find?_eq_some_iff]
  constructor
  · rintro ⟨_, row, ⟨mem, may⟩, rfl, rfl⟩
    exact ⟨row, mem, may, rfl⟩
  · rintro ⟨row, mem, may, rfl⟩
    exact ⟨k, row, ⟨mem, may⟩, rfl, rfl⟩

theorem mem_leaders_contenders {e : κ × α} : e ∈ leaders pool (contenders entities mayRank totals) ↔
    (∃ row, entities.find? e.1 = some row ∧ mayRank e.1 row) ∧ e.2 = (totals e.1).inPool pool ∧ 0 < e.2 := by
  obtain ⟨k, value⟩ := e
  rw [mem_leaders, poolValues, List.mem_map]
  constructor
  · rintro ⟨⟨c, mem, same⟩, pos⟩
    obtain ⟨row, found, may, total⟩ := mem_contenders.1 mem
    cases same
    exact ⟨⟨row, found, may⟩, by rw [total], pos⟩
  · rintro ⟨⟨row, found, may⟩, value, pos⟩
    exact ⟨⟨(k, totals k), mem_contenders.2 ⟨row, found, may, rfl⟩, Prod.ext rfl value.symm⟩, pos⟩

theorem total_of_mem_leaders {e : κ × α} (mem : e ∈ leaders pool (contenders entities mayRank totals)) :
    ((ofTotals entities mayRank totals).total e.1).inPool pool = e.2 := by
  obtain ⟨⟨row, found, -⟩, value, -⟩ := mem_leaders_contenders.1 mem
  have known : e.1 ∈ entities.keys := Table.contains_iff.1 (by simp [Table.contains, found])
  rw [total_ofTotals known, value]

variable [Std.LawfulEqOrd κ] [DecidableEq α] [Scalar.Ordered α]

omit [DecidableEq κ] in
/-- By index the leaders stand in order, each with its place among them. -/
theorem byIndex_ofTotals : (ofTotals entities mayRank totals).byIndex pool =
    (leaders pool (contenders entities mayRank totals)).map fun e =>
      (e.1, placeAmong (leaders pool (contenders entities mayRank totals)) e) := by
  let rows := contenders entities mayRank totals
  let values := poolValues pool rows
  have places : ((ofTotals entities mayRank totals).ranks.entries.filterMap fun e =>
      (e.2.inPool pool).map fun place => (e.1, place)) =
        (values.filter fun e => decide (0 < e.2)).map fun e => (e.1, placeAmong values e) :=
    placesIn_competitionRanks (Table.nodup_keys _)
  have among (e : κ × α) (mem : e ∈ leaders pool rows) : placeAmong (leaders pool rows) e = placeAmong values e := by
    rw [placeAmong_perm (leaders_perm pool rows), placeAmong_filter (mem_leaders.1 mem).2]
  apply sortOn_eq_of_perm
  · have standings : (leaders pool rows).map (fun e => (e.1, placeAmong (leaders pool rows) e)) =
        (leaders pool rows).map fun e => (e.1, placeAmong values e) :=
      List.map_congr_left fun e mem => by rw [among e mem]
    rw [standings]
    exact (List.Perm.of_eq places).trans ((leaders_perm pool rows).symm.map _)
  · rw [List.pairwise_map]
    apply (pairwise_leaders (Table.nodup_keys _)).imp_of_mem
    intro e f mem mem' leads
    exact Int.ofNat_lt.2 (index_lt_of_leads mem leads (mem_leaders.1 mem').2)

theorem isSome_rankOf_ofTotals {k : κ} : ((ofTotals entities mayRank totals).rankOf k pool).isSome ↔
    ∃ row, entities.find? k = some row ∧ mayRank k row ∧ 0 < (totals k).inPool pool := by
  simp only [Option.isSome_iff_exists, rankOf_eq_some_iff, byIndex_ofTotals, List.mem_map, Prod.mk.injEq]
  constructor
  · rintro ⟨_, place, ⟨e, mem, rfl, rfl⟩, rfl⟩
    obtain ⟨⟨row, found, may⟩, value, pos⟩ := mem_leaders_contenders.1 mem
    exact ⟨row, found, may, value ▸ pos⟩
  · rintro ⟨row, found, may, pos⟩
    have mem : (k, (totals k).inPool pool) ∈ leaders pool (contenders entities mayRank totals) :=
      mem_leaders_contenders.2 ⟨⟨row, found, may⟩, rfl, pos⟩
    exact ⟨_, _, ⟨_, mem, rfl, rfl⟩, rfl⟩

/-- A rank counts those that may be ranked and have more. -/
theorem rankOf_ofTotals {k : κ} : (ofTotals entities mayRank totals).rankOf k pool =
    if (entities.find? k).any (mayRank k) ∧ 0 < (totals k).inPool pool then
      some (1 + (contenders entities mayRank totals).countP fun c => (totals k).inPool pool < c.2.inPool pool)
    else none := by
  have ranked_iff : ((ofTotals entities mayRank totals).rankOf k pool).isSome ↔
      (entities.find? k).any (mayRank k) ∧ 0 < (totals k).inPool pool := by
    rw [isSome_rankOf_ofTotals, Option.any_eq_true]
    constructor
    · rintro ⟨row, found, may, pos⟩
      exact ⟨⟨row, found, may⟩, pos⟩
    · rintro ⟨⟨row, found, may⟩, pos⟩
      exact ⟨row, found, may, pos⟩
  cases at_rank : (ofTotals entities mayRank totals).rankOf k pool with
  | none => rw [if_neg (mt ranked_iff.2 (by rw [at_rank]; exact Bool.false_ne_true))]
  | some rank =>
    rw [if_pos (ranked_iff.1 (by rw [at_rank]; rfl))]
    obtain ⟨place, mem, rfl⟩ := rankOf_eq_some_iff.1 at_rank
    rw [byIndex_ofTotals] at mem
    obtain ⟨e, leads, same⟩ := List.mem_map.1 mem
    obtain ⟨-, value, pos⟩ := mem_leaders_contenders.1 leads
    cases same
    rw [placeAmong_perm (leaders_perm _ _), placeAmong_filter pos, ← value]
    simp only [placeAmong, poolValues, List.countP_map, Function.comp_def]

theorem exists_rankOf_ofTotals {k : κ} {s : Standing}
    (found : (ofTotals entities mayRank totals).ranks.find? k = some s) :
    ∃ pool, ((ofTotals entities mayRank totals).rankOf k pool).isSome := by
  have entry := Table.mem_of_find? found
  rw [entries_ofTotals, List.mem_filter] at entry
  have ranked (pool : Pool) (place : (s.inPool pool).isSome) :
      ((ofTotals entities mayRank totals).rankOf k pool).isSome := by
    rw [rankOf, found]
    simpa using place
  rcases Bool.or_eq_true_iff.1 entry.2 with rated | unrated
  · exact ⟨.rated, ranked .rated rated⟩
  · exact ⟨.unrated, ranked .unrated unrated⟩

end OfTotals

end Board

end DemonBoard
