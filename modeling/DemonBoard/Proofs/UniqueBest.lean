import DemonBoard.Proofs.BestRows
import DemonBoard.Proofs.SelectedRows

/-! The best rows of groups, told apart from how they are found. They are one row of every group, at least as good as
the rest of it, in the order of the groups. Where no two rows of a group are equally good this leaves one choice, so
the order in which the rows come cannot matter. -/

namespace DemonBoard

namespace Cell

theorem compare_null {c : Cell} (known : c ≠ null) : compare c null = .lt := by
  cases c with
  | null => exact absurd rfl known
  | _ => rfl

end Cell

namespace ScoreRow

def merit (columns : List Column) (r : ScoreRow) : (List Cell × Int) × Int × Int :=
  (r.group columns, r.progress, r.recordId)

theorem nodup_merits_of_marks {rows : List ScoreRow} (apart : (rows.map mark).Nodup) (columns : List Column) :
    (rows.map (merit columns)).Nodup := by
  refine List.Nodup.of_map (fun s => (s.1.2, s.2)) ?_
  rw [List.map_map]
  exact apart

end ScoreRow

theorem AtLeast.trans {a b c : ScoreRow} (h : AtLeast a b) (h' : AtLeast b c) : AtLeast a c := by
  rcases h with more | ⟨same, earlier⟩ <;> rcases h' with more' | ⟨same', earlier'⟩
  · exact .inl (Int.lt_trans more' more)
  · exact .inl (same' ▸ more)
  · exact .inl (same ▸ more')
  · exact .inr ⟨same'.trans same, Int.le_trans earlier earlier'⟩

theorem AtLeast.antisymm {a b : ScoreRow} (h : AtLeast a b) (h' : AtLeast b a) :
    a.progress = b.progress ∧ a.recordId = b.recordId := by
  have := h.progress_le
  have := h'.progress_le
  unfold AtLeast at h h'
  omega

/-- The best rows of the groups: one row of each, with the most progress and of those the lowest record id, in the
order of the groups. -/
structure PicksBest (columns : List Column) (rows best : List ScoreRow) : Prop where
  drawn : ∀ b ∈ best, b ∈ rows
  covers : ∀ r ∈ rows, ∃ b ∈ best, b.group columns = r.group columns
  atLeast : ∀ b ∈ best, ∀ r ∈ rows, b.group columns = r.group columns → AtLeast b r
  ascending : best.Pairwise fun a b => groupOrder (a.group columns) (b.group columns) = .lt

theorem picksBest_bestPerDemon (columns : List Column) (rows : List ScoreRow) :
    PicksBest columns rows (bestPerDemon columns rows) where
  drawn _ := mem_of_mem_bestPerDemon
  covers r mem := by
    obtain ⟨b, kept, same, -⟩ := exists_atLeast_bestPerDemon columns mem
    exact ⟨b, kept, same⟩
  atLeast b kept r mem same := by
    obtain ⟨b', kept', same', atLeast⟩ := exists_atLeast_bestPerDemon columns mem
    obtain rfl : b' = b := List.inj_on_of_nodup_map (nodup_bestPerDemon columns rows) kept' kept (same'.trans same.symm)
    exact atLeast
  ascending := ascending_bestPerDemon columns rows

namespace PicksBest

variable {columns : List Column} {rows rows' best best' : List ScoreRow}

theorem nodup (h : PicksBest columns rows best) : (best.map (ScoreRow.group columns)).Nodup :=
  nodup_of_ascending h.ascending

/-- It does not matter in what order the rows come. -/
theorem of_perm (h : PicksBest columns rows best) (perm : rows.Perm rows') : PicksBest columns rows' best where
  drawn b kept := perm.mem_iff.1 (h.drawn b kept)
  covers r mem := h.covers r (perm.mem_iff.2 mem)
  atLeast b kept r mem := h.atLeast b kept r (perm.mem_iff.2 mem)
  ascending := h.ascending

variable (apart : (rows.map (ScoreRow.merit columns)).Nodup)

include apart in
theorem subset (h : PicksBest columns rows best) (h' : PicksBest columns rows best') : best ⊆ best' := by
  intro b kept
  obtain ⟨b', kept', same⟩ := h'.covers b (h.drawn b kept)
  have better := h.atLeast b kept b' (h'.drawn b' kept') same.symm
  have better' := h'.atLeast b' kept' b (h.drawn b kept) same
  obtain ⟨progress, recordId⟩ := better'.antisymm better
  have equal : b'.merit columns = b.merit columns := by
    rw [ScoreRow.merit, ScoreRow.merit, same, progress, recordId]
  rw [← List.inj_on_of_nodup_map apart (h'.drawn b' kept') (h.drawn b kept) equal]
  exact kept'

include apart in
theorem unique (h : PicksBest columns rows best) (h' : PicksBest columns rows best') : best = best' := by
  have perm : best.Perm best' := (List.perm_ext_iff_of_nodup h.nodup.of_map h'.nodup.of_map).2 fun b =>
    ⟨fun mem => h.subset apart h' mem, fun mem => h'.subset apart h mem⟩
  refine List.Perm.eq_of_pairwise ?_ h.ascending h'.ascending perm
  intro a b _ _ lt gt
  have self : groupOrder (a.group columns) (a.group columns) = .eq := Std.ReflCmp.compare_self
  rw [Std.TransCmp.lt_trans lt gt] at self
  cases self

end PicksBest

namespace Database

variable {α : Type} {db : Database α} {columns : List Column} {window : Int}

theorem nodup_merits (positive : ∀ e ∈ db.records.entries, 0 < e.1) (columns : List Column) (window : Int) :
    ((db.scoreGiving window).map (ScoreRow.merit columns)).Nodup :=
  ScoreRow.nodup_merits_of_marks (nodup_marks positive window) columns

theorem eq_verification_of_picksBest (positive : ∀ e ∈ db.records.entries, 0 < e.1) {best : List ScoreRow}
    (picks : PicksBest columns (db.scoreGiving window) best) {b v : ScoreRow} (kept : b ∈ best)
    (mem : v ∈ db.scoreGiving window) (verifies : v.verification) (same : b.group columns = v.group columns)
    (good : b.progress ≤ v.progress) : b = v := by
  have zero := recordId_of_row positive mem
  have other := recordId_of_row positive (picks.drawn b kept)
  rw [if_pos verifies] at zero
  have atLeast := picks.atLeast b kept v mem same
  have progress : b.progress = v.progress := Int.le_antisymm good atLeast.progress_le
  have recordId : b.recordId = v.recordId := by
    have earlier : b.recordId ≤ v.recordId := by
      rcases atLeast with more | ⟨-, earlier⟩
      · omega
      · exact earlier
    split at other
    · omega
    · omega
  apply List.inj_on_of_nodup_map (nodup_merits positive columns window) (picks.drawn b kept) mem
  rw [ScoreRow.merit, ScoreRow.merit, same, progress, recordId]

end Database

/-- One best row per demon and combination of columns: that with the most progress and of those the lowest record id.
Where no two rows of a group are equally good, the order of the rows makes no difference. -/
theorem bestPerDemon_picks_unique_best (columns : List Column) (rows : List ScoreRow) :
    PicksBest columns rows (bestPerDemon columns rows) ∧
    ((bestPerDemon columns rows).map (ScoreRow.group columns)).Nodup ∧
    (∀ c : Cell, c ≠ .null → compare c .null = .lt) ∧
    ((rows.map (ScoreRow.merit columns)).Nodup →
      ∀ rows', rows'.Perm rows → bestPerDemon columns rows' = bestPerDemon columns rows) ∧
    ∀ {α : Type} (db : Database α) (window : Int), (∀ e ∈ db.records.entries, 0 < e.1) →
      ((db.scoreGiving window).map (ScoreRow.merit columns)).Nodup ∧
      ∀ rows', rows'.Perm (db.scoreGiving window) → ∀ v ∈ rows', v.verification → ∀ b ∈ bestPerDemon columns rows',
        b.group columns = v.group columns → b.progress ≤ v.progress → b = v := by
  refine ⟨picksBest_bestPerDemon columns rows, nodup_bestPerDemon columns rows, fun _ => Cell.compare_null, ?_, ?_⟩
  · intro apart rows' perm
    exact ((picksBest_bestPerDemon columns rows').of_perm perm).unique apart (picksBest_bestPerDemon columns rows)
  · intro α db window positive
    refine ⟨Database.nodup_merits positive columns window, ?_⟩
    intro rows' perm v mem verifies b kept same good
    have picks := (picksBest_bestPerDemon columns rows').of_perm perm
    exact Database.eq_verification_of_picksBest positive picks kept (perm.mem_iff.1 mem) verifies same good

/-- A verifier has also handed in a completion, under an earlier id than a compatriot's, and somebody without a nation
has come half the way on one demon and all the way on the other. -/
theorem bestPerDemon_picks_unique_best_of_tie :
    let hard : Demon := ⟨"hard", some 1, 50, none, 1, 1, true, ⟨0⟩, none⟩
    let easy : Demon := ⟨"easy", some 2, 40, none, 2, 2, true, ⟨0⟩, none⟩
    let handedIn : List Record := [⟨1, 1, 100, .approved⟩, ⟨2, 1, 100, .approved⟩, ⟨3, 1, 60, .approved⟩,
      ⟨3, 2, 100, .approved⟩, ⟨3, 2, 100, .approved⟩]
    let people : List Player := [⟨"p", some "FR", none, false⟩, ⟨"q", some "FR", none, false⟩, ⟨"r", none, none, false⟩]
    let db : Database Float := { (Database.empty : Database Float) with
      players := people.foldl Table.append Table.empty
      demons := (Table.empty.append hard).append easy
      records := handedIn.foldl Table.append Table.empty }
    let rows := db.scoreGiving 75
    let best := bestPerDemon [.nationality] rows
    best.map (fun b => (b.nationality, b.demonId, b.progress, b.recordId)) =
      [(some "FR", 1, 100, 0), (some "FR", 2, 100, 0), (none, 1, 60, 3), (none, 2, 100, 4)] ∧
    bestPerDemon [.nationality] rows.reverse = best ∧
    ∀ v ∈ rows.reverse, v.verification → ∀ b ∈ bestPerDemon [.nationality] rows.reverse,
      b.group [.nationality] = v.group [.nationality] → b.progress ≤ v.progress → b = v := by
  intro hard easy handedIn people db rows best
  obtain ⟨-, -, -, anyOrder, ofDatabase⟩ := bestPerDemon_picks_unique_best [.nationality] rows
  obtain ⟨apart, verified⟩ := ofDatabase db 75 (by decide)
  exact ⟨by decide, anyOrder apart _ (List.reverse_perm rows), verified _ (List.reverse_perm rows)⟩

end DemonBoard
