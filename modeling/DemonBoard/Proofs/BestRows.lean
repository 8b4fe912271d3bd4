import DemonBoard.Totals

/-! The best row of each group. Sorting brings the rows of a group together with the most progress first, so
the first row of each run is one row per group, and none of its group has more progress. -/

namespace DemonBoard

section Runs

variable {β γ : Type} [DecidableEq γ] {group : β → γ} {current : γ} {xs : List β}

theorem skipGroup_sublist (group : β → γ) (current : γ) (xs : List β) :
    (skipGroup group current xs).Sublist xs := by
  induction xs generalizing current with
  | nil => exact List.Sublist.refl _
  | cons x rest ih =>
    unfold skipGroup
    split
    · exact (ih current).cons x
    · exact (ih (group x)).cons_cons x

theorem firstOfGroups_sublist (group : β → γ) (xs : List β) : (firstOfGroups group xs).Sublist xs := by
  cases xs with
  | nil => exact List.Sublist.refl _
  | cons x rest => exact (skipGroup_sublist group (group x) rest).cons_cons x

theorem exists_mem_skipGroup {R : β → β → Prop} (group : β → γ) (current : γ) (inOrder : xs.Pairwise R)
    {x : β} (mem : x ∈ xs) :
    group x = current ∨ ∃ y ∈ skipGroup group current xs, group y = group x ∧ (y = x ∨ R y x) := by
  induction xs generalizing current with
  | nil => cases mem
  | cons z rest ih =>
    obtain ⟨first, later⟩ := List.pairwise_cons.1 inOrder
    unfold skipGroup
    split
    · rename_i same
      rcases List.mem_cons.1 mem with rfl | mem
      · exact .inl same
      · exact ih current later mem
    · rcases List.mem_cons.1 mem with rfl | mem
      · exact .inr ⟨x, List.mem_cons_self, rfl, .inl rfl⟩
      · rcases ih (group z) later mem with same | ⟨y, kept, same, before⟩
        · exact .inr ⟨z, List.mem_cons_self, same.symm, .inr (first x mem)⟩
        · exact .inr ⟨y, List.mem_cons_of_mem z kept, same, before⟩

theorem exists_mem_firstOfGroups {R : β → β → Prop} (group : β → γ) (inOrder : xs.Pairwise R) {x : β}
    (mem : x ∈ xs) : ∃ y ∈ firstOfGroups group xs, group y = group x ∧ (y = x ∨ R y x) := by
  cases xs with
  | nil => cases mem
  | cons z rest =>
    obtain ⟨first, later⟩ := List.pairwise_cons.1 inOrder
    rcases List.mem_cons.1 mem with rfl | mem
    · exact ⟨x, List.mem_cons_self, rfl, .inl rfl⟩
    · rcases exists_mem_skipGroup group (group z) later mem with same | ⟨y, kept, same, before⟩
      · exact ⟨z, List.mem_cons_self, same.symm, .inr (first x mem)⟩
      · exact ⟨y, List.mem_cons_of_mem z kept, same, before⟩

variable {cmp : γ → γ → Ordering} [Std.LawfulEqCmp cmp]

omit [DecidableEq γ] in
theorem lt_of_isLE_of_ne {a b : γ} (le : (cmp a b).isLE) (ne : b ≠ a) : cmp a b = .lt := by
  cases order : cmp a b with
  | lt => rfl
  | eq => exact absurd (Std.LawfulEqCmp.eq_of_compare order).symm ne
  | gt =>
    rw [order] at le
    cases le

variable [Std.TransCmp cmp]

theorem ascending_skipGroup (above : ∀ x ∈ xs, (cmp current (group x)).isLE)
    (inOrder : xs.Pairwise fun a b => (cmp (group a) (group b)).isLE) :
    (∀ y ∈ skipGroup group current xs, cmp current (group y) = .lt) ∧
      (skipGroup group current xs).Pairwise fun a b => cmp (group a) (group b) = .lt := by
  induction xs generalizing current with
  | nil => exact ⟨nofun, List.Pairwise.nil⟩
  | cons x rest ih =>
    obtain ⟨first, later⟩ := List.pairwise_cons.1 inOrder
    unfold skipGroup
    split
    · exact ih (fun y mem => above y (List.mem_cons_of_mem x mem)) later
    · rename_i other
      have next : cmp current (group x) = .lt := lt_of_isLE_of_ne (above x List.mem_cons_self) other
      obtain ⟨beyond, ascending⟩ := ih first later
      refine ⟨?_, List.pairwise_cons.2 ⟨beyond, ascending⟩⟩
      intro y mem
      rcases List.mem_cons.1 mem with rfl | mem
      · exact next
      · exact Std.TransCmp.lt_trans next (beyond y mem)

theorem ascending_firstOfGroups (inOrder : xs.Pairwise fun a b => (cmp (group a) (group b)).isLE) :
    (firstOfGroups group xs).Pairwise fun a b => cmp (group a) (group b) = .lt := by
  cases xs with
  | nil => exact List.Pairwise.nil
  | cons x rest =>
    obtain ⟨first, later⟩ := List.pairwise_cons.1 inOrder
    exact List.pairwise_cons.2 (ascending_skipGroup first later)

omit [DecidableEq γ] [Std.LawfulEqCmp cmp] in
theorem nodup_of_ascending (ascending : xs.Pairwise fun a b => cmp (group a) (group b) = .lt) :
    (xs.map group).Nodup := by
  rw [List.Nodup, List.pairwise_map]
  refine ascending.imp ?_
  intro a b lt same
  have self : cmp (group b) (group b) = .eq := Std.ReflCmp.compare_self
  rw [same, self] at lt
  cases lt

end Runs

section Best

variable {columns : List Column} {rows : List ScoreRow} {a b r : ScoreRow}

def groupOrder : List Cell × Int → List Cell × Int → Ordering :=
  compareLex (compareOn Prod.fst) (compareOn Prod.snd)

instance : Std.TransCmp groupOrder :=
  inferInstanceAs (Std.TransCmp (compareLex (compareOn Prod.fst) (compareOn Prod.snd)))

instance : Std.LawfulEqCmp groupOrder where
  eq_of_compare {a b} h := by
    obtain ⟨cells, demon⟩ := compareLex_eq_eq.1 h
    exact Prod.ext (Std.LawfulEqOrd.eq_of_compare cells) (Std.LawfulEqOrd.eq_of_compare demon)

theorem groupOrder_of_order (h : (ScoreRow.order columns a b).isLE) :
    (groupOrder (a.group columns) (b.group columns)).isLE := by
  change (Ordering.then (compare (columns.map a.cell) (columns.map b.cell))
    (Ordering.then (compare a.demonId b.demonId) _)).isLE at h
  change (Ordering.then (compare (columns.map a.cell) (columns.map b.cell))
    (compare a.demonId b.demonId)).isLE
  cases cells : compare (columns.map a.cell) (columns.map b.cell) with
  | lt => rfl
  | gt =>
    rw [cells] at h
    exact h
  | eq =>
    cases demon : compare a.demonId b.demonId with
    | gt =>
      rw [cells, demon] at h
      exact h
    | _ => rfl

/-- Better or as good: more progress, or the same and a record that is not later. -/
def AtLeast (a b : ScoreRow) : Prop := b.progress < a.progress ∨ b.progress = a.progress ∧ a.recordId ≤ b.recordId

theorem AtLeast.refl (a : ScoreRow) : AtLeast a a := .inr ⟨rfl, Int.le_refl _⟩

theorem AtLeast.progress_le (h : AtLeast a b) : b.progress ≤ a.progress := by
  rcases h with more | ⟨same, -⟩
  · exact Int.le_of_lt more
  · exact Int.le_of_eq same

theorem atLeast_of_order (h : (ScoreRow.order columns a b).isLE) (same : a.group columns = b.group columns) :
    AtLeast a b := by
  have cells : columns.map a.cell = columns.map b.cell := congrArg Prod.fst same
  have demon : a.demonId = b.demonId := congrArg Prod.snd same
  have sameCells : compare (columns.map b.cell) (columns.map b.cell) = .eq := Std.ReflCmp.compare_self
  have sameDemon : compare b.demonId b.demonId = .eq := Std.ReflCmp.compare_self
  change (Ordering.then (compare (columns.map a.cell) (columns.map b.cell))
    (Ordering.then (compare a.demonId b.demonId)
      (Ordering.then (compare (-a.progress) (-b.progress)) (compare a.recordId b.recordId)))).isLE at h
  rw [cells, demon, sameCells, sameDemon] at h
  cases order : compare (-a.progress) (-b.progress) with
  | lt =>
    have := Int.compare_eq_lt.1 order
    exact .inl (by omega)
  | eq =>
    rw [order] at h
    have := Int.compare_eq_eq.1 order
    exact .inr ⟨by omega, Int.isLE_compare.1 h⟩
  | gt =>
    rw [order] at h
    cases h

theorem mem_of_mem_bestPerDemon (h : b ∈ bestPerDemon columns rows) : b ∈ rows :=
  (sortWith_perm _ rows).mem_iff.1 ((firstOfGroups_sublist _ _).subset h)

theorem ascending_bestPerDemon (columns : List Column) (rows : List ScoreRow) :
    (bestPerDemon columns rows).Pairwise fun a b => groupOrder (a.group columns) (b.group columns) = .lt :=
  ascending_firstOfGroups ((pairwise_sortWith (ScoreRow.order columns) rows).imp groupOrder_of_order)

theorem nodup_bestPerDemon (columns : List Column) (rows : List ScoreRow) :
    ((bestPerDemon columns rows).map (ScoreRow.group columns)).Nodup :=
  nodup_of_ascending (ascending_bestPerDemon columns rows)

theorem exists_atLeast_bestPerDemon (columns : List Column) (mem : r ∈ rows) : ∃ b ∈ bestPerDemon columns rows,
    b.group columns = r.group columns ∧ AtLeast b r := by
  have mem := (sortWith_perm (ScoreRow.order columns) rows).mem_iff.2 mem
  obtain ⟨b, kept, same, before⟩ :=
    exists_mem_firstOfGroups (ScoreRow.group columns) (pairwise_sortWith (ScoreRow.order columns) rows) mem
  refine ⟨b, kept, same, ?_⟩
  rcases before with rfl | before
  · exact .refl b
  · exact atLeast_of_order before same

theorem exists_mem_bestPerDemon (columns : List Column) (mem : r ∈ rows) : ∃ b ∈ bestPerDemon columns rows,
    b.group columns = r.group columns ∧ r.progress ≤ b.progress := by
  obtain ⟨b, kept, same, atLeast⟩ := exists_atLeast_bestPerDemon columns mem
  exact ⟨b, kept, same, atLeast.progress_le⟩

end Best

end DemonBoard
