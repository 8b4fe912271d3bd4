import DemonBoard.Proofs.TimeTravel

/-! What any log tells of a field, also one that no edits have made: its entries may concern demons that do not
exist, may come in any order, and several of them may have one time. What an entry holds for a field counts if no
entry before it, by time and then by id, holds anything for the same field of the same demon. -/

namespace DemonBoard.History

variable {entries entries' : Entries} {e e' : Int × Modification} {id : Int} {d : Demon} {f : Field}
  {v w : Option f.Value}

/-- One entry comes before another: its time is earlier, or it has the same time and a smaller id. -/
def Precedes (e e' : Int × Modification) : Prop :=
  e.2.time < e'.2.time ∨ e.2.time = e'.2.time ∧ e.1 < e'.1

/-- What a field of a demon held before the entries: the value in the first of the demon's entries that hold one for
the field, or the demon's own value if none does. -/
inductive Held (entries : Entries) (id : Int) (d : Demon) (f : Field) : Option f.Value → Prop where
  | logged {e : Int × Modification} {value : f.Value} (mem : e ∈ entries) (about : e.2.demonId = id)
      (told : e.2.previous f = some value)
      (first : ∀ e' ∈ entries, e'.2.demonId = id → (e'.2.previous f).isSome → e' = e ∨ Precedes e e') :
      Held entries id d f (some value)
  | kept (untold : ∀ e ∈ entries, e.2.demonId = id → e.2.previous f = none) : Held entries id d f (d.get f)

theorem Precedes.asymm (h : Precedes e e') : ¬ Precedes e' e := by
  unfold Precedes at *
  rw [Moment.lt_def] at *
  rintro (lt | ⟨same, lt⟩)
  · rcases h with lt' | ⟨same, -⟩
    · omega
    · rw [same] at lt
      omega
  · rcases h with lt' | ⟨-, lt'⟩
    · rw [same] at lt'
      omega
    · omega

theorem Held.unique (h : Held entries id d f v) (h' : Held entries id d f w) : v = w := by
  cases h with
  | @logged e value mem about told first =>
    cases h' with
    | @logged e' value' mem' about' told' first' =>
      have ahead := first e' mem' about' (by rw [told']; rfl)
      have ahead' := first' e mem about (by rw [told]; rfl)
      have same : e = e' := by
        by_contra ne
        exact (ahead.resolve_left (Ne.symm ne)).asymm (ahead'.resolve_left ne)
      rw [← told, ← told', same]
    | kept untold =>
      rw [untold e mem about] at told
      cases told
  | kept untold =>
    cases h' with
    | @logged e' value' mem' about' told' first' =>
      rw [untold e' mem' about'] at told'
      cases told'
    | kept => rfl

abbrev entryOrder : Int × Modification → Int × Modification → Ordering :=
  compareLex (compareOn fun e => e.2.time) (compareOn Prod.fst)

theorem precedes_of_entryOrder (apart : e.1 ≠ e'.1) (h : (entryOrder e e').isLE) : Precedes e e' := by
  change (Ordering.then (compare e.2.time.micros e'.2.time.micros) (compare e.1 e'.1)).isLE at h
  cases inTime : compare e.2.time.micros e'.2.time.micros with
  | lt => exact .inl (Int.compare_eq_lt.1 inTime)
  | eq =>
    rw [inTime] at h
    have same : e.2.time = e'.2.time := congrArg Moment.mk (Int.compare_eq_eq.1 inTime)
    exact .inr ⟨same, Int.lt_iff_le_and_ne.2 ⟨Int.isLE_compare.1 h, apart⟩⟩
  | gt =>
    rw [inTime] at h
    cases h

def told? (id : Int) (f : Field) (e : Int × Modification) : Option f.Value :=
  if e.2.demonId = id then e.2.previous f else none

theorem told?_eq_some_iff {value : f.Value} :
    told? id f e = some value ↔ e.2.demonId = id ∧ e.2.previous f = some value := by
  rw [told?, Option.ite_none_right_eq_some]

theorem told?_eq_none_iff : told? id f e = none ↔ (e.2.demonId = id → e.2.previous f = none) := by
  rw [told?, ite_eq_right_iff]

theorem firstValue_eq_findSome? (ordered : Entries) (id : Int) (f : Field) :
    firstValue ordered id f = ordered.findSome? (told? id f) := rfl

section Distinct

variable (distinct : (entries.map Prod.fst).Nodup)
include distinct

theorem pairwise_precedes_inOrder : (inOrder entries).Pairwise Precedes := by
  have apart : ((inOrder entries).map Prod.fst).Nodup := ((sortWith_perm _ _).map _).nodup_iff.2 distinct
  refine ((pairwise_sortWith entryOrder entries).and (List.pairwise_map.1 apart)).imp ?_
  rintro e e' ⟨le, ne⟩
  exact precedes_of_entryOrder ne le

theorem inOrder_eq_of_perm (h : entries.Perm entries') : inOrder entries = inOrder entries' := by
  have distinct' : (entries'.map Prod.fst).Nodup := (h.map _).nodup_iff.1 distinct
  refine List.Perm.eq_of_pairwise (fun _ _ _ _ before after => absurd after before.asymm)
    (pairwise_precedes_inOrder distinct) (pairwise_precedes_inOrder distinct') ?_
  exact (sortWith_perm _ _).trans (h.trans (sortWith_perm _ _).symm)

/-- The first value in the sorted entries is the one of the first entry that holds any. -/
theorem held_valueBefore (id : Int) (d : Demon) (f : Field) :
    Held entries id d f (valueBefore (inOrder entries) id d f) := by
  have mem_iff {e : Int × Modification} : e ∈ inOrder entries ↔ e ∈ entries := (sortWith_perm _ _).mem_iff
  rw [valueBefore, firstValue_eq_findSome?]
  cases found : (inOrder entries).findSome? (told? id f) with
  | none =>
    exact .kept fun e mem => told?_eq_none_iff.1 (List.findSome?_eq_none_iff.1 found e (mem_iff.2 mem))
  | some value =>
    obtain ⟨before, e, after, split, told, nothing⟩ := List.findSome?_eq_some_iff.1 found
    obtain ⟨about, told⟩ := told?_eq_some_iff.1 told
    have sorted := pairwise_precedes_inOrder distinct
    rw [split, List.pairwise_append, List.pairwise_cons] at sorted
    obtain ⟨-, ⟨least, -⟩, -⟩ := sorted
    refine .logged (mem_iff.1 (by rw [split]; simp)) about told ?_
    intro e' mem' about' holds
    rw [← mem_iff, split, List.mem_append, List.mem_cons] at mem'
    rcases mem' with early | rfl | late
    · rw [told?_eq_none_iff.1 (nothing e' early) about'] at holds
      cases holds
    · exact .inl rfl
    · exact .inr (least e' late)

theorem held_iff : Held entries id d f v ↔ valueBefore (inOrder entries) id d f = v := by
  constructor
  · exact (held_valueBefore distinct id d f).unique
  · rintro rfl
    exact held_valueBefore distinct id d f

end Distinct

end DemonBoard.History
