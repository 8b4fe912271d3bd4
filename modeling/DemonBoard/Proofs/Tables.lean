import DemonBoard.Table
import Mathlib.Data.List.Nodup

/-! Looking up rows. A key names at most one row, so a table is a partial function of its keys, and what
an operation does to a table is said by what it does to that function. -/

namespace DemonBoard.Table

variable {κ ρ σ : Type} [Ord κ]

theorem nodup_keys [Std.TransOrd κ] (t : Table κ ρ) : t.keys.Nodup := by
  refine t.ascending.imp ?_
  rintro a b lt rfl
  have self : compare a a = .eq := Std.ReflCmp.compare_self
  rw [self] at lt
  cases lt

theorem eq_of_mem [Std.TransOrd κ] {t : Table κ ρ} {k : κ} {row row' : ρ}
    (h : (k, row) ∈ t.entries) (h' : (k, row') ∈ t.entries) : row = row' := by
  exact congrArg Prod.snd (List.inj_on_of_nodup_map t.nodup_keys h h' rfl)

variable [DecidableEq κ]

theorem mem_of_find? {t : Table κ ρ} {k : κ} {row : ρ} (h : t.find? k = some row) :
    (k, row) ∈ t.entries := by
  unfold find? at h
  obtain ⟨e, found, rfl⟩ := Option.map_eq_some_iff.1 h
  have key : e.1 = k := by simpa using List.find?_some found
  subst key
  exact List.mem_of_find?_eq_some found

theorem find?_eq_some_iff [Std.TransOrd κ] {t : Table κ ρ} {k : κ} {row : ρ} :
    t.find? k = some row ↔ (k, row) ∈ t.entries := by
  refine ⟨mem_of_find?, ?_⟩
  intro h
  cases found : t.find? k with
  | none => simp [find?, List.find?_eq_none] at found; exact absurd rfl (found k row h)
  | some row' => rw [eq_of_mem (mem_of_find? found) h]

omit [Ord κ] in
theorem filter_eq_toList_find? {β : Type} {key : β → κ} {xs : List β} (distinct : (xs.map key).Nodup) (k : κ) :
    xs.filter (fun x => key x = k) = (xs.find? fun x => key x = k).toList := by
  induction xs with
  | nil => rfl
  | cons x rest ih =>
    obtain ⟨new, others⟩ := List.nodup_cons.1 distinct
    by_cases here : key x = k
    · subst here
      have none_left : rest.filter (fun y => key y = key x) = [] := by
        rw [List.filter_eq_nil_iff]
        intro y mem same
        exact new (List.mem_map.2 ⟨y, mem, of_decide_eq_true same⟩)
      simp [none_left]
    · simpa [here] using ih others

theorem filter_key [Std.TransOrd κ] (t : Table κ ρ) (k : κ) :
    t.entries.filter (fun e => e.1 = k) = ((t.find? k).map fun row => (k, row)).toList := by
  rw [filter_eq_toList_find? t.nodup_keys]
  unfold find?
  cases found : t.entries.find? fun e => e.1 = k with
  | none => rfl
  | some e =>
    have key : e.1 = k := by simpa using List.find?_some found
    subst key
    rfl

theorem ext_find? [Std.TransOrd κ] {t t' : Table κ ρ} (same : ∀ k, t'.find? k = t.find? k) : t' = t := by
  have members : t'.entries.Perm t.entries := by
    refine (List.perm_ext_iff_of_nodup t'.nodup_keys.of_map t.nodup_keys.of_map).2 ?_
    rintro ⟨k, row⟩
    rw [← find?_eq_some_iff, ← find?_eq_some_iff, same]
  refine Table.ext (members.eq_of_pairwise (fun a b _ _ before behind => ?_) (List.pairwise_map.1 t'.ascending)
    (List.pairwise_map.1 t.ascending))
  rw [Std.OrientedCmp.gt_iff_lt.2 before] at behind
  cases behind

theorem find?_eq_none_iff {t : Table κ ρ} {k : κ} : t.find? k = none ↔ k ∉ t.keys := by
  rw [← contains_iff, contains, Option.isSome_iff_ne_none, ne_eq, not_not]

theorem find?_mapRows (t : Table κ ρ) (f : κ → ρ → σ) (k : κ) :
    (t.mapRows f).find? k = (t.find? k).map (f k) := by
  unfold find?
  rw [entries_mapRows, List.find?_map]
  simp only [Function.comp_def]
  cases found : t.entries.find? fun e => e.1 = k with
  | none => rfl
  | some e =>
    have key : e.1 = k := by simpa using List.find?_some found
    subst key
    rfl

theorem find?_modify (t : Table κ ρ) (k k' : κ) (f : ρ → ρ) :
    (t.modify k f).find? k' = if k' = k then (t.find? k').map f else t.find? k' := by
  rw [modify, find?_mapRows]
  split <;> simp_all

theorem find?_modify_of_found {t : Table κ ρ} {k : κ} {row : ρ} (found : t.find? k = some row) (row' : ρ) (k' : κ) :
    (t.modify k fun _ => row').find? k' = if k' = k then some row' else t.find? k' := by
  rw [find?_modify]
  split
  · rename_i same
    rw [same, found]
    rfl
  · rfl

theorem perm_insert? [Std.TransOrd κ] [Std.LawfulEqOrd κ] {t t' : Table κ ρ} {k : κ} {row : ρ}
    (h : t.insert? k row = some t') : t'.entries.Perm ((k, row) :: t.entries) := by
  have placed (rows : List (κ × ρ)) : (place k row rows).Perm ((k, row) :: rows) := by
    induction rows with
    | nil => exact .refl _
    | cons e rest ih =>
      unfold place
      split
      · exact .refl _
      · exact (ih.cons e).trans (.swap ..)
  unfold insert? at h
  split at h
  · cases h
  · cases h
    exact placed t.entries

theorem find?_of_insert? [Std.TransOrd κ] [Std.LawfulEqOrd κ] {t t' : Table κ ρ} {k : κ} {row : ρ}
    (h : t.insert? k row = some t') : t.find? k = none := by
  unfold insert? at h
  split at h
  · cases h
  · exact find?_eq_none_iff.2 ‹_›

theorem find?_insert? [Std.TransOrd κ] [Std.LawfulEqOrd κ] {t t' : Table κ ρ} {k : κ} {row : ρ}
    (h : t.insert? k row = some t') (k' : κ) : t'.find? k' = if k' = k then some row else t.find? k' := by
  have perm := perm_insert? h
  split
  · rename_i same
    rw [find?_eq_some_iff, perm.mem_iff, same]
    exact List.mem_cons_self
  · rename_i other
    refine Option.ext fun row' => ?_
    rw [find?_eq_some_iff, find?_eq_some_iff, perm.mem_iff, List.mem_cons]
    exact or_iff_right fun same => other (congrArg Prod.fst same)

omit [Ord κ] [DecidableEq κ] in
theorem find?_nextKey (t : Table Int ρ) : t.find? t.nextKey = none := by
  rw [find?_eq_none_iff]
  intro taken
  obtain ⟨e, he, eq⟩ := List.mem_map.1 taken
  have below := lt_nextKey he
  omega

omit [Ord κ] [DecidableEq κ] in
theorem nextKey_mapRows (t : Table Int ρ) (f : Int → ρ → σ) : (t.mapRows f).nextKey = t.nextKey := by
  simp [nextKey, entries_mapRows, Function.comp_def]

omit [Ord κ] [DecidableEq κ] in
theorem entries_append (t : Table Int ρ) (row : ρ) :
    (t.append row).entries = t.entries ++ [(t.nextKey, row)] := rfl

omit [Ord κ] [DecidableEq κ] in
theorem find?_append (t : Table Int ρ) (row : ρ) (k : Int) :
    (t.append row).find? k = if k = t.nextKey then some row else t.find? k := by
  split
  · rename_i h
    rw [find?_eq_some_iff, entries_append, h]
    simp
  · rename_i h
    unfold find?
    rw [entries_append, List.find?_append]
    cases t.entries.find? fun e => e.1 = k with
    | none => simp [Ne.symm h]
    | some e => rfl

end DemonBoard.Table
