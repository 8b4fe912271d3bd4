import DemonBoard.Positions
import DemonBoard.Proofs.Tables

/-! Dense lists. The listed demons occupy the positions 1 to N exactly if some list of ids tells, entry by
entry, who stands where; that list is then the order of the board. -/

namespace DemonBoard

/-- A list that ascends strictly in some key is the only permutation of itself that ascends in it. -/
theorem eq_of_perm_of_ascending {β : Type} {key : β → Int} {xs ys : List β} (h : xs.Perm ys)
    (inOrder : xs.Pairwise fun a b => key a ≤ key b) (ascending : ys.Pairwise fun a b => key a < key b) :
    xs = ys := by
  have ends : ∀ a ∈ ys, ∀ b ∈ ys, key a = key b → a = b :=
    List.Pairwise.forall_of_forall_of_flip (fun _ _ _ => rfl)
      (ascending.imp fun lt e => absurd e (Int.ne_of_lt lt))
      (ascending.imp fun lt e => absurd e.symm (Int.ne_of_lt lt))
  refine List.Perm.eq_of_pairwise (fun a b ha hb hab hba => ?_) inOrder
    (ascending.imp fun {a b} lt => Int.le_of_lt lt) h
  exact ends a (h.subset ha) b hb (Int.le_antisymm hab hba)

theorem sortOn_eq_of_perm {β : Type} {key : β → Int} {xs ys : List β} (h : xs.Perm ys)
    (ascending : ys.Pairwise fun a b => key a < key b) : sortOn key xs = ys :=
  eq_of_perm_of_ascending ((sortOn_perm key xs).trans h) (pairwise_sortOn key xs) ascending

theorem densePositions_eq_map (size : Nat) :
    densePositions size = ((List.range size).map fun (i : Nat) => (i : Int) + 1).map some := by
  simp [densePositions, Function.comp_def]

theorem ascending_positions (size : Nat) :
    ((List.range size).map fun (i : Nat) => (i : Int) + 1).Pairwise (· < ·) := by
  rw [List.pairwise_map]
  exact List.pairwise_lt_range.imp fun lt => by omega

theorem getElem?_densePositions {size i : Nat} (h : i < size) :
    (densePositions size)[i]? = some (some ((i : Int) + 1)) := by
  simp [densePositions, h]

theorem map_sortOn_position {β : Type} {position : β → Option Int} {xs : List β} {size : Nat}
    (h : (xs.map position).Perm (densePositions size)) :
    (sortOn (fun x => (position x).getD 0) xs).map position = densePositions size := by
  let sorted := sortOn (fun x => (position x).getD 0) xs
  have perm : (sorted.map position).Perm (densePositions size) := ((sortOn_perm _ _).map _).trans h
  have keys : (sorted.map fun x => (position x).getD 0) =
      (List.range size).map fun (i : Nat) => (i : Int) + 1 := by
    have values := perm.map fun p : Option Int => p.getD 0
    rw [densePositions_eq_map, List.map_map, List.map_map] at values
    refine List.Perm.eq_of_pairwise (fun _ _ _ _ => Int.le_antisymm)
      (List.pairwise_map.2 (pairwise_sortOn _ _)) ((ascending_positions _).imp Int.le_of_lt) ?_
    simpa [Function.comp_def] using values
  calc
    sorted.map position = (sorted.map fun x => (position x).getD 0).map some := by
      rw [List.map_map]
      refine List.map_congr_left ?_
      intro x mem
      have dense : position x ∈ densePositions size := perm.subset (List.mem_map_of_mem mem)
      rw [densePositions_eq_map] at dense
      obtain ⟨p, -, at_p⟩ := List.mem_map.1 dense
      simp [← at_p]
    _ = densePositions size := by rw [keys, densePositions_eq_map]

theorem map_some_filterMap {positions : List (Option Int)} (h : ∀ p ∈ positions, p.isSome) :
    (positions.filterMap id).map some = positions := by
  induction positions with
  | nil => rfl
  | cons p rest ih =>
    obtain ⟨v, rfl⟩ := Option.isSome_iff_exists.1 (h p (by simp))
    simpa using ih fun q hq => h q (List.mem_cons_of_mem _ hq)

theorem sortPositions_map_some (xs : List Int) :
    sortPositions (xs.map some) = .ok ((sortOn id xs).map some) := by
  match xs with
  | [] => rfl
  | [x] => rfl
  | x :: y :: rest => simp [sortPositions, List.filterMap_map, Function.comp_def]

theorem sortPositions_perm {positions sorted : List (Option Int)}
    (h : sortPositions positions = .ok sorted) : sorted.Perm positions := by
  unfold sortPositions at h
  split at h
  · cases h; exact List.Perm.refl _
  · cases h; exact List.Perm.refl _
  · cases h
  · rename_i first rest _
    split at h
    · rename_i present
      cases h
      have whole := map_some_filterMap (List.all_eq_true.1 present)
      refine ((sortOn_perm id (first :: rest.filterMap id)).map some).trans ?_
      rw [List.map_cons, whole]
    · cases h

/-- The check passes the positions 1 to N in any order, and no others. -/
theorem requireDense_eq_ok_iff {positions : List (Option Int)} :
    requireDense positions = .ok () ↔ positions.Perm (densePositions positions.length) := by
  constructor
  · intro h
    cases sorting : sortPositions positions with
    | error e => simp [requireDense, sorting, bind, Except.bind] at h
    | ok sorted =>
      have perm := sortPositions_perm sorting
      simp only [requireDense, sorting, bind, Except.bind] at h
      split at h
      · rename_i dense
        rw [← perm.length_eq, ← dense]
        exact perm.symm
      · cases h
  · intro h
    rw [densePositions_eq_map] at h
    have whole : (positions.filterMap id).map some = positions := by
      refine map_some_filterMap ?_
      intro p hp
      obtain ⟨v, -, rfl⟩ := List.mem_map.1 (h.subset hp)
      rfl
    have ascending : sortOn id (positions.filterMap id) = _ :=
      sortOn_eq_of_perm (by simpa [List.filterMap_map, Function.comp_def] using h.filterMap id)
        (ascending_positions positions.length)
    have sorting := sortPositions_map_some (positions.filterMap id)
    rw [whole, ascending, ← densePositions_eq_map] at sorting
    simp only [requireDense, sorting, bind, Except.bind]
    simp [densePositions]

namespace Database

variable {α : Type} {db : Database α} {ids : List Int}

/-- The listed demons are at the positions 1 to N, one at each. -/
def Dense (db : Database α) : Prop := db.listedPositions.Perm (densePositions db.listSize)

instance (db : Database α) : Decidable db.Dense := inferInstanceAs (Decidable (List.Perm _ _))

/-- The ids of the listed demons from the top of the list down. -/
def order (db : Database α) : List Int :=
  (sortOn (fun (_, d) => d.position.getD 0) db.listedDemons).map Prod.fst

/-- The listed demons are those of a list of ids, and each stands where the list has it. -/
structure Arranged (db : Database α) (ids : List Int) : Prop where
  placed : ∀ id d, db.demons.find? id = some d → d.listed →
    ∃ i : Nat, ids[i]? = some id ∧ d.position = some ((i : Int) + 1)
  filled : ∀ (i : Nat) id, ids[i]? = some id →
    ∃ d, db.demons.find? id = some d ∧ d.listed ∧ d.position = some ((i : Int) + 1)

theorem checkPositions_eq_ok_iff : db.checkPositions = .ok () ↔ db.Dense := by
  unfold checkPositions Dense
  rw [requireDense_eq_ok_iff, listedPositions, List.length_map, listSize]

theorem mem_listedDemons {id : Int} {d : Demon} :
    (id, d) ∈ db.listedDemons ↔ db.demons.find? id = some d ∧ d.listed := by
  simp [listedDemons, Table.find?_eq_some_iff]

theorem nodup_listed (db : Database α) : (db.listedDemons.map Prod.fst).Nodup :=
  db.demons.nodup_keys.sublist (List.filter_sublist.map _)

theorem order_perm (db : Database α) : db.order.Perm (db.listedDemons.map Prod.fst) :=
  (sortOn_perm _ _).map _

theorem mem_order {id : Int} : id ∈ db.order ↔ ∃ d, db.demons.find? id = some d ∧ d.listed := by
  rw [db.order_perm.mem_iff]
  simp only [List.mem_map, Prod.exists, mem_listedDemons, exists_and_right, exists_eq_right]

theorem Arranged.mem_iff (h : Arranged db ids) {id : Int} :
    id ∈ ids ↔ ∃ d, db.demons.find? id = some d ∧ d.listed := by
  constructor
  · intro mem
    obtain ⟨i, at_i⟩ := List.mem_iff_getElem?.1 mem
    obtain ⟨d, found, listed, -⟩ := h.filled i id at_i
    exact ⟨d, found, listed⟩
  · rintro ⟨d, found, listed⟩
    obtain ⟨i, at_i, -⟩ := h.placed id d found listed
    exact List.mem_of_getElem? at_i

theorem Arranged.index_unique (h : Arranged db ids) {i j : Nat} {id : Int}
    (hi : ids[i]? = some id) (hj : ids[j]? = some id) : i = j := by
  obtain ⟨d, found, -, at_i⟩ := h.filled i id hi
  obtain ⟨d', found', -, at_j⟩ := h.filled j id hj
  rw [found] at found'
  cases found'
  rw [at_i, Option.some_inj] at at_j
  omega

theorem Arranged.nodup (h : Arranged db ids) : ids.Nodup := by
  rw [List.nodup_iff_getElem?_ne_getElem?]
  intro i j lt bound eq
  rw [List.getElem?_eq_getElem bound] at eq
  have := h.index_unique eq (List.getElem?_eq_getElem bound)
  omega

def positionOf (db : Database α) (id : Int) : Option Int := (db.demons.find? id).bind Demon.position

theorem Arranged.positionOf_getElem (h : Arranged db ids) {i : Nat} {id : Int} (at_i : ids[i]? = some id) :
    db.positionOf id = some ((i : Int) + 1) := by
  obtain ⟨d, found, -, position⟩ := h.filled i id at_i
  simp [positionOf, found, position]

theorem positionOf_listed {e : Int × Demon} (h : e ∈ db.listedDemons) :
    db.positionOf e.1 = e.2.position := by
  simp [positionOf, (mem_listedDemons.1 h).1]

theorem Arranged.ascending (h : Arranged db ids) :
    ids.Pairwise fun a b => (db.positionOf a).getD 0 < (db.positionOf b).getD 0 := by
  rw [List.pairwise_iff_getElem]
  intro i j hi hj lt
  rw [h.positionOf_getElem (List.getElem?_eq_getElem hi), h.positionOf_getElem (List.getElem?_eq_getElem hj)]
  simp only [Option.getD_some]
  omega

theorem order_ascending (db : Database α) :
    db.order.Pairwise fun a b => (db.positionOf a).getD 0 ≤ (db.positionOf b).getD 0 := by
  unfold order
  rw [List.pairwise_map]
  refine (pairwise_sortOn _ db.listedDemons).imp_of_mem fun {a b} ha hb le => ?_
  rw [positionOf_listed ((sortOn_perm _ _).subset ha), positionOf_listed ((sortOn_perm _ _).subset hb)]
  exact le

theorem Arranged.order_eq (h : Arranged db ids) : db.order = ids := by
  have members : db.order.Perm ids := by
    refine (List.perm_ext_iff_of_nodup (db.order_perm.nodup_iff.2 db.nodup_listed) h.nodup).2 ?_
    intro id
    rw [mem_order, h.mem_iff]
  exact eq_of_perm_of_ascending members db.order_ascending h.ascending

theorem Arranged.dense (h : Arranged db ids) : db.Dense := by
  rw [← h.order_eq] at h
  have positions : db.order.map db.positionOf = densePositions db.order.length := by
    refine List.ext_getElem? ?_
    intro i
    rw [List.getElem?_map]
    by_cases lt : i < db.order.length
    · rw [getElem?_densePositions lt, List.getElem?_eq_getElem lt, Option.map_some]
      rw [h.positionOf_getElem (List.getElem?_eq_getElem lt)]
    · rw [List.getElem?_eq_none (Nat.le_of_not_lt lt), List.getElem?_eq_none]
      · rfl
      · simpa [densePositions] using lt
  have size : db.order.length = db.listSize := by
    rw [db.order_perm.length_eq, List.length_map, listSize]
  have listed : db.listedPositions = (db.listedDemons.map Prod.fst).map db.positionOf := by
    rw [listedPositions, List.map_map]
    exact List.map_congr_left fun e he => (positionOf_listed he).symm
  rw [Dense, listed, ← size, ← positions]
  exact db.order_perm.symm.map _

theorem Dense.arranged (h : db.Dense) : Arranged db db.order := by
  let sorted := sortOn (fun ((_, d) : Int × Demon) => d.position.getD 0) db.listedDemons
  have place : ∀ (i : Nat) (e : Int × Demon), sorted[i]? = some e → e.2.position = some ((i : Int) + 1) := by
    intro i e at_i
    have position : (densePositions db.listSize)[i]? = some e.2.position := by
      rw [← map_sortOn_position h, List.getElem?_map, at_i, Option.map_some]
    have inside : i < db.listSize := by
      obtain ⟨lt, -⟩ := List.getElem?_eq_some_iff.1 position
      simpa [densePositions] using lt
    rw [getElem?_densePositions inside, Option.some_inj] at position
    exact position.symm
  constructor
  · intro id d found listed
    have mem : (id, d) ∈ sorted := (sortOn_perm _ _).mem_iff.2 (mem_listedDemons.2 ⟨found, listed⟩)
    obtain ⟨i, at_i⟩ := List.mem_iff_getElem?.1 mem
    exact ⟨i, by simp [order, sorted, at_i], place i _ at_i⟩
  · intro i id at_i
    obtain ⟨e, at_e, rfl⟩ : ∃ e, sorted[i]? = some e ∧ e.1 = id := by
      simpa [order, sorted] using at_i
    have mem := (sortOn_perm _ _).subset (List.mem_of_getElem? at_e)
    obtain ⟨found, listed⟩ := mem_listedDemons.1 mem
    exact ⟨e.2, found, listed, place i e at_e⟩

end Database

end DemonBoard
