import DemonBoard.Proofs.Readback
import DemonBoard.Proofs.Sessions
import Mathlib.Data.List.InsertIdx

/-! Edits of the list of ids. Adding, moving and removing a demon shifts ranges of positions; seen from the
order of the board, each is one insertion, one removal, or one after the other. -/

namespace DemonBoard

section Lists

variable {β : Type} {l : List β} {x : β} {i j k : Nat}

theorem getElem?_pushed : (l.insertIdx j x)[if j ≤ i then i + 1 else i]? = l[i]? := by
  split
  · rename_i pushed
    rw [List.getElem?_insertIdx_of_gt (by omega), Nat.add_sub_cancel]
  · rename_i still
    rw [List.getElem?_insertIdx_of_lt (by omega)]

theorem getElem?_pulled (ne : i ≠ k) : (l.eraseIdx k)[if k < i then i - 1 else i]? = l[i]? := by
  split
  · rename_i pulled
    rw [List.getElem?_eraseIdx, if_neg (by omega), show i - 1 + 1 = i by omega]
  · rename_i still
    rw [List.getElem?_eraseIdx, if_pos (by omega)]

theorem getElem?_reinsert (ne : i ≠ k) :
    ((l.eraseIdx k).insertIdx j x)[if i < k then (if j ≤ i then i + 1 else i)
      else (if i ≤ j then i - 1 else i)]? = l[i]? := by
  have pushed := getElem?_pushed (l := l.eraseIdx k) (x := x) (i := if k < i then i - 1 else i) (j := j)
  rw [getElem?_pulled ne] at pushed
  rw [← pushed]
  congr 1
  rcases Nat.lt_or_gt_of_ne ne with before | behind
  · rw [if_pos before, if_neg (show ¬ k < i by omega)]
  · rw [if_neg (show ¬ i < k by omega), if_pos behind]
    split <;> split <;> omega

theorem index_ne {y : β} (at_i : l[i]? = some x) (at_k : l[k]? = some y) (other : x ≠ y) : i ≠ k := by
  rintro rfl
  rw [at_i, Option.some_inj] at at_k
  exact other at_k

theorem reinsert_perm [DecidableEq β] (mem : x ∈ l) (bound : j < l.length) :
    ((l.erase x).insertIdx j x).Perm l := by
  have inside : j ≤ (l.erase x).length := by
    rw [List.length_erase_of_mem mem]
    omega
  exact (List.perm_insertIdx _ _ inside).trans (List.perm_cons_erase mem).symm

theorem getElem?_reinsert_self [DecidableEq β] (mem : x ∈ l) (bound : j < l.length) :
    ((l.erase x).insertIdx j x)[j]? = some x := by
  rw [List.getElem?_insertIdx_self, if_pos]
  rw [List.length_erase_of_mem mem]
  omega

end Lists

namespace Database

variable {α : Type} {db db' : Database α} {ids : List Int} {id : Int} {demon patched : Demon} {p q : Int}
  {userId : Option Int} {time : Moment} {previous : Changes}

theorem Arranged.of_placed (nodup : ids.Nodup)
    (mem : ∀ id ∈ ids, ∃ d, db.demons.find? id = some d ∧ d.listed)
    (placed : ∀ id d, db.demons.find? id = some d → d.listed →
      ∃ i : Nat, ids[i]? = some id ∧ d.position = some ((i : Int) + 1)) : Arranged db ids := by
  refine ⟨placed, ?_⟩
  intro i id at_i
  obtain ⟨d, found, listed⟩ := mem id (List.mem_of_getElem? at_i)
  obtain ⟨j, at_j, position⟩ := placed id d found listed
  obtain ⟨lt, -⟩ := List.getElem?_eq_some_iff.1 at_i
  have same : i = j := (List.getElem?_inj lt nodup).1 (at_i.trans at_j.symm)
  exact ⟨d, found, listed, same ▸ position⟩

theorem Arranged.congr (h : Arranged db ids) (same : db'.demons = db.demons) : Arranged db' ids := by
  refine ⟨?_, ?_⟩
  · intro id d found
    exact h.placed id d (same ▸ found)
  · intro i id at_i
    rw [same]
    exact h.filled i id at_i

theorem Arranged.listSize_eq (h : Arranged db ids) : db.listSize = ids.length := by
  rw [← h.order_eq, db.order_perm.length_eq, List.length_map, listSize]

theorem Arranged.exists_index (h : Arranged db ids) (found : db.demons.find? id = some demon)
    (listed : demon.listed) (at_p : demon.position = some p) :
    ∃ k : Nat, ids[k]? = some id ∧ p = (k : Int) + 1 := by
  obtain ⟨k, at_k, position⟩ := h.placed id demon found listed
  rw [at_p, Option.some_inj] at position
  exact ⟨k, at_k, position⟩

theorem Arranged.erase_eq (h : Arranged db ids) {k : Nat} (at_k : ids[k]? = some id) :
    ids.erase id = ids.eraseIdx k := by
  obtain ⟨lt, rfl⟩ := List.getElem?_eq_some_iff.1 at_k
  exact List.erase_eq_eraseIdx_of_idxOf (List.Nodup.idxOf_getElem h.nodup k lt)

theorem position_pushed {d : Demon} {i j : Nat} (listed : d.listed)
    (at_i : d.position = some ((i : Int) + 1)) :
    (d.moved ((j : Int) + 1) none 1).position = some (((if j ≤ i then i + 1 else i : Nat) : Int) + 1) := by
  rw [Demon.position_moved listed at_i]
  by_cases pushed : j ≤ i
  · rw [if_pos (inRange_some.2 ⟨by omega, by simp⟩), if_pos pushed]
    rfl
  · rw [if_neg fun within => pushed (by have := (inRange_some.1 within).1; omega), if_neg pushed]

theorem position_pulled {d : Demon} {i k : Nat} (listed : d.listed)
    (at_i : d.position = some ((i : Int) + 1)) :
    (d.moved ((k : Int) + 1 + 1) none (-1)).position =
      some (((if k < i then i - 1 else i : Nat) : Int) + 1) := by
  rw [Demon.position_moved listed at_i]
  by_cases pulled : k < i
  · rw [if_pos (inRange_some.2 ⟨by omega, by simp⟩), if_pos pulled]
    congr 1
    omega
  · rw [if_neg fun within => pulled (by have := (inRange_some.1 within).1; omega), if_neg pulled]

theorem Arranged.withDemon (h : Arranged db ids) (userId : Option Int) (time : Moment)
    (inside : 1 ≤ p ∧ p ≤ db.listSize + 1) (listed : demon.listed) (at_p : demon.position = some p) :
    Arranged (db.withDemon p userId time demon) (ids.insertIdx (p - 1).toNat db.demons.nextKey) := by
  obtain ⟨j, rfl⟩ : ∃ j : Nat, p = (j : Int) + 1 := ⟨(p - 1).toNat, by omega⟩
  rw [h.listSize_eq] at inside
  have bound : j ≤ ids.length := by omega
  have fresh : db.demons.nextKey ∉ ids := by
    rw [h.mem_iff, db.demons.find?_nextKey]
    rintro ⟨_, ⟨⟩, _⟩
  rw [show ((j : Int) + 1 - 1).toNat = j by omega]
  refine Arranged.of_placed ?_ ?_ ?_
  · exact (List.perm_insertIdx _ _ bound).nodup_iff.2 (List.nodup_cons.2 ⟨fresh, h.nodup⟩)
  · intro id mem
    rw [find?_withDemon]
    split
    · exact ⟨demon, rfl, listed⟩
    · rename_i old
      obtain ⟨d, found, listed⟩ := h.mem_iff.1 (((List.mem_insertIdx bound).1 mem).resolve_left old)
      exact ⟨_, by rw [found]; rfl, by rwa [Demon.listed_moved]⟩
  · intro id d found listed
    rw [find?_withDemon] at found
    split at found
    · rename_i new
      cases found
      exact ⟨j, by rw [List.getElem?_insertIdx_self, if_pos bound, new], at_p⟩
    · obtain ⟨before, earlier, rfl⟩ := Option.map_eq_some_iff.1 found
      rw [Demon.listed_moved] at listed
      obtain ⟨i, at_i, position⟩ := h.placed id before earlier listed
      exact ⟨_, getElem?_pushed.trans at_i, position_pushed listed position⟩

/-- A move shifts a listed demon other than the moved one to the index that it has after the reinsertion. -/
theorem position_displaced {d : Demon} {i j k : Nat} (listed : d.listed)
    (at_i : d.position = some ((i : Int) + 1)) (ne : i ≠ k) :
    (d.displaced ((k : Int) + 1) ((j : Int) + 1)).position =
      some (((if i < k then (if j ≤ i then i + 1 else i)
        else (if i ≤ j then i - 1 else i) : Nat) : Int) + 1) := by
  unfold Demon.displaced
  split
  · rename_i up
    rw [Demon.position_moved listed at_i]
    by_cases within : j ≤ i ∧ i < k
    · rw [if_pos (inRange_some.2 ⟨by omega, by simp; omega⟩), if_pos within.2, if_pos within.1]
      rfl
    · rw [if_neg fun within' => within (by have := inRange_some.1 within'; simp at this; omega)]
      congr 2
      split <;> split <;> omega
  · rename_i down
    rw [Demon.position_moved listed at_i]
    by_cases within : k < i ∧ i ≤ j
    · rw [if_pos (inRange_some.2 ⟨by omega, by simp; omega⟩), if_neg (by omega), if_pos within.2]
      congr 1
      omega
    · rw [if_neg fun within' => within (by have := inRange_some.1 within'; simp at this; omega)]
      congr 2
      split <;> split <;> omega

theorem Arranged.reinserted (h : Arranged db ids) (found : db.demons.find? id = some demon)
    (listed : demon.listed) (at_p : demon.position = some p) (inside : 1 ≤ q ∧ q ≤ db.listSize)
    (listed' : patched.listed) (at_q : patched.position = some q) :
    Arranged ((db.displaced p q userId time).replaced id patched previous userId time)
      ((ids.erase id).insertIdx (q - 1).toNat id) := by
  obtain ⟨k, at_k, rfl⟩ := h.exists_index found listed at_p
  obtain ⟨j, rfl⟩ : ∃ j : Nat, q = (j : Int) + 1 := ⟨(q - 1).toNat, by omega⟩
  rw [h.listSize_eq] at inside
  rw [show ((j : Int) + 1 - 1).toNat = j by omega]
  have mem : id ∈ ids := List.mem_of_getElem? at_k
  have bound : j < ids.length := by omega
  have perm : ((ids.erase id).insertIdx j id).Perm ids := reinsert_perm mem bound
  have find? (id' : Int) :
      ((db.displaced (k + 1) (j + 1) userId time).replaced id patched previous userId time).demons.find? id' =
        if id' = id then some patched else (db.displaced (k + 1) (j + 1) userId time).demons.find? id' :=
    find?_replaced (by rw [find?_displaced, found]; rfl) id'
  refine Arranged.of_placed (perm.nodup_iff.2 h.nodup) ?_ ?_
  · intro id' mem'
    rw [find?]
    split
    · exact ⟨patched, rfl, listed'⟩
    · obtain ⟨d, found', listed⟩ := h.mem_iff.1 (perm.subset mem')
      exact ⟨_, by rw [find?_displaced, found']; rfl, by rwa [Demon.listed_displaced]⟩
  · intro id' d found' listed
    rw [find?] at found'
    split at found'
    · rename_i same
      cases found'
      exact ⟨j, by rw [same, getElem?_reinsert_self mem bound], at_q⟩
    · rename_i other
      rw [find?_displaced] at found'
      obtain ⟨before, earlier, rfl⟩ := Option.map_eq_some_iff.1 found'
      rw [Demon.listed_displaced] at listed
      obtain ⟨i, at_i, position⟩ := h.placed id' before earlier listed
      have ne : i ≠ k := index_ne at_i at_k other
      refine ⟨_, ?_, position_displaced listed position ne⟩
      rw [h.erase_eq at_k, getElem?_reinsert ne, at_i]

theorem Arranged.replaced (h : Arranged db ids) (found : db.demons.find? id = some demon)
    (listed : patched.listed = demon.listed) (position : patched.position = demon.position) :
    Arranged (db.replaced id patched previous userId time) ids := by
  have find? (id' : Int) : (db.replaced id patched previous userId time).demons.find? id' =
      if id' = id then some patched else db.demons.find? id' := find?_replaced found id'
  refine Arranged.of_placed h.nodup ?_ ?_
  · intro id' mem
    rw [find?]
    split
    · rename_i same
      subst same
      obtain ⟨d, found', listed'⟩ := h.mem_iff.1 mem
      rw [found, Option.some_inj] at found'
      exact ⟨patched, rfl, by rwa [listed, found']⟩
    · exact h.mem_iff.1 mem
  · intro id' d found' listed'
    rw [find?] at found'
    split at found'
    · rename_i same
      cases found'
      rw [same, position]
      exact h.placed id demon found (listed ▸ listed')
    · exact h.placed id' d found' listed'

theorem Arranged.withoutDemon (h : Arranged db ids) (found : db.demons.find? id = some demon)
    (listed : demon.listed) (at_p : demon.position = some p) :
    Arranged (db.withoutDemon id demon p userId time) (ids.erase id) := by
  obtain ⟨k, at_k, rfl⟩ := h.exists_index found listed at_p
  refine Arranged.of_placed (h.nodup.erase id) ?_ ?_
  · intro id' mem
    rw [h.nodup.mem_erase_iff] at mem
    obtain ⟨d, found', listed'⟩ := h.mem_iff.1 mem.2
    rw [find?_withoutDemon found, if_neg mem.1, found']
    exact ⟨_, rfl, by rwa [Demon.listed_moved]⟩
  · intro id' d found' listed'
    rw [find?_withoutDemon found] at found'
    split at found'
    · cases found'
      cases listed'
    · rename_i other
      obtain ⟨before, earlier, rfl⟩ := Option.map_eq_some_iff.1 found'
      rw [Demon.listed_moved] at listed'
      obtain ⟨i, at_i, position⟩ := h.placed id' before earlier listed'
      have ne : i ≠ k := index_ne at_i at_k other
      rw [h.erase_eq at_k]
      exact ⟨_, (getElem?_pulled ne).trans at_i, position_pulled listed' position⟩

theorem Arranged.reinsert_self (h : Arranged db ids) (found : db.demons.find? id = some demon)
    (listed : demon.listed) (at_p : demon.position = some p) :
    (ids.erase id).insertIdx (p - 1).toNat id = ids := by
  obtain ⟨k, at_k, rfl⟩ := h.exists_index found listed at_p
  obtain ⟨lt, rfl⟩ := List.getElem?_eq_some_iff.1 at_k
  rw [show ((k : Int) + 1 - 1).toNat = k by omega, h.erase_eq at_k]
  exact List.insertIdx_eraseIdx_getElem lt

end Database

/-- What a call that succeeds does to a board, as people speak of lists. -/
def Call.EditsList {α : Type} (now : Moment) (before after : Database α) : Call → Prop
  | .addDemon n _ => ∃ p, n.position = some p ∧ (1 ≤ p ∧ p ≤ before.listSize + 1) ∧
      before.demons.nextKey ∉ before.order ∧
      after.order = before.order.insertIdx (p - 1).toNat before.demons.nextKey
  | .patchDemon id changes _ => id ∈ before.order ∧
      match changes.edit .position with
      | .keep => after.order = before.order
      | .set none => False
      | .set (some q) => (1 ≤ q ∧ q ≤ before.listSize) ∧
          after.order = (before.order.erase id).insertIdx (q - 1).toNat id ∧
          (before.positionOf id = some q → after.order = before.order)
  | .removeDemon id stamp => id ∈ before.order ∧ after.order = before.order.erase id ∧
      ∃ d time, before.demons.find? id = some d ∧ effectiveTime now stamp.time = .ok time ∧
        after.demons.find? id = some { d with position := none, removedAt := some time }
  | .setRecordStatus .. | .setPlayerBanned .. | .setPlayerNationality .. => after.order = before.order

namespace Database

variable {α : Type} {db db' : Database α} {ids : List Int} {now : Moment} {call : Call} {change : Change α}

section Calls

variable {n : NewDemon} {id : Int} {changes : Changes} {stamp : Stamp}

theorem Arranged.addDemonAt (h : Arranged db ids) (done : db.mutate now (.addDemon n stamp) = .ok change) :
    ∃ p, n.position = some p ∧ (1 ≤ p ∧ p ≤ db.listSize + 1) ∧
      Arranged change.database (ids.insertIdx (p - 1).toNat db.demons.nextKey) := by
  obtain ⟨time, p, demon, -, asked, at_p, inside, logged, -, -, -⟩ := addDemon_eq_ok_iff.1 done
  obtain ⟨additions, -, eq⟩ := logAddition_eq_ok_iff.1 logged
  refine ⟨p, asked.position.trans at_p, inside, ?_⟩
  have arranged := h.withDemon stamp.userId time inside (by simp [Demon.listed, asked.listed]) at_p
  exact arranged.congr (by rw [eq])

/-- A patch keeps the order, or it moves the demon to a position that it names and that differs from the
demon's own. -/
theorem Arranged.patched {demon patched : Demon} {shifted : Database α} {userId : Option Int} {time : Moment}
    {previous : Changes} (h : Arranged db ids) (found : db.demons.find? id = some demon)
    (listed : demon.listed) (edited : demon.edited? changes.edit = some patched)
    (room : db.makeRoom demon.position (changes.edit .position) userId time = .ok shifted) :
    (changes.edit .position = .keep ∨ changes.edit .position = .set demon.position) ∧
        Arranged (shifted.replaced id patched previous userId time) ids ∨
      ∃ q, changes.edit .position = .set (some q) ∧ demon.position ≠ some q ∧ (1 ≤ q ∧ q ≤ db.listSize) ∧
        Arranged (shifted.replaced id patched previous userId time)
          ((ids.erase id).insertIdx (q - 1).toNat id) := by
  have position : patched.position = (changes.edit .position).applied demon.position :=
    Demon.get_edited edited .position
  have listed' : patched.listed = demon.listed := Demon.listed_edited edited
  rcases makeRoom_cases room with ⟨kept, rfl⟩ | ⟨p, q, at_p, move, ne, inside, rfl⟩
  · exact .inl ⟨kept, h.replaced found listed' (position.trans (Edit.applied_of_kept kept))⟩
  · refine .inr ⟨q, move, fun same => ne (by rw [at_p] at same; exact Option.some_inj.1 same), inside, ?_⟩
    exact h.reinserted found listed at_p inside (listed' ▸ listed) (by rw [position, move]; rfl)

theorem Arranged.patchDemon (h : Arranged db ids) (done : db.mutate now (.patchDemon id changes stamp) = .ok change) :
    ∃ demon, db.demons.find? id = some demon ∧ demon.listed ∧
      ((changes.edit .position = .keep ∨ changes.edit .position = .set demon.position) ∧
          Arranged change.database ids ∨
        ∃ q, changes.edit .position = .set (some q) ∧ demon.position ≠ some q ∧
          (1 ≤ q ∧ q ≤ db.listSize) ∧
          Arranged change.database ((ids.erase id).insertIdx (q - 1).toNat id)) := by
  obtain ⟨-, time, demon, -, found, listed, outcome⟩ := patchDemon_eq_ok_iff.1 done
  refine ⟨demon, found, listed, ?_⟩
  rcases outcome with ⟨same, rfl⟩ | ⟨-, shifted, patched, room, edited, -, -, rfl⟩
  · exact .inl ⟨kept_of_not_mem (Changes.not_mem_of_isEmpty same), h⟩
  · exact h.patched found listed edited room

theorem Arranged.removeDemon (h : Arranged db ids) (done : db.mutate now (.removeDemon id stamp) = .ok change) :
    ∃ demon time, effectiveTime now stamp.time = .ok time ∧ db.demons.find? id = some demon ∧ demon.listed ∧
      change.database.demons.find? id = some { demon with position := none, removedAt := some time } ∧
      Arranged change.database (ids.erase id) := by
  obtain ⟨time, demon, old, htime, found, listed, at_old, -, -, rfl⟩ := removeDemon_eq_ok_iff.1 done
  refine ⟨demon, time, htime, found, listed, ?_, h.withoutDemon found listed at_old⟩
  rw [find?_withoutDemon found, if_pos rfl]

theorem Dense.editsList (h : db.Dense) (done : db.mutate now call = .ok change) :
    change.database.Dense ∧ call.EditsList now db change.database := by
  have arranged := h.arranged
  cases call with
  | addDemon n stamp =>
    obtain ⟨p, asked, inside, arranged'⟩ := arranged.addDemonAt done
    refine ⟨arranged'.dense, p, asked, inside, ?_, arranged'.order_eq⟩
    rw [mem_order, db.demons.find?_nextKey]
    rintro ⟨_, ⟨⟩, _⟩
  | patchDemon id changes stamp =>
    obtain ⟨demon, found, listed, outcome⟩ := arranged.patchDemon done
    obtain ⟨k, at_k, at_p⟩ := arranged.placed id demon found listed
    have mem : id ∈ db.order := List.mem_of_getElem? at_k
    rcases outcome with ⟨kept, arranged'⟩ | ⟨q, move, ne, inside, arranged'⟩
    · refine ⟨arranged'.dense, mem, ?_⟩
      rcases kept with kept | kept
      · rw [kept]
        exact arranged'.order_eq
      · obtain ⟨bound, -⟩ := List.getElem?_eq_some_iff.1 at_k
        have size := arranged.listSize_eq
        have inside : 1 ≤ (k : Int) + 1 ∧ (k : Int) + 1 ≤ db.listSize := by omega
        rw [kept, at_p]
        refine ⟨inside, ?_, fun _ => arranged'.order_eq⟩
        rw [arranged'.order_eq, arranged.reinsert_self found listed at_p]
    · refine ⟨arranged'.dense, mem, ?_⟩
      rw [move]
      refine ⟨inside, arranged'.order_eq, fun here => absurd ?_ ne⟩
      simpa [positionOf, found] using here
  | removeDemon id stamp =>
    obtain ⟨demon, time, htime, found, listed, removed, arranged'⟩ := arranged.removeDemon done
    exact ⟨arranged'.dense, mem_order.2 ⟨demon, found, listed⟩, arranged'.order_eq, demon, time, found,
      htime, removed⟩
  | setRecordStatus | setPlayerBanned | setPlayerNationality =>
    have same := arranged.congr (sameList_mutate rfl done).demons
    exact ⟨same.dense, same.order_eq⟩

end Calls

section Errors

open Work

variable {n : NewDemon} {id : Int} {changes : Changes} {stamp : Stamp} {e : Error}

theorem kind_of_requireRequirement {edit : Edit Int} (h : requireRequirement edit = .error e) :
    e.kind ≠ .invariant := by
  cases edit with
  | keep => cases h
  | set value =>
    rcases bind_eq_error.1 h with h | ⟨requirement, -, h⟩
    · simp [kind_of_requireComparable h]
    · simp [kind_of_requirePercentage h]

theorem Arranged.check (h : Arranged db ids) : db.checkPositions ≠ .error e := by
  rw [checkPositions_eq_ok_iff.2 h.dense]
  exact nofun

theorem kind_of_requireKnown {c : Changes} (h : c.requireKnown = .error e) : e.kind ≠ .invariant := by
  unfold Changes.requireKnown at h
  split at h <;> cases h
  simp [Error.kind]

theorem kind_of_requireFitting {c : Changes} {fields : List Field} (h : c.requireFitting fields = .error e) :
    e.kind ≠ .invariant := by
  unfold Changes.requireFitting at h
  split at h <;> cases h
  exact nofun

theorem Arranged.kind_of_addDemonAt (h : Arranged db ids) (failed : db.mutate now (.addDemon n stamp) = .error e) :
    e.kind ≠ .invariant := by
  simp only [mutate, Call.mutation, Mutation.addDemon, outcome_lift_bind, outcome_look_bind, outcome_write_bind,
    outcome_update_bind, outcome_pure, bind_eq_error, requirePosition_eq_ok_iff, nextKey_shift] at failed
  rcases failed with failed | ⟨time, -, failed | ⟨requirement, -, failed | ⟨_, -, failed | ⟨p, -, failed |
    ⟨_, inside, failed | ⟨_, -, failed | ⟨_, -, failed | ⟨name, -, failed | ⟨verifier, -, failed |
    ⟨publisher, -, failed | ⟨_, ⟨⟩, failed | ⟨logged, hlogged, failed | ⟨_, -, failed⟩⟩⟩⟩⟩⟩⟩⟩⟩⟩⟩⟩⟩
  · simp [kind_of_effectiveTime failed]
  · simp [kind_of_requireComparable failed]
  · simp [kind_of_requirePercentage failed]
  · simp [kind_of_requireComparable failed]
  · simp [kind_of_requirePosition failed]
  · simp [kind_of_requireStorable failed]
  · simp [kind_of_requireStorable failed]
  · simp [kind_of_requireValue failed]
  · simp [kind_of_requireValue failed]
  · simp [kind_of_requireValue failed]
  · cases failed
  · exact kind_of_logAddition failed
  · obtain ⟨additions, -, rfl⟩ := logAddition_eq_ok_iff.1 hlogged
    let demon : Demon :=
      ⟨name, some p, requirement, n.video, verifier, publisher, n.rated.getD true, time, none⟩
    have arranged : Arranged (db.withDemon p stamp.userId time demon) _ :=
      h.withDemon stamp.userId time inside rfl rfl
    exact absurd failed (arranged.congr rfl).check
  · cases failed

theorem Arranged.kind_of_patchDemon (h : Arranged db ids)
    (failed : db.mutate now (.patchDemon id changes stamp) = .error e) : e.kind ≠ .invariant := by
  simp only [mutate, Call.mutation, Mutation.patchDemon, outcome_lift_bind, outcome_look_bind, bind_eq_error,
    listedDemon_eq_ok_iff] at failed
  rcases failed with failed | ⟨_, -, failed | ⟨_, -, failed | ⟨time, -, failed | ⟨demon, ⟨found, listed⟩, failed⟩⟩⟩⟩
  · exact kind_of_requireKnown failed
  · exact kind_of_requireRequirement failed
  · simp [kind_of_effectiveTime failed]
  · exact kind_of_listedDemon failed
  · split at failed
    · cases failed
    · simp only [outcome_lift_bind, outcome_look_bind, outcome_write_bind, outcome_update_bind, outcome_pure,
        bind_eq_error, requireValue_eq_ok_iff] at failed
      rcases failed with failed | ⟨shifted, room, failed | ⟨_, -, failed | ⟨patched, edited, failed |
        ⟨_, -, failed | ⟨_, -, failed⟩⟩⟩⟩⟩
      · exact kind_of_makeRoom failed
      · exact kind_of_requireFitting failed
      · simp [kind_of_requireValue failed]
      · simp [kind_of_requireStorable failed]
      · rcases h.patched found listed edited room with ⟨-, arranged⟩ | ⟨q, -, -, -, arranged⟩
        · exact absurd failed arranged.check
        · exact absurd failed arranged.check
      · cases failed

theorem Arranged.kind_of_removeDemon (h : Arranged db ids)
    (failed : db.mutate now (.removeDemon id stamp) = .error e) : e.kind ≠ .invariant := by
  simp only [mutate, Call.mutation, Mutation.removeDemon, outcome_lift_bind, outcome_look_bind, outcome_write_bind,
    outcome_pure, bind_eq_error, listedDemon_eq_ok_iff, requireSummable_eq_ok_iff] at failed
  rcases failed with failed | ⟨time, -, failed | ⟨demon, ⟨found, listed⟩, failed | ⟨_, -, failed |
    ⟨old, at_old, failed | ⟨_, -, failed⟩⟩⟩⟩⟩
  · simp [kind_of_effectiveTime failed]
  · exact kind_of_listedDemon failed
  · simp [kind_of_requireStorable failed]
  · simp [kind_of_requireSummable failed]
  · exact absurd failed (h.withoutDemon found listed at_old).check
  · cases failed

theorem Dense.kind_of_mutate (h : db.Dense) (failed : db.mutate now call = .error e) :
    e.kind ≠ .invariant := by
  cases call with
  | addDemon => exact h.arranged.kind_of_addDemonAt failed
  | patchDemon => exact h.arranged.kind_of_patchDemon failed
  | removeDemon => exact h.arranged.kind_of_removeDemon failed
  | setRecordStatus => exact kind_of_setRecordStatus failed
  | setPlayerBanned => exact kind_of_setPlayerBanned failed
  | setPlayerNationality => exact kind_of_setPlayerNationality failed

end Errors

theorem order_congr (same : db'.demons = db.demons) : db'.order = db.order := by
  simp only [order, listedDemons, same]

theorem EditsList_congr {after after' : Database α} (same : after'.demons = after.demons)
    (h : call.EditsList now db after) : call.EditsList now db after' := by
  have order := order_congr same
  cases call with
  | removeDemon id stamp =>
    obtain ⟨mem, erased, removed⟩ := h
    exact ⟨mem, order.trans erased, same ▸ removed⟩
  | _ => simpa only [Call.EditsList, order] using h

theorem Dense.congr (h : db.Dense) (same : db'.demons = db.demons) : db'.Dense :=
  (h.arranged.congr same).dense

section Runs

variable [Scalar α]

theorem Dense.perform (h : db.Dense) (faults : Faults) (now : Moment) (call : Call) :
    (db.perform faults now call).state.Dense := by
  rcases sameTables_perform db faults now call with ⟨change, done, same⟩ | ⟨e, -, kept⟩
  · exact (h.editsList done).1.congr same.sameList.demons
  · rw [kept]
    exact h

theorem Dense.step (h : db.Dense) (s : Step) : (db.step s).Dense := by
  unfold Database.step
  split
  · exact h.perform s.faults s.now _
  · exact h.congr (sameTables_recompute s.faults db _).sameList.demons

theorem Dense.after (h : db.Dense) (steps : List Step) : (db.after steps).Dense := by
  induction steps generalizing db with
  | nil => exact h
  | cons s rest ih => exact ih (h.step s)

/-- In every session that starts from a dense list, a call that succeeds is the list edit that it asks for,
and no call fails because the positions are out of order unless a pass is made to fail so. -/
theorem calls_edit_order (dense : db.Dense) (steps : List Step) (faults : Faults) (now : Moment)
    (call : Call) :
    let before := db.after steps
    let outcome := before.perform faults now call
    before.Dense ∧ outcome.state.Dense ∧
    (∀ change, before.mutate now call = .ok change →
      call.EditsList now before outcome.state ∧
      ∀ id d, before.demons.find? id = some d → ¬ d.listed → outcome.state.demons.find? id = some d) ∧
    (∀ e, before.mutate now call = .error e → e.kind ≠ .invariant ∧ outcome.state = before) ∧
    ∀ e, outcome.result = .error e → e.kind = .invariant →
      ∃ pass attempt point, faults pass attempt = some ⟨point, .fatal e⟩ := by
  intro before outcome
  have dense := dense.after steps
  refine ⟨dense, dense.perform faults now call, ?_, ?_, ?_⟩
  · intro change done
    rcases sameTables_perform before faults now call with ⟨change', done', same⟩ | ⟨e, failed, -⟩
    · rw [done] at done'
      cases done'
      refine ⟨EditsList_congr same.sameList.demons (dense.editsList done).2, ?_⟩
      intro id d found removed
      rw [same.sameList.demons]
      exact find?_mutate_of_not_listed done found removed
    · rw [done] at failed
      cases failed
  · intro e failed
    rcases sameTables_perform before faults now call with ⟨change, done, -⟩ | ⟨_, -, kept⟩
    · rw [failed] at done
      cases done
    · exact ⟨dense.kind_of_mutate failed, kept⟩
  · intro e failed blame
    rcases error_of_perform failed with failed | exhausted | fatal
    · exact absurd blame (dense.kind_of_mutate failed)
    · rw [exhausted] at blame
      cases blame
    · exact fatal

/-- A list of three demons, of which the first moves down to the end. -/
theorem calls_edit_order_of_three :
    let level (name : String) (position : Int) : Demon :=
      ⟨name, some position, 50, none, 1, 1, true, ⟨0⟩, none⟩
    let db : Database Float := { (empty : Database Float) with
      demons := ((Table.empty.append (level "a" 1)).append (level "b" 2)).append (level "c" 3) }
    db.Dense ∧ (db.perform .absent ⟨5⟩ (.moveDemon 1 (some 3) ⟨none, none⟩)).state.order = [2, 3, 1] := by
  intro level db
  have dense : db.Dense := by decide
  obtain ⟨-, -, edits, -, -⟩ := calls_edit_order dense [] .absent ⟨5⟩ (.moveDemon 1 (some 3) ⟨none, none⟩)
  obtain ⟨⟨-, -, moved, -⟩, -⟩ := edits _ rfl
  exact ⟨dense, moved⟩

end Runs

end Database

end DemonBoard
