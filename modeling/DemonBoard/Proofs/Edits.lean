import DemonBoard.Lifecycle
import DemonBoard.Proofs.Arrangement

/-! What an edit of the list stores. A successful edit is described by the demons after it and by the rows
that it adds to the log; everything else in the database stays. -/

namespace DemonBoard

theorem bind_eq_ok {ε β γ : Type} {x : Except ε β} {f : β → Except ε γ} {c : γ} :
    (x >>= f) = .ok c ↔ ∃ b, x = .ok b ∧ f b = .ok c := by
  cases x <;> simp [bind, Except.bind]

theorem bind_eq_error {ε β γ : Type} {x : Except ε β} {f : β → Except ε γ} {e : ε} :
    (x >>= f) = .error e ↔ x = .error e ∨ ∃ b, x = .ok b ∧ f b = .error e := by
  cases x <;> simp [bind, Except.bind]

section Checks

variable {value : Option Int} {x size : Int} {field : String} {e : Error}

theorem requireComparable_eq_ok_iff : requireComparable value = .ok x ↔ value = some x := by
  cases value <;> simp [requireComparable]

theorem requireValue_eq_ok_iff {β : Type} {value : Option β} {x : β} :
    requireValue value = .ok x ↔ value = some x := by
  cases value <;> simp [requireValue]

theorem requirePercentage_eq_ok_iff {u : Unit} :
    requirePercentage field x = .ok u ↔ isPercentage x = true := by
  unfold requirePercentage
  split <;> simp [*]

theorem requirePosition_eq_ok_iff {u : Unit} :
    requirePosition x size = .ok u ↔ 1 ≤ x ∧ x ≤ size := by
  unfold requirePosition
  split <;> simp [*]

theorem requireStorable_eq_ok_iff {u : Unit} : requireStorable value = .ok u ↔ value.all isStorable = true := by
  unfold requireStorable
  split <;> simp [*]

theorem requireSummable_eq_ok_iff : requireSummable value = .ok x ↔ value = some x := by
  cases value <;> simp [requireSummable]

theorem requireTransition_eq_ok_iff {id : Int} {old new : Status} {u : Unit} :
    requireTransition id old new = .ok u ↔ new ∈ old.successors := by
  unfold requireTransition
  split <;> simp_all

theorem requireRow_eq_ok_iff {ρ : Type} {t : Table Int ρ} {id : Int} {missing : Error} {row : ρ} :
    requireRow t id missing = .ok row ↔ t.find? id = some row := by
  unfold requireRow
  cases t.find? id <;> simp

theorem kind_of_effectiveTime {now : Moment} {time : Option Timestamp}
    (h : effectiveTime now time = .error e) : e.kind = .timeRange := by
  unfold effectiveTime at h
  split at h
  · cases h
  · split at h <;> cases h
    rfl

theorem kind_of_requireComparable (h : requireComparable value = .error e) : e.kind = .operand := by
  cases value <;> cases h
  rfl

theorem kind_of_requireValue {β : Type} {value : Option β} (h : requireValue value = .error e) :
    e.kind = .constraint := by
  cases value <;> cases h
  rfl

theorem kind_of_requirePercentage (h : requirePercentage field x = .error e) : e.kind = .validation := by
  unfold requirePercentage at h
  split at h <;> cases h
  rfl

theorem kind_of_requirePosition (h : requirePosition x size = .error e) : e.kind = .validation := by
  unfold requirePosition at h
  split at h <;> cases h
  rfl

theorem kind_of_requireStorable (h : requireStorable value = .error e) : e.kind = .timeRange := by
  unfold requireStorable at h
  split at h <;> cases h
  rfl

theorem kind_of_requireSummable (h : requireSummable value = .error e) : e.kind = .operand := by
  cases value <;> cases h
  rfl

theorem kind_of_requireTransition {id : Int} {old new : Status} (h : requireTransition id old new = .error e) :
    e.kind = .transition := by
  unfold requireTransition at h
  split at h <;> cases h
  rfl

theorem kind_of_requirePaired {nationality subdivision : Option String}
    (h : requirePaired nationality subdivision = .error e) : e.kind = .validation := by
  unfold requirePaired at h
  split at h <;> cases h
  rfl

theorem kind_of_requireRow {ρ : Type} {t : Table Int ρ} {id : Int} {missing : Error}
    (other : missing.kind ≠ .invariant) (h : requireRow t id missing = .error e) : e.kind ≠ .invariant := by
  unfold requireRow at h
  split at h
  · cases h
  · cases h
    split
    · exact other
    · exact nofun

end Checks

theorem inRange_some {lower p : Int} {upper : Option Int} :
    inRange lower upper (some p) = true ↔ lower ≤ p ∧ ∀ u ∈ upper, p ≤ u := by
  cases upper <;> simp [inRange]

namespace Demon

variable {lower step : Int} {upper : Option Int} {d : Demon}

theorem removedAt_of_listed (h : d.listed) : d.removedAt = none := Option.isNone_iff_eq_none.1 h

theorem exists_removedAt (h : ¬ d.listed) : ∃ r, d.removedAt = some r := by
  rw [listed, Bool.not_eq_true, Option.isNone_eq_false_iff] at h
  exact Option.isSome_iff_exists.1 h

def moved (lower : Int) (upper : Option Int) (step : Int) (d : Demon) : Demon :=
  if d.listed && inRange lower upper d.position then { d with position := d.position.map (· + step) } else d

@[simp] theorem createdAt_moved : (d.moved lower upper step).createdAt = d.createdAt := by
  unfold moved; split <;> rfl

@[simp] theorem removedAt_moved : (d.moved lower upper step).removedAt = d.removedAt := by
  unfold moved; split <;> rfl

@[simp] theorem listed_moved : (d.moved lower upper step).listed = d.listed := by
  simp [listed]

theorem get_moved {f : Field} (h : f ≠ .position) : (d.moved lower upper step).get f = d.get f := by
  unfold moved
  split
  · cases f <;> first | rfl | exact absurd rfl h
  · rfl

theorem moved_of_not_listed (h : ¬ d.listed) : d.moved lower upper step = d := by
  simp [moved, h]

theorem position_moved {p : Int} (listed : d.listed) (at_p : d.position = some p) :
    (d.moved lower upper step).position = some (if inRange lower upper (some p) then p + step else p) := by
  simp only [moved, listed, at_p, Bool.true_and]
  split <;> simp [*]

/-- A listed demon as a move of another one from `p` to `q` leaves it. -/
def displaced (p q : Int) (d : Demon) : Demon :=
  if q < p then d.moved q (some (p - 1)) 1 else d.moved (p + 1) (some q) (-1)

@[simp] theorem listed_displaced {p q : Int} : (d.displaced p q).listed = d.listed := by
  unfold displaced; split <;> exact listed_moved

end Demon

structure NewDemon.Describes (n : NewDemon) (time : Moment) (d : Demon) : Prop where
  name : n.name = some d.name
  position : n.position = d.position
  requirement : n.requirement = some d.requirement
  percentage : isPercentage d.requirement = true
  video : n.video = d.video
  verifier : n.verifierId = some d.verifierId
  publisher : n.publisherId = some d.publisherId
  rated : d.rated = n.rated.getD true
  created : d.createdAt = time
  listed : d.removedAt = none
  storable : isStorable d.verifierId = true ∧ isStorable d.publisherId = true

theorem Changes.not_mem_of_isEmpty {changes : Changes} {f : Field} (h : changes.isEmpty = true) :
    f ∉ changes.fields := by
  simp only [isEmpty, Bool.and_eq_true, List.isEmpty_iff] at h
  rw [h.1]
  exact List.not_mem_nil

section ChangedFields

variable {old : FieldValues} {changes : Changes} {f : Field}

theorem mem_changedFields : f ∈ (changedFields old changes).fields ↔ ∃ v, changes.edit f = .set v ∧ old f ≠ v := by
  simp only [Changes.fields, List.mem_filter, Field.mem_all, true_and, changedFields]
  cases changes.edit f with
  | keep => simp [Edit.isSet]
  | set value =>
    by_cases same : old f = value
    · simp [same, Edit.isSet]
    · simp [same, Edit.isSet]

theorem isEmpty_changedFields :
    (changedFields old changes).isEmpty = true ↔ ∀ f v, changes.edit f = .set v → old f = v := by
  have known : (changedFields old changes).unknown.isEmpty = true := rfl
  rw [Changes.isEmpty, known, Bool.and_true, List.isEmpty_iff, List.eq_nil_iff_forall_not_mem]
  simp only [mem_changedFields, not_exists, not_and, not_not]

theorem kept_of_not_mem (h : f ∉ (changedFields old changes).fields) :
    changes.edit f = .keep ∨ changes.edit f = .set (old f) := by
  cases edit : changes.edit f with
  | keep => exact .inl rfl
  | set value =>
    refine .inr (congrArg Edit.set ?_)
    by_contra differs
    exact h (mem_changedFields.2 ⟨value, edit, Ne.symm differs⟩)

end ChangedFields

theorem Edit.applied_of_kept {β : Type} {old : Option β} {edit : Edit β} (kept : edit = .keep ∨ edit = .set old) :
    edit.applied old = old := by
  rcases kept with rfl | rfl <;> rfl

theorem Demon.get_edited {d patched : Demon} {edit : (f : Field) → Edit f.Value}
    (h : d.edited? edit = some patched) (f : Field) : patched.get f = (edit f).applied (d.get f) := by
  have required {β : Type} {old value : β} {e : Edit β} (h : e.required old = some value) :
      some value = e.applied (some old) := by
    cases e <;> exact h.symm
  simp only [edited?, Option.bind_eq_bind, Option.bind_eq_some_iff, Option.pure_def,
    Option.some.injEq] at h
  obtain ⟨name, hname, requirement, hrequirement, verifier, hverifier, publisher, hpublisher,
    rated, hrated, rfl⟩ := h
  cases f with
  | name => exact required hname
  | position => rfl
  | requirement => exact required hrequirement
  | video => rfl
  | verifier => exact required hverifier
  | publisher => exact required hpublisher
  | rated => exact required hrated

theorem Demon.times_edited {d patched : Demon} {edit : (f : Field) → Edit f.Value}
    (h : d.edited? edit = some patched) :
    patched.createdAt = d.createdAt ∧ patched.removedAt = d.removedAt := by
  simp only [edited?, Option.bind_eq_bind, Option.bind_eq_some_iff, Option.pure_def,
    Option.some.injEq] at h
  obtain ⟨_, _, _, _, _, _, _, _, _, _, rfl⟩ := h
  exact ⟨rfl, rfl⟩

theorem Demon.listed_edited {d patched : Demon} {edit : (f : Field) → Edit f.Value}
    (h : d.edited? edit = some patched) : patched.listed = d.listed := by
  rw [listed, (times_edited h).2, listed]

namespace Database

open Work

variable {α : Type}

/-- The log's rows in the order in which they were written. -/
def journal (db : Database α) : List Modification := db.modifications.entries.map Prod.snd

def moves (db : Database α) (lower : Int) (upper : Option Int) (userId : Option Int) (time : Moment) :
    List Modification :=
  (db.demonsBetween lower upper).map fun (id, d) => ⟨id, time, userId, (Changes.position d.position).values⟩

structure Logs (db db' : Database α) (rows : List Modification) : Prop where
  frame : db' = { db with
    demons := db'.demons, modifications := db'.modifications, additions := db'.additions }
  entries : ∃ added, db'.modifications.entries = db.modifications.entries ++ added ∧
    added.map Prod.snd = rows

namespace Logs

variable {db db' db'' : Database α} {rows rows' : List Modification}

theorem trans (h : Logs db db' rows) (h' : Logs db' db'' rows') : Logs db db'' (rows ++ rows') := by
  refine ⟨?_, ?_⟩
  · rw [h'.frame, h.frame]
  · obtain ⟨added, eq, rfl⟩ := h.entries
    obtain ⟨added', eq', rfl⟩ := h'.entries
    exact ⟨added ++ added', by simp [eq', eq], by simp⟩

theorem refl (db : Database α) : Logs db db [] := ⟨rfl, [], by simp, rfl⟩

theorem demons (db : Database α) (demons : Table Int Demon) : Logs db { db with demons } [] :=
  ⟨rfl, [], by simp, rfl⟩

end Logs

theorem logs_logged (db : Database α) (id : Int) (previous : Changes) (userId : Option Int) (time : Moment) :
    Logs db (db.logged id previous userId time) [⟨id, time, userId, previous.values⟩] :=
  ⟨rfl, [(db.modifications.nextKey, ⟨id, time, userId, previous.values⟩)], rfl, rfl⟩

theorem foldl_logged (es : List (Int × Demon)) (userId : Option Int) (time : Moment) (db : Database α) :
    let logged := es.foldl (fun db (id, d) => db.logged id (.position d.position) userId time) db
    logged.demons = db.demons ∧ logged.additions = db.additions ∧
      Logs db logged (es.map fun (id, d) => ⟨id, time, userId, (Changes.position d.position).values⟩) := by
  induction es generalizing db with
  | nil => exact ⟨rfl, rfl, Logs.refl db⟩
  | cons e rest ih =>
    obtain ⟨demons, additions, logs⟩ := ih (db.logged e.1 (.position e.2.position) userId time)
    exact ⟨demons, additions, (logs_logged db e.1 (.position e.2.position) userId time).trans logs⟩

variable {db : Database α} {lower step : Int} {upper : Option Int} {userId : Option Int} {time : Moment}

theorem logs_shift : Logs db (db.shift lower upper step userId time) (db.moves lower upper userId time) := by
  obtain ⟨-, -, logs⟩ := foldl_logged (db.demonsBetween lower upper) userId time db
  refine ⟨?_, logs.entries⟩
  have frame := logs.frame
  simp only [shift]
  rw [frame]

theorem additions_shift : (db.shift lower upper step userId time).additions = db.additions :=
  (foldl_logged (db.demonsBetween lower upper) userId time db).2.1

theorem find?_shift (id : Int) : (db.shift lower upper step userId time).demons.find? id =
    (db.demons.find? id).map (Demon.moved lower upper step) :=
  Table.find?_mapRows _ _ id

theorem nextKey_shift :
    (db.shift lower upper step userId time).demons.nextKey = db.demons.nextKey :=
  Table.nextKey_mapRows _ _

theorem listedDemon_eq_ok_iff {id : Int} {d : Demon} :
    db.listedDemon id = .ok d ↔ db.demons.find? id = some d ∧ d.listed := by
  simp only [listedDemon, bind_eq_ok, requireRow_eq_ok_iff]
  constructor
  · rintro ⟨d', found, h⟩
    split at h
    · rename_i listed
      cases h
      exact ⟨found, listed⟩
    · cases h
  · rintro ⟨found, listed⟩
    exact ⟨d, found, if_pos listed⟩

theorem kind_of_listedDemon {id : Int} {e : Error} (h : db.listedDemon id = .error e) :
    e.kind ≠ .invariant := by
  rcases bind_eq_error.1 h with h | ⟨d, -, h⟩
  · exact kind_of_requireRow (by nofun) h
  · split at h <;> cases h
    exact nofun

section Adding

variable {now : Moment} {n : NewDemon} {stamp : Stamp} {demon : Demon} {position : Int} {change : Change α}

/-- Everything from a position on pushed down by one, and a demon put there. -/
def withDemon (db : Database α) (position : Int) (userId : Option Int) (time : Moment) (demon : Demon) :
    Database α :=
  let shifted := db.shift position none 1 userId time
  { shifted with demons := shifted.demons.append demon }

theorem find?_withDemon (id : Int) : (db.withDemon position userId time demon).demons.find? id =
    if id = db.demons.nextKey then some demon
    else (db.demons.find? id).map (Demon.moved position none 1) := by
  rw [withDemon, Table.find?_append, find?_shift, nextKey_shift]

theorem logAddition_eq_ok_iff {id : Int} {db' : Database α} : db.logAddition id userId time = .ok db' ↔
    ∃ additions, (userId.all isStorable ∧ db.additions.insert? id ⟨time, userId⟩ = some additions) ∧
      db' = { db with additions } := by
  simp only [logAddition, bind_eq_ok, requireStorable_eq_ok_iff]
  cases db.additions.insert? id ⟨time, userId⟩ with
  | none => simp
  | some additions =>
    constructor
    · rintro ⟨_, storable, ⟨⟩⟩
      exact ⟨additions, ⟨storable, rfl⟩, rfl⟩
    · rintro ⟨_, ⟨storable, ⟨⟩⟩, rfl⟩
      exact ⟨(), storable, rfl⟩

theorem kind_of_logAddition {id : Int} {e : Error} (h : db.logAddition id userId time = .error e) :
    e.kind ≠ .invariant := by
  rcases bind_eq_error.1 h with h | ⟨_, -, h⟩
  · simp [kind_of_requireStorable h]
  · split at h <;> cases h
    exact nofun

/-- A demon is added if it is as it should be and the log has no entry for it, and the positions are in order then. -/
theorem addDemon_eq_ok_iff : db.mutate now (.addDemon n stamp) = .ok change ↔
    ∃ time position demon, effectiveTime now stamp.time = .ok time ∧ n.Describes time demon ∧
      demon.position = some position ∧ (1 ≤ position ∧ position ≤ db.listSize + 1) ∧
      (db.withDemon position stamp.userId time demon).logAddition db.demons.nextKey stamp.userId time =
        .ok change.database ∧
      change.database.checkPositions = .ok () ∧ change.entity = .demon db.demons.nextKey demon ∧
      change.events = [.demonAdded] := by
  simp only [mutate, Call.mutation, Mutation.addDemon, outcome_lift_bind, outcome_look_bind, outcome_write_bind,
    outcome_update_bind, outcome_pure, bind_eq_ok, requireComparable_eq_ok_iff, requireValue_eq_ok_iff,
    requirePercentage_eq_ok_iff, requirePosition_eq_ok_iff, requireStorable_eq_ok_iff, nextKey_shift]
  constructor
  · rintro ⟨time, dated, requirement, hrequirement, _, percentage, position, hposition, _, inside, _, fits, _, fits',
      name, hname, verifier, hverifier, publisher, hpublisher, _, ⟨⟩, logged, hlogged, _, checked, ⟨⟩⟩
    obtain ⟨storable, storable'⟩ : isStorable verifier = true ∧ isStorable publisher = true := by
      simpa [hverifier, hpublisher] using And.intro fits fits'
    exact ⟨time, position, _, dated, ⟨hname, hposition, hrequirement, percentage, rfl, hverifier, hpublisher, rfl, rfl,
      rfl, storable, storable'⟩, rfl, inside, hlogged, checked, rfl, rfl⟩
  · rintro ⟨_, position, ⟨name, _, requirement, _, verifier, publisher, _, time, _⟩, dated, asked, ⟨⟩, inside, hlogged,
      checked, entity, events⟩
    obtain ⟨hname, hposition, hrequirement, percentage, ⟨⟩, hverifier, hpublisher, ⟨⟩, ⟨⟩, ⟨⟩, fits, fits'⟩ := asked
    obtain ⟨logged, _, _⟩ := change
    obtain rfl : _ = _ := entity
    obtain rfl : _ = _ := events
    rw [hverifier, hpublisher]
    exact ⟨time, dated, requirement, hrequirement, (), percentage, position, hposition, (), inside, (), fits, (), fits',
      name, hname, verifier, rfl, publisher, rfl, _, rfl, logged, hlogged, (), checked, rfl⟩

end Adding

section Patching

variable {now : Moment} {id : Int} {changes : Changes} {stamp : Stamp} {demon patched : Demon}
  {old : Option Int} {edit : Edit Int} {previous : Changes} {shifted : Database α} {change : Change α}

def replaced (db : Database α) (id : Int) (patched : Demon) (previous : Changes) (userId : Option Int)
    (time : Moment) : Database α :=
  { db with demons := db.demons.modify id fun _ => patched }.logged id previous userId time

theorem logs_replaced : Logs db (db.replaced id patched previous userId time)
    [⟨id, time, userId, previous.values⟩] :=
  (Logs.demons db _).trans (logs_logged _ id previous userId time)

theorem find?_replaced (found : db.demons.find? id = some demon) (id' : Int) :
    (db.replaced id patched previous userId time).demons.find? id' =
      if id' = id then some patched else db.demons.find? id' :=
  Table.find?_modify_of_found found patched id'

/-- The demons that a move from `p` to `q` displaces: those from the new position on down to the old one, or
those below the old position up to the new one. -/
def displaced (db : Database α) (p q : Int) (userId : Option Int) (time : Moment) : Database α :=
  if q < p then db.shift q (some (p - 1)) 1 userId time
  else db.shift (p + 1) (some q) (-1) userId time

theorem find?_displaced {p q : Int} (id : Int) :
    (db.displaced p q userId time).demons.find? id = (db.demons.find? id).map (Demon.displaced p q) := by
  unfold displaced
  split
  · rename_i up
    rw [find?_shift]
    exact congrArg (Option.map · _) (funext fun d => by rw [Demon.displaced, if_pos up])
  · rename_i down
    rw [find?_shift]
    exact congrArg (Option.map · _) (funext fun d => by rw [Demon.displaced, if_neg down])

theorem makeRoom_cases (h : db.makeRoom old edit userId time = .ok shifted) :
    ((edit = .keep ∨ edit = .set old) ∧ shifted = db) ∨
      ∃ p q, old = some p ∧ edit = .set (some q) ∧ p ≠ q ∧ (1 ≤ q ∧ q ≤ db.listSize) ∧
        shifted = db.displaced p q userId time := by
  unfold makeRoom at h
  split at h
  · cases h
    exact .inl ⟨.inl rfl, rfl⟩
  · split at h
    · rename_i same
      cases h
      exact .inl ⟨.inr (by rw [same]), rfl⟩
    · rename_i differs
      simp only [bind_eq_ok, requireComparable_eq_ok_iff, requirePosition_eq_ok_iff] at h
      obtain ⟨q, rfl, _, inside, h⟩ := h
      cases old with
      | none => cases h
      | some p =>
        refine .inr ⟨p, q, rfl, rfl, fun same => differs (by rw [same]), inside, ?_⟩
        dsimp only at h
        unfold displaced
        split at h
        · rename_i up
          cases h
          rw [if_pos up]
        · rename_i down
          cases h
          rw [if_neg down]

theorem kind_of_makeRoom {e : Error} (h : db.makeRoom old edit userId time = .error e) :
    e.kind ≠ .invariant := by
  unfold makeRoom at h
  split at h
  · cases h
  · split at h
    · cases h
    · rcases bind_eq_error.1 h with h | ⟨q, -, h⟩
      · simp [kind_of_requireComparable h]
      · rcases bind_eq_error.1 h with h | ⟨_, -, h⟩
        · simp [kind_of_requirePosition h]
        · split at h
          · cases h
            decide
          · split at h <;> cases h

/-- A demon is patched if the call may be made at all and the patch changes nothing, or it makes room and replaces the
demon's row, and the positions are in order then. -/
theorem patchDemon_eq_ok_iff : db.mutate now (.patchDemon id changes stamp) = .ok change ↔
    (changes.requireKnown = .ok () ∧ requireRequirement (changes.edit .requirement) = .ok ()) ∧
      ∃ time demon, effectiveTime now stamp.time = .ok time ∧ db.demons.find? id = some demon ∧ demon.listed ∧
        ((changedFields demon.get changes).isEmpty = true ∧ change = ⟨db, .demon id demon, []⟩ ∨
          (changedFields demon.get changes).isEmpty = false ∧ ∃ shifted patched,
            db.makeRoom demon.position (changes.edit .position) stamp.userId time = .ok shifted ∧
            demon.edited? changes.edit = some patched ∧
            (changes.requireFitting (changedFields demon.get changes).fields = .ok () ∧
              stamp.userId.all isStorable = true) ∧
            (shifted.replaced id patched (changedFields demon.get changes) stamp.userId time).checkPositions = .ok () ∧
            change = ⟨shifted.replaced id patched (changedFields demon.get changes) stamp.userId time,
              .demon id patched, (changedFields demon.get changes).fields.filterMap ChangeEvent.ofField?⟩) := by
  simp only [mutate, Call.mutation, Mutation.patchDemon, outcome_lift_bind, outcome_look_bind, bind_eq_ok,
    listedDemon_eq_ok_iff]
  constructor
  · rintro ⟨_, known, _, asked, time, dated, demon, ⟨found, listed⟩, done⟩
    refine ⟨⟨known, asked⟩, time, demon, dated, found, listed, ?_⟩
    split at done
    · rename_i same
      cases done
      exact .inl ⟨same, rfl⟩
    · rename_i named
      simp only [outcome_lift_bind, outcome_look_bind, outcome_write_bind, outcome_update_bind, outcome_pure,
        bind_eq_ok, requireValue_eq_ok_iff, requireStorable_eq_ok_iff] at done
      obtain ⟨shifted, room, _, fits, patched, edited, _, loggable, _, checked, ⟨⟩⟩ := done
      exact .inr ⟨Bool.eq_false_iff.2 named, shifted, patched, room, edited, ⟨fits, loggable⟩, checked, rfl⟩
  · rintro ⟨⟨known, asked⟩, time, demon, dated, found, listed, outcome⟩
    refine ⟨(), known, (), asked, time, dated, demon, ⟨found, listed⟩, ?_⟩
    rcases outcome with ⟨same, rfl⟩ | ⟨named, shifted, patched, room, edited, ⟨fits, loggable⟩, checked, rfl⟩
    · rw [if_pos same]
      rfl
    · rw [if_neg (Bool.eq_false_iff.1 named)]
      simp only [outcome_lift_bind, outcome_look_bind, outcome_write_bind, outcome_update_bind, outcome_pure,
        bind_eq_ok, requireValue_eq_ok_iff, requireStorable_eq_ok_iff]
      exact ⟨shifted, room, (), fits, patched, edited, (), loggable, (), checked, rfl⟩

end Patching

section Removing

variable {now : Moment} {id : Int} {stamp : Stamp} {demon : Demon} {old : Int} {change : Change α}

def withoutDemon (db : Database α) (id : Int) (demon : Demon) (old : Int) (userId : Option Int)
    (time : Moment) : Database α :=
  (let logged := db.logged id (.position demon.position) userId time
  { logged with demons := logged.demons.modify id fun _ =>
      { demon with position := none, removedAt := some time } }).shift (old + 1) none (-1) userId time

theorem find?_withoutDemon (found : db.demons.find? id = some demon) (id' : Int) :
    (db.withoutDemon id demon old userId time).demons.find? id' =
      if id' = id then some { demon with position := none, removedAt := some time }
      else (db.demons.find? id').map (Demon.moved (old + 1) none (-1)) := by
  rw [withoutDemon, find?_shift]
  simp only [logged, Table.find?_modify]
  split
  · rename_i same
    rw [same, found]
    rfl
  · rfl

theorem removeDemon_eq_ok_iff : db.mutate now (.removeDemon id stamp) = .ok change ↔
    ∃ time demon old, effectiveTime now stamp.time = .ok time ∧ db.demons.find? id = some demon ∧
      demon.listed ∧ demon.position = some old ∧ stamp.userId.all isStorable = true ∧
      (db.withoutDemon id demon old stamp.userId time).checkPositions = .ok () ∧
      change = ⟨db.withoutDemon id demon old stamp.userId time,
        .demon id { demon with position := none, removedAt := some time }, [.demonRemoved]⟩ := by
  simp only [mutate, Call.mutation, Mutation.removeDemon, outcome_lift_bind, outcome_look_bind, outcome_write_bind,
    outcome_pure, bind_eq_ok, listedDemon_eq_ok_iff, requireStorable_eq_ok_iff, requireSummable_eq_ok_iff]
  constructor
  · rintro ⟨time, dated, demon, ⟨found, listed⟩, _, loggable, old, at_old, _, checked, ⟨⟩⟩
    exact ⟨time, demon, old, dated, found, listed, at_old, loggable, checked, rfl⟩
  · rintro ⟨time, demon, old, dated, found, listed, at_old, loggable, checked, rfl⟩
    exact ⟨time, dated, demon, ⟨found, listed⟩, (), loggable, old, at_old, (), checked, rfl⟩

end Removing

section Judging

variable {id : Int} {status : Status} {banned : Bool} {nationality subdivision : Option String}
  {now : Moment} {change : Change α}

theorem setRecordStatus_eq_ok_iff : db.mutate now (.setRecordStatus id status) = .ok change ↔
    ∃ record, db.records.find? id = some record ∧
      (record.status = status ∧ change = ⟨db, .record id record, []⟩ ∨
        record.status ≠ status ∧ status ∈ record.status.successors ∧
          change = ⟨{ db with records := db.records.modify id fun _ => { record with status } },
            .record id { record with status }, [.recordStatus]⟩) := by
  simp only [mutate, Call.mutation, Mutation.setRecordStatus, outcome_look_bind, bind_eq_ok, requireRow_eq_ok_iff]
  refine exists_congr fun record => and_congr_right fun _ => ?_
  split
  · rename_i same
    simp [same, outcome_pure, eq_comm]
  · rename_i other
    simp only [outcome_lift_bind, outcome_write_bind, outcome_pure, bind_eq_ok, requireTransition_eq_ok_iff]
    simp [other, eq_comm]

theorem kind_of_setRecordStatus {e : Error} (h : db.mutate now (.setRecordStatus id status) = .error e) :
    e.kind ≠ .invariant := by
  simp only [mutate, Call.mutation, Mutation.setRecordStatus, outcome_look_bind, bind_eq_error] at h
  rcases h with h | ⟨record, -, h⟩
  · exact kind_of_requireRow (by nofun) h
  · split at h
    · cases h
    · simp only [outcome_lift_bind, outcome_write_bind, outcome_pure, bind_eq_error] at h
      rcases h with h | ⟨_, -, h⟩
      · simp [kind_of_requireTransition h]
      · cases h

theorem find?_storePlayer {player stored : Player} (found : db.players.find? id = some player) (id' : Int) :
    (db.storePlayer id stored).players.find? id' = if id' = id then some stored else db.players.find? id' :=
  Table.find?_modify_of_found found stored id'

theorem find?_storePlayer_self {player stored : Player} (found : db.players.find? id = some player) :
    (db.storePlayer id stored).players.find? id = some stored :=
  (find?_storePlayer found id).trans (if_pos rfl)

theorem setPlayerBanned_eq_ok_iff : db.mutate now (.setPlayerBanned id banned) = .ok change ↔
    ∃ player, db.players.find? id = some player ∧
      (player.banned = banned ∧ change = ⟨db, .player id player, []⟩ ∨
        player.banned ≠ banned ∧ change =
          ⟨db.storePlayer id { player with banned }, .player id { player with banned }, [.playerBanned]⟩) := by
  simp only [mutate, Call.mutation, Mutation.setPlayerBanned, outcome_look_bind, bind_eq_ok, requireRow_eq_ok_iff]
  refine exists_congr fun player => and_congr_right fun _ => ?_
  split
  · rename_i same
    simp [same, outcome_pure, eq_comm]
  · rename_i other
    simp [other, outcome_write_bind, outcome_pure, eq_comm]

theorem kind_of_setPlayerBanned {e : Error} (h : db.mutate now (.setPlayerBanned id banned) = .error e) :
    e.kind ≠ .invariant := by
  simp only [mutate, Call.mutation, Mutation.setPlayerBanned, outcome_look_bind, bind_eq_error] at h
  rcases h with h | ⟨player, -, h⟩
  · exact kind_of_requireRow (by nofun) h
  · split at h <;> cases h

theorem kind_of_requireCodes {e : Error} (h : db.requireCodes nationality subdivision = .error e) :
    e.kind ≠ .invariant := by
  unfold requireCodes at h
  split at h
  · cases h
  · cases h
    simp [Error.kind]
  · split at h
    · cases h
      simp [Error.kind]
    · split at h
      · cases h
      · split at h <;> cases h
        simp [Error.kind]

theorem setPlayerNationality_eq_ok_iff :
    db.mutate now (.setPlayerNationality id nationality subdivision) = .ok change ↔
      requirePaired nationality subdivision = .ok () ∧ ∃ player, db.players.find? id = some player ∧
        db.requireCodes nationality subdivision = .ok () ∧
        ((player.nationality = nationality ∧ player.subdivision = subdivision) ∧
            change = ⟨db, .player id player, []⟩ ∨
          ¬ (player.nationality = nationality ∧ player.subdivision = subdivision) ∧ change =
            ⟨db.storePlayer id { player with nationality, subdivision },
              .player id { player with nationality, subdivision }, [.playerNationality]⟩) := by
  simp only [mutate, Call.mutation, Mutation.setPlayerNationality, outcome_lift_bind, outcome_look_bind, bind_eq_ok,
    requireRow_eq_ok_iff]
  constructor
  · rintro ⟨_, paired, player, found, _, codes, done⟩
    refine ⟨paired, player, found, codes, ?_⟩
    split at done
    · rename_i same
      cases done
      exact .inl ⟨same, rfl⟩
    · rename_i other
      cases done
      exact .inr ⟨other, rfl⟩
  · rintro ⟨paired, player, found, codes, ⟨same, rfl⟩ | ⟨other, rfl⟩⟩
    · refine ⟨(), paired, player, found, (), codes, ?_⟩
      rw [if_pos same]
      rfl
    · refine ⟨(), paired, player, found, (), codes, ?_⟩
      rw [if_neg other]
      rfl

theorem kind_of_setPlayerNationality {e : Error}
    (h : db.mutate now (.setPlayerNationality id nationality subdivision) = .error e) : e.kind ≠ .invariant := by
  simp only [mutate, Call.mutation, Mutation.setPlayerNationality, outcome_lift_bind, outcome_look_bind,
    bind_eq_error] at h
  rcases h with h | ⟨_, -, h | ⟨player, -, h | ⟨_, -, h⟩⟩⟩
  · simp [kind_of_requirePaired h]
  · exact kind_of_requireRow (by nofun) h
  · exact kind_of_requireCodes h
  · split at h <;> cases h

end Judging

structure SameList (db db' : Database α) : Prop where
  demons : db'.demons = db.demons
  modifications : db'.modifications = db.modifications
  additions : db'.additions = db.additions

end Database

def Call.stamp? : Call → Option Stamp
  | .addDemon _ stamp | .patchDemon _ _ stamp | .removeDemon _ stamp => some stamp
  | .setRecordStatus .. | .setPlayerBanned .. | .setPlayerNationality .. => none

namespace Database

variable {α : Type} {db : Database α} {now : Moment} {call : Call} {change : Change α}

/-- A call about a record or a player leaves the list and its log alone. -/
theorem sameList_mutate (other : call.stamp? = none) (done : db.mutate now call = .ok change) :
    SameList db change.database := by
  cases call with
  | addDemon | patchDemon | removeDemon => cases other
  | setRecordStatus recordId status =>
    obtain ⟨record, -, ⟨-, rfl⟩ | ⟨-, -, rfl⟩⟩ := setRecordStatus_eq_ok_iff.1 done
    · exact ⟨rfl, rfl, rfl⟩
    · exact ⟨rfl, rfl, rfl⟩
  | setPlayerBanned playerId banned =>
    obtain ⟨player, -, ⟨-, rfl⟩ | ⟨-, rfl⟩⟩ := setPlayerBanned_eq_ok_iff.1 done
    · exact ⟨rfl, rfl, rfl⟩
    · exact ⟨rfl, rfl, rfl⟩
  | setPlayerNationality playerId nationality subdivision =>
    obtain ⟨-, player, -, -, ⟨-, rfl⟩ | ⟨-, rfl⟩⟩ := setPlayerNationality_eq_ok_iff.1 done
    · exact ⟨rfl, rfl, rfl⟩
    · exact ⟨rfl, rfl, rfl⟩

end Database

end DemonBoard
