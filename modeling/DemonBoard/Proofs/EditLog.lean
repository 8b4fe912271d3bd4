import DemonBoard.Proofs.Edits

/-! What the log tells of an edit. Of every demon that an edit changes it gets one row, with the values that
the demon has lost, and it gets no other row. -/

namespace DemonBoard

variable {rows rows' : List Modification} {id : Int} {f : Field} {time : Moment} {userId : Option Int}
  {d d' d'' : Demon}

/-- The values that a demon has lost by an edit, as a row of the log keeps them. -/
def Demon.lost (d d' : Demon) : FieldValues := fun f => if d.get f = d'.get f then none else d.get f

def rowsOf (rows : List Modification) (id : Int) : List Modification := rows.filter fun m => m.demonId = id

theorem rowsOf_append : rowsOf (rows ++ rows') id = rowsOf rows id ++ rowsOf rows' id := List.filter_append ..

theorem mem_rowsOf {m : Modification} (mem : m ∈ rows) : m ∈ rowsOf rows m.demonId :=
  List.mem_filter.2 ⟨mem, decide_eq_true rfl⟩

theorem rowsOf_self {m : Modification} (about : m.demonId = id) : rowsOf [m] id = [m] := by
  simp [rowsOf, about]

theorem rowsOf_other {m : Modification} (other : m.demonId ≠ id) : rowsOf [m] id = [] := by
  simp [rowsOf, other]

/-- Rows tell of a demon's change: nothing if no field has changed, and else once what the demon has lost. -/
def Demon.Logged (time : Moment) (userId : Option Int) (rows : List Modification) (id : Int) (d d' : Demon) :
    Prop :=
  (∀ f, d.get f = d'.get f) ∧ rowsOf rows id = [] ∨
    (∃ f, d.get f ≠ d'.get f) ∧ rowsOf rows id = [⟨id, time, userId, d.lost d'⟩]

namespace Demon.Logged

theorem refl (untold : rowsOf rows id = []) (d : Demon) : Logged time userId rows id d d :=
  .inl ⟨fun _ => rfl, untold⟩

theorem untold (h : Logged time userId rows id d d) : rowsOf rows id = [] := by
  rcases h with ⟨-, untold⟩ | ⟨⟨f, ne⟩, -⟩
  · exact untold
  · exact absurd rfl ne

/-- Of two edits in a row that do not both change a demon, their rows together tell once. -/
theorem trans (h : Logged time userId rows id d d') (h' : Logged time userId rows' id d' d'')
    (apart : rowsOf rows id = [] ∨ rowsOf rows' id = []) : Logged time userId (rows ++ rows') id d d'' := by
  unfold Logged
  rw [rowsOf_append]
  rcases h with ⟨same, untold⟩ | ⟨⟨f, ne⟩, told⟩
  · have get_eq : d.get = d'.get := funext same
    have lost_eq : d.lost d'' = d'.lost d'' := by
      unfold lost
      rw [get_eq]
    rw [untold, List.nil_append, get_eq, lost_eq]
    exact h'
  · rcases h' with ⟨same, untold⟩ | ⟨-, told'⟩
    · have get_eq : d''.get = d'.get := (funext same).symm
      have lost_eq : d.lost d'' = d.lost d' := by
        unfold lost
        rw [get_eq]
      rw [told, untold, List.append_nil, get_eq, lost_eq]
      exact .inr ⟨⟨f, ne⟩, rfl⟩
    -- two rows about one demon would keep the values in between
    · rw [told, told'] at apart
      rcases apart with none | none <;> cases none

end Demon.Logged

theorem Changes.values_position_of_ne {value : Option Int} (h : f ≠ .position) :
    (Changes.position value).values f = Option.none := by
  cases f <;> first | rfl | exact absurd rfl h

theorem Demon.lost_of_position (moved : d.position ≠ d'.position)
    (still : ∀ f, f ≠ .position → d.get f = d'.get f) : d.lost d' = (Changes.position d.position).values := by
  funext f
  by_cases place : f = .position
  · subst place
    exact if_neg moved
  · rw [Changes.values_position_of_ne place]
    exact if_pos (still f place)

theorem Demon.lost_edited {changes : Changes} (edited : d.edited? changes.edit = some d') :
    d.lost d' = (changedFields d.get changes).values := by
  funext f
  rw [lost, get_edited edited]
  simp only [Changes.values, changedFields]
  cases changes.edit f with
  | keep => exact if_pos rfl
  | set value =>
    dsimp only [Edit.applied]
    by_cases same : d.get f = value
    · rw [if_pos same]
      exact if_pos same
    · rw [if_neg same]
      exact if_neg same

theorem Demon.exists_ne_edited {changes : Changes} (edited : d.edited? changes.edit = some d')
    (named : (changedFields d.get changes).isEmpty = false) : ∃ f, d.get f ≠ d'.get f := by
  by_contra same
  rw [not_exists_not] at same
  refine Bool.false_ne_true (named.symm.trans (isEmpty_changedFields.2 fun f v edit => ?_))
  rw [same f, get_edited edited, edit]
  rfl

namespace Database

variable {α : Type} {db : Database α} {lower step p q : Int} {upper : Option Int} {changes : Changes}
  {demon patched : Demon}

theorem mem_moves {m : Modification} : m ∈ db.moves lower upper userId time ↔
    ∃ id d, db.demons.find? id = some d ∧ d.listed ∧ inRange lower upper d.position ∧
      m = ⟨id, time, userId, (Changes.position d.position).values⟩ := by
  simp only [moves, demonsBetween, List.mem_map, Prod.exists]
  constructor
  · rintro ⟨id, d, mem, rfl⟩
    obtain ⟨listed, within⟩ := List.mem_filter.1 ((sortOn_perm _ _).mem_iff.1 mem)
    obtain ⟨found, listed⟩ := mem_listedDemons.1 listed
    exact ⟨id, d, found, listed, within, rfl⟩
  · rintro ⟨id, d, found, listed, within, rfl⟩
    refine ⟨id, d, (sortOn_perm _ _).mem_iff.2 ?_, rfl⟩
    exact List.mem_filter.2 ⟨mem_listedDemons.2 ⟨found, listed⟩, within⟩

theorem rowsOf_moves (found : db.demons.find? id = some demon) :
    rowsOf (db.moves lower upper userId time) id =
      if demon.listed && inRange lower upper demon.position then
        [⟨id, time, userId, (Changes.position demon.position).values⟩]
      else [] := by
  have between : ((db.demonsBetween lower upper).filter fun e => e.1 = id).Perm
      (if demon.listed && inRange lower upper demon.position then [(id, demon)] else []) := by
    refine ((sortOn_perm _ _).filter _).trans (List.Perm.of_eq ?_)
    have row := db.demons.filter_key id
    rw [found] at row
    calc
      _ = (db.demons.entries.filter fun e => e.1 = id).filter
          fun e => e.2.listed && inRange lower upper e.2.position := by
        simp only [listedDemons, List.filter_filter]
        refine List.filter_congr fun e _ => ?_
        simp only [Bool.and_comm]
      _ = _ := by
        rw [row]
        simp [List.filter_cons]
  have told : rowsOf (db.moves lower upper userId time) id =
      ((db.demonsBetween lower upper).filter fun e => e.1 = id).map
        fun e => ⟨e.1, time, userId, (Changes.position e.2.position).values⟩ := by
    rw [rowsOf, moves, List.filter_map]
    rfl
  rw [told]
  split
  · rename_i within
    rw [if_pos within] at between
    rw [List.perm_singleton.1 between]
    rfl
  · rename_i outside
    rw [if_neg outside] at between
    rw [between.eq_nil]
    rfl

theorem logged_moved (found : db.demons.find? id = some demon) (moves : step ≠ 0) :
    Demon.Logged time userId (db.moves lower upper userId time) id demon (demon.moved lower upper step) := by
  by_cases within : demon.listed && inRange lower upper demon.position
  · obtain ⟨listed, inside⟩ := Bool.and_eq_true_iff.1 within
    have changed : demon.position ≠ (demon.moved lower upper step).position := by
      cases at_p : demon.position with
      | none =>
        rw [at_p] at inside
        cases inside
      | some p =>
        rw [at_p] at inside
        rw [Demon.position_moved listed at_p, if_pos inside, ne_eq, Option.some_inj]
        omega
    refine .inr ⟨⟨.position, changed⟩, ?_⟩
    rw [rowsOf_moves found, if_pos within]
    rw [Demon.lost_of_position changed fun f place => (Demon.get_moved place).symm]
  · rw [show demon.moved lower upper step = demon from if_neg within]
    exact .refl (by rw [rowsOf_moves found, if_neg within]) demon

theorem logged_edited (id : Int) (userId : Option Int) (time : Moment)
    (edited : demon.edited? changes.edit = some patched)
    (named : (changedFields demon.get changes).isEmpty = false) :
    Demon.Logged time userId [⟨id, time, userId, (changedFields demon.get changes).values⟩] id demon patched := by
  refine .inr ⟨Demon.exists_ne_edited edited named, ?_⟩
  rw [rowsOf_self rfl, Demon.lost_edited edited]

theorem logged_taken (id : Int) (userId : Option Int) (time : Moment) (at_p : demon.position = some p) :
    Demon.Logged time userId [⟨id, time, userId, (Changes.position demon.position).values⟩] id demon
      { demon with position := none, removedAt := some time } := by
  have taken : demon.position ≠ none := by
    rw [at_p]
    exact nofun
  refine .inr ⟨⟨.position, taken⟩, ?_⟩
  rw [rowsOf_self rfl, Demon.lost_of_position taken]
  intro f place
  cases f <;> first | rfl | exact absurd rfl place

theorem displaced_self (at_p : demon.position = some p) : demon.displaced p q = demon := by
  have outside {lower upper : Int} (h : p < lower ∨ upper < p) : inRange lower (some upper) (some p) = false := by
    rw [← Bool.not_eq_true, inRange_some]
    rintro ⟨above, below⟩
    have := below upper rfl
    omega
  unfold Demon.displaced
  split
  · rw [Demon.moved, at_p, outside (.inr (by omega)), Bool.and_false]
    rfl
  · rw [Demon.moved, at_p, outside (.inl (by omega)), Bool.and_false]
    rfl

/-- What the log tells of an edit, by rows that it adds behind all others: nothing of new demons, and of each
demon that was there before what the edit has changed. -/
structure Audited (time : Moment) (userId : Option Int) (db after : Database α) (rows : List Modification) :
    Prop where
  entries : ∃ added, after.modifications.entries = db.modifications.entries ++ added ∧ added.map Prod.snd = rows
  known : ∀ m ∈ rows, ∃ d, db.demons.find? m.demonId = some d
  kept : ∀ id d, db.demons.find? id = some d →
    ∃ d', after.demons.find? id = some d' ∧ Demon.Logged time userId rows id d d'

namespace Audited

variable {mid after : Database α}

theorem journal_eq (h : Audited time userId db after rows) : after.journal = db.journal ++ rows := by
  obtain ⟨added, appended, rfl⟩ := h.entries
  rw [journal, appended, List.map_append, journal]

theorem trans (h : Audited time userId db mid rows) (h' : Audited time userId mid after rows')
    (old : ∀ m ∈ rows', ∃ d, db.demons.find? m.demonId = some d)
    (apart : ∀ id, rowsOf rows id = [] ∨ rowsOf rows' id = []) :
    Audited time userId db after (rows ++ rows') := by
  obtain ⟨added, first, rfl⟩ := h.entries
  obtain ⟨added', second, rfl⟩ := h'.entries
  refine ⟨⟨added ++ added', by rw [second, first, List.append_assoc], List.map_append⟩, ?_, ?_⟩
  · intro m mem
    rcases List.mem_append.1 mem with mem | mem
    · exact h.known m mem
    · exact old m mem
  · intro id d found
    obtain ⟨d', found', logged⟩ := h.kept id d found
    obtain ⟨d'', found'', logged'⟩ := h'.kept id d' found'
    exact ⟨d'', found'', logged.trans logged' (apart id)⟩

theorem congr {after' : Database α} (h : Audited time userId db after rows) (same : SameList after after') :
    Audited time userId db after' rows :=
  ⟨same.modifications ▸ h.entries, h.known, same.demons ▸ h.kept⟩

theorem of_sameList (time : Moment) (userId : Option Int) (same : SameList db after) :
    Audited time userId db after [] := by
  refine ⟨⟨[], ?_, rfl⟩, nofun, fun id d found => ⟨d, same.demons ▸ found, .refl rfl d⟩⟩
  rw [same.modifications, List.append_nil]

theorem exists_changed {m : Modification} (h : Audited time userId db after rows) (mem : m ∈ rows) :
    ∃ d d', db.demons.find? m.demonId = some d ∧ after.demons.find? m.demonId = some d' ∧
      (∃ f, d.get f ≠ d'.get f) ∧ m = ⟨m.demonId, time, userId, d.lost d'⟩ := by
  obtain ⟨d, found⟩ := h.known m mem
  obtain ⟨d', found', ⟨-, untold⟩ | ⟨changed, told⟩⟩ := h.kept _ d found
  · have told := mem_rowsOf mem
    rw [untold] at told
    cases told
  · refine ⟨d, d', found, found', changed, ?_⟩
    have row := mem_rowsOf mem
    rw [told] at row
    exact List.mem_singleton.1 row

end Audited

theorem audited_shift (moves : step ≠ 0) :
    Audited time userId db (db.shift lower upper step userId time) (db.moves lower upper userId time) := by
  refine ⟨logs_shift.entries, ?_, ?_⟩
  · intro m mem
    obtain ⟨id, d, found, -, -, rfl⟩ := mem_moves.1 mem
    exact ⟨d, found⟩
  · intro id d found
    exact ⟨d.moved lower upper step, by rw [find?_shift, found]; rfl, logged_moved found moves⟩

theorem audited_enrolled (demon : Demon) (additions : Table Int Addition) :
    Audited time userId db { db with demons := db.demons.append demon, additions } [] := by
  refine ⟨⟨[], (List.append_nil _).symm, rfl⟩, nofun, ?_⟩
  intro id d found
  have old : id ≠ db.demons.nextKey := by
    rintro rfl
    rw [db.demons.find?_nextKey] at found
    cases found
  exact ⟨d, by rw [Table.find?_append, if_neg old, found], .refl rfl d⟩

theorem audited_replaced {previous : Changes} (found : db.demons.find? id = some demon)
    (logged : Demon.Logged time userId [⟨id, time, userId, previous.values⟩] id demon patched) :
    Audited time userId db (db.replaced id patched previous userId time)
      [⟨id, time, userId, previous.values⟩] := by
  refine ⟨logs_replaced.entries, ?_, ?_⟩
  · intro m mem
    rw [List.mem_singleton.1 mem]
    exact ⟨demon, found⟩
  · intro id' d found'
    rw [find?_replaced found]
    split
    · rename_i same
      subst same
      rw [found, Option.some_inj] at found'
      exact ⟨patched, rfl, found' ▸ logged⟩
    · rename_i other
      exact ⟨d, found', .refl (rowsOf_other (Ne.symm other)) d⟩

theorem audited_displaced (db : Database α) (p q : Int) (userId : Option Int) (time : Moment) :
    ∃ rows, Audited time userId db (db.displaced p q userId time) rows := by
  unfold displaced
  split
  · exact ⟨_, audited_shift (by decide)⟩
  · exact ⟨_, audited_shift (by decide)⟩

section Calls

variable {now : Moment} {n : NewDemon} {stamp : Stamp} {change : Change α}

theorem audited_addDemonAt (done : db.mutate now (.addDemon n stamp) = .ok change) :
    ∃ time rows, effectiveTime now stamp.time = .ok time ∧
      Audited time stamp.userId db change.database rows := by
  obtain ⟨time, p, demon, at_time, -, -, -, logged, -, -, -⟩ := addDemon_eq_ok_iff.1 done
  obtain ⟨additions, -, eq⟩ := logAddition_eq_ok_iff.1 logged
  have moved : Audited time stamp.userId db (db.shift p none 1 stamp.userId time) _ := audited_shift (by decide)
  rw [eq]
  exact ⟨time, _, at_time, moved.trans (audited_enrolled demon additions) nofun fun _ => .inr rfl⟩

theorem audited_patchDemon (done : db.mutate now (.patchDemon id changes stamp) = .ok change) :
    ∃ time rows, effectiveTime now stamp.time = .ok time ∧
      Audited time stamp.userId db change.database rows := by
  obtain ⟨-, time, demon, at_time, found, listed, outcome⟩ := patchDemon_eq_ok_iff.1 done
  rcases outcome with ⟨-, rfl⟩ | ⟨named, shifted, patched, room, edited, -, -, rfl⟩
  · exact ⟨time, [], at_time, .of_sameList time stamp.userId ⟨rfl, rfl, rfl⟩⟩
  · have logged := logged_edited id stamp.userId time edited named
    rcases makeRoom_cases room with ⟨-, rfl⟩ | ⟨p, q, at_p, -, -, -, rfl⟩
    · exact ⟨time, _, at_time, audited_replaced found logged⟩
    · obtain ⟨rows, moved⟩ := audited_displaced db p q stamp.userId time
      have still : (db.displaced p q stamp.userId time).demons.find? id = some demon := by
        rw [find?_displaced, found, Option.map_some, displaced_self at_p]
      refine ⟨time, _, at_time, moved.trans (audited_replaced still logged) ?_ ?_⟩
      · intro m mem
        rw [List.mem_singleton.1 mem]
        exact ⟨demon, found⟩
      · intro id'
        by_cases same : id' = id
        · subst same
          obtain ⟨d', found', untouched⟩ := moved.kept id' demon found
          rw [still, Option.some_inj] at found'
          subst found'
          exact .inl untouched.untold
        · exact .inr (rowsOf_other (Ne.symm same))

theorem audited_removeDemon (done : db.mutate now (.removeDemon id stamp) = .ok change) :
    ∃ time rows, effectiveTime now stamp.time = .ok time ∧
      Audited time stamp.userId db change.database rows := by
  obtain ⟨time, demon, old, at_time, found, listed, at_old, -, -, rfl⟩ := removeDemon_eq_ok_iff.1 done
  let removed : Demon := { demon with position := none, removedAt := some time }
  let mid := db.replaced id removed (.position demon.position) stamp.userId time
  have gone (id' : Int) : mid.demons.find? id' = if id' = id then some removed else db.demons.find? id' :=
    find?_replaced found id'
  have taken : Audited time stamp.userId db mid _ :=
    audited_replaced found (logged_taken id stamp.userId time at_old)
  have closed : Audited time stamp.userId mid (mid.shift (old + 1) none (-1) stamp.userId time) _ :=
    audited_shift (by decide)
  refine ⟨time, _, at_time, taken.trans closed ?_ ?_⟩
  · intro m mem
    obtain ⟨d, found'⟩ := closed.known m mem
    rw [gone] at found'
    split at found'
    · rename_i same
      exact ⟨demon, same ▸ found⟩
    · exact ⟨d, found'⟩
  · intro id'
    by_cases same : id' = id
    · subst same
      refine .inr ?_
      rw [rowsOf_moves ((gone id').trans (if_pos rfl))]
      rfl
    · exact .inl (rowsOf_other (Ne.symm same))

end Calls

end Database

/-- What a call adds to the log of additions: its demon, if it adds one. -/
def Call.Enrols {α : Type} (time : Moment) (userId : Option Int) (before after : Database α) : Call → Prop
  | .addDemon .. =>
    let new := before.demons.nextKey
    (∀ id ∈ before.demons.keys, id < new) ∧ (∃ d, after.demons.find? new = some d) ∧
      after.additions.entries.Perm ((new, ⟨time, userId⟩) :: before.additions.entries)
  | _ => after.additions = before.additions

namespace Database

section Logs

variable {α : Type} {db : Database α} {now : Moment} {call : Call} {stamp : Stamp} {change : Change α}
  {changes : Changes}

theorem audited_mutate (stamped : call.stamp? = some stamp) (done : db.mutate now call = .ok change) :
    ∃ time rows, effectiveTime now stamp.time = .ok time ∧
      Audited time stamp.userId db change.database rows := by
  cases call with
  | addDemon =>
    cases stamped
    exact audited_addDemonAt done
  | patchDemon =>
    cases stamped
    exact audited_patchDemon done
  | removeDemon =>
    cases stamped
    exact audited_removeDemon done
  | setRecordStatus | setPlayerBanned | setPlayerNationality => cases stamped

theorem additions_displaced {p q : Int} : (db.displaced p q userId time).additions = db.additions := by
  unfold displaced
  split <;> exact additions_shift

theorem additions_patchDemon (done : db.mutate now (.patchDemon id changes stamp) = .ok change) :
    change.database.additions = db.additions := by
  obtain ⟨-, time, demon, -, -, -, ⟨-, rfl⟩ | ⟨-, shifted, patched, room, -, -, -, rfl⟩⟩ :=
    patchDemon_eq_ok_iff.1 done
  · rfl
  · rcases makeRoom_cases room with ⟨-, rfl⟩ | ⟨p, q, -, -, -, -, rfl⟩
    · rfl
    · exact additions_displaced

theorem additions_removeDemon (done : db.mutate now (.removeDemon id stamp) = .ok change) :
    change.database.additions = db.additions := by
  obtain ⟨time, demon, old, -, -, -, -, -, -, rfl⟩ := removeDemon_eq_ok_iff.1 done
  exact additions_shift

theorem enrols_mutate (stamped : call.stamp? = some stamp) (at_time : effectiveTime now stamp.time = .ok time)
    (done : db.mutate now call = .ok change) : call.Enrols time stamp.userId db change.database := by
  cases call with
  | addDemon n =>
    cases stamped
    obtain ⟨time', p, demon, at_time', -, -, -, logged, -, -, -⟩ := addDemon_eq_ok_iff.1 done
    obtain rfl : time = time' := Except.ok.inj (at_time.symm.trans at_time')
    obtain ⟨additions, ⟨-, inserted⟩, eq⟩ := logAddition_eq_ok_iff.1 logged
    have kept : (db.shift p none 1 stamp.userId time).additions = db.additions := additions_shift
    rw [eq]
    refine ⟨?_, ⟨demon, ?_⟩, ?_⟩
    · intro id mem
      obtain ⟨e, old, rfl⟩ := List.mem_map.1 mem
      exact Table.lt_nextKey old
    · exact (find?_withDemon _).trans (if_pos rfl)
    · rw [← kept]
      exact Table.perm_insert? inserted
  | patchDemon => exact additions_patchDemon done
  | removeDemon => exact additions_removeDemon done
  | setRecordStatus | setPlayerBanned | setPlayerNationality => cases stamped

end Logs

end Database

end DemonBoard
