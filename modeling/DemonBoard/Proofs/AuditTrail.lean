import DemonBoard.Proofs.EditLog
import DemonBoard.Proofs.Sessions

/-! The audit trail. A call that edits the list appends to the log what the demons have lost by it and
touches no earlier row, whatever becomes of the passes after it; an edit made twice is told once. -/

namespace DemonBoard

namespace Database

variable {α : Type} {db after : Database α} {now : Moment} {call : Call} {stamp : Stamp} {change : Change α}
  {time : Moment} {userId : Option Int} {rows : List Modification} {id : Int} {changes : Changes}

theorem Audited.eq_nil (h : Audited time userId db after rows)
    (same : ∀ id d d', db.demons.find? id = some d → after.demons.find? id = some d' → d.get = d'.get) :
    rows = [] := by
  rw [List.eq_nil_iff_forall_not_mem]
  intro m mem
  obtain ⟨d, d', found, found', ⟨f, ne⟩, -⟩ := h.exists_changed mem
  exact ne (congrFun (same _ d d' found found') f)

/-- A patch that has gone through changes nothing where the demon already is as it says. -/
theorem patchDemon_again {now' : Moment} {again : Stamp} {patched : Demon}
    (done : db.mutate now (.patchDemon id changes stamp) = .ok change) (found : after.demons.find? id = some patched)
    (listed : patched.listed) (at_time : effectiveTime now' again.time = .ok time)
    (same : ∀ f v, changes.edit f = .set v → patched.get f = v) :
    after.mutate now' (.patchDemon id changes again) = .ok ⟨after, .demon id patched, []⟩ := by
  obtain ⟨allowed, -⟩ := patchDemon_eq_ok_iff.1 done
  exact patchDemon_eq_ok_iff.2
    ⟨allowed, time, patched, at_time, found, listed, .inl ⟨isEmpty_changedFields.2 same, rfl⟩⟩

theorem exists_patched (done : db.mutate now (.patchDemon id changes stamp) = .ok change) :
    ∃ d', change.database.demons.find? id = some d' ∧ d'.listed ∧
      ∀ f v, changes.edit f = .set v → d'.get f = v := by
  obtain ⟨-, time, demon, -, found, listed, ⟨unnamed, rfl⟩ | ⟨-, shifted, patched, room, edited, -, -, rfl⟩⟩ :=
    patchDemon_eq_ok_iff.1 done
  · refine ⟨demon, found, listed, fun f v edit => ?_⟩
    rcases kept_of_not_mem (f := f) (Changes.not_mem_of_isEmpty unnamed) with keep | set
    · rw [edit] at keep
      cases keep
    · rw [edit] at set
      exact (Edit.set.inj set).symm
  · have still : ∃ d, shifted.demons.find? id = some d := by
      rcases makeRoom_cases room with ⟨-, rfl⟩ | ⟨p, q, -, -, -, -, rfl⟩
      · exact ⟨demon, found⟩
      · exact ⟨_, by rw [find?_displaced, found]; rfl⟩
    obtain ⟨d, still⟩ := still
    refine ⟨patched, ?_, by rwa [Demon.listed_edited edited], fun f v edit => ?_⟩
    · rw [find?_replaced still, if_pos rfl]
    · rw [Demon.get_edited edited, edit]
      rfl

variable [Scalar α]

/-- The log is the difference that a call makes: one new row for each demon with a changed field, holding what the
demon has lost, and no other. A patch that has gone through changes nothing when it is made again. -/
theorem log_is_difference (stamped : call.stamp? = some stamp) (done : db.mutate now call = .ok change)
    (faults : Faults) :
    let after := (db.perform faults now call).state
    ∃ time added, effectiveTime now stamp.time = .ok time ∧
      after.modifications.entries = db.modifications.entries ++ added ∧
      (∀ e ∈ db.modifications.entries, ∀ e' ∈ added, e.1 < e'.1) ∧
      (∀ e ∈ added, ∃ d, db.demons.find? e.2.demonId = some d) ∧
      (∀ id d, db.demons.find? id = some d → ∃ d', after.demons.find? id = some d' ∧
        Demon.Logged time stamp.userId (added.map Prod.snd) id d d') ∧
      call.Enrols time stamp.userId db after ∧
      ((∀ id d d', db.demons.find? id = some d → after.demons.find? id = some d' → d.get = d'.get) →
        added = []) ∧
      ∀ id changes, call = .patchDemon id changes stamp → ∃ d', after.demons.find? id = some d' ∧
        ∀ faults' now' again time', effectiveTime now' again.time = .ok time' →
          after.perform faults' now' (.patchDemon id changes again) = ⟨after, .ok (.demon id d')⟩ := by
  intro after
  obtain ⟨time, rows, at_time, audited⟩ := audited_mutate stamped done
  have enrols := enrols_mutate stamped at_time done
  have same : SameList change.database after := (sameTables_of_mutate done faults).sameList
  have audited : Audited time stamp.userId db after rows := audited.congr same
  obtain ⟨added, appended, told⟩ := audited.entries
  refine ⟨time, added, at_time, appended, ?_, ?_, told ▸ audited.kept, ?_, ?_, ?_⟩
  · intro e old e' new
    have ascending := after.modifications.ascending
    rw [appended, List.map_append, Ascending, List.pairwise_append] at ascending
    exact Int.compare_eq_lt.1 (ascending.2.2 e.1 (List.mem_map_of_mem old) e'.1 (List.mem_map_of_mem new))
  · intro e mem
    exact audited.known e.2 (told ▸ List.mem_map_of_mem mem)
  · cases call with
    | addDemon =>
      obtain ⟨last, entered, perm⟩ := enrols
      exact ⟨last, same.demons ▸ entered, same.additions ▸ perm⟩
    | _ => exact same.additions.trans enrols
  · intro unchanged
    exact List.map_eq_nil_iff.1 (told.trans (audited.eq_nil unchanged))
  · rintro id changes rfl
    obtain ⟨d', found, listed, agrees⟩ := exists_patched done
    rw [← same.demons] at found
    refine ⟨d', found, fun faults' now' again time' at_time' => ?_⟩
    exact perform_of_ok (patchDemon_again done found listed at_time' agrees) faults'

/-- The second of two demons gets a new name and moves to the top, which moves the other one down: each of the
two gets its row. -/
theorem log_is_difference_of_two :
    let level (name : String) (position : Int) : Demon :=
      ⟨name, some position, 50, none, 1, 1, true, ⟨0⟩, none⟩
    let db : Database Float := { (empty : Database Float) with
      demons := (Table.empty.append (level "a" 1)).append (level "b" 2) }
    let renamed : Changes :=
      { edit := fun | .name => .set (some "c") | .position => .set (some 1) | _ => .keep, unknown := [] }
    let call : Call := .patchDemon 2 renamed ⟨some 9, none⟩
    ∃ added, (db.perform .absent ⟨5⟩ call).state.modifications.entries = added ∧
      rowsOf (added.map Prod.snd) 1 = [⟨1, ⟨5⟩, some 9, (level "a" 1).lost (level "a" 2)⟩] ∧
      rowsOf (added.map Prod.snd) 2 = [⟨2, ⟨5⟩, some 9, (level "b" 2).lost (level "c" 1)⟩] := by
  intro level db renamed call
  have stamped : call.stamp? = some ⟨some 9, none⟩ := rfl
  obtain ⟨change, done⟩ : ∃ change, db.mutate ⟨5⟩ call = .ok change := ⟨_, rfl⟩
  obtain ⟨time, added, at_time, appended, -, -, told, -⟩ := log_is_difference stamped done .absent
  cases at_time
  obtain ⟨first, found, logged⟩ := told 1 (level "a" 1) rfl
  obtain ⟨second, found', logged'⟩ := told 2 (level "b" 2) rfl
  cases found
  cases found'
  refine ⟨added, appended, ?_, ?_⟩
  · rcases logged with ⟨same, -⟩ | ⟨-, row⟩
    · cases same .position
    · exact row
  · rcases logged' with ⟨same, -⟩ | ⟨-, row⟩
    · cases same .position
    · exact row

end Database

end DemonBoard
