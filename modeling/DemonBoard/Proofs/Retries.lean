import DemonBoard.Proofs.AuditTrail
import DemonBoard.Proofs.Boards
import DemonBoard.Proofs.RankedEntities
import DemonBoard.Proofs.Refusals
import DemonBoard.Proofs.Renewal

/-! Calls that are made again after their passes were given up. The change is kept, so the call finds nothing to do and
asks for no pass; the boards that were left behind stay behind until somebody recomputes them. -/

namespace DemonBoard

/-- The calls that say what a row should be, and so find nothing to do when they are made again. -/
def Call.Settles : Call → Prop
  | .addDemon .. | .removeDemon .. => False
  | .patchDemon .. | .setRecordStatus .. | .setPlayerBanned .. | .setPlayerNationality .. => True

namespace Database

variable {α : Type} {db : Database α} {now now' : Moment} {call : Call} {change : Change α}

section Again

variable {id : Int}

theorem setRecordStatus_again {status : Status} (done : db.mutate now (.setRecordStatus id status) = .ok change) :
    ∃ entity, change.database.mutate now (.setRecordStatus id status) = .ok ⟨change.database, entity, []⟩ := by
  obtain ⟨record, found, ⟨-, rfl⟩ | ⟨-, -, rfl⟩⟩ := setRecordStatus_eq_ok_iff.1 done
  · exact ⟨_, done⟩
  · have judged : (db.records.modify id fun _ => { record with status }).find? id = some { record with status } := by
      simp [Table.find?_modify, found]
    exact ⟨_, setRecordStatus_eq_ok_iff.2 ⟨_, judged, .inl ⟨rfl, rfl⟩⟩⟩

theorem setPlayerBanned_again {banned : Bool} (done : db.mutate now (.setPlayerBanned id banned) = .ok change) :
    ∃ entity, change.database.mutate now (.setPlayerBanned id banned) = .ok ⟨change.database, entity, []⟩ := by
  obtain ⟨player, found, ⟨-, rfl⟩ | ⟨-, rfl⟩⟩ := setPlayerBanned_eq_ok_iff.1 done
  · exact ⟨_, done⟩
  · exact ⟨_, setPlayerBanned_eq_ok_iff.2 ⟨_, find?_storePlayer_self found, .inl ⟨rfl, rfl⟩⟩⟩

theorem setPlayerNationality_again {nationality subdivision : Option String}
    (done : db.mutate now (.setPlayerNationality id nationality subdivision) = .ok change) :
    ∃ entity, change.database.mutate now (.setPlayerNationality id nationality subdivision) =
      .ok ⟨change.database, entity, []⟩ := by
  obtain ⟨paired, player, found, codes, ⟨-, rfl⟩ | ⟨-, rfl⟩⟩ := setPlayerNationality_eq_ok_iff.1 done
  · exact ⟨_, done⟩
  · exact ⟨_, setPlayerNationality_eq_ok_iff.2
      ⟨paired, _, find?_storePlayer_self found, codes, .inl ⟨⟨rfl, rfl⟩, rfl⟩⟩⟩

theorem patchDemon_settled {changes : Changes} {stamp : Stamp}
    (done : db.mutate now (.patchDemon id changes stamp) = .ok change) :
    ∃ entity, change.database.mutate now' (.patchDemon id changes stamp) = .ok ⟨change.database, entity, []⟩ := by
  obtain ⟨-, time, -, dated, -⟩ := patchDemon_eq_ok_iff.1 done
  obtain ⟨time', dated'⟩ := exists_effectiveTime_iff.2 (exists_effectiveTime_iff.1 ⟨time, dated⟩)
  obtain ⟨patched, found, listed, same⟩ := exists_patched done
  exact ⟨_, patchDemon_again done found listed dated' same⟩

end Again

/-- Once it is made, a change of this kind is no change any more. -/
theorem mutate_again (settles : call.Settles) (done : db.mutate now call = .ok change) (now' : Moment) :
    ∃ entity, change.database.mutate now' call = .ok ⟨change.database, entity, []⟩ := by
  cases call with
  | addDemon | removeDemon => exact settles.elim
  | patchDemon => exact patchDemon_settled done
  | setRecordStatus => exact setRecordStatus_again done
  | setPlayerBanned => exact setPlayerBanned_again done
  | setPlayerNationality => exact setPlayerNationality_again done

section Calls

variable [Scalar α]

theorem perform_again {after : Database α} (settles : call.Settles) (done : db.mutate now call = .ok change)
    (same : SameTables change.database after) (faults : Faults) (now' : Moment) :
    ∃ entity, after.perform faults now' call = ⟨after, .ok entity⟩ := by
  obtain ⟨entity, again⟩ := mutate_again settles done now'
  have unmoved : after.mutate now' call = .ok ⟨after, entity, []⟩ := by
    rw [show after = change.database.boarded after from same, mutate_boarded, again]
    rfl
  exact ⟨entity, perform_of_ok unmoved faults⟩

/-- To make a call again repairs nothing: where passes after it were given up, it ends well and leaves the database as
it stands. What repairs the boards is a recompute of the scopes that the change concerns. -/
theorem repeats_repair_nothing (fresh : db.Fresh) (settles : call.Settles) (done : db.mutate now call = .ok change)
    (faults : Faults) :
    let after := (db.perform faults now call).state
    (∀ faults' now', ∃ entity, after.perform faults' now' call = ⟨after, .ok entity⟩) ∧
    (∃ carried, carried <+: ChangeEvent.scopes change.events ∧ after = carried.foldl pass change.database ∧
      ∀ scope, scope ∈ carried ∨ scope ∉ ChangeEvent.scopes change.events → after.FreshIn scope) ∧
    ∀ faults' scopes, ChangeEvent.scopes change.events ⊆ scopes →
      (after.recompute faults' scopes).result.isOk → (after.recompute faults' scopes).state.Fresh := by
  intro after
  have covered {scope : Scope} : scope ∉ ChangeEvent.scopes change.events → change.database.FreshIn scope :=
    fresh.covers_mutate done scope
  have state : after = (change.database.recompute faults (ChangeEvent.scopes change.events)).state :=
    congrArg Outcome.state (perform_of_ok done faults)
  obtain ⟨carried, part, passed⟩ : ∃ carried, carried <+: ChangeEvent.scopes change.events ∧
      after = carried.foldl pass change.database := by
    rw [state]
    rcases recompute_cases faults change.database (ChangeEvent.scopes change.events) with
      ⟨state, -⟩ | ⟨carried, -, part, state, -⟩
    · exact ⟨_, List.prefix_refl _, state⟩
    · exact ⟨carried, part, state⟩
  have fresh_after {scope : Scope} (h : scope ∈ carried ∨ scope ∉ ChangeEvent.scopes change.events) :
      after.FreshIn scope := by
    rw [passed]
    exact freshIn_foldl_pass (h.imp_right covered)
  refine ⟨?_, ⟨carried, part, passed, fun _ => fresh_after⟩, ?_⟩
  · exact perform_again settles done (sameTables_of_mutate done faults)
  · intro faults' scopes whole completed
    rw [fresh_iff]
    intro scope
    by_cases mem : scope ∈ scopes
    · exact freshIn_of_recompute completed mem
    · rw [state_of_recompute_isOk completed, ← foldl_pass_eq_renewed]
      exact freshIn_foldl_pass (.inr (fresh_after (.inr fun concerned => mem (whole concerned))))

/-- The passes after a ban are given up. The ban can be made again, but it is a recompute that makes the boards
fresh. -/
theorem repeats_repair_nothing_of_ban :
    let start : Database Float := { (empty : Database Float) with
      players := Table.empty.append ⟨"p", none, none, false⟩
      demons := Table.empty.append ⟨"a", some 1, 50, none, 1, 1, true, ⟨0⟩, none⟩ }
    let db := (start.recomputeAll .absent).state
    let ban : Call := .setPlayerBanned 1 true
    let after := (db.perform (fun _ _ => some ⟨.totals, .transient⟩) ⟨5⟩ ban).state
    (∃ entity, after.perform .absent ⟨6⟩ ban = ⟨after, .ok entity⟩) ∧
      (after.recompute .absent Scope.all).state.Fresh := by
  intro start db ban after
  have done : db.mutate ⟨5⟩ ban = .ok ⟨db.storePlayer 1 ⟨"p", none, none, true⟩,
      .player 1 ⟨"p", none, none, true⟩, [.playerBanned]⟩ := rfl
  have settles : ban.Settles := trivial
  obtain ⟨again, -, repaired⟩ := repeats_repair_nothing (fresh_recomputeAll start) settles done
    fun _ _ => some ⟨.totals, .transient⟩
  refine ⟨again .absent ⟨6⟩, repaired .absent Scope.all (by decide) ?_⟩
  obtain ⟨-, counts, result⟩ := recompute_absent after Scope.all
  rw [result]
  rfl

/-- The verifier of the only demon is banned, and all attempts at the passes after it break off. The ban is made again,
and nothing breaks off any more. The verifier is still ranked. -/
theorem repeats_leave_stale :
    let start : Database ℝ := { (empty : Database ℝ) with
      players := Table.empty.append ⟨"p", none, none, false⟩
      demons := Table.empty.append ⟨"a", some 1, 50, none, 1, 1, true, ⟨0⟩, none⟩ }
    let db := (start.recomputeAll .absent).state
    let ban : Call := .setPlayerBanned 1 true
    let failed := db.perform (fun _ _ => some ⟨.totals, .transient⟩) ⟨5⟩ ban
    let again := failed.state.perform .absent ⟨6⟩ ban
    db.Fresh ∧ failed.result = .error (.exhausted "player" 3) ∧ again.result.isOk ∧ ¬ again.state.Fresh := by
  intro start db ban failed again
  have fresh : db.Fresh := fresh_recomputeAll start
  have tables : SameTables start db := sameTables_recompute .absent start Scope.all
  let stored := db.storePlayer 1 ⟨"p", none, none, true⟩
  have settles : ban.Settles := trivial
  have done : db.mutate ⟨5⟩ ban = .ok ⟨stored, .player 1 ⟨"p", none, none, true⟩, [.playerBanned]⟩ := rfl
  have kept : failed.state = stored := rfl
  have sameTables : SameTables stored failed.state := sameTables_of_mutate done _
  obtain ⟨entity, same⟩ := perform_again settles done sameTables .absent ⟨6⟩
  have bounded : db.WithinHundred := nofun
  have dense : db.Dense := by
    rw [tables]
    decide
  have found : db.demons.find? 1 = some ⟨"a", some 1, 50, none, 1, 1, true, ⟨0⟩, none⟩ := by
    rw [tables]
    decide
  have known : db.players.find? 1 = some ⟨"p", none, none, false⟩ := by
    rw [tables]
    decide
  have ranked : (db.playerBoard.rankOf 1 .rated).isSome :=
    fresh.isSome_rankOf_verifier dense bounded found rfl rfl known rfl
  have ended : again = ⟨failed.state, .ok entity⟩ := same
  refine ⟨fresh, rfl, by rw [ended]; rfl, ?_⟩
  intro repaired
  rw [ended, kept] at repaired
  have bounded' : stored.WithinHundred := nofun
  have still : (stored.playerBoard.rankOf 1 .rated).isSome := ranked
  rw [repaired.playerBoard_eq bounded'] at still
  have dense' : stored.Dense := dense.congr rfl
  have listed := (isSome_rankOf_earnedBoard dense' bounded').1 still
  obtain ⟨player, found, free, -⟩ := listed
  have banned : stored.players.find? 1 = some ⟨"p", none, none, true⟩ := by
    rw [show stored = db.storePlayer 1 _ from rfl, find?_storePlayer_self known]
  rw [banned] at found
  cases found
  cases free

end Calls

end Database

end DemonBoard
