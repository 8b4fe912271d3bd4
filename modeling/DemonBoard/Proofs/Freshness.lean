import DemonBoard.Proofs.Irrelevance
import DemonBoard.Proofs.Sessions

/-! Freshness. A board is fresh if its pass would change nothing. A pass makes its own board fresh and
leaves the other boards as they are, so a call keeps every board fresh if it runs the passes of all the
boards that its change concerns. -/

namespace DemonBoard

namespace Database

variable {α : Type} [Scalar α] {db : Database α} {scope : Scope} {scopes : List Scope}

/-- Recomputing everything would change no total and no standing. -/
def Fresh (db : Database α) : Prop := (db.recomputeAll .absent).state = db

def FreshIn (db : Database α) (scope : Scope) : Prop := db.pass scope = db

/-- Passes look at the tables alone, so their order makes no difference. -/
theorem pass_comm (db : Database α) (s t : Scope) : (db.pass s).pass t = (db.pass t).pass s := by
  cases s <;> cases t <;> simp only [pass_player, pass_nation, pass_subdivision] <;> rfl

theorem pass_pass (db : Database α) (s : Scope) : (db.pass s).pass s = db.pass s := by
  cases s <;> simp only [pass_player, pass_nation, pass_subdivision] <;> rfl

theorem FreshIn.pass (h : db.FreshIn scope) (s : Scope) : (db.pass s).FreshIn scope := by
  unfold FreshIn at *
  rw [pass_comm, h]

/-- After some passes those boards are fresh that had a pass or were fresh before. -/
theorem freshIn_foldl_pass (h : scope ∈ scopes ∨ db.FreshIn scope) : (scopes.foldl pass db).FreshIn scope := by
  induction scopes generalizing db with
  | nil => exact h.resolve_left List.not_mem_nil
  | cons s rest ih =>
    refine ih ?_
    rcases h with mem | fresh
    · rcases List.mem_cons.1 mem with rfl | later
      · exact .inr (pass_pass db scope)
      · exact .inl later
    · exact .inr (fresh.pass s)

theorem foldl_pass_of_freshIn (h : ∀ s ∈ scopes, db.FreshIn s) : scopes.foldl pass db = db := by
  induction scopes with
  | nil => rfl
  | cons s rest ih =>
    rw [List.foldl_cons, h s List.mem_cons_self]
    exact ih fun t mem => h t (List.mem_cons_of_mem s mem)

theorem fresh_iff : db.Fresh ↔ ∀ scope, db.FreshIn scope := by
  unfold Fresh recomputeAll
  rw [(recompute_absent db Scope.all).1]
  constructor
  · intro same scope
    rw [← same]
    exact freshIn_foldl_pass (.inl (by cases scope <;> decide))
  · intro fresh
    exact foldl_pass_of_freshIn fun s _ => fresh s

theorem fresh_recomputeAll (db : Database α) : (db.recomputeAll .absent).state.Fresh := by
  rw [fresh_iff, recomputeAll, (recompute_absent db Scope.all).1]
  exact fun scope => freshIn_foldl_pass (.inl (by cases scope <;> decide))

theorem Fresh.recompute (h : db.Fresh) (faults : Faults) (scopes : List Scope) :
    (db.recompute faults scopes).state = db := by
  rcases recompute_cases faults db scopes with ⟨state, -⟩ | ⟨done, e, -, state, -⟩
  · rw [state, foldl_pass_of_freshIn fun s _ => fresh_iff.1 h s]
  · rw [state, foldl_pass_of_freshIn fun s _ => fresh_iff.1 h s]

theorem freshIn_player : db.FreshIn .player ↔ db.computedPlayerBoard = db.playerBoard := by
  rw [FreshIn, pass_player]
  exact ⟨congrArg playerBoard, fun same => by rw [same]⟩

theorem freshIn_nation : db.FreshIn .nation ↔ db.computedNationBoard = db.nationBoard := by
  rw [FreshIn, pass_nation]
  exact ⟨congrArg nationBoard, fun same => by rw [same]⟩

theorem freshIn_subdivision : db.FreshIn .subdivision ↔ db.computedSubdivisionBoard = db.subdivisionBoard := by
  rw [FreshIn, pass_subdivision]
  exact ⟨congrArg subdivisionBoard, fun same => by rw [same]⟩

theorem FreshIn.replaced {id : Int} {demon patched : Demon} {previous : Changes} {userId : Option Int}
    {time : Moment} (h : db.FreshIn scope) (found : db.demons.find? id = some demon)
    (same : Demon.SameScoring demon patched) :
    (db.replaced id patched previous userId time).FreshIn scope := by
  have rows : (db.replaced id patched previous userId time).standardRows = db.standardRows :=
    standardRows_replaced found same
  cases scope with
  | player =>
    rw [freshIn_player] at *
    rw [computedPlayerBoard, rows]
    exact h
  | nation =>
    rw [freshIn_nation] at *
    rw [computedNationBoard, rows]
    exact h
  | subdivision =>
    rw [freshIn_subdivision] at *
    rw [computedSubdivisionBoard, rows]
    exact h

end Database

namespace ChangeEvent

variable {scope : Scope} {events : List ChangeEvent} {event : ChangeEvent}

theorem mem_scopes : scope ∈ scopes events ↔ ∃ e ∈ events, scope ∈ e.triggers := by
  have general (found : List Scope) :
      scope ∈ events.foldl (fun found e => found ++ e.triggers.filter (!found.contains ·)) found ↔
        scope ∈ found ∨ ∃ e ∈ events, scope ∈ e.triggers := by
    induction events generalizing found with
    | nil => simp
    | cons e rest ih =>
      rw [List.foldl_cons, ih]
      by_cases old : scope ∈ found
      · simp [old]
      · simp [old]
  have whole := general []
  simp only [List.not_mem_nil, false_or] at whole
  exact whole

theorem mem_scopes_of_mem (mem : event ∈ events) (other : event ≠ .playerNationality) (scope : Scope) :
    scope ∈ scopes events := by
  refine mem_scopes.2 ⟨event, mem, ?_⟩
  cases event with
  | playerNationality => exact absurd rfl other
  | _ => cases scope <;> decide

theorem ofField?_ne {f : Field} (h : ofField? f = some event) : event ≠ .playerNationality := by
  rintro rfl
  cases f <;> cases h

end ChangeEvent

namespace Database

variable {α : Type} [Scalar α] {db : Database α} {scope : Scope} {now : Moment} {call : Call}
  {change : Change α}

/-- The boards that a change names no event for stay fresh. -/
def Covers (change : Change α) : Prop :=
  ∀ scope, scope ∉ ChangeEvent.scopes change.events → change.database.FreshIn scope

/-- Nothing is said of a board that a change names, and any event but one names all of them. -/
theorem FreshIn.of_event {event : ChangeEvent} (mem : event ∈ change.events)
    (other : event ≠ .playerNationality) (left : scope ∉ ChangeEvent.scopes change.events) :
    change.database.FreshIn scope :=
  absurd (ChangeEvent.mem_scopes_of_mem mem other scope) left

section Wording

variable {demon patched : Demon} {changes : Changes} {f : Field} {event : ChangeEvent}

theorem kept_of_no_event
    (quiet : ∀ e, e ∉ (changedFields demon.get changes).fields.filterMap ChangeEvent.ofField?)
    (scored : ChangeEvent.ofField? f = some event) :
    changes.edit f = .keep ∨ changes.edit f = .set (demon.get f) := by
  refine kept_of_not_mem ?_
  intro mem
  exact quiet event (List.mem_filterMap.2 ⟨f, mem, scored⟩)

theorem sameScoring_of_no_event (edited : demon.edited? changes.edit = some patched)
    (quiet : ∀ e, e ∉ (changedFields demon.get changes).fields.filterMap ChangeEvent.ofField?) :
    Demon.SameScoring demon patched := by
  have same {f : Field} {e : ChangeEvent} (scored : ChangeEvent.ofField? f = some e) :
      patched.get f = demon.get f := by
    rw [Demon.get_edited edited f]
    rcases kept_of_no_event quiet scored with kept | kept
    · rw [kept]
      rfl
    · rw [kept]
      rfl
  refine ⟨Demon.listed_edited edited, same (f := .position) rfl, ?_, ?_, ?_⟩
  · exact Option.some_inj.1 (same (f := .requirement) rfl)
  · exact Option.some_inj.1 (same (f := .rated) rfl)
  · exact Option.some_inj.1 (same (f := .verifier) rfl)

omit [Scalar α] in
theorem makeRoom_of_no_event {shifted : Database α} {userId : Option Int} {time : Moment}
    (quiet : ∀ e, e ∉ (changedFields demon.get changes).fields.filterMap ChangeEvent.ofField?)
    (room : db.makeRoom demon.position (changes.edit .position) userId time = .ok shifted) :
    shifted = db := by
  rcases makeRoom_cases room with ⟨-, rfl⟩ | ⟨p, q, at_p, move, ne, -⟩
  · rfl
  · rcases kept_of_no_event (f := .position) quiet rfl with kept | kept
    · rw [kept] at move
      cases move
    · rw [kept] at move
      injection move with at_q
      exact absurd (Option.some_inj.1 (at_p.symm.trans at_q)) ne

end Wording

theorem FreshIn.patchDemon {id : Int} {changes : Changes} {stamp : Stamp} (h : db.FreshIn scope)
    (done : db.mutate now (.patchDemon id changes stamp) = .ok change)
    (left : scope ∉ ChangeEvent.scopes change.events) : change.database.FreshIn scope := by
  obtain ⟨-, time, demon, -, found, listed, outcome⟩ := patchDemon_eq_ok_iff.1 done
  rcases outcome with ⟨-, rfl⟩ | ⟨-, shifted, patched, room, edited, -, -, rfl⟩
  · exact h
  · by_cases named : ∃ e, e ∈ (changedFields demon.get changes).fields.filterMap ChangeEvent.ofField?
    · obtain ⟨e, mem⟩ := named
      obtain ⟨f, -, of_f⟩ := List.mem_filterMap.1 mem
      exact .of_event mem (ChangeEvent.ofField?_ne of_f) left
    · rw [not_exists] at named
      rw [makeRoom_of_no_event named room]
      exact h.replaced found (sameScoring_of_no_event edited named)

/-- A change leaves those boards fresh that it does not concern. -/
theorem FreshIn.mutate (h : db.FreshIn scope) (done : db.mutate now call = .ok change)
    (left : scope ∉ ChangeEvent.scopes change.events) : change.database.FreshIn scope := by
  cases call with
  | addDemon n stamp =>
    obtain ⟨_, _, _, -, -, -, -, -, -, -, events⟩ := addDemon_eq_ok_iff.1 done
    have mem : ChangeEvent.demonAdded ∈ change.events := by
      rw [events]
      exact List.mem_singleton_self _
    exact .of_event mem nofun left
  | patchDemon id changes stamp => exact h.patchDemon done left
  | removeDemon id stamp =>
    obtain ⟨_, _, _, -, -, -, -, -, -, rfl⟩ := removeDemon_eq_ok_iff.1 done
    exact .of_event (List.mem_singleton_self _) nofun left
  | setRecordStatus recordId status =>
    obtain ⟨record, -, ⟨-, rfl⟩ | ⟨-, -, rfl⟩⟩ := setRecordStatus_eq_ok_iff.1 done
    · exact h
    · exact .of_event (List.mem_singleton_self _) nofun left
  | setPlayerBanned playerId banned =>
    obtain ⟨player, -, ⟨-, rfl⟩ | ⟨-, rfl⟩⟩ := setPlayerBanned_eq_ok_iff.1 done
    · exact h
    · exact .of_event (List.mem_singleton_self _) nofun left
  | setPlayerNationality playerId nationality subdivision =>
    obtain ⟨-, player, found, -, ⟨-, rfl⟩ | ⟨-, rfl⟩⟩ := setPlayerNationality_eq_ok_iff.1 done
    · exact h
    · cases scope with
      | player => exact freshIn_player.2 ((computedPlayerBoard_represented found).trans (freshIn_player.1 h))
      | nation => exact absurd (ChangeEvent.mem_scopes.2 ⟨_, List.mem_singleton_self _, by decide⟩) left
      | subdivision => exact absurd (ChangeEvent.mem_scopes.2 ⟨_, List.mem_singleton_self _, by decide⟩) left

theorem Fresh.covers_mutate (h : db.Fresh) (done : db.mutate now call = .ok change) : Covers change :=
  fun scope => (fresh_iff.1 h scope).mutate done

/-- A call completes if it ends without an error once its change has been made. -/
def Completes (db : Database α) (faults : Faults) (now : Moment) (call : Call) : Prop :=
  ∀ change, db.mutate now call = .ok change → ∃ entity, (db.perform faults now call).result = .ok entity

theorem completes_absent (db : Database α) (now : Moment) (call : Call) : db.Completes .absent now call := by
  intro change done
  obtain ⟨-, counts, result⟩ := recompute_absent change.database (ChangeEvent.scopes change.events)
  refine ⟨change.entity, ?_⟩
  rw [perform_of_ok done, result]
  rfl

def AllComplete (db : Database α) : List Step → Prop
  | [] => True
  | s :: rest => (∀ call, s.action = .call call → db.Completes s.faults s.now call) ∧
      (db.step s).AllComplete rest

theorem allComplete_of_absent {steps : List Step} (absent : ∀ s ∈ steps, s.faults = .absent) :
    db.AllComplete steps := by
  induction steps generalizing db with
  | nil => trivial
  | cons s rest ih =>
    refine ⟨?_, ih fun t mem => absent t (List.mem_cons_of_mem s mem)⟩
    intro call _
    rw [absent s List.mem_cons_self]
    exact db.completes_absent s.now call

theorem Fresh.perform (h : db.Fresh) (faults : Faults) (complete : db.Completes faults now call) :
    (db.perform faults now call).state.Fresh := by
  cases outcome : db.mutate now call with
  | error e =>
    rw [perform_of_error outcome]
    exact h
  | ok change =>
    obtain ⟨entity, ended⟩ := complete change outcome
    rw [perform_of_ok outcome] at ended ⊢
    rcases recompute_cases faults change.database (ChangeEvent.scopes change.events) with
      ⟨state, -⟩ | ⟨done, e, -, -, failed, -⟩
    · dsimp only
      rw [state, fresh_iff]
      intro scope
      refine freshIn_foldl_pass ?_
      by_cases mem : scope ∈ ChangeEvent.scopes change.events
      · exact .inl mem
      · exact .inr (h.covers_mutate outcome scope mem)
    · dsimp only at ended
      rw [failed] at ended
      cases ended

theorem Fresh.step {s : Step} (h : db.Fresh)
    (complete : ∀ call, s.action = .call call → db.Completes s.faults s.now call) : (db.step s).Fresh := by
  unfold Database.step
  split
  · rename_i call action
    exact h.perform s.faults (complete call action)
  · rw [h.recompute]
    exact h

theorem Fresh.after {steps : List Step} (h : db.Fresh) (complete : db.AllComplete steps) :
    (db.after steps).Fresh := by
  induction steps generalizing db with
  | nil => exact h
  | cons s rest ih => exact ih (h.step complete.1) complete.2

/-- The boards stay fresh: any call on a fresh database leaves a fresh one, whether it makes a change, finds
nothing to change or is refused, and so does any session, as long as no pass is given up. -/
theorem calls_keep_fresh (h : db.Fresh) :
    (∀ faults now call, db.Completes faults now call → (db.perform faults now call).state.Fresh) ∧
    (∀ now call, (db.perform .absent now call).state.Fresh) ∧
    (∀ steps, db.AllComplete steps → (db.after steps).Fresh) ∧
    ∀ steps : List Step, (∀ s ∈ steps, s.faults = .absent) → (db.after steps).Fresh := by
  refine ⟨fun faults now call => h.perform faults, ?_, fun steps => h.after, ?_⟩
  · intro now call
    exact h.perform .absent (db.completes_absent now call)
  · intro steps absent
    exact h.after (allComplete_of_absent absent)

/-- A player with a verified demon moves to another nation, which the nations' board follows. -/
theorem calls_keep_fresh_after_move :
    let verified : Demon := ⟨"a", some 1, 50, none, 1, 1, true, ⟨0⟩, none⟩
    let db : Database Float := { (empty : Database Float) with
      nations := ⟨[("FR", ⟨"France", none⟩)], List.pairwise_singleton _ _⟩
      players := Table.empty.append ⟨"p", none, none, false⟩
      demons := Table.empty.append verified }
    let call : Call := .setPlayerNationality 1 (some "FR") none
    ((db.recomputeAll .absent).state.perform .absent ⟨5⟩ call).state.Fresh ∧
      ((db.recomputeAll .absent).state.mutate ⟨5⟩ call).toOption.isSome := by
  intro verified db call
  exact ⟨(calls_keep_fresh (fresh_recomputeAll db)).2.1 ⟨5⟩ call, by decide⟩

end Database

end DemonBoard
