import DemonBoard.Proofs.Freshness

/-! Boards are results and nothing more: no transaction looks at them, so a call makes the same change of the
tables whatever the boards say, and a recompute of everything depends on the tables alone. -/

namespace DemonBoard

theorem bind_eq_map {ε β γ δ : Type} {x : Except ε β} {f : β → Except ε γ} {f' : β → Except ε δ} {g : γ → δ}
    (h : ∀ b, f' b = (f b).map g) : (x >>= f') = (x >>= f).map g := by
  cases x with
  | error => rfl
  | ok b => exact h b

def Attempt.mapState {ε σ ρ : Type} (g : σ → σ) : Attempt σ ρ ε → Attempt σ ρ ε
  | .completed state result => .completed (g state) result
  | .brokenOff written failure => .brokenOff (g written) failure

namespace Work

variable {ε σ ρ β : Type} {g : σ → σ}

/-- Steps that never look at what `g` replaces. -/
def Respects (g : σ → σ) (work : Work ε σ ρ) : Prop := ∀ state, work (g state) = (work state).mapState g

namespace Respects

theorem pure (result : ρ) : Respects g (pure result : Work ε σ ρ) := fun _ => rfl

theorem bind {work : Work ε σ β} {next : β → Work ε σ ρ} (h : Respects g work) (h' : ∀ b, Respects g (next b)) :
    Respects g (work >>= next) := by
  intro state
  change (match work (g state) with
    | .completed state b => next b state
    | .brokenOff written failure => .brokenOff written failure) = Attempt.mapState g (match work state with
      | .completed state b => next b state
      | .brokenOff written failure => .brokenOff written failure)
  rw [h state]
  cases work state with
  | completed state b => exact h' b state
  | brokenOff => rfl

theorem look {f : σ → Except ε ρ} (same : ∀ state, f (g state) = f state) : Respects g (Work.look f) := by
  intro state
  unfold Work.look
  rw [same]
  cases f state <;> rfl

theorem write {f : σ → σ} (same : ∀ state, f (g state) = g (f state)) :
    Respects g (Work.write f : Work ε σ Unit) :=
  fun state => congrArg (Attempt.completed · ()) (same state)

theorem lift (check : Except ε ρ) : Respects g (liftM check : Work ε σ ρ) := look fun _ => rfl

theorem update {f : σ → Except ε σ} (same : ∀ state, f (g state) = (f state).map g) :
    Respects g (Work.update f) := by
  intro state
  unfold Work.update
  rw [same]
  cases f state <;> rfl

end Respects

end Work

namespace Database

variable {α : Type} {db boards : Database α} {lower step : Int} {upper : Option Int} {userId : Option Int}
  {time now : Moment} {id : Int}

def boarded (db boards : Database α) : Database α :=
  { db with
    playerBoard := boards.playerBoard, nationBoard := boards.nationBoard, subdivisionBoard := boards.subdivisionBoard }

theorem shift_boarded (db boards : Database α) : (db.boarded boards).shift lower upper step userId time =
    (db.shift lower upper step userId time).boarded boards := by
  have logged (es : List (Int × Demon)) (db : Database α) :
      es.foldl (fun db e => db.logged e.1 (.position e.2.position) userId time) (db.boarded boards) =
        (es.foldl (fun db e => db.logged e.1 (.position e.2.position) userId time) db).boarded boards := by
    induction es generalizing db with
    | nil => rfl
    | cons e rest ih => exact ih (db.logged e.1 (.position e.2.position) userId time)
  exact congrArg (fun stored : Database α => { stored with demons := (db.shift lower upper step userId time).demons })
    (logged (db.demonsBetween lower upper) db)

theorem logAddition_boarded (db boards : Database α) : (db.boarded boards).logAddition id userId time =
    (db.logAddition id userId time).map (boarded · boards) := by
  unfold logAddition
  rw [show (db.boarded boards).additions = db.additions from rfl]
  cases requireStorable userId with
  | error => rfl
  | ok => cases db.additions.insert? id ⟨time, userId⟩ <;> rfl

theorem makeRoom_boarded (db boards : Database α) (old : Option Int) (edit : Edit Int) :
    (db.boarded boards).makeRoom old edit userId time =
      (db.makeRoom old edit userId time).map (boarded · boards) := by
  unfold makeRoom
  cases edit with
  | keep => rfl
  | set new =>
    dsimp only
    split
    · rfl
    · refine bind_eq_map fun q => bind_eq_map fun _ => ?_
      cases old with
      | none => rfl
      | some p =>
        dsimp only
        split <;> exact congrArg Except.ok (shift_boarded db boards)

end Database

namespace Mutation

open Database Work

variable {α : Type} {now : Moment} {id : Int} (boards : Database α)

theorem respects_addDemon (n : NewDemon) (stamp : Stamp) :
    Respects (boarded · boards) (addDemon now n stamp) := by
  refine .bind (.lift _) fun time => .bind (.lift _) fun requirement => .bind (.lift _) fun _ =>
    .bind (.lift _) fun position => .bind (.look fun _ => rfl) fun _ => ?_
  refine .bind (.write fun db => shift_boarded db boards) fun _ => .bind (.lift _) fun _ => .bind (.lift _) fun _ =>
    .bind (.lift _) fun name => .bind (.lift _) fun verifier => .bind (.lift _) fun publisher => ?_
  refine .bind (.look fun _ => rfl) fun id => .bind (.write fun _ => rfl) fun _ =>
    .bind (.update fun db => logAddition_boarded db boards) fun _ => .bind (.look fun _ => rfl) fun _ => .pure _

theorem respects_patchDemon (changes : Changes) (stamp : Stamp) :
    Respects (boarded · boards) (patchDemon now id changes stamp) := by
  refine .bind (.lift _) fun _ => .bind (.lift _) fun _ => .bind (.lift _) fun time =>
    .bind (.look fun _ => rfl) fun demon => ?_
  dsimp only
  split
  · exact .pure _
  · refine .bind (.update fun db => makeRoom_boarded db boards _ _) fun _ => .bind (.lift _) fun _ =>
      .bind (.lift _) fun patched => .bind (.write fun _ => rfl) fun _ => ?_
    exact .bind (.write fun _ => rfl) fun _ => .bind (.lift _) fun _ => .bind (.look fun _ => rfl) fun _ => .pure _

theorem respects_removeDemon (stamp : Stamp) : Respects (boarded · boards) (removeDemon now id stamp) := by
  refine .bind (.lift _) fun time => .bind (.look fun _ => rfl) fun demon => .bind (.write fun _ => rfl) fun _ =>
    .bind (.write fun _ => rfl) fun _ => ?_
  exact .bind (.lift _) fun _ => .bind (.lift _) fun old => .bind (.write fun db => shift_boarded db boards) fun _ =>
    .bind (.look fun _ => rfl) fun _ => .pure _

theorem respects_setRecordStatus (status : Status) :
    Respects (boarded · boards) (setRecordStatus id status) := by
  refine .bind (.look fun _ => rfl) fun record => ?_
  split
  · exact .pure _
  · exact .bind (.lift _) fun _ => .bind (.write fun _ => rfl) fun _ => .pure _

theorem respects_setPlayerBanned (banned : Bool) : Respects (boarded · boards) (setPlayerBanned id banned) := by
  refine .bind (.look fun _ => rfl) fun player => ?_
  split
  · exact .pure _
  · exact .bind (.write fun _ => rfl) fun _ => .pure _

theorem respects_setPlayerNationality (nationality subdivision : Option String) :
    Respects (boarded · boards) (setPlayerNationality id nationality subdivision) := by
  refine .bind (.lift _) fun _ => .bind (.look fun _ => rfl) fun player => .bind (.look fun _ => rfl) fun _ => ?_
  split
  · exact .pure _
  · exact .bind (.write fun _ => rfl) fun _ => .pure _

end Mutation

namespace Database

variable {α : Type}

/-- Transactions look at no board. -/
theorem mutate_boarded (db boards : Database α) (now : Moment) (call : Call) :
    (db.boarded boards).mutate now call =
      (db.mutate now call).map fun change => { change with database := change.database.boarded boards } := by
  have respected : Work.Respects (boarded · boards) (call.mutation (α := α) now) := by
    cases call with
    | addDemon n stamp => exact Mutation.respects_addDemon boards n stamp
    | patchDemon id changes stamp => exact Mutation.respects_patchDemon boards changes stamp
    | removeDemon id stamp => exact Mutation.respects_removeDemon boards stamp
    | setRecordStatus id status => exact Mutation.respects_setRecordStatus boards status
    | setPlayerBanned id banned => exact Mutation.respects_setPlayerBanned boards banned
    | setPlayerNationality id nationality subdivision =>
      exact Mutation.respects_setPlayerNationality boards nationality subdivision
  unfold mutate
  rw [respected db]
  cases call.mutation now db <;> rfl

theorem SameTables.mutate {db db' : Database α} {now : Moment} {call : Call} {change : Change α}
    (same : SameTables db db') (done : db'.mutate now call = .ok change) :
    ∃ change', db.mutate now call = .ok change' ∧ SameTables change'.database change.database := by
  rw [show db' = db.boarded db' from same, mutate_boarded] at done
  cases outcome : db.mutate now call with
  | error e =>
    rw [outcome] at done
    cases done
  | ok change' =>
    rw [outcome] at done
    cases done
    exact ⟨change', rfl, rfl⟩

theorem SameTables.recomputeAll [Scalar α] {db db' : Database α} (same : SameTables db db') :
    (db'.recomputeAll .absent).state = (db.recomputeAll .absent).state := by
  rw [show db' = db.boarded db' from same, Database.recomputeAll, Database.recomputeAll,
    (recompute_absent _ Scope.all).1, (recompute_absent _ Scope.all).1]
  rfl

end Database

end DemonBoard
