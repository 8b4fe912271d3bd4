import DemonBoard.Proofs.Edits
import Mathlib.Data.List.Infix

/-! Sessions: lifecycle calls and recomputes, one after the other, each with passes that may break off. A
pass that is given up leaves the database as it was, so what a recompute does is to carry out the passes of
a first part of its scopes, and no pass touches a table outside its own board. -/

namespace DemonBoard

/-- A run with attempts left ends with the result of an attempt that completes, or where it started. -/
theorem go_cases {σ ρ : Type} (label : String) (work : Nat → σ → Attempt σ ρ) (limit : Int) (start : σ)
    (done left : Nat) (some_attempt : done ≠ 0 ∨ left ≠ 0) :
    let run := runInTransaction.go label work limit start done left
    (∃ n r, work n start = .completed run.state r ∧ run.result = .ok (some r)) ∨
      (run.state = start ∧ (run.result = .error (.exhausted label limit) ∨
        ∃ n written cause, work n start = .brokenOff written (.fatal cause) ∧ run.result = .error cause)) := by
  -- every attempt begins at `start`, since what a failed one has written is rolled back
  induction left generalizing done with
  | zero =>
    have used : done ≠ 0 := some_attempt.resolve_right (fun h => h rfl)
    exact .inr ⟨rfl, .inl (if_neg used)⟩
  | succ left ih =>
    cases outcome : work done start with
    | completed state result =>
      rw [go_of_completed outcome]
      exact .inl ⟨done, result, outcome, rfl⟩
    | brokenOff written failure =>
      cases failure with
      | fatal cause =>
        rw [go_of_fatal outcome]
        exact .inr ⟨rfl, .inr ⟨done, written, cause, outcome, rfl⟩⟩
      | transient =>
        rw [go_of_transient outcome]
        exact ih (done + 1) (.inl (Nat.succ_ne_zero done))

/-- An error that a recompute may end with: a pass used up its attempts, or broke off with that error. -/
def Faults.Explain (faults : Faults) (e : Error) : Prop :=
  e.kind = .aggregation ∨ ∃ pass attempt before, faults pass attempt = some ⟨before, .fatal e⟩

namespace Database

variable {α : Type} [Scalar α]

theorem attemptPass_completed {db state : Database α} {scope : Scope} {interruption : Option Interruption}
    {count : PassCount} (h : db.attemptPass scope interruption = .completed state count) :
    state = db.pass scope ∧ count = (db.pass scope).passCount scope := by
  unfold attemptPass at h
  split at h
  · injection h with state count
    exact ⟨state.symm, count.symm⟩
  · cases h
  · cases h

theorem attemptPass_fatal {db written : Database α} {scope : Scope} {interruption : Option Interruption}
    {cause : Error} (h : db.attemptPass scope interruption = .brokenOff written (.fatal cause)) :
    ∃ before, interruption = some ⟨before, .fatal cause⟩ := by
  unfold attemptPass at h
  split at h
  · cases h
  · injection h with _ failure
    exact ⟨.totals, by rw [failure]⟩
  · injection h with _ failure
    exact ⟨.ranks, by rw [failure]⟩

theorem recomputeScope_cases (interruptions : Nat → Option Interruption) (db : Database α) (scope : Scope) :
    let run := db.recomputeScope interruptions scope
    (run.state = db.pass scope ∧ ∃ count, run.result = .ok count) ∨
      (run.state = db ∧ ∃ e, run.result = .error e ∧
        (e.kind = .aggregation ∨ ∃ attempt before, interruptions attempt = some ⟨before, .fatal e⟩)) := by
  have cases := go_cases scope.label (fun attempt db => db.attemptPass scope (interruptions attempt))
    maxAttempts db 0 3 (.inr (by decide))
  unfold recomputeScope runInTransaction
  rw [show maxAttempts.toNat = 3 from rfl]
  generalize runInTransaction.go scope.label (fun attempt db => db.attemptPass scope (interruptions attempt))
    maxAttempts db 0 3 = run at cases
  dsimp only
  rcases cases with ⟨n, r, completed, result⟩ | ⟨state, result | ⟨n, written, cause, broken, result⟩⟩
  · exact .inl ⟨(attemptPass_completed completed).1, r, by rw [result]; rfl⟩
  · exact .inr ⟨state, .exhausted scope.label maxAttempts, by rw [result]; rfl, .inl rfl⟩
  · exact .inr ⟨state, cause, by rw [result]; rfl, .inr ⟨n, attemptPass_fatal broken⟩⟩

/-- A recompute carries out the passes of its scopes in turn: all of them, or those before the first that
is given up. -/
theorem recompute_cases (faults : Faults) (db : Database α) (scopes : List Scope) :
    let run := db.recompute faults scopes
    (run.state = scopes.foldl pass db ∧ ∃ counts, run.result = .ok counts) ∨
      ∃ done e, done <+: scopes ∧ run.state = done.foldl pass db ∧ run.result = .error e ∧
        faults.Explain e := by
  induction scopes generalizing faults db with
  | nil => exact .inl ⟨rfl, [], rfl⟩
  | cons scope rest ih =>
    unfold recompute
    rcases recomputeScope_cases (faults 0) db scope with ⟨state, count, result⟩ | ⟨state, e, result, cause⟩
    · simp only [result, state]
      rcases ih (fun n => faults (n + 1)) (db.pass scope) with
        ⟨state', counts, result'⟩ | ⟨done, e, part, state', result', cause⟩
      · exact .inl ⟨state', count :: counts, by rw [result']; rfl⟩
      · refine .inr ⟨scope :: done, e, ?_, state', by rw [result']; rfl, ?_⟩
        · exact (List.prefix_cons_inj scope).2 part
        · rcases cause with kind | ⟨n, attempt, before, eq⟩
          · exact .inl kind
          · exact .inr ⟨n + 1, attempt, before, eq⟩
    · simp only [result]
      refine .inr ⟨[], e, List.nil_prefix, state, rfl, ?_⟩
      rcases cause with kind | ⟨attempt, before, eq⟩
      · exact .inl kind
      · exact .inr ⟨0, attempt, before, eq⟩

theorem recompute_absent (db : Database α) (scopes : List Scope) :
    (db.recompute .absent scopes).state = scopes.foldl pass db ∧
      ∃ counts, (db.recompute .absent scopes).result = .ok counts := by
  induction scopes generalizing db with
  | nil => exact ⟨rfl, [], rfl⟩
  | cons s rest ih =>
    obtain ⟨state, counts, result⟩ := ih (db.pass s)
    exact ⟨state, (db.pass s).passCount s :: counts, congrArg (Except.map _) result⟩

theorem state_of_recompute_ok {faults : Faults} {db : Database α} {scopes : List Scope}
    {counts : List PassCount} (done : (db.recompute faults scopes).result = .ok counts) :
    (db.recompute faults scopes).state = scopes.foldl pass db := by
  rcases recompute_cases faults db scopes with ⟨state, -⟩ | ⟨_, e, -, -, failed, -⟩
  · exact state
  · rw [failed] at done
    cases done

def SameTables (db db' : Database α) : Prop :=
  db' = { db with
    playerBoard := db'.playerBoard, nationBoard := db'.nationBoard, subdivisionBoard := db'.subdivisionBoard }

omit [Scalar α] in
theorem SameTables.sameList {db db' : Database α} (h : SameTables db db') : SameList db db' := by
  rw [h]
  exact ⟨rfl, rfl, rfl⟩

omit [Scalar α] in
theorem SameTables.trans {db db' db'' : Database α} (h : SameTables db db') (h' : SameTables db' db'') :
    SameTables db db'' := by
  unfold SameTables at *
  rw [h', h]

theorem sameTables_foldl_pass (scopes : List Scope) (db : Database α) :
    SameTables db (scopes.foldl pass db) := by
  induction scopes generalizing db with
  | nil => rfl
  | cons scope rest ih =>
    have later := ih (db.pass scope)
    unfold SameTables at *
    rw [List.foldl_cons, later]
    cases scope <;> rfl

theorem sameTables_recompute (faults : Faults) (db : Database α) (scopes : List Scope) :
    SameTables db (db.recompute faults scopes).state := by
  rcases recompute_cases faults db scopes with ⟨state, -⟩ | ⟨done, e, -, state, -⟩
  · rw [state]
    exact sameTables_foldl_pass scopes db
  · rw [state]
    exact sameTables_foldl_pass done db

end Database

inductive Action where
  | call (call : Call)
  | recompute (scopes : List Scope)

structure Step where
  action : Action
  now : Moment
  faults : Faults

namespace Database

variable {α : Type} [Scalar α]

def step (db : Database α) (s : Step) : Database α :=
  match s.action with
  | .call call => (db.perform s.faults s.now call).state
  | .recompute scopes => (db.recompute s.faults scopes).state

def after (db : Database α) (steps : List Step) : Database α := steps.foldl step db

theorem after_append (db : Database α) (steps steps' : List Step) :
    db.after (steps ++ steps') = (db.after steps).after steps' := List.foldl_append

theorem sameTables_of_mutate {db : Database α} {now : Moment} {call : Call} {change : Change α}
    (done : db.mutate now call = .ok change) (faults : Faults) :
    SameTables change.database (db.perform faults now call).state := by
  rw [perform_of_ok done]
  exact sameTables_recompute faults _ _

theorem sameTables_perform (db : Database α) (faults : Faults) (now : Moment) (call : Call) :
    (∃ change, db.mutate now call = .ok change ∧
      SameTables change.database (db.perform faults now call).state) ∨
    (∃ e, db.mutate now call = .error e ∧ (db.perform faults now call).state = db) := by
  cases outcome : db.mutate now call with
  | ok change => exact .inl ⟨change, rfl, sameTables_of_mutate outcome faults⟩
  | error e => exact .inr ⟨e, rfl, by rw [perform_of_error outcome]⟩

theorem error_of_perform {db : Database α} {faults : Faults} {now : Moment} {call : Call} {e : Error}
    (h : (db.perform faults now call).result = .error e) :
    db.mutate now call = .error e ∨ faults.Explain e := by
  cases outcome : db.mutate now call with
  | error cause =>
    rw [perform_of_error outcome] at h
    injection h with same
    exact .inl (by rw [same])
  | ok change =>
    rw [perform_of_ok outcome] at h
    dsimp only at h
    rcases recompute_cases faults change.database (ChangeEvent.scopes change.events) with
      ⟨-, counts, result⟩ | ⟨done, cause, -, -, result, explained⟩
    · rw [result] at h
      cases h
    · rw [result] at h
      injection h with same
      exact .inr (same ▸ explained)

end Database

end DemonBoard
