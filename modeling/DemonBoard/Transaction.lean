import DemonBoard.Error

/-!
Transactions, with and without retries. An attempt either completes, and then its state is kept, or breaks
off, and then whatever it had written is rolled back. A transient failure is followed by another attempt from
the same start, as long as attempts are left; any other failure ends the run.
-/

namespace DemonBoard

inductive Failure where
  | transient
  | fatal (cause : Error)
  deriving DecidableEq

/-- How an attempt ends. Either way it leaves what it has written. -/
inductive Attempt (σ ρ : Type) (ε : Type := Failure) where
  | completed (state : σ) (result : ρ)
  | brokenOff (written : σ) (failure : ε)

/-- What comes of an attempt, apart from what one that broke off had written. -/
def Attempt.outcome {ε σ ρ γ : Type} (make : σ → ρ → γ) : Attempt σ ρ ε → Except ε γ
  | .completed state result => .ok (make state result)
  | .brokenOff _ failure => .error failure

/-- The steps of an attempt, each of which reads or writes the state that the steps before it have left. -/
def Work (ε σ ρ : Type) : Type := σ → Attempt σ ρ ε

namespace Work

variable {ε σ ρ : Type}

instance : Monad (Work ε σ) where
  pure result := fun state => .completed state result
  bind work next := fun state =>
    match work state with
    | .completed state result => next result state
    | .brokenOff written failure => .brokenOff written failure

def look (f : σ → Except ε ρ) : Work ε σ ρ := fun state =>
  match f state with
  | .ok result => .completed state result
  | .error failure => .brokenOff state failure

def write (f : σ → σ) : Work ε σ Unit := fun state => .completed (f state) ()

/-- Writes what has been worked out from the state, or breaks off before anything of it is written. -/
def update (f : σ → Except ε σ) : Work ε σ Unit := fun state =>
  match f state with
  | .ok updated => .completed updated ()
  | .error failure => .brokenOff state failure

instance : MonadLift (Except ε) (Work ε σ) := ⟨fun check => look fun _ => check⟩

theorem bind_apply {β : Type} (work : Work ε σ β) (next : β → Work ε σ ρ) (state : σ) : (work >>= next) state =
    match work state with
    | .completed state b => next b state
    | .brokenOff written failure => .brokenOff written failure := rfl

section Outcomes

variable {β γ : Type} {make : σ → ρ → γ} {state : σ}

theorem outcome_pure (result : ρ) : ((pure result : Work ε σ ρ) state).outcome make = .ok (make state result) := rfl

theorem outcome_look_bind (f : σ → Except ε β) (next : β → Work ε σ ρ) :
    ((look f >>= next) state).outcome make = f state >>= fun b => (next b state).outcome make := by
  rw [bind_apply, look]
  cases f state <;> rfl

theorem outcome_lift_bind (check : Except ε β) (next : β → Work ε σ ρ) :
    (((check : Work ε σ β) >>= next) state).outcome make = check >>= fun b => (next b state).outcome make :=
  outcome_look_bind (fun _ => check) next

theorem outcome_write_bind (f : σ → σ) (next : Unit → Work ε σ ρ) :
    ((write f >>= next) state).outcome make = (next () (f state)).outcome make := rfl

theorem outcome_update_bind (f : σ → Except ε σ) (next : Unit → Work ε σ ρ) :
    ((update f >>= next) state).outcome make = f state >>= fun updated => (next () updated).outcome make := by
  rw [bind_apply, update]
  cases f state <;> rfl

end Outcomes

end Work

/-- What is stored, and the copy of it that a session works on. -/
structure Workspace (σ : Type) where
  stored : σ
  working : σ

namespace Workspace

variable {σ : Type}

def opened (stored : σ) : Workspace σ := ⟨stored, stored⟩

def commit (w : Workspace σ) : Workspace σ := ⟨w.working, w.working⟩

def rollback (w : Workspace σ) : Workspace σ := ⟨w.stored, w.stored⟩

end Workspace

/-- One attempt in a session of its own: what a completed attempt wrote is committed, and what was written by one
that broke off is rolled back. -/
def inSession {ε σ ρ : Type} (attempt : Work ε σ ρ) (current : σ) : σ × Except ε ρ :=
  let session := Workspace.opened current
  match attempt session.working with
  | .completed state result => ({ session with working := state }.commit.stored, .ok result)
  | .brokenOff written failure => ({ session with working := written }.rollback.stored, .error failure)

/-- How a run of attempts ends: after how many attempts, in which state, and with which result, which is
nothing if no attempt was allowed. -/
structure Run (σ ρ : Type) where
  attempts : Nat
  state : σ
  result : Except Error (Option ρ)

/-- Makes up to `limit` attempts; `work` gets the number of earlier attempts. -/
def runInTransaction {σ ρ : Type} (label : String) (work : Nat → σ → Attempt σ ρ) (limit : Int) (start : σ) :
    Run σ ρ :=
  go start 0 limit.toNat
where
  go (current : σ) (done : Nat) : Nat → Run σ ρ
    | 0 => ⟨done, current, if done = 0 then .ok none else .error (.exhausted label limit)⟩
    | left + 1 =>
      match inSession (work done) current with
      | (state, .ok result) => ⟨done + 1, state, .ok (some result)⟩
      | (state, .error (.fatal cause)) => ⟨done + 1, state, .error cause⟩
      | (state, .error .transient) => go state (done + 1) left

section Sessions

variable {ε σ ρ : Type} {attempt : Work ε σ ρ} {current state : σ} {result : ρ} {failure : ε}

theorem inSession_of_completed (h : attempt current = .completed state result) :
    inSession attempt current = (state, .ok result) := by
  simp only [inSession, Workspace.opened, h, Workspace.commit]

/-- Whatever was written by an attempt that broke off, what was stored stays. -/
theorem inSession_of_brokenOff (h : attempt current = .brokenOff state failure) :
    inSession attempt current = (current, .error failure) := by
  simp only [inSession, Workspace.opened, h, Workspace.rollback]

end Sessions

section Attempts

variable {σ ρ : Type} {label : String} {work : Nat → σ → Attempt σ ρ} {limit : Int} {current state : σ} {result : ρ}
  {done left : Nat}

theorem go_of_completed (h : work done current = .completed state result) :
    runInTransaction.go label work limit current done (left + 1) = ⟨done + 1, state, .ok (some result)⟩ := by
  rw [runInTransaction.go, inSession_of_completed h]

theorem go_of_fatal {cause : Error} (h : work done current = .brokenOff state (.fatal cause)) :
    runInTransaction.go label work limit current done (left + 1) = ⟨done + 1, current, .error cause⟩ := by
  rw [runInTransaction.go, inSession_of_brokenOff h]

theorem go_of_transient (h : work done current = .brokenOff state .transient) :
    runInTransaction.go label work limit current done (left + 1) =
      runInTransaction.go label work limit current (done + 1) left := by
  rw [runInTransaction.go, inSession_of_brokenOff h]

end Attempts

end DemonBoard
