/-!
One runner of passes for many databases. A request takes a ticket, waits for the one lock, and then is
either covered already, by a pass that started after the ticket was taken and has completed, or runs a
pass itself. The steps of different requests interleave in any order that the lock allows.
-/

namespace DemonBoard

inductive Phase where
  | waiting
  | holding
  | cleared
  | running (covers : Nat)
  | returned (ran : Bool)
  | failed
  deriving DecidableEq

structure Request where
  database : Nat
  ticket : Nat
  phase : Phase
  deriving DecidableEq

/-- The tickets handed out and the tickets covered, by database; which request has the lock; and the
requests in the order of their arrival. -/
structure Runner where
  requested : Nat → Nat
  covered : Nat → Nat
  holder : Option Nat
  requests : List Request

inductive RunnerStep where
  | arrive (database : Nat)
  | acquire (request : Nat)
  | inspect (request : Nat)
  | start (request : Nat)
  | finish (request : Nat) (completed : Bool)
  deriving DecidableEq

namespace Runner

def idle : Runner := ⟨fun _ => 0, fun _ => 0, none, []⟩

def update (counts : Nat → Nat) (database value : Nat) : Nat → Nat :=
  fun d => if d = database then value else counts d

def setPhase (r : Runner) (i : Nat) (phase : Phase) : Runner :=
  { r with requests := r.requests.modify i fun q => { q with phase } }

def step? (r : Runner) : RunnerStep → Option Runner
  | .arrive database =>
    let ticket := r.requested database + 1
    some { r with
      requested := update r.requested database ticket
      requests := r.requests ++ [⟨database, ticket, .waiting⟩] }
  | .acquire i => do
    let request ← r.requests[i]?
    if request.phase = .waiting ∧ r.holder = none then
      some { r.setPhase i .holding with holder := some i }
    else none
  | .inspect i => do
    let request ← r.requests[i]?
    if request.phase ≠ .holding then none
    else if request.ticket ≤ r.covered request.database then
      some { r.setPhase i (.returned false) with holder := none }
    else some (r.setPhase i .cleared)
  | .start i => do
    let request ← r.requests[i]?
    if request.phase = .cleared then some (r.setPhase i (.running (r.requested request.database)))
    else none
  | .finish i completed => do
    let request ← r.requests[i]?
    match request.phase with
    | .running covers =>
      if completed then
        some { r.setPhase i (.returned true) with
          holder := none
          covered := update r.covered request.database covers }
      else some { r.setPhase i .failed with holder := none }
    | _ => none

def run? (r : Runner) (steps : List RunnerStep) : Option Runner := steps.foldlM step? r

def advance (r : Runner) (steps : List RunnerStep) : Runner := steps.foldl (fun r s => (r.step? s).getD r) r

/-- Lets a waiting request have the lock and go through to its end, its pass completing if it runs one. -/
def serve (r : Runner) (i : Nat) : Runner := r.advance [.acquire i, .inspect i, .start i, .finish i true]

/-- A request for database 0 whose pass has started, and further requests that wait for the lock. -/
def queued (waiting : List Nat) : Runner :=
  idle.advance ([.arrive 0, .acquire 0, .inspect 0, .start 0] ++ waiting.map .arrive)

/-- The first pass completes, and then the waiting requests get the lock in the given order. -/
def drained (waiting : List Nat) (order : List Nat) : Runner :=
  order.foldl serve ((queued waiting).advance [.finish 0 true])

def Phase.isRun : Phase → Bool
  | .running _ | .returned true | .failed => true
  | _ => false

def runs (r : Runner) (database : Nat) : Nat :=
  r.requests.countP fun q => q.database = database && Phase.isRun q.phase

def returnedTrue (r : Runner) (database : Nat) : Nat :=
  r.requests.countP fun q => q.database = database && q.phase = .returned true

end Runner

end DemonBoard
