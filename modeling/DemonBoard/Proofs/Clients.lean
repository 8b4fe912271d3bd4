import DemonBoard.Proofs.RunnerSteps
import DemonBoard.Proofs.Sessions
import Mathlib.Logic.Function.Basic

/-! Many clients of one database. A call commits its change in one step and then asks the runner of each scope
that the change concerns for a pass, one scope after the other. A pass reads the tables and writes its board
in one step, somewhere between its start and its end. All these steps interleave in any order that the
runners allow, also with requests for other databases, which share the runners. -/

namespace DemonBoard

/-- How far a client has come with its call. A client that calls again counts as another one. -/
inductive Client where
  | calling (call : Call) (now : Moment)
  | refused (cause : Error)
  | owing (scopes : List Scope)
  | awaiting (scope : Scope) (request : Nat) (later : List Scope)
  | gaveUp

/-- Whether a call is over, and no pass that it waited for was given up. -/
def Client.isDone : Client → Bool
  | .refused _ | .owing [] => true
  | .calling .. | .owing (_ :: _) | .awaiting .. | .gaveUp => false

/-- The runner of one scope, and whether the pass that it runs has written the board. -/
structure Station where
  runner : Runner
  written : Bool

/-- The database, which the runners know as number 0, with its runners and clients, and the calls that have
been committed so far, in their order. -/
structure Service (α : Type) where
  database : Database α
  stations : Scope → Station
  clients : List Client
  commits : List (Moment × Call)

/-- One indivisible step: a client comes with a call or with a demand for passes, a client goes on, a runner's
request goes on, or the pass of a scope writes. -/
inductive ServiceStep where
  | call (call : Call) (now : Moment)
  | demand (scopes : List Scope)
  | commit (client : Nat)
  | request (client : Nat)
  | resume (client : Nat)
  | turn (scope : Scope) (step : RunnerStep)
  | write (scope : Scope)

namespace Station

/-- The steps of its runner that a station does not take by itself: requests for the database come from
clients, and a pass over the database completes just if it has written. -/
def bars (t : Station) : RunnerStep → Bool
  | .arrive d => d = 0
  | .finish i completed => t.runner.requests[i]?.any fun q => q.database = 0 && t.written != completed
  | .acquire _ | .inspect _ | .start _ => false

def writtenAfter (t : Station) : RunnerStep → Bool
  | .start _ => false
  | .arrive _ | .acquire _ | .inspect _ | .finish _ _ => t.written

def turn? (t : Station) (s : RunnerStep) : Option Station :=
  if t.bars s then none else (t.runner.step? s).map fun runner => ⟨runner, t.writtenAfter s⟩

/-- The station with the board written, if a pass over the database runs that has not written yet. -/
def write? (t : Station) : Option Station := do
  let i ← t.runner.holder
  let q ← t.runner.requests[i]?
  match q.phase with
  | .running _ => if q.database = 0 ∧ t.written = false then some { t with written := true } else none
  | _ => none

end Station

namespace Service

variable {α : Type} [Scalar α]

def opened (db : Database α) : Service α := ⟨db, fun _ => ⟨.idle, false⟩, [], []⟩

def setClient (S : Service α) (c : Nat) (client : Client) : Service α :=
  { S with clients := S.clients.set c client }

def setStation (S : Service α) (scope : Scope) (t : Station) : Service α :=
  { S with stations := Function.update S.stations scope t }

def step? (S : Service α) : ServiceStep → Option (Service α)
  | .call call now => some { S with clients := S.clients ++ [.calling call now] }
  | .demand scopes => some { S with clients := S.clients ++ [.owing scopes] }
  | .commit c => do
    let .calling call now ← S.clients[c]? | none
    match S.database.mutate now call with
    | .error cause => some (S.setClient c (.refused cause))
    | .ok change =>
      some { S.setClient c (.owing (ChangeEvent.scopes change.events)) with
        database := change.database
        commits := S.commits ++ [(now, call)] }
  | .request c => do
    let .owing (scope :: later) ← S.clients[c]? | none
    let t := S.stations scope
    let runner ← t.runner.step? (.arrive 0)
    some ((S.setClient c (.awaiting scope t.runner.requests.length later)).setStation scope { t with runner })
  | .resume c => do
    let .awaiting scope i later ← S.clients[c]? | none
    let q ← (S.stations scope).runner.requests[i]?
    match q.phase with
    | .returned _ => some (S.setClient c (.owing later))
    | .failed => some (S.setClient c .gaveUp)
    | _ => none
  | .turn scope s => do
    let t ← (S.stations scope).turn? s
    some (S.setStation scope t)
  | .write scope => do
    let t ← (S.stations scope).write?
    some { S.setStation scope t with database := S.database.pass scope }

def run? (S : Service α) (steps : List ServiceStep) : Option (Service α) := steps.foldlM step? S

variable {S S' : Service α} {s : ServiceStep}

inductive Takes (S : Service α) : ServiceStep → Service α → Prop where
  | call (call : Call) (now : Moment) :
      Takes S (.call call now) { S with clients := S.clients ++ [.calling call now] }
  | demand (scopes : List Scope) : Takes S (.demand scopes) { S with clients := S.clients ++ [.owing scopes] }
  | commit {c : Nat} {call : Call} {now : Moment} {change : Change α}
      (at_c : S.clients[c]? = some (.calling call now)) (done : S.database.mutate now call = .ok change) :
      Takes S (.commit c) { S.setClient c (.owing (ChangeEvent.scopes change.events)) with
        database := change.database
        commits := S.commits ++ [(now, call)] }
  | refuse {c : Nat} {call : Call} {now : Moment} {cause : Error}
      (at_c : S.clients[c]? = some (.calling call now)) (failed : S.database.mutate now call = .error cause) :
      Takes S (.commit c) (S.setClient c (.refused cause))
  | request {c : Nat} {scope : Scope} {later : List Scope}
      (at_c : S.clients[c]? = some (.owing (scope :: later))) :
      Takes S (.request c) ((S.setClient c
        (.awaiting scope (S.stations scope).runner.requests.length later)).setStation scope
          { S.stations scope with runner := (S.stations scope).runner.joined 0 })
  | resume {c i : Nat} {scope : Scope} {later : List Scope} {q : Request} {ran : Bool}
      (at_c : S.clients[c]? = some (.awaiting scope i later))
      (at_i : (S.stations scope).runner.requests[i]? = some q) (back : q.phase = .returned ran) :
      Takes S (.resume c) (S.setClient c (.owing later))
  | giveUp {c i : Nat} {scope : Scope} {later : List Scope} {q : Request}
      (at_c : S.clients[c]? = some (.awaiting scope i later))
      (at_i : (S.stations scope).runner.requests[i]? = some q) (failed : q.phase = .failed) :
      Takes S (.resume c) (S.setClient c .gaveUp)
  | turn {scope : Scope} {s : RunnerStep} {runner : Runner} (free : (S.stations scope).bars s = false)
      (taken : Runner.Takes (S.stations scope).runner s runner) :
      Takes S (.turn scope s) (S.setStation scope ⟨runner, (S.stations scope).writtenAfter s⟩)
  | write {scope : Scope} {i covers : Nat} {q : Request}
      (at_i : (S.stations scope).runner.requests[i]? = some q) (runs : q.phase = .running covers)
      (own : q.database = 0) :
      Takes S (.write scope) { S.setStation scope { S.stations scope with written := true } with
        database := S.database.pass scope }

theorem takes_of_step? (h : S.step? s = some S') : Takes S s S' := by
  cases s with
  | call call now =>
    cases h
    exact .call call now
  | demand scopes =>
    cases h
    exact .demand scopes
  | commit c =>
    obtain ⟨client, at_c, h⟩ := Option.bind_eq_some_iff.1 h
    split at h
    · split at h
      · rename_i cause failed
        cases h
        exact .refuse at_c failed
      · rename_i change done
        cases h
        exact .commit at_c done
    · cases h
  | request c =>
    obtain ⟨client, at_c, h⟩ := Option.bind_eq_some_iff.1 h
    split at h
    · cases h
      exact .request at_c
    · cases h
  | resume c =>
    obtain ⟨client, at_c, h⟩ := Option.bind_eq_some_iff.1 h
    split at h
    · obtain ⟨q, at_i, h⟩ := Option.bind_eq_some_iff.1 h
      split at h
      · rename_i ran back
        cases h
        exact .resume at_c at_i back
      · rename_i failed
        cases h
        exact .giveUp at_c at_i failed
      · cases h
    · cases h
  | turn scope s =>
    obtain ⟨t, turned, h⟩ := Option.bind_eq_some_iff.1 h
    cases h
    unfold Station.turn? at turned
    split at turned
    · cases turned
    · rename_i free
      obtain ⟨runner, stepped, rfl⟩ := Option.map_eq_some_iff.1 turned
      exact .turn (Bool.eq_false_iff.2 free) (Runner.takes_of_step? stepped)
  | write scope =>
    obtain ⟨t, wrote, h⟩ := Option.bind_eq_some_iff.1 h
    cases h
    obtain ⟨i, -, wrote⟩ := Option.bind_eq_some_iff.1 wrote
    obtain ⟨q, at_i, wrote⟩ := Option.bind_eq_some_iff.1 wrote
    split at wrote
    · rename_i covers runs
      split at wrote
      · rename_i may
        cases wrote
        exact .write at_i runs may.1
      · cases wrote
    · cases wrote

end Service

end DemonBoard
