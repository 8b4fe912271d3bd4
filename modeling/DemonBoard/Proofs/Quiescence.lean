import DemonBoard.Proofs.Boards
import DemonBoard.Proofs.Clients

/-! Quiescence. A board that is not fresh is owed a pass: some client still has to ask for it, or waits for a
request that no pass covers which has read the tables already. Once all clients are done nothing is owed, so
every board is fresh, whichever requests have been coalesced. -/

namespace DemonBoard

def Phase.isOpen : Phase → Bool
  | .waiting | .holding | .cleared | .running _ => true
  | .returned _ | .failed => false

namespace Station

variable {t : Station} {runner : Runner} {s : RunnerStep} {i d : Nat}

/-- The pass that runs over the database does not cover a ticket if it has written already. -/
def Misses (t : Station) (ticket : Nat) : Prop :=
  t.written = true → ∀ (j : Nat) (p : Request) covers, t.runner.requests[j]? = some p → p.database = 0 →
    p.phase = .running covers → covers < ticket

/-- No pass that has read the tables counts for a request, or the request's own pass was given up. -/
def Unserved (t : Station) (i : Nat) : Prop :=
  ∃ q, t.runner.requests[i]? = some q ∧ q.database = 0 ∧
    (q.phase = .failed ∨ q.phase.isOpen ∧ t.runner.covered 0 < q.ticket ∧ t.Misses q.ticket)

theorem Misses.joined {ticket : Nat} (h : t.Misses ticket) :
    Misses { t with runner := t.runner.joined d } ticket := by
  intro written j p covers at_j own runs
  rcases Runner.getElem?_joined at_j with ⟨-, rfl⟩ | ⟨-, old⟩
  · cases runs
  · exact h written j p covers old own runs

theorem Unserved.joined (h : t.Unserved i) : Unserved { t with runner := t.runner.joined d } i := by
  obtain ⟨q, at_i, own, left⟩ := h
  exact ⟨q, Runner.getElem?_joined_of_some at_i, own, left.imp_right fun ⟨still, uncovered, misses⟩ =>
    ⟨still, uncovered, misses.joined⟩⟩

theorem unserved_joined (ordered : t.runner.Ordered) :
    Unserved { t with runner := t.runner.joined 0 } t.runner.requests.length := by
  refine ⟨_, Runner.getElem?_joined_self, rfl, .inr ⟨rfl, Nat.lt_succ_of_le (ordered.covered 0), ?_⟩⟩
  refine Misses.joined ?_
  intro _ j p covers at_j own runs
  have fits := ordered.fits j p at_j
  rw [runs, own] at fits
  exact Nat.lt_succ_of_le fits.2.2

section Turns

variable {j : Nat} {p : Request} {phase : Phase} {holder : Option Nat} {covered : Nat → Nat} {ticket : Nat}

theorem Misses.moved (h : t.Misses ticket) (still : ∀ covers, phase ≠ .running covers) :
    Misses { t with runner := t.runner.moved j phase holder covered } ticket := by
  intro written k p covers at_k own runs
  rcases Runner.getElem?_moved at_k with ⟨-, q, -, rfl⟩ | ⟨-, old⟩
  · exact absurd runs (still covers)
  · exact h written k p covers old own runs

theorem Unserved.moved {written : Bool} (h : t.Unserved i) (at_j : t.runner.requests[j]? = some p)
    (was : p.phase.isOpen)
    (keeps : ∀ ticket, t.runner.covered 0 < ticket → t.Misses ticket →
      covered 0 < ticket ∧ Misses ⟨t.runner.moved j phase holder covered, written⟩ ticket)
    (next : p.database = 0 → t.runner.covered 0 < p.ticket → t.Misses p.ticket →
      phase = .failed ∨ phase.isOpen) : Unserved ⟨t.runner.moved j phase holder covered, written⟩ i := by
  obtain ⟨q, at_i, own, left⟩ := h
  by_cases same : i = j
  · subst same
    obtain rfl : q = p := Option.some_inj.1 (at_i.symm.trans at_j)
    refine ⟨_, Runner.getElem?_moved_self at_i, own, ?_⟩
    rcases left with failed | ⟨-, uncovered, misses⟩
    · rw [failed] at was
      cases was
    · exact (next own uncovered misses).imp_right fun still => ⟨still, keeps q.ticket uncovered misses⟩
  · refine ⟨q, (Runner.getElem?_moved_of_ne same).trans at_i, own, left.imp_right ?_⟩
    rintro ⟨still, uncovered, misses⟩
    exact ⟨still, keeps q.ticket uncovered misses⟩

theorem Unserved.moved_quiet (h : t.Unserved i) (at_j : t.runner.requests[j]? = some p) (was : p.phase.isOpen)
    (still : ∀ covers, phase ≠ .running covers)
    (next : p.database = 0 → t.runner.covered 0 < p.ticket → phase = .failed ∨ phase.isOpen) :
    Unserved { t with runner := t.runner.moved j phase holder t.runner.covered } i :=
  h.moved at_j was (fun _ uncovered misses => ⟨uncovered, misses.moved still⟩)
    fun own uncovered _ => next own uncovered

/-- A request that is unserved stays so whatever its runner does next. -/
theorem Unserved.turn (h : t.Unserved i) (ordered : t.runner.Ordered) (free : t.bars s = false)
    (taken : Runner.Takes t.runner s runner) : Unserved ⟨runner, t.writtenAfter s⟩ i := by
  cases taken with
  | arrive d => exact h.joined
  | acquire at_j waits lock => exact h.moved_quiet at_j (by rw [waits]; rfl) nofun fun _ _ => .inr rfl
  | coalesce at_j holds old =>
    refine h.moved_quiet at_j (by rw [holds]; rfl) nofun ?_
    intro own uncovered
    rw [own] at old
    exact absurd old (Nat.not_le_of_lt uncovered)
  | clear at_j holds new => exact h.moved_quiet at_j (by rw [holds]; rfl) nofun fun _ _ => .inr rfl
  | start at_j cleared =>
    -- a pass that starts has not written, so it may well cover the ticket
    refine h.moved at_j (by rw [cleared]; rfl) ?_ fun _ _ _ => .inr rfl
    exact fun ticket uncovered _ => ⟨uncovered, nofun⟩
  | @complete j covers p at_j runs =>
    have written : p.database = 0 → t.written = true := by
      intro own
      simpa [bars, at_j, own] using free
    refine h.moved at_j (by rw [runs]; rfl) ?_ ?_
    · intro ticket uncovered misses
      refine ⟨?_, misses.moved nofun⟩
      by_cases own : p.database = 0
      · rw [own, Runner.update_self]
        exact misses (written own) j p covers at_j own runs
      · rw [Runner.update_of_ne (Ne.symm own)]
        exact uncovered
    · intro own _ misses
      have fits := ordered.fits j p at_j
      rw [runs] at fits
      exact absurd fits.2.1 (Nat.not_le_of_lt (misses (written own) j p covers at_j own runs))
  | fail at_j runs => exact h.moved_quiet at_j (by rw [runs]; rfl) nofun fun _ _ => .inl rfl

end Turns

end Station

/-- A client will not be done before a pass of a scope has read the tables once more. -/
def Client.Owes (t : Station) (scope : Scope) : Client → Prop
  | .owing scopes => scope ∈ scopes
  | .awaiting s i later => scope ∈ later ∨ s = scope ∧ t.Unserved i
  | .gaveUp => True
  | .calling .. | .refused _ => False

theorem Client.not_owes_of_isDone {client : Client} {t : Station} {scope : Scope} (h : client.isDone) :
    ¬ client.Owes t scope := by
  cases client with
  | refused => exact id
  | owing scopes =>
    cases scopes with
    | nil => exact List.not_mem_nil
    | cons => cases h
  | calling | awaiting | gaveUp => cases h

theorem Client.Owes.mono {client : Client} {t t' : Station} {scope : Scope} (h : client.Owes t scope)
    (keeps : ∀ i, t.Unserved i → t'.Unserved i) : client.Owes t' scope := by
  cases client with
  | awaiting s i later => exact h.imp_right fun ⟨same, left⟩ => ⟨same, keeps i left⟩
  | _ => exact h

def SomeOwes (t : Station) (scope : Scope) (clients : List Client) : Prop :=
  ∃ client ∈ clients, client.Owes t scope

namespace SomeOwes

variable {t t' : Station} {scope : Scope} {clients : List Client} {c : Nat} {old new : Client}

theorem append (h : SomeOwes t scope clients) (new : Client) : SomeOwes t scope (clients ++ [new]) := by
  obtain ⟨client, mem, owes⟩ := h
  exact ⟨client, List.mem_append_left _ mem, owes⟩

theorem mono (h : SomeOwes t scope clients) (keeps : ∀ i, t.Unserved i → t'.Unserved i) :
    SomeOwes t' scope clients := by
  obtain ⟨client, mem, owes⟩ := h
  exact ⟨client, mem, owes.mono keeps⟩

theorem of_set (at_c : clients[c]? = some old) (owes : new.Owes t scope) :
    SomeOwes t scope (clients.set c new) := by
  obtain ⟨lt, -⟩ := List.getElem?_eq_some_iff.1 at_c
  exact ⟨new, List.mem_set lt new, owes⟩

/-- What is owed is still owed after a client has gone on, if the client takes what it owed along. -/
theorem set (h : SomeOwes t scope clients) (at_c : clients[c]? = some old)
    (along : old.Owes t scope → new.Owes t scope) : SomeOwes t scope (clients.set c new) := by
  obtain ⟨client, mem, owes⟩ := h
  obtain ⟨k, at_k⟩ := List.getElem?_of_mem mem
  by_cases same : c = k
  · subst same
    obtain rfl : old = client := Option.some_inj.1 (at_c.symm.trans at_k)
    exact of_set at_c (along owes)
  · exact ⟨client, List.mem_of_getElem? ((List.getElem?_set_ne same).trans at_k), owes⟩

end SomeOwes

namespace Database

variable {α : Type}

/-- The database after the transaction of a call, without the passes that the call asks for. -/
def committed (db : Database α) (now : Moment) (call : Call) : Database α :=
  match db.mutate now call with
  | .ok change => change.database
  | .error _ => db

/-- The database after the transactions of some calls, one after the other, without any pass. -/
def replayed (db : Database α) (commits : List (Moment × Call)) : Database α :=
  commits.foldl (fun db (now, call) => db.committed now call) db

theorem replayed_snoc (db : Database α) (commits : List (Moment × Call)) {now : Moment} {call : Call}
    {change : Change α} (done : (db.replayed commits).mutate now call = .ok change) :
    db.replayed (commits ++ [(now, call)]) = change.database := by
  have last : (db.replayed commits).committed now call = change.database := by rw [committed, done]
  rw [← last, replayed, List.foldl_append]
  rfl

end Database

namespace Service

variable {α : Type} [Scalar α] {db : Database α} {S S' : Service α} {s : ServiceStep} {scope : Scope}

/-- Where a service stands that has started from a database: no board lacks a pass that nobody owes, and the
tables are those that the committed calls have made. -/
structure Sound (db : Database α) (S : Service α) : Prop where
  ordered : ∀ scope, (S.stations scope).runner.Ordered
  accounted : ∀ scope, S.database.FreshIn scope ∨ SomeOwes (S.stations scope) scope S.clients
  tables : Database.SameTables (db.replayed S.commits) S.database

namespace Sound

theorem opened (fresh : db.Fresh) : Sound db (opened db) :=
  ⟨fun _ => Runner.Ordered.idle, fun scope => .inl (Database.fresh_iff.1 fresh scope), rfl⟩

theorem setClient {c : Nat} {old new : Client} (h : Sound db S) (at_c : S.clients[c]? = some old)
    (along : ∀ scope, old.Owes (S.stations scope) scope → new.Owes (S.stations scope) scope) :
    Sound db (S.setClient c new) :=
  ⟨h.ordered, fun scope => (h.accounted scope).imp_right fun owed => owed.set at_c (along scope), h.tables⟩

theorem setStation {t : Station} (h : Sound db S) (ordered : t.runner.Ordered)
    (keeps : ∀ i, (S.stations scope).Unserved i → t.Unserved i) : Sound db (S.setStation scope t) := by
  refine ⟨?_, ?_, h.tables⟩
  · intro other
    by_cases same : other = scope
    · subst same
      simpa [Service.setStation] using ordered
    · simpa [Service.setStation, same] using h.ordered other
  · intro other
    refine (h.accounted other).imp_right fun owed => ?_
    by_cases same : other = scope
    · subst same
      simpa [Service.setStation] using owed.mono keeps
    · simpa [Service.setStation, same] using owed

/-- A client commits its call, and from then on owes the passes of all the boards that may have become
stale. -/
theorem commit {c : Nat} {call : Call} {now : Moment} {change : Change α} (h : Sound db S)
    (at_c : S.clients[c]? = some (.calling call now)) (done : S.database.mutate now call = .ok change) :
    Sound db { S.setClient c (.owing (ChangeEvent.scopes change.events)) with
      database := change.database
      commits := S.commits ++ [(now, call)] } := by
  refine ⟨h.ordered, ?_, ?_⟩
  · intro scope
    by_cases concerned : scope ∈ ChangeEvent.scopes change.events
    · exact .inr (.of_set at_c concerned)
    · exact (h.accounted scope).imp (fun fresh => fresh.mutate done concerned) fun owed => owed.set at_c False.elim
  · obtain ⟨change', done', same⟩ := h.tables.mutate done
    rw [Database.replayed_snoc db S.commits done']
    exact same

theorem request {c : Nat} {later : List Scope} (h : Sound db S)
    (at_c : S.clients[c]? = some (.owing (scope :: later))) :
    Sound db ((S.setClient c (.awaiting scope (S.stations scope).runner.requests.length later)).setStation scope
      { S.stations scope with runner := (S.stations scope).runner.joined 0 }) := by
  have joined : Sound db (S.setStation scope { S.stations scope with runner := (S.stations scope).runner.joined 0 }) :=
    h.setStation ((h.ordered scope).joined 0) fun i left => left.joined
  refine joined.setClient at_c ?_
  intro other owes
  rcases List.mem_cons.1 owes with rfl | mem
  · refine .inr ⟨rfl, ?_⟩
    simpa [Service.setStation] using Station.unserved_joined (h.ordered other)
  · exact .inl mem

/-- A pass makes its own board fresh, so nothing needs to be owed for it. -/
theorem write (h : Sound db S) (scope : Scope) :
    Sound db { S.setStation scope { S.stations scope with written := true } with
      database := S.database.pass scope } := by
  refine ⟨?_, ?_, ?_⟩
  · intro other
    by_cases same : other = scope
    · subst same
      simpa [Service.setStation] using h.ordered other
    · simpa [Service.setStation, same] using h.ordered other
  · intro other
    by_cases same : other = scope
    · subst same
      exact .inl (Database.pass_pass S.database other)
    · refine (h.accounted other).imp (fun fresh => fresh.pass scope) fun owed => ?_
      simpa [Service.setStation, same] using owed
  · exact h.tables.trans (Database.sameTables_foldl_pass [scope] S.database)

theorem step (h : Sound db S) (taken : Takes S s S') : Sound db S' := by
  cases taken with
  | call | demand =>
    exact ⟨h.ordered, fun scope => (h.accounted scope).imp_right fun owed => owed.append _, h.tables⟩
  | commit at_c done => exact h.commit at_c done
  | refuse at_c failed => exact h.setClient at_c fun _ => False.elim
  | request at_c => exact h.request at_c
  | resume at_c at_i back =>
    refine h.setClient at_c fun other owes => ?_
    -- a request that has returned is not unserved, so only what comes later was owed
    rcases owes with mem | ⟨rfl, q, at_i', -, left⟩
    · exact mem
    · obtain rfl := Option.some_inj.1 (at_i.symm.trans at_i')
      rw [back] at left
      rcases left with failed | ⟨still, -⟩
      · cases failed
      · cases still
  | giveUp at_c at_i failed => exact h.setClient at_c fun _ _ => trivial
  | turn free taken =>
    exact h.setStation ((h.ordered _).step taken) fun i left => left.turn (h.ordered _) free taken
  | write at_i runs own => exact h.write _

theorem run {steps : List ServiceStep} (h : Sound db S) (taken : S.run? steps = some S') : Sound db S' := by
  induction steps generalizing S with
  | nil =>
    cases taken
    exact h
  | cons s rest ih =>
    obtain ⟨mid, first, others⟩ := Option.bind_eq_some_iff.1 taken
    exact ih (h.step (takes_of_step? first)) others

end Sound

/-- Quiescent consistency: once all clients of a service are done, whichever steps have been taken in whatever
order, every board says what a recompute of everything would make of the committed calls. -/
theorem quiescent_consistency (fresh : db.Fresh) {steps : List ServiceStep}
    (taken : (Service.opened db).run? steps = some S) (finished : ∀ client ∈ S.clients, client.isDone) :
    S.database.Fresh ∧ S.database = ((db.replayed S.commits).recomputeAll .absent).state := by
  have sound := (Sound.opened fresh).run taken
  have fresh : S.database.Fresh := by
    refine Database.fresh_iff.2 fun scope => ?_
    rcases sound.accounted scope with fresh | ⟨client, mem, owes⟩
    · exact fresh
    · exact absurd owes (Client.not_owes_of_isDone (finished client mem))
  exact ⟨fresh, fresh.symm.trans sound.tables.recomputeAll⟩

/-- Two clients move a player to another nation and back. Each of the two boards concerned gets one pass, which
the second client's request is coalesced into. -/
theorem quiescent_consistency_of_two :
    let verified : Demon := ⟨"a", some 1, 50, none, 1, 1, true, ⟨0⟩, none⟩
    let db : Database Float := { (Database.empty : Database Float) with
      nations := ⟨[("FR", ⟨"France", none⟩)], List.pairwise_singleton _ _⟩
      players := Table.empty.append ⟨"p", none, none, false⟩
      demons := Table.empty.append verified }
    let shared (scope : Scope) : List ServiceStep :=
      [.request 0, .turn scope (.acquire 0), .turn scope (.inspect 0), .request 1, .turn scope (.start 0),
       .write scope, .turn scope (.finish 0 true), .resume 0, .turn scope (.acquire 1), .turn scope (.inspect 1),
       .resume 1]
    let steps : List ServiceStep :=
      [.call (.setPlayerNationality 1 (some "FR") none) ⟨5⟩, .call (.setPlayerNationality 1 none none) ⟨6⟩,
       .commit 0, .commit 1] ++ shared .nation ++ shared .subdivision
    ∃ S, (opened (db.recomputeAll .absent).state).run? steps = some S ∧ S.commits.length = 2 ∧
      (S.stations .nation).runner.requests.map Request.phase = [.returned true, .returned false] ∧
      S.database.Fresh := by
  intro verified db shared steps
  have start : (db.recomputeAll .absent).state.Fresh := Database.fresh_recomputeAll db
  have ends : ((opened (db.recomputeAll .absent).state).run? steps).any fun S =>
      S.clients.all Client.isDone && S.commits.length == 2 &&
        (S.stations .nation).runner.requests.map Request.phase == [.returned true, .returned false] := by
    decide +kernel
  rw [Option.any_eq_true] at ends
  obtain ⟨S, taken, ended⟩ := ends
  simp only [Bool.and_eq_true, List.all_eq_true, beq_iff_eq] at ended
  obtain ⟨⟨finished, commits⟩, phases⟩ := ended
  exact ⟨S, taken, commits, phases, (quiescent_consistency start taken finished).1⟩

end Service

end DemonBoard
