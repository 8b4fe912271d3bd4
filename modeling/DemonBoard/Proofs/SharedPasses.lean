import DemonBoard.Proofs.Queues

/-! Passes that a queue shares. While a first request runs a pass over database 0, others take their tickets and wait
for the lock, and then they get it in any order. How many passes are made, and how many requests say that they have
made one, depends on the databases that are waited for and not on the order. -/

namespace DemonBoard.Runner

variable {r r' : Runner} {s : RunnerStep} {steps : List RunnerStep} {d i j : Nat} {q : Request} {phase : Phase}
  {holder : Option Nat} {covered : Nat → Nat} {waiting order : List Nat}

theorem run?_append (ran : r.run? steps = some r') (more : List RunnerStep) :
    r.run? (steps ++ more) = r'.run? more := by
  rw [run?, List.foldlM_append, ← run?, ran]
  rfl

theorem run?_of_takes (taken : Takes r s r') (more : List RunnerStep) : r.run? (s :: more) = r'.run? more := by
  rw [run?, List.foldlM_cons, step?_of_takes taken]
  rfl

theorem advance_of_run? (ran : r.run? steps = some r') (more : List RunnerStep) :
    r.advance (steps ++ more) = r'.advance more := by
  induction steps generalizing r with
  | nil =>
    cases ran
    rfl
  | cons s rest ih =>
    obtain ⟨between, taken, ran⟩ := Option.bind_eq_some_iff.1 ran
    rw [List.cons_append, advance, List.foldl_cons, taken]
    exact ih ran

theorem advance_of_none (h : r.step? s = none) (more : List RunnerStep) :
    r.advance (s :: more) = r.advance more := by
  rw [advance, List.foldl_cons, h]
  rfl

/-- The first request starts a pass over database 0, the others arrive, and the pass completes. -/
def opening (waiting : List Nat) : List RunnerStep :=
  [.arrive 0, .acquire 0, .inspect 0, .start 0] ++ waiting.map .arrive ++ [.finish 0 true]

theorem exists_newcomers (r : Runner) (waiting : List Nat) :
    ∃ r' newcomers, r.run? (waiting.map .arrive) = some r' ∧ r'.requests = r.requests ++ newcomers ∧
      newcomers.map Request.database = waiting ∧
      (∀ q ∈ newcomers, q.phase = .waiting ∧ r.requested q.database < q.ticket) ∧ r'.covered = r.covered := by
  induction waiting generalizing r with
  | nil => exact ⟨r, [], rfl, (List.append_nil _).symm, rfl, nofun, rfl⟩
  | cons d rest ih =>
    obtain ⟨r', newcomers, ran, requests, databases, new, covered⟩ := ih (r.joined d)
    refine ⟨r', ⟨d, r.requested d + 1, .waiting⟩ :: newcomers, ran, ?_, ?_, ?_, covered⟩
    · rw [requests]
      exact List.append_assoc _ _ _
    · rw [List.map_cons, databases]
    · rw [List.forall_mem_cons]
      refine ⟨⟨rfl, Nat.lt_succ_self _⟩, fun q mem => ?_⟩
      obtain ⟨waits, lt⟩ := new q mem
      exact ⟨waits, Nat.lt_of_le_of_lt (r.le_requested_joined d q.database) lt⟩

theorem exists_opened (waiting : List Nat) : ∃ r, idle.run? (opening waiting) = some r ∧
    r = (queued waiting).advance [.finish 0 true] ∧ Queue waiting r ∧ r.holder = none ∧
    ∀ i q, r.requests[i + 1]? = some q → q.phase = .waiting := by
  obtain ⟨first, begun, requests, requested, covered⟩ : ∃ first,
      idle.run? [.arrive 0, .acquire 0, .inspect 0, .start 0] = some first ∧
      first.requests = [⟨0, 1, .running 1⟩] ∧ (∀ d, first.requested d = if d = 0 then 1 else 0) ∧
      first.covered = fun _ => 0 := ⟨_, rfl, rfl, fun _ => rfl, rfl⟩
  obtain ⟨r, newcomers, arrived, all, databases, new, same⟩ := exists_newcomers first waiting
  have ran := run?_append begun (waiting.map .arrive)
  rw [arrived] at ran
  have at_0 : r.requests[0]? = some ⟨0, 1, .running 1⟩ := by
    rw [all, requests]
    rfl
  let opened := r.moved 0 (.returned true) none (update r.covered 0 1)
  have last : r.run? [.finish 0 true] = some opened := run?_of_takes (.complete at_0 rfl) []
  have whole : idle.run? (opening waiting) = some opened := (run?_append ran _).trans last
  have tail (i : Nat) (q : Request) (at_i : opened.requests[i + 1]? = some q) : q ∈ newcomers := by
    rw [getElem?_moved_of_ne (Nat.succ_ne_zero i), all, requests] at at_i
    exact List.mem_of_getElem? at_i
  refine ⟨opened, whole, ?_, ?_, rfl, fun i q at_i => (new q (tail i q at_i)).1⟩
  · have before : queued waiting = r := by
      have advanced := advance_of_run? ran []
      rw [List.append_nil] at advanced
      exact advanced
    have advanced := advance_of_run? last []
    rw [before]
    exact advanced.symm
  · refine ⟨(traced_of_run? whole).2, ?_, ?_, ?_⟩
    · rw [databases_moved, all, requests, List.map_append, databases]
      rfl
    · intro q at_q
      rw [getElem?_moved_self at_0] at at_q
      cases at_q
      rfl
    · intro d
      refine .uncovered ?_
      intro i q queued
      obtain ⟨k, rfl⟩ := Nat.exists_eq_succ_of_ne_zero queued.later
      obtain ⟨waits, lt⟩ := new q (tail k q queued.at_i)
      rw [queued.own, requested] at lt
      refine ⟨?_, by rw [waits]; trivial⟩
      rw [covered_moved, same, covered]
      exact lt

/-- Some steps serve requests in an order: these get the lock in it, nobody else comes, and no pass fails. -/
structure Serves (steps : List RunnerStep) (order : List Nat) : Prop where
  acquisitions : (steps.filterMap fun | .acquire i => some i | _ => none) = order
  calm : ∀ s ∈ steps, s.isCalm

theorem Serves.append {more : List RunnerStep} {order' : List Nat} (h : Serves steps order) (h' : Serves more order') :
    Serves (steps ++ more) (order ++ order') := by
  refine ⟨?_, ?_⟩
  · rw [List.filterMap_append, h.acquisitions, h'.acquisitions]
  · intro s mem
    rcases List.mem_append.1 mem with mem | mem
    · exact h.calm s mem
    · exact h'.calm s mem

structure Alone (r : Runner) (i : Nat) (steps : List RunnerStep) (r' : Runner) (q : Request) : Prop where
  ran : r.run? steps = some r'
  at_i : r'.requests[i]? = some q
  others : ∀ j ≠ i, r'.requests[j]? = r.requests[j]?

theorem Alone.moved (h : Alone r i steps r' q) (taken : Takes r' s (r'.moved i phase holder covered)) :
    Alone r i (steps ++ [s]) (r'.moved i phase holder covered) { q with phase } := by
  refine ⟨(run?_append h.ran _).trans (run?_of_takes taken []), getElem?_moved_self h.at_i, ?_⟩
  intro j other
  rw [getElem?_moved_of_ne other, h.others j other]

theorem exists_serving (free : r.holder = none) (at_i : r.requests[i]? = some q) (waits : q.phase = .waiting) :
    ∃ steps ran, Serves steps [i] ∧ Alone r i steps (r.serve i) { q with phase := .returned ran } ∧
      (r.serve i).holder = none := by
  have unmoved : Alone r i [] r q := ⟨rfl, at_i, fun _ _ => rfl⟩
  have holding := unmoved.moved (.acquire at_i waits free)
  by_cases old : q.ticket ≤ r.covered q.database
  · have back := holding.moved (.coalesce holding.at_i rfl old)
    -- the steps of a pass cannot be taken any more
    have served := advance_of_run? back.ran [.start i, .finish i true]
    rw [advance_of_none, advance_of_none] at served
    · change r.serve i = _ at served
      rw [served]
      exact ⟨_, false, ⟨rfl, List.all_eq_true.1 rfl⟩, back, rfl⟩
    · rw [step?, back.at_i]
      rfl
    · rw [step?, back.at_i]
      rfl
  · have cleared := holding.moved (.clear holding.at_i rfl (Nat.lt_of_not_le old))
    have running := cleared.moved (.start cleared.at_i rfl)
    have back := running.moved (.complete running.at_i rfl)
    have served : r.serve i = _ := advance_of_run? back.ran []
    rw [served]
    exact ⟨_, true, ⟨rfl, List.all_eq_true.1 rfl⟩, back, rfl⟩

/-- The waiting requests come through in any order in which they get the lock. -/
theorem exists_servings (free : r.holder = none) (once : order.Nodup)
    (waits : ∀ i ∈ order, r.phaseOf i = some .waiting) : ∃ steps, Serves steps order ∧
      r.run? steps = some (order.foldl serve r) ∧
      (∀ i ∈ order, ∃ ran, (order.foldl serve r).phaseOf i = some (.returned ran)) ∧
      ∀ j ∉ order, (order.foldl serve r).requests[j]? = r.requests[j]? := by
  induction order generalizing r with
  | nil => exact ⟨[], ⟨rfl, nofun⟩, rfl, nofun, fun _ _ => rfl⟩
  | cons i rest ih =>
    obtain ⟨new, once⟩ := List.nodup_cons.1 once
    obtain ⟨first, later⟩ := List.forall_mem_cons.1 waits
    obtain ⟨q, at_i, waiting⟩ := Option.map_eq_some_iff.1 first
    obtain ⟨steps, ran, serves, alone, free'⟩ := exists_serving free at_i waiting
    have waits' : ∀ j ∈ rest, (r.serve i).phaseOf j = some .waiting := by
      intro j mem
      rw [phaseOf, alone.others j (ne_of_mem_of_not_mem mem new)]
      exact later j mem
    obtain ⟨steps', serves', ran', back, others⟩ := ih free' once waits'
    refine ⟨steps ++ steps', serves.append serves', (run?_append alone.ran _).trans ran', ?_, ?_⟩
    · intro j mem
      rcases List.mem_cons.1 mem with rfl | mem
      · refine ⟨ran, ?_⟩
        rw [List.foldl_cons, phaseOf, others j new, alone.at_i]
        rfl
      · exact back j mem
    · intro j away
      obtain ⟨other, away⟩ := not_or.1 (List.mem_cons.not.1 away)
      rw [List.foldl_cons, others j away, alone.others j other]

/-- Queued requests share one pass for each database: whatever the order in which they get the lock, it leads to the
end, and exactly one of a database's requests has made a pass by then. -/
theorem queue_shares_one_pass (everyone : order.Perm ((List.range waiting.length).map (· + 1))) :
    (∃ later, Serves later order ∧ idle.run? (opening waiting ++ later) = some (drained waiting order) ∧
      (drained waiting order).AllBack) ∧
    ∀ later r, Serves later order → idle.run? (opening waiting ++ later) = some r → r.AllBack → ∀ d,
      starts (0 :: waiting) later d = (if d ∈ waiting then 1 else 0) ∧
      (d ∈ waiting → ∃ i : Nat, waiting[i]? = some d ∧ r.phaseOf (i + 1) = some (.returned true) ∧
        ∀ j : Nat, waiting[j]? = some d → j ≠ i → r.phaseOf (j + 1) = some (.returned false)) ∧
      r.runs d = (if d = 0 then 1 else 0) + (if d ∈ waiting then 1 else 0) ∧
      r.returnedTrue d = (if d = 0 then 1 else 0) + (if d ∈ waiting then 1 else 0) := by
  obtain ⟨opened, begun, drains, queue, free, waits⟩ := exists_opened waiting
  have mem_order (k : Nat) : k + 1 ∈ order ↔ k < waiting.length := by
    rw [everyone.mem_iff]
    simp
  constructor
  · have once : order.Nodup := everyone.nodup_iff.2 <|
      List.pairwise_map.2 (List.nodup_range.imp fun other same => other (Nat.succ.inj same))
    have all_wait : ∀ i ∈ order, opened.phaseOf i = some .waiting := by
      intro i mem
      obtain ⟨k, lt, rfl⟩ := List.mem_map.1 (everyone.mem_iff.1 mem)
      obtain ⟨q, queued⟩ := queue.exists_queued (List.getElem?_eq_getElem (List.mem_range.1 lt))
      rw [phaseOf, queued.at_i, Option.map_some, waits k q queued.at_i]
    obtain ⟨later, serves, ran, back, others⟩ := exists_servings free once all_wait
    rw [drained, ← drains]
    refine ⟨later, serves, (run?_append begun _).trans ran, ?_⟩
    obtain ⟨queue', -⟩ := queue.run serves.calm ran
    intro q mem
    obtain ⟨j, at_j⟩ := List.mem_iff_getElem?.1 mem
    by_cases first : j = 0
    · subst first
      exact ⟨true, queue'.first q at_j⟩
    · obtain ⟨k, rfl, at_k⟩ := queue'.exists_index ⟨at_j, rfl, first⟩
      obtain ⟨ran, returned⟩ := back _ ((mem_order k).2 (List.getElem?_eq_some_iff.1 at_k).1)
      rw [phaseOf, at_j, Option.map_some, Option.some_inj] at returned
      exact ⟨ran, returned⟩
  · intro later r serves ran back d
    rw [run?_append begun] at ran
    obtain ⟨queue', runs⟩ := queue.run serves.calm ran
    have total := queue'.returnedTrue_eq back d
    have same := Queue.runs_eq_returnedTrue back d
    have before := queue.runs_eq_of_waiting waits d
    have more := runs d
    refine ⟨by omega, queue'.exists_one back, same.trans total, total⟩

/-- Two wait for database 0 and one for database 1. The last to come gets the lock first and makes a pass over
database 0, the second makes one over database 1, and the first is told that its pass has been made. -/
theorem queue_shares_one_pass_of_three :
    let r := drained [0, 1, 0] [3, 2, 1]
    r.runs 0 = 2 ∧ r.runs 1 = 1 ∧ r.runs 2 = 0 ∧ r.phaseOf 3 = some (.returned true) ∧
      ∃ i : Nat, [0, 1, 0][i]? = some 0 ∧ r.phaseOf (i + 1) = some (.returned true) ∧
        ∀ j : Nat, [0, 1, 0][j]? = some 0 → j ≠ i → r.phaseOf (j + 1) = some (.returned false) := by
  intro r
  have everyone : [3, 2, 1].Perm ((List.range [0, 1, 0].length).map (· + 1)) := by decide
  obtain ⟨⟨later, serves, ran, back⟩, counts⟩ := queue_shares_one_pass everyone
  obtain ⟨-, one, first, -⟩ := counts later r serves ran back 0
  obtain ⟨-, -, second, -⟩ := counts later r serves ran back 1
  obtain ⟨-, -, third, -⟩ := counts later r serves ran back 2
  exact ⟨first, second, third, rfl, one (by decide)⟩

end DemonBoard.Runner
