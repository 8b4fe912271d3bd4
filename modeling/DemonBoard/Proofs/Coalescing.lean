import DemonBoard.Proofs.RunnerSteps
import Mathlib.Data.List.Induction
import Mathlib.Data.List.TakeDrop

/-! Coalescing. A history is the list of the steps that a runner has taken, and the index of a step in it is
the time of the step. A pass starts with the step that reads how many tickets have been handed out, so
what it covers are the tickets that were taken before that step. -/

namespace DemonBoard

def RunnerStep.isArrival : RunnerStep → Bool
  | .arrive _ => true
  | _ => false

namespace Runner

variable {steps : List RunnerStep} {s : RunnerStep} {r r' : Runner} {i j k m n database : Nat} {q p : Request}

def arrivals (steps : List RunnerStep) : Nat := steps.countP RunnerStep.isArrival

/-- How many tickets for a database some steps hand out. -/
def tickets (steps : List RunnerStep) (database : Nat) : Nat := steps.count (.arrive database)

/-- Request number `i` takes its ticket with the step at `k`. -/
structure Arrives (steps : List RunnerStep) (k i database : Nat) : Prop where
  step : steps[k]? = some (.arrive database)
  number : arrivals (steps.take k) = i

/-- A pass starts at `m` and completes at `n`, for the database of the request that runs it. -/
def CompletedPass (steps : List RunnerStep) (database m n : Nat) : Prop :=
  ∃ j k, Arrives steps k j database ∧ k < m ∧ steps[m]? = some (.start j) ∧ m < n ∧
    steps[n]? = some (.finish j true)

section Histories

theorem lt_of_getElem? (at_k : steps[k]? = some s) : k < steps.length := (List.getElem?_eq_some_iff.1 at_k).1

theorem getElem?_snoc (s' : RunnerStep) (at_k : steps[k]? = some s) : (steps ++ [s'])[k]? = some s := by
  rw [List.getElem?_append_left (lt_of_getElem? at_k), at_k]

theorem of_getElem?_snoc {s' : RunnerStep} (at_k : (steps ++ [s'])[k]? = some s) :
    steps[k]? = some s ∨ (k = steps.length ∧ s' = s) := by
  rw [List.getElem?_append] at at_k
  split at at_k
  · exact .inl at_k
  · rw [List.getElem?_singleton] at at_k
    split at at_k
    · exact .inr ⟨by omega, Option.some_inj.1 at_k⟩
    · cases at_k

theorem take_snoc (s' : RunnerStep) (le : k ≤ steps.length) : (steps ++ [s']).take k = steps.take k :=
  List.take_append_of_le_length le

theorem take_succ (at_k : steps[k]? = some s) : steps.take (k + 1) = steps.take k ++ [s] := by
  rw [List.take_add_one, at_k]
  rfl

theorem tickets_snoc_self : tickets (steps ++ [.arrive database]) database = tickets steps database + 1 := by
  rw [tickets, List.count_append, List.count_singleton_self, tickets]

theorem tickets_snoc_of_ne (other : s ≠ .arrive database) :
    tickets (steps ++ [s]) database = tickets steps database := by
  rw [tickets, List.count_append, List.count_singleton, if_neg (by simpa using other), Nat.add_zero, tickets]

theorem tickets_take_succ (at_k : steps[k]? = some (.arrive database)) :
    tickets (steps.take (k + 1)) database = tickets (steps.take k) database + 1 := by
  rw [take_succ at_k, tickets_snoc_self]

theorem tickets_take_le (le : k ≤ m) : tickets (steps.take k) database ≤ tickets (steps.take m) database :=
  (List.take_sublist_take_left le).count_le _

theorem lt_iff_tickets_le (at_k : steps[k]? = some (.arrive database)) :
    k < m ↔ tickets (steps.take (k + 1)) database ≤ tickets (steps.take m) database := by
  constructor
  · exact tickets_take_le
  · intro le
    by_contra early
    have le' : tickets (steps.take m) database ≤ tickets (steps.take k) database :=
      tickets_take_le (Nat.le_of_not_lt early)
    rw [tickets_take_succ at_k] at le
    omega

namespace Arrives

theorem snoc (h : Arrives steps k i database) (s' : RunnerStep) : Arrives (steps ++ [s']) k i database := by
  refine ⟨getElem?_snoc s' h.step, ?_⟩
  rw [take_snoc s' (Nat.le_of_lt (lt_of_getElem? h.step))]
  exact h.number

theorem unique {k' database' : Nat} (h : Arrives steps k i database) (h' : Arrives steps k' i database') :
    database = database' := by
  have before {k k' database database' : Nat} (h : Arrives steps k i database)
      (h' : Arrives steps k' i database') : ¬ k < k' := by
    intro lt
    have le : arrivals (steps.take (k + 1)) ≤ arrivals (steps.take k') :=
      (List.take_sublist_take_left lt).countP_le
    rw [arrivals, take_succ h.step, List.countP_append, ← arrivals, h.number, h'.number] at le
    change i + 1 ≤ i at le
    omega
  have same : k = k' := Nat.le_antisymm (Nat.le_of_not_lt (before h' h)) (Nat.le_of_not_lt (before h h'))
  subst same
  have step := h.step.symm.trans h'.step
  cases step
  rfl

end Arrives

theorem CompletedPass.snoc (h : CompletedPass steps database m n) (s' : RunnerStep) :
    CompletedPass (steps ++ [s']) database m n := by
  obtain ⟨j, k, arrives, before, starts, lasts, ends⟩ := h
  exact ⟨j, k, arrives.snoc s', before, getElem?_snoc s' starts, lasts, getElem?_snoc s' ends⟩

theorem CompletedPass.lt_length (h : CompletedPass steps database m n) : m < steps.length := by
  obtain ⟨j, k, -, -, starts, -, -⟩ := h
  exact lt_of_getElem? starts

theorem CompletedPass.of_snoc {s' : RunnerStep} (h : CompletedPass (steps ++ [s']) database m n) :
    CompletedPass steps database m n ∨
      ∃ j k, s' = .finish j true ∧ Arrives (steps ++ [s']) k j database ∧ steps[m]? = some (.start j) := by
  obtain ⟨j, k, arrives, before, starts, lasts, ends⟩ := h
  have early : m < steps.length := by
    have := lt_of_getElem? ends
    rw [List.length_append, List.length_singleton] at this
    omega
  have starts' : steps[m]? = some (.start j) := by rwa [List.getElem?_append_left early] at starts
  rcases of_getElem?_snoc ends with ends' | ⟨-, last⟩
  · refine .inl ⟨j, k, ⟨?_, ?_⟩, before, starts', lasts, ends'⟩
    · rw [← arrives.step, List.getElem?_append_left (Nat.lt_trans before early)]
    · rw [← take_snoc s' (Nat.le_of_lt (Nat.lt_trans before early))]
      exact arrives.number
  · exact .inr ⟨j, k, last, arrives, starts'⟩

end Histories

/-- What a history says of request number `i` in a phase. A pass that runs covers the tickets taken before
it started, and whoever has returned is covered by a completed pass. -/
def Told (steps : List RunnerStep) (i database ticket : Nat) : Phase → Prop
  | .waiting | .holding | .cleared => ∀ m : Nat, steps[m]? ≠ some (RunnerStep.start i)
  | .running covers => ∃ k m, Arrives steps k i database ∧ k < m ∧ steps[m]? = some (.start i) ∧
      covers = tickets (steps.take m) database ∧ ∀ m' : Nat, steps[m']? = some (RunnerStep.start i) → m' = m
  | .returned _ => ∃ m n, CompletedPass steps database m n ∧ ticket ≤ tickets (steps.take m) database
  | .failed => True

theorem Told.snoc {ticket : Nat} {phase : Phase} (h : Told steps i database ticket phase)
    (other : s ≠ .start i) : Told (steps ++ [s]) i database ticket phase := by
  have unstarted (never : ∀ m : Nat, steps[m]? ≠ some (RunnerStep.start i)) (m : Nat) :
      (steps ++ [s])[m]? ≠ some (.start i) := by
    intro at_m
    rcases of_getElem?_snoc at_m with old | ⟨-, last⟩
    · exact never m old
    · exact other last
  cases phase with
  | waiting | holding | cleared => exact unstarted h
  | running covers =>
    obtain ⟨k, m, arrives, before, starts, read, once⟩ := h
    refine ⟨k, m, arrives.snoc s, before, getElem?_snoc s starts, ?_, ?_⟩
    · rw [take_snoc s (Nat.le_of_lt (lt_of_getElem? starts))]
      exact read
    · intro m' at_m
      rcases of_getElem?_snoc at_m with old | ⟨-, last⟩
      · exact once m' old
      · exact absurd last other
  | returned =>
    obtain ⟨m, n, pass, le⟩ := h
    refine ⟨m, n, pass.snoc s, ?_⟩
    rw [take_snoc s (Nat.le_of_lt pass.lt_length)]
    exact le
  | failed => trivial

structure Traced (steps : List RunnerStep) (r : Runner) : Prop where
  requested : ∀ d, r.requested d = tickets steps d
  length : r.requests.length = arrivals steps
  arrived : ∀ i q, r.requests[i]? = some q → ∃ k, Arrives steps k i q.database ∧
    q.ticket = tickets (steps.take (k + 1)) q.database
  started : ∀ (m : Nat) i, steps[m]? = some (.start i) → i < r.requests.length
  told : ∀ (i : Nat) q, r.requests[i]? = some q → Told steps i q.database q.ticket q.phase
  covered : ∀ d, r.covered d = 0 ∨ ∃ m n, CompletedPass steps d m n ∧ r.covered d = tickets (steps.take m) d
  latest : ∀ d m n, CompletedPass steps d m n → tickets (steps.take m) d ≤ r.covered d

namespace Traced

theorem idle : Traced [] idle :=
  ⟨fun _ => rfl, rfl, nofun, nofun, nofun, fun _ => .inl rfl, fun _ _ _ ⟨_, _, _, _, starts, _⟩ => nomatch starts⟩

theorem tickets_pos (h : Traced steps r) (at_i : r.requests[i]? = some q) : 0 < q.ticket := by
  obtain ⟨k, arrives, ticket⟩ := h.arrived i q at_i
  rw [ticket, tickets_take_succ arrives.step]
  exact Nat.succ_pos _

theorem arrived_snoc (h : Traced steps r) (s : RunnerStep) (at_i : r.requests[i]? = some q) :
    ∃ k, Arrives (steps ++ [s]) k i q.database ∧
      q.ticket = tickets ((steps ++ [s]).take (k + 1)) q.database := by
  obtain ⟨k, arrives, ticket⟩ := h.arrived i q at_i
  refine ⟨k, arrives.snoc s, ?_⟩
  rw [take_snoc s (lt_of_getElem? arrives.step)]
  exact ticket

theorem covered_snoc (h : Traced steps r) (s : RunnerStep) (d : Nat) : r.covered d = 0 ∨
    ∃ m n, CompletedPass (steps ++ [s]) d m n ∧ r.covered d = tickets ((steps ++ [s]).take m) d := by
  rcases h.covered d with none | ⟨m, n, pass, read⟩
  · exact .inl none
  · refine .inr ⟨m, n, pass.snoc s, ?_⟩
    rw [take_snoc s (Nat.le_of_lt pass.lt_length)]
    exact read

theorem latest_snoc (h : Traced steps r) (goesOn : ∀ j, s ≠ .finish j true) (d m n : Nat)
    (pass : CompletedPass (steps ++ [s]) d m n) : tickets ((steps ++ [s]).take m) d ≤ r.covered d := by
  rcases pass.of_snoc with old | ⟨j, -, last, -⟩
  · rw [take_snoc s (Nat.le_of_lt old.lt_length)]
    exact h.latest d m n old
  · exact absurd last (goesOn j)

theorem joined (h : Traced steps r) (database : Nat) :
    Traced (steps ++ [.arrive database]) (r.joined database) := by
  have length : (r.joined database).requests.length = r.requests.length + 1 := List.length_append
  have newcomer : Arrives (steps ++ [.arrive database]) steps.length r.requests.length database := by
    refine ⟨List.getElem?_concat_length, ?_⟩
    rw [List.take_left, h.length]
  refine ⟨?_, ?_, ?_, ?_, ?_, h.covered_snoc _, h.latest_snoc nofun⟩
  · intro d
    by_cases same : d = database
    · subst same
      rw [tickets_snoc_self, ← h.requested]
      exact update_self _ _ _
    · rw [tickets_snoc_of_ne (by simpa using Ne.symm same), ← h.requested]
      exact update_of_ne same
  · rw [length, h.length, arrivals, arrivals, List.countP_append]
    rfl
  · intro j p at_j
    rcases getElem?_joined at_j with ⟨rfl, rfl⟩ | ⟨-, old⟩
    · refine ⟨steps.length, newcomer, ?_⟩
      rw [tickets_take_succ newcomer.step, List.take_left, h.requested]
    · exact h.arrived_snoc _ old
  · intro m j at_m
    rw [length]
    rcases of_getElem?_snoc at_m with old | ⟨-, last⟩
    · exact Nat.lt_succ_of_lt (h.started m j old)
    · cases last
  · intro j p at_j
    rcases getElem?_joined at_j with ⟨rfl, rfl⟩ | ⟨-, old⟩
    · intro m at_m
      rcases of_getElem?_snoc at_m with old | ⟨-, last⟩
      · exact Nat.lt_irrefl _ (h.started m _ old)
      · cases last
    · exact (h.told j p old).snoc nofun

theorem moved (h : Traced steps r) (at_i : r.requests[i]? = some q) {phase : Phase} {holder : Option Nat}
    {covered : Nat → Nat} (old : s.isArrival = false) (own : ∀ j, s = .start j → j = i)
    (told : Told (steps ++ [s]) i q.database q.ticket phase)
    (since : ∀ d, covered d = 0 ∨ ∃ m n, CompletedPass (steps ++ [s]) d m n ∧
      covered d = tickets ((steps ++ [s]).take m) d)
    (latest : ∀ d m n, CompletedPass (steps ++ [s]) d m n → tickets ((steps ++ [s]).take m) d ≤ covered d) :
    Traced (steps ++ [s]) (r.moved i phase holder covered) := by
  refine ⟨?_, ?_, ?_, ?_, ?_, since, latest⟩
  · intro d
    have none : s ≠ .arrive d := by
      rintro rfl
      cases old
    rw [requested_moved, h.requested, tickets_snoc_of_ne none]
  · rw [length_moved, h.length, arrivals, arrivals, List.countP_append, List.countP_singleton, old]
    rfl
  · intro j p at_j
    rcases getElem?_moved at_j with ⟨rfl, q', at_q, rfl⟩ | ⟨-, at_j⟩
    · obtain ⟨k, arrives, ticket⟩ := h.arrived_snoc s at_q
      exact ⟨k, arrives, ticket⟩
    · exact h.arrived_snoc s at_j
  · intro m j at_m
    rw [length_moved]
    rcases of_getElem?_snoc at_m with at_m | ⟨-, last⟩
    · exact h.started m j at_m
    · rw [own j last]
      exact (List.getElem?_eq_some_iff.1 at_i).1
  · intro j p at_j
    rcases getElem?_moved at_j with ⟨rfl, q', at_q, rfl⟩ | ⟨other, at_j⟩
    · rw [at_i, Option.some_inj] at at_q
      exact at_q ▸ told
    · exact (h.told j p at_j).snoc fun last => other (own j last)

theorem step (h : Traced steps r) (ordered : Ordered r) (taken : Takes r s r') : Traced (steps ++ [s]) r' := by
  cases taken with
  | arrive database => exact h.joined database
  | @acquire i q at_i waits free =>
    have told := h.told i q at_i
    rw [waits] at told
    have unstarted : Told steps i q.database q.ticket .holding := told
    exact h.moved at_i rfl nofun (unstarted.snoc nofun) (h.covered_snoc _) (h.latest_snoc nofun)
  | @coalesce i q at_i holds old =>
    refine h.moved at_i rfl nofun ?_ (h.covered_snoc _) (h.latest_snoc nofun)
    have pos := h.tickets_pos at_i
    rcases h.covered_snoc (.inspect i) q.database with none | ⟨m, n, pass, read⟩
    · omega
    · exact ⟨m, n, pass, read ▸ old⟩
  | @clear i q at_i holds new =>
    have told := h.told i q at_i
    rw [holds] at told
    have unstarted : Told steps i q.database q.ticket .cleared := told
    exact h.moved at_i rfl nofun (unstarted.snoc nofun) (h.covered_snoc _) (h.latest_snoc nofun)
  | @start i q at_i cleared =>
    have told := h.told _ _ at_i
    rw [cleared] at told
    obtain ⟨k, arrives, -⟩ := h.arrived_snoc (.start i) at_i
    have before : k < steps.length := by
      rcases of_getElem?_snoc arrives.step with at_k | ⟨-, last⟩
      · exact lt_of_getElem? at_k
      · cases last
    refine h.moved at_i rfl (fun j same => by cases same; rfl) ?_ (h.covered_snoc _) (h.latest_snoc nofun)
    refine ⟨k, steps.length, arrives, before, List.getElem?_concat_length, ?_, ?_⟩
    · rw [List.take_left, h.requested]
    · intro m' at_m
      rcases of_getElem?_snoc at_m with at_m | ⟨last, -⟩
      · exact absurd at_m (told m')
      · exact last
  | @complete i covers q at_i runs =>
    have told := h.told _ _ at_i
    have fits := ordered.fits _ _ at_i
    rw [runs] at told fits
    obtain ⟨k, m, arrives, before, starts, read, once⟩ := told
    obtain ⟨uncovered, own, -⟩ := fits
    have early : m ≤ steps.length := Nat.le_of_lt (lt_of_getElem? starts)
    have pass : CompletedPass (steps ++ [.finish i true]) q.database m steps.length :=
      ⟨i, k, arrives.snoc _, before, getElem?_snoc _ starts, lt_of_getElem? starts,
        List.getElem?_concat_length⟩
    refine h.moved at_i rfl nofun ⟨m, _, pass, ?_⟩ ?_ ?_
    · rw [take_snoc _ early, ← read]
      exact own
    · intro d
      by_cases same : d = q.database
      · subst same
        refine .inr ⟨m, _, pass, ?_⟩
        rw [update_self, take_snoc _ early, read]
      · rw [update_of_ne same]
        exact h.covered_snoc _ d
    · intro d m' n' pass'
      rcases pass'.of_snoc with old | ⟨j, k', last, arrives', starts'⟩
      · rw [take_snoc _ (Nat.le_of_lt old.lt_length)]
        have le := h.latest d m' n' old
        by_cases same : d = q.database
        · subst same
          rw [update_self]
          omega
        · rw [update_of_ne same]
          exact le
      · cases last
        obtain rfl := once m' starts'
        obtain rfl := arrives'.unique (arrives.snoc _)
        rw [update_self, take_snoc _ early]
        exact Nat.le_of_eq read.symm
  | fail at_i runs => exact h.moved at_i rfl nofun trivial (h.covered_snoc _) (h.latest_snoc nofun)

end Traced

/-- A run from the start has the history that it has gone through, and keeps the order of the counts. -/
theorem traced_of_run? (ran : idle.run? steps = some r) : Traced steps r ∧ Ordered r := by
  -- from the end, since a history tells of what has happened up to the last step
  induction steps using List.reverseRecOn generalizing r with
  | nil =>
    cases ran
    exact ⟨Traced.idle, Ordered.idle⟩
  | append_singleton steps s ih =>
    rw [run?, List.foldlM_append] at ran
    obtain ⟨before, ran, last⟩ := Option.bind_eq_some_iff.1 ran
    obtain ⟨traced, ordered⟩ := ih ran
    rw [List.foldlM_cons] at last
    obtain ⟨after, last, done⟩ := Option.bind_eq_some_iff.1 last
    cases done
    have taken := takes_of_step? last
    exact ⟨traced.step ordered taken, ordered.step taken⟩

/-- Coalescing loses no change: at most one pass runs at a time, whoever has returned took its ticket before the start
of a pass that has completed, and a pass starts only for a ticket that every completed pass has missed. -/
theorem requests_coalesce (ran : idle.run? steps = some r) :
    (∀ (i j : Nat) p q covers covers', r.requests[i]? = some p → r.requests[j]? = some q →
      p.phase = .running covers → q.phase = .running covers' → i = j) ∧
    (∀ (i : Nat) q passed, r.requests[i]? = some q → q.phase = .returned passed →
      ∃ k m n, Arrives steps k i q.database ∧ CompletedPass steps q.database m n ∧ k < m) ∧
    (∀ d, r.covered d = 0 ∨ ∃ m n, CompletedPass steps d m n ∧ r.covered d = tickets (steps.take m) d) ∧
    (∀ i r', r.step? (.finish i false) = some r' →
      r'.covered = r.covered ∧ ∀ j : Nat, j ≠ i → r'.requests[j]? = r.requests[j]?) ∧
    (∀ s r' d, r.step? s = some r' → r.covered d ≤ r'.covered d ∧ r'.covered d ≤ r'.requested d) ∧
    ∀ i r' q, r.step? (.start i) = some r' → r.requests[i]? = some q →
      ∃ k, Arrives steps k i q.database ∧ ∀ m n, CompletedPass steps q.database m n → m < k := by
  obtain ⟨traced, ordered⟩ := traced_of_run? ran
  refine ⟨?_, ?_, traced.covered, ?_, ?_, ?_⟩
  · intro i j p q covers covers' at_i at_j runs runs'
    exact ordered.eq_of_locked at_i at_j (by rw [runs]; rfl) (by rw [runs']; rfl)
  · intro i q passed at_i back
    obtain ⟨k, arrives, ticket⟩ := traced.arrived i q at_i
    have told := traced.told i q at_i
    rw [back] at told
    obtain ⟨m, n, pass, le⟩ := told
    exact ⟨k, m, n, arrives, pass, (lt_iff_tickets_le arrives.step).2 (ticket ▸ le)⟩
  · intro i r' ended
    cases takes_of_step? ended with
    | fail at_i runs => exact ⟨rfl, fun j other => getElem?_moved_of_ne other⟩
  · intro s r' d stepped
    have taken := takes_of_step? stepped
    exact ⟨ordered.covered_le_of_takes taken d, (ordered.step taken).covered d⟩
  · intro i r' q started at_i
    obtain ⟨k, arrives, ticket⟩ := traced.arrived i q at_i
    refine ⟨k, arrives, ?_⟩
    intro m n pass
    cases takes_of_step? started with
    | start at_q cleared =>
      obtain rfl := Option.some_inj.1 (at_i.symm.trans at_q)
      have uncovered := ordered.fits i _ at_i
      rw [cleared] at uncovered
      have early : ¬ k < m := by
        rw [lt_iff_tickets_le arrives.step, ← ticket]
        exact Nat.not_le.2 (Nat.lt_of_le_of_lt (traced.latest _ m n pass) uncovered)
      obtain ⟨_, _, -, -, starts, -⟩ := pass
      rcases Nat.lt_or_eq_of_le (Nat.le_of_not_lt early) with lt | rfl
      · exact lt
      · rw [arrives.step] at starts
        cases starts

/-- Two requests that come while a pass runs: one of them makes a pass of its own, which covers the other. -/
theorem requests_coalesce_of_three :
    let steps : List RunnerStep := [.arrive 0, .acquire 0, .inspect 0, .start 0, .arrive 0, .arrive 0,
      .finish 0 true, .acquire 1, .inspect 1, .start 1, .finish 1 true, .acquire 2, .inspect 2]
    ∃ r, idle.run? steps = some r ∧ r.requests[2]? = some ⟨0, 3, .returned false⟩ ∧
      ∃ k m n, Arrives steps k 2 0 ∧ CompletedPass steps 0 m n ∧ k < m := by
  intro steps
  obtain ⟨r, ran⟩ : ∃ r, idle.run? steps = some r := ⟨_, rfl⟩
  have third : r.requests[2]? = some ⟨0, 3, .returned false⟩ := by
    cases ran
    rfl
  obtain ⟨-, returned, -⟩ := requests_coalesce ran
  exact ⟨r, ran, third, returned 2 _ false third rfl⟩

end Runner

end DemonBoard
