import DemonBoard.Proofs.Coalescing

/-! Requests that queue behind a running pass. Nobody who waits for a database is covered until one of them has made
a pass over it, and that pass covers all of them. So each database that is waited for gets one more pass, whoever
gets the lock first, and the requests for other databases have no part in it. -/

namespace DemonBoard

section Counting

variable {β : Type} {l : List β} {i : Nat} {a : β}

theorem countP_modify (at_i : l[i]? = some a) (f : β → β) (p : β → Bool) :
    (l.modify i f).countP p + (p a).toNat = l.countP p + (p (f a)).toNat := by
  obtain ⟨before, a', after, split, number, changed⟩ := List.exists_of_modify f (List.getElem?_eq_some_iff.1 at_i).1
  subst split number
  rw [List.getElem?_append_right (Nat.le_refl _), Nat.sub_self, List.getElem?_cons_zero, Option.some_inj] at at_i
  subst at_i
  rw [changed, List.countP_append, List.countP_append, List.countP_cons, List.countP_cons]
  cases p a' <;> cases p (f a') <;> simp <;> omega

theorem countP_eq_one {p : β → Bool} (at_i : l[i]? = some a) (holds : p a = true)
    (others : ∀ j b, l[j]? = some b → j ≠ i → p b = false) : l.countP p = 1 := by
  obtain ⟨before, a', after, split, number, -⟩ := List.exists_of_modify id (List.getElem?_eq_some_iff.1 at_i).1
  subst split number
  rw [List.getElem?_append_right (Nat.le_refl _), Nat.sub_self, List.getElem?_cons_zero, Option.some_inj] at at_i
  subst at_i
  have none_before : before.countP p = 0 := by
    rw [List.countP_eq_zero]
    intro b mem
    obtain ⟨j, lt, rfl⟩ := List.mem_iff_getElem.1 mem
    rw [Bool.not_eq_true]
    refine others j _ ?_ (Nat.ne_of_lt lt)
    rw [List.getElem?_append_left lt, List.getElem?_eq_getElem lt]
  have none_after : after.countP p = 0 := by
    rw [List.countP_eq_zero]
    intro b mem
    obtain ⟨j, lt, rfl⟩ := List.mem_iff_getElem.1 mem
    rw [Bool.not_eq_true]
    refine others (before.length + (j + 1)) _ ?_ (by omega)
    rw [List.getElem?_append_right (Nat.le_add_right _ _), Nat.add_sub_cancel_left, List.getElem?_cons_succ,
      List.getElem?_eq_getElem lt]
  rw [List.countP_append, List.countP_cons, none_before, none_after, if_pos holds]

end Counting

/-- Whether a step brings no new request and gives up no pass. -/
def RunnerStep.isCalm : RunnerStep → Bool
  | .arrive _ | .finish _ false => false
  | .acquire _ | .inspect _ | .start _ | .finish _ true => true

namespace Phase

/-- The phases of a request for which no pass has counted yet; one that runs is to cover all tickets. -/
def Uncovered (requested : Nat) : Phase → Prop
  | .waiting | .holding | .cleared => True
  | .running covers => covers = requested
  | .returned _ | .failed => False

def Spared : Phase → Prop
  | .waiting | .holding | .returned false => True
  | .cleared | .running _ | .returned true | .failed => False

theorem Uncovered.spared {requested : Nat} {phase : Phase} (h : phase.Uncovered requested)
    (free : phase.locked = false) : phase.Spared := by
  cases phase with
  | waiting => trivial
  | holding | cleared | running => cases free
  | returned | failed => cases h

end Phase

namespace Runner

variable {r r' : Runner} {s : RunnerStep} {steps : List RunnerStep} {d i j : Nat} {p q : Request} {phase : Phase}
  {holder : Option Nat} {covered : Nat → Nat} {waiting : List Nat}

structure Queued (r : Runner) (d i : Nat) (q : Request) : Prop where
  at_i : r.requests[i]? = some q
  own : q.database = d
  later : i ≠ 0

/-- How far the queue for a database has come: no pass has counted for any of its requests, or one of them has
made a pass and has covered the others. -/
inductive Line (r : Runner) (d : Nat) : Prop where
  | uncovered (each : ∀ i q, r.Queued d i q → r.covered d < q.ticket ∧ q.phase.Uncovered (r.requested d))
  | covered {i : Nat} {q : Request} (made : r.Queued d i q) (back : q.phase = .returned true)
      (all : r.requested d ≤ r.covered d) (others : ∀ j p, r.Queued d j p → j ≠ i → p.phase.Spared)

theorem queued_moved (h : (r.moved i phase holder covered).Queued d j p) :
    (j = i ∧ ∃ q, r.Queued d i q ∧ p = { q with phase }) ∨ (j ≠ i ∧ r.Queued d j p) := by
  rcases getElem?_moved h.at_i with ⟨rfl, q, at_j, rfl⟩ | ⟨other, old⟩
  · exact .inl ⟨rfl, q, ⟨at_j, h.own, h.later⟩, rfl⟩
  · exact .inr ⟨other, old, h.own, h.later⟩

namespace Line

theorem moved (h : r.Line d) (at_i : r.requests[i]? = some q) (was : q.phase ≠ .returned true)
    (same : covered d = r.covered d)
    (still : q.database = d → r.covered d < q.ticket → phase.Uncovered (r.requested d))
    (spared : q.database = d → r.requested d ≤ r.covered d → phase.Spared) :
    (r.moved i phase holder covered).Line d := by
  cases h with
  | uncovered each =>
    refine .uncovered ?_
    intro j p queued
    rw [covered_moved, same]
    rcases queued_moved queued with ⟨rfl, q', before, rfl⟩ | ⟨-, before⟩
    · obtain rfl : q = q' := Option.some_inj.1 (at_i.symm.trans before.at_i)
      obtain ⟨new, -⟩ := each j q before
      exact ⟨new, still before.own new⟩
    · exact each j p before
  | @covered k p made back all others =>
    have other : k ≠ i := by
      rintro rfl
      obtain rfl : q = p := Option.some_inj.1 (at_i.symm.trans made.at_i)
      exact was back
    have made' : (r.moved i phase holder covered).Queued d k p :=
      ⟨(getElem?_moved_of_ne other).trans made.at_i, made.own, made.later⟩
    refine .covered made' back (by rw [covered_moved, same]; exact all) ?_
    intro j p' queued away
    rcases queued_moved queued with ⟨rfl, q', before, rfl⟩ | ⟨-, before⟩
    · obtain rfl : q = q' := Option.some_inj.1 (at_i.symm.trans before.at_i)
      exact spared before.own all
    · exact others j p' before away

/-- The pass of a queued request covers the whole queue. -/
theorem complete (h : r.Line d) (ordered : Ordered r) (queued : r.Queued d i q) {covers : Nat}
    (runs : q.phase = .running covers) :
    (r.moved i (.returned true) none (update r.covered q.database covers)).Line d := by
  cases h with
  | uncovered each =>
    obtain ⟨-, covers_all⟩ := each i q queued
    rw [runs] at covers_all
    refine .covered ⟨getElem?_moved_self queued.at_i, queued.own, queued.later⟩ rfl ?_ ?_
    · rw [covered_moved, queued.own, update_self]
      exact Nat.le_of_eq covers_all.symm
    · intro j p behind away
      rcases queued_moved behind with ⟨same, -⟩ | ⟨-, before⟩
      · exact absurd same away
      · obtain ⟨-, waits⟩ := each j p before
        exact waits.spared (ordered.others queued.at_i (by rw [runs]; rfl) j p away before.at_i)
  | @covered k p made back all others =>
    by_cases same : i = k
    · subst same
      obtain rfl : q = p := Option.some_inj.1 (queued.at_i.symm.trans made.at_i)
      rw [runs] at back
      cases back
    · have spared := others i q queued same
      rw [runs] at spared
      exact spared.elim

/-- What a calm step makes of a queue, once the first request of all has returned. -/
theorem step (h : r.Line d) (ordered : Ordered r)
    (first : ∀ q, r.requests[0]? = some q → q.phase = .returned true) (calm : s.isCalm) (taken : Takes r s r') :
    r'.Line d := by
  -- nobody who is past the inspection of the covered tickets is covered
  have behind {i : Nat} {q : Request} (at_i : r.requests[i]? = some q) (own : q.database = d)
      (new : r.covered q.database < q.ticket) : ¬ r.requested d ≤ r.covered d := by
    have handed := ordered.handed i q at_i
    rw [own] at new handed
    omega
  cases taken with
  | arrive => cases calm
  | acquire at_i waits free =>
    exact h.moved at_i (by rw [waits]; nofun) rfl (fun _ _ => trivial) fun _ _ => trivial
  | coalesce at_i holds old =>
    refine h.moved at_i (by rw [holds]; nofun) rfl ?_ fun _ _ => trivial
    intro own new
    rw [own] at old
    exact absurd old (Nat.not_le_of_lt new)
  | clear at_i holds new =>
    refine h.moved at_i (by rw [holds]; nofun) rfl (fun _ _ => trivial) ?_
    exact fun own all => absurd all (behind at_i own new)
  | start at_i cleared =>
    have new := ordered.fits _ _ at_i
    rw [cleared] at new
    refine h.moved at_i (by rw [cleared]; nofun) rfl ?_ ?_
    · intro own _
      rw [own]
      exact rfl
    · exact fun own all => absurd all (behind at_i own new)
  | @complete i covers q at_i runs =>
    by_cases own : q.database = d
    · have later : i ≠ 0 := by
        rintro rfl
        rw [first q at_i] at runs
        cases runs
      exact h.complete ordered ⟨at_i, own, later⟩ runs
    · exact h.moved at_i (by rw [runs]; nofun) (update_of_ne (Ne.symm own)) (fun own' => absurd own' own)
        fun own' => absurd own' own
  | fail => cases calm

end Line

theorem databases_moved :
    (r.moved i phase holder covered).requests.map Request.database = r.requests.map Request.database := by
  refine List.ext_getElem? ?_
  intro j
  change ((r.requests.modify i fun q => { q with phase }).map Request.database)[j]? = _
  rw [List.getElem?_map, List.getElem?_map, List.getElem?_modify]
  cases r.requests[j]? with
  | none => rfl
  | some q =>
    change some (Request.database (if i = j then _ else q)) = some q.database
    split <;> rfl

theorem exists_moved (calm : s.isCalm) (taken : Takes r s r') : ∃ i q phase holder covered,
    r.requests[i]? = some q ∧ r' = r.moved i phase holder covered ∧ (∀ ran, q.phase ≠ .returned ran) ∧
      ((s = .start i ∧ Phase.isRun q.phase = false ∧ Phase.isRun phase = true) ∨
        ((∀ j, s ≠ .start j) ∧ Phase.isRun phase = Phase.isRun q.phase)) := by
  cases taken with
  | arrive => cases calm
  | acquire at_i waits =>
    exact ⟨_, _, _, _, _, at_i, rfl, by rw [waits]; nofun, .inr ⟨nofun, by rw [waits]; rfl⟩⟩
  | coalesce at_i holds | clear at_i holds =>
    exact ⟨_, _, _, _, _, at_i, rfl, by rw [holds]; nofun, .inr ⟨nofun, by rw [holds]; rfl⟩⟩
  | start at_i cleared =>
    exact ⟨_, _, _, _, _, at_i, rfl, by rw [cleared]; nofun, .inl ⟨rfl, by rw [cleared]; rfl, rfl⟩⟩
  | complete at_i runs =>
    exact ⟨_, _, _, _, _, at_i, rfl, by rw [runs]; nofun, .inr ⟨nofun, by rw [runs]; rfl⟩⟩
  | fail => cases calm

def starts (databases : List Nat) (steps : List RunnerStep) (d : Nat) : Nat :=
  steps.countP fun
    | .start i => databases[i]? = some d
    | _ => false

theorem runs_of_takes (calm : s.isCalm) (taken : Takes r s r') (d : Nat) :
    r'.runs d = r.runs d + starts (r.requests.map Request.database) [s] d := by
  obtain ⟨i, q, phase, holder, covered, at_i, rfl, -, kind⟩ := exists_moved calm taken
  have counts := countP_modify at_i (fun q => { q with phase })
    fun q => decide (q.database = d) && Phase.isRun q.phase
  have own : (r.requests.map Request.database)[i]? = some q.database := by
    rw [List.getElem?_map, at_i, Option.map_some]
  unfold runs
  change (r.requests.modify i _).countP _ = _
  rcases kind with ⟨rfl, before, after⟩ | ⟨other, same⟩
  · have one : starts (r.requests.map Request.database) [.start i] d = (decide (q.database = d)).toNat := by
      simp only [starts, List.countP_singleton, own, Option.some_inj]
      cases decide (q.database = d) <;> rfl
    rw [before, after, Bool.and_false, Bool.and_true] at counts
    rw [one]
    exact counts
  · have none : starts (r.requests.map Request.database) [s] d = 0 := by
      cases s with
      | start j => exact absurd rfl (other j)
      | _ => rfl
    rw [same] at counts
    rw [none]
    exact Nat.add_right_cancel counts

def AllBack (r : Runner) : Prop := ∀ q ∈ r.requests, ∃ ran, q.phase = .returned ran

def phaseOf (r : Runner) (i : Nat) : Option Phase := r.requests[i]?.map Request.phase

/-- A queue behind the first request, which has returned from a pass over database 0. -/
structure Queue (waiting : List Nat) (r : Runner) : Prop where
  ordered : Ordered r
  databases : r.requests.map Request.database = 0 :: waiting
  first : ∀ q, r.requests[0]? = some q → q.phase = .returned true
  lines : ∀ d, r.Line d

namespace Queue

theorem step (h : Queue waiting r) (calm : s.isCalm) (taken : Takes r s r') : Queue waiting r' := by
  refine ⟨h.ordered.step taken, ?_, ?_, fun d => (h.lines d).step h.ordered h.first calm taken⟩
  · obtain ⟨i, q, phase, holder, covered, -, rfl, -⟩ := exists_moved calm taken
    rw [databases_moved, h.databases]
  · obtain ⟨i, q, phase, holder, covered, at_i, rfl, going, -⟩ := exists_moved calm taken
    intro p at_0
    rcases getElem?_moved at_0 with ⟨rfl, -⟩ | ⟨-, old⟩
    · exact absurd (h.first q at_i) (going true)
    · exact h.first p old

/-- Calm steps keep the queue, and the passes they start are those that it has had since. -/
theorem run (h : Queue waiting r) (calm : ∀ s ∈ steps, s.isCalm) (ran : r.run? steps = some r') :
    Queue waiting r' ∧ ∀ d, r'.runs d = r.runs d + starts (0 :: waiting) steps d := by
  induction steps generalizing r with
  | nil =>
    cases ran
    exact ⟨h, fun d => rfl⟩
  | cons s rest ih =>
    obtain ⟨between, taken, ran⟩ := Option.bind_eq_some_iff.1 ran
    obtain ⟨first, others⟩ := List.forall_mem_cons.1 calm
    have taken := takes_of_step? taken
    obtain ⟨queue, runs⟩ := ih (h.step first taken) others ran
    refine ⟨queue, fun d => ?_⟩
    have more : starts (0 :: waiting) ([s] ++ rest) d =
        starts (0 :: waiting) [s] d + starts (0 :: waiting) rest d := List.countP_append
    rw [List.singleton_append] at more
    rw [runs d, runs_of_takes first taken d, h.databases, more, Nat.add_assoc]

theorem exists_split (h : Queue waiting r) : ∃ first rest, r.requests = first :: rest ∧ first.database = 0 ∧
    first.phase = .returned true ∧ rest.map Request.database = waiting := by
  obtain ⟨first, rest, split, own, others⟩ := List.map_eq_cons_iff.1 h.databases
  exact ⟨first, rest, split, own, h.first first (by rw [split]; rfl), others⟩

theorem exists_queued (h : Queue waiting r) (at_i : waiting[i]? = some d) : ∃ q, r.Queued d (i + 1) q := by
  have own : (r.requests.map Request.database)[i + 1]? = some d := by
    rw [h.databases, List.getElem?_cons_succ, at_i]
  rw [List.getElem?_map, Option.map_eq_some_iff] at own
  obtain ⟨q, at_q, own⟩ := own
  exact ⟨q, at_q, own, Nat.succ_ne_zero i⟩

theorem exists_index (h : Queue waiting r) (queued : r.Queued d i q) : ∃ k, i = k + 1 ∧ waiting[k]? = some d := by
  obtain ⟨k, rfl⟩ := Nat.exists_eq_succ_of_ne_zero queued.later
  have own : (r.requests.map Request.database)[k + 1]? = some d := by
    rw [List.getElem?_map, queued.at_i, Option.map_some, queued.own]
  rw [h.databases, List.getElem?_cons_succ] at own
  exact ⟨k, rfl, own⟩

theorem exists_one (h : Queue waiting r) (back : r.AllBack) (asked : d ∈ waiting) :
    ∃ i : Nat, waiting[i]? = some d ∧ r.phaseOf (i + 1) = some (.returned true) ∧
      ∀ j : Nat, waiting[j]? = some d → j ≠ i → r.phaseOf (j + 1) = some (.returned false) := by
  cases h.lines d with
  | uncovered each =>
    obtain ⟨i, at_i⟩ := List.mem_iff_getElem?.1 asked
    obtain ⟨q, queued⟩ := h.exists_queued at_i
    obtain ⟨-, uncovered⟩ := each _ q queued
    obtain ⟨ran, returned⟩ := back q (List.mem_of_getElem? queued.at_i)
    rw [returned] at uncovered
    exact uncovered.elim
  | covered made returned all others =>
    obtain ⟨i, rfl, at_i⟩ := h.exists_index made
    refine ⟨i, at_i, by rw [phaseOf, made.at_i, Option.map_some, returned], ?_⟩
    intro j at_j other
    obtain ⟨p, queued⟩ := h.exists_queued at_j
    have spared := others _ p queued (by omega)
    obtain ⟨ran, returned'⟩ := back p (List.mem_of_getElem? queued.at_i)
    rw [phaseOf, queued.at_i, Option.map_some, returned']
    rw [returned'] at spared
    cases ran with
    | true => exact spared.elim
    | false => rfl

theorem countP_made (h : Queue waiting r) (back : r.AllBack) (d : Nat) {first : Request} {rest : List Request}
    (split : r.requests = first :: rest) (databases : rest.map Request.database = waiting) :
    rest.countP (fun q => decide (q.database = d) && decide (q.phase = .returned true)) =
      if d ∈ waiting then 1 else 0 := by
  have place (j : Nat) {q : Request} (at_j : rest[j]? = some q) :
      waiting[j]? = some q.database ∧ r.phaseOf (j + 1) = some q.phase := by
    rw [← databases, List.getElem?_map, phaseOf, split, List.getElem?_cons_succ, at_j]
    exact ⟨rfl, rfl⟩
  by_cases asked : d ∈ waiting
  · obtain ⟨i, at_i, made, spared⟩ := h.exists_one back asked
    have own := at_i
    rw [← databases, List.getElem?_map, Option.map_eq_some_iff] at own
    obtain ⟨q, at_q, own⟩ := own
    obtain ⟨-, phase⟩ := place i at_q
    rw [made, Option.some_inj] at phase
    rw [if_pos asked]
    refine countP_eq_one at_q (by rw [own, ← phase]; simp) ?_
    intro j p at_p other
    obtain ⟨own', phase'⟩ := place j at_p
    by_cases same : p.database = d
    · rw [same] at own'
      rw [spared j own' other, Option.some_inj] at phase'
      rw [← phase']
      exact Bool.and_false _
    · rw [decide_eq_false same]
      exact Bool.false_and _
  · rw [if_neg asked, List.countP_eq_zero]
    intro q mem both
    rw [Bool.and_eq_true, decide_eq_true_eq] at both
    refine asked ?_
    rw [← databases, ← both.1]
    exact List.mem_map_of_mem mem

theorem returnedTrue_eq (h : Queue waiting r) (back : r.AllBack) (d : Nat) :
    r.returnedTrue d = (if d = 0 then 1 else 0) + if d ∈ waiting then 1 else 0 := by
  obtain ⟨first, rest, split, own, ran, databases⟩ := h.exists_split
  rw [returnedTrue, split, List.countP_cons, h.countP_made back d split databases, own, ran, Nat.add_comm]
  simp [eq_comm]

theorem runs_eq_of_waiting (h : Queue waiting r) (waits : ∀ i q, r.requests[i + 1]? = some q → q.phase = .waiting)
    (d : Nat) : r.runs d = if d = 0 then 1 else 0 := by
  obtain ⟨first, rest, split, own, ran, -⟩ := h.exists_split
  have others : rest.countP (fun q => decide (q.database = d) && Phase.isRun q.phase) = 0 := by
    rw [List.countP_eq_zero]
    intro q mem
    obtain ⟨i, at_i⟩ := List.mem_iff_getElem?.1 mem
    rw [waits i q (by rw [split, List.getElem?_cons_succ, at_i]), Bool.not_eq_true]
    exact Bool.and_false _
  rw [runs, split, List.countP_cons, others, own, ran]
  simp [Phase.isRun, eq_comm]

theorem runs_eq_returnedTrue (back : r.AllBack) (d : Nat) : r.runs d = r.returnedTrue d := by
  refine List.countP_congr ?_
  intro q mem
  obtain ⟨ran, returned⟩ := back q mem
  rw [returned]
  cases ran <;> simp [Phase.isRun]

end Queue

end Runner

end DemonBoard
