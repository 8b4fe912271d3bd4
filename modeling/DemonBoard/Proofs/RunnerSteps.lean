import DemonBoard.Runner
import Mathlib.Data.List.Basic

/-! The steps of a runner. A step brings a request, or it takes one request on to its next phase; whoever is
between getting the lock and giving it back is the lock's one holder, and the counts of its database stand
in an order that its phase tells. -/

namespace DemonBoard

def Phase.locked : Phase → Bool
  | .holding | .cleared | .running _ => true
  | .waiting | .returned _ | .failed => false

/-- What a phase says of the counts of the request's database: once it is known that no pass covers the
request, that stays so, and a pass that runs is to cover the request. -/
def Phase.Fits (covered ticket requested : Nat) : Phase → Prop
  | .cleared => covered < ticket
  | .running covers => covered < ticket ∧ ticket ≤ covers ∧ covers ≤ requested
  | .waiting | .holding | .returned _ | .failed => True

theorem Phase.fits_of_not_locked {covered ticket requested : Nat} {phase : Phase} (h : phase.locked = false) :
    phase.Fits covered ticket requested := by
  cases phase with
  | waiting | returned | failed => trivial
  | holding | cleared | running => cases h

namespace Runner

variable {r r' : Runner} {s : RunnerStep} {i j : Nat} {q p : Request} {phase : Phase} {database : Nat}

def moved (r : Runner) (i : Nat) (phase : Phase) (holder : Option Nat) (covered : Nat → Nat) : Runner :=
  { r.setPhase i phase with holder, covered }

def joined (r : Runner) (database : Nat) : Runner :=
  { r with
    requested := update r.requested database (r.requested database + 1)
    requests := r.requests ++ [⟨database, r.requested database + 1, .waiting⟩] }

inductive Takes (r : Runner) : RunnerStep → Runner → Prop where
  | arrive (database : Nat) : Takes r (.arrive database) (r.joined database)
  | acquire {i : Nat} {q : Request} (at_i : r.requests[i]? = some q) (waits : q.phase = .waiting)
      (free : r.holder = none) : Takes r (.acquire i) (r.moved i .holding (some i) r.covered)
  | coalesce {i : Nat} {q : Request} (at_i : r.requests[i]? = some q) (holds : q.phase = .holding)
      (old : q.ticket ≤ r.covered q.database) :
      Takes r (.inspect i) (r.moved i (.returned false) none r.covered)
  | clear {i : Nat} {q : Request} (at_i : r.requests[i]? = some q) (holds : q.phase = .holding)
      (new : r.covered q.database < q.ticket) : Takes r (.inspect i) (r.moved i .cleared r.holder r.covered)
  | start {i : Nat} {q : Request} (at_i : r.requests[i]? = some q) (cleared : q.phase = .cleared) :
      Takes r (.start i) (r.moved i (.running (r.requested q.database)) r.holder r.covered)
  | complete {i covers : Nat} {q : Request} (at_i : r.requests[i]? = some q)
      (runs : q.phase = .running covers) :
      Takes r (.finish i true) (r.moved i (.returned true) none (update r.covered q.database covers))
  | fail {i covers : Nat} {q : Request} (at_i : r.requests[i]? = some q) (runs : q.phase = .running covers) :
      Takes r (.finish i false) (r.moved i .failed none r.covered)

theorem takes_of_step? (h : r.step? s = some r') : Takes r s r' := by
  cases s with
  | arrive database =>
    cases h
    exact .arrive database
  | acquire i =>
    obtain ⟨q, at_i, h⟩ := Option.bind_eq_some_iff.1 h
    split at h
    · rename_i may
      cases h
      exact .acquire at_i may.1 may.2
    · cases h
  | inspect i =>
    obtain ⟨q, at_i, h⟩ := Option.bind_eq_some_iff.1 h
    split at h
    · cases h
    · rename_i holds
      split at h
      · rename_i old
        cases h
        exact .coalesce at_i (not_not.1 holds) old
      · rename_i new
        cases h
        exact .clear at_i (not_not.1 holds) (Nat.lt_of_not_le new)
  | start i =>
    obtain ⟨q, at_i, h⟩ := Option.bind_eq_some_iff.1 h
    split at h
    · rename_i cleared
      cases h
      exact .start at_i cleared
    · cases h
  | finish i completed =>
    obtain ⟨q, at_i, h⟩ := Option.bind_eq_some_iff.1 h
    split at h
    · rename_i covers runs
      cases completed with
      | true =>
        cases h
        exact .complete at_i runs
      | false =>
        cases h
        exact .fail at_i runs
    · cases h

theorem step?_of_takes (h : Takes r s r') : r.step? s = some r' := by
  cases h with
  | arrive database => rfl
  | acquire at_i waits free =>
    rw [step?, at_i]
    exact if_pos ⟨waits, free⟩
  | coalesce at_i holds old =>
    rw [step?, at_i]
    exact (if_neg (not_not.2 holds)).trans (if_pos old)
  | clear at_i holds new =>
    rw [step?, at_i]
    exact (if_neg (not_not.2 holds)).trans (if_neg (Nat.not_le_of_lt new))
  | start at_i cleared =>
    rw [step?, at_i]
    exact if_pos cleared
  | complete at_i runs =>
    rw [step?, at_i]
    dsimp only [Option.bind_eq_bind, Option.bind_some]
    rw [runs]
    rfl
  | fail at_i runs =>
    rw [step?, at_i]
    dsimp only [Option.bind_eq_bind, Option.bind_some]
    rw [runs]
    rfl

section Requests

variable {holder : Option Nat} {covered : Nat → Nat}

theorem getElem?_moved (at_j : (r.moved i phase holder covered).requests[j]? = some p) :
    (j = i ∧ ∃ q, r.requests[i]? = some q ∧ p = { q with phase }) ∨ (j ≠ i ∧ r.requests[j]? = some p) := by
  change (r.requests.modify i _)[j]? = some p at at_j
  rw [List.getElem?_modify] at at_j
  obtain ⟨q, at_q, rfl⟩ := Option.map_eq_some_iff.1 at_j
  by_cases same : i = j
  · subst same
    exact .inl ⟨rfl, q, at_q, by rw [if_pos rfl]⟩
  · exact .inr ⟨Ne.symm same, by rw [if_neg same, at_q]⟩

theorem getElem?_moved_self (at_i : r.requests[i]? = some q) :
    (r.moved i phase holder covered).requests[i]? = some { q with phase } := by
  change (r.requests.modify i _)[i]? = _
  rw [List.getElem?_modify, at_i]
  exact congrArg some (if_pos rfl)

theorem getElem?_moved_of_ne (other : j ≠ i) :
    (r.moved i phase holder covered).requests[j]? = r.requests[j]? := by
  change (r.requests.modify i _)[j]? = _
  rw [List.getElem?_modify]
  simp [Ne.symm other]

@[simp] theorem requested_moved : (r.moved i phase holder covered).requested = r.requested := rfl

@[simp] theorem covered_moved : (r.moved i phase holder covered).covered = covered := rfl

theorem length_moved : (r.moved i phase holder covered).requests.length = r.requests.length :=
  List.length_modify _ _ _

theorem getElem?_joined (at_j : (r.joined database).requests[j]? = some p) :
    (j = r.requests.length ∧ p = ⟨database, r.requested database + 1, .waiting⟩) ∨
      (j < r.requests.length ∧ r.requests[j]? = some p) := by
  change (r.requests ++ [_])[j]? = some p at at_j
  rw [List.getElem?_append] at at_j
  split at at_j
  · rename_i lt
    exact .inr ⟨lt, at_j⟩
  · rw [List.getElem?_singleton] at at_j
    split at at_j
    · cases at_j
      exact .inl ⟨by omega, rfl⟩
    · cases at_j

theorem getElem?_joined_of_some (at_j : r.requests[j]? = some p) : (r.joined database).requests[j]? = some p := by
  change (r.requests ++ [_])[j]? = some p
  rw [List.getElem?_append_left (List.getElem?_eq_some_iff.1 at_j).1, at_j]

theorem getElem?_joined_self : (r.joined database).requests[r.requests.length]? =
    some ⟨database, r.requested database + 1, .waiting⟩ :=
  List.getElem?_concat_length

end Requests

@[simp] theorem update_self (counts : Nat → Nat) (database value : Nat) :
    update counts database value database = value := if_pos rfl

theorem update_of_ne {counts : Nat → Nat} {value d : Nat} (other : d ≠ database) :
    update counts database value d = counts d := if_neg other

theorem le_requested_joined (r : Runner) (database d : Nat) : r.requested d ≤ (r.joined database).requested d := by
  change r.requested d ≤ update r.requested database (r.requested database + 1) d
  by_cases same : d = database
  · rw [same, update_self]
    exact Nat.le_succ _
  · exact Nat.le_of_eq (update_of_ne same).symm

/-- The order that the counts and the lock keep. -/
structure Ordered (r : Runner) : Prop where
  alone : ∀ i q, r.requests[i]? = some q → q.phase.locked → r.holder = some i
  fits : ∀ (i : Nat) q, r.requests[i]? = some q →
    q.phase.Fits (r.covered q.database) q.ticket (r.requested q.database)
  handed : ∀ (i : Nat) q, r.requests[i]? = some q → q.ticket ≤ r.requested q.database
  covered : ∀ d, r.covered d ≤ r.requested d

namespace Ordered

theorem idle : Ordered idle := ⟨nofun, nofun, nofun, fun _ => Nat.le_refl 0⟩

/-- Only one request can have the lock. -/
theorem eq_of_locked (h : Ordered r) (at_i : r.requests[i]? = some q) (at_j : r.requests[j]? = some p)
    (lock : q.phase.locked) (lock' : p.phase.locked) : i = j := by
  have holder := h.alone i q at_i lock
  rw [h.alone j p at_j lock', Option.some_inj] at holder
  exact holder.symm

theorem joined (h : Ordered r) (database : Nat) : Ordered (r.joined database) := by
  have grows := r.le_requested_joined database
  refine ⟨?_, ?_, ?_, fun d => Nat.le_trans (h.covered d) (grows d)⟩
  · intro j p at_j lock
    rcases getElem?_joined at_j with ⟨-, rfl⟩ | ⟨-, old⟩
    · cases lock
    · exact h.alone j p old lock
  · intro j p at_j
    rcases getElem?_joined at_j with ⟨-, rfl⟩ | ⟨-, old⟩
    · trivial
    · have fits := h.fits j p old
      cases now : p.phase with
      | running covers =>
        rw [now] at fits
        exact ⟨fits.1, fits.2.1, Nat.le_trans fits.2.2 (grows _)⟩
      | _ =>
        rw [now] at fits
        exact fits
  · intro j p at_j
    rcases getElem?_joined at_j with ⟨-, rfl⟩ | ⟨-, old⟩
    · exact Nat.le_of_eq (update_self _ _ _).symm
    · exact Nat.le_trans (h.handed j p old) (grows _)

theorem moved (h : Ordered r) (at_i : r.requests[i]? = some q) {holder : Option Nat} {covered : Nat → Nat}
    (others : ∀ j p, j ≠ i → r.requests[j]? = some p → p.phase.locked = false)
    (lock : phase.locked → holder = some i)
    (fits : phase.Fits (covered q.database) q.ticket (r.requested q.database))
    (bounded : ∀ d, covered d ≤ r.requested d) : Ordered (r.moved i phase holder covered) := by
  refine ⟨?_, ?_, ?_, bounded⟩
  · intro j p at_j locked
    rcases getElem?_moved at_j with ⟨rfl, q', -, rfl⟩ | ⟨other, old⟩
    · exact lock locked
    · rw [others j p other old] at locked
      cases locked
  · intro j p at_j
    rcases getElem?_moved at_j with ⟨rfl, q', at_q, rfl⟩ | ⟨other, old⟩
    · rw [at_i, Option.some_inj] at at_q
      exact at_q ▸ fits
    · exact Phase.fits_of_not_locked (others j p other old)
  · intro j p at_j
    rcases getElem?_moved at_j with ⟨rfl, q', at_q, rfl⟩ | ⟨other, old⟩
    · exact h.handed j q' at_q
    · exact h.handed j p old

theorem others (h : Ordered r) (at_i : r.requests[i]? = some q) (lock : q.phase.locked) (j : Nat) (p : Request)
    (other : j ≠ i) (at_j : r.requests[j]? = some p) : p.phase.locked = false := by
  rw [← Bool.not_eq_true]
  exact fun lock' => other (h.eq_of_locked at_j at_i lock' lock)

theorem step (h : Ordered r) (taken : Takes r s r') : Ordered r' := by
  cases taken with
  | arrive database => exact h.joined database
  | acquire at_i waits free =>
    refine h.moved at_i ?_ (fun _ => rfl) trivial h.covered
    intro j p _ at_j
    rw [← Bool.not_eq_true]
    intro lock
    rw [h.alone j p at_j lock] at free
    cases free
  | coalesce at_i holds old =>
    exact h.moved at_i (h.others at_i (by rw [holds]; rfl)) nofun trivial h.covered
  | @clear i q at_i holds new =>
    have lock : q.phase.locked := by rw [holds]; rfl
    exact h.moved at_i (h.others at_i lock) (fun _ => h.alone _ _ at_i lock) new h.covered
  | @start i q at_i cleared =>
    have lock : q.phase.locked := by rw [cleared]; rfl
    have fits := h.fits _ _ at_i
    rw [cleared] at fits
    exact h.moved at_i (h.others at_i lock) (fun _ => h.alone _ _ at_i lock)
      ⟨fits, h.handed _ _ at_i, Nat.le_refl _⟩ h.covered
  | @complete i covers q at_i runs =>
    have fits := h.fits _ _ at_i
    rw [runs] at fits
    refine h.moved at_i (h.others at_i (by rw [runs]; rfl)) nofun trivial ?_
    intro d
    by_cases same : d = q.database
    · subst same
      rw [update_self]
      exact fits.2.2
    · rw [update_of_ne same]
      exact h.covered d
  | fail at_i runs =>
    exact h.moved at_i (h.others at_i (by rw [runs]; rfl)) nofun trivial h.covered

theorem covered_le_of_takes (h : Ordered r) (taken : Takes r s r') (d : Nat) : r.covered d ≤ r'.covered d := by
  cases taken with
  | @complete i covers q at_i runs =>
    have fits := h.fits _ _ at_i
    rw [runs] at fits
    by_cases same : d = q.database
    · subst same
      rw [covered_moved, update_self]
      exact Nat.le_of_lt (Nat.lt_of_lt_of_le fits.1 fits.2.1)
    · exact Nat.le_of_eq (update_of_ne same).symm
  | _ => exact Nat.le_refl _

end Ordered

end Runner

end DemonBoard
