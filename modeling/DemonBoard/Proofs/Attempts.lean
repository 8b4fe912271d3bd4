import DemonBoard.Recompute

/-! Attempts at a transaction. The attempts up to the first that does not fail transiently all find the database
as it was at the start, because a session that breaks off is rolled back. So a run of attempts ends in one of
three ways, and what is left behind is the work of one whole attempt or nothing. -/

namespace DemonBoard

section Runs

variable {σ ρ : Type} {label : String} {work : Nat → σ → Attempt σ ρ} {limit : Int} {start : σ} {run : Run σ ρ}
  {k done left : Nat}

/-- The first `k` attempts all fail transiently, whatever they had written. -/
def FailsAtFirst (work : Nat → σ → Attempt σ ρ) (start : σ) (k : Nat) : Prop :=
  ∀ n < k, ∃ written, work n start = .brokenOff written .transient

/-- How attempts end of which `limit` are allowed: the first that does not fail transiently completes or breaks
off for good, or none is left. Only an attempt that completes changes the database. -/
inductive Ends (label : String) (work : Nat → σ → Attempt σ ρ) (limit : Int) (start : σ) : Run σ ρ → Prop where
  | completed {k : Nat} {state : σ} {result : ρ} (before : FailsAtFirst work start k) (allowed : k < limit)
      (completes : work k start = .completed state result) :
      Ends label work limit start ⟨k + 1, state, .ok (some result)⟩
  | broken {k : Nat} {written : σ} {cause : Error} (before : FailsAtFirst work start k) (allowed : k < limit)
      (breaks : work k start = .brokenOff written (.fatal cause)) :
      Ends label work limit start ⟨k + 1, start, .error cause⟩
  | exhausted {k : Nat} (before : FailsAtFirst work start k) (all : k = limit) :
      Ends label work limit start ⟨k, start, .error (.exhausted label limit)⟩

theorem FailsAtFirst.succ {written : σ} (h : FailsAtFirst work start k)
    (last : work k start = .brokenOff written .transient) : FailsAtFirst work start (k + 1) := by
  intro n lt
  rcases Nat.lt_succ_iff_lt_or_eq.1 lt with lt | rfl
  · exact h n lt
  · exact ⟨written, last⟩

/-- Failed attempts use up attempts, and nothing else comes of them. -/
theorem FailsAtFirst.go_eq (h : FailsAtFirst work start k) (left : Nat) :
    runInTransaction.go label work limit start 0 (k + left) =
      runInTransaction.go label work limit start k left := by
  induction k generalizing left with
  | zero => rw [Nat.zero_add]
  | succ k ih =>
    obtain ⟨written, last⟩ := h k (Nat.lt_succ_self k)
    have before : FailsAtFirst work start k := fun n lt => h n (Nat.lt_succ_of_lt lt)
    rw [Nat.add_assoc, Nat.add_comm 1 left, ih before (left + 1), go_of_transient last]

theorem FailsAtFirst.run_eq (h : FailsAtFirst work start k) (allowed : k ≤ limit) :
    runInTransaction label work limit start =
      runInTransaction.go label work limit start k (limit.toNat - k) := by
  rw [← h.go_eq, runInTransaction]
  congr 1
  omega

theorem FailsAtFirst.ends_go (h : FailsAtFirst work start done) (total : done + left = limit)
    (some_attempt : 1 ≤ limit) :
    Ends label work limit start (runInTransaction.go label work limit start done left) := by
  induction left generalizing done with
  | zero =>
    have used : done ≠ 0 := by omega
    rw [runInTransaction.go, if_neg used]
    exact .exhausted h (by omega)
  | succ left ih =>
    cases outcome : work done start with
    | completed state result =>
      rw [go_of_completed outcome]
      exact .completed h (by omega) outcome
    | brokenOff written failure =>
      cases failure with
      | fatal cause =>
        rw [go_of_fatal outcome]
        exact .broken h (by omega) outcome
      | transient =>
        rw [go_of_transient outcome]
        exact ih (h.succ outcome) (by omega)

theorem Ends.eq_run (h : Ends label work limit start run) (some_attempt : 1 ≤ limit) :
    run = runInTransaction label work limit start := by
  have left {k : Nat} (allowed : k < limit) : ∃ left, limit.toNat - k = left + 1 :=
    ⟨limit.toNat - k - 1, by omega⟩
  cases h with
  | completed before allowed completes =>
    obtain ⟨_, more⟩ := left allowed
    rw [before.run_eq (Int.le_of_lt allowed), more, go_of_completed completes]
  | broken before allowed breaks =>
    obtain ⟨_, more⟩ := left allowed
    rw [before.run_eq (Int.le_of_lt allowed), more, go_of_fatal breaks]
  | @exhausted k before all =>
    have used : k ≠ 0 := by omega
    have none_left : limit.toNat - k = 0 := by omega
    rw [before.run_eq (Int.le_of_eq all), none_left, runInTransaction.go, if_neg used]

/-- A run ends in one of three ways and no other: with the result of an attempt after some that failed transiently,
with an error that is not transient, or with all allowed attempts used up. Unless it completes, the database is as it
was. -/
theorem transaction_ends_iff (some_attempt : 1 ≤ limit) :
    Ends label work limit start run ↔ run = runInTransaction label work limit start := by
  constructor
  · exact fun h => h.eq_run some_attempt
  · rintro rfl
    have unstarted : FailsAtFirst work start 0 := nofun
    exact unstarted.ends_go (by omega) some_attempt

end Runs

/-- A pass breaks off twice, once with its totals written already, and is carried out by its third and last
attempt. -/
theorem transaction_ends_iff_at_last :
    let locked (before : PassStep) : Option Interruption := some ⟨before, .transient⟩
    let faults (attempt : Nat) : Option Interruption := [locked .ranks, locked .totals][attempt]?.join
    let work (attempt : Nat) (db : Database Float) := db.attemptPass .player (faults attempt)
    let db : Database Float := { (.empty : Database Float) with
      players := Table.empty.append ⟨"p", none, none, false⟩
      demons := Table.empty.append ⟨"a", some 1, 50, none, 1, 1, true, ⟨0⟩, none⟩ }
    (1 : Int) ≤ maxAttempts ∧ (runInTransaction "player" work maxAttempts db).attempts = 3 ∧
      (runInTransaction "player" work maxAttempts db).state = db.pass .player := by
  intro locked faults work db
  have some_attempt : (1 : Int) ≤ maxAttempts := by decide
  have before : FailsAtFirst work db 2 := by
    intro n lt
    match n, lt with
    | 0, _ => exact ⟨_, rfl⟩
    | 1, _ => exact ⟨_, rfl⟩
  obtain ⟨count, ends⟩ : ∃ count, Ends "player" work maxAttempts db ⟨3, db.pass .player, .ok (some count)⟩ :=
    ⟨_, .completed before (by decide) rfl⟩
  rw [← (transaction_ends_iff some_attempt).1 ends]
  exact ⟨some_attempt, rfl, rfl⟩

end DemonBoard
