import Mathlib.Data.Multiset.Range
import DemonBoard.Proofs.Arrangement

/-! What the check of the positions answers. It passes the positions 1 to N, one of each and in any order, and any
others lack one of these. Those it reports in ascending order, as a violated invariant, unless one of several positions
is absent: then there is no such order, and the comparison itself fails. -/

namespace DemonBoard

variable {positions : List (Option Int)}

def seats (size : Nat) : Multiset (Option Int) := (Multiset.range size).map fun (i : Nat) => some ((i : Int) + 1)

/-- One of several positions is absent. -/
def Unsortable (positions : List (Option Int)) : Prop := none ∈ positions ∧ positions ≠ [none]

theorem coe_densePositions (size : Nat) : (densePositions size : Multiset (Option Int)) = seats size := rfl

theorem mem_seats {size : Nat} {p : Option Int} : p ∈ seats size ↔ ∃ n : Int, (1 ≤ n ∧ n ≤ size) ∧ some n = p := by
  simp only [seats, Multiset.mem_map, Multiset.mem_range]
  constructor
  · rintro ⟨i, inside, rfl⟩
    exact ⟨(i : Int) + 1, by omega, rfl⟩
  · rintro ⟨n, ⟨first, last⟩, rfl⟩
    refine ⟨(n - 1).toNat, by omega, congrArg some ?_⟩
    omega

theorem nodup_seats (size : Nat) : (seats size).Nodup := by
  refine (Multiset.nodup_range size).map ?_
  intro i j same
  have eq := Option.some_inj.1 same
  omega

theorem card_seats (size : Nat) : (seats size).card = size := by
  rw [seats, Multiset.card_map, Multiset.card_range]

/-- As many positions as there are seats fill them all, or leave one of them free. -/
theorem ne_seats_iff : (positions : Multiset (Option Int)) ≠ seats positions.length ↔
    ∃ n : Int, 1 ≤ n ∧ n ≤ positions.length ∧ some n ∉ positions := by
  constructor
  · intro gaps
    by_contra filled
    have held : seats positions.length ⊆ positions := by
      intro p mem
      obtain ⟨n, ⟨first, last⟩, rfl⟩ := mem_seats.1 mem
      by_contra free
      exact filled ⟨n, first, last, free⟩
    -- nothing is left over, since there are no more positions than seats
    have le : seats positions.length ≤ positions := (Multiset.le_iff_subset (nodup_seats _)).2 held
    exact gaps (Multiset.eq_of_le_of_card_le le (card_seats _).ge).symm
  · rintro ⟨n, first, last, free⟩ whole
    apply free
    rw [← Multiset.mem_coe, whole]
    exact mem_seats.2 ⟨n, ⟨first, last⟩, rfl⟩

theorem sortPositions_of_sortable (sortable : ¬ Unsortable positions) : ∃ sorted, sortPositions positions = .ok sorted ∧
    sorted.Pairwise fun p q => p.getD 0 ≤ q.getD 0 := by
  by_cases absent : none ∈ positions
  · obtain rfl : positions = [none] := by
      by_contra several
      exact sortable ⟨absent, several⟩
    exact ⟨[none], rfl, List.pairwise_singleton _ _⟩
  · have present : ∀ p ∈ positions, p.isSome := by
      intro p mem
      rw [Option.isSome_iff_ne_none]
      rintro rfl
      exact absent mem
    have sorting := sortPositions_map_some (positions.filterMap id)
    rw [map_some_filterMap present] at sorting
    exact ⟨_, sorting, List.pairwise_map.2 (pairwise_sortOn id _)⟩

theorem sortPositions_of_unsortable (unsortable : Unsortable positions) :
    ∃ left right, sortPositions positions = .error (.incomparable "<" left right) := by
  obtain ⟨absent, several⟩ := unsortable
  match positions with
  | [] => cases absent
  | [p] => exact absurd (congrArg List.singleton (List.mem_singleton.1 absent).symm) several
  | none :: next :: rest => exact ⟨_, _, rfl⟩
  | some first :: next :: rest =>
    have some_absent : ¬ (next :: rest).all Option.isSome := by
      intro present
      have later : none ∈ next :: rest := (List.mem_cons.1 absent).resolve_left nofun
      cases List.all_eq_true.1 present none later
    exact ⟨_, _, if_neg some_absent⟩

theorem requireDense_iff_seats :
    requireDense positions = .ok () ↔ (positions : Multiset (Option Int)) = seats positions.length := by
  rw [requireDense_eq_ok_iff, ← coe_densePositions, Multiset.coe_eq_coe]

theorem Unsortable.ne_seats (unsortable : Unsortable positions) :
    (positions : Multiset (Option Int)) ≠ seats positions.length := by
  intro whole
  have absent : none ∈ (positions : Multiset (Option Int)) := Multiset.mem_coe.2 unsortable.1
  rw [whole] at absent
  obtain ⟨n, -, present⟩ := mem_seats.1 absent
  cases present

theorem requireDense_of_unsortable (unsortable : Unsortable positions) :
    ∃ e, requireDense positions = .error e ∧ e.kind = .operand := by
  obtain ⟨left, right, fails⟩ := sortPositions_of_unsortable unsortable
  refine ⟨.incomparable "<" left right, ?_, rfl⟩
  rw [requireDense, fails]
  rfl

theorem requireDense_of_gaps (sortable : ¬ Unsortable positions)
    (gaps : (positions : Multiset (Option Int)) ≠ seats positions.length) :
    ∃ sorted, requireDense positions = .error (.notDense sorted) ∧ sorted.Perm positions ∧
      sorted.Pairwise fun p q => p.getD 0 ≤ q.getD 0 := by
  obtain ⟨sorted, sorting, ascending⟩ := sortPositions_of_sortable sortable
  have not_dense : sorted ≠ densePositions sorted.length := by
    intro dense
    apply gaps
    rw [← requireDense_iff_seats, requireDense, sorting]
    exact if_pos dense
  refine ⟨sorted, ?_, sortPositions_perm sorting, ascending⟩
  rw [requireDense, sorting]
  exact if_neg not_dense

namespace Database

variable {α : Type}

/-- The check passes exactly if the listed demons are at the positions 1 to N, one at each, and fails exactly if one of
these positions is held by nobody. It fails with a violated invariant, which names all positions in ascending order;
only where one of several listed demons has no position does it fail on an operand that cannot be compared. -/
theorem checkPositions_answers (db : Database α) :
    let positions := db.listedPositions
    (db.checkPositions = .ok () ↔ (positions : Multiset (Option Int)) = seats db.listSize) ∧
    ((∃ e, db.checkPositions = .error e) ↔ ∃ n : Int, 1 ≤ n ∧ n ≤ db.listSize ∧ some n ∉ positions) ∧
    ((∃ e, db.checkPositions = .error e ∧ e.kind = .invariant) ↔
      (positions : Multiset (Option Int)) ≠ seats db.listSize ∧ ¬ Unsortable positions) ∧
    ((∃ e, db.checkPositions = .error e ∧ e.kind = .operand) ↔ Unsortable positions) ∧
    ∀ e, db.checkPositions = .error e → e.kind = .invariant → ∃ sorted, e = .notDense sorted ∧
      sorted.Perm positions ∧ sorted.Pairwise fun p q => p.getD 0 ≤ q.getD 0 := by
  intro positions
  have size : positions.length = db.listSize := List.length_map _
  have check : db.checkPositions = requireDense positions := rfl
  rw [← size, ← ne_seats_iff, check]
  by_cases unsortable : Unsortable positions
  · obtain ⟨e, refused, kind⟩ := requireDense_of_unsortable unsortable
    simp [refused, unsortable.ne_seats, unsortable, kind]
  · by_cases whole : (positions : Multiset (Option Int)) = seats positions.length
    · have passed : requireDense positions = .ok () := requireDense_iff_seats.2 whole
      simp [passed, ← whole, unsortable]
    · obtain ⟨sorted, refused, perm, ascending⟩ := requireDense_of_gaps unsortable whole
      have kind : (Error.notDense sorted).kind = .invariant := rfl
      simp [refused, whole, unsortable, kind, perm, ascending]

/-- A demon that is listed without a position leaves a gap in the list, but beside another demon no invariant is
reported. -/
theorem checkPositions_compares_absent :
    let first : Demon := ⟨"A", some 1, 50, none, 1, 1, true, ⟨0⟩, none⟩
    let second : Demon := ⟨"B", none, 50, none, 1, 1, true, ⟨0⟩, none⟩
    let db : Database Float := { (empty : Database Float) with demons := (Table.empty.append first).append second }
    (db.listedPositions : Multiset (Option Int)) ≠ seats db.listSize ∧
      ∃ e, db.checkPositions = .error e ∧ e.kind ≠ .invariant := by
  intro first second db
  exact ⟨by decide, _, rfl, by decide⟩

end Database

end DemonBoard
