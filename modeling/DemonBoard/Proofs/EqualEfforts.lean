import DemonBoard.Proofs.Competitors

/-! Equal achievements tie. Two competitors of whom the best score-giving progress is the same on every listed demon
have the same efforts, so the same terms are added up for both in the same order: their totals are equal to the last
bit, in floating point too, and no rank comes between them. -/

namespace DemonBoard.Database

variable {α : Type} [Scalar α] {db : Database α} {c c' : Competitor}

theorem due_eq_of_bestProgress (same : ∀ e ∈ db.listedDemons,
    db.bestProgress (db.countsFor c) e.1 e.2 = db.bestProgress (db.countsFor c') e.1 e.2) : db.due c = db.due c' := by
  unfold due
  rw [efforts_congr rfl same]

/-- Equal achievements tie: who have come equally far on every listed demon have the same totals and ranks, whatever
the number of their records, their ids and their order, and whichever of them are verifications. -/
theorem equal_efforts_tie [DecidableEq α] [Scalar.Ordered α] (fresh : db.Fresh) (level : c.scope = c'.scope)
    (mem : c ∈ db.rivals c.scope) (mem' : c' ∈ db.rivals c'.scope)
    (same : ∀ e ∈ db.listedDemons,
      db.bestProgress (db.countsFor c) e.1 e.2 = db.bestProgress (db.countsFor c') e.1 e.2) :
    (∃ totals, db.totals? c = some totals ∧ db.totals? c' = some totals) ∧
      ∀ pool, db.rankOf c pool = db.rankOf c' pool := by
  have due : db.due c = db.due c' := due_eq_of_bestProgress same
  refine ⟨⟨db.due c, fresh.totals?_of_knows (knows_of_mem_rivals mem), ?_⟩, ?_⟩
  · rw [due]
    exact fresh.totals?_of_knows (knows_of_mem_rivals mem')
  · intro pool
    rw [level] at mem
    simp only [fresh.rankOf_eq, due, level, mem, mem']

/-- One player has verified the first demon and improved on the second, the other has handed in one record for each:
they tie, and so do their nations. -/
theorem equal_efforts_tie_of_two :
    let first : Demon := ⟨"a", some 1, 50, none, 1, 1, true, ⟨0⟩, none⟩
    let second : Demon := ⟨"b", some 2, 50, none, 3, 3, false, ⟨0⟩, none⟩
    let handedIn : List Record := [⟨2, 2, 80, .approved⟩, ⟨1, 2, 60, .approved⟩, ⟨2, 1, 100, .approved⟩,
      ⟨2, 2, 90, .submitted⟩, ⟨1, 2, 80, .approved⟩]
    let db : Database Float := { (empty : Database Float) with
      nations := ⟨[("DE", ⟨"Germany", none⟩), ("FR", ⟨"France", none⟩)], by decide⟩
      players := (Table.empty.append ⟨"p", some "FR", none, false⟩).append ⟨"q", some "DE", none, false⟩
      demons := (Table.empty.append first).append second
      records := handedIn.foldl Table.append Table.empty }
    let ranked := (db.recomputeAll .absent).state
    (∀ pool, ranked.rankOf (.player 1) pool = ranked.rankOf (.player 2) pool) ∧
      ∃ totals, ranked.totals? (.nation "DE") = some totals ∧ ranked.totals? (.nation "FR") = some totals := by
  intro first second handedIn db ranked
  have fresh : ranked.Fresh := db.fresh_recomputeAll
  have tables : ranked = Scope.all.foldl pass db := (recompute_absent db Scope.all).1
  have filed (c : Competitor) (mem : c ∈ db.rivals c.scope) : c ∈ ranked.rivals c.scope := by
    rw [tables]
    cases c <;> exact mem
  have level {c c' : Competitor} (same : ∀ e ∈ db.listedDemons,
      db.bestProgress (db.countsFor c) e.1 e.2 = db.bestProgress (db.countsFor c') e.1 e.2) :
      ∀ e ∈ ranked.listedDemons,
        ranked.bestProgress (ranked.countsFor c) e.1 e.2 = ranked.bestProgress (ranked.countsFor c') e.1 e.2 := by
    rw [tables]
    cases c <;> cases c' <;> exact same
  constructor
  · exact (equal_efforts_tie fresh (by rfl) (filed (.player 1) (by decide)) (filed (.player 2) (by decide))
      (level (by decide))).2
  · exact (equal_efforts_tie fresh (by rfl) (filed (.nation "DE") (by decide)) (filed (.nation "FR") (by decide))
      (level (by decide))).1

end DemonBoard.Database
