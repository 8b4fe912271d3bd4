import DemonBoard.Proofs.EarnedTotals

/-! When something has been earned. The curve stays above zero all the way down the list, so an attempt is worth
something exactly if it is a completion, or a partial one that counts, and a total is positive exactly if one of the
attempts behind it is worth something. -/

namespace DemonBoard

namespace Curve

variable {x progress requirement position cap : ℝ}

/-- On a curve without end every position is covered, so it has the value of a segment. -/
theorem creditAbove_pos {lower credit : ℝ} {segments : List (Segment ℝ)} (start : x ≤ lower → 0 < credit)
    (endless : ∃ g ∈ segments, g.last = none)
    (values : ∀ g ∈ segments, (∀ last ∈ g.last, x ≤ last) → 0 < g.value x) :
    0 < creditAbove lower credit x segments := by
  induction segments generalizing lower credit with
  | nil => simp at endless
  | cons g rest ih =>
    have credited (within : ∀ last ∈ g.last, x ≤ last) :
        0 < if g.Covers lower x then g.value x else credit := by
      split
      · exact values g List.mem_cons_self within
      · rename_i uncovered
        apply start
        by_contra above
        exact uncovered ⟨not_le.1 above, within⟩
    unfold creditAbove
    dsimp only
    cases ends : g.last with
    | none =>
      apply credited
      simp [ends]
    | some last =>
      apply ih
      · intro within
        apply credited
        simpa [ends] using within
      · simpa [ends] using endless
      · exact fun h mem => values h (List.mem_cons_of_mem g mem)

theorem value_pos {g : Segment ℝ} (a : 0 < g.a) (b : 0 < g.b) (c : 0 ≤ g.c) : 0 < g.value x := by
  have power : 0 < g.b ^ (g.s - x) := Real.rpow_pos_of_pos b _
  exact add_pos_of_pos_of_nonneg (mul_pos a power) c

theorem fullCredit_pos (h : 0 < x) : 0 < (standard : Curve ℝ).fullCredit x := by
  apply creditAbove_pos
  · intro below
    exact absurd h (not_lt.2 below)
  · simp [standard]
  · intro g mem within
    simp only [standard, List.mem_cons, List.not_mem_nil, or_false] at mem
    rcases mem with rfl | rfl | rfl | rfl
    · apply value_pos
      · show (0 : ℝ) < 149.61
        norm_num
      · show (0 : ℝ) < 1.168
        norm_num
      · show (0 : ℝ) ≤ 100.39
        norm_num
    · have bound : x ≤ (35.0 : ℝ) := within _ rfl
      apply second_value_pos
      norm_num at bound
      exact bound
    · apply value_pos
      · show (0 : ℝ) < 212.61
        norm_num
      · show (0 : ℝ) < 1.036
        norm_num
      · show (0 : ℝ) ≤ 25.071
        norm_num
    · apply value_pos
      · show (0 : ℝ) < 56.191
        norm_num
      · exact Real.rpow_pos_of_pos (show (0 : ℝ) < 2.0 by norm_num) _
      · show (0 : ℝ) ≤ 6.273
        norm_num

theorem partialCredit_pos_iff :
    0 < (standard : Curve ℝ).partialCredit progress requirement ↔ 100 ≤ progress ∨ requirement ≤ progress := by
  rw [partialCredit_real]
  split
  · rename_i complete
    simp [complete]
  · rename_i short
    split
    · rename_i below
      simp [short, below]
    · rename_i reached
      have power : 0 < (5 : ℝ) ^ ((progress - requirement) / (100 - requirement)) / 10 := by positivity
      simp [power, not_lt.1 reached]

theorem recordScore_pos_iff (h : 0 < position) :
    0 < (standard : Curve ℝ).recordScore progress position cap requirement ↔
      100 ≤ progress ∨ position ≤ cap ∧ requirement ≤ progress := by
  rw [recordScore_real]
  split
  · rename_i outside
    simp [outside.1, outside.2]
  · rename_i inside
    rw [mul_pos_iff_of_pos_left (fullCredit_pos h), partialCredit_pos_iff]
    by_cases complete : 100 ≤ progress
    · simp [complete]
    · have within : position ≤ cap := by
        by_contra beyond
        exact inside ⟨not_le.1 beyond, not_le.1 complete⟩
      simp [complete, within]

end Curve

theorem sum_map_pos_iff {β : Type} {f : β → ℝ} {xs : List β} (nonneg : ∀ x ∈ xs, 0 ≤ f x) :
    0 < (xs.map f).sum ↔ ∃ x ∈ xs, 0 < f x := by
  constructor
  · intro pos
    have larger : (xs.map fun _ => (0 : ℝ)).sum < (xs.map f).sum := by simpa using pos
    exact List.exists_lt_of_sum_lt _ _ larger
  · rintro ⟨x, mem, pos⟩
    have terms : ∀ v ∈ xs.map f, 0 ≤ v := by simpa using nonneg
    exact pos.trans_le (List.single_le_sum terms _ (List.mem_map_of_mem mem))

namespace Demon

variable {d : Demon} {attempts : List Int} {p progress : Int}

theorem value_pos_iff (at_p : d.position = some p) (top : 1 ≤ p) :
    0 < d.value progress ↔ 100 ≤ progress ∨ p ≤ scoredWindow ∧ d.requirement ≤ progress := by
  have positive : (0 : ℝ) < p := by exact_mod_cast top
  simp only [value, at_p, Curve.recordScore_pos_iff positive, scoredWindow]
  norm_cast

theorem value_le_best (mem : progress ∈ attempts) : d.value progress ≤ d.best attempts := by
  have some_attempt : attempts.map d.value ≠ [] := by
    simp [List.ne_nil_of_mem mem]
  obtain ⟨most, largest⟩ := Option.isSome_iff_exists.1 (List.isSome_max?_iff.2 some_attempt)
  rw [best, largest, Option.getD_some]
  exact (List.max?_eq_some_iff.1 largest).2 _ (List.mem_map_of_mem mem)

theorem best_nonneg (d : Demon) (attempts : List Int) : 0 ≤ d.best attempts := by
  cases attempts with
  | nil => exact le_refl 0
  | cons progress rest => exact (d.value_nonneg progress).trans (value_le_best List.mem_cons_self)

theorem best_pos_iff : 0 < d.best attempts ↔ ∃ progress ∈ attempts, 0 < d.value progress := by
  constructor
  · intro pos
    by_contra nothing
    have zero : d.best attempts = 0 := by
      apply best_eq_zero
      intro progress mem
      apply le_antisymm _ (d.value_nonneg progress)
      by_contra some_value
      exact nothing ⟨progress, mem, not_le.1 some_value⟩
    exact pos.ne' zero
  · rintro ⟨progress, mem, pos⟩
    exact pos.trans_le (value_le_best mem)

end Demon

def Pool.counts : Pool → Demon → Bool
  | .rated, d => d.rated
  | .unrated, _ => true

namespace Database

/-- A player has made score on a demon: verified it, or holds an approved record on it that is a completion or
reaches the requirement inside the window. -/
def ScoresOn {α : Type} (db : Database α) (playerId id : Int) (d : Demon) : Prop :=
  d.verifierId = playerId ∨ ∃ recordId record, db.records.find? recordId = some record ∧
    record.status = .approved ∧ record.playerId = playerId ∧ record.demonId = id ∧
    (record.progress = 100 ∨ (∃ p ∈ d.position, p ≤ scoredWindow) ∧ d.requirement ≤ record.progress)

/-- A player has made score on some listed demon that counts in a pool. -/
def Scores {α : Type} (db : Database α) (pool : Pool) (playerId : Int) : Prop :=
  ∃ id d, db.demons.find? id = some d ∧ d.listed ∧ pool.counts d ∧ db.ScoresOn playerId id d

theorem Scores.unrated {α : Type} {db : Database α} {playerId : Int} (h : db.Scores .rated playerId) :
    db.Scores .unrated playerId := by
  obtain ⟨id, d, found, listed, -, scores⟩ := h
  exact ⟨id, d, found, listed, rfl, scores⟩

variable {db : Database ℝ} {counts : Int → Bool} {pool : Pool}

theorem inPool_earned (db : Database ℝ) (counts : Int → Bool) (pool : Pool) : (db.earned counts).inPool pool =
    ((db.listedDemons.filter fun e => pool.counts e.2).map fun e =>
      e.2.best (db.attempts counts e.1 e.2)).sum := by
  cases pool with
  | rated => rfl
  | unrated =>
    have all : (db.listedDemons.filter fun _ => true) = db.listedDemons := by simp
    exact congrArg (fun es => (es.map fun e : Int × Demon => e.2.best (db.attempts counts e.1 e.2)).sum) all.symm

theorem earned_bounds (db : Database ℝ) (counts : Int → Bool) :
    0 ≤ (db.earned counts).score ∧ (db.earned counts).score ≤ (db.earned counts).unratedScore := by
  let earned (e : Int × Demon) : ℝ := e.2.best (db.attempts counts e.1 e.2)
  have terms (es : List (Int × Demon)) : ∀ v ∈ es.map earned, 0 ≤ v := by
    intro v mem
    obtain ⟨e, -, rfl⟩ := List.mem_map.1 mem
    exact e.2.best_nonneg _
  constructor
  · exact List.sum_nonneg (terms _)
  · exact (List.filter_sublist.map earned).sum_le_sum (terms _)

theorem exists_attempt_iff (bounded : db.WithinHundred) {id p : Int} {d : Demon} (at_p : d.position = some p)
    (top : 1 ≤ p) : (∃ progress ∈ db.attempts counts id d, 0 < d.value progress) ↔
      ∃ playerId, counts playerId ∧ db.ScoresOn playerId id d := by
  simp only [mem_attempts, Demon.value_pos_iff at_p top, ScoresOn]
  constructor
  · rintro ⟨progress, ⟨recordId, record, found, approved, about, counted, rfl⟩ | ⟨counted, rfl⟩, pos⟩
    · refine ⟨record.playerId, counted, .inr ⟨recordId, record, found, approved, rfl, about, ?_⟩⟩
      have most := bounded recordId record found
      rcases pos with complete | ⟨inside, reached⟩
      · exact .inl (by omega)
      · exact .inr ⟨⟨p, at_p, inside⟩, reached⟩
    · exact ⟨d.verifierId, counted, .inl rfl⟩
  · rintro ⟨playerId, counted, rfl | ⟨recordId, record, found, approved, rfl, about, scores⟩⟩
    · exact ⟨100, .inr ⟨counted, rfl⟩, .inl (le_refl 100)⟩
    · refine ⟨record.progress, .inl ⟨recordId, record, found, approved, about, counted, rfl⟩, ?_⟩
      rcases scores with complete | ⟨⟨q, at_q, inside⟩, reached⟩
      · exact .inl complete.ge
      · obtain rfl : p = q := Option.some_inj.1 (at_p.symm.trans at_q)
        exact .inr ⟨inside, reached⟩

/-- A group has earned something in a pool if one of its players has made score in it. -/
theorem earned_pos_iff (dense : db.Dense) (bounded : db.WithinHundred) :
    0 < (db.earned counts).inPool pool ↔ ∃ playerId, counts playerId ∧ db.Scores pool playerId := by
  rw [inPool_earned, sum_map_pos_iff fun e _ => e.2.best_nonneg _]
  simp only [List.mem_filter, Prod.exists, mem_listedDemons, Demon.best_pos_iff]
  have attempts {id : Int} {d : Demon} (found : db.demons.find? id = some d) (listed : d.listed) :
      (∃ progress ∈ db.attempts counts id d, 0 < d.value progress) ↔
        ∃ playerId, counts playerId ∧ db.ScoresOn playerId id d := by
    obtain ⟨i, -, at_p⟩ := dense.arranged.placed id d found listed
    exact exists_attempt_iff bounded at_p (by omega)
  constructor
  · rintro ⟨id, d, ⟨⟨found, listed⟩, counted⟩, worth⟩
    obtain ⟨playerId, belongs, scores⟩ := (attempts found listed).1 worth
    exact ⟨playerId, belongs, id, d, found, listed, counted, scores⟩
  · rintro ⟨playerId, belongs, id, d, found, listed, counted, scores⟩
    exact ⟨id, d, ⟨⟨found, listed⟩, counted⟩, (attempts found listed).2 ⟨playerId, belongs, scores⟩⟩

end Database

end DemonBoard
