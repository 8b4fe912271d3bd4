import Mathlib.Analysis.Complex.ExponentialBounds
import Mathlib.Order.SuccPred.Archimedean
import DemonBoard.Proofs.ExactScores
import DemonBoard.Proofs.SegmentChoice

/-! How scores fall. Where every segment of an endless curve falls, and the next one starts below its end, the curve
falls from each position to the next, and the standard curve is made so. A score therefore grows with the progress,
and shrinks with the requirement and on the way down the list. -/

namespace DemonBoard

namespace Segment

variable {g : Segment ℝ} {x y : ℝ}

structure Falls (g : Segment ℝ) : Prop where
  a_pos : 0 < g.a
  one_lt_b : 1 < g.b

theorem value_real (g : Segment ℝ) (x : ℝ) : g.value x = g.a * g.b ^ (g.s - x) + g.c := rfl

theorem Falls.value_lt (h : g.Falls) (lt : x < y) : g.value y < g.value x := by
  have power : g.b ^ (g.s - y) < g.b ^ (g.s - x) :=
    Real.rpow_lt_rpow_of_exponent_lt h.one_lt_b (sub_lt_sub_left lt g.s)
  have product := mul_lt_mul_of_pos_left power h.a_pos
  rw [value_real, value_real]
  linarith

end Segment

namespace Curve

variable {g : Segment ℝ} {rest segments : List (Segment ℝ)} {lower last credit x : ℝ}

/-- Every segment falls up to the first one without end, and ends at a whole position, after which the curve goes on
further down. -/
def Descends : List (Segment ℝ) → Prop
  | [] => False
  | g :: rest => g.Falls ∧ ∀ last ∈ g.last,
      (∃ n : ℤ, last = n) ∧ creditAbove last 0 (last + 1) rest < g.value last ∧ Descends rest

/-- A descending curve is worth less at the next position, be it on the same segment or on another. -/
theorem creditAbove_succ_lt (climbs : Climbs lower segments) (descends : Descends segments) {n : ℤ}
    (above : lower < n) : creditAbove lower 0 (n + 1) segments < creditAbove lower 0 n segments := by
  induction segments generalizing lower with
  | nil => exact descends.elim
  | cons g rest ih =>
    obtain ⟨falls, joins⟩ := descends
    by_cases far : g.Reaches (n + 1)
    · have near : g.Reaches n := fun last ends => (lt_add_one _).le.trans (far last ends)
      rw [creditAbove_of_reaches climbs (above.trans (lt_add_one _)) far, creditAbove_of_reaches climbs above near]
      exact falls.value_lt (lt_add_one _)
    · obtain ⟨last, ends, beyond⟩ : ∃ last, g.last = some last ∧ last < n + 1 := by
        simpa [Segment.Reaches] using far
      obtain ⟨⟨m, rfl⟩, drops, descends⟩ := joins last ends
      rw [creditAbove_of_ends ends beyond]
      by_cases here : (n : ℝ) ≤ m
      · -- the segment ends right here
        obtain rfl : n = m := le_antisymm (Int.cast_le.1 here) (Int.lt_add_one_iff.1 (by exact_mod_cast beyond))
        have near : g.Reaches n := by
          intro last ends'
          exact (Option.some_inj.1 (ends.symm.trans ends')).le
        rw [creditAbove_of_reaches climbs above near]
        exact drops
      · rw [creditAbove_of_ends ends (not_le.1 here)]
        exact ih (climbs _ ends).2 descends (not_le.1 here)

theorem segments_standard : (standard : Curve ℝ).segments = [
    ⟨some 20, 149.61, 1.168, 1, 100.39⟩, ⟨some 35, 166.611, 1.0099685, 2, -31.152⟩,
    ⟨some 55, 212.61, 1.036, 1, 25.071⟩, ⟨none, 56.191, 2 ^ (Real.log 50 / 99), 50.947, 6.273⟩] := by
  have twenty : (20.0 : ℝ) = 20 := by norm_num
  have thirtyFive : (35.0 : ℝ) = 35 := by norm_num
  have fiftyFive : (55.0 : ℝ) = 55 := by norm_num
  have two : (2.0 : ℝ) = 2 := by norm_num
  have fifty : (50.0 : ℝ) = 50 := by norm_num
  have ninetyNine : (99.0 : ℝ) = 99 := by norm_num
  rw [← twenty, ← thirtyFive, ← fiftyFive, ← two, ← fifty, ← ninetyNine]
  rfl

theorem climbs_standard : Climbs 0 (standard : Curve ℝ).segments := by
  rw [segments_standard]
  simp only [Climbs, Option.mem_def, Option.some_inj, forall_eq', reduceCtorEq, false_implies, implies_true]
  norm_num

/-- The last segment falls fast enough from its first position. -/
theorem last_join : 56.191 * ((2 : ℝ) ^ (Real.log 50 / 99)) ^ (50.947 - (55 + 1) : ℝ) + 6.273 <
    212.61 * (1.036 : ℝ) ^ (1 - 55 : ℝ) + 25.071 := by
  have log_two := Real.log_two_gt_d9
  have log_fifty : 5 * Real.log 2 ≤ Real.log 50 := by
    rw [← Real.log_rpow two_pos]
    exact Real.log_le_log (by norm_num) (by norm_num)
  -- the segment loses at least a ninth on the way here
  have growth : 1.12 ≤ ((2 : ℝ) ^ (Real.log 50 / 99)) ^ (5.053 : ℝ) := by
    have exponent : 1.12 - 1 ≤ Real.log 2 * (Real.log 50 / 99) * 5.053 := by nlinarith
    rw [Real.rpow_def_of_pos two_pos, ← Real.exp_mul]
    linarith [Real.add_one_le_exp (Real.log 2 * (Real.log 50 / 99) * 5.053)]
  have shrunk : ((2 : ℝ) ^ (Real.log 50 / 99)) ^ (50.947 - (55 + 1) : ℝ) ≤ 1.12⁻¹ := by
    rw [show (50.947 - (55 + 1) : ℝ) = -5.053 by norm_num, Real.rpow_neg (by positivity)]
    exact inv_anti₀ (by norm_num) growth
  have kept : (31.4 : ℝ) < 212.61 * 1.036 ^ (1 - 55 : ℝ) := by norm_num
  linarith

theorem descends_standard : Descends (standard : Curve ℝ).segments := by
  have climbs := climbs_standard
  rw [segments_standard] at climbs ⊢
  obtain ⟨-, fromTwenty⟩ := climbs 20 rfl
  obtain ⟨-, fromThirtyFive⟩ := fromTwenty 35 rfl
  obtain ⟨-, fromFiftyFive⟩ := fromThirtyFive 55 rfl
  simp only [Descends, Option.mem_def, Option.some_inj, forall_eq', reduceCtorEq, false_implies, implies_true]
  rw [creditAbove_of_reaches fromTwenty (lt_add_one 20) (by norm_num [Segment.Reaches]),
    creditAbove_of_reaches fromThirtyFive (lt_add_one 35) (by norm_num [Segment.Reaches]),
    creditAbove_of_reaches fromFiftyFive (lt_add_one 55) nofun]
  simp only [Segment.value_real]
  have grows : (1 : ℝ) < 2 ^ (Real.log 50 / 99) :=
    Real.one_lt_rpow one_lt_two (div_pos (Real.log_pos (by norm_num)) (by norm_num))
  refine ⟨⟨?_, ?_⟩, ⟨20, ?_⟩, ?_, ⟨?_, ?_⟩, ⟨35, ?_⟩, ?_, ⟨?_, ?_⟩, ⟨55, ?_⟩, last_join, ⟨?_, grows⟩, trivial⟩ <;>
    norm_num

theorem fullCredit_strictAntiOn :
    StrictAntiOn (fun position : ℤ => (standard : Curve ℝ).fullCredit position) (Set.Ici 1) := by
  refine strictAntiOn_of_succ_lt Set.ordConnected_Ici ?_
  intro n _ first _
  have above : (0 : ℝ) < n := by exact_mod_cast first
  simpa [fullCredit] using creditAbove_succ_lt climbs_standard descends_standard above

variable {progress requirement requirement' position cap : ℝ}

theorem partialCredit_antitone (h : requirement ≤ requirement') :
    (standard : Curve ℝ).partialCredit progress requirement' ≤
      (standard : Curve ℝ).partialCredit progress requirement := by
  have least : 0 ≤ (standard : Curve ℝ).partialCredit progress requirement := partialCredit_nonneg
  rw [partialCredit_real, partialCredit_real] at *
  by_cases complete : 100 ≤ progress
  · rw [if_pos complete, if_pos complete]
  · by_cases below : progress < requirement'
    · rw [if_neg complete, if_pos below]
      exact least
    · rw [if_neg complete, if_neg below, if_neg complete, if_neg (by linarith)]
      have room : 0 < 100 - requirement' := by linarith
      -- what is still missing is a larger part of the way
      have exponent : (progress - requirement') / (100 - requirement') ≤
          (progress - requirement) / (100 - requirement) := by
        rw [div_le_div_iff₀ room (by linarith)]
        nlinarith
      have power := Real.rpow_le_rpow_of_exponent_le (show (1 : ℝ) ≤ 5 by norm_num) exponent
      gcongr

theorem recordScore_antitone_requirement (h : requirement ≤ requirement') :
    (standard : Curve ℝ).recordScore progress position cap requirement' ≤
      (standard : Curve ℝ).recordScore progress position cap requirement := by
  rw [recordScore_real, recordScore_real]
  split
  · exact le_refl 0
  · exact mul_le_mul_of_nonneg_left (partialCredit_antitone h) (fullCredit_nonneg position)

theorem recordScore_antitone_position {n m : ℤ} (first : 1 ≤ n) (h : n ≤ m) :
    (standard : Curve ℝ).recordScore progress m cap requirement ≤
      (standard : Curve ℝ).recordScore progress n cap requirement := by
  have le : (n : ℝ) ≤ m := by exact_mod_cast h
  by_cases nothing : cap < m ∧ progress < 100
  · rw [recordScore_real, if_pos nothing]
    exact recordScore_nonneg
  · have something : ¬ (cap < n ∧ progress < 100) := fun outside => nothing ⟨outside.1.trans_le le, outside.2⟩
    rw [recordScore_real, recordScore_real, if_neg nothing, if_neg something]
    have credit := fullCredit_strictAntiOn.antitoneOn first (first.trans h) h
    exact mul_le_mul_of_nonneg_right credit partialCredit_nonneg

/-- Under any cap a score never falls as the progress grows, never rises with the requirement, and never rises from
one position on the list to a later one; and the score of a completion falls strictly from each position to every
later one. -/
theorem recordScore_monotone (cap : ℝ) :
    (∀ position requirement : ℝ,
      Monotone fun progress => (standard : Curve ℝ).recordScore progress position cap requirement) ∧
    (∀ progress position : ℝ,
      Antitone fun requirement => (standard : Curve ℝ).recordScore progress position cap requirement) ∧
    (∀ progress requirement : ℝ, AntitoneOn (fun position : ℤ =>
      (standard : Curve ℝ).recordScore progress position cap requirement) (Set.Ici 1)) ∧
    ∀ requirement : ℝ, StrictAntiOn (fun position : ℤ =>
      (standard : Curve ℝ).recordScore 100 position cap requirement) (Set.Ici 1) := by
  refine ⟨?_, ?_, ?_, ?_⟩
  · intro position requirement progress progress' more
    exact recordScore_mono more
  · intro progress position requirement requirement' higher
    exact recordScore_antitone_requirement higher
  · intro progress requirement n first m _ later
    exact recordScore_antitone_position first later
  · intro requirement
    simp only [recordScore_complete]
    exact fullCredit_strictAntiOn

/-- A completion is worth less right after each segment and right after the cap, where partial progress stops
counting. -/
theorem recordScore_monotone_across_joins :
    let completion (position : ℤ) : ℝ := (standard : Curve ℝ).recordScore 100 position 75 50
    completion 21 < completion 20 ∧ completion 36 < completion 35 ∧ completion 56 < completion 55 ∧
    completion 76 < completion 75 ∧
    (standard : Curve ℝ).recordScore 60 (76 : ℤ) 75 50 ≤ (standard : Curve ℝ).recordScore 60 (75 : ℤ) 75 50 := by
  intro completion
  obtain ⟨-, -, antitone, strict⟩ := recordScore_monotone 75
  have next (n : ℤ) (first : 1 ≤ n) : completion (n + 1) < completion n :=
    strict 50 first (first.trans (Int.le_add_one (le_refl n))) (Int.lt_succ n)
  refine ⟨next 20 (by decide), next 35 (by decide), next 55 (by decide), next 75 (by decide), ?_⟩
  exact antitone 60 50 (Set.mem_Ici.2 (by decide)) (Set.mem_Ici.2 (by decide)) (by decide)

end Curve

end DemonBoard
