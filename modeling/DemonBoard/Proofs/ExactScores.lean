import Mathlib.Analysis.SpecialFunctions.Pow.Real
import Mathlib.Analysis.SpecialFunctions.Log.Basic
import DemonBoard.Totals

/-! Scores in exact arithmetic. Under the standard curve a score is never negative, grows with progress, and
is nothing outside the cap unless the record is a completion. -/

namespace DemonBoard

noncomputable instance : Scalar ℝ where
  log := Real.log
  decideLT := inferInstance
  decideLE := inferInstance

namespace Scalar

theorem sum_real (xs : List ℝ) : Scalar.sum xs = xs.sum := by
  have general (start : ℝ) :
      xs.foldl (fun acc x => if Defined x then acc + x else acc) start = start + xs.sum := by
    induction xs generalizing start with
    | nil => simp
    | cons x rest ih =>
      rw [List.foldl_cons, if_pos (show Defined x from le_refl x), ih, List.sum_cons, add_assoc]
  rw [Scalar.sum, general, zero_add]

theorem orZero_real (x : ℝ) : Scalar.orZero x = x := if_pos (le_refl x)

end Scalar

namespace Curve

variable {x : ℝ}

theorem creditAbove_nonneg {lower credit : ℝ} {segments : List (Segment ℝ)} (start : 0 ≤ credit)
    (values : ∀ g ∈ segments, (∀ last ∈ g.last, x ≤ last) → 0 ≤ g.value x) :
    0 ≤ creditAbove lower credit x segments := by
  induction segments generalizing lower credit with
  | nil => exact start
  | cons g rest ih =>
    have credited : 0 ≤ if g.Covers lower x then g.value x else credit := by
      split
      · rename_i covers
        exact values g List.mem_cons_self covers.2
      · exact start
    unfold creditAbove
    dsimp only
    split
    · exact credited
    · exact ih credited fun h mem => values h (List.mem_cons_of_mem g mem)

theorem value_nonneg {g : Segment ℝ} (a : 0 ≤ g.a) (b : 0 ≤ g.b) (c : 0 ≤ g.c) : 0 ≤ g.value x := by
  have power : 0 ≤ g.b ^ (g.s - x) := Real.rpow_nonneg b _
  exact add_nonneg (mul_nonneg a power) c

theorem second_value_pos (h : x ≤ 35) : 0 < 166.611 * (1.0099685 : ℝ) ^ (2.0 - x) + (-31.152) := by
  have base : (1 : ℝ) ≤ 1.0099685 := by norm_num
  have power : (1.0099685 : ℝ) ^ (-33 : ℝ) ≤ 1.0099685 ^ (2.0 - x) := by
    refine Real.rpow_le_rpow_of_exponent_le base ?_
    norm_num
    linarith
  have least : (0.5 : ℝ) ≤ 1.0099685 ^ (-33 : ℝ) := by
    rw [Real.rpow_neg (by norm_num), show (33 : ℝ) = ((33 : ℕ) : ℝ) by norm_num, Real.rpow_natCast]
    norm_num
  linarith

theorem fullCredit_nonneg (x : ℝ) : 0 ≤ (standard : Curve ℝ).fullCredit x := by
  refine creditAbove_nonneg (le_refl 0) ?_
  intro g mem within
  simp only [standard, List.mem_cons, List.not_mem_nil, or_false] at mem
  rcases mem with rfl | rfl | rfl | rfl
  · refine value_nonneg ?_ ?_ ?_
    · show (0 : ℝ) ≤ 149.61
      norm_num
    · show (0 : ℝ) ≤ 1.168
      norm_num
    · show (0 : ℝ) ≤ 100.39
      norm_num
  · have bound : x ≤ (35.0 : ℝ) := within _ rfl
    refine (second_value_pos (bound.trans ?_)).le
    norm_num
  · refine value_nonneg ?_ ?_ ?_
    · show (0 : ℝ) ≤ 212.61
      norm_num
    · show (0 : ℝ) ≤ 1.036
      norm_num
    · show (0 : ℝ) ≤ 25.071
      norm_num
  · refine value_nonneg ?_ ?_ ?_
    · show (0 : ℝ) ≤ 56.191
      norm_num
    · exact Real.rpow_nonneg (show (0 : ℝ) ≤ 2.0 by norm_num) _
    · show (0 : ℝ) ≤ 6.273
      norm_num

theorem fullCredit_one : (standard : Curve ℝ).fullCredit 1 = 250 := by
  have covered : (0 : ℝ) < 1 ∧ ∀ last ∈ some (20.0 : ℝ), 1 ≤ last := ⟨zero_lt_one, by norm_num⟩
  have second : ¬ ((20.0 : ℝ) < 1 ∧ ∀ last ∈ some (35.0 : ℝ), 1 ≤ last) := by norm_num
  have third : ¬ ((35.0 : ℝ) < 1 ∧ ∀ last ∈ some (55.0 : ℝ), 1 ≤ last) := by norm_num
  have fourth : ¬ ((55.0 : ℝ) < 1 ∧ ∀ last ∈ (none : Option ℝ), 1 ≤ last) := by norm_num
  have value : 149.61 * (1.168 : ℝ) ^ ((1 : ℝ) - 1) + 100.39 = 250 := by norm_num
  exact (if_neg fourth).trans ((if_neg third).trans ((if_neg second).trans ((if_pos covered).trans value)))

variable {progress progress' requirement position cap : ℝ}

theorem partialCredit_real : (standard : Curve ℝ).partialCredit progress requirement =
    if 100 ≤ progress then 1
    else if progress < requirement then 0
    else 5 ^ ((progress - requirement) / (100 - requirement)) / 10 := by
  have hundred : (100.0 : ℝ) = 100 := by norm_num
  have five : (5.0 : ℝ) = 5 := by norm_num
  have ten : (10.0 : ℝ) = 10 := by norm_num
  rw [← hundred, ← five, ← ten]
  rfl

theorem partialCredit_nonneg : 0 ≤ (standard : Curve ℝ).partialCredit progress requirement := by
  rw [partialCredit_real]
  split
  · exact zero_le_one
  · split
    · exact le_refl 0
    · positivity

theorem partialCredit_mono (h : progress ≤ progress') :
    (standard : Curve ℝ).partialCredit progress requirement ≤
      (standard : Curve ℝ).partialCredit progress' requirement := by
  have least : 0 ≤ (standard : Curve ℝ).partialCredit progress' requirement := partialCredit_nonneg
  rw [partialCredit_real, partialCredit_real] at *
  by_cases complete : 100 ≤ progress
  · rw [if_pos complete, if_pos (complete.trans h)]
  · rw [if_neg complete]
    by_cases below : progress < requirement
    · rw [if_pos below]
      exact least
    · have room : 0 < 100 - requirement := by linarith
      rw [if_neg below]
      by_cases complete' : 100 ≤ progress'
      · have exponent : (progress - requirement) / (100 - requirement) ≤ 1 := by
          rw [div_le_one room]
          linarith
        have power : (5 : ℝ) ^ ((progress - requirement) / (100 - requirement)) ≤ 5 ^ (1 : ℝ) :=
          Real.rpow_le_rpow_of_exponent_le (by norm_num) exponent
        rw [if_pos complete']
        rw [Real.rpow_one] at power
        linarith
      · rw [if_neg complete', if_neg (by linarith)]
        have exponent : (progress - requirement) / (100 - requirement) ≤
            (progress' - requirement) / (100 - requirement) := by gcongr
        have power := Real.rpow_le_rpow_of_exponent_le (show (1 : ℝ) ≤ 5 by norm_num) exponent
        gcongr

theorem recordScore_real : (standard : Curve ℝ).recordScore progress position cap requirement =
    if cap < position ∧ progress < 100 then 0
    else (standard : Curve ℝ).fullCredit position *
      (standard : Curve ℝ).partialCredit progress requirement := by
  have hundred : (100.0 : ℝ) = 100 := by norm_num
  rw [← hundred]
  rfl

theorem recordScore_complete : (standard : Curve ℝ).recordScore 100 position cap requirement =
    (standard : Curve ℝ).fullCredit position := by
  rw [recordScore_real, if_neg fun outside => lt_irrefl _ outside.2, partialCredit_real, if_pos (le_refl 100), mul_one]

theorem recordScore_nonneg : 0 ≤ (standard : Curve ℝ).recordScore progress position cap requirement := by
  rw [recordScore_real]
  split
  · exact le_refl 0
  · exact mul_nonneg (fullCredit_nonneg position) partialCredit_nonneg

theorem recordScore_mono (h : progress ≤ progress') :
    (standard : Curve ℝ).recordScore progress position cap requirement ≤
      (standard : Curve ℝ).recordScore progress' position cap requirement := by
  by_cases nothing : cap < position ∧ progress < 100
  · rw [recordScore_real, if_pos nothing]
    exact recordScore_nonneg
  · have something : ¬ (cap < position ∧ progress' < 100) :=
      fun outside => nothing ⟨outside.1, lt_of_le_of_lt h outside.2⟩
    rw [recordScore_real, recordScore_real, if_neg nothing, if_neg something]
    exact mul_le_mul_of_nonneg_left (partialCredit_mono h) (fullCredit_nonneg position)

theorem recordScore_eq_zero (outside : cap < position) (short : progress < 100) :
    (standard : Curve ℝ).recordScore progress position cap requirement = 0 := by
  rw [recordScore_real, if_pos ⟨outside, short⟩]

end Curve

end DemonBoard
