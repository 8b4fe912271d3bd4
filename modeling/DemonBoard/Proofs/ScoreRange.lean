import DemonBoard.Proofs.FallingCurve
import DemonBoard.Proofs.PositiveScores

/-! How much a record can score. Of the full credit at a position a completion earns all, partial progress that counts
at least a tenth and less than a half, and everything else nothing. -/

namespace DemonBoard

/-- Exact arithmetic with a division of its own, which need not follow any rule where the divisor is zero. -/
@[reducible] noncomputable def Scalar.dividing (divide : ℝ → ℝ → ℝ) : Scalar ℝ :=
  { (inferInstance : Scalar ℝ) with div := divide }

namespace Curve

variable {progress requirement position cap : ℝ}

theorem partialCredit_of_partial (reached : requirement ≤ progress) (short : progress < 100) :
    (standard : Curve ℝ).partialCredit progress requirement =
      5 ^ ((progress - requirement) / (100 - requirement)) / 10 := by
  rw [partialCredit_real, if_neg (not_le.2 short), if_neg (not_lt.2 reached)]

theorem tenth_le_partialCredit (reached : requirement ≤ progress) (short : progress < 100) :
    1 / 10 ≤ (standard : Curve ℝ).partialCredit progress requirement := by
  have ratio : 0 ≤ (progress - requirement) / (100 - requirement) := div_nonneg (by linarith) (by linarith)
  have power : (1 : ℝ) ≤ 5 ^ ((progress - requirement) / (100 - requirement)) :=
    Real.one_le_rpow (by norm_num) ratio
  rw [partialCredit_of_partial reached short]
  linarith

theorem partialCredit_lt_half (reached : requirement ≤ progress) (short : progress < 100) :
    (standard : Curve ℝ).partialCredit progress requirement < 1 / 2 := by
  have ratio : (progress - requirement) / (100 - requirement) < 1 := by
    rw [div_lt_one (by linarith)]
    linarith
  have power := Real.rpow_lt_rpow_of_exponent_lt (show (1 : ℝ) < 5 by norm_num) ratio
  rw [Real.rpow_one] at power
  rw [partialCredit_of_partial reached short]
  linarith

theorem partialCredit_eq_tenth_iff (reached : requirement ≤ progress) (short : progress < 100) :
    (standard : Curve ℝ).partialCredit progress requirement = 1 / 10 ↔ progress = requirement := by
  have room : 100 - requirement ≠ 0 := by linarith
  rw [partialCredit_of_partial reached short]
  constructor
  · intro least
    have power : (5 : ℝ) ^ ((progress - requirement) / (100 - requirement)) = 5 ^ (0 : ℝ) := by
      rw [Real.rpow_zero]
      linarith
    have ratio := (Real.rpow_right_inj (by norm_num) (by norm_num)).1 power
    rw [div_eq_zero_iff, or_iff_left room] at ratio
    exact sub_eq_zero.1 ratio
  · rintro rfl
    rw [sub_self, zero_div, Real.rpow_zero]

theorem recordScore_eq_zero_iff (bounded : requirement ≤ 100) (listed : 0 < position) :
    (standard : Curve ℝ).recordScore progress position cap requirement = 0 ↔
      progress < requirement ∨ cap < position ∧ progress < 100 := by
  have positive : 0 < (standard : Curve ℝ).recordScore progress position cap requirement ↔
      100 ≤ progress ∨ position ≤ cap ∧ requirement ≤ progress := recordScore_pos_iff listed
  rw [recordScore_nonneg.lt_iff_ne', ne_eq] at positive
  rw [← not_iff_not, positive, not_or, not_and_or, not_lt, not_lt, not_lt]
  constructor
  · rintro (complete | ⟨inside, reached⟩)
    · exact ⟨bounded.trans complete, .inr complete⟩
    · exact ⟨reached, .inl inside⟩
  · rintro ⟨reached, inside | complete⟩
    · exact .inr ⟨inside, reached⟩
    · exact .inl complete

theorem recordScore_of_inside (inside : position ≤ cap) :
    (standard : Curve ℝ).recordScore progress position cap requirement =
      (standard : Curve ℝ).fullCredit position * (standard : Curve ℝ).partialCredit progress requirement := by
  rw [recordScore_real, if_neg fun outside => not_lt.2 inside outside.1]

theorem recordScore_lt_half (listed : 0 < position) (short : progress < 100) :
    (standard : Curve ℝ).recordScore progress position cap requirement <
      (standard : Curve ℝ).fullCredit position / 2 := by
  have full := fullCredit_pos listed
  by_cases outside : cap < position
  · rw [recordScore_eq_zero outside short]
    linarith
  · rw [recordScore_of_inside (not_lt.1 outside)]
    by_cases below : progress < requirement
    · rw [partialCredit_real, if_neg (not_le.2 short), if_pos below]
      linarith
    · have share := mul_lt_mul_of_pos_left (partialCredit_lt_half (not_lt.1 below) short) full
      linarith

theorem recordScore_eq_fullCredit_iff (top : progress ≤ 100) (listed : 0 < position) :
    (standard : Curve ℝ).recordScore progress position cap requirement = (standard : Curve ℝ).fullCredit position ↔
      progress = 100 := by
  constructor
  · intro all
    by_contra other
    have full := fullCredit_pos listed
    have half : (standard : Curve ℝ).recordScore progress position cap requirement < _ :=
      recordScore_lt_half listed (top.lt_of_ne other)
    linarith
  · rintro rfl
    exact recordScore_complete

theorem partialCredit_dividing {divide : ℝ → ℝ → ℝ} (agrees : ∀ x y, y ≠ 0 → divide x y = x / y) :
    @partialCredit ℝ (.dividing divide) standard progress requirement =
      (standard : Curve ℝ).partialCredit progress requirement := by
  unfold partialCredit
  change (if (100.0 : ℝ) ≤ progress then (1 : ℝ) else if progress < requirement then 0
    else divide (5.0 ^ divide (progress - requirement) (100.0 - requirement)) 10.0) = _
  split
  · rfl
  · split
    · rfl
    · rename_i short reached
      have room : 100.0 - requirement ≠ 0 := by linarith
      have ten : (10.0 : ℝ) ≠ 0 := by norm_num
      rw [agrees _ _ room, agrees _ _ ten]
      rfl

/-- What a division by zero gives never shows in a score. -/
theorem recordScore_dividing {divide : ℝ → ℝ → ℝ} (agrees : ∀ x y, y ≠ 0 → divide x y = x / y) :
    @recordScore ℝ (.dividing divide) standard progress position cap requirement =
      (standard : Curve ℝ).recordScore progress position cap requirement :=
  congrArg (fun credit : ℝ => if cap < position ∧ progress < (100.0 : ℝ) then (0 : ℝ)
    else (standard : Curve ℝ).fullCredit position * credit) (partialCredit_dividing agrees)

/-- The range of a score: nothing below the requirement or for partial progress beyond the cap, the full credit for a
completion, and else at least a tenth of it and less than a half. A division by zero never shows. -/
theorem recordScore_range (top : progress ≤ 100) (bounded : requirement ≤ 100) (listed : 0 < position) :
    let full := (standard : Curve ℝ).fullCredit position
    let score := (standard : Curve ℝ).recordScore progress position cap requirement
    0 < full ∧ 0 ≤ score ∧ score ≤ full ∧
    (score = 0 ↔ progress < requirement ∨ cap < position ∧ progress < 100) ∧
    (score = full ↔ progress = 100) ∧
    (score ≠ 0 → score ≠ full → full / 10 ≤ score ∧ score < full / 2 ∧ (score = full / 10 ↔ progress = requirement)) ∧
    ∀ divide : ℝ → ℝ → ℝ, (∀ x y, y ≠ 0 → divide x y = x / y) →
      @recordScore ℝ (.dividing divide) standard progress position cap requirement = score := by
  intro full score
  have positive : 0 < full := fullCredit_pos listed
  have zero : score = 0 ↔ progress < requirement ∨ cap < position ∧ progress < 100 :=
    recordScore_eq_zero_iff bounded listed
  have all : score = full ↔ progress = 100 := recordScore_eq_fullCredit_iff top listed
  refine ⟨positive, recordScore_nonneg, ?_, zero, all, ?_, fun _ => recordScore_dividing⟩
  · rcases top.eq_or_lt with complete | short
    · exact (all.2 complete).le
    · have half : score < full / 2 := recordScore_lt_half listed short
      linarith
  · intro something part
    rw [ne_eq, zero, not_or, not_and_or, not_lt, not_lt, not_lt] at something
    have short : progress < 100 := top.lt_of_ne (mt all.2 part)
    obtain ⟨reached, inside | complete⟩ := something
    · have share : score = full * (standard : Curve ℝ).partialCredit progress requirement :=
        recordScore_of_inside inside
      have least := mul_le_mul_of_nonneg_left (tenth_le_partialCredit reached short) positive.le
      refine ⟨by linarith, recordScore_lt_half listed short, ?_⟩
      rw [← partialCredit_eq_tenth_iff reached short, share, div_eq_mul_one_div, mul_right_inj' positive.ne']
    · exact absurd complete (not_le.2 short)

/-- On the top demon the requirement of 60 is worth a tenth of 250, and of one that asks for a completion nothing less
counts, even if everything divided by zero were 7. -/
theorem recordScore_range_at_requirement :
    let divide (x y : ℝ) : ℝ := if y = 0 then 7 else x / y
    (standard : Curve ℝ).recordScore 60 1 75 60 = 25 ∧
    (standard : Curve ℝ).recordScore 99 1 75 100 = 0 ∧
    @recordScore ℝ (.dividing divide) standard 100 1 75 100 = 250 := by
  intro divide
  obtain ⟨-, -, -, zero, all, part, -⟩ := @recordScore_range 60 60 1 75 (by norm_num) (by norm_num) one_pos
  obtain ⟨-, -, -, nothing, -, -, -⟩ := @recordScore_range 99 100 1 75 (by norm_num) (le_refl 100) one_pos
  obtain ⟨-, -, -, -, complete, -, masked⟩ := @recordScore_range 100 100 1 75 (le_refl 100) (le_refl 100) one_pos
  refine ⟨?_, nothing.2 (.inl (by norm_num)), ?_⟩
  · have something := mt zero.1 (by norm_num)
    have notAll := mt all.1 (by norm_num)
    rw [(part something notAll).2.2.2 rfl, fullCredit_one]
    norm_num
  · rw [masked divide fun x y nonzero => if_neg nonzero, complete.2 rfl, fullCredit_one]

end Curve

end DemonBoard
