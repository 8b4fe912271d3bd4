import Mathlib.Data.Prod.Lex
import DemonBoard.Proofs.ExactScores

/-! The order of all that is defined. The values that are at most themselves are in a linear order, in exact arithmetic
as in floating point: a `Float` that is a number has a level, and `Float`s are compared as their levels are. -/

namespace DemonBoard

class Scalar.Linear (α : Type) [Scalar α] : Prop where
  defined_zero : Scalar.Defined (0 : α)
  defined_of_lt {x y : α} : x < y → Scalar.Defined x ∧ Scalar.Defined y
  lt_trans {x y z : α} : x < y → y < z → x < z
  not_lt_of_le {x y : α} : x ≤ y → ¬ y < x
  le_or_lt {x y : α} : Scalar.Defined x → Scalar.Defined y → x ≤ y ∨ y < x

instance : Scalar.Linear ℝ where
  defined_zero := le_refl (0 : ℝ)
  defined_of_lt {x y} _ := ⟨le_refl x, le_refl y⟩
  lt_trans := lt_trans
  not_lt_of_le := not_lt_of_ge
  le_or_lt {x y} _ _ := le_or_gt x y

namespace Binary64

open Float.Model Float.Model.UnpackedFloat

variable {u v : UnpackedFloat} {x y : Float}

/-- Infinities lie outside all other numbers and zeros between those of either sign. These go by exponent and then by
mantissa, away from zero. -/
def level : UnpackedFloat → Option (Int ×ₗ Int ×ₗ Int)
  | .notANumber => none
  | .infinity .negative => some (toLex (-2, toLex (0, 0)))
  | .finite .negative m e _ => some (toLex (-1, toLex (-e, -m)))
  | .zero _ => some (toLex (0, toLex (0, 0)))
  | .finite .positive m e _ => some (toLex (1, toLex (e, m)))
  | .infinity .positive => some (toLex (2, toLex (0, 0)))

theorem compare_cast (m m' : Nat) : compare (m : Int) m' = compare m m' := by
  cases order : compare m m' with
  | lt => exact Int.compare_eq_lt.2 (Int.ofNat_lt.2 (Nat.compare_eq_lt.1 order))
  | eq => exact Int.compare_eq_eq.2 (congrArg Nat.cast (Nat.compare_eq_eq.1 order))
  | gt => exact Int.compare_eq_gt.2 (Int.ofNat_lt.2 (Nat.compare_eq_gt.1 order))

theorem compare_neg (i j : Int) : compare (-i) (-j) = (compare i j).swap := by
  cases order : compare i j with
  | lt => exact Int.compare_eq_gt.2 (Int.neg_lt_neg (Int.compare_eq_lt.1 order))
  | eq => exact Int.compare_eq_eq.2 (congrArg Neg.neg (Int.compare_eq_eq.1 order))
  | gt => exact Int.compare_eq_lt.2 (Int.neg_lt_neg (Int.compare_eq_gt.1 order))

/-- What is no number compares with nothing, and numbers compare as their levels do. -/
theorem compare_eq_level (u v : UnpackedFloat) :
    u.compare v = (level u).bind fun a => (level v).map fun b => compare a b := by
  rcases u with (_ | _) | _ | _ | ⟨_ | _, m, e, pos⟩ <;>
    rcases v with (_ | _) | _ | _ | ⟨_ | _, m', e', pos'⟩ <;> try rfl
  -- only between finite numbers of one sign do exponents and mantissas matter
  case finite.negative.finite.negative =>
    change some ((compare e e').then (compare m m')).swap =
      some ((compare (-e) (-e')).then (compare (-(m : Int)) (-(m' : Int))))
    rw [Ordering.swap_then, compare_neg, compare_neg, compare_cast]
  case finite.positive.finite.positive =>
    change some ((compare e e').then (compare m m')) = some ((compare e e').then (compare (m : Int) m'))
    rw [compare_cast]

theorem lt_iff : x < y ↔ x.toModel.unpack.compare y.toModel.unpack = some .lt := by
  refine (decide_eq_true_iff (p := x.toModel < y.toModel)).trans ?_
  change (x.toModel.unpack.compare y.toModel.unpack == some .lt) = true ↔ _
  exact beq_iff_eq

theorem compare_eq_some_iff {order : Ordering} :
    u.compare v = some order ↔ ∃ a ∈ level u, ∃ b ∈ level v, compare a b = order := by
  rw [compare_eq_level, Option.bind_eq_some_iff]
  simp only [Option.map_eq_some_iff, Option.mem_def]

theorem lt_iff_level : x < y ↔ ∃ a ∈ level x.toModel.unpack, ∃ b ∈ level y.toModel.unpack, a < b := by
  rw [lt_iff, compare_eq_some_iff]
  constructor
  · rintro ⟨a, of_x, b, of_y, order⟩
    exact ⟨a, of_x, b, of_y, compare_lt_iff_lt.1 order⟩
  · rintro ⟨a, of_x, b, of_y, less⟩
    exact ⟨a, of_x, b, of_y, compare_lt_iff_lt.2 less⟩

theorem le_iff_level : x ≤ y ↔ ∃ a ∈ level x.toModel.unpack, ∃ b ∈ level y.toModel.unpack, a ≤ b := by
  refine (decide_eq_true_iff (p := x.toModel ≤ y.toModel)).trans ?_
  change (x.toModel.unpack.compare y.toModel.unpack).any (·.isLE) = true ↔ _
  rw [Option.any_eq_true]
  constructor
  · rintro ⟨order, compared, isLE⟩
    obtain ⟨a, of_x, b, of_y, rfl⟩ := compare_eq_some_iff.1 compared
    exact ⟨a, of_x, b, of_y, compare_le_iff_le.1 (Ordering.isLE_iff_ne_gt.1 isLE)⟩
  · rintro ⟨a, of_x, b, of_y, le⟩
    exact ⟨compare a b, compare_eq_some_iff.2 ⟨a, of_x, b, of_y, rfl⟩,
      Ordering.isLE_iff_ne_gt.2 (compare_le_iff_le.2 le)⟩

theorem defined_iff_level : Scalar.Defined x ↔ ∃ a, a ∈ level x.toModel.unpack := by
  constructor
  · intro defined
    obtain ⟨a, of_x, -⟩ := le_iff_level.1 defined
    exact ⟨a, of_x⟩
  · rintro ⟨a, of_x⟩
    exact le_iff_level.2 ⟨a, of_x, a, of_x, le_refl a⟩

end Binary64

open Binary64 in
instance : Scalar.Linear Float where
  defined_zero := defined_iff_level.2 ⟨_, rfl⟩
  defined_of_lt less := by
    obtain ⟨a, of_x, b, of_y, -⟩ := lt_iff_level.1 less
    exact ⟨defined_iff_level.2 ⟨a, of_x⟩, defined_iff_level.2 ⟨b, of_y⟩⟩
  lt_trans less less' := by
    obtain ⟨a, of_x, b, of_y, ab⟩ := lt_iff_level.1 less
    obtain ⟨b', of_y', c, of_z, bc⟩ := lt_iff_level.1 less'
    obtain rfl := Option.mem_unique of_y of_y'
    exact lt_iff_level.2 ⟨a, of_x, c, of_z, ab.trans bc⟩
  not_lt_of_le le less := by
    obtain ⟨a, of_x, b, of_y, ab⟩ := le_iff_level.1 le
    obtain ⟨b', of_y', a', of_x', ba⟩ := lt_iff_level.1 less
    obtain rfl := Option.mem_unique of_x of_x'
    obtain rfl := Option.mem_unique of_y of_y'
    exact not_lt_of_ge ab ba
  le_or_lt defined defined' := by
    obtain ⟨a, of_x⟩ := defined_iff_level.1 defined
    obtain ⟨b, of_y⟩ := defined_iff_level.1 defined'
    rcases le_or_gt a b with le | less
    · exact .inl (le_iff_level.2 ⟨a, of_x, b, of_y, le⟩)
    · exact .inr (lt_iff_level.2 ⟨b, of_y, a, of_x, less⟩)

end DemonBoard
