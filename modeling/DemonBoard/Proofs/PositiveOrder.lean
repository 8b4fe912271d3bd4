import Mathlib
import DemonBoard.Proofs.DefinedOrder

/-! The order of the scores that are ranked. Positive scores are in a strict order, in exact arithmetic as in
floating point: a positive `Float` is infinite or finite with a positive sign, so its level tells what it unpacks to,
and `Float`s that unpack to the same value are the same. -/

namespace DemonBoard

/-- Arithmetic in which the positive values are in a strict order, and nothing above one of them is not positive. -/
class Scalar.Ordered (α : Type) [Scalar α] : Prop where
  lt_irrefl {x : α} : 0 < x → ¬ x < x
  lt_trans {x y z : α} : 0 < x → x < y → y < z → x < z
  pos_of_lt {x y : α} : 0 < x → x < y → 0 < y
  trichotomy {x y : α} : 0 < x → 0 < y → x < y ∨ x = y ∨ y < x

instance : Scalar.Ordered ℝ where
  lt_irrefl _ := lt_irrefl _
  lt_trans _ := lt_trans
  pos_of_lt := lt_trans
  trichotomy _ _ := lt_trichotomy _ _

namespace Binary64

open Float.Model Float.Model.UnpackedFloat

variable {u v : UnpackedFloat} {x y : Float}

inductive Positive : UnpackedFloat → Prop
  | infinity : Positive (.infinity .positive)
  | finite (m : Nat) (e : Int) (pos : 0 < m) : Positive (.finite .positive m e pos)

theorem zero_below_iff : (UnpackedFloat.zero .positive).compare u = some .lt ↔ Positive u := by
  constructor
  · intro below
    cases u with
    | infinity s =>
      cases s with
      | positive => exact .infinity
      | negative => cases below
    | notANumber => cases below
    | zero s => cases below
    | finite s m e pos =>
      cases s with
      | positive => exact .finite m e pos
      | negative => cases below
  · intro positive
    cases positive <;> rfl

theorem eq_of_unpack (same : x.toModel.unpack = y.toModel.unpack) : x = y := by
  apply Float.toBits_inj.1
  apply UInt64.toBitVec_inj.1
  exact (unpack_inj_of_valid x.toModel.valid y.toModel.valid).1 same

theorem zero_lt_iff : 0 < x ↔ Positive x.toModel.unpack := by
  rw [lt_iff]
  exact zero_below_iff

theorem Positive.eq_of_level (h : Positive u) (h' : Positive v) (same : level u = level v) : u = v := by
  cases h with
  | infinity =>
    cases h' with
    | infinity => rfl
    | finite m' e' pos' => cases same
  | finite m e pos =>
    cases h' with
    | infinity => cases same
    | finite m' e' pos' =>
      cases same
      rfl

end Binary64

open Scalar.Linear Binary64 in
instance : Scalar.Ordered Float where
  lt_irrefl pos := not_lt_of_le (defined_of_lt pos).2
  lt_trans _ := Scalar.Linear.lt_trans
  pos_of_lt := Scalar.Linear.lt_trans
  trichotomy {x y} pos pos' := by
    have number := (defined_of_lt pos).2
    have number' := (defined_of_lt pos').2
    rcases le_or_lt number number' with le | more
    · rcases le_or_lt number' number with ge | less
      · obtain ⟨a, of_x, b, of_y, ab⟩ := le_iff_level.1 le
        obtain ⟨b', of_y', a', of_x', ba⟩ := le_iff_level.1 ge
        obtain rfl := Option.mem_unique of_x of_x'
        obtain rfl := Option.mem_unique of_y of_y'
        obtain rfl := le_antisymm ab ba
        have same : level x.toModel.unpack = level y.toModel.unpack := of_x.trans of_y.symm
        exact .inr (.inl (eq_of_unpack ((zero_lt_iff.1 pos).eq_of_level (zero_lt_iff.1 pos') same)))
      · exact .inl less
    · exact .inr (.inr more)

end DemonBoard
