/-!
The arithmetic that scores are computed in. Every rule of the board is written over a `Scalar`, so
one definition serves floating point, which runs, and exact numbers, in which laws are stated.
-/

namespace DemonBoard

class Scalar (α : Type) extends
    Zero α, One α, Add α, Neg α, Sub α, Mul α, Div α, Pow α α, LT α, LE α, IntCast α, OfScientific α where
  log : α → α
  decideLT : DecidableLT α
  decideLE : DecidableLE α

namespace Scalar

instance (α : Type) [Scalar α] : DecidableLT α := decideLT

instance (α : Type) [Scalar α] : DecidableLE α := decideLE

variable {α : Type} [Scalar α]

/-- An undefined result of floating arithmetic is the one value that is not at most itself. -/
def Defined (x : α) : Prop := x ≤ x

instance (x : α) : Decidable (Defined x) := inferInstanceAs (Decidable (x ≤ x))

def orZero (x : α) : α := if Defined x then x else 0

/-- Undefined terms are left out of a sum. It is taken from the left, one rounding a term; a compensated or pairwise
sum may differ from it in the last digits of a float. -/
def sum (xs : List α) : α := xs.foldl (fun acc x => if Defined x then acc + x else acc) 0

end Scalar

instance : Scalar Float where
  zero := 0
  one := 1
  pow := Float.pow
  intCast := Float.ofInt
  log := Float.log
  decideLT := inferInstance
  decideLE := inferInstance

end DemonBoard
