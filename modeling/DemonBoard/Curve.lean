import DemonBoard.Scalar

/-!
The score of a record. A completion earns the curve's value at the demon's position, a partial record
a fraction of it, and a record below the requirement, or a partial one outside the cap, earns nothing.
-/

namespace DemonBoard

/-- A piece of the curve, `a * b ^ (s - x) + c` up to the position `last`, or without end. -/
structure Segment (α : Type) where
  last : Option α
  a : α
  b : α
  s : α
  c : α

structure Curve (α : Type) where
  segments : List (Segment α)
  partialBase : α
  partialDivisor : α

/-- The last position at which partial records count. -/
def scoredWindow : Int := 75

namespace Segment

variable {α : Type} [Scalar α]

def value (g : Segment α) (x : α) : α := g.a * g.b ^ (g.s - x) + g.c

def Covers (g : Segment α) (lower x : α) : Prop := lower < x ∧ ∀ last ∈ g.last, x ≤ last

instance (g : Segment α) (lower x : α) : Decidable (g.Covers lower x) :=
  inferInstanceAs (Decidable (lower < x ∧ ∀ last ∈ g.last, x ≤ last))

end Segment

namespace Curve

variable {α : Type} [Scalar α]

def standard : Curve α where
  segments := [
    ⟨some 20.0, 149.61, 1.168, 1, 100.39⟩,
    ⟨some 35.0, 166.611, 1.0099685, 2.0, -31.152⟩,
    ⟨some 55.0, 212.61, 1.036, 1, 25.071⟩,
    ⟨none, 56.191, 2.0 ^ (Scalar.log 50.0 / 99.0 : α), 50.947, 6.273⟩]
  partialBase := 5.0
  partialDivisor := 10.0

/-- The value at `x` of the segments above `lower`: of those that cover `x` the last one counts, and
nothing follows an endless segment. -/
def creditAbove (lower credit x : α) : List (Segment α) → α
  | [] => credit
  | g :: rest =>
    let credit := if g.Covers lower x then g.value x else credit
    match g.last with
    | none => credit
    | some last => creditAbove last credit x rest

def fullCredit (curve : Curve α) (x : α) : α := creditAbove 0 0 x curve.segments

/-- The fraction of full credit that a record earns: it grows exponentially from the requirement on. -/
def partialCredit (curve : Curve α) (progress requirement : α) : α :=
  if 100.0 ≤ progress then 1
  else if progress < requirement then 0
  else curve.partialBase ^ ((progress - requirement) / (100.0 - requirement)) / curve.partialDivisor

def recordScore (curve : Curve α) (progress position cap requirement : α) : α :=
  if cap < position ∧ progress < 100.0 then 0
  else curve.fullCredit position * curve.partialCredit progress requirement

end Curve

end DemonBoard
