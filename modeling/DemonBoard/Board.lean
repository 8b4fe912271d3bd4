import DemonBoard.Scalar
import DemonBoard.Table

/-!
Boards. For each scope the totals of its entities are kept together with the standings that were
computed from them. Two pools count side by side: the rated one counts rated demons only, the unrated
one counts every demon.
-/

namespace DemonBoard

inductive Pool where
  | rated
  | unrated
  deriving DecidableEq

structure Totals (α : Type) where
  score : α
  unratedScore : α
  deriving DecidableEq

namespace Totals

variable {α : Type}

def inPool (t : Totals α) : Pool → α
  | .rated => t.score
  | .unrated => t.unratedScore

def zero [Scalar α] : Totals α := ⟨0, 0⟩

end Totals

/-- A rank, which tied entities share, and a display index, which they do not. Both count from 1. -/
structure Placement where
  rank : Nat
  index : Nat
  deriving DecidableEq

/-- An entity's place in each pool, none where its total there is not positive. -/
structure Standing where
  rated : Option Placement
  unrated : Option Placement
  deriving DecidableEq

namespace Standing

def inPool (s : Standing) : Pool → Option Placement
  | .rated => s.rated
  | .unrated => s.unrated

def isRanked (s : Standing) : Bool := s.rated.isSome || s.unrated.isSome

end Standing

/-- The stored totals and standings of one scope. -/
structure Board (κ α : Type) [Ord κ] where
  totals : Table κ (Totals α)
  ranks : Table κ Standing

namespace Board

variable {κ α : Type} [Ord κ]

def empty : Board κ α := ⟨Table.empty, Table.empty⟩

variable [DecidableEq κ] [Scalar α]

def total (b : Board κ α) (k : κ) : Totals α := (b.totals.find? k).getD Totals.zero

/-- A new entity starts from zero. -/
def enter [Std.TransOrd κ] [Std.LawfulEqOrd κ] (b : Board κ α) (k : κ) : Board κ α :=
  { b with totals := (b.totals.insert? k Totals.zero).getD b.totals }

def amend (b : Board κ α) (k : κ) (f : Totals α → Totals α) : Board κ α :=
  { b with totals := b.totals.modify k f }

end Board

end DemonBoard
