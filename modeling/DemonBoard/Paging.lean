/-!
Slices of a list. A bound counts from the front, or from the end if it is negative, and a bound
outside the list stands for its nearer end.
-/

namespace DemonBoard.Paging

def place (length : Nat) (bound : Int) : Nat :=
  if bound < 0 then (length + bound).toNat else min bound.toNat length

theorem place_natCast (length bound : Nat) : place length bound = min bound length := by
  have : ¬ (bound : Int) < 0 := by omega
  simp [place, this]

def slice {β : Type} (start stop : Int) (xs : List β) : List β :=
  let first := place xs.length start
  (xs.drop first).take (place xs.length stop - first)

/-- A page is `limit` items from `offset` on, or all of them when there is no limit. -/
def page {β : Type} (offset : Int) (limit : Option Int) (xs : List β) : List β :=
  match limit with
  | some limit => slice offset (offset + limit) xs
  | none => xs.drop (place xs.length offset)

theorem page_of_nonneg {β : Type} (offset limit : Nat) (xs : List β) :
    page offset (some limit) xs = (xs.drop offset).take limit := by
  simp only [page, slice, ← Int.natCast_add, place_natCast]
  by_cases h : offset ≤ xs.length
  · rw [Nat.min_eq_left h]
    by_cases hl : offset + limit ≤ xs.length
    · rw [Nat.min_eq_left hl, Nat.add_sub_cancel_left]
    · rw [Nat.min_eq_right (by omega), List.take_of_length_le (by simp),
        List.take_of_length_le (by simp; omega)]
  · rw [List.drop_eq_nil_of_le (by omega), List.drop_eq_nil_of_le (by omega)]
    simp

end DemonBoard.Paging
