/-!
Stable sorting by insertion. For a total and transitive order the result is in order, and items that
are equal in it stay as they stood.
-/

namespace DemonBoard

variable {β : Type}

/-- Puts an item before the first one that may follow it. -/
def insertBy (le : β → β → Bool) (x : β) : List β → List β
  | [] => [x]
  | y :: ys => if le x y then x :: y :: ys else y :: insertBy le x ys

def sortBy (le : β → β → Bool) : List β → List β
  | [] => []
  | x :: xs => insertBy le x (sortBy le xs)

theorem insertBy_perm (le : β → β → Bool) (x : β) (xs : List β) : (insertBy le x xs).Perm (x :: xs) := by
  induction xs with
  | nil => exact List.Perm.refl _
  | cons y ys ih =>
    unfold insertBy
    split
    · exact List.Perm.refl _
    · exact (ih.cons y).trans (List.Perm.swap x y ys)

theorem sortBy_perm (le : β → β → Bool) (xs : List β) : (sortBy le xs).Perm xs := by
  induction xs with
  | nil => exact List.Perm.refl _
  | cons x xs ih => exact (insertBy_perm le x _).trans (ih.cons x)

theorem mem_sortBy {le : β → β → Bool} {x : β} {xs : List β} : x ∈ sortBy le xs ↔ x ∈ xs :=
  (sortBy_perm le xs).mem_iff

theorem pairwise_insertBy {le : β → β → Bool} (trans : ∀ a b c, le a b → le b c → le a c)
    (total : ∀ a b, le a b || le b a) (x : β) {xs : List β} (h : xs.Pairwise fun a b => le a b) :
    (insertBy le x xs).Pairwise fun a b => le a b := by
  induction xs with
  | nil => simp [insertBy]
  | cons y ys ih =>
    obtain ⟨first, later⟩ := List.pairwise_cons.1 h
    unfold insertBy
    split
    · rename_i hxy
      refine List.pairwise_cons.2 ⟨fun z hz => ?_, h⟩
      rcases List.mem_cons.1 hz with rfl | hz
      · exact hxy
      · exact trans x y z hxy (first z hz)
    · rename_i hxy
      refine List.pairwise_cons.2 ⟨fun z hz => ?_, ih later⟩
      rcases List.mem_cons.1 ((insertBy_perm le x ys).mem_iff.1 hz) with rfl | hz
      · have := total z y
        simp_all
      · exact first z hz

theorem pairwise_sortBy {le : β → β → Bool} (trans : ∀ a b c, le a b → le b c → le a c)
    (total : ∀ a b, le a b || le b a) (xs : List β) : (sortBy le xs).Pairwise fun a b => le a b := by
  induction xs with
  | nil => exact List.Pairwise.nil
  | cons x xs ih => exact pairwise_insertBy trans total x ih

theorem sortBy_of_pairwise {le : β → β → Bool} {xs : List β} (h : xs.Pairwise fun a b => le a b) :
    sortBy le xs = xs := by
  induction xs with
  | nil => rfl
  | cons x xs ih =>
    obtain ⟨first, later⟩ := List.pairwise_cons.1 h
    rw [sortBy, ih later]
    cases xs with
    | nil => rfl
    | cons y ys => simp [insertBy, first y (by simp)]

def sortWith (cmp : β → β → Ordering) (xs : List β) : List β := sortBy (fun a b => (cmp a b).isLE) xs

theorem sortWith_perm (cmp : β → β → Ordering) (xs : List β) : (sortWith cmp xs).Perm xs := sortBy_perm _ xs

theorem pairwise_sortWith (cmp : β → β → Ordering) [Std.TransCmp cmp] (xs : List β) :
    (sortWith cmp xs).Pairwise fun a b => (cmp a b).isLE :=
  pairwise_sortBy (fun _ _ _ => Std.TransCmp.isLE_trans) (fun a b => by
    have swapped : cmp a b = (cmp b a).swap := Std.OrientedCmp.eq_swap
    rw [swapped]
    cases cmp b a <;> rfl) xs

def sortOn (key : β → Int) (xs : List β) : List β := sortBy (fun a b => decide (key a ≤ key b)) xs

theorem sortOn_perm (key : β → Int) (xs : List β) : (sortOn key xs).Perm xs := sortBy_perm _ xs

theorem pairwise_sortOn (key : β → Int) (xs : List β) :
    (sortOn key xs).Pairwise fun a b => key a ≤ key b := by
  have trans (a b c : β) (hab : decide (key a ≤ key b)) (hbc : decide (key b ≤ key c)) :
      decide (key a ≤ key c) = true := by
    simp only [decide_eq_true_eq] at *
    omega
  have total (a b : β) : (decide (key a ≤ key b) || decide (key b ≤ key a)) = true := by
    simp only [Bool.or_eq_true, decide_eq_true_eq]
    omega
  exact (pairwise_sortBy trans total xs).imp of_decide_eq_true

end DemonBoard
