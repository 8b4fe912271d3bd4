import DemonBoard.Proofs.DefinedOrder

/-! The segment that counts. The walk along a curve goes on from the end of each segment and stops behind an endless
one. Where the ends ascend, a position lies in the interval of one segment at most, the first that reaches it, and the
curve has the value of that segment there. -/

namespace DemonBoard

variable {α : Type} [Scalar α]

namespace Segment

variable {g g' : Segment α} {lower x : α}

def Reaches (g : Segment α) (x : α) : Prop := ∀ last ∈ g.last, x ≤ last

instance (g : Segment α) (x : α) : Decidable (g.Reaches x) :=
  inferInstanceAs (Decidable (∀ last ∈ g.last, x ≤ last))

theorem covers_congr (same : g'.last = g.last) : g'.Covers lower x ↔ g.Covers lower x := by
  rw [Covers, Covers, same]

end Segment

namespace Curve

variable {g g' : Segment α} {front rest segments : List (Segment α)} {lower start last credit x : α}

/-- The ends of the segments ascend from a position on, up to the first segment without end. -/
def Climbs : α → List (Segment α) → Prop
  | _, [] => True
  | lower, g :: rest => ∀ last ∈ g.last, lower < last ∧ Climbs last rest

instance decidableClimbs : (lower : α) → (segments : List (Segment α)) → Decidable (Climbs lower segments)
  | _, [] => isTrue trivial
  | lower, g :: rest =>
    have (last : α) : Decidable (Climbs last rest) := decidableClimbs last rest
    inferInstanceAs (Decidable (∀ last ∈ g.last, lower < last ∧ Climbs last rest))

/-- Where the segment behind some others starts: at the end of the one before it. None starts behind an endless one. -/
def startAfter (lower : α) : List (Segment α) → Option α
  | [] => some lower
  | g :: rest => g.last.bind fun last => startAfter last rest

def Within (front : List (Segment α)) (g : Segment α) (x : α) : Prop := ∃ start ∈ startAfter 0 front, g.Covers start x

theorem creditAbove_append (lower credit x : α) (front rest : List (Segment α)) :
    creditAbove lower credit x (front ++ rest) =
      match startAfter lower front with
      | none => creditAbove lower credit x front
      | some start => creditAbove start (creditAbove lower credit x front) x rest := by
  induction front generalizing lower credit with
  | nil => rfl
  | cons g front ih =>
    rw [List.cons_append, creditAbove, creditAbove, startAfter]
    cases g.last with
    | none => rfl
    | some last => exact ih _ _

theorem creditAbove_behind_endless (endless : g.last = none) :
    creditAbove lower credit x (front ++ g :: rest) = creditAbove lower credit x (front ++ [g]) := by
  rw [creditAbove_append, creditAbove_append]
  cases startAfter lower front with
  | none => rfl
  | some start =>
    dsimp only
    rw [creditAbove, creditAbove, endless]

/-- Outside its interval a segment matters by its end alone. -/
theorem creditAbove_replace (same : g'.last = g.last) (outside : ∀ start ∈ startAfter lower front, ¬ g.Covers start x) :
    creditAbove lower credit x (front ++ g' :: rest) = creditAbove lower credit x (front ++ g :: rest) := by
  rw [creditAbove_append, creditAbove_append]
  cases starts : startAfter lower front with
  | none => rfl
  | some start =>
    have uncovered : ¬ g.Covers start x := outside start starts
    dsimp only
    rw [creditAbove, creditAbove, if_neg uncovered, if_neg (mt (Segment.covers_congr same).1 uncovered), same]

theorem Climbs.of_append (climbs : Climbs lower (front ++ rest)) (starts : start ∈ startAfter lower front) :
    Climbs start rest := by
  induction front generalizing lower with
  | nil => exact Option.some_inj.1 starts ▸ climbs
  | cons g front ih =>
    obtain ⟨last, ends, starts⟩ := Option.bind_eq_some_iff.1 starts
    exact ih (climbs last ends).2 starts

variable [Scalar.Linear α]

open Scalar.Linear

theorem creditAbove_of_not_lt (climbs : Climbs lower segments) (below : ¬ lower < x) :
    creditAbove lower credit x segments = credit := by
  induction segments generalizing lower with
  | nil => rfl
  | cons g rest ih =>
    have uncovered : ¬ g.Covers lower x := fun covers => below covers.1
    unfold creditAbove
    rw [if_neg uncovered]
    cases ends : g.last with
    | none => rfl
    | some last =>
      obtain ⟨further, climbs⟩ := climbs last ends
      exact ih climbs fun above => below (lt_trans further above)

theorem creditAbove_of_reaches (climbs : Climbs lower (g :: rest)) (above : lower < x) (reaches : g.Reaches x) :
    creditAbove lower credit x (g :: rest) = g.value x := by
  have covered : g.Covers lower x := ⟨above, reaches⟩
  unfold creditAbove
  rw [if_pos covered]
  cases ends : g.last with
  | none => rfl
  | some last => exact creditAbove_of_not_lt (climbs last ends).2 (not_lt_of_le (reaches last ends))

theorem creditAbove_of_ends (ends : g.last = some last) (beyond : last < x) :
    creditAbove lower credit x (g :: rest) = creditAbove last credit x rest := by
  have uncovered : ¬ g.Covers lower x := fun covers => not_lt_of_le (covers.2 last ends) beyond
  rw [creditAbove, if_neg uncovered, ends]

theorem exists_end_of_not_reaches (climbs : Climbs lower (g :: rest)) (number : Scalar.Defined x)
    (short : ¬ g.Reaches x) : ∃ last, g.last = some last ∧ last < x := by
  unfold Segment.Reaches at short
  push Not at short
  obtain ⟨last, ends, notWithin⟩ := short
  have defined := (defined_of_lt (climbs last ends).1).2
  exact ⟨last, ends, (le_or_lt number defined).resolve_left notWithin⟩

/-- The first segment that reaches a position decides on it. -/
theorem creditAbove_eq_first (climbs : Climbs lower segments) (above : lower < x) :
    creditAbove lower credit x segments =
      ((segments.find? fun g => g.Reaches x).map fun g => g.value x).getD credit := by
  induction segments generalizing lower with
  | nil => rfl
  | cons g rest ih =>
    by_cases reaches : g.Reaches x
    · have first : ((g :: rest).find? fun g => g.Reaches x) = some g := List.find?_cons_of_pos (decide_eq_true reaches)
      rw [creditAbove_of_reaches climbs above reaches, first]
      rfl
    · obtain ⟨last, ends, beyond⟩ := exists_end_of_not_reaches climbs (defined_of_lt above).2 reaches
      have later : ((g :: rest).find? fun g => g.Reaches x) = rest.find? fun g => g.Reaches x :=
        List.find?_cons_of_neg (by simpa using reaches)
      -- the position is above the end, so the rest of the walk decides as if it were the whole
      rw [creditAbove_of_ends ends beyond, later]
      exact ih (climbs last ends).2 beyond

theorem creditAbove_of_covers (climbs : Climbs lower (front ++ g :: rest)) (starts : start ∈ startAfter lower front)
    (covers : g.Covers start x) : creditAbove lower credit x (front ++ g :: rest) = g.value x := by
  rw [creditAbove_append, Option.mem_def.1 starts]
  exact creditAbove_of_reaches (climbs.of_append starts) covers.1 covers.2

variable {curve : Curve α}

/-- On a curve whose ends ascend from 0, a position has the value of the first segment that reaches it, or nothing if
none does. Behind an endless segment, and outside of its interval but for its end, a segment can be any. -/
theorem fullCredit_selects_segment (climbs : Climbs 0 curve.segments) (number : Scalar.Defined x) :
    (curve.fullCredit x = if x ≤ 0 then 0
      else ((curve.segments.find? fun g => g.Reaches x).map fun g => g.value x).getD 0) ∧
    ∀ front g rest, curve.segments = front ++ g :: rest →
      (g.last = none → ∀ others, { curve with segments := front ++ g :: others }.fullCredit x = curve.fullCredit x) ∧
      (Within front g x → curve.fullCredit x = g.value x) ∧
      (¬ Within front g x → ∀ g' : Segment α, g'.last = g.last →
        { curve with segments := front ++ g' :: rest }.fullCredit x = curve.fullCredit x) := by
  refine ⟨?_, ?_⟩
  · split
    · rename_i notAbove
      exact creditAbove_of_not_lt climbs (not_lt_of_le notAbove)
    · rename_i above
      exact creditAbove_eq_first climbs ((le_or_lt number defined_zero).resolve_left above)
  · intro front g rest parts
    have walk : curve.fullCredit x = creditAbove 0 0 x (front ++ g :: rest) := congrArg (creditAbove 0 0 x) parts
    rw [parts] at climbs
    refine ⟨?_, ?_, ?_⟩
    · intro endless others
      rw [walk, creditAbove_behind_endless endless]
      exact creditAbove_behind_endless endless
    · rintro ⟨start, starts, covers⟩
      rw [walk]
      exact creditAbove_of_covers climbs starts covers
    · intro outside g' same
      rw [walk]
      exact creditAbove_replace same fun start starts covers => outside ⟨start, starts, covers⟩

/-- Four segments of which the third is endless: the second has the positions above 2 and up to 5, the third all further
ones, and the fourth none, though its end is further on. Where the second ends decides at 7, but not what it is worth.
Without the last two segments nothing is left there. -/
theorem fullCredit_selects_segment_of_four :
    let first : Segment Float := ⟨some 2, 1, 1.5, 1, 10⟩
    let second : Segment Float := ⟨some 5, 2, 1.25, 1, 4⟩
    let third : Segment Float := ⟨none, 3, 1.5, 6, 1⟩
    let fourth : Segment Float := ⟨some 9, 4, 2, 1, 0⟩
    let curve : Curve Float := ⟨[first, second, third, fourth], 5, 10⟩
    curve.fullCredit 0 = 0 ∧ curve.fullCredit 2 = first.value 2 ∧ curve.fullCredit 2.5 = second.value 2.5 ∧
    curve.fullCredit 7 = third.value 7 ∧
    { curve with segments := [first, second, third] }.fullCredit 7 = curve.fullCredit 7 ∧
    { curve with segments := [first, ⟨some 5, 0, 0, 0, 9⟩, third, fourth] }.fullCredit 7 = curve.fullCredit 7 ∧
    { curve with segments := [first, second] }.fullCredit 7 = 0 := by
  intro first second third fourth curve
  have climbs : Climbs 0 curve.segments := by decide +kernel
  have climbs' : Climbs 0 { curve with segments := [first, second] }.segments := by decide +kernel
  obtain ⟨nothing, -⟩ := fullCredit_selects_segment (x := 0) climbs (by decide +kernel)
  obtain ⟨-, at_two⟩ := fullCredit_selects_segment (x := 2) climbs (by decide +kernel)
  obtain ⟨-, behind_two⟩ := fullCredit_selects_segment (x := 2.5) climbs (by decide +kernel)
  obtain ⟨-, at_seven⟩ := fullCredit_selects_segment (x := 7) climbs (by decide +kernel)
  obtain ⟨unreached, -⟩ := fullCredit_selects_segment (x := 7) climbs' (by decide +kernel)
  obtain ⟨endless, third_at_seven, -⟩ := at_seven [first, second] third [fourth] rfl
  refine ⟨?_, ?_, ?_, ?_, endless rfl [], ?_, ?_⟩
  · rw [nothing, if_pos (by decide +kernel)]
  · exact (at_two [] first [second, third, fourth] rfl).2.1 ⟨0, rfl, by decide +kernel⟩
  · exact (behind_two [first] second [third, fourth] rfl).2.1 ⟨2, rfl, by decide +kernel⟩
  · exact third_at_seven ⟨5, rfl, by decide +kernel⟩
  · refine (at_seven [first] second [third, fourth] rfl).2.2 ?_ _ rfl
    rintro ⟨start, starts, covers⟩
    obtain rfl : 2 = start := Option.some_inj.1 starts
    exact absurd covers (by decide +kernel)
  · have none_reaches : ([first, second].find? fun g => g.Reaches 7) = none :=
      List.find?_eq_none.2 (by decide +kernel)
    rw [unreached, if_neg (by decide +kernel), none_reaches]
    rfl

end Curve

end DemonBoard
