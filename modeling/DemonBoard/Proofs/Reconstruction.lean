import DemonBoard.Proofs.Backdating
import DemonBoard.Proofs.LoggedValues
import Mathlib.Data.List.Perm.Subperm

/-! Reconstruction from any demons and any log of them. The list at a moment does not depend on the order of the rows
it is made of. It has the demons that count as listed, every field of them as the log tells it, and it cannot be made
exactly if the log leaves one of them without a position or puts two of them at the same. It can have gaps. -/

namespace DemonBoard

def DemonState.get (s : DemonState) : FieldValues
  | .name => some s.name
  | .position => some s.position
  | .requirement => some s.requirement
  | .video => s.video
  | .verifier => some s.verifierId
  | .publisher => some s.publisherId
  | .rated => some s.rated

namespace History

variable {demons demons' : List (Int × Demon)} {added added' : List Int} {entries entries' ordered : Entries}
  {moment : Moment} {states states' : List DemonState} {s : DemonState} {id : Int} {d : Demon} {p : Int}

/-- A demon counts as listed just before a moment. -/
structure Included (added : List Int) (moment : Moment) (id : Int) (d : Demon) : Prop where
  old : id ∉ added
  created : d.createdAt < moment
  remained : ∀ r ∈ d.removedAt, moment ≤ r

theorem included_iff : Included added moment id d ↔ wasListed added moment id d = true := by
  simp only [wasListed, Bool.and_eq_true, Bool.not_eq_true', decide_eq_true_eq, Option.all_eq_true]
  rw [← Bool.not_eq_true, List.contains_iff_mem, and_assoc]
  constructor
  · exact fun h => ⟨h.old, h.created, h.remained⟩
  · rintro ⟨old, created, remained⟩
    exact ⟨old, created, remained⟩

theorem get_of_stateBefore? (h : stateBefore? ordered id d = some s) :
    s.id = id ∧ s.currentPosition = d.position ∧ ∀ f, s.get f = valueBefore ordered id d f := by
  have present {f : Field} {value : f.Value} (stored : d.get f = some value) :
      some ((firstValue ordered id f).getD value) = valueBefore ordered id d f := by
    rw [valueBefore, stored]
    cases firstValue ordered id f <;> rfl
  obtain ⟨p, at_p, state⟩ := Option.bind_eq_some_iff.1 h
  cases state
  refine ⟨rfl, rfl, fun f => ?_⟩
  cases f with
  | position => exact at_p.symm
  | video => rfl
  | name => exact present (f := .name) rfl
  | requirement => exact present (f := .requirement) rfl
  | verifier => exact present (f := .verifier) rfl
  | publisher => exact present (f := .publisher) rfl
  | rated => exact present (f := .rated) rfl

theorem stateBefore?_eq_none_iff :
    stateBefore? ordered id d = none ↔ valueBefore ordered id d .position = none := by
  unfold stateBefore?
  cases valueBefore ordered id d .position with
  | none => exact iff_of_true rfl rfl
  | some p => exact iff_of_false nofun nofun

theorem mem_placed : s ∈ placed demons added entries moment ↔ ∃ d, (s.id, d) ∈ demons ∧
    Included added moment s.id d ∧ stateBefore? (inOrder entries) s.id d = some s := by
  unfold placed
  simp only [List.mem_filterMap, List.mem_filter, Prod.exists, ← included_iff, and_assoc]
  constructor
  · rintro ⟨id, d, mem, was, read⟩
    obtain ⟨rfl, -⟩ := get_of_stateBefore? read
    exact ⟨d, mem, was, read⟩
  · rintro ⟨d, mem, was, read⟩
    exact ⟨s.id, d, mem, was, read⟩

theorem unplaced_eq_nil_iff : unplaced demons added entries moment = [] ↔
    ∀ id d, (id, d) ∈ demons → Included added moment id d →
      valueBefore (inOrder entries) id d .position ≠ none := by
  unfold unplaced
  simp only [List.map_eq_nil_iff, List.filter_eq_nil_iff, List.mem_filter, Prod.forall, ← included_iff, and_imp,
    Option.isNone_iff_eq_none, ne_eq, stateBefore?_eq_none_iff]

section Order

theorem nodup_eraseDups : (ps : List Int) → ps.eraseDups.Nodup
  | [] => List.nodup_nil
  | p :: ps => by
    rw [List.eraseDups_cons, List.nodup_cons, List.mem_eraseDups, List.mem_filter]
    refine ⟨?_, nodup_eraseDups _⟩
    rintro ⟨-, ne⟩
    simp at ne
termination_by ps => ps.length
decreasing_by exact Nat.lt_succ_of_le (List.length_filter_le _ _)

theorem sharedPositions_eq_of_perm (h : states.Perm states') : sharedPositions states = sharedPositions states' := by
  have positions : (states.map DemonState.position).Perm (states'.map DemonState.position) := h.map _
  refine List.Perm.eq_of_pairwise (fun _ _ _ _ => Int.le_antisymm) (pairwise_sortOn id _) (pairwise_sortOn id _) ?_
  refine (sortOn_perm id _).trans (.trans ?_ (sortOn_perm id _).symm)
  rw [List.perm_ext_iff_of_nodup (nodup_eraseDups _) (nodup_eraseDups _)]
  intro p
  simp only [List.mem_eraseDups, List.mem_filter, positions.mem_iff, positions.count_eq]

/-- Two reconstructions come to the same: they are equal, or they miss the positions of the same demons, which they
name in different orders. -/
inductive SameResult : Except Error (List DemonState) → Except Error (List DemonState) → Prop where
  | refl (result : Except Error (List DemonState)) : SameResult result result
  | missing (moment : Moment) {ids ids' : List Int} (h : ids.Perm ids') :
    SameResult (.error (.positionMissing moment ids)) (.error (.positionMissing moment ids'))

variable (distinct : (entries.map Prod.fst).Nodup) (sameDemons : demons.Perm demons')
  (sameAdded : ∀ id, id ∈ added ↔ id ∈ added') (sameEntries : entries.Perm entries')
include distinct sameDemons sameAdded sameEntries

/-- The order of the rows changes nothing but the order in which demons without a position are named. -/
theorem reconstruct_of_perm : SameResult (reconstruct demons added entries moment)
    (reconstruct demons' added' entries' moment) := by
  have ordered : inOrder entries = inOrder entries' := inOrder_eq_of_perm distinct sameEntries
  have was (e : Int × Demon) : wasListed added moment e.1 e.2 = wasListed added' moment e.1 e.2 := by
    rw [Bool.eq_iff_iff, ← included_iff, ← included_iff]
    have absent : e.1 ∉ added ↔ e.1 ∉ added' := not_congr (sameAdded e.1)
    exact ⟨fun h => ⟨absent.1 h.old, h.created, h.remained⟩, fun h => ⟨absent.2 h.old, h.created, h.remained⟩⟩
  have included : (demons.filter fun e => wasListed added moment e.1 e.2).Perm
      (demons'.filter fun e => wasListed added' moment e.1 e.2) := by
    rw [funext was]
    exact sameDemons.filter _
  have missing : (unplaced demons added entries moment).Perm (unplaced demons' added' entries' moment) := by
    unfold unplaced
    rw [ordered]
    exact (included.filter _).map _
  have found : (placed demons added entries moment).Perm (placed demons' added' entries' moment) := by
    unfold placed
    rw [ordered]
    exact included.filterMap _
  have none_iff : unplaced demons added entries moment = [] ↔ unplaced demons' added' entries' moment = [] :=
    ⟨fun h => List.perm_nil.1 (h ▸ missing.symm), fun h => List.perm_nil.1 (h ▸ missing)⟩
  rw [reconstruct_eq, reconstruct_eq, sharedPositions_eq_of_perm found]
  by_cases whole : unplaced demons' added' entries' moment = []
  · rw [if_pos whole, if_pos (none_iff.2 whole)]
    split_ifs with unshared
    · rw [sortOn_eq_of_perm (found.trans (sortOn_perm DemonState.position _).symm)
        (ascending_of_sharedPositions unshared)]
      exact .refl _
    · exact .refl _
  · rw [if_neg whole, if_neg (none_iff.not.2 whole)]
    exact .missing moment missing

end Order

section Log

variable (demons added entries moment) in
def StoodAt (id : Int) (position : Option Int) : Prop :=
  ∃ d, (id, d) ∈ demons ∧ Included added moment id d ∧ Held entries id d .position position

theorem stoodAt_some_iff (distinct : (entries.map Prod.fst).Nodup) :
    StoodAt demons added entries moment id (some p) ↔
      ∃ s ∈ placed demons added entries moment, s.id = id ∧ s.position = p := by
  simp only [StoodAt, held_iff distinct]
  constructor
  · rintro ⟨d, mem, was, at_p⟩
    obtain ⟨s, read⟩ : ∃ s, stateBefore? (inOrder entries) id d = some s := by
      rw [← Option.ne_none_iff_exists', ne_eq, stateBefore?_eq_none_iff, at_p]
      exact nofun
    obtain ⟨rfl, -, fields⟩ := get_of_stateBefore? read
    exact ⟨s, mem_placed.2 ⟨d, mem, was, read⟩, rfl, Option.some_inj.1 ((fields .position).trans at_p)⟩
  · rintro ⟨s, mem, rfl, rfl⟩
    obtain ⟨d, stored, was, read⟩ := mem_placed.1 mem
    obtain ⟨-, -, fields⟩ := get_of_stateBefore? read
    exact ⟨d, stored, was, (fields .position).symm⟩

theorem unplaced_ne_nil_iff (distinct : (entries.map Prod.fst).Nodup) :
    unplaced demons added entries moment ≠ [] ↔ ∃ id, StoodAt demons added entries moment id none := by
  rw [ne_eq, unplaced_eq_nil_iff]
  simp only [StoodAt, held_iff distinct]
  push Not
  rfl

theorem nodup_placed (ids : (demons.map Prod.fst).Nodup) :
    ((placed demons added entries moment).map DemonState.id).Nodup := by
  refine List.pairwise_map.2 (List.pairwise_filterMap.2 ?_)
  refine ((List.pairwise_map.1 ids).filter _).imp ?_
  intro e e' apart s read s' read'
  rw [(get_of_stateBefore? read).1, (get_of_stateBefore? read').1]
  exact apart

theorem sharedPositions_ne_nil_iff (ids : (states.map DemonState.id).Nodup) : sharedPositions states ≠ [] ↔
    ∃ s ∈ states, ∃ s' ∈ states, s.id ≠ s'.id ∧ s.position = s'.position := by
  have injective := List.nodup_map_iff_inj_on (f := DemonState.position) ids.of_map
  rw [← not_iff_not, not_not]
  push Not
  constructor
  · intro unshared s mem s' mem' apart same
    exact apart (congrArg DemonState.id (injective.1 (nodup_of_sharedPositions unshared) s mem s' mem' same))
  · intro apart
    refine sharedPositions_eq_nil (injective.2 fun s mem s' mem' same => ?_)
    by_contra ne
    exact apart s mem s' mem' (fun same => ne (List.inj_on_of_nodup_map ids mem mem' same)) same

theorem reconstruct_shows (ids : (demons.map Prod.fst).Nodup) (distinct : (entries.map Prod.fst).Nodup)
    (read : reconstruct demons added entries moment = .ok states) :
    states.Pairwise (fun s s' => s.position < s'.position) ∧ (states.map DemonState.id).Nodup ∧
      (∀ id, id ∈ states.map DemonState.id ↔ ∃ d, (id, d) ∈ demons ∧ Included added moment id d) ∧
      ∀ s ∈ states, ∃ d, (s.id, d) ∈ demons ∧ s.currentPosition = d.position ∧
        ∀ f, Held entries s.id d f (s.get f) := by
  obtain ⟨whole, unshared, rfl⟩ := eq_of_reconstruct read
  have perm := sortOn_perm DemonState.position (placed demons added entries moment)
  refine ⟨ascending_of_sharedPositions unshared, (perm.map _).nodup_iff.2 (nodup_placed ids), ?_, ?_⟩
  · intro id
    rw [(perm.map _).mem_iff]
    constructor
    · intro shown
      obtain ⟨s, mem, rfl⟩ := List.mem_map.1 shown
      obtain ⟨d, stored, was, -⟩ := mem_placed.1 mem
      exact ⟨d, stored, was⟩
    · rintro ⟨d, stored, was⟩
      have at_some := unplaced_eq_nil_iff.1 whole id d stored was
      rw [ne_eq, ← stateBefore?_eq_none_iff, ← ne_eq, Option.ne_none_iff_exists'] at at_some
      obtain ⟨s, read⟩ := at_some
      obtain ⟨rfl, -⟩ := get_of_stateBefore? read
      exact List.mem_map_of_mem (mem_placed.2 ⟨d, stored, was, read⟩)
  · intro s mem
    obtain ⟨d, stored, -, read⟩ := mem_placed.1 (perm.mem_iff.1 mem)
    obtain ⟨-, current, fields⟩ := get_of_stateBefore? read
    exact ⟨d, stored, current, fun f => (held_iff distinct).2 (fields f).symm⟩

theorem reconstruct_fails_iff (ids : (demons.map Prod.fst).Nodup) (distinct : (entries.map Prod.fst).Nodup) :
    (∃ e, reconstruct demons added entries moment = .error e) ↔
      (∃ id, StoodAt demons added entries moment id none) ∨
        ∃ id id' p, id ≠ id' ∧ StoodAt demons added entries moment id (some p) ∧
          StoodAt demons added entries moment id' (some p) := by
  have fails_iff : (∃ e, reconstruct demons added entries moment = .error e) ↔
      unplaced demons added entries moment ≠ [] ∨ sharedPositions (placed demons added entries moment) ≠ [] := by
    rw [reconstruct_eq]
    split_ifs with whole unshared <;> simp [*]
  rw [fails_iff, unplaced_ne_nil_iff distinct, sharedPositions_ne_nil_iff (nodup_placed ids)]
  simp only [stoodAt_some_iff distinct]
  refine or_congr_right ?_
  constructor
  · rintro ⟨s, mem, s', mem', apart, same⟩
    exact ⟨s.id, s'.id, s'.position, apart, ⟨s, mem, rfl, same⟩, s', mem', rfl, rfl⟩
  · rintro ⟨_, _, _, apart, ⟨s, mem, rfl, same⟩, s', mem', rfl, rfl⟩
    exact ⟨s, mem, s', mem', apart, same⟩

/-- Reconstruction from any log with ids of its own: the demons that count as listed, each with its fields as the log
tells them, in whatever order the rows come. It fails exactly if one has no position or two share one. -/
theorem reconstruct_of_any_log (demons : List (Int × Demon)) (added : List Int) (entries : Entries) (moment : Moment)
    (ids : (demons.map Prod.fst).Nodup) (distinct : (entries.map Prod.fst).Nodup) :
    let result := reconstruct demons added entries moment
    (∀ demons' added' entries', demons.Perm demons' → (∀ id, id ∈ added ↔ id ∈ added') → entries.Perm entries' →
      SameResult result (reconstruct demons' added' entries' moment)) ∧
    (∀ states, result = .ok states →
      states.Pairwise (fun s s' => s.position < s'.position) ∧ (states.map DemonState.id).Nodup ∧
        (∀ id, id ∈ states.map DemonState.id ↔ ∃ d, (id, d) ∈ demons ∧ Included added moment id d) ∧
        ∀ s ∈ states, ∃ d, (s.id, d) ∈ demons ∧ s.currentPosition = d.position ∧
          ∀ f, Held entries s.id d f (s.get f)) ∧
    ((∃ e, result = .error e ∧ e.kind = .invariant) ↔
      (∃ id, StoodAt demons added entries moment id none) ∨
        ∃ id id' p, id ≠ id' ∧ StoodAt demons added entries moment id (some p) ∧
          StoodAt demons added entries moment id' (some p)) ∧
    ∀ e, result = .error e → e.kind = .invariant := by
  intro result
  refine ⟨?_, fun _ => reconstruct_shows ids distinct, ?_, fun _ => kind_of_reconstruct⟩
  · intro demons' added' entries' sameDemons sameAdded sameEntries
    exact reconstruct_of_perm distinct sameDemons sameAdded sameEntries
  · rw [← reconstruct_fails_iff ids distinct]
    exact exists_congr fun e => and_iff_left_of_imp kind_of_reconstruct

/-- A demon that was renamed twice at one time, and one that has been taken off the list since: the entries come in
the reverse of their order, and the name before both changes is the one under the smaller id. -/
theorem reconstruct_of_any_log_of_two :
    let a : Demon := ⟨"a", some 1, 50, none, 7, 7, true, ⟨10⟩, none⟩
    let b : Demon := ⟨"b", none, 50, none, 7, 7, true, ⟨20⟩, some ⟨60⟩⟩
    let row (id t : Int) (previous : Changes) : Modification := ⟨id, ⟨t⟩, none, previous.values⟩
    let renamed (name : String) : Changes := { edit := fun | .name => .set (some name) | _ => .keep, unknown := [] }
    let entries : Entries :=
      [(3, row 2 60 (.position (some 2))), (2, row 1 50 (renamed "newer")), (1, row 1 50 (renamed "older"))]
    ∃ states, reconstruct [(1, a), (2, b)] [3] entries ⟨40⟩ = .ok states ∧
      states.map (fun s => (s.id, s.position, s.name)) = [(1, 1, "older"), (2, 2, "b")] ∧
      (∀ s ∈ states, ∃ d, (s.id, d) ∈ [(1, a), (2, b)] ∧ ∀ f, Held entries s.id d f (s.get f)) ∧
      SameResult (reconstruct [(1, a), (2, b)] [3] entries ⟨40⟩)
        (reconstruct [(2, b), (1, a)] [3, 3] entries.reverse ⟨40⟩) := by
  intro a b row renamed entries
  have read : reconstruct [(1, a), (2, b)] [3] entries ⟨40⟩ =
      .ok [⟨1, 1, some 1, "older", 50, none, 7, 7, true⟩, ⟨2, 2, none, "b", 50, none, 7, 7, true⟩] := by decide
  obtain ⟨same, shows, -⟩ := reconstruct_of_any_log [(1, a), (2, b)] [3] entries ⟨40⟩ (by decide) (by decide)
  obtain ⟨-, -, -, told⟩ := shows _ read
  refine ⟨_, read, rfl, fun s mem => ?_, ?_⟩
  · obtain ⟨d, stored, -, fields⟩ := told s mem
    exact ⟨d, stored, fields⟩
  · exact same _ _ _ (.swap _ _ _) (by simp) (List.reverse_perm entries).symm

end Log

section Gaps

theorem positions_dense_iff (ascending : states.Pairwise fun s s' => s.position < s'.position) :
    (states.map fun s => some s.position) = densePositions states.length ↔
      ∀ s ∈ states, 1 ≤ s.position ∧ s.position ≤ states.length := by
  let positions := states.map DemonState.position
  let dense := (List.range states.length).map fun (i : Nat) => (i : Int) + 1
  have inOrder : positions.Pairwise (· < ·) := List.pairwise_map.2 ascending
  have mem_dense {p : Int} : p ∈ dense ↔ 1 ≤ p ∧ p ≤ states.length := by
    simp only [dense, List.mem_map, List.mem_range]
    constructor
    · rintro ⟨i, lt, rfl⟩
      omega
    · rintro ⟨first, last⟩
      exact ⟨(p - 1).toNat, by omega, by omega⟩
  calc
    _ ↔ positions.map some = dense.map some := by
      have shown : positions.map some = states.map fun s => some s.position := List.map_map
      rw [shown, densePositions_eq_map]
    _ ↔ positions = dense := List.map_inj_right fun _ _ => Option.some_inj.1
    _ ↔ positions ⊆ dense := by
      refine ⟨fun same => same ▸ List.Subset.refl _, fun subset => ?_⟩
      have distinct : positions.Nodup := inOrder.imp Int.ne_of_lt
      have perm : positions.Perm dense :=
        (distinct.subperm subset).perm_of_length_le (by simp [positions, dense])
      exact eq_of_perm_of_ascending perm (inOrder.imp Int.le_of_lt) (ascending_positions _)
    _ ↔ _ := by
      simp only [List.subset_def, mem_dense]
      exact List.forall_mem_map

/-- A log that leaves a demon without a position or puts two at the same is reported. A gap is not: what is made then
has ascending positions, and they are 1 to the number of demons only if none is outside these bounds. -/
theorem reconstruct_dense_iff (demons : List (Int × Demon)) (added : List Int) (entries : Entries) (moment : Moment) :
    (∃ e, reconstruct demons added entries moment = .error e ∧ e.kind = .invariant) ∨
      ∃ states, reconstruct demons added entries moment = .ok states ∧
        states.Pairwise (fun s s' => s.position < s'.position) ∧
        ((states.map fun s => some s.position) = densePositions states.length ↔
          ∀ s ∈ states, 1 ≤ s.position ∧ s.position ≤ states.length) := by
  cases result : reconstruct demons added entries moment with
  | error e => exact .inl ⟨e, rfl, kind_of_reconstruct result⟩
  | ok states =>
    obtain ⟨-, unshared, rfl⟩ := eq_of_reconstruct result
    have ascending := ascending_of_sharedPositions unshared
    exact .inr ⟨_, rfl, ascending, positions_dense_iff ascending⟩

/-- The second demon was put above the first and taken off the list again, with a time before that. A list of the time
before both has the first demon at the second position, and nobody at the first. -/
theorem reconstruct_keeps_gap :
    let a : Demon := ⟨"a", some 1, 50, none, 7, 7, true, ⟨10⟩, none⟩
    let b : Demon := ⟨"b", none, 50, none, 7, 7, true, ⟨60⟩, some ⟨40⟩⟩
    let row (id t p : Int) : Modification := ⟨id, ⟨t⟩, none, (Changes.position (some p)).values⟩
    let demons : List (Int × Demon) := [(1, a), (2, b)]
    let entries : Entries := [(1, row 1 60 1), (2, row 2 40 1), (3, row 1 40 2)]
    (demons.map Prod.fst).Nodup ∧ ∃ states, reconstruct demons [2] entries ⟨20⟩ = .ok states ∧
      (states.map fun s => some s.position) = [some 2] ∧
      (states.map fun s => some s.position) ≠ densePositions states.length := by
  intro a b row demons entries
  have read : reconstruct demons [2] entries ⟨20⟩ = .ok [⟨1, 2, some 1, "a", 50, none, 7, 7, true⟩] := by decide
  exact ⟨by decide, _, read, rfl, by decide⟩

end Gaps

end History

end DemonBoard
