import DemonBoard.Proofs.TimeTravel

/-! Edits out of the order of their times. An edit may be given any time, also one before edits that were made
earlier. What it is put before has been logged as if it had come first, so the log can place two demons at one
position of a past moment. It still knows a position of every demon: a demon that has been taken off the list left its
position in the log when it was. -/

namespace DemonBoard

namespace History

variable {states : List DemonState} {entries ordered : Entries} {id : Int} {d : Demon}

theorem nodup_of_sharedPositions (h : sharedPositions states = []) : (states.map DemonState.position).Nodup := by
  rw [List.nodup_iff_count_le_one]
  intro p
  by_contra more
  have shared : p ∈ sharedPositions states := by
    have counted : 1 < (states.map DemonState.position).count p := Nat.not_le.1 more
    have mem : p ∈ states.map DemonState.position := List.count_pos_iff.1 (Nat.lt_of_succ_lt counted)
    refine (sortOn_perm id _).mem_iff.2 (List.mem_eraseDups.2 ?_)
    exact List.mem_filter.2 ⟨mem, decide_eq_true counted⟩
  rw [h] at shared
  cases shared

theorem count_of_mem_sharedPositions {p : Int} (mem : p ∈ sharedPositions states) :
    1 < (states.map DemonState.position).count p := by
  have kept := List.mem_eraseDups.1 ((sortOn_perm id _).mem_iff.1 mem)
  exact of_decide_eq_true (List.mem_filter.1 kept).2

theorem ascending_of_sharedPositions (h : sharedPositions states = []) :
    (sortOn DemonState.position states).Pairwise fun a b => a.position < b.position := by
  have distinct : ((sortOn DemonState.position states).map DemonState.position).Nodup :=
    ((sortOn_perm _ _).map _).nodup_iff.2 (nodup_of_sharedPositions h)
  refine ((pairwise_sortOn DemonState.position states).and (List.pairwise_map.1 distinct)).imp ?_
  rintro a b ⟨le, ne⟩
  exact Int.lt_iff_le_and_ne.2 ⟨le, ne⟩

theorem isSome_firstValue {e : Int × Modification} {f : Field} (mem : e ∈ ordered) (about : e.2.demonId = id)
    (held : (e.2.previous f).isSome) : (firstValue ordered id f).isSome := by
  refine List.findSome?_isSome_iff.2 ⟨e, mem, ?_⟩
  change (if e.2.demonId = id then e.2.previous f else none).isSome = true
  rw [if_pos about]
  exact held

/-- A demon has a state at a moment if it has a position, or if an entry since then holds one. -/
theorem isSome_stateBefore? (placed : (firstValue ordered id .position).isSome ∨ d.position.isSome) :
    (stateBefore? ordered id d).isSome := by
  have position : (valueBefore ordered id d .position).isSome := by
    unfold valueBefore
    cases held : firstValue ordered id .position with
    | some p => rfl
    | none =>
      rw [held] at placed
      exact placed.resolve_left Bool.false_ne_true
  obtain ⟨p, at_p⟩ := Option.isSome_iff_exists.1 position
  unfold stateBefore?
  rw [at_p]
  rfl

end History

namespace Database

variable {α : Type} {db db' : Database α} {T : Moment} {time : Timestamp}

/-- Every demon that is off the list left its position in the log at the time of its removal. -/
def RemovalsLogged (db : Database α) : Prop :=
  ∀ id d, db.demons.find? id = some d → ∀ r ∈ d.removedAt,
    ∃ m ∈ db.journal, m.demonId = id ∧ m.time = r ∧ (m.previous .position).isSome

theorem RemovalsLogged.congr (h : db.RemovalsLogged) (same : SameList db db') : db'.RemovalsLogged := by
  unfold RemovalsLogged journal at *
  rw [same.demons, same.modifications]
  exact h

theorem removal_logged {userId : Option Int} {rows : List Modification} {t : Moment} {id : Int} {d d' : Demon}
    (audited : Audited t userId db db' rows) (found : db.demons.find? id = some d)
    (found' : db'.demons.find? id = some d') (placed : d.position.isSome) (taken : d'.position = none) :
    ∃ m ∈ db'.journal, m.demonId = id ∧ m.time = t ∧ (m.previous .position).isSome := by
  obtain ⟨d'', same, logged⟩ := audited.kept id d found
  rw [found', Option.some_inj] at same
  subst same
  have recorded : (recorded rows id .position).isSome := by
    have moved : d.get .position ≠ d'.get .position := by
      intro still
      have still : d.position = d'.position := still
      rw [still, taken] at placed
      cases placed
    rw [logged.recorded_eq, Demon.lost, if_neg moved]
    exact placed
  obtain ⟨m, mem, held⟩ := List.findSome?_isSome_iff.1 recorded
  split at held
  · rename_i about
    obtain ⟨_, _, -, -, -, row⟩ := audited.exists_changed mem
    refine ⟨m, ?_, about, ?_, held⟩
    · rw [audited.journal_eq]
      exact List.mem_append_right _ mem
    · rw [row]
  · cases held

theorem RemovalsLogged.mutate {now : Moment} {call : Call} {change : Change α} (h : db.RemovalsLogged)
    (dense : db.Dense) (done : db.mutate now call = .ok change) : change.database.RemovalsLogged := by
  cases stamped : call.stamp? with
  | none => exact h.congr (sameList_mutate stamped done)
  | some stamp =>
    obtain ⟨t, rows, at_time, audited⟩ := audited_mutate stamped done
    have ages := ages_mutate stamped at_time done
    intro id d' found' r removed
    cases found : db.demons.find? id with
    | none =>
      rw [(ages.created id d' found' found).2] at removed
      cases removed
    | some d =>
      obtain ⟨-, final, taken⟩ := ages.kept id d d' found found'
      by_cases listed : d.listed
      · obtain ⟨rfl, gone⟩ := taken listed r removed
        obtain ⟨i, -, at_i⟩ := dense.arranged.placed id d found listed
        exact removal_logged audited found found' (by rw [at_i]; rfl) gone
      · rw [final listed] at removed
        obtain ⟨m, mem, row⟩ := h id d found r removed
        refine ⟨m, ?_, row⟩
        rw [audited.journal_eq]
        exact List.mem_append_left _ mem

section Sessions

variable [Scalar α]

theorem RemovalsLogged.step (h : db.RemovalsLogged) (dense : db.Dense) (s : Step) :
    (db.step s).RemovalsLogged := by
  unfold Database.step
  split
  · rename_i call action
    rcases sameTables_perform db s.faults s.now call with ⟨change, done, same⟩ | ⟨e, -, kept⟩
    · exact (h.mutate dense done).congr same.sameList
    · rw [kept]
      exact h
  · exact h.congr (sameTables_recompute s.faults db _).sameList

theorem RemovalsLogged.after (h : db.RemovalsLogged) (dense : db.Dense) (steps : List Step) :
    (db.after steps).RemovalsLogged := by
  induction steps generalizing db with
  | nil => exact h
  | cons s rest ih => exact ih (h.step dense s) (dense.step s)

end Sessions

/-- Then a demon that counts as listed at a moment has a position there. -/
theorem RemovalsLogged.placed (h : db.RemovalsLogged) (dense : db.Dense) {e : Int × Demon}
    (mem : e ∈ db.listedBefore T) :
    (History.stateBefore? (History.inOrder (db.entriesSince T)) e.1 e.2).isSome := by
  obtain ⟨stored, was⟩ := List.mem_filter.1 mem
  have found := Table.find?_eq_some_iff.2 stored
  apply History.isSome_stateBefore?
  by_cases listed : e.2.listed
  · obtain ⟨i, -, at_i⟩ := dense.arranged.placed e.1 e.2 found listed
    exact .inr (by rw [at_i]; rfl)
  · obtain ⟨r, removed⟩ := Demon.exists_removedAt listed
    obtain ⟨m, logged, about, rfl, held⟩ := h e.1 e.2 found r removed
    obtain ⟨entry, stored, rfl⟩ := List.mem_map.1 logged
    have late : decide (T ≤ entry.2.time) = true := by
      simp only [History.wasListed, Bool.and_eq_true, removed, Option.all_some] at was
      exact was.2
    have since : entry ∈ History.inOrder (db.entriesSince T) :=
      (sortWith_perm _ _).mem_iff.2 (List.mem_filter.2 ⟨stored, late⟩)
    exact .inl (History.isSome_firstValue since about held)

section Sessions

variable [Scalar α]

/-- What the log of a session shows of a moment if the edits may come in any order of their times. A demon that counts
as listed always has a position. So the list is read off, with nobody at the position of another, unless the log
places two demons at one position, and that it does only if an edit is given a time before that of an earlier one. -/
theorem listAt_of_any_times (bare : SameList empty db) (steps : List Step) (at_T : time.utc? = some T) :
    let now := db.after steps
    (∃ states, now.listAt time = .ok states ∧ states.Pairwise fun a b => a.position < b.position) ∨
      ∃ shared ≠ [], now.listAt time = .error (.positionsShared T shared) ∧
        (∀ p ∈ shared, 1 < ((now.statesBefore T).map DemonState.position).count p) ∧
        ¬ (steps.filterMap Step.time?).Pairwise (· ≤ ·) := by
  intro now
  have dense : (empty : Database α).Dense := List.Perm.refl _
  have logged : (empty : Database α).RemovalsLogged := nofun
  have start : db.Dense := dense.congr bare.demons
  have placed (e : Int × Demon) (mem : e ∈ now.listedBefore T) :=
    ((logged.congr bare).after start steps).placed (start.after steps) mem
  have read := listAt_of_placed at_T placed
  by_cases unshared : History.sharedPositions (now.statesBefore T) = []
  · rw [if_pos unshared] at read
    exact .inl ⟨_, read, History.ascending_of_sharedPositions unshared⟩
  · rw [if_neg unshared] at read
    refine .inr ⟨_, unshared, read, fun p => History.count_of_mem_sharedPositions, ?_⟩
    intro monotone
    obtain ⟨rows, divides⟩ := divides_session (T := T) bare monotone
    obtain ⟨states, listed, -⟩ := divides.listAt at_T
    rw [listed] at read
    cases read

end Sessions

/-- A demon is added with a time before that of another, which it is put above: the list of a moment between the two
has it alone. -/
theorem listAt_of_any_times_of_two :
    let stamp (t : Int) : Stamp := ⟨none, some ⟨⟨t⟩, none⟩⟩
    let level (name : String) : NewDemon := ⟨some name, some 1, some 50, none, some 7, some 7, none⟩
    let steps : List Step :=
      [⟨.call (.addDemon (level "a") (stamp 20)), ⟨0⟩, .absent⟩,
       ⟨.call (.addDemon (level "b") (stamp 10)), ⟨0⟩, .absent⟩]
    ∃ states, ((empty : Database Float).after steps).listAt ⟨⟨15⟩, none⟩ = .ok states ∧
      states.Pairwise (fun a b => a.position < b.position) ∧ states.map DemonState.id = [2] := by
  intro stamp level steps
  have bare : SameList empty (empty : Database Float) := ⟨rfl, rfl, rfl⟩
  have at_T : (⟨⟨15⟩, none⟩ : Timestamp).utc? = some ⟨15⟩ := rfl
  have ids : (((empty : Database Float).after steps).listAt ⟨⟨15⟩, none⟩).map (List.map DemonState.id) = .ok [2] := by
    decide +kernel
  rcases listAt_of_any_times bare steps at_T with ⟨states, read, ascending⟩ | ⟨shared, -, failed, -⟩
  · rw [read] at ids
    exact ⟨states, read, ascending, Except.ok.inj ids⟩
  · rw [failed] at ids
    cases ids

/-- A demon is added and removed, and then another is added with a time before the removal. All three calls succeed,
and the log has both demons at the first position of a moment in between. -/
theorem listAt_fails_after_backdated_addition :
    let stamp (t : Int) : Stamp := ⟨none, some ⟨⟨t⟩, none⟩⟩
    let level (name : String) : NewDemon := ⟨some name, some 1, some 50, none, some 7, some 7, none⟩
    let added := (empty : Database Float).perform .absent ⟨0⟩ (.addDemon (level "a") (stamp 10))
    let removed := added.state.perform .absent ⟨0⟩ (.removeDemon 1 (stamp 30))
    let backdated := removed.state.perform .absent ⟨0⟩ (.addDemon (level "b") (stamp 20))
    added.result.isOk ∧ removed.result.isOk ∧ backdated.result.isOk ∧
      backdated.state.listAt ⟨⟨25⟩, none⟩ = .error (.positionsShared ⟨25⟩ [1]) := by
  decide +kernel

end Database

end DemonBoard
