import DemonBoard.History
import DemonBoard.Proofs.ListEdits
import Mathlib.Data.List.Induction
import Mathlib.Data.List.TakeWhile

/-! The list at a past moment. A session whose edits come in the order of their times is cut in two by any
moment, and what the log tells of the second part leads from the demons as they are to the list that the
first part had left. -/

namespace DemonBoard

def Step.time? (s : Step) : Option Moment :=
  match s.action with
  | .call call => call.time? s.now
  | .recompute _ => none

namespace Database

variable {α : Type}

section Sessions

variable [Scalar α] {db : Database α} {steps : List Step}

theorem later_step (db : Database α) (s : Step) : ∃ rows, Later (s.time? = some ·) db (db.step s) rows := by
  unfold Step.time? step
  cases s.action with
  | call call =>
    rcases sameTables_perform db s.faults s.now call with ⟨change, done, same⟩ | ⟨e, -, kept⟩
    · obtain ⟨rows, later⟩ := later_mutate done
      exact ⟨_, later.trans (Later.of_sameList same.sameList)⟩
    · refine ⟨[], Later.of_sameList ?_⟩
      dsimp only
      rw [kept]
      exact ⟨rfl, rfl, rfl⟩
  | recompute scopes => exact ⟨[], Later.of_sameList (sameTables_recompute s.faults db scopes).sameList⟩

theorem later_after (db : Database α) (during : Moment → Prop)
    (within : ∀ s ∈ steps, ∀ t, s.time? = some t → during t) :
    ∃ rows, Later during db (db.after steps) rows := by
  induction steps generalizing db with
  | nil => exact ⟨[], Later.of_sameList ⟨rfl, rfl, rfl⟩⟩
  | cons s rest ih =>
    obtain ⟨rows, first⟩ := later_step db s
    obtain ⟨rows', others⟩ := ih (db.step s) fun s' mem => within s' (List.mem_cons_of_mem s mem)
    exact ⟨_, (first.mono (within s List.mem_cons_self)).trans others⟩

def Chronological (db : Database α) : Prop := db.journal.Pairwise fun m m' => m.time ≤ m'.time

theorem chronological_after (bare : db.journal = [])
    (monotone : (steps.filterMap Step.time?).Pairwise (· ≤ ·)) : (db.after steps).Chronological := by
  induction steps using List.reverseRecOn with
  | nil =>
    rw [Chronological, after, List.foldl_nil, bare]
    exact List.Pairwise.nil
  | append_singleton rest s ih =>
    rw [List.filterMap_append, List.pairwise_append] at monotone
    obtain ⟨earlier, -, before⟩ := monotone
    obtain ⟨rows, later⟩ := later_step (db.after rest) s
    rw [Chronological, after_append, show (db.after rest).after [s] = (db.after rest).step s from rfl,
      later.journal, List.pairwise_append]
    refine ⟨ih earlier, ?_, ?_⟩
    · refine List.pairwise_of_forall_mem_list ?_
      intro m mem m' mem'
      have same : some m.time = some m'.time := (later.timed m mem).symm.trans (later.timed m' mem')
      rw [Option.some_inj.1 same]
      exact Int.le_refl _
    · intro m mem m' mem'
      have at_s := later.timed m' mem'
      obtain ⟨rows', past⟩ := later_after db (· ≤ m'.time) fun s' mem t at_t =>
        before t (List.mem_filterMap.2 ⟨s', mem, at_t⟩) m'.time (List.mem_filterMap.2 ⟨s, by simp, at_s⟩)
      rw [past.journal, bare, List.nil_append] at mem
      exact past.timed m mem

end Sessions

end Database

/-- A state shows a demon as it was, and where the demon stands now. A video is told only if there was one. -/
structure DemonState.Shows (s : DemonState) (past now : Demon) : Prop where
  position : past.position = some s.position
  current : s.currentPosition = now.position
  name : s.name = past.name
  requirement : s.requirement = past.requirement
  verifier : s.verifierId = past.verifierId
  publisher : s.publisherId = past.publisherId
  rated : s.rated = past.rated
  video : past.video.isSome → s.video = past.video

namespace History

variable {entries : Entries} {during : Moment → Prop} {id : Int} {d d' : Demon} {moment : Moment}

theorem firstValue_eq_recorded (entries : Entries) (id : Int) (f : Field) :
    firstValue entries id f = recorded (entries.map Prod.snd) id f := by
  rw [recorded, List.findSome?_map]
  rfl

theorem inOrder_eq_self (ids : (entries.map Prod.fst).Pairwise fun a b => compare a b = .lt)
    (times : (entries.map Prod.snd).Pairwise fun m m' => m.time ≤ m'.time) : inOrder entries = entries := by
  rw [List.pairwise_map] at ids times
  refine sortBy_of_pairwise ((times.and ids).imp fun {a b} h => ?_)
  obtain ⟨le, lt⟩ := h
  have inTime : (compare a.2.time.micros b.2.time.micros).isLE := Int.isLE_compare.2 le
  unfold compareLex
  change (Ordering.then (compare a.2.time.micros b.2.time.micros) (compare a.1 b.1)).isLE
  rw [lt]
  cases order : compare a.2.time.micros b.2.time.micros with
  | gt =>
    rw [order] at inTime
    cases inTime
  | _ => rfl

/-- The entries since a moment lead from a demon back to what it was then. -/
theorem stateBefore?_of_later (later : Demon.Later during (entries.map Prod.snd) id d d')
    (placed : d.position.isSome) :
    ∃ s, stateBefore? entries id d' = some s ∧ s.id = id ∧ s.Shows d d' := by
  have told {f : Field} {v w : f.Value} (was : d.get f = some v) (is : d'.get f = some w) :
      (firstValue entries id f).getD w = v := by
    have recovered := later.recovers f (by rw [was]; rfl)
    rw [was, is, ← firstValue_eq_recorded] at recovered
    cases held : firstValue entries id f with
    | none =>
      rw [held] at recovered
      exact Option.some_inj.1 recovered
    | some u =>
      rw [held] at recovered
      exact Option.some_inj.1 recovered
  have whole {f : Field} (present : (d.get f).isSome) : valueBefore entries id d' f = d.get f := by
    rw [valueBefore, firstValue_eq_recorded]
    exact later.recovers f present
  -- a removed demon has lost its position since, so only the log can tell it
  obtain ⟨p, at_p⟩ := Option.isSome_iff_exists.1 placed
  have position : valueBefore entries id d' .position = some p := (whole (f := .position) placed).trans at_p
  refine ⟨_, by rw [stateBefore?, position]; rfl, rfl, ?_⟩
  exact ⟨at_p, rfl, told (f := .name) rfl rfl, told (f := .requirement) rfl rfl,
    told (f := .verifier) rfl rfl, told (f := .publisher) rfl rfl, told (f := .rated) rfl rfl,
    whole (f := .video)⟩

theorem sharedPositions_eq_nil {states : List DemonState} (h : (states.map DemonState.position).Nodup) :
    sharedPositions states = [] := by
  have single : (states.map DemonState.position).filter
      (fun p => decide (1 < (states.map DemonState.position).count p)) = [] := by
    rw [List.filter_eq_nil_iff]
    intro p mem
    rw [decide_eq_true_eq, Nat.not_lt]
    exact List.nodup_iff_count_le_one.1 h p
  unfold sharedPositions
  dsimp only
  rw [single]
  rfl

section Reconstruct

variable {demons : List (Int × Demon)} {added : List Int} {states : List DemonState}

def unplaced (demons : List (Int × Demon)) (added : List Int) (entries : Entries) (moment : Moment) : List Int :=
  ((demons.filter fun (id, d) => wasListed added moment id d).filter fun (id, d) =>
    (stateBefore? (inOrder entries) id d).isNone).map Prod.fst

def placed (demons : List (Int × Demon)) (added : List Int) (entries : Entries) (moment : Moment) :
    List DemonState :=
  (demons.filter fun (id, d) => wasListed added moment id d).filterMap fun (id, d) =>
    stateBefore? (inOrder entries) id d

theorem reconstruct_eq (demons : List (Int × Demon)) (added : List Int) (entries : Entries) (moment : Moment) :
    reconstruct demons added entries moment =
      if unplaced demons added entries moment = [] then
        if sharedPositions (placed demons added entries moment) = [] then
          .ok (sortOn DemonState.position (placed demons added entries moment))
        else .error (.positionsShared moment (sharedPositions (placed demons added entries moment)))
      else .error (.positionMissing moment (unplaced demons added entries moment)) := by
  unfold reconstruct unplaced placed
  dsimp only
  generalize List.filter _ (List.filter _ demons) = missing
  generalize sharedPositions _ = shared
  cases missing <;> cases shared <;> rfl

theorem kind_of_reconstruct {e : Error} (h : reconstruct demons added entries moment = .error e) :
    e.kind = .invariant := by
  rw [reconstruct_eq] at h
  split_ifs at h
  · cases h
    rfl
  · cases h
    rfl

theorem eq_of_reconstruct (h : reconstruct demons added entries moment = .ok states) :
    unplaced demons added entries moment = [] ∧ sharedPositions (placed demons added entries moment) = [] ∧
      states = sortOn DemonState.position (placed demons added entries moment) := by
  rw [reconstruct_eq] at h
  split_ifs at h with whole unshared
  cases h
  exact ⟨whole, unshared, rfl⟩

end Reconstruct

end History

namespace Database

variable {α : Type} {db past now : Database α} {T : Moment} {rows : List Modification}

def addedSince (db : Database α) (T : Moment) : List Int :=
  (db.additions.entries.filter fun (_, a) => decide (T ≤ a.time)).map Prod.fst

def entriesSince (db : Database α) (T : Moment) : History.Entries :=
  db.modifications.entries.filter fun (_, m) => decide (T ≤ m.time)

def listedBefore (db : Database α) (T : Moment) : List (Int × Demon) :=
  db.demons.entries.filter fun (id, d) => History.wasListed (db.addedSince T) T id d

def statesBefore (db : Database α) (T : Moment) : List DemonState :=
  (db.listedBefore T).filterMap fun (id, d) =>
    History.stateBefore? (History.inOrder (db.entriesSince T)) id d

theorem listAt_of_utc? {time : Timestamp} (at_T : time.utc? = some T) : db.listAt time =
    History.reconstruct db.demons.entries (db.addedSince T) (db.entriesSince T) T := by
  have at_moment : effectiveTime time.wall (some time) = .ok T := by
    simp only [effectiveTime, at_T]
  rw [listAt, at_moment]
  rfl

theorem listAt_of_placed {time : Timestamp} (at_T : time.utc? = some T)
    (placed : ∀ e ∈ db.listedBefore T,
      (History.stateBefore? (History.inOrder (db.entriesSince T)) e.1 e.2).isSome) :
    db.listAt time = if History.sharedPositions (db.statesBefore T) = [] then
      .ok (sortOn DemonState.position (db.statesBefore T))
    else .error (.positionsShared T (History.sharedPositions (db.statesBefore T))) := by
  have whole : History.unplaced db.demons.entries (db.addedSince T) (db.entriesSince T) T = [] := by
    refine List.map_eq_nil_iff.2 (List.filter_eq_nil_iff.2 ?_)
    intro e mem
    simpa using Option.isSome_iff_ne_none.1 (placed e mem)
  rw [listAt_of_utc? at_T, History.reconstruct_eq, if_pos whole]
  rfl

theorem listAt_eq_ok {time : Timestamp} (at_T : time.utc? = some T)
    (placed : ∀ e ∈ db.listedBefore T,
      (History.stateBefore? (History.inOrder (db.entriesSince T)) e.1 e.2).isSome)
    (unshared : History.sharedPositions (db.statesBefore T) = []) :
    db.listAt time = .ok (sortOn DemonState.position (db.statesBefore T)) :=
  (listAt_of_placed at_T placed).trans (if_pos unshared)

/-- A moment lies between two databases: everything that the past one knows of happened before it, and the
present one has been made of it by edits since. -/
structure Divides (T : Moment) (past now : Database α) (rows : List Modification) : Prop where
  later : Later (T ≤ ·) past now rows
  journal : ∀ m ∈ past.journal, m.time < T
  demons : ∀ id d, past.demons.find? id = some d → d.createdAt < T ∧ ∀ r ∈ d.removedAt, r < T
  additions : ∀ e ∈ past.additions.entries, e.2.time < T
  chronological : now.Chronological
  dense : past.Dense

namespace Divides

theorem rows_eq (h : Divides T past now rows) : (now.entriesSince T).map Prod.snd = rows := by
  have journal : now.modifications.entries.map Prod.snd = past.journal ++ rows := h.later.journal
  have before : past.journal.filter (fun m => decide (T ≤ m.time)) = [] := by
    rw [List.filter_eq_nil_iff]
    intro m mem
    have lt : m.time.micros < T.micros := h.journal m mem
    rw [decide_eq_true_eq]
    exact Int.not_le.2 lt
  have since : rows.filter (fun m => decide (T ≤ m.time)) = rows := by
    rw [List.filter_eq_self]
    intro m mem
    exact decide_eq_true (h.later.timed m mem)
  calc
    _ = (now.modifications.entries.map Prod.snd).filter fun m => decide (T ≤ m.time) := by
      rw [List.filter_map]
      rfl
    _ = rows := by rw [journal, List.filter_append, before, since, List.nil_append]

theorem inOrder_entriesSince (h : Divides T past now rows) :
    History.inOrder (now.entriesSince T) = now.entriesSince T := by
  refine History.inOrder_eq_self ?_ ?_
  · exact now.modifications.ascending.sublist (List.filter_sublist.map _)
  · exact h.chronological.sublist (List.filter_sublist.map _)

theorem not_mem_addedSince (h : Divides T past now rows) {id : Int} {d : Demon}
    (found : past.demons.find? id = some d) : id ∉ now.addedSince T := by
  intro mem
  obtain ⟨e, recent, rfl⟩ := List.mem_map.1 mem
  obtain ⟨logged, late⟩ := List.mem_filter.1 recent
  rcases h.later.added e logged with old | ⟨-, absent⟩
  · have early : e.2.time.micros < T.micros := h.additions e old
    exact absurd (of_decide_eq_true late) (Int.not_le.2 early)
  · rw [absent] at found
    cases found

theorem wasListed_iff (h : Divides T past now rows) {id : Int} {d' : Demon}
    (found' : now.demons.find? id = some d') : History.wasListed (now.addedSince T) T id d' = true ↔
      ∃ d, past.demons.find? id = some d ∧ d.listed ∧ Demon.Later (T ≤ ·) rows id d d' := by
  simp only [History.wasListed, Bool.and_eq_true, Bool.not_eq_true', decide_eq_true_eq, and_assoc]
  constructor
  · rintro ⟨-, born, remained⟩
    cases found : past.demons.find? id with
    | none =>
      have late : T.micros ≤ d'.createdAt.micros := (h.later.created id d' found' found).1
      exact absurd late (Int.not_le.2 born)
    | some d =>
      have later := h.later.demon found found'
      refine ⟨d, rfl, ?_, later⟩
      by_contra removed
      obtain ⟨r, at_r⟩ := Demon.exists_removedAt removed
      have early : r.micros < T.micros := (h.demons id d found).2 r at_r
      rw [later.final removed, at_r] at remained
      exact absurd (of_decide_eq_true remained) (Int.not_le.2 early)
  · rintro ⟨d, found, listed, later⟩
    refine ⟨?_, later.created ▸ (h.demons id d found).1, ?_⟩
    · rw [← Bool.not_eq_true, List.contains_iff_mem]
      exact h.not_mem_addedSince found
    · rw [Option.all_eq_true]
      intro r at_r
      exact decide_eq_true (later.taken listed r at_r).1

theorem mem_listedBefore (h : Divides T past now rows) {id : Int} {d' : Demon} :
    (id, d') ∈ now.listedBefore T ↔ now.demons.find? id = some d' ∧
      ∃ d, past.demons.find? id = some d ∧ d.listed ∧ Demon.Later (T ≤ ·) rows id d d' := by
  rw [listedBefore, List.mem_filter, ← Table.find?_eq_some_iff]
  exact and_congr_right fun found' => h.wasListed_iff found'

theorem state_of_mem (h : Divides T past now rows) {e : Int × Demon} (mem : e ∈ now.listedBefore T) :
    ∃ d s, past.demons.find? e.1 = some d ∧ d.listed ∧ now.demons.find? e.1 = some e.2 ∧
      History.stateBefore? (History.inOrder (now.entriesSince T)) e.1 e.2 = some s ∧
      s.id = e.1 ∧ s.Shows d e.2 := by
  obtain ⟨found', d, found, listed, later⟩ := h.mem_listedBefore.1 mem
  obtain ⟨i, -, at_i⟩ := h.dense.arranged.placed e.1 d found listed
  rw [← h.rows_eq] at later
  obtain ⟨s, read, same, shows⟩ := History.stateBefore?_of_later later (by rw [at_i]; rfl)
  rw [h.inOrder_entriesSince]
  exact ⟨d, s, found, listed, found', read, same, shows⟩

theorem state_shows (h : Divides T past now rows) {s : DemonState} (mem : s ∈ now.statesBefore T) :
    ∃ d d', past.demons.find? s.id = some d ∧ d.listed ∧ now.demons.find? s.id = some d' ∧ s.Shows d d' := by
  obtain ⟨e, included, read⟩ := List.mem_filterMap.1 mem
  obtain ⟨d, s', found, listed, found', read', same, shows⟩ := h.state_of_mem included
  obtain rfl : s = s' := Option.some_inj.1 (read.symm.trans read')
  exact ⟨d, e.2, same ▸ found, listed, same ▸ found', shows⟩

theorem ids_perm (h : Divides T past now rows) :
    ((now.statesBefore T).map DemonState.id).Perm past.order := by
  have ids : (now.statesBefore T).map DemonState.id = (now.listedBefore T).map Prod.fst := by
    rw [statesBefore, List.map_filterMap, ← List.filterMap_eq_map]
    refine List.filterMap_congr ?_
    intro e mem
    obtain ⟨d, s, -, -, -, read, same, -⟩ := h.state_of_mem mem
    change Option.map _ (History.stateBefore? _ e.1 e.2) = some e.1
    rw [read, Option.map_some, same]
  have nodup : ((now.listedBefore T).map Prod.fst).Nodup :=
    now.demons.nodup_keys.sublist (List.filter_sublist.map _)
  rw [ids]
  refine (List.perm_ext_iff_of_nodup nodup h.dense.arranged.nodup).2 ?_
  intro id
  rw [mem_order]
  constructor
  · intro mem
    obtain ⟨e, included, rfl⟩ := List.mem_map.1 mem
    obtain ⟨d, s, found, listed, -⟩ := h.state_of_mem included
    exact ⟨d, found, listed⟩
  · rintro ⟨d, found, listed⟩
    obtain ⟨d', found', later⟩ := h.later.kept id d found
    exact List.mem_map.2 ⟨(id, d'), h.mem_listedBefore.2 ⟨found', d, found, listed, later⟩, rfl⟩

theorem sorted_states {states : List DemonState} (dense : past.Dense)
    (ids : (states.map DemonState.id).Perm past.order)
    (placed : ∀ s ∈ states, past.positionOf s.id = some s.position) :
    History.sharedPositions states = [] ∧
      (sortOn DemonState.position states).map DemonState.id = past.order := by
  have ascending := dense.arranged.ascending
  have positions : states.map DemonState.position =
      (states.map DemonState.id).map fun id => (past.positionOf id).getD 0 := by
    rw [List.map_map]
    refine List.map_congr_left ?_
    intro s mem
    simp [placed s mem]
  constructor
  · refine History.sharedPositions_eq_nil ?_
    rw [positions, (ids.map _).nodup_iff]
    exact List.pairwise_map.2 (ascending.imp Int.ne_of_lt)
  · refine eq_of_perm_of_ascending (((sortOn_perm _ _).map _).trans ids) ?_ ascending
    rw [List.pairwise_map]
    refine (pairwise_sortOn DemonState.position states).imp_of_mem fun {a b} mem mem' le => ?_
    rw [placed a ((sortOn_perm _ _).mem_iff.1 mem), placed b ((sortOn_perm _ _).mem_iff.1 mem')]
    exact le

/-- The list at a moment that divides two databases is the past one's. -/
theorem listAt (h : Divides T past now rows) {time : Timestamp} (at_T : time.utc? = some T) :
    ∃ states, now.listAt time = .ok states ∧ states.map DemonState.id = past.order ∧
      ∀ s ∈ states, ∃ d d', past.demons.find? s.id = some d ∧ d.listed ∧ now.demons.find? s.id = some d' ∧
        s.Shows d d' := by
  obtain ⟨unshared, order⟩ := sorted_states h.dense h.ids_perm fun s mem => by
    obtain ⟨d, d', found, -, -, shows⟩ := h.state_shows mem
    rw [positionOf, found]
    exact shows.position
  have placed : ∀ e ∈ now.listedBefore T,
      (History.stateBefore? (History.inOrder (now.entriesSince T)) e.1 e.2).isSome := by
    intro e mem
    obtain ⟨d, s, -, -, -, read, -⟩ := h.state_of_mem mem
    rw [read]
    rfl
  refine ⟨_, listAt_eq_ok at_T placed unshared, order, ?_⟩
  intro s mem
  exact h.state_shows ((sortOn_perm _ _).mem_iff.1 mem)

end Divides

end Database

/-- Whether a step is no edit of the list at a moment or later. -/
def Step.precedes (T : Moment) (s : Step) : Bool := s.time?.all fun t => decide (t < T)

def stepsBefore (T : Moment) (steps : List Step) : List Step := steps.takeWhile (Step.precedes T)

section Cut

variable {T t : Moment} {s : Step} {steps : List Step}

theorem lt_of_mem_stepsBefore (mem : s ∈ stepsBefore T steps) (at_t : s.time? = some t) : t < T := by
  have early := List.mem_takeWhile_imp mem
  rw [Step.precedes, at_t] at early
  exact of_decide_eq_true early

theorem exists_stepsFrom (monotone : (steps.filterMap Step.time?).Pairwise (· ≤ ·)) :
    ∃ later, steps = stepsBefore T steps ++ later ∧ ∀ s ∈ later, ∀ t, s.time? = some t → T ≤ t := by
  induction steps with
  | nil => exact ⟨[], rfl, fun s mem => absurd mem List.not_mem_nil⟩
  | cons s rest ih =>
    by_cases early : Step.precedes T s
    · obtain ⟨later, split, since⟩ := ih (monotone.sublist ((List.sublist_cons_self s rest).filterMap _))
      refine ⟨later, ?_, since⟩
      rw [stepsBefore, List.takeWhile_cons_of_pos early, List.cons_append, ← stepsBefore, ← split]
    · refine ⟨s :: rest, ?_, ?_⟩
      · rw [stepsBefore, List.takeWhile_cons_of_neg early, List.nil_append]
      · cases at_s : s.time? with
        | none =>
          rw [Step.precedes, at_s] at early
          exact absurd rfl early
        | some first =>
          rw [Step.precedes, at_s, Option.all_some, decide_eq_true_eq] at early
          have late : T.micros ≤ first.micros := Int.not_lt.1 early
          rw [List.filterMap_cons_some at_s, List.pairwise_cons] at monotone
          intro s' mem t at_t
          rcases List.mem_cons.1 mem with rfl | mem
          · rw [at_s, Option.some_inj] at at_t
            exact at_t ▸ late
          · exact Int.le_trans late (monotone.1 t (List.mem_filterMap.2 ⟨s', mem, at_t⟩))

end Cut

namespace Database

variable {α : Type} [Scalar α] {db : Database α} {steps : List Step} {T : Moment}

/-- Any moment divides a session that starts without demons and without a log of them. -/
theorem divides_session (bare : SameList empty db) (monotone : (steps.filterMap Step.time?).Pairwise (· ≤ ·)) :
    ∃ rows, Divides T (db.after (stepsBefore T steps)) (db.after steps) rows := by
  obtain ⟨later, split, since⟩ := exists_stepsFrom (T := T) monotone
  obtain ⟨rows, before⟩ := later_after db (· < T) fun s mem t => lt_of_mem_stepsBefore mem
  obtain ⟨rows', after⟩ := later_after (db.after (stepsBefore T steps)) (T ≤ ·) since
  rw [← after_append, ← split] at after
  have past := (Later.of_sameList bare).trans before
  have journal : db.journal = [] := by simp [Database.journal, bare.modifications, empty, Table.empty]
  refine ⟨rows', after, ?_, ?_, ?_, ?_, ?_⟩
  · intro m mem
    rw [before.journal, journal, List.nil_append] at mem
    exact before.timed m mem
  · intro id d found
    obtain ⟨born, taken⟩ := past.created id d found rfl
    exact ⟨born, fun r removed => (taken r removed).1⟩
  · intro e mem
    rcases past.added e mem with old | ⟨time, -⟩
    · cases old
    · exact time
  · exact chronological_after journal monotone
  · have dense : (empty : Database α).Dense := List.Perm.refl _
    exact (dense.congr bare.demons).after _

/-- Time travel is exact: at any moment the list is the one that the edits before that moment had left, with
every demon as it was then and where it stands now. -/
theorem listAt_session (bare : SameList empty db) (monotone : (steps.filterMap Step.time?).Pairwise (· ≤ ·))
    {time : Timestamp} (at_T : time.utc? = some T) :
    let past := db.after (stepsBefore T steps)
    let now := db.after steps
    ∃ states, now.listAt time = .ok states ∧ states.map DemonState.id = past.order ∧
      ∀ s ∈ states, ∃ d d', past.demons.find? s.id = some d ∧ d.listed ∧ now.demons.find? s.id = some d' ∧
        s.Shows d d' ∧ (¬ d'.listed → s.currentPosition = none) := by
  intro past now
  obtain ⟨rows, divides⟩ := divides_session (T := T) bare monotone
  obtain ⟨states, read, order, shown⟩ := divides.listAt at_T
  refine ⟨states, read, order, ?_⟩
  intro s mem
  obtain ⟨d, d', found, listed, found', shows⟩ := shown s mem
  refine ⟨d, d', found, listed, found', shows, ?_⟩
  intro removed
  obtain ⟨rows, whole⟩ : ∃ rows, Later (fun _ => True) db now rows :=
    later_after db (fun _ => True) fun _ _ _ _ => trivial
  obtain ⟨-, taken⟩ := ((Later.of_sameList bare).trans whole).created s.id d' found' rfl
  obtain ⟨r, at_r⟩ := Demon.exists_removedAt removed
  rw [shows.current]
  exact (taken r at_r).2

/-- Two demons are added, the second above the first, and the first is removed: before the removal it was the
second of two. -/
theorem listAt_session_of_two :
    let stamp (t : Int) : Stamp := ⟨none, some ⟨⟨t⟩, none⟩⟩
    let level (name : String) : NewDemon := ⟨some name, some 1, some 50, none, some 7, some 7, none⟩
    let steps : List Step :=
      [⟨.call (.addDemon (level "a") (stamp 10)), ⟨0⟩, .absent⟩,
       ⟨.call (.addDemon (level "b") (stamp 20)), ⟨0⟩, .absent⟩,
       ⟨.call (.removeDemon 1 (stamp 30)), ⟨0⟩, .absent⟩]
    ∃ states, ((empty : Database Float).after steps).listAt ⟨⟨30⟩, none⟩ = .ok states ∧
      states.map DemonState.id = [2, 1] := by
  intro stamp level steps
  have bare : SameList empty (empty : Database Float) := ⟨rfl, rfl, rfl⟩
  have monotone : (steps.filterMap Step.time?).Pairwise (· ≤ ·) := by decide
  have at_T : (⟨⟨30⟩, none⟩ : Timestamp).utc? = some ⟨30⟩ := rfl
  obtain ⟨states, read, order, -⟩ := listAt_session bare monotone at_T
  refine ⟨states, read, order.trans ?_⟩
  decide

end Database

end DemonBoard
