import DemonBoard.Proofs.AuditTrail
import DemonBoard.Proofs.TimeTravel

/-! What the log can tell of a field that may be absent. A row holds no value for a field that had none, and
none for a field that did not change, so reading the log from a moment on gives the first value that the
field has had since: for a demon without a video this is the first video that it got, and not its absence. -/

namespace DemonBoard

/-- The steps of a session from its first edit at a moment or later. -/
def stepsFrom (T : Moment) (steps : List Step) : List Step := steps.dropWhile (Step.precedes T)

namespace Database

variable {α : Type}

def valueOf (db : Database α) (id : Int) (f : Field) : Option f.Value :=
  (db.demons.find? id).bind fun d => d.get f

theorem valueOf_eq {db : Database α} {id : Int} {d : Demon} (found : db.demons.find? id = some d) (f : Field) :
    db.valueOf id f = d.get f := by
  rw [valueOf, found, Option.bind_some]

theorem findSome?_valueOf {db : Database α} {id : Int} {d : Demon} (found : db.demons.find? id = some d)
    (dbs : List (Database α)) (f : Field) : (db :: dbs).findSome? (valueOf · id f) =
      (d.get f).or (dbs.findSome? (valueOf · id f)) := by
  rw [List.findSome?_cons, valueOf_eq found]
  cases d.get f <;> rfl

variable [Scalar α] {db : Database α} {steps : List Step} {T : Moment} {rows : List Modification} {id : Int}
  {d d' : Demon}

def stages (db : Database α) : List Step → List (Database α)
  | [] => [db]
  | s :: rest => db :: (db.step s).stages rest

theorem exists_stages (db : Database α) (steps : List Step) : ∃ later, db.stages steps = db :: later := by
  cases steps <;> exact ⟨_, rfl⟩

theorem audited_step (db : Database α) (s : Step) :
    ∃ time userId rows, Audited time userId db (db.step s) rows := by
  unfold step
  cases s.action with
  | call call =>
    rcases sameTables_perform db s.faults s.now call with ⟨change, done, same⟩ | ⟨e, -, kept⟩
    · cases stamped : call.stamp? with
      | some stamp =>
        obtain ⟨time, rows, -, audited⟩ := audited_mutate stamped done
        exact ⟨time, stamp.userId, rows, audited.congr same.sameList⟩
      | none =>
        have untold : Audited s.now none db change.database [] :=
          .of_sameList s.now none (sameList_mutate stamped done)
        exact ⟨s.now, none, [], untold.congr same.sameList⟩
    · refine ⟨s.now, none, [], .of_sameList _ _ ?_⟩
      dsimp only
      rw [kept]
      exact ⟨rfl, rfl, rfl⟩
  | recompute scopes =>
    exact ⟨s.now, none, [], .of_sameList _ _ (sameTables_recompute s.faults db scopes).sameList⟩

/-- The rows of a session lead back from each field of a demon to the first value that it had. -/
theorem first_values (db : Database α) (steps : List Step) :
    ∃ rows, (db.after steps).journal = db.journal ++ rows ∧
      ∀ id d, db.demons.find? id = some d → ∃ d', (db.after steps).demons.find? id = some d' ∧
        ∀ f, (recorded rows id f <|> d'.get f) = (db.stages steps).findSome? (valueOf · id f) := by
  -- the first step's rows come before those of the rest, so the database is taken along
  induction steps generalizing db with
  | nil =>
    refine ⟨[], (List.append_nil _).symm, fun id d found => ⟨d, found, fun f => ?_⟩⟩
    rw [stages, List.findSome?_singleton, valueOf_eq found]
    rfl
  | cons s rest ih =>
    obtain ⟨time, userId, rows, audited⟩ := audited_step db s
    obtain ⟨rows', journal, kept⟩ := ih (db.step s)
    refine ⟨rows ++ rows', ?_, ?_⟩
    · rw [← List.append_assoc, ← audited.journal_eq]
      exact journal
    · intro id d found
      obtain ⟨mid, found', logged⟩ := audited.kept id d found
      obtain ⟨d', found'', first⟩ := kept id mid found'
      refine ⟨d', found'', fun f => ?_⟩
      have recovered := logged.recovers f
      have later := first f
      obtain ⟨others, starts⟩ := exists_stages (db.step s) rest
      simp only [Option.orElse_eq_orElse, Option.orElse_eq_or] at recovered later ⊢
      calc
        _ = (recorded rows id f).or ((recorded rows' id f).or (d'.get f)) := by
          rw [recorded_append, Option.orElse_eq_orElse, Option.orElse_eq_or, Option.or_assoc]
        _ = ((recorded rows id f).or (mid.get f)).or (others.findSome? (valueOf · id f)) := by
          rw [later, starts, findSome?_valueOf found', Option.or_assoc]
        _ = (d.get f).or (((db.step s).stages rest).findSome? (valueOf · id f)) := by
          rw [recovered, starts, findSome?_valueOf found', Option.or_assoc]
        _ = _ := (findSome?_valueOf found _ f).symm

omit [Scalar α] in
theorem mem_statesBefore {time : Timestamp} {states : List DemonState} {s : DemonState}
    (at_T : time.utc? = some T) (read : db.listAt time = .ok states) (mem : s ∈ states) :
    s ∈ db.statesBefore T := by
  rw [listAt_of_utc? at_T] at read
  obtain ⟨-, -, rfl⟩ := History.eq_of_reconstruct read
  exact (sortOn_perm _ _).mem_iff.1 mem

/-- Where a moment divides a session, the list at that moment shows for a demon the first video that the demon
had from then on. -/
theorem Divides.video {now : Database α} (h : Divides T db now rows) (ends : now = db.after steps)
    {s : DemonState} (mem : s ∈ now.statesBefore T) : ∃ d, db.demons.find? s.id = some d ∧
      s.video = (db.stages steps).findSome? (valueOf · s.id .video) := by
  subst ends
  obtain ⟨e, included, read⟩ := List.mem_filterMap.1 mem
  obtain ⟨found', d, found, -, -⟩ := h.mem_listedBefore.1 included
  obtain ⟨rows', journal, kept⟩ := first_values db steps
  obtain ⟨d', same, first⟩ := kept e.1 d found
  rw [found', Option.some_inj] at same
  obtain rfl : rows = rows' := List.append_cancel_left (h.later.journal.symm.trans journal)
  rw [h.inOrder_entriesSince] at read
  obtain ⟨position, -, state⟩ := Option.bind_eq_some_iff.1 read
  cases state
  refine ⟨d, found, ?_⟩
  dsimp only
  rw [← first .video, ← same, History.valueBefore, History.firstValue_eq_recorded, h.rows_eq]

/-- The video that the list at a moment shows for a demon is the first one that the demon had from that moment
on. It is the demon's video of the moment if the demon had one then, or never had one afterwards. -/
theorem listAt_session_video (bare : SameList empty db)
    (monotone : (steps.filterMap Step.time?).Pairwise (· ≤ ·)) {time : Timestamp} (at_T : time.utc? = some T) :
    let past := db.after (stepsBefore T steps)
    let since := past.stages (stepsFrom T steps)
    ∃ states, (db.after steps).listAt time = .ok states ∧ ∀ s ∈ states, ∃ d,
      past.demons.find? s.id = some d ∧ s.video = since.findSome? (valueOf · s.id .video) ∧
      (s.video = d.video ↔ d.video.isSome ∨ ∀ stage ∈ since, stage.valueOf s.id .video = none) := by
  intro past since
  obtain ⟨rows, divides⟩ := divides_session (T := T) bare monotone
  obtain ⟨states, read, -, -⟩ := divides.listAt at_T
  have ends : db.after steps = past.after (stepsFrom T steps) := by
    rw [← after_append, stepsBefore, stepsFrom, List.takeWhile_append_dropWhile]
  refine ⟨states, read, fun s mem => ?_⟩
  obtain ⟨d, found, video⟩ := divides.video ends (mem_statesBefore at_T read mem)
  refine ⟨d, found, video, ?_⟩
  obtain ⟨later, starts⟩ := exists_stages past (stepsFrom T steps)
  have first : since.findSome? (valueOf · s.id .video) =
      d.video.or (later.findSome? (valueOf · s.id .video)) := by
    rw [show since = past :: later from starts]
    exact findSome?_valueOf found later .video
  rw [show s.video = since.findSome? (valueOf · s.id .video) from video]
  cases was : d.video with
  | some v =>
    rw [was] at first
    exact iff_of_true first (.inl rfl)
  | none => exact List.findSome?_eq_none_iff.trans ⟨.inr, fun h => h.resolve_left Bool.false_ne_true⟩

/-- A demon whose video is taken away and replaced by another one: for any moment before, the list shows the
video that it had. -/
theorem listAt_session_video_of_replaced :
    let stamp (t : Int) : Stamp := ⟨none, some ⟨⟨t⟩, none⟩⟩
    let level : NewDemon := ⟨some "a", some 1, some 50, some "x", some 7, some 7, none⟩
    let show_as (video : Option String) : Changes :=
      { edit := fun | .video => .set video | _ => .keep, unknown := [] }
    let steps : List Step :=
      [⟨.call (.addDemon level (stamp 10)), ⟨0⟩, .absent⟩,
       ⟨.call (.patchDemon 1 (show_as none) (stamp 30)), ⟨0⟩, .absent⟩,
       ⟨.call (.patchDemon 1 (show_as (some "y")) (stamp 40)), ⟨0⟩, .absent⟩]
    ∃ states, ((empty : Database Float).after steps).listAt ⟨⟨20⟩, none⟩ = .ok states ∧
      ∀ s ∈ states, s.id = 1 → s.video = some "x" := by
  intro stamp level show_as steps
  have bare : SameList empty (empty : Database Float) := ⟨rfl, rfl, rfl⟩
  have monotone : (steps.filterMap Step.time?).Pairwise (· ≤ ·) := by decide
  have at_T : (⟨⟨20⟩, none⟩ : Timestamp).utc? = some ⟨20⟩ := rfl
  obtain ⟨states, read, shown⟩ := listAt_session_video bare monotone at_T
  refine ⟨states, read, fun s mem first => ?_⟩
  obtain ⟨d, -, video, -⟩ := shown s mem
  rw [video, first]
  decide

/-- A demon that had no video at a moment and has got one since: the list of that moment shows the later
one. -/
theorem listAt_shows_later_video :
    let stamp (t : Int) : Stamp := ⟨none, some ⟨⟨t⟩, none⟩⟩
    let level : NewDemon := ⟨some "a", some 1, some 50, none, some 7, some 7, none⟩
    let steps : List Step :=
      [⟨.call (.addDemon level (stamp 10)), ⟨0⟩, .absent⟩,
       ⟨.call (.patchDemon 1 { edit := fun | .video => .set (some "x") | _ => .keep, unknown := [] } (stamp 30)),
         ⟨0⟩, .absent⟩]
    let past := (empty : Database Float).after (stepsBefore ⟨20⟩ steps)
    (steps.filterMap Step.time?).Pairwise (· ≤ ·) ∧
    ∃ s d, ((empty : Database Float).after steps).listAt ⟨⟨20⟩, none⟩ = .ok [s] ∧
      past.demons.find? s.id = some d ∧ d.video = none ∧ s.video = some "x" := by
  intro stamp level steps past
  have read : ((empty : Database Float).after steps).listAt ⟨⟨20⟩, none⟩ =
      .ok [⟨1, 1, some 1, "a", 50, some "x", 7, 7, true⟩] := by decide +kernel
  exact ⟨by decide, _, ⟨"a", some 1, 50, none, 7, 7, true, ⟨10⟩, none⟩, read, by decide +kernel, rfl, rfl⟩

end Database

end DemonBoard
