import DemonBoard.Proofs.EditLog

/-! What the log remembers. The rows that edits add hold, for every demon that was there before them, each
value that the edits have taken away; read from the first row on they lead back to the demon as it was. -/

namespace DemonBoard

variable {rows rows' : List Modification} {id : Int} {f : Field}

def recorded (rows : List Modification) (id : Int) (f : Field) : Option f.Value :=
  rows.findSome? fun m => if m.demonId = id then m.previous f else none

theorem recorded_append : recorded (rows ++ rows') id f = (recorded rows id f <|> recorded rows' id f) := by
  unfold recorded
  rw [List.findSome?_append]
  cases rows.findSome? fun m => if m.demonId = id then m.previous f else none <;> rfl

theorem recorded_eq_rowsOf (rows : List Modification) (id : Int) (f : Field) :
    recorded rows id f = (rowsOf rows id).findSome? fun m => m.previous f := by
  induction rows with
  | nil => rfl
  | cons m rest ih =>
    unfold recorded rowsOf at *
    by_cases about : m.demonId = id
    · simp [List.findSome?_cons, about, ih]
    · simp [about, ih]

theorem Demon.Logged.recorded_eq {time : Moment} {userId : Option Int} {d d' : Demon}
    (h : Demon.Logged time userId rows id d d') (f : Field) : recorded rows id f = d.lost d' f := by
  rw [recorded_eq_rowsOf]
  rcases h with ⟨same, untold⟩ | ⟨-, told⟩
  · rw [untold]
    exact (if_pos (same f)).symm
  · rw [told, List.findSome?_singleton]

/-- Each field leads back to the value that it had, or else to the one that it has. -/
theorem Demon.Logged.recovers {time : Moment} {userId : Option Int} {d d' : Demon}
    (h : Demon.Logged time userId rows id d d') (f : Field) :
    (recorded rows id f <|> d'.get f) = (d.get f <|> d'.get f) := by
  rw [h.recorded_eq, Demon.lost]
  by_cases same : d.get f = d'.get f
  · rw [if_pos same, same]
    cases d'.get f <;> rfl
  · rw [if_neg same]

/-- What has become of a demon through edits at certain moments, of which rows of the log tell. -/
structure Demon.Later (during : Moment → Prop) (rows : List Modification) (id : Int) (d d' : Demon) : Prop where
  recovers : ∀ f, (d.get f).isSome → (recorded rows id f <|> d'.get f) = d.get f
  created : d'.createdAt = d.createdAt
  final : ¬ d.listed → d' = d
  taken : d.listed → ∀ r ∈ d'.removedAt, during r ∧ d'.position = none

namespace Demon.Later

variable {during : Moment → Prop} {d d' d'' : Demon}

theorem refl (untold : ∀ f, recorded rows id f = none) : Later during rows id d d := by
  refine ⟨?_, rfl, fun _ => rfl, ?_⟩
  · intro f _
    rw [untold f]
    rfl
  · intro listed r removed
    rw [removedAt_of_listed listed] at removed
    cases removed

theorem trans (h : Later during rows id d d') (h' : Later during rows' id d' d'') :
    Later during (rows ++ rows') id d d'' := by
  refine ⟨?_, h'.created.trans h.created, ?_, ?_⟩
  · intro f present
    have first := h.recovers f present
    rw [recorded_append]
    cases held : recorded rows id f with
    | some v =>
      rw [held] at first
      exact first
    | none =>
      rw [held] at first
      have same : d'.get f = d.get f := first
      exact (h'.recovers f (same ▸ present)).trans same
  · intro removed
    have same := h.final removed
    rw [h'.final (same ▸ removed), same]
  · intro listed r removed
    by_cases still : d'.listed
    · exact h'.taken still r removed
    · rw [h'.final still] at removed ⊢
      exact h.taken listed r removed

theorem mono {during' : Moment → Prop} (h : Later during rows id d d') (le : ∀ t, during t → during' t) :
    Later during' rows id d d' :=
  ⟨h.recovers, h.created, h.final, fun listed r removed =>
    ⟨le r (h.taken listed r removed).1, (h.taken listed r removed).2⟩⟩

end Demon.Later

namespace Database

variable {α : Type}

/-- A database and what edits at certain moments have made of it, of which rows of the log tell. -/
structure Later (during : Moment → Prop) (past now : Database α) (rows : List Modification) : Prop where
  journal : now.journal = past.journal ++ rows
  timed : ∀ m ∈ rows, during m.time
  kept : ∀ id d, past.demons.find? id = some d →
    ∃ d', now.demons.find? id = some d' ∧ Demon.Later during rows id d d'
  created : ∀ id d', now.demons.find? id = some d' → past.demons.find? id = none →
    during d'.createdAt ∧ ∀ r ∈ d'.removedAt, during r ∧ d'.position = none
  added : ∀ e ∈ now.additions.entries,
    e ∈ past.additions.entries ∨ during e.2.time ∧ past.demons.find? e.1 = none

namespace Later

variable {during during' : Moment → Prop} {db past mid now : Database α}

theorem of_sameList (same : SameList past now) : Later during past now [] := by
  refine ⟨?_, nofun, ?_, ?_, ?_⟩
  · simp only [Database.journal, same.modifications, List.append_nil]
  · intro id d found
    exact ⟨d, by rw [same.demons, found], Demon.Later.refl fun _ => rfl⟩
  · intro id d' found none
    rw [same.demons, none] at found
    cases found
  · intro e mem
    rw [same.additions] at mem
    exact .inl mem

theorem absent (h : Later during past now rows) (none_now : now.demons.find? id = none) :
    past.demons.find? id = none := by
  cases found : past.demons.find? id with
  | none => rfl
  | some d =>
    obtain ⟨d', found', -⟩ := h.kept id d found
    rw [none_now] at found'
    cases found'

theorem demon {d d' : Demon} (h : Later during past now rows) (found : past.demons.find? id = some d)
    (found' : now.demons.find? id = some d') : Demon.Later during rows id d d' := by
  obtain ⟨e, same, later⟩ := h.kept id d found
  rw [found', Option.some_inj] at same
  exact same ▸ later

theorem trans (h : Later during past mid rows) (h' : Later during mid now rows') :
    Later during past now (rows ++ rows') := by
  refine ⟨?_, ?_, ?_, ?_, ?_⟩
  · rw [h'.journal, h.journal, List.append_assoc]
  · intro m mem
    rcases List.mem_append.1 mem with mem | mem
    · exact h.timed m mem
    · exact h'.timed m mem
  · intro id d found
    obtain ⟨d', found', later⟩ := h.kept id d found
    obtain ⟨d'', found'', later'⟩ := h'.kept id d' found'
    exact ⟨d'', found'', later.trans later'⟩
  · intro id d'' found absent
    cases found' : mid.demons.find? id with
    | none => exact h'.created id d'' found found'
    | some d' =>
      obtain ⟨born, taken⟩ := h.created id d' found' absent
      have later := h'.demon found' found
      refine ⟨later.created ▸ born, ?_⟩
      by_cases listed : d'.listed
      · exact later.taken listed
      · rw [later.final listed]
        exact taken
  · intro e mem
    rcases h'.added e mem with mem | ⟨time, absent⟩
    · exact h.added e mem
    · exact .inr ⟨time, h.absent absent⟩

theorem mono (h : Later during past now rows) (le : ∀ t, during t → during' t) :
    Later during' past now rows := by
  refine ⟨h.journal, fun m mem => le _ (h.timed m mem), ?_, ?_, ?_⟩
  · intro id d found
    obtain ⟨d', found', later⟩ := h.kept id d found
    exact ⟨d', found', later.mono le⟩
  · intro id d' found absent
    obtain ⟨born, taken⟩ := h.created id d' found absent
    exact ⟨le _ born, fun r removed => ⟨le r (taken r removed).1, (taken r removed).2⟩⟩
  · intro e mem
    rcases h.added e mem with old | ⟨time, absent⟩
    · exact .inl old
    · exact .inr ⟨le _ time, absent⟩

end Later

end Database

/-- What an edit at some time makes of a demon apart from its fields. -/
structure Demon.Ages (time : Moment) (d d' : Demon) : Prop where
  created : d'.createdAt = d.createdAt
  final : ¬ d.listed → d' = d
  taken : d.listed → ∀ r ∈ d'.removedAt, r = time ∧ d'.position = none

namespace Demon.Ages

variable {time : Moment} {d d' : Demon}

theorem of_removedAt (created : d'.createdAt = d.createdAt) (removed : d'.removedAt = d.removedAt)
    (final : ¬ d.listed → d' = d) : Ages time d d' := by
  refine ⟨created, final, ?_⟩
  intro listed r taken
  rw [removed, removedAt_of_listed listed] at taken
  cases taken

theorem refl (d : Demon) : Ages time d d := of_removedAt rfl rfl fun _ => rfl

theorem moved (lower : Int) (upper : Option Int) (step : Int) (d : Demon) :
    Ages time d (d.moved lower upper step) :=
  of_removedAt createdAt_moved removedAt_moved moved_of_not_listed

theorem displaced (p q : Int) (d : Demon) : Ages time d (d.displaced p q) := by
  unfold Demon.displaced
  split <;> exact moved ..

theorem edited {changes : Changes} (listed : d.listed) (edited : d.edited? changes.edit = some d') :
    Ages time d d' :=
  of_removedAt (times_edited edited).1 (times_edited edited).2 (absurd listed)

theorem removed (listed : d.listed) : Ages time d { d with position := none, removedAt := some time } := by
  refine ⟨rfl, absurd listed, ?_⟩
  intro _ r taken
  cases taken
  exact ⟨rfl, rfl⟩

end Demon.Ages

namespace Database

variable {α : Type} {db after : Database α} {time now : Moment} {call : Call} {stamp : Stamp} {change : Change α}

structure Ages (time : Moment) (db after : Database α) : Prop where
  kept : ∀ id d d', db.demons.find? id = some d → after.demons.find? id = some d' → d.Ages time d'
  created : ∀ id d', after.demons.find? id = some d' → db.demons.find? id = none →
    d'.createdAt = time ∧ d'.removedAt = none

theorem Ages.of_find? {x : Demon} {g : Demon → Demon}
    (find? : ∀ id', after.demons.find? id' = if id' = id then some x else (db.demons.find? id').map g)
    (others : ∀ d : Demon, d.Ages time (g d)) (kept : ∀ d, db.demons.find? id = some d → d.Ages time x)
    (created : db.demons.find? id = none → x.createdAt = time ∧ x.removedAt = none) : Ages time db after := by
  refine ⟨?_, ?_⟩
  · intro id' d d' found found'
    rw [find?, found] at found'
    split at found'
    · rename_i same
      cases found'
      exact kept d (same ▸ found)
    · cases found'
      exact others d
  · intro id' d' found' absent
    rw [find?, absent] at found'
    split at found'
    · rename_i same
      cases found'
      exact created (same ▸ absent)
    · cases found'

theorem ages_addDemonAt {n : NewDemon} (at_time : effectiveTime now stamp.time = .ok time)
    (done : db.mutate now (.addDemon n stamp) = .ok change) : Ages time db change.database := by
  obtain ⟨time', p, demon, at_time', asked, -, -, logged, -, -, -⟩ := addDemon_eq_ok_iff.1 done
  obtain rfl : time = time' := Except.ok.inj (at_time.symm.trans at_time')
  obtain ⟨additions, -, eq⟩ := logAddition_eq_ok_iff.1 logged
  rw [eq]
  refine .of_find? find?_withDemon (.moved p none 1) ?_ fun _ => ⟨asked.created, asked.listed⟩
  intro d found
  rw [db.demons.find?_nextKey] at found
  cases found

theorem ages_patchDemon {changes : Changes} (done : db.mutate now (.patchDemon id changes stamp) = .ok change) :
    Ages time db change.database := by
  obtain ⟨-, _, demon, -, found, listed, ⟨-, rfl⟩ | ⟨-, shifted, patched, room, edited, -, -, rfl⟩⟩ :=
    patchDemon_eq_ok_iff.1 done
  · refine ⟨fun id d d' found found' => ?_, fun id d' found' absent => ?_⟩
    · rw [found, Option.some_inj] at found'
      exact found' ▸ .refl d
    · rw [absent] at found'
      cases found'
  · obtain ⟨g, others, find?⟩ : ∃ g : Demon → Demon, (∀ d : Demon, d.Ages time (g d)) ∧
        ∀ id', shifted.demons.find? id' = (db.demons.find? id').map g := by
      rcases makeRoom_cases room with ⟨-, rfl⟩ | ⟨p, q, -, -, -, -, rfl⟩
      · exact ⟨fun d => d, .refl, fun id' => Option.map_id'.symm⟩
      · exact ⟨Demon.displaced p q, .displaced p q, find?_displaced⟩
    have still : shifted.demons.find? id = some (g demon) := by
      rw [find?, found]
      rfl
    refine .of_find? (fun id' => (find?_replaced still id').trans (by rw [find?])) others ?_ ?_
    · intro d found'
      rw [found, Option.some_inj] at found'
      exact found' ▸ .edited listed edited
    · intro absent
      rw [found] at absent
      cases absent

theorem ages_removeDemon (at_time : effectiveTime now stamp.time = .ok time)
    (done : db.mutate now (.removeDemon id stamp) = .ok change) : Ages time db change.database := by
  obtain ⟨time', demon, old, at_time', found, listed, -, -, -, rfl⟩ := removeDemon_eq_ok_iff.1 done
  obtain rfl : time = time' := Except.ok.inj (at_time.symm.trans at_time')
  refine .of_find? (find?_withoutDemon found) (.moved (old + 1) none (-1)) ?_ ?_
  · intro d found'
    rw [found, Option.some_inj] at found'
    exact found' ▸ .removed listed
  · intro absent
    rw [found] at absent
    cases absent

theorem ages_mutate (stamped : call.stamp? = some stamp) (at_time : effectiveTime now stamp.time = .ok time)
    (done : db.mutate now call = .ok change) : Ages time db change.database := by
  cases call with
  | addDemon =>
    cases stamped
    exact ages_addDemonAt at_time done
  | patchDemon =>
    cases stamped
    exact ages_patchDemon done
  | removeDemon =>
    cases stamped
    exact ages_removeDemon at_time done
  | setRecordStatus | setPlayerBanned | setPlayerNationality => cases stamped

theorem added_of_enrols {userId : Option Int} (h : call.Enrols time userId db after) :
    ∀ e ∈ after.additions.entries,
      e ∈ db.additions.entries ∨ e.2.time = time ∧ db.demons.find? e.1 = none := by
  intro e mem
  cases call with
  | addDemon =>
    obtain ⟨-, -, perm⟩ := h
    rcases List.mem_cons.1 (perm.mem_iff.1 mem) with rfl | old
    · exact .inr ⟨rfl, db.demons.find?_nextKey⟩
    · exact .inl old
  | _ =>
    rw [show after.additions = db.additions from h] at mem
    exact .inl mem

theorem Later.of_audited {userId : Option Int} (h : Audited time userId db after rows) (ages : Ages time db after)
    (enrols : call.Enrols time userId db after) : Later (· = time) db after rows := by
  refine ⟨h.journal_eq, ?_, ?_, ?_, added_of_enrols enrols⟩
  · intro m mem
    obtain ⟨d, d', -, -, -, row⟩ := h.exists_changed mem
    rw [row]
  · intro id d found
    obtain ⟨d', found', logged⟩ := h.kept id d found
    obtain ⟨created, final, taken⟩ := ages.kept id d d' found found'
    refine ⟨d', found', ⟨?_, created, final, taken⟩⟩
    intro f present
    obtain ⟨v, held⟩ := Option.isSome_iff_exists.1 present
    rw [logged.recovers f, held]
    rfl
  · intro id d' found' absent
    obtain ⟨created, listed⟩ := ages.created id d' found' absent
    refine ⟨created, fun r taken => ?_⟩
    rw [listed] at taken
    cases taken

end Database

/-- The moment at which a call edits the list, unless it is about something else or its time lies outside the
calendar. -/
def Call.time? (now : Moment) (call : Call) : Option Moment :=
  call.stamp?.bind fun stamp => (effectiveTime now stamp.time).toOption

namespace Database

variable {α : Type} {db : Database α} {now : Moment} {call : Call} {change : Change α}

theorem later_mutate (done : db.mutate now call = .ok change) :
    ∃ rows, Later (call.time? now = some ·) db change.database rows := by
  cases stamped : call.stamp? with
  | none => exact ⟨[], Later.of_sameList (sameList_mutate stamped done)⟩
  | some stamp =>
    obtain ⟨time, rows, at_time, audited⟩ := audited_mutate stamped done
    have later := Later.of_audited audited (ages_mutate stamped at_time done) (enrols_mutate stamped at_time done)
    refine ⟨rows, later.mono fun t same => ?_⟩
    rw [Call.time?, stamped, Option.bind_some, at_time, same]
    rfl

theorem find?_mutate_of_not_listed {d : Demon} (done : db.mutate now call = .ok change)
    (found : db.demons.find? id = some d) (removed : ¬ d.listed) :
    change.database.demons.find? id = some d := by
  obtain ⟨rows, later⟩ := later_mutate done
  obtain ⟨d', found', became⟩ := later.kept id d found
  rw [found', became.final removed]

end Database

end DemonBoard
