import DemonBoard.Proofs.Freshness
import DemonBoard.Proofs.ListEdits

/-! When an edit of the list is refused. On a dense list the checks that an edit makes on its way are those of its
arguments: shifting keeps the list dense, so the last check has nothing to object to. What an edit has written by the
time that it is refused is rolled back. -/

namespace DemonBoard

/-- The time of an edit, if one is given, is in the calendar once it is told in UTC. -/
def Stamp.Datable (stamp : Stamp) : Prop := ∀ t ∈ stamp.time, t.utc?.isSome

instance (stamp : Stamp) : Decidable stamp.Datable := inferInstanceAs (Decidable (∀ t ∈ stamp.time, _))

theorem exists_effectiveTime_iff {now : Moment} {stamp : Stamp} :
    (∃ time, effectiveTime now stamp.time = .ok time) ↔ stamp.Datable := by
  unfold effectiveTime Stamp.Datable
  cases stamp.time with
  | none => simp
  | some t => cases utc : t.utc? <;> simp [utc]

/-- The user who makes an edit, if one is given, can be written into the log. -/
def Stamp.Loggable (stamp : Stamp) : Prop := stamp.userId.all isStorable = true

instance (stamp : Stamp) : Decidable stamp.Loggable := inferInstanceAs (Decidable (_ = _))

def Field.nullable : Field → Bool
  | .position | .video => true
  | .name | .requirement | .verifier | .publisher | .rated => false

theorem Demon.isSome_get {f : Field} (required : f.nullable = false) (d : Demon) : (d.get f).isSome := by
  cases f with
  | position | video => cases required
  | name | requirement | verifier | publisher | rated => rfl

theorem Edit.exists_required_iff {β : Type} {old : β} {edit : Edit β} :
    (∃ value, edit.required old = some value) ↔ edit ≠ .set none := by
  cases edit with
  | keep => simp [Edit.required]
  | set value => cases value <;> simp [Edit.required]

/-- An edit takes no value away that must be there. -/
def Changes.KeepsRequired (changes : Changes) : Prop := ∀ f : Field, f.nullable = false → changes.edit f ≠ .set .none

theorem Demon.keepsRequired_of_unchanged {d : Demon} {changes : Changes}
    (same : (changedFields d.get changes).isEmpty = true) : changes.KeepsRequired := by
  intro f required taken
  have present := d.isSome_get required
  rw [isEmpty_changedFields.1 same f none taken] at present
  cases present

theorem Demon.exists_edited_iff {d : Demon} {changes : Changes} :
    (∃ patched, d.edited? changes.edit = some patched) ↔ changes.KeepsRequired := by
  constructor
  · rintro ⟨patched, edited⟩ f required taken
    have absent := Demon.get_edited edited f
    rw [taken] at absent
    have present := patched.isSome_get required
    rw [absent] at present
    cases present
  · intro keeps
    obtain ⟨name, hname⟩ := Edit.exists_required_iff.2 (keeps .name rfl)
    obtain ⟨requirement, hrequirement⟩ := Edit.exists_required_iff.2 (keeps .requirement rfl)
    obtain ⟨verifier, hverifier⟩ := Edit.exists_required_iff.2 (keeps .verifier rfl)
    obtain ⟨publisher, hpublisher⟩ := Edit.exists_required_iff.2 (keeps .publisher rfl)
    obtain ⟨rated, hrated⟩ := Edit.exists_required_iff.2 (keeps .rated rfl)
    simp only [edited?, Option.bind_eq_bind, Option.bind_eq_some_iff, Option.pure_def, Option.some.injEq]
    exact ⟨_, name, hname, requirement, hrequirement, verifier, hverifier, publisher, hpublisher, rated, hrated, rfl⟩

theorem Changes.requireKnown_eq_ok_iff {changes : Changes} {u : Unit} :
    changes.requireKnown = .ok u ↔ changes.unknown = [] := by
  unfold requireKnown
  split
  · simp_all
  · simp_all

theorem Changes.requireFitting_eq_ok_iff {changes : Changes} {fields : List Field} {u : Unit} :
    changes.requireFitting fields = .ok u ↔ ∀ f ∈ fields, ∀ v, changes.edit f = .set (some v) → f.fits v = true := by
  have fits (f : Field) : (changes.edit f).value?.all f.fits = true ↔
      ∀ v, changes.edit f = .set (some v) → f.fits v = true := by
    cases changes.edit f with
    | keep => simp [Edit.value?]
    | set value => cases value <;> simp [Edit.value?]
  unfold requireFitting
  simp only [← fits, ← List.all_eq_true]
  split <;> simp_all

namespace Database

variable {α : Type} {db : Database α} {now : Moment} {stamp : Stamp} {id : Int}

def Lists (db : Database α) (id : Int) : Prop := ∃ d, db.demons.find? id = some d ∧ d.listed

section Adding

variable {n : NewDemon} {p r : Int}

end Adding

section Patching

variable {changes : Changes} {d : Demon}

/-- A change names no position other than the old one, or one that is on the list. -/
def MayMove (db : Database α) (old : Option Int) (changes : Changes) : Prop :=
  ∀ q, changes.edit .position = .set (some q) → old ≠ some q → 1 ≤ q ∧ q ≤ db.listSize

theorem exists_makeRoom_iff {p : Int} (userId : Option Int) (time : Moment)
    (whole : changes.edit .position ≠ .set .none) :
    (∃ shifted, db.makeRoom (some p) (changes.edit .position) userId time = .ok shifted) ↔
      db.MayMove (some p) changes := by
  constructor
  · rintro ⟨shifted, room⟩ q move other
    rcases makeRoom_cases room with ⟨kept | kept, -⟩ | ⟨-, q', -, move', -, inside, -⟩
    · rw [kept] at move
      cases move
    · exact absurd (Edit.set.inj (kept.symm.trans move)) other
    · rw [move'] at move
      cases move
      exact inside
  · intro may
    cases edit : changes.edit .position with
    | keep => exact ⟨db, rfl⟩
    | set value =>
      cases value with
      | none => exact absurd edit whole
      | some q =>
        by_cases here : some p = some q
        · exact ⟨db, if_pos here⟩
        · refine ⟨db.displaced p q userId time, (if_neg here).trans ?_⟩
          simp only [bind_eq_ok, requireComparable_eq_ok_iff]
          refine ⟨q, rfl, (), requirePosition_eq_ok_iff.2 (may q edit here), ?_⟩
          unfold displaced
          split <;> rfl

theorem requireRequirement_eq_ok_iff {edit : Edit Int} (whole : edit ≠ .set .none) :
    requireRequirement edit = .ok () ↔ ∀ r, edit = .set (some r) → 0 ≤ r ∧ r ≤ 100 := by
  cases edit with
  | keep => simp [requireRequirement]
  | set value =>
    cases value with
    | none => exact absurd rfl whole
    | some r =>
      simp only [requireRequirement, bind_eq_ok, requireComparable_eq_ok_iff, requirePercentage_eq_ok_iff]
      simp [isPercentage]

theorem mayMove_of_unchanged (same : (changedFields d.get changes).isEmpty = true) : db.MayMove d.position changes :=
  fun q move other => absurd (isEmpty_changedFields.1 same .position (some q) move) other

def Alters (db : Database α) (id : Int) (changes : Changes) (f : Field) (v : Option f.Value) : Prop :=
  changes.edit f = .set v ∧ ∃ d, db.demons.find? id = some d ∧ d.get f ≠ v

theorem alters_iff (found : db.demons.find? id = some d) {f : Field} {v : Option f.Value} :
    db.Alters id changes f v ↔ changes.edit f = .set v ∧ d.get f ≠ v := by
  simp [Alters, found]

/-- What a change writes can be written: its new values and, if there are any, the user who makes it. -/
def MayWrite (db : Database α) (id : Int) (changes : Changes) (stamp : Stamp) : Prop :=
  (∀ f v, db.Alters id changes f (some v) → f.fits v = true) ∧ ((∃ f v, db.Alters id changes f v) → stamp.Loggable)

theorem mayWrite_iff (found : db.demons.find? id = some d) : db.MayWrite id changes stamp ↔
    (changedFields d.get changes).isEmpty = true ∨
      changes.requireFitting (changedFields d.get changes).fields = .ok () ∧ stamp.Loggable := by
  rw [isEmpty_changedFields, Changes.requireFitting_eq_ok_iff]
  simp only [MayWrite, alters_iff found, mem_changedFields]
  constructor
  · rintro ⟨fits, loggable⟩
    by_cases altered : ∃ f v, changes.edit f = .set v ∧ d.get f ≠ v
    · refine .inr ⟨?_, loggable altered⟩
      rintro f ⟨v, edit, ne⟩ v' edit'
      exact fits f v' ⟨edit', Edit.set.inj (edit.symm.trans edit') ▸ ne⟩
    · exact .inl (by simpa using altered)
  · rintro (same | ⟨fits, loggable⟩)
    · exact ⟨fun f v h => absurd (same f _ h.1) h.2, fun ⟨f, v, h⟩ => absurd (same f v h.1) h.2⟩
    · exact ⟨fun f v h => fits f ⟨_, h⟩ v h.1, fun _ => loggable⟩

/-- A change of a demon is accepted if it names logged fields only, its time and requirement are in range, the demon is
listed, a new position is on the list, what must be there stays there, and what is new fits. -/
theorem Dense.exists_patchDemon_iff (dense : db.Dense) (whole : changes.edit .position ≠ .set .none)
    (whole' : changes.edit .requirement ≠ .set .none) :
    (∃ change, db.mutate now (.patchDemon id changes stamp) = .ok change) ↔
      changes.unknown = [] ∧ (∀ r, changes.edit .requirement = .set (some r) → 0 ≤ r ∧ r ≤ 100) ∧
        db.Lists id ∧ db.MayMove (db.positionOf id) changes ∧ changes.KeepsRequired ∧ db.MayWrite id changes stamp ∧
        stamp.Datable := by
  simp only [patchDemon_eq_ok_iff, Changes.requireKnown_eq_ok_iff, requireRequirement_eq_ok_iff whole']
  constructor
  · rintro ⟨change, ⟨known, required⟩, time, d, dated, found, listed, outcome⟩
    obtain ⟨i, -, at_p⟩ := dense.arranged.placed id d found listed
    have position : db.positionOf id = d.position := by simp [positionOf, found]
    suffices accepted : db.MayMove d.position changes ∧ changes.KeepsRequired ∧ db.MayWrite id changes stamp by
      rw [position]
      exact ⟨known, required, ⟨d, found, listed⟩, accepted.1, accepted.2.1, accepted.2.2,
        exists_effectiveTime_iff.1 ⟨time, dated⟩⟩
    rw [mayWrite_iff found]
    rcases outcome with ⟨same, -⟩ | ⟨-, shifted, patched, room, edited, ⟨fits, loggable⟩, -, -⟩
    · exact ⟨mayMove_of_unchanged same, Demon.keepsRequired_of_unchanged same, .inl same⟩
    · rw [at_p] at room ⊢
      exact ⟨(exists_makeRoom_iff _ _ whole).1 ⟨shifted, room⟩, Demon.exists_edited_iff.1 ⟨patched, edited⟩,
        .inr ⟨fits, loggable⟩⟩
  · rintro ⟨known, percentage, ⟨d, found, listed⟩, may, keeps, writes, datable⟩
    obtain ⟨time, dated⟩ := exists_effectiveTime_iff.2 datable
    obtain ⟨i, -, at_p⟩ := dense.arranged.placed id d found listed
    have position : db.positionOf id = some ((i : Int) + 1) := by simp [positionOf, found, at_p]
    rw [position] at may
    obtain ⟨shifted, room⟩ := (exists_makeRoom_iff stamp.userId time whole).2 may
    rw [← at_p] at room
    obtain ⟨patched, edited⟩ := Demon.exists_edited_iff.2 keeps
    -- a change of nothing ends before anything is checked that it would write
    by_cases same : (changedFields d.get changes).isEmpty = true
    · exact ⟨_, ⟨known, percentage⟩, time, d, dated, found, listed, .inl ⟨same, rfl⟩⟩
    · obtain ⟨fits, loggable⟩ := ((mayWrite_iff found).1 writes).resolve_left same
      have checked : (shifted.replaced id patched (changedFields d.get changes) stamp.userId time).checkPositions =
          .ok () := by
        rw [checkPositions_eq_ok_iff]
        rcases dense.arranged.patched found listed edited room with ⟨-, arranged⟩ | ⟨q, -, -, -, arranged⟩
        · exact arranged.dense
        · exact arranged.dense
      exact ⟨_, ⟨known, percentage⟩, time, d, dated, found, listed,
        .inr ⟨Bool.eq_false_iff.2 same, shifted, patched, room, edited, ⟨fits, loggable⟩, checked, rfl⟩⟩

end Patching

section Removing

theorem Dense.exists_removeDemon_iff (dense : db.Dense) :
    (∃ change, db.mutate now (.removeDemon id stamp) = .ok change) ↔ db.Lists id ∧ stamp.Datable ∧ stamp.Loggable := by
  simp only [removeDemon_eq_ok_iff]
  constructor
  · rintro ⟨change, time, d, old, dated, found, listed, -, loggable, -, -⟩
    exact ⟨⟨d, found, listed⟩, exists_effectiveTime_iff.1 ⟨time, dated⟩, loggable⟩
  · rintro ⟨⟨d, found, listed⟩, datable, loggable⟩
    obtain ⟨time, dated⟩ := exists_effectiveTime_iff.2 datable
    obtain ⟨i, -, at_p⟩ := dense.arranged.placed id d found listed
    have arranged : Arranged (db.withoutDemon id d (i + 1) stamp.userId time) (db.order.erase id) :=
      dense.arranged.withoutDemon found listed at_p
    exact ⟨_, time, d, i + 1, dated, found, listed, at_p, loggable, checkPositions_eq_ok_iff.2 arranged.dense, rfl⟩

end Removing

section Calls

variable [Scalar α]

end Calls

end Database

end DemonBoard
