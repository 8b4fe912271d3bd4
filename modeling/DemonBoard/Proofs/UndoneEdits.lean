import DemonBoard.Proofs.Competitors
import DemonBoard.Proofs.Refusals

/-! Taking edits of the list back. A demon's old values, patched in, bring back its fields and send the demons between
its two positions the way that they came; a new demon, taken off the list again, leaves the others as they were. What
scores come from is then the same as before, and so are the boards. -/

namespace DemonBoard

section Fields

variable {old : FieldValues} {changes : Changes} {f : Field} {d patched : Demon}

/-- The previous values of a change name each field that it alters, with the value before it, and no others. -/
theorem changedFields_cases (old : FieldValues) (changes : Changes) (f : Field) :
    (changedFields old changes).edit f = .keep ∧ (changes.edit f).applied (old f) = old f ∨
      (changedFields old changes).edit f = .set (old f) := by
  dsimp only [changedFields]
  cases changes.edit f with
  | keep => exact .inl ⟨rfl, rfl⟩
  | set new =>
    dsimp only
    split
    · rename_i same
      exact .inl ⟨rfl, same.symm⟩
    · exact .inr rfl

theorem eq_of_changedFields {value : Option f.Value} (named : (changedFields old changes).edit f = .set value) :
    value = old f := by
  rcases changedFields_cases old changes f with ⟨keep, -⟩ | altered
  · rw [keep] at named
    cases named
  · exact Edit.set.inj (named.symm.trans altered)

theorem applied_changedFields (old : FieldValues) (changes : Changes) (f : Field) :
    ((changedFields old changes).edit f).applied ((changes.edit f).applied (old f)) = old f := by
  rcases changedFields_cases old changes f with ⟨keep, same⟩ | altered
  · rw [keep]
    exact same
  · rw [altered]
    rfl

namespace Demon

theorem ext_of_get {d d' : Demon} (get : ∀ f, d.get f = d'.get f) (created : d.createdAt = d'.createdAt)
    (removed : d.removedAt = d'.removedAt) : d = d' := by
  have name := Option.some_inj.1 (get .name)
  have position : d.position = d'.position := get .position
  have requirement := Option.some_inj.1 (get .requirement)
  have video : d.video = d'.video := get .video
  have verifier := Option.some_inj.1 (get .verifier)
  have publisher := Option.some_inj.1 (get .publisher)
  have rated := Option.some_inj.1 (get .rated)
  cases d
  cases d'
  simp_all only

theorem edited_of_unchanged (same : (changedFields d.get changes).isEmpty = true) :
    d.edited? changes.edit = some d := by
  obtain ⟨patched, edited⟩ := exists_edited_iff.2 (keepsRequired_of_unchanged same)
  obtain ⟨created, removed⟩ := times_edited edited
  rw [edited, ext_of_get ?_ created removed]
  intro f
  rw [get_edited edited]
  exact Edit.applied_of_kept (kept_of_not_mem (Changes.not_mem_of_isEmpty same))

/-- What is on file of a demon is what its columns admit. -/
structure Admissible (d : Demon) : Prop where
  requirement : isPercentage d.requirement = true
  verifier : isStorable d.verifierId = true
  publisher : isStorable d.publisherId = true

theorem Admissible.fits (h : d.Admissible) {v : f.Value} (here : d.get f = some v) : f.fits v = true := by
  cases f with
  | verifier => exact Option.some_inj.1 here ▸ h.verifier
  | publisher => exact Option.some_inj.1 here ▸ h.publisher
  | name | position | requirement | video | rated => rfl

theorem keepsRequired_previous (d : Demon) (changes : Changes) : (changedFields d.get changes).KeepsRequired := by
  intro f required taken
  have present := d.isSome_get required
  rw [← eq_of_changedFields taken] at present
  cases present

theorem edited_previous (edited : d.edited? changes.edit = some patched) :
    patched.edited? (changedFields d.get changes).edit = some d := by
  obtain ⟨back, edited'⟩ := exists_edited_iff (d := patched).2 (d.keepsRequired_previous changes)
  obtain ⟨created, removed⟩ := times_edited edited
  obtain ⟨created', removed'⟩ := times_edited edited'
  rw [edited', ext_of_get ?_ (created'.trans created) (removed'.trans removed)]
  intro f
  rw [get_edited edited', get_edited edited, applied_changedFields]

end Demon

end Fields

section Moves

variable {d : Demon} {lower lower' step step' p q : Int} {upper upper' : Option Int}

theorem inRange_between {x u : Int} : inRange lower (some u) (some x) = true ↔ lower ≤ x ∧ x ≤ u := by
  simp [inRange]

theorem inRange_from {x : Int} : inRange lower none (some x) = true ↔ lower ≤ x := by
  simp [inRange]

namespace Demon

theorem moved_of_nowhere (nowhere : d.position = none) : d.moved lower upper step = d := by
  simp [moved, nowhere, inRange]

theorem moved_back (opposite : step + step' = 0) (ranges : ∀ x, d.position = some x →
    (inRange lower' upper' (some (if inRange lower upper (some x) then x + step else x)) ↔
      inRange lower upper (some x))) :
    (d.moved lower upper step).moved lower' upper' step' = d := by
  by_cases listed : d.listed
  · cases at_x : d.position with
    | none => rw [moved_of_nowhere (d := d) at_x, moved_of_nowhere at_x]
    | some x =>
      refine ext_of_get (fun f => ?_) (by simp) (by simp)
      by_cases place : f = .position
      · subst place
        change ((d.moved lower upper step).moved lower' upper' step').position = d.position
        rw [position_moved (by rwa [listed_moved]) (position_moved listed at_x),
          Bool.eq_iff_iff.2 (ranges x at_x), at_x]
        split
        · congr 1
          omega
        · rfl
      · rw [get_moved place, get_moved place]
  · rw [moved_of_not_listed (by rwa [listed_moved]), moved_of_not_listed listed]

theorem moved_pushed (p : Int) : (d.moved p none 1).moved (p + 1) none (-1) = d := by
  refine moved_back (by decide) fun x _ => ?_
  simp only [inRange_from]
  split <;> omega

theorem displaced_same (p : Int) : d.displaced p p = d := by
  rw [displaced, if_neg (Int.lt_irrefl p)]
  cases at_x : d.position with
  | none => exact moved_of_nowhere at_x
  | some x =>
    have outside : ¬ inRange (p + 1) (some p) (some x) := by
      rw [inRange_between]
      omega
    rw [moved, at_x, Bool.eq_false_iff.2 outside, Bool.and_false]
    rfl

theorem displaced_of_not_listed (unlisted : ¬ d.listed) : d.displaced p q = d := by
  unfold displaced
  split <;> exact moved_of_not_listed unlisted

/-- A move from `q` to `p` takes a move from `p` to `q` back, for every demon but the one that stood at `p`. -/
theorem displaced_displaced (other : d.listed → d.position ≠ some p) : (d.displaced p q).displaced q p = d := by
  by_cases listed : d.listed
  case neg => rw [displaced_of_not_listed (by rwa [listed_displaced]), displaced_of_not_listed listed]
  have apart {x : Int} (at_x : d.position = some x) : x ≠ p := fun here => other listed (here ▸ at_x)
  -- nobody else stands at `p`, so the way back moves just those that the way there has moved
  rcases Int.lt_trichotomy q p with up | rfl | down
  · rw [show d.displaced p q = d.moved q (some (p - 1)) 1 from if_pos up, displaced, if_neg (by omega)]
    refine moved_back (by decide) fun x at_x => ?_
    have := apart at_x
    simp only [inRange_between]
    split <;> omega
  · rw [displaced_same, displaced_same]
  · rw [show d.displaced p q = d.moved (p + 1) (some q) (-1) from if_neg (by omega), displaced, if_pos down]
    refine moved_back (by decide) fun x at_x => ?_
    have := apart at_x
    simp only [inRange_between]
    split <;> omega

end Demon

end Moves

namespace Database

variable {α : Type} {db db' : Database α} {now : Moment} {stamp stamp' : Stamp} {change change' : Change α}

section Patching

variable {id : Int} {d : Demon} {changes : Changes} {p : Int}

theorem find?_patchDemon (done : db.mutate now (.patchDemon id changes stamp) = .ok change)
    (found : db.demons.find? id = some d) (at_p : d.position = some p) :
    ∃ patched q, d.edited? changes.edit = some patched ∧ patched.position = some q ∧
      ∀ id', change.database.demons.find? id' =
        if id' = id then some patched else (db.demons.find? id').map (Demon.displaced p q) := by
  have still (id' : Int) : (db.demons.find? id').map (Demon.displaced p p) = db.demons.find? id' := by
    rw [show Demon.displaced p p = fun d => d from funext fun d => d.displaced_same p]
    exact Option.map_id'
  obtain ⟨-, time, d', -, found', -, outcome⟩ := patchDemon_eq_ok_iff.1 done
  obtain rfl : d = d' := Option.some_inj.1 (found.symm.trans found')
  rcases outcome with ⟨same, rfl⟩ | ⟨-, shifted, patched, room, edited, -, -, rfl⟩
  · refine ⟨d, p, Demon.edited_of_unchanged same, at_p, fun id' => ?_⟩
    rw [still]
    split
    · rename_i here
      rw [here, found]
    · rfl
  · have position : patched.position = (changes.edit .position).applied d.position := Demon.get_edited edited .position
    rcases makeRoom_cases room with ⟨kept, rfl⟩ | ⟨p', q, at_p', move, -, -, rfl⟩
    · have stays : patched.position = some p := by rw [position, Edit.applied_of_kept kept, at_p]
      refine ⟨patched, p, edited, stays, fun id' => ?_⟩
      rw [find?_replaced found, still]
    · obtain rfl : p = p' := Option.some_inj.1 (at_p.symm.trans at_p')
      refine ⟨patched, q, edited, by rw [position, move]; rfl, fun id' => ?_⟩
      rw [find?_replaced (by rw [find?_displaced, found, Option.map_some, displaced_self at_p]), find?_displaced]

theorem Dense.demons_undone (dense : db.Dense) (found : db.demons.find? id = some d) (listed : d.listed)
    (done : db.mutate now (.patchDemon id changes stamp) = .ok change) (same : db'.demons = change.database.demons)
    {now' : Moment} (done' : db'.mutate now' (.patchDemon id (changedFields d.get changes) stamp') = .ok change') :
    change'.database.demons = db.demons := by
  obtain ⟨i, -, at_p⟩ := dense.arranged.placed id d found listed
  obtain ⟨patched, q, edited, at_q, rows⟩ := find?_patchDemon done found at_p
  have found' : db'.demons.find? id = some patched := by rw [same, rows, if_pos rfl]
  obtain ⟨back, p, edited', at_p', rows'⟩ := find?_patchDemon done' found' at_q
  obtain rfl : d = back := Option.some_inj.1 ((Demon.edited_previous edited).symm.trans edited')
  obtain rfl : (i : Int) + 1 = p := Option.some_inj.1 (at_p.symm.trans at_p')
  refine Table.ext_find? fun id' => ?_
  rw [rows']
  split
  · rename_i here
    rw [here, found]
  · rename_i other
    rw [same, rows, if_neg other, Option.map_map]
    cases neighbour : db.demons.find? id' with
    | none => rfl
    | some d' =>
      refine congrArg some (Demon.displaced_displaced fun listed' here => other ?_)
      exact dense.eq_of_position ⟨neighbour, listed', here⟩ ⟨found, listed, at_p⟩

theorem Dense.listSize_patchDemon (dense : db.Dense)
    (done : db.mutate now (.patchDemon id changes stamp) = .ok change) :
    change.database.listSize = db.listSize := by
  obtain ⟨d, found, listed, outcome⟩ := dense.arranged.patchDemon done
  have size := dense.arranged.listSize_eq
  have bound {q : Int} (inside : 1 ≤ q ∧ q ≤ db.listSize) : (q - 1).toNat < db.order.length := by omega
  rcases outcome with ⟨-, arranged⟩ | ⟨q, -, -, inside, arranged⟩
  · rw [size, arranged.listSize_eq]
  · rw [size, arranged.listSize_eq]
    exact (reinsert_perm (mem_order.2 ⟨d, found, listed⟩) (bound inside)).length_eq

theorem Dense.exists_undoing (dense : db.Dense) (found : db.demons.find? id = some d) (listed : d.listed)
    (admissible : d.Admissible) (datable : stamp'.Datable) (loggable : stamp'.Loggable)
    (done : db.mutate now (.patchDemon id changes stamp) = .ok change) (dense' : db'.Dense)
    (same : db'.demons = change.database.demons) (now' : Moment) :
    ∃ change', db'.mutate now' (.patchDemon id (changedFields d.get changes) stamp') = .ok change' := by
  obtain ⟨i, at_i, at_p⟩ := dense.arranged.placed id d found listed
  obtain ⟨patched, q, edited, -, rows⟩ := find?_patchDemon done found at_p
  have size : db'.listSize = db.order.length := by
    rw [listSize, listedDemons, same, ← dense.arranged.listSize_eq, ← dense.listSize_patchDemon done]
    rfl
  have onList {p : Int} (here : some p = d.position) : 1 ≤ p ∧ p ≤ db'.listSize := by
    rw [at_p, Option.some_inj] at here
    obtain ⟨bound, -⟩ := List.getElem?_eq_some_iff.1 at_i
    omega
  have whole : (changedFields d.get changes).edit .position ≠ .set none := by
    intro taken
    have nowhere : none = d.position := eq_of_changedFields taken
    rw [at_p] at nowhere
    cases nowhere
  refine (dense'.exists_patchDemon_iff whole (d.keepsRequired_previous changes .requirement rfl)).2
    ⟨rfl, ?_, ?_, ?_, d.keepsRequired_previous changes, ⟨?_, fun _ => loggable⟩, datable⟩
  · intro r named
    obtain rfl : r = d.requirement := Option.some_inj.1 (eq_of_changedFields named)
    simpa [isPercentage] using admissible.requirement
  · refine ⟨patched, by rw [same, rows, if_pos rfl], ?_⟩
    rwa [Demon.listed_edited edited]
  · intro p named _
    exact onList (eq_of_changedFields named)
  · rintro f v ⟨named, -⟩
    exact admissible.fits (eq_of_changedFields named).symm

end Patching

section Adding

variable {n : NewDemon}

theorem find?_addDemonAt (done : db.mutate now (.addDemon n stamp) = .ok change) :
    ∃ demon p, demon.listed ∧ demon.position = some p ∧ ∀ id, change.database.demons.find? id =
      if id = db.demons.nextKey then some demon else (db.demons.find? id).map (Demon.moved p none 1) := by
  obtain ⟨time, p, demon, -, asked, at_p, -, logged, -, -, -⟩ := addDemon_eq_ok_iff.1 done
  obtain ⟨additions, -, eq⟩ := logAddition_eq_ok_iff.1 logged
  refine ⟨demon, p, by simp [Demon.listed, asked.listed], at_p, fun id => ?_⟩
  rw [eq]
  exact find?_withDemon id

theorem demons_removed {id : Int} (done : db.mutate now (.addDemon n stamp) = .ok change)
    (same : db'.demons = change.database.demons) {now' : Moment}
    (done' : db'.mutate now' (.removeDemon db.demons.nextKey stamp') = .ok change') :
    change'.database.demons.find? id = db.demons.find? id ∨
      id = db.demons.nextKey ∧ ∃ d, change'.database.demons.find? id = some d ∧ ¬ d.listed := by
  obtain ⟨demon, p, -, at_p, rows⟩ := find?_addDemonAt done
  obtain ⟨time, demon', p', -, found', -, at_p', -, -, rfl⟩ := removeDemon_eq_ok_iff.1 done'
  have found : db'.demons.find? db.demons.nextKey = some demon := by rw [same, rows, if_pos rfl]
  obtain rfl : demon = demon' := Option.some_inj.1 (found.symm.trans found')
  obtain rfl : p = p' := Option.some_inj.1 (at_p.symm.trans at_p')
  rw [find?_withoutDemon found]
  split
  · rename_i new
    exact .inr ⟨new, _, rfl, by simp [Demon.listed]⟩
  · rename_i old
    rw [same, rows, if_neg old, Option.map_map]
    refine .inl ?_
    cases db.demons.find? id with
    | none => rfl
    | some d => exact congrArg some (d.moved_pushed p)

end Adding

section Boards

structure SameFiles (db db' : Database α) : Prop where
  players : db'.players = db.players
  nations : db'.nations = db.nations
  subdivisions : db'.subdivisions = db.subdivisions
  records : db'.records = db.records

theorem SameFiles.refl (db : Database α) : SameFiles db db := ⟨rfl, rfl, rfl, rfl⟩

theorem SameFiles.trans {db'' : Database α} (h : SameFiles db db') (h' : SameFiles db' db'') : SameFiles db db'' :=
  ⟨h'.players.trans h.players, h'.nations.trans h.nations, h'.subdivisions.trans h.subdivisions,
    h'.records.trans h.records⟩

theorem Logs.sameFiles {rows : List Modification} (h : Logs db db' rows) : SameFiles db db' := by
  rw [h.frame]
  exact ⟨rfl, rfl, rfl, rfl⟩

theorem sameFiles_displaced (db : Database α) (p q : Int) (userId : Option Int) (time : Moment) :
    SameFiles db (db.displaced p q userId time) := by
  unfold displaced
  split <;> exact logs_shift.sameFiles

theorem sameFiles_mutate {call : Call} (stamped : call.stamp? = some stamp) (done : db.mutate now call = .ok change) :
    SameFiles db change.database := by
  cases call with
  | addDemon =>
    cases stamped
    obtain ⟨time, p, demon, -, -, -, -, logged, -, -, -⟩ := addDemon_eq_ok_iff.1 done
    obtain ⟨additions, -, eq⟩ := logAddition_eq_ok_iff.1 logged
    have shifted : SameFiles db (db.shift p none 1 stamp.userId time) := logs_shift.sameFiles
    rw [eq]
    exact shifted.trans ⟨rfl, rfl, rfl, rfl⟩
  | patchDemon =>
    cases stamped
    obtain ⟨-, time, demon, -, -, -, ⟨-, rfl⟩ | ⟨-, shifted, patched, room, -, -, -, rfl⟩⟩ :=
      patchDemon_eq_ok_iff.1 done
    · exact .refl db
    · refine SameFiles.trans ?_ logs_replaced.sameFiles
      rcases makeRoom_cases room with ⟨-, rfl⟩ | ⟨p, q, -, -, -, -, rfl⟩
      · exact .refl _
      · exact sameFiles_displaced db p q stamp.userId time
  | removeDemon =>
    cases stamped
    obtain ⟨time, demon, old, -, -, -, -, -, -, rfl⟩ := removeDemon_eq_ok_iff.1 done
    change SameFiles db (shift _ (old + 1) none (-1) stamp.userId time)
    refine SameFiles.trans ?_ logs_shift.sameFiles
    exact ⟨rfl, rfl, rfl, rfl⟩
  | setRecordStatus | setPlayerBanned | setPlayerNationality => cases stamped

theorem listedDemons_congr
    (same : ∀ id d, d.listed → (db'.demons.find? id = some d ↔ db.demons.find? id = some d)) :
    db'.listedDemons = db.listedDemons := by
  let listed (t : Table Int Demon) : Table Int Demon := t.filter fun _ d => d.listed
  have tables : listed db'.demons = listed db.demons := by
    refine Table.ext_find? fun id => Option.ext fun d => ?_
    rw [Table.find?_eq_some_iff, Table.find?_eq_some_iff]
    change (id, d) ∈ db'.listedDemons ↔ (id, d) ∈ db.listedDemons
    rw [mem_listedDemons, mem_listedDemons]
    exact and_congr_left (same id d)
  exact congrArg Table.entries tables

variable [Scalar α]

theorem SameFiles.sameDue (files : SameFiles db db') (listed : db'.listedDemons = db.listedDemons) :
    SameDue db db' := by
  refine ⟨files.players, files.nations, files.subdivisions, fun c => ?_⟩
  have counts : db'.countsFor c = db.countsFor c := by
    cases c with
    | player => rfl
    | nation | subdivision =>
      unfold countsFor playersWho
      rw [files.players]
  unfold due
  rw [counts, efforts_congr listed]
  intro e _
  unfold bestProgress attempts
  rw [files.records]

def Accepts (db : Database α) (now : Moment) (call : Call) : Prop := ∃ change, db.mutate now call = .ok change

variable {now' : Moment} {edit undo : Call} {faults faults' : Faults}

theorem sameFiles_perform (stamped : edit.stamp? = some stamp) (accepted : db.Accepts now edit) (faults : Faults) :
    SameFiles db (db.perform faults now edit).state := by
  obtain ⟨change, done⟩ := accepted
  refine (sameFiles_mutate stamped done).trans ?_
  rw [sameTables_of_mutate done faults]
  exact ⟨rfl, rfl, rfl, rfl⟩

theorem Fresh.sameBoard_undone (fresh : db.Fresh) (stamped : edit.stamp? = some stamp)
    (stamped' : undo.stamp? = some stamp') (accepted : db.Accepts now edit) (complete : db.Completes faults now edit)
    (accepted' : (db.perform faults now edit).state.Accepts now' undo)
    (complete' : (db.perform faults now edit).state.Completes faults' now' undo)
    (listed : ((db.perform faults now edit).state.perform faults' now' undo).state.listedDemons = db.listedDemons)
    (scope : Scope) : SameBoard scope db ((db.perform faults now edit).state.perform faults' now' undo).state := by
  have files := (sameFiles_perform stamped accepted faults).trans (sameFiles_perform stamped' accepted' faults')
  exact (files.sameDue listed).sameBoard fresh ((fresh.perform faults complete).perform faults' complete') scope

end Boards

/-- Edits of the list can be undone. The values that a change of a demon has altered are accepted as a change back, and
a new demon can be taken off the list; then all the other demons are what they were, and so is a changed one. If the
database was fresh and no pass is given up, so are all totals and ranks. -/
theorem edits_undone [Scalar α] (dense : db.Dense) (faults faults' : Faults) (now now' : Moment) (stamp stamp' : Stamp)
    (datable : stamp'.Datable) (loggable : stamp'.Loggable) :
    (∀ id d (changes : Changes), db.demons.find? id = some d → d.listed → d.Admissible →
      let edit : Call := .patchDemon id changes stamp
      let undo : Call := .patchDemon id (changedFields d.get changes) stamp'
      let edited := (db.perform faults now edit).state
      let undone := (edited.perform faults' now' undo).state
      db.Accepts now edit → edited.Accepts now' undo ∧ undone.demons = db.demons ∧
        (db.Fresh → db.Completes faults now edit → edited.Completes faults' now' undo →
          ∀ scope, SameBoard scope db undone)) ∧
    ∀ n,
      let edit : Call := .addDemon n stamp
      let undo : Call := .removeDemon db.demons.nextKey stamp'
      let edited := (db.perform faults now edit).state
      let undone := (edited.perform faults' now' undo).state
      db.Accepts now edit → edited.Accepts now' undo ∧
        (∀ id ≠ db.demons.nextKey, undone.demons.find? id = db.demons.find? id) ∧
        (db.Fresh → db.Completes faults now edit → edited.Completes faults' now' undo →
          ∀ scope, SameBoard scope db undone) := by
  have dense' (edit : Call) : (db.perform faults now edit).state.Dense := dense.perform faults now edit
  have tables {db : Database α} {faults : Faults} {now : Moment} {call : Call} {change : Change α}
      (done : db.mutate now call = .ok change) : (db.perform faults now call).state.demons = change.database.demons :=
    (sameTables_of_mutate done faults).sameList.demons
  constructor
  · rintro id d changes found listed admissible edit undo edited undone ⟨change, done⟩
    obtain ⟨change', done'⟩ : edited.Accepts now' undo :=
      dense.exists_undoing found listed admissible datable loggable done (dense' edit) (tables done) now'
    have demons : undone.demons = db.demons :=
      (tables done').trans (dense.demons_undone found listed done (tables done) done')
    refine ⟨⟨change', done'⟩, demons, fun fresh complete complete' => ?_⟩
    refine fresh.sameBoard_undone rfl rfl ⟨change, done⟩ complete ⟨change', done'⟩ complete' ?_
    exact listedDemons_congr fun id d _ => iff_of_eq (congrArg (fun t : Table Int Demon => t.find? id = some d) demons)
  · rintro n edit undo edited undone ⟨change, done⟩
    obtain ⟨demon, p, listed, -, rows⟩ := find?_addDemonAt done
    have lists : edited.Lists db.demons.nextKey := ⟨demon, by rw [tables done, rows, if_pos rfl], listed⟩
    obtain ⟨change', done'⟩ : edited.Accepts now' undo :=
      (dense' edit).exists_removeDemon_iff.2 ⟨lists, datable, loggable⟩
    have restored (id : Int) : undone.demons.find? id = db.demons.find? id ∨
        id = db.demons.nextKey ∧ ∃ d, undone.demons.find? id = some d ∧ ¬ d.listed := by
      rw [tables done']
      exact demons_removed done (tables done) done'
    refine ⟨⟨change', done'⟩, fun id old => (restored id).resolve_right fun new => old new.1, ?_⟩
    intro fresh complete complete'
    refine fresh.sameBoard_undone rfl rfl ⟨change, done⟩ complete ⟨change', done'⟩ complete' ?_
    refine listedDemons_congr fun id d listed => ?_
    rcases restored id with same | ⟨rfl, gone, found, unlisted⟩
    · rw [same]
    · rw [found, db.demons.find?_nextKey, Option.some_inj]
      exact iff_of_false (fun here => unlisted (here ▸ listed)) (Option.some_ne_none d).symm

/-- The top demon of three moves to the end and loses its video, and gets both back. A demon put in second place and
taken off again leaves no trace in the others and on the boards. -/
theorem edits_undone_of_three :
    let first : Demon := ⟨"a", some 1, 50, some "v", 1, 1, true, ⟨0⟩, none⟩
    let level (name : String) (position : Int) : Demon := ⟨name, some position, 50, none, 2, 2, true, ⟨0⟩, none⟩
    let db : Database Float := { (empty : Database Float) with
      players := (Table.empty.append ⟨"p", none, none, false⟩).append ⟨"q", none, none, false⟩
      demons := ((Table.empty.append first).append (level "b" 2)).append (level "c" 3) }
    let ranked := (db.recomputeAll .absent).state
    let changes : Changes := ⟨fun | .position => .set (some 3) | .video => .set none | _ => .keep, []⟩
    let next : NewDemon := ⟨some "d", some 2, some 60, none, some 2, some 2, none⟩
    let edited := (ranked.perform .absent ⟨5⟩ (.patchDemon 1 changes ⟨none, none⟩)).state
    let undone := (edited.perform .absent ⟨6⟩ (.patchDemon 1 (changedFields first.get changes) ⟨none, none⟩)).state
    let added := (ranked.perform .absent ⟨5⟩ (.addDemon next ⟨none, none⟩)).state
    let removed := (added.perform .absent ⟨6⟩ (.removeDemon 4 ⟨none, none⟩)).state
    (edited.order = [2, 3, 1] ∧ undone.demons = ranked.demons ∧ ∀ scope, SameBoard scope ranked undone) ∧
      (∀ id ≠ 4, removed.demons.find? id = ranked.demons.find? id) ∧ ∀ scope, SameBoard scope ranked removed := by
  intro first level db ranked changes next
  dsimp only
  have tables : ranked = Scope.all.foldl pass db := (recompute_absent db Scope.all).1
  have demons : ranked.demons = db.demons := by
    rw [tables]
    rfl
  have dense : ranked.Dense := Dense.congr (show db.Dense by decide) demons
  have fresh : ranked.Fresh := db.fresh_recomputeAll
  have patched : ranked.Accepts ⟨5⟩ (.patchDemon 1 changes ⟨none, none⟩) := by
    rw [tables]
    exact ⟨_, rfl⟩
  have entered : ranked.Accepts ⟨5⟩ (.addDemon next ⟨none, none⟩) := by
    rw [tables]
    exact ⟨_, rfl⟩
  have key : ranked.demons.nextKey = 4 := by
    rw [demons]
    rfl
  obtain ⟨patches, additions⟩ := edits_undone dense .absent .absent ⟨5⟩ ⟨6⟩ ⟨none, none⟩ ⟨none, none⟩ (by decide)
    (by decide)
  obtain ⟨-, restored, boards⟩ := patches 1 first changes (by rw [demons]; rfl) rfl ⟨rfl, rfl, rfl⟩ patched
  obtain ⟨-, others, boards'⟩ := additions next entered
  simp only [key] at others boards'
  refine ⟨⟨?_, restored, boards fresh (completes_absent _ _ _) (completes_absent _ _ _)⟩, others,
    boards' fresh (completes_absent _ _ _) (completes_absent _ _ _)⟩
  obtain ⟨change, done⟩ := patched
  obtain ⟨-, -, -, moved, -⟩ := dense.editsList done
  rw [order_congr (sameTables_of_mutate done .absent).sameList.demons, moved, order_congr demons]
  decide

end Database

end DemonBoard
