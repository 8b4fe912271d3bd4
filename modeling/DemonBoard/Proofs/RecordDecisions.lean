import DemonBoard.Proofs.Competitors

/-! Decisions about records. A decision that is no approval leaves the attempts that count as they are. An approval adds
one attempt, which concerns nobody but those for whom the record's player counts, and takes none away; if it takes the
place of another member's best, it is because it is better. -/

namespace DemonBoard

theorem Status.ne_approved_of_successor {status next : Status} (h : next ∈ status.successors) : status ≠ .approved := by
  rintro rfl
  cases h

namespace Database

variable {α : Type} {db : Database α} {recordId : Int} {record : Record} {status : Status} {counts : Int → Bool}
  {c : Competitor} {id : Int} {d : Demon} {progress : Int}

def judged (db : Database α) (recordId : Int) (record : Record) (status : Status) : Database α :=
  { db with records := db.records.modify recordId fun _ => { record with status } }

theorem find?_judged (found : db.records.find? recordId = some record) (id : Int) :
    (db.judged recordId record status).records.find? id =
      if id = recordId then some { record with status } else db.records.find? id :=
  Table.find?_modify_of_found found _ id

theorem attempt_of_judged (found : db.records.find? recordId = some record)
    (other : status ≠ .approved ∨ counts record.playerId = false)
    (attempt : progress ∈ (db.judged recordId record status).attempts counts id d) :
    progress ∈ db.attempts counts id d := by
  rcases mem_attempts.1 attempt with ⟨id', record', found', approved, about, counted, rfl⟩ | verified
  · rw [find?_judged found] at found'
    split at found'
    · cases found'
      rcases other with pending | uncounted
      · exact absurd approved pending
      · rw [uncounted] at counted
        cases counted
    · exact mem_attempts.2 (.inl ⟨id', record', found', approved, about, counted, rfl⟩)
  · exact mem_attempts.2 (.inr verified)

theorem attempt_judged (found : db.records.find? recordId = some record) (pending : record.status ≠ .approved)
    (attempt : progress ∈ db.attempts counts id d) :
    progress ∈ (db.judged recordId record status).attempts counts id d := by
  rcases mem_attempts.1 attempt with ⟨id', record', found', approved, about, counted, rfl⟩ | verified
  · have other : id' ≠ recordId := by
      rintro rfl
      rw [found, Option.some_inj] at found'
      exact pending (found' ▸ approved)
    refine mem_attempts.2 (.inl ⟨id', record', ?_, approved, about, counted, rfl⟩)
    rw [find?_judged found, if_neg other]
    exact found'
  · exact mem_attempts.2 (.inr verified)

theorem countsFor_judged (c : Competitor) : (db.judged recordId record status).countsFor c = db.countsFor c := by
  cases c <;> rfl

theorem knows_judged (c : Competitor) : (db.judged recordId record status).knows c = db.knows c := by
  cases c <;> rfl

/-- Nothing else is due to those for whom no approval counts. -/
theorem due_judged [Scalar α] (found : db.records.find? recordId = some record) (pending : record.status ≠ .approved)
    (other : status ≠ .approved ∨ db.countsFor c record.playerId = false) :
    (db.judged recordId record status).due c = db.due c := by
  have same : (db.judged recordId record status).efforts (db.countsFor c) = db.efforts (db.countsFor c) :=
    efforts_congr rfl fun e _ => bestProgress_congr fun progress =>
      ⟨attempt_of_judged found other, attempt_judged found pending⟩
  rw [due, countsFor_judged, same, due]

theorem due_le_judged {db : Database ℝ} (found : db.records.find? recordId = some record)
    (pending : record.status ≠ .approved) (c : Competitor) (pool : Pool) :
    (db.due c).inPool pool ≤ ((db.judged recordId record status).due c).inPool pool := by
  unfold due
  rw [countsFor_judged]
  exact tally_efforts_mono rfl fun id d progress => attempt_judged found pending

theorem decision_cases [Scalar α] (faults : Faults) (now : Moment) (found : db.records.find? recordId = some record) :
    (db.perform faults now (.setRecordStatus recordId status)).state = db ∨
      record.status ≠ .approved ∧ ∃ change, db.mutate now (.setRecordStatus recordId status) = .ok change ∧
        change.database = db.judged recordId record status := by
  cases done : db.mutate now (.setRecordStatus recordId status) with
  | error e => exact .inl (state_of_idle faults (.inl ⟨e, done⟩))
  | ok change =>
    obtain ⟨record', found', ⟨-, rfl⟩ | ⟨-, next, rfl⟩⟩ := setRecordStatus_eq_ok_iff.1 done
    · exact .inl (state_of_idle faults (.inr ⟨_, done⟩))
    · obtain rfl : record = record' := Option.some_inj.1 (found.symm.trans found')
      exact .inr ⟨Status.ne_approved_of_successor next, _, rfl, rfl⟩

/-- A decision that is no approval changes no total and no standing. An approval changes no total but those of the
player and of the player's nation and subdivision, and in exact arithmetic it lessens none. -/
theorem decisions_local_and_monotone :
    (∀ {α : Type} [Scalar α] (db : Database α) faults now recordId status record, db.Fresh →
      db.records.find? recordId = some record →
      let after := (db.perform faults now (.setRecordStatus recordId status)).state
      (status ≠ .approved → ∀ scope, SameBoard scope db after) ∧
        ∀ c, db.countsFor c record.playerId = false → after.totals? c = db.totals? c) ∧
    ∀ (db : Database ℝ) faults now recordId status record, db.Fresh → db.records.find? recordId = some record →
      let after := (db.perform faults now (.setRecordStatus recordId status)).state
      ∀ c pool, (db.total c).inPool pool ≤ (after.total c).inPool pool := by
  constructor
  · intro α _ db faults now recordId status record fresh found after
    rcases decision_cases faults now found with kept | ⟨pending, change, done, same⟩
    · rw [show after = db from kept]
      exact ⟨fun _ scope => .refl scope db, fun _ _ => rfl⟩
    · constructor
      · intro other
        refine fresh.sameBoard_perform done faults ?_
        rw [same]
        exact ⟨rfl, rfl, rfl, fun c => due_judged found pending (.inl other)⟩
      · intro c uncounted
        refine fresh.totals?_perform done faults ?_ ?_
        · rw [same, knows_judged]
        · rw [same]
          exact due_judged found pending (.inr uncounted)
  · intro db faults now recordId status record fresh found after c pool
    rcases decision_cases faults now found with kept | ⟨pending, change, done, same⟩
    · rw [show after = db from kept]
    · have known : change.database.knows c = db.knows c := by rw [same, knows_judged]
      rcases fresh.total_perform done faults known with kept | ⟨before, follows⟩
      · rw [show after.total c = db.total c from kept]
      · rw [before, show after.total c = change.database.due c from follows, same]
        exact due_le_judged found pending c pool

/-- A completion is waiting behind a compatriot's partial record: to approve it changes nothing for the compatriot or
for the nation of a banned verifier and does not lessen the total of their nation, and to reject it changes no board. -/
theorem decisions_local_and_monotone_of_three :
    let first : Demon := ⟨"a", some 1, 50, none, 3, 3, true, ⟨0⟩, none⟩
    let filed (α : Type) [Scalar α] : Database α := { (empty : Database α) with
      nations := ⟨[("DE", ⟨"Germany", none⟩), ("FR", ⟨"France", none⟩)], by decide⟩
      players := ((Table.empty.append ⟨"p", some "FR", none, false⟩).append ⟨"q", some "FR", none, false⟩).append
        ⟨"r", some "DE", none, true⟩
      demons := Table.empty.append first
      records := (Table.empty.append ⟨2, 1, 80, .approved⟩).append ⟨1, 1, 100, .submitted⟩ }
    let ranked := ((filed Float).recomputeAll .absent).state
    let exact := ((filed ℝ).recomputeAll .absent).state
    let approved := (ranked.perform .absent ⟨5⟩ (.setRecordStatus 2 .approved)).state
    let rejected := (ranked.perform .absent ⟨5⟩ (.setRecordStatus 2 .rejected)).state
    approved.totals? (.player 2) = ranked.totals? (.player 2) ∧
      approved.totals? (.nation "DE") = ranked.totals? (.nation "DE") ∧ SameBoard .nation ranked rejected ∧
      (exact.total (.nation "FR")).inPool .rated ≤
        ((exact.perform .absent ⟨5⟩ (.setRecordStatus 2 .approved)).state.total (.nation "FR")).inPool .rated := by
  intro first filed ranked exact approved rejected
  obtain ⟨frames, growth⟩ := decisions_local_and_monotone
  have tables : ranked = Scope.all.foldl pass (filed Float) := (recompute_absent _ Scope.all).1
  have tables' : exact = Scope.all.foldl pass (filed ℝ) := (recompute_absent _ Scope.all).1
  have fresh : ranked.Fresh := fresh_recomputeAll _
  have found : ranked.records.find? 2 = some ⟨1, 1, 100, .submitted⟩ := by
    rw [tables]
    rfl
  have found' : exact.records.find? 2 = some ⟨1, 1, 100, .submitted⟩ := by
    rw [tables']
    rfl
  obtain ⟨-, apart⟩ := frames ranked .absent ⟨5⟩ 2 .approved _ fresh found
  refine ⟨apart (.player 2) rfl, apart (.nation "DE") ?_, ?_, ?_⟩
  · rw [tables]
    rfl
  · exact (frames ranked .absent ⟨5⟩ 2 .rejected _ fresh found).1 nofun .nation
  · exact growth exact .absent ⟨5⟩ 2 .approved _ (fresh_recomputeAll _) found' (.nation "FR") .rated

end Database

end DemonBoard
