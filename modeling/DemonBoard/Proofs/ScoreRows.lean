import DemonBoard.Totals
import DemonBoard.Proofs.Arrangement

/-! What the score-giving rows stand for. Each row is an attempt on a listed demon, a completion for the
demon's verifier or what an approved record claims, with what is on file about its player; and each attempt
has a row, unless it is a partial one outside the window. -/

namespace DemonBoard

section Selection

variable {records : List (Int × Record)} {demons : List ListedDemon} {players : List (Int × Member)} {window : Int}

def memberIn (players : List (Int × Member)) (playerId : Int) : Member :=
  ((players.find? fun e => e.1 = playerId).map Prod.snd).getD .unknown

theorem membersOf_eq (filed : (players.map Prod.fst).Nodup) (playerId : Int) :
    membersOf players playerId = [memberIn players playerId] := by
  unfold membersOf memberIn
  dsimp only
  rw [Table.filter_eq_toList_find? filed]
  cases players.find? fun e => e.1 = playerId <;> rfl

/-- The demon on which a record gives score: the one that it is about, if it is approved and either in the window or
a completion. -/
def scoredDemon? (demons : List ListedDemon) (window : Int) (r : Record) : Option ListedDemon :=
  (demons.find? fun d => d.id = r.demonId).filter fun d =>
    r.status = .approved && givesScore window d.position r.progress

theorem toList_scoredDemon? (known : (demons.map ListedDemon.id).Nodup) (window : Int) (r : Record) :
    (scoredDemon? demons window r).toList = if r.status = .approved then
      demons.filter fun d => d.id = r.demonId && givesScore window d.position r.progress else [] := by
  rw [scoredDemon?, Option.toList_filter, ← Table.filter_eq_toList_find? known, List.filter_filter]
  split
  · rename_i approved
    simp only [approved, decide_true, Bool.true_and, Bool.and_comm]
  · rename_i pending
    simp [pending]

theorem scoredDemon?_eq_some_iff (known : (demons.map ListedDemon.id).Nodup) {r : Record} {d : ListedDemon} :
    scoredDemon? demons window r = some d ↔
      r.status = .approved ∧ d ∈ demons ∧ d.id = r.demonId ∧ (d.position ≤ window ∨ r.progress = 100) := by
  rw [← Option.mem_toList, toList_scoredDemon? known]
  split
  · rename_i approved
    simp [approved, givesScore]
  · rename_i pending
    simp [pending]

theorem scoreGiving_eq (known : (demons.map ListedDemon.id).Nodup) (filed : (players.map Prod.fst).Nodup) :
    scoreGiving records demons players window =
      (records.filterMap fun e =>
        (scoredDemon? demons window e.2).map fun d => .ofRecord e.1 e.2 d (memberIn players e.2.playerId)) ++
      demons.map fun d => .ofVerifier d (memberIn players d.verifierId) := by
  unfold scoreGiving
  simp only [membersOf_eq filed, List.map_cons, List.map_nil, ← List.map_eq_flatMap]
  congr 1
  rw [List.filterMap_eq_flatMap_toList]
  simp only [Option.toList_map, toList_scoredDemon? known]
  induction records with
  | nil => rfl
  | cons e rest ih =>
    by_cases approved : e.2.status = .approved
    · simp [approved, ih]
    · simp [approved, ih]

end Selection

namespace Database

variable {α : Type} {db : Database α} {id : Int} {d : Demon} {r : ScoreRow} {p : Int}

theorem nodup_members (db : Database α) : (db.members.map Prod.fst).Nodup := by
  rw [members, List.map_map]
  exact db.players.nodup_keys

def memberOf (db : Database α) (playerId : Int) : Member :=
  ((db.players.find? playerId).map Player.member).getD .unknown

theorem memberIn_members (db : Database α) (playerId : Int) : memberIn db.members playerId = db.memberOf playerId := by
  unfold memberIn memberOf members Table.find?
  rw [List.find?_map]
  simp [Function.comp_def]

theorem membersOf_members (db : Database α) (playerId : Int) :
    membersOf db.members playerId = [db.memberOf playerId] := by
  rw [membersOf_eq db.nodup_members, memberIn_members]

def Placed (db : Database α) (id : Int) (d : Demon) (p : Int) : Prop :=
  db.demons.find? id = some d ∧ d.listed ∧ d.position = some p

theorem Dense.eq_of_position (dense : db.Dense) {id id' p : Int} {d d' : Demon} (placed : db.Placed id d p)
    (placed' : db.Placed id' d' p) : id = id' := by
  obtain ⟨i, at_i, position⟩ := dense.arranged.placed id d placed.1 placed.2.1
  obtain ⟨j, at_j, position'⟩ := dense.arranged.placed id' d' placed'.1 placed'.2.1
  rw [placed.2.2, Option.some_inj] at position
  rw [placed'.2.2, Option.some_inj] at position'
  obtain rfl : i = j := by omega
  exact Option.some_inj.1 (at_i.symm.trans at_j)

theorem mem_placedDemons {l : ListedDemon} : l ∈ db.placedDemons ↔
    ∃ id d p, db.Placed id d p ∧ l = ⟨id, p, d.requirement, d.rated, d.verifierId⟩ := by
  simp only [placedDemons, List.mem_filterMap, Prod.exists]
  constructor
  · rintro ⟨id, d, mem, eq⟩
    split at eq
    · rename_i listed
      obtain ⟨p, at_p, rfl⟩ := Option.map_eq_some_iff.1 eq
      exact ⟨id, d, p, ⟨Table.find?_eq_some_iff.2 mem, listed, at_p⟩, rfl⟩
    · cases eq
  · rintro ⟨id, d, p, ⟨found, listed, at_p⟩, rfl⟩
    exact ⟨id, d, Table.mem_of_find? found, by rw [if_pos listed, at_p]; rfl⟩

theorem mem_candidateRecords {window recordId : Int} {record : Record} :
    (recordId, record) ∈ db.candidateRecords window ↔
      db.records.find? recordId = some record ∧ record.status = .approved ∧
        ∃ d, db.demons.find? record.demonId = some d ∧ d.listed ∧
          ((∃ p ∈ d.position, p ≤ window) ∨ record.progress = 100) := by
  simp only [candidateRecords, List.mem_filter, ← Table.find?_eq_some_iff, Bool.and_eq_true,
    decide_eq_true_eq, Option.any_eq_true, Bool.or_eq_true, Option.mem_def]

/-- The rows under a window. -/
theorem mem_scoreGiving {window : Int} : r ∈ db.scoreGiving window ↔
    ∃ id d p, db.Placed id d p ∧
      ((∃ recordId record, db.records.find? recordId = some record ∧ record.status = .approved ∧
          record.demonId = id ∧ givesScore window p record.progress ∧
          r = .ofRecord recordId record ⟨id, p, d.requirement, d.rated, d.verifierId⟩
            (db.memberOf record.playerId)) ∨
        r = .ofVerifier ⟨id, p, d.requirement, d.rated, d.verifierId⟩ (db.memberOf d.verifierId)) := by
  simp only [scoreGiving, DemonBoard.scoreGiving, membersOf_members, List.mem_append, List.mem_flatMap,
    List.mem_filter, Prod.exists, decide_eq_true_eq, Bool.and_eq_true, List.map_cons, List.map_nil,
    List.mem_singleton, mem_placedDemons]
  constructor
  · rintro (⟨recordId, record, ⟨mem, approved⟩, l, ⟨⟨id, d, p, placed, rfl⟩, about, gives⟩, rfl⟩ |
      ⟨l, ⟨id, d, p, placed, rfl⟩, rfl⟩)
    · obtain ⟨found, -, -⟩ := mem_candidateRecords.1 mem
      exact ⟨id, d, p, placed, .inl ⟨recordId, record, found, approved, about.symm, gives, rfl⟩⟩
    · exact ⟨id, d, p, placed, .inr rfl⟩
  · rintro ⟨id, d, p, placed, ⟨recordId, record, found, approved, rfl, gives, rfl⟩ | rfl⟩
    · refine .inl ⟨recordId, record, ⟨mem_candidateRecords.2 ⟨found, approved, d, placed.1, placed.2.1, ?_⟩,
        approved⟩, _, ⟨⟨_, d, p, placed, rfl⟩, rfl, gives⟩, rfl⟩
      simp only [givesScore, Bool.or_eq_true, decide_eq_true_eq] at gives
      exact gives.imp (fun le => ⟨p, placed.2.2, le⟩) fun complete => complete
    · exact .inr ⟨_, ⟨id, d, p, placed, rfl⟩, rfl⟩

structure Describes (db : Database α) (r : ScoreRow) (d : Demon) (p : Int) : Prop where
  placed : db.Placed r.demonId d p
  position : r.position = p
  requirement : r.requirement = d.requirement
  rated : r.rated = d.rated
  nationality : r.nationality = (db.memberOf r.playerId).nationality
  subdivision : r.subdivision = (db.memberOf r.playerId).subdivision
  banned : r.banned = (db.memberOf r.playerId).banned

/-- How far players of a group have come on a demon: the progress of their approved records, and a
completion if one of them verified it. -/
def attempts (db : Database α) (counts : Int → Bool) (id : Int) (d : Demon) : List Int :=
  (db.records.entries.filter fun (_, record) =>
    record.status = .approved && record.demonId = id && counts record.playerId).map (·.2.progress) ++
    if counts d.verifierId then [100] else []

variable {counts : Int → Bool}

theorem mem_attempts {progress : Int} : progress ∈ db.attempts counts id d ↔
    (∃ recordId record, db.records.find? recordId = some record ∧ record.status = .approved ∧
      record.demonId = id ∧ counts record.playerId ∧ record.progress = progress) ∨
    counts d.verifierId ∧ progress = 100 := by
  simp only [attempts, List.mem_append, List.mem_map, List.mem_filter, Prod.exists, ← Table.find?_eq_some_iff,
    Bool.and_eq_true, decide_eq_true_eq, and_assoc]
  refine or_congr Iff.rfl ?_
  split
  · rename_i verified
    simp [verified]
  · rename_i other
    simp [other]

theorem attempt_of_row {window : Int} (counts : Int → Bool) (mem : r ∈ db.scoreGiving window) :
    ∃ d p, db.Describes r d p ∧ (counts r.playerId → r.progress ∈ db.attempts counts r.demonId d) := by
  obtain ⟨id, d, p, placed, ⟨recordId, record, found, approved, about, -, rfl⟩ | rfl⟩ := mem_scoreGiving.1 mem
  · refine ⟨d, p, ⟨placed, rfl, rfl, rfl, rfl, rfl, rfl⟩, ?_⟩
    intro counted
    exact mem_attempts.2 (.inl ⟨recordId, record, found, approved, about, counted, rfl⟩)
  · refine ⟨d, p, ⟨placed, rfl, rfl, rfl, rfl, rfl, rfl⟩, ?_⟩
    intro counted
    exact mem_attempts.2 (.inr ⟨counted, rfl⟩)

theorem givesScore_of_row {window : Int} (mem : r ∈ db.scoreGiving window) :
    givesScore window r.position r.progress = true := by
  obtain ⟨id, d, p, placed, ⟨recordId, record, -, -, -, gives, rfl⟩ | rfl⟩ := mem_scoreGiving.1 mem
  · exact gives
  · exact Bool.or_eq_true_iff.2 (.inr (decide_eq_true rfl))

theorem row_of_attempt {window progress : Int} (placed : db.Placed id d p)
    (mem : progress ∈ db.attempts counts id d) (gives : givesScore window p progress) :
    ∃ r ∈ db.scoreGiving window, r.demonId = id ∧ r.progress = progress ∧ counts r.playerId := by
  rcases mem_attempts.1 mem with ⟨recordId, record, found, approved, about, counted, rfl⟩ | ⟨counted, rfl⟩
  · have row := mem_scoreGiving.2
      ⟨id, d, p, placed, .inl ⟨recordId, record, found, approved, about, gives, rfl⟩⟩
    exact ⟨_, row, rfl, rfl, counted⟩
  · exact ⟨_, mem_scoreGiving.2 ⟨id, d, p, placed, .inr rfl⟩, rfl, rfl, counted⟩

end Database

end DemonBoard
