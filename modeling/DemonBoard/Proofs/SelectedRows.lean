import DemonBoard.Proofs.ScoreRows

/-! Selection loses and duplicates nothing. A record that gives score has one row and a verification has one row; what
order the tables are read in does not matter, and neither does it that records which cannot give score are left out
when they are read. -/

namespace DemonBoard

section Reading

variable {records records' : List (Int × Record)} {demons demons' : List ListedDemon}
  {players players' : List (Int × Member)} {window : Int}

theorem scoredDemon?_perm (known : (demons.map ListedDemon.id).Nodup) (perm : demons.Perm demons') (r : Record) :
    scoredDemon? demons window r = scoredDemon? demons' window r := by
  refine Option.ext fun d => ?_
  rw [scoredDemon?_eq_some_iff known, scoredDemon?_eq_some_iff ((perm.map _).nodup_iff.1 known), perm.mem_iff]

theorem memberIn_of_mem (filed : (players.map Prod.fst).Nodup) {e : Int × Member} (mem : e ∈ players) :
    memberIn players e.1 = e.2 := by
  have found : (players.find? fun f => f.1 = e.1) = some e := by
    rw [← Option.mem_toList, ← Table.filter_eq_toList_find? filed, List.mem_filter]
    exact ⟨mem, decide_eq_true rfl⟩
  rw [memberIn, found]
  rfl

theorem memberIn_of_not_mem {id : Int} (unknown : id ∉ players.map Prod.fst) : memberIn players id = .unknown := by
  have missing : (players.find? fun e => e.1 = id) = none := by
    rw [List.find?_eq_none]
    intro e mem same
    exact unknown (List.mem_map.2 ⟨e, mem, of_decide_eq_true same⟩)
  rw [memberIn, missing]
  rfl

theorem memberIn_perm (filed : (players.map Prod.fst).Nodup) (perm : players.Perm players') (playerId : Int) :
    memberIn players playerId = memberIn players' playerId := by
  have found : (players.find? fun e => e.1 = playerId) = players'.find? fun e => e.1 = playerId := by
    refine Option.ext fun e => ?_
    rw [← Option.mem_toList, ← Option.mem_toList, ← Table.filter_eq_toList_find? filed,
      ← Table.filter_eq_toList_find? ((perm.map _).nodup_iff.1 filed), (perm.filter _).mem_iff]
  rw [memberIn, memberIn, found]

theorem scoreGiving_perm (known : (demons.map ListedDemon.id).Nodup) (filed : (players.map Prod.fst).Nodup)
    (sameRecords : records.Perm records') (sameDemons : demons.Perm demons') (samePlayers : players.Perm players') :
    (scoreGiving records demons players window).Perm (scoreGiving records' demons' players' window) := by
  rw [scoreGiving_eq known filed, scoreGiving_eq ((sameDemons.map _).nodup_iff.1 known)
    ((samePlayers.map _).nodup_iff.1 filed)]
  simp only [scoredDemon?_perm known sameDemons, memberIn_perm filed samePlayers]
  exact (sameRecords.filterMap _).append (sameDemons.map _)

end Reading

namespace Database

variable {α : Type} {db : Database α} {window : Int}

theorem nodup_placedDemons (db : Database α) : (db.placedDemons.map ListedDemon.id).Nodup := by
  have id_eq {e : Int × Demon} {l : ListedDemon} (made : (if e.2.listed then e.2.position.map fun p =>
      (⟨e.1, p, e.2.requirement, e.2.rated, e.2.verifierId⟩ : ListedDemon) else none) = some l) : l.id = e.1 := by
    split at made
    · obtain ⟨p, -, rfl⟩ := Option.map_eq_some_iff.1 made
      rfl
    · cases made
  rw [List.Nodup, List.pairwise_map, placedDemons, List.pairwise_filterMap]
  refine (List.pairwise_map.1 db.demons.nodup_keys).imp ?_
  intro e e' other l made l' made' same
  rw [id_eq made, id_eq made'] at same
  exact other same

theorem mem_candidateRecords_of_scoredDemon? {id : Int} {r : Record} {d : ListedDemon}
    (mem : (id, r) ∈ db.records.entries) (scored : scoredDemon? db.placedDemons window r = some d) :
    (id, r) ∈ db.candidateRecords window := by
  obtain ⟨approved, placed, about, gives⟩ := (scoredDemon?_eq_some_iff db.nodup_placedDemons).1 scored
  obtain ⟨_, demon, p, ⟨found, listed, at_p⟩, rfl⟩ := mem_placedDemons.1 placed
  refine mem_candidateRecords.2 ⟨Table.find?_eq_some_iff.2 mem, approved, demon, about ▸ found, listed, ?_⟩
  exact gives.imp_left fun le => ⟨p, at_p, le⟩

theorem scoreGiving_eq_unfiltered (db : Database α) (window : Int) : db.scoreGiving window =
    DemonBoard.scoreGiving db.records.entries db.placedDemons db.members window := by
  rw [scoreGiving, scoreGiving_eq db.nodup_placedDemons db.nodup_members,
    scoreGiving_eq db.nodup_placedDemons db.nodup_members]
  congr 1
  rw [candidateRecords, List.filterMap_filter]
  refine List.filterMap_congr ?_
  intro e mem
  cases scored : scoredDemon? db.placedDemons window e.2 with
  | none => rw [Option.map_none, ite_self]
  | some d =>
    have kept := mem_candidateRecords_of_scoredDemon? mem scored
    rw [candidateRecords, List.mem_filter] at kept
    rw [if_pos kept.2]

/-- An id that no record has tells a verification from what was handed in. -/
theorem recordId_of_row (positive : ∀ e ∈ db.records.entries, 0 < e.1) {r : ScoreRow}
    (mem : r ∈ db.scoreGiving window) : if r.verification then r.recordId = 0 else 0 < r.recordId := by
  obtain ⟨id, d, p, -, ⟨recordId, record, found, -, -, -, rfl⟩ | rfl⟩ := mem_scoreGiving.1 mem
  · exact positive _ (Table.mem_of_find? found)
  · exact rfl

end Database

/-- What tells rows of one demon apart: the progress, and the record that it comes from. -/
def ScoreRow.mark (r : ScoreRow) : Int × Int × Int := (r.demonId, r.progress, r.recordId)

namespace Database

variable {α : Type} {db : Database α}

theorem nodup_marks (positive : ∀ e ∈ db.records.entries, 0 < e.1) (window : Int) :
    ((db.scoreGiving window).map ScoreRow.mark).Nodup := by
  have rows := scoreGiving_eq_unfiltered db window
  rw [scoreGiving_eq db.nodup_placedDemons db.nodup_members] at rows
  rw [rows, List.map_append, List.nodup_append]
  refine ⟨?_, ?_, ?_⟩
  · -- the rows of records are told apart by the records
    rw [List.Nodup, List.pairwise_map, List.pairwise_filterMap]
    refine (List.pairwise_map.1 db.records.nodup_keys).imp ?_
    intro e e' other r made r' made' same
    obtain ⟨d, -, rfl⟩ := Option.map_eq_some_iff.1 made
    obtain ⟨d', -, rfl⟩ := Option.map_eq_some_iff.1 made'
    exact other (congrArg (fun mark => mark.2.2) same)
  · -- those of verifications by the demons
    refine List.Nodup.of_map Prod.fst ?_
    rw [List.map_map, List.map_map]
    exact db.nodup_placedDemons
  · intro mark ofRecord mark' ofVerifier same
    obtain ⟨r, made, rfl⟩ := List.mem_map.1 ofRecord
    obtain ⟨e, mem, made⟩ := List.mem_filterMap.1 made
    obtain ⟨d, -, rfl⟩ := Option.map_eq_some_iff.1 made
    obtain ⟨r', made', rfl⟩ := List.mem_map.1 ofVerifier
    obtain ⟨d', -, rfl⟩ := List.mem_map.1 made'
    have pos : 0 < e.1 := positive e mem
    exact Int.ne_of_gt pos (congrArg (fun mark => mark.2.2) same)

end Database

/-- Selection row for row: the rows of the approved records that give score, in the order of the records, and then
those of the verifications. To leave out the other records before the join makes no difference. -/
theorem selection_row_for_row {α : Type} :
    (∀ records demons players window, (demons.map ListedDemon.id).Nodup → (players.map Prod.fst).Nodup →
      scoreGiving records demons players window =
        (records.filterMap fun e =>
          (scoredDemon? demons window e.2).map fun d => .ofRecord e.1 e.2 d (memberIn players e.2.playerId)) ++
        demons.map (fun d => .ofVerifier d (memberIn players d.verifierId)) ∧
      (∀ r d, scoredDemon? demons window r = some d ↔
        r.status = .approved ∧ d ∈ demons ∧ d.id = r.demonId ∧ (d.position ≤ window ∨ r.progress = 100)) ∧
      (∀ e ∈ players, memberIn players e.1 = e.2) ∧
      ∀ id, id ∉ players.map Prod.fst → memberIn players id = ⟨none, none, false⟩) ∧
    ∀ (db : Database α) window,
      let unfiltered := scoreGiving db.records.entries db.placedDemons db.members window
      db.scoreGiving window = unfiltered ∧
      ∀ records demons players, records.Perm (db.candidateRecords window) → demons.Perm db.placedDemons →
        players.Perm db.members → (scoreGiving records demons players window).Perm unfiltered := by
  constructor
  · intro records demons players window known filed
    refine ⟨scoreGiving_eq known filed, fun r d => scoredDemon?_eq_some_iff known, ?_, ?_⟩
    · exact fun e mem => memberIn_of_mem filed mem
    · exact fun id => memberIn_of_not_mem
  · intro db window unfiltered
    refine ⟨db.scoreGiving_eq_unfiltered window, ?_⟩
    intro records demons players sameRecords sameDemons samePlayers
    have known := (sameDemons.map ListedDemon.id).nodup_iff.2 db.nodup_placedDemons
    have filed := (samePlayers.map Prod.fst).nodup_iff.2 db.nodup_members
    have candidates : (scoreGiving records demons players window).Perm (db.scoreGiving window) :=
      scoreGiving_perm known filed sameRecords sameDemons samePlayers
    exact candidates.trans (.of_eq (db.scoreGiving_eq_unfiltered window))

/-- Of six records two give score: one in the window, and the completion outside of it. The others are partial outside,
not yet approved, about a demon that nobody knows, or about one that has lost its position. -/
theorem selection_row_for_row_of_six :
    let far : Demon := ⟨"far", some 80, 50, none, 7, 7, true, ⟨0⟩, none⟩
    let near : Demon := ⟨"near", some 10, 60, none, 9, 9, false, ⟨0⟩, none⟩
    let lost : Demon := ⟨"lost", none, 60, none, 7, 7, true, ⟨0⟩, none⟩
    let ann : Player := ⟨"Ann", some "FR", none, true⟩
    let handedIn : List Record := [⟨1, 2, 70, .approved⟩, ⟨9, 1, 99, .approved⟩, ⟨9, 1, 100, .approved⟩,
      ⟨1, 1, 100, .submitted⟩, ⟨1, 4, 100, .approved⟩, ⟨1, 3, 100, .approved⟩]
    let db : Database Float := { (Database.empty : Database Float) with
      players := Table.empty.append ann
      demons := ((Table.empty.append far).append near).append lost
      records := handedIn.foldl Table.append Table.empty }
    let rows : List ScoreRow :=
      [⟨1, 1, 2, 70, 10, 60, false, false, some "FR", none, true⟩,
       ⟨3, 9, 1, 100, 80, 50, true, false, none, none, false⟩,
       ⟨0, 7, 1, 100, 80, 50, true, true, none, none, false⟩, ⟨0, 9, 2, 100, 10, 60, false, true, none, none, false⟩]
    (db.candidateRecords 75).map Prod.fst = [1, 3, 6] ∧
    scoreGiving db.records.entries db.placedDemons db.members 75 = rows ∧ db.scoreGiving 75 = rows ∧
    (scoreGiving (db.candidateRecords 75).reverse db.placedDemons.reverse db.members 75).Perm rows := by
  intro far near lost ann handedIn db rows
  obtain ⟨frames, tables⟩ := @selection_row_for_row Float
  obtain ⟨selected, -⟩ := frames db.records.entries db.placedDemons db.members 75 (by decide) (by decide)
  obtain ⟨prefiltered, anyOrder⟩ := tables db 75
  have whole : scoreGiving db.records.entries db.placedDemons db.members 75 = rows := by
    rw [selected]
    decide
  refine ⟨by decide, whole, prefiltered.trans whole, ?_⟩
  rw [← whole]
  exact anyOrder _ _ _ (List.reverse_perm _) (List.reverse_perm _) (.refl _)

end DemonBoard
