import DemonBoard.Proofs.Freshness

/-! What a recompute leaves behind. It makes the boards of its scopes anew from the tables, whatever stood on
them, and touches nothing else, so neither the order of the scopes nor a scope that comes twice makes a
difference. -/

namespace DemonBoard

/-- A board depends on the keys of its entities, and on which of them may be ranked. -/
theorem Board.ofTotals_congr {κ α ρ : Type} [Ord κ] [DecidableEq κ] [Scalar α] {entities entities' : Table κ ρ}
    {mayRank mayRank' : κ → ρ → Bool} {total : κ → Totals α}
    (same : entities.entries.map (fun e => (e.1, mayRank e.1 e.2)) =
      entities'.entries.map fun e => (e.1, mayRank' e.1 e.2)) :
    Board.ofTotals entities mayRank total = Board.ofTotals entities' mayRank' total := by
  let marked (ents : Table κ ρ) (may : κ → ρ → Bool) : List (κ × Bool) :=
    ents.entries.map fun e => (e.1, may e.1 e.2)
  have totals (ents : Table κ ρ) (may : κ → ρ → Bool) : (ents.mapRows fun k _ => total k).entries =
      (marked ents may).map fun m => (m.1, total m.1) := by
    simp [marked, Table.entries_mapRows, Function.comp_def]
  have ranked (ents : Table κ ρ) (may : κ → ρ → Bool) : ((ents.filter may).mapRows fun k _ => total k).entries =
      ((marked ents may).filter Prod.snd).map fun m => (m.1, total m.1) := by
    simp [marked, Table.entries_mapRows, List.filter_map, Function.comp_def, Table.filter, Table.restrict]
  have sameTotals : (entities.mapRows fun k _ => total k) = entities'.mapRows fun k _ => total k := by
    apply Table.ext
    rw [totals entities mayRank, totals entities' mayRank', show marked entities mayRank = _ from same]
  have sameRanked : ((entities.filter mayRank).mapRows fun k _ => total k) =
      (entities'.filter mayRank').mapRows fun k _ => total k := by
    apply Table.ext
    rw [ranked, ranked, show marked entities mayRank = _ from same]
  unfold Board.ofTotals
  rw [sameTotals, sameRanked]

namespace Database

variable {α : Type} {db db' : Database α} {scope : Scope} {scopes scopes' : List Scope} {faults faults' : Faults}

def SameBoard (scope : Scope) (db db' : Database α) : Prop :=
  match scope with
  | .player => db'.playerBoard = db.playerBoard
  | .nation => db'.nationBoard = db.nationBoard
  | .subdivision => db'.subdivisionBoard = db.subdivisionBoard

/-- Two databases that agree on what scores come from: the nations and subdivisions that there are, what the
players represent and whether they are banned, the demons and the records. -/
structure SameBase (db db' : Database α) : Prop where
  nations : db'.nations.keys = db.nations.keys
  subdivisions : db'.subdivisions.keys = db.subdivisions.keys
  members : db'.members = db.members
  demons : db'.demons = db.demons
  records : db'.records = db.records

theorem SameBase.standardRows (h : SameBase db db') : db'.standardRows = db.standardRows := by
  unfold Database.standardRows scoreGiving candidateRecords placedDemons
  rw [h.members, h.demons, h.records]

variable [Scalar α]

theorem SameBase.computedPlayerBoard (h : SameBase db db') : db'.computedPlayerBoard = db.computedPlayerBoard := by
  unfold Database.computedPlayerBoard
  rw [h.standardRows]
  apply Board.ofTotals_congr
  have banned := congrArg (List.map fun m => (m.1, !m.2.banned)) h.members
  simpa [Database.members, Function.comp_def, Player.member] using banned

theorem SameBase.computedNationBoard (h : SameBase db db') : db'.computedNationBoard = db.computedNationBoard := by
  unfold Database.computedNationBoard
  rw [h.standardRows]
  apply Board.ofTotals_congr
  simpa [Table.keys, Function.comp_def] using congrArg (List.map fun code => (code, true)) h.nations

theorem SameBase.computedSubdivisionBoard (h : SameBase db db') :
    db'.computedSubdivisionBoard = db.computedSubdivisionBoard := by
  unfold Database.computedSubdivisionBoard
  rw [h.standardRows]
  apply Board.ofTotals_congr
  simpa [Table.keys, Function.comp_def] using congrArg (List.map fun region => (region, true)) h.subdivisions

def renewed (db : Database α) (scopes : List Scope) : Database α :=
  { db with
    playerBoard := if .player ∈ scopes then db.computedPlayerBoard else db.playerBoard
    nationBoard := if .nation ∈ scopes then db.computedNationBoard else db.nationBoard
    subdivisionBoard := if .subdivision ∈ scopes then db.computedSubdivisionBoard else db.subdivisionBoard }

theorem sameBase_pass (db : Database α) (s : Scope) : SameBase db (db.pass s) := by
  cases s <;> exact ⟨rfl, rfl, rfl, rfl, rfl⟩

theorem renewed_pass (db : Database α) (s : Scope) (scopes : List Scope) :
    (db.pass s).renewed scopes = db.renewed (s :: scopes) := by
  have base := sameBase_pass db s
  unfold renewed
  rw [base.computedPlayerBoard, base.computedNationBoard, base.computedSubdivisionBoard]
  cases s <;> simp [pass_player, pass_nation, pass_subdivision]

theorem foldl_pass_eq_renewed (db : Database α) (scopes : List Scope) : scopes.foldl pass db = db.renewed scopes := by
  induction scopes generalizing db with
  | nil => rfl
  | cons s rest ih => rw [List.foldl_cons, ih, renewed_pass]

theorem renewed_congr (same : ∀ s, s ∈ scopes ↔ s ∈ scopes') : db.renewed scopes = db.renewed scopes' := by
  simp only [renewed, same]

theorem state_of_recompute_isOk (done : (db.recompute faults scopes).result.isOk) :
    (db.recompute faults scopes).state = db.renewed scopes := by
  rw [← foldl_pass_eq_renewed]
  rcases recompute_cases faults db scopes with ⟨state, -⟩ | ⟨_, e, -, -, failed, -⟩
  · exact state
  · rw [failed] at done
    cases done

theorem sameBoard_renewed (h : SameBase db db') (mem : scope ∈ scopes) (mem' : scope ∈ scopes') :
    SameBoard scope (db.renewed scopes) (db'.renewed scopes') := by
  cases scope with
  | player =>
    simp only [SameBoard, renewed, mem, mem', if_true]
    exact h.computedPlayerBoard
  | nation =>
    simp only [SameBoard, renewed, mem, mem', if_true]
    exact h.computedNationBoard
  | subdivision =>
    simp only [SameBoard, renewed, mem, mem', if_true]
    exact h.computedSubdivisionBoard

omit [Scalar α] in
theorem SameBoard.refl (scope : Scope) (db : Database α) : SameBoard scope db db := by
  cases scope <;> rfl

theorem sameBoard_pass {s : Scope} (other : scope ≠ s) (db : Database α) : SameBoard scope db (db.pass s) := by
  cases scope <;> cases s <;> first | rfl | exact absurd rfl other

theorem sameBoard_recompute {s : Scope} (other : scope ≠ s) (faults : Faults) (db : Database α) :
    SameBoard scope db (db.recompute faults [s]).state := by
  rcases recompute_cases faults db [s] with ⟨state, -⟩ | ⟨done, e, part, state, -⟩
  · rw [state]
    exact sameBoard_pass other db
  · rw [state]
    rcases List.prefix_cons_iff.1 part with rfl | ⟨rest, rfl, nothing⟩
    · exact .refl scope db
    · rw [List.prefix_nil.1 nothing]
      exact sameBoard_pass other db

theorem freshIn_of_recompute (done : (db.recompute faults scopes).result.isOk) (mem : scope ∈ scopes) :
    (db.recompute faults scopes).state.FreshIn scope := by
  rw [state_of_recompute_isOk done, ← foldl_pass_eq_renewed]
  exact freshIn_foldl_pass (.inl mem)

/-- On boards that are fresh no recompute changes anything, however it ends. -/
theorem recompute_of_freshIn (fresh : ∀ s ∈ scopes, db.FreshIn s) (faults : Faults) :
    (db.recompute faults scopes).state = db := by
  rcases recompute_cases faults db scopes with ⟨state, -⟩ | ⟨done, e, part, state, -⟩
  · rw [state]
    exact foldl_pass_of_freshIn fresh
  · rw [state]
    exact foldl_pass_of_freshIn fun s mem => fresh s (part.subset mem)

/-- Recomputing is a function of the tables alone: neither the order of the scopes and their repetition nor what stood
on the boards before makes a difference, and a recompute of one scope touches no other board. -/
theorem recompute_from_tables_alone (db : Database α) :
    (∀ scopes, (db.recompute .absent scopes).result.isOk) ∧
    (∀ scopes scopes' faults faults', (db.recompute faults scopes).result.isOk →
      (db.recompute faults' scopes').result.isOk → (∀ s, s ∈ scopes ↔ s ∈ scopes') →
      (db.recompute faults scopes).state = (db.recompute faults' scopes').state) ∧
    (∀ scopes faults, (db.recompute faults scopes).result.isOk → ∀ scopes' ⊆ scopes, ∀ faults',
      ((db.recompute faults scopes).state.recompute faults' scopes').state = (db.recompute faults scopes).state) ∧
    (∀ db', SameBase db db' → ∀ scopes scopes' faults faults', (db.recompute faults scopes).result.isOk →
      (db'.recompute faults' scopes').result.isOk → ∀ s ∈ scopes, s ∈ scopes' →
      SameBoard s (db.recompute faults scopes).state (db'.recompute faults' scopes').state) ∧
    ∀ s faults, SameTables db (db.recompute faults [s]).state ∧
      ∀ t ≠ s, SameBoard t db (db.recompute faults [s]).state := by
  refine ⟨?_, ?_, ?_, ?_, ?_⟩
  · intro scopes
    obtain ⟨-, counts, result⟩ := recompute_absent db scopes
    rw [result]
    rfl
  · intro scopes scopes' faults faults' done done' same
    rw [state_of_recompute_isOk done, state_of_recompute_isOk done']
    exact renewed_congr same
  · intro scopes faults done scopes' part faults'
    exact recompute_of_freshIn (fun s mem => freshIn_of_recompute done (part mem)) faults'
  · intro db' base scopes scopes' faults faults' done done' s mem mem'
    rw [state_of_recompute_isOk done, state_of_recompute_isOk done']
    exact sameBoard_renewed base mem mem'
  · intro s faults
    exact ⟨sameTables_recompute faults db [s], fun t other => sameBoard_recompute other faults db⟩

/-- A board with a made-up total and rank, and a player under another name: once both scopes have been recomputed,
in either order, nothing of it is left. -/
theorem recompute_from_tables_alone_of_stale :
    let verified : Demon := ⟨"a", some 1, 50, none, 1, 1, true, ⟨0⟩, none⟩
    let db : Database Float := { (empty : Database Float) with
      nations := ⟨[("FR", ⟨"France", none⟩)], List.pairwise_singleton _ _⟩
      players := Table.empty.append ⟨"p", some "FR", none, false⟩
      demons := Table.empty.append verified }
    let stale : Database Float := { db with
      players := Table.empty.append ⟨"q", some "FR", none, false⟩
      playerBoard := ⟨Table.empty.append ⟨7, 7⟩, Table.empty.append ⟨some ⟨3, 5⟩, none⟩⟩ }
    (stale.recompute .absent [.player, .nation, .player]).state = (stale.recompute .absent [.nation, .player]).state ∧
      (stale.recompute .absent [.player]).state.playerBoard =
        (db.recompute .absent [.nation, .player]).state.playerBoard ∧
      stale.playerBoard ≠ db.playerBoard := by
  intro verified db stale
  obtain ⟨done, order, -, -, -⟩ := recompute_from_tables_alone stale
  obtain ⟨done', -, -, base, -⟩ := recompute_from_tables_alone db
  refine ⟨?_, ?_, ?_⟩
  · apply order _ _ _ _ (done _) (done _)
    intro s
    cases s <;> decide
  · exact base stale ⟨rfl, rfl, rfl, rfl, rfl⟩ _ _ _ _ (done' _) (done _) .player (by decide) (by decide)
  · intro same
    have entries := congrArg (fun b : Board Int Float => b.totals.entries.length) same
    cases entries

end Database

end DemonBoard
