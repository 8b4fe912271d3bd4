import DemonBoard.Proofs.Efforts
import DemonBoard.Proofs.KeptBoards
import DemonBoard.Proofs.RankTables
import DemonBoard.Proofs.Renewal

/-! Competitors. Players, nations and subdivisions compete under the same rules: what is due to each is what the efforts
of those who count for it add up to, and among those of its scope that may be ranked it ranks behind the ones to whom
more is due. On a fresh database this is what is stored, and after a call a board either is what it was or follows the
tables again. -/

namespace DemonBoard

/-- Whoever has a total and may be ranked. -/
inductive Competitor where
  | player (id : Int)
  | nation (code : String)
  | subdivision (region : Region)
  deriving DecidableEq

def Competitor.scope : Competitor → Scope
  | .player _ => .player
  | .nation _ => .nation
  | .subdivision _ => .subdivision

namespace Database

variable {α : Type} {db : Database α} {c : Competitor} {pool : Pool} {scopes : List Scope}

/-- The players who count for a competitor: for a player the player alone, banned or not, and for a nation or a
subdivision its members on file who are not banned. -/
def countsFor (db : Database α) : Competitor → Int → Bool
  | .player id => fun id' => id' = id
  | .nation code => db.playersWho (Player.countsFor code)
  | .subdivision region => db.playersWho (Player.countsForRegion region)

def knows (db : Database α) : Competitor → Bool
  | .player id => db.players.contains id
  | .nation code => db.nations.contains code
  | .subdivision region => db.subdivisions.contains region

/-- The competitors of a scope that may be ranked: all but banned players. -/
def rivals (db : Database α) : Scope → List Competitor
  | .player => (db.players.filter fun _ p => !p.banned).keys.map .player
  | .nation => db.nations.keys.map .nation
  | .subdivision => db.subdivisions.keys.map .subdivision

def totals? (db : Database α) : Competitor → Option (Totals α)
  | .player id => db.playerBoard.totals.find? id
  | .nation code => db.nationBoard.totals.find? code
  | .subdivision region => db.subdivisionBoard.totals.find? region

def rankOf (db : Database α) (c : Competitor) (pool : Pool) : Option Nat :=
  match c with
  | .player id => db.playerBoard.rankOf id pool
  | .nation code => db.nationBoard.rankOf code pool
  | .subdivision region => db.subdivisionBoard.rankOf region pool

theorem knows_of_mem_rivals (mem : c ∈ db.rivals c.scope) : db.knows c := by
  cases c with
  | player id =>
    have kept : id ∈ (db.players.filter fun _ p => !p.banned).keys :=
      (List.mem_map_of_injective fun _ _ => Competitor.player.inj).1 mem
    exact Table.contains_iff.2 ((List.filter_sublist.map _).subset kept)
  | nation code =>
    exact Table.contains_iff.2 ((List.mem_map_of_injective fun _ _ => Competitor.nation.inj).1 mem)
  | subdivision region =>
    exact Table.contains_iff.2 ((List.mem_map_of_injective fun _ _ => Competitor.subdivision.inj).1 mem)

variable [Scalar α]

/-- What counts as stored for a competitor: nothing in either pool if no totals are. -/
def total (db : Database α) (c : Competitor) : Totals α := (db.totals? c).getD .zero

/-- What the tables call for as the total of a competitor. -/
def due (db : Database α) (c : Competitor) : Totals α := tally (db.efforts (db.countsFor c))

theorem computedPlayerBoard_eq : db.computedPlayerBoard =
    Board.ofTotals db.players (fun _ p => !p.banned) fun id => db.due (.player id) := by
  apply congrArg (Board.ofTotals _ _)
  funext id
  exact totalIn_eq_tally Grouping.faithful_players (db.selects_players scoredWindow id)

theorem computedNationBoard_eq : db.computedNationBoard =
    Board.ofTotals db.nations (fun _ _ => true) fun code => db.due (.nation code) := by
  apply congrArg (Board.ofTotals _ _)
  funext code
  exact totalIn_eq_tally Grouping.faithful_nations (db.selects_nations scoredWindow code)

theorem computedSubdivisionBoard_eq : db.computedSubdivisionBoard =
    Board.ofTotals db.subdivisions (fun _ _ => true) fun region => db.due (.subdivision region) := by
  apply congrArg (Board.ofTotals _ _)
  funext region
  exact totalIn_eq_tally Grouping.faithful_subdivisions (db.selects_subdivisions scoredWindow region)

section Renewed

variable (mem : c.scope ∈ scopes)
include mem

theorem totals?_renewed : (db.renewed scopes).totals? c = if db.knows c then some (db.due c) else none := by
  have made {κ ρ : Type} [Ord κ] [DecidableEq κ] (entities : Table κ ρ) (k : κ) (t : Totals α) :
      (entities.find? k).map (fun _ => t) = if entities.contains k then some t else none := by
    unfold Table.contains
    cases entities.find? k <;> rfl
  cases c with
  | player id =>
    have board : (db.renewed scopes).playerBoard = _ := (if_pos mem).trans computedPlayerBoard_eq
    rw [totals?, board]
    exact (Table.find?_mapRows _ _ id).trans (made db.players id _)
  | nation code =>
    have board : (db.renewed scopes).nationBoard = _ := (if_pos mem).trans computedNationBoard_eq
    rw [totals?, board]
    exact (Table.find?_mapRows _ _ code).trans (made db.nations code _)
  | subdivision region =>
    have board : (db.renewed scopes).subdivisionBoard = _ := (if_pos mem).trans computedSubdivisionBoard_eq
    rw [totals?, board]
    exact (Table.find?_mapRows _ _ region).trans (made db.subdivisions region _)

omit mem in
theorem rankOf_ofDue [DecidableEq α] [Scalar.Ordered α] {κ ρ : Type} [Ord κ] [Std.TransOrd κ] [Std.LawfulEqOrd κ]
    [DecidableEq κ] (entities : Table κ ρ) (mayRank : κ → ρ → Bool) {name : κ → Competitor}
    (injective : name.Injective) (k : κ) :
    (Board.ofTotals entities mayRank fun k => db.due (name k)).rankOf k pool =
      if name k ∈ (entities.filter mayRank).keys.map name ∧ 0 < (db.due (name k)).inPool pool then
        some (1 + ((entities.filter mayRank).keys.map name).countP fun r =>
          (db.due (name k)).inPool pool < (db.due r).inPool pool)
      else none := by
  have mem_iff : name k ∈ (entities.filter mayRank).keys.map name ↔ (entities.find? k).any (mayRank k) := by
    rw [List.mem_map_of_injective injective, Option.any_eq_true]
    simp only [Table.keys, Table.filter, Table.restrict, List.mem_map, List.mem_filter, Prod.exists,
      Table.find?_eq_some_iff]
    constructor
    · rintro ⟨_, row, filed, rfl⟩
      exact ⟨row, filed⟩
    · rintro ⟨row, filed⟩
      exact ⟨k, row, filed, rfl⟩
  have count_eq : ((entities.filter mayRank).keys.map name).countP (fun r =>
        (db.due (name k)).inPool pool < (db.due r).inPool pool) =
      (Board.contenders entities mayRank fun k => db.due (name k)).countP fun c =>
        (db.due (name k)).inPool pool < c.2.inPool pool := by
    unfold Board.contenders Table.keys
    rw [Table.entries_mapRows, List.map_map, List.countP_map, List.countP_map]
    rfl
  simp only [Board.rankOf_ofTotals, mem_iff, count_eq]

/-- On boards that are made anew a competitor ranks behind those of its scope to which more is due. -/
theorem rankOf_renewed [DecidableEq α] [Scalar.Ordered α] : (db.renewed scopes).rankOf c pool =
    if c ∈ db.rivals c.scope ∧ 0 < (db.due c).inPool pool then
      some (1 + (db.rivals c.scope).countP fun r => (db.due c).inPool pool < (db.due r).inPool pool)
    else none := by
  have all {κ ρ : Type} [Ord κ] (entities : Table κ ρ) : entities.filter (fun _ _ => true) = entities :=
    Table.ext (List.filter_true _)
  cases c with
  | player id =>
    have board : (db.renewed scopes).playerBoard = _ := (if_pos mem).trans computedPlayerBoard_eq
    rw [rankOf, board]
    exact rankOf_ofDue db.players _ (fun _ _ => Competitor.player.inj) id
  | nation code =>
    have board : (db.renewed scopes).nationBoard = _ := (if_pos mem).trans computedNationBoard_eq
    rw [rankOf, board, rankOf_ofDue db.nations _ (fun _ _ => Competitor.nation.inj), all]
    rfl
  | subdivision region =>
    have board : (db.renewed scopes).subdivisionBoard = _ := (if_pos mem).trans computedSubdivisionBoard_eq
    rw [rankOf, board, rankOf_ofDue db.subdivisions _ (fun _ _ => Competitor.subdivision.inj), all]
    rfl

end Renewed

theorem totals?_renewed_of_not_mem (other : c.scope ∉ scopes) : (db.renewed scopes).totals? c = db.totals? c := by
  cases c with
  | player id => exact congrArg (fun b : Board Int α => b.totals.find? id) (if_neg other)
  | nation code => exact congrArg (fun b : Board String α => b.totals.find? code) (if_neg other)
  | subdivision region => exact congrArg (fun b : Board Region α => b.totals.find? region) (if_neg other)

section Fresh

variable (fresh : db.Fresh)
include fresh

theorem Fresh.renewed_eq (scope : Scope) : db.renewed [scope] = db := by
  rw [← foldl_pass_eq_renewed]
  exact fresh_iff.1 fresh scope

theorem Fresh.totals?_eq (c : Competitor) : db.totals? c = if db.knows c then some (db.due c) else none := by
  rw [← totals?_renewed (List.mem_singleton_self c.scope), fresh.renewed_eq]

theorem Fresh.totals?_of_knows (known : db.knows c) : db.totals? c = some (db.due c) := by
  rw [fresh.totals?_eq, if_pos known]

theorem Fresh.total_eq (known : db.knows c) : db.total c = db.due c := by
  rw [total, fresh.totals?_of_knows known, Option.getD_some]

theorem Fresh.rankOf_eq [DecidableEq α] [Scalar.Ordered α] (c : Competitor) (pool : Pool) : db.rankOf c pool =
    if c ∈ db.rivals c.scope ∧ 0 < (db.due c).inPool pool then
      some (1 + (db.rivals c.scope).countP fun r => (db.due c).inPool pool < (db.due r).inPool pool)
    else none := by
  rw [← rankOf_renewed (List.mem_singleton_self c.scope), fresh.renewed_eq]

end Fresh

/-- Two databases that know the same competitors, to whom they owe the same. -/
structure SameDue (db db' : Database α) : Prop where
  players : db'.players = db.players
  nations : db'.nations = db.nations
  subdivisions : db'.subdivisions = db.subdivisions
  due : ∀ c, db'.due c = db.due c

section SameDue

variable {db' : Database α} (same : SameDue db db')
include same

theorem SameDue.computedPlayerBoard : db'.computedPlayerBoard = db.computedPlayerBoard := by
  simp only [computedPlayerBoard_eq, same.players, same.due]

theorem SameDue.computedNationBoard : db'.computedNationBoard = db.computedNationBoard := by
  simp only [computedNationBoard_eq, same.nations, same.due]

theorem SameDue.computedSubdivisionBoard : db'.computedSubdivisionBoard = db.computedSubdivisionBoard := by
  simp only [computedSubdivisionBoard_eq, same.subdivisions, same.due]

theorem SameDue.sameBoard_renewed {scope : Scope} (fresh : db.Fresh)
    (kept : scope ∉ scopes → SameBoard scope db db') : SameBoard scope db (db'.renewed scopes) := by
  by_cases mem : scope ∈ scopes
  · cases scope with
    | player => exact (if_pos mem).trans (same.computedPlayerBoard.trans (freshIn_player.1 (fresh_iff.1 fresh .player)))
    | nation => exact (if_pos mem).trans (same.computedNationBoard.trans (freshIn_nation.1 (fresh_iff.1 fresh .nation)))
    | subdivision =>
      have current := freshIn_subdivision.1 (fresh_iff.1 fresh .subdivision)
      exact (if_pos mem).trans (same.computedSubdivisionBoard.trans current)
  · cases scope with
    | player => exact (if_neg mem).trans (kept mem)
    | nation => exact (if_neg mem).trans (kept mem)
    | subdivision => exact (if_neg mem).trans (kept mem)

theorem SameDue.sameBoard (fresh : db.Fresh) (fresh' : db'.Fresh) (scope : Scope) : SameBoard scope db db' := by
  rw [← fresh'.renewed_eq scope]
  exact same.sameBoard_renewed fresh fun other => absurd (List.mem_singleton_self scope) other

end SameDue

section Calls

variable {now : Moment} {call : Call} {change : Change α}

/-- After a call some of the boards are made anew from the tables of its change. -/
theorem perform_eq_renewed (faults : Faults) (done : db.mutate now call = .ok change) :
    ∃ carried, (db.perform faults now call).state = change.database.renewed carried := by
  simp only [perform_of_ok done, ← foldl_pass_eq_renewed]
  rcases recompute_cases faults change.database (ChangeEvent.scopes change.events) with
    ⟨state, -⟩ | ⟨carried, -, -, state, -⟩
  · exact ⟨_, state⟩
  · exact ⟨carried, state⟩

theorem perform_eq_renewed_of_isOk {faults : Faults} (done : db.mutate now call = .ok change)
    (succeeds : (db.perform faults now call).result.isOk) :
    (db.perform faults now call).state = change.database.renewed (ChangeEvent.scopes change.events) := by
  rw [perform_of_ok done] at succeeds ⊢
  refine state_of_recompute_isOk ?_
  cases outcome : (change.database.recompute faults (ChangeEvent.scopes change.events)).result with
  | ok counts => rfl
  | error e =>
    rw [outcome] at succeeds
    cases succeeds

theorem state_of_idle (faults : Faults)
    (idle : (∃ e, db.mutate now call = .error e) ∨ ∃ entity, db.mutate now call = .ok ⟨db, entity, []⟩) :
    (db.perform faults now call).state = db := by
  rcases idle with ⟨e, refused⟩ | ⟨entity, done⟩
  · rw [perform_of_error refused]
  · rw [perform_of_ok done]
    rfl

omit [Scalar α] in
theorem totals?_of_mutate (done : db.mutate now call = .ok change) (c : Competitor) :
    change.database.totals? c = db.totals? c := by
  rw [boarded_of_mutate done]
  cases c <;> rfl

theorem Fresh.sameBoard_perform (fresh : db.Fresh) (done : db.mutate now call = .ok change) (faults : Faults)
    (same : SameDue db change.database) (scope : Scope) : SameBoard scope db (db.perform faults now call).state := by
  obtain ⟨carried, state⟩ := perform_eq_renewed faults done
  rw [state]
  refine same.sameBoard_renewed fresh fun _ => ?_
  rw [boarded_of_mutate done]
  cases scope <;> rfl

variable (fresh : db.Fresh) (done : db.mutate now call = .ok change) (faults : Faults)
  (known : change.database.knows c = db.knows c)
include fresh done known

theorem Fresh.totals?_perform (same : change.database.due c = db.due c) :
    (db.perform faults now call).state.totals? c = db.totals? c := by
  obtain ⟨carried, state⟩ := perform_eq_renewed faults done
  rw [state]
  by_cases mem : c.scope ∈ carried
  · rw [totals?_renewed mem, fresh.totals?_eq, known, same]
  · rw [totals?_renewed_of_not_mem mem, totals?_of_mutate done]

theorem Fresh.total_perform : (db.perform faults now call).state.total c = db.total c ∨
    db.total c = db.due c ∧ (db.perform faults now call).state.total c = change.database.due c := by
  obtain ⟨carried, state⟩ := perform_eq_renewed faults done
  rw [state, total, total]
  by_cases mem : c.scope ∈ carried
  · rw [totals?_renewed mem, fresh.totals?_eq, known]
    split
    · exact .inr ⟨rfl, rfl⟩
    · exact .inl rfl
  · rw [totals?_renewed_of_not_mem mem, totals?_of_mutate done]
    exact .inl rfl

end Calls

end Database

end DemonBoard
