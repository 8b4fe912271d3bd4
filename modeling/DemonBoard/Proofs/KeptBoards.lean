import DemonBoard.Database.Rows
import DemonBoard.Proofs.Boards

/-! What leaves the boards alone. New rows start from zero, which is what an entity without a total counts as, and a
correction that names no total writes the old ones again, so neither changes a total or a standing. Nor does a call
before its passes. -/

namespace DemonBoard

namespace Board

variable {κ α : Type} [Ord κ] [DecidableEq κ] [Scalar α] {b b' : Board κ α}

structure Keeps (b b' : Board κ α) : Prop where
  ranks : b'.ranks = b.ranks
  total : ∀ k, b'.total k = b.total k

theorem Keeps.refl (b : Board κ α) : b.Keeps b := ⟨rfl, fun _ => rfl⟩

theorem Keeps.trans {b'' : Board κ α} (h : b.Keeps b') (h' : b'.Keeps b'') : b.Keeps b'' :=
  ⟨h'.ranks.trans h.ranks, fun k => (h'.total k).trans (h.total k)⟩

theorem keeps_enter [Std.TransOrd κ] [Std.LawfulEqOrd κ] (b : Board κ α) (k : κ) : b.Keeps (b.enter k) := by
  refine ⟨rfl, ?_⟩
  intro k'
  unfold enter total
  cases entered : b.totals.insert? k Totals.zero with
  | none => rfl
  | some totals =>
    dsimp only [Option.getD_some]
    rw [Table.find?_insert? entered]
    split
    · rename_i same
      rw [same, Table.find?_of_insert? entered]
      rfl
    · rfl

theorem keeps_amend (b : Board κ α) (k : κ) : b.Keeps (b.amend k fun _ => b.total k) := by
  refine ⟨rfl, ?_⟩
  intro k'
  unfold amend total
  dsimp only
  rw [Table.find?_modify]
  split
  · rename_i same
    subst same
    cases b.totals.find? k' <;> rfl
  · rfl

end Board

def TotalsEdit.Keeps {α : Type} (e : TotalsEdit α) : Prop := e.score = .keep ∧ e.unratedScore = .keep

theorem TotalsEdit.Keeps.apply {α : Type} {e : TotalsEdit α} (h : e.Keeps) (t : Totals α) : e.apply t = .ok t := by
  unfold TotalsEdit.apply
  rw [h.1, h.2]
  rfl

/-- A correction that writes no total. -/
def RowEdit.KeepsTotals {α : Type} : RowEdit α → Prop
  | .nation _ e => e.totals.Keeps
  | .subdivision _ e => e.totals.Keeps
  | .player _ e => e.totals.Keeps
  | .demon _ _ => True

namespace Database

variable {α : Type} [Scalar α] {db db' : Database α}

structure KeepsBoards (db db' : Database α) : Prop where
  players : db.playerBoard.Keeps db'.playerBoard
  nations : db.nationBoard.Keeps db'.nationBoard
  subdivisions : db.subdivisionBoard.Keeps db'.subdivisionBoard

theorem KeepsBoards.refl (db : Database α) : KeepsBoards db db := ⟨.refl _, .refl _, .refl _⟩

theorem KeepsBoards.trans {db'' : Database α} (h : KeepsBoards db db') (h' : KeepsBoards db' db'') :
    KeepsBoards db db'' :=
  ⟨h.players.trans h'.players, h.nations.trans h'.nations, h.subdivisions.trans h'.subdivisions⟩

omit [Scalar α] in
theorem boarded_of_mutate {now : Moment} {call : Call} {change : Change α}
    (done : db.mutate now call = .ok change) : change.database = change.database.boarded db := by
  have looked := mutate_boarded db db now call
  rw [show db.boarded db = db from rfl, done] at looked
  injection looked with same
  exact congrArg Change.database same

theorem keepsBoards_mutate {now : Moment} {call : Call} {change : Change α}
    (done : db.mutate now call = .ok change) : KeepsBoards db change.database := by
  rw [boarded_of_mutate done]
  exact ⟨.refl _, .refl _, .refl _⟩

theorem keepsBoards_foldlM {δ : Type} {enter : Database α → δ → Except Error (Database α)}
    (kept : ∀ {db d db'}, enter db d = .ok db' → KeepsBoards db db') {ds : List δ}
    (done : ds.foldlM enter db = .ok db') : KeepsBoards db db' := by
  induction ds generalizing db with
  | nil =>
    cases done
    exact .refl _
  | cons d rest ih =>
    rw [List.foldlM_cons] at done
    obtain ⟨next, entered, others⟩ := bind_eq_ok.1 done
    exact (kept entered).trans (ih others)

theorem keepsBoards_addNation {d : NationDraft} (done : db.addNation d = .ok db') : KeepsBoards db db' := by
  unfold addNation at done
  obtain ⟨code, -, done⟩ := bind_eq_ok.1 done
  obtain ⟨name, -, done⟩ := bind_eq_ok.1 done
  obtain ⟨nations, -, done⟩ := bind_eq_ok.1 done
  obtain ⟨-, -, done⟩ := bind_eq_ok.1 done
  cases done
  exact ⟨.refl _, Board.keeps_enter _ code, .refl _⟩

theorem keepsBoards_addSubdivision {d : SubdivisionDraft} (done : db.addSubdivision d = .ok db') :
    KeepsBoards db db' := by
  unfold addSubdivision at done
  obtain ⟨nation, -, done⟩ := bind_eq_ok.1 done
  obtain ⟨code, -, done⟩ := bind_eq_ok.1 done
  obtain ⟨name, -, done⟩ := bind_eq_ok.1 done
  obtain ⟨subdivisions, -, done⟩ := bind_eq_ok.1 done
  cases done
  exact ⟨.refl _, .refl _, Board.keeps_enter _ _⟩

theorem keepsBoards_addPlayer {d : PlayerDraft} (done : db.addPlayer d = .ok db') : KeepsBoards db db' := by
  unfold addPlayer at done
  obtain ⟨name, -, done⟩ := bind_eq_ok.1 done
  obtain ⟨-, -, done⟩ := bind_eq_ok.1 done
  obtain ⟨players, -, done⟩ := bind_eq_ok.1 done
  obtain ⟨-, -, done⟩ := bind_eq_ok.1 done
  cases done
  exact ⟨Board.keeps_enter _ _, .refl _, .refl _⟩

theorem keepsBoards_addDemon {d : DemonDraft} (done : db.addDemon d = .ok db') : KeepsBoards db db' := by
  unfold addDemon at done
  obtain ⟨demon, -, done⟩ := bind_eq_ok.1 done
  obtain ⟨demons, -, done⟩ := bind_eq_ok.1 done
  cases done
  exact ⟨.refl _, .refl _, .refl _⟩

theorem keepsBoards_addRecord {d : RecordDraft} (done : db.addRecord d = .ok db') : KeepsBoards db db' := by
  unfold addRecord at done
  obtain ⟨playerId, -, done⟩ := bind_eq_ok.1 done
  obtain ⟨demonId, -, done⟩ := bind_eq_ok.1 done
  obtain ⟨progress, -, done⟩ := bind_eq_ok.1 done
  obtain ⟨-, -, done⟩ := bind_eq_ok.1 done
  obtain ⟨records, -, done⟩ := bind_eq_ok.1 done
  cases done
  exact ⟨.refl _, .refl _, .refl _⟩

/-- New rows start from zero, which is what entities without a total count as. -/
theorem keepsBoards_load {batch : Batch} (done : db.load batch = .ok db') : KeepsBoards db db' := by
  unfold load at done
  obtain ⟨db₁, nations, done⟩ := bind_eq_ok.1 done
  obtain ⟨db₂, subdivisions, done⟩ := bind_eq_ok.1 done
  obtain ⟨db₃, players, done⟩ := bind_eq_ok.1 done
  obtain ⟨db₄, demons, records⟩ := bind_eq_ok.1 done
  have h₁ := keepsBoards_foldlM keepsBoards_addNation nations
  have h₂ := keepsBoards_foldlM keepsBoards_addSubdivision subdivisions
  have h₃ := keepsBoards_foldlM keepsBoards_addPlayer players
  have h₄ := keepsBoards_foldlM keepsBoards_addDemon demons
  exact (((h₁.trans h₂).trans h₃).trans h₄).trans (keepsBoards_foldlM keepsBoards_addRecord records)

theorem keepsBoards_editNation {code : String} {e : NationEdit α} (keeps : e.totals.Keeps)
    (done : db.editNation code e = .ok db') : KeepsBoards db db' := by
  unfold editNation at done
  split at done
  · obtain ⟨name, -, done⟩ := bind_eq_ok.1 done
    obtain ⟨-, -, done⟩ := bind_eq_ok.1 done
    rw [keeps.apply] at done
    cases done
    exact ⟨.refl _, Board.keeps_amend _ code, .refl _⟩
  · cases done
    exact .refl db

theorem keepsBoards_editSubdivision {region : Region} {e : SubdivisionEdit α} (keeps : e.totals.Keeps)
    (done : db.editSubdivision region e = .ok db') : KeepsBoards db db' := by
  unfold editSubdivision at done
  split at done
  · obtain ⟨name, -, done⟩ := bind_eq_ok.1 done
    rw [keeps.apply] at done
    cases done
    exact ⟨.refl _, .refl _, Board.keeps_amend _ region⟩
  · cases done
    exact .refl db

theorem keepsBoards_editPlayer {id : Int} {e : PlayerEdit α} (keeps : e.totals.Keeps)
    (done : db.editPlayer id e = .ok db') : KeepsBoards db db' := by
  unfold editPlayer at done
  split at done
  · obtain ⟨name, -, done⟩ := bind_eq_ok.1 done
    obtain ⟨banned, -, done⟩ := bind_eq_ok.1 done
    obtain ⟨-, -, done⟩ := bind_eq_ok.1 done
    obtain ⟨-, -, done⟩ := bind_eq_ok.1 done
    rw [keeps.apply] at done
    cases done
    exact ⟨Board.keeps_amend _ id, .refl _, .refl _⟩
  · cases done
    exact .refl db

theorem keepsBoards_editDemon {id : Int} {e : DemonEdit} (done : db.editDemon id e = .ok db') :
    KeepsBoards db db' := by
  unfold editDemon at done
  split at done
  · obtain ⟨edited, -, done⟩ := bind_eq_ok.1 done
    obtain ⟨createdAt, -, done⟩ := bind_eq_ok.1 done
    obtain ⟨-, -, done⟩ := bind_eq_ok.1 done
    cases done
    exact ⟨.refl _, .refl _, .refl _⟩
  · cases done
    exact .refl db

theorem keepsBoards_correct {e : RowEdit α} {checked : Bool} {refusal : Option String} (keeps : e.KeepsTotals)
    (done : db.correct e checked refusal = .ok db') : KeepsBoards db db' := by
  have edited (done : db.edit e = .ok db') : KeepsBoards db db' := by
    cases e with
    | nation code e => exact keepsBoards_editNation keeps done
    | subdivision region e => exact keepsBoards_editSubdivision keeps done
    | player id e => exact keepsBoards_editPlayer keeps done
    | demon id e => exact keepsBoards_editDemon done
  unfold correct at done
  cases refusal with
  | some reason => cases checked <;> simp [bind_eq_ok] at done
  | none =>
    cases checked with
    | false => exact edited done
    | true =>
      rw [if_pos rfl] at done
      obtain ⟨stored, -, done⟩ := bind_eq_ok.1 done
      obtain ⟨⟨⟩, -, done⟩ := bind_eq_ok.1 done
      exact edited done

end Database

end DemonBoard
