import DemonBoard.Proofs.KeptBoards
import DemonBoard.Proofs.Placements

/-! Totals and standings are seen together or not at all. A pass writes both in one transaction, nothing else
writes either of them, and what breaks off is thrown away, so in every state that is kept the standings of a board
are those that its totals call for. -/

namespace DemonBoard

namespace Board

variable {κ α ρ : Type} [Ord κ] [DecidableEq κ] [Scalar α] {b b' : Board κ α}

def rankedValues (b : Board κ α) (pool : Pool) : List (κ × α) :=
  b.ranks.keys.map fun k => (k, (b.total k).inPool pool)

/-- The standings are those that the totals call for: in each pool an entity in their table has the place that is due
to its total among the totals of all who are in the table, and whoever is in the table has a positive total. -/
structure InStep [DecidableEq α] (b : Board κ α) : Prop where
  placed : ∀ e ∈ b.ranks.entries, ∀ pool,
    e.2.inPool pool = duePlace (b.rankedValues pool) (e.1, (b.total e.1).inPool pool)
  positive : ∀ e ∈ b.ranks.entries, ∃ pool, 0 < (b.total e.1).inPool pool

theorem Keeps.rankedValues (h : b.Keeps b') (pool : Pool) : b'.rankedValues pool = b.rankedValues pool := by
  unfold Board.rankedValues
  rw [h.ranks]
  exact List.map_congr_left fun k _ => by rw [h.total k]

variable [DecidableEq α]

theorem InStep.of_keeps (h : b.InStep) (kept : b.Keeps b') : b'.InStep := by
  constructor
  · intro e mem pool
    rw [kept.ranks] at mem
    rw [kept.rankedValues, kept.total]
    exact h.placed e mem pool
  · intro e mem
    rw [kept.ranks] at mem
    obtain ⟨pool, pos⟩ := h.positive e mem
    exact ⟨pool, by rw [kept.total]; exact pos⟩

theorem inStep_of_unranked (h : b.ranks = .empty) : b.InStep := by
  have nobody : ∀ e, e ∉ b.ranks.entries := by
    rw [h]
    exact fun _ => List.not_mem_nil
  exact ⟨fun e mem => absurd mem (nobody e), fun e mem => absurd mem (nobody e)⟩

section OfTotals

variable [Std.TransOrd κ] {entities : Table κ ρ} {mayRank : κ → ρ → Bool} {totals : κ → Totals α}

def contenders (entities : Table κ ρ) (mayRank : κ → ρ → Bool) (totals : κ → Totals α) : List (κ × Totals α) :=
  ((entities.filter mayRank).mapRows fun k _ => totals k).entries

omit [DecidableEq α] in
theorem total_of_contender {e : κ × Totals α} (mem : e ∈ contenders entities mayRank totals) :
    (ofTotals entities mayRank totals).total e.1 = e.2 := by
  obtain ⟨⟨k, row⟩, kept, rfl⟩ := List.mem_map.1 mem
  exact total_ofTotals (List.mem_map_of_mem (List.mem_of_mem_filter kept))

variable [Std.LawfulEqOrd κ] [Scalar.Ordered α]

omit [DecidableEq κ] in
theorem entries_ofTotals : (ofTotals entities mayRank totals).ranks.entries =
    ((contenders entities mayRank totals).map fun e =>
      (e.1, dueStanding (contenders entities mayRank totals) e)).filter fun e => e.2.isRanked :=
  competitionRanks_eq (Table.nodup_keys _)

theorem rankedValues_ofTotals (pool : Pool) :
    ((ofTotals entities mayRank totals).rankedValues pool).filter (fun e => decide (0 < e.2)) =
      (poolValues pool (contenders entities mayRank totals)).filter fun e => decide (0 < e.2) := by
  let b : Board κ α := ofTotals entities mayRank totals
  let rows := contenders entities mayRank totals
  have values : b.rankedValues pool =
      (rows.filter fun e => (dueStanding rows e).isRanked).map fun e => (e.1, e.2.inPool pool) := by
    unfold rankedValues Table.keys
    rw [entries_ofTotals, List.filter_map, List.map_map, List.map_map]
    refine List.map_congr_left ?_
    intro e mem
    have total : b.total e.1 = e.2 := total_of_contender (List.mem_of_mem_filter mem)
    change (e.1, (b.total e.1).inPool pool) = _
    rw [total]
  change (b.rankedValues pool).filter _ = _
  rw [values, poolValues, List.filter_map, List.filter_map, List.filter_filter]
  congr 1
  refine List.filter_congr ?_
  intro e _
  by_cases pos : 0 < e.2.inPool pool
  · simp [pos, isRanked_dueStanding pos]
  · simp [pos]

theorem inStep_ofTotals : (ofTotals entities mayRank totals).InStep := by
  have entry {e : κ × Standing} (mem : e ∈ (ofTotals entities mayRank totals).ranks.entries) :
      ∃ c ∈ contenders entities mayRank totals,
        e = (c.1, dueStanding (contenders entities mayRank totals) c) ∧ e.2.isRanked := by
    rw [entries_ofTotals, List.mem_filter] at mem
    obtain ⟨c, listed, rfl⟩ := List.mem_map.1 mem.1
    exact ⟨c, listed, rfl, mem.2⟩
  constructor
  · intro e mem pool
    obtain ⟨c, listed, rfl, -⟩ := entry mem
    rw [inPool_dueStanding, total_of_contender listed]
    exact duePlace_congr (rankedValues_ofTotals pool).symm _
  · intro e mem
    obtain ⟨c, listed, rfl, ranked⟩ := entry mem
    rw [total_of_contender listed]
    exact pos_of_isRanked ranked

end OfTotals

end Board

/-- What somebody may do to the tables behind a session's back. Ranks refer to nations, subdivisions and players, so
none of these comes or goes, while the other tables may be replaced altogether. -/
structure Rewrite where
  nation : String → Nation → Nation
  subdivision : Region → Subdivision → Subdivision
  player : Int → Player → Player
  demons : Table Int Demon
  records : Table Int Record
  modifications : Table Int Modification
  additions : Table Int Addition

def Rewrite.apply {α : Type} (w : Rewrite) (db : Database α) : Database α :=
  { db with
    nations := db.nations.mapRows w.nation
    subdivisions := db.subdivisions.mapRows w.subdivision
    players := db.players.mapRows w.player
    demons := w.demons
    records := w.records
    modifications := w.modifications
    additions := w.additions }

/-- What is committed at a time. The attempts of a pass break off where `breaks` says so, with anything written until
then. -/
inductive Transaction (α : Type) where
  | call (now : Moment) (call : Call)
  | load (batch : Batch)
  | correct (edit : RowEdit α) (checked : Bool) (refusal : Option String)
  | rewrite (rewrite : Rewrite)
  | pass (scope : Scope) (breaks : Nat → Option (Database α × Failure)) (limit : Int)

/-- No total is written but by a pass. -/
def Transaction.KeepsTotals {α : Type} : Transaction α → Prop
  | .correct edit _ _ => edit.KeepsTotals
  | _ => True

namespace Database

variable {α : Type} [Scalar α] {db : Database α}

/-- An attempt at a pass that breaks off anywhere, or not at all. -/
def tryPass (scope : Scope) (broken : Option (Database α × Failure)) (db : Database α) :
    Attempt (Database α) PassCount :=
  match broken with
  | none => .completed (db.pass scope) ((db.pass scope).passCount scope)
  | some (written, failure) => .brokenOff written failure

def afterAttempt (db : Database α) (outcome : Except Error (Database α)) : Database α := outcome.toOption.getD db

def commit (db : Database α) : Transaction α → Database α
  | .call now call => (inSession (call.mutation now) db).1
  | .load batch => db.afterAttempt (db.load batch)
  | .correct edit checked refusal => db.afterAttempt (db.correct edit checked refusal)
  | .rewrite w => w.apply db
  | .pass scope breaks limit =>
    (runInTransaction scope.label (fun attempt => tryPass scope (breaks attempt)) limit db).state

def through (db : Database α) (ts : List (Transaction α)) : Database α := ts.foldl commit db

theorem tryPass_completed {scope : Scope} {broken : Option (Database α × Failure)} {state : Database α}
    {count : PassCount} (h : db.tryPass scope broken = .completed state count) : state = db.pass scope := by
  unfold tryPass at h
  split at h
  · injection h with state
    exact state.symm
  · cases h

/-- A pass is committed whole, or nothing of it is. -/
theorem commit_pass_cases (db : Database α) (scope : Scope) (breaks : Nat → Option (Database α × Failure))
    (limit : Int) : db.commit (.pass scope breaks limit) = db.pass scope ∨
      db.commit (.pass scope breaks limit) = db := by
  let go := runInTransaction.go scope.label (fun attempt => tryPass scope (breaks attempt)) limit db 0
  by_cases left : limit.toNat = 0
  · have start : (go limit.toNat).state = db := by
      rw [left]
      rfl
    exact .inr start
  · rcases go_cases scope.label (fun attempt => tryPass scope (breaks attempt)) limit db 0 limit.toNat (.inr left)
      with ⟨n, r, completed, -⟩ | ⟨same, -⟩
    · exact .inl (tryPass_completed completed)
    · exact .inr same

theorem keepsBoards_afterAttempt {outcome : Except Error (Database α)}
    (kept : ∀ db', outcome = .ok db' → KeepsBoards db db') : KeepsBoards db (db.afterAttempt outcome) := by
  cases outcome with
  | error e => exact .refl db
  | ok db' => exact kept db' rfl

omit [Scalar α] in
theorem commit_call_of_ok {now : Moment} {call : Call} {change : Change α} (done : db.mutate now call = .ok change) :
    (inSession (call.mutation now) db).1 = change.database := by
  rw [inSession_of_completed (mutate_eq_ok_iff.1 done)]

omit [Scalar α] in
theorem commit_call_of_error {now : Moment} {call : Call} {e : Error} (failed : db.mutate now call = .error e) :
    (inSession (call.mutation now) db).1 = db := by
  obtain ⟨written, broken⟩ := mutate_eq_error_iff.1 failed
  rw [inSession_of_brokenOff broken]

theorem keepsBoards_commit {t : Transaction α} (keeps : t.KeepsTotals)
    (other : ∀ scope breaks limit, t ≠ .pass scope breaks limit) : KeepsBoards db (db.commit t) := by
  cases t with
  | call now call =>
    cases outcome : db.mutate now call with
    | error e =>
      rw [commit, commit_call_of_error outcome]
      exact .refl db
    | ok change =>
      rw [commit, commit_call_of_ok outcome]
      exact keepsBoards_mutate outcome
  | load batch => exact keepsBoards_afterAttempt fun _ => keepsBoards_load
  | correct edit checked refusal => exact keepsBoards_afterAttempt fun _ => keepsBoards_correct keeps
  | rewrite w => exact ⟨.refl _, .refl _, .refl _⟩
  | pass scope breaks limit => exact absurd rfl (other scope breaks limit)

variable [DecidableEq α]

/-- On all three boards the standings are those that the totals call for. -/
structure InStep (db : Database α) : Prop where
  players : db.playerBoard.InStep
  nations : db.nationBoard.InStep
  subdivisions : db.subdivisionBoard.InStep

theorem InStep.of_keeps {db' : Database α} (h : db.InStep) (kept : KeepsBoards db db') : db'.InStep :=
  ⟨h.players.of_keeps kept.players, h.nations.of_keeps kept.nations, h.subdivisions.of_keeps kept.subdivisions⟩

variable [Scalar.Ordered α]

theorem InStep.pass (h : db.InStep) (scope : Scope) : (db.pass scope).InStep := by
  cases scope with
  | player =>
    rw [pass_player]
    exact ⟨Board.inStep_ofTotals, h.nations, h.subdivisions⟩
  | nation =>
    rw [pass_nation]
    exact ⟨h.players, Board.inStep_ofTotals, h.subdivisions⟩
  | subdivision =>
    rw [pass_subdivision]
    exact ⟨h.players, h.nations, Board.inStep_ofTotals⟩

theorem InStep.commit {t : Transaction α} (h : db.InStep) (keeps : t.KeepsTotals) : (db.commit t).InStep := by
  -- only a pass writes totals, and it ranks by what it has written
  by_cases pass : ∃ scope breaks limit, t = .pass scope breaks limit
  · obtain ⟨scope, breaks, limit, rfl⟩ := pass
    rcases commit_pass_cases db scope breaks limit with whole | nothing
    · rw [whole]
      exact h.pass scope
    · rw [nothing]
      exact h
  · refine h.of_keeps (keepsBoards_commit keeps ?_)
    rintro scope breaks limit rfl
    exact pass ⟨scope, breaks, limit, rfl⟩

theorem InStep.through {ts : List (Transaction α)} (h : db.InStep) (keeps : ∀ t ∈ ts, t.KeepsTotals) :
    (db.through ts).InStep := by
  induction ts generalizing db with
  | nil => exact h
  | cons t rest ih =>
    exact ih (h.commit (keeps t List.mem_cons_self)) fun t' mem => keeps t' (List.mem_cons_of_mem t mem)

omit [DecidableEq α] [Scalar.Ordered α] in
theorem through_append (db : Database α) (ts ts' : List (Transaction α)) :
    db.through (ts ++ ts') = (db.through ts).through ts' := List.foldl_append

omit [DecidableEq α] [Scalar.Ordered α] in
theorem recompute_eq_through (faults : Faults) (db : Database α) (scopes : List Scope) :
    ∃ done : List Scope, (db.recompute faults scopes).state =
      db.through (done.map fun scope => .pass scope (fun _ => none) 1) := by
  have passes (db : Database α) (done : List Scope) : done.foldl Database.pass db =
      db.through (done.map fun scope => .pass scope (fun _ => none) 1) := by
    unfold Database.through
    rw [List.foldl_map]
    rfl
  rcases recompute_cases faults db scopes with ⟨state, -⟩ | ⟨done, e, -, state, -⟩
  · exact ⟨scopes, state.trans (passes db scopes)⟩
  · exact ⟨done, state.trans (passes db done)⟩

omit [DecidableEq α] [Scalar.Ordered α] in
/-- A step of a session commits a change, if it makes one, and passes after it. -/
theorem step_eq_through (db : Database α) (s : Step) :
    ∃ ts : List (Transaction α), (∀ t ∈ ts, t.KeepsTotals) ∧ db.step s = db.through ts := by
  have passes (done : List Scope) : ∀ t ∈ done.map (fun scope => Transaction.pass (α := α) scope (fun _ => none) 1),
      t.KeepsTotals := by
    intro t mem
    obtain ⟨scope, -, rfl⟩ := List.mem_map.1 mem
    trivial
  unfold Database.step
  split
  · rename_i call action
    cases outcome : db.mutate s.now call with
    | error e =>
      exact ⟨[], List.forall_mem_nil _, congrArg Outcome.state (perform_of_error outcome s.faults)⟩
    | ok change =>
      obtain ⟨done, state⟩ := recompute_eq_through s.faults change.database (ChangeEvent.scopes change.events)
      have start : db.commit (.call s.now call) = change.database := commit_call_of_ok outcome
      refine ⟨.call s.now call :: done.map fun scope => .pass scope (fun _ => none) 1, ?_, ?_⟩
      · exact List.forall_mem_cons.2 ⟨trivial, passes done⟩
      · rw [perform_of_ok outcome, Database.through, List.foldl_cons, start]
        exact state
  · rename_i scopes action
    obtain ⟨done, state⟩ := recompute_eq_through s.faults db scopes
    exact ⟨_, passes done, state⟩

omit [DecidableEq α] [Scalar.Ordered α] in
theorem after_eq_through (db : Database α) (steps : List Step) :
    ∃ ts : List (Transaction α), (∀ t ∈ ts, t.KeepsTotals) ∧ db.after steps = db.through ts := by
  induction steps generalizing db with
  | nil => exact ⟨[], List.forall_mem_nil _, rfl⟩
  | cons s rest ih =>
    obtain ⟨ts, keep, first⟩ := step_eq_through db s
    obtain ⟨ts', keep', others⟩ := ih (db.step s)
    refine ⟨ts ++ ts', ?_, ?_⟩
    · intro t mem
      rcases List.mem_append.1 mem with mem | mem
      · exact keep t mem
      · exact keep' t mem
    · rw [through_append, ← first]
      exact others

/-- Totals and standings belong together in every committed state: from a database in which nobody is ranked, on
whatever calls are committed, rows entered and corrected and tables rewritten, none of which writes a total, and
whatever passes are attempted and break off, retried or given up. Sessions of calls and recomputes are such runs. -/
theorem committed_in_step {start : Database α} (players : start.playerBoard.ranks = .empty)
    (nations : start.nationBoard.ranks = .empty) (subdivisions : start.subdivisionBoard.ranks = .empty)
    {ts : List (Transaction α)} (keep : ∀ t ∈ ts, t.KeepsTotals) :
    (start.through ts).InStep ∧ ∀ steps, ((start.through ts).after steps).InStep := by
  have unranked : start.InStep := ⟨Board.inStep_of_unranked players, Board.inStep_of_unranked nations,
    Board.inStep_of_unranked subdivisions⟩
  have now := unranked.through keep
  refine ⟨now, ?_⟩
  intro steps
  obtain ⟨ts', keep', state⟩ := after_eq_through (start.through ts) steps
  rw [state]
  exact now.through keep'

/-- A verifier is banned and renamed, the list is emptied behind the session's back, and a pass is given up after it had
made a rank up: the totals and standings that are kept belong together all the same. -/
theorem committed_in_step_of_broken_pass :
    let level : NewDemon := ⟨some "a", some 1, some 50, none, some 1, some 1, none⟩
    let rename : PlayerEdit Float := ⟨.set (some "q"), .keep, .keep, .keep, ⟨.keep, .keep⟩⟩
    let emptied : Rewrite := ⟨fun _ n => n, fun _ s => s, fun _ p => p, .empty, .empty, .empty, .empty⟩
    let madeUp : Database Float := { (empty : Database Float) with
      playerBoard := ⟨Table.empty.append ⟨7, 7⟩, Table.empty.append ⟨some ⟨3, 5⟩, none⟩⟩ }
    let ts : List (Transaction Float) :=
      [.load ⟨[], [], [⟨none, some "p", none, none, none⟩], [], []⟩, .call ⟨5⟩ (.addDemon level ⟨none, none⟩),
       .pass .player (fun attempt => if attempt = 0 then some (madeUp, .transient) else none) 3,
       .call ⟨6⟩ (.setPlayerBanned 1 true), .correct (.player 1 rename) false none, .rewrite emptied,
       .pass .player (fun _ => some (madeUp, .fatal (.brokenPass "torn"))) 3]
    let kept := (empty : Database Float).through ts
    kept.InStep ∧ kept.players.entries = [(1, ⟨"q", none, none, true⟩)] ∧ kept.demons.entries = [] ∧
      ¬ madeUp.InStep := by
  intro level rename emptied madeUp ts kept
  refine ⟨(committed_in_step rfl rfl rfl ?_).1, by decide +kernel, by decide +kernel, ?_⟩
  · simp only [ts, List.forall_mem_cons, List.not_mem_nil, false_implies, implies_true, and_true]
    exact ⟨trivial, trivial, trivial, trivial, ⟨rfl, rfl⟩, trivial, trivial⟩
  · intro inStep
    have place := inStep.players.placed (1, ⟨some ⟨3, 5⟩, none⟩) (by decide) .rated
    revert place
    decide +kernel

end Database

end DemonBoard
