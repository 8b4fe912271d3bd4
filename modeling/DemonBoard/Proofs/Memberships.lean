import DemonBoard.Proofs.Competitors

/-! Bans and changes of nationality. Both alter for whom a player counts and nothing else that scores come from, so they
concern the nations and subdivisions that gain or lose the player as a member. No player's own total depends on either,
and a ban takes the player out of the ranking, where everyone behind moves up by one. -/

namespace DemonBoard

/-- A call about a player, and the row that it asks for. -/
inductive Call.Asks (id : Int) (player : Player) : Call → Player → Prop
  | banned (banned : Bool) : Asks id player (.setPlayerBanned id banned) { player with banned }
  | nationality (nationality subdivision : Option String) :
      Asks id player (.setPlayerNationality id nationality subdivision) { player with nationality, subdivision }

def Competitor.admits (c : Competitor) (id : Int) (player : Player) : Bool :=
  match c with
  | .player id' => id = id'
  | .nation code => player.countsFor code
  | .subdivision region => player.countsForRegion region

namespace Database

variable {α : Type} {db : Database α} {id : Int} {player player' : Player} {c : Competitor} {call : Call}
  {now : Moment} {faults : Faults}

theorem knows_storePlayer (c : Competitor) : (db.storePlayer id player).knows c = db.knows c := by
  cases c with
  | player id' =>
    rw [Bool.eq_iff_iff, knows, knows, Table.contains_iff, Table.contains_iff]
    exact iff_of_eq (congrArg (id' ∈ ·) (Table.keys_modify _ _ _))
  | nation | subdivision => rfl

theorem countsFor_eq_admits (found : db.players.find? id = some player) (c : Competitor) :
    db.countsFor c id = c.admits id player := by
  cases c with
  | player id' => rfl
  | nation code => exact congrArg (Option.any _) found
  | subdivision region => exact congrArg (Option.any _) found

theorem countsFor_storePlayer_of_ne {id' : Int} (other : id' ≠ id) (c : Competitor) :
    (db.storePlayer id player).countsFor c id' = db.countsFor c id' := by
  have row : (db.storePlayer id player).players.find? id' = db.players.find? id' :=
    (Table.find?_modify _ _ _ _).trans (if_neg other)
  cases c with
  | player => rfl
  | nation code => exact congrArg (Option.any _) row
  | subdivision region => exact congrArg (Option.any _) row

theorem countsFor_storePlayer_self (found : db.players.find? id = some player) (c : Competitor) :
    (db.storePlayer id player').countsFor c id = c.admits id player' := by
  refine countsFor_eq_admits ?_ c
  rw [find?_storePlayer_self found]

theorem due_storePlayer [Scalar α] (found : db.players.find? id = some player)
    (same : c.admits id player' = c.admits id player) : (db.storePlayer id player').due c = db.due c := by
  have counts : (db.storePlayer id player').countsFor c = db.countsFor c := by
    funext id'
    by_cases about : id' = id
    · rw [about, countsFor_storePlayer_self found, countsFor_eq_admits found, same]
    · exact countsFor_storePlayer_of_ne about c
  rw [due, counts]
  rfl

theorem due_storePlayer_le {db : Database ℝ} (found : db.players.find? id = some player)
    (out : c.admits id player' = false) (pool : Pool) :
    ((db.storePlayer id player').due c).inPool pool ≤ (db.due c).inPool pool := by
  refine tally_efforts_mono rfl fun _ _ => attempts_mono ?_
  intro id' counted
  by_cases about : id' = id
  · rw [about, countsFor_storePlayer_self found, out] at counted
    cases counted
  · rwa [countsFor_storePlayer_of_ne about] at counted

theorem le_due_storePlayer {db : Database ℝ} (found : db.players.find? id = some player)
    (out : c.admits id player = false) (pool : Pool) :
    (db.due c).inPool pool ≤ ((db.storePlayer id player').due c).inPool pool := by
  refine tally_efforts_mono rfl fun _ _ => attempts_mono ?_
  intro id' counted
  by_cases about : id' = id
  · rw [about, countsFor_eq_admits found, out] at counted
    cases counted
  · rwa [countsFor_storePlayer_of_ne about]

/-- A call about a player leaves everything as it is, or it stores the row that it asks for. -/
theorem asked_cases [Scalar α] (found : db.players.find? id = some player) (asks : call.Asks id player player')
    (faults : Faults) (now : Moment) : (db.perform faults now call).state = db ∨
      ∃ change, db.mutate now call = .ok change ∧ change.database = db.storePlayer id player' := by
  cases done : db.mutate now call with
  | error e => exact .inl (state_of_idle faults (.inl ⟨e, done⟩))
  | ok change =>
    cases asks with
    | banned banned =>
      obtain ⟨row, found', ⟨-, rfl⟩ | ⟨-, rfl⟩⟩ := setPlayerBanned_eq_ok_iff.1 done
      · exact .inl (state_of_idle faults (.inr ⟨_, done⟩))
      · obtain rfl : player = row := Option.some_inj.1 (found.symm.trans found')
        exact .inr ⟨_, rfl, rfl⟩
    | nationality nationality subdivision =>
      obtain ⟨-, row, found', -, ⟨-, rfl⟩ | ⟨-, rfl⟩⟩ := setPlayerNationality_eq_ok_iff.1 done
      · exact .inl (state_of_idle faults (.inr ⟨_, done⟩))
      · obtain rfl : player = row := Option.some_inj.1 (found.symm.trans found')
        exact .inr ⟨_, rfl, rfl⟩

section Ranks

theorem nodup_rivals_player (db : Database α) : (db.rivals .player).Nodup :=
  (Table.nodup_keys _).map fun _ _ => Competitor.player.inj

theorem rivals_banned (id : Int) (player : Player) :
    (db.storePlayer id { player with banned := true }).rivals .player = (db.rivals .player).erase (.player id) := by
  rw [db.nodup_rivals_player.erase_eq_filter]
  change ((List.filter _ (db.players.entries.map _)).map Prod.fst).map Competitor.player =
    (((db.players.entries.filter _).map Prod.fst).map Competitor.player).filter _
  simp only [List.filter_map, List.map_map, List.filter_filter]
  refine congrArg (List.map _) (List.filter_congr ?_)
  intro e _
  by_cases about : e.1 = id
  · simp [about]
  · simp [about]

theorem perform_ban [Scalar α] (found : db.players.find? id = some player) (free : player.banned = false)
    (succeeds : (db.perform faults now (.setPlayerBanned id true)).result.isOk) : ∃ scopes, .player ∈ scopes ∧
      (db.perform faults now (.setPlayerBanned id true)).state =
        (db.storePlayer id { player with banned := true }).renewed scopes := by
  cases done : db.mutate now (.setPlayerBanned id true) with
  | error e =>
    rw [perform_of_error done] at succeeds
    cases succeeds
  | ok change =>
    have state := perform_eq_renewed_of_isOk done succeeds
    obtain ⟨row, found', outcome⟩ := setPlayerBanned_eq_ok_iff.1 done
    obtain rfl : player = row := Option.some_inj.1 (found.symm.trans found')
    rcases outcome with ⟨banned, -⟩ | ⟨-, rfl⟩
    · rw [free] at banned
      cases banned
    · exact ⟨ChangeEvent.scopes [.playerBanned], by decide, state⟩

variable [Scalar α] [DecidableEq α] [Scalar.Ordered α] {scopes : List Scope}

theorem ranks_renewed_eq_none (mem : .player ∈ scopes) (out : .player id ∉ db.rivals .player) :
    (db.renewed scopes).playerBoard.ranks.find? id = none := by
  have board : (db.renewed scopes).playerBoard = _ := (if_pos mem).trans computedPlayerBoard_eq
  cases row : (db.renewed scopes).playerBoard.ranks.find? id with
  | none => rfl
  | some standing =>
    rw [board] at row
    obtain ⟨pool, ranked⟩ := Board.exists_rankOf_ofTotals row
    rw [← board] at ranked
    have unranked : (db.renewed scopes).rankOf (.player id) pool = none :=
      (rankOf_renewed mem).trans (if_neg fun h => out h.1)
    rw [show (db.renewed scopes).playerBoard.rankOf id pool = none from unranked] at ranked
    cases ranked

omit [DecidableEq α] [Scalar.Ordered α] in
/-- Of the players to whom as much is due as asked for, a ban takes away the one who is banned. -/
theorem countP_rivals_banned (found : db.players.find? id = some player) (free : player.banned = false)
    (asked : Totals α → Bool) :
    let banned := db.storePlayer id { player with banned := true }
    (db.rivals .player).countP (fun r => asked (db.due r)) =
      (banned.rivals .player).countP (fun r => asked (banned.due r)) +
        if asked (db.due (.player id)) then 1 else 0 := by
  intro banned
  have listed : .player id ∈ db.rivals .player := by
    refine List.mem_map_of_mem (List.mem_map.2 ⟨(id, player), ?_, rfl⟩)
    exact List.mem_filter.2 ⟨Table.mem_of_find? found, by simp [free]⟩
  rw [(List.perm_cons_erase listed).countP_eq, List.countP_cons, rivals_banned]
  congr 1
  refine List.countP_congr fun r mem => ?_
  obtain ⟨id', -, rfl⟩ := List.mem_map.1 (List.mem_of_mem_erase mem)
  rw [show banned.due (.player id') = db.due (.player id') from due_storePlayer found rfl]

/-- Without the one who is banned, those to whom less is due move up by one. -/
theorem rankOf_banned (fresh : db.Fresh) (found : db.players.find? id = some player) (free : player.banned = false)
    (mem : .player ∈ scopes) {other : Int} (ne : other ≠ id) (pool : Pool) :
    let after := (db.storePlayer id { player with banned := true }).renewed scopes
    db.rankOf (.player other) pool = (after.rankOf (.player other) pool).map fun rank =>
      if (db.due (.player other)).inPool pool < (db.due (.player id)).inPool pool then rank + 1 else rank := by
  intro after
  let banned := db.storePlayer id { player with banned := true }
  have same : banned.due (.player other) = db.due (.player other) := due_storePlayer found rfl
  have still : .player other ∈ banned.rivals .player ↔ .player other ∈ db.rivals .player := by
    rw [show banned.rivals .player = _ from rivals_banned id player]
    exact List.mem_erase_of_ne fun same => ne (Competitor.player.inj same)
  by_cases ranked : .player other ∈ db.rivals .player ∧ 0 < (db.due (.player other)).inPool pool
  · have ranked' : .player other ∈ banned.rivals .player ∧ 0 < (banned.due (.player other)).inPool pool :=
      ⟨still.2 ranked.1, same ▸ ranked.2⟩
    have before : db.rankOf (.player other) pool = some (1 + (db.rivals .player).countP fun r =>
        (db.due (.player other)).inPool pool < (db.due r).inPool pool) := (fresh.rankOf_eq _ pool).trans (if_pos ranked)
    have behind : after.rankOf (.player other) pool = some (1 + (banned.rivals .player).countP fun r =>
        (banned.due (.player other)).inPool pool < (banned.due r).inPool pool) :=
      (rankOf_renewed mem).trans (if_pos ranked')
    have count := countP_rivals_banned found free fun t => (db.due (.player other)).inPool pool < t.inPool pool
    dsimp only at count
    rw [before, behind, Option.map_some, same, count]
    by_cases less : (db.due (.player other)).inPool pool < (db.due (.player id)).inPool pool
    · simp [less, Nat.add_assoc, banned]
    · simp [less, banned]
  · have ranked' : ¬ (.player other ∈ banned.rivals .player ∧ 0 < (banned.due (.player other)).inPool pool) := by
      rwa [still, same]
    have before : db.rankOf (.player other) pool = none := (fresh.rankOf_eq _ pool).trans (if_neg ranked)
    have behind : after.rankOf (.player other) pool = none := (rankOf_renewed mem).trans (if_neg ranked')
    rw [before, behind, Option.map_none]

theorem rankOf_banned_of_total (fresh : db.Fresh) (found : db.players.find? id = some player)
    (free : player.banned = false) (mem : .player ∈ scopes) {other : Int} (ne : other ≠ id) (pool : Pool) :
    let after := (db.storePlayer id { player with banned := true }).renewed scopes
    db.rankOf (.player other) pool = (after.rankOf (.player other) pool).map fun rank =>
      if (db.total (.player other)).inPool pool < (db.total (.player id)).inPool pool then rank + 1 else rank := by
  intro after
  have moves := rankOf_banned fresh found free mem ne pool
  have filed : db.knows (.player id) := by simp [knows, Table.contains, found]
  by_cases known : db.knows (.player other)
  · rw [fresh.total_eq known, fresh.total_eq filed]
    exact moves
  · -- who is not on file has no rank, before or after
    have before : db.rankOf (.player other) pool = none :=
      (fresh.rankOf_eq _ pool).trans (if_neg fun h => known (knows_of_mem_rivals h.1))
    rw [before, eq_comm, Option.map_eq_none_iff] at moves
    rw [before, moves, Option.map_none]

end Ranks

theorem Fresh.playerBoard_of_nationality [Scalar α] (fresh : db.Fresh) (found : db.players.find? id = some player)
    (nationality subdivision : Option String) (faults : Faults) (now : Moment) :
    (db.perform faults now (.setPlayerNationality id nationality subdivision)).state.playerBoard = db.playerBoard := by
  rcases asked_cases found (.nationality nationality subdivision) faults now with kept | ⟨change, done, stored⟩
  · rw [kept]
  · obtain ⟨carried, state⟩ := perform_eq_renewed faults done
    have computed : change.database.computedPlayerBoard = db.computedPlayerBoard := by
      rw [stored]
      exact computedPlayerBoard_represented found
    rw [state]
    by_cases mem : .player ∈ carried
    · exact (if_pos mem).trans (computed.trans (freshIn_player.1 (fresh_iff.1 fresh .player)))
    · have kept : change.database.playerBoard = db.playerBoard := by rw [boarded_of_mutate done]; rfl
      exact (if_neg mem).trans kept

/-- Bans and changes of nationality act on the totals of nations and subdivisions whose membership changes, and on no
player's. A ban takes the player out of the standings, and those with less move up by one. -/
theorem memberships_decide_totals :
    (∀ {α : Type} [Scalar α] (db : Database α) faults now call id player player', db.Fresh →
      db.players.find? id = some player → Call.Asks id player call player' →
      let after := (db.perform faults now call).state
      (∀ id', after.totals? (.player id') = db.totals? (.player id')) ∧
        ∀ c, c.admits id player' = c.admits id player → after.totals? c = db.totals? c) ∧
    (∀ (db : Database ℝ) faults now call id player player', db.Fresh →
      db.players.find? id = some player → Call.Asks id player call player' →
      let after := (db.perform faults now call).state
      ∀ c pool, (c.admits id player' = false → (after.total c).inPool pool ≤ (db.total c).inPool pool) ∧
        (c.admits id player = false → (db.total c).inPool pool ≤ (after.total c).inPool pool)) ∧
    (∀ {α : Type} [Scalar α] (db : Database α) faults now id player nationality subdivision, db.Fresh →
      db.players.find? id = some player →
      (db.perform faults now (.setPlayerNationality id nationality subdivision)).state.playerBoard = db.playerBoard) ∧
    ∀ {α : Type} [Scalar α] [DecidableEq α] [Scalar.Ordered α] (db : Database α) faults now id player, db.Fresh →
      db.players.find? id = some player →
      let ban := db.perform faults now (.setPlayerBanned id true)
      (player.banned = true → ban.state = db) ∧
      (player.banned = false → ban.result.isOk → ban.state.playerBoard.ranks.find? id = none ∧
        ∀ other ≠ id, ∀ pool, db.rankOf (.player other) pool =
          (ban.state.rankOf (.player other) pool).map fun rank =>
            if (db.total (.player other)).inPool pool < (db.total (.player id)).inPool pool then rank + 1
            else rank) := by
  refine ⟨?_, ?_, ?_, ?_⟩
  · intro α _ db faults now call id player player' fresh found asks after
    have untouched (c : Competitor) (same : c.admits id player' = c.admits id player) :
        after.totals? c = db.totals? c := by
      rcases asked_cases found asks faults now with kept | ⟨change, done, stored⟩
      · rw [show after = db from kept]
      · refine fresh.totals?_perform done faults ?_ ?_
        · rw [stored, knows_storePlayer]
        · rw [stored, due_storePlayer found same]
    exact ⟨fun id' => untouched (.player id') rfl, untouched⟩
  · intro db faults now call id player player' fresh found asks after c pool
    rcases asked_cases found asks faults now with kept | ⟨change, done, stored⟩
    · rw [show after = db from kept]
      exact ⟨fun _ => le_refl _, fun _ => le_refl _⟩
    · have known : change.database.knows c = db.knows c := by rw [stored, knows_storePlayer]
      rcases fresh.total_perform done faults known with kept | ⟨before, follows⟩
      · rw [show after.total c = db.total c from kept]
        exact ⟨fun _ => le_refl _, fun _ => le_refl _⟩
      · rw [before, show after.total c = change.database.due c from follows, stored]
        exact ⟨fun out => due_storePlayer_le found out pool, fun out => le_due_storePlayer found out pool⟩
  · intro α _ db faults now id player nationality subdivision fresh found
    exact fresh.playerBoard_of_nationality found nationality subdivision faults now
  · intro α _ _ _ db faults now id player fresh found ban
    constructor
    · exact fun banned => state_of_idle faults (.inr ⟨_, setPlayerBanned_eq_ok_iff.2 ⟨_, found, .inl ⟨banned, rfl⟩⟩⟩)
    · intro free succeeds
      obtain ⟨scopes, mem, state⟩ := perform_ban found free succeeds
      rw [show ban.state = _ from state]
      refine ⟨ranks_renewed_eq_none mem ?_, fun other ne pool => rankOf_banned_of_total fresh found free mem ne pool⟩
      rw [rivals_banned]
      exact db.nodup_rivals_player.not_mem_erase

/-- The verifier of the top demon is banned, or moves abroad: the ban takes the row and lets the runner-up move up where
the verifier had more, nothing happens to the nation of the latter, and the verifier's own nation does not gain. -/
theorem memberships_decide_totals_of_verifier :
    let first : Demon := ⟨"a", some 1, 50, none, 1, 1, true, ⟨0⟩, none⟩
    let second : Demon := ⟨"b", some 2, 50, none, 2, 2, true, ⟨0⟩, none⟩
    let filed (α : Type) [Scalar α] : Database α := { (empty : Database α) with
      nations := ⟨[("DE", ⟨"Germany", none⟩), ("FR", ⟨"France", none⟩)], by decide⟩
      players := (Table.empty.append ⟨"p", some "FR", none, false⟩).append ⟨"q", some "DE", none, false⟩
      demons := (Table.empty.append first).append second }
    let ranked := ((filed Float).recomputeAll .absent).state
    let exact := ((filed ℝ).recomputeAll .absent).state
    let ban : Call := .setPlayerBanned 1 true
    let banned := (ranked.perform .absent ⟨5⟩ ban).state
    let moved := (ranked.perform .absent ⟨5⟩ (.setPlayerNationality 1 (some "DE") none)).state
    banned.playerBoard.ranks.find? 1 = none ∧ banned.totals? (.player 1) = ranked.totals? (.player 1) ∧
      ranked.rankOf (.player 2) .rated = (banned.rankOf (.player 2) .rated).map (fun rank =>
        if (ranked.total (.player 2)).inPool .rated < (ranked.total (.player 1)).inPool .rated then rank + 1
        else rank) ∧
      banned.totals? (.nation "DE") = ranked.totals? (.nation "DE") ∧ moved.playerBoard = ranked.playerBoard ∧
      ((exact.perform .absent ⟨5⟩ ban).state.total (.nation "FR")).inPool .rated ≤
        (exact.total (.nation "FR")).inPool .rated := by
  intro first second filed ranked exact ban banned moved
  obtain ⟨frames, bounds, moves, bans⟩ := memberships_decide_totals
  have tables : ranked = Scope.all.foldl pass (filed Float) := (recompute_absent _ Scope.all).1
  have tables' : exact = Scope.all.foldl pass (filed ℝ) := (recompute_absent _ Scope.all).1
  have fresh : ranked.Fresh := fresh_recomputeAll _
  have found : ranked.players.find? 1 = some ⟨"p", some "FR", none, false⟩ := by
    rw [tables]
    rfl
  have found' : exact.players.find? 1 = some ⟨"p", some "FR", none, false⟩ := by
    rw [tables']
    rfl
  have succeeds : (ranked.perform .absent ⟨5⟩ ban).result.isOk := by
    obtain ⟨change, done⟩ : ∃ change, ranked.mutate ⟨5⟩ ban = .ok change := by
      rw [tables]
      exact ⟨_, rfl⟩
    obtain ⟨entity, ended⟩ := ranked.completes_absent ⟨5⟩ ban change done
    rw [ended]
    rfl
  obtain ⟨players, others⟩ := frames ranked .absent ⟨5⟩ ban 1 _ _ fresh found (.banned true)
  obtain ⟨unranked, behind⟩ := (bans ranked .absent ⟨5⟩ 1 _ fresh found).2 rfl succeeds
  refine ⟨unranked, players 1, behind 2 (by decide) .rated, others (.nation "DE") (by decide), ?_, ?_⟩
  · exact moves ranked .absent ⟨5⟩ 1 _ (some "DE") none fresh found
  · exact (bounds exact .absent ⟨5⟩ ban 1 _ _ (fresh_recomputeAll _) found' (.banned true) (.nation "FR") .rated).1
      (by decide)

end Database

end DemonBoard
