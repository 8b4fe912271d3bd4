import DemonBoard.Proofs.DrillDowns

/-! How the totals of players, subdivisions and nations bound each other. Whatever a player counts for has a row at
least as good on every demon that the player has one on; and each of its own rows is that of one of its players. -/

namespace DemonBoard

theorem sum_map_le_of_keys {β γ : Type} {key : β → γ} {f : β → ℝ} {xs ys : List β} (distinct : (xs.map key).Nodup)
    (bounded : ∀ x ∈ xs, ∃ y ∈ ys, key y = key x ∧ f x ≤ f y) (nonneg : ∀ y ∈ ys, 0 ≤ f y) :
    (xs.map f).sum ≤ (ys.map f).sum := by
  induction xs generalizing ys with
  | nil =>
    refine List.sum_nonneg ?_
    simpa using nonneg
  | cons x rest ih =>
    obtain ⟨new, distinct⟩ := List.nodup_cons.1 distinct
    obtain ⟨y, mem, same, le⟩ := bounded x List.mem_cons_self
    obtain ⟨before, after, rfl⟩ := List.append_of_mem mem
    have others : ∀ x' ∈ rest, ∃ y' ∈ before ++ after, key y' = key x' ∧ f x' ≤ f y' := by
      intro x' mem'
      obtain ⟨y', among, same', le'⟩ := bounded x' (List.mem_cons_of_mem x mem')
      have other : y' ≠ y := by
        rintro rfl
        exact new (List.mem_map.2 ⟨x', mem', same'.symm.trans same⟩)
      exact ⟨y', by simpa [other] using among, same', le'⟩
    have remaining : ∀ y' ∈ before ++ after, 0 ≤ f y' := by
      intro y' among
      apply nonneg
      simp only [List.mem_append, List.mem_cons] at among ⊢
      exact among.imp_right .inr
    calc ((x :: rest).map f).sum = f x + (rest.map f).sum := List.sum_cons
      _ ≤ f y + ((before ++ after).map f).sum := add_le_add le (ih distinct others remaining)
      _ = ((before ++ y :: after).map f).sum := by
        simp only [List.map_append, List.sum_append, List.map_cons, List.sum_cons]
        ring

def ScoreRow.countsIn (pool : Pool) (r : ScoreRow) : Bool :=
  match pool with
  | .rated => r.rated
  | .unrated => true

theorem ScoreRow.exactScore_nonneg (r : ScoreRow) : 0 ≤ r.exactScore := Curve.recordScore_nonneg

namespace Grouping

variable {κ : Type} [DecidableEq κ] {g : Grouping κ} {rows : List ScoreRow} {k : κ} {pool : Pool}

/-- What the totals of a scope say of one entity. One that is not among them has no row, and so no score. -/
noncomputable def poolTotal (g : Grouping κ) (rows : List ScoreRow) (pool : Pool) (k : κ) : ℝ :=
  (((g.totals (Curve.standard : Curve ℝ) rows).lookup k).map fun t => t.inPool pool).getD 0

theorem poolTotal_eq (g : Grouping κ) (rows : List ScoreRow) (pool : Pool) (k : κ) : g.poolTotal rows pool k =
    (((g.bestRows rows k).filter (·.countsIn pool)).map ScoreRow.exactScore).sum := by
  rw [poolTotal, lookup_totals]
  change Option.getD (Option.map _ (if g.bestRows rows k = [] then none else _)) 0 = _
  split
  · rename_i nothing
    rw [nothing]
    rfl
  · rw [totalIn_real]
    cases pool with
    | rated => rfl
    | unrated =>
      have all : (g.bestRows rows k).filter (·.countsIn .unrated) = g.bestRows rows k :=
        List.filter_eq_self.2 fun _ _ => rfl
      rw [all]
      rfl

theorem row_of_mem_bestRows {b : ScoreRow} (mem : b ∈ g.bestRows rows k) : b ∈ rows :=
  mem_of_mem_eligible (eligible_of_mem_bestRows mem).1

variable {db : Database ℝ} {window : Int} {κ' : Type} [DecidableEq κ'] {g' : Grouping κ'} {k' : κ'}
  {counts counts' : Int → Bool}

/-- A total is at most what any rows add up to among which there is one as good as each of its own. -/
theorem Faithful.poolTotal_le (faithful : g.Faithful) {others : List ScoreRow}
    (drawn : ∀ r ∈ others, r ∈ db.scoreGiving window)
    (bounded : ∀ b ∈ g.bestRows (db.scoreGiving window) k, ∃ r ∈ others,
      r.demonId = b.demonId ∧ b.progress ≤ r.progress) :
    g.poolTotal (db.scoreGiving window) pool k ≤
      ((others.filter (·.countsIn pool)).map ScoreRow.exactScore).sum := by
  rw [poolTotal_eq]
  refine sum_map_le_of_keys ((faithful.nodup_bestRows _ k).sublist (List.filter_sublist.map _)) ?_
    fun r _ => r.exactScore_nonneg
  intro b mem
  obtain ⟨mem, counted⟩ := List.mem_filter.1 mem
  obtain ⟨r, among, about, le⟩ := bounded b mem
  obtain ⟨d, p, describes, describes'⟩ :=
    Database.describes_same (drawn r among) (row_of_mem_bestRows mem) about
  refine ⟨r, List.mem_filter.2 ⟨among, ?_⟩, about, ?_⟩
  · cases pool with
    | rated => exact (describes.rated.trans describes'.rated.symm).trans counted
    | unrated => rfl
  · rw [Database.value_of_describes describes, Database.value_of_describes describes']
    exact Database.value_mono le

theorem poolTotal_mono (faithful : g.Faithful) (faithful' : g'.Faithful)
    (selects : g.Selects (db.scoreGiving window) k counts)
    (selects' : g'.Selects (db.scoreGiving window) k' counts') (part : ∀ id, counts id → counts' id) :
    g.poolTotal (db.scoreGiving window) pool k ≤ g'.poolTotal (db.scoreGiving window) pool k' := by
  rw [poolTotal_eq g']
  refine faithful.poolTotal_le (fun _ => row_of_mem_bestRows) ?_
  intro b mem
  have row := row_of_mem_bestRows mem
  have counted := part _ ((selects b row).1 (eligible_of_mem_bestRows mem))
  obtain ⟨eligible, key⟩ := (selects' b row).2 counted
  exact faithful'.exists_mem_bestRows eligible key

/-- An entity has at most the total of the players who count for it, even if no demon is counted twice. -/
theorem poolTotal_le_sum (faithful : g.Faithful) (selects : g.Selects (db.scoreGiving window) k counts)
    {ids : List Int} (covered : ∀ id, counts id → id ∈ ids) : g.poolTotal (db.scoreGiving window) pool k ≤
      (ids.map (players.poolTotal (db.scoreGiving window) pool)).sum := by
  -- a demon that several players have beaten is counted once for the entity, but for each of them on the right
  let theirs := ids.flatMap (players.bestRows (db.scoreGiving window))
  have together : (ids.map (players.poolTotal (db.scoreGiving window) pool)).sum =
      ((theirs.filter (·.countsIn pool)).map ScoreRow.exactScore).sum := by
    rw [List.filter_flatMap, List.map_flatMap, List.flatMap_def, List.sum_flatten, List.map_map]
    exact congrArg List.sum (List.map_congr_left fun id _ => poolTotal_eq players _ pool id)
  rw [together]
  refine faithful.poolTotal_le ?_ ?_
  · intro r mem
    obtain ⟨id, -, mem⟩ := List.mem_flatMap.1 mem
    exact row_of_mem_bestRows mem
  · intro b mem
    have row := row_of_mem_bestRows mem
    have counted := (selects b row).1 (eligible_of_mem_bestRows mem)
    have own : players.key b = some b.playerId := rfl
    obtain ⟨r, best, about, le⟩ := faithful_players.exists_mem_bestRows row own
    exact ⟨r, List.mem_flatMap.2 ⟨b.playerId, covered _ counted, best⟩, about, le⟩

end Grouping

namespace Database

variable {db : Database ℝ} {condition : Player → Bool}

def idsWho (db : Database ℝ) (condition : Player → Bool) : List Int :=
  (db.players.entries.filter fun (_, p) => condition p).map Prod.fst

theorem mem_idsWho {id : Int} (meets : db.playersWho condition id) : id ∈ db.idsWho condition := by
  obtain ⟨p, found, meets⟩ := (Option.any_eq_true _ _).1 meets
  exact List.mem_map.2 ⟨(id, p), List.mem_filter.2 ⟨Table.mem_of_find? found, meets⟩, rfl⟩

theorem playersWho_mono {condition' : Player → Bool} (part : ∀ p, condition p → condition' p) {id : Int}
    (meets : db.playersWho condition id) : db.playersWho condition' id := by
  obtain ⟨p, found, meets⟩ := (Option.any_eq_true _ _).1 meets
  exact (Option.any_eq_true _ _).2 ⟨p, found, part p meets⟩

theorem playersWho_of_find? {id id' : Int} {p : Player} (found : db.players.find? id = some p) (meets : condition p)
    (same : decide (id' = id) = true) : db.playersWho condition id' := by
  rw [of_decide_eq_true same, playersWho, found]
  exact meets

end Database

/-- The totals of the levels bound each other, in either pool and under any window of selection. A subdivision has at
most the total of its nation, and a player who is not banned at most that of the own nation and the own subdivision;
a nation or a subdivision has at most the sum of the totals of its players who are not banned. -/
theorem levels_bound_each_other (db : Database ℝ) (window : Int) (pool : Pool) :
    let rows := db.scoreGiving window
    let player := Grouping.players.poolTotal rows pool
    let nation := Grouping.nations.poolTotal rows pool
    let subdivision := Grouping.subdivisions.poolTotal rows pool
    (∀ region : Region, subdivision region ≤ nation region.nation) ∧
    (∀ id p, db.players.find? id = some p → p.banned = false →
      ∀ code, p.nationality = some code → player id ≤ nation code ∧
        ∀ sub, p.subdivision = some sub → player id ≤ subdivision ⟨code, sub⟩) ∧
    (∀ code, nation code ≤ ((db.idsWho (Player.countsFor code)).map player).sum) ∧
    ∀ region, subdivision region ≤ ((db.idsWho (Player.countsForRegion region)).map player).sum := by
  intro rows player nation subdivision
  refine ⟨?_, ?_, ?_, ?_⟩
  · intro region
    refine Grouping.poolTotal_mono Grouping.faithful_subdivisions Grouping.faithful_nations
      (db.selects_subdivisions window region) (db.selects_nations window region.nation) ?_
    exact fun _ => Database.playersWho_mono fun p counts => (Bool.and_eq_true_iff.1 counts).1
  · intro id p found free code home
    have selects := db.selects_players window id
    have counts : p.countsFor code := by simp [Player.countsFor, free, home]
    constructor
    · exact Grouping.poolTotal_mono Grouping.faithful_players Grouping.faithful_nations selects
        (db.selects_nations window code) fun _ => Database.playersWho_of_find? found counts
    · intro sub part
      have counts : p.countsForRegion ⟨code, sub⟩ := by simp [Player.countsForRegion, counts, part]
      exact Grouping.poolTotal_mono Grouping.faithful_players Grouping.faithful_subdivisions selects
        (db.selects_subdivisions window ⟨code, sub⟩) fun _ => Database.playersWho_of_find? found counts
  · intro code
    exact Grouping.poolTotal_le_sum Grouping.faithful_nations (db.selects_nations window code)
      fun _ => Database.mem_idsWho
  · intro region
    exact Grouping.poolTotal_le_sum Grouping.faithful_subdivisions (db.selects_subdivisions window region)
      fun _ => Database.mem_idsWho

/-- The verifier of the top demon and a compatriot who has completed it too. Each has the score of a completion, and so
has their nation, though together they have twice as much. -/
theorem levels_bound_each_other_of_compatriots :
    let first : Demon := ⟨"a", some 1, 50, none, 1, 1, true, ⟨0⟩, none⟩
    let db : Database ℝ := { (Database.empty : Database ℝ) with
      players := (Table.empty.append ⟨"p", some "FR", some "IDF", false⟩).append ⟨"q", some "FR", none, false⟩
      demons := Table.empty.append first
      records := Table.empty.append ⟨2, 1, 100, .approved⟩ }
    let rows := db.scoreGiving 75
    let player := Grouping.players.poolTotal rows .rated
    let nation := Grouping.nations.poolTotal rows .rated "FR"
    let subdivision := Grouping.subdivisions.poolTotal rows .rated ⟨"FR", "IDF"⟩
    player 1 = 250 ∧ player 2 = 250 ∧ nation = 250 ∧ player 2 ≤ nation ∧
      player 1 ≤ subdivision ∧ subdivision ≤ nation ∧ nation ≤ player 1 + player 2 := by
  intro first db rows player nation subdivision
  obtain ⟨nested, members, together, -⟩ := levels_bound_each_other db 75 .rated
  have home := members 1 ⟨"p", some "FR", some "IDF", false⟩ rfl rfl "FR" rfl
  have elsewhere := members 2 ⟨"q", some "FR", none, false⟩ rfl rfl "FR" rfl
  have value {κ : Type} [DecidableEq κ] (g : Grouping κ) (k : κ) (r : ScoreRow) (alone : g.bestRows rows k = [r])
      (rated : r.rated) (complete : r.progress = 100) (top : r.position = 1) : g.poolTotal rows .rated k = 250 := by
    have score : r.exactScore = 250 := by
      unfold ScoreRow.exactScore ScoreRow.score
      rw [complete, top]
      change (Curve.standard : Curve ℝ).recordScore ((100 : Int) : ℝ) ((1 : Int) : ℝ) _ _ = 250
      rw [Int.cast_ofNat, Int.cast_one, Curve.recordScore_complete, Curve.fullCredit_one]
    rw [Grouping.poolTotal_eq, alone, List.filter_singleton]
    simp [ScoreRow.countsIn, rated, score]
  let verified : ScoreRow := ⟨0, 1, 1, 100, 1, 50, true, true, some "FR", some "IDF", false⟩
  let completed : ScoreRow := ⟨1, 2, 1, 100, 1, 50, true, false, some "FR", none, false⟩
  refine ⟨value _ 1 verified (by decide) rfl rfl rfl, value _ 2 completed (by decide) rfl rfl rfl,
    value _ "FR" verified (by decide) rfl rfl rfl, elsewhere.1, home.2 "IDF" rfl, nested ⟨"FR", "IDF"⟩, ?_⟩
  have ids : db.idsWho (Player.countsFor "FR") = [1, 2] := by decide
  have sum := together "FR"
  rw [ids] at sum
  simpa using sum

end DemonBoard
