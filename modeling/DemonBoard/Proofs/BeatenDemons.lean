import DemonBoard.Stats.Player
import DemonBoard.Proofs.Irrelevance
import DemonBoard.Proofs.NationRecords

/-! The demons behind a player's score. The stats name what the player has completed or verified from the top of the
list down, but only one demon of each name, so they are complete exactly if no two of these demons are called the
same. -/

namespace DemonBoard

section Firsts

variable {β γ δ : Type} [DecidableEq γ] {key : β → γ} {xs : List β} {x : β}

def firstsBy (key : β → γ) (xs : List β) : List β := xs.eraseDupsBy fun a b => key a == key b

theorem firstsBy_cons : firstsBy key (x :: xs) = x :: firstsBy key (xs.filter fun y => key y ≠ key x) := by
  unfold firstsBy
  rw [List.eraseDupsBy_cons]
  congr 2
  refine List.filter_congr ?_
  intro y _
  by_cases same : key y = key x <;> simp [same]

theorem firstsBy_map (f : β → δ) {key : δ → γ} : (xs : List β) →
    firstsBy key (xs.map f) = (firstsBy (key ∘ f) xs).map f
  | [] => rfl
  | x :: xs => by
    rw [List.map_cons, firstsBy_cons, firstsBy_cons, List.map_cons, List.filter_map, firstsBy_map f]
    rfl
termination_by xs => xs.length
decreasing_by exact Nat.lt_succ_of_le (List.length_filter_le _ _)

theorem mem_firstsBy : (xs : List β) → (x ∈ firstsBy key xs ↔ xs.find? (fun y => key y = key x) = some x)
  | [] => by simp [firstsBy]
  | y :: ys => by
    rw [firstsBy_cons, List.mem_cons, mem_firstsBy, List.find?_filter]
    simp only [decide_eq_true_eq]
    by_cases same : key y = key x
    · have later : ys.find? (fun z => decide (key z ≠ key y ∧ key z = key x)) = none :=
        List.find?_eq_none.2 fun z _ both => (of_decide_eq_true both).1 ((of_decide_eq_true both).2.trans same.symm)
      rw [later]
      simp only [List.find?_cons, same, decide_true, Option.some_inj]
      exact ⟨fun h => h.elim Eq.symm (nomatch ·), fun h => .inl h.symm⟩
    · have ne : x ≠ y := fun e => same (congrArg key e.symm)
      have narrowed : (fun z => decide (key z ≠ key y ∧ key z = key x)) = fun z => decide (key z = key x) := by
        refine funext fun z => decide_eq_decide.2 ⟨And.right, fun equal => ⟨?_, equal⟩⟩
        exact fun same' => same (same'.symm.trans equal)
      simp only [narrowed, List.find?_cons, same, decide_false, ne, false_or]
termination_by xs => xs.length
decreasing_by exact Nat.lt_succ_of_le (List.length_filter_le _ _)

theorem nodup_keys_firstsBy : (xs : List β) → ((firstsBy key xs).map key).Nodup
  | [] => List.nodup_nil
  | x :: xs => by
    rw [firstsBy_cons, List.map_cons, List.nodup_cons]
    refine ⟨?_, nodup_keys_firstsBy _⟩
    intro mem
    obtain ⟨y, kept, same⟩ := List.mem_map.1 mem
    have mem' := List.mem_of_find?_eq_some ((mem_firstsBy _).1 kept)
    exact of_decide_eq_true (List.mem_filter.1 mem').2 same
termination_by xs => xs.length
decreasing_by exact Nat.lt_succ_of_le (List.length_filter_le _ _)

end Firsts

/-- A player's stats show some demons: they name them, from the top of the list down, in three parts that end at the
positions 75 and 150 and with the list, and the first of them is the hardest. -/
structure PlayerStats.Shows {α : Type} (stats : PlayerStats α) (demons : List (Int × Demon)) : Prop where
  main : stats.mainBeaten =
    (demons.filter fun (_, d) => d.position.any fun p => decide (p ≤ 75)).map fun (_, d) => d.name
  extended : stats.extendedBeaten =
    (demons.filter fun (_, d) => d.position.any fun p => decide (75 < p) && decide (p ≤ 150)).map fun (_, d) => d.name
  legacy : stats.legacyBeaten =
    (demons.filter fun (_, d) => d.position.any fun p => decide (150 < p)).map fun (_, d) => d.name
  hardest : stats.hardest = demons.head?.map fun (_, d) => d.name

theorem PlayerStats.Shows.length_eq {α : Type} {stats : PlayerStats α} {demons : List (Int × Demon)}
    (shows : stats.Shows demons) (present : ∀ e ∈ demons, e.2.position.isSome) :
    stats.mainBeaten.length + stats.extendedBeaten.length + stats.legacyBeaten.length = demons.length := by
  rw [shows.main, shows.extended, shows.legacy]
  simp only [List.length_map, ← List.countP_eq_length_filter]
  clear shows
  induction demons with
  | nil => rfl
  | cons e rest ih =>
    obtain ⟨p, at_p⟩ := Option.isSome_iff_exists.1 (present e List.mem_cons_self)
    have ih := ih fun e mem => present e (List.mem_cons_of_mem _ mem)
    simp only [List.countP_cons, at_p, Option.any_some, Bool.and_eq_true, decide_eq_true_eq, List.length_cons]
    split_ifs <;> omega

namespace Database

variable {α : Type} {db : Database α} {playerId : Int}

/-- Whether a player has verified a demon, or has an approved record of 100% on it. -/
def beats (db : Database α) (playerId : Int) (e : Int × Demon) : Bool :=
  decide (e.2.verifierId = playerId) || db.records.entries.any fun (_, r) =>
    r.status = .approved ∧ r.playerId = playerId ∧ r.demonId = e.1 ∧ r.progress = 100

/-- The listed demons that a player has beaten, from the top down. -/
def beatenDemons (db : Database α) (playerId : Int) : List (Int × Demon) :=
  db.demonsInOrder.filter (db.beats playerId)

def completedDemons (db : Database α) (playerId : Int) : List (Int × Demon) :=
  db.records.entries.filterMap fun (_, r) =>
    if r.playerId = playerId ∧ r.status = .approved ∧ r.progress = 100 then
      (db.demons.find? r.demonId).bind fun d => if d.listed then some (r.demonId, d) else none
    else none

/-- What a player has beaten, record by record, and then what the player has verified. -/
def conquests (db : Database α) (playerId : Int) : List (Int × Demon) :=
  db.completedDemons playerId ++ db.listedDemons.filter fun (_, d) => d.verifierId = playerId

/-- The beaten demons without those whose name an earlier conquest has. -/
def shownDemons (db : Database α) (playerId : Int) : List (Int × Demon) :=
  (db.beatenDemons playerId).filter fun e =>
    (db.conquests playerId).find? (fun e' => e'.2.name = e.2.name) = some e

theorem mem_completedDemons {e : Int × Demon} : e ∈ db.completedDemons playerId ↔
    e ∈ db.listedDemons ∧ ∃ entry ∈ db.records.entries, entry.2.status = .approved ∧
      entry.2.playerId = playerId ∧ entry.2.demonId = e.1 ∧ entry.2.progress = 100 := by
  obtain ⟨id, d⟩ := e
  simp only [completedDemons, List.mem_filterMap, mem_listedDemons]
  constructor
  · rintro ⟨entry, mem, shown⟩
    split_ifs at shown with complete
    obtain ⟨d', found, shown⟩ := Option.bind_eq_some_iff.1 shown
    split_ifs at shown with listed
    cases shown
    exact ⟨⟨found, listed⟩, entry, mem, complete.2.1, complete.1, rfl, complete.2.2⟩
  · rintro ⟨⟨found, listed⟩, entry, mem, approved, own, rfl, complete⟩
    refine ⟨entry, mem, ?_⟩
    rw [if_pos ⟨own, approved, complete⟩, found, Option.bind_some, if_pos listed]

theorem mem_conquests {e : Int × Demon} :
    e ∈ db.conquests playerId ↔ e ∈ db.listedDemons ∧ db.beats playerId e = true := by
  simp only [conquests, List.mem_append, mem_completedDemons, List.mem_filter, beats, Bool.or_eq_true, List.any_eq_true,
    decide_eq_true_eq]
  rw [← and_or_left, or_comm]

theorem mem_beatenDemons {e : Int × Demon} : e ∈ db.beatenDemons playerId ↔ e ∈ db.conquests playerId := by
  rw [beatenDemons, List.mem_filter, db.perm_demonsInOrder.mem_iff, mem_conquests]

theorem exists_shown_of_beaten {e : Int × Demon} (mem : e ∈ db.beatenDemons playerId) :
    ∃ e' ∈ db.shownDemons playerId, e'.2.name = e.2.name := by
  have conquered := mem_beatenDemons.1 mem
  have searched : ((db.conquests playerId).find? fun e' => e'.2.name = e.2.name).isSome :=
    List.find?_isSome.2 ⟨e, conquered, decide_eq_true rfl⟩
  obtain ⟨e', first⟩ := Option.isSome_iff_exists.1 searched
  have same : e'.2.name = e.2.name := by simpa using List.find?_some first
  refine ⟨e', List.mem_filter.2 ⟨mem_beatenDemons.2 (List.mem_of_find?_eq_some first), ?_⟩, same⟩
  rw [same]
  exact decide_eq_true first

theorem shownDemons_sublist (db : Database α) (playerId : Int) :
    (db.shownDemons playerId).Sublist (db.beatenDemons playerId) := List.filter_sublist

theorem nodup_names_shownDemons (db : Database α) (playerId : Int) :
    ((db.shownDemons playerId).map fun (_, d) => d.name).Nodup := by
  have distinct : db.demonsInOrder.Nodup :=
    List.Nodup.of_map Prod.fst ((db.perm_demonsInOrder.map Prod.fst).nodup_iff.2 db.nodup_listed)
  refine List.Nodup.map_on ?_ (distinct.sublist ((db.shownDemons_sublist playerId).trans List.filter_sublist))
  intro e shown e' shown' same
  have first := of_decide_eq_true (List.mem_filter.1 shown).2
  have first' := of_decide_eq_true (List.mem_filter.1 shown').2
  rw [show e.2.name = e'.2.name from same, first'] at first
  exact (Option.some_inj.1 first).symm

def firstConquests (db : Database α) (playerId : Int) : List (Int × Demon) :=
  firstsBy (fun e => e.2.name) (db.conquests playerId)

theorem firstConquests_perm (db : Database α) (playerId : Int) :
    (db.firstConquests playerId).Perm (db.shownDemons playerId) := by
  unfold firstConquests
  refine (List.perm_ext_iff_of_nodup (List.Nodup.of_map _ (nodup_keys_firstsBy _))
    (List.Nodup.of_map _ (db.nodup_names_shownDemons playerId))).2 ?_
  intro e
  rw [mem_firstsBy, shownDemons, List.mem_filter, decide_eq_true_eq, mem_beatenDemons]
  exact ⟨fun first => ⟨List.mem_of_find?_eq_some first, first⟩, And.right⟩

theorem nullsLast_trans (a b c : Option Int) (h : Stats.nullsLast a b = true) (h' : Stats.nullsLast b c = true) :
    Stats.nullsLast a c = true := by
  cases c with
  | none => cases a <;> rfl
  | some c =>
    cases b with
    | none => cases h'
    | some b =>
      cases a with
      | none => cases h
      | some a => exact decide_eq_true (Int.le_trans (of_decide_eq_true h) (of_decide_eq_true h'))

theorem nullsLast_total (a b : Option Int) : (Stats.nullsLast a b || Stats.nullsLast b a) = true := by
  cases a <;> cases b <;> simp [Stats.nullsLast, Int.le_total]

theorem Dense.position_isSome (dense : db.Dense) {e : Int × Demon} (mem : e ∈ db.beatenDemons playerId) :
    e.2.position.isSome := by
  obtain ⟨found, listed⟩ := mem_listedDemons.1 (mem_conquests.1 (mem_beatenDemons.1 mem)).1
  obtain ⟨_, -, at_p⟩ := dense.arranged.placed e.1 e.2 found listed
  rw [at_p]
  rfl

theorem map_completedDemons (db : Database α) (playerId : Int) :
    (db.completedDemons playerId).map (fun (_, d) => (d.name, d.position)) =
      ((db.approvedOf playerId).filter fun (_, progress) => progress = 100).map Prod.fst := by
  rw [completedDemons, approvedOf, List.map_filterMap, List.filter_filterMap, List.map_filterMap]
  refine List.filterMap_congr ?_
  rintro ⟨recordId, r⟩ -
  by_cases own : r.playerId = playerId ∧ r.status = .approved
  · cases found : db.demons.find? r.demonId with
    | none => simp [own, found]
    | some d =>
      by_cases listed : d.listed <;> by_cases complete : r.progress = 100 <;> simp [own, found, listed, complete]
  · have unshown : ¬(r.playerId = playerId ∧ r.status = .approved ∧ r.progress = 100) := fun h => own ⟨h.1, h.2.1⟩
    simp only [if_neg own, if_neg unshown, Option.map_none, Option.filter_none]

theorem beatenBy_eq_map (db : Database α) (playerId : Int) : db.beatenBy playerId =
    (sortBy (fun a b => Stats.nullsLast a.2.position b.2.position) (db.firstConquests playerId)).map
      fun (_, d) => (d.name, d.position) := by
  have named : (db.conquests playerId).map (fun (_, d) => (d.name, d.position)) =
      ((db.approvedOf playerId).filter fun (_, progress) => progress = 100).map Prod.fst ++ db.verifiedBy playerId := by
    rw [conquests, List.map_append, map_completedDemons, verifiedBy]
  have distinct (demons : List Stats.Named) : Stats.distinctNames demons = firstsBy Prod.fst demons := rfl
  change Stats.byPosition (Stats.distinctNames (_ ++ db.verifiedBy playerId)) = _
  rw [← named, distinct, firstsBy_map, Stats.byPosition, sortBy_map (fun _ _ => rfl)]
  rfl

theorem ascending_sortBy_nullsLast {es : List (Int × Demon)} (present : ∀ e ∈ es, e.2.position.isSome) :
    (sortBy (fun a b => Stats.nullsLast a.2.position b.2.position) es).Pairwise fun a b =>
      a.2.position.getD 0 ≤ b.2.position.getD 0 := by
  have inOrder := pairwise_sortBy (fun a b c => nullsLast_trans a.2.position b.2.position c.2.position)
    (fun a b => nullsLast_total a.2.position b.2.position) es
  refine inOrder.imp_of_mem fun {a b} ha hb le => ?_
  obtain ⟨p, at_p⟩ := Option.isSome_iff_exists.1 (present a (mem_sortBy.1 ha))
  obtain ⟨q, at_q⟩ := Option.isSome_iff_exists.1 (present b (mem_sortBy.1 hb))
  rw [at_p, at_q] at le ⊢
  exact of_decide_eq_true le

/-- On a dense list they are the demons that are not called like an earlier conquest. -/
theorem Dense.beatenBy_eq (dense : db.Dense) (playerId : Int) :
    db.beatenBy playerId = (db.shownDemons playerId).map fun (_, d) => (d.name, d.position) := by
  have members := db.firstConquests_perm playerId
  have present : ∀ e ∈ db.firstConquests playerId, e.2.position.isSome := fun e mem =>
    dense.position_isSome ((db.shownDemons_sublist playerId).subset (members.subset mem))
  have ascending := dense.ascending_demonsInOrder.sublist
    ((db.shownDemons_sublist playerId).trans List.filter_sublist)
  rw [beatenBy_eq_map]
  exact congrArg (List.map _)
    (eq_of_perm_of_ascending ((sortBy_perm _ _).trans members) (ascending_sortBy_nullsLast present) ascending)

theorem Dense.playerStats_shows [Scalar α] (dense : db.Dense) {player : Player}
    (found : db.players.find? playerId = some player) :
    ∃ stats, db.playerStats playerId = .ok stats ∧ stats.Shows (db.shownDemons playerId) := by
  have stretch (lower upper : Option Int) : Stats.namesIn lower upper (db.beatenBy playerId) =
      ((db.shownDemons playerId).filter fun (_, d) => d.position.any fun p =>
        (lower.all fun l => decide (l < p)) && upper.all fun u => decide (p ≤ u)).map fun (_, d) => d.name := by
    rw [dense.beatenBy_eq, Stats.namesIn, List.filter_map, List.map_map]
    rfl
  unfold playerStats requireRow
  rw [found]
  refine ⟨_, rfl, ?_, ?_, ?_, ?_⟩
  · exact stretch none (some scoredWindow)
  · exact stretch (some scoredWindow) (some extendedListSize)
  · refine (stretch (some extendedListSize) none).trans ?_
    simp only [Option.all_some, Option.all_none, Bool.and_true]
    rfl
  · change (db.beatenBy playerId).head?.map Prod.fst = _
    rw [dense.beatenBy_eq, List.head?_map, Option.map_map]
    rfl

theorem shownDemons_eq_iff : db.shownDemons playerId = db.beatenDemons playerId ↔
    ((db.beatenDemons playerId).map fun (_, d) => d.name).Nodup := by
  constructor
  · intro whole
    rw [← whole]
    exact db.nodup_names_shownDemons playerId
  · intro distinct
    refine List.filter_eq_self.2 ?_
    intro e mem
    obtain ⟨e', shown, same⟩ := exists_shown_of_beaten mem
    obtain rfl : e' = e := List.inj_on_of_nodup_map distinct ((db.shownDemons_sublist playerId).subset shown) mem same
    exact (List.mem_filter.1 shown).2

/-- The stats of a player show demons that the player has beaten, from the top down, one of each name. They are all
the beaten demons exactly if no two of those have the same name. -/
theorem playerStats_shows_one_of_each_name [Scalar α] (dense : db.Dense) {player : Player}
    (found : db.players.find? playerId = some player) :
    ∃ stats, db.playerStats playerId = .ok stats ∧ stats.Shows (db.shownDemons playerId) ∧
      (db.shownDemons playerId).Sublist (db.beatenDemons playerId) ∧
      ((db.shownDemons playerId).map fun (_, d) => d.name).Nodup ∧
      (∀ e ∈ db.beatenDemons playerId, ∃ e' ∈ db.shownDemons playerId, e'.2.name = e.2.name) ∧
      (stats.Shows (db.beatenDemons playerId) ↔ ((db.beatenDemons playerId).map fun (_, d) => d.name).Nodup) := by
  obtain ⟨stats, read, shows⟩ := dense.playerStats_shows found
  have sublist := db.shownDemons_sublist playerId
  refine ⟨stats, read, shows, sublist, db.nodup_names_shownDemons playerId, fun _ => exists_shown_of_beaten, ?_⟩
  rw [← shownDemons_eq_iff]
  constructor
  · intro whole
    have present {e : Int × Demon} (mem : e ∈ db.beatenDemons playerId) := dense.position_isSome mem
    refine sublist.eq_of_length ?_
    rw [← shows.length_eq fun e mem => present (sublist.subset mem), ← whole.length_eq fun e => present]
  · intro whole
    rwa [← whole]

/-- Neither a second record on a demon nor one on a demon that the player has verified names it again. -/
theorem playerStats_shows_one_of_each_name_of_verifier :
    let first : Demon := ⟨"a", some 1, 50, none, 1, 1, true, ⟨0⟩, none⟩
    let second : Demon := ⟨"b", some 2, 40, none, 2, 2, true, ⟨0⟩, none⟩
    let db : Database Float := { (empty : Database Float) with
      players := (Table.empty.append ⟨"v", none, none, false⟩).append ⟨"w", none, none, false⟩
      demons := (Table.empty.append first).append second
      records := ((Table.empty.append ⟨1, 2, 100, .approved⟩).append ⟨1, 2, 100, .approved⟩).append
        ⟨1, 1, 100, .approved⟩ }
    ∃ stats, db.playerStats 1 = .ok stats ∧ stats.Shows (db.beatenDemons 1) ∧
      db.beatenDemons 1 = [(1, first), (2, second)] := by
  intro first second db
  have dense : db.Dense := by decide
  have beaten : db.beatenDemons 1 = [(1, first), (2, second)] := by decide
  obtain ⟨stats, read, -, -, -, -, complete⟩ :=
    playerStats_shows_one_of_each_name dense (rfl : db.players.find? 1 = some ⟨"v", none, none, false⟩)
  refine ⟨stats, read, complete.2 ?_, beaten⟩
  rw [beaten]
  decide

/-- A verifier at the top of the list has completed the next two demons as well, and the last one has the name of the
first. The first is left out, and the hardest demon shown is the second. -/
theorem playerStats_omits_namesake :
    let first : Demon := ⟨"A", some 1, 50, none, 1, 1, true, ⟨0⟩, none⟩
    let second : Demon := ⟨"B", some 2, 50, none, 2, 2, true, ⟨0⟩, none⟩
    let third : Demon := ⟨"A", some 3, 50, none, 2, 2, true, ⟨0⟩, none⟩
    let db : Database Float := { (empty : Database Float) with
      players := (Table.empty.append ⟨"v", none, none, false⟩).append ⟨"w", none, none, false⟩
      demons := ((Table.empty.append first).append second).append third
      records := (Table.empty.append ⟨1, 2, 100, .approved⟩).append ⟨1, 3, 100, .approved⟩ }
    db.Dense ∧ db.beatenDemons 1 = [(1, first), (2, second), (3, third)] ∧
      ∃ stats, db.playerStats 1 = .ok stats ∧ stats.mainBeaten = ["B", "A"] ∧ stats.hardest = some "B" ∧
        ¬stats.Shows (db.beatenDemons 1) := by
  intro first second third db
  have beaten : db.beatenDemons 1 = [(1, first), (2, second), (3, third)] := by decide
  refine ⟨by decide, beaten, _, rfl, by decide, by decide, ?_⟩
  intro shows
  have hardest := shows.hardest
  rw [beaten] at hardest
  revert hardest
  decide

end Database

end DemonBoard
