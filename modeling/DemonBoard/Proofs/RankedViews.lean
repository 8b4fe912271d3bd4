import DemonBoard.Proofs.RankedEntities
import DemonBoard.Proofs.ScoreRange

/-! Ranked views as slices of one ranking. The unfiltered view of a fresh board is its ranking, a filter only leaves
entries out of it and numbers the rest anew, and pages are consecutive pieces of a view. -/

namespace DemonBoard

namespace Text

/-- A text mentions another if it holds a block that differs from it in the case of ASCII letters at most. -/
def Mentions (text needle : String) : Prop :=
  ∃ before found after : List Char, text.toList = before ++ found ++ after ∧
    found.map Char.toLower = needle.toList.map Char.toLower

theorem containsIgnoringCase_iff {text needle : String} : containsIgnoringCase text needle ↔ Mentions text needle := by
  rw [containsIgnoringCase, occurs_iff_infix, List.IsInfix]
  constructor
  · rintro ⟨before, after, whole⟩
    obtain ⟨front, after', split, found, rfl⟩ := List.map_eq_append_iff.1 whole.symm
    obtain ⟨before', found', rfl, rfl, same⟩ := List.map_eq_append_iff.1 found
    exact ⟨before', found', after', split, same⟩
  · rintro ⟨before, found, after, split, same⟩
    refine ⟨before.map Char.toLower, after.map Char.toLower, ?_⟩
    rw [foldCase, foldCase, split, List.map_append, List.map_append, same]

instance (text needle : String) : Decidable (Mentions text needle) := decidable_of_iff _ containsIgnoringCase_iff

end Text

section Pages

variable {β : Type}

/-- The first pages of a list, read one after the other. -/
def firstPages (limit count : Nat) (xs : List β) : List β :=
  (List.range count).flatMap fun i => Paging.page (i * limit : Nat) (some limit) xs

theorem firstPages_eq_take (limit count : Nat) (xs : List β) : firstPages limit count xs = xs.take (count * limit) := by
  induction count with
  | zero => simp [firstPages]
  | succ count ih =>
    unfold firstPages at ih ⊢
    rw [List.range_succ, List.flatMap_append, ih, List.flatMap_singleton, Paging.page_of_nonneg, Nat.succ_mul,
      List.take_add]

theorem firstPages_of_length_le {limit count : Nat} {xs : List β} (enough : xs.length ≤ count * limit) :
    firstPages limit count xs = xs := by
  rw [firstPages_eq_take, List.take_of_length_le enough]

end Pages

section Entries

variable {κ α : Type} {es : List (RankedEntry κ α)}

def renumbered (es : List (RankedEntry κ α)) : List (RankedEntry κ α) :=
  (es.zipIdx 1).map fun (e, index) => { e with index }

theorem map_renumbered {β : Type} {f : RankedEntry κ α → β} (blind : ∀ e index, f { e with index } = f e)
    (es : List (RankedEntry κ α)) : (renumbered es).map f = es.map f := by
  rw [renumbered, List.map_map, ← List.zipIdx_map_fst 1 es, List.map_map, List.zipIdx_map_fst]
  exact List.map_congr_left fun p _ => blind p.1 p.2

theorem mem_renumbered {e : RankedEntry κ α} (mem : e ∈ renumbered es) :
    ∃ e' ∈ es, ∃ index, e = { e' with index } := by
  obtain ⟨⟨e', index⟩, pair, rfl⟩ := List.mem_map.1 mem
  exact ⟨e', List.fst_mem_of_mem_zipIdx pair, index, rfl⟩

theorem indices_renumbered (es : List (RankedEntry κ α)) :
    (renumbered es).map RankedEntry.index = List.range' 1 (renumbered es).length := by
  have length : (renumbered es).length = es.length := by simp [renumbered]
  rw [length, renumbered, List.map_map, ← List.zipIdx_map_snd 1 es]
  rfl

def RankedEntry.unnumbered (e : RankedEntry κ α) : RankedEntry κ α := { e with index := 0 }

theorem renumbered_unnumbered (es : List (RankedEntry κ α)) :
    renumbered (es.map RankedEntry.unnumbered) = renumbered es := by
  rw [renumbered, List.zipIdx_map, List.map_map]
  rfl

/-- Leaving entries out of a numbered list and then numbering it anew is as good as numbering once. -/
theorem renumbered_filter_renumbered {keep : RankedEntry κ α → Bool}
    (blind : ∀ e index, keep { e with index } = keep e) (es : List (RankedEntry κ α)) :
    renumbered ((renumbered es).filter keep) = renumbered (es.filter keep) := by
  have filtered (es : List (RankedEntry κ α)) :
      (es.filter keep).map RankedEntry.unnumbered = (es.map RankedEntry.unnumbered).filter keep := by
    have same : keep ∘ RankedEntry.unnumbered = keep := funext fun e => blind e 0
    rw [List.filter_map, same]
  rw [← renumbered_unnumbered, filtered, map_renumbered (fun _ _ => rfl), ← filtered, renumbered_unnumbered]

end Entries

/-- A view is the ranking of those entities that may be ranked: it lists those with a positive total under their names,
the larger totals first and tied ones by their keys, numbers them from 1, and ranks each after those with a strictly
larger total. And the rank that is looked up for an entity is that of its entry, if it has one. -/
structure IsRanking {κ α ρ : Type} [Ord κ] [DecidableEq κ] [Scalar α] (view : List (RankedEntry κ α)) (b : Board κ α)
    (entities : Table κ ρ) (pool : Pool) (mayRank : κ → ρ → Bool) (name : ρ → String)
    (nationality : κ → ρ → Option String) : Prop where
  listed : ∀ k, k ∈ view.map RankedEntry.key ↔
    ∃ row, entities.find? k = some row ∧ mayRank k row ∧ 0 < (b.total k).inPool pool
  shown : ∀ e ∈ view, e.score = (b.total e.key).inPool pool ∧
    ∃ row, entities.find? e.key = some row ∧ e.name = name row ∧ e.nationality = nationality e.key row
  ordered : view.Pairwise fun e f => f.score < e.score ∨ e.score = f.score ∧ compare e.key f.key = .lt
  numbered : view.map RankedEntry.index = List.range' 1 view.length
  ranked : ∀ e ∈ view, e.rank = 1 + view.countP fun f => e.score < f.score
  lookedUp : ∀ k, b.rankOf k pool = (view.find? fun e => e.key = k).map RankedEntry.rank

/-- There is one ranking of a board: whoever may be ranked, by total and key, each ranked after those who have more. -/
theorem IsRanking.places_eq {κ α ρ : Type} [Ord κ] [Std.TransOrd κ] [DecidableEq κ] [Scalar α] [Scalar.Ordered α]
    {view : List (RankedEntry κ α)} {b : Board κ α} {entities : Table κ ρ} {pool : Pool} {mayRank : κ → ρ → Bool}
    {name : ρ → String} {nationality : κ → ρ → Option String} {values : List (κ × α)}
    (h : IsRanking view b entities pool mayRank name nationality) (leads : values.Pairwise Leads)
    (members : ∀ e, e ∈ values ↔
      (∃ row, entities.find? e.1 = some row ∧ mayRank e.1 row) ∧ (b.total e.1).inPool pool = e.2 ∧ 0 < e.2) :
    view.map (fun e => (e.key, e.rank)) = values.map fun e => (e.1, 1 + values.countP fun f => e.2 < f.2) := by
  have shown : view.map (fun e => (e.key, e.score)) = values := by
    have inOrder : (view.map fun e => (e.key, e.score)).Pairwise Leads := List.pairwise_map.2 h.ordered
    have same (e : κ × α) : e ∈ view.map (fun e => (e.key, e.score)) ↔ e ∈ values := by
      rw [members, List.mem_map]
      constructor
      · rintro ⟨v, mem, rfl⟩
        obtain ⟨row, found, may, pos⟩ := (h.listed v.key).1 (List.mem_map_of_mem mem)
        obtain ⟨score, -⟩ := h.shown v mem
        exact ⟨⟨row, found, may⟩, score.symm, score ▸ pos⟩
      · rintro ⟨⟨row, found, may⟩, total, pos⟩
        obtain ⟨v, mem, key⟩ := List.mem_map.1 ((h.listed e.1).2 ⟨row, found, may, total.symm ▸ pos⟩)
        refine ⟨v, mem, Prod.ext key ?_⟩
        rw [(h.shown v mem).1, key, total]
    have positive : ∀ e ∈ values, 0 < e.2 := fun e mem => ((members e).1 mem).2.2
    have distinct {xs : List (κ × α)} (inOrder : xs.Pairwise Leads) (part : ∀ e ∈ xs, e ∈ values) : xs.Nodup :=
      inOrder.imp_of_mem fun mem _ leads here => not_leads_self (positive _ (part _ mem)) (here ▸ leads)
    refine List.Perm.eq_of_pairwise (fun a b _ mem before after => absurd before (after.asymm (positive b mem))) inOrder
      leads ((List.perm_ext_iff_of_nodup ?_ ?_).2 same)
    · exact distinct inOrder fun e => (same e).1
    · exact distinct leads fun _ mem => mem
  rw [← shown, List.map_map]
  refine List.map_congr_left fun e mem => ?_
  rw [h.ranked e mem, Function.comp_apply, List.countP_map]
  rfl

/-- A view is a slice of another: it keeps the entries that are asked for, with their ranks, and numbers them anew, and
as many pages of it as it takes hold the whole of it. -/
structure IsSlice {κ α : Type} (view whole : List (RankedEntry κ α)) (asked : κ → Prop) [DecidablePred asked] :
    Prop where
  filtered : view = renumbered (whole.filter fun e => asked e.key)
  paged : ∀ limit count, view.length ≤ count * limit → firstPages limit count view = view

namespace Board

variable {κ α ρ : Type} [Ord κ] [DecidableEq κ] [Scalar α] {entities : Table κ ρ} {pool : Pool}
  {asked allowed : κ → ρ → Bool} {name : ρ → String} {nationality : κ → ρ → Option String}

def askedRows (b : Board κ α) (entities : Table κ ρ) (pool : Pool) (asked : κ → ρ → Bool) : List (κ × ρ × Nat) :=
  (b.byIndex pool).filterMap fun (k, p) =>
    match entities.find? k with
    | some row => if asked k row then some (k, row, p.rank) else none
    | none => none

def entryOf (b : Board κ α) (pool : Pool) (name : ρ → String) (nationality : κ → ρ → Option String) :
    κ × ρ × Nat → RankedEntry κ α
  | (k, row, rank) => ⟨0, rank, k, name row, (b.total k).inPool pool, nationality k row⟩

theorem view_eq (b : Board κ α) : b.view entities pool asked name nationality =
    renumbered ((b.askedRows entities pool asked).map (b.entryOf pool name nationality)) := by
  rw [renumbered, List.zipIdx_map, List.map_map]
  rfl

omit [Scalar α] in
theorem mem_askedRows [Std.TransOrd κ] {b : Board κ α} {k : κ} {row : ρ} {rank : Nat} :
    (k, row, rank) ∈ b.askedRows entities pool asked ↔
      entities.find? k = some row ∧ asked k row ∧ b.rankOf k pool = some rank := by
  rw [rankOf_eq_some_iff, askedRows, List.mem_filterMap]
  constructor
  · rintro ⟨⟨k', p⟩, place, shown⟩
    dsimp only at shown
    split at shown
    · rename_i row' found
      split at shown
      · rename_i meets
        cases shown
        exact ⟨found, meets, p, place, rfl⟩
      · cases shown
    · cases shown
  · rintro ⟨found, meets, p, place, rfl⟩
    refine ⟨(k, p), place, ?_⟩
    simp [found, meets]

omit [Scalar α] in
theorem askedRows_filter (b : Board κ α) (within : ∀ k row, asked k row → allowed k row) :
    b.askedRows entities pool asked =
      (b.askedRows entities pool allowed).filter fun (k, row, _) => asked k row := by
  rw [askedRows, askedRows, List.filter_filterMap]
  apply List.filterMap_congr
  rintro ⟨k, p⟩ -
  cases found : entities.find? k with
  | none => simp [found]
  | some row =>
    cases meets : asked k row with
    | false => cases may : allowed k row <;> simp [found, meets, may, Option.filter]
    | true => simp [found, meets, within k row meets, Option.filter]

theorem mem_view [Std.TransOrd κ] {b : Board κ α} {e : RankedEntry κ α}
    (mem : e ∈ b.view entities pool asked name nationality) :
    ∃ row, entities.find? e.key = some row ∧ b.rankOf e.key pool = some e.rank ∧
      e.score = (b.total e.key).inPool pool ∧ e.name = name row ∧ e.nationality = nationality e.key row := by
  rw [view_eq] at mem
  obtain ⟨e', mem', index, rfl⟩ := mem_renumbered mem
  obtain ⟨⟨k, row, rank⟩, shown, rfl⟩ := List.mem_map.1 mem'
  obtain ⟨found, -, ranked⟩ := mem_askedRows.1 shown
  exact ⟨row, found, ranked, rfl, rfl, rfl⟩

theorem isSlice_view [Std.TransOrd κ] {b : Board κ α} {wanted : κ → Prop} [DecidablePred wanted]
    (within : ∀ k row, asked k row → allowed k row)
    (same : ∀ k row, entities.find? k = some row → allowed k row → (asked k row ↔ wanted k)) :
    IsSlice (b.view entities pool asked name nationality) (b.view entities pool allowed name nationality) wanted := by
  refine ⟨?_, fun _ _ => firstPages_of_length_le⟩
  rw [view_eq, view_eq, renumbered_filter_renumbered (fun _ _ => rfl), List.filter_map, askedRows_filter b within]
  congr 2
  apply List.filter_congr
  rintro ⟨k, row, rank⟩ mem
  obtain ⟨found, may, -⟩ := mem_askedRows.1 mem
  apply Bool.eq_iff_iff.2
  exact (same k row found may).trans decide_eq_true_iff.symm

end Board

namespace Board

variable {κ α ρ : Type} [Ord κ] [Std.TransOrd κ] [Std.LawfulEqOrd κ] [DecidableEq κ] [DecidableEq α] [Scalar α]
  [Scalar.Ordered α] {entities : Table κ ρ} {pool : Pool} {mayRank : κ → ρ → Bool} {totals : κ → Totals α}
  {name : ρ → String} {nationality : κ → ρ → Option String}

theorem askedRows_ofTotals :
    ((ofTotals entities mayRank totals).askedRows entities pool mayRank).map (fun (k, _, rank) => (k, rank)) =
      (leaders pool (contenders entities mayRank totals)).map fun e =>
        (e.1, (placeAmong (leaders pool (contenders entities mayRank totals)) e).rank) := by
  rw [askedRows, List.map_filterMap, byIndex_ofTotals, List.filterMap_map, ← List.filterMap_eq_map]
  apply List.filterMap_congr
  intro e mem
  obtain ⟨⟨row, found, may⟩, -⟩ := mem_leaders_contenders.1 mem
  simp [found, may]

theorem places_view : ((ofTotals entities mayRank totals).view entities pool mayRank name nationality).map
    (fun e => (e.key, e.rank)) = (leaders pool (contenders entities mayRank totals)).map fun e =>
      (e.1, (placeAmong (leaders pool (contenders entities mayRank totals)) e).rank) := by
  rw [view_eq, map_renumbered (fun _ _ => rfl), List.map_map]
  exact askedRows_ofTotals

theorem keys_view : ((ofTotals entities mayRank totals).view entities pool mayRank name nationality).map
    RankedEntry.key = (leaders pool (contenders entities mayRank totals)).map Prod.fst := by
  let view := (ofTotals entities mayRank totals).view entities pool mayRank name nationality
  calc view.map RankedEntry.key
    _ = (view.map fun e => (e.key, e.rank)).map Prod.fst := by rw [List.map_map]; rfl
    _ = (leaders pool (contenders entities mayRank totals)).map Prod.fst := by rw [places_view, List.map_map]; rfl

theorem values_view : ((ofTotals entities mayRank totals).view entities pool mayRank name nationality).map
    (fun e => (e.key, e.score)) = leaders pool (contenders entities mayRank totals) := by
  let b : Board κ α := ofTotals entities mayRank totals
  let view := b.view entities pool mayRank name nationality
  calc view.map (fun e => (e.key, e.score))
    _ = (view.map RankedEntry.key).map fun k => (k, (b.total k).inPool pool) := by
      rw [List.map_map]
      apply List.map_congr_left
      intro e mem
      obtain ⟨-, -, -, same, -⟩ := mem_view mem
      rw [same]
      rfl
    _ = leaders pool (contenders entities mayRank totals) := by
      rw [keys_view, List.map_map, List.map_congr_left, List.map_id]
      intro e mem
      exact Prod.ext rfl (total_of_mem_leaders mem)

theorem isRanking_view : IsRanking ((ofTotals entities mayRank totals).view entities pool mayRank name nationality)
    (ofTotals entities mayRank totals) entities pool mayRank name nationality := by
  let view := (ofTotals entities mayRank totals).view entities pool mayRank name nationality
  let first := leaders pool (contenders entities mayRank totals)
  have places : view.map (fun e => (e.key, e.rank)) = first.map fun e => (e.1, (placeAmong first e).rank) :=
    places_view
  have keys : view.map RankedEntry.key = first.map Prod.fst := keys_view
  have values : view.map (fun e => (e.key, e.score)) = first := values_view
  constructor
  case listed =>
    intro k
    change k ∈ view.map RankedEntry.key ↔ _
    rw [keys, List.mem_map]
    constructor
    · rintro ⟨e, mem, rfl⟩
      obtain ⟨⟨row, found, may⟩, -, pos⟩ := mem_leaders_contenders.1 mem
      exact ⟨row, found, may, (total_of_mem_leaders mem).symm ▸ pos⟩
    · rintro ⟨row, found, may, pos⟩
      have known : k ∈ entities.keys := Table.contains_iff.1 (Option.isSome_iff_exists.2 ⟨row, found⟩)
      rw [total_ofTotals known] at pos
      exact ⟨(k, (totals k).inPool pool), mem_leaders_contenders.2 ⟨⟨row, found, may⟩, rfl, pos⟩, rfl⟩
  case shown =>
    intro e mem
    obtain ⟨row, found, -, same⟩ := mem_view mem
    exact ⟨same.1, row, found, same.2⟩
  case ordered =>
    have inOrder : first.Pairwise Leads := pairwise_leaders (Table.nodup_keys _)
    rw [← values, List.pairwise_map] at inOrder
    exact inOrder
  case numbered =>
    rw [view_eq]
    exact indices_renumbered _
  case ranked =>
    intro e mem
    obtain ⟨c, leads, same⟩ := List.mem_map.1 (places ▸ List.mem_map_of_mem mem :
      (e.key, e.rank) ∈ first.map fun c => (c.1, (placeAmong first c).rank))
    obtain ⟨key, rank⟩ := Prod.mk.inj same
    obtain ⟨-, -, -, score, -⟩ := mem_view mem
    have value : e.score = c.2 := by rw [score, ← key, total_of_mem_leaders leads]
    rw [← rank, value, placeAmong]
    change 1 + first.countP _ = 1 + view.countP _
    rw [← values, List.countP_map]
    rfl
  case lookedUp =>
    intro k
    change _ = (view.find? fun e => e.key = k).map RankedEntry.rank
    cases found : view.find? fun e => e.key = k with
    | some e =>
      obtain ⟨-, -, ranked, -⟩ := mem_view (List.mem_of_find?_eq_some found)
      have key : e.key = k := by simpa using List.find?_some found
      rw [← key, ranked, Option.map_some]
    | none =>
      rw [Option.map_none, Option.eq_none_iff_forall_ne_some]
      intro rank ranked
      obtain ⟨place, mem, -⟩ := rankOf_eq_some_iff.1 ranked
      rw [byIndex_ofTotals] at mem
      obtain ⟨c, leads, same⟩ := List.mem_map.1 mem
      have listed : k ∈ view.map RankedEntry.key := keys ▸ List.mem_map.2 ⟨c, leads, congrArg Prod.fst same⟩
      obtain ⟨e, mem', key⟩ := List.mem_map.1 listed
      simpa [key] using List.find?_eq_none.1 found e mem'

end Board

namespace Database

variable {α : Type} {db : Database α}

/-- A player satisfies a filter: of the nation, the subdivision and a nation of the continent that are asked for, and
under a name that mentions the text. -/
def Admits (db : Database α) (f : PlayerFilter) (p : Player) : Prop :=
  (∀ code ∈ f.nation, p.nationality = some code) ∧ (∀ code ∈ f.subdivision, p.subdivision = some code) ∧
    (∀ continent ∈ f.continent,
      ∃ code ∈ p.nationality, ∃ nation ∈ db.nations.find? code, nation.continent = some continent) ∧
    ∀ text ∈ f.nameContains, Text.Mentions p.name text

instance (db : Database α) (f : PlayerFilter) (p : Player) : Decidable (db.Admits f p) :=
  inferInstanceAs (Decidable (_ ∧ _ ∧ _ ∧ _))

theorem meets_iff {β : Type} [DecidableEq β] {asked value : Option β} :
    meets asked value ↔ ∀ a ∈ asked, value = some a := by
  cases asked <;> simp [meets]

theorem matchesFilter_iff {f : PlayerFilter} {p : Player} :
    db.matchesFilter f p ↔ p.banned = false ∧ db.Admits f p := by
  simp only [matchesFilter, nationInContinent, Bool.and_eq_true, Bool.not_eq_true', meets_iff, Admits, and_assoc,
    Option.all_eq_true, Text.containsIgnoringCase_iff, Option.bind_eq_some_iff, Option.mem_def]

variable [DecidableEq α] [Scalar α] [Scalar.Ordered α]

/-- Every ranked view of a fresh database is a slice of one ranking: whatever a reader asks for leaves some entries,
with their ranks, and reading page by page loses nothing and repeats nothing. -/
theorem ranked_views_agree (fresh : db.Fresh) (pool : Pool) :
    (∃ whole, db.rankedPlayers pool ⟨none, none, none, none⟩ = .ok whole ∧
      IsRanking whole db.playerBoard db.players pool (fun _ p => !p.banned) Player.name (fun _ p => p.nationality) ∧
      ∀ f : PlayerFilter, (f.subdivision.isSome → f.nation.isSome) → ∃ view, db.rankedPlayers pool f = .ok view ∧
        IsSlice view whole fun id => ∃ p ∈ db.players.find? id, db.Admits f p) ∧
    (IsRanking (db.rankedNations pool none) db.nationBoard db.nations pool (fun _ _ => true) Nation.name
        (fun code _ => some code) ∧
      ∀ continent, IsSlice (db.rankedNations pool continent) (db.rankedNations pool none) fun code =>
        ∃ n ∈ db.nations.find? code, ∀ asked ∈ continent, n.continent = some asked) ∧
    (IsRanking (db.rankedSubdivisions pool none) db.subdivisionBoard db.subdivisions pool (fun _ _ => true)
        Subdivision.name (fun region _ => some region.nation) ∧
      ∀ nation, IsSlice (db.rankedSubdivisions pool nation) (db.rankedSubdivisions pool none) fun region =>
        ∀ asked ∈ nation, region.nation = asked) := by
  have players : db.computedPlayerBoard = db.playerBoard := freshIn_player.1 (fresh_iff.1 fresh .player)
  have nations : db.computedNationBoard = db.nationBoard := freshIn_nation.1 (fresh_iff.1 fresh .nation)
  have subdivisions : db.computedSubdivisionBoard = db.subdivisionBoard :=
    freshIn_subdivision.1 (fresh_iff.1 fresh .subdivision)
  refine ⟨?_, ⟨?_, ?_⟩, ?_, ?_⟩
  · have free : (fun _ : Int => db.matchesFilter ⟨none, none, none, none⟩) = fun _ p => !p.banned := by
      funext _ p
      apply Bool.eq_iff_iff.2
      simp [matchesFilter_iff, Admits]
    refine ⟨_, rfl, ?_, ?_⟩
    · rw [free, ← players]
      exact Board.isRanking_view
    · intro f known
      have allowed : (f.subdivision.isSome && f.nation.isNone) = false := by
        cases asked : f.subdivision <;> simp_all
      refine ⟨db.playerBoard.view db.players pool (fun _ => db.matchesFilter f) Player.name fun _ p => p.nationality,
        ?_, ?_⟩
      · simp [rankedPlayers, allowed]
      · rw [free]
        apply Board.isSlice_view
        · intro _ p meets
          simpa using (matchesFilter_iff.1 meets).1
        · intro id p found may
          have unbanned : p.banned = false := by simpa using may
          simp [found, matchesFilter_iff, unbanned]
  · have ranking : IsRanking (db.computedNationBoard.view db.nations pool (fun _ _ => true) Nation.name
        fun code _ => some code) db.computedNationBoard db.nations pool (fun _ _ => true) Nation.name
          fun code _ => some code := Board.isRanking_view
    rw [nations] at ranking
    exact ranking
  · intro continent
    apply Board.isSlice_view
    · exact fun _ _ _ => rfl
    · intro code n found _
      simp [found, meets_iff]
  · have ranking : IsRanking (db.computedSubdivisionBoard.view db.subdivisions pool (fun _ _ => true)
        Subdivision.name fun region _ => some region.nation) db.computedSubdivisionBoard db.subdivisions pool
          (fun _ _ => true) Subdivision.name fun region _ => some region.nation := Board.isRanking_view
    rw [subdivisions] at ranking
    exact ranking
  · intro nation
    apply Board.isSlice_view
    · exact fun _ _ _ => rfl
    · intro region _ _ _
      simp [meets_iff]

/-- Two players have completed the only demon, and a third has come some way. The text drops one of the first two from
the view, and on its second page the third player is still the third. -/
theorem ranked_views_agree_of_three :
    let level : Demon := ⟨"a", some 1, 50, none, 1, 1, true, ⟨0⟩, none⟩
    let db : Database ℝ := { (empty : Database ℝ) with
      players := ((Table.empty.append ⟨"Ann", none, none, false⟩).append ⟨"Bob", none, none, false⟩).append
        ⟨"Hanna", none, none, false⟩
      demons := Table.empty.append level
      records := (Table.empty.append ⟨2, 1, 100, .approved⟩).append ⟨3, 1, 60, .approved⟩ }
    let after := (db.recomputeAll .absent).state
    ∃ whole view, after.rankedPlayers .rated ⟨none, none, none, none⟩ = .ok whole ∧
      whole.map (fun e => (e.key, e.rank)) = [(1, 1), (2, 1), (3, 3)] ∧
      after.rankedPlayers .rated ⟨none, none, none, some "NN"⟩ = .ok view ∧ view.map RankedEntry.index = [1, 2] ∧
      (Paging.page 1 (some 1) view).map (fun e => (e.key, e.rank)) = [(3, 3)] ∧ firstPages 1 2 view = view := by
  intro level db after
  have fresh : after.Fresh := fresh_recomputeAll db
  have tables : SameTables db after := sameTables_recompute .absent db Scope.all
  have bounded : after.WithinHundred := by
    rw [tables]
    decide
  obtain ⟨⟨whole, readWhole, ranking, slices⟩, -⟩ := ranked_views_agree fresh .rated
  obtain ⟨view, read, slice⟩ := slices ⟨none, none, none, some "NN"⟩ nofun
  have players : after.players = db.players := by rw [tables]
  have total (id p : Int) (known : id ∈ db.players.keys) (attempt : db.attempts (fun id' => id' = id) 1 level = [p]) :
      (after.playerBoard.total id).score = level.value p := by
    have sum : (db.earned fun id' => id' = id).score =
      [level.best (db.attempts (fun id' => id' = id) 1 level)].sum := rfl
    rw [fresh.total_playerBoard bounded (players ▸ known), tables]
    change (db.earned fun id' => id' = id).score = _
    rw [sum, attempt, List.sum_singleton]
    exact Demon.best_eq_value List.mem_cons_self fun q mem => (congrArg level.value (List.mem_singleton.1 mem)).le
  have first := total 1 100 (by decide) (by decide)
  have second := total 2 100 (by decide) (by decide)
  have third := total 3 60 (by decide) (by decide)
  have some_way : 0 < level.value 60 := (Demon.value_pos_iff (p := 1) rfl (by decide)).2 (.inr (by decide))
  have less : level.value 60 < level.value 100 := by
    have half : level.value 60 < (Curve.standard : Curve ℝ).fullCredit ((1 : Int) : ℝ) / 2 := by
      apply Curve.recordScore_lt_half <;> norm_num
    rw [← Demon.value_complete (d := level) rfl] at half
    linarith
  let values : List (Int × ℝ) := [(1, level.value 100), (2, level.value 100), (3, level.value 60)]
  have leads : values.Pairwise Leads := by
    simp [values, Leads, less, Int.compare_eq_lt]
  have members (e : Int × ℝ) : e ∈ values ↔ (∃ row, after.players.find? e.1 = some row ∧ !row.banned) ∧
      ((after.playerBoard.total e.1).inPool .rated = e.2 ∧ 0 < e.2) := by
    obtain ⟨id, v⟩ := e
    simp only [values, List.mem_cons, List.not_mem_nil, or_false, Prod.mk.injEq, players]
    constructor
    · rintro (⟨rfl, rfl⟩ | ⟨rfl, rfl⟩ | ⟨rfl, rfl⟩)
      · exact ⟨⟨_, rfl, rfl⟩, first, some_way.trans less⟩
      · exact ⟨⟨_, rfl, rfl⟩, second, some_way.trans less⟩
      · exact ⟨⟨_, rfl, rfl⟩, third, some_way⟩
    · rintro ⟨⟨row, found, -⟩, rfl, -⟩
      have key : id ∈ [(1 : Int), 2, 3] := List.mem_map_of_mem (f := Prod.fst) (Table.mem_of_find? found)
      simp only [List.mem_cons, List.not_mem_nil, or_false] at key
      rcases key with rfl | rfl | rfl
      · exact .inl ⟨rfl, first⟩
      · exact .inr (.inl ⟨rfl, second⟩)
      · exact .inr (.inr ⟨rfl, third⟩)
  have places : whole.map (fun e => (e.key, e.rank)) = [(1, 1), (2, 1), (3, 3)] := by
    rw [ranking.places_eq leads members]
    simp [values, less, less.not_gt]
  let asked (id : Int) : Prop := ∃ p ∈ after.players.find? id, after.Admits ⟨none, none, none, some "NN"⟩ p
  have asked_iff {id : Int} {p : Player} (found : db.players.find? id = some p) :
      asked id ↔ Text.Mentions p.name "NN" := by
    simp [asked, players, found, Admits]
  have shown : view.map (fun e => (e.key, e.rank)) = [(1, 1), (3, 3)] := by
    have kept : (whole.filter fun e => decide (asked e.key)).map (fun e => (e.key, e.rank)) =
        (whole.map fun e => (e.key, e.rank)).filter fun place => decide (asked place.1) := by
      rw [List.filter_map]
      rfl
    have ann : asked 1 := (asked_iff rfl).2 (by decide)
    have bob : ¬ asked 2 := fun mentioned => absurd ((asked_iff rfl).1 mentioned) (by decide)
    have hanna : asked 3 := (asked_iff rfl).2 (by decide)
    rw [slice.filtered, map_renumbered fun _ _ => rfl, kept, places]
    simp [ann, bob, hanna]
  have length : view.length = 2 := by simpa using congrArg List.length shown
  have index : view.map RankedEntry.index = [1, 2] := by
    rw [slice.filtered, indices_renumbered, ← slice.filtered, length]
    rfl
  refine ⟨whole, view, readWhole, places, read, index, ?_, slice.paged 1 2 length.le⟩
  rw [show (1 : Int) = (1 : Nat) from rfl, Paging.page_of_nonneg, List.map_take, List.map_drop, shown]
  rfl

end Database

end DemonBoard
