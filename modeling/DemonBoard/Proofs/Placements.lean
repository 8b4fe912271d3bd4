import DemonBoard.Proofs.Irrelevance
import DemonBoard.Proofs.PositiveOrder

/-! Competition ranking said by counting. The place of an entity with a positive total follows from how many
others have a larger one, and how many have the same one under a smaller key. Walking down the sorted totals gives
just these places, and the row numbers that they are kept under bring them back to the entities. -/

namespace DemonBoard

theorem lookup_of_mem {β : Type} {xs : List (Nat × β)} {n : Nat} {b : β} (distinct : (xs.map Prod.fst).Nodup)
    (mem : (n, b) ∈ xs) : xs.lookup n = some b := by
  obtain ⟨front, rest, rfl⟩ := List.append_of_mem mem
  refine List.lookup_eq_some_iff.2 ⟨front, rest, rfl, ?_⟩
  intro e before
  rw [List.map_append, List.map_cons, List.nodup_append] at distinct
  exact bne_iff_ne.2 (distinct.2.2 e.1 (List.mem_map_of_mem before) n List.mem_cons_self).symm

theorem pairwise_sortBy_of_forall {β : Type} {le : β → β → Bool} {P : β → Prop} {xs : List β}
    (items : ∀ x ∈ xs, P x) (trans : ∀ a b c, P a → P b → P c → le a b → le b c → le a c)
    (total : ∀ a b, P a → P b → le a b || le b a) : (sortBy le xs).Pairwise fun a b => le a b := by
  let among (a b : { x // P x }) : Bool := le a.1 b.1
  have sorted : (sortBy among (xs.attachWith P items)).Pairwise fun a b => among a b :=
    pairwise_sortBy (fun a b c => trans a.1 b.1 c.1 a.2 b.2 c.2) (fun a b => total a.1 b.1 a.2 b.2) _
  have whole : sortBy le xs = (sortBy among (xs.attachWith P items)).map Subtype.val := by
    conv_lhs => rw [← List.attachWith_map_subtype_val items]
    exact sortBy_map (fun _ _ => rfl) _
  rw [whole, List.pairwise_map]
  exact sorted

section Leads

variable {κ α : Type} [Ord κ] [Scalar α] {e f g : κ × α}

/-- Comes before: a larger value, or the same one under a smaller key. -/
def Leads (e f : κ × α) : Prop := f.2 < e.2 ∨ e.2 = f.2 ∧ compare e.1 f.1 = .lt

instance [DecidableEq α] (e f : κ × α) : Decidable (Leads e f) :=
  inferInstanceAs (Decidable (f.2 < e.2 ∨ e.2 = f.2 ∧ compare e.1 f.1 = .lt))

variable [Scalar.Ordered α]

theorem Leads.lt_of_lt {v : α} (h : Leads e f) (pos : 0 < v) (less : v < f.2) : v < e.2 := by
  rcases h with larger | ⟨same, -⟩
  · exact Scalar.Ordered.lt_trans pos less larger
  · rw [same]
    exact less

theorem Leads.not_lt (h : Leads e f) (pos : 0 < e.2) : ¬ e.2 < f.2 := by
  intro less
  exact Scalar.Ordered.lt_irrefl pos (h.lt_of_lt pos less)

theorem Leads.pos (h : Leads e f) (pos : 0 < f.2) : 0 < e.2 := by
  rcases h with larger | ⟨same, -⟩
  · exact Scalar.Ordered.pos_of_lt pos larger
  · rw [same]
    exact pos

variable [Std.TransOrd κ]

theorem not_leads_self (pos : 0 < e.2) : ¬ Leads e e := by
  rintro (larger | ⟨-, less⟩)
  · exact Scalar.Ordered.lt_irrefl pos larger
  · have self : compare e.1 e.1 = .eq := Std.ReflCmp.compare_self
    rw [self] at less
    cases less

theorem Leads.trans (h : Leads e f) (h' : Leads f g) (pos : 0 < g.2) : Leads e g := by
  rcases h' with larger | ⟨same, less⟩
  · exact .inl (h.lt_of_lt pos larger)
  · rcases h with larger | ⟨same', less'⟩
    · exact .inl (same ▸ larger)
    · exact .inr ⟨same'.trans same, Std.TransCmp.lt_trans less' less⟩

theorem Leads.asymm (h : Leads e f) (pos : 0 < e.2) : ¬ Leads f e :=
  fun h' => not_leads_self pos (h.trans h' pos)

variable [Std.LawfulEqOrd κ]

omit [Std.TransOrd κ] in
theorem ranksBefore_iff (pos : 0 < e.2) (pos' : 0 < f.2) : ranksBefore e f = true ↔ Leads e f ∨ e = f := by
  have keys : (compare e.1 f.1).isLE = true ↔ compare e.1 f.1 = .lt ∨ e.1 = f.1 := by
    rw [Ordering.isLE_iff_eq_lt_or_eq_eq, Std.LawfulEqCmp.compare_eq_iff_eq]
  simp only [ranksBefore, Bool.or_eq_true, Bool.and_eq_true, Bool.not_eq_true', decide_eq_true_eq,
    decide_eq_false_iff_not, keys, Leads, Prod.ext_iff]
  constructor
  · rintro (larger | ⟨not_less, key⟩)
    · exact .inl (.inl larger)
    · rcases Scalar.Ordered.trichotomy pos pos' with less | same | larger
      · exact absurd less not_less
      · rcases key with less | same_key
        · exact .inl (.inr ⟨same, less⟩)
        · exact .inr ⟨same_key, same⟩
      · exact .inl (.inl larger)
  · rintro ((larger | ⟨same, less⟩) | ⟨same_key, same⟩)
    · exact .inl larger
    · exact .inr ⟨same ▸ Scalar.Ordered.lt_irrefl pos, .inl less⟩
    · exact .inr ⟨same ▸ Scalar.Ordered.lt_irrefl pos, .inr same_key⟩

theorem ranksBefore_trans (pos : 0 < e.2) (pos' : 0 < f.2) (pos'' : 0 < g.2) (h : ranksBefore e f = true)
    (h' : ranksBefore f g = true) : ranksBefore e g = true := by
  rw [ranksBefore_iff pos pos'] at h
  rw [ranksBefore_iff pos' pos''] at h'
  rw [ranksBefore_iff pos pos'']
  rcases h with leads | rfl
  · rcases h' with leads' | rfl
    · exact .inl (leads.trans leads' pos'')
    · exact .inl leads
  · exact h'

theorem leads_total (pos : 0 < e.2) (pos' : 0 < f.2) (other : e.1 ≠ f.1) : Leads e f ∨ Leads f e := by
  rcases Scalar.Ordered.trichotomy pos pos' with less | same | larger
  · exact .inr (.inl less)
  · cases order : compare e.1 f.1 with
    | lt => exact .inl (.inr ⟨same, order⟩)
    | eq => exact absurd (Std.LawfulEqOrd.eq_of_compare order) other
    | gt => exact .inr (.inr ⟨same.symm, Std.OrientedCmp.gt_iff_lt.1 order⟩)
  · exact .inl (.inl larger)

theorem ranksBefore_total (pos : 0 < e.2) (pos' : 0 < f.2) : (ranksBefore e f || ranksBefore f e) = true := by
  rw [Bool.or_eq_true, ranksBefore_iff pos pos', ranksBefore_iff pos' pos]
  by_cases same_key : e.1 = f.1
  · rcases Scalar.Ordered.trichotomy pos pos' with less | same | larger
    · exact .inr (.inl (.inl less))
    · exact .inl (.inr (Prod.ext same_key same))
    · exact .inl (.inl (.inl larger))
  · rcases leads_total pos pos' same_key with leads | leads
    · exact .inl (.inl leads)
    · exact .inr (.inl leads)

end Leads

section Walk

variable {κ α : Type} [Ord κ] [DecidableEq α] [Scalar α]

/-- The place that a value has among others: its rank counts the larger ones, its index those that lead it. -/
def placeAmong (values : List (κ × α)) (e : κ × α) : Placement where
  rank := 1 + values.countP fun f => e.2 < f.2
  index := 1 + values.countP fun f => Leads f e

theorem placeAmong_map (whole : List (Nat × κ × α)) (e : κ × α) : placeAmong (whole.map Prod.snd) e =
    ⟨1 + whole.countP fun y => e.2 < y.2.2, 1 + whole.countP fun y => Leads y.2 e⟩ := by
  simp [placeAmong, List.countP_map, Function.comp_def]

def nextRank (index : Nat) (before : Option (α × Nat)) (value : α) : Nat :=
  match before with
  | none => index
  | some (last, rank) => if value < last then index else rank

omit [DecidableEq α] in
theorem assignPlaces_cons (index : Nat) (before : Option (α × Nat)) (row : Nat) (value : α) (rest : List (Nat × α)) :
    assignPlaces index before ((row, value) :: rest) =
      (row, ⟨nextRank index before value, index⟩) ::
        assignPlaces (index + 1) (some (value, nextRank index before value)) rest := rfl

variable [Scalar.Ordered α] [Std.TransOrd κ] {whole front rest : List (Nat × κ × α)} {x : Nat × κ × α}

theorem countP_leads (split : whole = front ++ x :: rest) (order : whole.Pairwise fun a b => Leads a.2 b.2)
    (positive : ∀ y ∈ whole, 0 < y.2.2) : whole.countP (fun y => Leads y.2 x.2) = front.length := by
  subst split
  obtain ⟨-, later, between⟩ := List.pairwise_append.1 order
  have pos : 0 < x.2.2 := positive x (by simp)
  have before : front.countP (fun y => Leads y.2 x.2) = front.length := by
    rw [List.countP_eq_length]
    exact fun y mem => decide_eq_true (between y mem x List.mem_cons_self)
  have after : (x :: rest).countP (fun y => Leads y.2 x.2) = 0 := by
    rw [List.countP_eq_zero]
    intro y mem
    rw [decide_eq_true_eq]
    rcases List.mem_cons.1 mem with rfl | mem
    · exact not_leads_self pos
    · exact ((List.pairwise_cons.1 later).1 y mem).asymm pos
  rw [List.countP_append, before, after, Nat.add_zero]

omit [DecidableEq α] [Std.TransOrd κ] in
theorem countP_larger (split : whole = front ++ x :: rest) (order : whole.Pairwise fun a b => Leads a.2 b.2)
    (positive : ∀ y ∈ whole, 0 < y.2.2) :
    whole.countP (fun y => x.2.2 < y.2.2) = front.countP fun y => x.2.2 < y.2.2 := by
  subst split
  obtain ⟨-, later, -⟩ := List.pairwise_append.1 order
  have pos : 0 < x.2.2 := positive x (by simp)
  have after : (x :: rest).countP (fun y => x.2.2 < y.2.2) = 0 := by
    rw [List.countP_eq_zero]
    intro y mem
    rw [decide_eq_true_eq]
    rcases List.mem_cons.1 mem with rfl | mem
    · exact Scalar.Ordered.lt_irrefl pos
    · exact ((List.pairwise_cons.1 later).1 y mem).not_lt pos
  rw [List.countP_append, after, Nat.add_zero]

/-- What the walk remembers of the items that it has passed: the last value, and its rank. -/
def lastPlace (whole front : List (Nat × κ × α)) : Option (α × Nat) :=
  front.getLast?.map fun y => (y.2.2, (placeAmong (whole.map Prod.snd) y.2).rank)

omit [Std.TransOrd κ] in
theorem rank_next (split : whole = front ++ x :: rest) (order : whole.Pairwise fun a b => Leads a.2 b.2)
    (positive : ∀ y ∈ whole, 0 < y.2.2) :
    nextRank (front.length + 1) (lastPlace whole front) x.2.2 = (placeAmong (whole.map Prod.snd) x.2).rank := by
  have larger := countP_larger split order positive
  have pos : 0 < x.2.2 := positive x (by simp [split])
  have rank : (placeAmong (whole.map Prod.snd) x.2).rank = 1 + front.countP fun y => x.2.2 < y.2.2 := by
    rw [← larger, placeAmong_map]
  rcases List.eq_nil_or_concat' front with rfl | ⟨before, last, rfl⟩
  · rw [rank]
    rfl
  · rw [split, List.pairwise_append] at order
    have leads : Leads last.2 x.2 := order.2.2 last (by simp) x List.mem_cons_self
    simp only [lastPlace, List.getLast?_concat, Option.map_some, nextRank]
    split
    · rename_i less
      have above : ∀ y ∈ before ++ [last], decide (x.2.2 < y.2.2) = true := by
        intro y mem
        rw [decide_eq_true_eq]
        rcases List.mem_append.1 mem with mem | mem
        · exact ((List.pairwise_append.1 order.1).2.2 y mem last (by simp)).lt_of_lt pos less
        · rw [List.mem_singleton.1 mem]
          exact less
      rw [rank, List.countP_eq_length.2 above, Nat.add_comm]
    · rename_i not_less
      have same : last.2.2 = x.2.2 := (leads.resolve_left not_less).1
      rw [placeAmong, placeAmong, same]

/-- Walking down the values in order gives every item its place among them. -/
theorem assignPlaces_eq (split : whole = front ++ rest) (order : whole.Pairwise fun a b => Leads a.2 b.2)
    (positive : ∀ y ∈ whole, 0 < y.2.2) :
    assignPlaces (front.length + 1) (lastPlace whole front) (rest.map fun x => (x.1, x.2.2)) =
      rest.map fun x => (x.1, placeAmong (whole.map Prod.snd) x.2) := by
  -- what the walk has passed is all that it remembers, by its last value
  induction rest generalizing front with
  | nil => rfl
  | cons x rest ih =>
    have rank := rank_next split order positive
    have index : (placeAmong (whole.map Prod.snd) x.2).index = front.length + 1 := by
      rw [← countP_leads split order positive, placeAmong_map]
      exact Nat.add_comm 1 _
    have next : some (x.2.2, (placeAmong (whole.map Prod.snd) x.2).rank) = lastPlace whole (front ++ [x]) := by
      rw [lastPlace, List.getLast?_concat, Option.map_some]
    have further : whole = (front ++ [x]) ++ rest := by
      rw [split, List.append_assoc]
      rfl
    have others := ih further
    rw [List.length_append, List.length_singleton] at others
    rw [List.map_cons, List.map_cons, assignPlaces_cons, rank, next, others, ← index]

end Walk

section Rows

variable {κ α : Type} [Ord κ] [Scalar α] {pool : Pool} {rows : List (κ × Totals α)}

def poolValues (pool : Pool) (rows : List (κ × Totals α)) : List (κ × α) := rows.map fun e => (e.1, e.2.inPool pool)

def numbered (pool : Pool) (rows : List (κ × Totals α)) : List (Nat × κ × α) :=
  (rows.zipIdx.map fun ((k, t), row) => (row, k, t.inPool pool)).filter fun (_, _, value) => decide (0 < value)

omit [Ord κ] in
theorem mem_numbered {row : Nat} {k : κ} {value : α} : (row, k, value) ∈ numbered pool rows ↔
    ∃ t, rows[row]? = some (k, t) ∧ t.inPool pool = value ∧ 0 < value := by
  simp only [numbered, List.mem_filter, List.mem_map, decide_eq_true_eq, Prod.exists, Prod.mk.injEq]
  constructor
  · rintro ⟨⟨k', t, n, mem, rfl, rfl, rfl⟩, pos⟩
    exact ⟨t, List.mem_zipIdx_iff_getElem?.1 mem, rfl, pos⟩
  · rintro ⟨t, at_row, rfl, pos⟩
    exact ⟨⟨k, t, row, List.mem_zipIdx_iff_getElem?.2 at_row, rfl, rfl, rfl⟩, pos⟩

omit [Ord κ] in
theorem nodup_numbers (pool : Pool) (rows : List (κ × Totals α)) : ((numbered pool rows).map Prod.fst).Nodup := by
  have numbers : (rows.zipIdx.map fun ((k, t), row) => (row, k, t.inPool pool)).map Prod.fst =
      List.range' 0 rows.length := by
    rw [List.map_map, ← List.zipIdx_map_snd 0 rows]
    rfl
  refine List.Nodup.sublist (List.filter_sublist.map _) ?_
  rw [numbers]
  exact List.nodup_range'

omit [Ord κ] in
theorem values_numbered (pool : Pool) (rows : List (κ × Totals α)) :
    (numbered pool rows).map Prod.snd = (poolValues pool rows).filter fun e => decide (0 < e.2) := by
  have values : (rows.zipIdx.map fun ((k, t), row) => (row, k, t.inPool pool)).map Prod.snd =
      poolValues pool rows := by
    rw [List.map_map, poolValues]
    conv_rhs => rw [← List.zipIdx_map_fst 0 rows, List.map_map]
    rfl
  rw [← values, List.filter_map]
  rfl

variable [DecidableEq α]

/-- The place that is due to a value: none unless it is positive. -/
def duePlace (values : List (κ × α)) (e : κ × α) : Option Placement :=
  if 0 < e.2 then some (placeAmong values e) else none

def dueStanding (rows : List (κ × Totals α)) (e : κ × Totals α) : Standing where
  rated := duePlace (poolValues .rated rows) (e.1, e.2.inPool .rated)
  unrated := duePlace (poolValues .unrated rows) (e.1, e.2.inPool .unrated)

theorem inPool_dueStanding (rows : List (κ × Totals α)) (e : κ × Totals α) (pool : Pool) :
    (dueStanding rows e).inPool pool = duePlace (poolValues pool rows) (e.1, e.2.inPool pool) := by
  cases pool <;> rfl

theorem placeAmong_perm {values values' : List (κ × α)} (perm : values.Perm values') (e : κ × α) :
    placeAmong values e = placeAmong values' e := by
  unfold placeAmong
  rw [perm.countP_eq, perm.countP_eq]

theorem isRanked_dueStanding {e : κ × Totals α} (pos : 0 < e.2.inPool pool) :
    (dueStanding rows e).isRanked = true := by
  have place : ((dueStanding rows e).inPool pool).isSome := by
    rw [inPool_dueStanding, duePlace, if_pos pos]
    rfl
  unfold Standing.isRanked
  cases pool with
  | rated => exact Bool.or_eq_true_iff.2 (.inl place)
  | unrated => exact Bool.or_eq_true_iff.2 (.inr place)

theorem pos_of_isRanked {e : κ × Totals α} (ranked : (dueStanding rows e).isRanked = true) :
    ∃ pool, 0 < e.2.inPool pool := by
  have pos {pool : Pool} (place : ((dueStanding rows e).inPool pool).isSome) : 0 < e.2.inPool pool := by
    by_contra not_pos
    rw [inPool_dueStanding, duePlace, if_neg not_pos] at place
    cases place
  rcases Bool.or_eq_true_iff.1 ranked with place | place
  · exact ⟨.rated, pos place⟩
  · exact ⟨.unrated, pos place⟩

variable [Scalar.Ordered α]

/-- What is not positive makes no difference to the places of what is. -/
theorem placeAmong_filter {e : κ × α} (pos : 0 < e.2) (values : List (κ × α)) :
    placeAmong (values.filter fun f => decide (0 < f.2)) e = placeAmong values e := by
  have larger (f : κ × α) : (decide (e.2 < f.2) && decide (0 < f.2)) = decide (e.2 < f.2) := by
    rw [← Bool.decide_and, decide_eq_decide]
    exact and_iff_left_of_imp (Scalar.Ordered.pos_of_lt pos)
  have leads (f : κ × α) : (decide (Leads f e) && decide (0 < f.2)) = decide (Leads f e) := by
    rw [← Bool.decide_and, decide_eq_decide]
    exact and_iff_left_of_imp fun leads => leads.pos pos
  simp only [placeAmong, List.countP_filter, larger, leads]

theorem duePlace_congr {values values' : List (κ × α)}
    (same : (values.filter fun e => decide (0 < e.2)) = values'.filter fun e => decide (0 < e.2)) (e : κ × α) :
    duePlace values e = duePlace values' e := by
  unfold duePlace
  split
  · rename_i pos
    rw [← placeAmong_filter pos, same, placeAmong_filter pos]
  · rfl

variable [Std.TransOrd κ] [Std.LawfulEqOrd κ]

omit [DecidableEq α] in
theorem pairwise_leads_sorted (distinct : (rows.map Prod.fst).Nodup) :
    (sortBy (fun a b => ranksBefore a.2 b.2) (numbered pool rows)).Pairwise fun a b => Leads a.2 b.2 := by
  let sorted := sortBy (fun a b : Nat × κ × α => ranksBefore a.2 b.2) (numbered pool rows)
  have positive : ∀ x ∈ numbered pool rows, 0 < x.2.2 := by
    rintro ⟨row, k, value⟩ mem
    obtain ⟨_, -, -, pos⟩ := mem_numbered.1 mem
    exact pos
  have ordered : sorted.Pairwise fun a b => ranksBefore a.2 b.2 :=
    pairwise_sortBy_of_forall positive (fun _ _ _ => ranksBefore_trans) fun _ _ => ranksBefore_total
  have keys : (sorted.map fun x => x.2.1).Nodup := by
    rw [((sortBy_perm _ _).map _).nodup_iff]
    have values : ((numbered pool rows).map fun x => x.2.1) =
        ((poolValues pool rows).filter fun e => decide (0 < e.2)).map Prod.fst := by
      rw [← values_numbered, List.map_map]
      rfl
    have all : (poolValues pool rows).map Prod.fst = rows.map Prod.fst := by simp [poolValues, Function.comp_def]
    rw [values]
    exact distinct.sublist (all ▸ List.filter_sublist.map _)
  refine (ordered.and (List.pairwise_map.1 keys)).imp_of_mem ?_
  rintro a b mem mem' ⟨before, other⟩
  have pos := positive a (mem_sortBy.1 mem)
  have pos' := positive b (mem_sortBy.1 mem')
  refine ((ranksBefore_iff pos pos').1 before).resolve_right ?_
  intro same
  exact other (congrArg Prod.fst same)

theorem placements_eq (distinct : (rows.map Prod.fst).Nodup) : placements pool rows =
    (sortBy (fun a b => ranksBefore a.2 b.2) (numbered pool rows)).map fun x =>
      (x.1, placeAmong (poolValues pool rows) x.2) := by
  let sorted := sortBy (fun a b : Nat × κ × α => ranksBefore a.2 b.2) (numbered pool rows)
  have positive : ∀ x ∈ sorted, 0 < x.2.2 := by
    rintro ⟨row, k, value⟩ mem
    obtain ⟨_, -, -, pos⟩ := mem_numbered.1 (mem_sortBy.1 mem)
    exact pos
  have walked : placements pool rows = sorted.map fun x => (x.1, placeAmong (sorted.map Prod.snd) x.2) :=
    assignPlaces_eq (show sorted = [] ++ sorted from rfl) (pairwise_leads_sorted distinct) positive
  have values : (sorted.map Prod.snd).Perm ((poolValues pool rows).filter fun e => decide (0 < e.2)) := by
    rw [← values_numbered]
    exact (sortBy_perm _ _).map _
  rw [walked]
  refine List.map_congr_left ?_
  intro x mem
  rw [placeAmong_perm values, placeAmong_filter (positive x mem)]

theorem lookup_placements (distinct : (rows.map Prod.fst).Nodup) {row : Nat} {e : κ × Totals α}
    (at_row : rows[row]? = some e) :
    (placements pool rows).lookup row = duePlace (poolValues pool rows) (e.1, e.2.inPool pool) := by
  have perm := sortBy_perm (fun a b : Nat × κ × α => ranksBefore a.2 b.2) (numbered pool rows)
  rw [placements_eq distinct, duePlace]
  split
  · rename_i pos
    have mem : (row, e.1, e.2.inPool pool) ∈ numbered pool rows := mem_numbered.2 ⟨e.2, at_row, rfl, pos⟩
    refine lookup_of_mem ?_ (List.mem_map.2 ⟨_, mem_sortBy.2 mem, rfl⟩)
    rw [List.map_map]
    exact (perm.map _).nodup_iff.2 (nodup_numbers pool rows)
  · rename_i not_pos
    rw [List.lookup_eq_none_iff]
    intro place placed
    obtain ⟨⟨n, k, value⟩, mem, rfl⟩ := List.mem_map.1 placed
    obtain ⟨t, at_n, rfl, pos⟩ := mem_numbered.1 (mem_sortBy.1 mem)
    rw [bne_iff_ne]
    rintro rfl
    rw [at_row] at at_n
    cases at_n
    exact not_pos pos

/-- The ranking of rows under distinct keys: everyone gets the standing that is due, and those are left out to whom
no place is due. -/
theorem competitionRanks_eq (distinct : (rows.map Prod.fst).Nodup) : competitionRanks rows =
    (rows.map fun e => (e.1, dueStanding rows e)).filter fun e => e.2.isRanked := by
  let kept (e : κ × Totals α) : Option (κ × Standing) :=
    (if (dueStanding rows e).isRanked then some (dueStanding rows e) else none).map (e.1, ·)
  calc competitionRanks rows
    _ = rows.zipIdx.filterMap (kept ∘ Prod.fst) := by
      refine List.filterMap_congr ?_
      rintro ⟨e, row⟩ mem
      have at_row := List.mem_zipIdx_iff_getElem?.1 mem
      dsimp only
      rw [standingAt, lookup_placements distinct at_row, lookup_placements distinct at_row]
      rfl
    _ = rows.filterMap kept := by rw [← List.filterMap_map, List.zipIdx_map_fst]
    _ = (rows.map fun e => (e.1, dueStanding rows e)).filter fun e => e.2.isRanked := by
      rw [← List.filterMap_eq_filter, List.filterMap_map]
      refine List.filterMap_congr ?_
      intro e _
      simp only [kept, Function.comp_apply, Option.guard]
      split
      · rfl
      · rfl

def placesIn (pool : Pool) (ranks : List (κ × Standing)) : List (κ × Placement) :=
  ranks.filterMap fun e => (e.2.inPool pool).map fun place => (e.1, place)

theorem placesIn_competitionRanks (distinct : (rows.map Prod.fst).Nodup) : placesIn pool (competitionRanks rows) =
    ((poolValues pool rows).filter fun e => decide (0 < e.2)).map fun e =>
      (e.1, placeAmong (poolValues pool rows) e) := by
  let values := poolValues pool rows
  rw [placesIn, competitionRanks_eq distinct, ← List.filterMap_eq_filter, List.filterMap_filterMap,
    List.filterMap_map, ← List.filterMap_eq_map, ← List.filterMap_eq_filter, List.filterMap_filterMap]
  refine (List.filterMap_congr ?_).trans List.filterMap_map.symm
  intro e _
  by_cases pos : 0 < e.2.inPool pool
  · simp [Option.guard, isRanked_dueStanding pos, inPool_dueStanding, duePlace, pos]
  · cases ranked : (dueStanding rows e).isRanked <;>
      simp [Option.guard, ranked, inPool_dueStanding, duePlace, pos]

end Rows

end DemonBoard
