/-!
Tables: rows under distinct keys, in the order of the keys. Order and distinctness are part of the
type, so a key names at most one row and two tables with the same rows are equal.
-/

namespace DemonBoard

abbrev Ascending {κ : Type} [Ord κ] (keys : List κ) : Prop := keys.Pairwise fun a b => compare a b = .lt

structure Table (κ ρ : Type) [Ord κ] where
  entries : List (κ × ρ)
  ascending : Ascending (entries.map Prod.fst)

namespace Table

variable {κ ρ σ : Type} [Ord κ]

def keys (t : Table κ ρ) : List κ := t.entries.map Prod.fst

def empty : Table κ ρ := ⟨[], List.Pairwise.nil⟩

instance : Inhabited (Table κ ρ) := ⟨empty⟩

@[ext] theorem ext {s t : Table κ ρ} (h : s.entries = t.entries) : s = t := by
  cases s; cases t; cases h; rfl

def restrict (t : Table κ ρ) (rows : List (κ × σ)) (h : (rows.map Prod.fst).Sublist t.keys) : Table κ σ :=
  ⟨rows, t.ascending.sublist h⟩

def mapRows (t : Table κ ρ) (f : κ → ρ → σ) : Table κ σ :=
  t.restrict (t.entries.map fun (k, row) => (k, f k row)) (by simp [keys, Function.comp_def])

theorem entries_mapRows (t : Table κ ρ) (f : κ → ρ → σ) :
    (t.mapRows f).entries = t.entries.map fun (k, row) => (k, f k row) := rfl

theorem keys_mapRows (t : Table κ ρ) (f : κ → ρ → σ) : (t.mapRows f).keys = t.keys := by
  simp [keys, entries_mapRows, Function.comp_def]

def filter (t : Table κ ρ) (p : κ → ρ → Bool) : Table κ ρ :=
  t.restrict (t.entries.filter fun (k, row) => p k row) (List.filter_sublist.map _)

variable [DecidableEq κ]

def find? (t : Table κ ρ) (k : κ) : Option ρ := (t.entries.find? fun e => e.1 = k).map Prod.snd

def contains (t : Table κ ρ) (k : κ) : Bool := (t.find? k).isSome

def modify (t : Table κ ρ) (k : κ) (f : ρ → ρ) : Table κ ρ :=
  t.mapRows fun k' row => if k' = k then f row else row

theorem keys_modify (t : Table κ ρ) (k : κ) (f : ρ → ρ) : (t.modify k f).keys = t.keys :=
  keys_mapRows t _

theorem contains_iff {t : Table κ ρ} {k : κ} : t.contains k = true ↔ k ∈ t.keys := by
  simp [contains, find?, keys]

def place (k : κ) (row : ρ) : List (κ × ρ) → List (κ × ρ)
  | [] => [(k, row)]
  | e :: rest => if compare k e.1 = .lt then (k, row) :: e :: rest else e :: place k row rest

omit [DecidableEq κ] in
theorem mem_place {k : κ} {row : ρ} {rows : List (κ × ρ)} {e : κ × ρ} :
    e ∈ place k row rows ↔ e = (k, row) ∨ e ∈ rows := by
  induction rows with
  | nil => simp [place]
  | cons d rest ih =>
    unfold place
    split
    · simp
    · simp only [List.mem_cons, ih]
      constructor
      · rintro (h | h | h) <;> simp [h]
      · rintro (h | h | h) <;> simp [h]

omit [DecidableEq κ] in
theorem ascending_place [Std.TransOrd κ] [Std.LawfulEqOrd κ] {k : κ} {row : ρ} {rows : List (κ × ρ)}
    (h : Ascending (rows.map Prod.fst)) (new : k ∉ rows.map Prod.fst) :
    Ascending ((place k row rows).map Prod.fst) := by
  induction rows with
  | nil => simp [place]
  | cons e rest ih =>
    obtain ⟨first, later⟩ := List.pairwise_cons.1 h
    simp only [List.map_cons, List.mem_cons, not_or] at new
    unfold place
    split
    · rename_i lt
      refine List.pairwise_cons.2 ⟨fun k' hk' => ?_, h⟩
      rcases List.mem_cons.1 hk' with rfl | hk'
      · exact lt
      · exact Std.TransCmp.lt_trans lt (first k' hk')
    · rename_i not_lt
      refine List.pairwise_cons.2 ⟨fun k' hk' => ?_, ih later new.2⟩
      obtain ⟨d, hd, rfl⟩ := List.mem_map.1 hk'
      rcases mem_place.1 hd with rfl | hd
      · have ne : compare k e.1 ≠ .eq := fun he => new.1 (Std.LawfulEqOrd.eq_of_compare he)
        refine Std.OrientedCmp.gt_iff_lt.1 ?_
        cases hc : compare k e.1 <;> simp_all
      · exact first _ (List.mem_map_of_mem hd)

def insert? [Std.TransOrd κ] [Std.LawfulEqOrd κ] (t : Table κ ρ) (k : κ) (row : ρ) : Option (Table κ ρ) :=
  if h : k ∈ t.keys then none
  else some ⟨place k row t.entries, ascending_place t.ascending h⟩

/-- The key for a new row: one more than the largest, and 1 in an empty table. -/
def nextKey (t : Table Int ρ) : Int := (t.entries.getLast?.map fun e => e.1 + 1).getD 1

omit [Ord κ] [DecidableEq κ] in
theorem lt_nextKey {t : Table Int ρ} {e : Int × ρ} (h : e ∈ t.entries) : e.1 < t.nextKey := by
  obtain ⟨front, last, eq⟩ : ∃ front last, t.entries = front ++ [last] :=
    ⟨_, _, (List.dropLast_concat_getLast (List.ne_nil_of_mem h)).symm⟩
  have asc := t.ascending
  simp only [nextKey, eq, List.getLast?_concat, Option.map_some, Option.getD_some]
  rw [eq, List.mem_append, List.mem_singleton] at h
  rw [Ascending, eq, List.map_append, List.pairwise_append] at asc
  rcases h with h | rfl
  · have := Int.compare_eq_lt.1 (asc.2.2 e.1 (List.mem_map_of_mem h) last.1 (by simp))
    omega
  · omega

def append (t : Table Int ρ) (row : ρ) : Table Int ρ :=
  ⟨t.entries ++ [(t.nextKey, row)], by
    rw [List.map_append, Ascending, List.pairwise_append]
    refine ⟨t.ascending, by simp, fun a ha b hb => ?_⟩
    obtain ⟨e, he, rfl⟩ := List.mem_map.1 ha
    simp only [List.map_cons, List.map_nil, List.mem_singleton] at hb
    exact hb ▸ Int.compare_eq_lt.2 (lt_nextKey he)⟩

end Table

end DemonBoard
