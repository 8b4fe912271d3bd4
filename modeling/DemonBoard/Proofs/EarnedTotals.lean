import DemonBoard.Proofs.ExactScores
import DemonBoard.Proofs.Passes
import DemonBoard.Proofs.ScoreRows
import DemonBoard.Proofs.Sessions

/-! What the totals mean. In exact arithmetic an entity's total is a sum over the listed demons, of each the
best score of any attempt that counts for the entity; neither the window, nor the order of the rows, nor a
second record on a demon makes a difference. -/

namespace DemonBoard

section Sums

variable {β γ δ : Type} {xs : List β} {ys : List γ} {key : β → δ} {key' : γ → δ} {f : β → ℝ} {g : γ → ℝ}

theorem sum_map_eq_of_same_keys (nodup : (xs.map key).Nodup) (nodup' : (ys.map key').Nodup)
    (matched : ∀ x ∈ xs, ∃ y ∈ ys, key' y = key x ∧ g y = f x) (known : ∀ y ∈ ys, ∃ x ∈ xs, key x = key' y) :
    (xs.map f).sum = (ys.map g).sum := by
  have keyed : (xs.map fun x => (key x, f x)).Nodup :=
    List.Nodup.of_map Prod.fst (by rw [List.map_map]; exact nodup)
  have keyed' : (ys.map fun y => (key' y, g y)).Nodup :=
    List.Nodup.of_map Prod.fst (by rw [List.map_map]; exact nodup')
  have perm : (xs.map fun x => (key x, f x)).Perm (ys.map fun y => (key' y, g y)) := by
    refine (List.perm_ext_iff_of_nodup keyed keyed').2 ?_
    intro e
    constructor
    · intro mem
      obtain ⟨x, hx, rfl⟩ := List.mem_map.1 mem
      obtain ⟨y, hy, same, value⟩ := matched x hx
      exact List.mem_map.2 ⟨y, hy, by rw [same, value]⟩
    · intro mem
      obtain ⟨y, hy, rfl⟩ := List.mem_map.1 mem
      obtain ⟨x, hx, same⟩ := known y hy
      obtain ⟨y', hy', same', value⟩ := matched x hx
      obtain rfl : y' = y := List.inj_on_of_nodup_map nodup' hy' hy (same'.trans same)
      exact List.mem_map.2 ⟨x, hx, by rw [same, value]⟩
  have sums := (perm.map Prod.snd).sum_eq
  rw [List.map_map, List.map_map] at sums
  exact sums

/-- Two sums agree if their terms do, key by key, and the keys of one that the other lacks add nothing. -/
theorem sum_map_eq_of_keys [DecidableEq δ] (nodup : (xs.map key).Nodup) (nodup' : (ys.map key').Nodup)
    (matched : ∀ x ∈ xs, ∃ y ∈ ys, key' y = key x ∧ g y = f x)
    (others : ∀ y ∈ ys, (∀ x ∈ xs, key x ≠ key' y) → g y = 0) : (xs.map f).sum = (ys.map g).sum := by
  let shared := ys.filter fun y => decide (key' y ∈ xs.map key)
  have common : (xs.map f).sum = (shared.map g).sum := by
    refine sum_map_eq_of_same_keys nodup (nodup'.sublist (List.filter_sublist.map _)) ?_ ?_
    · intro x hx
      obtain ⟨y, hy, same, value⟩ := matched x hx
      refine ⟨y, List.mem_filter.2 ⟨hy, ?_⟩, same, value⟩
      rw [same]
      exact decide_eq_true (List.mem_map_of_mem hx)
    · intro y hy
      exact List.mem_map.1 (of_decide_eq_true (List.mem_filter.1 hy).2)
  have rest : ((ys.filter fun y => !decide (key' y ∈ xs.map key)).map g).sum = 0 := by
    refine List.sum_eq_zero ?_
    intro v mem
    obtain ⟨y, hy, rfl⟩ := List.mem_map.1 mem
    obtain ⟨hy, unknown⟩ := List.mem_filter.1 hy
    refine others y hy ?_
    intro x hx same
    simp only [Bool.not_eq_true', decide_eq_false_iff_not] at unknown
    exact unknown (List.mem_map.2 ⟨x, hx, same⟩)
  calc
    (xs.map f).sum = (shared.map g).sum := common
    _ = (shared.map g).sum + ((ys.filter fun y => !decide (key' y ∈ xs.map key)).map g).sum := by
      rw [rest, add_zero]
    _ = (ys.map g).sum := by
      rw [← List.sum_append, ← List.map_append]
      exact ((List.filter_append_perm _ ys).map g).sum_eq

end Sums

/-- The score of an attempt on a demon. One without a position is worth nothing. -/
noncomputable def Demon.value (d : Demon) (progress : Int) : ℝ :=
  match d.position with
  | some position => (Curve.standard : Curve ℝ).recordScore progress position 75 d.requirement
  | none => 0

/-- The best score of some attempts on a demon, and nothing if there are none. -/
noncomputable def Demon.best (d : Demon) (attempts : List Int) : ℝ := (attempts.map d.value).max?.getD 0

namespace Demon

variable {d : Demon} {attempts : List Int} {progress : Int}

theorem value_nonneg (d : Demon) (progress : Int) : 0 ≤ d.value progress := by
  unfold value
  split
  · exact Curve.recordScore_nonneg
  · exact le_refl 0

theorem value_complete {p : Int} (at_p : d.position = some p) :
    d.value 100 = (Curve.standard : Curve ℝ).fullCredit p := by
  unfold value
  rw [at_p]
  dsimp only
  rw [Int.cast_ofNat, Curve.recordScore_complete]

theorem best_eq_value (mem : progress ∈ attempts) (largest : ∀ p ∈ attempts, d.value p ≤ d.value progress) :
    d.best attempts = d.value progress := by
  have max : (attempts.map d.value).max? = some (d.value progress) := by
    refine List.max?_eq_some_iff.2 ⟨List.mem_map_of_mem mem, fun v mem => ?_⟩
    obtain ⟨p, hp, rfl⟩ := List.mem_map.1 mem
    exact largest p hp
  rw [best, max, Option.getD_some]

theorem best_eq_zero (nothing : ∀ p ∈ attempts, d.value p = 0) : d.best attempts = 0 := by
  cases attempts with
  | nil => rfl
  | cons p rest =>
    have zero := nothing p List.mem_cons_self
    rw [best_eq_value List.mem_cons_self fun q mem => by rw [nothing q mem, zero], zero]

end Demon

noncomputable def ScoreRow.exactScore (r : ScoreRow) : ℝ :=
  r.score (Curve.standard : Curve ℝ) (scoredWindow : ℝ)

namespace Grouping

variable {κ : Type} [DecidableEq κ] {g : Grouping κ} {rows : List ScoreRow} {k : κ}

def eligible (g : Grouping κ) (rows : List ScoreRow) : List ScoreRow :=
  if g.membersOnly then memberRows g.columns rows else rows

omit [DecidableEq κ] in
theorem mem_of_mem_eligible {r : ScoreRow} (mem : r ∈ g.eligible rows) : r ∈ rows := by
  unfold eligible at mem
  split at mem
  · exact List.mem_of_mem_filter mem
  · exact mem

def bestRows (g : Grouping κ) (rows : List ScoreRow) (k : κ) : List ScoreRow :=
  (g.counted rows).filter fun r => g.key r = some k

/-- The columns of a grouping tell the key, and a key tells the columns. -/
structure Faithful (g : Grouping κ) : Prop where
  key_eq : ∀ r r', g.columns.map r.cell = g.columns.map r'.cell → g.key r = g.key r'
  cells_eq : ∀ r r' k, g.key r = some k → g.key r' = some k → g.columns.map r.cell = g.columns.map r'.cell

/-- Of some rows, those of the players who count are the ones that count for an entity. -/
def Selects (g : Grouping κ) (rows : List ScoreRow) (k : κ) (counts : Int → Bool) : Prop :=
  ∀ r ∈ rows, r ∈ g.eligible rows ∧ g.key r = some k ↔ counts r.playerId

theorem Faithful.nodup_bestRows (h : g.Faithful) (rows : List ScoreRow) (k : κ) :
    ((g.bestRows rows k).map ScoreRow.demonId).Nodup := by
  have groups : (g.bestRows rows k).Pairwise fun a b => a.group g.columns ≠ b.group g.columns :=
    (List.pairwise_map.1 (nodup_bestPerDemon g.columns _)).sublist List.filter_sublist
  refine List.pairwise_map.2 (groups.imp_of_mem fun {a b} ha hb differ same => differ ?_)
  have key := of_decide_eq_true (List.mem_filter.1 ha).2
  have key' := of_decide_eq_true (List.mem_filter.1 hb).2
  exact Prod.ext (h.cells_eq a b k key key') same

theorem eligible_of_mem_bestRows {b : ScoreRow} (mem : b ∈ g.bestRows rows k) :
    b ∈ g.eligible rows ∧ g.key b = some k := by
  obtain ⟨counted, key⟩ := List.mem_filter.1 mem
  exact ⟨mem_of_mem_bestPerDemon counted, of_decide_eq_true key⟩

theorem Faithful.exists_mem_bestRows (h : g.Faithful) {r : ScoreRow} (mem : r ∈ g.eligible rows)
    (key : g.key r = some k) : ∃ b ∈ g.bestRows rows k, b.demonId = r.demonId ∧ r.progress ≤ b.progress := by
  obtain ⟨b, kept, same, le⟩ := exists_mem_bestPerDemon g.columns mem
  have sameKey := h.key_eq b r (congrArg Prod.fst same)
  exact ⟨b, List.mem_filter.2 ⟨kept, decide_eq_true (sameKey.trans key)⟩, congrArg Prod.snd same, le⟩

theorem totalIn_real (g : Grouping κ) (rows : List ScoreRow) (k : κ) :
    g.totalIn (g.scored (Curve.standard : Curve ℝ) rows) k =
      ⟨(((g.bestRows rows k).filter (·.rated)).map ScoreRow.exactScore).sum,
        ((g.bestRows rows k).map ScoreRow.exactScore).sum⟩ := by
  unfold totalIn scored withScores sumPools
  simp only [Scalar.sum_real, Scalar.orZero_real, List.filter_map, List.map_map]
  rfl

theorem faithful_players : players.Faithful := by
  refine ⟨?_, ?_⟩
  · intro r r' same
    injection same with cell
    injection cell with id
    exact congrArg some id
  · intro r r' k key key'
    have same : r.playerId = r'.playerId := Option.some_inj.1 (key.trans key'.symm)
    change [Cell.number r.playerId] = [Cell.number r'.playerId]
    rw [same]

theorem ofText?_injective {s t : Option String} (h : Cell.ofText? s = Cell.ofText? t) : s = t := by
  cases s <;> cases t <;> cases h <;> rfl

theorem faithful_nations : nations.Faithful := by
  refine ⟨?_, ?_⟩
  · intro r r' same
    injection same with cell
    exact ofText?_injective cell
  · intro r r' k key key'
    have same : r.nationality = r'.nationality := key.trans key'.symm
    change [Cell.ofText? r.nationality] = [Cell.ofText? r'.nationality]
    rw [same]

theorem key_subdivisions {r : ScoreRow} {region : Region} : subdivisions.key r = some region ↔
    r.nationality = some region.nation ∧ r.subdivision = some region.code := by
  obtain ⟨nation, code⟩ := region
  change (do return ⟨← r.nationality, ← r.subdivision⟩ : Option Region) = some ⟨nation, code⟩ ↔ _
  cases r.nationality <;> cases r.subdivision <;> simp

theorem faithful_subdivisions : subdivisions.Faithful := by
  refine ⟨?_, ?_⟩
  · intro r r' same
    injection same with nationality same
    injection same with subdivision
    change (do return ⟨← r.nationality, ← r.subdivision⟩ : Option Region) =
      do return ⟨← r'.nationality, ← r'.subdivision⟩
    rw [ofText?_injective nationality, ofText?_injective subdivision]
  · intro r r' k key key'
    obtain ⟨nation, code⟩ := key_subdivisions.1 key
    obtain ⟨nation', code'⟩ := key_subdivisions.1 key'
    change [Cell.ofText? r.nationality, Cell.ofText? r.subdivision] =
      [Cell.ofText? r'.nationality, Cell.ofText? r'.subdivision]
    rw [nation, nation', code, code']

end Grouping

namespace Database

variable {db : Database ℝ} {counts : Int → Bool}

/-- What an entity has earned: over the listed demons, of each the best score of any attempt of its players,
once over the rated demons and once over all. -/
noncomputable def earned (db : Database ℝ) (counts : Int → Bool) : Totals ℝ where
  score := ((db.listedDemons.filter fun (_, d) => d.rated).map fun (id, d) =>
    d.best (db.attempts counts id d)).sum
  unratedScore := (db.listedDemons.map fun (id, d) => d.best (db.attempts counts id d)).sum

/-- No record claims more than a completion. -/
def WithinHundred (db : Database ℝ) : Prop :=
  ∀ id record, db.records.find? id = some record → record.progress ≤ 100

theorem withinHundred_iff : db.WithinHundred ↔ ∀ e ∈ db.records.entries, e.2.progress ≤ 100 :=
  ⟨fun h e mem => h e.1 e.2 (Table.find?_eq_some_iff.2 mem),
    fun h id record found => h (id, record) (Table.mem_of_find? found)⟩

instance : Decidable db.WithinHundred := decidable_of_iff _ withinHundred_iff.symm

theorem WithinHundred.attempts (h : db.WithinHundred) {id : Int} {d : Demon} {progress : Int}
    (mem : progress ∈ db.attempts counts id d) : progress ≤ 100 := by
  rcases mem_attempts.1 mem with ⟨recordId, record, found, -, -, -, rfl⟩ | ⟨-, rfl⟩
  · exact h recordId record found
  · exact Int.le_refl _

theorem value_of_describes {r : ScoreRow} {d : Demon} {p : Int} (h : db.Describes r d p) :
    r.exactScore = d.value r.progress := by
  unfold ScoreRow.exactScore ScoreRow.score Demon.value
  rw [h.placed.2.2, h.position, h.requirement]
  rfl

theorem value_eq_zero {d : Demon} {p progress : Int} (at_p : d.position = some p) (bound : progress ≤ 100)
    (nothing : ¬ givesScore scoredWindow p progress) : d.value progress = 0 := by
  simp only [givesScore, Bool.or_eq_true, decide_eq_true_eq, not_or] at nothing
  have beyond : 75 < p := Int.not_le.1 nothing.1
  have outside : (75 : ℝ) < (p : ℝ) := by exact_mod_cast beyond
  have short : (progress : ℝ) < 100 := by exact_mod_cast lt_of_le_of_ne bound nothing.2
  unfold Demon.value
  rw [at_p]
  exact Curve.recordScore_eq_zero outside short

theorem value_mono {d : Demon} {progress progress' : Int} (h : progress ≤ progress') :
    d.value progress ≤ d.value progress' := by
  unfold Demon.value
  split
  · exact Curve.recordScore_mono (Int.cast_le.2 h)
  · exact le_refl 0

section Entity

variable {κ : Type} [DecidableEq κ] {g : Grouping κ} {k : κ}

/-- A best row of an entity scores what the best attempt of its players on the demon is worth. -/
theorem best_of_mem_bestRows (bounded : db.WithinHundred) (faithful : g.Faithful)
    (selects : g.Selects db.standardRows k counts) {b : ScoreRow} (mem : b ∈ g.bestRows db.standardRows k) :
    ∃ d, (b.demonId, d) ∈ db.listedDemons ∧ b.rated = d.rated ∧
      d.best (db.attempts counts b.demonId d) = b.exactScore := by
  obtain ⟨eligible, key⟩ := Grouping.eligible_of_mem_bestRows mem
  have stored : b ∈ db.standardRows := Grouping.mem_of_mem_eligible eligible
  obtain ⟨d, p, describes, attempt⟩ := attempt_of_row counts stored
  have attempt := attempt ((selects b stored).1 ⟨eligible, key⟩)
  obtain ⟨found, listed, at_p⟩ := describes.placed
  refine ⟨d, mem_listedDemons.2 ⟨found, listed⟩, describes.rated, ?_⟩
  rw [value_of_describes describes]
  refine Demon.best_eq_value attempt ?_
  intro progress other
  by_cases gives : givesScore scoredWindow p progress
  · obtain ⟨r, row, about, same, counted⟩ := row_of_attempt describes.placed other gives
    obtain ⟨eligible', key'⟩ := (selects r row).2 counted
    obtain ⟨b', mem', about', le⟩ := faithful.exists_mem_bestRows eligible' key'
    obtain rfl : b' = b :=
      List.inj_on_of_nodup_map (faithful.nodup_bestRows db.standardRows k) mem' mem (about'.trans about)
    exact value_mono (same ▸ le)
  · rw [value_eq_zero at_p (bounded.attempts other) gives]
    exact d.value_nonneg b.progress

theorem best_eq_zero_of_no_row (bounded : db.WithinHundred) (faithful : g.Faithful)
    (selects : g.Selects db.standardRows k counts) {id : Int} {d : Demon} (listed : (id, d) ∈ db.listedDemons)
    (without : ∀ b ∈ g.bestRows db.standardRows k, b.demonId ≠ id) : d.best (db.attempts counts id d) = 0 := by
  obtain ⟨found, listed⟩ := mem_listedDemons.1 listed
  refine Demon.best_eq_zero ?_
  intro progress attempt
  cases at_p : d.position with
  | none =>
    unfold Demon.value
    rw [at_p]
  | some p =>
    refine value_eq_zero at_p (bounded.attempts attempt) ?_
    intro gives
    obtain ⟨r, row, about, -, counted⟩ := row_of_attempt ⟨found, listed, at_p⟩ attempt gives
    obtain ⟨eligible, key⟩ := (selects r row).2 counted
    obtain ⟨b, mem, about', -⟩ := faithful.exists_mem_bestRows eligible key
    exact without b mem (about'.trans about)

/-- The total of an entity is what its players have earned for it. -/
theorem totalIn_eq_earned (bounded : db.WithinHundred) (faithful : g.Faithful)
    (selects : g.Selects db.standardRows k counts) :
    g.totalIn (g.scored (Curve.standard : Curve ℝ) db.standardRows) k = db.earned counts := by
  have nodup := faithful.nodup_bestRows db.standardRows k
  rw [Grouping.totalIn_real, earned]
  congr 1
  · refine sum_map_eq_of_keys (nodup.sublist (List.filter_sublist.map _))
      (db.nodup_listed.sublist (List.filter_sublist.map _)) ?_ ?_
    · intro b mem
      obtain ⟨mem, rated⟩ := List.mem_filter.1 mem
      obtain ⟨d, listed, same, value⟩ := best_of_mem_bestRows bounded faithful selects mem
      exact ⟨(b.demonId, d), List.mem_filter.2 ⟨listed, same.symm.trans rated⟩, rfl, value⟩
    · intro e mem without
      obtain ⟨listed, rated⟩ := List.mem_filter.1 mem
      refine best_eq_zero_of_no_row bounded faithful selects listed ?_
      intro b mem same
      obtain ⟨d, listed', sameRated, -⟩ := best_of_mem_bestRows bounded faithful selects mem
      have found := (mem_listedDemons.1 listed).1
      rw [← same, (mem_listedDemons.1 listed').1, Option.some_inj] at found
      refine without b (List.mem_filter.2 ⟨mem, ?_⟩) same
      rw [sameRated, found]
      exact rated
  · refine sum_map_eq_of_keys nodup db.nodup_listed ?_ ?_
    · intro b mem
      obtain ⟨d, listed, -, value⟩ := best_of_mem_bestRows bounded faithful selects mem
      exact ⟨(b.demonId, d), listed, rfl, value⟩
    · intro e listed without
      exact best_eq_zero_of_no_row bounded faithful selects listed without

end Entity

theorem earned_eq_zero (nothing : ∀ e ∈ db.listedDemons, db.attempts counts e.1 e.2 = []) :
    db.earned counts = ⟨0, 0⟩ := by
  have zero : ∀ e ∈ db.listedDemons, e.2.best (db.attempts counts e.1 e.2) = 0 := by
    intro e mem
    rw [nothing e mem]
    rfl
  unfold earned
  congr 1
  · refine List.sum_eq_zero ?_
    intro v mem
    obtain ⟨e, listed, rfl⟩ := List.mem_map.1 mem
    exact zero e (List.mem_filter.1 listed).1
  · refine List.sum_eq_zero ?_
    intro v mem
    obtain ⟨e, listed, rfl⟩ := List.mem_map.1 mem
    exact zero e listed

end Database

def Player.countsFor (nation : String) (p : Player) : Bool := !p.banned && p.nationality = some nation

def Player.countsForRegion (region : Region) (p : Player) : Bool :=
  p.countsFor region.nation && p.subdivision = some region.code

namespace Database

variable {db : Database ℝ}

section Selection

variable {α : Type}

def playersWho (db : Database α) (condition : Player → Bool) (playerId : Int) : Bool :=
  (db.players.find? playerId).any condition

theorem selects_players (db : Database α) (window : Int) (id : Int) :
    Grouping.players.Selects (db.scoreGiving window) id fun id' => id' = id := by
  intro r mem
  rw [decide_eq_true_eq]
  exact ⟨fun h => Option.some_inj.1 h.2, fun same => ⟨mem, congrArg some same⟩⟩

theorem mayCount_nations (r : ScoreRow) :
    r.mayCount Grouping.nations.columns = (!r.banned && r.nationality.isSome) := by
  change (!r.banned && (!(Cell.ofText? r.nationality).isNull && true)) = _
  cases r.nationality <;> rfl

theorem mayCount_subdivisions (r : ScoreRow) : r.mayCount Grouping.subdivisions.columns =
    (!r.banned && (r.nationality.isSome && r.subdivision.isSome)) := by
  change (!r.banned && (!(Cell.ofText? r.nationality).isNull &&
    (!(Cell.ofText? r.subdivision).isNull && true))) = _
  cases r.nationality <;> cases r.subdivision <;> rfl

theorem selects_nations (db : Database α) (window : Int) (nation : String) :
    Grouping.nations.Selects (db.scoreGiving window) nation (db.playersWho (Player.countsFor nation)) := by
  intro r mem
  obtain ⟨d, p, describes, -⟩ := attempt_of_row (fun _ => true) mem
  change r ∈ memberRows Grouping.nations.columns (db.scoreGiving window) ∧ r.nationality = some nation ↔ _
  rw [memberRows, List.mem_filter, and_iff_right mem, mayCount_nations, playersWho, describes.nationality,
    describes.banned, memberOf]
  cases db.players.find? r.playerId with
  | none => simp [Member.unknown]
  | some player =>
    simp only [Option.map_some, Option.getD_some, Option.any_some, Player.member, Player.countsFor,
      Bool.and_eq_true, decide_eq_true_eq]
    constructor
    · exact fun h => ⟨h.1.1, h.2⟩
    · exact fun h => ⟨⟨h.1, by rw [h.2]; rfl⟩, h.2⟩

theorem selects_subdivisions (db : Database α) (window : Int) (region : Region) :
    Grouping.subdivisions.Selects (db.scoreGiving window) region
      (db.playersWho (Player.countsForRegion region)) := by
  intro r mem
  obtain ⟨d, p, describes, -⟩ := attempt_of_row (fun _ => true) mem
  change r ∈ memberRows Grouping.subdivisions.columns (db.scoreGiving window) ∧ _ ↔ _
  rw [memberRows, List.mem_filter, and_iff_right mem, mayCount_subdivisions, Grouping.key_subdivisions,
    playersWho, describes.nationality, describes.subdivision, describes.banned, memberOf]
  cases db.players.find? r.playerId with
  | none => simp [Member.unknown]
  | some player =>
    simp only [Option.map_some, Option.getD_some, Option.any_some, Player.member, Player.countsForRegion,
      Player.countsFor, Bool.and_eq_true, decide_eq_true_eq]
    constructor
    · exact fun h => ⟨⟨h.1.1, h.2.1⟩, h.2.2⟩
    · exact fun h => ⟨⟨h.1.1, by rw [h.1.2]; rfl, by rw [h.2]; rfl⟩, h.1.2, h.2⟩

end Selection

/-- After a recompute of everything the stored totals are what the players of each entity have earned, whatever was
stored before: the player's own attempts, banned or not, or those of the members who are not banned. -/
theorem recomputed_totals (bounded : db.WithinHundred) :
    (∃ counts, (db.recomputeAll .absent).result = .ok counts) ∧
    (∀ faults counts, (db.recomputeAll faults).result = .ok counts →
      let after := (db.recomputeAll faults).state
      (∀ id, after.playerBoard.totals.find? id =
        (db.players.find? id).map fun _ => db.earned fun id' => id' = id) ∧
      (∀ nation, after.nationBoard.totals.find? nation =
        (db.nations.find? nation).map fun _ => db.earned (db.playersWho (Player.countsFor nation))) ∧
      ∀ region, after.subdivisionBoard.totals.find? region =
        (db.subdivisions.find? region).map fun _ =>
          db.earned (db.playersWho (Player.countsForRegion region))) ∧
    ∀ counts, (∀ e ∈ db.listedDemons, db.attempts counts e.1 e.2 = []) → db.earned counts = ⟨0, 0⟩ := by
  refine ⟨(recompute_absent db Scope.all).2, ?_, fun counts => earned_eq_zero⟩
  intro faults counts done after
  have passed : after = Scope.all.foldl pass db := state_of_recompute_ok done
  refine ⟨?_, ?_, ?_⟩
  · intro id
    have board : after.playerBoard = db.computedPlayerBoard := by rw [passed, foldl_pass_all]
    rw [board, ← totalIn_eq_earned bounded Grouping.faithful_players (db.selects_players scoredWindow id)]
    exact Table.find?_mapRows _ _ id
  · intro nation
    have board : after.nationBoard = db.computedNationBoard := by rw [passed, foldl_pass_all]
    rw [board, ← totalIn_eq_earned bounded Grouping.faithful_nations (db.selects_nations scoredWindow nation)]
    exact Table.find?_mapRows _ _ nation
  · intro region
    have board : after.subdivisionBoard = db.computedSubdivisionBoard := by rw [passed, foldl_pass_all]
    rw [board, ← totalIn_eq_earned bounded Grouping.faithful_subdivisions (db.selects_subdivisions scoredWindow region)]
    exact Table.find?_mapRows _ _ region

/-- Two compatriots have completed the top demon, which somebody who is banned has verified. That one of them had been
stopped there at first, and that the other has come a long way on a demon beyond the window, adds nothing. -/
theorem recomputed_totals_of_compatriots :
    let top : Demon := ⟨"a", some 1, 50, none, 3, 3, true, ⟨0⟩, none⟩
    let remote : Demon := ⟨"b", some 100, 50, none, 3, 3, true, ⟨0⟩, none⟩
    let db : Database ℝ := { (empty : Database ℝ) with
      nations := ⟨[("FR", ⟨"France", none⟩)], List.pairwise_singleton _ _⟩
      players := ((Table.empty.append ⟨"p", some "FR", none, false⟩).append ⟨"q", some "FR", none, false⟩).append
        ⟨"r", some "FR", none, true⟩
      demons := (Table.empty.append top).append remote
      records := (((Table.empty.append ⟨1, 1, 60, .approved⟩).append ⟨1, 1, 100, .approved⟩).append
        ⟨2, 1, 100, .approved⟩).append ⟨2, 2, 70, .approved⟩ }
    let after := (db.recomputeAll .absent).state
    after.playerBoard.totals.find? 1 = some ⟨250, 250⟩ ∧ after.playerBoard.totals.find? 2 = some ⟨250, 250⟩ ∧
      after.nationBoard.totals.find? "FR" = some ⟨250, 250⟩ := by
  intro top remote db after
  have bounded : db.WithinHundred := by decide
  obtain ⟨⟨counts, done⟩, totals, -⟩ := recomputed_totals bounded
  obtain ⟨players, nations, -⟩ := totals .absent counts done
  have complete : top.value 100 = 250 := by
    rw [Demon.value_complete (p := 1) rfl, Int.cast_one, Curve.fullCredit_one]
  have best (attempts : List Int) (completed : 100 ∈ attempts) (within : ∀ p ∈ attempts, p ≤ 100) :
      top.best attempts = 250 := by
    rw [Demon.best_eq_value completed fun p mem => value_mono (within p mem), complete]
  have nothing (attempts : List Int) (within : ∀ p ∈ attempts, p = 70) : remote.best attempts = 0 := by
    refine Demon.best_eq_zero fun p mem => ?_
    rw [within p mem]
    exact value_eq_zero rfl (by decide) (by decide)
  have earned (who : Int → Bool) (completed : 100 ∈ db.attempts who 1 top)
      (within : ∀ p ∈ db.attempts who 1 top, p ≤ 100) (stopped : ∀ p ∈ db.attempts who 2 remote, p = 70) :
      db.earned who = ⟨250, 250⟩ := by
    have sums : db.earned who = ⟨[top.best (db.attempts who 1 top), remote.best (db.attempts who 2 remote)].sum,
        [top.best (db.attempts who 1 top), remote.best (db.attempts who 2 remote)].sum⟩ := rfl
    rw [sums, best _ completed within, nothing _ stopped]
    norm_num
  refine ⟨?_, ?_, ?_⟩
  · rw [players 1, earned _ (by decide) (by decide) (by decide)]
    rfl
  · rw [players 2, earned _ (by decide) (by decide) (by decide)]
    rfl
  · rw [nations "FR", earned _ (by decide) (by decide) (by decide)]
    rfl

end Database

end DemonBoard
