import DemonBoard.Ranking.View
import DemonBoard.Validation

/-! What stands behind a player's score: the demons beaten, verified and published, and partial progress. -/

namespace DemonBoard

/-- The last position of the extended list; what comes after is legacy. -/
def extendedListSize : Int := 150

structure PlayerStats (α : Type) where
  playerId : Int
  name : String
  rank : Option Nat
  unratedRank : Option Nat
  totals : Totals α
  mainBeaten : List String
  extendedBeaten : List String
  legacyBeaten : List String
  hardest : Option String
  verified : List String
  published : List String
  progress : List (String × Int)

namespace Stats

abbrev Named : Type := String × Option Int

def nullsLast (a b : Option Int) : Bool :=
  match a, b with
  | some a, some b => decide (a ≤ b)
  | _, none => true
  | none, some _ => false

def nullsFirst (a b : Option Int) : Bool :=
  match a, b with
  | some a, some b => decide (a ≤ b)
  | none, _ => true
  | some _, none => false

def byPosition (demons : List Named) : List Named := sortBy (fun a b => nullsLast a.2 b.2) demons

def distinctNames (demons : List Named) : List Named := demons.eraseDupsBy fun a b => a.1 == b.1

/-- The names of the demons in a stretch of the list, its lower end left out. -/
def namesIn (lower upper : Option Int) (demons : List Named) : List String :=
  (demons.filter fun (_, p) => p.any fun p =>
    (lower.all fun l => decide (l < p)) && upper.all fun u => decide (p ≤ u)).map Prod.fst

end Stats

namespace Database

variable {α : Type}

def approvedOf (db : Database α) (playerId : Int) : List (Stats.Named × Int) :=
  db.records.entries.filterMap fun (_, r) =>
    if r.playerId = playerId ∧ r.status = .approved then
      (db.demons.find? r.demonId).bind fun d =>
        if d.listed then some ((d.name, d.position), r.progress) else none
    else none

def verifiedBy (db : Database α) (playerId : Int) : List Stats.Named :=
  (db.listedDemons.filter fun (_, d) => d.verifierId = playerId).map fun (_, d) => (d.name, d.position)

def demonsInOrder (db : Database α) : List (Int × Demon) :=
  sortBy (fun a b => Stats.nullsFirst a.2.position b.2.position) db.listedDemons

def publishedBy (db : Database α) (playerId : Int) : List String :=
  (db.demonsInOrder.filter fun (_, d) => d.publisherId = playerId).map fun (_, d) => d.name

/-- The demons a player has completed or verified, one for each name, from the top down. -/
def beatenBy (db : Database α) (playerId : Int) : List Stats.Named :=
  let completions := ((db.approvedOf playerId).filter fun (_, progress) => progress = 100).map Prod.fst
  Stats.byPosition (Stats.distinctNames (completions ++ db.verifiedBy playerId))

def playerStats [Scalar α] (db : Database α) (playerId : Int) : Except Error (PlayerStats α) := do
  let player ← requireRow db.players playerId (.noPlayer playerId)
  let beaten := db.beatenBy playerId
  let partials := (db.approvedOf playerId).filter fun (_, progress) => decide (progress < 100)
  let attempts := sortBy (fun a b => Stats.nullsLast a.1.2 b.1.2) partials
  return {
    playerId
    name := player.name
    rank := db.playerBoard.rankOf playerId .rated
    unratedRank := db.playerBoard.rankOf playerId .unrated
    totals := db.playerBoard.total playerId
    mainBeaten := Stats.namesIn none (some scoredWindow) beaten
    extendedBeaten := Stats.namesIn (some scoredWindow) (some extendedListSize) beaten
    legacyBeaten := Stats.namesIn (some extendedListSize) none beaten
    hardest := beaten.head?.map Prod.fst
    verified := (Stats.byPosition (db.verifiedBy playerId)).map Prod.fst
    published := db.publishedBy playerId
    progress := attempts.map fun (d, progress) => (d.1, progress) }

end Database

end DemonBoard
