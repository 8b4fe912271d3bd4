import DemonBoard.Curve
import DemonBoard.Database

/-!
Score-giving records: the approved records on listed demons that lie in the window or are completions,
and one completion per listed demon for its verifier. Each carries what scoring needs to know about its
demon and its player.
-/

namespace DemonBoard

structure ListedDemon where
  id : Int
  position : Int
  requirement : Int
  rated : Bool
  verifierId : Int
  deriving DecidableEq

structure Member where
  nationality : Option String
  subdivision : Option String
  banned : Bool
  deriving DecidableEq

def Member.unknown : Member := ⟨none, none, false⟩

def Player.member (p : Player) : Member := ⟨p.nationality, p.subdivision, p.banned⟩

structure ScoreRow where
  recordId : Int
  playerId : Int
  demonId : Int
  progress : Int
  position : Int
  requirement : Int
  rated : Bool
  verification : Bool
  nationality : Option String
  subdivision : Option String
  banned : Bool
  deriving DecidableEq

namespace ScoreRow

/-- An id below those of all records, so a verification wins a tie. -/
def verificationId : Int := 0

def ofRecord (id : Int) (r : Record) (d : ListedDemon) (m : Member) : ScoreRow where
  recordId := id
  playerId := r.playerId
  demonId := d.id
  progress := r.progress
  position := d.position
  requirement := d.requirement
  rated := d.rated
  verification := false
  nationality := m.nationality
  subdivision := m.subdivision
  banned := m.banned

def ofVerifier (d : ListedDemon) (m : Member) : ScoreRow where
  recordId := verificationId
  playerId := d.verifierId
  demonId := d.id
  progress := 100
  position := d.position
  requirement := d.requirement
  rated := d.rated
  verification := true
  nationality := m.nationality
  subdivision := m.subdivision
  banned := m.banned

end ScoreRow

/-- Progress on a demon gives score inside the window, and everywhere if it is a completion. -/
def givesScore (window position progress : Int) : Bool := position ≤ window || progress = 100

def membersOf (players : List (Int × Member)) (playerId : Int) : List Member :=
  match players.filter fun (id, _) => id = playerId with
  | [] => [.unknown]
  | found => found.map Prod.snd

/-- The score-giving rows of approved records, in their order, and then of verifications, in the order
of the demons. -/
def scoreGiving (records : List (Int × Record)) (demons : List ListedDemon) (players : List (Int × Member))
    (window : Int) : List ScoreRow :=
  let approved := records.filter fun (_, r) => r.status = .approved
  (approved.flatMap fun (id, r) =>
    (demons.filter fun d => d.id = r.demonId && givesScore window d.position r.progress).flatMap fun d =>
      (membersOf players r.playerId).map (ScoreRow.ofRecord id r d)) ++
  demons.flatMap fun d => (membersOf players d.verifierId).map (ScoreRow.ofVerifier d)

namespace Database

variable {α : Type}

/-- The records that may give score: approved, on a listed demon, and in the window or complete. -/
def candidateRecords (db : Database α) (window : Int) : List (Int × Record) :=
  db.records.entries.filter fun (_, r) =>
    r.status = .approved && (db.demons.find? r.demonId).any fun d =>
      d.listed && (d.position.any (decide <| · ≤ window) || r.progress = 100)

def placedDemons (db : Database α) : List ListedDemon :=
  db.demons.entries.filterMap fun (id, d) =>
    if d.listed then d.position.map fun p => ⟨id, p, d.requirement, d.rated, d.verifierId⟩ else none

def members (db : Database α) : List (Int × Member) :=
  db.players.entries.map fun (id, p) => (id, p.member)

def scoreGiving (db : Database α) (window : Int) : List ScoreRow :=
  DemonBoard.scoreGiving (db.candidateRecords window) db.placedDemons db.members window

end Database

end DemonBoard
