import DemonBoard.Main
import DemonBoard.Runner
import DemonBoard.Database.Rows
import DemonBoard.Lifecycle
import DemonBoard.Stats.Nation
import DemonBoard.Proofs.Tables
import DemonBoard.Proofs.Arrangement
import DemonBoard.Proofs.Edits
import DemonBoard.Proofs.Sessions
import DemonBoard.Proofs.Readback
import DemonBoard.Proofs.ListEdits
import DemonBoard.Proofs.TimeTravel
import DemonBoard.Proofs.Irrelevance
import DemonBoard.Proofs.Freshness
import DemonBoard.Proofs.BestRows
import DemonBoard.Proofs.ExactScores
import DemonBoard.Proofs.ScoreRows
import DemonBoard.Proofs.EarnedTotals
import DemonBoard.Proofs.RunnerSteps
import DemonBoard.Proofs.Coalescing
import DemonBoard.Proofs.EditLog
import DemonBoard.Proofs.AuditTrail
import DemonBoard.Proofs.FirstValues
import DemonBoard.Proofs.Boards
import DemonBoard.Proofs.Clients
import DemonBoard.Proofs.Quiescence
import DemonBoard.Proofs.Renewal
import DemonBoard.Proofs.DefinedOrder
import DemonBoard.Proofs.PositiveOrder
import DemonBoard.Proofs.Placements
import DemonBoard.Proofs.KeptBoards
import DemonBoard.Proofs.Standings
import DemonBoard.Proofs.DrillDowns
import DemonBoard.Proofs.NationRecords
import DemonBoard.Proofs.Backdating
import DemonBoard.Proofs.PositiveScores
import DemonBoard.Proofs.RankTables
import DemonBoard.Proofs.RankedEntities
import DemonBoard.Proofs.RankedViews
import DemonBoard.Proofs.Refusals
import DemonBoard.Proofs.Retries
import DemonBoard.Proofs.Attempts
import DemonBoard.Proofs.Queues
import DemonBoard.Proofs.SharedPasses
import DemonBoard.Proofs.LoggedValues
import DemonBoard.Proofs.Reconstruction
import DemonBoard.Proofs.CompetitionRanks
import DemonBoard.Proofs.SelectedRows
import DemonBoard.Proofs.UniqueBest
import DemonBoard.Proofs.StagedChoice
import DemonBoard.Proofs.SegmentChoice
import DemonBoard.Proofs.FallingCurve
import DemonBoard.Proofs.ScoreRange
import DemonBoard.Proofs.LevelBounds
import DemonBoard.Proofs.BeatenDemons
import DemonBoard.Proofs.Efforts
import DemonBoard.Proofs.Competitors
import DemonBoard.Proofs.EqualEfforts
import DemonBoard.Proofs.RecordDecisions
import DemonBoard.Proofs.Memberships
import DemonBoard.Proofs.UndoneEdits
import DemonBoard.Proofs.PositionCheck
