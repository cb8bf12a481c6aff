import MilpRounding.Event.Record
import MilpRounding.Main
import MilpRounding.Problem.Reader
import MilpRounding.Proofs.LaunchOutcome
import MilpRounding.Proofs.InequalityRows
import MilpRounding.Proofs.EquationRows
import MilpRounding.Proofs.StrictRows
import MilpRounding.Proofs.MirroredRun
import MilpRounding.Proofs.ProblemMeaning
import MilpRounding.Proofs.RepeatedRuns
import MilpRounding.Scalar.Exact
import MilpRounding.Tools
import MilpRounding.Variable.Description
import MilpRounding.Workspace.Command
import MilpRounding.Proofs.ReportedObjective
import MilpRounding.Proofs.Trail
import MilpRounding.Proofs.VariableInvariant
import MilpRounding.Proofs.StartingCell
import MilpRounding.Proofs.FallingGaps
import MilpRounding.Proofs.StatusMeaning
import MilpRounding.Proofs.LiveColumns
import MilpRounding.Proofs.DistinctIndices
import MilpRounding.Proofs.PendingColumns
import MilpRounding.Proofs.TruthfulReport
import MilpRounding.Proofs.RestatedRows
import MilpRounding.Proofs.LocalDecisions
import MilpRounding.Proofs.SeparateGroups
import MilpRounding.Proofs.StalledRuns
import MilpRounding.Proofs.ObjectiveSigns
import MilpRounding.Proofs.RescaledRows
import MilpRounding.Proofs.BoundedMoves
import MilpRounding.Proofs.ServiceOutcome
import MilpRounding.Proofs.NamedSlacks
import MilpRounding.Proofs.SoundVerdicts
import MilpRounding.Proofs.ShapedModels
import MilpRounding.Proofs.GeneratedProblems
import MilpRounding.Proofs.BestDecision
import MilpRounding.Proofs.ConfinedRuns
import MilpRounding.Proofs.SuccessiveTurns
import MilpRounding.Proofs.TurnedMeaning
import MilpRounding.Proofs.ExhaustedColumns
import MilpRounding.Proofs.TieBreaks
import MilpRounding.Proofs.ListedIndices
import MilpRounding.Proofs.RunRecords
import MilpRounding.Proofs.ConvertedColumns
import MilpRounding.Proofs.WrittenDocuments
import MilpRounding.Proofs.EngineRecords
import MilpRounding.Proofs.SessionProtocol
