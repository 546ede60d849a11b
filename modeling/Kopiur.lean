import Kopiur.Api.AliasErrors
import Kopiur.Api.CachePvcNames
import Kopiur.Api.GroupNames
import Kopiur.Api.LabelSelectors
import Kopiur.Api.MoverLayers
import Kopiur.Api.RetentionSpec
import Kopiur.Controller.AdoptionRuns
import Kopiur.Controller.CaptureRuns
import Kopiur.Controller.CatalogOrder
import Kopiur.Controller.CatalogScans
import Kopiur.Controller.ClaimConvergence
import Kopiur.Controller.DeleteLedger
import Kopiur.Controller.DeletionRuns
import Kopiur.Controller.FailedHistory
import Kopiur.Controller.FinishedRuns
import Kopiur.Controller.GroupCaptureRuns
import Kopiur.Controller.GroupMembers
import Kopiur.Controller.HookRuns
import Kopiur.Controller.JobAddresses
import Kopiur.Controller.LeaderRuns
import Kopiur.Controller.PinRuns
import Kopiur.Controller.PinStability
import Kopiur.Controller.Placements
import Kopiur.Controller.PolicyCascade
import Kopiur.Controller.PoolRuns
import Kopiur.Controller.ProbeResults
import Kopiur.Controller.ReplaceRuns
import Kopiur.Controller.RequestedRuns
import Kopiur.Controller.RestoreSelection
import Kopiur.Controller.RunSource
import Kopiur.Controller.ScanRequests
import Kopiur.Controller.StagedSize
import Kopiur.Controller.StagingDeadlines
import Kopiur.Controller.StatusPatches
import Kopiur.Controller.VerificationMembers
import Kopiur.Controller.WaitWindow
import Kopiur.Controller.WaveDrain
import Kopiur.Kopia.ClientArgs
import Kopiur.Kopia.StableMessages
import Kopiur.Migrate.Continuity
import Kopiur.Migrate.RepositorySecrets
import Kopiur.Mover.DeleteBatch
import Kopiur.Mover.DigestAnswers
import Kopiur.Mover.FleetRuns
import Kopiur.Mover.GlobMeaning
import Kopiur.Mover.KeepPins
import Kopiur.Mover.MaintenanceOwner
import Kopiur.Mover.MetaTags
import Kopiur.Mover.ParametersConvergence
import Kopiur.Mover.RetentionGuard
import Kopiur.Mover.StaleRestore
import Kopiur.Mover.StreamRestore
import Kopiur.Mover.WindowShares
import Kopiur.Ui.ClientRuns
import Kopiur.Ui.FlightRegistry
import Kopiur.Ui.SessionPoolDrain
import Kopiur.Ui.SourceAgreement
import Kopiur.Webhook.SourcePathFork
