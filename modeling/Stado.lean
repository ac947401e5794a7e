import Stado.Safety.IndexComplete
import Stado.Safety.RecoverableFences
import Stado.Safety.AdmittedOnce
import Stado.Safety.ForwardRecords
import Stado.Safety.LeaseFencing
import Stado.Safety.OccurrenceOnce
import Stado.Safety.PauseFences
import Stado.Safety.OwnAnswers
import Stado.Safety.StrandedOccurrence
import Stado.Safety.TrafficSpared
import Stado.Safety.UsageMetered
import Stado.Safety.EveryMarkerRead
import Stado.Safety.FinishedOutcome
import Stado.Safety.ReservationsCounted
import Stado.Safety.RestartedOnce
import Stado.Safety.WorkdirTerminal
import Stado.Safety.SchedulesOnce
import Stado.Safety.WithinCapacity
import Stado.Safety.FailoverAgrees
import Stado.Safety.CopyKept
import Stado.Safety.BudgetKept
import Stado.Safety.EtagsHold
import Stado.Safety.ManifestKept
import Stado.Safety.OneOwner
import Stado.Safety.MoveKeeps
import Stado.Safety.EscapesRead
import Stado.Safety.PagesWhole
import Stado.Safety.RetriesBounded
import Stado.Safety.HeadsReserve
import Stado.Safety.CutsIgnored
import Stado.Safety.ChunksFramed
import Stado.Safety.GrantsListed
import Stado.Safety.VersionsOrdered
import Stado.Safety.StatesRestored
import Stado.Safety.HistoryComplete
import Stado.Safety.WritesRepeat
import Stado.Safety.PartsAssembled
import Stado.Safety.YieldsUseful
import Stado.Safety.MovesCarry
import Stado.Safety.UnitsOrdered
import Stado.Safety.LockResolved
import Stado.Safety.VersionsPicked
import Stado.Safety.CfgFollowed
import Stado.Safety.RecordsRead
import Stado.Safety.DestinationsMerged
import Stado.Safety.SidecarsShared
import Stado.Safety.WindowsLimited
import Stado.Kompilator.Sha256
import Stado.Safety.DaysExpanded
import Stado.Placement.Makespan
