import RelayUpkeep.Scenario.Cache
import RelayUpkeep.Scenario.Connection
import RelayUpkeep.Scenario.Pool
import RelayUpkeep.Config.Stored
import RelayUpkeep.Proofs.Mirror
import RelayUpkeep.Proofs.Alone
import RelayUpkeep.Proofs.Losses
import RelayUpkeep.Proofs.Fairness
import RelayUpkeep.Proofs.Reference
import RelayUpkeep.Proofs.Solo
import RelayUpkeep.Proofs.Finality
import RelayUpkeep.Proofs.Gate
import RelayUpkeep.Proofs.Agreement
import RelayUpkeep.Proofs.Line
import RelayUpkeep.Proofs.Channels
import RelayUpkeep.Proofs.Parts
import RelayUpkeep.Proofs.Closing
import RelayUpkeep.Proofs.Completion
import RelayUpkeep.Proofs.Remains
import RelayUpkeep.Proofs.Standing
import RelayUpkeep.Proofs.Scripts
import RelayUpkeep.Proofs.Latecomers
import RelayUpkeep.Proofs.Failures
import RelayUpkeep.Proofs.Ownership
import RelayUpkeep.Proofs.Advancing
import RelayUpkeep.Proofs.Muster
import RelayUpkeep.Proofs.Requests
import RelayUpkeep.Proofs.Itinerary
import RelayUpkeep.Proofs.Candidates
import RelayUpkeep.Proofs.Reservations
import RelayUpkeep.Proofs.Causes
import RelayUpkeep.Proofs.Orphans
import RelayUpkeep.Proofs.WrittenText
import RelayUpkeep.Proofs.WrittenNumber
import RelayUpkeep.Proofs.StoredSettings
import RelayUpkeep.Proofs.ClockRange
import RelayUpkeep.Proofs.Tolerance
import RelayUpkeep.Proofs.Pruning
import RelayUpkeep.Proofs.Roster
import RelayUpkeep.Proofs.LostOrClosed
import RelayUpkeep.Proofs.Chronicle
import RelayUpkeep.Proofs.Budget
import RelayUpkeep.Proofs.Trail
