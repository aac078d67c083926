import HbmSim.Types
import HbmSim.Lib.Exits
import HbmSim.Lib.Throw
import HbmSim.Lib.Lists
import HbmSim.Mapping
import HbmSim.Timing
import HbmSim.Bandwidth
import HbmSim.Standard
import HbmSim.Stats
import HbmSim.Kernel.EventQueue
import HbmSim.Controller.Policy
import HbmSim.Controller.Controller
import HbmSim.Controller.Drive
import HbmSim.Config
import HbmSim.System.NextAccess
import HbmSim.System.System
import HbmSim.Controller.Readiness
import HbmSim.Controller.Planning
import HbmSim.Controller.Choice
import HbmSim.Controller.Demand
import HbmSim.Controller.Step
import HbmSim.Controller.Sound
import HbmSim.Controller.Effects
import HbmSim.Controller.DriveEffects
import HbmSim.Controller.Admission
import HbmSim.Controller.Frame
import HbmSim.Lib.Ghost
import HbmSim.System.Moves
import HbmSim.System.Wakeups
import HbmSim.System.Trace
import HbmSim.System.Checked
import HbmSim.System.Family
import HbmSim.System.Ledger
import HbmSim.System.Seats
import HbmSim.System.Dues
import HbmSim.System.Channel
import HbmSim.System.Waiting
import HbmSim.System.Scheduling
import HbmSim.System.Submission
import HbmSim.System.Completion
import HbmSim.System.Dispatch
import HbmSim.System.Actions
import HbmSim.System.Numbers
import HbmSim.System.Transfers
import HbmSim.System.Quiescence
import HbmSim.Guarantees.Completion
import HbmSim.System.Replay
import HbmSim.Guarantees.Wakeups
import HbmSim.Guarantees.Admission
import HbmSim.System.Cadence
import HbmSim.System.Record
import HbmSim.System.Obligations
import HbmSim.Guarantees.Activations
import HbmSim.System.Buses
import HbmSim.System.Spacing
import HbmSim.System.Rows
import HbmSim.System.Served
import HbmSim.System.Geometry
import HbmSim.System.BankTimes
import HbmSim.Guarantees.Precharge
import HbmSim.Guarantees.Refresh
import HbmSim.Lib.MixedRadix
import HbmSim.Address.Linear
import HbmSim.Address.Brc
import HbmSim.Lib.Tiles
import HbmSim.Address.Partition
import HbmSim.Guarantees.Mapping
import HbmSim.Guarantees.Splitting
import HbmSim.Kernel.Loop
import HbmSim.Guarantees.Events
import HbmSim.Lib.Mirror
import HbmSim.Controller.Reporting
import HbmSim.System.Reporting
import HbmSim.Guarantees.Reporting
import HbmSim.Lib.Reservations
import HbmSim.System.DataBuses
import HbmSim.Guarantees.Buses
import HbmSim.System.ExactTimes
import HbmSim.Lib.Stays
import HbmSim.Controller.Footprint
import HbmSim.System.Footprint
import HbmSim.System.Holding
import HbmSim.Guarantees.ExactTimes
import HbmSim.Kernel.SimScheduler
import HbmSim.System.Ensemble
import HbmSim.System.Tidiness
import HbmSim.System.Attachment
import HbmSim.Guarantees.Teardown
import HbmSim.Guarantees.Rows
import HbmSim.Guarantees.Atomicity
import HbmSim.Guarantees.Timing
import HbmSim.Guarantees.Planner
import HbmSim.Controller.Selection
import HbmSim.Controller.Repetition
import HbmSim.Controller.Yielding
import HbmSim.Guarantees.Scheduling
import HbmSim.System.Lineup
import HbmSim.Guarantees.Order
import HbmSim.Guarantees.IdleRefresh
import HbmSim.Lib.Numerals
import HbmSim.Cli.Parsing
import HbmSim.Guarantees.TraceLines
import HbmSim.Lib.BitFields
import HbmSim.Validation.Addresses
import HbmSim.Guarantees.Addresses
import HbmSim.Guarantees.Choosing
import HbmSim.Guarantees.Discharge
import HbmSim.Lib.Sums
import HbmSim.System.Descent
import HbmSim.System.Driving
import HbmSim.System.Tempo
import HbmSim.System.Remaining
import HbmSim.System.Draining
import HbmSim.System.Answers
import HbmSim.System.Placement
import HbmSim.Guarantees.Coalescing
import HbmSim.System.Provenance
import HbmSim.System.Stages
import HbmSim.Guarantees.Latency
import HbmSim.System.Classes
import HbmSim.Guarantees.Classes
import HbmSim.System.Counting
import HbmSim.System.Conservation
import HbmSim.Guarantees.Conservation
import HbmSim.System.Spending
import HbmSim.System.Upkeep
import HbmSim.System.Counters
import HbmSim.System.Running
import HbmSim.Guarantees.Progress
import HbmSim.Lib.Iteration
import HbmSim.System.Totals
import HbmSim.System.Acceptance
import HbmSim.Cli.Replay
import HbmSim.Guarantees.Replay
import HbmSim.System.Ordering
import HbmSim.Guarantees.Legality
import HbmSim.Validation.Traces
import HbmSim.Guarantees.Traces
import HbmSim.System.Transport
import HbmSim.Guarantees.Bandwidth
import HbmSim.Guarantees.Starvation
import HbmSim.System.Budget
import HbmSim.Guarantees.Budget
import HbmSim.Guarantees.Management
import HbmSim.System.Refreshing
import HbmSim.Guarantees.Endurance
import HbmSim.Lib.Lockstep
import HbmSim.Controller.Arrival
import HbmSim.System.Pumping
import HbmSim.System.Fitting
