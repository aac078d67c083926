import HbmSim.Controller.Policy
import HbmSim.Stats
import HbmSim.Lib.Exits

/-!
The channel controller (`hbm_controller.h`, `hbm_controller.cpp`).

A controller's members are the structure `HbmController`; what the constructor
fixes for good (its configuration and the address mapper) is a parameter of the
functions instead. Member functions run in `ControllerM`: they read and write the
controller and the shared statistics and may throw, and a throw keeps the writes
made before it.

Seven fields of `HbmController` have no counterpart in the source. They record what
the controller did and nothing reads them back: the commands it recorded, the data
transfers it reserved, the due instants it raised and the banks they went to, how
many of them found their flag still set, the instants it added the refresh interval
to, and whether a sum of two times ever exceeded 64 bits.
-/

namespace HbmSim

open HbmSim.Lib

/-- One logical requester of a transfer. -/
structure LogicalAccess where
  parentId : Nat := 0
  op : HbmOp := .read
  address : HbmAddress := {}
  sizeBytes : Nat := 0
  arrivalTime : Nat := 0
  client : Nat := 0
  sequence : Nat := 0
  metadata : RequestMetadata := {}
  byteAddress : Nat := 0
deriving DecidableEq, Repr

/-- A queued access with its progress through the controller. -/
structure HbmAccess extends LogicalAccess where
  accessClass : HbmAccessClass := .rowClosed
  activated : Bool := false
  firstCommandIssued : Bool := false
  starvationReported : Bool := false
  enqueuedAt : Nat := 0
  firstCommandAt : Nat := 0
  commandEligible : Bool := false
  commandEligibleSince : Nat := 0
  latencyBreakdown : HbmLatencyBreakdown := {}
deriving DecidableEq, Repr

structure LogicalCompletion extends LogicalAccess where
  accessClass : HbmAccessClass := .rowClosed
  latencyBreakdown : HbmLatencyBreakdown := {}
deriving DecidableEq, Repr

structure HbmControllerConfig where
  channel : Nat := 0
  firstFlatBank : Nat := 0
  bankCount : Nat := 0
  pseudoChannelCount : Nat := 0
  timing : HbmTimingSpec := {}
  standard : Option HbmStandard := none
  dataRate : BandwidthRate := {}
  scheduler : SchedulerKind := .frFcfs
  rowPolicy : RowPolicy := .open
  refreshPolicy : RefreshPolicy := .allBank
  writeDrainHighWatermark : Nat := 16
  writeDrainLowWatermark : Nat := 4
  readQueueCapacity : Nat := 0
  writeQueueCapacity : Nat := 0
  enableRequestMerging : Bool := false
  starvationThreshold : Nat := 0
  refreshInterval : Nat := 0
  enableRfm : Bool := false
  detailedStats : Bool := true
  rfmActivationThreshold : Nat := 0
deriving DecidableEq, Repr

structure PhysicalAccess where
  op : HbmOp
  address : HbmAddress
  bytes : Nat
  command : HbmCommand
  issuedAt : Nat
  completionTime : Nat := 0
  completions : List LogicalCompletion := []
deriving DecidableEq, Repr

structure HbmControllerStep where
  wakeAt : Option Nat := none
  issuedAccess : Option PhysicalAccess := none
deriving DecidableEq, Repr

structure Candidate where
  isWrite : Bool := false
  index : Nat := 0
  command : HbmCommand := .act
  readyAt : Nat := 0
  priority : Nat := 0
deriving DecidableEq, Repr

structure MaintenanceCandidate where
  requested : HbmCommand := .refreshPerBank
  command : HbmCommand := .refreshPerBank
  localBank : Nat := 0
  readyAt : Nat := 0
  finalCommand : Bool := true
deriving DecidableEq, Repr

/-- One command a controller recorded: what `record_command` was called with, and
the sequence number of the access it was issued for (none for maintenance). -/
structure RecordedCommand where
  command : HbmCommand
  address : HbmAddress
  bank : Nat
  issuedAt : Nat
  sequence : Option Nat
deriving DecidableEq, Repr

/-- One reservation of a pseudo-channel's data bus. -/
structure DataTransfer where
  isWrite : Bool
  pseudoChannel : Nat
  bytes : Nat
  issuedAt : Nat
  dataStart : Nat
  completion : Nat
deriving DecidableEq, Repr

structure HbmController where
  readQueue : List HbmAccess := []
  writeQueue : List HbmAccess := []
  banks : List HbmBankState := []
  history : CommandHistory := fun _ _ => []
  dataBusReadyAt : List Nat := []
  unifiedCommandBusReadyAt : Nat := 0
  rowCommandBusReadyAt : Nat := 0
  columnCommandBusReadyAt : Nat := 0
  refreshBusyUntil : Nat := 0
  refreshStallAccountedUntil : Nat := 0
  wakeupAt : Option Nat := none
  refreshDueAt : Option Nat := none
  nextRefreshDue : Option Nat := none
  drainingWrites : Bool := false
  refreshPending : Bool := false
  outstandingAccesses : Nat := 0
  nextPerBankRefresh : Nat := 0
  reservedReads : Nat := 0
  reservedWrites : Nat := 0
  /-- The commands recorded so far, newest first. -/
  recorded : List RecordedCommand := []
  /-- The data transfers reserved so far, newest first. -/
  transfers : List DataTransfer := []
  /-- The due instants whose refresh has been raised so far, newest first. -/
  raised : List Nat := []
  /-- The banks the per-bank obligations went to so far, newest first. -/
  raisedBanks : List Nat := []
  /-- How many obligations were raised onto a flag that was still set. -/
  overlapped : Nat := 0
  /-- The instants the refresh interval was added to so far, newest first. -/
  dues : List Nat := []
  /-- Some sum of two times has exceeded 64 bits. -/
  wrapped : Bool := false

/-- The constructor. -/
def HbmController.initial (config : HbmControllerConfig) : HbmController :=
  { banks := List.replicate config.bankCount {}
    dataBusReadyAt := List.replicate config.pseudoChannelCount 0 }

/-- A controller together with the statistics object it refers to. -/
structure ControllerState where
  ctl : HbmController
  stats : HbmStats

abbrev ControllerM := EStateM HbmError ControllerState

def ControllerState.modifyCtl (s : ControllerState) (f : HbmController → HbmController) :
    ControllerState := { s with ctl := f s.ctl }

/-- Two times are about to be added on `std::uint64_t`. -/
def HbmController.noteSum (c : HbmController) (a b : Nat) : HbmController :=
  { c with wrapped := c.wrapped || decide (2 ^ 64 ≤ a + b) }

def HbmController.queue (c : HbmController) (isWrite : Bool) : List HbmAccess :=
  if isWrite then c.writeQueue else c.readQueue

def HbmController.setQueue (c : HbmController) (isWrite : Bool) (q : List HbmAccess) :
    HbmController :=
  if isWrite then { c with writeQueue := q } else { c with readQueue := q }

def HbmController.setBanks (c : HbmController) (banks : List HbmBankState) : HbmController :=
  { c with banks := banks }

/-- Some bank of the channel has an open row. -/
def HbmController.anyOpen (c : HbmController) : Bool :=
  c.banks.any fun bank => bank.openRow.isSome

/-- `vector::at`. -/
def vectorAt {α : Type} (xs : List α) (index : Nat) : Except HbmError α :=
  match xs[index]? with
  | some x => .ok x
  | none => .error (.outOfRange "vector::at")

def hasCapacity (capacity used requested : Nat) : Bool :=
  capacity == 0 || (decide (used ≤ capacity) && decide (requested ≤ capacity - used))

/-- The commands `issue_maintenance` accepts as a final command. -/
def HbmCommand.isMaintenance : HbmCommand → Bool
  | .refreshAllBank | .refreshPerBank | .rfmAllBank | .rfmPerBank => true
  | _ => false

def maintenanceDuration (command : HbmCommand) (t : HbmTimingSpec) : Nat :=
  match command with
  | .refreshAllBank => t.tRfc
  | .refreshPerBank => t.tRfcpb
  | .rfmAllBank => t.tRfmab
  | .rfmPerBank => t.tRfmpb
  | _ => 0

namespace HbmControllerConfig

/-- What `config_.standard && row_policy_->use_auto_precharge()` evaluates to. -/
def autoPrecharge (config : HbmControllerConfig) : Bool :=
  config.standard.isSome && config.rowPolicy.useAutoPrecharge

/-- The bus a command occupies: unified without a standard. -/
def commandBus (config : HbmControllerConfig) (command : HbmCommand) : CommandBus :=
  match config.standard with
  | none => .unified
  | some s => s.commandBus command

/-- How long a command occupies its bus. -/
def commandDuration (config : HbmControllerConfig) (command : HbmCommand) : Nat :=
  match config.standard with
  | none => config.timing.tCommand
  | some s => s.commandDuration command

/-- The coalescer's `can_merge`. -/
def canMerge (config : HbmControllerConfig) (physical logical : LogicalAccess) : Bool :=
  config.enableRequestMerging &&
    (physical.op == .read && logical.op == .read &&
      physical.byteAddress == logical.byteAddress &&
      physical.address.flatBank == logical.address.flatBank &&
      physical.address.row == logical.address.row &&
      physical.address.column == logical.address.column &&
      physical.sizeBytes == logical.sizeBytes &&
      physical.metadata.orderingDomain == logical.metadata.orderingDomain)

end HbmControllerConfig

namespace HbmController

variable (config : HbmControllerConfig) (mapper : HbmAddressMapper)

/-! ### Queue capacity -/

def canReserve (c : HbmController) (reads writes : Nat) : Bool :=
  hasCapacity config.readQueueCapacity (c.readQueue.length + c.reservedReads) reads &&
    hasCapacity config.writeQueueCapacity (c.writeQueue.length + c.reservedWrites) writes

def availableSlots (capacity used : Nat) : Nat :=
  if capacity = 0 then 2 ^ 64 - 1 else if used ≥ capacity then 0 else capacity - used

def availableReadSlots (c : HbmController) : Nat :=
  availableSlots config.readQueueCapacity (c.readQueue.length + c.reservedReads)

def availableWriteSlots (c : HbmController) : Nat :=
  availableSlots config.writeQueueCapacity (c.writeQueue.length + c.reservedWrites)

def reserve (reads writes : Nat) : ControllerM Unit := do
  if !(← get).ctl.canReserve config reads writes then
    throw (.logicError "controller reservation overflow")
  modify fun s => s.modifyCtl fun c =>
    { c with
      reservedReads := c.reservedReads + reads
      reservedWrites := c.reservedWrites + writes }

/-! ### Wakeups and refresh events -/

/-- `mark_wakeup`: whether a new wake event is needed, and the members after it. -/
def markWakeup (c : HbmController) (at_ : Nat) : Bool × HbmController :=
  match c.wakeupAt with
  | some t => if t ≤ at_ then (false, c) else (true, { c with wakeupAt := some at_ })
  | none => (true, { c with wakeupAt := some at_ })

def clearWakeup (c : HbmController) (at_ : Nat) : HbmController :=
  if c.wakeupAt = some at_ then { c with wakeupAt := none } else c

def claimRefreshEvent (c : HbmController) : Option Nat × HbmController :=
  match c.nextRefreshDue with
  | none => (none, c)
  | some due =>
      if c.refreshDueAt = some due then (none, c)
      else (some due, { c with refreshDueAt := some due })

/-! ### Timing queries -/

def localBank (flatBank : Nat) : Except HbmError Nat :=
  if flatBank < config.firstFlatBank ∨
      flatBank ≥ u32 (config.firstFlatBank + config.bankCount) then
    .error (.outOfRange "address does not belong to controller")
  else .ok (flatBank - config.firstFlatBank)

def commandBusReady (c : HbmController) (command : HbmCommand) : Nat :=
  match config.commandBus command with
  | .unified => c.unifiedCommandBusReadyAt
  | .row => c.rowCommandBusReadyAt
  | .column => c.columnCommandBusReadyAt

/-- One round of the loop of `earliest_all_bank`. -/
def bankStep (c : HbmController) (command : HbmCommand) (now ready index : Nat) :
    Except HbmError Nat := do
  let address ← mapper.bankAddress (u32 (config.firstFlatBank + index))
  let bankReady ←
    HbmTimingEngine.earliestIssue config.timing.constraints c.history command address now
  return max ready bankReady

def earliestAllBank (c : HbmController) (command : HbmCommand) (now : Nat) :
    Except HbmError Nat :=
  (List.range c.banks.length).foldlM (bankStep config mapper c command now) now

/-- Whether `earliest_command` must check every bank of the channel. -/
def checksAllBanks (command : HbmCommand) : Except HbmError Bool :=
  match config.standard with
  | none => .ok false
  | some s =>
      match s.transitionFor command with
      | .ok t => .ok (t.scope == .channel)
      | .error e => .error e

def earliestCommand (c : HbmController) (command : HbmCommand) (address : HbmAddress)
    (now : Nat) : Except HbmError Nat := do
  let timingReady ←
    if ← checksAllBanks config command then earliestAllBank config mapper c command now
    else HbmTimingEngine.earliestIssue config.timing.constraints c.history command address now
  return max timingReady (c.commandBusReady config command)

/-! ### Bank transitions -/

/-- The bank vector after `apply_transition`. -/
def transitionBanks (command : HbmCommand) (targetRow bankIndex : Nat)
    (banks : List HbmBankState) : Except HbmError (List HbmBankState) :=
  match config.standard with
  | none =>
      match command with
      | .preAll | .refreshAllBank | .rfmAllBank =>
          .ok (banks.map fun bank => { bank with openRow := none })
      | _ =>
          match banks[bankIndex]? with
          | none => .error (.outOfRange "vector::at")
          | some _ =>
              match command with
              | .act => .ok (banks.modify bankIndex fun b => { b with openRow := some targetRow })
              | .preBank | .refreshPerBank | .rfmPerBank =>
                  .ok (banks.modify bankIndex fun b => { b with openRow := none })
              | _ => .ok banks
  | some s =>
      match s.transitionFor command with
      | .error e => .error e
      | .ok t =>
          if t.scope = .channel then .ok (banks.map (t.transition.apply targetRow))
          else
            match banks[bankIndex]? with
            | none => .error (.outOfRange "vector::at")
            | some _ => .ok (banks.modify bankIndex (t.transition.apply targetRow))

def applyTransition (command : HbmCommand) (targetRow bankIndex : Nat) : ControllerM Unit := do
  let banks ← ofExcept (transitionBanks config command targetRow bankIndex (← get).ctl.banks)
  modify fun s => s.modifyCtl (·.setBanks banks)

/-! ### Recording commands -/

/-- The members `record_command` writes. -/
def stampCommand (c : HbmController) (r : RecordedCommand) : HbmController :=
  let bus := config.commandBus r.command
  let duration := config.commandDuration r.command
  let ready := SimTime.add r.issuedAt duration
  { c.noteSum r.issuedAt duration with
    history := HbmTimingEngine.record c.history r.command r.address r.issuedAt
    unifiedCommandBusReadyAt := if bus = .unified then ready else c.unifiedCommandBusReadyAt
    rowCommandBusReadyAt := if bus = .row then ready else c.rowCommandBusReadyAt
    columnCommandBusReadyAt := if bus = .column then ready else c.columnCommandBusReadyAt
    recorded := r :: c.recorded }

def ResourceStats.addCommand (r : ResourceStats) (duration : Nat) : ResourceStats :=
  { busyTime := r.busyTime + duration, issuedCommands := r.issuedCommands + 1 }

/-- The statistics `record_command` writes. -/
def countCommand (stats : HbmStats) (r : RecordedCommand) : HbmStats :=
  let duration := config.commandDuration r.command
  let bus := config.commandBus r.command
  let stats := stats.modifyChannel config.channel fun channel =>
    { channel with
      commandBus := ResourceStats.addCommand channel.commandBus duration
      rowCommandBus :=
        if bus = .row then ResourceStats.addCommand channel.rowCommandBus duration
        else channel.rowCommandBus
      columnCommandBus :=
        if bus = .column then ResourceStats.addCommand channel.columnCommandBus duration
        else channel.columnCommandBus
      banks :=
        if config.detailedStats then
          channel.banks.modify r.bank fun b => { b with issuedCommands := b.issuedCommands + 1 }
        else channel.banks }
  let stats := { stats with issuedCommands := stats.issuedCommands + 1 }
  match r.command with
  | .act => { stats with actCommands := stats.actCommands + 1 }
  | .preBank | .preAll => { stats with preCommands := stats.preCommands + 1 }
  | .read | .readAuto => { stats with readCommands := stats.readCommands + 1 }
  | .write | .writeAuto => { stats with writeCommands := stats.writeCommands + 1 }
  | _ => stats

/-- What `record_command` writes to its channel's record. -/
def busCommand (r : RecordedCommand) (channel : ChannelStats) : ChannelStats :=
  let duration := config.commandDuration r.command
  let bus := config.commandBus r.command
  { channel with
    commandBus := ResourceStats.addCommand channel.commandBus duration
    rowCommandBus :=
      if bus = .row then ResourceStats.addCommand channel.rowCommandBus duration
      else channel.rowCommandBus
    columnCommandBus :=
      if bus = .column then ResourceStats.addCommand channel.columnCommandBus duration
      else channel.columnCommandBus
    banks :=
      if config.detailedStats then
        channel.banks.modify r.bank fun b => { b with issuedCommands := b.issuedCommands + 1 }
      else channel.banks }

theorem countCommand_channels (stats : HbmStats) (r : RecordedCommand) :
    (countCommand config stats r).channels =
      (stats.modifyChannel config.channel (busCommand config r)).channels := by
  obtain ⟨k⟩ := r
  cases k <;> rfl

/-- The standard, if there is one, declares the command. -/
def supported (command : HbmCommand) : Bool :=
  match config.standard with
  | none => true
  | some s => s.supports command

def recordCommand (r : RecordedCommand) : ControllerM Unit := do
  if !supported config r.command then
    throw (.logicError "controller attempted a command unsupported by standard")
  modify fun s => ⟨s.ctl.stampCommand config r, countCommand config s.stats r⟩

/-! ### Maintenance -/

/-- The maintenance a bank waits for: RFM before refresh. -/
def requestedMaintenance (bank : HbmBankState) : Option HbmCommand :=
  if bank.rfmPending then some .rfmPerBank
  else if bank.refreshPending then some .refreshPerBank
  else none

/-- The candidate of one bank that waits for maintenance. -/
def bankCandidate (c : HbmController) (now : Nat) (anyOpen : Bool) (index : Nat)
    (bank : HbmBankState) (requested : HbmCommand) : Except HbmError MaintenanceCandidate := do
  let address ← mapper.bankAddress (u32 (config.firstFlatBank + index))
  let decision ← HbmCommandPlanner.nextDecision config.standard requested 0 bank anyOpen
  let ready ← earliestCommand config mapper c decision.command address now
  return ⟨requested, decision.command, index, ready, decision.finalCommand⟩

/-- The better of two candidates: the earlier one, or the lower bank. -/
def earlierCandidate (earliest : Option MaintenanceCandidate) (candidate : MaintenanceCandidate) :
    MaintenanceCandidate :=
  match earliest with
  | none => candidate
  | some best =>
      if candidate.readyAt < best.readyAt ∨
          (candidate.readyAt = best.readyAt ∧ candidate.localBank < best.localBank) then candidate
      else best

/-- The per-bank loop of `choose_maintenance`, over the banks from `index` on. -/
def chooseBankMaintenance (c : HbmController) (now : Nat) (anyOpen : Bool) :
    Nat → List HbmBankState → Option MaintenanceCandidate →
      Except HbmError (Option MaintenanceCandidate)
  | _, [], earliest => .ok earliest
  | index, bank :: rest, earliest =>
      match requestedMaintenance bank with
      | none => chooseBankMaintenance c now anyOpen (index + 1) rest earliest
      | some requested => do
          let candidate ← bankCandidate config mapper c now anyOpen index bank requested
          chooseBankMaintenance c now anyOpen (index + 1) rest
            (some (earlierCandidate earliest candidate))

def chooseMaintenance (c : HbmController) (now : Nat) :
    Except HbmError (Option MaintenanceCandidate) :=
  if c.refreshPending then
    match c.banks with
    | [] => .error .undefined
    | front :: _ => do
        let requested := config.refreshPolicy.allBankCommand
        let decision ←
          HbmCommandPlanner.nextDecision config.standard requested 0 front c.anyOpen
        let address ← mapper.bankAddress config.firstFlatBank
        let ready ← earliestCommand config mapper c decision.command address now
        return some ⟨requested, decision.command, 0, ready, decision.finalCommand⟩
  else chooseBankMaintenance config mapper c now c.anyOpen 0 c.banks none

/-- The members a final maintenance command settles. -/
def settleMaintenance (c : HbmController) (requested : HbmCommand) (bank : Nat) :
    HbmController :=
  match requested with
  | .refreshAllBank =>
      { c with
        refreshPending := false
        banks := c.banks.map fun b => { b with refreshPending := false, activationCount := 0 } }
  | .refreshPerBank =>
      { c with
        banks := c.banks.modify bank fun b =>
          { b with refreshPending := false, activationCount := 0 } }
  | .rfmAllBank =>
      { c with
        refreshPending := false
        banks := c.banks.map fun b => { b with rfmPending := false, activationCount := 0 } }
  | .rfmPerBank =>
      { c with
        banks := c.banks.modify bank fun b =>
          { b with rfmPending := false, activationCount := 0 } }
  | _ => c

/-- The counters a final maintenance command advances. -/
def countMaintenance (stats : HbmStats) (requested : HbmCommand) : HbmStats :=
  match requested with
  | .refreshAllBank =>
      stats.modifyChannel config.channel fun ch => { ch with refreshes := ch.refreshes + 1 }
  | .refreshPerBank =>
      stats.modifyChannel config.channel fun ch =>
        { ch with perBankRefreshes := ch.perBankRefreshes + 1 }
  | .rfmAllBank | .rfmPerBank =>
      { stats.modifyChannel config.channel fun ch => { ch with rfmEvents := ch.rfmEvents + 1 } with
        rfmEvents := stats.rfmEvents + 1 }
  | _ => stats

/-- `refresh_busy_until_ = now + maintenance_duration(...)`. -/
def blockUntil (c : HbmController) (now duration : Nat) : HbmController :=
  { c.noteSum now duration with refreshBusyUntil := SimTime.add now duration }

def issueMaintenance (candidate : MaintenanceCandidate) (now : Nat) : ControllerM Unit := do
  let address ← ofExcept (mapper.bankAddress (u32 (config.firstFlatBank + candidate.localBank)))
  recordCommand config ⟨candidate.command, address, candidate.localBank, now, none⟩
  applyTransition config candidate.command 0 candidate.localBank
  if candidate.finalCommand then
    if !candidate.requested.isMaintenance then
      throw (.logicError "invalid maintenance final command")
    modify fun s =>
      ⟨(s.ctl.settleMaintenance candidate.requested candidate.localBank).blockUntil now
          (maintenanceDuration candidate.requested config.timing),
        countMaintenance config s.stats candidate.requested⟩

end HbmController

end HbmSim
