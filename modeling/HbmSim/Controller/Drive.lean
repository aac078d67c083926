import HbmSim.Controller.Controller

/-!
The controller's entry points: admission, refresh events, `drive` and access
completion (`hbm_controller.cpp`), over the pieces of
`HbmSim.Controller.Controller`.
-/

namespace HbmSim

open HbmSim.Lib

namespace HbmController

variable (config : HbmControllerConfig) (mapper : HbmAddressMapper)

/-! ### Refresh -/

/-- The flag the next obligation sets is set already. -/
def stillPending (c : HbmController) : Bool :=
  if config.refreshPolicy.usesAllBankRefresh then c.refreshPending
  else (c.banks[c.nextPerBankRefresh]?.map (·.refreshPending)).getD false

/-- Raise the refresh that is due at `due`: the all-bank flag, or the flag of the
next bank in rotation. -/
def raiseRefresh (due : Nat) : ControllerM Unit := do
  let c := (← get).ctl
  if config.refreshPolicy.usesAllBankRefresh then
    modify fun s => s.modifyCtl fun c =>
      { c with
        refreshPending := true
        raised := due :: c.raised
        overlapped := c.overlapped + (c.stillPending config).toNat }
  else
    let _ ← ofExcept (vectorAt c.banks c.nextPerBankRefresh)
    modify fun s => s.modifyCtl fun c =>
      { c with
        banks := c.banks.modify c.nextPerBankRefresh fun b => { b with refreshPending := true }
        nextPerBankRefresh := (c.nextPerBankRefresh + 1) % c.banks.length
        raisedBanks := c.nextPerBankRefresh :: c.raisedBanks
        raised := due :: c.raised
        overlapped := c.overlapped + (c.stillPending config).toNat }

/-- The condition of the `apply_idle_refresh` loop. -/
def refreshOwed (c : HbmController) : Bool :=
  c.refreshPending || c.banks.any fun bank => bank.refreshPending

/-- What a bank can ask of the `apply_idle_refresh` loop: to be closed, refreshed
and relieved of its RFM. -/
def bankWork (b : HbmBankState) : Nat :=
  b.openRow.isSome.toNat + b.refreshPending.toNat + b.rfmPending.toNat

/-- The rounds the `apply_idle_refresh` loop can take from `c`: each closes an
open bank or settles a pending flag. -/
def maintenanceWork (c : HbmController) : Nat :=
  c.refreshPending.toNat + (c.banks.map bankWork).sum

/-- The `apply_idle_refresh` loop, for at most `rounds` rounds. -/
def idleRefreshLoop : Nat → Nat → ControllerM Unit
  | rounds, cursor => do
      let c := (← get).ctl
      if !c.refreshOwed then return ()
      match rounds with
      | 0 => throw .diverges
      | rounds + 1 =>
          match ← ofExcept (chooseMaintenance config mapper c cursor) with
          | none => throw (.logicError "refresh pending without maintenance candidate")
          | some candidate =>
              let cursor := max cursor candidate.readyAt
              issueMaintenance config mapper candidate cursor
              let c := (← get).ctl
              idleRefreshLoop rounds (max cursor (c.commandBusReady config candidate.command))

def applyIdleRefresh (due : Nat) : ControllerM Unit := do
  raiseRefresh config due
  let c := (← get).ctl
  idleRefreshLoop config mapper c.maintenanceWork (max due c.refreshBusyUntil)

/-- The catch-up loop of `prepare_refresh_for_arrival`. The due instant walks
through the 64-bit times by a fixed interval, so a loop that has not ended after
`2 ^ 64` rounds never ends. -/
def catchUpRefresh : Nat → Nat → ControllerM Unit
  | rounds, now => do
      match (← get).ctl.nextRefreshDue with
      | none => return ()
      | some due =>
          if due ≤ now then
            match rounds with
            | 0 => throw .diverges
            | rounds + 1 =>
                applyIdleRefresh config mapper due
                modify fun s => s.modifyCtl fun c =>
                  { c.noteSum due config.refreshInterval with
                    nextRefreshDue := some (SimTime.add due config.refreshInterval)
                    dues := due :: c.dues }
                catchUpRefresh rounds now

/-- Set the first due instant, at the channel's first admission. -/
def startRefresh (c : HbmController) (now : Nat) : HbmController :=
  match c.nextRefreshDue with
  | some _ => c
  | none =>
      { c.noteSum now config.refreshInterval with
        nextRefreshDue := some (SimTime.add now config.refreshInterval)
        dues := now :: c.dues }

def prepareRefreshForArrival (now : Nat) : ControllerM Unit := do
  if config.refreshInterval ≠ 0 then
    modify fun s => s.modifyCtl fun c => c.startRefresh config now
    catchUpRefresh config mapper (2 ^ 64) now

def handleRefreshEvent (now : Nat) : ControllerM Unit := do
  let c := (← get).ctl
  if c.refreshDueAt = some now then
    modify fun s => s.modifyCtl fun c => { c with refreshDueAt := none }
    if c.nextRefreshDue = some now then
      modify fun s => s.modifyCtl fun c =>
        { c.noteSum now config.refreshInterval with
          nextRefreshDue := some (SimTime.add now config.refreshInterval)
          dues := now :: c.dues }
      if c.outstandingAccesses = 0 then applyIdleRefresh config mapper now
      else raiseRefresh config now

/-! ### Admission and completion -/

/-- Take a reserved slot and push the access. -/
def pushReserved (access : HbmAccess) : ControllerM Unit := do
  let c := (← get).ctl
  if access.op = .read then
    if c.reservedReads = 0 then throw (.logicError "missing read reservation")
    modify fun s => s.modifyCtl fun c =>
      { c with
        reservedReads := c.reservedReads - 1
        readQueue := c.readQueue ++ [access]
        outstandingAccesses := c.outstandingAccesses + 1 }
  else
    if c.reservedWrites = 0 then throw (.logicError "missing write reservation")
    modify fun s => s.modifyCtl fun c =>
      { c with
        reservedWrites := c.reservedWrites - 1
        writeQueue := c.writeQueue ++ [access]
        outstandingAccesses := c.outstandingAccesses + 1 }
  modify fun s =>
    { s with stats := s.stats.modifyQueue config.channel fun q =>
        { q with
          maxReadDepth := max q.maxReadDepth s.ctl.readQueue.length
          maxWriteDepth := max q.maxWriteDepth s.ctl.writeQueue.length } }

def admitReserved (access : HbmAccess) (now : Nat) : ControllerM Unit := do
  prepareRefreshForArrival config mapper now
  -- Queue wait includes time spent outside a bounded controller queue.
  pushReserved config { access with enqueuedAt := access.arrivalTime }

/-- The class counter a completion advances. -/
def countClass (stats : HbmStats) (accessClass : HbmAccessClass) : HbmStats :=
  match accessClass with
  | .rowHit => { stats with rowHits := stats.rowHits + 1 }
  | .rowClosed => { stats with rowClosed := stats.rowClosed + 1 }
  | .rowConflict => { stats with rowConflicts := stats.rowConflicts + 1 }

def completeAccess (access : LogicalCompletion) : ControllerM Unit := do
  if (← get).ctl.outstandingAccesses = 0 then
    throw (.logicError "access completion underflow")
  modify fun s =>
    ⟨{ s.ctl with outstandingAccesses := s.ctl.outstandingAccesses - 1 },
      countClass (s.stats.modifyChannel config.channel fun ch =>
        { ch with completedBytes := ch.completedBytes + access.sizeBytes }) access.accessClass⟩

/-! ### Choosing a command -/

/-- The command the planner wants next for a queued access. -/
def plannedCommand (c : HbmController) (access : HbmAccess) : Except HbmError HbmCommand := do
  let index ← localBank config access.address.flatBank
  let bank ← vectorAt c.banks index
  HbmCommandPlanner.next config.standard access.op access.address.row bank config.autoPrecharge

/-- The eligibility marks of an access whose next command can issue at `ready`. -/
def markEligible (now ready : Nat) (access : HbmAccess) : HbmAccess :=
  if ready ≤ now ∧ access.commandEligible = false then
    { access with commandEligible := true, commandEligibleSince := now }
  else if ready > now then { access with commandEligible := false }
  else access

/-- One round of the candidate loop of `choose_next`: the access with its
eligibility updated, and its candidate. -/
def candidateFor (c : HbmController) (isWrite : Bool) (now index : Nat) (access : HbmAccess) :
    Except HbmError (HbmAccess × SchedulerCandidate) := do
  let command ← plannedCommand config c access
  let ready ← earliestCommand config mapper c command access.address now
  return (markEligible now ready access,
    { queueIndex := index
      isWrite := isWrite
      command := toDramCommand command
      readyAt := ready
      sequence := access.sequence
      rowHit := command.isData && !access.activated
      dataCommand := command.isData
      requestPriority := access.metadata.priority })

/-- The candidate loop of `choose_next` over a queue: the queue with eligibility
updated up to the first throw, and the candidates. -/
def scanQueue (c : HbmController) (isWrite : Bool) (now : Nat) :
    Nat → List HbmAccess → List HbmAccess × Except HbmError (List SchedulerCandidate)
  | _, [] => ([], .ok [])
  | index, access :: rest =>
      match candidateFor config mapper c isWrite now index access with
      | .error e => (access :: rest, .error e)
      | .ok (access, candidate) =>
          let (rest, candidates) := scanQueue c isWrite now (index + 1) rest
          (access :: rest, (candidate :: ·) <$> candidates)

/-- The `find_waiting` loop: the earliest data command any queued access of the
bank could issue into the open row, older first; a choice carries its access's
sequence number. -/
def findWaiting (c : HbmController) (now targetBank : Nat) (isWrite : Bool) :
    Nat → List HbmAccess → Option (Candidate × Nat) → Except HbmError (Option (Candidate × Nat))
  | _, [], waiting => .ok waiting
  | index, access :: rest, waiting =>
      if access.address.flatBank ≠ targetBank then
        findWaiting c now targetBank isWrite (index + 1) rest waiting
      else do
        let command ← plannedCommand config c access
        if !command.isData then findWaiting c now targetBank isWrite (index + 1) rest waiting
        else
          let ready ← earliestCommand config mapper c command access.address now
          let current : Candidate × Nat := (⟨isWrite, index, command, ready, 2⟩, access.sequence)
          let waiting :=
            match waiting with
            | none => current
            | some best =>
                if ready < best.1.readyAt ∨ (ready = best.1.readyAt ∧ access.sequence < best.2)
                then current else best
          findWaiting c now targetBank isWrite (index + 1) rest (some waiting)

/-- The queue `choose_next` serves: the drained side's, or the other when empty. -/
def activeSide (c : HbmController) : Bool :=
  if (c.queue c.drainingWrites).isEmpty then !c.drainingWrites else c.drainingWrites

/-- A ready precharge gives way to a data command waiting for the row it would
close. -/
def yieldPrecharge (c : HbmController) (now : Nat) (candidate : Candidate) :
    Except HbmError Candidate :=
  if candidate.readyAt > now ∨ candidate.command ≠ .preBank then .ok candidate
  else
    match (c.queue candidate.isWrite)[candidate.index]? with
    | none => .error .undefined
    | some access => do
        let target := access.address.flatBank
        let waiting ← findWaiting config mapper c now target false 0 c.readQueue none
        let waiting ← findWaiting config mapper c now target true 0 c.writeQueue waiting
        return match waiting with
          | some best => best.1
          | none => candidate

def chooseNext (now : Nat) : ControllerM (Option Candidate) := do
  let c := (← get).ctl
  let isWrite := c.activeSide
  let (queue, candidates) := scanQueue config mapper c isWrite now 0 (c.queue isWrite)
  modify fun s => s.modifyCtl (·.setQueue isWrite queue)
  match config.scheduler.choose (← ofExcept candidates) now with
  | none => return none
  | some selected =>
      let candidate : Candidate :=
        ⟨selected.isWrite, selected.queueIndex, toHbmCommand selected.command, selected.readyAt,
          if selected.rowHit then 3 else if selected.dataCommand then 2 else 1⟩
      let c := (← get).ctl
      return some (← ofExcept (yieldPrecharge config mapper c now candidate))

/-! ### Issuing a command -/

/-- The access has its first command at `now`, if it had none before. -/
def startAccess (access : HbmAccess) (now : Nat) : HbmAccess :=
  if access.firstCommandIssued then access
  else
    { access with
      firstCommandIssued := true
      firstCommandAt := now
      latencyBreakdown :=
        { access.latencyBreakdown with queueWait := SimTime.sub now access.enqueuedAt } }

/-- The queue wait `startAccess` adds to the channel's total. -/
def startWait (access : HbmAccess) (now : Nat) : Nat :=
  if access.firstCommandIssued then 0 else SimTime.sub now access.enqueuedAt

/-- The times of one data transfer: its command issues at `issuedAt`, the bus is
free from `busReady` on. -/
structure DataSlot where
  issuedAt : Nat
  casLatency : Nat
  busReady : Nat
  duration : Nat
deriving DecidableEq, Repr

def DataSlot.dataReady (slot : DataSlot) : Nat := SimTime.add slot.issuedAt slot.casLatency

def DataSlot.dataStart (slot : DataSlot) : Nat := max slot.dataReady slot.busReady

def DataSlot.completion (slot : DataSlot) : Nat := SimTime.add slot.dataStart slot.duration

/-- The stages of an access served by a transfer. -/
def finishAccess (access : HbmAccess) (slot : DataSlot) : HbmAccess :=
  { access with
    latencyBreakdown :=
      { access.latencyBreakdown with
        commandPhase := SimTime.sub slot.issuedAt access.firstCommandAt
        dataReady := slot.casLatency
        dataBusWait := SimTime.sub slot.dataStart slot.dataReady
        dataService := slot.duration } }

/-- A queued write of the read's ordering domain overlaps its byte range. -/
def overlapsWrite (read write : LogicalAccess) : Bool :=
  write.metadata.orderingDomain == read.metadata.orderingDomain &&
    (if write.byteAddress ≤ read.byteAddress then
      decide (read.byteAddress - write.byteAddress < write.sizeBytes)
    else decide (write.byteAddress - read.byteAddress < read.sizeBytes))

/-- The followers a read leader takes along, and what stays queued. -/
def mergeFollowers (c : HbmController) (leader : HbmAccess) (queue : List HbmAccess) :
    List HbmAccess × List HbmAccess :=
  if c.writeQueue.any fun write => overlapsWrite leader.toLogicalAccess write.toLogicalAccess then
    ([], queue)
  else
    ((queue.filter fun a => config.canMerge leader.toLogicalAccess a.toLogicalAccess).map
        fun a => { a with accessClass := leader.accessClass },
      queue.filter fun a => !config.canMerge leader.toLogicalAccess a.toLogicalAccess)

/-- Remove the access at `index` and, for a read, its followers: what is removed,
leader first, and the controller without it. -/
def takeAccesses (c : HbmController) (isWrite : Bool) (index : Nat) (leader : HbmAccess) :
    List HbmAccess × HbmController :=
  let queue := (c.queue isWrite).eraseIdx index
  if isWrite then ([leader], c.setQueue isWrite queue)
  else
    let (followers, rest) := mergeFollowers config c leader queue
    (leader :: followers, c.setQueue isWrite rest)

/-- CAS latency of a data command. -/
def casLatency (isWrite : Bool) : Nat :=
  if isWrite && config.timing.useExtendedHbmTiming then config.timing.tCwl else config.timing.tCl

/-- The completion an issued access ends in. -/
def completionOf (access : HbmAccess) : LogicalCompletion :=
  { access.toLogicalAccess with
    accessClass := access.accessClass
    latencyBreakdown := if config.detailedStats then access.latencyBreakdown else {} }

/-- The accesses a transfer serves, as they complete. -/
def servedAccesses (taken : List HbmAccess) (slot : DataSlot) : List HbmAccess :=
  taken.map fun a => finishAccess (startAccess a slot.issuedAt) slot

/-- The per-channel statistics of one data transfer serving `items`. -/
def countTransfer (stats : HbmStats) (items : List HbmAccess) (address : HbmAddress)
    (bankIndex : Nat) (slot : DataSlot) : HbmStats :=
  stats.modifyChannel config.channel fun ch =>
    let ch := { ch with dataBusBusyTime := ch.dataBusBusyTime + slot.duration }
    if config.detailedStats then
      let started := (items.head?.map (·.firstCommandAt)).getD slot.issuedAt
      { ch with
        pseudoChannels := ch.pseudoChannels.modify address.pseudoChannel fun p =>
          { p with busyTime := p.busyTime + slot.duration }
        banks := ch.banks.modify bankIndex fun b =>
          { b with busyTime := b.busyTime + SimTime.sub slot.completion started }
        queue :=
          { ch.queue with
            commandWaitTime := ch.queue.commandWaitTime +
              (items.map (·.latencyBreakdown.commandPhase)).sum
            arrayWaitTime := ch.queue.arrayWaitTime +
              (items.map (·.latencyBreakdown.dataReady)).sum
            dataBusWaitTime := ch.queue.dataBusWaitTime +
              (items.map (·.latencyBreakdown.dataBusWait)).sum
            dataServiceTime := ch.queue.dataServiceTime +
              (items.map (·.latencyBreakdown.dataService)).sum } }
    else ch

/-- Queue-wait statistics of accesses whose first command issues at `now`. -/
def countStarts (stats : HbmStats) (items : List HbmAccess) (now : Nat) : HbmStats :=
  if config.detailedStats then
    stats.modifyQueue config.channel fun q =>
      { q with queueWaitTime := q.queueWaitTime + (items.map (startWait · now)).sum }
  else stats

/-- Reserve the data bus for the accesses taken from the queue. -/
def occupyBus (s : ControllerState) (isWrite : Bool) (bankIndex : Nat) (taken : List HbmAccess)
    (address : HbmAddress) (bytes : Nat) (slot : DataSlot) : ControllerState :=
  let c := s.ctl.noteSum slot.dataStart slot.duration
  let stats := countTransfer config (countStarts config s.stats taken slot.issuedAt)
    (servedAccesses taken slot) address bankIndex slot
  ⟨{ c with
      dataBusReadyAt := c.dataBusReadyAt.set address.pseudoChannel slot.completion
      transfers :=
        ⟨isWrite, address.pseudoChannel, bytes, slot.issuedAt, slot.dataStart, slot.completion⟩ ::
          c.transfers },
    { stats with
      physicalAccesses := stats.physicalAccesses + 1
      physicalWriteBytes := stats.physicalWriteBytes + if isWrite then bytes else 0
      physicalReadBytes := stats.physicalReadBytes + if isWrite then 0 else bytes }⟩

/-- The transfer `issue` returns. -/
def physicalAccess (candidate : Candidate) (taken : List HbmAccess) (address : HbmAddress)
    (bytes : Nat) (slot : DataSlot) : PhysicalAccess :=
  { op := if candidate.isWrite then .write else .read
    address := address
    bytes := bytes
    command := candidate.command
    issuedAt := slot.issuedAt
    completionTime := slot.completion
    completions := (servedAccesses taken slot).map (completionOf config) }

/-- The second half of `issue` for a data command: reserve the data bus for the
accesses taken from the queue and describe the transfer. -/
def transferData (candidate : Candidate) (bankIndex now : Nat) (taken : List HbmAccess)
    (address : HbmAddress) (bytes : Nat) : ControllerM PhysicalAccess := do
  let cas := casLatency config candidate.isWrite
  modify fun s => s.modifyCtl (·.noteSum now cas)
  let busReady ← ofExcept (vectorAt (← get).ctl.dataBusReadyAt address.pseudoChannel)
  let duration ← ofExcept (config.dataRate.transferTime bytes)
  let slot : DataSlot := ⟨now, cas, busReady, duration⟩
  modify fun s => occupyBus config s candidate.isWrite bankIndex taken address bytes slot
  return physicalAccess config candidate taken address bytes slot

/-- An ACT has issued to a bank: count it towards RFM. -/
def noteActivation (bank : HbmBankState) : HbmBankState :=
  if config.enableRfm && decide (bank.activationCount + 1 ≥ config.rfmActivationThreshold) then
    { bank with activationCount := 0, rfmPending := true }
  else { bank with activationCount := bank.activationCount + 1 }

/-- Replace the access at `index` of a queue. -/
def updateAccess (c : HbmController) (isWrite : Bool) (index : Nat)
    (f : HbmAccess → HbmAccess) : HbmController :=
  c.setQueue isWrite ((c.queue isWrite).modify index f)

/-- The class of an access whose data command issues: a hit if it needed no other
command. -/
def settleClass (access : HbmAccess) : HbmAccess :=
  if !access.activated && access.accessClass ≠ .rowConflict then
    { access with accessClass := .rowHit }
  else access

/-- Take the served accesses out of the queues and count the merged ones. -/
def takeServed (candidate : Candidate) (leader : HbmAccess) : ControllerM (List HbmAccess) :=
  modifyGet fun s =>
    let (taken, c) := takeAccesses config s.ctl candidate.isWrite candidate.index leader
    (taken, ⟨c, s.stats.modifyQueue config.channel fun q =>
      { q with mergedAccesses := q.mergedAccesses + (taken.length - 1) }⟩)

/-- The bank's transition after a data command; a custom device's closed-row policy
leaves a precharge pending instead. -/
def closeAfterData (command : HbmCommand) (row bankIndex : Nat) : ControllerM Unit :=
  if config.standard.isSome then applyTransition config command row bankIndex
  else if config.rowPolicy.useAutoPrecharge then
    modify fun s => s.modifyCtl fun c => c.setBanks
      (c.banks.modify bankIndex fun b => { b with prechargePending := true })
  else pure ()

/-- The data branch of `issue`. -/
def issueData (candidate : Candidate) (bankIndex now : Nat) (access : HbmAccess)
    (bank : HbmBankState) : ControllerM PhysicalAccess := do
  if bank.openRow ≠ some access.address.row then
    throw (.logicError "data command issued without target row open")
  let taken ← takeServed config candidate (settleClass access)
  closeAfterData config candidate.command access.address.row bankIndex
  transferData config candidate bankIndex now taken access.address access.sizeBytes

/-- The ACT branch of `issue`. -/
def issueActivate (candidate : Candidate) (bankIndex row : Nat) : ControllerM Unit := do
  applyTransition config candidate.command row bankIndex
  modify fun s => s.modifyCtl fun c =>
    (c.setBanks (c.banks.modify bankIndex (noteActivation config))).updateAccess
      candidate.isWrite candidate.index fun a => { a with activated := true }

/-- The class of an access a precharge issues for: a conflict if the bank holds
another row. -/
def precharged (bank : HbmBankState) (access : HbmAccess) : HbmAccess :=
  if bank.openRow.isSome ∧ bank.openRow ≠ some access.address.row then
    { access with accessClass := .rowConflict }
  else access

/-- The precharge branch of `issue`. -/
def issuePrecharge (candidate : Candidate) (bankIndex row : Nat) (bank : HbmBankState) :
    ControllerM Unit := do
  modify fun s => s.modifyCtl fun c =>
    c.updateAccess candidate.isWrite candidate.index (precharged bank)
  applyTransition config candidate.command row bankIndex

/-- What `issue` does once the command is recorded. -/
def issueCommand (candidate : Candidate) (bankIndex now : Nat) (access : HbmAccess)
    (bank : HbmBankState) : ControllerM (Option PhysicalAccess) :=
  match candidate.command with
  | .act => do
      issueActivate config candidate bankIndex access.address.row
      return none
  | .preBank | .preAll => do
      issuePrecharge config candidate bankIndex access.address.row bank
      return none
  | _ => do
      let physical ← issueData config candidate bankIndex now access bank
      return some physical

/-- The access has its first command at `now`, if it had none, and is not eligible
any more. -/
def started (access : HbmAccess) (now : Nat) : HbmAccess :=
  { startAccess access now with commandEligible := false }

def issue (candidate : Candidate) (now : Nat) : ControllerM (Option PhysicalAccess) := do
  let c := (← get).ctl
  match (c.queue candidate.isWrite)[candidate.index]? with
  | none => throw (.logicError "stale scheduler candidate")
  | some access =>
      let bankIndex ← ofExcept (localBank config access.address.flatBank)
      let bank ← ofExcept (vectorAt c.banks bankIndex)
      modify fun s =>
        ⟨s.ctl.updateAccess candidate.isWrite candidate.index fun _ => started access now,
          countStarts config s.stats [access] now⟩
      recordCommand config
        ⟨candidate.command, access.address, bankIndex, now, some access.sequence⟩
      issueCommand config candidate bankIndex now (started access now) bank

/-! ### Driving the controller -/

/-- `update_write_drain`. -/
def updateWriteDrain (c : HbmController) : HbmController :=
  if c.drainingWrites ∧ c.writeQueue.length ≤ config.writeDrainLowWatermark then
    { c with drainingWrites := false }
  else if c.drainingWrites = false ∧ c.writeQueue ≠ [] ∧
      c.writeQueue.length ≥ config.writeDrainHighWatermark then
    { c with drainingWrites := true }
  else c

/-- The access starves at `now` and has not been reported yet. -/
def starving (now : Nat) (access : HbmAccess) : Bool :=
  !access.starvationReported && decide (now ≥ access.enqueuedAt) &&
    decide (now - access.enqueuedAt ≥ config.starvationThreshold)

def reportStarving (now : Nat) (access : HbmAccess) : HbmAccess :=
  if starving config now access then { access with starvationReported := true } else access

def updateStarvation (s : ControllerState) (now : Nat) : ControllerState :=
  if config.starvationThreshold = 0 then s
  else
    ⟨{ s.ctl with
        readQueue := s.ctl.readQueue.map (reportStarving config now)
        writeQueue := s.ctl.writeQueue.map (reportStarving config now) },
      s.stats.modifyQueue config.channel fun q =>
        { q with starvationEvents := q.starvationEvents +
            s.ctl.readQueue.countP (starving config now) +
            s.ctl.writeQueue.countP (starving config now) }⟩

/-- The stall accounting of a blocked `drive`. -/
def accountStall (s : ControllerState) (now : Nat) : ControllerState :=
  let unaccountedFrom := max now s.ctl.refreshStallAccountedUntil
  if s.ctl.refreshBusyUntil > unaccountedFrom then
    ⟨{ s.ctl with refreshStallAccountedUntil := s.ctl.refreshBusyUntil },
      if config.detailedStats then
        s.stats.modifyQueue config.channel fun q =>
          { q with refreshStallTime :=
              q.refreshStallTime + (s.ctl.refreshBusyUntil - unaccountedFrom) }
      else s.stats⟩
  else s

def drive (now : Nat) : ControllerM HbmControllerStep := do
  modify fun s => updateStarvation config s now
  let c := (← get).ctl
  if now < c.refreshBusyUntil then
    modify fun s => accountStall config s now
    return ⟨some c.refreshBusyUntil, none⟩
  match ← ofExcept (chooseMaintenance config mapper c now) with
  | some maintenance =>
      if maintenance.readyAt > now then return ⟨some maintenance.readyAt, none⟩
      issueMaintenance config mapper maintenance now
      let c := (← get).ctl
      return ⟨some (if maintenance.finalCommand then c.refreshBusyUntil else now), none⟩
  | none =>
      modify fun s => s.modifyCtl fun c => c.updateWriteDrain config
      match ← chooseNext config mapper now with
      | none => return {}
      | some candidate =>
          if candidate.readyAt > now then return ⟨some candidate.readyAt, none⟩
          let completed ← issue config candidate now
          return ⟨some now, completed⟩

end HbmController

end HbmSim
