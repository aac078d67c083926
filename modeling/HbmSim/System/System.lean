import HbmSim.System.NextAccess
import HbmSim.Kernel.EventQueue

/-!
The memory system (`HbmSystem`, `hbm_system.cpp`) and its runs.

`SystemM` programs read and write the system and may throw. The scheduler is the
reference event queue; an event's closure is one of the callbacks below, and
events of other components may share the queue. A callback handed in by the
client is modelled by the calls it makes: each invocation takes the next entry
of `script`.

`trace`, `nextTicket` and a parent's `ticket` have no counterpart in the source
and nothing reads them back: they record what happened, and number the accepted
transactions so that a reused id can be told from its predecessors.
-/

namespace HbmSim

open HbmSim.Lib

/-- What a client, outside the system or inside a callback, can call. -/
inductive ClientCall where
  | trySubmitNow (transaction : HbmTransaction)
  | setCompletionCallback (present : Bool)
  | setCapacityCallback (present : Bool)
  | scheduleAt (at_ : UInt64) (tag : Nat)
deriving DecidableEq, Repr

/-- The closures on the event queue: the system's four, and other components'. -/
inductive EventCallback where
  | wake (channel at_ : Nat)
  | refreshDue (channel due : Nat)
  | accessDone (channel : Nat) (issued : PhysicalAccess)
  | capacity (channel at_ : Nat)
  | client (tag : Nat)
deriving DecidableEq, Repr

/-- The event was scheduled by the system. -/
def EventCallback.isSystem : EventCallback → Bool
  | .client _ => false
  | _ => true

structure ParentRequest where
  transaction : HbmTransaction
  remainingAccesses : Nat := 0
  completionTime : Nat := 0
  completionChannel : Nat := 0
  lastAccessClass : HbmAccessClass := .rowClosed
  lastLatencyBreakdown : HbmLatencyBreakdown := {}
  admittedBytes : Nat := 0
  /-- The acceptance this parent stems from. -/
  ticket : Nat := 0
deriving DecidableEq, Repr

structure CapacityNotification where
  time : Nat
  channel : Nat
  readSlots : Nat
  writeSlots : Nat
deriving DecidableEq, Repr

/-- What a client can see of a run: which transactions are accepted, admitted, served and
completed, and what the calls and callbacks report. -/
inductive Observation where
  | accepted (ticket : Nat) (transaction : HbmTransaction) (at_ : Nat)
  | admitted (ticket channel : Nat) (access : HbmAccess) (at_ : Nat)
  | issued (channel : Nat) (physical : PhysicalAccess) (at_ : Nat)
  | finished (ticket channel : Nat) (access : LogicalCompletion) (at_ : Nat)
  | completed (ticket : Nat) (completion : HbmCompletion) (at_ : Nat)
  | notified (capacity : CapacityNotification)
  | returned (result : SubmitResult) (pending : Nat) (at_ : Nat)
deriving DecidableEq, Repr

structure HbmSystem where
  scheduler : EventQueue EventCallback := {}
  stats : HbmStats := {}
  controllers : Nat → HbmController
  completionCallback : Bool := false
  capacityCallback : Bool := false
  parents : List ParentRequest := []
  pendingAdmissions : List Nat := []
  completions : List HbmCompletion := []
  pendingEvents : List Nat := []
  nextAccessSequence : Nat := 0
  /-- The calls the next callbacks make. -/
  script : List (List ClientCall) := []
  /-- The observations so far, newest first. -/
  trace : List Observation := []
  nextTicket : Nat := 0

abbrev SystemM := EStateM HbmError HbmSystem

namespace HbmSystem

def now (s : HbmSystem) : Nat := s.scheduler.now

/-- The events of the system that are pending. -/
def systemEvents (s : HbmSystem) : List (Event EventCallback) :=
  s.scheduler.events.filter fun e => e.callback.isSystem

def observe (s : HbmSystem) (o : Observation) : HbmSystem := { s with trace := o :: s.trace }

/-- `parents_.find`. -/
def findParent (s : HbmSystem) (id : Nat) : Option ParentRequest :=
  s.parents.find? fun p => p.transaction.id == id

def modifyParent (s : HbmSystem) (id : Nat) (f : ParentRequest → ParentRequest) : HbmSystem :=
  { s with parents := s.parents.map fun p => if p.transaction.id = id then f p else p }

def eraseParent (s : HbmSystem) (id : Nat) : HbmSystem :=
  { s with parents := s.parents.filter fun p => p.transaction.id != id }

def setController (s : HbmSystem) (channel : Nat) (c : HbmController) : HbmSystem :=
  { s with controllers := fun ch => if ch = channel then c else s.controllers ch }

variable (cfg : HbmConfig)

/-- The statistics record of one channel after the constructor. -/
def initialChannelStats : ChannelStats :=
  if cfg.simulation.detailedStats then
    { pseudoChannels :=
        List.replicate cfg.device.organization.topology.pseudoChannelsPerChannel {}
      banks := List.replicate cfg.banksPerChannel {} }
  else {}

/-- The system the constructor builds. -/
def initial : HbmSystem :=
  { stats := { channels := fun _ => initialChannelStats cfg }
    controllers := fun channel => .initial (cfg.channelConfig channel) }

/-- The constructor. A topology whose channel count wraps to zero makes it divide
by zero. -/
def create : Except HbmError HbmSystem := do
  cfg.validate
  if cfg.channelCount = 0 then throw .undefined
  return initial cfg

/-- `controllers_.at(channel)`. -/
def onController {α : Type} (channel : Nat) (op : ControllerM α) : SystemM α := fun s =>
  if channel < cfg.channelCount then
    match op ⟨s.controllers channel, s.stats⟩ with
    | .ok a t => .ok a { s.setController channel t.ctl with stats := t.stats }
    | .error e t => .error e { s.setController channel t.ctl with stats := t.stats }
  else .error (.outOfRange "vector::at") s

/-! ### Events -/

def scheduleEvent (at_ : Nat) (callback : EventCallback) : SystemM Unit := do
  let (token, scheduler) ← ofExcept ((← get).scheduler.scheduleAt at_ callback)
  modify fun s => { s with scheduler := scheduler, pendingEvents := token :: s.pendingEvents }

def scheduleControllerWake (channel at_ : Nat) : SystemM Unit := do
  let at_ := max at_ (← get).now
  let needed ← onController cfg channel <| modifyGet fun s =>
    let (needed, c) := s.ctl.markWakeup at_
    (needed, { s with ctl := c })
  if needed then scheduleEvent at_ (.wake channel at_)

def scheduleRefreshDue (channel : Nat) : SystemM Unit := do
  let due ← onController cfg channel <| modifyGet fun s =>
    let (due, c) := s.ctl.claimRefreshEvent
    (due, { s with ctl := c })
  match due with
  | none => return ()
  | some due => scheduleEvent due (.refreshDue channel due)

/-! ### Admission -/

/-- Charge a parent with its next access, whose slot is reserved. -/
def chargeAccess (s : HbmSystem) (parent : ParentRequest) (access : HbmAccess) : HbmSystem :=
  let s := s.modifyParent parent.transaction.id fun p =>
    { p with
      admittedBytes := p.admittedBytes + access.sizeBytes
      remainingAccesses := p.remainingAccesses + 1 }
  { s.observe (.admitted parent.ticket access.address.flatChannel access s.now) with
    stats := { s.stats with modeledAccesses := s.stats.modeledAccesses + 1 }
    nextAccessSequence := s.nextAccessSequence + 1 }

/-- Admit one access whose slot `can_reserve` has granted. -/
def admitAccess (parent : ParentRequest) (access : HbmAccess) : SystemM Unit := do
  let channel := access.address.flatChannel
  let read := access.op == .read
  onController cfg channel
    (HbmController.reserve (cfg.channelConfig channel) read.toNat (!read).toNat)
  let s ← get
  let access := { access with sequence := s.nextAccessSequence }
  set (s.chargeAccess parent access)
  onController cfg channel
    (HbmController.admitReserved (cfg.channelConfig channel) cfg.mapper access s.now)

/-- The inner loop of `pump_admissions`: admit accesses of one parent until it is
fully admitted or its next access finds no slot. Every round admits a byte at
least. Returns the channels touched so far. -/
def admitParent (id : Nat) : Nat → List Nat → SystemM (List Nat)
  | rounds, touched => do
      match (← get).findParent id with
      | none => throw (.outOfRange "unordered_map::at")
      | some parent =>
          if parent.admittedBytes < parent.transaction.sizeBytes then
            match rounds with
            | 0 => throw .diverges
            | rounds + 1 =>
                let access ← ofExcept (cfg.nextAccess parent.transaction parent.admittedBytes)
                let channel := access.address.flatChannel
                let read := access.op == .read
                let free ← onController cfg channel do
                  return (← get).ctl.canReserve (cfg.channelConfig channel) read.toNat (!read).toNat
                if !free then return touched
                admitAccess cfg parent access
                admitParent id rounds (channel :: touched)
          else return touched

/-- The outer loop of `pump_admissions` over the waiting parents, in order. -/
def admitPending : List Nat → List Nat → SystemM (List Nat)
  | [], touched => return touched
  | id :: rest, touched => do
      let size := (((← get).findParent id).map (·.transaction.sizeBytes)).getD 0
      let touched ← admitParent cfg id size touched
      modify fun s =>
        match s.findParent id with
        | some parent =>
            if parent.admittedBytes = parent.transaction.sizeBytes then
              { s with pendingAdmissions := s.pendingAdmissions.erase id }
            else s
        | none => s
      admitPending rest touched

/-- The last loop of `pump_admissions`. -/
def wakeTouched (touched : List Nat) : List Nat → SystemM Unit
  | [] => return ()
  | channel :: rest => do
      if touched.contains channel then
        scheduleRefreshDue cfg channel
        scheduleControllerWake cfg channel (← get).now
      wakeTouched touched rest

def pumpAdmissions : SystemM Unit := do
  let touched ← admitPending cfg (← get).pendingAdmissions []
  wakeTouched cfg touched (List.range cfg.channelCount)

/-! ### Submission -/

def acceptTransaction (s : HbmSystem) (tx : HbmTransaction) : HbmSystem :=
  { s.observe (.accepted s.nextTicket tx s.now) with
    parents := s.parents ++ [{ transaction := tx, ticket := s.nextTicket }]
    pendingAdmissions := s.pendingAdmissions ++ [tx.id]
    stats := { s.stats with submittedTransactions := s.stats.submittedTransactions + 1 }
    nextTicket := s.nextTicket + 1 }

def countRejection (s : HbmSystem) (channel : Nat) : HbmSystem :=
  { s with
    stats := { s.stats.modifyQueue channel fun q =>
        { q with rejectedTransactions := q.rejectedTransactions + 1 } with
      rejectedTransactions := s.stats.rejectedTransactions + 1 } }

def trySubmitNow (tx : HbmTransaction) : SystemM SubmitResult := do
  let s ← get
  if tx.id = 0 ∨ tx.sizeBytes = 0 then
    return ⟨.invalidArgument, 0, "transaction id and size_bytes must both be non-zero"⟩
  if tx.arrivalTime > s.now then
    return ⟨.arrivalInFuture, 0, "transaction must be submitted at or after its arrival time"⟩
  if (s.findParent tx.id).isSome then
    return ⟨.duplicateId, 0, "transaction id was already submitted"⟩
  if tx.sizeBytes - 1 > maxSimTime - tx.address then
    return ⟨.invalidArgument, 0, "transaction address overflows"⟩
  let first ← ofExcept (cfg.nextAccess tx 0)
  let channel := first.address.flatChannel
  let read := tx.op == .read
  if s.parents.length ≥ cfg.controller.maxActiveTransactions then
    modify fun s => s.countRejection channel
    return ⟨.backpressure, 0, "admission capacity exceeded"⟩
  let free ← onController cfg channel do
    return (← get).ctl.canReserve (cfg.channelConfig channel) read.toNat (!read).toNat
  if !free then
    modify fun s => s.countRejection channel
    return ⟨.backpressure, 0, "admission capacity exceeded"⟩
  modify fun s => s.acceptTransaction tx
  pumpAdmissions cfg
  return ⟨.accepted, tx.id, ""⟩

/-- An event of another component; one in the past is refused. -/
def scheduleClient (s : HbmSystem) (at_ tag : Nat) : HbmSystem :=
  match s.scheduler.scheduleAt at_ (.client tag) with
  | .ok (_, scheduler) => { s with scheduler := scheduler }
  | .error _ => s

/-- A client's calls, one after the other. -/
def runClient : List ClientCall → SystemM Unit
  | [] => return ()
  | call :: rest => do
      match call with
      | .trySubmitNow tx =>
          let result ← trySubmitNow cfg tx
          modify fun s => s.observe (.returned result s.systemEvents.length s.now)
      | .setCompletionCallback present =>
          modify fun s => { s with completionCallback := present }
      | .setCapacityCallback present => modify fun s => { s with capacityCallback := present }
      | .scheduleAt at_ tag => modify fun s => s.scheduleClient at_.toNat tag
      runClient rest

/-- Invoke a callback of the client. -/
def invokeClient : SystemM Unit := do
  let calls ← modifyGet fun s => (s.script.headD [], { s with script := s.script.tail })
  runClient cfg calls

/-- Invoke the capacity callback, if there is one. -/
def notifyCapacity (channel at_ : Nat) : SystemM Unit := do
  let s ← get
  if s.capacityCallback then
    let c := s.controllers channel
    let config := cfg.channelConfig channel
    modify fun s => s.observe (.notified
      ⟨at_, channel, c.availableReadSlots config, c.availableWriteSlots config⟩)
    invokeClient cfg

/-! ### Completion -/

/-- The completion of a parent whose last access has finished. -/
def completionOf (request : ParentRequest) : HbmCompletion :=
  { id := request.transaction.id
    op := request.transaction.op
    address := request.transaction.address
    sizeBytes := request.transaction.sizeBytes
    client := request.transaction.client
    channel := request.completionChannel
    accessClass := request.lastAccessClass
    arrivalTime := request.transaction.arrivalTime
    completionTime := request.completionTime
    latency := SimTime.sub request.completionTime request.transaction.arrivalTime
    latencyBreakdown := request.lastLatencyBreakdown
    metadata := request.transaction.metadata }

/-- The system once a parent is completed, before the callbacks. -/
def retireParent (s : HbmSystem) (request : ParentRequest) : HbmSystem :=
  let completion := completionOf request
  let s := s.observe (.completed request.ticket completion s.now)
  let s := s.eraseParent completion.id
  let read := completion.op == .read
  { s with
    stats := { s.stats with
      completedTransactions := s.stats.completedTransactions + 1
      readBytes := s.stats.readBytes + if read then completion.sizeBytes else 0
      writeBytes := s.stats.writeBytes + if read then 0 else completion.sizeBytes }
    completions :=
      if cfg.simulation.retainCompletions then s.completions ++ [completion]
      else s.completions }

def completeParent (id : Nat) : SystemM Unit := do
  match (← get).findParent id with
  | none => throw (.logicError "missing completion parent")
  | some request =>
      modify fun s => s.retireParent cfg request
      if (← get).completionCallback then invokeClient cfg
      notifyCapacity cfg request.completionChannel (← get).now

/-- Credit one finished access to its parent. -/
def creditAccess (request : ParentRequest) (access : LogicalCompletion)
    (channel completionTime : Nat) : ParentRequest :=
  let request := { request with remainingAccesses := request.remainingAccesses - 1 }
  if completionTime ≥ request.completionTime then
    { request with
      completionTime := completionTime
      completionChannel := channel
      lastAccessClass := access.accessClass
      lastLatencyBreakdown := access.latencyBreakdown }
  else request

def finishAccess (access : LogicalCompletion) (channel completionTime : Nat) : SystemM Unit := do
  onController cfg channel (HbmController.completeAccess (cfg.channelConfig channel) access)
  match (← get).findParent access.parentId with
  | none => throw (.logicError "missing access parent")
  | some request =>
      if request.remainingAccesses = 0 then throw (.logicError "completed access underflow")
      let credited := creditAccess request access channel completionTime
      modify fun s => (s.modifyParent access.parentId fun _ => credited).observe
        (.finished request.ticket channel access completionTime)
      if credited.remainingAccesses = 0 ∧
          credited.admittedBytes = credited.transaction.sizeBytes then
        completeParent cfg access.parentId

/-- The completion event: finish every access the transfer served. -/
def finishAccesses (channel completionTime : Nat) : List LogicalCompletion → SystemM Unit
  | [] => return ()
  | access :: rest => do
      finishAccess cfg access channel completionTime
      finishAccesses channel completionTime rest

/-! ### Dispatch -/

/-- The transfer of a step is observed. -/
def observeIssued (channel : Nat) (step : HbmControllerStep) (s : HbmSystem) : HbmSystem :=
  match step.issuedAccess with
  | none => s
  | some issued => s.observe (.issued channel issued s.now)

/-- The controller takes a step. -/
def driveStep (channel : Nat) : SystemM HbmControllerStep := do
  let step ← onController cfg channel
    (HbmController.drive (cfg.channelConfig channel) cfg.mapper (← get).now)
  modify fun s => s.observeIssued channel step
  return step

def driveController (channel : Nat) : SystemM Unit := do
  let step ← driveStep cfg channel
  match step.issuedAccess with
  | none => pure ()
  | some issued =>
      pumpAdmissions cfg
      scheduleEvent issued.completionTime (.accessDone channel issued)
      if (← get).capacityCallback then
        scheduleEvent (← get).now (.capacity channel (← get).now)
  match step.wakeAt with
  | none => return ()
  | some at_ => scheduleControllerWake cfg channel at_

/-- What an event's closure does when it is called. -/
def runCallback : EventCallback → SystemM Unit
  | .wake channel at_ => do
      onController cfg channel <| modify fun s => s.modifyCtl (·.clearWakeup at_)
      driveController cfg channel
  | .refreshDue channel due => do
      onController cfg channel
        (HbmController.handleRefreshEvent (cfg.channelConfig channel) cfg.mapper due)
      scheduleControllerWake cfg channel due
      if ((← get).controllers channel).outstandingAccesses ≠ 0 then
        scheduleRefreshDue cfg channel
  | .accessDone channel issued =>
      finishAccesses cfg channel issued.completionTime issued.completions
  | .capacity channel at_ => notifyCapacity cfg channel at_
  | .client _ => invokeClient cfg

/-- `dispatch_one`, with the system's closures erasing their token first. -/
def dispatchOne : SystemM Unit := do
  match (← get).scheduler.takeNext with
  | none => return ()
  | some (event, scheduler) =>
      modify fun s =>
        { s with
          scheduler := scheduler
          pendingEvents := s.pendingEvents.erase event.token }
      runCallback cfg event.callback

/-! ### Runs -/

/-- One step of a run: a public call, the dispatch of an event (with the calls
the client's callbacks make during it), or the clock moving on while nothing is
due, as `run_until` leaves it. -/
inductive Action where
  | call (call : ClientCall)
  | dispatch (reactions : List (List ClientCall))
  | advance (until_ : UInt64)
deriving DecidableEq, Repr

def perform : Action → SystemM Unit
  | .call call => runClient cfg [call]
  | .dispatch reactions => do
      modify fun s => { s with script := reactions }
      dispatchOne cfg
  | .advance until_ => do
      let s ← get
      if s.now ≤ until_.toNat ∧ s.scheduler.events.all fun e => until_.toNat < e.time then
        set { s with scheduler := { s.scheduler with now := until_.toNat } }

/-- The states of the runs of a system whose escaping exceptions all satisfy
`escapes`; a client that catches one goes on from the state it left. -/
inductive Reachable (escapes : HbmError → Prop) : HbmSystem → Prop
  | create {s} (created : create cfg = .ok s) : Reachable escapes s
  | perform {s t} (action : Action) (reached : Reachable escapes s)
      (performed : perform cfg action s = .ok () t) : Reachable escapes t
  | escape {s t e} (action : Action) (reached : Reachable escapes s)
      (performed : perform cfg action s = .error e t) (escaped : escapes e) :
      Reachable escapes t

/-- No exception escapes. -/
def NoEscape (_ : HbmError) : Prop := False

end HbmSystem

end HbmSim
