import HbmSim.Controller.Admission
import HbmSim.Controller.DriveEffects
import HbmSim.Lib.Ghost
import HbmSim.System.System

/-!
The moves of a run.

A run of the system is cut into moves: the atomic changes of its state that the
invariants speak about. Between two moves of one call some duty is usually open:
a slot is reserved but its access not pushed, a queue is filled but no wake event
scheduled. The ghost `Debts` lists these duties, and every move says which it
takes on and which it discharges. Each member function is shown to be a sequence
of moves once, and each invariant is shown to survive each move.
-/

namespace HbmSim

open HbmSim.Lib

/-- Nothing is queued and no maintenance is pending. -/
def HbmController.Idle (c : HbmController) : Prop := c.Quiet ∧ ∀ w, c.queue w = []

/-- What a call owes at a point inside it. Between the actions of a run nothing is
owed, unless an exception has escaped. -/
structure Debts where
  /-- An exception has escaped: what was owed then is owed for good. -/
  escaped : Bool := false
  /-- Channels that are owed a wake event. -/
  wakes : List Nat := []
  /-- Channels whose next due instant may be without an event. -/
  rearm : List Nat := []
  /-- Charged accesses that are not pushed yet. -/
  slots : List HbmAccess := []
  /-- Transfers whose completion event is not scheduled yet. -/
  issued : List (Nat × PhysicalAccess) := []
  /-- Accesses of completion events that are not credited yet, with their channel
  and completion time. -/
  finishing : List (Nat × Nat × LogicalCompletion) := []
  /-- Waiting parents that may find a slot. -/
  loose : List Nat := []
  /-- A fully admitted parent that still waits. -/
  closing : Option Nat := none
  /-- A parent whose last access is credited. -/
  ripe : Option Nat := none
  /-- A channel whose refresh handling is under way, with its controller before. -/
  stirring : Option (Nat × HbmController) := none
  /-- How many parents the current event has completed. -/
  retired : Nat := 0
  /-- Accesses that no transfer will ever serve, with their channel. -/
  lost : List (Nat × LogicalAccess) := []

/-- Nothing is owed that a call of the system could leave behind. -/
structure Debts.Settled (d : Debts) : Prop where
  wakes : d.wakes = []
  rearm : d.rearm = []
  slots : d.slots = []
  issued : d.issued = []
  loose : d.loose = []
  closing : d.closing = none
  ripe : d.ripe = none
  stirring : d.stirring = none

namespace HbmSystem

variable (cfg : HbmConfig)

/-! ### Effects -/

/-- One channel's controller with the statistics it writes to. -/
def side (s : HbmSystem) (channel : Nat) : ControllerState := ⟨s.controllers channel, s.stats⟩

/-- The system after a call of one channel's controller. -/
def update (s : HbmSystem) (channel : Nat) (t : ControllerState) : HbmSystem :=
  { s.setController channel t.ctl with stats := t.stats }

/-- The system after a change of one controller's members. -/
def modifyController (s : HbmSystem) (channel : Nat) (f : HbmController → HbmController) :
    HbmSystem := s.setController channel (f (s.controllers channel))

/-- The system after an event is scheduled. -/
def schedule (s : HbmSystem) (at_ : Nat) (callback : EventCallback) : HbmSystem :=
  { s with
    scheduler := s.scheduler.emplace at_ callback
    pendingEvents := s.scheduler.nextToken :: s.pendingEvents }

/-- The system after its first event is taken off the queue. -/
def pop (s : HbmSystem) (event : Event EventCallback) (rest : List (Event EventCallback)) :
    HbmSystem :=
  { s with
    scheduler := { s.scheduler with
      now := event.time
      events := rest
      tokens := s.scheduler.tokens.filter fun t => decide (t.1 ≠ event.token) }
    pendingEvents := s.pendingEvents.erase event.token }

def markWake (s : HbmSystem) (channel at_ : Nat) : HbmSystem :=
  (s.modifyController channel fun c => { c with wakeupAt := some at_ }).schedule at_
    (.wake channel at_)

def markRefresh (s : HbmSystem) (channel due : Nat) : HbmSystem :=
  (s.modifyController channel fun c => { c with refreshDueAt := some due }).schedule due
    (.refreshDue channel due)

/-- The access as it is charged. -/
def numbered (s : HbmSystem) (access : HbmAccess) : HbmAccess :=
  { access with sequence := s.nextAccessSequence }

/-- The system after a slot is reserved and its access charged to the parent. -/
def charge (s : HbmSystem) (parent : ParentRequest) (access : HbmAccess) : HbmSystem :=
  (s.update access.address.flatChannel
    (HbmController.reserved (s.side access.address.flatChannel) access.op.isWrite)).chargeAccess
      parent (s.numbered access)

/-- The system after a charged access is pushed. -/
def push (s : HbmSystem) (access : HbmAccess) : HbmSystem :=
  s.update access.address.flatChannel
    (HbmController.pushed (cfg.channelConfig access.address.flatChannel)
      (s.side access.address.flatChannel) { access with enqueuedAt := access.arrivalTime })

/-- The system after a finished access is credited to its parent. -/
def credit (s : HbmSystem) (channel : Nat) (access : LogicalCompletion)
    (parent : ParentRequest) : HbmSystem :=
  ((s.update channel (HbmController.finished (cfg.channelConfig channel) (s.side channel)
    access)).modifyParent access.parentId fun _ => creditAccess parent access channel s.now).observe
      (.finished parent.ticket channel access s.now)

/-- A submission cannot be accepted now. -/
def Refused (s : HbmSystem) : Prop :=
  cfg.controller.maxActiveTransactions ≤ s.parents.length ∨
    ∃ channel < cfg.channelCount, ∃ w, (s.controllers channel).free (cfg.channelConfig channel) w =
      false

@[simp] theorem update_controllers (s : HbmSystem) (channel : Nat) (t : ControllerState)
    (c : Nat) :
    (s.update channel t).controllers c = if c = channel then t.ctl else s.controllers c := rfl

@[simp] theorem modifyController_controllers (s : HbmSystem) (channel : Nat)
    (f : HbmController → HbmController) (c : Nat) :
    (s.modifyController channel f).controllers c =
      if c = channel then f (s.controllers channel) else s.controllers c := rfl

@[simp] theorem side_ctl (s : HbmSystem) (channel : Nat) :
    (s.side channel).ctl = s.controllers channel := rfl

@[simp] theorem markWake_controllers (s : HbmSystem) (channel at_ c : Nat) :
    (s.markWake channel at_).controllers c =
      if c = channel then { s.controllers channel with wakeupAt := some at_ }
      else s.controllers c := rfl

@[simp] theorem markRefresh_controllers (s : HbmSystem) (channel due c : Nat) :
    (s.markRefresh channel due).controllers c =
      if c = channel then { s.controllers channel with refreshDueAt := some due }
      else s.controllers c := rfl

@[simp] theorem charge_controllers (s : HbmSystem) (parent : ParentRequest) (access : HbmAccess)
    (c : Nat) :
    (s.charge parent access).controllers c =
      if c = access.address.flatChannel then
        (HbmController.reserved (s.side access.address.flatChannel) access.op.isWrite).ctl
      else s.controllers c := rfl

@[simp] theorem push_controllers (s : HbmSystem) (access : HbmAccess) (c : Nat) :
    (s.push cfg access).controllers c =
      if c = access.address.flatChannel then
        (s.controllers access.address.flatChannel).push
          { access with enqueuedAt := access.arrivalTime }
      else s.controllers c := rfl

@[simp] theorem credit_controllers (s : HbmSystem) (channel : Nat) (access : LogicalCompletion)
    (parent : ParentRequest) (c : Nat) :
    (s.credit cfg channel access parent).controllers c =
      if c = channel then
        (HbmController.finished (cfg.channelConfig channel) (s.side channel) access).ctl
      else s.controllers c := rfl

/-! ### Moves -/

/-- The changes a call of the client or of the system makes at one instant. -/
inductive Move : HbmSystem × Debts → HbmSystem × Debts → Prop
  /-- A controller step that no event has to follow. -/
  | control {s d channel t} (hchannel : channel < cfg.channelCount)
      (step : HbmController.ControllerStep (cfg.channelConfig channel) cfg.mapper s.now
        (s.side channel) t)
      (calm : (s.controllers channel).Idle → t.ctl.Idle)
      (cadence : SameCadence (s.controllers channel) t.ctl) :
      Move (s, d) (s.update channel t, d)
  /-- A controller step of refresh handling. -/
  | stir {s d channel t} (hchannel : channel < cfg.channelCount)
      (step : HbmController.ControllerStep (cfg.channelConfig channel) cfg.mapper s.now
        (s.side channel) t)
      (alone : d.escaped = true ∨ ∀ x ∈ d.stirring, x.1 = channel) :
      Move (s, d) (s.update channel t,
        { d with
          wakes := channel :: d.wakes
          rearm := channel :: d.rearm
          stirring := some (d.stirring.getD (channel, s.controllers channel)) })
  /-- Refresh handling is done. -/
  | calm {s d channel before} (hchannel : channel < cfg.channelCount)
      (stirring : d.stirring = some (channel, before))
      (cadence : KeepsCadence (cfg.channelConfig channel) s.now before (s.controllers channel))
      (grows : before.raised.length ≤ (s.controllers channel).raised.length)
      (started : before.nextRefreshDue = none → (s.controllers channel).nextRefreshDue = none ∨
        ∃ a ∈ d.slots, a.address.flatChannel = channel) :
      Move (s, d) (s, { d with stirring := none })
  /-- A data command: a transfer to complete, and slots that have become free. -/
  | transfer {s d channel physical t} (hchannel : channel < cfg.channelCount)
      (step : HbmController.DataStep (cfg.channelConfig channel) cfg.mapper s.now
        (s.side channel) physical t)
      (armed : d.escaped = true ∨ d.rearm = []) :
      Move (s, d) ((s.update channel t).observe (.issued channel physical s.now),
        { d with issued := (channel, physical) :: d.issued, loose := s.pendingAdmissions })
  /-- A channel has its wake event, or needs none. -/
  | awake {s d channel}
      (covered : (s.controllers channel).wakeupAt.isSome ∨ (s.controllers channel).Idle) :
      Move (s, d) (s, { d with wakes := d.wakes.filter (· != channel) })
  | wake {s d channel at_} (hchannel : channel < cfg.channelCount) (future : s.now ≤ at_)
      (earlier : ∀ t, (s.controllers channel).wakeupAt = some t → at_ < t) :
      Move (s, d) (s.markWake channel at_, d)
  /-- A channel's next due instant has its event, or needs none. -/
  | armed {s d channel}
      (covered : (s.controllers channel).outstandingAccesses = 0 ∨
        (s.controllers channel).nextRefreshDue = none ∨
        (s.controllers channel).refreshDueAt = (s.controllers channel).nextRefreshDue) :
      Move (s, d) (s, { d with rearm := d.rearm.filter (· != channel) })
  | arm {s d channel due} (hchannel : channel < cfg.channelCount) (future : s.now ≤ due)
      (next : (s.controllers channel).nextRefreshDue = some due)
      (unarmed : (s.controllers channel).refreshDueAt ≠ some due) :
      Move (s, d) (s.markRefresh channel due, d)
  /-- A due instant in the past is claimed, and its event refused. -/
  | misarm {s d channel due} (hchannel : channel < cfg.channelCount) (past : due < s.now)
      (live : (s.controllers channel).outstandingAccesses ≠ 0)
      (next : (s.controllers channel).nextRefreshDue = some due) :
      Move (s, d) (s.modifyController channel fun c => { c with refreshDueAt := some due }, d)
  | accept {s d tx} (sized : tx.sizeBytes ≠ 0) (arrived : tx.arrivalTime ≤ s.now)
      (fresh : s.findParent tx.id = none)
      (fits : tx.sizeBytes - 1 ≤ maxSimTime - tx.address)
      (room : s.parents.length < cfg.controller.maxActiveTransactions) :
      Move (s, d) (s.acceptTransaction tx, { d with loose := tx.id :: d.loose })
  | charge {s d parent access done rest}
      (hchannel : access.address.flatChannel < cfg.channelCount)
      (found : s.findParent parent.transaction.id = some parent)
      (waiting : s.pendingAdmissions = done ++ parent.transaction.id :: rest)
      (older : d.escaped = true ∨ ∀ id ∈ done, id ∉ d.loose)
      (unfinished : parent.admittedBytes < parent.transaction.sizeBytes)
      (next : cfg.nextAccess parent.transaction parent.admittedBytes = .ok access)
      (free : (s.controllers access.address.flatChannel).free
        (cfg.channelConfig access.address.flatChannel) access.op.isWrite = true)
      (closed : d.escaped = true ∨ d.closing = none) :
      Move (s, d) (s.charge parent access,
        { d with
          slots := s.numbered access :: d.slots
          closing := if parent.admittedBytes + access.sizeBytes = parent.transaction.sizeBytes
            then some parent.transaction.id else none })
  | push {s d access rest} (hchannel : access.address.flatChannel < cfg.channelCount)
      (slot : d.slots = access :: rest)
      (reserved : (s.controllers access.address.flatChannel).reservedSlots access.op.isWrite ≠ 0)
      (newest : access.sequence + 1 = s.nextAccessSequence)
      (blank : access = { toLogicalAccess := access.toLogicalAccess })
      (mapped : Mapped (cfg.channelConfig access.address.flatChannel) cfg.mapper access.address)
      (arrived : access.arrivalTime ≤ s.now)
      (prepared : ∀ due,
        (s.controllers access.address.flatChannel).nextRefreshDue = some due → s.now < due)
      (started : cfg.controller.refreshInterval ≠ 0 →
        (s.controllers access.address.flatChannel).nextRefreshDue ≠ none)
      (calm : d.escaped = true ∨ d.stirring = none) :
      Move (s, d) (s.push cfg access,
        { d with
          slots := rest
          wakes := access.address.flatChannel :: d.wakes
          rearm := access.address.flatChannel :: d.rearm })
  /-- A waiting parent finds no slot. -/
  | blocked {s d parent access}
      (found : s.findParent parent.transaction.id = some parent)
      (unfinished : parent.admittedBytes < parent.transaction.sizeBytes)
      (next : cfg.nextAccess parent.transaction parent.admittedBytes = .ok access)
      (full : (s.controllers access.address.flatChannel).free
        (cfg.channelConfig access.address.flatChannel) access.op.isWrite = false) :
      Move (s, d) (s, { d with loose := d.loose.filter (· != parent.transaction.id) })
  /-- A fully admitted parent stops waiting. -/
  | close {s d parent}
      (found : s.findParent parent.transaction.id = some parent)
      (finished : parent.admittedBytes = parent.transaction.sizeBytes)
      (closes : d.escaped = true ∨ d.closing = some parent.transaction.id) :
      Move (s, d)
        ({ s with pendingAdmissions := s.pendingAdmissions.erase parent.transaction.id },
          { d with closing := none, loose := d.loose.filter (· != parent.transaction.id) })
  | credit {s d channel access parent rest} (hchannel : channel < cfg.channelCount)
      (popped : d.finishing = (channel, s.now, access) :: rest)
      (found : s.findParent access.parentId = some parent)
      (live : (s.controllers channel).outstandingAccesses ≠ 0)
      (owed : parent.remainingAccesses ≠ 0) (calm : d.ripe = none) :
      Move (s, d) (s.credit cfg channel access parent,
        { d with
          finishing := rest
          ripe := if parent.remainingAccesses = 1 ∧
            parent.admittedBytes = parent.transaction.sizeBytes then some access.parentId
            else none })
  | retire {s d parent} (found : s.findParent parent.transaction.id = some parent)
      (ripe : d.ripe = some parent.transaction.id)
      (finished : parent.remainingAccesses = 0)
      (admitted : parent.admittedBytes = parent.transaction.sizeBytes)
      (time : parent.completionTime = s.now)
      (closed : d.escaped = true ∨ d.closing = none) :
      Move (s, d) (s.retireParent cfg parent, { d with ripe := none, retired := d.retired + 1 })
  /-- The completion event of an issued transfer. -/
  | complete {s d channel physical rest} (hchannel : channel < cfg.channelCount)
      (issued : d.issued = (channel, physical) :: rest)
      (future : s.now ≤ physical.completionTime) :
      Move (s, d) (s.schedule physical.completionTime (.accessDone channel physical),
        { d with issued := rest })
  | announce {s d channel} (hchannel : channel < cfg.channelCount) :
      Move (s, d) (s.schedule s.now (.capacity channel s.now), d)
  /-- The client's own event. -/
  | client {s d at_ tag} (future : s.now ≤ at_) :
      Move (s, d)
        ({ s with scheduler := s.scheduler.emplace at_ (.client tag) }, d)
  | reject {s d channel} (hchannel : channel < cfg.channelCount) :
      Move (s, d) (s.countRejection channel, d)
  | setScript {s d} (script : List (List ClientCall)) : Move (s, d) ({ s with script := script }, d)
  | setCallbacks {s d} (completion capacity : Bool) :
      Move (s, d) ({ s with completionCallback := completion, capacityCallback := capacity }, d)
  | notify {s d} (capacity : CapacityNotification) : Move (s, d) (s.observe (.notified capacity), d)
  | return_ {s d} {result : SubmitResult}
      (settled : d.escaped = true ∨ d.Settled)
      (busy : d.retired ≠ 0 ∨ d.escaped = true ∨ d.finishing = [])
      (refused : result.status = .backpressure → Refused cfg s) :
      Move (s, d) (s.observe (.returned result s.systemEvents.length s.now), d)

/-- What happens between calls: the next event is dispatched, the clock moves on
while nothing is due, an exception escapes. -/
inductive Turn : HbmSystem × Debts → HbmSystem × Debts → Prop
  | wake {s d event rest channel} (next : s.scheduler.events = event :: rest)
      (callback : event.callback = .wake channel event.time) (hchannel : channel < cfg.channelCount)
      (settled : d.escaped = true ∨ d.Settled ∧ d.finishing = []) :
      Turn (s, d) ((s.pop event rest).modifyController channel (·.clearWakeup event.time),
        { d with wakes := channel :: d.wakes, retired := 0 })
  | refreshDue {s d event rest channel} (next : s.scheduler.events = event :: rest)
      (callback : event.callback = .refreshDue channel event.time)
      (hchannel : channel < cfg.channelCount)
      (settled : d.escaped = true ∨ d.Settled ∧ d.finishing = []) :
      Turn (s, d) ((s.pop event rest).modifyController channel (·.disarm event.time),
        { d with rearm := channel :: d.rearm, retired := 0 })
  | accessDone {s d event rest channel issued} (next : s.scheduler.events = event :: rest)
      (callback : event.callback = .accessDone channel issued)
      (time : issued.completionTime = event.time) (hchannel : channel < cfg.channelCount)
      (settled : d.escaped = true ∨ d.Settled ∧ d.finishing = []) :
      Turn (s, d) (s.pop event rest,
        { d with
          finishing := (issued.completions.map fun l => (channel, event.time, l)) ++ d.finishing
          retired := 0 })
  | other {s d event rest} (next : s.scheduler.events = event :: rest)
      (callback : (∃ channel, event.callback = .capacity channel event.time) ∨
        ∃ tag, event.callback = .client tag)
      (settled : d.escaped = true ∨ d.Settled ∧ d.finishing = []) :
      Turn (s, d) (s.pop event rest, { d with retired := 0 })
  | advance {s d until_} (later : s.now ≤ until_)
      (nothing : ∀ e ∈ s.scheduler.events, until_ < e.time)
      (settled : d.escaped = true ∨ d.Settled ∧ d.finishing = []) :
      Turn (s, d) ({ s with scheduler := { s.scheduler with now := until_ } },
        { d with retired := 0 })
  | escape {s d} : Turn (s, d) (s, { d with escaped := true })
  /-- A data command whose transfer time exceeds 64 bits. -/
  | lose {s d channel lost t} (hchannel : channel < cfg.channelCount)
      (step : HbmController.LostStep (cfg.channelConfig channel) cfg.mapper s.now
        (s.side channel) lost t) :
      Turn (s, d) (s.update channel t,
        { d with escaped := true, lost := lost.map (Prod.mk channel) ++ d.lost })

/-- Any number of moves of one call. -/
abbrev Moves : HbmSystem × Debts → HbmSystem × Debts → Prop := Relation.ReflTransGen (Move cfg)

/-- A point a run can reach. -/
inductive Run : HbmSystem × Debts → Prop
  | create : Run (initial cfg, {})
  | move {p q} (run : Run p) (move : Move cfg p q) : Run q
  | turn {p q} (run : Run p) (turn : Turn cfg p q) : Run q

end HbmSystem

end HbmSim
