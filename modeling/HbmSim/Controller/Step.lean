import HbmSim.Controller.Demand

/-!
The steps a controller takes.

Every member function of the controller is a sequence of these steps, each with
its exact effect and everything that was checked before it. What holds at every
state of a controller is proved once for each step.
-/

namespace HbmSim

open HbmSim.Lib

namespace HbmController

variable (config : HbmControllerConfig) (mapper : HbmAddressMapper)

/-! ### Effects -/

/-- The members after a refresh obligation is raised. -/
def raise (c : HbmController) (due : Nat) : HbmController :=
  if config.refreshPolicy.usesAllBankRefresh then
    { c with
      refreshPending := true
      raised := due :: c.raised
      overlapped := c.overlapped + (c.stillPending config).toNat }
  else
    { c with
      banks := c.banks.modify c.nextPerBankRefresh fun b => { b with refreshPending := true }
      nextPerBankRefresh := (c.nextPerBankRefresh + 1) % c.banks.length
      raisedBanks := c.nextPerBankRefresh :: c.raisedBanks
      raised := due :: c.raised
      overlapped := c.overlapped + (c.stillPending config).toNat }

/-- The next due instant moves to one interval after `base`. -/
def advanceDue (c : HbmController) (base : Nat) : HbmController :=
  { c.noteSum base config.refreshInterval with
    nextRefreshDue := some (SimTime.add base config.refreshInterval)
    dues := base :: c.dues }

/-- The state after `issue_maintenance` at `time`. -/
def maintained (s : ControllerState) (candidate : MaintenanceCandidate) (address : HbmAddress)
    (banks : List HbmBankState) (time : Nat) : ControllerState :=
  let r : RecordedCommand := ⟨candidate.command, address, candidate.localBank, time, none⟩
  let c := (s.ctl.stampCommand config r).setBanks banks
  let stats := countCommand config s.stats r
  if candidate.finalCommand then
    ⟨(c.settleMaintenance candidate.requested candidate.localBank).blockUntil time
        (maintenanceDuration candidate.requested config.timing),
      countMaintenance config stats candidate.requested⟩
  else ⟨c, stats⟩

/-- The state once `issue` has recorded its command. -/
def commandIssued (s : ControllerState) (w : Bool) (index : Nat) (a : HbmAccess)
    (r : RecordedCommand) : ControllerState :=
  ⟨(s.ctl.updateAccess w index fun _ => started a r.issuedAt).stampCommand config r,
    countCommand config (countStarts config s.stats [a] r.issuedAt) r⟩

/-- The state after `issue` of an ACT. -/
def activatedState (s : ControllerState) (w : Bool) (index : Nat) (a : HbmAccess)
    (r : RecordedCommand) (banks : List HbmBankState) : ControllerState :=
  (commandIssued config s w index a r).modifyCtl fun c =>
    (c.setBanks (banks.modify r.bank (noteActivation config))).updateAccess w index
      fun a => { a with activated := true }

/-- The state after `issue` of a precharge. -/
def prechargedState (s : ControllerState) (w : Bool) (index : Nat) (a : HbmAccess)
    (r : RecordedCommand) (bank : HbmBankState) (banks : List HbmBankState) : ControllerState :=
  (commandIssued config s w index a r).modifyCtl fun c =>
    (c.updateAccess w index (precharged bank)).setBanks banks

/-- The access a data command issues for. -/
def leader (a : HbmAccess) (now : Nat) : HbmAccess := settleClass (started a now)

/-- The banks after a data command: a standard's transition, or the precharge a
custom device's closed-row policy owes. -/
def dataBanks (k : HbmCommand) (row bankIndex : Nat) (banks : List HbmBankState) :
    Except HbmError (List HbmBankState) :=
  if config.standard.isSome then transitionBanks config k row bankIndex banks
  else if config.rowPolicy.useAutoPrecharge then
    .ok (banks.modify bankIndex fun b => { b with prechargePending := true })
  else .ok banks

/-- The state after `issue` of a data command. -/
def transferredState (s : ControllerState) (w : Bool) (index : Nat) (a : HbmAccess)
    (r : RecordedCommand) (banks : List HbmBankState) (slot : DataSlot) : ControllerState :=
  let issued := commandIssued config s w index a r
  let taken := takeAccesses config issued.ctl w index (leader a r.issuedAt)
  occupyBus config
    ⟨(taken.2.setBanks banks).noteSum slot.issuedAt slot.casLatency,
      issued.stats.modifyQueue config.channel fun q =>
        { q with mergedAccesses := q.mergedAccesses + (taken.1.length - 1) }⟩
    w r.bank taken.1 a.address a.sizeBytes slot

/-- The state `issue` leaves when the duration of the transfer exceeds 64 bits: the
accesses are taken out of the queue and nothing will complete them. -/
def takenState (s : ControllerState) (w : Bool) (index : Nat) (a : HbmAccess)
    (r : RecordedCommand) (banks : List HbmBankState) : ControllerState :=
  let issued := commandIssued config s w index a r
  let taken := takeAccesses config issued.ctl w index (leader a r.issuedAt)
  ⟨(taken.2.setBanks banks).noteSum r.issuedAt (casLatency config w),
    issued.stats.modifyQueue config.channel fun q =>
      { q with mergedAccesses := q.mergedAccesses + (taken.1.length - 1) }⟩

/-- The accesses a data command takes out of the queues, leader first. -/
def takenAccesses (s : ControllerState) (w : Bool) (index : Nat) (a : HbmAccess)
    (now : Nat) : List HbmAccess :=
  (takeAccesses config s.ctl w index (leader a now)).1

/-! ### Steps -/

/-- What `drive` has checked before a demand command issues at `now`. -/
structure Demand (c : HbmController) (now : Nat) (w : Bool) (index : Nat) (a : HbmAccess)
    (k : HbmCommand) : Prop where
  idle : c.refreshBusyUntil ≤ now
  quiet : c.Quiet
  access : (c.queue w)[index]? = some a
  planned : plannedCommand config c a = .ok k
  ready : earliestCommand config mapper c k a.address now = .ok now
  yields : k = .preBank → NoneWaits config c a.address.flatBank

/-- A maintenance command issues, at `now` or, during a refresh of an idle channel,
at a time of its own. -/
inductive MaintenanceStep (now : Nat) (s : ControllerState) (candidate : MaintenanceCandidate)
    (time : Nat) : ControllerState → Prop
  | mk {cursor : Nat} {address : HbmAddress} {banks : List HbmBankState}
      (plan : MaintenancePlan config mapper s.ctl cursor candidate)
      (cursor_le : cursor ≤ time)
      (ready : candidate.readyAt ≤ time)
      (prompt : time = now ∨ s.ctl.refreshOwed = true)
      (timely : now ≤ time ∨ ∃ due, s.ctl.nextRefreshDue = some due ∧ due ≤ time)
      (haddress :
        mapper.bankAddress (u32 (config.firstFlatBank + candidate.localBank)) = .ok address)
      (hbanks : transitionBanks config candidate.command 0 candidate.localBank s.ctl.banks =
        .ok banks) :
      MaintenanceStep now s candidate time (maintained config s candidate address banks time)

/-- An ACT or a precharge issues for a queued access. -/
inductive RowStep (now : Nat) (s : ControllerState) : ControllerState → Prop
  | activate {w : Bool} {index bankIndex : Nat} {a : HbmAccess} {banks : List HbmBankState}
      (demand : Demand config mapper s.ctl now w index a .act)
      (local_ : localBank config a.address.flatBank = .ok bankIndex)
      (hbanks : transitionBanks config .act a.address.row bankIndex s.ctl.banks = .ok banks) :
      RowStep now s (activatedState config s w index a
        ⟨.act, a.address, bankIndex, now, some a.sequence⟩ banks)
  | precharge {w : Bool} {index bankIndex : Nat} {a : HbmAccess} {bank : HbmBankState}
      {banks : List HbmBankState}
      (demand : Demand config mapper s.ctl now w index a .preBank)
      (local_ : localBank config a.address.flatBank = .ok bankIndex)
      (bank_at : s.ctl.banks[bankIndex]? = some bank)
      (hbanks : transitionBanks config .preBank a.address.row bankIndex s.ctl.banks = .ok banks) :
      RowStep now s (prechargedState config s w index a
        ⟨.preBank, a.address, bankIndex, now, some a.sequence⟩ bank banks)

/-- A data command issues and reserves the data bus. -/
inductive DataStep (now : Nat) (s : ControllerState) :
    PhysicalAccess → ControllerState → Prop
  | mk {w : Bool} {index bankIndex busReady duration : Nat} {a : HbmAccess} {k : HbmCommand}
      {priority : Nat} {banks : List HbmBankState} {slot : DataSlot}
      (demand : Demand config mapper s.ctl now w index a k)
      (data : k.isData = true)
      (local_ : localBank config a.address.flatBank = .ok bankIndex)
      (hbanks : dataBanks config k a.address.row bankIndex s.ctl.banks = .ok banks)
      (bus : s.ctl.dataBusReadyAt[a.address.pseudoChannel]? = some busReady)
      (hduration : config.dataRate.transferTime a.sizeBytes = .ok duration)
      (hslot : slot = ⟨now, casLatency config w, busReady, duration⟩) :
      DataStep now s
        (physicalAccess config ⟨w, index, k, now, priority⟩ (takenAccesses config s w index a now)
          a.address a.sizeBytes slot)
        (transferredState config s w index a ⟨k, a.address, bankIndex, now, some a.sequence⟩ banks
          slot)

/-- A data command issues, and its transfer cannot be reserved. -/
inductive LostStep (now : Nat) (s : ControllerState) :
    List LogicalAccess → ControllerState → Prop
  | mk {w : Bool} {index bankIndex : Nat} {a : HbmAccess} {k : HbmCommand}
      {banks : List HbmBankState} {e : HbmError}
      (demand : Demand config mapper s.ctl now w index a k)
      (data : k.isData = true)
      (local_ : localBank config a.address.flatBank = .ok bankIndex)
      (hbanks : dataBanks config k a.address.row bankIndex s.ctl.banks = .ok banks)
      (huge : config.dataRate.transferTime a.sizeBytes = .error e) :
      LostStep now s ((takenAccesses config s w index a now).map HbmAccess.toLogicalAccess)
        (takenState config s w index a ⟨k, a.address, bankIndex, now, some a.sequence⟩ banks)

/-- The steps of a controller on its own. Admission, completion and the marks of
scheduled events are steps of the system. -/
inductive ControllerStep (now : Nat) : ControllerState → ControllerState → Prop
  | retouch {s t} (h : Retouched config s t) : ControllerStep now s t
  | raise {s} (due : Nat)
      (bank : config.refreshPolicy = .perBank → s.ctl.nextPerBankRefresh < s.ctl.banks.length)
      (due_le : due ≤ now)
      (in_turn : s.ctl.wrapped = true ∨ ∀ next, s.ctl.nextRefreshDue = some next → due ≤ next) :
      ControllerStep now s (s.modifyCtl (·.raise config due))
  | advanceDue {s} (base : Nat) (base_le : base ≤ now)
      (first : s.ctl.nextRefreshDue = none → base = now ∧ config.refreshInterval ≠ 0)
      (next : ∀ due, s.ctl.nextRefreshDue = some due → base = due) :
      ControllerStep now s (s.modifyCtl (·.advanceDue config base))
  | maintain {s candidate time t} (h : MaintenanceStep config mapper now s candidate time t) :
      ControllerStep now s t
  | row {s t} (h : RowStep config mapper now s t) : ControllerStep now s t

end HbmController

end HbmSim
