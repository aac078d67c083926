import HbmSim.Controller.Effects

/-!
Slots, admission and completion: the member functions that only move counters
and push onto a queue.
-/

namespace HbmSim

open HbmSim.Lib

namespace HbmController

variable {config : HbmControllerConfig} {mapper : HbmAddressMapper} {s t : ControllerState}
  {now : Nat}

/-! ### Effects -/

/-- The state after `reserve` of one slot. -/
def reserved (s : ControllerState) (write : Bool) : ControllerState :=
  s.modifyCtl fun c =>
    { c with
      reservedReads := c.reservedReads + (!write).toNat
      reservedWrites := c.reservedWrites + write.toNat }

def reservedSlots (c : HbmController) (write : Bool) : Nat :=
  if write then c.reservedWrites else c.reservedReads

/-- The members after an access is pushed into its reserved slot. -/
def push (c : HbmController) (access : HbmAccess) : HbmController :=
  let write := access.op.isWrite
  { c with
    readQueue := if write then c.readQueue else c.readQueue ++ [access]
    writeQueue := if write then c.writeQueue ++ [access] else c.writeQueue
    reservedReads := c.reservedReads - (!write).toNat
    reservedWrites := c.reservedWrites - write.toNat
    outstandingAccesses := c.outstandingAccesses + 1 }

/-- The state after `admit_reserved` has pushed the access. -/
def pushed (config : HbmControllerConfig) (s : ControllerState) (access : HbmAccess) :
    ControllerState :=
  ⟨s.ctl.push access, s.stats.modifyQueue config.channel fun q =>
    { q with
      maxReadDepth := max q.maxReadDepth (s.ctl.push access).readQueue.length
      maxWriteDepth := max q.maxWriteDepth (s.ctl.push access).writeQueue.length }⟩

/-- The state after `complete_access`. -/
def finished (config : HbmControllerConfig) (s : ControllerState) (access : LogicalCompletion) :
    ControllerState :=
  ⟨{ s.ctl with outstandingAccesses := s.ctl.outstandingAccesses - 1 },
    countClass (s.stats.modifyChannel config.channel fun ch =>
      { ch with completedBytes := ch.completedBytes + access.sizeBytes }) access.accessClass⟩

@[simp] theorem push_queue (c : HbmController) (a : HbmAccess) (w : Bool) :
    (c.push a).queue w = if w = a.op.isWrite then c.queue w ++ [a] else c.queue w := by
  unfold push
  cases h : a.op <;> cases w <;> rfl

/-- A slot of the given queue is free. -/
def free (config : HbmControllerConfig) (c : HbmController) (write : Bool) : Bool :=
  c.canReserve config (!write).toNat write.toNat

/-! ### Specifications -/

theorem reserve_exits {write : Bool} (free : s.ctl.free config write = true) :
    Exits (reserve config (!write).toNat write.toNat) (fun _ t => t = reserved s write)
      (fun _ _ => False) s := by
  unfold reserve
  unfold HbmController.free at free
  simp only [exits_bind, exits_get, free, Bool.not_true, Bool.false_eq_true, if_false,
    exits_modify]
  rfl

theorem pushReserved_exits {a : HbmAccess}
    (slot : s.ctl.reservedSlots a.op.isWrite ≠ 0) :
    Exits (pushReserved config a) (fun _ t => t = pushed config s a) (fun _ _ => False) s := by
  unfold pushReserved
  cases h : a.op with
  | read =>
      have hslot : s.ctl.reservedReads ≠ 0 := by
        simpa [reservedSlots, h, HbmOp.isWrite] using slot
      simp only [exits_bind, exits_get, if_true, hslot, if_false, exits_modify]
      simp [pushed, push, h, HbmOp.isWrite, ControllerState.modifyCtl]
  | write =>
      have hslot : s.ctl.reservedWrites ≠ 0 := by
        simpa [reservedSlots, h, HbmOp.isWrite] using slot
      simp only [exits_bind, exits_get, reduceCtorEq, hslot, if_false, exits_modify]
      simp [pushed, push, h, HbmOp.isWrite, ControllerState.modifyCtl]

theorem completeAccess_exits {access : LogicalCompletion}
    (live : s.ctl.outstandingAccesses ≠ 0) :
    Exits (completeAccess config access) (fun _ t => t = finished config s access)
      (fun _ _ => False) s := by
  unfold completeAccess
  simp only [exits_bind, exits_get, live, if_false, exits_modify]
  rfl

end HbmController

end HbmSim
