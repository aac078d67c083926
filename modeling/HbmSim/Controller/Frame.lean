import HbmSim.Controller.Admission
import HbmSim.Controller.DriveEffects

/-!
What the steps of a controller leave alone: the marks of scheduled events, the
counters of admission, and the accesses themselves.
-/

namespace HbmSim

open HbmSim.Lib

/-- The members that only the system's calls change. -/
structure SameMarks (c c' : HbmController) : Prop where
  wakeupAt : c'.wakeupAt = c.wakeupAt
  refreshDueAt : c'.refreshDueAt = c.refreshDueAt
  outstandingAccesses : c'.outstandingAccesses = c.outstandingAccesses
  reservedReads : c'.reservedReads = c.reservedReads
  reservedWrites : c'.reservedWrites = c.reservedWrites

/-- The reservations are among the marks. -/
theorem SameMarks.reservedSlots {c c' : HbmController} (h : SameMarks c c') (w : Bool) :
    c'.reservedSlots w = c.reservedSlots w := by
  unfold HbmController.reservedSlots
  rw [h.reservedReads, h.reservedWrites]

namespace HbmController

variable {config : HbmControllerConfig} {mapper : HbmAddressMapper} {s t : ControllerState}
  {now : Nat}

theorem ControllerStep.marks (step : ControllerStep config mapper now s t) :
    SameMarks s.ctl t.ctl := by
  cases step with
  | retouch touched =>
      rw [touched.ctl]
      exact ⟨rfl, rfl, rfl, rfl, rfl⟩
  | raise due =>
      show SameMarks s.ctl (s.ctl.raise config due)
      rw [raise_frame]
      exact ⟨rfl, rfl, rfl, rfl, rfl⟩
  | advanceDue base => exact ⟨rfl, rfl, rfl, rfl, rfl⟩
  | maintain step =>
      rw [step.frame]
      exact ⟨rfl, rfl, rfl, rfl, rfl⟩
  | row step =>
      rw [step.frame]
      exact ⟨rfl, rfl, rfl, rfl, rfl⟩

theorem DataStep.marks {phys : PhysicalAccess} (step : DataStep config mapper now s phys t) :
    SameMarks s.ctl t.ctl := by
  rw [step.frame]
  exact ⟨rfl, rfl, rfl, rfl, rfl⟩

theorem LostStep.marks {lost : List LogicalAccess} (step : LostStep config mapper now s lost t) :
    SameMarks s.ctl t.ctl := by
  rw [step.frame]
  exact ⟨rfl, rfl, rfl, rfl, rfl⟩

/-- The reports leave the logical accesses. -/
theorem Retouched.logical (h : Retouched config s t) (w : Bool) :
    (t.ctl.queue w).map HbmAccess.toLogicalAccess =
      (s.ctl.queue w).map HbmAccess.toLogicalAccess := by
  have cores := congrArg (List.map HbmAccess.toLogicalAccess) (h.queue w)
  have same : HbmAccess.toLogicalAccess ∘ HbmAccess.core = HbmAccess.toLogicalAccess := rfl
  rwa [List.map_map, List.map_map, same] at cores

/-- Maintenance leaves the queues. -/
theorem MaintenanceStep.queue {candidate : MaintenanceCandidate} {time : Nat}
    (step : MaintenanceStep config mapper now s candidate time t) (w : Bool) :
    t.ctl.queue w = s.ctl.queue w := by
  cases step with
  | mk => exact maintained_queue w

/-- A row command leaves the logical accesses. -/
theorem RowStep.logical (step : RowStep config mapper now s t) (w : Bool) :
    (t.ctl.queue w).map HbmAccess.toLogicalAccess =
      (s.ctl.queue w).map HbmAccess.toLogicalAccess := by
  cases step with
  | activate demand =>
      rw [activatedState_queue]
      split
      · subst w
        exact modify_logical demand.access (by simp)
      · rfl
  | precharge demand =>
      rw [prechargedState_queue]
      split
      · subst w
        exact modify_logical demand.access (by simp)
      · rfl

/-- No step but a data command changes which accesses are queued. -/
theorem ControllerStep.logical (step : ControllerStep config mapper now s t) (w : Bool) :
    (t.ctl.queue w).map HbmAccess.toLogicalAccess =
      (s.ctl.queue w).map HbmAccess.toLogicalAccess := by
  cases step with
  | retouch touched => exact Retouched.logical touched w
  | raise due =>
      show ((s.ctl.raise config due).queue w).map _ = _
      rw [raise_queue]
  | advanceDue base => rfl
  | maintain step => rw [step.queue]
  | row step => exact step.logical w

/-- The accesses in the queues, reads first. -/
def queued (c : HbmController) : List LogicalAccess :=
  (c.queue false).map HbmAccess.toLogicalAccess ++ (c.queue true).map HbmAccess.toLogicalAccess

/-- No step but a transfer takes an access. -/
theorem ControllerStep.queued (step : ControllerStep config mapper now s t) :
    t.ctl.queued = s.ctl.queued := by
  unfold HbmController.queued
  rw [step.logical, step.logical]

/-- A transfer reports the accesses it took. -/
theorem physicalAccess_served {candidate : Candidate} {taken : List HbmAccess}
    {address : HbmAddress} {bytes : Nat} {slot : DataSlot} :
    (physicalAccess config candidate taken address bytes slot).completions.map
      LogicalCompletion.toLogicalAccess = taken.map HbmAccess.toLogicalAccess := by
  simp only [physicalAccess, servedAccesses, List.map_map]
  refine List.map_congr_left fun b _ => ?_
  show (finishAccess (startAccess b slot.issuedAt) slot).toLogicalAccess = b.toLogicalAccess
  unfold startAccess
  split <;> rfl

variable (config) in
/-- What a data command takes out of the queues and what stays queued. -/
theorem takeAccesses_queued {c : HbmController} {w : Bool} {index : Nat} {a : HbmAccess}
    (access : (c.queue w)[index]? = some a) (now : Nat) :
    ((takeAccesses config c w index (leader a now)).1.map HbmAccess.toLogicalAccess ++
      (takeAccesses config c w index (leader a now)).2.queued).Perm c.queued := by
  have taken : (((takeAccesses config c w index (leader a now)).1 ++
      (takeAccesses config c w index (leader a now)).2.queue w).map
        HbmAccess.toLogicalAccess).Perm ((c.queue w).map HbmAccess.toLogicalAccess) :=
    takeAccesses_perm access (leader_logical a now)
  have other : (takeAccesses config c w index (leader a now)).2.queue (!w) = c.queue (!w) :=
    takeAccesses_other
  unfold HbmController.queued
  rw [List.map_append] at taken
  cases w with
  | false =>
      rw [show (takeAccesses config c false index (leader a now)).2.queue true =
        c.queue true from other, ← List.append_assoc]
      exact taken.append_right _
  | true =>
      rw [show (takeAccesses config c true index (leader a now)).2.queue false =
        c.queue false from other]
      refine .trans ?_ (taken.append_left _)
      rw [← List.append_assoc, ← List.append_assoc]
      exact List.perm_append_comm.append_right _

/-- A data command takes the accesses it serves out of the queues. -/
theorem DataStep.queued {phys : PhysicalAccess} (step : DataStep config mapper now s phys t) :
    (phys.completions.map LogicalCompletion.toLogicalAccess ++ t.ctl.queued).Perm
      s.ctl.queued := by
  cases step with
  | @mk w index _ _ _ a _ _ _ slot demand =>
      have taken := takeAccesses_queued config demand.access now
      rw [physicalAccess_served]
      unfold HbmController.queued at taken ⊢
      simpa only [transferredState_queue, takenAccesses] using taken

/-- A data command without a transfer loses the accesses it takes. -/
theorem LostStep.queued {lost : List LogicalAccess} (step : LostStep config mapper now s lost t) :
    (lost ++ t.ctl.queued).Perm s.ctl.queued := by
  cases step with
  | @mk w index _ a _ _ _ demand =>
      have taken := takeAccesses_queued config demand.access now
      unfold HbmController.queued at taken ⊢
      simpa only [takenState_queue, takenAccesses] using taken

/-- A step keeps the lengths of the queues. -/
theorem ControllerStep.queue_length (step : ControllerStep config mapper now s t) (w : Bool) :
    (t.ctl.queue w).length = (s.ctl.queue w).length := by
  simpa using congrArg List.length (step.logical w)

end HbmController

end HbmSim
