import HbmSim.Controller.Drive
import HbmSim.Lib.Stays

/-!
What the refresh handling and the accounting of a controller do to its queues and its
commands.

They leave the queues alone and record maintenance commands at most. A relation that allows
these records, and that speaks about nothing else, is one that each of them stays within,
also when it throws.
-/

namespace HbmSim

open HbmSim.Lib

namespace HbmController

/-- The queues and the recorded commands are all the relation speaks about, and it allows a
maintenance command to be recorded. -/
structure Footprint (config : HbmControllerConfig) (R : ControllerState → ControllerState → Prop) :
    Prop where
  members : ∀ {s t : ControllerState}, t.ctl.readQueue = s.ctl.readQueue →
    t.ctl.writeQueue = s.ctl.writeQueue → t.ctl.recorded = s.ctl.recorded → R s t
  record : ∀ s r, r.sequence = none →
    R s ⟨s.ctl.stampCommand config r, countCommand config s.stats r⟩

namespace Footprint

variable {config : HbmControllerConfig} {mapper : HbmAddressMapper}
  {R : ControllerState → ControllerState → Prop} [Std.Refl R] [IsTrans ControllerState R]

/-! ### Refresh -/

/-- A maintenance command is recorded. -/
theorem recordCommand (h : Footprint config R) {r : RecordedCommand}
    (maintenance : r.sequence = none) :
    Stays R (HbmController.recordCommand config r) := by
  unfold HbmController.recordCommand
  refine .ite (fun _ => .bind (.throw _) fun _ => ?_) fun _ => ?_
  all_goals exact .modify fun s => h.record s r maintenance

/-- A bank changes. -/
theorem applyTransition (h : Footprint config R) (command : HbmCommand) (row bankIndex : Nat) :
    Stays R (HbmController.applyTransition config command row bankIndex) := by
  unfold HbmController.applyTransition
  refine .bind .get fun s => ?_
  exact .bind (.ofExcept _) fun _ => .modify fun _ => h.members rfl rfl rfl

/-- A maintenance command is issued. -/
theorem issueMaintenance (h : Footprint config R) (candidate : MaintenanceCandidate) (now : Nat) :
    Stays R (HbmController.issueMaintenance config mapper candidate now) := by
  unfold HbmController.issueMaintenance
  refine .bind (.ofExcept _) fun address => ?_
  refine .bind (h.recordCommand rfl) fun _ => ?_
  refine .bind (h.applyTransition _ _ _) fun _ => ?_
  refine .ite (fun _ => ?_) fun _ => .pure _
  refine .ite (fun _ => .bind (.throw _) fun _ => ?_) fun _ => ?_
  all_goals
    refine .modify fun s => h.members ?_ ?_ ?_
    all_goals
      unfold settleMaintenance
      split <;> rfl

/-- A refresh is raised. -/
theorem raiseRefresh (h : Footprint config R) (due : Nat) :
    Stays R (HbmController.raiseRefresh config due) := by
  unfold HbmController.raiseRefresh
  refine .bind .get fun s => ?_
  refine .ite (fun _ => .modify fun _ => h.members rfl rfl rfl) fun _ => ?_
  exact .bind (.ofExcept _) fun _ => .modify fun _ => h.members rfl rfl rfl

/-- Maintenance is caught up with, round by round. -/
theorem idleRefreshLoop (h : Footprint config R) (rounds cursor : Nat) :
    Stays R (HbmController.idleRefreshLoop config mapper rounds cursor) := by
  induction rounds generalizing cursor with
  | zero =>
      unfold HbmController.idleRefreshLoop
      refine .bind .get fun s => ?_
      exact .ite (fun _ => .pure _) fun _ => .throw _
  | succ rounds ih =>
      unfold HbmController.idleRefreshLoop
      refine .bind .get fun s => ?_
      refine .ite (fun _ => .pure _) fun _ => ?_
      refine .bind (.ofExcept _) fun candidate => ?_
      cases candidate with
      | none => exact .throw _
      | some candidate =>
          refine .bind (h.issueMaintenance _ _) fun _ => ?_
          exact .bind .get fun _ => ih _

/-- One overdue refresh is caught up with. -/
theorem applyIdleRefresh (h : Footprint config R) (due : Nat) :
    Stays R (HbmController.applyIdleRefresh config mapper due) := by
  unfold HbmController.applyIdleRefresh
  refine .bind (h.raiseRefresh due) fun _ => ?_
  exact .bind .get fun _ => h.idleRefreshLoop _ _

/-- All overdue refreshes are. -/
theorem catchUpRefresh (h : Footprint config R) (rounds now : Nat) :
    Stays R (HbmController.catchUpRefresh config mapper rounds now) := by
  induction rounds with
  | zero =>
      unfold HbmController.catchUpRefresh
      refine .bind .get fun s => ?_
      cases s.ctl.nextRefreshDue with
      | none => exact .pure _
      | some due => exact .ite (fun _ => .throw _) fun _ => .pure _
  | succ rounds ih =>
      unfold HbmController.catchUpRefresh
      refine .bind .get fun s => ?_
      cases s.ctl.nextRefreshDue with
      | none => exact .pure _
      | some due =>
          refine .ite (fun _ => ?_) fun _ => .pure _
          refine .bind (h.applyIdleRefresh due) fun _ => ?_
          exact .bind (.modify fun _ => h.members rfl rfl rfl) fun _ => ih

omit [Std.Refl R] [IsTrans ControllerState R] in

/-- The first instant is set on an arrival. -/
theorem startRefresh (h : Footprint config R) (now : Nat) (s : ControllerState) :
    R s (s.modifyCtl fun c => c.startRefresh config now) := by
  apply h.members
  all_goals
    unfold ControllerState.modifyCtl HbmController.startRefresh
    dsimp only
    split <;> rfl

/-- The refreshes are prepared for an arrival. -/
theorem prepareRefreshForArrival (h : Footprint config R) (now : Nat) :
    Stays R (HbmController.prepareRefreshForArrival config mapper now) := by
  unfold HbmController.prepareRefreshForArrival
  refine .ite (fun _ => ?_) fun _ => .pure _
  exact .bind (.modify (h.startRefresh now)) fun _ => h.catchUpRefresh _ _

/-- A refresh event is handled. -/
theorem handleRefreshEvent (h : Footprint config R) (now : Nat) :
    Stays R (HbmController.handleRefreshEvent config mapper now) := by
  unfold HbmController.handleRefreshEvent
  refine .bind .get fun s => ?_
  refine .ite (fun _ => ?_) fun _ => .pure _
  refine .bind (.modify fun _ => h.members rfl rfl rfl) fun _ => ?_
  refine .ite (fun _ => ?_) fun _ => .pure _
  refine .bind (.modify fun _ => h.members rfl rfl rfl) fun _ => ?_
  exact .ite (fun _ => h.applyIdleRefresh _) fun _ => h.raiseRefresh _

/-! ### Accounting -/

/-- Slots are reserved. -/
theorem reserve (h : Footprint config R) (reads writes : Nat) :
    Stays R (HbmController.reserve config reads writes) := by
  unfold HbmController.reserve
  refine .bind .get fun s => ?_
  refine .ite (fun _ => .bind (.throw _) fun _ => ?_) fun _ => ?_
  all_goals exact .modify fun _ => h.members rfl rfl rfl

/-- A completion is counted. -/
theorem completeAccess (h : Footprint config R) (access : LogicalCompletion) :
    Stays R (HbmController.completeAccess config access) := by
  unfold HbmController.completeAccess
  refine .bind .get fun s => ?_
  refine .ite (fun _ => .bind (.throw _) fun _ => ?_) fun _ => ?_
  all_goals exact .modify fun _ => h.members rfl rfl rfl

/-! ### Marks -/

omit [Std.Refl R] [IsTrans ControllerState R]

theorem clearWakeup (h : Footprint config R) (at_ : Nat) :
    Stays R (modify fun s => s.modifyCtl (·.clearWakeup at_) : ControllerM PUnit) := by
  refine .modify fun s => ?_
  apply h.members
  all_goals
    unfold ControllerState.modifyCtl HbmController.clearWakeup
    dsimp only
    split <;> rfl

theorem markWakeup (h : Footprint config R) (at_ : Nat) :
    Stays R (modifyGet fun s =>
      let (needed, c) := s.ctl.markWakeup at_
      (needed, { s with ctl := c }) : ControllerM Bool) := by
  have marked : ∀ c : HbmController, (c.markWakeup at_).2.readQueue = c.readQueue ∧
      (c.markWakeup at_).2.writeQueue = c.writeQueue ∧
      (c.markWakeup at_).2.recorded = c.recorded := by
    intro c
    unfold HbmController.markWakeup
    split
    · split <;> exact ⟨rfl, rfl, rfl⟩
    · exact ⟨rfl, rfl, rfl⟩
  refine .modifyGet fun s => ?_
  obtain ⟨reads, writes, recorded⟩ := marked s.ctl
  exact h.members reads writes recorded

theorem claimRefreshEvent (h : Footprint config R) :
    Stays R (modifyGet fun s =>
      let (due, c) := s.ctl.claimRefreshEvent
      (due, { s with ctl := c }) : ControllerM (Option Nat)) := by
  have claimed : ∀ c : HbmController, c.claimRefreshEvent.2.readQueue = c.readQueue ∧
      c.claimRefreshEvent.2.writeQueue = c.writeQueue ∧
      c.claimRefreshEvent.2.recorded = c.recorded := by
    intro c
    unfold HbmController.claimRefreshEvent
    split
    · exact ⟨rfl, rfl, rfl⟩
    · split <;> exact ⟨rfl, rfl, rfl⟩
  refine .modifyGet fun s => ?_
  obtain ⟨reads, writes, recorded⟩ := claimed s.ctl
  exact h.members reads writes recorded

end Footprint

end HbmController

end HbmSim
