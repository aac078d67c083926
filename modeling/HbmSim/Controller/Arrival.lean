import HbmSim.Controller.Admission
import HbmSim.Lib.Lockstep

/-!
What a controller does before an arrival depends on.

`prepare_refresh_for_arrival` looks at the banks and the times of the commands. The queues, the
reserved slots, the marks of scheduled events and the statistics have no influence on it, and
of these it changes the statistics only.
-/

namespace HbmSim

open HbmSim.Lib

namespace HbmController

variable {config : HbmControllerConfig} {mapper : HbmAddressMapper}

/-- The refreshes of one controller with the queues, slots and marks of another. -/
def withQueues (c queues : HbmController) : HbmController :=
  { c with
    readQueue := queues.readQueue
    writeQueue := queues.writeQueue
    reservedReads := queues.reservedReads
    reservedWrites := queues.reservedWrites
    outstandingAccesses := queues.outstandingAccesses
    wakeupAt := queues.wakeupAt
    refreshDueAt := queues.refreshDueAt }

/-- The second controller is the first with the queues given. -/
def Requeued (queues : HbmController) (s t : ControllerState) : Prop :=
  t.ctl = s.ctl.withQueues queues

/-- Its refreshes keep a controller in step with one that has other queues. -/
abbrev Unqueued {α : Type} (queues : HbmController) (x : ControllerM α) : Prop :=
  Lockstep (Requeued queues) x

variable {queues : HbmController}

/-- Reading what does not depend on the queues. -/
theorem Requeued.read {α : Type} {k : ControllerState → ControllerM α}
    (same : ∀ s stats, k ⟨s.ctl.withQueues queues, stats⟩ = k s)
    (rest : ∀ s, Unqueued queues (k s)) : Unqueued queues (get >>= k) := by
  refine .getBind (fun s t states => ?_) rest
  obtain ⟨c, stats⟩ := t
  obtain rfl : c = s.ctl.withQueues queues := states
  exact (same s stats).symm

/-- Writing what does not depend on the queues. -/
theorem Requeued.write {h : ControllerState → ControllerState}
    (same : ∀ s stats, (h ⟨s.ctl.withQueues queues, stats⟩).ctl = (h s).ctl.withQueues queues) :
    Unqueued queues (modify h : ControllerM PUnit) := by
  refine .modify fun s t states => ?_
  obtain ⟨c, stats⟩ := t
  obtain rfl : c = s.ctl.withQueues queues := states
  exact same s stats

/-! ### Maintenance -/

theorem bankCandidate_withQueues (c : HbmController) (now : Nat) (anyOpen : Bool) (index : Nat)
    (bank : HbmBankState) (requested : HbmCommand) :
    bankCandidate config mapper (c.withQueues queues) now anyOpen index bank requested =
      bankCandidate config mapper c now anyOpen index bank requested := rfl

/-- The choice of maintenance does not read the queues. -/
theorem chooseBankMaintenance_withQueues (c : HbmController) (now : Nat) (anyOpen : Bool)
    (index : Nat) (banks : List HbmBankState) (earliest : Option MaintenanceCandidate) :
    chooseBankMaintenance config mapper (c.withQueues queues) now anyOpen index banks earliest =
      chooseBankMaintenance config mapper c now anyOpen index banks earliest := by
  induction banks generalizing index earliest with
  | nil => rfl
  | cons bank rest ih =>
      unfold chooseBankMaintenance
      cases requestedMaintenance bank with
      | none => exact ih _ _
      | some requested => simp only [ih, bankCandidate_withQueues]

/-- The queues have no influence on the choice of a maintenance command. -/
theorem chooseMaintenance_withQueues (c : HbmController) (now : Nat) :
    chooseMaintenance config mapper (c.withQueues queues) now =
      chooseMaintenance config mapper c now := by
  unfold chooseMaintenance
  show (if c.refreshPending = true then _ else chooseBankMaintenance config mapper
    (c.withQueues queues) now c.anyOpen 0 c.banks none) = _
  rw [chooseBankMaintenance_withQueues]
  rfl

theorem recordCommand_unqueued (r : RecordedCommand) :
    Unqueued queues (recordCommand config r) := by
  unfold recordCommand
  refine .ite (fun _ => .bind (.throw _) fun _ => ?_) fun _ => ?_
  all_goals exact Requeued.write fun _ _ => rfl

theorem applyTransition_unqueued (command : HbmCommand) (row bankIndex : Nat) :
    Unqueued queues (applyTransition config command row bankIndex) := by
  unfold applyTransition
  refine Requeued.read (fun _ _ => rfl) fun s => ?_
  exact .bind (.ofExcept _) fun _ => Requeued.write fun _ _ => rfl

theorem issueMaintenance_unqueued (candidate : MaintenanceCandidate) (now : Nat) :
    Unqueued queues (issueMaintenance config mapper candidate now) := by
  unfold issueMaintenance
  refine .bind (.ofExcept _) fun address => .bind (recordCommand_unqueued _) fun _ => ?_
  refine .bind (applyTransition_unqueued _ _ _) fun _ => ?_
  have settles : Unqueued queues (modify fun s : ControllerState =>
      ⟨(s.ctl.settleMaintenance candidate.requested candidate.localBank).blockUntil now
          (maintenanceDuration candidate.requested config.timing),
        countMaintenance config s.stats candidate.requested⟩ : ControllerM PUnit) := by
    refine Requeued.write fun s _ => ?_
    unfold settleMaintenance
    cases candidate.requested <;> rfl
  refine .ite (fun _ => ?_) fun _ => .pure _
  exact .ite (fun _ => .bind (.throw _) fun _ => settles) fun _ => settles

theorem raiseRefresh_unqueued (due : Nat) : Unqueued queues (raiseRefresh config due) := by
  unfold raiseRefresh
  refine Requeued.read (fun _ _ => rfl) fun s => ?_
  refine .ite (fun _ => Requeued.write fun _ _ => rfl) fun _ => ?_
  exact .bind (.ofExcept _) fun _ => Requeued.write fun _ _ => rfl

theorem idleRefreshLoop_unqueued (rounds cursor : Nat) :
    Unqueued queues (idleRefreshLoop config mapper rounds cursor) := by
  induction rounds generalizing cursor with
  | zero =>
      unfold idleRefreshLoop
      refine Requeued.read (fun _ _ => rfl) fun s => ?_
      exact .ite (fun _ => .pure _) fun _ => .throw _
  | succ rounds ih =>
      unfold idleRefreshLoop
      refine Requeued.read (fun s _ => ?_) fun s => ?_
      · dsimp only
        rw [chooseMaintenance_withQueues]
        rfl
      refine .ite (fun _ => .pure _) fun _ => .bind (.ofExcept _) fun found => ?_
      cases found with
      | none => exact .throw _
      | some candidate =>
          refine .bind (issueMaintenance_unqueued candidate _) fun _ => ?_
          exact Requeued.read (fun _ _ => rfl) fun _ => ih _

theorem applyIdleRefresh_unqueued (due : Nat) :
    Unqueued queues (applyIdleRefresh config mapper due) := by
  unfold applyIdleRefresh
  refine .bind (raiseRefresh_unqueued due) fun _ => ?_
  exact Requeued.read (fun _ _ => rfl) fun _ => idleRefreshLoop_unqueued _ _

/-! ### Arrivals -/

theorem catchUpRefresh_unqueued (rounds now : Nat) :
    Unqueued queues (catchUpRefresh config mapper rounds now) := by
  induction rounds with
  | zero =>
      unfold catchUpRefresh
      refine Requeued.read (fun _ _ => rfl) fun s => ?_
      cases s.ctl.nextRefreshDue with
      | none => exact .pure _
      | some due => exact .ite (fun _ => .throw _) fun _ => .pure _
  | succ rounds ih =>
      unfold catchUpRefresh
      refine Requeued.read (fun _ _ => rfl) fun s => ?_
      cases s.ctl.nextRefreshDue with
      | none => exact .pure _
      | some due =>
          refine .ite (fun _ => .bind (applyIdleRefresh_unqueued due) fun _ => ?_) fun _ => .pure _
          exact .bind (Requeued.write fun _ _ => rfl) fun _ => ih

theorem prepareRefreshForArrival_unqueued (now : Nat) :
    Unqueued queues (prepareRefreshForArrival config mapper now) := by
  unfold prepareRefreshForArrival
  refine .ite (fun _ => ?_) fun _ => .pure _
  refine .bind (Requeued.write fun s _ => ?_) fun _ => catchUpRefresh_unqueued _ now
  show (s.ctl.withQueues queues).startRefresh config now =
    (s.ctl.startRefresh config now).withQueues queues
  unfold startRefresh
  rw [show (s.ctl.withQueues queues).nextRefreshDue = s.ctl.nextRefreshDue from rfl]
  cases s.ctl.nextRefreshDue <;> rfl

/-- No due instant has passed, and there is one if the channel is refreshed. -/
structure Prepared (config : HbmControllerConfig) (now : Nat) (c : HbmController) : Prop where
  found : config.refreshInterval ≠ 0 → c.nextRefreshDue ≠ none
  later : ∀ due, c.nextRefreshDue = some due → now < due

/-- After the catch-up no refresh is overdue. -/
theorem catchUpRefresh_prepared (rounds now : Nat) {s : ControllerState}
    (some : s.ctl.nextRefreshDue ≠ none) :
    Exits (catchUpRefresh config mapper rounds now) (fun _ t => Prepared config now t.ctl)
      (fun _ _ => True) s := by
  induction rounds generalizing s with
  | zero =>
      unfold catchUpRefresh
      simp only [exits_bind, exits_get]
      cases next : s.ctl.nextRefreshDue with
      | none => exact absurd next some
      | some due =>
          simp only [exits_ite, exits_throw, exits_pure]
          refine ⟨fun _ => trivial, fun later => ⟨fun _ => some, fun due' hdue => ?_⟩⟩
          obtain rfl := Option.some.inj (next.symm.trans hdue)
          exact Nat.not_le.mp later
  | succ rounds ih =>
      unfold catchUpRefresh
      simp only [exits_bind, exits_get]
      cases next : s.ctl.nextRefreshDue with
      | none => exact absurd next some
      | some due =>
          simp only [exits_ite, exits_bind, exits_modify, exits_pure]
          refine ⟨fun _ => ?_, fun later => ⟨fun _ => some, fun due' hdue => ?_⟩⟩
          · refine (Exits.self _ _).mono (fun _ t _ => ih ?_) fun _ _ _ => trivial
            exact Option.some_ne_none _
          · obtain rfl := Option.some.inj (next.symm.trans hdue)
            exact Nat.not_le.mp later

/-- Where no refresh is configured nothing may be due. -/
theorem prepareRefreshForArrival_prepared (now : Nat) {s : ControllerState}
    (never : config.refreshInterval = 0 → s.ctl.nextRefreshDue = none) :
    Exits (prepareRefreshForArrival config mapper now) (fun _ t => Prepared config now t.ctl)
      (fun _ _ => True) s := by
  unfold prepareRefreshForArrival
  simp only [exits_ite, exits_bind, exits_modify, exits_pure]
  refine ⟨fun _ => catchUpRefresh_prepared _ now ?_, fun off => ⟨fun on => absurd on off, ?_⟩⟩
  · show (s.ctl.startRefresh config now).nextRefreshDue ≠ none
    unfold startRefresh
    cases next : s.ctl.nextRefreshDue with
    | none => exact Option.some_ne_none _
    | some due => rw [next]; exact Option.some_ne_none _
  · intro due next
    rw [never (not_not.mp off)] at next
    cases next

/-- A second arrival finds nothing to do. -/
theorem Prepared.still {now : Nat} {s : ControllerState} (prepared : Prepared config now s.ctl) :
    prepareRefreshForArrival config mapper now s = .ok () s := by
  have done : Exits (prepareRefreshForArrival config mapper now) (fun _ t => t = s)
      (fun _ _ => False) s := by
    unfold prepareRefreshForArrival
    simp only [exits_ite, exits_bind, exits_modify, exits_pure]
    refine ⟨fun on => ?_, fun _ => trivial⟩
    cases next : s.ctl.nextRefreshDue with
    | none => exact absurd next (prepared.found on)
    | some due =>
        have started : s.ctl.startRefresh config now = s.ctl := by simp [startRefresh, next]
        rw [ControllerState.modifyCtl, started, show (2 : Nat) ^ 64 = (2 ^ 64 - 1) + 1 from rfl]
        unfold catchUpRefresh
        simp only [exits_bind, exits_get, next, exits_ite, exits_pure]
        exact ⟨fun passed => absurd (prepared.later due next) (Nat.not_lt.mpr passed),
          fun _ => trivial⟩
  unfold Exits at done
  split at done
  · rename_i run
    rw [run, done]
  · exact done.elim

end HbmController

end HbmSim
