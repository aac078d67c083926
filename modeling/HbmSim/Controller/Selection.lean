import HbmSim.Controller.DriveEffects
import HbmSim.Lib.Stays

/-!
The selection of a demand command.

Outside a refresh window and without pending maintenance, `drive` selects a candidate,
updating the marks on its way, and issues it if it is ready. Issuing records the command of
the selected access and nothing else.
-/

namespace HbmSim

open HbmSim.Lib

namespace HbmController

section

variable (config : HbmControllerConfig) (mapper : HbmAddressMapper)

/-- The marks `drive` sets before it chooses a demand command, and the choice. -/
def select (now : Nat) : ControllerM (Option Candidate) := do
  modify fun s => updateStarvation config s now
  modify fun s => s.modifyCtl fun c => c.updateWriteDrain config
  chooseNext config mapper now

/-- `drive` at `now` would select the candidate, for the access `a`, and leave the state `t` at
that point. -/
structure Selects (s : ControllerState) (now : Nat) (t : ControllerState) (candidate : Candidate)
    (a : HbmAccess) : Prop where
  run : select config mapper now s = .ok (some candidate) t
  access : (t.ctl.queue candidate.isWrite)[candidate.index]? = some a

/-- The later state has the command recorded, and nothing else since the earlier one. -/
def Appends (r : RecordedCommand) (s t : ControllerState) : Prop :=
  t.ctl.recorded = r :: s.ctl.recorded

/-- `drive` at `now` issues the planned command of the access. -/
def Issues (s : ControllerState) (now : Nat) (candidate : Candidate) (a : HbmAccess) : Prop :=
  ∃ bank, Appends ⟨candidate.command, a.address, bank, now, some a.sequence⟩ s
    (exitState (drive config mapper now s))

end

variable {config : HbmControllerConfig} {mapper : HbmAddressMapper} {s t : ControllerState}
  {now : Nat} {candidate : Candidate} {a : HbmAccess}

/-! ### The choice -/

/-- The candidate `choose_next` makes of the scheduler's choice. -/
def ofScheduler (selected : SchedulerCandidate) : Candidate :=
  ⟨selected.isWrite, selected.queueIndex, toHbmCommand selected.command, selected.readyAt,
    if selected.rowHit then 3 else if selected.dataCommand then 2 else 1⟩

/-- The candidate loop of `choose_next` over the active queue. -/
def scanActive (config : HbmControllerConfig) (mapper : HbmAddressMapper) (c : HbmController)
    (now : Nat) : List HbmAccess × Except HbmError (List SchedulerCandidate) :=
  scanQueue config mapper c c.activeSide now 0 (c.queue c.activeSide)

/-- The choice among the candidates of a queue. -/
def choice (config : HbmControllerConfig) (mapper : HbmAddressMapper) (c : HbmController)
    (now : Nat) (candidates : Except HbmError (List SchedulerCandidate)) :
    Except HbmError (Option Candidate) := do
  match config.scheduler.choose (← candidates) now with
  | none => return none
  | some selected => return some (← yieldPrecharge config mapper c now (ofScheduler selected))

/-- `choose_next` marks the active queue and chooses among its candidates. -/
theorem chooseNext_eq :
    chooseNext config mapper now s =
      (ofExcept (choice config mapper
        (s.ctl.setQueue s.ctl.activeSide (scanActive config mapper s.ctl now).1) now
        (scanActive config mapper s.ctl now).2) : ControllerM (Option Candidate))
          (s.modifyCtl (·.setQueue s.ctl.activeSide (scanActive config mapper s.ctl now).1)) := by
  have run : chooseNext config mapper now s = (do
      match config.scheduler.choose (← ofExcept (scanActive config mapper s.ctl now).2) now with
      | none => return none
      | some selected =>
          let c := (← get).ctl
          return some (← ofExcept (yieldPrecharge config mapper c now (ofScheduler selected))) :
        ControllerM (Option Candidate))
          (s.modifyCtl (·.setQueue s.ctl.activeSide (scanActive config mapper s.ctl now).1)) :=
    rfl
  rw [run]
  unfold choice
  cases (scanActive config mapper s.ctl now).2 with
  | error e => rfl
  | ok candidates =>
      show (match config.scheduler.choose candidates now with
        | none => _
        | some selected => _ : ControllerM (Option Candidate)) _ = _
      simp only [ok_bind]
      cases config.scheduler.choose candidates now with
      | none => rfl
      | some selected =>
          dsimp only
          show (ofExcept (yieldPrecharge config mapper (s.ctl.setQueue _ _) now _) >>= _ :
            ControllerM (Option Candidate)) _ = _
          cases yieldPrecharge config mapper (s.ctl.setQueue s.ctl.activeSide
            (scanActive config mapper s.ctl now).1) now (ofScheduler selected) with
          | error e => rfl
          | ok candidate => rfl

/-! ### Without maintenance -/

/-- Quiet banks ask for nothing. -/
theorem chooseBankMaintenance_quiet {c : HbmController} {anyOpen : Bool} {index : Nat}
    {banks : List HbmBankState} {earliest : Option MaintenanceCandidate}
    (quiet : ∀ b ∈ banks, requestedMaintenance b = none) :
    chooseBankMaintenance config mapper c now anyOpen index banks earliest = .ok earliest := by
  induction banks generalizing index with
  | nil => rfl
  | cons bank rest ih =>
      unfold chooseBankMaintenance
      rw [quiet bank List.mem_cons_self]
      exact ih fun b hb => quiet b (List.mem_cons_of_mem _ hb)

/-- A quiet controller plans no maintenance. -/
theorem chooseMaintenance_quiet {c : HbmController} (quiet : c.Quiet) :
    chooseMaintenance config mapper c now = .ok none := by
  obtain ⟨flag, banks⟩ := quiet_iff_requested.mp quiet
  unfold chooseMaintenance
  rw [flag]
  exact chooseBankMaintenance_quiet banks

/-- Outside a refresh window `drive` chooses a maintenance command first. -/
theorem drive_of_idle (idle : s.ctl.refreshBusyUntil ≤ now) :
    drive config mapper now s = (do
      match ← ofExcept
        (chooseMaintenance config mapper (updateStarvation config s now).ctl now) with
      | some m =>
          if m.readyAt > now then return ⟨some m.readyAt, none⟩
          issueMaintenance config mapper m now
          let c := (← get).ctl
          return ⟨some (if m.finalCommand then c.refreshBusyUntil else now), none⟩
      | none =>
          modify fun s => s.modifyCtl fun c => c.updateWriteDrain config
          match ← chooseNext config mapper now with
          | none => return {}
          | some candidate =>
              if candidate.readyAt > now then return ⟨some candidate.readyAt, none⟩
              let completed ← issue config candidate now
              return ⟨some now, completed⟩ :
        ControllerM HbmControllerStep) (updateStarvation config s now) := by
  have idle' : ¬ now < (updateStarvation config s now).ctl.refreshBusyUntil := by
    rw [(updateStarvation_retouched s now).refreshBusyUntil]
    exact Nat.not_lt.mpr idle
  exact congrFun (if_neg idle') (updateStarvation config s now)

/-- An idle `drive` without maintenance is a selection, and an issue if it is ready. -/
theorem drive_of_quiet (idle : s.ctl.refreshBusyUntil ≤ now) (quiet : s.ctl.Quiet) :
    drive config mapper now s = (do
      match ← select config mapper now with
      | none => return {}
      | some candidate =>
          if candidate.readyAt > now then return ⟨some candidate.readyAt, none⟩
          let completed ← issue config candidate now
          return ⟨some now, completed⟩ : ControllerM HbmControllerStep) s := by
  have starved : Retouched config s _ := updateStarvation_retouched s now
  rw [drive_of_idle idle, chooseMaintenance_quiet (starved.quiet.mpr quiet)]
  rfl

section

variable (idle : s.ctl.refreshBusyUntil ≤ now) (quiet : s.ctl.Quiet)

include idle quiet

/-- With nothing queued the drive ends without a wake. -/
theorem drive_of_empty (run : select config mapper now s = .ok none t) :
    drive config mapper now s = .ok {} t := by
  rw [drive_of_quiet idle quiet, bind_of_ok run]
  rfl

/-- A candidate that is not ready is woken for. -/
theorem drive_of_later (run : select config mapper now s = .ok (some candidate) t)
    (later : now < candidate.readyAt) :
    drive config mapper now s = .ok ⟨some candidate.readyAt, none⟩ t := by
  rw [drive_of_quiet idle quiet, bind_of_ok run]
  dsimp only
  rw [if_pos later]
  rfl

/-- A candidate that is ready is issued, and the controller wakes again at once. -/
theorem drive_of_ready (run : select config mapper now s = .ok (some candidate) t)
    (ready : candidate.readyAt ≤ now) :
    drive config mapper now s = (do
      let completed ← issue config candidate now
      return ⟨some now, completed⟩ : ControllerM HbmControllerStep) t := by
  rw [drive_of_quiet idle quiet, bind_of_ok run]
  dsimp only
  rw [if_neg (Nat.not_lt.mpr ready)]

/-- A selection that fails ends the drive. -/
theorem drive_of_error {e : HbmError} (run : select config mapper now s = .error e t) :
    drive config mapper now s = .error e t := by
  rw [drive_of_quiet idle quiet, bind_of_error run]

end

/-- `drive` waits for pending maintenance, or issues it. -/
theorem drive_maintenance {m : MaintenanceCandidate} (idle : s.ctl.refreshBusyUntil ≤ now)
    (pending : chooseMaintenance config mapper (updateStarvation config s now).ctl now =
      .ok (some m)) :
    drive config mapper now s = (do
      if m.readyAt > now then return ⟨some m.readyAt, none⟩
      issueMaintenance config mapper m now
      let c := (← get).ctl
      return ⟨some (if m.finalCommand then c.refreshBusyUntil else now), none⟩ :
        ControllerM HbmControllerStep) (updateStarvation config s now) := by
  rw [drive_of_idle idle, pending]
  rfl

/-- So does planning maintenance that fails. -/
theorem drive_maintenance_error {e : HbmError} (idle : s.ctl.refreshBusyUntil ≤ now)
    (pending : chooseMaintenance config mapper (updateStarvation config s now).ctl now =
      .error e) :
    drive config mapper now s = .error e (updateStarvation config s now) := by
  rw [drive_of_idle idle, pending]
  rfl

/-- In a refresh window `drive` only counts the time it is blocked. -/
theorem drive_blocked (busy : now < s.ctl.refreshBusyUntil) :
    drive config mapper now s = .ok ⟨some s.ctl.refreshBusyUntil, none⟩
      (accountStall config (updateStarvation config s now) now) := by
  have same : (updateStarvation config s now).ctl.refreshBusyUntil = s.ctl.refreshBusyUntil := by
    rw [(updateStarvation_retouched s now).refreshBusyUntil]
  rw [← same] at busy ⊢
  show (if now < (updateStarvation config s now).ctl.refreshBusyUntil then _ else _ :
    ControllerM HbmControllerStep) (updateStarvation config s now) = _
  rw [if_pos busy]
  rfl

/-! ### What an issue records -/

/-- The state records the same commands. -/
def KeepsRecord (s t : ControllerState) : Prop := t.ctl.recorded = s.ctl.recorded

instance : Std.Refl KeepsRecord := ⟨fun _ => rfl⟩

instance : IsTrans ControllerState KeepsRecord := ⟨fun _ _ _ h h' => h'.trans h⟩

theorem setQueue_recorded (c : HbmController) (w : Bool) (q : List HbmAccess) :
    (c.setQueue w q).recorded = c.recorded := by
  unfold setQueue
  split <;> rfl

theorem updateAccess_recorded (c : HbmController) (w : Bool) (index : Nat)
    (f : HbmAccess → HbmAccess) : (c.updateAccess w index f).recorded = c.recorded :=
  setQueue_recorded _ _ _

theorem applyTransition_stays (k : HbmCommand) (row index : Nat) :
    Stays KeepsRecord (applyTransition config k row index) := by
  unfold applyTransition
  refine .bind .get fun s => .bind (.ofExcept _) fun banks => ?_
  exact .modify fun _ => rfl

theorem takeServed_stays (candidate : Candidate) (leader : HbmAccess) :
    Stays KeepsRecord (takeServed config candidate leader) := by
  refine .modifyGet fun s => ?_
  show (takeAccesses config s.ctl candidate.isWrite candidate.index leader).2.recorded = _
  unfold takeAccesses
  split <;> exact setQueue_recorded _ _ _

theorem transferData_stays (candidate : Candidate) (index : Nat) (taken : List HbmAccess)
    (address : HbmAddress) (bytes : Nat) :
    Stays KeepsRecord (transferData config candidate index now taken address bytes) := by
  unfold transferData
  refine .bind (.modify fun _ => rfl) fun _ => .bind .get fun s => ?_
  refine .bind (.ofExcept _) fun ready => .bind (.ofExcept _) fun duration => ?_
  exact .bind (.modify fun _ => rfl) fun _ => .pure _

theorem closeAfterData_stays (k : HbmCommand) (row index : Nat) :
    Stays KeepsRecord (closeAfterData config k row index) := by
  unfold closeAfterData
  split
  · exact applyTransition_stays k row index
  · split
    · exact .modify fun _ => rfl
    · exact .pure _

theorem issueData_stays (candidate : Candidate) (index : Nat) (a : HbmAccess)
    (bank : HbmBankState) : Stays KeepsRecord (issueData config candidate index now a bank) := by
  have serves : Stays KeepsRecord (do
      let taken ← takeServed config candidate (settleClass a)
      closeAfterData config candidate.command a.address.row index
      transferData config candidate index now taken a.address a.sizeBytes) :=
    .bind (takeServed_stays _ _) fun _ => .bind (closeAfterData_stays _ _ _) fun _ =>
      transferData_stays _ _ _ _ _
  unfold issueData
  split
  · exact .bind (.throw _) fun _ => serves
  · exact serves

theorem issueCommand_stays (candidate : Candidate) (index : Nat) (a : HbmAccess)
    (bank : HbmBankState) :
    Stays KeepsRecord (issueCommand config candidate index now a bank) := by
  have precharges : Stays KeepsRecord (do
      issuePrecharge config candidate index a.address.row bank
      return (none : Option PhysicalAccess)) := by
    unfold issuePrecharge
    refine .bind (.bind (.modify fun s => ?_) fun _ => applyTransition_stays _ _ _) fun _ => .pure _
    exact updateAccess_recorded _ _ _ _
  unfold issueCommand
  split
  · unfold issueActivate
    refine .bind (.bind (applyTransition_stays _ _ _) fun _ => .modify fun s => ?_) fun _ => .pure _
    exact updateAccess_recorded _ _ _ _
  · exact precharges
  · exact precharges
  · exact .bind (issueData_stays _ _ _ _) fun _ => .pure _

/-- An issue records the planned command of the access. -/
theorem issue_records (now : Nat)
    (access : (s.ctl.queue candidate.isWrite)[candidate.index]? = some a)
    (planned : plannedCommand config s.ctl a = .ok candidate.command) :
    ∃ bank, Appends ⟨candidate.command, a.address, bank, now, some a.sequence⟩ s
      (exitState (issue config candidate now s)) := by
  have plannedFor := plannedCommand_ok planned
  obtain ⟨index, bank, local_, found, -⟩ := plannedFor.planned
  refine ⟨index, (exits_exitState (Appends _ s)).mp ?_⟩
  unfold issue
  simp only [exits_bind, exits_get, access, exits_ofExcept, exits_modify, local_,
    vectorAt_ok.mpr found, Except.ok.injEq, reduceCtorEq, false_imp_iff, implies_true, and_true,
    forall_eq']
  rw [recordCommand_exits plannedFor.supported]
  apply ((issueCommand_stays candidate index (started a now) bank).exits _).mono
  · intro _ t same
    exact same.trans (congrArg (_ :: ·) (updateAccess_recorded _ _ _ _))
  · intro _ t same
    exact same.trans (congrArg (_ :: ·) (updateAccess_recorded _ _ _ _))

/-! ### What `drive` issues -/

/-- A selection touches reports only, and chooses unless the queues are empty. -/
theorem select_exits (sound : Sound config mapper s.ctl) :
    Exits (select config mapper now)
      (fun choice t => Retouched config s t ∧
        match choice with
        | none => ∀ w, t.ctl.queue w = []
        | some candidate => Chosen config mapper t.ctl now candidate ∧
            Yields config t.ctl now candidate)
      (fun e t => Retouched config s t ∧ Excused config mapper e) s := by
  have touched : Retouched config s _ := (updateStarvation_retouched s now).trans
    (updateWriteDrain_retouched (updateStarvation config s now))
  unfold select
  simp only [exits_bind, exits_modify]
  apply (chooseNext_exits (sound.retouched touched)).mono
  · rintro choice t ⟨chose, choice⟩
    exact ⟨touched.trans chose, choice⟩
  · rintro e t ⟨chose, excused⟩
    exact ⟨touched.trans chose, excused⟩

/-- The ready candidate of a selection is issued. -/
theorem issues_of_selected (touched : Retouched config s t) (idle : s.ctl.refreshBusyUntil ≤ now)
    (quiet : s.ctl.Quiet) (run : select config mapper now s = .ok (some candidate) t)
    (access : (t.ctl.queue candidate.isWrite)[candidate.index]? = some a)
    (planned : plannedCommand config t.ctl a = .ok candidate.command)
    (ready : candidate.readyAt ≤ now) : Issues config mapper s now candidate a := by
  obtain ⟨bank, issued⟩ := issue_records now access planned
  have issued : Appends _ s _ := issued.trans (congrArg (_ :: ·) touched.recorded)
  refine ⟨bank, ?_⟩
  rw [drive_of_ready idle quiet run ready, ← exits_exitState (Appends _ s), exits_bind]
  exact (exits_exitState (Appends _ s)).mpr issued

/-- A ready candidate is issued if and only if the controller is not in a refresh window. -/
theorem issues_iff_idle (sound : Sound config mapper s.ctl) (quiet : s.ctl.Quiet)
    (selects : Selects config mapper s now t candidate a) (ready : candidate.readyAt ≤ now) :
    Issues config mapper s now candidate a ↔ s.ctl.refreshBusyUntil ≤ now := by
  constructor
  · rintro ⟨bank, recorded⟩
    refine Nat.not_lt.mp fun busy => ?_
    have touched : Retouched config s _ := (updateStarvation_retouched s now).trans
      (accountStall_retouched (updateStarvation config s now) now)
    rw [drive_blocked busy] at recorded
    unfold Appends exitState at recorded
    dsimp only at recorded
    rw [touched.ctl] at recorded
    exact List.cons_ne_self _ _ recorded.symm
  · intro idle
    obtain ⟨touched, chosen, -⟩ := (select_exits sound).of_ok selects.run
    obtain ⟨a', access, planned, -⟩ := chosen
    obtain rfl : a = a' := Option.some.inj (selects.access.symm.trans access)
    exact issues_of_selected touched idle quiet selects.run access planned ready

end HbmController

end HbmSim
