import HbmSim.System.DataBuses

/-!
The times a channel computes, as exact sums.

The ready times of the buses, the end of a refresh, the next due instant and the times of a
transfer are each computed by adding a delay to a time, on 64 bits and without a check.
Each is the exact sum as long as none of these additions has left 64 bits.
-/

namespace HbmSim

open HbmSim.Lib HbmSystem

/-! ### Exact times -/

/-- The end of the last command on a bus. -/
def lastEnd (config : HbmControllerConfig) (recorded : List RecordedCommand) (bus : CommandBus) :
    Nat :=
  ((recordedOn config bus recorded).head?.map fun r =>
    r.issuedAt + config.commandDuration r.command).getD 0

/-- The end of the last refresh or RFM. -/
def lastBlock (config : HbmControllerConfig) (recorded : List RecordedCommand) : Nat :=
  ((recorded.filter fun r => r.command.isMaintenance).head?.map fun r =>
    r.issuedAt + maintenanceDuration r.command config.timing).getD 0

/-- The end of the last transfer on a data bus. -/
def lastTransfer (transfers : List DataTransfer) (pseudoChannel : Nat) : Nat :=
  ((transfers.filter fun x => x.pseudoChannel = pseudoChannel).head?.map
    DataTransfer.completion).getD 0

/-- The start of a transfer after earlier ones. -/
def exactStart (config : HbmControllerConfig) (x : DataTransfer) (earlier : List DataTransfer) :
    Nat :=
  max (x.issuedAt + HbmController.casLatency config x.isWrite) (lastTransfer earlier x.pseudoChannel)

/-- The times `record_command`, `issue_maintenance` and the refresh handlers keep are exact
sums. -/
structure CommandTimes (config : HbmControllerConfig) (c : HbmController) : Prop where
  ready : c.busReadyAt = lastEnd config c.recorded
  blocked : c.refreshBusyUntil = lastBlock config c.recorded
  due : c.nextRefreshDue = c.dues.head?.map (· + config.refreshInterval)

/-- The times of the transfers are exact sums. -/
structure TransferTimes (config : HbmControllerConfig) (c : HbmController) : Prop where
  times : ∀ x earlier, (x :: earlier) <:+ c.transfers → x.dataStart = exactStart config x earlier ∧
    ∃ duration, config.dataRate.transferTime x.bytes = .ok duration ∧
      x.completion = x.dataStart + duration
  ready : ∀ p ready, c.dataBusReadyAt[p]? = some ready → ready = lastTransfer c.transfers p

section

open HbmController

variable {config : HbmControllerConfig} {mapper : HbmAddressMapper} {s t : ControllerState}
  {now : Nat} {exempt : Prop} {c c' : HbmController} {r : RecordedCommand}

/-! ### Logs -/

theorem lastEnd_cons (r : RecordedCommand) (recorded : List RecordedCommand) (bus : CommandBus) :
    lastEnd config (r :: recorded) bus =
      if bus = config.commandBus r.command then r.issuedAt + config.commandDuration r.command
      else lastEnd config recorded bus := by
  unfold lastEnd recordedOn
  by_cases same : config.commandBus r.command = bus
  · rw [List.filter_cons_of_pos (by simpa using same), if_pos same.symm]
    rfl
  · rw [List.filter_cons_of_neg (by simpa using same), if_neg (Ne.symm same)]

theorem lastBlock_cons (r : RecordedCommand) (recorded : List RecordedCommand) :
    lastBlock config (r :: recorded) =
      if r.command.isMaintenance = true then r.issuedAt + maintenanceDuration r.command config.timing
      else lastBlock config recorded := by
  unfold lastBlock
  by_cases blocks : r.command.isMaintenance = true
  · rw [List.filter_cons_of_pos (by exact blocks), if_pos blocks]
    rfl
  · rw [List.filter_cons_of_neg (by exact blocks), if_neg blocks]

theorem lastTransfer_cons (x : DataTransfer) (transfers : List DataTransfer) (p : Nat) :
    lastTransfer (x :: transfers) p =
      if p = x.pseudoChannel then x.completion else lastTransfer transfers p := by
  unfold lastTransfer
  by_cases same : x.pseudoChannel = p
  · rw [List.filter_cons_of_pos (by simpa using same), if_pos same.symm]
    rfl
  · rw [List.filter_cons_of_neg (by simpa using same), if_neg (Ne.symm same)]

/-! ### Commands and refreshes -/

/-- A command that ends the maintenance of a bank is the one asked for, and no other planned
command blocks the channel. -/
theorem HbmController.MaintenancePlan.final_iff {candidate : MaintenanceCandidate}
    (plan : MaintenancePlan config mapper c now candidate) :
    candidate.command.isMaintenance = candidate.finalCommand ∧
      (candidate.finalCommand = true → candidate.command = candidate.requested) := by
  rcases plan.purpose with ⟨-, requested, final, command⟩ | ⟨-, bank, -, requested, final, command⟩
  · rw [final, command, requested]
    cases c.anyOpen <;> exact ⟨rfl, fun h => by cases h <;> rfl⟩
  · rw [final, command]
    cases bank.openRow with
    | some row => exact ⟨rfl, fun h => by cases h⟩
    | none =>
        rcases requestedMaintenance_cases requested with ⟨kind, -⟩ | ⟨kind, -⟩ <;> rw [kind] <;>
          exact ⟨rfl, fun _ => rfl⟩

/-- A refresh blocks the controller for its duration, a prerequisite does not. -/
theorem HbmController.MaintenanceStep.blocked {candidate : MaintenanceCandidate} {time : Nat}
    (step : MaintenanceStep config mapper now s candidate time t) :
    t.ctl.refreshBusyUntil = if candidate.command.isMaintenance = true then
        SimTime.add time (maintenanceDuration candidate.command config.timing)
      else s.ctl.refreshBusyUntil := by
  cases step with
  | mk plan =>
      obtain ⟨maintains, same⟩ := plan.final_iff
      rw [maintains]
      cases final : candidate.finalCommand with
      | true =>
          rw [maintained_final final, same final, if_pos rfl]
          rfl
      | false =>
          rw [maintained_prerequisite final, if_neg Bool.false_ne_true]
          rfl

theorem CommandTimes.frame (h : CommandTimes config c) (same : SameRecord c c')
    (blocked : c'.refreshBusyUntil = c.refreshBusyUntil)
    (next : c'.nextRefreshDue = c.nextRefreshDue) (dues : c'.dues = c.dues) :
    CommandTimes config c' := by
  refine ⟨?_, ?_, ?_⟩
  · rw [same.busReadyAt, same.recorded]
    exact h.ready
  · rw [blocked, same.recorded]
    exact h.blocked
  · rw [next, dues]
    exact h.due

/-- The sums a maintenance command has left within 64 bits. -/
theorem HbmController.MaintenanceStep.fits {candidate : MaintenanceCandidate} {time : Nat}
    (step : MaintenanceStep config mapper now s candidate time t) (whole : t.ctl.wrapped = false)
    (maintains : candidate.command.isMaintenance = true) :
    time + maintenanceDuration candidate.command config.timing < 2 ^ 64 := by
  cases step with
  | @mk cursor address banks plan =>
      obtain ⟨same, requested⟩ := plan.final_iff
      have final : candidate.finalCommand = true := same ▸ maintains
      rw [maintained_final final] at whole
      rw [requested final]
      exact (noteSum_wrapped whole).2

/-- A recorded command leaves exact times behind. -/
theorem CommandTimes.record (h : s.ctl.wrapped = false → CommandTimes config s.ctl)
    (records : Records config mapper s t r)
    (blocked : t.ctl.refreshBusyUntil = if r.command.isMaintenance = true then
        SimTime.add r.issuedAt (maintenanceDuration r.command config.timing)
      else s.ctl.refreshBusyUntil)
    (fits : r.command.isMaintenance = true →
      r.issuedAt + maintenanceDuration r.command config.timing < 2 ^ 64)
    (next : t.ctl.nextRefreshDue = s.ctl.nextRefreshDue) (dues : t.ctl.dues = s.ctl.dues)
    (whole : t.ctl.wrapped = false) : CommandTimes config t.ctl := by
  have recorded : t.ctl.recorded = r :: s.ctl.recorded := records.record.recorded
  have stamped : (s.ctl.stampCommand config r).wrapped = false :=
    Bool.eq_false_iff.mpr fun wraps => by
      rw [records.wrapped wraps] at whole
      cases whole
  obtain ⟨before, sum⟩ := noteSum_wrapped (c := s.ctl) stamped
  have exact_ := h before
  refine ⟨?_, ?_, ?_⟩
  · funext bus
    rw [records.record.busReadyAt, stampCommand_busReadyAt, recorded, lastEnd_cons,
      SimTime.add_of_lt sum, exact_.ready]
  · rw [blocked, recorded, lastBlock_cons]
    by_cases maintains : r.command.isMaintenance = true
    · rw [if_pos maintains, if_pos maintains, SimTime.add_of_lt (fits maintains)]
    · rw [if_neg maintains, if_neg maintains, exact_.blocked]
  · rw [next, dues]
    exact exact_.due

/-- A demand command is no maintenance. -/
theorem HbmController.Demand.not_maintenance {w : Bool} {index : Nat} {a : HbmAccess}
    {k : HbmCommand} (demand : Demand config mapper c now w index a k) :
    k.isMaintenance = false := by
  rcases (plannedCommand_ok demand.planned).cases with rfl | rfl | rfl
  · rfl
  · rfl
  · unfold HbmCommandPlanner.requestedCommand
    cases a.op <;> cases config.autoPrecharge <;> rfl

/-- Every entry of the record keeps them. -/
theorem CommandTimes.entry (h : s.ctl.wrapped = false → CommandTimes config s.ctl)
    (entry : Entry config mapper now exempt s t) (whole : t.ctl.wrapped = false) :
    CommandTimes config t.ctl := by
  cases entry with
  | silent record refresh _ _ wrapped =>
      exact (h (wrapped ▸ whole)).frame record refresh.refreshBusyUntil refresh.nextRefreshDue
        refresh.dues
  | raise due _ _ _ after =>
      rw [after] at whole ⊢
      have frame : (s.modifyCtl (·.raise config due)).ctl = _ := raise_frame s.ctl due
      rw [frame] at whole
      refine (h whole).frame ?_ ?_ ?_ ?_
      · rw [frame]
        exact ⟨rfl, rfl, rfl, rfl, rfl⟩
      · rw [frame]
      · rw [frame]
      · rw [frame]
  | advance base _ _ _ after =>
      rw [after] at whole ⊢
      obtain ⟨before, sum⟩ := noteSum_wrapped (c := s.ctl) whole
      exact ⟨(h before).ready, (h before).blocked, congrArg some (SimTime.add_of_lt sum)⟩
  | maintain step records command =>
      have blocked := step.blocked
      have fits := step.fits whole
      rw [← command] at blocked fits
      refine CommandTimes.record h records blocked fits ?_ ?_ whole
      · rw [step.frame]
      · rw [step.frame]
  | demand demand records _ _ _ _ refresh =>
      have quiet := demand.not_maintenance
      refine CommandTimes.record h records ?_ (fun maintains => ?_) refresh.nextRefreshDue
        refresh.dues whole
      · rw [quiet, if_neg Bool.false_ne_true]
        exact refresh.refreshBusyUntil
      · cases quiet.symm.trans maintains

/-! ### Transfers -/

/-- Every reservation keeps them. -/
theorem TransferTimes.reservation (h : s.ctl.wrapped = false → TransferTimes config s.ctl)
    (reservation : Reservation config s t) (whole : t.ctl.wrapped = false) :
    TransferTimes config t.ctl := by
  cases reservation with
  | none data wrapped =>
      have before := h (Bool.eq_false_iff.mpr fun wraps => by
        rw [wrapped wraps] at whole
        cases whole)
      refine ⟨?_, ?_⟩
      · rw [data.transfers]
        exact before.times
      · rw [data.dataBusReadyAt, data.transfers]
        exact before.ready
  | some x slot issued latency ready duration dataStart completion bus transfers wrapped =>
      obtain ⟨whole, sum, sum'⟩ := wrapped whole
      have before := h whole
      have starts : x.dataStart = exactStart config x s.ctl.transfers := by
        rw [dataStart]
        unfold DataSlot.dataStart DataSlot.dataReady exactStart
        rw [SimTime.add_of_lt sum, issued, latency, before.ready _ _ ready]
      have ends : x.completion = x.dataStart + slot.duration := by
        rw [completion, dataStart]
        exact SimTime.add_of_lt sum'
      refine ⟨fun y earlier suffix => ?_, fun p at_ hp => ?_⟩
      · rw [transfers] at suffix
        rcases List.suffix_cons_iff.mp suffix with same | older
        · obtain ⟨rfl, rfl⟩ := List.cons.inj same
          exact ⟨starts, slot.duration, duration, ends⟩
        · exact before.times y earlier older
      · rw [transfers, lastTransfer_cons]
        rw [bus, List.getElem?_set] at hp
        by_cases same : x.pseudoChannel = p
        · rw [if_pos same] at hp
          rw [if_pos same.symm]
          split at hp
          · exact (Option.some.inj hp).symm
          · cases hp
        · rw [if_neg same] at hp
          rw [if_neg (Ne.symm same)]
          exact before.ready p at_ hp

/-! ### Every state -/

/-- In every run the command times are exact while nothing wraps. -/
theorem HbmSystem.Run.commandTimes {cfg : HbmConfig} (checked : cfg.Checked)
    {p : HbmSystem × Debts} (run : Run cfg p) (channel : Nat)
    (whole : (p.1.controllers channel).wrapped = false) :
    CommandTimes (cfg.channelConfig channel) (p.1.controllers channel) :=
  run.entries checked channel
    (P := fun _ _ s => s.ctl.wrapped = false → CommandTimes (cfg.channelConfig channel) s.ctl)
    (fun _ => ⟨funext fun bus => by cases bus <;> rfl, rfl, rfl⟩) (fun _ _ h => h)
    (fun _ h entry => CommandTimes.entry h entry) whole

/-- So are the transfer times. -/
theorem HbmSystem.Run.transferTimes {cfg : HbmConfig} (checked : cfg.Checked)
    {p : HbmSystem × Debts} (run : Run cfg p) (channel : Nat)
    (whole : (p.1.controllers channel).wrapped = false) :
    TransferTimes (cfg.channelConfig channel) (p.1.controllers channel) := by
  refine (run.channel checked channel
    (P := fun _ _ s => s.ctl.wrapped = false → TransferTimes (cfg.channelConfig channel) s.ctl)
    (fun _ => ⟨fun x earlier suffix => ?_, ?_⟩)
    (fun _ _ h => h) fun _ h beat => TransferTimes.reservation h beat.reservation).2 whole
  · cases List.suffix_nil.mp suffix
  · intro p ready hp
    have zero : ready = 0 := (List.eq_of_mem_replicate (List.mem_of_getElem? hp))
    rw [zero]
    rfl

end

end HbmSim
