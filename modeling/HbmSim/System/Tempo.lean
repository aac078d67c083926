import HbmSim.System.Budget
import HbmSim.System.Obligations

/-!
How long its commands hold a channel up.

`ReadyBy` is a time from which on every command of a channel is ready, whatever it is and
whatever its address. A command puts it off by its recovery time at most. `tempo` is the time
that the commands before the next data command may take, in this sense.
-/

namespace HbmSim

open HbmSim.Lib HbmSystem

/-! ### The timing engine -/

namespace HbmTimingEngine

/-- Every bound that the table draws from the history is kept from `time` on. -/
def Past (constraints : List TimingConstraint) (history : CommandHistory) (time : Nat) : Prop :=
  ∀ row ∈ constraints, ∀ key, ∀ at_ ∈ history key row.preceding, at_ + row.delay ≤ time

variable {constraints : List TimingConstraint} {history : CommandHistory} {command : HbmCommand}
  {address : HbmAddress} {time : Nat}

/-- Then every command is ready. -/
theorem Past.earliestIssue (past : Past constraints history time) {now ready : Nat}
    (started : now ≤ time)
    (run : HbmTimingEngine.earliestIssue constraints history command address now = .ok ready) :
    ready ≤ time := by
  have spec := foldlM_ok
    (P := fun done ready => Past done history time → ready ≤ time) ?_ (fun _ => started) run
  · exact spec past
  · intro done row ready ready' ih step past
    have before := ih fun row hrow => past row (List.mem_append_left _ hrow)
    have bound := past row (List.mem_append_right _ (List.mem_singleton.mpr rfl))
    unfold constraintStep at step
    split at step
    · exact Except.ok.inj step ▸ before
    · split at step
      · exact Except.ok.inj step ▸ before
      · rename_i at_ found
        split at step
        · cases step
        · have here := bound _ at_ (List.mem_of_getElem? found)
          rw [← Except.ok.inj step]
          exact Nat.max_le.mpr ⟨before, here⟩

/-- What the history holds once a command is recorded. -/
theorem mem_record {key at_ issuedAt : Nat} {earlier : HbmCommand}
    (mem : at_ ∈ record history command address issuedAt key earlier) :
    at_ ∈ history key earlier ∨ at_ = issuedAt ∧ earlier = timingCommand command := by
  unfold record at mem
  generalize scopes = places at mem
  induction places generalizing history with
  | nil => exact .inl mem
  | cons scope rest ih =>
      rcases ih mem with before | here
      · unfold recordAt at before
        dsimp only at before
        split at before
        · rename_i same
          obtain ⟨rfl, rfl⟩ := same
          rcases List.mem_cons.mp (List.mem_of_mem_take before) with rfl | before
          · exact .inr ⟨rfl, rfl⟩
          · exact .inl before
        · exact .inl before
      · exact .inr here

end HbmTimingEngine

/-! ### Recovery times -/

namespace HbmControllerConfig

variable (config : HbmControllerConfig)

/-- How long commands may have to wait for one that has been issued. -/
def recovery (command : HbmCommand) : Nat :=
  max (config.commandDuration command)
    (max (maintenanceDuration command config.timing)
      (latest ((config.timing.constraints.filter fun row =>
        row.preceding = timingCommand command).map (·.delay))))

/-- The refresh of the policy. -/
def refreshCommand : HbmCommand :=
  if config.refreshPolicy.usesAllBankRefresh then .refreshAllBank else .refreshPerBank

/-- The commands that are no refresh and no data command. -/
def rowCommands : List HbmCommand :=
  if config.enableRfm then [.act, .preBank, .preAll, .rfmPerBank] else [.act, .preBank, .preAll]

/-- How long commands may have to wait for one of them. -/
def pace : Nat := latest (config.rowCommands.map config.recovery)

/-- How much longer they may have to wait for a refresh. -/
def refreshPace : Nat := config.recovery config.refreshCommand - config.pace

/-- How long a raised refresh may hold up its channel. -/
def refreshTime : Nat := config.pace * HbmController.raiseSteps config + config.refreshPace

variable {config}

/-- A command's own duration is part of its recovery. -/
theorem commandDuration_le (command : HbmCommand) :
    config.commandDuration command ≤ config.recovery command := Nat.le_max_left _ _

/-- So is the time it blocks the controller. -/
theorem maintenanceDuration_le (command : HbmCommand) :
    maintenanceDuration command config.timing ≤ config.recovery command :=
  Nat.le_trans (Nat.le_max_left _ _) (Nat.le_max_right _ _)

/-- So is every delay it imposes on others. -/
theorem delay_le {command : HbmCommand} {row : TimingConstraint}
    (mem : row ∈ config.timing.constraints) (precedes : row.preceding = timingCommand command) :
    row.delay ≤ config.recovery command := by
  have listed : row.delay ∈ (config.timing.constraints.filter fun row =>
      row.preceding = timingCommand command).map (·.delay) :=
    List.mem_map_of_mem (List.mem_filter.mpr ⟨mem, by simpa using precedes⟩)
  exact Nat.le_trans (HbmController.le_latest listed)
    (Nat.le_trans (Nat.le_max_right _ _) (Nat.le_max_right _ _))

/-- The pace covers the recovery of each row command. -/
theorem recovery_le_pace {command : HbmCommand} (mem : command ∈ config.rowCommands) :
    config.recovery command ≤ config.pace := HbmController.le_latest (List.mem_map_of_mem mem)

/-- With the share of refreshes it covers a refresh as well. -/
theorem recovery_refresh : config.recovery config.refreshCommand ≤
    config.pace + config.refreshPace := by
  unfold refreshPace
  omega

end HbmControllerConfig

namespace HbmController

/-! ### When a channel is ready -/

/-- From `time` on every command of the channel is ready. -/
structure ReadyBy (config : HbmControllerConfig) (time : Nat) (c : HbmController) : Prop where
  past : HbmTimingEngine.Past config.timing.constraints c.history time
  unified : c.unifiedCommandBusReadyAt ≤ time
  row : c.rowCommandBusReadyAt ≤ time
  column : c.columnCommandBusReadyAt ≤ time
  busy : c.refreshBusyUntil ≤ time

variable {config : HbmControllerConfig} {mapper : HbmAddressMapper} {s t : ControllerState}
  {c c' : HbmController} {now time : Nat} {r : RecordedCommand}

theorem ReadyBy.mono {later : Nat} (h : ReadyBy config time c) (le : time ≤ later) :
    ReadyBy config later c where
  past row hrow key at_ mem := Nat.le_trans (h.past row hrow key at_ mem) le
  unified := Nat.le_trans h.unified le
  row := Nat.le_trans h.row le
  column := Nat.le_trans h.column le
  busy := Nat.le_trans h.busy le

theorem ReadyBy.congr (h : ReadyBy config time c) (record : SameRecord c c')
    (busy : c'.refreshBusyUntil = c.refreshBusyUntil) : ReadyBy config time c' where
  past := record.history ▸ h.past
  unified := record.unified ▸ h.unified
  row := record.row ▸ h.row
  column := record.column ▸ h.column
  busy := busy ▸ h.busy

/-- A command asked for from the start is ready by then. -/
theorem ReadyBy.earliestCommand (h : ReadyBy config time c) {command : HbmCommand}
    {address : HbmAddress} {ready : Nat}
    (run : HbmController.earliestCommand config mapper c command address 0 = .ok ready) :
    ready ≤ time := by
  have bus : c.commandBusReady config command ≤ time := by
    unfold commandBusReady
    split
    · exact h.unified
    · exact h.row
    · exact h.column
  unfold HbmController.earliestCommand at run
  obtain ⟨all, -, run⟩ := bind_eq_ok.mp run
  cases all with
  | false =>
      obtain ⟨timed, issued, run⟩ := bind_eq_ok.mp run
      obtain rfl : max timed (c.commandBusReady config command) = ready := Except.ok.inj run
      exact Nat.max_le.mpr ⟨h.past.earliestIssue (Nat.zero_le _) issued, bus⟩
  | true =>
      obtain ⟨timed, issued, run⟩ := bind_eq_ok.mp run
      obtain rfl : max timed (c.commandBusReady config command) = ready := Except.ok.inj run
      refine Nat.max_le.mpr ⟨?_, bus⟩
      refine foldlM_ok (P := fun _ ready => ready ≤ time) ?_ (Nat.zero_le _) issued
      intro _ bank ready ready' before step
      unfold bankStep at step
      obtain ⟨address, -, step⟩ := bind_eq_ok.mp step
      obtain ⟨here, issued, step⟩ := bind_eq_ok.mp step
      obtain rfl : max ready here = ready' := Except.ok.inj step
      exact Nat.max_le.mpr ⟨before, h.past.earliestIssue (Nat.zero_le _) issued⟩

/-- What has to wait does not wait for longer. -/
theorem ReadyBy.of_later (h : ReadyBy config time c) {command : HbmCommand} {address : HbmAddress}
    {ready : Nat}
    (run : HbmController.earliestCommand config mapper c command address now = .ok ready)
    (later : now < ready) : ready ≤ time := h.earliestCommand (earliestCommand_later run later)

/-- So is a candidate that has to wait. -/
theorem ReadyBy.chosen (h : ReadyBy config time c) {candidate : Candidate}
    (chosen : Chosen config mapper c now candidate) (later : now < candidate.readyAt) :
    candidate.readyAt ≤ time := by
  obtain ⟨a, -, -, ready⟩ := chosen
  exact h.of_later ready later

/-- So is planned maintenance that has to wait. -/
theorem ReadyBy.planned (h : ReadyBy config time c) {candidate : MaintenanceCandidate}
    (plan : MaintenancePlan config mapper c now candidate) (later : now < candidate.readyAt) :
    candidate.readyAt ≤ time := by
  obtain ⟨address, -, ready⟩ := plan.address
  exact h.of_later ready later

/-- The command bus recovers with the command. -/
theorem bus_le {ready duration : Nat} {taken : Prop} [Decidable taken] (before : ready ≤ time)
    (fast : duration ≤ config.recovery r.command) :
    (if taken then SimTime.add r.issuedAt duration else ready) ≤
      max time (r.issuedAt + config.recovery r.command) := by
  split
  · have wraps : SimTime.add r.issuedAt duration ≤ r.issuedAt + duration := Nat.mod_le _ _
    omega
  · omega

/-- A recorded command puts a channel off by its recovery time at most. -/
theorem ReadyBy.stamp (h : ReadyBy config time c) (r : RecordedCommand) :
    ReadyBy config (max time (r.issuedAt + config.recovery r.command)) (c.stampCommand config r) where
  past row hrow key at_ mem := by
    rcases HbmTimingEngine.mem_record mem with before | ⟨rfl, precedes⟩
    · exact Nat.le_trans (h.past row hrow key at_ before) (Nat.le_max_left _ _)
    · have delay := HbmControllerConfig.delay_le hrow precedes
      exact Nat.le_trans (Nat.add_le_add_left delay _) (Nat.le_max_right _ _)
  unified := bus_le h.unified (HbmControllerConfig.commandDuration_le _)
  row := bus_le h.row (HbmControllerConfig.commandDuration_le _)
  column := bus_le h.column (HbmControllerConfig.commandDuration_le _)
  busy := Nat.le_trans h.busy (Nat.le_max_left _ _)

/-- One command later everything is ready after its recovery. -/
theorem ReadyBy.records (h : ReadyBy config time s.ctl) (records : Records config mapper s t r)
    (busy : t.ctl.refreshBusyUntil ≤ max time (r.issuedAt + config.recovery r.command)) :
    ReadyBy config (max time (r.issuedAt + config.recovery r.command)) t.ctl :=
  have stamped := h.stamp r
  have record := records.record
  { past := record.history ▸ stamped.past
    unified := record.unified ▸ stamped.unified
    row := record.row ▸ stamped.row
    column := record.column ▸ stamped.column
    busy := busy }

/-- So it is after a command for an access. -/
theorem ReadyBy.demanded (h : ReadyBy config time s.ctl) {exempt : Prop} {w : Bool} {index : Nat}
    {a : HbmAccess} (demanded : Demanded config mapper now exempt s t w index a r) :
    ReadyBy config (max time (r.issuedAt + config.recovery r.command)) t.ctl := by
  refine h.records demanded.records ?_
  rw [demanded.refresh.refreshBusyUntil]
  exact Nat.le_trans h.busy (Nat.le_max_left _ _)

/-- The last command of a plan is the one that is asked for, and the ones before it precharge. -/
theorem MaintenancePlan.command_cases {candidate : MaintenanceCandidate}
    (plan : MaintenancePlan config mapper c now candidate) :
    candidate.finalCommand = true ∧ candidate.command = candidate.requested ∨
      candidate.finalCommand = false ∧
        (candidate.command = .preAll ∨ candidate.command = .preBank) := by
  rcases plan.purpose with ⟨-, requested, final, command⟩ | ⟨-, bank, -, -, final, command⟩
  · rw [final, command, requested]
    cases c.anyOpen with
    | true => exact .inr ⟨rfl, .inl rfl⟩
    | false => exact .inl ⟨rfl, rfl⟩
  · rw [final, command]
    cases bank.openRow with
    | none => exact .inl ⟨rfl, rfl⟩
    | some row => exact .inr ⟨rfl, .inr rfl⟩

/-- Maintenance blocks its channel for no longer than it recovers. -/
theorem MaintenanceStep.busy_le {candidate : MaintenanceCandidate}
    (step : MaintenanceStep config mapper now s candidate time t) :
    t.ctl.refreshBusyUntil ≤
      max s.ctl.refreshBusyUntil (time + config.recovery candidate.command) := by
  cases step with
  | mk plan =>
      cases final : candidate.finalCommand with
      | false =>
          rw [maintained_prerequisite final]
          exact Nat.le_max_left _ _
      | true =>
          rcases plan.command_cases with ⟨-, same⟩ | ⟨other, -⟩
          case inr => exact nomatch final.symm.trans other
          rw [maintained_final final, same]
          have wraps : SimTime.add time (maintenanceDuration candidate.requested config.timing) ≤
              time + maintenanceDuration candidate.requested config.timing := Nat.mod_le _ _
          have fast := @HbmControllerConfig.maintenanceDuration_le config candidate.requested
          show SimTime.add time _ ≤ _
          omega

/-- So it is after a maintenance command. -/
theorem ReadyBy.maintain {candidate : MaintenanceCandidate} {at_ : Nat}
    (h : ReadyBy config time s.ctl) (step : MaintenanceStep config mapper now s candidate at_ t) :
    ReadyBy config (max time (at_ + config.recovery candidate.command)) t.ctl := by
  obtain ⟨r, rfl, records, command, -⟩ := step.recording
  have busy := step.busy_le
  rw [← command] at busy ⊢
  exact h.records records (Nat.le_trans busy (max_le_max_right _ h.busy))

/-! ### What a channel may still take -/

variable (config) in
/-- The time that the commands before the next data command may take. -/
def tempo (c : HbmController) : Nat :=
  config.pace * stepsLeft config c + config.refreshPace * c.refreshesPending config.refreshPolicy

theorem tempo_congr (queued : c'.queued = c.queued) (banks : c'.banks = c.banks)
    (pending : c'.refreshPending = c.refreshPending) : tempo config c' = tempo config c := by
  unfold tempo refreshesPending
  rw [stepsLeft_congr queued banks pending, banks, pending]

/-- The refresh flag follows the refresh law. -/
theorem pending_of_law (obliged : Obliged config s) (obliged' : Obliged config t)
    (raised : t.ctl.raised = s.ctl.raised) (overlapped : t.ctl.overlapped = s.ctl.overlapped)
    (served : Nat) (issued : (t.stats.channels config.channel).refreshesIssued config.refreshPolicy =
      (s.stats.channels config.channel).refreshesIssued config.refreshPolicy + served) :
    t.ctl.refreshesPending config.refreshPolicy + served =
      s.ctl.refreshesPending config.refreshPolicy := by
  have law := obliged.law
  have law' := obliged'.law
  rw [raised, overlapped, issued] at law'
  omega

/-- A command after which less time is left: what it takes off pays for its recovery. -/
theorem ReadyBy.paced {delay : Nat} (ready : ReadyBy config (max time (now + delay)) c')
    (started : now ≤ time) (pays : tempo config c' + delay ≤ tempo config c) :
    ∃ later, time ≤ later ∧ ReadyBy config later c' ∧
      later + tempo config c' ≤ time + tempo config c := by
  refine ⟨_, Nat.le_max_left _ _, ready, ?_⟩
  omega

/-- An ACT or a precharge takes its recovery time off. -/
theorem RowStep.paced (sound : Sound config mapper s.ctl)
    (settled : config.standard = none → ∀ b ∈ s.ctl.banks, b.prechargePending = false)
    (obliged : Obliged config s) (ready : ReadyBy config time s.ctl) (started : now ≤ time)
    (step : RowStep config mapper now s t) :
    ∃ later, time ≤ later ∧ ReadyBy config later t.ctl ∧
      later + tempo config t.ctl ≤ time + tempo config s.ctl := by
  have queued := (ControllerStep.row step).queued
  obtain ⟨w, index, a, r, row, demanded⟩ := @RowStep.demanded config mapper s t now True sound step
  have turns := demanded.turns settled queued row
  have less := demanded.stepsLeft_lt (fun _ _ _ => Wanted.congr queued) turns
  have refresh := demanded.refresh
  have pending := pending_of_law obliged (obliged.entry demanded.entry) refresh.raised
    refresh.overlapped 0 (by
      unfold ChannelStats.refreshesIssued
      rw [demanded.refreshes.refreshes, demanded.refreshes.perBankRefreshes]
      rfl)
  have listed : r.command ∈ config.rowCommands := by
    unfold HbmControllerConfig.rowCommands
    generalize r.command = k at turns
    cases turns <;> split <;> simp
  have fast := HbmControllerConfig.recovery_le_pace listed
  rw [Nat.add_zero] at pending
  have ready := ready.demanded demanded
  rw [demanded.time] at ready
  refine ready.paced started ?_
  have paid := Nat.mul_le_mul_left config.pace less
  unfold tempo
  rw [← pending]
  rw [Nat.mul_succ] at paid
  omega

/-- How long maintenance holds up its channel. -/
theorem MaintenancePlan.recovery_le {candidate : MaintenanceCandidate}
    (sound : Sound config mapper c) (rowed : Rowed config mapper c)
    (plan : MaintenancePlan config mapper c now candidate) :
    config.recovery candidate.command ≤ config.pace + config.refreshPace *
      (candidate.finalCommand && candidate.requested == config.refreshCommand).toNat := by
  have fast : candidate.command ∈ config.rowCommands → config.recovery candidate.command ≤
      config.pace + config.refreshPace *
        (candidate.finalCommand && candidate.requested == config.refreshCommand).toNat :=
    fun listed => Nat.le_trans (HbmControllerConfig.recovery_le_pace listed) (Nat.le_add_right _ _)
  rcases plan.command_cases with ⟨final, same⟩ | ⟨-, command⟩
  · have refreshes : candidate.requested = config.refreshCommand →
        config.recovery candidate.command ≤ config.pace + config.refreshPace *
          (candidate.finalCommand && candidate.requested == config.refreshCommand).toNat := by
      intro requested
      rw [same, final, requested, beq_self_eq_true, Bool.and_self, Bool.toNat_true, Nat.mul_one]
      exact HbmControllerConfig.recovery_refresh
    rcases plan.purpose with ⟨pending, requested, -⟩ | ⟨-, bank, hbank, requested, -⟩
    · apply refreshes
      unfold HbmControllerConfig.refreshCommand
      rw [requested, if_pos (rowed.allBank pending)]
    · have mem := List.mem_of_getElem? hbank
      rcases requestedMaintenance_cases requested with ⟨kind, rfm⟩ | ⟨kind, -, refresh⟩
      · apply fast
        unfold HbmControllerConfig.rowCommands
        rw [same, kind, if_pos (sound.rfm bank mem rfm)]
        simp
      · apply refreshes
        unfold HbmControllerConfig.refreshCommand
        rw [kind, rowed.perBank bank mem refresh]
        rfl
  · apply fast
    unfold HbmControllerConfig.rowCommands
    rcases command with kind | kind <;> rw [kind] <;> split <;> simp

/-- Maintenance takes its recovery time off. -/
theorem MaintenanceStep.paced {candidate : MaintenanceCandidate}
    (sound : Sound config mapper s.ctl) (rowed : Rowed config mapper s.ctl)
    (early : config.enableRfm = true → 2 ≤ config.rfmActivationThreshold)
    (obliged : Obliged config s) (ready : ReadyBy config time s.ctl) (started : now ≤ time)
    (step : MaintenanceStep config mapper now s candidate now t) :
    ∃ later, time ≤ later ∧ ReadyBy config later t.ctl ∧
      later + tempo config t.ctl ≤ time + tempo config s.ctl := by
  refine (ready.maintain step).paced started ?_
  have less := step.stepsLeft_lt early
  obtain ⟨refreshes, perBankRefreshes⟩ := step.refreshes
  have frame := step.frame
  have pending := pending_of_law obliged (obliged.maintain step) (by rw [frame]) (by rw [frame])
    (candidate.finalCommand && candidate.requested == config.refreshCommand).toNat (by
      unfold ChannelStats.refreshesIssued HbmControllerConfig.refreshCommand
      split
      · exact refreshes
      · exact perBankRefreshes)
  obtain ⟨cursor, plan⟩ := step.plan
  have delay := plan.recovery_le sound rowed
  have paid := Nat.mul_le_mul_left config.pace less
  unfold tempo
  rw [← pending]
  rw [Nat.mul_succ] at paid
  rw [Nat.mul_add]
  omega

/-- A raised refresh may take its time. -/
theorem tempo_raise (sound : Sound config mapper s.ctl) (obliged : Obliged config s)
    (bank : config.refreshPolicy = .perBank → s.ctl.nextPerBankRefresh < s.ctl.banks.length)
    (due : Nat) :
    tempo config (s.ctl.raise config due) ≤ tempo config s.ctl + config.refreshTime := by
  have quiet : config.refreshPolicy.usesAllBankRefresh = false → s.ctl.refreshPending = false := by
    intro each
    apply obliged.perBank
    cases policy : config.refreshPolicy with
    | perBank => rfl
    | allBank =>
        rw [policy] at each
        cases each
  have steps := stepsLeft_raise config sound.banks quiet bank due
  have law := obliged.law
  have law' := (obliged.raise due bank).law
  have raised : (s.ctl.raise config due).raised = due :: s.ctl.raised := by rw [raise_frame]
  have overlapped : s.ctl.overlapped ≤ (s.ctl.raise config due).overlapped := by
    unfold HbmController.raise
    split <;> exact Nat.le_add_right _ _
  have pending : (s.ctl.raise config due).refreshesPending config.refreshPolicy ≤
      s.ctl.refreshesPending config.refreshPolicy + 1 := by
    replace law' : (s.ctl.raise config due).raised.length =
        (s.stats.channels config.channel).refreshesIssued config.refreshPolicy +
          (s.ctl.raise config due).refreshesPending config.refreshPolicy +
            (s.ctl.raise config due).overlapped := law'
    rw [raised, List.length_cons] at law'
    omega
  have more := Nat.mul_le_mul_left config.pace steps
  have owed := Nat.mul_le_mul_left config.refreshPace pending
  unfold tempo HbmControllerConfig.refreshTime
  rw [Nat.mul_add] at more owed
  omega

/-! ### Keeping up with the refreshes -/

/-- A channel keeps up with its refreshes: it is ready at `time`, and what it may still take then
is paid for by the due instants that have passed. -/
structure Paced (config : HbmControllerConfig) (limit time : Nat) (c : HbmController) : Prop where
  ready : ReadyBy config time c
  due : ∃ due, c.nextRefreshDue = some due ∧ due ≤ limit + config.refreshInterval ∧
    config.refreshInterval * (time + tempo config c) ≤ config.refreshTime * due + limit

variable {limit due : Nat}

/-- A channel keeps up within some limit. -/
theorem ReadyBy.exists_paced (ready : ReadyBy config time c) (next : c.nextRefreshDue = some due) :
    ∃ limit, Paced config limit time c := by
  refine ⟨config.refreshInterval * (time + tempo config c) + due, ready, due, next, ?_, ?_⟩
  · omega
  · omega

/-- Within its limit a channel has a time by which it is ready. -/
theorem Paced.time_le (paced : Paced config limit time c) (on : 0 < config.refreshInterval) :
    time ≤ config.refreshTime * (limit + config.refreshInterval) + limit := by
  obtain ⟨due, -, due_le, pays⟩ := paced.due
  have scaled : time ≤ config.refreshInterval * (time + tempo config c) :=
    Nat.le_trans (Nat.le_add_right _ _) (Nat.le_mul_of_pos_left _ on)
  have paid := Nat.mul_le_mul_left config.refreshTime due_le
  omega

/-- What leaves the due instant alone and takes its time off. -/
theorem Paced.pays {later : Nat} (paced : Paced config limit time c)
    (next : c'.nextRefreshDue = c.nextRefreshDue) (ready : ReadyBy config later c')
    (pays : later + tempo config c' ≤ time + tempo config c) : Paced config limit later c' := by
  obtain ⟨due, here, due_le, paid⟩ := paced.due
  exact ⟨ready, due, next.trans here, due_le,
    Nat.le_trans (Nat.mul_le_mul_left _ pays) paid⟩

/-- A refresh that is raised when it is due is paid for by the interval that follows. -/
theorem Paced.raise (paced : Paced config limit time c)
    (fits : config.refreshTime < config.refreshInterval) (here : c.nextRefreshDue = some due)
    (due_le : due ≤ time) (next : c'.nextRefreshDue = some (due + config.refreshInterval))
    (ready : ReadyBy config time c')
    (cost : tempo config c' ≤ tempo config c + config.refreshTime) :
    Paced config limit time c' := by
  obtain ⟨due', here', -, paid⟩ := paced.due
  obtain rfl := Option.some.inj (here.symm.trans here')
  have early : due ≤ limit := by
    have scaled := Nat.mul_le_mul_right due (Nat.succ_le_of_lt fits)
    have past := Nat.mul_le_mul_left config.refreshInterval
      (Nat.le_trans due_le (Nat.le_add_right time (tempo config c)))
    rw [Nat.succ_mul] at scaled
    omega
  refine ⟨ready, _, next, Nat.add_le_add_right early _, ?_⟩
  have more : config.refreshInterval * (time + tempo config c') ≤
      config.refreshInterval * (time + tempo config c) +
        config.refreshInterval * config.refreshTime := by
    rw [← Nat.mul_add]
    apply Nat.mul_le_mul_left
    omega
  rw [Nat.mul_add config.refreshTime, Nat.mul_comm config.refreshTime config.refreshInterval]
  omega

/-! ### Recovery -/

/-- The time by which a channel has recovered from its commands. -/
def recovered (config : HbmControllerConfig) (c : HbmController) : Nat :=
  latest (c.recorded.map fun r => r.issuedAt + config.recovery r.command)

/-- The recovery is read off the record. -/
theorem SameRecord.recovered (same : SameRecord c c') :
    HbmController.recovered config c' = HbmController.recovered config c := by
  unfold HbmController.recovered
  rw [same.recorded]

/-- A recorded command puts it off. -/
theorem Records.recovered (records : Records config mapper s t r) :
    HbmController.recovered config t.ctl =
      max (HbmController.recovered config s.ctl) (r.issuedAt + config.recovery r.command) :=
  records.record.recovered.trans (Nat.max_comm _ _)

end HbmController

open HbmController

/-- A channel is ready once it has recovered from its commands. -/
theorem HbmSystem.Run.readyBy {cfg : HbmConfig} (checked : cfg.Checked) {p : HbmSystem × Debts}
    (run : Run cfg p) (channel : Nat) :
    ReadyBy (cfg.channelConfig channel)
      (HbmController.recovered (cfg.channelConfig channel) (p.1.controllers channel))
      (p.1.controllers channel) := by
  refine run.entries checked channel
    (P := fun _ _ s => ReadyBy (cfg.channelConfig channel)
      (HbmController.recovered (cfg.channelConfig channel) s.ctl) s.ctl) ?_ (fun _ _ h => h)
    fun {_ _ s t} _ ready entry => ?_
  · have past : HbmTimingEngine.Past (cfg.channelConfig channel).timing.constraints
        (HbmController.initial (cfg.channelConfig channel)).history 0 :=
      fun _ _ _ _ mem => absurd mem List.not_mem_nil
    exact ⟨past, Nat.le_refl _, Nat.le_refl _, Nat.le_refl _, Nat.le_refl _⟩
  · cases entry with
    | silent record refresh =>
        rw [record.recovered]
        exact ready.congr record refresh.refreshBusyUntil
    | raise due _ _ _ after =>
        have same : SameRecord s.ctl (s.ctl.raise (cfg.channelConfig channel) due) ∧
            (s.ctl.raise (cfg.channelConfig channel) due).refreshBusyUntil =
              s.ctl.refreshBusyUntil := by
          rw [raise_frame]
          exact ⟨⟨rfl, rfl, rfl, rfl, rfl⟩, rfl⟩
        rw [after, ControllerState.modifyCtl, same.1.recovered]
        exact ready.congr same.1 same.2
    | advance _ _ _ _ after =>
        have same : SameRecord s.ctl t.ctl := after ▸ ⟨rfl, rfl, rfl, rfl, rfl⟩
        rw [same.recovered]
        exact ready.congr same (after ▸ rfl)
    | maintain step records command =>
        rw [records.recovered, command]
        exact ready.maintain step
    | demand demand records at_ address sequence bank refresh flags refreshes timely =>
        rw [records.recovered]
        exact ready.demanded ⟨demand, records, at_, address, sequence, bank, refresh, flags,
          refreshes, timely⟩

end HbmSim
