import HbmSim.System.Dispatch
import HbmSim.System.ExactTimes
import HbmSim.System.Footprint
import HbmSim.System.Pumping
import HbmSim.System.Tempo

/-!
When the sums of a channel fit.

The times a channel adds up stay within 64 bits if there is room for them: at the time of a
step for the commands and transfers it may issue, and behind the latest of the channel's times
for the refreshes that are overdue when a piece arrives. Where there is room no query for the
time of a maintenance command overflows either.
-/

namespace HbmSim

open HbmSim.Lib

/-- All commands. -/
def HbmCommand.all : List HbmCommand :=
  [.act, .preBank, .preAll, .read, .write, .readAuto, .writeAuto, .refreshAllBank, .refreshPerBank,
    .rfmAllBank, .rfmPerBank]

/-- The list of commands is complete. -/
theorem HbmCommand.mem_all (command : HbmCommand) : command ∈ HbmCommand.all := by
  cases command <;> decide

/-- A data command opens no row. -/
theorem HbmCommand.rowAfter_le {k : HbmCommand} {row : Nat} {openRow : Option Nat}
    (data : k.isData = true) : (k.rowAfter row openRow).isSome.toNat ≤ openRow.isSome.toNat := by
  cases k with
  | read | write => exact Nat.le_refl _
  | readAuto | writeAuto => exact Nat.zero_le _
  | _ => cases data

/-- How long commands may have to wait for any other. -/
def HbmControllerConfig.longestRecovery (config : HbmControllerConfig) : Nat :=
  latest (HbmCommand.all.map config.recovery)

/-- No command's recovery outlasts the longest one. -/
theorem HbmControllerConfig.recovery_le_longest {config : HbmControllerConfig}
    (command : HbmCommand) : config.recovery command ≤ config.longestRecovery :=
  HbmController.le_latest (List.mem_map_of_mem command.mem_all)

namespace HbmController

/-! ### Room for the sums -/

/-- There is room after `now` for what a command that issues then adds up. -/
structure CommandsFit (config : HbmControllerConfig) (now : Nat) (c : HbmController) : Prop where
  commands : ∀ command, now + config.commandDuration command < 2 ^ 64
  maintenance : ¬ c.Quiet → ∀ command, now + maintenanceDuration command config.timing < 2 ^ 64
  transfers : ∀ l ∈ c.queued, ∃ duration, config.dataRate.transferTime l.sizeBytes = .ok duration ∧
    ∀ busReady, c.dataBusReadyAt[l.address.pseudoChannel]? = some busReady →
      max (now + casLatency config l.op.isWrite) busReady + duration < 2 ^ 64

/-- How many instants have been due from `due` to `now`. -/
def overdue (config : HbmControllerConfig) (due now : Nat) : Nat :=
  (now - due) / config.refreshInterval + 1

/-- There is room for the refreshes that have been due from `due` to `now`: behind a time by
which the channel is ready, for a command of each bank that is open or waits for maintenance and
for one of each instant. -/
structure CatchUpFits (config : HbmControllerConfig) (time due now : Nat) (c : HbmController) :
    Prop where
  ready : ReadyBy config time c
  reached : due + config.longestRecovery ≤ time
  fits : time + config.longestRecovery * c.maintenanceWork +
    overdue config due now * max config.longestRecovery config.refreshInterval < 2 ^ 64

/-- There is room for the refreshes of an arrival at `now`, if the last command issues at `busy`. -/
structure RefreshesFit (config : HbmControllerConfig) (busy now : Nat) (c : HbmController) :
    Prop where
  first : config.refreshInterval ≠ 0 → c.nextRefreshDue = none →
    now + config.refreshInterval < 2 ^ 64
  catchUp : ∀ due, c.nextRefreshDue = some due → due ≤ now →
    ∃ time, busy + config.longestRecovery ≤ time ∧ CatchUpFits config time due now c

end HbmController

/-! ### No query overflows -/

/-- An index out of range is not an overflow. -/
theorem not_overflow_of_range {e : HbmError} (range : e.isRange = true) : e.isOverflow = false := by
  cases e <;> first | rfl | cases range

/-- Below a time by which all its bounds are kept a query raises nothing. -/
theorem HbmTimingEngine.Past.answers {constraints : List TimingConstraint}
    {history : CommandHistory} {time : Nat} (past : Past constraints history time)
    (fits : time < 2 ^ 64) {command : HbmCommand} {address : HbmAddress} {now : Nat} {e : HbmError} :
    HbmTimingEngine.earliestIssue constraints history command address now ≠ .error e := by
  intro run
  obtain ⟨row, mem, earliest, step⟩ := foldlM_error run
  unfold constraintStep at step
  split at step
  · cases step
  · split at step
    · cases step
    · rename_i at_ found
      split at step
      · rename_i beyond
        have bound := past row mem _ at_ (List.mem_of_getElem? found)
        unfold maxSimTime at beyond
        omega
      · cases step

namespace HbmController

variable {config : HbmControllerConfig} {mapper : HbmAddressMapper} {s t : ControllerState}
  {c c' : HbmController} {now time due : Nat} {e : HbmError}

theorem transitionFor_mild {standard : HbmStandard} {command : HbmCommand}
    (run : standard.transitionFor command = .error e) : e.isOverflow = false := by
  unfold HbmStandard.transitionFor at run
  split at run
  · cases run
  · cases run
    rfl

theorem ReadyBy.earliestCommand_mild (ready : ReadyBy config time c) (fits : time < 2 ^ 64)
    {command : HbmCommand} {address : HbmAddress}
    (run : HbmController.earliestCommand config mapper c command address now = .error e) :
    e.isOverflow = false := by
  unfold HbmController.earliestCommand at run
  rcases bind_eq_error.mp run with checks | ⟨all, -, run⟩
  · unfold checksAllBanks at checks
    split at checks
    · cases checks
    · split at checks
      · cases checks
      · rename_i found
        cases checks
        exact transitionFor_mild found
  · cases all with
    | false =>
        rcases bind_eq_error.mp run with query | ⟨_, -, run⟩
        · exact absurd query (ready.past.answers fits)
        · cases run
    | true =>
        rcases bind_eq_error.mp run with query | ⟨_, -, run⟩
        · obtain ⟨bank, -, earliest, step⟩ := foldlM_error query
          unfold bankStep at step
          rcases bind_eq_error.mp step with unaddressed | ⟨_, -, step⟩
          · exact not_overflow_of_range (mapper.bankAddress_error unaddressed)
          · rcases bind_eq_error.mp step with query | ⟨_, -, step⟩
            · exact absurd query (ready.past.answers fits)
            · cases step
        · cases run

theorem nextDecision_mild {standard : Option HbmStandard} {requested : HbmCommand} {row : Nat}
    {bank : HbmBankState} {anyOpen : Bool}
    (run : HbmCommandPlanner.nextDecision standard requested row bank anyOpen = .error e) :
    e.isOverflow = false := by
  unfold HbmCommandPlanner.nextDecision at run
  split at run
  · unfold HbmStandard.resolvePrerequisite at run
    split at run
    · split at run <;> split at run
      · cases run
      · cases run
        exact transitionFor_mild ‹_›
      · cases run
      · cases run
        exact transitionFor_mild ‹_›
    · cases run
      rfl
  · split at run
    · cases run
    · split at run
      · cases run
      · split at run
        · cases run
        · split at run <;> cases run

theorem ReadyBy.bankCandidate_mild (ready : ReadyBy config time c) (fits : time < 2 ^ 64)
    {anyOpen : Bool} {index : Nat} {bank : HbmBankState} {requested : HbmCommand}
    (run : bankCandidate config mapper c now anyOpen index bank requested = .error e) :
    e.isOverflow = false := by
  unfold bankCandidate at run
  rcases bind_eq_error.mp run with unaddressed | ⟨_, -, run⟩
  · exact not_overflow_of_range (mapper.bankAddress_error unaddressed)
  · rcases bind_eq_error.mp run with undecided | ⟨_, -, run⟩
    · exact nextDecision_mild undecided
    · rcases bind_eq_error.mp run with query | ⟨_, -, run⟩
      · exact ready.earliestCommand_mild fits query
      · cases run

theorem ReadyBy.chooseBankMaintenance_mild (ready : ReadyBy config time c) (fits : time < 2 ^ 64)
    {anyOpen : Bool} {banks : List HbmBankState} {index : Nat}
    {earliest : Option MaintenanceCandidate}
    (run : chooseBankMaintenance config mapper c now anyOpen index banks earliest = .error e) :
    e.isOverflow = false := by
  induction banks generalizing index earliest with
  | nil => cases run
  | cons bank rest ih =>
      unfold chooseBankMaintenance at run
      split at run
      · exact ih run
      · rcases bind_eq_error.mp run with first | ⟨_, -, run⟩
        · exact ready.bankCandidate_mild fits first
        · exact ih run

/-- Nor does the choice of a maintenance command. -/
theorem ReadyBy.chooseMaintenance_mild (ready : ReadyBy config time c) (fits : time < 2 ^ 64)
    (run : chooseMaintenance config mapper c now = .error e) : e.isOverflow = false := by
  unfold chooseMaintenance at run
  split at run
  · split at run
    · cases run
      rfl
    · rcases bind_eq_error.mp run with undecided | ⟨_, -, run⟩
      · exact nextDecision_mild undecided
      · rcases bind_eq_error.mp run with unaddressed | ⟨_, -, run⟩
        · exact not_overflow_of_range (mapper.bankAddress_error unaddressed)
        · rcases bind_eq_error.mp run with query | ⟨_, -, run⟩
          · exact ready.earliestCommand_mild fits query
          · cases run
  · exact ready.chooseBankMaintenance_mild fits run

theorem raiseRefresh_mild (due : Nat) :
    Exits (raiseRefresh config due) (fun _ t => t = s.modifyCtl (·.raise config due))
      (fun e t => e.isOverflow = false ∧ t = s) s := by
  unfold raiseRefresh
  cases policy : config.refreshPolicy with
  | allBank =>
      simp only [exits_bind, exits_get, RefreshPolicy.usesAllBankRefresh, if_true, exits_modify]
      simp [ControllerState.modifyCtl, raise, policy, RefreshPolicy.usesAllBankRefresh]
  | perBank =>
      simp only [exits_bind, exits_get, RefreshPolicy.usesAllBankRefresh, Bool.false_eq_true,
        if_false, exits_ofExcept, exits_modify]
      refine ⟨fun _ _ => ?_, fun e missing =>
        ⟨not_overflow_of_range (vectorAt_error missing).2, trivial⟩⟩
      simp [ControllerState.modifyCtl, raise, policy, RefreshPolicy.usesAllBankRefresh]

/-! ### Commands that fit -/

/-- A sum that fits leaves the wrap flag as it is. -/
theorem noteSum_whole {a b : Nat} (whole : c.wrapped = false) (fits : a + b < 2 ^ 64) :
    (c.noteSum a b).wrapped = false := by
  show (c.wrapped || decide (2 ^ 64 ≤ a + b)) = false
  rw [whole, decide_eq_false (Nat.not_le.mpr fits), Bool.or_false]

/-- A maintenance command wraps nothing if its durations fit. -/
theorem MaintenanceStep.whole {candidate : MaintenanceCandidate}
    (step : MaintenanceStep config mapper now s candidate time t) (whole : s.ctl.wrapped = false)
    (command : time + config.commandDuration candidate.command < 2 ^ 64)
    (blocks : time + maintenanceDuration candidate.command config.timing < 2 ^ 64) :
    t.ctl.wrapped = false := by
  cases step with
  | @mk cursor address banks plan =>
      have stamped := noteSum_whole whole command
      cases final : candidate.finalCommand with
      | false =>
          rw [maintained_prerequisite final]
          exact stamped
      | true =>
          rw [maintained_final final, ← plan.final_iff.2 final]
          refine noteSum_whole ?_ blocks
          unfold settleMaintenance
          split <;> exact stamped

/-- A row command wraps nothing if its duration fits. -/
theorem RowStep.whole (step : RowStep config mapper now s t) (whole : s.ctl.wrapped = false)
    (commands : ∀ command, now + config.commandDuration command < 2 ^ 64) :
    t.ctl.wrapped = false := by
  cases step with
  | activate =>
      rw [activatedState_ctl]
      exact noteSum_whole whole (commands _)
  | precharge =>
      rw [prechargedState_ctl]
      exact noteSum_whole whole (commands _)

/-- The access a demand command issues for is queued, for its kind of transfer. -/
theorem Demand.fits (sound : Sound config mapper c) (fits : CommandsFit config now c) {w : Bool}
    {index : Nat} {a : HbmAccess} {k : HbmCommand} (demand : Demand config mapper c now w index a k) :
    ∃ duration, config.dataRate.transferTime a.sizeBytes = .ok duration ∧
      ∀ busReady, c.dataBusReadyAt[a.address.pseudoChannel]? = some busReady →
        max (now + casLatency config w) busReady + duration < 2 ^ 64 := by
  have mem := List.mem_of_getElem? demand.access
  have queued : a.toLogicalAccess ∈ c.queued := by
    have mapped := List.mem_map_of_mem (f := HbmAccess.toLogicalAccess) mem
    unfold HbmController.queued
    cases w with
    | false => exact List.mem_append_left _ mapped
    | true => exact List.mem_append_right _ mapped
  have op : a.op.isWrite = w := by
    rw [sound.op w a mem]
    cases w <;> rfl
  have room := fits.transfers _ queued
  rwa [op] at room

/-- A data command wraps nothing if all the sums behind its transfer fit. -/
theorem DataStep.whole (sound : Sound config mapper s.ctl) {physical : PhysicalAccess}
    (step : DataStep config mapper now s physical t) (whole : s.ctl.wrapped = false)
    (fits : CommandsFit config now s.ctl) : t.ctl.wrapped = false := by
  cases step with
  | @mk w index bankIndex busReady duration a k priority banks slot demand data local_ hbanks bus
      hduration hslot =>
      obtain ⟨duration', time, room⟩ := demand.fits sound fits
      obtain rfl := Except.ok.inj (hduration.symm.trans time)
      have sum := room busReady bus
      have cas : now + casLatency config w < 2 ^ 64 := by omega
      rw [transferredState_ctl, hslot]
      refine noteSum_whole (noteSum_whole (noteSum_whole whole (fits.commands _)) cas) ?_
      show max (SimTime.add now (casLatency config w)) busReady + duration < 2 ^ 64
      rw [SimTime.add_of_lt cas]
      exact sum

/-- The transfer of a queued access is not too long for its step. -/
theorem LostStep.impossible (sound : Sound config mapper s.ctl) {lost : List LogicalAccess}
    (fits : CommandsFit config now s.ctl) : ¬ LostStep config mapper now s lost t := by
  intro step
  cases step with
  | mk demand data local_ hbanks huge =>
      obtain ⟨duration, time, -⟩ := demand.fits sound fits
      cases time.symm.trans huge

/-! ### Overdue refreshes -/

/-- The command bus is free by then as well. -/
theorem ReadyBy.bus (ready : ReadyBy config time c) (command : HbmCommand) :
    c.commandBusReady config command ≤ time := by
  unfold commandBusReady
  split
  · exact ready.unified
  · exact ready.row
  · exact ready.column

/-- An obligation is one more thing to do. -/
theorem maintenanceWork_raise : (c.raise config due).maintenanceWork ≤ c.maintenanceWork + 1 := by
  unfold raise
  split
  · show 1 + (c.banks.map bankWork).sum ≤ c.maintenanceWork + 1
    unfold maintenanceWork
    omega
  · have sum : ((c.banks.modify c.nextPerBankRefresh fun b => { b with refreshPending := true }).map
        bankWork).sum ≤ (c.banks.map bankWork).sum + 1 := by
      refine sum_map_modify_le (fun b => ?_) _ _
      unfold bankWork
      simp only [Bool.toNat_true]
      omega
    exact Nat.add_le_add_left sum c.refreshPending.toNat

/-- What catching up leaves of a channel: no more to do, and ready after one recovery for each
thing done. -/
def CaughtUp (config : HbmControllerConfig) (time : Nat) (c c' : HbmController) : Prop :=
  c'.maintenanceWork ≤ c.maintenanceWork ∧ ∃ later, ReadyBy config later c' ∧
    later + config.longestRecovery * c'.maintenanceWork ≤
      time + config.longestRecovery * c.maintenanceWork

theorem CaughtUp.refl (ready : ReadyBy config time c) : CaughtUp config time c c :=
  ⟨Nat.le_refl _, time, ready, Nat.le_refl _⟩

/-- One command of the loop. -/
theorem MaintenanceStep.catchesUp {candidate : MaintenanceCandidate} {at_ : Nat}
    (step : MaintenanceStep config mapper now s candidate at_ t) (ready : ReadyBy config time s.ctl)
    (reached : at_ ≤ time)
    (fits : time + config.longestRecovery * s.ctl.maintenanceWork < 2 ^ 64)
    (whole : s.ctl.wrapped = false) :
    t.ctl.wrapped = false ∧ ∃ later, ReadyBy config later t.ctl ∧ at_ ≤ later ∧
      later + config.longestRecovery * t.ctl.maintenanceWork ≤
        time + config.longestRecovery * s.ctl.maintenanceWork := by
  have fast := config.recovery_le_longest candidate.command
  have command := @HbmControllerConfig.commandDuration_le config candidate.command
  have blocks := @HbmControllerConfig.maintenanceDuration_le config candidate.command
  have less := Nat.mul_le_mul_left config.longestRecovery (Nat.succ_le_of_lt step.work_lt)
  rw [Nat.mul_succ] at less
  refine ⟨step.whole whole (by omega) (by omega), _, ready.maintain step, by omega, by omega⟩

/-- The catch-up loop wraps nothing while the time left covers the longest recovery for each command
still to issue. -/
theorem idleRefreshLoop_fits (wiring : Wiring config mapper) {rounds cursor : Nat}
    (sound : Sound config mapper s.ctl) (enough : s.ctl.maintenanceWork ≤ rounds)
    (ready : ReadyBy config time s.ctl) (reached : cursor ≤ time)
    (fits : time + config.longestRecovery * s.ctl.maintenanceWork < 2 ^ 64)
    (whole : s.ctl.wrapped = false) :
    Exits (idleRefreshLoop config mapper rounds cursor)
      (fun _ t => t.ctl.wrapped = false ∧ CaughtUp config time s.ctl t.ctl ∧
        (s.ctl.refreshOwed = true → t.ctl.maintenanceWork < s.ctl.maintenanceWork))
      (fun e t => t.ctl.wrapped = false ∧ e.isOverflow = false) s := by
  induction rounds generalizing s cursor time with
  | zero =>
      unfold idleRefreshLoop
      simp only [exits_bind, exits_get, exits_ite, exits_pure, exits_throw]
      refine ⟨fun settled => ⟨whole, .refl ready, fun owed => ?_⟩, fun _ => ⟨whole, rfl⟩⟩
      rw [owed] at settled
      cases settled
  | succ rounds ih =>
      unfold idleRefreshLoop
      simp only [exits_bind, exits_get, exits_ite, exits_pure, exits_ofExcept]
      refine ⟨fun settled => ⟨whole, .refl ready, fun owed => ?_⟩, fun unsettled =>
        ⟨fun choice chosen => ?_, fun e failed =>
          ⟨whole, ready.chooseMaintenance_mild (by omega) failed⟩⟩⟩
      · rw [owed] at settled
        cases settled
      have owed : s.ctl.refreshOwed = true := by simpa using unsettled
      cases choice with
      | none => exact ⟨whole, rfl⟩
      | some candidate =>
          have plan := chooseMaintenance_some wiring sound chosen
          have soon : max cursor candidate.readyAt ≤ time := by
            by_cases later : cursor < candidate.readyAt
            · exact Nat.max_le.mpr ⟨reached, ready.planned plan later⟩
            · exact Nat.max_le.mpr ⟨reached, Nat.le_trans (Nat.not_lt.mp later) reached⟩
          simp only [exits_bind, exits_get]
          refine (issueMaintenance_exits wiring sound plan (Nat.le_max_left _ _)
            (Nat.le_max_right _ _) (.inr owed) (.inl (Nat.zero_le _))).mono (fun _ u step => ?_)
            (fun _ _ h => h.elim)
          have less := step.work_lt
          obtain ⟨whole', later, ready', passed, room⟩ := step.catchesUp ready soon fits whole
          refine (ih (sound.step (.maintain step)) (by omega) ready'
            (Nat.max_le.mpr ⟨passed, ready'.bus _⟩) (by omega) whole').mono (fun _ t h => ?_)
            fun _ _ h => h
          obtain ⟨whole'', ⟨fewer, last, ready'', room'⟩, -⟩ := h
          exact ⟨whole'', ⟨by omega, last, ready'', by omega⟩, fun _ => by omega⟩

/-- The refresh of one due instant on an idle channel. -/
theorem applyIdleRefresh_fits (wiring : Wiring config mapper) (sound : Sound config mapper s.ctl)
    (ready : ReadyBy config time s.ctl) (reached : due ≤ time)
    (fits : time + config.longestRecovery * (s.ctl.maintenanceWork + 1) < 2 ^ 64)
    (whole : s.ctl.wrapped = false) :
    Exits (applyIdleRefresh config mapper due)
      (fun _ t => t.ctl.wrapped = false ∧ t.ctl.maintenanceWork ≤ s.ctl.maintenanceWork ∧
        ∃ later, ReadyBy config later t.ctl ∧
          later + config.longestRecovery * t.ctl.maintenanceWork ≤
            time + config.longestRecovery * (s.ctl.maintenanceWork + 1))
      (fun e t => t.ctl.wrapped = false ∧ e.isOverflow = false) s := by
  unfold applyIdleRefresh
  simp only [exits_bind, exits_get]
  refine ((raiseRefresh_raises sound due).and (raiseRefresh_mild due)).mono (fun _ u h => ?_)
    (fun e u h => ⟨h.2.2 ▸ whole, h.2.1⟩)
  obtain ⟨⟨rfl, bank⟩, -⟩ := h
  have more := @maintenanceWork_raise config s.ctl due
  have scaled := Nat.mul_le_mul_left config.longestRecovery more
  have frame := @raise_frame config s.ctl due
  have ready' : ReadyBy config time (s.ctl.raise config due) := by
    rw [frame]
    exact ready.congr ⟨rfl, rfl, rfl, rfl, rfl⟩ rfl
  have whole' : (s.ctl.raise config due).wrapped = false := by
    rw [frame]
    exact whole
  refine (idleRefreshLoop_fits (s := s.modifyCtl (·.raise config due)) wiring
    (sound.raise due bank) (Nat.le_refl _) ready' (Nat.max_le.mpr ⟨reached, ready'.busy⟩)
    (Nat.lt_of_le_of_lt (Nat.add_le_add_left scaled _) fits) whole').mono (fun _ t h => ?_)
    fun _ _ h => h
  obtain ⟨whole'', ⟨-, later, ready'', room⟩, less⟩ := h
  have done : t.ctl.maintenanceWork < (s.ctl.raise config due).maintenanceWork :=
    less (raise_owed bank)
  exact ⟨whole'', by omega, later, ready'', Nat.le_trans room (Nat.add_le_add_left scaled _)⟩

/-- One interval later one refresh fewer is overdue. -/
theorem overdue_step (interval : config.refreshInterval ≠ 0)
    (next : due + config.refreshInterval ≤ now) :
    overdue config due now = overdue config (due + config.refreshInterval) now + 1 := by
  have split : now - due = now - (due + config.refreshInterval) + config.refreshInterval := by omega
  unfold overdue
  rw [split, Nat.add_div_right _ (Nat.pos_of_ne_zero interval)]

/-- Once an instant is made up for there is room for the next. -/
theorem CatchUpFits.step {later : Nat} (h : CatchUpFits config time due now c)
    (interval : config.refreshInterval ≠ 0) (next : due + config.refreshInterval ≤ now)
    (ready : ReadyBy config later c') (fewer : c'.maintenanceWork ≤ c.maintenanceWork)
    (room : later + config.longestRecovery * c'.maintenanceWork ≤
      time + config.longestRecovery * (c.maintenanceWork + 1)) :
    CatchUpFits config (max later (due + config.refreshInterval + config.longestRecovery))
      (due + config.refreshInterval) now c' := by
  refine ⟨ready.mono (Nat.le_max_left _ _), Nat.le_max_right _ _, ?_⟩
  have fits := h.fits
  have reached := h.reached
  have scaled := Nat.mul_le_mul_left config.longestRecovery fewer
  rw [overdue_step interval next, Nat.succ_mul] at fits
  rw [Nat.mul_succ] at room
  omega

/-- Catching up wraps nothing if there is such a time for the first refresh that is due. -/
theorem catchUpRefresh_fits (wiring : Wiring config mapper) {rounds : Nat}
    (sound : Sound config mapper s.ctl) (interval : config.refreshInterval ≠ 0)
    (fits : ∀ due, s.ctl.nextRefreshDue = some due → due ≤ now →
      ∃ time, CatchUpFits config time due now s.ctl)
    (whole : s.ctl.wrapped = false) :
    Exits (catchUpRefresh config mapper rounds now) (fun _ t => t.ctl.wrapped = false)
      (fun e t => t.ctl.wrapped = false ∧ e.isOverflow = false) s := by
  induction rounds generalizing s with
  | zero =>
      unfold catchUpRefresh
      simp only [exits_bind, exits_get]
      cases s.ctl.nextRefreshDue with
      | none => exact whole
      | some due =>
          simp only [exits_ite, exits_throw, exits_pure]
          exact ⟨fun _ => ⟨whole, rfl⟩, fun _ => whole⟩
  | succ rounds ih =>
      unfold catchUpRefresh
      simp only [exits_bind, exits_get]
      cases next : s.ctl.nextRefreshDue with
      | none => exact whole
      | some due =>
          simp only [exits_ite, exits_bind, exits_modify, exits_pure]
          refine ⟨fun passed => ?_, fun _ => whole⟩
          obtain ⟨time, room⟩ := fits due next passed
          have reached := room.reached
          have bound := room.fits
          have once : 1 * max config.longestRecovery config.refreshInterval ≤
              overdue config due now * max config.longestRecovery config.refreshInterval :=
            Nat.mul_le_mul_right _ (Nat.succ_le_succ (Nat.zero_le _))
          refine ((applyIdleRefresh_fits wiring sound room.ready (by omega)
            (by rw [Nat.mul_succ]; omega) whole).and (applyIdleRefresh_exits wiring sound
              (.inr ⟨due, next, Nat.le_refl _⟩) passed (.inr fun next' hdue =>
                Nat.le_of_eq (Option.some.inj (next.symm.trans hdue))))).mono
            (fun _ u h => ?_) fun _ _ h => h.1
          obtain ⟨⟨whole', fewer, later, ready, room'⟩, steps, same, -⟩ := h
          have sum : due + config.refreshInterval < 2 ^ 64 := by omega
          have hdue : u.ctl.nextRefreshDue = some due := by
            rw [same.nextRefreshDue, raise_frame]
            exact next
          refine ih (s := u.modifyCtl (·.advanceDue config due)) ?_ (fun due' hdue' passed' => ?_)
            (noteSum_whole whole' sum)
          · exact (steps.sound sound).step (.advanceDue due passed (by simp [hdue])
              fun due' hdue' => Option.some.inj (hdue.symm.trans hdue'))
          · obtain rfl : SimTime.add due config.refreshInterval = due' := Option.some.inj hdue'
            rw [SimTime.add_of_lt sum] at passed' ⊢
            exact ⟨_, room.step interval passed' (ready.congr ⟨rfl, rfl, rfl, rfl,
              rfl⟩ rfl) fewer room'⟩

/-- Before an arrival no time leaves 64 bits, and no query for one overflows. -/
theorem prepareRefreshForArrival_fits (wiring : Wiring config mapper)
    (sound : Sound config mapper s.ctl) {busy : Nat} (fits : RefreshesFit config busy now s.ctl)
    (whole : s.ctl.wrapped = false) :
    Exits (prepareRefreshForArrival config mapper now) (fun _ t => t.ctl.wrapped = false)
      (fun e t => t.ctl.wrapped = false ∧ e.isOverflow = false) s := by
  unfold prepareRefreshForArrival
  simp only [exits_ite, exits_bind, exits_modify, exits_pure]
  refine ⟨fun interval => ?_, fun _ => whole⟩
  cases next : s.ctl.nextRefreshDue with
  | some due =>
      have same : s.ctl.startRefresh config now = s.ctl := by simp [startRefresh, next]
      rw [ControllerState.modifyCtl, same]
      exact catchUpRefresh_fits (s := ⟨s.ctl, s.stats⟩) wiring sound interval
        (fun due hdue passed => (fits.catchUp due hdue passed).imp fun _ h => h.2) whole
  | none =>
      have first : s.ctl.startRefresh config now = s.ctl.advanceDue config now := by
        simp [startRefresh, next, advanceDue]
      have sum := fits.first interval next
      rw [ControllerState.modifyCtl, first]
      refine catchUpRefresh_fits (s := ⟨s.ctl.advanceDue config now, s.stats⟩) wiring
        (sound.step (s := s) (.advanceDue now (Nat.le_refl _) (fun _ =>
          ⟨rfl, interval⟩) (by simp [next])))
        interval (fun due hdue passed => ?_) (noteSum_whole whole sum)
      obtain rfl : SimTime.add now config.refreshInterval = due := Option.some.inj hdue
      rw [SimTime.add_of_lt sum] at passed
      omega

/-- The event of the instant `now`, at that instant. -/
theorem handleRefreshEvent_fits (wiring : Wiring config mapper) (sound : Sound config mapper s.ctl)
    {busy : Nat} (fits : RefreshesFit config busy now s.ctl) (whole : s.ctl.wrapped = false) :
    Exits (handleRefreshEvent config mapper now) (fun _ t => t.ctl.wrapped = false)
      (fun _ t => t.ctl.wrapped = false) s := by
  unfold handleRefreshEvent
  simp only [exits_bind, exits_get, exits_ite, exits_modify, exits_pure]
  refine ⟨fun _ => ⟨fun next => ?_, fun _ => whole⟩, fun _ => whole⟩
  obtain ⟨time, -, room⟩ := fits.catchUp now next (Nat.le_refl _)
  have reached := room.reached
  have bound := room.fits
  have once : overdue config now now = 1 := by
    unfold overdue
    rw [Nat.sub_self, Nat.zero_div]
  rw [once, Nat.one_mul] at bound
  -- the event is disarmed and the due instant moves on before the refresh
  let c : HbmController := { s.ctl with refreshDueAt := none }
  have advanced : (c.advanceDue config now).wrapped = false :=
    noteSum_whole (c := c) whole (by omega)
  have unmarked : Sound config mapper c :=
    sound.change rfl sound.rfm rfl (fun w a ha => ⟨a, ha, rfl⟩) rfl
  refine ⟨fun _ => ?_, fun _ => ?_⟩
  · refine (applyIdleRefresh_fits (s := ⟨c.advanceDue config now, s.stats⟩) wiring
      (unmarked.change rfl sound.rfm rfl (fun w a ha => ⟨a, ha, rfl⟩) rfl)
      (room.ready.congr ⟨rfl, rfl, rfl, rfl, rfl⟩ rfl) (by omega) ?_ advanced).mono
      (fun _ _ h => h.1) fun _ _ h => h.1
    show time + config.longestRecovery * (s.ctl.maintenanceWork + 1) < 2 ^ 64
    rw [Nat.mul_succ]
    omega
  · refine (raiseRefresh_mild (s := ⟨c.advanceDue config now, s.stats⟩) now).mono
      (fun _ t h => ?_) fun _ t h => h.2 ▸ advanced
    rw [h]
    show ((c.advanceDue config now).raise config now).wrapped = false
    rw [raise_frame]
    exact advanced

/-! ### Channels with room -/

/-- No time of the channel has left 64 bits, and there is room for its overdue refreshes. -/
structure Roomy (config : HbmControllerConfig) (mapper : HbmAddressMapper) (now : Nat)
    (c : HbmController) : Prop where
  sound : Sound config mapper c
  whole : c.wrapped = false
  room : RefreshesFit config 0 now c

/-- The channel without its queues. -/
abbrev bare (c : HbmController) : HbmController := c.withQueues {}

/-- Only the queues, slots and marks differ. -/
def SameBare (s t : ControllerState) : Prop := bare t.ctl = bare s.ctl

instance : Std.Refl SameBare := ⟨fun _ => rfl⟩

instance : IsTrans ControllerState SameBare := ⟨fun _ _ _ h h' => h'.trans h⟩

/-- Soundness does not read the queues. -/
theorem Sound.bare (sound : Sound config mapper c) :
    Sound config mapper (HbmController.bare c) where
  banks := sound.banks
  buses := sound.buses
  mapped w a mem := by cases w <;> cases mem
  op w a mem := by cases w <;> cases mem
  rfm := sound.rfm
  rotation := sound.rotation

theorem RefreshesFit.congr {busy : Nat} (fits : RefreshesFit config busy now c)
    (same : HbmController.bare c' = HbmController.bare c) : RefreshesFit config busy now c' where
  first on none := fits.first on ((congrArg nextRefreshDue same).symm.trans none)
  catchUp due next passed := by
    obtain ⟨time, after, room⟩ := fits.catchUp due ((congrArg nextRefreshDue same).symm.trans next)
      passed
    have ready : ReadyBy config time (HbmController.bare c') :=
      same ▸ room.ready.congr ⟨rfl, rfl, rfl, rfl, rfl⟩ rfl
    have work : (HbmController.bare c').maintenanceWork = (HbmController.bare c).maintenanceWork :=
      same ▸ rfl
    have fits : time + config.longestRecovery * (HbmController.bare c').maintenanceWork + _ < _ :=
      work ▸ room.fits
    exact ⟨time, after, ready.congr ⟨rfl, rfl, rfl, rfl, rfl⟩ rfl, room.reached, fits⟩

/-- It holds of the bare controller itself. -/
theorem RefreshesFit.bare {busy : Nat} (fits : RefreshesFit config busy now c) :
    RefreshesFit config 0 now (HbmController.bare c) where
  first := fits.first
  catchUp due next passed := by
    have fits' : RefreshesFit config busy now (HbmController.bare c) := fits.congr rfl
    obtain ⟨time, after, room⟩ := fits'.catchUp due next passed
    exact ⟨time, by omega, room⟩

/-- An arrival leaves a channel with room, or throws before any time has left 64 bits. -/
theorem Roomy.prepares (wiring : Wiring config mapper) (roomy : Roomy config mapper now s.ctl) :
    Exits (prepareRefreshForArrival config mapper now) (fun _ t => Roomy config mapper now t.ctl)
      (fun e t => t.ctl.wrapped = false ∧ e.isOverflow = false) s := by
  by_cases interval : config.refreshInterval = 0
  · unfold prepareRefreshForArrival
    rw [if_neg (not_not.mpr interval)]
    exact roomy
  · refine ((prepareRefreshForArrival_fits wiring roomy.sound roomy.room roomy.whole).and
      (prepareRefreshForArrival_exits wiring roomy.sound)).mono (fun _ t h => ?_)
      fun _ _ h => h.1
    obtain ⟨whole, steps, prepared, -⟩ := h
    obtain ⟨found, later⟩ := prepared interval
    exact ⟨steps.sound roomy.sound, whole, fun _ none => absurd none found,
      fun due next passed => absurd passed (Nat.not_le.mpr (later due next))⟩

/-- The queues do not matter. -/
theorem Roomy.prepares_bare (wiring : Wiring config mapper)
    (roomy : Roomy config mapper now (bare s.ctl)) :
    Exits (prepareRefreshForArrival config mapper now)
      (fun _ t => Roomy config mapper now (bare t.ctl))
      (fun e t => t.ctl.wrapped = false ∧ e.isOverflow = false) s := by
  have alone := Roomy.prepares (s := ⟨bare s.ctl, s.stats⟩) wiring roomy
  have both : Alike (Requeued {}) (prepareRefreshForArrival config mapper now s)
      (prepareRefreshForArrival config mapper now ⟨bare s.ctl, s.stats⟩) :=
    prepareRefreshForArrival_unqueued now s _ rfl
  unfold Exits at alone ⊢
  generalize prepareRefreshForArrival config mapper now s = left at both ⊢
  generalize prepareRefreshForArrival config mapper now ⟨bare s.ctl, s.stats⟩ = right at both alone
  cases both with
  | @ok _ t u states =>
      have same : u.ctl = bare t.ctl := states
      have done : Roomy config mapper now u.ctl := alone
      rw [same] at done
      exact done
  | @error e t u states =>
      have same : u.ctl = bare t.ctl := states
      have done : u.ctl.wrapped = false ∧ e.isOverflow = false := alone
      rw [same] at done
      exact done

/-! ### Driving a channel -/

theorem CommandsFit.retouched (mapper : HbmAddressMapper) (fits : CommandsFit config now s.ctl)
    (touched : Retouched config s t) : CommandsFit config now t.ctl := by
  have step : ControllerStep config mapper now s t := .retouch touched
  have queued : t.ctl.queued = s.ctl.queued := step.queued
  refine ⟨fits.commands, fun busy => fits.maintenance fun quiet => busy ?_, ?_⟩
  · exact quiet.retouched touched rfl
  · rw [queued, touched.ctl]
    exact fits.transfers

theorem RefreshesFit.retouched {busy : Nat} (fits : RefreshesFit config busy now s.ctl)
    (touched : Retouched config s t) : RefreshesFit config busy now t.ctl := by
  rw [touched.ctl]
  refine ⟨fits.first, fun due next passed => ?_⟩
  obtain ⟨time, after, room⟩ := fits.catchUp due next passed
  exact ⟨time, after, room.ready.congr ⟨rfl, rfl, rfl, rfl, rfl⟩ rfl, room.reached, room.fits⟩

/-- A data command asks for no maintenance. -/
theorem Demanded.work_le {exempt : Prop} {w : Bool} {index : Nat} {a : HbmAccess}
    {r : RecordedCommand} (demanded : Demanded config mapper now exempt s t w index a r)
    (data : r.command.isData = true) : t.ctl.maintenanceWork ≤ s.ctl.maintenanceWork := by
  unfold maintenanceWork
  rw [demanded.refresh.refreshPending]
  refine Nat.add_le_add_left (sum_map_le_of_getElem? demanded.records.banks
    fun i b b' hb hb' => ?_) _
  have row := demanded.records.rows i b b' hb hb'
  have flags := demanded.flags i b b' hb hb'
  rw [if_neg fun h => isAllBank_of_data data h.1] at flags
  have closed : b'.openRow.isSome.toNat ≤ b.openRow.isSome.toNat := by
    rw [row]
    split
    · exact HbmCommand.rowAfter_le data
    · exact Nat.le_refl _
  unfold bankWork
  rw [flags.refreshPending, flags.rfmPending]
  omega

/-- After a data command there is room for the refreshes of an arrival. -/
theorem DataStep.room (sound : Sound config mapper s.ctl) {physical : PhysicalAccess}
    (step : DataStep config mapper now s physical t) (fits : RefreshesFit config now now s.ctl) :
    RefreshesFit config 0 now t.ctl := by
  obtain ⟨w, index, a, r, data, -, demanded⟩ :=
    step.demanded sound (.inl trivial : True ∨ _)
  have next : t.ctl.nextRefreshDue = s.ctl.nextRefreshDue := demanded.refresh.nextRefreshDue
  refine ⟨fun on none => fits.first on (next ▸ none), fun due hdue passed => ?_⟩
  obtain ⟨time, after, room⟩ := fits.catchUp due (next ▸ hdue) passed
  have ready := room.ready.demanded demanded
  have fast := config.recovery_le_longest r.command
  have same : max time (r.issuedAt + config.recovery r.command) = time := by
    rw [demanded.time]
    omega
  have less := Nat.mul_le_mul_left config.longestRecovery (demanded.work_le data)
  have bound := room.fits
  exact ⟨time, by omega, same ▸ ready, room.reached, by omega⟩

/-- Where there is room for the commands of a channel, driving it lets no time leave 64 bits. -/
theorem drive_fits (wiring : Wiring config mapper) (sound : Sound config mapper s.ctl)
    (fits : CommandsFit config now s.ctl) (whole : s.ctl.wrapped = false) :
    Exits (drive config mapper now)
      (fun step t => t.ctl.wrapped = false ∧ (step.issuedAccess ≠ none →
        RefreshesFit config now now s.ctl → t.ctl.nextRefreshDue = s.ctl.nextRefreshDue ∧
          Roomy config mapper now (bare t.ctl)))
      (fun _ t => t.ctl.wrapped = false) s := by
  have kept : ∀ {u}, Retouched config s u → u.ctl.wrapped = false := fun touched => by
    rw [touched.ctl]
    exact whole
  refine (drive_exits wiring sound).mono (fun step t driven => ?_) fun e t thrown => ?_
  · cases driven with
    | blocked touched => exact ⟨kept touched, fun issued => absurd rfl issued⟩
    | maintenanceWaits touched => exact ⟨kept touched, fun issued => absurd rfl issued⟩
    | empty touched => exact ⟨kept touched, fun issued => absurd rfl issued⟩
    | waits touched => exact ⟨kept touched, fun issued => absurd rfl issued⟩
    | maintained touched _ step =>
        have fits' := fits.retouched mapper touched
        obtain ⟨cursor, plan⟩ := step.plan
        exact ⟨step.whole (kept touched) (fits'.commands _) (fits'.maintenance plan.not_quiet _),
          fun issued => absurd rfl issued⟩
    | row touched step =>
        have fits' := fits.retouched mapper touched
        exact ⟨step.whole (kept touched) fits'.commands, fun issued => absurd rfl issued⟩
    | @data u phys touched step =>
        have fits' := fits.retouched mapper touched
        have sound' := sound.retouched touched
        have whole' := step.whole sound' (kept touched) fits'
        refine ⟨whole', fun _ room => ⟨?_, Sound.bare (sound'.dataStep step), whole',
          (step.room sound' (room.retouched touched)).bare⟩⟩
        rw [step.frame, touched.ctl]
  · rcases thrown with ⟨-, u, lost, touched, step⟩ | ⟨touched, -⟩
    · exact absurd step (LostStep.impossible (sound.retouched touched)
        (fits.retouched mapper touched))
    · exact kept touched

/-! ### Calls that change queues and marks only -/

theorem reserve_bare (reads writes : Nat) : Stays SameBare (reserve config reads writes) := by
  unfold reserve
  refine .bind .get fun s => ?_
  refine .ite (fun _ => .bind (.throw _) fun _ => ?_) fun _ => ?_
  all_goals exact .modify fun _ => rfl

theorem pushReserved_bare (access : HbmAccess) : Stays SameBare (pushReserved config access) := by
  unfold pushReserved
  refine .bind .get fun s => .ite (fun _ => ?_) fun _ => ?_
  all_goals
    refine .ite (fun _ => .bind (.throw _) fun _ => ?_) fun _ => ?_
    all_goals exact .bind (.modify fun _ => rfl) fun _ => .modify fun _ => rfl

theorem completeAccess_bare (access : LogicalCompletion) :
    Stays SameBare (completeAccess config access) := by
  unfold completeAccess
  refine .bind .get fun s => ?_
  refine .ite (fun _ => .bind (.throw _) fun _ => ?_) fun _ => ?_
  all_goals exact .modify fun _ => rfl

theorem CommandsFit.clearWakeup (fits : CommandsFit config now c) (at_ : Nat) :
    CommandsFit config now (c.clearWakeup at_) := by
  unfold HbmController.clearWakeup
  split <;> exact ⟨fits.commands, fits.maintenance, fits.transfers⟩

theorem clearWakeup_bare (c : HbmController) (at_ : Nat) : bare (c.clearWakeup at_) = bare c := by
  unfold clearWakeup
  split <;> rfl

theorem markWakeup_bare (c : HbmController) (at_ : Nat) : bare (c.markWakeup at_).2 = bare c := by
  unfold markWakeup
  split
  · split <;> rfl
  · rfl

theorem claimRefreshEvent_bare (c : HbmController) : bare c.claimRefreshEvent.2 = bare c := by
  unfold claimRefreshEvent
  split
  · rfl
  · split <;> rfl

end HbmController

open HbmController

namespace HbmSystem

variable {cfg : HbmConfig} {now : Nat} {s : HbmSystem}

/-- Every channel has room for its refreshes at the time of the system. -/
structure Fits (cfg : HbmConfig) (now : Nat) (s : HbmSystem) : Prop where
  clock : s.now = now
  roomy : ∀ channel < cfg.channelCount,
    Roomy (cfg.channelConfig channel) cfg.mapper now (bare (s.controllers channel))

/-- No time of any channel has left 64 bits. -/
def Whole (cfg : HbmConfig) (s : HbmSystem) : Prop :=
  ∀ channel < cfg.channelCount, (s.controllers channel).wrapped = false

/-- What fits has not wrapped so far. -/
theorem Fits.whole (fits : Fits cfg now s) : Whole cfg s :=
  fun channel hchannel => (fits.roomy channel hchannel).whole

/-- What a call does to one channel. -/
theorem Fits.update (fits : Fits cfg now s) {channel : Nat} {t : ControllerState}
    (roomy : Roomy (cfg.channelConfig channel) cfg.mapper now (bare t.ctl)) :
    Fits cfg now (s.update channel t) := by
  refine ⟨fits.clock, fun ch hch => ?_⟩
  rw [update_controllers]
  split
  · subst ch
    exact roomy
  · exact fits.roomy ch hch

/-- One controller is replaced by another that has not wrapped. -/
theorem Whole.update (whole : Whole cfg s) {channel : Nat} {t : ControllerState}
    (here : t.ctl.wrapped = false) : Whole cfg (s.update channel t) := by
  intro ch hch
  rw [update_controllers]
  split
  · exact here
  · exact whole ch hch

/-- A controller operation that keeps its controller roomy keeps the system fitting. -/
theorem onController_fits {α : Type} {channel : Nat} {op : ControllerM α}
    (preserves : ∀ v, Roomy (cfg.channelConfig channel) cfg.mapper now (bare v.ctl) →
      Exits op (fun _ t => Roomy (cfg.channelConfig channel) cfg.mapper now (bare t.ctl))
        (fun _ t => t.ctl.wrapped = false) v) :
    Preserves (Fits cfg now) (fun _ => Whole cfg) (onController cfg channel op) := by
  intro s fits
  by_cases hchannel : channel < cfg.channelCount
  · rw [onController_exits hchannel]
    exact (preserves _ (fits.roomy channel hchannel)).mono (fun _ _ roomy => fits.update roomy)
      fun _ _ here => fits.whole.update here
  · unfold onController Exits
    simp only [if_neg hchannel]
    exact fits.whole

/-- Only the clock and the channels without their queues matter. -/
def Bare (I : HbmSystem → Prop) : Prop :=
  ∀ s t : HbmSystem, t.now = s.now →
    (∀ channel, bare (t.controllers channel) = bare (s.controllers channel)) → I s → I t

/-- Whether the sums fit is read off the bare controllers and the clock. -/
theorem bare_fits : Bare (Fits cfg now) := fun _ _ clock same fits =>
  ⟨clock.trans fits.clock, fun channel hchannel => same channel ▸ fits.roomy channel hchannel⟩

theorem Whole.congr {t : HbmSystem} (whole : Whole cfg s)
    (same : ∀ channel, bare (t.controllers channel) = bare (s.controllers channel)) : Whole cfg t :=
  fun channel hchannel =>
    (congrArg HbmController.wrapped (same channel)).trans (whole channel hchannel)

/-- The wrap flags are read off the bare controllers. -/
theorem bare_whole : Bare (Whole cfg) := fun _ _ _ same whole => whole.congr same

section

variable {I E : HbmSystem → Prop}

theorem onController_bare {α : Type} {channel : Nat} {op : ControllerM α} (immaterial : Bare I)
    (throws : ∀ s, I s → E s) (stays : Stays SameBare op) :
    Preserves I (fun _ => E) (onController cfg channel op) := by
  intro s holds
  have kept : ∀ t : ControllerState, SameBare (s.side channel) t → I (s.update channel t) := by
    intro t same
    refine immaterial s _ rfl (fun ch => ?_) holds
    rw [update_controllers]
    split
    · subst ch
      exact same
    · rfl
  by_cases hchannel : channel < cfg.channelCount
  · rw [onController_exits hchannel]
    exact (stays.exits _).mono (fun _ t same => kept t same) fun _ t same => throws _ (kept t same)
  · unfold onController Exits
    simp only [if_neg hchannel]
    exact throws s holds

theorem scheduleEvent_bare (immaterial : Bare I) (throws : ∀ s, I s → E s) (at_ : Nat)
    (callback : EventCallback) : Preserves I (fun _ => E) (scheduleEvent at_ callback) :=
  fun s holds => (scheduleEvent_exits at_ callback).mono
    (fun _ _ h => immaterial s _ (h.2 ▸ rfl) (fun _ => h.2 ▸ rfl) holds)
    fun _ _ h => h.2.1 ▸ throws s holds

theorem scheduleControllerWake_bare (immaterial : Bare I) (throws : ∀ s, I s → E s)
    (channel at_ : Nat) : Preserves I (fun _ => E) (scheduleControllerWake cfg channel at_) := by
  unfold scheduleControllerWake
  refine .bind .get fun s => .bind (onController_bare immaterial throws (.modifyGet fun v => ?_))
    fun needed => ?_
  · exact markWakeup_bare v.ctl _
  · exact .ite (fun _ => scheduleEvent_bare immaterial throws _ _) fun _ => .pure _

theorem scheduleRefreshDue_bare (immaterial : Bare I) (throws : ∀ s, I s → E s) (channel : Nat) :
    Preserves I (fun _ => E) (scheduleRefreshDue cfg channel) := by
  unfold scheduleRefreshDue
  refine .bind (onController_bare immaterial throws (.modifyGet fun v => ?_)) fun due => ?_
  · exact claimRefreshEvent_bare v.ctl
  · cases due with
    | none => exact .pure _
    | some due => exact scheduleEvent_bare immaterial throws _ _

end

/-- Admitting one access catches up on its channel's refreshes, and these fit. -/
theorem admitAccess_fits (checked : cfg.Checked) (parent : ParentRequest) (access : HbmAccess) :
    Preserves (Fits cfg now) (fun _ => Whole cfg) (admitAccess cfg parent access) := by
  intro s fits
  unfold admitAccess
  simp only [exits_bind, exits_get, exits_set]
  refine (onController_bare bare_fits (fun _ =>
    Fits.whole) (reserve_bare _ _) s fits).mono (fun _ t fits' => ?_) fun _ _ h => h
  have charged : Fits cfg now (t.chargeAccess parent { access with sequence := t.nextAccessSequence }) :=
    ⟨fits'.clock, fits'.roomy⟩
  refine onController_fits (fun v roomy => ?_) _ charged
  unfold admitReserved
  rw [exits_bind, fits'.clock]
  refine (roomy.prepares_bare (checked.wiring _)).mono (fun _ u roomy' => ?_) fun _ _ h => h.1
  exact ((pushReserved_bare _).exits u).mono
    (fun _ t (same : bare t.ctl = bare u.ctl) => same ▸ roomy')
    fun _ t (same : bare t.ctl = bare u.ctl) => (congrArg HbmController.wrapped same).trans roomy'.whole

/-- Where every channel has room no call lets a time leave 64 bits. -/
theorem preserving_fits (checked : cfg.Checked) (now : Nat) :
    Preserving cfg (Fits cfg now) fun _ => Whole cfg where
  throws _ _ := Fits.whole
  members scheduler controllers _ _ _ fits :=
    ⟨(congrArg EventQueue.now scheduler).trans fits.clock, controllers ▸ fits.roomy⟩
  event at_ callback _ := scheduleEvent_bare bare_fits (fun _ => Fits.whole) at_ callback
  wake := scheduleControllerWake_bare bare_fits fun _ => Fits.whole
  refreshDue := scheduleRefreshDue_bare bare_fits fun _ => Fits.whole
  observe _ _ fits := ⟨fits.clock, fits.roomy⟩
  client _ _ _ fits := by
    unfold scheduleClient EventQueue.scheduleAt
    split
    · rename_i scheduled
      split at scheduled
      · cases scheduled
      · cases scheduled
        exact ⟨fits.clock, fits.roomy⟩
    · exact fits
  enqueue := admitAccess_fits checked
  complete channel access :=
    onController_bare bare_fits (fun _ => Fits.whole) (completeAccess_bare access)

end HbmSystem

end HbmSim
