import HbmSim.Controller.Selection
import HbmSim.System.Actions
import HbmSim.System.Replay

/-!
Idle refresh is event-driven refresh.

The refresh of an idle channel issues all its commands at once, at times of its own. They are
the commands and the times that come out if the refresh is only raised, and `drive` is called
at the due instant and at each wake time it returns.
-/

namespace HbmSim

open HbmSim.Lib HbmSystem

/-! ### Statistics -/

/-- Two updates of a channel's statistics are one. -/
theorem HbmStats.modifyChannel_modifyChannel (s : HbmStats) (channel : Nat)
    (f g : ChannelStats → ChannelStats) :
    (s.modifyChannel channel f).modifyChannel channel g = s.modifyChannel channel (g ∘ f) := by
  unfold modifyChannel
  congr 1
  funext c
  split <;> simp_all

/-- A change of a channel's record that does not depend on its queue statistics. -/
theorem HbmStats.modifyQueue_modifyChannel (s : HbmStats) (channel : Nat)
    (f : QueueStats → QueueStats) (g : ChannelStats → ChannelStats)
    (commute : ∀ c : ChannelStats, { g c with queue := f (g c).queue } =
      g { c with queue := f c.queue }) :
    (s.modifyQueue channel f).modifyChannel channel g =
      (s.modifyChannel channel g).modifyQueue channel f := by
  unfold modifyQueue
  rw [modifyChannel_modifyChannel, modifyChannel_modifyChannel]
  exact congrArg _ (funext fun c => (commute c).symm)

namespace HbmController

variable {config : HbmControllerConfig} {mapper : HbmAddressMapper} {s t u : ControllerState}
  {now : Nat}

/-- The totals `record_command` advances besides its channel's record. -/
def totals (k : HbmCommand) (stats : HbmStats) : HbmStats :=
  match k with
  | .act => { stats with
      issuedCommands := stats.issuedCommands + 1, actCommands := stats.actCommands + 1 }
  | .preBank | .preAll => { stats with
      issuedCommands := stats.issuedCommands + 1, preCommands := stats.preCommands + 1 }
  | .read | .readAuto => { stats with
      issuedCommands := stats.issuedCommands + 1, readCommands := stats.readCommands + 1 }
  | .write | .writeAuto => { stats with
      issuedCommands := stats.issuedCommands + 1, writeCommands := stats.writeCommands + 1 }
  | _ => { stats with issuedCommands := stats.issuedCommands + 1 }

theorem countCommand_eq (stats : HbmStats) (r : RecordedCommand) :
    countCommand config stats r =
      totals r.command (stats.modifyChannel config.channel (busCommand config r)) := by
  obtain ⟨k⟩ := r
  cases k <;> rfl

/-- Counting a command does not depend on the queue statistics. -/
theorem countCommand_modifyQueue (stats : HbmStats) (r : RecordedCommand)
    (f : QueueStats → QueueStats) :
    countCommand config (stats.modifyQueue config.channel f) r =
      (countCommand config stats r).modifyQueue config.channel f := by
  have swap := HbmStats.modifyQueue_modifyChannel stats config.channel f (busCommand config r)
    fun _ => rfl
  have free : ∀ stats : HbmStats, totals r.command (stats.modifyQueue config.channel f) =
      (totals r.command stats).modifyQueue config.channel f := by
    intro stats
    cases r.command <;> rfl
  rw [countCommand_eq, countCommand_eq, swap, free]

theorem countMaintenance_modifyQueue (stats : HbmStats) (k : HbmCommand)
    (f : QueueStats → QueueStats) :
    countMaintenance config (stats.modifyQueue config.channel f) k =
      (countMaintenance config stats k).modifyQueue config.channel f := by
  have swap := HbmStats.modifyQueue_modifyChannel stats config.channel f
  cases k with
  | refreshAllBank => exact swap (fun ch => { ch with refreshes := ch.refreshes + 1 }) fun _ => rfl
  | refreshPerBank =>
      exact swap (fun ch => { ch with perBankRefreshes := ch.perBankRefreshes + 1 }) fun _ => rfl
  | rfmAllBank =>
      exact congrArg (fun s : HbmStats => { s with rfmEvents := stats.rfmEvents + 1 })
        (swap (fun ch => { ch with rfmEvents := ch.rfmEvents + 1 }) fun _ => rfl)
  | rfmPerBank =>
      exact congrArg (fun s : HbmStats => { s with rfmEvents := stats.rfmEvents + 1 })
        (swap (fun ch => { ch with rfmEvents := ch.rfmEvents + 1 }) fun _ => rfl)
  | _ => rfl

/-- The same maintenance command has the same effect on a controller with other marks. -/
theorem maintained_retouched (h : Retouched config s t) (candidate : MaintenanceCandidate)
    (address : HbmAddress) (banks : List HbmBankState) (time : Nat) :
    Retouched config (HbmController.maintained config s candidate address banks time)
      (HbmController.maintained config t candidate address banks time) := by
  obtain ⟨f, merged, stats⟩ := h.stats
  cases final : candidate.finalCommand with
  | false =>
      refine ⟨?_, fun w => ?_, f, merged, ?_⟩
      · rw [maintained_prerequisite final, maintained_prerequisite final, h.ctl]
        rfl
      · rw [maintained_queue, maintained_queue, h.queue]
      · unfold HbmController.maintained
        simp only [final, Bool.false_eq_true, if_false]
        rw [stats, countCommand_modifyQueue]
  | true =>
      refine ⟨?_, fun w => ?_, f, merged, ?_⟩
      · rw [maintained_final final, maintained_final final, h.ctl]
        unfold settleMaintenance
        split <;> rfl
      · rw [maintained_queue, maintained_queue, h.queue]
      · unfold HbmController.maintained
        simp only [final, if_true]
        rw [stats, countCommand_modifyQueue, countMaintenance_modifyQueue]

/-! ### The next command of a refresh -/

/-- The command an all-bank refresh needs next. -/
def refreshCommand (c : HbmController) : HbmCommand :=
  if c.anyOpen then .preAll else .refreshAllBank

/-- Its candidate, ready at some time. -/
def refreshCandidate (c : HbmController) (ready : Nat) : MaintenanceCandidate :=
  ⟨.refreshAllBank, c.refreshCommand, 0, ready, !c.anyOpen⟩

/-- The earliest time the command can issue. -/
def refreshBound (config : HbmControllerConfig) (mapper : HbmAddressMapper) (c : HbmController) :
    Except HbmError Nat :=
  match c.banks with
  | [] => .error .undefined
  | _ :: _ => do
      let address ← mapper.bankAddress config.firstFlatBank
      earliestCommand config mapper c c.refreshCommand address 0

/-- The current time only enters the choice through a maximum. -/
theorem chooseMaintenance_pending {c : HbmController} (pending : c.refreshPending = true)
    (now : Nat) :
    chooseMaintenance config mapper c now =
      (fun bound => some (c.refreshCandidate (max now bound))) <$>
        refreshBound config mapper c := by
  unfold chooseMaintenance refreshBound
  rw [pending, if_pos rfl]
  cases c.banks with
  | nil => rfl
  | cons front rest =>
      simp only [RefreshPolicy.allBankCommand, HbmCommandPlanner.nextDecision_refreshAllBank,
        ok_bind]
      cases mapper.bankAddress config.firstFlatBank with
      | error e => rfl
      | ok address =>
          simp only [ok_bind]
          have command : (if c.anyOpen then (⟨.preAll, .channel, false⟩ : CommandDecision)
              else ⟨.refreshAllBank, .channel, true⟩).command = c.refreshCommand := by
            unfold refreshCommand
            split <;> rfl
          have final : (if c.anyOpen then (⟨.preAll, .channel, false⟩ : CommandDecision)
              else ⟨.refreshAllBank, .channel, true⟩).finalCommand = !c.anyOpen := by
            cases c.anyOpen <;> rfl
          rw [command, final, earliestCommand_eq_max]
          cases earliestCommand config mapper c c.refreshCommand address 0 <;> rfl

theorem refreshBound_retouched (h : Retouched config s t) :
    refreshBound config mapper t.ctl = refreshBound config mapper s.ctl := by
  have command : t.ctl.refreshCommand = s.ctl.refreshCommand := by
    unfold refreshCommand anyOpen
    rw [h.banks]
  unfold refreshBound
  rw [h.banks]
  simp only [command, earliestCommand_retouched h]

theorem refreshCandidate_retouched (h : Retouched config s t) (ready : Nat) :
    t.ctl.refreshCandidate ready = s.ctl.refreshCandidate ready := by
  unfold refreshCandidate refreshCommand anyOpen
  rw [h.banks]

/-- All commands of a refresh go over one bus. -/
theorem refreshCommand_bus (c : HbmController) :
    config.commandBus c.refreshCommand = config.commandBus .refreshAllBank := by
  have same : config.commandBus .preAll = config.commandBus .refreshAllBank := by
    unfold HbmControllerConfig.commandBus
    cases config.standard with
    | none => rfl
    | some standard => cases standard <;> rfl
  unfold refreshCommand
  cases c.anyOpen with
  | true => exact same
  | false => rfl

/-- All refresh commands find the bus free at the same time. -/
theorem commandBusReady_refresh (c c' : HbmController) :
    c.commandBusReady config c'.refreshCommand = c.commandBusReady config .refreshAllBank := by
  unfold commandBusReady
  rw [refreshCommand_bus]

/-- No refresh command is ready before the bus is. -/
theorem bus_le_refreshBound {c : HbmController} {bound : Nat}
    (run : refreshBound config mapper c = .ok bound) :
    c.commandBusReady config .refreshAllBank ≤ bound := by
  rw [← commandBusReady_refresh c c]
  unfold refreshBound at run
  split at run
  · cases run
  · obtain ⟨address, -, run⟩ := bind_eq_ok.mp run
    exact (earliestCommand_ok run).2.1

/-! ### Issuing it -/

section

variable (wiring : Wiring config mapper) (sound : Sound config mapper s.ctl)
  (pending : s.ctl.refreshPending = true) {bound time : Nat}
  (bounded : refreshBound config mapper s.ctl = .ok bound) (later : bound ≤ time)

include wiring sound pending bounded later

/-- A refresh command that is due issues, with an effect that does not depend on marks. -/
theorem refresh_issues : ∃ address banks, ∀ u, Retouched config s u →
    issueMaintenance config mapper (s.ctl.refreshCandidate time) time u =
        .ok () (HbmController.maintained config u (s.ctl.refreshCandidate time) address banks time) ∧
      MaintenanceStep config mapper time u (s.ctl.refreshCandidate time) time
        (HbmController.maintained config u (s.ctl.refreshCandidate time) address banks time) := by
  have issues : ∀ u, Retouched config s u → ∃ t,
      issueMaintenance config mapper (s.ctl.refreshCandidate time) time u = .ok () t ∧
        MaintenanceStep config mapper time u (s.ctl.refreshCandidate time) time t := by
    intro u touched
    have sound_u := sound.retouched touched
    have pending_u : u.ctl.refreshPending = true := by
      rw [touched.ctl]
      exact pending
    have chosen : chooseMaintenance config mapper u.ctl time =
        .ok (some (s.ctl.refreshCandidate time)) := by
      rw [chooseMaintenance_pending pending_u, refreshBound_retouched touched, bounded, map_ok,
        Nat.max_eq_left later, refreshCandidate_retouched touched]
    have plan := chooseMaintenance_some wiring sound_u chosen
    have exits := issueMaintenance_exits wiring sound_u plan (Nat.le_refl _)
      (Nat.le_refl time) (.inl rfl) (.inl (Nat.le_refl _))
    cases run : issueMaintenance config mapper (s.ctl.refreshCandidate time) time u with
    | error e t => exact (exits.of_error run).elim
    | ok _ t => exact ⟨t, rfl, exits.of_ok run⟩
  obtain ⟨t, run, step⟩ := issues s (.refl s)
  cases step with
  | @mk cursor address banks plan _ _ _ _ haddress hbanks =>
      refine ⟨address, banks, fun u touched => ?_⟩
      obtain ⟨t', run', step'⟩ := issues u touched
      have same : t' = HbmController.maintained config u (s.ctl.refreshCandidate time) address banks
          time := by
        cases step' with
        | @mk cursor' address' banks' plan' _ _ _ _ haddress' hbanks' =>
            rw [touched.banks] at hbanks'
            obtain rfl := Except.ok.inj (haddress.symm.trans haddress')
            obtain rfl := Except.ok.inj (hbanks.symm.trans hbanks')
            rfl
      subst same
      exact ⟨run', step'⟩

end

/-- After a refresh command the refresh is done if every bank was closed. -/
theorem refreshed_step {time : Nat} (pending : s.ctl.refreshPending = true)
    (step : MaintenanceStep config mapper now s (s.ctl.refreshCandidate time) time t) :
    t.ctl.refreshPending = s.ctl.anyOpen ∧
      (s.ctl.anyOpen = false → t.ctl.refreshOwed = false) ∧
      (s.ctl.anyOpen = true → t.ctl.refreshBusyUntil = s.ctl.refreshBusyUntil) := by
  obtain ⟨length, banks⟩ := step.banks
  have covered : (s.ctl.refreshCandidate time).command.isAllBank = true := by
    show s.ctl.refreshCommand.isAllBank = true
    unfold refreshCommand
    split <;> rfl
  have maintained : ∀ b' ∈ t.ctl.banks, ∃ b,
      BankMaintained (s.ctl.refreshCandidate time) b b' := by
    intro b' mem
    obtain ⟨i, hi⟩ := List.mem_iff_getElem?.mp mem
    obtain ⟨bound, -⟩ := List.getElem?_eq_some_iff.mp hi
    have change := banks i _ b' (List.getElem?_eq_getElem (length ▸ bound)) hi
    rw [if_pos (.inl covered)] at change
    exact ⟨_, change⟩
  have flag : t.ctl.refreshPending = s.ctl.anyOpen := by
    rw [step.refreshPending, pending]
    show (true && !(!s.ctl.anyOpen && true)) = s.ctl.anyOpen
    cases s.ctl.anyOpen <;> rfl
  refine ⟨flag, fun closed => ?_, fun opened => ?_⟩
  · unfold refreshOwed
    rw [flag, closed, Bool.false_or]
    refine List.any_eq_false.mpr fun b' mem => ?_
    obtain ⟨b, change⟩ := maintained b' mem
    have final : (s.ctl.refreshCandidate time).finalCommand = true := by
      show (!s.ctl.anyOpen) = true
      rw [closed]
      rfl
    rw [(change.refreshed final fun h => by cases h).1]
    exact Bool.false_ne_true
  · have final : (s.ctl.refreshCandidate time).finalCommand = false := by
      show (!s.ctl.anyOpen) = false
      rw [opened]
      rfl
    cases step with
    | mk => rw [maintained_prerequisite final]; rfl

/-! ### One round -/

/-- A `drive` outside a refresh window waits for the next command of the refresh, or issues
it. -/
theorem drive_refresh (touched : Retouched config s u) (idle : s.ctl.refreshBusyUntil ≤ now)
    (pending : s.ctl.refreshPending = true) {bound : Nat}
    (bounded : refreshBound config mapper s.ctl = .ok bound) :
    drive config mapper now u = (do
      if max now bound > now then return ⟨some (max now bound), none⟩
      issueMaintenance config mapper (s.ctl.refreshCandidate (max now bound)) now
      let c := (← get).ctl
      return ⟨some (if !s.ctl.anyOpen then c.refreshBusyUntil else now), none⟩ :
        ControllerM HbmControllerStep) (updateStarvation config u now) := by
  have starved : Retouched config s (updateStarvation config u now) :=
    touched.trans (updateStarvation_retouched u now)
  have idle_u : u.ctl.refreshBusyUntil ≤ now := by
    rw [touched.refreshBusyUntil]
    exact idle
  have pending_u : (updateStarvation config u now).ctl.refreshPending = true := by
    rw [starved.ctl]
    exact pending
  have chosen : chooseMaintenance config mapper (updateStarvation config u now).ctl now =
      .ok (some (s.ctl.refreshCandidate (max now bound))) := by
    rw [chooseMaintenance_pending pending_u, refreshBound_retouched starved, bounded, map_ok,
      refreshCandidate_retouched starved]
  exact drive_maintenance idle_u chosen

/-- A drive fails where its refresh cannot be planned. -/
theorem drive_refresh_error (touched : Retouched config s u)
    (idle : s.ctl.refreshBusyUntil ≤ now) (pending : s.ctl.refreshPending = true)
    {e : HbmError} (failed : refreshBound config mapper s.ctl = .error e) :
    drive config mapper now u = .error e (updateStarvation config u now) := by
  have starved : Retouched config s (updateStarvation config u now) :=
    touched.trans (updateStarvation_retouched u now)
  have idle_u : u.ctl.refreshBusyUntil ≤ now := by
    rw [touched.refreshBusyUntil]
    exact idle
  have pending_u : (updateStarvation config u now).ctl.refreshPending = true := by
    rw [starved.ctl]
    exact pending
  refine drive_maintenance_error idle_u ?_
  rw [chooseMaintenance_pending pending_u, refreshBound_retouched starved, failed]
  rfl

/-- A `drive` at which the next command of the refresh is due issues it, whatever the marks. -/
theorem drive_issues (wiring : Wiring config mapper) (sound : Sound config mapper s.ctl)
    (pending : s.ctl.refreshPending = true) {bound time : Nat}
    (bounded : refreshBound config mapper s.ctl = .ok bound) (later : bound ≤ time)
    (idle : s.ctl.refreshBusyUntil ≤ time) :
    ∃ t, issueMaintenance config mapper (s.ctl.refreshCandidate time) time s = .ok () t ∧
      MaintenanceStep config mapper time s (s.ctl.refreshCandidate time) time t ∧
      ∀ u, Retouched config s u → ∃ t', Retouched config t t' ∧
        drive config mapper time u =
          .ok ⟨some (if !s.ctl.anyOpen then t'.ctl.refreshBusyUntil else time), none⟩ t' := by
  obtain ⟨address, banks, issues⟩ := refresh_issues wiring sound pending bounded later
  refine ⟨_, (issues s (.refl s)).1, (issues s (.refl s)).2, fun u touched => ?_⟩
  have starved : Retouched config s (updateStarvation config u time) :=
    touched.trans (updateStarvation_retouched u time)
  refine ⟨_, maintained_retouched starved (s.ctl.refreshCandidate time) address banks time, ?_⟩
  rw [drive_refresh touched idle pending bounded, Nat.max_eq_left later,
    if_neg (Nat.lt_irrefl time), bind_of_ok (issues _ starved).1]
  rfl

/-- A round of the idle loop chooses a maintenance command and issues it. -/
theorem idleRefreshLoop_succ {rounds cursor : Nat} (owed : s.ctl.refreshOwed = true) :
    idleRefreshLoop config mapper (rounds + 1) cursor s = (do
      match ← ofExcept (chooseMaintenance config mapper s.ctl cursor) with
      | none => throw (.logicError "refresh pending without maintenance candidate")
      | some candidate =>
          issueMaintenance config mapper candidate (max cursor candidate.readyAt)
          let c := (← get).ctl
          idleRefreshLoop config mapper rounds (max (max cursor candidate.readyAt)
            (c.commandBusReady config candidate.command)) : ControllerM Unit) s := by
  conv_lhs => unfold idleRefreshLoop
  rw [bind_of_ok (rfl : (get : ControllerM ControllerState) s = .ok s s), owed]
  rfl

/-- With no refresh owed the loop ends. -/
theorem idleRefreshLoop_done {rounds cursor : Nat} (settled : s.ctl.refreshOwed = false) :
    idleRefreshLoop config mapper rounds cursor s = .ok () s := by
  unfold idleRefreshLoop
  rw [bind_of_ok (rfl : (get : ControllerM ControllerState) s = .ok s s), settled]
  rfl

/-- A pending refresh is owed. -/
theorem owed_of_pending {c : HbmController} (pending : c.refreshPending = true) :
    c.refreshOwed = true := by
  unfold refreshOwed
  rw [pending, Bool.true_or]

/-- A round issues the next command of a pending refresh, no matter where in front of the bus
the cursor is. -/
theorem idleRefreshLoop_round {rounds cursor bound : Nat}
    (pending : s.ctl.refreshPending = true)
    (bounded : refreshBound config mapper s.ctl = .ok bound)
    (run : issueMaintenance config mapper (s.ctl.refreshCandidate (max cursor bound))
      (max cursor bound) s = .ok () t) :
    idleRefreshLoop config mapper (rounds + 1) cursor s =
      idleRefreshLoop config mapper rounds
        (max (max cursor bound) (t.ctl.commandBusReady config .refreshAllBank)) t := by
  have chosen : chooseMaintenance config mapper s.ctl cursor =
      .ok (some (s.ctl.refreshCandidate (max cursor bound))) := by
    rw [chooseMaintenance_pending pending, bounded]
    rfl
  have time : max cursor (s.ctl.refreshCandidate (max cursor bound)).readyAt = max cursor bound :=
    Nat.max_eq_right (Nat.le_max_left _ _)
  rw [idleRefreshLoop_succ (owed_of_pending pending), chosen]
  rw [bind_of_ok (ofExcept_eq_ok.mpr ⟨rfl, rfl⟩)]
  dsimp only
  rw [time, bind_of_ok run, ← commandBusReady_refresh t.ctl s.ctl]
  rfl

/-- The loop fails where its refresh cannot be planned. -/
theorem idleRefreshLoop_error {rounds cursor : Nat} {e : HbmError}
    (pending : s.ctl.refreshPending = true)
    (failed : refreshBound config mapper s.ctl = .error e) :
    idleRefreshLoop config mapper (rounds + 1) cursor s = .error e s := by
  rw [idleRefreshLoop_succ (owed_of_pending pending), chooseMaintenance_pending pending, failed]
  rfl

end HbmController

/-! ### The two paths -/

/-- `drive` is called at an instant and then at each wake time it returns, until the all-bank
refresh has been issued or a call has thrown. -/
inductive DrivesRefresh (config : HbmControllerConfig) (mapper : HbmAddressMapper) :
    Nat → ControllerState → EStateM.Result HbmError ControllerState Unit → Prop
  | throws {now : Nat} {s t : ControllerState} {e : HbmError} :
      HbmController.drive config mapper now s = .error e t →
      DrivesRefresh config mapper now s (.error e t)
  | refreshed {now : Nat} {s t : ControllerState} {step : HbmControllerStep} :
      HbmController.drive config mapper now s = .ok step t → t.ctl.refreshPending = false →
      DrivesRefresh config mapper now s (.ok () t)
  | wakes {now wake : Nat} {s t : ControllerState} {step : HbmControllerStep}
      {r : EStateM.Result HbmError ControllerState Unit} :
      HbmController.drive config mapper now s = .ok step t → t.ctl.refreshPending = true →
      step.wakeAt = some wake → DrivesRefresh config mapper wake t r →
      DrivesRefresh config mapper now s r

/-- Two results agree on a relation of their states, and on the exception. -/
def Agree (R : ControllerState → ControllerState → Prop) :
    EStateM.Result HbmError ControllerState Unit →
      EStateM.Result HbmError ControllerState Unit → Prop
  | .ok () s, .ok () t => R s t
  | .error e s, .error e' t => e = e' ∧ R s t
  | _, _ => False

variable {config : HbmControllerConfig} {mapper : HbmAddressMapper} {s t u : ControllerState}
  {now : Nat}

/-- The calls determine their result. -/
theorem DrivesRefresh.unique {r r' : EStateM.Result HbmError ControllerState Unit}
    (h : DrivesRefresh config mapper now s r) (h' : DrivesRefresh config mapper now s r') :
    r = r' := by
  induction h with
  | throws run =>
      cases h' with
      | throws run' =>
          rw [run] at run'
          cases run'
          rfl
      | refreshed run' => cases run.symm.trans run'
      | wakes run' => cases run.symm.trans run'
  | refreshed run settled =>
      cases h' with
      | throws run' => cases run.symm.trans run'
      | refreshed run' =>
          cases run.symm.trans run'
          rfl
      | wakes run' pending =>
          cases run.symm.trans run'
          cases settled.symm.trans pending
  | wakes run pending wake _ ih =>
      cases h' with
      | throws run' => cases run.symm.trans run'
      | refreshed run' settled =>
          cases run.symm.trans run'
          cases settled.symm.trans pending
      | wakes run' _ wake' rest =>
          cases run.symm.trans run'
          cases wake.symm.trans wake'
          exact ih rest

namespace HbmController

/-- A controller outside a refresh window is driven through a pending refresh exactly as the
idle loop runs through it, from any cursor between the current time and the bus. -/
theorem drives_idle (wiring : Wiring config mapper) {rounds cursor : Nat}
    (sound : Sound config mapper s.ctl) (enough : s.ctl.maintenanceWork ≤ rounds)
    (pending : s.ctl.refreshPending = true) (idle : s.ctl.refreshBusyUntil ≤ now)
    (level : max cursor (s.ctl.commandBusReady config .refreshAllBank) =
      max now (s.ctl.commandBusReady config .refreshAllBank))
    (touched : Retouched config s u) :
    ∃ r, DrivesRefresh config mapper now u r ∧
      Agree (Retouched config) (idleRefreshLoop config mapper rounds cursor s) r := by
  -- the loop's cursor and the clock of the drives agree as soon as the bus is free
  induction rounds generalizing s u cursor now with
  | zero =>
      have := work_pos (owed_of_pending pending)
      omega
  | succ rounds ih =>
      cases bounded : refreshBound config mapper s.ctl with
      | error e =>
          refine ⟨_, .throws (drive_refresh_error touched idle pending bounded), ?_⟩
          rw [idleRefreshLoop_error pending bounded]
          exact ⟨rfl, touched.trans (updateStarvation_retouched u now)⟩
      | ok bound =>
          have bus := bus_le_refreshBound bounded
          have time : max cursor bound = max now bound := by omega
          obtain ⟨t, run, step, drives⟩ := drive_issues wiring sound pending bounded
            (Nat.le_max_right now bound) (Nat.le_trans idle (Nat.le_max_left now bound))
          obtain ⟨flag, settled, busy⟩ := refreshed_step pending step
          have issued : ∀ u, Retouched config s u →
              ∃ r, DrivesRefresh config mapper (max now bound) u r ∧
                Agree (Retouched config)
                  (idleRefreshLoop config mapper (rounds + 1) cursor s) r := by
            intro u touched
            obtain ⟨t', same, driven⟩ := drives u touched
            have flag' : t'.ctl.refreshPending = s.ctl.anyOpen := by
              rw [same.ctl]
              exact flag
            rw [idleRefreshLoop_round pending bounded (time ▸ run)]
            cases open_ : s.ctl.anyOpen with
            | false =>
                rw [idleRefreshLoop_done (settled open_)]
                exact ⟨_, .refreshed driven (flag'.trans open_), same⟩
            | true =>
                have fewer := step.work_lt
                have pending' := flag.trans open_
                have idle' : t.ctl.refreshBusyUntil ≤ max now bound := by
                  rw [busy open_]
                  exact Nat.le_trans idle (Nat.le_max_left now bound)
                have level' : max (max (max cursor bound)
                      (t.ctl.commandBusReady config .refreshAllBank))
                    (t.ctl.commandBusReady config .refreshAllBank) =
                      max (max now bound) (t.ctl.commandBusReady config .refreshAllBank) := by
                  rw [Nat.max_assoc, Nat.max_self, time]
                obtain ⟨r, rest, agree⟩ :=
                  ih (sound.step (.maintain step)) (by omega) pending' idle' level' same
                rw [open_] at driven
                exact ⟨r, .wakes driven (flag'.trans open_) rfl rest, agree⟩
          -- a drive before the bound only schedules the wake, and the next drive issues
          by_cases late : now < bound
          · have starved : Retouched config s (updateStarvation config u now) :=
              touched.trans (updateStarvation_retouched u now)
            have waits := drive_refresh touched idle pending bounded
            rw [if_pos (Nat.lt_of_lt_of_le late (Nat.le_max_right now bound))] at waits
            obtain ⟨r, drives, agree⟩ := issued _ starved
            refine ⟨r, .wakes waits ?_ rfl drives, agree⟩
            rw [starved.ctl]
            exact pending
          · rw [Nat.max_eq_left (Nat.le_of_not_lt late)] at issued
            exact issued u touched

/-- An all-bank refresh is raised without looking at a bank. -/
theorem raiseRefresh_allBank (policy : config.refreshPolicy = .allBank) (due : Nat) :
    raiseRefresh config due s = .ok () (s.modifyCtl (·.raise config due)) := by
  unfold raiseRefresh raise
  rw [policy]
  rfl

/-- In a refresh window `drive` first waits for its end. -/
theorem drives_pending (wiring : Wiring config mapper) (sound : Sound config mapper s.ctl)
    (pending : s.ctl.refreshPending = true) (due : Nat) :
    ∃ r, DrivesRefresh config mapper due s r ∧
      Agree (Retouched config)
        (idleRefreshLoop config mapper s.ctl.maintenanceWork (max due s.ctl.refreshBusyUntil) s)
        r := by
  by_cases busy : due < s.ctl.refreshBusyUntil
  · have stalled : Retouched config s _ := (updateStarvation_retouched s due).trans
      (accountStall_retouched (updateStarvation config s due) due)
    obtain ⟨r, drives, agree⟩ := drives_idle wiring sound (Nat.le_refl _) pending
      (Nat.le_refl _) rfl stalled
    rw [Nat.max_eq_right (Nat.le_of_lt busy)]
    refine ⟨r, .wakes (drive_blocked busy) ?_ rfl drives, agree⟩
    rw [stalled.ctl]
    exact pending
  · have idle := Nat.le_of_not_lt busy
    rw [Nat.max_eq_left idle]
    exact drives_idle wiring sound (Nat.le_refl _) pending idle rfl (.refl s)

end HbmController

/-! ### The equivalence -/

/-- The controller of a channel passes the state: at the end of a call on the system, or between
two steps of one. -/
inductive Passes (cfg : HbmConfig) (s : HbmSystem) (channel : Nat) : ControllerState → Prop
  | still : Passes cfg s channel (s.side channel)
  | disarm {c : ControllerState} (due : Nat) : Passes cfg s channel c →
      Passes cfg s channel (c.modifyCtl (·.disarm due))
  | step {c d : ControllerState} {now : Nat} : Passes cfg s channel c →
      HbmController.ControllerStep (cfg.channelConfig channel) cfg.mapper now c d →
      Passes cfg s channel d

/-- Two controllers have issued the same commands at the same times, and are left by them in the
same state. -/
structure SameCommands (channel : Nat) (s t : ControllerState) : Prop where
  recorded : t.ctl.recorded = s.ctl.recorded
  banks : t.ctl.banks = s.ctl.banks
  history : t.ctl.history = s.ctl.history
  dataBusReadyAt : t.ctl.dataBusReadyAt = s.ctl.dataBusReadyAt
  unifiedCommandBusReadyAt : t.ctl.unifiedCommandBusReadyAt = s.ctl.unifiedCommandBusReadyAt
  rowCommandBusReadyAt : t.ctl.rowCommandBusReadyAt = s.ctl.rowCommandBusReadyAt
  columnCommandBusReadyAt : t.ctl.columnCommandBusReadyAt = s.ctl.columnCommandBusReadyAt
  refreshBusyUntil : t.ctl.refreshBusyUntil = s.ctl.refreshBusyUntil
  refreshPending : t.ctl.refreshPending = s.ctl.refreshPending
  refreshes : (t.stats.channels channel).refreshes = (s.stats.channels channel).refreshes
  perBankRefreshes :
    (t.stats.channels channel).perBankRefreshes = (s.stats.channels channel).perBankRefreshes

/-- Reports are no commands. -/
theorem Retouched.sameCommands (h : Retouched config s t) : SameCommands config.channel s t := by
  obtain ⟨f, -, stats⟩ := h.stats
  have channel : t.stats.channels config.channel =
      { s.stats.channels config.channel with
        queue := f (s.stats.channels config.channel).queue } := by
    rw [stats]
    exact HbmStats.modifyChannel_self _ _ _
  constructor
  case refreshes => rw [channel]
  case perBankRefreshes => rw [channel]
  all_goals rw [h.ctl]

theorem Agree.mono {R R' : ControllerState → ControllerState → Prop}
    {r r' : EStateM.Result HbmError ControllerState Unit} (h : Agree R r r')
    (imp : ∀ {s t}, R s t → R' s t) : Agree R' r r' := by
  cases r <;> cases r'
  · exact imp h
  · exact h
  · exact h
  · exact ⟨h.1, imp h.2⟩

section

open HbmController

variable {cfg : HbmConfig} {escapes : HbmError → Prop} {system : HbmSystem} {channel : Nat}

/-- What a controller passes through is sound. -/
theorem Passes.sound (reached : Reachable cfg escapes system) {c : ControllerState}
    (passes : Passes cfg system channel c) :
    Sound (cfg.channelConfig channel) cfg.mapper c.ctl := by
  obtain ⟨valid, -, d, point, -⟩ := reached.point
  induction passes with
  | still => exact point.run.sound valid.checked channel
  | @disarm c due _ ih =>
      show Sound _ _ (c.ctl.disarm due)
      unfold HbmController.disarm
      split
      · exact ih.change rfl ih.rfm rfl (fun w a ha => ⟨a, ha, rfl⟩) rfl
      · exact ih
  | step _ step ih => exact ih.step step

/-- The refresh of an idle channel and the refresh of a driven one are the same: raised in any
state of a run at any instant, and driven from then on, it issues the same commands at the same
times and leaves the same state, or ends in the same exception. -/
theorem idle_refresh_is_driven (reached : Reachable cfg escapes system)
    (policy : cfg.controller.refreshPolicy = .allBank) {c : ControllerState}
    (passes : Passes cfg system channel c) (due : Nat) :
    ∃ u r, raiseRefresh (cfg.channelConfig channel) due c = .ok () u ∧
      u.ctl.refreshPending = true ∧
      (∀ r', DrivesRefresh (cfg.channelConfig channel) cfg.mapper due u r' ↔ r' = r) ∧
      Agree (SameCommands channel)
        (applyIdleRefresh (cfg.channelConfig channel) cfg.mapper due c) r := by
  have sound := passes.sound reached
  obtain ⟨valid, -⟩ := reached.point
  have wiring := valid.checked.wiring channel
  have raised : raiseRefresh (cfg.channelConfig channel) due c = .ok () _ :=
    raiseRefresh_allBank policy due
  have pending : (c.ctl.raise (cfg.channelConfig channel) due).refreshPending = true := by
    unfold raise
    rw [show (cfg.channelConfig channel).refreshPolicy = .allBank from policy]
    rfl
  have sound' : Sound (cfg.channelConfig channel) cfg.mapper
      (c.ctl.raise (cfg.channelConfig channel) due) :=
    sound.raise due fun h => by cases policy.symm.trans h
  obtain ⟨r, drives, agree⟩ := drives_pending
    (s := c.modifyCtl (·.raise (cfg.channelConfig channel) due)) wiring sound' pending due
  refine ⟨_, r, raised, pending, fun r' => ⟨fun h => h.unique drives, fun h => h ▸ drives⟩, ?_⟩
  unfold applyIdleRefresh
  rw [bind_of_ok raised]
  exact agree.mono fun h => h.sameCommands

/-- The commands on record and when they were issued, newest first. -/
def issuedCommands (c : ControllerState) : List (HbmCommand × Nat) :=
  c.ctl.recorded.map fun r => (r.command, r.issuedAt)

/-- Whether an idle refresh succeeds and leaves these commands on record. -/
def idleIssues (cfg : HbmConfig) (s : HbmSystem) (channel due : Nat)
    (commands : List (HbmCommand × Nat)) : Bool :=
  match applyIdleRefresh (cfg.channelConfig channel) cfg.mapper due (s.side channel) with
  | .ok _ t => decide (issuedCommands t = commands)
  | .error _ _ => false

/-- The check computes what the catch-up issues. -/
theorem idleIssues_iff {due : Nat} {commands : List (HbmCommand × Nat)} :
    idleIssues cfg system channel due commands = true ↔
      ∃ t, applyIdleRefresh (cfg.channelConfig channel) cfg.mapper due (system.side channel) =
        .ok () t ∧ issuedCommands t = commands := by
  unfold idleIssues
  split
  · rename_i t run
    rw [run, decide_eq_true_eq]
    constructor
    · intro issued
      exact ⟨t, rfl, issued⟩
    · rintro ⟨t', same, issued⟩
      cases same
      exact issued
  · rename_i run
    rw [run]
    constructor
    · intro h
      cases h
    · rintro ⟨t, same, -⟩
      cases same

/-- With a read waiting on its open row, both ways close the row first. -/
theorem idle_refresh_closes_row : ∃ (s : HbmSystem) (u t t' : ControllerState),
    raiseRefresh (HbmConfig.hbm2_2000.channelConfig 0) 20000 (s.side 0) = .ok () u ∧
      DrivesRefresh (HbmConfig.hbm2_2000.channelConfig 0) HbmConfig.hbm2_2000.mapper 20000 u
        (.ok () t') ∧
      applyIdleRefresh (HbmConfig.hbm2_2000.channelConfig 0) HbmConfig.hbm2_2000.mapper 20000
        (s.side 0) = .ok () t ∧
      issuedCommands t = [(.refreshAllBank, 48000), (.preAll, 34000), (.act, 0)] ∧
      (s.controllers 0).readQueue ≠ [] ∧ SameCommands 0 t t' := by
  obtain ⟨s, reached, final⟩ := exists_reachable .hbm2_2000 NoEscape
    (submit (.read 1 0 32) :: dispatches 1)
    (fun s => decide ((s.controllers 0).readQueue ≠ []) &&
      idleIssues .hbm2_2000 s 0 20000 [(.refreshAllBank, 48000), (.preAll, 34000), (.act, 0)])
    (by decide) (by decide) (by decide +kernel)
  obtain ⟨waiting, issues⟩ := Bool.and_eq_true _ _ |>.mp final
  obtain ⟨t, run, issued⟩ := idleIssues_iff.mp issues
  obtain ⟨u, r, raised, -, drives, agree⟩ := idle_refresh_is_driven reached rfl .still 20000
  rw [run] at agree
  cases r with
  | ok _ t' => exact ⟨s, u, t, t', raised, (drives _).mpr rfl, run, issued,
      of_decide_eq_true waiting, agree⟩
  | error e t' => exact agree.elim

end

end HbmSim
