import HbmSim.System.Attachment
import HbmSim.System.Draining
import HbmSim.System.Tempo

/-!
Driving a controller while callbacks make no calls.

A wake event either serves accesses, or records a row or maintenance command, or leaves the
channel waiting for the time at which its next command is ready.
-/

namespace HbmSim

open HbmSim.Lib

namespace HbmController

/-- As many accesses are queued, and as many slots reserved. -/
structure SameSlots (c c' : HbmController) : Prop where
  length : ∀ w, (c'.queue w).length = (c.queue w).length
  reserved : ∀ w, c'.reservedSlots w = c.reservedSlots w

variable {config : HbmControllerConfig} {mapper : HbmAddressMapper} {s t : ControllerState}
  {c c' c'' : HbmController} {now : Nat}

theorem SameSlots.refl (c : HbmController) : SameSlots c c := ⟨fun _ => rfl, fun _ => rfl⟩

theorem SameSlots.trans (h : SameSlots c c') (h' : SameSlots c' c'') : SameSlots c c'' :=
  ⟨fun w => (h'.length w).trans (h.length w), fun w => (h'.reserved w).trans (h.reserved w)⟩

/-- The same slots have the same room. -/
theorem SameSlots.canReserve (same : SameSlots c c') (config : HbmControllerConfig)
    (reads writes : Nat) : c'.canReserve config reads writes =
      c.canReserve config reads writes := by
  have reading : c'.readQueue.length = c.readQueue.length := same.length false
  have writing : c'.writeQueue.length = c.writeQueue.length := same.length true
  have reservedReads : c'.reservedReads = c.reservedReads := same.reserved false
  have reservedWrites : c'.reservedWrites = c.reservedWrites := same.reserved true
  unfold HbmController.canReserve
  rw [reading, writing, reservedReads, reservedWrites]

/-- A step of the controller grants no reservation. -/
theorem ControllerStep.slots (step : ControllerStep config mapper now s t) :
    SameSlots s.ctl t.ctl := by
  refine ⟨fun w => ?_, step.marks.reservedSlots⟩
  have lengths := congrArg List.length (step.logical w)
  simpa only [List.length_map] using lengths

/-- The commands planned for the queued accesses are the same, and when they are ready. -/
structure SamePlans (c c' : HbmController) : Prop where
  record : SameRecord c c'
  banks : c'.banks = c.banks
  queued : c'.queued = c.queued
  pending : c'.refreshPending = c.refreshPending
  busy : c'.refreshBusyUntil = c.refreshBusyUntil
  slots : SameSlots c c'

theorem SamePlans.refl (c : HbmController) : SamePlans c c :=
  ⟨⟨rfl, rfl, rfl, rfl, rfl⟩, rfl, rfl, rfl, rfl, .refl c⟩

theorem SamePlans.trans (h : SamePlans c c') (h' : SamePlans c' c'') : SamePlans c c'' where
  record := ⟨h'.record.history.trans h.record.history, h'.record.unified.trans h.record.unified,
    h'.record.row.trans h.record.row, h'.record.column.trans h.record.column,
    h'.record.recorded.trans h.record.recorded⟩
  banks := h'.banks.trans h.banks
  queued := h'.queued.trans h.queued
  pending := h'.pending.trans h.pending
  busy := h'.busy.trans h.busy
  slots := h.slots.trans h'.slots

/-- A change of the marks of scheduled events. -/
theorem SamePlans.marks (c : HbmController) (wakeupAt refreshDueAt : Option Nat) :
    SamePlans c { c with wakeupAt := wakeupAt, refreshDueAt := refreshDueAt } :=
  ⟨⟨rfl, rfl, rfl, rfl, rfl⟩, rfl, rfl, rfl, rfl,
    fun w => by cases w <;> rfl, fun w => by cases w <;> rfl⟩

theorem SamePlans.clearWakeup (c : HbmController) (at_ : Nat) :
    SamePlans c (c.clearWakeup at_) := by
  unfold HbmController.clearWakeup
  split
  · exact .marks c none c.refreshDueAt
  · exact .refl c

theorem SamePlans.disarm (c : HbmController) (due : Nat) : SamePlans c (c.disarm due) := by
  unfold HbmController.disarm
  split
  · exact .marks c c.wakeupAt none
  · exact .refl c

theorem SamePlans.retouched (mapper : HbmAddressMapper) (touched : Retouched config s t) :
    SamePlans s.ctl t.ctl := by
  have step : ControllerStep config mapper 0 s t := .retouch touched
  have same : SameRecord s.ctl t.ctl ∧ t.ctl.refreshPending = s.ctl.refreshPending ∧
      t.ctl.refreshBusyUntil = s.ctl.refreshBusyUntil := by
    rw [touched.ctl]
    exact ⟨⟨rfl, rfl, rfl, rfl, rfl⟩, rfl, rfl⟩
  exact ⟨same.1, touched.banks, step.queued, same.2.1, same.2.2, step.slots⟩

theorem clearWakeup_work (s : ControllerState) (at_ : Nat) :
    SameWork s (s.modifyCtl (·.clearWakeup at_)) := by
  show SameWork s ⟨s.ctl.clearWakeup at_, s.stats⟩
  unfold HbmController.clearWakeup
  split <;> exact ⟨rfl, rfl, rfl, rfl, rfl, rfl⟩

theorem disarm_work (s : ControllerState) (due : Nat) :
    SameWork s (s.modifyCtl (·.disarm due)) := by
  show SameWork s ⟨s.ctl.disarm due, s.stats⟩
  unfold HbmController.disarm
  split <;> exact ⟨rfl, rfl, rfl, rfl, rfl, rfl⟩

/-- A row or maintenance command is recorded. -/
inductive Works (config : HbmControllerConfig) (mapper : HbmAddressMapper) (now : Nat)
    (s t : ControllerState) : Prop
  | maintain {candidate : MaintenanceCandidate}
      (step : MaintenanceStep config mapper now s candidate now t) : Works config mapper now s t
  | row (step : RowStep config mapper now s t) : Works config mapper now s t

/-- A command that serves nothing is a step of the controller. -/
theorem Works.step (works : Works config mapper now s t) :
    ControllerStep config mapper now s t := by
  cases works with
  | maintain step => exact .maintain step
  | row step => exact .row step

end HbmController

namespace HbmSystem

open HbmController

variable {cfg : HbmConfig} {s t u : HbmSystem}

/-! ### Room -/

/-- A call of the capacity callback is pending. -/
def CapacityPending (s : HbmSystem) : Prop :=
  ∃ e ∈ s.scheduler.events, ∃ channel at_, e.callback = .capacity channel at_

/-- There is as much room for a submission. -/
structure SameRoom (s t : HbmSystem) : Prop where
  parents : t.parents.length = s.parents.length
  slots : ∀ channel, SameSlots (s.controllers channel) (t.controllers channel)

theorem SameRoom.trans (h : SameRoom s t) (h' : SameRoom t u) : SameRoom s u :=
  ⟨h'.parents.trans h.parents, fun channel => (h.slots channel).trans (h'.slots channel)⟩

/-- A controller with the same slots leaves the room as it is. -/
theorem SameRoom.update {channel : Nat} {c : ControllerState}
    (same : SameSlots (s.controllers channel) c.ctl) : SameRoom s (s.update channel c) := by
  refine ⟨rfl, fun ch => ?_⟩
  rw [update_controllers]
  split
  · subst ch
    exact same
  · exact .refl _

/-! ### Scheduling -/

/-- The channel is woken by `at_` at the latest, once more if need be. -/
def Woken (channel at_ : Nat) (s t : HbmSystem) : Prop :=
  (t = s ∧ ∃ mark, (s.controllers channel).wakeupAt = some mark ∧ mark ≤ at_) ∨
    t = s.markWake channel at_

/-- The controller is woken at the later of the time asked for and now. -/
theorem scheduleControllerWake_exits {channel at_ : Nat} (hchannel : channel < cfg.channelCount) :
    Exits (scheduleControllerWake cfg channel at_)
      (fun _ t => Woken channel (max at_ s.now) s t) (fun _ _ => True) s := by
  unfold scheduleControllerWake
  simp only [exits_bind, exits_get]
  generalize max at_ s.now = wake_at
  rw [onController_exits hchannel, exits_modifyGet]
  show Exits (if ((s.controllers channel).markWakeup wake_at).1 then
      scheduleEvent wake_at (.wake channel wake_at) else pure ()) _ _
    (s.update channel ((s.side channel).modifyCtl fun _ =>
      ((s.controllers channel).markWakeup wake_at).2))
  have result : (s.controllers channel).markWakeup wake_at = (false, s.controllers channel) ∧
        (∃ mark, (s.controllers channel).wakeupAt = some mark ∧ mark ≤ wake_at) ∨
      (s.controllers channel).markWakeup wake_at =
        (true, { s.controllers channel with wakeupAt := some wake_at }) := by
    unfold HbmController.markWakeup
    split
    · rename_i mark marked
      split
      · rename_i before
        exact .inl ⟨rfl, mark, marked, before⟩
      · exact .inr rfl
    · exact .inr rfl
  rcases result with ⟨same, mark⟩ | marked
  · rw [same]
    exact .inl ⟨update_side s channel, mark⟩
  · rw [marked]
    refine (scheduleEvent_exits wake_at (.wake channel wake_at)).mono (fun _ t h => ?_)
      fun _ _ _ => trivial
    exact .inr h.2

/-- Nothing has happened but to the scheduler and the marks of its events. -/
structure SamePlans (s t : HbmSystem) : Prop where
  script : t.script = s.script
  capacityCallback : t.capacityCallback = s.capacityCallback
  trace : t.trace = s.trace
  parents : t.parents = s.parents
  controllers : ∀ channel, HbmController.SamePlans (s.controllers channel) (t.controllers channel)

theorem SamePlans.refl (s : HbmSystem) : SamePlans s s := ⟨rfl, rfl, rfl, rfl, fun _ => .refl _⟩

theorem SamePlans.pop (event : Event EventCallback) (rest : List (Event EventCallback)) :
    SamePlans s (s.pop event rest) := ⟨rfl, rfl, rfl, rfl, fun _ => .refl _⟩

theorem SamePlans.trans (h : SamePlans s t) (h' : SamePlans t u) : SamePlans s u where
  script := h'.script.trans h.script
  capacityCallback := h'.capacityCallback.trans h.capacityCallback
  trace := h'.trace.trans h.trace
  parents := h'.parents.trans h.parents
  controllers channel := (h.controllers channel).trans (h'.controllers channel)

/-- A change of one controller. -/
theorem SamePlans.of_controller {channel : Nat} {c : HbmController}
    (script : t.script = s.script) (capacityCallback : t.capacityCallback = s.capacityCallback)
    (trace : t.trace = s.trace) (parents : t.parents = s.parents)
    (controllers : ∀ ch, t.controllers ch = if ch = channel then c else s.controllers ch)
    (same : HbmController.SamePlans (s.controllers channel) c) : SamePlans s t := by
  refine ⟨script, capacityCallback, trace, parents, fun ch => ?_⟩
  rw [controllers]
  split
  · subst ch
    exact same
  · exact .refl _

/-- One controller is changed without changing its plans. -/
theorem SamePlans.modifyController (channel : Nat) {f : HbmController → HbmController}
    (same : HbmController.SamePlans (s.controllers channel) (f (s.controllers channel))) :
    SamePlans s (s.modifyController channel f) :=
  .of_controller rfl rfl rfl rfl (modifyController_controllers s channel f) same

/-- A wake is an event beside the plans. -/
theorem SamePlans.markWake (channel at_ : Nat) : SamePlans s (s.markWake channel at_) :=
  .of_controller rfl rfl rfl rfl (markWake_controllers s channel at_)
    (.marks _ (some at_) (s.controllers channel).refreshDueAt)

/-- The wake is the one new event. -/
theorem markWake_events (s : HbmSystem) (channel at_ : Nat) :
    (s.markWake channel at_).scheduler.events.Perm
      (⟨at_, s.scheduler.nextSequence, s.scheduler.nextToken, .wake channel at_⟩ ::
        s.scheduler.events) := emplaceEvent_perm _ _

/-- The same plans leave the same room. -/
theorem SamePlans.room (same : SamePlans s t) : SameRoom s t :=
  ⟨by rw [same.parents], fun channel => (same.controllers channel).slots⟩

/-- A wake changes no plan. -/
theorem Woken.samePlans {channel at_ : Nat} (h : Woken channel at_ s t) : SamePlans s t := by
  rcases h with ⟨rfl, -⟩ | rfl
  · exact .refl _
  · exact .markWake channel at_

/-- A wake adds a wake event at most. -/
theorem Woken.events {channel at_ : Nat} (h : Woken channel at_ s t) :
    ∃ new : Option (Event EventCallback),
      t.scheduler.events.Perm (new.toList ++ s.scheduler.events) ∧
        ∀ e ∈ new, e.callback = .wake channel at_ ∧ e.time = at_ := by
  rcases h with ⟨rfl, -⟩ | rfl
  · exact ⟨none, .refl _, nofun⟩
  · refine ⟨some _, markWake_events s channel at_, fun e he => ?_⟩
    obtain rfl := Option.mem_some_iff.mp he
    exact ⟨rfl, rfl⟩

/-- The controller that is woken has its mark, and is otherwise as it was. -/
theorem Woken.mark {channel at_ : Nat} (h : Woken channel at_ s t) :
    ∃ mark, t.controllers channel = { s.controllers channel with wakeupAt := some mark } ∧
      mark ≤ at_ := by
  rcases h with ⟨rfl, mark, marked, before⟩ | rfl
  · refine ⟨mark, ?_, before⟩
    rw [← marked]
  · refine ⟨at_, ?_, Nat.le_refl _⟩
    rw [markWake_controllers, if_pos rfl]

/-- Only the woken channel's controller is marked. -/
theorem Woken.others {channel at_ ch : Nat} (h : Woken channel at_ s t) (apart : ch ≠ channel) :
    t.controllers ch = s.controllers ch := by
  rcases h with ⟨rfl, -⟩ | rfl
  · rfl
  · rw [markWake_controllers, if_neg apart]

/-! ### Driving a controller -/

/-- A call that keeps the system calm and holds on to what is scheduled. -/
structure Continues (cfg : HbmConfig) (s t : HbmSystem) : Prop where
  calm : Calm cfg 0 s t
  holds : Holds s t

instance : Std.Refl (Continues cfg) := ⟨fun s => ⟨Std.Refl.refl s, Std.Refl.refl s⟩⟩

instance : IsTrans HbmSystem (Continues cfg) :=
  ⟨fun _ _ _ h h' => ⟨IsTrans.trans _ _ _ h.calm h'.calm, IsTrans.trans _ _ _ h.holds h'.holds⟩⟩

/-- Admissions keep what is queued and what is planned. -/
theorem pumpAdmissions_continues (checked : cfg.Checked) :
    Stays (Continues cfg) (pumpAdmissions cfg) :=
  fun s => ⟨pumpAdmissions_calm checked s, footprint_holds.pumpAdmissions s⟩

variable (cfg) in

/-- Scheduling keeps what is planned. -/
theorem scheduleEvent_continues (at_ : Nat) (callback : EventCallback) :
    Stays (Continues cfg) (scheduleEvent at_ callback) :=
  fun s => ⟨scheduleEvent_calm at_ callback s, scheduleEvent_holds at_ callback s⟩

/-- So does waking a controller. -/
theorem scheduleControllerWake_continues (channel at_ : Nat) :
    Stays (Continues cfg) (scheduleControllerWake cfg channel at_) :=
  fun s => ⟨scheduleControllerWake_calm channel at_ s, footprint_holds.wake channel at_ s⟩

/-- A capacity event stays pending while events are only added. -/
theorem CapacityPending.holds (h : CapacityPending s) (holds : Holds s t) : CapacityPending t := by
  obtain ⟨e, he, pending⟩ := h
  exact ⟨e, holds.events e he, pending⟩

/-- The drive of one channel is the drive of its controller. -/
theorem driveStep_driven (checked : cfg.Checked) {channel : Nat}
    (hchannel : channel < cfg.channelCount)
    (sound : Sound (cfg.channelConfig channel) cfg.mapper (s.controllers channel)) :
    Exits (driveStep cfg channel)
      (fun step t => ∃ u, Driven (cfg.channelConfig channel) cfg.mapper s.now (s.side channel) u step ∧
        t = (s.update channel u).observeIssued channel step) (fun _ _ => True) s := by
  unfold driveStep
  simp only [exits_bind, exits_get]
  rw [onController_exits hchannel]
  refine (drive_exits (checked.wiring channel) sound).mono (fun step u driven => ?_)
    fun _ _ _ => trivial
  exact ⟨u, driven, rfl⟩

/-- Accesses have been served. -/
structure Serves (cfg : HbmConfig) (s t : HbmSystem) : Prop where
  script : t.script = s.script
  capacityCallback : t.capacityCallback = s.capacityCallback
  accepted : acceptedTransactions t.trace = acceptedTransactions s.trace
  notified : notifications t.trace = notifications s.trace
  waiting : waiting cfg t < waiting cfg s
  work : cfg.controller.refreshInterval = 0 → workLeft cfg t < workLeft cfg s
  events : ∀ e ∈ s.scheduler.events, e ∈ t.scheduler.events
  /-- The slots that have become free are announced. -/
  announced : s.capacityCallback = true → CapacityPending t

/-- What driving a controller comes to. -/
inductive Drives (cfg : HbmConfig) (channel : Nat) (s t : HbmSystem) : Prop
  | serves (serves : Serves cfg s t) : Drives cfg channel s t
  | works {at_ : Nat} {v u : ControllerState}
      (touched : Retouched (cfg.channelConfig channel) (s.side channel) v)
      (works : Works (cfg.channelConfig channel) cfg.mapper s.now v u)
      (soon : at_ ≤ max s.now u.ctl.refreshBusyUntil)
      (woken : Woken channel at_ (s.update channel u) t) : Drives cfg channel s t
  | waits {at_ : Nat} {u : ControllerState}
      (touched : Retouched (cfg.channelConfig channel) (s.side channel) u) (later : s.now < at_)
      (soon : ∀ time, ReadyBy (cfg.channelConfig channel) time u.ctl → at_ ≤ time)
      (bound : at_ ≤ horizon (cfg.channelConfig channel) cfg.mapper u.ctl)
      (woken : Woken channel at_ (s.update channel u) t) : Drives cfg channel s t
  | rests {u : ControllerState}
      (touched : Retouched (cfg.channelConfig channel) (s.side channel) u)
      (none : u.ctl.queued = []) (same : t = s.update channel u) : Drives cfg channel s t

/-- A data command, and a system that goes on calmly. -/
theorem Serves.of_continues {channel : Nat} {c : ControllerState} {physical : PhysicalAccess}
    {at_ : Nat} (fewer : c.ctl.queued.length < (s.controllers channel).queued.length)
    (less : commandsLeft (cfg.channelConfig channel) c.ctl <
      commandsLeft (cfg.channelConfig channel) (s.controllers channel))
    (hchannel : channel < cfg.channelCount)
    (continues : Continues cfg
      ((s.update channel c).observeIssued channel ⟨some at_, some physical⟩) t)
    (announced : s.capacityCallback = true → CapacityPending t) : Serves cfg s t := by
  have calm := continues.calm
  have waits : HbmSystem.waiting cfg (s.update channel c) < HbmSystem.waiting cfg s :=
    @toDo_update_lt cfg 1 (fun _ c => c.queued.length) s channel c hchannel fewer
  exact ⟨calm.script, calm.capacityCallback, calm.accepted, calm.notified,
    Nat.lt_of_le_of_lt calm.waiting waits,
    fun off => Nat.lt_of_le_of_lt (calm.workLeft off) (workLeft_update_lt s hchannel less),
    continues.holds.events, announced⟩

/-- A controller serves accesses, or records a command, or waits. -/
theorem driveController_drives (checked : cfg.Checked) {channel : Nat}
    (hchannel : channel < cfg.channelCount)
    (sound : Sound (cfg.channelConfig channel) cfg.mapper (s.controllers channel)) :
    Exits (driveController cfg channel) (fun _ t => Drives cfg channel s t) (fun _ _ =>
      True) s := by
  unfold driveController
  rw [exits_bind]
  refine (driveStep_driven checked hchannel sound).mono (fun step t h => ?_) fun _ _ _ => trivial
  obtain ⟨u, driven, rfl⟩ := h
  have woken : ∀ {at_} {P : HbmSystem → Prop},
      (∀ t, Woken channel (max at_ s.now) (s.update channel u) t → P t) →
        Exits (scheduleControllerWake cfg channel at_) (fun _ t => P t) (fun _ _ => True)
          (s.update channel u) := fun wakes =>
    (scheduleControllerWake_exits hchannel).mono (fun _ t h => wakes t h) fun _ _ h => h
  have waits : ∀ {at_}, Retouched (cfg.channelConfig channel) (s.side channel) u → s.now < at_ →
      (∀ time, ReadyBy (cfg.channelConfig channel) time u.ctl → at_ ≤ time) →
        at_ ≤ horizon (cfg.channelConfig channel) cfg.mapper u.ctl →
          Exits (scheduleControllerWake cfg channel at_) (fun _ t => Drives cfg channel s t)
            (fun _ _ => True) (s.update channel u) := by
    intro at_ touched later soon bound
    apply woken
    intro t h
    rw [Nat.max_eq_left (Nat.le_of_lt later)] at h
    exact .waits touched later soon bound h
  -- a drive that issues nothing wakes for what it waits for, one that issues wakes at once
  cases driven with
  | blocked touched busy => exact waits touched busy (fun _ ready => ready.busy) busy_le_horizon
  | maintenanceWaits touched plan later =>
      exact waits touched later (fun _ ready => ready.planned plan later) (plan.le_horizon later)
  | maintained touched idle step =>
      refine woken fun t h => .works touched (.maintain step) ?_ h
      split <;> omega
  | empty touched _ none =>
      refine .rests touched ?_ rfl
      unfold HbmController.queued
      rw [none, none]
      rfl
  | waits touched _ chosen later =>
      exact waits touched later (fun _ ready => ready.chosen chosen later) (chosen.le_horizon later)
  | row touched step =>
      refine woken fun t h => .works touched (.row step) ?_ h
      omega
  | @data v physical touched step =>
      have plans := HbmController.SamePlans.retouched cfg.mapper touched
      have less := DataStep.commandsLeft_lt (sound.retouched touched) step
      rw [commandsLeft_congr plans.queued plans.banks plans.pending] at less
      have fewer : u.ctl.queued.length < (s.controllers channel).queued.length := by
        have served := List.length_pos_iff.mpr step.serves
        have count := step.queued.length_eq
        rw [List.length_append] at count
        unfold PhysicalAccess.served at served
        rw [← side_ctl, ← plans.queued]
        omega
      generalize hw : (s.update channel u).observeIssued channel ⟨some s.now, some physical⟩ = w
      have callback : w.capacityCallback = s.capacityCallback := by
        rw [← hw]
        rfl
      have done : ∀ {x y : HbmSystem}, Continues cfg w x →
          (s.capacityCallback = true → CapacityPending x) → Continues cfg x y →
            Drives cfg channel s y := by
        intro x y continues pending woken
        refine .serves (.of_continues fewer less hchannel (hw ▸ IsTrans.trans _ _ _ continues woken)
          fun present => ?_)
        exact (pending present).holds woken.holds
      -- after the transfer: the admissions, its completion event, the capacity event if it is wanted
      simp only [exits_bind]
      refine ((pumpAdmissions_continues checked).exits w).mono (fun _ x pumped => ?_)
        fun _ _ _ => trivial
      refine ((scheduleEvent_continues cfg _ _).exits x).mono (fun _ y scheduled => ?_)
        fun _ _ _ => trivial
      have continues : Continues cfg w y := IsTrans.trans _ _ _ pumped scheduled
      simp only [exits_get, exits_ite, exits_bind]
      refine ⟨fun _ => ?_, fun absent => ?_⟩
      · refine ((scheduleEvent_exits y.now (.capacity channel y.now)).and
          ((scheduleEvent_continues cfg _ _).exits y)).mono (fun _ z h => ?_) fun _ _ _ => trivial
        obtain ⟨⟨-, rfl⟩, announced⟩ := h
        refine ((scheduleControllerWake_continues channel s.now).exits _).mono (fun _ t woken => ?_)
          fun _ _ _ => trivial
        refine done (IsTrans.trans _ _ _ continues announced) (fun _ => ?_) woken
        exact ⟨_, mem_emplaceEvent.mpr (.inl rfl), channel, y.now, rfl⟩
      · refine ((scheduleControllerWake_continues channel s.now).exits y).mono (fun _ t woken => ?_)
          fun _ _ _ => trivial
        refine done continues (fun present => absurd ?_ absent) woken
        rw [continues.calm.capacityCallback, callback]
        exact present

end HbmSystem

end HbmSim
