import HbmSim.System.Driving

/-!
What is left to do after an event whose callbacks make no calls.

Without refresh the dispatch of an event brings a system nearer to having nothing to do: a
command is issued, an event that wakes no controller is gone, or a controller that has to wait
is woken at a later time, at which one of its commands is ready or an RFM is over.
-/

namespace HbmSim

open HbmSim.Lib

namespace HbmController

variable {config : HbmControllerConfig} {mapper : HbmAddressMapper} {s : ControllerState}

/-- A controller that has nothing to maintain ignores a refresh event. -/
theorem handleRefreshEvent_never (never : s.ctl.nextRefreshDue = none) (due : Nat) :
    Exits (handleRefreshEvent config mapper due) (fun _ t => t = s.modifyCtl (·.disarm due))
      (fun _ _ => False) s := by
  unfold handleRefreshEvent
  simp only [exits_bind, exits_get, exits_ite, exits_modify, exits_pure]
  have none_due : ¬ (s.ctl.nextRefreshDue = some due) := by
    rw [never]
    intro none_due
    cases none_due
  refine ⟨fun armed => ⟨fun due_now => absurd due_now none_due, fun _ => ?_⟩, fun unarmed => ?_⟩
  · have disarmed : s.ctl.disarm due = { s.ctl with refreshDueAt := none } := if_pos armed
    exact congrArg (ControllerState.mk · s.stats) disarmed.symm
  · have same : s.ctl.disarm due = s.ctl := if_neg unarmed
    exact congrArg (ControllerState.mk · s.stats) same.symm

end HbmController

/-- The event wakes no controller. -/
def EventCallback.isOther : EventCallback → Bool
  | .wake _ _ => false
  | _ => true

@[simp] theorem EventCallback.isOther_wake (channel at_ : Nat) :
    (EventCallback.wake channel at_).isOther = false := rfl

namespace HbmSystem

open HbmController

variable (cfg : HbmConfig)

/-! ### What is left -/

/-- How long a wake event can still be put off. -/
def wakeLeft (s : HbmSystem) (event : Event EventCallback) : Nat :=
  match event.callback with
  | .wake channel _ =>
      1 + (horizon (cfg.channelConfig channel) cfg.mapper (s.controllers channel) - event.time)
  | _ => 0

/-- The commands, the events that wake no controller, and the wakes that are left. -/
def left (s : HbmSystem) : Nat × Nat × Nat :=
  (workLeft cfg s, s.scheduler.events.countP (·.callback.isOther),
    (s.scheduler.events.map (wakeLeft cfg s)).sum)

/-- Less is left. -/
def Nearer (t s : HbmSystem) : Prop :=
  Prod.Lex (· < ·) (Prod.Lex (· < ·) (· < ·)) (left cfg t) (left cfg s)

theorem nearer_wf : WellFounded (Nearer cfg) :=
  InvImage.wf (left cfg) (Nat.lt_wfRel.wf.prod_lex (Nat.lt_wfRel.wf.prod_lex Nat.lt_wfRel.wf))

variable {cfg} {s t u : HbmSystem}

theorem Nearer.of_work (less : workLeft cfg t < workLeft cfg s) : Nearer cfg t s :=
  .left _ _ less

theorem Nearer.of_others (work : workLeft cfg t ≤ workLeft cfg s)
    (less : t.scheduler.events.countP (·.callback.isOther) <
      s.scheduler.events.countP (·.callback.isOther)) : Nearer cfg t s := by
  rcases Nat.lt_or_eq_of_le work with fewer | same
  · exact .of_work fewer
  · unfold Nearer left
    rw [same]
    exact .right _ (.left _ _ less)

theorem Nearer.of_wakes (work : workLeft cfg t = workLeft cfg s)
    (others : t.scheduler.events.countP (·.callback.isOther) =
      s.scheduler.events.countP (·.callback.isOther))
    (less : (t.scheduler.events.map (wakeLeft cfg t)).sum <
      (s.scheduler.events.map (wakeLeft cfg s)).sum) : Nearer cfg t s := by
  unfold Nearer left
  rw [work, others]
  exact .right _ (.right _ less)

/-! ### Scheduling -/

/-- Where no refresh is ever due none is armed. -/
theorem scheduleRefreshDue_never {channel : Nat} (hchannel : channel < cfg.channelCount)
    (never : (s.controllers channel).nextRefreshDue = none) :
    Exits (scheduleRefreshDue cfg channel) (fun _ t => t = s) (fun _ _ => False) s := by
  unfold scheduleRefreshDue
  simp only [exits_bind]
  rw [onController_exits hchannel, exits_modifyGet]
  have none_due : (s.side channel).ctl.nextRefreshDue = none := never
  have result : (s.side channel).ctl.claimRefreshEvent = (none, (s.side channel).ctl) := by
    unfold HbmController.claimRefreshEvent
    rw [none_due]
  simp only [result]
  exact update_side s channel

/-! ### Driving a controller -/

/-- A command is issued. -/
structure Worked (cfg : HbmConfig) (s t : HbmSystem) : Prop where
  script : t.script = s.script
  capacityCallback : t.capacityCallback = s.capacityCallback
  accepted : acceptedTransactions t.trace = acceptedTransactions s.trace
  notified : notifications t.trace = notifications s.trace
  less : workLeft cfg t < workLeft cfg s
  events : ∀ e ∈ s.scheduler.events, e ∈ t.scheduler.events
  /-- A slot that has become free is announced. -/
  room : s.capacityCallback = true → CapacityPending t ∨ SameRoom s t

/-- A controller waits, and is woken when one of its commands is ready, or sooner. -/
structure Waited (cfg : HbmConfig) (channel : Nat) (s t : HbmSystem) : Prop where
  same : SamePlans s t
  events : ∃ new : Option (Event EventCallback),
    t.scheduler.events.Perm (new.toList ++ s.scheduler.events) ∧ ∀ e ∈ new,
      e.callback = .wake channel e.time ∧ s.now < e.time ∧
        e.time ≤ horizon (cfg.channelConfig channel) cfg.mapper (s.controllers channel)

/-- What is to do is read off the plans. -/
theorem SamePlans.toDo {price : Nat} {load : Nat → HbmController → Nat} (same : SamePlans s t)
    (congr : ∀ channel {c c'}, HbmController.SamePlans c c' → load channel c' = load channel c) :
    toDo cfg price load t = toDo cfg price load s := by
  have loads : ∀ ch, load ch (t.controllers ch) = load ch (s.controllers ch) := fun ch =>
    congr ch (same.controllers ch)
  have bytes : t.unadmitted = s.unadmitted := by
    unfold unadmitted
    rw [same.parents]
  unfold HbmSystem.toDo
  simp only [loads, bytes]

/-- The commands left are read off the plans. -/
theorem SamePlans.workLeft (same : SamePlans s t) : workLeft cfg t = workLeft cfg s :=
  same.toDo fun _ _ _ plans => commandsLeft_congr plans.queued plans.banks plans.pending

/-- So is the number of wakes that may follow. -/
theorem SamePlans.wakeLeft (same : SamePlans s t) : wakeLeft cfg t = wakeLeft cfg s := by
  funext event
  unfold HbmSystem.wakeLeft
  split
  · rename_i channel _ _
    have plans := same.controllers channel
    rw [horizon_congr plans.record plans.banks plans.queued plans.busy]
  · rfl

/-- A controller that records a row or maintenance command goes on. -/
theorem Worked.of_works (off : cfg.Unrefreshed) {channel at_ : Nat} {u v : ControllerState}
    (hchannel : channel < cfg.channelCount)
    (sound : Sound (cfg.channelConfig channel) cfg.mapper (s.controllers channel))
    (settled : cfg.device.standard = none →
      ∀ b ∈ (s.controllers channel).banks, b.prechargePending = false)
    (touched : Retouched (cfg.channelConfig channel) (s.side channel) v)
    (works : Works (cfg.channelConfig channel) cfg.mapper s.now v u)
    (woken : Woken channel at_ (s.update channel u) t) : Worked cfg s t := by
  have plans := HbmController.SamePlans.retouched cfg.mapper touched
  have same := woken.samePlans
  obtain ⟨new, events, -⟩ := woken.events
  have less : commandsLeft (cfg.channelConfig channel) u.ctl <
      commandsLeft (cfg.channelConfig channel) v.ctl := by
    cases works with
    | maintain step => exact step.commandsLeft_lt off.early
    | row step =>
        exact RowStep.commandsLeft_lt (sound.retouched touched) (by rwa [touched.banks]) step
  rw [commandsLeft_congr plans.queued plans.banks plans.pending] at less
  have less := workLeft_update_lt s hchannel less
  have room : SameRoom s (s.update channel u) := .update (plans.slots.trans works.step.slots)
  refine ⟨same.script, same.capacityCallback, by rw [same.trace]; rfl, by rw [same.trace]; rfl,
    same.workLeft ▸ less, fun e he => ?_, fun _ => .inr (room.trans same.room)⟩
  exact events.mem_iff.mpr (List.mem_append_right _ he)

theorem SamePlans.retouched {channel : Nat} {u : ControllerState}
    (touched : Retouched (cfg.channelConfig channel) (s.side channel) u) :
    SamePlans s (s.update channel u) :=
  .of_controller rfl rfl rfl rfl (update_controllers s channel u) (.retouched cfg.mapper touched)

/-- A channel that is woken when it may go on. -/
theorem Waited.of_woken {channel at_ : Nat} {u : ControllerState}
    (touched : Retouched (cfg.channelConfig channel) (s.side channel) u) (later : s.now < at_)
    (bound : at_ ≤ horizon (cfg.channelConfig channel) cfg.mapper u.ctl)
    (woken : Woken channel at_ (s.update channel u) t) : Waited cfg channel s t := by
  have plans := HbmController.SamePlans.retouched cfg.mapper touched
  obtain ⟨new, events, wakes⟩ := woken.events
  rw [horizon_congr plans.record plans.banks plans.queued plans.busy] at bound
  refine ⟨(SamePlans.retouched touched).trans woken.samePlans, new, events, fun e he => ?_⟩
  obtain ⟨callback, rfl⟩ := wakes e he
  exact ⟨callback, later, bound⟩

/-- A controller issues a command or waits for one. -/
theorem driveController_works (checked : cfg.Checked) (off : cfg.Unrefreshed) {channel : Nat}
    (hchannel : channel < cfg.channelCount)
    (sound : Sound (cfg.channelConfig channel) cfg.mapper (s.controllers channel))
    (settled : cfg.device.standard = none →
      ∀ b ∈ (s.controllers channel).banks, b.prechargePending = false) :
    Exits (driveController cfg channel) (fun _ t => Worked cfg s t ∨ Waited cfg channel s t)
      (fun _ _ => True) s := by
  refine (driveController_drives checked hchannel sound).mono (fun _ t h => ?_) fun _ _ _ => trivial
  cases h with
  | serves h =>
      exact .inl ⟨h.script, h.capacityCallback, h.accepted, h.notified, h.work off.refresh,
        h.events,
        fun present => .inl (h.announced present)⟩
  | works touched works _ woken =>
      exact .inl (.of_works off hchannel sound settled touched works woken)
  | waits touched later _ bound woken => exact .inr (.of_woken touched later bound woken)
  | rests touched _ same =>
      exact .inr ⟨same ▸ .retouched touched, none, same ▸ .refl _, nofun⟩

/-! ### Dispatching an event -/

/-- What an event whose callbacks make no calls leaves. -/
structure Ebbs (cfg : HbmConfig) (s t : HbmSystem) : Prop where
  script : t.script = []
  capacityCallback : t.capacityCallback = s.capacityCallback
  accepted : acceptedTransactions t.trace = acceptedTransactions s.trace
  nearer : Nearer cfg t s
  notified : notifications s.trace ≤ notifications t.trace
  /-- A call of the capacity callback stays pending until it is made. -/
  pending : s.capacityCallback = true → CapacityPending s →
    notifications s.trace < notifications t.trace ∨ CapacityPending t
  /-- Room that has become free is announced, or about to be. -/
  room : s.capacityCallback = true → notifications s.trace < notifications t.trace ∨
    CapacityPending t ∨ SameRoom s t

section

variable {event : Event EventCallback} {rest : List (Event EventCallback)}
  (next : s.scheduler.events = event :: rest)

include next

/-- A capacity event stays pending while another event is dispatched. -/
theorem CapacityPending.later (h : CapacityPending s)
    (other : ∀ channel at_, event.callback ≠ .capacity channel at_) :
    ∃ e ∈ rest, ∃ channel at_, e.callback = .capacity channel at_ := by
  obtain ⟨e, he, channel, at_, pending⟩ := h
  rw [next] at he
  rcases List.mem_cons.mp he with rfl | mem
  · exact absurd pending (other channel at_)
  · exact ⟨e, mem, channel, at_, pending⟩

/-- An event that credits accesses at most. -/
theorem Credits.ebbs
    (other : event.callback.isOther = true) (credits : Credits (s.pop event rest) t)
    (announced : (∃ channel at_, event.callback = .capacity channel at_) →
      s.capacityCallback = true → notifications s.trace < notifications t.trace) :
        Ebbs cfg s t where
  script := credits.script
  capacityCallback := credits.capacityCallback
  accepted := credits.accepted
  nearer := by
    have events : t.scheduler.events = rest := congrArg EventQueue.events credits.scheduler
    apply Nearer.of_others
    · have bytes : t.unadmitted ≤ s.unadmitted := credits.unadmitted
      have commands : ∀ ch, commandsLeft (cfg.channelConfig ch) (t.controllers ch) =
          commandsLeft (cfg.channelConfig ch) (s.controllers ch) := by
        intro ch
        rw [credits.controllers ch]
        exact commandsLeft_congr rfl rfl rfl
      unfold workLeft toDo
      simp only [commands]
      omega
    · rw [events, next]
      simp only [List.countP_cons, other, if_true]
      exact Nat.lt_succ_self _
  notified := credits.notified
  pending present h := by
    by_cases here : ∃ channel at_, event.callback = .capacity channel at_
    · exact .inl (announced here present)
    · obtain ⟨e, he, pending⟩ := h.later next fun channel at_ same => here ⟨channel, at_, same⟩
      refine .inr ⟨e, ?_, pending⟩
      rw [credits.scheduler]
      exact he
  room present := by
    rcases credits.told present with told | same
    · exact .inl told
    · refine .inr (.inr ⟨same, fun ch => ⟨fun w => ?_, fun w => ?_⟩⟩)
      all_goals
        rw [credits.controllers ch]
        cases w <;> rfl

/-- An event that changes the schedule at most. -/
theorem SamePlans.ebbs (silent : s.script = []) (same : SamePlans s t)
    (other : ∀ channel at_, event.callback ≠ .capacity channel at_)
    (kept : ∀ e ∈ rest, e ∈ t.scheduler.events) (nearer : Nearer cfg t s) : Ebbs cfg s t where
  script := same.script.trans silent
  capacityCallback := same.capacityCallback
  accepted := by rw [same.trace]
  nearer := nearer
  notified := by rw [same.trace]
  pending _ h := by
    obtain ⟨e, he, pending⟩ := h.later next other
    exact .inr ⟨e, kept e he, pending⟩
  room _ := .inr (.inr same.room)

/-- A controller that issued a command has one less to issue. -/
theorem Worked.ebbs {channel at_ : Nat} (silent : s.script = [])
    (callback : event.callback = .wake channel at_) (same : SamePlans s u)
    (events : u.scheduler.events = rest) (worked : Worked cfg u t) : Ebbs cfg s t where
  script := worked.script.trans (same.script.trans silent)
  capacityCallback := worked.capacityCallback.trans same.capacityCallback
  accepted := by rw [worked.accepted, same.trace]
  nearer := .of_work (same.workLeft ▸ worked.less)
  notified := by rw [worked.notified, same.trace]
  pending _ h := by
    obtain ⟨e, he, pending⟩ := h.later next fun _ _ other => by
      rw [callback] at other
      cases other
    exact .inr ⟨e, worked.events e (events ▸ he), pending⟩
  room present := by
    rw [← same.capacityCallback] at present
    exact .inr ((worked.room present).imp_right same.room.trans)

/-- A wake that is put off at most, to a time at which a command is ready. -/
theorem wakeLeft_sum_lt {channel : Nat} {new : Option (Event EventCallback)}
    (callback : event.callback = .wake channel event.time) (same : SamePlans s t)
    (events : t.scheduler.events.Perm (new.toList ++ rest))
    (wakes : ∀ e ∈ new, e.callback = .wake channel e.time ∧ event.time < e.time ∧
      e.time ≤ horizon (cfg.channelConfig channel) cfg.mapper (s.controllers channel)) :
    (t.scheduler.events.map (wakeLeft cfg t)).sum <
      (s.scheduler.events.map (wakeLeft cfg s)).sum := by
  have here : ∀ {e : Event EventCallback}, e.callback = .wake channel e.time → wakeLeft cfg s e =
      1 + (horizon (cfg.channelConfig channel) cfg.mapper (s.controllers channel) - e.time) := by
    intro e callback
    unfold wakeLeft
    rw [callback]
  rw [(events.map _).sum_eq, next, same.wakeLeft, List.map_append, List.sum_append, List.map_cons,
    List.sum_cons, here callback]
  cases new with
  | none =>
      rw [Option.toList_none, List.map_nil, List.sum_nil]
      omega
  | some e =>
      obtain ⟨woken, after, before⟩ := wakes e rfl
      rw [Option.toList_some, List.map_singleton, List.sum_singleton, here woken]
      omega

/-- A wake event whose controller has to wait is put off at most. -/
theorem Waited.ebbs {channel : Nat} (silent : s.script = []) (now : u.now = event.time)
    (callback : event.callback = .wake channel event.time) (same : SamePlans s u)
    (events : u.scheduler.events = rest) (waited : Waited cfg channel u t) : Ebbs cfg s t := by
  have plans := same.controllers channel
  have same := same.trans waited.same
  obtain ⟨new, perm, wakes⟩ := waited.events
  rw [events] at perm
  rw [now, horizon_congr plans.record plans.banks plans.queued plans.busy] at wakes
  refine same.ebbs next silent (fun _ _ capacity => ?_)
    (fun e he => perm.mem_iff.mpr (List.mem_append_right _ he)) (.of_wakes same.workLeft ?_
      (wakeLeft_sum_lt next callback same perm wakes))
  · rw [callback] at capacity
    cases capacity
  · have none : new.toList.countP (·.callback.isOther) = 0 := by
      apply List.countP_eq_zero.mpr
      intro e he
      simp [(wakes e (Option.mem_toList.mp he)).1]
    rw [perm.countP_eq, List.countP_append, none, next]
    simp [callback]

/-- A wake event lets its controller work or wait. -/
theorem wake_ebbs (checked : cfg.Checked) (off : cfg.Unrefreshed)
    (opens : cfg.device.standard = none → cfg.controller.rowPolicy.useAutoPrecharge = false)
    {d : Debts} (point : Point cfg s d) (silent : s.script = []) {channel : Nat}
    (hchannel : channel < cfg.channelCount) (callback : event.callback = .wake channel event.time) :
    Exits (runCallback cfg (.wake channel event.time)) (fun _ t => Ebbs cfg s t) (fun _ _ => True)
      (s.pop event rest) := by
  have turn : Turn cfg (s, d) _ := .wake next callback hchannel point.settled
  have run := point.run.turn turn
  generalize hu : (s.pop event rest).modifyController channel (·.clearWakeup event.time) = u at run
  have same : SamePlans s u := by
    rw [← hu]
    exact (SamePlans.pop event rest).trans (.modifyController channel (.clearWakeup _ _))
  have events : u.scheduler.events = rest := by
    rw [← hu]
    rfl
  unfold runCallback
  rw [exits_bind, onController_exits hchannel, exits_modify]
  show Exits (driveController cfg channel) _ _
    ((s.pop event rest).modifyController channel (·.clearWakeup event.time))
  rw [hu]
  refine (driveController_works checked off hchannel (run.sound checked channel)
    (fun custom => (run.rowed checked opens channel).settled custom)).mono (fun _ t h => ?_)
      fun _ _ _ => trivial
  rcases h with worked | waited
  · exact worked.ebbs next silent callback same events
  · exact waited.ebbs next silent (hu ▸ rfl) callback same events

/-- A channel that has been woken after an event other than its wake. -/
theorem Woken.ebbs {channel at_ : Nat} (silent : s.script = []) (same : SamePlans s u)
    (events : u.scheduler.events = rest) (other : event.callback.isOther = true)
    (no_capacity : ∀ channel at_, event.callback ≠ .capacity channel at_)
    (woken : Woken channel at_ u t) : Ebbs cfg s t := by
  have same := same.trans woken.samePlans
  obtain ⟨new, perm, wakes⟩ := woken.events
  rw [events] at perm
  have none : new.toList.countP (·.callback.isOther) = 0 :=
    List.countP_eq_zero.mpr fun e he => by simp [(wakes e (Option.mem_toList.mp he)).1]
  refine same.ebbs next silent no_capacity
    (fun e he => perm.mem_iff.mpr (List.mem_append_right _ he))
    (.of_others (Nat.le_of_eq same.workLeft) ?_)
  rw [perm.countP_eq, List.countP_append, none, next]
  simp [other]

/-- A refresh event without refresh wakes its channel at most. -/
theorem refreshDue_ebbs (silent : s.script = []) {channel : Nat}
    (never : (s.controllers channel).nextRefreshDue = none) (hchannel : channel < cfg.channelCount)
    (callback : event.callback = .refreshDue channel event.time) :
    Exits (runCallback cfg (.refreshDue channel event.time)) (fun _ t => Ebbs cfg s t)
      (fun _ _ => True) (s.pop event rest) := by
  have other : event.callback.isOther = true := by
    rw [callback]
    rfl
  have no_capacity : ∀ channel at_, event.callback ≠ .capacity channel at_ := by
    intro _ _ capacity
    cases callback.symm.trans capacity
  unfold runCallback
  rw [exits_bind, onController_exits hchannel]
  refine (handleRefreshEvent_never never event.time).mono (fun _ c h => ?_) fun _ _ _ => trivial
  subst h
  generalize hu : (s.pop event rest).update channel
    (((s.pop event rest).side channel).modifyCtl (·.disarm event.time)) = u
  have same : SamePlans s u := by
    rw [← hu]
    exact (SamePlans.pop event rest).trans (.modifyController channel (.disarm _ _))
  have events : u.scheduler.events = rest := by
    rw [← hu]
    rfl
  have unarmed : (u.controllers channel).nextRefreshDue = none := by
    rw [← hu, update_controllers, if_pos rfl]
    exact (disarm_work (s.side channel) event.time).nextRefreshDue.trans never
  simp only [exits_bind, exits_get, exits_ite, exits_pure]
  refine (scheduleControllerWake_exits hchannel).mono (fun _ t woken => ⟨fun _ => ?_, fun _ =>
    woken.ebbs next silent same events other no_capacity⟩) fun _ _ _ => trivial
  refine (scheduleRefreshDue_never hchannel ?_).mono (fun _ v h => ?_) fun _ _ _ => trivial
  · rcases woken with ⟨rfl, -⟩ | rfl
    · exact unarmed
    · rw [markWake_controllers, if_pos rfl]
      exact unarmed
  · subst h
    exact woken.ebbs next silent same events other no_capacity

/-- A capacity event calls the capacity callback, if there is one. -/
theorem capacity_ebbs (silent : s.script = [])
    (distinct : ((s.pop event rest).parents.map (·.transaction.id)).Nodup) {channel at_ : Nat}
    (callback : event.callback = .capacity channel at_) :
    Exits (runCallback cfg (.capacity channel at_)) (fun _ t => Ebbs cfg s t) (fun _ _ => True)
      (s.pop event rest) := by
  have silent_pop : (s.pop event rest).script = [] := silent
  have other : event.callback.isOther = true := by
    rw [callback]
    rfl
  refine (notifyCapacity_silent silent_pop channel at_).mono (fun _ t h => ?_) fun _ _ h => h.elim
  by_cases present : s.capacityCallback = true
  · obtain rfl := h.trans (if_pos present)
    have told := notifications_announced cfg (s.pop event rest) channel at_
    have credits : Credits (s.pop event rest) (announced cfg (s.pop event rest) channel at_) :=
      ⟨silent, distinct, rfl, rfl, rfl, Nat.le_refl _, fun _ => rfl, by omega,
        fun _ => .inl (by omega)⟩
    exact credits.ebbs next other fun _ _ => told ▸ Nat.lt_succ_self _
  · obtain rfl := h.trans (if_neg present)
    exact (Credits.refl silent_pop distinct).ebbs next other fun _ here => absurd here present

end

/-- An event whose callbacks make no calls leaves less to do. -/
theorem dispatchOne_ebbs (checked : cfg.Checked) (off : cfg.Unrefreshed)
    (opens : cfg.device.standard = none → cfg.controller.rowPolicy.useAutoPrecharge = false)
    {d : Debts} (point : Point cfg s d) (silent : s.script = [])
    (never : ∀ channel, (s.controllers channel).nextRefreshDue = none)
    (some : s.scheduler.events ≠ []) :
    Exits (dispatchOne cfg) (fun _ t => Ebbs cfg s t) (fun _ _ => True) s := by
  obtain ⟨event, rest, next⟩ := List.exists_cons_of_ne_nil some
  have stamped := point.run.scheduled.stamped event (next ▸ List.mem_cons_self)
  unfold Exits
  rw [dispatchOne_cons next]
  have distinct : ((s.pop event rest).parents.map (·.transaction.id)).Nodup :=
    (point.run.accounted checked).family.ids
  have silent_pop : (s.pop event rest).script = [] := silent
  cases callback : event.callback with
  | wake channel at_ =>
      rw [callback] at stamped
      obtain ⟨rfl, hchannel⟩ := stamped
      exact wake_ebbs next checked off opens point silent hchannel callback
  | refreshDue channel due =>
      rw [callback] at stamped
      obtain ⟨rfl, hchannel⟩ := stamped
      exact refreshDue_ebbs next silent (never channel) hchannel callback
  | accessDone channel issued =>
      refine ((finishAccesses_credited _ _ _).exits _).mono (fun _ t h => ?_) fun _ _ _ => trivial
      refine (h silent distinct).ebbs next (by rw [callback]; rfl) ?_
      rintro ⟨_, _, capacity⟩
      cases callback.symm.trans capacity
  | capacity channel at_ => exact capacity_ebbs next silent distinct callback
  | client tag =>
      refine (invokeClient_silent silent_pop).mono (fun _ t h => ?_) fun _ _ h => h.elim
      subst h
      refine (Credits.refl silent_pop distinct).ebbs next (by rw [callback]; rfl) ?_
      rintro ⟨_, _, capacity⟩
      cases callback.symm.trans capacity

end HbmSystem

end HbmSim
