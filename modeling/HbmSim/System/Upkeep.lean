import HbmSim.System.Descent

/-!
Channels without maintenance stay frugal.

Whatever the client's callbacks do, no function of a system spends more commands than its
accesses need, if neither refresh nor RFM is configured.
-/

namespace HbmSim

open HbmSim.Lib

namespace HbmController

variable {config : HbmControllerConfig} {mapper : HbmAddressMapper} {s t : ControllerState}
  {now : Nat} {exempt : Prop}

/-- What a controller without maintenance keeps. -/
def Keeps (config : HbmControllerConfig) (s t : ControllerState) : Prop :=
  Economical config s.ctl → Economical config t.ctl

instance : Std.Refl (Keeps config) := ⟨fun _ => id⟩

instance : IsTrans ControllerState (Keeps config) := ⟨fun _ _ _ h h' => h' ∘ h⟩

theorem OnlyCounts.economical (only : OnlyCounts s t) (h : Economical config s.ctl) :
    Economical config t.ctl := by
  unfold OnlyCounts at only
  rw [only]
  have still := h.unmaintained
  exact h.more ⟨still.quiet, still.idle, still.never⟩ rfl rfl fun _ _ => id

theorem handleRefreshEvent_keeps (due : Nat) :
    Stays (Keeps config) (handleRefreshEvent config mapper due) := by
  intro s h
  refine (exits_exitState fun t : ControllerState => Economical config t.ctl).mp ?_
  refine (handleRefreshEvent_never h.unmaintained.never due).mono (fun _ t same => ?_)
    fun _ _ none => none.elim
  subst same
  exact (disarm_work s due).economical h

/-! ### Commands -/

/-- A command for a queued access leaves maintenance to nobody if RFM is off. -/
theorem Demanded.unmaintained {w : Bool} {index : Nat} {a : HbmAccess} {r : RecordedCommand}
    (demanded : Demanded config mapper now exempt s t w index a r)
    (off : config.enableRfm = false) (sound : Sound config mapper t.ctl)
    (h : s.ctl.Unmaintained) : t.ctl.Unmaintained := by
  have refresh := demanded.refresh
  refine ⟨⟨refresh.refreshPending.trans h.quiet.1, fun b' hb' => ?_⟩,
    refresh.refreshBusyUntil.trans h.idle, refresh.nextRefreshDue.trans h.never⟩
  constructor
  · refine Bool.eq_false_iff.mpr fun pending => ?_
    have on := sound.rfm b' hb' pending
    rw [off] at on
    cases on
  · obtain ⟨i, hi⟩ := List.mem_iff_getElem?.mp hb'
    have inside : i < s.ctl.banks.length := by
      rw [← demanded.records.banks]
      exact (List.getElem?_eq_some_iff.mp hi).1
    have hb := List.getElem?_eq_getElem inside
    have pending := (demanded.flags i _ _ hb hi).refreshPending
    have none := (h.quiet.2 _ (List.getElem_mem inside)).2
    rw [pending]
    split
    · unfold noteActivation
      split <;> exact none
    · exact none

theorem economical_retouched (mapper : HbmAddressMapper) (now : Nat)
    (touched : Retouched config s t) (h : Economical config s.ctl) : Economical config t.ctl := by
  have queued := (@ControllerStep.retouch config mapper now s t touched).queued
  have still := h.unmaintained
  refine h.more ⟨still.quiet.retouched touched rfl, ?_,
    ?_⟩ touched.recorded touched.banks fun _ _ =>
    Wanted.congr queued
  · rw [touched.ctl]
    exact still.idle
  · rw [touched.ctl]
    exact still.never

/-- What `drive` does to a controller without maintenance. -/
theorem Driven.economical {step : HbmControllerStep} (driven : Driven config mapper now s t step)
    (off : config.enableRfm = false) (sound : Sound config mapper s.ctl)
    (settled : config.standard = none → ∀ b ∈ s.ctl.banks, b.prechargePending = false)
    (h : Economical config s.ctl) : Economical config t.ctl := by
  cases driven with
  | blocked touched => exact economical_retouched mapper now touched h
  | maintenanceWaits touched => exact economical_retouched mapper now touched h
  | maintained touched _ step =>
      obtain ⟨_, plan⟩ := step.plan
      exact absurd (economical_retouched mapper now touched h).unmaintained.quiet plan.not_quiet
  | empty touched => exact economical_retouched mapper now touched h
  | waits touched => exact economical_retouched mapper now touched h
  | @row u touched step =>
      have before := economical_retouched mapper now touched h
      have sound := sound.retouched touched
      obtain ⟨_, _, _, _, -, demanded⟩ := @RowStep.demanded config mapper u t now True sound step
      have after := Demanded.unmaintained demanded off (sound.step (.row step)) before.unmaintained
      exact before.row sound (touched.banks ▸ settled) step after
  | @data u physical touched step =>
      have before := economical_retouched mapper now touched h
      have sound := sound.retouched touched
      obtain ⟨_, _, _, _, -, -, demanded⟩ := step.demanded sound (.inl trivial)
      have after := Demanded.unmaintained demanded off (sound.dataStep step) before.unmaintained
      exact before.data sound step after

end HbmController

namespace HbmSystem

open HbmController

variable {cfg : HbmConfig} {s t : HbmSystem} {d : Debts}

/-- What a system without maintenance keeps. -/
def Keeps (cfg : HbmConfig) (s t : HbmSystem) : Prop := Frugal cfg s → Frugal cfg t

instance : Std.Refl (Keeps cfg) := ⟨fun _ => id⟩

instance : IsTrans HbmSystem (Keeps cfg) := ⟨fun _ _ _ h h' => h' ∘ h⟩

theorem Keeps.of_same (controllers : t.controllers = s.controllers) : Keeps cfg s t := by
  intro h channel
  rw [controllers]
  exact h channel

theorem Keeps.update {channel : Nat} {u : ControllerState}
    (keeps : HbmController.Keeps (cfg.channelConfig channel) (s.side channel) u) :
    Keeps cfg s (s.update channel u) := frugal_update s keeps

theorem admitAccess_keeps (off : cfg.Unmaintained) (parent : ParentRequest) (access : HbmAccess) :
    Stays (Keeps cfg) (admitAccess cfg parent access) := by
  unfold admitAccess
  refine .bind ((onController_calm (HbmController.reserve_work _ _)).mono fun _ _ calm =>
    calm.frugal off.refresh) fun _ => ?_
  refine .getBind fun s => Stays.setBind (.of_same rfl) ?_
  refine onController_stays Keeps.update fun s => ?_
  exact ((HbmController.admitReserved_admits _ _ s).pushes off.refresh).economical

theorem scheduleClient_keeps (s : HbmSystem) (at_ tag : Nat) :
    Keeps cfg s (s.scheduleClient at_ tag) := by
  unfold scheduleClient
  split
  · exact .of_same rfl
  · exact Std.Refl.refl s

/-- Every function but `drive` keeps a system frugal. -/
theorem footprint_keeps (off : cfg.Unmaintained) : Footprint cfg (Keeps cfg) where
  members _ controllers _ _ := .of_same controllers
  event at_ callback _ := (scheduleEvent_calm at_ callback).mono fun _ _ calm =>
    calm.frugal off.refresh
  wake channel at_ := (scheduleControllerWake_calm channel at_).mono fun _ _ calm =>
    calm.frugal off.refresh
  refreshDue channel := (scheduleRefreshDue_calm channel).mono fun _ _ calm =>
    calm.frugal off.refresh
  client := scheduleClient_keeps
  enqueue := admitAccess_keeps off
  complete _ access := onController_stays Keeps.update <|
    (completeAccess_counts access).mono fun _ _ => OnlyCounts.economical
  refresh _ due := onController_stays Keeps.update (handleRefreshEvent_keeps due)

/-- So does `drive`, if the channel is as a run leaves it. -/
theorem driveController_keeps (checked : cfg.Checked) (off : cfg.Unmaintained) {channel : Nat}
    (hchannel : channel < cfg.channelCount)
    (sound : Sound (cfg.channelConfig channel) cfg.mapper (s.controllers channel))
    (settled : cfg.device.standard = none →
      ∀ b ∈ (s.controllers channel).banks, b.prechargePending = false) (h : Frugal cfg s) :
    Exits (driveController cfg channel) (fun _ t => Frugal cfg t) (fun _ _ => True) s := by
  have keeps := footprint_keeps off
  unfold driveController
  rw [exits_bind]
  refine (driveStep_driven checked hchannel sound).mono (fun step t driven => ?_)
    fun _ _ _ => trivial
  obtain ⟨u, driven, rfl⟩ := driven
  have after : Frugal cfg ((s.update channel u).observeIssued channel step) := by
    unfold observeIssued
    have updated := frugal_update s (driven.economical off.rfm sound settled) h
    cases step.issuedAccess <;> exact updated
  exact ((keeps.preserving _).serving.driven channel step _ (Std.Refl.refl _)).mono
    (fun _ _ keeps => keeps after) fun _ _ _ => trivial

theorem dispatchOne_keeps (checked : cfg.Checked) (off : cfg.Unmaintained)
    (opens : cfg.device.standard = none → cfg.controller.rowPolicy.useAutoPrecharge = false)
    (point : Point cfg s d) (h : Frugal cfg s) :
    Exits (dispatchOne cfg) (fun _ t => Frugal cfg t) (fun _ _ => True) s := by
  cases next : s.scheduler.events with
  | nil =>
      unfold Exits
      rw [dispatchOne_nil next]
      exact h
  | cons event rest =>
      have stamped := point.run.scheduled.stamped event (next ▸ List.mem_cons_self)
      have popped : Frugal cfg (s.pop event rest) := h
      unfold Exits
      rw [dispatchOne_cons next]
      show Exits (runCallback cfg event.callback) (fun _ t => Frugal cfg t) (fun _ _ => True)
        (s.pop event rest)
      cases callback : event.callback with
      | wake channel at_ =>
          rw [callback] at stamped
          obtain ⟨rfl, hchannel⟩ := stamped
          have turn : Turn cfg (s, d) _ := .wake next callback hchannel point.settled
          have run := point.run.turn turn
          have work := clearWakeup_work ((s.pop event rest).side channel) event.time
          have woken := frugal_update (s.pop event rest) work.economical popped
          unfold runCallback
          rw [exits_bind, onController_exits hchannel, exits_modify]
          exact driveController_keeps checked off hchannel (run.sound checked channel)
            (fun custom => (run.rowed checked opens channel).settled custom) woken
      | _ =>
          refine (((footprint_keeps off).runCallback ?_).exits _).mono (fun _ _ keeps =>
            keeps popped)
            fun _ _ _ => trivial
          intro channel at_ same
          cases same

/-- Every action of a run keeps the system frugal, if it returns. -/
theorem perform_keeps (checked : cfg.Checked) (off : cfg.Unmaintained)
    (opens : cfg.device.standard = none → cfg.controller.rowPolicy.useAutoPrecharge = false)
    (action : Action) (point : Point cfg s d) (h : Frugal cfg s) :
    Exits (perform cfg action) (fun _ t => Frugal cfg t) (fun _ _ => True) s := by
  have keeps := footprint_keeps off
  have stays : ∀ {x : SystemM Unit} {u}, Frugal cfg u → Stays (Keeps cfg) x →
      Exits x (fun _ t => Frugal cfg t) (fun _ _ => True) u := fun frugal stays =>
    (stays.exits _).mono (fun _ _ kept => kept frugal) fun _ _ _ => trivial
  cases action with
  | call call => exact stays h (keeps.runClient [call])
  | advance until_ =>
      unfold perform
      simp only [exits_bind, exits_get, exits_ite, exits_set, exits_pure]
      exact ⟨fun _ => Keeps.of_same rfl h, fun _ => h⟩
  | dispatch reactions =>
      have script : Move cfg (s, d) ({ s with script := reactions }, d) := .setScript _
      have point : Point cfg { s with script := reactions } d :=
        ⟨point.run.move script, point.ripe, point.settled⟩
      have frugal : Frugal cfg { s with script := reactions } := h
      unfold perform
      simp only [exits_bind, exits_modify]
      generalize { s with script := reactions } = u at point frugal
      exact dispatchOne_keeps checked off opens point frugal

/-- No channel of a run without maintenance spends more than it needs. -/
theorem Reachable.frugal (reached : Reachable cfg NoEscape s) (off : cfg.Unmaintained)
    (opens : cfg.device.standard = none → cfg.controller.rowPolicy.useAutoPrecharge = false) :
    Frugal cfg s := by
  induction reached with
  | create created =>
      obtain ⟨-, -, rfl⟩ := create_ok.mp created
      exact fun _ => economical_initial
  | @perform s t action reached performed ih =>
      obtain ⟨valid, -, d, point, -⟩ := reached.point
      have after := perform_keeps valid.checked off opens action point ih
      unfold Exits at after
      rwa [performed] at after
  | escape _ _ _ escaped => exact escaped.elim

end HbmSystem

end HbmSim
