import HbmSim.System.DataBuses
import HbmSim.System.Provenance

/-!
The latency stages of an access.

A queued access remembers when it arrived and when its first command issued. When its
transfer is reserved, the stages are the differences of these times and those of the
transfer, one after the other, so none of them is negative and they add up.
-/

namespace HbmSim

open HbmSim.Lib HbmSystem

/-- The times a queued access remembers are in order, and its queue wait is their
difference. -/
structure HbmAccess.Timely (now : Nat) (a : HbmAccess) : Prop where
  arrived : a.arrivalTime ≤ now
  enqueued : a.enqueuedAt = a.arrivalTime
  started : a.firstCommandIssued = true → a.arrivalTime ≤ a.firstCommandAt ∧
    a.firstCommandAt ≤ now ∧ a.latencyBreakdown.queueWait = a.firstCommandAt - a.arrivalTime

/-- The stages of a completion are the differences of times in order, from its arrival to the
end of the transfer. -/
structure Staged (completionTime : Nat) (l : LogicalCompletion) : Prop where
  times : ∃ started issued dataReady dataStart, l.arrivalTime ≤ started ∧ started ≤ issued ∧
    issued ≤ dataReady ∧ dataReady ≤ dataStart ∧ dataStart ≤ completionTime ∧
    l.latencyBreakdown =
      { queueWait := started - l.arrivalTime
        commandPhase := issued - started
        dataReady := dataReady - issued
        dataBusWait := dataStart - dataReady
        dataService := completionTime - dataStart }

/-- Ordered stages add up. -/
theorem Staged.total {completionTime : Nat} {l : LogicalCompletion} (h : Staged completionTime l) :
    l.arrivalTime + l.latencyBreakdown.total = completionTime := by
  obtain ⟨started, issued, dataReady, dataStart, arrives, starts, issues, readies, ends, stages⟩ :=
    h.times
  unfold HbmLatencyBreakdown.total
  rw [stages]
  dsimp only
  omega

section

open HbmController

variable {config : HbmControllerConfig} {mapper : HbmAddressMapper} {s t : ControllerState}
  {now : Nat} {exempt : Prop} {a b : HbmAccess}

/-! ### Queued accesses -/

namespace HbmAccess.Timely

theorem later (h : a.Timely now) {now' : Nat} (le : now ≤ now') : a.Timely now' := by
  refine ⟨Nat.le_trans h.arrived le, h.enqueued, fun issued => ?_⟩
  obtain ⟨first, past, wait⟩ := h.started issued
  exact ⟨first, Nat.le_trans past le, wait⟩

/-- The times do not depend on the marks. -/
theorem of_core (h : a.Timely now) (core : b.core = a.core) : b.Timely now := by
  have logical := HbmAccess.logical_of_core core
  have enqueued : b.enqueuedAt = a.enqueuedAt :=
    (congrArg HbmAccess.enqueuedAt core :)
  have issued : b.firstCommandIssued = a.firstCommandIssued :=
    (congrArg HbmAccess.firstCommandIssued core :)
  have first : b.firstCommandAt = a.firstCommandAt :=
    (congrArg HbmAccess.firstCommandAt core :)
  have stages : b.latencyBreakdown = a.latencyBreakdown :=
    (congrArg HbmAccess.latencyBreakdown core :)
  constructor
  case arrived =>
    rw [logical]
    exact h.arrived
  case enqueued =>
    rw [enqueued, logical]
    exact h.enqueued
  case started =>
    rw [issued, first, stages, logical]
    exact h.started

/-- The first command of an access that waits starts it now. -/
theorem start (h : a.Timely now) (fits : now < 2 ^ 64) :
    (startAccess a now).Timely now ∧ (startAccess a now).firstCommandIssued = true := by
  unfold startAccess
  split
  · rename_i issued
    exact ⟨h, issued⟩
  · refine ⟨⟨h.arrived, h.enqueued, fun _ => ⟨h.arrived, Nat.le_refl _, ?_⟩⟩, rfl⟩
    have wait : SimTime.sub now a.enqueuedAt = now - a.enqueuedAt :=
      SimTime.sub_of_le (h.enqueued ▸ h.arrived) fits
    rw [h.enqueued] at wait
    exact h.enqueued ▸ wait

end HbmAccess.Timely

/-- Every queued access is timely, unless the clock has left 64 bits. -/
def HbmController.TimelyQueues (now : Nat) (c : HbmController) : Prop :=
  now < 2 ^ 64 → ∀ w, ∀ a ∈ c.queue w, a.Timely now

theorem HbmController.TimelyQueues.of_mem {c c' : HbmController} (h : c.TimelyQueues now)
    (mem : ∀ w, ∀ b ∈ c'.queue w, b ∈ c.queue w) : c'.TimelyQueues now :=
  fun fits w b hb => h fits w b (mem w b hb)

theorem HbmController.RowStep.timely (step : RowStep config mapper now s t)
    (h : s.ctl.TimelyQueues now) : t.ctl.TimelyQueues now := by
  intro fits w b hb
  cases step with
  | @activate w' index _ a banks demand =>
      have first := (h fits w' a (List.mem_of_getElem? demand.access)).start fits
      rw [activatedState_queue] at hb
      split at hb
      · subst w
        obtain ⟨b', hb', rfl | rfl⟩ := mem_modify hb
        · exact h fits w' b hb'
        · exact ⟨first.1.arrived, first.1.enqueued, first.1.started⟩
      · exact h fits w b hb
  | @precharge w' index _ a bank banks demand =>
      have first := (h fits w' a (List.mem_of_getElem? demand.access)).start fits
      rw [prechargedState_queue] at hb
      split at hb
      · subst w
        obtain ⟨b', hb', rfl | rfl⟩ := mem_modify hb
        · exact h fits w' b hb'
        · unfold precharged
          split
          · exact ⟨first.1.arrived, first.1.enqueued, first.1.started⟩
          · exact ⟨first.1.arrived, first.1.enqueued, first.1.started⟩
      · exact h fits w b hb

theorem HbmController.ControllerStep.timely (step : ControllerStep config mapper now s t)
    (h : s.ctl.TimelyQueues now) : t.ctl.TimelyQueues now := by
  cases step with
  | retouch touched =>
      intro fits w b hb
      obtain ⟨a, ha, core⟩ := touched.mem hb
      exact (h fits w a ha).of_core core.symm
  | raise due =>
      refine h.of_mem fun w b hb => ?_
      rwa [show ((s.modifyCtl (·.raise config due)).ctl).queue w = s.ctl.queue w from
        raise_queue s.ctl due w] at hb
  | advanceDue => exact h.of_mem fun _ _ hb => hb
  | maintain step => exact h.of_mem fun w b hb => step.queue w ▸ hb
  | row step => exact step.timely h

theorem HbmController.Beat.timely (beat : Beat config mapper now exempt s t)
    (h : s.ctl.TimelyQueues now) : t.ctl.TimelyQueues now := by
  cases beat with
  | step step => exact step.timely h
  | data step =>
      cases step with
      | mk => exact h.of_mem fun w b hb => takeAccesses_mem (transferredState_queue ▸ hb)
  | lose step =>
      cases step with
      | mk => exact h.of_mem fun w b hb => takeAccesses_mem (takenState_queue ▸ hb)
  | aside aside =>
      generalize t.ctl = c at aside
      cases aside with
      | @push a _ arrived blank =>
          intro fits w b hb
          rw [push_queue] at hb
          split at hb
          · rcases List.mem_append.mp hb with old | new
            · exact h fits w b old
            · obtain rfl := List.mem_singleton.mp new
              refine ⟨arrived, ?_, fun issued => ?_⟩
              · rw [blank]
              · rw [blank] at issued
                cases issued
          · exact h fits w b hb
      | _ => exact h.of_mem fun _ _ hb => hb

/-- The queued accesses of every point of a run are timely. -/
theorem HbmSystem.Run.timely {cfg : HbmConfig} (checked : cfg.Checked) {p : HbmSystem × Debts}
    (run : Run cfg p) (channel : Nat) : (p.1.controllers channel).TimelyQueues p.1.now := by
  let P : Nat → Prop → ControllerState → Prop := fun now _ s => s.ctl.TimelyQueues now
  have start : P 0 False ((initial cfg).side channel) := fun _ w a ha => by cases w <;> cases ha
  have later : ∀ {now now' exempt exempt' s}, now ≤ now' → (exempt → exempt') → P now exempt s →
      P now' exempt' s := fun le _ h fits w a ha =>
    (h (Nat.lt_of_le_of_lt le fits) w a ha).later le
  exact (run.channel checked channel start later fun _ h beat => beat.timely h).2

/-! ### Transfers -/

/-- A timely access that has started is served in stages. -/
theorem finishAccess_staged {slot : DataSlot} (timely : a.Timely slot.issuedAt)
    (issued : a.firstCommandIssued = true) (fits : slot.issuedAt < 2 ^ 64)
    (latency : slot.issuedAt + slot.casLatency < 2 ^ 64)
    (service : slot.dataStart + slot.duration < 2 ^ 64) :
    Staged slot.completion { (HbmController.finishAccess a slot).toLogicalAccess with
      accessClass := a.accessClass
      latencyBreakdown := (HbmController.finishAccess a slot).latencyBreakdown } := by
  obtain ⟨first, past, wait⟩ := timely.started issued
  have ready : slot.dataReady = slot.issuedAt + slot.casLatency := SimTime.add_of_lt latency
  have ends : slot.completion = slot.dataStart + slot.duration := SimTime.add_of_lt service
  have waits : slot.dataReady ≤ slot.dataStart := Nat.le_max_left _ _
  refine ⟨a.firstCommandAt, slot.issuedAt, slot.dataReady, slot.dataStart, first, past, ?_, waits,
    ?_, ?_⟩
  · rw [ready]
    exact Nat.le_add_right _ _
  · rw [ends]
    exact Nat.le_add_right _ _
  · unfold HbmController.finishAccess
    dsimp only
    rw [wait, SimTime.sub_of_le past fits,
      SimTime.sub_of_le waits (Nat.lt_of_le_of_lt (Nat.le_add_right _ _) service), ready, ends,
      Nat.add_sub_cancel_left, Nat.add_sub_cancel_left]

/-- The accesses a data command takes out are timely, the leader as it is started. -/
theorem takenAccesses_timely {w : Bool} {index : Nat} (h : ∀ w, ∀ a ∈ s.ctl.queue w, a.Timely now)
    (fits : now < 2 ^ 64) (access : (s.ctl.queue w)[index]? = some a)
    (taken : b ∈ takenAccesses config s w index a now) : b.Timely now := by
  have leads : (leader a now).Timely now := by
    have first := (h w a (List.mem_of_getElem? access)).start fits
    unfold leader settleClass
    split
    · exact ⟨first.1.arrived, first.1.enqueued, first.1.started⟩
    · exact ⟨first.1.arrived, first.1.enqueued, first.1.started⟩
  rcases mem_takeAccesses taken with rfl | ⟨f, hf, -, rfl⟩
  · exact leads
  · have before := h w f hf
    exact ⟨before.arrived, before.enqueued, before.started⟩

/-- The completions of a transfer are staged. -/
theorem HbmController.DataStep.staged (detailed : config.detailedStats = true)
    {physical : PhysicalAccess} (step : DataStep config mapper now s physical t)
    (h : s.ctl.TimelyQueues now) (fits : now < 2 ^ 64) (exact_ : t.ctl.wrapped = false) :
    physical.completionTime < 2 ^ 64 ∧
      ∀ l ∈ physical.completions, Staged physical.completionTime l := by
  cases step with
  | @mk w index bankIndex _ _ a k _ banks slot demand _ _ _ _ _ hslot =>
      refine ⟨SimTime.add_lt _ _, ?_⟩
      have issued : slot.issuedAt = now := by rw [hslot]
      rw [transferredState_ctl] at exact_
      obtain ⟨before, service⟩ := noteSum_wrapped exact_
      obtain ⟨-, latency⟩ := noteSum_wrapped before
      intro l hl
      obtain ⟨served, mem, rfl⟩ := List.mem_map.mp hl
      obtain ⟨b, hb, rfl⟩ := List.mem_map.mp mem
      have timely := takenAccesses_timely (h fits) fits demand.access hb
      subst issued
      obtain ⟨started, issued⟩ := timely.start fits
      have staged := finishAccess_staged started issued fits latency service
      unfold HbmController.completionOf
      rw [if_pos detailed]
      exact staged

end

end HbmSim
