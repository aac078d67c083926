import HbmSim.System.Dispatch
import HbmSim.System.ExactTimes
import HbmSim.System.Rows

/-!
The order of the commands of a channel.

A refresh of an idle channel is recorded at times that are still to come. No command is
recorded before them: while the refresh lasts the channel is blocked, and until it is
final its flags are up. So the record is in the order of its issue times.
-/

namespace HbmSim

open HbmSim.Lib HbmSystem

/-- The record is in order, and what is still to be recorded comes after it. -/
structure Chronological (config : HbmControllerConfig) (now : Nat) (c : HbmController) : Prop where
  sorted : c.recorded.Pairwise fun r e => e.issuedAt ≤ r.issuedAt
  data : ∀ e ∈ c.recorded, e.command.isData = true →
    e.issuedAt ≤ now ∧ ∀ due, c.nextRefreshDue = some due → e.issuedAt ≤ due
  /-- A command is recorded ahead of the clock only by a refresh that goes on. -/
  passed : ∀ e ∈ c.recorded, e.issuedAt ≤ now ∨ e.issuedAt ≤ c.refreshBusyUntil ∨ ¬ c.Quiet

section

open HbmController

variable {config : HbmControllerConfig} {mapper : HbmAddressMapper} {s t : ControllerState}
  {now : Nat} {exempt : Prop} {c c' : HbmController} {r : RecordedCommand}

/-! ### Flags -/

theorem HbmController.Quiet.frame (same : SameRefresh c c') (banks : c'.banks = c.banks)
    (quiet : c'.Quiet) : c.Quiet := by
  unfold HbmController.Quiet at quiet ⊢
  rwa [same.refreshPending, banks] at quiet

/-- A prerequisite of a maintenance command leaves its flags up. -/
theorem HbmController.MaintenanceStep.keeps_flags {candidate : MaintenanceCandidate} {time : Nat}
    (step : MaintenanceStep config mapper now s candidate time t)
    (prerequisite : candidate.finalCommand = false) : ¬ t.ctl.Quiet := by
  obtain ⟨cursor, plan⟩ := step.plan
  intro ⟨flag, banks⟩
  refine plan.not_quiet ⟨?_, fun b hb => ?_⟩
  · rw [step.refreshPending, prerequisite] at flag
    simpa using flag
  · obtain ⟨i, hi⟩ := List.getElem?_of_mem hb
    have inside : i < t.ctl.banks.length := by
      rw [step.banks.1]
      exact (List.getElem?_eq_some_iff.mp hi).1
    have hi' := List.getElem?_eq_getElem inside
    have change := step.banks.2 i b _ hi hi'
    have still := banks _ (List.mem_of_getElem? hi')
    split at change
    · obtain ⟨refresh, rfm, -⟩ := change.prerequisite prerequisite
      exact ⟨rfm.symm.trans still.1, refresh.symm.trans still.2⟩
    · rwa [change] at still

/-! ### Steps -/

/-- Commands that move no data share a bus. -/
theorem commandBus_of_not_data {k k' : HbmCommand} (data : k.isData = false)
    (data' : k'.isData = false) : config.commandBus k = config.commandBus k' := by
  unfold HbmControllerConfig.commandBus HbmStandard.commandBus
  cases config.standard with
  | none => rfl
  | some standard => simp [data, data']

theorem Chronological.frame (h : Chronological config now c) (recorded : c'.recorded = c.recorded)
    (next : ∀ due, c'.nextRefreshDue = some due →
      c.nextRefreshDue = some due ∨ ∀ e ∈ c.recorded, e.command.isData = true → e.issuedAt ≤ due)
    (passed : ∀ e ∈ c.recorded, e.issuedAt ≤ c.refreshBusyUntil ∨ ¬ c.Quiet →
      e.issuedAt ≤ c'.refreshBusyUntil ∨ ¬ c'.Quiet) : Chronological config now c' where
  sorted := recorded ▸ h.sorted
  data e he moves := by
    rw [recorded] at he
    obtain ⟨past, within⟩ := h.data e he moves
    refine ⟨past, fun due moved => ?_⟩
    rcases next due moved with same | later
    · exact within due same
    · exact later e he moves
  passed e he := by
    rw [recorded] at he
    exact (h.passed e he).imp_right (passed e he)

/-- A command that is not earlier than any before it is recorded. -/
theorem Chronological.cons (h : Chronological config now s.ctl) (records : SameRecord
      (s.ctl.stampCommand config r) t.ctl)
    (latest : ∀ e ∈ s.ctl.recorded, e.issuedAt ≤ r.issuedAt)
    (next : t.ctl.nextRefreshDue = s.ctl.nextRefreshDue)
    (data : r.command.isData = true →
      r.issuedAt ≤ now ∧ ∀ due, s.ctl.nextRefreshDue = some due → r.issuedAt ≤ due)
    (passed : r.issuedAt ≤ now ∨ r.issuedAt ≤ t.ctl.refreshBusyUntil ∨ ¬ t.ctl.Quiet) :
    Chronological config now t.ctl := by
  have recorded : t.ctl.recorded = r :: s.ctl.recorded := records.recorded
  refine ⟨?_, fun e he moves => ?_, fun e he => ?_⟩
  · rw [recorded]
    exact List.pairwise_cons.mpr ⟨latest, h.sorted⟩
  · rw [next]
    rw [recorded] at he
    rcases List.mem_cons.mp he with rfl | he
    · exact data moves
    · exact h.data e he moves
  · rw [recorded] at he
    have upto : e.issuedAt ≤ r.issuedAt := by
      rcases List.mem_cons.mp he with rfl | he
      · exact Nat.le_refl _
      · exact latest e he
    exact passed.imp (Nat.le_trans upto) (·.imp_left (Nat.le_trans upto))

/-- A demand command comes after every recorded command. -/
theorem Chronological.demand (h : Chronological config now s.ctl) {w : Bool} {index : Nat}
    {a : HbmAccess} {k : HbmCommand} (demand : Demand config mapper s.ctl now w index a k) :
    ∀ e ∈ s.ctl.recorded, e.issuedAt ≤ now := by
  intro e he
  rcases h.passed e he with past | blocked | flags
  · exact past
  · exact Nat.le_trans blocked demand.idle
  · exact absurd demand.quiet flags

/-- A maintenance command comes after every recorded command. -/
theorem Chronological.maintain (h : Chronological config now s.ctl)
    (apart : BusesApart config s.ctl) {candidate : MaintenanceCandidate}
    (step : MaintenanceStep config mapper now s candidate r.issuedAt t)
    (records : Records config mapper s t r) (command : r.command = candidate.command) :
    ∀ e ∈ s.ctl.recorded, e.issuedAt ≤ r.issuedAt := by
  intro e he
  obtain ⟨cursor, plan⟩ := step.plan
  cases moves : e.command.isData with
  | false =>
      have single := plan.no_demand.1
      have ready := apart.ready e he
      have same : s.ctl.commandBusReady config e.command =
          s.ctl.commandBusReady config r.command := by
        unfold HbmController.commandBusReady
        rw [commandBus_of_not_data moves (command ▸ single)]
      have waits := records.waits
      omega
  | true =>
      obtain ⟨past, within⟩ := h.data e he moves
      cases step with
      | mk _ _ _ _ timely =>
          rcases timely with late | ⟨due, next, le⟩
          · exact Nat.le_trans past late
          · exact Nat.le_trans (within due next) le

theorem HbmController.MaintenanceStep.unwrapped {candidate : MaintenanceCandidate} {time : Nat}
    (step : MaintenanceStep config mapper now s candidate time t)
    (final : candidate.finalCommand = true) (fits : t.ctl.wrapped = false) :
    time ≤ t.ctl.refreshBusyUntil := by
  have blocked := step.blocked
  obtain ⟨cursor, plan⟩ := step.plan
  rw [if_pos (plan.final_iff.1.trans final)] at blocked
  rw [blocked]
  cases step with
  | @mk _ address banks plan _ _ _ _ _ _ =>
      rw [maintained_final final] at fits
      have sum := (Bool.or_eq_false_iff.mp fits).2
      rw [plan.final_iff.2 final, SimTime.add_of_lt (Nat.not_le.mp (of_decide_eq_false sum))]
      exact Nat.le_add_right _ _

theorem HbmController.advanceDue_unwrapped {base : Nat}
    (fits : (c.advanceDue config base).wrapped = false) :
    c.wrapped = false ∧ base + config.refreshInterval < 2 ^ 64 := by
  have parts : (c.wrapped || decide (2 ^ 64 ≤ base + config.refreshInterval)) = false := fits
  obtain ⟨before, sum⟩ := Bool.or_eq_false_iff.mp parts
  exact ⟨before, Nat.not_le.mp (of_decide_eq_false sum)⟩

theorem Chronological.entry
    (h : s.ctl.wrapped = true ∨ exempt ∨
      BusesApart config s.ctl ∧ Chronological config now s.ctl)
    (entry : Entry config mapper now exempt s t) :
    t.ctl.wrapped = true ∨ exempt ∨ BusesApart config t.ctl ∧ Chronological config now t.ctl := by
  by_cases wraps : t.ctl.wrapped = true
  · exact .inl wraps
  by_cases excused : exempt
  · exact .inr (.inl excused)
  have kept : s.ctl.wrapped = false := by
    cases entry with
    | silent _ _ _ _ wrapped => simpa [wrapped] using wraps
    | raise due _ _ _ after =>
        rw [after] at wraps
        have same : (s.ctl.raise config due).wrapped = s.ctl.wrapped := by rw [raise_frame]
        simpa [ControllerState.modifyCtl, same] using wraps
    | advance base _ _ _ after =>
        rw [after] at wraps
        exact (advanceDue_unwrapped (Bool.eq_false_iff.mpr wraps)).1
    | maintain _ records =>
        exact (stampCommand_wrapped (by simpa using mt records.wrapped wraps)).1
    | demand _ records =>
        exact (stampCommand_wrapped (by simpa using mt records.wrapped wraps)).1
  -- with no wrap up to now the record was in order before the entry
  obtain ⟨apart, before⟩ := (h.resolve_left (by simp [kept])).resolve_left excused
  have apart' := (BusesApart.entry (.inr apart) entry).resolve_left wraps
  refine .inr (.inr ⟨apart', ?_⟩)
  cases entry with
  | silent record refresh _ banks _ _ =>
      refine before.frame record.recorded (fun due next => .inl ?_) fun e _ => ?_
      · exact refresh.nextRefreshDue.symm.trans next
      · rw [refresh.refreshBusyUntil]
        exact Or.imp_right (mt (Quiet.frame refresh banks))
  | raise due bank _ _ after =>
      rw [after]
      have next : (s.ctl.raise config due).nextRefreshDue = s.ctl.nextRefreshDue := by
        rw [raise_frame]
      have recorded : (s.ctl.raise config due).recorded = s.ctl.recorded := by rw [raise_frame]
      refine before.frame recorded (fun due' h => .inl (next.symm.trans h)) fun _ _ _ => .inr ?_
      intro quiet
      cases (raise_owed bank).symm.trans quiet.not_refreshOwed
  | advance base base_le first next after =>
      rw [after]
      have fits : base + config.refreshInterval < 2 ^ 64 := by
        rw [after] at wraps
        exact (advanceDue_unwrapped (Bool.eq_false_iff.mpr wraps)).2
      refine before.frame rfl (fun due moved => .inr fun e he moves => ?_) fun _ _ => id
      obtain ⟨past, within⟩ := before.data e he moves
      -- the data recorded so far were issued by the instant that moves
      have bound : e.issuedAt ≤ base := by
        cases same : s.ctl.nextRefreshDue with
        | none => exact (first same) ▸ past
        | some old => exact (next old same) ▸ within old same
      have moved' : some (SimTime.add base config.refreshInterval) = some due := moved
      rw [SimTime.add_of_lt fits] at moved'
      have sum := Option.some.inj moved'
      omega
  | @maintain candidate r step records command _ _ =>
      have latest := before.maintain apart step records command
      obtain ⟨cursor, plan⟩ := step.plan
      refine before.cons records.record latest (by rw [step.frame]) (fun moves => ?_) ?_
      · rw [command, plan.no_demand.1] at moves
        cases moves
      · cases final : candidate.finalCommand with
        | true => exact .inr (.inl (step.unwrapped final (by simpa using wraps)))
        | false => exact .inr (.inr (step.keeps_flags final))
  | @demand _ _ _ r demand records time _ _ _ refresh _ _ timely =>
      refine before.cons records.record (fun e he => ?_) refresh.nextRefreshDue (fun moves => ?_)
        (.inl (Nat.le_of_eq time))
      · rw [time]
        exact before.demand demand e he
      · rw [time]
        exact ⟨Nat.le_refl _, (timely moves).resolve_left excused⟩

/-- Every channel records its commands in order. -/
theorem HbmSystem.Run.chronological {cfg : HbmConfig} (checked : cfg.Checked)
    {p : HbmSystem × Debts} (run : Run cfg p) (channel : Nat) :
    (p.1.controllers channel).wrapped = true ∨
      (p.2.escaped = true ∨ Overflowed cfg p.1) ∨
      BusesApart (cfg.channelConfig channel) (p.1.controllers channel) ∧
        Chronological (cfg.channelConfig channel) p.1.now (p.1.controllers channel) := by
  refine run.entries checked channel
    (P := fun now exempt s => s.ctl.wrapped = true ∨ exempt ∨
      BusesApart (cfg.channelConfig channel) s.ctl ∧
        Chronological (cfg.channelConfig channel) now s.ctl) ?_ ?_ fun _ h entry =>
          Chronological.entry h entry
  · exact .inr (.inr ⟨⟨.nil, nofun⟩, .nil, nofun, nofun⟩)
  · intro now now' exempt exempt' s le excuses h
    refine h.imp_right (Or.imp excuses fun ⟨apart, before⟩ => ⟨apart, before.sorted, ?_, ?_⟩)
    · exact fun e he moves => (before.data e he moves).imp_left (Nat.le_trans · le)
    · exact fun e he => (before.passed e he).imp_left (Nat.le_trans · le)

end

end HbmSim
