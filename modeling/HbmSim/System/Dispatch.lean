import HbmSim.System.Completion

/-!
Dispatch as moves.

An event of the system is one turn of the run and a sequence of moves. Between the
actions of a run nothing is owed, unless an exception has escaped; an exception that
escapes is one a correct system may throw.
-/

namespace HbmSim

open HbmSim.Lib HbmSystem Relation

/-! ### What a step of a controller keeps -/

namespace HbmController

variable {config : HbmControllerConfig} {mapper : HbmAddressMapper} {s t : ControllerState}
  {now : Nat}

/-- A quiet controller has no maintenance to issue. -/
theorem MaintenancePlan.not_quiet {c : HbmController} {candidate : MaintenanceCandidate}
    (plan : MaintenancePlan config mapper c now candidate) : ¬ c.Quiet := by
  rintro ⟨flag, banks⟩
  rcases plan.purpose with ⟨pending, -⟩ | ⟨-, bank, hbank, requested, -⟩
  · exact nomatch flag.symm.trans pending
  · obtain ⟨rfm, refresh⟩ := banks bank (List.mem_of_getElem? hbank)
    rcases requestedMaintenance_cases requested with ⟨-, pending⟩ | ⟨-, -, pending⟩
    · exact nomatch rfm.symm.trans pending
    · exact nomatch refresh.symm.trans pending

theorem MaintenanceStep.not_idle {candidate : MaintenanceCandidate} {time : Nat}
    (step : MaintenanceStep config mapper now s candidate time t) : ¬ s.ctl.Idle := by
  obtain ⟨cursor, plan⟩ := step.plan
  exact fun idle => plan.not_quiet idle.1

/-- An idle controller has nothing queued. -/
theorem Idle.queued {c : HbmController} (idle : c.Idle) : c.queued = [] := by
  unfold HbmController.queued
  rw [idle.2, idle.2]
  rfl

theorem RowStep.not_idle (step : RowStep config mapper now s t) : ¬ s.ctl.Idle := by
  intro idle
  cases step with
  | activate demand => exact demand.queued_ne_nil idle.queued
  | precharge demand => exact demand.queued_ne_nil idle.queued

theorem MaintenanceStep.cadence {candidate : MaintenanceCandidate} {time : Nat}
    (step : MaintenanceStep config mapper now s candidate time t) : SameCadence s.ctl t.ctl := by
  have banks := step.banks.1
  have wrapped := step.wrapped
  rw [step.frame] at *
  exact ⟨rfl, rfl, rfl, rfl, banks, wrapped⟩

theorem RowStep.cadence (sound : Sound config mapper s.ctl) (step : RowStep config mapper now s t) :
    SameCadence s.ctl t.ctl := by
  have banks := (sound.step (.row step)).banks.trans sound.banks.symm
  have wrapped := step.wrapped
  rw [step.frame] at *
  exact ⟨rfl, rfl, rfl, rfl, banks, wrapped⟩

/-- A transfer ends no earlier than its command issues, unless a sum has left 64
bits. -/
theorem DataStep.completion {physical : PhysicalAccess}
    (step : DataStep config mapper now s physical t) :
    t.ctl.wrapped = true ∨ now ≤ physical.completionTime := by
  cases step with
  | @mk w index _ busReady duration a k _ banks slot _ _ _ _ _ _ hslot =>
      rw [transferredState_ctl]
      subst hslot
      by_cases cas : 2 ^ 64 ≤ now + casLatency config w
      · left
        simp only [stampCommand, noteSum, cas, decide_true, Bool.or_true, Bool.true_or]
      by_cases sum : 2 ^ 64 ≤ (max (now + casLatency config w) busReady) + duration
      · left
        have ready : SimTime.add now (casLatency config w) = now + casLatency config w :=
          SimTime.add_of_lt (by omega)
        simp only [stampCommand, noteSum, DataSlot.dataStart, DataSlot.dataReady, ready, sum,
          decide_true, Bool.or_true]
      right
      show now ≤ SimTime.add (max (SimTime.add now (casLatency config w)) busReady) duration
      rw [SimTime.add_of_lt (a := now) (by omega), SimTime.add_of_lt (by omega)]
      omega

end HbmController

/-- Reports are no work. -/
theorem Retouched.idle {config : HbmControllerConfig} {s t : ControllerState}
    (touched : Retouched config s t) (idle : s.ctl.Idle) : t.ctl.Idle := by
  refine ⟨HbmController.Quiet.retouched idle.1 touched rfl, fun w => ?_⟩
  have same := touched.queue w
  rw [idle.2 w] at same
  exact List.map_eq_nil_iff.mp same

theorem Retouched.cadence {config : HbmControllerConfig} {s t : ControllerState}
    (touched : Retouched config s t) : SameCadence s.ctl t.ctl := by
  rw [touched.ctl]
  exact ⟨rfl, rfl, rfl, rfl, rfl, id⟩

section

variable {cfg : HbmConfig} {p q : HbmSystem × Debts} {s t : HbmSystem} {d : Debts}

/-! ### Driving a controller -/

/-- What a step of a controller has changed. -/
structure Stepped (cfg : HbmConfig) (channel : Nat) (step : HbmControllerStep)
    (p q : HbmSystem × Debts) : Prop where
  debts : q.2 = match step.issuedAccess with
    | none => p.2
    | some physical => { p.2 with
        issued := (channel, physical) :: p.2.issued
        loose := p.1.pendingAdmissions }
  pending : q.1.pendingAdmissions = p.1.pendingAdmissions
  idle : step.wakeAt = none → step.issuedAccess = none ∧ (q.1.controllers channel).Idle
  future : ∀ physical, step.issuedAccess = some physical →
    Overflowed cfg q.1 ∨ q.1.now ≤ physical.completionTime

theorem driveStep_obeys (checked : cfg.Checked) {channel : Nat}
    (hchannel : channel < cfg.channelCount) (run : Run cfg p) (ripe : p.2.ripe = none)
    (armed : p.2.escaped = true ∨ p.2.rearm = []) :
    Obeys cfg (driveStep cfg channel) (fun step q => Stepped cfg channel step p q) p := by
  obtain ⟨s, d⟩ := p
  have sound := run.sound checked channel
  have retouch : ∀ {u}, Retouched (cfg.channelConfig channel) (s.side channel) u →
      Move cfg (s, d) (s.update channel u, d) := fun touched =>
    .control hchannel (.retouch touched) touched.idle touched.cadence
  unfold driveStep Obeys Follows
  simp only [exits_bind, exits_get, exits_modify, exits_pure]
  rw [onController_exits hchannel]
  refine (HbmController.drive_exits (checked.wiring channel) (s := s.side channel) sound).mono
    (fun step t driven => ?_) (fun e t h => ?_)
  · cases driven with
    | blocked touched =>
        refine ⟨d, .single (retouch touched), rfl, rfl, fun h => ?_, fun _ h => ?_⟩ <;> cases h
    | maintenanceWaits touched =>
        refine ⟨d, .single (retouch touched), rfl, rfl, fun h => ?_, fun _ h => ?_⟩ <;> cases h
    | @maintained u candidate touched _ step =>
        have step' : HbmController.MaintenanceStep (cfg.channelConfig channel) cfg.mapper
            (s.update channel u).now ((s.update channel u).side channel) candidate s.now t := by
          rw [side_update]
          exact step
        have move : Move cfg (s.update channel u, d) _ :=
          .control hchannel (.maintain step') (fun idle => absurd idle step'.not_idle) step'.cadence
        rw [update_update] at move
        refine ⟨d, (ReflTransGen.single (retouch touched)).tail move, rfl, rfl, fun h => ?_,
          fun _ h => ?_⟩ <;> cases h
    | empty touched quiet none_queued =>
        refine ⟨d, .single (retouch touched), rfl, rfl, fun _ => ⟨rfl, ?_⟩, fun _ h => by cases h⟩
        show ((s.update channel t).controllers channel).Idle
        rw [update_controllers, if_pos rfl]
        exact ⟨quiet, none_queued⟩
    | waits touched =>
        refine ⟨d, .single (retouch touched), rfl, rfl, fun h => ?_, fun _ h => ?_⟩ <;> cases h
    | @row u touched step =>
        have step' : HbmController.RowStep (cfg.channelConfig channel) cfg.mapper
            (s.update channel u).now ((s.update channel u).side channel) t := by
          rw [side_update]
          exact step
        have sound' := (run.move (retouch touched)).sound checked channel
        have move : Move cfg (s.update channel u, d) _ :=
          .control hchannel (.row step') (fun idle => absurd idle step'.not_idle)
            (step'.cadence sound')
        rw [update_update] at move
        refine ⟨d, (ReflTransGen.single (retouch touched)).tail move, rfl, rfl, fun h => ?_,
          fun _ h => ?_⟩ <;> cases h
    | @data u physical touched step =>
        have step' : HbmController.DataStep (cfg.channelConfig channel) cfg.mapper
            (s.update channel u).now ((s.update channel u).side channel) physical t := by
          rw [side_update]
          exact step
        have move : Move cfg (s.update channel u, d) _ := .transfer hchannel step' armed
        rw [update_update] at move
        refine ⟨_, (ReflTransGen.single (retouch touched)).tail move, rfl, rfl,
          (fun h => by cases h), ?_⟩
        rintro _ ⟨⟩
        refine step.completion.imp_left fun wrapped => .inr ⟨channel, hchannel, ?_⟩
        show ((s.update channel t).controllers channel).wrapped = true
        rw [update_controllers, if_pos rfl]
        exact wrapped
  · rcases h with ⟨overflow, u, lost, touched, step⟩ | ⟨touched, excused⟩
    · have step' : HbmController.LostStep (cfg.channelConfig channel) cfg.mapper
          (s.update channel u).now ((s.update channel u).side channel) lost t := by
        rw [side_update]
        exact step
      refine ⟨_, .single (retouch touched), ripe, ?_⟩
      have left : Left cfg e (s.update channel u, d) ((s.update channel u).update channel t) :=
        .lost hchannel step' overflow
      rwa [update_update] at left
    · exact ⟨_, .single (retouch touched), ripe, .here
        (excusable_blamed (s := s) hchannel rfl rfl (.inl excused))⟩

/-- Nothing is owed but the wake event of one channel. -/
structure Debts.OnlyWake (channel : Nat) (d : Debts) : Prop where
  wakes : ∀ ch ∈ d.wakes, ch = channel
  rearm : d.rearm = []
  slots : d.slots = []
  issued : d.issued = []
  loose : d.loose = []
  closing : d.closing = none
  ripe : d.ripe = none
  stirring : d.stirring = none

theorem Debts.OnlyWake.settled {channel : Nat} (h : d.OnlyWake channel) :
    ({ d with wakes := d.wakes.filter (· != channel) } : Debts).Settled := by
  refine ⟨?_, h.rearm, h.slots, h.issued, h.loose, h.closing, h.ripe, h.stirring⟩
  refine List.filter_eq_nil_iff.mpr fun ch hch => ?_
  simp [h.wakes ch hch]

/-- The wake event of a channel ends a call that owes nothing else. -/
theorem wakeLast_obeys {channel : Nat} (hchannel : channel < cfg.channelCount)
    {q : HbmSystem × Debts} (wakeAt : Option Nat) {body : SystemM Unit}
    (same : body = wakeAt.elim (return ()) (scheduleControllerWake cfg channel))
    (escaped : q.2.escaped = p.2.escaped) (finishing : q.2.finishing = p.2.finishing)
    (ripe : q.2.ripe = none) (owed : q.2.escaped = true ∨ q.2.OnlyWake channel)
    (idle : wakeAt = none → (q.1.controllers channel).Idle) :
    Obeys cfg body (fun _ r => Finished p.2.finishing p r) q := by
  subst same
  cases wakeAt with
  | none =>
      refine ⟨_, .single (.awake (.inr (idle rfl))), escaped, finishing, ripe, ?_⟩
      exact escaped ▸ owed.imp_right (·.settled)
  | some at_ =>
      refine (scheduleControllerWake_obeys hchannel).mono ?_
      rintro - r - ⟨hr, -⟩
      rw [show r = (r.1, r.2) from rfl, hr]
      exact ⟨escaped, finishing, ripe, escaped ▸ owed.imp_right (·.settled)⟩

/-- Admitting accesses after a transfer leaves its completion event and the wake event. -/
theorem Pumped.onlyWake {channel : Nat} {physical : PhysicalAccess} {q r : HbmSystem × Debts}
    (pumped : Pumped q r)
    (debts : q.2 = { p.2 with
      issued := (channel, physical) :: p.2.issued
      loose := p.1.pendingAdmissions })
    (pending : q.1.pendingAdmissions = p.1.pendingAdmissions)
    (owed : p.2.escaped = true ∨ p.2.OnlyWake channel) :
    r.2.escaped = true ∨ ({ r.2 with issued := p.2.issued } : Debts).OnlyWake channel := by
  have same := pumped.sameStacks
  obtain ⟨s, d⟩ := q
  obtain rfl : d = _ := debts
  have escaped : r.2.escaped = p.2.escaped := same.escaped
  rcases owed with lost | owed
  · exact .inl (escaped.trans lost)
  rcases pumped.loose with lost | looked
  · exact .inl (escaped.trans lost)
  rcases pumped.stirring with lost | stirring
  · exact .inl (escaped.trans lost)
  rcases pumped.closing with lost | closing
  · exact .inl (escaped.trans lost)
  refine .inr ⟨fun ch hch => owed.wakes ch (pumped.wakes ch hch), ?rearm, same.slots.trans
    owed.slots, owed.issued, ?loose, closing, same.ripe.trans owed.ripe, stirring⟩
  case rearm =>
    refine List.eq_nil_iff_forall_not_mem.mpr fun ch hch => ?_
    have before : ch ∈ p.2.rearm := pumped.rearm ch hch
    rw [owed.rearm] at before
    cases before
  case loose =>
    refine List.eq_nil_iff_forall_not_mem.mpr fun i hi => ?_
    obtain ⟨mem, gone⟩ := looked i hi
    exact gone (pending ▸ mem)

/-- The completion event of a transfer is scheduled. -/
theorem accessDone_obeys {channel : Nat} (hchannel : channel < cfg.channelCount)
    {physical : PhysicalAccess} {issued : List (Nat × PhysicalAccess)} {r : HbmSystem × Debts}
    (owing : r.2.issued = (channel, physical) :: issued) (ripe : r.2.ripe = none)
    (future : Overflowed cfg r.1 ∨ r.1.now ≤ physical.completionTime) :
    Obeys cfg (scheduleEvent physical.completionTime (.accessDone channel physical))
      (fun _ u => u = (r.1.schedule physical.completionTime (.accessDone channel physical),
        { r.2 with issued := issued })) r := by
  unfold Obeys Follows
  refine (scheduleEvent_exits _ _).mono (fun _ t h => ?_) (fun e t h => ?_)
  · obtain ⟨le, rfl⟩ := h
    exact ⟨_, .single (.complete hchannel owing le), rfl⟩
  · obtain ⟨past, rfl, -⟩ := h
    refine ⟨r, .refl, ripe, .here ?_⟩
    rcases future with passed | le
    · exact .inr (.inl passed)
    · exact absurd past (Nat.not_lt.mpr le)

/-- The capacity event of the present time is scheduled. -/
theorem capacity_obeys {channel : Nat} (hchannel : channel < cfg.channelCount)
    {r : HbmSystem × Debts} :
    Obeys cfg (scheduleEvent r.1.now (.capacity channel r.1.now)) (fun _ v => v.2 = r.2) r := by
  unfold Obeys Follows
  refine (scheduleEvent_exits _ _).mono (fun _ t h => ?_) (fun e t h => ?_)
  · obtain ⟨le, rfl⟩ := h
    exact ⟨_, .single (.announce hchannel), rfl⟩
  · exact absurd h.1 (Nat.lt_irrefl _)

/-- A drive obeys the rules: a command, what it transfers, the admissions it allows, the wake. -/
theorem driveController_obeys (checked : cfg.Checked) (count : cfg.channelCount ≠ 0) {channel : Nat}
    (hchannel : channel < cfg.channelCount) (run : Run cfg p) (ripe : p.2.ripe = none)
    (owed : p.2.escaped = true ∨ p.2.OnlyWake channel) :
    Obeys cfg (driveController cfg channel) (fun _ q => Finished p.2.finishing p q) p := by
  unfold driveController
  refine Follows.bind (driveStep_obeys checked hchannel run ripe (owed.imp_right (·.rearm))) ?_
  intro step q moves stepped
  have run_q := run.moves moves
  have debts := stepped.debts
  cases issued : step.issuedAccess with
  | none =>
      rw [issued] at debts
      obtain ⟨s, d⟩ := q
      obtain rfl : d = p.2 := debts
      refine wakeLast_obeys hchannel step.wakeAt ?_ rfl rfl ripe owed
        fun none => (stepped.idle none).2
      cases step.wakeAt <;> rfl
  | some physical =>
      rw [issued] at debts
      have debts : q.2 = { p.2 with
        issued := (channel, physical) :: p.2.issued
        loose := p.1.pendingAdmissions } := debts
      have wakes : step.wakeAt ≠ none := by
        intro none
        cases issued.symm.trans (stepped.idle none).1
      refine Follows.bind (pumpAdmissions_obeys checked count run_q (debts ▸ ripe)
        (debts ▸ owed.imp_right (·.stirring)) (debts ▸ owed.imp_right (·.closing))) ?_
      rintro - r moves' pumped
      have same := pumped.sameStacks
      rw [debts] at same
      have only := pumped.onlyWake debts stepped.pending owed
      have future : Overflowed cfg r.1 ∨ r.1.now ≤ physical.completionTime := by
        rw [moves_now moves']
        exact (stepped.future physical issued).imp_left (moves_overflowed moves')
      refine Follows.bind (accessDone_obeys hchannel same.issued (same.ripe.trans ripe) future) ?_
      rintro - u - rfl
      refine Follows.get ?_
      -- with or without a capacity event, the wake event is the last one
      have last : ∀ {v : HbmSystem × Debts} {body : SystemM Unit},
          body = step.wakeAt.elim (return ()) (scheduleControllerWake cfg channel) →
          v.2 = { r.2 with issued := p.2.issued } →
          Obeys cfg body (fun _ w => Finished p.2.finishing p w) v := by
        rintro ⟨s, d⟩ body ends rfl
        exact wakeLast_obeys hchannel step.wakeAt ends same.escaped same.finishing (same.ripe.trans ripe) only
          fun none => absurd none wakes
      dsimp only
      split
      · refine Follows.get (Follows.get (Follows.bind (capacity_obeys hchannel) ?_))
        rintro - v - after
        refine last ?_ after
        cases step.wakeAt <;> rfl
      · refine last ?_ rfl
        cases step.wakeAt <;> rfl

end

end HbmSim
