import HbmSim.Controller.Yielding
import HbmSim.System.Actions
import HbmSim.System.Replay

/-!
When `drive` issues the command it could issue.

A per-bank refresh or RFM holds back the whole channel and not only its bank, because the
busy check of `drive` stands before the choice of a command. A second `drive` at the same
instant finds what the first one found, unless the length of the write queue is at both
watermarks. An FR-FCFS controller leaves a ready command waiting only for a precharge that
has been exchanged for a data command that is not ready.
-/

namespace HbmSim

open HbmSim.Lib HbmSystem HbmController

variable {cfg : HbmConfig} {s : HbmSystem} {escapes : HbmError → Prop} {channel now : Nat}

/-! ### Maintenance of one bank -/

/-- The command is a per-bank refresh or RFM that `now` falls into. -/
structure Underway (config : HbmControllerConfig) (c : HbmController) (now : Nat)
    (m : RecordedCommand) : Prop where
  recorded : m ∈ c.recorded
  perBank : m.command = .refreshPerBank ∨ m.command = .rfmPerBank
  started : m.issuedAt ≤ now
  lasts : now < m.issuedAt + maintenanceDuration m.command config.timing

/-- While one bank of a standard's device is maintained and no other maintenance is pending,
an access to another bank would be selected and its command could issue. -/
structure ReadyElsewhere (cfg : HbmConfig) (s : HbmSystem) (channel now : Nat)
    (m : RecordedCommand) (candidate : Candidate) (a : HbmAccess) : Prop where
  standard : cfg.device.standard.isSome = true
  underway : Underway (cfg.channelConfig channel) (s.controllers channel) now m
  quiet : (s.controllers channel).Quiet
  selects : ∃ t, Selects (cfg.channelConfig channel) cfg.mapper (s.side channel) now t candidate a
  elsewhere : a.address.flatBank ≠ m.address.flatBank
  ready : candidate.readyAt ≤ now

/-- Another bank's command issues if and only if the channel is past its refresh window. -/
theorem per_bank_maintenance (reached : Reachable cfg escapes s) {m : RecordedCommand}
    {candidate : Candidate} {a : HbmAccess}
    (other : ReadyElsewhere cfg s channel now m candidate a) :
    Issues (cfg.channelConfig channel) cfg.mapper (s.side channel) now candidate a ↔
      (s.controllers channel).refreshBusyUntil ≤ now := by
  obtain ⟨valid, -, d, point, -⟩ := reached.point
  obtain ⟨t, selects⟩ := other.selects
  exact issues_iff_idle (point.run.sound valid.checked channel) other.quiet selects other.ready

/-- Some command is ready elsewhere, as a computation. -/
def readyElsewhere (cfg : HbmConfig) (s : HbmSystem) (channel now : Nat) : Bool :=
  let c := s.controllers channel
  let underway := c.recorded.filter fun m =>
    decide (m.command = .refreshPerBank ∨ m.command = .rfmPerBank) && decide (m.issuedAt ≤ now) &&
      decide (now < m.issuedAt + maintenanceDuration m.command cfg.device.timing)
  match select (cfg.channelConfig channel) cfg.mapper now (s.side channel) with
  | .ok (some candidate) t =>
      cfg.device.standard.isSome && decide c.Quiet && decide (candidate.readyAt ≤ now) &&
        ((t.ctl.queue candidate.isWrite)[candidate.index]?).any fun a =>
          underway.any fun m => decide (a.address.flatBank ≠ m.address.flatBank)
  | _ => false

theorem ReadyElsewhere.of_check (check : readyElsewhere cfg s channel now = true) :
    ∃ m candidate a, ReadyElsewhere cfg s channel now m candidate a := by
  unfold readyElsewhere at check
  dsimp only at check
  split at check
  · rename_i candidate t run
    simp only [Bool.and_eq_true, decide_eq_true_eq, Option.any_eq_true, List.any_eq_true,
      List.mem_filter] at check
    obtain ⟨⟨⟨standard, quiet⟩, ready⟩, a, access, m, ⟨recorded, ⟨perBank, started⟩, lasts⟩,
      elsewhere⟩ := check
    exact ⟨m, candidate, a, standard, ⟨recorded, perBank, started, lasts⟩, quiet,
      ⟨t, run, access⟩, elsewhere, ready⟩
  · cases check

/-- An HBM2 device that refreshes one bank every microsecond. -/
def HbmConfig.rotating : HbmConfig :=
  { hbm2_2000 with controller := { refreshInterval := 1000000, refreshPolicy := .perBank } }

/-- A read hit arrives in the second bank just as the refresh of the first one has issued. -/
theorem exists_hit_during_refresh :
    ∃ s, Reachable .rotating NoEscape s ∧ readyElsewhere .rotating s 0 s.now = true ∧
      s.now < (s.controllers 0).refreshBusyUntil := by
  obtain ⟨s, reached, final⟩ := exists_reachable .rotating NoEscape
    (submit (.read 1 256 32) :: dispatches 6 ++ [submit (.read 2 256 32)])
    (fun s => readyElsewhere .rotating s 0 s.now &&
      decide (s.now < (s.controllers 0).refreshBusyUntil))
    (by decide) (by decide) (by decide +kernel)
  obtain ⟨check, busy⟩ := Bool.and_eq_true _ _ |>.mp final
  exact ⟨s, reached, check, of_decide_eq_true busy⟩

/-- The read hit waits. -/
theorem per_bank_maintenance_hit :
    ∃ s m candidate a, ReadyElsewhere .rotating s 0 s.now m candidate a ∧
      ¬ Issues (HbmConfig.rotating.channelConfig 0) HbmConfig.rotating.mapper (s.side 0) s.now
        candidate a := by
  obtain ⟨s, reached, check, busy⟩ := exists_hit_during_refresh
  obtain ⟨m, candidate, a, other⟩ := ReadyElsewhere.of_check check
  refine ⟨s, m, candidate, a, other, fun issues => ?_⟩
  have idle := (per_bank_maintenance reached other).mp issues
  exact absurd busy (Nat.not_lt.mpr idle)

/-- A per-bank refresh does not only delay its bank. -/
theorem per_bank_maintenance_blocks :
    ¬ ∀ (cfg : HbmConfig) (s : HbmSystem) (channel now : Nat) (m : RecordedCommand)
      (candidate : Candidate) (a : HbmAccess), Reachable cfg NoEscape s →
        ReadyElsewhere cfg s channel now m candidate a →
          Issues (cfg.channelConfig channel) cfg.mapper (s.side channel) now candidate a := by
  intro claim
  obtain ⟨s, reached, check, busy⟩ := exists_hit_during_refresh
  obtain ⟨m, candidate, a, other⟩ := ReadyElsewhere.of_check check
  have issues := claim _ s 0 s.now m candidate a reached other
  obtain ⟨valid, -, d, point, -⟩ := reached.point
  obtain ⟨t, selects⟩ := other.selects
  have idle := (issues_iff_idle (point.run.sound valid.checked 0) other.quiet selects
    other.ready).mp issues
  exact absurd busy (Nat.not_lt.mpr idle)

/-! ### Spurious wakeups -/

/-- A `drive` at `now` that has left the state `t` and returned the step can be repeated: it
returns the same step and changes the write-drain mode at most. -/
def Repeatable (config : HbmControllerConfig) (mapper : HbmAddressMapper) (now : Nat)
    (step : HbmControllerStep) (t : ControllerState) : Prop :=
  ∃ u, drive config mapper now t = .ok step u ∧
    u.ctl = { t.ctl with drainingWrites := u.ctl.drainingWrites } ∧ u.stats = t.stats

/-- If `drive` comes to choose a demand command, the write-drain mode does not flip. -/
def Steady (config : HbmControllerConfig) (c : HbmController) (now : Nat) : Prop :=
  c.refreshBusyUntil ≤ now → c.Quiet → ¬ Flips config c

theorem drained_ctl (config : HbmControllerConfig) (t : ControllerState) :
    (drained config t).ctl =
      { t.ctl with drainingWrites := (drained config t).ctl.drainingWrites } := by
  unfold drained ControllerState.modifyCtl updateWriteDrain
  dsimp only
  split
  · rfl
  · split <;> rfl

/-- In a steady state a `drive` that issues no command can be repeated at the same instant. -/
theorem spurious_wakeup (reached : Reachable cfg escapes s)
    (steady : Steady (cfg.channelConfig channel) (s.controllers channel) now)
    {step : HbmControllerStep} {t : ControllerState}
    (run : drive (cfg.channelConfig channel) cfg.mapper now (s.side channel) = .ok step t)
    (silent : t.ctl.recorded = (s.controllers channel).recorded) :
    Repeatable (cfg.channelConfig channel) cfg.mapper now step t := by
  obtain ⟨valid, -, d, point, -⟩ := reached.point
  have sound := point.run.sound valid.checked channel
  rcases drive_again (s := s.side channel) (valid.checked.wiring channel) sound steady run silent with
    again | again
  · exact ⟨t, again, rfl, rfl⟩
  · exact ⟨drained _ t, again, drained_ctl _ t, rfl⟩

/-- The step of a `drive` that issues no command, if there is one. -/
def silentStep (config : HbmControllerConfig) (mapper : HbmAddressMapper) (now : Nat)
    (s : ControllerState) : Option (HbmControllerStep × ControllerState) :=
  match drive config mapper now s with
  | .ok step t => if t.ctl.recorded = s.ctl.recorded then some (step, t) else none
  | .error _ _ => none

theorem silentStep_some {config : HbmControllerConfig} {mapper : HbmAddressMapper}
    {s t : ControllerState} {step : HbmControllerStep}
    (h : silentStep config mapper now s = some (step, t)) :
    drive config mapper now s = .ok step t ∧ t.ctl.recorded = s.ctl.recorded := by
  unfold silentStep at h
  split at h
  · rename_i run
    split at h
    · rename_i silent
      cases h
      exact ⟨run, silent⟩
    · cases h
  · cases h

/-- An HBM2 device that drains a single write. -/
def HbmConfig.oneWrite (low : Nat) : HbmConfig :=
  { hbm2_2000 with controller := { writeDrainHighWatermark := 1, writeDrainLowWatermark := low } }

/-- A read arrives while the row of a write is being opened. -/
def writeThenRead : List Action :=
  submit (.write 1 0 32) :: dispatches 1 ++ [submit (.read 2 256 32)]

/-- With a lower low watermark the write waits for its row again. -/
theorem spurious_wakeup_write :
    ∃ (s : HbmSystem) (step : HbmControllerStep) (t : ControllerState),
      silentStep ((HbmConfig.oneWrite 0).channelConfig 0) (HbmConfig.oneWrite 0).mapper
        s.now (s.side 0) = some (step, t) ∧
      Repeatable ((HbmConfig.oneWrite 0).channelConfig 0) (HbmConfig.oneWrite 0).mapper s.now
        step t := by
  obtain ⟨s, reached, final⟩ := exists_reachable (.oneWrite 0) NoEscape writeThenRead
    (fun s => decide (¬ Flips ((HbmConfig.oneWrite 0).channelConfig 0) (s.controllers 0)) &&
      (silentStep ((HbmConfig.oneWrite 0).channelConfig 0) (HbmConfig.oneWrite 0).mapper s.now
        (s.side 0)).isSome)
    (by decide) (by decide) (by decide +kernel)
  obtain ⟨steady, found⟩ := Bool.and_eq_true _ _ |>.mp final
  obtain ⟨⟨step, t⟩, found⟩ := Option.isSome_iff_exists.mp found
  obtain ⟨run, silent⟩ := silentStep_some found
  exact ⟨s, step, t, found, spurious_wakeup reached (fun _ _ => of_decide_eq_true steady) run
    silent⟩

/-- A second silent `drive` at the same instant returns another step. -/
def secondDiffers (config : HbmControllerConfig) (mapper : HbmAddressMapper) (now : Nat)
    (s : ControllerState) : Bool :=
  (silentStep config mapper now s).any fun first =>
    (silentStep config mapper now first.2).any fun second => decide (first.1 ≠ second.1)

/-- With equal watermarks the second `drive` waits for the read instead. -/
theorem spurious_wakeup_flips :
    ¬ ∀ (cfg : HbmConfig) (s : HbmSystem) (channel now : Nat) (step : HbmControllerStep)
      (t : ControllerState), Reachable cfg NoEscape s →
        drive (cfg.channelConfig channel) cfg.mapper now (s.side channel) = .ok step t →
          t.ctl.recorded = (s.controllers channel).recorded →
            Repeatable (cfg.channelConfig channel) cfg.mapper now step t := by
  intro claim
  obtain ⟨s, reached, final⟩ := exists_reachable (.oneWrite 1) NoEscape writeThenRead
    (fun s => secondDiffers ((HbmConfig.oneWrite 1).channelConfig 0) (HbmConfig.oneWrite 1).mapper
      s.now (s.side 0))
    (by decide) (by decide) (by decide +kernel)
  obtain ⟨⟨step, t⟩, first, final⟩ := Option.any_eq_true _ _ |>.mp final
  obtain ⟨⟨step', t'⟩, second, differ⟩ := Option.any_eq_true _ _ |>.mp final
  obtain ⟨run, silent⟩ := silentStep_some first
  obtain ⟨u, again, -⟩ := claim _ s 0 s.now step t reached run silent
  have same := (silentStep_some second).1
  rw [again] at same
  cases same
  exact of_decide_eq_true differ rfl

/-! ### Work conservation -/

/-- Without maintenance, an FR-FCFS controller finds an access in its active queue that can
have a command other than a precharge at `now`. -/
structure WorkReady (cfg : HbmConfig) (s : HbmSystem) (channel now : Nat) : Prop where
  scheduler : cfg.controller.scheduler ≠ .fifo
  idle : (s.controllers channel).refreshBusyUntil ≤ now
  quiet : (s.controllers channel).Quiet
  work : ∃ a ∈ activeQueue (cfg.channelConfig channel) cfg.mapper now (s.side channel),
    Ready (cfg.channelConfig channel) cfg.mapper now
      (considered (cfg.channelConfig channel) cfg.mapper now (s.side channel)).ctl a

/-- Then it issues a command at `now` if and only if the access the scheduler picks has no
precharge planned that is held back. -/
theorem work_conserving (ready : WorkReady cfg s channel now) :
    IssuesAny (cfg.channelConfig channel) cfg.mapper now (s.side channel) ↔
      ∃ a, Picks (cfg.channelConfig channel) cfg.mapper now (s.side channel) a ∧
        ¬ HeldBack (cfg.channelConfig channel) cfg.mapper
          (considered (cfg.channelConfig channel) cfg.mapper now (s.side channel)).ctl now a :=
  issues_iff_not_heldBack ready.scheduler ready.idle ready.quiet ready.work

/-- Whether an access is ready, as a computation. -/
def isReady (config : HbmControllerConfig) (mapper : HbmAddressMapper) (now : Nat)
    (c : HbmController) (a : HbmAccess) : Bool :=
  match plannedCommand config c a with
  | .ok k =>
      decide (k ≠ .preBank) &&
        match earliestCommand config mapper c k a.address now with
        | .ok time => decide (time ≤ now)
        | .error _ => false
  | .error _ => false

theorem ready_of_isReady {config : HbmControllerConfig} {mapper : HbmAddressMapper}
    {c : HbmController} {a : HbmAccess} (h : isReady config mapper now c a = true) :
    Ready config mapper now c a := by
  unfold isReady at h
  split at h
  · rename_i k planned
    split at h
    · rename_i time run
      obtain ⟨other, due⟩ := Bool.and_eq_true _ _ |>.mp h
      exact ⟨k, time, planned, of_decide_eq_true other, run, of_decide_eq_true due⟩
    · simp at h
  · cases h

/-- Work is ready, as a computation. -/
def workReady (cfg : HbmConfig) (s : HbmSystem) (channel now : Nat) : Bool :=
  decide (cfg.controller.scheduler ≠ .fifo) &&
    decide ((s.controllers channel).refreshBusyUntil ≤ now) &&
      decide (s.controllers channel).Quiet &&
        (activeQueue (cfg.channelConfig channel) cfg.mapper now (s.side channel)).any
          (isReady (cfg.channelConfig channel) cfg.mapper now
            (considered (cfg.channelConfig channel) cfg.mapper now (s.side channel)).ctl)

theorem WorkReady.of_check (h : workReady cfg s channel now = true) :
    WorkReady cfg s channel now := by
  unfold workReady at h
  simp only [Bool.and_eq_true, decide_eq_true_eq, List.any_eq_true] at h
  obtain ⟨⟨⟨scheduler, idle⟩, quiet⟩, a, mem, ready⟩ := h
  exact ⟨scheduler, idle, quiet, a, mem, ready_of_isReady ready⟩

/-- Whether `drive` issues a command, as a computation. -/
def issuesAny (config : HbmControllerConfig) (mapper : HbmAddressMapper) (now : Nat)
    (s : ControllerState) : Bool :=
  match (exitState (drive config mapper now s)).ctl.recorded with
  | r :: earlier => decide (r.issuedAt = now ∧ earlier = s.ctl.recorded)
  | [] => false

theorem issuesAny_of_check {config : HbmControllerConfig} {mapper : HbmAddressMapper}
    {s : ControllerState} (h : issuesAny config mapper now s = true) :
    IssuesAny config mapper now s := by
  unfold issuesAny at h
  split at h
  · rename_i r earlier recorded
    obtain ⟨at_, rfl⟩ := of_decide_eq_true h
    exact ⟨r, at_, recorded⟩
  · cases h

/-- While a read waits for its row to open, the bank of another one is activated. -/
theorem work_conserving_activates :
    ∃ s : HbmSystem, Reachable .hbm2_2000 NoEscape s ∧ WorkReady .hbm2_2000 s 0 s.now ∧
      IssuesAny (HbmConfig.hbm2_2000.channelConfig 0) HbmConfig.hbm2_2000.mapper s.now
        (s.side 0) ∧
      ∃ a, Picks (HbmConfig.hbm2_2000.channelConfig 0) HbmConfig.hbm2_2000.mapper s.now
          (s.side 0) a ∧
        ¬ HeldBack (HbmConfig.hbm2_2000.channelConfig 0) HbmConfig.hbm2_2000.mapper
          (considered (HbmConfig.hbm2_2000.channelConfig 0) HbmConfig.hbm2_2000.mapper s.now
            (s.side 0)).ctl s.now a := by
  obtain ⟨s, reached, final⟩ := exists_reachable .hbm2_2000 NoEscape
    (submit (.read 1 0 32) :: dispatches 2 ++ [.advance 4000, submit (.read 2 256 32)])
    (fun s => workReady .hbm2_2000 s 0 s.now &&
      issuesAny (HbmConfig.hbm2_2000.channelConfig 0) HbmConfig.hbm2_2000.mapper s.now (s.side 0))
    (by decide) (by decide) (by decide +kernel)
  obtain ⟨ready, issues⟩ := Bool.and_eq_true _ _ |>.mp final
  have ready := WorkReady.of_check ready
  have issues := issuesAny_of_check issues
  obtain ⟨a, picks, held⟩ := (work_conserving ready).mp issues
  exact ⟨s, reached, ready, issues, a, picks, held⟩

/-- After a read of the first row, a read of another row of its bank, a write of the first row
and a read of another bank arrive. -/
def rowsInConflict : List Action :=
  submit (.read 1 0 32) :: dispatches 8 ++ [.advance 40000, submit (.read 2 0 32)] ++
    dispatches 2 ++ [.advance 46000, submit (.read 3 65536 32), submit (.write 4 0 32),
      submit (.read 5 256 32)]

/-- The activation of the other bank waits for the write, in whose favour the precharge has
been given up. -/
theorem work_held_back :
    ¬ ∀ (cfg : HbmConfig) (s : HbmSystem) (channel now : Nat), Reachable cfg NoEscape s →
      WorkReady cfg s channel now →
        IssuesAny (cfg.channelConfig channel) cfg.mapper now (s.side channel) := by
  intro claim
  obtain ⟨s, reached, final⟩ := exists_reachable .hbm2_2000 NoEscape rowsInConflict
    (fun s => workReady .hbm2_2000 s 0 s.now &&
      (silentStep (HbmConfig.hbm2_2000.channelConfig 0) HbmConfig.hbm2_2000.mapper s.now
        (s.side 0)).isSome)
    (by decide) (by decide) (by decide +kernel)
  obtain ⟨ready, found⟩ := Bool.and_eq_true _ _ |>.mp final
  obtain ⟨⟨step, t⟩, found⟩ := Option.isSome_iff_exists.mp found
  obtain ⟨run, silent⟩ := silentStep_some found
  obtain ⟨r, -, issued⟩ := claim _ s 0 s.now reached (.of_check ready)
  rw [run] at issued
  exact issued.not_silent silent

end HbmSim
