import HbmSim.System.DataBuses
import HbmSim.System.Actions
import HbmSim.System.Obligations
import HbmSim.System.Replay

/-!
The buses of a channel are exclusive.

As long as no sum of times has left 64 bits, the commands on one command bus never
overlap and neither do the transfers on one data bus; a transfer waits for its CAS
latency and takes as long as its bytes need, and the busy times published are the times
the buses were held.
-/

namespace HbmSim

open HbmSim.Lib HbmSystem

/-- What a channel's record, transfers and statistics say of its buses. -/
structure ExclusiveBuses (cfg : HbmConfig) (s : HbmSystem) (channel : Nat) : Prop where
  /-- Of two commands on one bus the later one waits for the earlier to end. -/
  commands : ∀ (i j : Nat) (e r : RecordedCommand), i ≠ j →
    (s.controllers channel).recorded[i]? = some e → (s.controllers channel).recorded[j]? = some r →
      (cfg.channelConfig channel).commandBus e.command =
        (cfg.channelConfig channel).commandBus r.command → e.issuedAt ≤ r.issuedAt →
          e.issuedAt + (cfg.channelConfig channel).commandDuration e.command ≤ r.issuedAt
  transfers : ∀ (i j : Nat) (x y : DataTransfer), i ≠ j →
    (s.controllers channel).transfers[i]? = some x →
      (s.controllers channel).transfers[j]? = some y →
      x.pseudoChannel = y.pseudoChannel →
        Disjoint (Set.Ico x.dataStart x.completion) (Set.Ico y.dataStart y.completion)
  latency : ∀ x ∈ (s.controllers channel).transfers,
    x.issuedAt + (if x.isWrite = true ∧ cfg.device.timing.useExtendedHbmTiming = true then
      cfg.device.timing.tCwl else cfg.device.timing.tCl) ≤ x.dataStart
  length : ∀ x ∈ (s.controllers channel).transfers, x.completion = x.dataStart +
    (x.bytes * cfg.device.organization.pseudoChannelRate.interval) ⌈/⌉
      cfg.device.organization.pseudoChannelRate.bytes
  commandTime : (s.stats.channels channel).commandBus.busyTime =
    ((s.controllers channel).recorded.map fun r =>
      (cfg.channelConfig channel).commandDuration r.command).sum
  rowTime : (s.stats.channels channel).rowCommandBus.busyTime =
    ((recordedOn (cfg.channelConfig channel) .row (s.controllers channel).recorded).map fun r =>
      (cfg.channelConfig channel).commandDuration r.command).sum
  columnTime : (s.stats.channels channel).columnCommandBus.busyTime =
    ((recordedOn (cfg.channelConfig channel) .column (s.controllers channel).recorded).map fun r =>
      (cfg.channelConfig channel).commandDuration r.command).sum
  dataTime : (s.stats.channels channel).dataBusBusyTime =
    ((s.controllers channel).transfers.map fun x => x.completion - x.dataStart).sum

section

variable {cfg : HbmConfig} {s : HbmSystem} {channel : Nat} {escapes : HbmError → Prop}

/-- The commands on one bus all take time, or all the same. -/
theorem commandDuration_alike {k k' : HbmCommand}
    (none : (cfg.channelConfig channel).commandDuration k = 0) :
    (cfg.channelConfig channel).commandDuration k' = 0 := by
  unfold HbmControllerConfig.commandDuration at none ⊢
  cases hs : (cfg.channelConfig channel).standard with
  | none => simpa only [hs] using none
  | some standard =>
      rw [hs] at none
      cases standard <;> cases k <;> cases none

/-- In every run without overflow the buses of a channel are exclusive. -/
theorem buses_exclusive (reached : Reachable cfg escapes s) (inTime : ¬ Overflowed cfg s)
    (hchannel : channel < cfg.channelCount) : ExclusiveBuses cfg s channel := by
  obtain ⟨valid, -, d, point, -⟩ := reached.point
  have fits : ¬ (s.controllers channel).wrapped = true := fun wraps =>
    inTime (.inr ⟨channel, hchannel, wraps⟩)
  have commands := busesApart_iff.mp ((point.run.busesApart valid.checked channel).resolve_left fits)
  have counted := point.run.busesCounted valid.checked channel
  have data := (point.run.dataCounted valid.checked channel).resolve_left fits
  constructor
  case commands =>
    intro i j e r distinct he hr same order
    refine commands.finish_le distinct he hr same order fun empty => ?_
    have none : (cfg.channelConfig channel).commandDuration r.command = 0 := by omega
    rw [commandDuration_alike none]
    exact Nat.le_refl _
  case transfers =>
    intro i j x y distinct hx hy same
    exact data.buses.booked.disjoint distinct hx hy same
  case latency =>
    intro x hx
    have waits := (data.buses.timed x hx).waits
    unfold HbmController.casLatency at waits
    simp only [Bool.and_eq_true] at waits
    exact waits
  case length =>
    intro x hx
    obtain ⟨duration, time, ends⟩ := (data.buses.timed x hx).holds
    rw [ends, Nat.ceilDiv_eq_add_pred_div, (BandwidthRate.transferTime_ok time).2]
    rfl
  case commandTime => exact congrArg ResourceStats.busyTime counted.commandBus
  case rowTime => exact congrArg ResourceStats.busyTime counted.rowBus
  case columnTime => exact congrArg ResourceStats.busyTime counted.columnBus
  case dataTime => exact data.busy

/-- A write and the two parts of a read hold the data buses of HBM2. -/
theorem buses_exclusive_write : ∃ s : HbmSystem, ExclusiveBuses .hbm2_2000 s 0 ∧
    (s.controllers 0).transfers.length = 3 := by
  obtain ⟨s, reached, final⟩ := exists_reachable .hbm2_2000 NoEscape
    (submit (.write 1 0 64) :: submit (.read 2 64 64) :: dispatches 12)
    (fun s => s.inTime .hbm2_2000 && decide ((s.controllers 0).transfers.length = 3))
    (by decide) (by decide) (by decide +kernel)
  obtain ⟨inTime, final⟩ := Bool.and_eq_true _ _ |>.mp final
  exact ⟨s, buses_exclusive reached (not_overflowed_of_inTime inTime) (by decide),
    of_decide_eq_true final⟩

end

end HbmSim
