import Mathlib.Algebra.BigOperators.Ring.Finset
import HbmSim.System.Budget
import HbmSim.System.Counters
import HbmSim.System.Actions
import HbmSim.System.Replay

/-!
The command budget.

Every command is paid for: a data command pays for itself and five more, a refresh for what it
takes to close the banks and to open them again, and every bank brings one command. So the
commands issued are bounded by the data commands and the refreshes raised.
-/

namespace HbmSim

open HbmSim.Lib HbmSystem HbmController

/-- What a raised refresh may cost a channel. -/
def HbmConfig.refreshCost (cfg : HbmConfig) : Nat :=
  if cfg.controller.refreshPolicy.usesAllBankRefresh then cfg.banksPerChannel + 2 else 3

/-- No channel, and not the system, issues more commands than are paid for. -/
structure WithinBudget (cfg : HbmConfig) (s : HbmSystem) : Prop where
  channel : ∀ channel < cfg.channelCount, (s.controllers channel).recorded.length ≤
    cfg.banksPerChannel + cfg.refreshCost * (s.controllers channel).raised.length +
      6 * (s.controllers channel).recordedCount (·.isData)
  system : s.stats.issuedCommands ≤
    cfg.channelCount * cfg.banksPerChannel +
      cfg.refreshCost * ∑ channel ∈ Finset.range cfg.channelCount,
          (s.controllers channel).raised.length +
        6 * (s.stats.readCommands + s.stats.writeCommands)

section

variable {cfg : HbmConfig} {s : HbmSystem} {escapes : HbmError → Prop}

theorem HbmSystem.Run.withinBudget {d : Debts} (checked : cfg.Checked)
    (opens : cfg.device.standard = none → cfg.controller.rowPolicy.useAutoPrecharge = false)
    (early : cfg.controller.enableRfm = true → 2 ≤ cfg.controller.rfmActivationThreshold)
    (run : Run cfg (s, d)) : WithinBudget cfg s := by
  have each : ∀ channel, (s.controllers channel).recorded.length ≤ cfg.banksPerChannel +
      cfg.refreshCost * (s.controllers channel).raised.length +
        6 * (s.controllers channel).recordedCount (·.isData) := by
    intro channel
    have budget := (run.budgeted checked opens early channel).budget
    exact Nat.le_trans (Nat.le_add_right _ _) budget
  constructor
  case channel => exact fun channel _ => each channel
  case system =>
    have issued : s.stats.issuedCommands =
        ∑ channel ∈ Finset.range cfg.channelCount, (s.controllers channel).recordedCount
          fun _ => true :=
      run.counted .issued
    have data : s.stats.readCommands + s.stats.writeCommands =
        ∑ channel ∈ Finset.range cfg.channelCount,
          (s.controllers channel).recordedCount (·.isData) :=
      run.counted .data
    rw [issued, data, Finset.mul_sum, Finset.mul_sum, ← Finset.card_range cfg.channelCount,
      ← Nat.nsmul_eq_mul, ← Finset.sum_const, Finset.card_range, ← Finset.sum_add_distrib,
      ← Finset.sum_add_distrib]
    apply Finset.sum_le_sum
    intro channel _
    have all : (s.controllers channel).recordedCount (fun _ => true) =
        (s.controllers channel).recorded.length := congrFun List.countP_true _
    rw [all]
    exact each channel

/-- In every run the commands are paid for, under any refresh policy and with any RFM threshold
that lets a bank be opened more than once. -/
theorem commands_budgeted (reached : Reachable cfg escapes s)
    (opens : cfg.device.standard = none → cfg.controller.rowPolicy.useAutoPrecharge = false)
    (early : cfg.controller.enableRfm = true → 2 ≤ cfg.controller.rfmActivationThreshold) :
    WithinBudget cfg s := by
  obtain ⟨valid, -, d, point, -⟩ := reached.point
  exact point.run.withinBudget valid.checked opens early

/-- HBM3 with refresh and with RFM at every second activation. -/
def HbmConfig.secondActivation : HbmConfig :=
  { HbmConfig.hbm3_6400 with
    controller := { refreshInterval := 1000000, enableRfm := true, rfmActivationThreshold := 2 } }

/-- Three reads of one bank, an RFM after each two ACTs, and a refresh. -/
theorem commands_budgeted_managed : ∃ s : HbmSystem, WithinBudget .secondActivation s ∧
    s.stats.issuedCommands = 16 ∧ s.stats.rfmEvents = 2 ∧ (s.controllers 0).raised.length = 1 := by
  obtain ⟨s, reached, final⟩ := exists_reachable .secondActivation NoEscape
    (submit (.read 1 0 32) :: submit (.read 2 1048576 32) :: submit (.read 3 2097152 32) ::
      dispatches 30)
    (fun s => decide (s.stats.issuedCommands = 16 ∧ s.stats.rfmEvents = 2 ∧
      (s.controllers 0).raised.length = 1))
    (by decide) (by decide) (by decide +kernel)
  exact ⟨s, commands_budgeted reached (by intro h; cases h) fun _ => Nat.le_refl 2,
    of_decide_eq_true final⟩

end

end HbmSim
