import HbmSim.Lib.Sums
import HbmSim.System.Remaining

/-!
What a channel without maintenance spends.

A precharge closes a row that an ACT has opened. An ACT opens a row for a queued access, and
the row stays open until a data command has used it. So there are no more precharges than ACTs,
and no more ACTs than data commands and open rows that are waited for.
-/

namespace HbmSim

open HbmSim.Lib HbmSystem

/-- No maintenance is pending, under way or due. -/
structure HbmController.Unmaintained (c : HbmController) : Prop where
  quiet : c.Quiet
  idle : c.refreshBusyUntil = 0
  never : c.nextRefreshDue = none

/-- No refresh, no RFM. -/
structure HbmConfig.Unmaintained (cfg : HbmConfig) : Prop where
  refresh : cfg.controller.refreshInterval = 0
  rfm : cfg.controller.enableRfm = false

def HbmCommand.isPrecharge (k : HbmCommand) : Bool := k == .preBank || k == .preAll

namespace HbmController

variable (config : HbmControllerConfig) {mapper : HbmAddressMapper}

/-- How many commands of a kind the channel has recorded. -/
def recordedCount (c : HbmController) (kind : HbmCommand → Bool) : Nat :=
  c.recorded.countP fun r => kind r.command

def isOpen (c : HbmController) (bank : Nat) : Nat := (c.openRow bank).isSome.toNat

/-- The row of the bank is open and waited for. -/
def isAwaited (c : HbmController) (bank : Nat) : Nat :=
  match c.openRow bank with
  | none => 0
  | some row => if Wanted config c bank row then 1 else 0

/-- The commands of a channel that is not maintained. -/
structure Economical (c : HbmController) : Prop where
  unmaintained : c.Unmaintained
  kinds : c.recorded.length = c.recordedCount (· == .act) + c.recordedCount (·.isPrecharge) +
    c.recordedCount (·.isData)
  precharges : c.recordedCount (·.isPrecharge) + ∑ bank ∈ Finset.range c.banks.length,
    isOpen c bank ≤
    c.recordedCount (· == .act)
  acts : c.recordedCount (· == .act) ≤ c.recordedCount (·.isData) +
    ∑ bank ∈ Finset.range c.banks.length, isAwaited config c bank

variable {config} {s t : ControllerState} {c c' : HbmController} {now : Nat}

theorem recordedCount_cons {r : RecordedCommand} (record : c'.recorded = r :: c.recorded)
    (kind : HbmCommand → Bool) :
    c'.recordedCount kind = c.recordedCount kind + (kind r.command).toNat := by
  unfold recordedCount
  rw [record, List.countP_cons]
  cases kind r.command <;> rfl

theorem isAwaited_mono {bank : Nat} (row : c'.openRow bank = c.openRow bank)
    (wanted : ∀ row, Wanted config c bank row → Wanted config c' bank row) :
    isAwaited config c bank ≤ isAwaited config c' bank := by
  unfold isAwaited
  rw [row]
  cases c.openRow bank with
  | none => exact Nat.le_refl 0
  | some row =>
      by_cases waits : Wanted config c bank row
      · simp only [if_pos waits, if_pos (wanted row waits), Nat.le_refl]
      · simp only [if_neg waits, Nat.zero_le]

/-- What is spent does not change with the marks, and grows with nothing that is admitted. -/
theorem Economical.more (h : Economical config c) (unmaintained : c'.Unmaintained)
    (recorded : c'.recorded = c.recorded) (banks : c'.banks = c.banks)
    (wanted : ∀ bank row, Wanted config c bank row → Wanted config c' bank row) :
    Economical config c' := by
  have counts : ∀ kind, c'.recordedCount kind = c.recordedCount kind := by
    intro kind
    unfold recordedCount
    rw [recorded]
  have rows : ∀ bank, c'.openRow bank = c.openRow bank := by
    intro bank
    unfold openRow
    rw [banks]
  have opened : ∀ bank, isOpen c' bank = isOpen c bank := by
    intro bank
    unfold isOpen
    rw [rows]
  have awaited := Finset.sum_le_sum fun bank (_ : bank ∈ Finset.range c.banks.length) =>
    isAwaited_mono (rows bank) (wanted bank)
  have acts := h.acts
  constructor
  case unmaintained => exact unmaintained
  case kinds =>
    rw [recorded, counts, counts, counts]
    exact h.kinds
  case precharges =>
    simp only [counts, banks, opened]
    exact h.precharges
  case acts =>
    rw [counts, counts, banks]
    omega

theorem Records.recorded_cons {r : RecordedCommand} (records : Records config mapper s t r) :
    t.ctl.recorded = r :: s.ctl.recorded := records.record.recorded

/-- The sums over the banks after a command that acts on one of them. -/
theorem Economical.replace {r : RecordedCommand} (records : Records config mapper s t r)
    (one : r.command.isAllBank = false)
    (others : ∀ bank row, bank ≠ r.bank → Wanted config s.ctl bank row →
      Wanted config t.ctl bank row) :
    ∑ bank ∈ Finset.range t.ctl.banks.length, isOpen t.ctl bank + isOpen s.ctl r.bank =
        ∑ bank ∈ Finset.range s.ctl.banks.length, isOpen s.ctl bank + isOpen t.ctl r.bank ∧
      ∑ bank ∈ Finset.range s.ctl.banks.length, isAwaited config s.ctl bank +
          isAwaited config t.ctl r.bank ≤
        ∑ bank ∈ Finset.range t.ctl.banks.length, isAwaited config t.ctl bank +
          isAwaited config s.ctl r.bank := by
  have kept : ∀ bank < s.ctl.banks.length, bank ≠ r.bank →
    t.ctl.openRow bank = s.ctl.openRow bank := by
    intro bank hbank apart
    rw [Records.openRow records one hbank, if_neg apart]
  rw [records.banks]
  constructor
  · apply sum_range_replace records.bank
    intro bank hbank apart
    unfold isOpen
    rw [kept bank hbank apart]
  · apply sum_range_replace_le records.bank
    intro bank hbank apart
    exact isAwaited_mono (kept bank hbank apart) fun row => others bank row apart

/-- A precharge follows its ACT, and an ACT opens a row that is waited for. -/
theorem Economical.row (h : Economical config s.ctl) (sound : Sound config mapper s.ctl)
    (settled : config.standard = none → ∀ b ∈ s.ctl.banks, b.prechargePending = false)
    (step : RowStep config mapper now s t) (unmaintained : t.ctl.Unmaintained) :
    Economical config t.ctl := by
  have queued := (ControllerStep.row step).queued
  obtain ⟨r, records, one, turns⟩ := step.turns sound settled
  have counts := recordedCount_cons records.recorded_cons
  obtain ⟨opened, awaited⟩ := Economical.replace records one fun _ _ _ => Wanted.congr queued
  have length : t.ctl.recorded.length = s.ctl.recorded.length + 1 := by
    rw [records.recorded_cons, List.length_cons]
  have kinds := h.kinds
  have precharges := h.precharges
  have acts := h.acts
  generalize r.command = k at turns counts
  cases turns with
  | closes before unwanted after =>
      have act : t.ctl.recordedCount (· == .act) = s.ctl.recordedCount (· == .act) := counts _
      have pre : t.ctl.recordedCount (·.isPrecharge) = s.ctl.recordedCount (·.isPrecharge) + 1 :=
        counts _
      have data : t.ctl.recordedCount (·.isData) = s.ctl.recordedCount (·.isData) := counts _
      have closed : isOpen s.ctl r.bank = 1 ∧ isOpen t.ctl r.bank = 0 := by
        unfold isOpen
        rw [before, after]
        exact ⟨rfl, rfl⟩
      have ignored : isAwaited config s.ctl r.bank = 0 := by
        unfold isAwaited
        rw [before]
        exact if_neg unwanted
      constructor
      case unmaintained => exact unmaintained
      all_goals omega
  | opens before after wanted =>
      have act : t.ctl.recordedCount (· == .act) = s.ctl.recordedCount (· == .act) + 1 := counts _
      have pre : t.ctl.recordedCount (·.isPrecharge) = s.ctl.recordedCount (·.isPrecharge) :=
        counts _
      have data : t.ctl.recordedCount (·.isData) = s.ctl.recordedCount (·.isData) := counts _
      have fresh : isOpen s.ctl r.bank = 0 ∧ isOpen t.ctl r.bank = 1 := by
        unfold isOpen
        rw [before, after]
        exact ⟨rfl, rfl⟩
      have waits : isAwaited config s.ctl r.bank = 0 ∧ isAwaited config t.ctl r.bank = 1 := by
        unfold isAwaited
        rw [before, after]
        exact ⟨rfl, if_pos wanted⟩
      constructor
      case unmaintained => exact unmaintained
      all_goals omega

/-- A data command uses a row that an ACT has opened. -/
theorem Economical.data (h : Economical config s.ctl) (sound : Sound config mapper s.ctl)
    {physical : PhysicalAccess} (step : DataStep config mapper now s physical t)
    (unmaintained : t.ctl.Unmaintained) : Economical config t.ctl := by
  obtain ⟨r, row, records, one, isData, before, others⟩ := step.uses sound
  have counts := recordedCount_cons records.recorded_cons
  obtain ⟨opened, awaited⟩ := Economical.replace records one others
  have length : t.ctl.recorded.length = s.ctl.recorded.length + 1 := by
    rw [records.recorded_cons, List.length_cons]
  have kinds := h.kinds
  have precharges := h.precharges
  have acts := h.acts
  have apart : (r.command == .act) = false ∧ r.command.isPrecharge = false := by
    generalize r.command = k at isData
    cases k <;> first | exact ⟨rfl, rfl⟩ | cases isData
  have act := counts (· == .act)
  have pre := counts (·.isPrecharge)
  have data := counts (·.isData)
  rw [apart.1] at act
  rw [apart.2] at pre
  rw [isData] at data
  simp only [Bool.toNat_false, Bool.toNat_true, Nat.add_zero] at act pre data
  have used : isOpen s.ctl r.bank = 1 ∧ isOpen t.ctl r.bank ≤ 1 := by
    unfold isOpen
    rw [before]
    exact ⟨rfl, Bool.toNat_le _⟩
  have waited : isAwaited config s.ctl r.bank ≤ 1 := by
    unfold isAwaited
    rw [before]
    dsimp only
    split <;> omega
  constructor
  case unmaintained => exact unmaintained
  all_goals omega

/-- Without queued accesses no ACT is without its data command. -/
theorem Economical.paid (h : Economical config c) (queued : c.queued = []) :
    c.recordedCount (· == .act) ≤ c.recordedCount (·.isData) := by
  have none : ∑ bank ∈ Finset.range c.banks.length, isAwaited config c bank = 0 := by
    apply Finset.sum_eq_zero
    intro bank _
    unfold isAwaited
    split
    · rfl
    · apply if_neg
      rintro ⟨l, hl, -⟩
      rw [queued] at hl
      cases hl
  have acts := h.acts
  omega

/-- A new controller has spent nothing. -/
theorem economical_initial : Economical config (HbmController.initial config) where
  unmaintained := by
    refine ⟨?_, rfl, rfl⟩
    exact (idle_initial config).1
  kinds := rfl
  precharges := by
    have none : ∑ bank ∈ Finset.range (HbmController.initial config).banks.length,
        isOpen (HbmController.initial config) bank = 0 := by
      apply Finset.sum_eq_zero
      intro bank _
      unfold isOpen openRow
      cases hb : (HbmController.initial config).banks[bank]? with
      | none => rfl
      | some b =>
          obtain rfl := List.eq_of_mem_replicate (List.mem_of_getElem? hb)
          rfl
    rw [none]
    exact Nat.le_refl 0
  acts := Nat.zero_le _

end HbmController

end HbmSim
