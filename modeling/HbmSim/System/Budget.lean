import HbmSim.System.Spending

/-!
What the commands of a channel are paid for with.

`stepsLeft` bounds the commands a channel can still issue before its next data command, refresh
and RFM included. A row or maintenance command takes one off, a data command puts at most five
on, and raising a refresh puts on what the refresh costs. So the commands on the record are paid
for by the data commands among them and by the refreshes raised, and the commands a channel can
still issue by the accesses it has queued.
-/

namespace HbmSim

open HbmSim.Lib HbmSystem

/-- No refresh, and no RFM before a row is opened a second time. -/
structure HbmConfig.Unrefreshed (cfg : HbmConfig) : Prop where
  refresh : cfg.controller.refreshInterval = 0
  early : cfg.controller.enableRfm = true → 2 ≤ cfg.controller.rfmActivationThreshold

/-- Without maintenance there is no refresh. -/
theorem HbmConfig.Unmaintained.unrefreshed {cfg : HbmConfig} (off : cfg.Unmaintained) :
    cfg.Unrefreshed where
  refresh := off.refresh
  early on := by
    rw [off.rfm] at on
    cases on

/-- The commands a closed bank may need for an access: its ACT, and if that brings an RFM, what
comes before the next one. -/
def HbmBankState.closedSteps (config : HbmControllerConfig) (b : HbmBankState) : Nat :=
  if config.enableRfm && decide (config.rfmActivationThreshold ≤ b.activationCount + 1) then 4
  else 1

/-- The commands a bank may need before an access of it is served. -/
def HbmBankState.steps (config : HbmControllerConfig) (wanted : Nat → Prop) [DecidablePred wanted]
    (b : HbmBankState) : Nat :=
  if b.rfmPending || b.refreshPending then
    b.openRow.isSome.toNat + b.rfmPending.toNat + b.refreshPending.toNat + 1
  else
    match b.openRow with
    | none => b.closedSteps config
    | some row => if wanted row then 0 else b.closedSteps config + 1

namespace HbmController

variable (config : HbmControllerConfig) (mapper : HbmAddressMapper)

def bankSteps (c : HbmController) (bank : Nat) : Nat :=
  (c.banks[bank]?.map fun b => b.steps config (Wanted config c bank)).getD 0

/-- What a bank may need after an all-bank refresh. -/
def refreshedSteps (c : HbmController) (bank : Nat) : Nat :=
  ((c.banks[bank]?.map (·.rfmPending)).getD false).toNat + 1

/-- The row and maintenance commands that may come before the next data command. -/
def stepsLeft (c : HbmController) : Nat :=
  if c.refreshPending then
    c.anyOpen.toNat + 1 + ∑ bank ∈ Finset.range c.banks.length, refreshedSteps c bank
  else ∑ bank ∈ Finset.range c.banks.length, bankSteps config c bank

/-- The commands the queued accesses may still need. -/
def commandsLeft (c : HbmController) : Nat := 6 * c.queued.length + stepsLeft config c

/-- What a raised refresh may cost. -/
def raiseSteps : Nat := if config.refreshPolicy.usesAllBankRefresh then config.bankCount + 2 else 3

/-- The commands of a channel are paid for. -/
structure Budgeted (c : HbmController) : Prop where
  rowed : Rowed config mapper c
  budget : c.recorded.length + stepsLeft config c ≤
    config.bankCount + raiseSteps config * c.raised.length + 6 * c.recordedCount (·.isData)

variable {config mapper} {s t : ControllerState} {c c' : HbmController} {now bank : Nat}
  {b b' : HbmBankState} {wanted wanted' : Nat → Prop} [DecidablePred wanted]
  [DecidablePred wanted']

/-! ### One bank -/

/-- A closed bank takes four commands at most. -/
theorem closedSteps_le (b : HbmBankState) : b.closedSteps config ≤ 4 := by
  unfold HbmBankState.closedSteps
  split <;> omega

/-- A bank whose row stays as wanted as it was. -/
theorem steps_mono (row : b'.openRow = b.openRow) (flags : SameFlags b b')
    (more : ∀ row, wanted row → wanted' row) : b'.steps config wanted' ≤ b.steps config wanted := by
  unfold HbmBankState.steps HbmBankState.closedSteps
  rw [row, flags.rfmPending, flags.refreshPending, flags.activationCount]
  split
  · exact Nat.le_refl _
  · cases b.openRow with
    | none => exact Nat.le_refl _
    | some row =>
        by_cases waits : wanted row
        · simp only [if_pos (more row waits), if_pos waits, Nat.le_refl]
        · simp only [if_neg waits]
          split
          · exact Nat.zero_le _
          · exact Nat.le_refl _

/-- The steps of a bank without maintenance. -/
theorem steps_quiet (rfm : b.rfmPending = false) (refresh : b.refreshPending = false) :
    b.steps config wanted = match b.openRow with
      | none => b.closedSteps config
      | some row => if wanted row then 0 else b.closedSteps config + 1 := by
  unfold HbmBankState.steps
  rw [rfm, refresh]
  rfl

/-- The steps of a bank with maintenance pending. -/
theorem steps_pending (pending : b.rfmPending = true ∨ b.refreshPending = true) :
    b.steps config wanted =
      b.openRow.isSome.toNat + b.rfmPending.toNat + b.refreshPending.toNat + 1 := by
  unfold HbmBankState.steps
  rw [if_pos (by simpa using pending)]

/-- A bank without maintenance takes five commands at most. -/
theorem steps_quiet_le (rfm : b.rfmPending = false) (refresh : b.refreshPending = false) :
    b.steps config wanted ≤ 5 := by
  rw [steps_quiet rfm refresh]
  have closed : b.closedSteps config ≤ 4 := closedSteps_le b
  split
  · omega
  · split <;> omega

/-- A bank that a refresh or RFM has left closed. -/
theorem closedSteps_restarted (early : config.enableRfm = true → 2 ≤ config.rfmActivationThreshold)
    (count : b.activationCount = 0) : b.closedSteps config = 1 := by
  unfold HbmBankState.closedSteps
  rw [count, if_neg]
  simp only [Bool.and_eq_true, decide_eq_true_eq, not_and]
  intro on
  have := early on
  omega

/-- The steps of a bank there is. -/
theorem bankSteps_of (hb : c.banks[bank]? = some b) :
    bankSteps config c bank = b.steps config (Wanted config c bank) := by
  unfold bankSteps
  rw [hb]
  rfl

/-- The steps of a bank under an all-bank refresh. -/
theorem refreshedSteps_of (hb : c.banks[bank]? = some b) :
    refreshedSteps c bank = b.rfmPending.toNat + 1 := by
  unfold refreshedSteps
  rw [hb]
  rfl

/-! ### Nothing is issued -/

variable (config) in
/-- Nothing more is needed when more is waited for. -/
theorem stepsLeft_mono (pending : c'.refreshPending = c.refreshPending) (banks : c'.banks = c.banks)
    (more : ∀ bank row, Wanted config c bank row → Wanted config c' bank row) :
    stepsLeft config c' ≤ stepsLeft config c := by
  unfold stepsLeft HbmController.anyOpen refreshedSteps bankSteps
  rw [pending, banks]
  split
  · exact Nat.le_refl _
  · apply Finset.sum_le_sum
    intro bank _
    cases c.banks[bank]? with
    | none => exact Nat.le_refl 0
    | some b => exact steps_mono rfl ⟨rfl, rfl, rfl⟩ (more bank)

variable (config) in
/-- A bank of an all-bank refresh needs no more than it did, and one command. -/
theorem refreshedSteps_le (c : HbmController) (bank : Nat) :
    refreshedSteps c bank ≤ bankSteps config c bank + 1 := by
  unfold refreshedSteps bankSteps
  cases c.banks[bank]? with
  | none => exact Nat.le_refl 1
  | some b =>
      cases rfm : b.rfmPending with
      | false =>
          simp only [Option.map_some, Option.getD_some, rfm, Bool.toNat_false]
          omega
      | true =>
          simp only [Option.map_some, Option.getD_some, rfm, Bool.toNat_true,
            steps_pending (.inl rfm)]
          omega

/-- Raising a refresh adds at most the commands it takes. -/
theorem steps_raised :
    ({ b with refreshPending := true } : HbmBankState).steps config wanted' ≤
      b.steps config wanted + 3 := by
  have here : ({ b with refreshPending := true } : HbmBankState).steps config wanted' =
      b.openRow.isSome.toNat + b.rfmPending.toNat + 2 := steps_pending (.inr rfl)
  have opened := Bool.toNat_le b.openRow.isSome
  rw [here]
  by_cases rfm : b.rfmPending = true
  · rw [steps_pending (.inl rfm)]
    omega
  · simp only [Bool.not_eq_true] at rfm
    rw [rfm, Bool.toNat_false]
    omega

variable (config) in
/-- Without an all-bank refresh pending, what a change of one bank comes to. -/
theorem stepsLeft_replace (quiet : c.refreshPending = false) (quiet' : c'.refreshPending = false)
    (banks : c'.banks.length = c.banks.length) (lt : bank < c.banks.length)
    (others : ∀ i < c.banks.length, i ≠ bank → bankSteps config c' i ≤ bankSteps config c i) :
    stepsLeft config c' + bankSteps config c bank ≤
      stepsLeft config c + bankSteps config c' bank := by
  unfold stepsLeft
  simp only [quiet, quiet', banks, Bool.false_eq_true, if_false]
  exact sum_range_replace_le lt others

variable (config) in
/-- A raised refresh costs no more than it may. -/
theorem stepsLeft_raise (banks : c.banks.length = config.bankCount)
    (policy : config.refreshPolicy.usesAllBankRefresh = false → c.refreshPending = false)
    (bank : config.refreshPolicy = .perBank → c.nextPerBankRefresh < c.banks.length) (due : Nat) :
    stepsLeft config (c.raise config due) ≤ stepsLeft config c + raiseSteps config := by
  by_cases all : config.refreshPolicy.usesAllBankRefresh = true
  · have opened := Bool.toNat_le c.anyOpen
    have after : stepsLeft config (c.raise config due) = c.anyOpen.toNat + 1 +
        ∑ bank ∈ Finset.range c.banks.length, refreshedSteps c bank := by
      unfold HbmController.raise
      rw [if_pos all]
      rfl
    have cost : raiseSteps config = config.bankCount + 2 := if_pos all
    rw [after, cost]
    by_cases pending : c.refreshPending = true
    · unfold stepsLeft
      rw [if_pos pending]
      omega
    · unfold stepsLeft
      rw [if_neg pending]
      have sums := Finset.sum_le_sum fun bank (_ : bank ∈ Finset.range c.banks.length) =>
        refreshedSteps_le config c bank
      rw [Finset.sum_add_distrib, Finset.sum_const, Finset.card_range, Nat.nsmul_eq_mul,
        banks] at sums
      rw [banks]
      omega
  · have lt : c.nextPerBankRefresh < c.banks.length := by
      apply bank
      cases kind : config.refreshPolicy with
      | perBank => rfl
      | allBank =>
          rw [kind] at all
          exact absurd rfl all
    have quiet := policy (by simpa using all)
    have here := List.getElem?_eq_getElem lt
    have raised : (c.raise config due).refreshPending = false ∧ (c.raise config due).banks =
        c.banks.modify c.nextPerBankRefresh fun b => { b with refreshPending := true } := by
      unfold HbmController.raise
      rw [if_neg all]
      exact ⟨quiet, rfl⟩
    have queued : (c.raise config due).queued = c.queued := by
      rw [raise_frame]
      rfl
    have replaced := stepsLeft_replace config quiet raised.1
      (by rw [raised.2, List.length_modify]) lt fun i _ apart => by
        unfold bankSteps
        rw [raised.2, List.getElem?_modify_ne _ _ apart.symm]
        cases c.banks[i]? with
        | none => exact Nat.le_refl 0
        | some b => exact steps_mono rfl ⟨rfl, rfl, rfl⟩ fun _ => Wanted.congr queued
    have cost : bankSteps config (c.raise config due) c.nextPerBankRefresh ≤
        bankSteps config c c.nextPerBankRefresh + 3 := by
      unfold bankSteps
      rw [raised.2, List.getElem?_modify_eq, here]
      exact steps_raised
    have each : raiseSteps config = 3 := if_neg all
    omega

/-! ### Maintenance -/

/-- A bank that a maintenance command leaves needs one command less. -/
theorem BankMaintained.steps_lt {candidate : MaintenanceCandidate}
    (early : config.enableRfm = true → 2 ≤ config.rfmActivationThreshold)
    (requested : requestedMaintenance b = some candidate.requested)
    (final : candidate.finalCommand = b.openRow.isNone) (change : BankMaintained candidate b b') :
    b'.steps config wanted' < b.steps config wanted := by
  have closed := change.openRow
  have restarted : b'.activationCount = 0 → b'.closedSteps config = 1 := closedSteps_restarted early
  have quiet : b'.rfmPending = false → b'.refreshPending = false → b'.activationCount = 0 →
      b'.steps config wanted' = 1 := by
    intro rfm refresh count
    rw [steps_quiet rfm refresh, closed]
    exact restarted count
  cases opened : b.openRow with
  | some row =>
      -- the row is closed first
      rw [opened] at final
      obtain ⟨refresh, rfm, -⟩ := change.prerequisite final
      have pending : b.rfmPending = true ∨ b.refreshPending = true := by
        rcases requestedMaintenance_cases requested with ⟨-, rfm⟩ | ⟨-, -, refresh⟩
        · exact .inl rfm
        · exact .inr refresh
      rw [steps_pending (by rwa [rfm, refresh]), steps_pending pending, closed, opened, rfm,
        refresh]
      simp only [Option.isSome_none, Option.isSome_some, Bool.toNat_false, Bool.toNat_true]
      omega
  | none =>
      rw [opened] at final
      rcases requestedMaintenance_cases requested with ⟨kind, rfm⟩ | ⟨kind, rfm, refresh⟩
      · obtain ⟨refresh', rfm', count⟩ := change.managed final kind
        rw [steps_pending (.inl rfm), opened, rfm]
        cases refresh : b.refreshPending with
        | true =>
            rw [steps_pending (.inr (refresh'.trans refresh)), closed, rfm', refresh', refresh]
            simp
        | false =>
            rw [quiet rfm' (refresh'.trans refresh) count]
            simp
      · obtain ⟨refresh', rfm', count⟩ := change.refreshed final (by rw [kind]; nofun)
        rw [steps_pending (.inr refresh), opened, rfm, refresh,
          quiet (rfm'.trans rfm) refresh' count]
        simp

/-- The commands left under an all-bank refresh. -/
theorem stepsLeft_of_pending (pending : c.refreshPending = true) : stepsLeft config c =
    c.anyOpen.toNat + 1 + ∑ bank ∈ Finset.range c.banks.length, refreshedSteps c bank :=
      if_pos pending

/-- The commands left without one. -/
theorem stepsLeft_of_quiet (quiet : c.refreshPending = false) : stepsLeft config c =
    ∑ bank ∈ Finset.range c.banks.length, bankSteps config c bank := by
  unfold stepsLeft
  rw [quiet]
  rfl

section

variable {candidate : MaintenanceCandidate} {time : Nat}
  (step : MaintenanceStep config mapper now s candidate time t)

include step

/-- The all-bank refresh, or the precharge before it, takes one off. -/
theorem MaintenanceStep.stepsLeft_all
    (early : config.enableRfm = true → 2 ≤ config.rfmActivationThreshold)
    (pending : s.ctl.refreshPending = true) (requested : candidate.requested = .refreshAllBank)
    (final : candidate.finalCommand = !s.ctl.anyOpen) (all : candidate.command.isAllBank = true) :
    stepsLeft config t.ctl < stepsLeft config s.ctl := by
  obtain ⟨length, banks⟩ := step.banks
  have flag := step.refreshPending
  have each : ∀ bank ∈ Finset.range s.ctl.banks.length, ∃ b b', s.ctl.banks[bank]? = some b ∧
      t.ctl.banks[bank]? = some b' ∧ BankMaintained candidate b b' := by
    intro bank hbank
    have lt := Finset.mem_range.mp hbank
    have hb := List.getElem?_eq_getElem lt
    have hb' := List.getElem?_eq_getElem (length ▸ lt)
    have change := banks bank _ _ hb hb'
    rw [if_pos (.inl all)] at change
    exact ⟨_, _, hb, hb', change⟩
  rw [stepsLeft_of_pending pending]
  cases opened : s.ctl.anyOpen with
  | true =>
      rw [opened] at final
      have pending' : t.ctl.refreshPending = true := by
        rw [flag, pending, final]
        rfl
      have closed : t.ctl.anyOpen = false := by
        unfold HbmController.anyOpen
        rw [List.any_eq_false]
        intro b' hb'
        obtain ⟨bank, hbank⟩ := List.getElem?_of_mem hb'
        have lt : bank < s.ctl.banks.length := length ▸ (List.getElem?_eq_some_iff.mp hbank).1
        obtain ⟨_, _, -, here, change⟩ := each bank (Finset.mem_range.mpr lt)
        obtain rfl := Option.some.inj (hbank.symm.trans here)
        rw [change.openRow]
        nofun
      have same : ∑ bank ∈ Finset.range s.ctl.banks.length, refreshedSteps t.ctl bank =
          ∑ bank ∈ Finset.range s.ctl.banks.length, refreshedSteps s.ctl bank := by
        apply Finset.sum_congr rfl
        intro bank hbank
        obtain ⟨b, b', hb, hb', change⟩ := each bank hbank
        rw [refreshedSteps_of hb, refreshedSteps_of hb', (change.prerequisite final).2.1]
      rw [stepsLeft_of_pending pending', closed, length, same, Bool.toNat_false, Bool.toNat_true]
      omega
  | false =>
      rw [opened] at final
      have quiet : t.ctl.refreshPending = false := by
        rw [flag, pending, final, requested]
        rfl
      have same : ∑ bank ∈ Finset.range s.ctl.banks.length, bankSteps config t.ctl bank =
          ∑ bank ∈ Finset.range s.ctl.banks.length, refreshedSteps s.ctl bank := by
        apply Finset.sum_congr rfl
        intro bank hbank
        obtain ⟨b, b', hb, hb', change⟩ := each bank hbank
        obtain ⟨refresh, rfm, count⟩ := change.refreshed final (by rw [requested]; nofun)
        rw [refreshedSteps_of hb, bankSteps_of hb']
        cases owed : b.rfmPending with
        | true =>
            rw [steps_pending (.inl (rfm.trans owed)), change.openRow, refresh, rfm, owed]
            rfl
        | false =>
            rw [steps_quiet (rfm.trans owed) refresh, change.openRow]
            exact closedSteps_restarted early count
      rw [stepsLeft_of_quiet quiet, length, same, Bool.toNat_false]
      omega

/-- The refresh or RFM of a bank, or the precharge before it, takes one off. -/
theorem MaintenanceStep.stepsLeft_one
    (early : config.enableRfm = true → 2 ≤ config.rfmActivationThreshold)
    (quiet : s.ctl.refreshPending = false) (hb : s.ctl.banks[candidate.localBank]? = some b)
    (requested : requestedMaintenance b = some candidate.requested)
    (final : candidate.finalCommand = b.openRow.isNone)
    (one : candidate.command.isAllBank = false) :
    stepsLeft config t.ctl < stepsLeft config s.ctl := by
  obtain ⟨length, banks⟩ := step.banks
  have queued := (ControllerStep.maintain step).queued
  have quiet' : t.ctl.refreshPending = false := by
    rw [step.refreshPending, quiet]
    rfl
  have lt := (List.getElem?_eq_some_iff.mp hb).1
  have hb' := List.getElem?_eq_getElem (length ▸ lt : candidate.localBank < t.ctl.banks.length)
  have change := banks candidate.localBank _ _ hb hb'
  rw [if_pos (.inr rfl)] at change
  have replaced := stepsLeft_replace config quiet quiet' length lt fun i hi apart => by
    have hi' := List.getElem?_eq_getElem (length ▸ hi)
    have same := banks i _ _ (List.getElem?_eq_getElem hi) hi'
    rw [if_neg (by simp [one, apart])] at same
    rw [bankSteps_of (List.getElem?_eq_getElem hi), bankSteps_of hi', same]
    exact steps_mono rfl ⟨rfl, rfl, rfl⟩ fun _ => Wanted.congr queued
  rw [bankSteps_of hb, bankSteps_of hb'] at replaced
  have less : t.ctl.banks[candidate.localBank].steps config (Wanted config t.ctl candidate.localBank) <
      b.steps config (Wanted config s.ctl candidate.localBank) :=
        change.steps_lt early requested final
  omega

/-- A maintenance command takes one off. -/
theorem MaintenanceStep.stepsLeft_lt
    (early : config.enableRfm = true → 2 ≤ config.rfmActivationThreshold) :
    stepsLeft config t.ctl < stepsLeft config s.ctl := by
  obtain ⟨cursor, plan⟩ := step.plan
  rcases plan.purpose with ⟨pending, requested, final, command⟩ |
    ⟨quiet, b, hb, requested, final, command⟩
  · refine step.stepsLeft_all early pending requested final ?_
    rw [command]
    split <;> rfl
  · refine step.stepsLeft_one early quiet hb requested final ?_
    rw [command]
    split
    · rfl
    · rcases requestedMaintenance_cases requested with ⟨kind, -⟩ | ⟨kind, -⟩ <;> rw [kind] <;> rfl

end

/-! ### Commands for an access -/

section

variable {exempt : Prop} {w : Bool} {index : Nat} {a : HbmAccess} {r : RecordedCommand}
  (demanded : Demanded config mapper now exempt s t w index a r)
  (others : ∀ bank row, bank ≠ r.bank → Wanted config s.ctl bank row → Wanted config t.ctl bank row)

include demanded others

/-- What a command for an access comes to is what it does to its bank. -/
theorem Demanded.replaces : ∃ b b', s.ctl.banks[r.bank]? = some b ∧ t.ctl.banks[r.bank]? = some b' ∧
    SameFlags (if r.command = .act then noteActivation config b else b) b' ∧
      b.rfmPending = false ∧ b.refreshPending = false ∧
        stepsLeft config t.ctl + b.steps config (Wanted config s.ctl r.bank) ≤
          stepsLeft config s.ctl + b'.steps config (Wanted config t.ctl r.bank) := by
  have records := demanded.records
  have hb := List.getElem?_eq_getElem records.bank
  have hb' := List.getElem?_eq_getElem (records.banks ▸ records.bank : r.bank < t.ctl.banks.length)
  obtain ⟨quiet, idle⟩ := demanded.demand.quiet
  have quiet' : t.ctl.refreshPending = false := demanded.refresh.refreshPending.trans quiet
  have flags := demanded.flags r.bank _ _ hb hb'
  simp only [and_true] at flags
  obtain ⟨rfm, refresh⟩ := idle _ (List.mem_of_getElem? hb)
  refine ⟨_, _, hb, hb', flags, rfm, refresh, ?_⟩
  have replaced := stepsLeft_replace config quiet quiet' records.banks records.bank
    fun i hi apart => by
      have hi' := List.getElem?_eq_getElem (records.banks ▸ hi : i < t.ctl.banks.length)
      have hi := List.getElem?_eq_getElem hi
      have row := Records.openRow records demanded.one (List.getElem?_eq_some_iff.mp hi).1
      rw [if_neg apart, openRow_of_bank hi, openRow_of_bank hi'] at row
      have same := demanded.flags i _ _ hi hi'
      rw [if_neg fun act => apart act.2] at same
      rw [bankSteps_of hi, bankSteps_of hi']
      exact steps_mono row same fun row => others i row apart
  rwa [bankSteps_of hb, bankSteps_of hb'] at replaced

/-- A data command may leave its bank as it was at first. -/
theorem Demanded.stepsLeft_le (data : r.command.isData = true) :
    stepsLeft config t.ctl ≤ stepsLeft config s.ctl + 5 := by
  obtain ⟨b, b', -, -, flags, rfm, refresh, less⟩ := demanded.replaces others
  rw [if_neg (isAllBank_of_data data)] at flags
  have few : b'.steps config (Wanted config t.ctl r.bank) ≤ 5 :=
    steps_quiet_le (flags.rfmPending.trans rfm) (flags.refreshPending.trans refresh)
  omega

/-- An ACT or a precharge takes one off. -/
theorem Demanded.stepsLeft_lt (turns : Turns config s.ctl t.ctl r.bank r.command) :
    stepsLeft config t.ctl < stepsLeft config s.ctl := by
  obtain ⟨b, b', hb, hb', flags, rfm, refresh, less⟩ := demanded.replaces others
  suffices b'.steps config (Wanted config t.ctl r.bank) <
      b.steps config (Wanted config s.ctl r.bank) by omega
  have before := openRow_of_bank hb
  have after := openRow_of_bank hb'
  rw [steps_quiet rfm refresh]
  generalize r.command = k at turns flags
  cases turns with
  | closes opened unwanted closed =>
      rw [if_neg nofun] at flags
      rw [steps_quiet (flags.rfmPending.trans rfm) (flags.refreshPending.trans refresh),
        ← before, ← after, opened, closed]
      simp only [if_neg unwanted]
      unfold HbmBankState.closedSteps
      rw [flags.activationCount]
      exact Nat.lt_succ_self _
  | opens closed opened wanted =>
      rw [if_pos rfl] at flags
      rw [← before, closed]
      dsimp only
      unfold HbmBankState.closedSteps
      unfold noteActivation at flags
      by_cases many : config.enableRfm && decide (config.rfmActivationThreshold ≤
        b.activationCount + 1)
      · rw [if_pos many] at flags ⊢
        rw [steps_pending (.inl flags.rfmPending), ← after, opened, flags.rfmPending,
          flags.refreshPending, refresh]
        simp
      · rw [if_neg many] at flags ⊢
        rw [steps_quiet (flags.rfmPending.trans rfm) (flags.refreshPending.trans refresh), ← after,
          opened]
        simp only [if_pos wanted]
        exact Nat.one_pos

end

/-! ### The commands left -/

theorem stepsLeft_congr (queued : c'.queued = c.queued) (banks : c'.banks = c.banks)
    (pending : c'.refreshPending = c.refreshPending) :
    stepsLeft config c' = stepsLeft config c := by
  apply Nat.le_antisymm
  · exact stepsLeft_mono config pending banks fun _ _ => Wanted.congr queued
  · exact stepsLeft_mono config pending.symm banks.symm fun _ _ => Wanted.congr queued.symm

theorem commandsLeft_congr (queued : c'.queued = c.queued) (banks : c'.banks = c.banks)
    (pending : c'.refreshPending = c.refreshPending) :
    commandsLeft config c' = commandsLeft config c := by
  unfold commandsLeft
  rw [stepsLeft_congr queued banks pending, queued]

/-- A maintenance command, an ACT or a precharge takes one command off. -/
theorem MaintenanceStep.commandsLeft_lt {candidate : MaintenanceCandidate} {time : Nat}
    (step : MaintenanceStep config mapper now s candidate time t)
    (early : config.enableRfm = true → 2 ≤ config.rfmActivationThreshold) :
    commandsLeft config t.ctl < commandsLeft config s.ctl := by
  have less := step.stepsLeft_lt early
  unfold commandsLeft
  rw [(ControllerStep.maintain step).queued]
  omega

/-- A row command is one of the commands left. -/
theorem RowStep.commandsLeft_lt (sound : Sound config mapper s.ctl)
    (settled : config.standard = none → ∀ b ∈ s.ctl.banks, b.prechargePending = false)
    (step : RowStep config mapper now s t) :
    commandsLeft config t.ctl < commandsLeft config s.ctl := by
  have queued := (ControllerStep.row step).queued
  obtain ⟨w, index, a, r, row, demanded⟩ := @RowStep.demanded config mapper s t now True sound step
  have turns := demanded.turns settled queued row
  have less := demanded.stepsLeft_lt (fun _ _ _ => Wanted.congr queued) turns
  unfold commandsLeft
  rw [queued]
  omega

/-- A data command takes one command off at least. -/
theorem DataStep.commandsLeft_lt (sound : Sound config mapper s.ctl) {physical : PhysicalAccess}
    (step : DataStep config mapper now s physical t) :
    commandsLeft config t.ctl < commandsLeft config s.ctl := by
  have queued := step.queued
  have one_bank := step.one_bank
  have served := List.length_pos_iff.mpr step.serves
  obtain ⟨w, index, a, r, data, here, demanded⟩ := step.demanded sound (.inl trivial)
  have more := demanded.stepsLeft_le (fun _ _ apart waits =>
    demanded.wanted queued (here ▸ one_bank) apart waits) data
  have count := queued.length_eq
  rw [List.length_append] at count
  unfold PhysicalAccess.served at served
  unfold commandsLeft
  omega

/-- An admitted access may need six commands. -/
theorem commandsLeft_push (c : HbmController) (a : HbmAccess) :
    commandsLeft config (c.push a) ≤ commandsLeft config c + 6 := by
  have steps : stepsLeft config (c.push a) ≤ stepsLeft config c :=
    stepsLeft_mono config rfl rfl fun _ _ => Wanted.push c a
  have count := (push_queued c a).length_eq
  rw [List.length_cons] at count
  unfold commandsLeft
  omega

/-! ### Beats -/

variable (config) in
/-- What a step records is paid for. -/
def Paid (c c' : HbmController) : Prop :=
  c'.recorded.length + stepsLeft config c' + raiseSteps config * c.raised.length +
      6 * c.recordedCount (·.isData) ≤
    c.recorded.length + stepsLeft config c + raiseSteps config * c'.raised.length +
      6 * c'.recordedCount (·.isData)

/-- What issues nothing may not add commands. -/
theorem paid_of_same (recorded : c'.recorded = c.recorded) (raised : c'.raised = c.raised)
    (less : stepsLeft config c' ≤ stepsLeft config c) : Paid config c c' := by
  have counts : c'.recordedCount (·.isData) = c.recordedCount (·.isData) := by
    unfold recordedCount
    rw [recorded]
  unfold Paid
  rw [recorded, raised, counts]
  omega

/-- A command pays one, and a transfer pays six more. -/
theorem paid_of_record {r : RecordedCommand} (recorded : c'.recorded = r :: c.recorded)
    (raised : c'.raised = c.raised)
    (less : stepsLeft config c' + 1 ≤ stepsLeft config c + 6 * r.command.isData.toNat) :
    Paid config c c' := by
  have counts := recordedCount_cons recorded (·.isData)
  unfold Paid
  rw [recorded, raised, List.length_cons, counts]
  omega

/-- A data command pays for what its bank may need next. -/
theorem Demanded.paid {exempt : Prop} {w : Bool} {index : Nat} {a : HbmAccess} {r : RecordedCommand}
    (demanded : Demanded config mapper now exempt s t w index a r) (data : r.command.isData = true)
    {served : List LogicalAccess} (queued : (served ++ t.ctl.queued).Perm s.ctl.queued)
    (one_bank : ∀ l ∈ served, l.address.flatBank = a.address.flatBank) :
    Paid config s.ctl t.ctl := by
  refine paid_of_record demanded.records.recorded_cons demanded.refresh.raised ?_
  have more := demanded.stepsLeft_le (fun _ _ apart waits =>
    demanded.wanted queued one_bank apart waits) data
  rw [data, Bool.toNat_true]
  omega

/-- What a beat records is paid for. -/
theorem Beat.paid {exempt : Prop} (sound : Sound config mapper s.ctl)
    (early : config.enableRfm = true → 2 ≤ config.rfmActivationThreshold)
    (rowed : Rowed config mapper s.ctl) (beat : Beat config mapper now exempt s t) :
    Paid config s.ctl t.ctl := by
  cases beat with
  | step step =>
      have queued := step.queued
      cases step with
      | retouch touched =>
          have same : t.ctl.refreshPending = s.ctl.refreshPending ∧
            t.ctl.recorded = s.ctl.recorded ∧
              t.ctl.raised = s.ctl.raised := by
            rw [touched.ctl]
            exact ⟨rfl, rfl, rfl⟩
          exact paid_of_same same.2.1 same.2.2
            (stepsLeft_mono config same.1 touched.banks fun _ _ => Wanted.congr queued)
      | raise due bank =>
          have policy : config.refreshPolicy.usesAllBankRefresh = false →
              s.ctl.refreshPending = false := by
            intro each
            by_contra pending
            exact nomatch each.symm.trans (rowed.allBank (by simpa using pending))
          have costs := stepsLeft_raise config sound.banks policy bank due
          have raised : (s.ctl.raise config due).raised = due :: s.ctl.raised := by rw [raise_frame]
          have recorded : (s.ctl.raise config due).recorded = s.ctl.recorded := by rw [raise_frame]
          have counts : (s.ctl.raise config due).recordedCount (·.isData) =
              s.ctl.recordedCount (·.isData) := by
            unfold recordedCount
            rw [recorded]
          show Paid config s.ctl (s.ctl.raise config due)
          unfold Paid
          rw [raised, recorded, counts, List.length_cons, Nat.mul_add_one]
          omega
      | advanceDue => exact paid_of_same rfl rfl (stepsLeft_mono config rfl rfl
          fun _ _ waits => waits)
      | maintain step =>
          obtain ⟨r, -, records, -⟩ := step.recording
          have raised : t.ctl.raised = s.ctl.raised := by rw [step.frame]
          refine paid_of_record records.recorded_cons raised ?_
          have less := step.stepsLeft_lt early
          omega
      | row step =>
          obtain ⟨w, index, a, r, row, demanded⟩ :=
            @RowStep.demanded config mapper s t now True sound step
          refine paid_of_record demanded.records.recorded_cons demanded.refresh.raised ?_
          have turns := demanded.turns rowed.settled queued row
          have less := demanded.stepsLeft_lt (fun _ _ _ => Wanted.congr queued) turns
          omega
  | data step timely =>
      have queued := step.queued
      have one_bank := step.one_bank
      obtain ⟨w, index, a, r, data, here, demanded⟩ := step.demanded sound timely
      exact demanded.paid data queued (here ▸ one_bank)
  | lose step timely =>
      have queued := step.queued
      obtain ⟨w, index, a, r, data, rfl, demanded⟩ := step.demanded sound timely
      exact demanded.paid data queued fun l hl => takenAccesses_bank hl
  | aside aside =>
      obtain ⟨c, stats⟩ := t
      dsimp only at aside
      cases aside with
      | mark => exact paid_of_same rfl rfl (stepsLeft_mono config rfl rfl fun _ _ waits => waits)
      | reserve => exact paid_of_same rfl rfl (stepsLeft_mono config rfl rfl fun _ _ waits => waits)
      | push => exact paid_of_same rfl rfl (stepsLeft_mono config rfl rfl fun _ _ =>
          Wanted.push s.ctl _)
      | finish => exact paid_of_same rfl rfl (stepsLeft_mono config rfl rfl fun _ _ waits => waits)

/-- A new controller may need an ACT for each bank. -/
theorem stepsLeft_initial (early : config.enableRfm = true → 2 ≤ config.rfmActivationThreshold) :
    stepsLeft config (HbmController.initial config) = config.bankCount := by
  have each : ∀ bank ∈ Finset.range config.bankCount,
      bankSteps config (HbmController.initial config) bank = 1 := by
    intro bank hbank
    have hb : (HbmController.initial config).banks[bank]? = some {} := by
      show (List.replicate config.bankCount ({} : HbmBankState))[bank]? = _
      rw [List.getElem?_replicate, if_pos (Finset.mem_range.mp hbank)]
    rw [bankSteps_of hb]
    exact closedSteps_restarted early rfl
  have length : (HbmController.initial config).banks.length = config.bankCount :=
    List.length_replicate
  rw [stepsLeft_of_quiet rfl, length, Finset.sum_congr rfl each, Finset.sum_const,
    Finset.card_range,
    Nat.nsmul_eq_mul, Nat.mul_one]

end HbmController

open HbmController

/-- The commands of every channel are paid for. -/
theorem HbmSystem.Run.budgeted {cfg : HbmConfig} (checked : cfg.Checked)
    (opens : cfg.device.standard = none → cfg.controller.rowPolicy.useAutoPrecharge = false)
    (early : cfg.controller.enableRfm = true → 2 ≤ cfg.controller.rfmActivationThreshold)
    {p : HbmSystem × Debts} (run : Run cfg p) (channel : Nat) :
    Budgeted (cfg.channelConfig channel) cfg.mapper (p.1.controllers channel) := by
  refine (run.channel checked channel
    (P := fun _ _ s => Budgeted (cfg.channelConfig channel) cfg.mapper s.ctl) ?_ (fun _ _ h => h)
      fun sound h beat => ⟨h.rowed.entry opens sound (beat.entry sound), ?_⟩).2
  · refine ⟨Run.create.rowed checked opens channel, ?_⟩
    have fresh := @stepsLeft_initial (cfg.channelConfig channel) early
    show 0 + stepsLeft (cfg.channelConfig channel) (.initial (cfg.channelConfig channel)) ≤ _
    omega
  · have paid := beat.paid sound early h.rowed
    have budget := h.budget
    unfold Paid at paid
    omega

end HbmSim
