import Mathlib.Logic.Relation
import HbmSim.Controller.Cadence
import HbmSim.Lib.Lists

/-!
The member functions of the controller as sequences of steps.

Each theorem says in which steps a call ends, what it returns, and which
exceptions it may throw instead.
-/

namespace HbmSim

open HbmSim.Lib

namespace HbmController

variable {config : HbmControllerConfig} {mapper : HbmAddressMapper} {s t : ControllerState}
  {now : Nat}

/-! ### Maintenance commands -/

namespace MaintenancePlan

variable {c : HbmController} {candidate : MaintenanceCandidate}

/-- The bank of a planned command has an address, and the command is ready there. -/
theorem address (plan : MaintenancePlan config mapper c now candidate) :
    ∃ a, mapper.bankAddress (u32 (config.firstFlatBank + candidate.localBank)) = .ok a ∧
      earliestCommand config mapper c candidate.command a now = .ok candidate.readyAt := by
  cases plan with
  | allBank _ _ haddress hready => exact ⟨_, haddress, hready⟩
  | perBank _ _ _ haddress hready => exact ⟨_, haddress, hready⟩

/-- What a plan is for: the pending all-bank refresh, or the maintenance one bank
waits for; open banks are closed first. -/
theorem purpose (plan : MaintenancePlan config mapper c now candidate) :
    (c.refreshPending = true ∧ candidate.requested = .refreshAllBank ∧
        candidate.finalCommand = !c.anyOpen ∧
        candidate.command = if c.anyOpen then .preAll else .refreshAllBank) ∨
      (c.refreshPending = false ∧ ∃ bank, c.banks[candidate.localBank]? = some bank ∧
        requestedMaintenance bank = some candidate.requested ∧
        candidate.finalCommand = bank.openRow.isNone ∧
        candidate.command = if bank.openRow.isSome then .preBank else candidate.requested) := by
  cases plan with
  | allBank pending => exact .inl ⟨pending, rfl, rfl, rfl⟩
  | perBank pending hbank hrequested => exact .inr ⟨pending, _, hbank, hrequested, rfl, rfl⟩

/-- A planned command is for one of the controller's banks. -/
theorem localBank_lt (plan : MaintenancePlan config mapper c now candidate) :
    candidate.localBank < c.banks.length := by
  cases plan with
  | allBank _ banks => exact List.length_pos_of_ne_nil banks
  | perBank _ hbank => exact (List.getElem?_eq_some_iff.mp hbank).1

/-- What is requested is maintenance. -/
theorem requested_isMaintenance (plan : MaintenancePlan config mapper c now candidate) :
    candidate.requested.isMaintenance = true := by
  cases plan with
  | allBank => rfl
  | perBank _ _ hrequested =>
      rcases requestedMaintenance_cases hrequested with ⟨rfl, -⟩ | ⟨rfl, -⟩ <;> rfl

/-- What is requested is one of the three refreshes. -/
theorem requested_cases (plan : MaintenancePlan config mapper c now candidate) :
    candidate.requested = .refreshAllBank ∨ candidate.requested = .refreshPerBank ∨
      candidate.requested = .rfmPerBank := by
  cases plan with
  | allBank => exact .inl rfl
  | perBank _ _ hrequested =>
      rcases requestedMaintenance_cases hrequested with ⟨rfl, -⟩ | ⟨rfl, -⟩
      · exact .inr (.inr rfl)
      · exact .inr (.inl rfl)

/-- Every maintenance command leaves the banks it covers closed. -/
theorem transition (plan : MaintenancePlan config mapper c now candidate) :
    candidate.command.transition = .close := by
  cases plan with
  | allBank => dsimp only; split <;> rfl
  | perBank _ _ hrequested =>
      dsimp only
      split
      · rfl
      · rcases requestedMaintenance_cases hrequested with ⟨rfl, -⟩ | ⟨rfl, -⟩ <;> rfl

/-- The final command is the one requested. -/
theorem command_of_final (plan : MaintenancePlan config mapper c now candidate)
    (h : candidate.finalCommand = true) : candidate.command = candidate.requested := by
  cases plan with
  | allBank => simp_all
  | @perBank _ _ _ bank =>
      dsimp only at h ⊢
      cases hrow : bank.openRow <;> simp_all

/-- What is planned is supported by the device. -/
theorem supported (wiring : Wiring config mapper) (sound : Sound config mapper c)
    (plan : MaintenancePlan config mapper c now candidate) :
    supported config candidate.command = true := by
  cases plan with
  | allBank => dsimp only; split <;> exact supported_of_common rfl
  | perBank _ hbank hrequested =>
      dsimp only
      split
      · exact supported_of_common rfl
      · have hsup := (requested_supported wiring sound hbank hrequested).2
        unfold HbmController.supported
        split
        · rfl
        · rename_i s hs
          exact hsup s hs

end MaintenancePlan

/-- Issuing a planned maintenance command succeeds and is one step. -/
theorem issueMaintenance_exits (wiring : Wiring config mapper) (sound : Sound config mapper s.ctl)
    {cursor time : Nat} {candidate : MaintenanceCandidate}
    (plan : MaintenancePlan config mapper s.ctl cursor candidate) (cursor_le : cursor ≤ time)
    (ready : candidate.readyAt ≤ time) (prompt : time = now ∨ s.ctl.refreshOwed = true)
    (timely : now ≤ time ∨ ∃ due, s.ctl.nextRefreshDue = some due ∧ due ≤ time) :
    Exits (issueMaintenance config mapper candidate time)
      (fun _ t => MaintenanceStep config mapper now s candidate time t) (fun _ _ => False) s := by
  obtain ⟨address, haddress, -⟩ := plan.address
  have sup := plan.supported wiring sound
  have hbanks : ∃ banks, transitionBanks config candidate.command 0 candidate.localBank
      s.ctl.banks = .ok banks := by
    cases h : transitionBanks config candidate.command 0 candidate.localBank s.ctl.banks with
    | ok banks => exact ⟨banks, rfl⟩
    | error e =>
        have := (transitionBanks_error sup h).1
        have := plan.localBank_lt
        omega
  obtain ⟨banks, hbanks⟩ := hbanks
  have step := MaintenanceStep.mk plan cursor_le ready prompt timely haddress hbanks
  unfold issueMaintenance recordCommand applyTransition
  simp only [exits_bind, exits_get, exits_ofExcept, exits_modify, haddress, Except.ok.injEq,
    reduceCtorEq, false_imp_iff, implies_true, and_true, forall_eq', sup, Bool.not_true,
    Bool.false_eq_true, if_false]
  refine ⟨fun banks' hbanks' => ?_, fun e he => by cases he.symm.trans hbanks⟩
  obtain rfl : banks = banks' := Except.ok.inj (hbanks.symm.trans hbanks')
  unfold maintained at step
  simp only [exits_ite, plan.requested_isMaintenance, Bool.not_true, Bool.false_eq_true, if_false,
    exits_modify, exits_pure]
  refine ⟨fun hfinal => ?_, fun hfinal => ?_⟩
  · rwa [if_pos hfinal] at step
  · rwa [if_neg hfinal] at step

/-- What a final maintenance command does to a bank it covers. -/
def settledBank (requested : HbmCommand) (b : HbmBankState) : HbmBankState :=
  match requested with
  | .refreshAllBank | .refreshPerBank => { b with refreshPending := false, activationCount := 0 }
  | .rfmAllBank | .rfmPerBank => { b with rfmPending := false, activationCount := 0 }
  | _ => b

/-- Settling maintenance clears what was requested of the bank, or of all banks. -/
theorem settleMaintenance_getElem? (c : HbmController) (bank : Nat) {requested : HbmCommand}
    (maintenance : requested.isMaintenance = true) {i : Nat} {b : HbmBankState}
    (h : c.banks[i]? = some b) :
    (c.settleMaintenance requested bank).banks[i]? = some
      (if requested.isAllBank = true ∨ i = bank then settledBank requested b else b) := by
  unfold settleMaintenance settledBank
  by_cases hi : i = bank
  · subst hi
    cases requested <;> simp_all [HbmCommand.isMaintenance, HbmCommand.isAllBank]
  · cases requested <;>
      simp_all [HbmCommand.isMaintenance, HbmCommand.isAllBank, Ne.symm hi]

/-- A bank before and after a maintenance command that covers it. -/
structure BankMaintained (candidate : MaintenanceCandidate) (b b' : HbmBankState) : Prop where
  openRow : b'.openRow = none
  prerequisite : candidate.finalCommand = false →
    b'.refreshPending = b.refreshPending ∧ b'.rfmPending = b.rfmPending ∧
      b'.activationCount = b.activationCount
  refreshed : candidate.finalCommand = true → candidate.requested ≠ .rfmPerBank →
    b'.refreshPending = false ∧ b'.rfmPending = b.rfmPending ∧ b'.activationCount = 0
  managed : candidate.finalCommand = true → candidate.requested = .rfmPerBank →
    b'.refreshPending = b.refreshPending ∧ b'.rfmPending = false ∧ b'.activationCount = 0

/-- The banks after a maintenance command: the banks it covers are maintained, the
others are untouched. -/
theorem MaintenanceStep.banks {candidate : MaintenanceCandidate} {time : Nat}
    (step : MaintenanceStep config mapper now s candidate time t) :
    t.ctl.banks.length = s.ctl.banks.length ∧
      ∀ (i : Nat) b b', s.ctl.banks[i]? = some b → t.ctl.banks[i]? = some b' →
        if candidate.command.isAllBank = true ∨ i = candidate.localBank then
          BankMaintained candidate b b'
        else b' = b := by
  cases step with
  | @mk cursor address banks plan _ _ _ _ _ hbanks =>
      have rows := plan.rows hbanks
      have moved : ∀ (i : Nat) b b₁, s.ctl.banks[i]? = some b → banks[i]? = some b₁ →
          if candidate.command.isAllBank = true ∨ i = candidate.localBank then
            RowChange candidate.command 0 b b₁
          else b₁ = b := rows.2.2
      have closed : ∀ b b₁, RowChange candidate.command 0 b b₁ → b₁.openRow = none := by
        intro b b₁ change
        rw [change.openRow, HbmCommand.rowAfter, plan.transition]
      cases hfinal : candidate.finalCommand with
      | false =>
          rw [maintained_prerequisite hfinal]
          refine ⟨rows.1, fun i b b' hb hb' => ?_⟩
          have change := moved i b b' hb hb'
          split at change
          · rename_i hcovers
            rw [if_pos hcovers]
            exact ⟨closed b b' change, fun _ => ⟨change.refreshPending, change.rfmPending,
              change.activationCount⟩, by simp [hfinal], by simp [hfinal]⟩
          · rename_i hcovers
            rw [if_neg hcovers]
            exact change
      | true =>
          rw [maintained_final hfinal]
          have hlength := settleMaintenance_banks
            ((s.ctl.stampCommand config ⟨candidate.command, address, candidate.localBank, time,
              none⟩).setBanks banks) candidate.requested candidate.localBank
          refine ⟨hlength.trans rows.1, fun i b b' hb hb' => ?_⟩
          have hlt : i < banks.length := by
            rw [rows.1]
            exact (List.getElem?_eq_some_iff.mp hb).1
          have hb₁ := List.getElem?_eq_getElem hlt
          have change := moved i b banks[i] hb hb₁
          have settled := settleMaintenance_getElem?
            ((s.ctl.stampCommand config ⟨candidate.command, address, candidate.localBank, time,
              none⟩).setBanks banks) candidate.localBank plan.requested_isMaintenance hb₁
          obtain rfl := Option.some.inj (settled.symm.trans hb')
          rw [← plan.command_of_final hfinal]
          split at change
          · rename_i hcovers
            rw [if_pos hcovers, if_pos hcovers, plan.command_of_final hfinal]
            rcases plan.requested_cases with h | h | h <;> rw [h]
            · exact ⟨closed b banks[i] change, by simp [hfinal],
                fun _ _ => ⟨rfl, change.rfmPending, rfl⟩, by simp [h]⟩
            · exact ⟨closed b banks[i] change, by simp [hfinal],
                fun _ _ => ⟨rfl, change.rfmPending, rfl⟩, by simp [h]⟩
            · exact ⟨closed b banks[i] change, by simp [hfinal], by simp [h],
                fun _ _ => ⟨change.refreshPending, rfl, rfl⟩⟩
          · rename_i hcovers
            rw [if_neg hcovers, if_neg hcovers]
            exact change

/-- The all-bank flag after a maintenance command. -/
theorem MaintenanceStep.refreshPending {candidate : MaintenanceCandidate} {time : Nat}
    (step : MaintenanceStep config mapper now s candidate time t) :
    t.ctl.refreshPending = (s.ctl.refreshPending &&
      !(candidate.finalCommand && candidate.requested == .refreshAllBank)) := by
  cases step with
  | mk plan =>
      cases hfinal : candidate.finalCommand with
      | false =>
          rw [maintained_prerequisite hfinal]
          exact (Bool.and_true _).symm
      | true =>
          rw [maintained_final hfinal]
          rcases plan.requested_cases with h | h | h <;> rw [h]
          · exact (Bool.and_false _).symm
          · exact (Bool.and_true _).symm
          · exact (Bool.and_true _).symm

/-- A maintenance command opens no bank and raises no flag. -/
theorem MaintenanceStep.bankWork_le {candidate : MaintenanceCandidate} {time : Nat}
    (step : MaintenanceStep config mapper now s candidate time t) {i : Nat} {b b' : HbmBankState}
    (hb : s.ctl.banks[i]? = some b) (hb' : t.ctl.banks[i]? = some b') :
    bankWork b' ≤ bankWork b := by
  have change := step.banks.2 i b b' hb hb'
  unfold bankWork
  split at change
  · rw [change.openRow]
    cases hfinal : candidate.finalCommand with
    | false =>
        obtain ⟨hrefresh, hrfm, -⟩ := change.prerequisite hfinal
        simp only [hrefresh, hrfm, Option.isSome_none, Bool.toNat_false]
        omega
    | true =>
        by_cases hrequested : candidate.requested = .rfmPerBank
        · obtain ⟨hrefresh, hrfm, -⟩ := change.managed hfinal hrequested
          simp only [hrefresh, hrfm, Option.isSome_none, Bool.toNat_false]
          omega
        · obtain ⟨hrefresh, hrfm, -⟩ := change.refreshed hfinal hrequested
          simp only [hrefresh, hrfm, Option.isSome_none, Bool.toNat_false]
          omega
  · exact Nat.le_of_eq (by rw [change])

/-- A maintenance command was planned. -/
theorem MaintenanceStep.plan {candidate : MaintenanceCandidate} {time : Nat}
    (step : MaintenanceStep config mapper now s candidate time t) :
    ∃ cursor, MaintenancePlan config mapper s.ctl cursor candidate := by
  cases step with
  | mk plan => exact ⟨_, plan⟩

/-- A maintenance command closes an open bank or settles a pending flag. -/
theorem MaintenanceStep.progress {candidate : MaintenanceCandidate} {time : Nat}
    (step : MaintenanceStep config mapper now s candidate time t) :
    (s.ctl.refreshPending = true ∧ t.ctl.refreshPending = false) ∨
      ∃ (i : Nat) (b b' : HbmBankState), s.ctl.banks[i]? = some b ∧ t.ctl.banks[i]? = some b' ∧
        bankWork b' < bankWork b := by
  obtain ⟨hlength, hbanks⟩ := step.banks
  have after : ∀ i < s.ctl.banks.length, ∃ b', t.ctl.banks[i]? = some b' := fun i hi =>
    ⟨_, List.getElem?_eq_getElem (hlength ▸ hi)⟩
  obtain ⟨cursor, plan⟩ := step.plan
  rcases plan.purpose with ⟨pending, hrequested, hfinal, hcommand⟩ |
    ⟨-, bank, hbank, hrequested, hfinal, -⟩
  · cases hopen : s.ctl.anyOpen with
    | false => exact .inl ⟨pending, by simp [step.refreshPending, hfinal, hrequested, hopen]⟩
    | true =>
        obtain ⟨b, hmem, hb⟩ := List.any_eq_true.mp hopen
        obtain ⟨i, hi⟩ := List.mem_iff_getElem?.mp hmem
        obtain ⟨b', hb'⟩ := after i (List.getElem?_eq_some_iff.mp hi).1
        have change := hbanks i b b' hi hb'
        rw [if_pos (.inl (by simp [hcommand, hopen, HbmCommand.isAllBank]))] at change
        obtain ⟨hrefresh, hrfm, -⟩ := change.prerequisite (by simp [hfinal, hopen])
        refine .inr ⟨i, b, b', hi, hb', ?_⟩
        simp only [bankWork, hb, change.openRow, hrefresh, hrfm, Option.isSome_none,
          Bool.toNat_false, Bool.toNat_true]
        omega
  · obtain ⟨b', hb'⟩ := after _ (List.getElem?_eq_some_iff.mp hbank).1
    have change := hbanks _ bank b' hbank hb'
    rw [if_pos (.inr rfl)] at change
    refine .inr ⟨_, bank, b', hbank, hb', ?_⟩
    simp only [bankWork, change.openRow, Option.isSome_none, Bool.toNat_false]
    cases hrow : bank.openRow with
    | some row =>
        obtain ⟨hrefresh, hrfm, -⟩ := change.prerequisite (by simp [hfinal, hrow])
        simp only [hrefresh, hrfm, Option.isSome_some, Bool.toNat_true]
        omega
    | none =>
        have hfinal : candidate.finalCommand = true := by simp [hfinal, hrow]
        rcases requestedMaintenance_cases hrequested with ⟨hkind, hpending⟩ | ⟨hkind, -, hpending⟩
        · obtain ⟨hrefresh, hrfm, -⟩ := change.managed hfinal hkind
          simp only [hrefresh, hrfm, hpending, Bool.toNat_true, Bool.toNat_false]
          omega
        · obtain ⟨hrefresh, hrfm, -⟩ := change.refreshed hfinal (by simp [hkind])
          simp only [hrefresh, hrfm, hpending, Bool.toNat_true, Bool.toNat_false]
          omega

/-- The work left to the maintenance loop shrinks with every command. -/
theorem MaintenanceStep.work_lt {candidate : MaintenanceCandidate} {time : Nat}
    (step : MaintenanceStep config mapper now s candidate time t) :
    t.ctl.maintenanceWork < s.ctl.maintenanceWork := by
  have hlength := step.banks.1
  have flag : t.ctl.refreshPending.toNat ≤ s.ctl.refreshPending.toNat := by
    rw [step.refreshPending]
    cases s.ctl.refreshPending <;> simp [Bool.toNat_le]
  unfold maintenanceWork
  rcases step.progress with ⟨hs, ht⟩ | ⟨i, b, b', hb, hb', hlt⟩
  · have := sum_map_le_of_getElem? (f := bankWork) (g := bankWork) hlength fun i b b' hb hb' =>
      step.bankWork_le hb hb'
    simp only [hs, ht, Bool.toNat_true, Bool.toNat_false]
    omega
  · have := sum_map_lt_of_getElem? (f := bankWork) (g := bankWork) hlength
      (fun i b b' hb hb' => step.bankWork_le hb hb') hb hb' hlt
    omega

/-! ### What a step leaves alone -/

theorem MaintenanceStep.frame {candidate : MaintenanceCandidate} {time : Nat}
    (step : MaintenanceStep config mapper now s candidate time t) :
    t.ctl = { s.ctl with
      banks := t.ctl.banks
      history := t.ctl.history
      unifiedCommandBusReadyAt := t.ctl.unifiedCommandBusReadyAt
      rowCommandBusReadyAt := t.ctl.rowCommandBusReadyAt
      columnCommandBusReadyAt := t.ctl.columnCommandBusReadyAt
      refreshBusyUntil := t.ctl.refreshBusyUntil
      refreshPending := t.ctl.refreshPending
      recorded := t.ctl.recorded
      wrapped := t.ctl.wrapped } := by
  cases step with
  | mk =>
      cases hfinal : candidate.finalCommand with
      | false =>
          rw [maintained_prerequisite hfinal]
          rfl
      | true =>
          rw [maintained_final hfinal]
          unfold settleMaintenance
          split <;> rfl

theorem RowStep.frame (step : RowStep config mapper now s t) :
    t.ctl = { s.ctl with
      readQueue := t.ctl.readQueue
      writeQueue := t.ctl.writeQueue
      banks := t.ctl.banks
      history := t.ctl.history
      unifiedCommandBusReadyAt := t.ctl.unifiedCommandBusReadyAt
      rowCommandBusReadyAt := t.ctl.rowCommandBusReadyAt
      columnCommandBusReadyAt := t.ctl.columnCommandBusReadyAt
      recorded := t.ctl.recorded
      wrapped := t.ctl.wrapped } := by
  cases step with
  | activate =>
      rw [activatedState_ctl]
      rfl
  | precharge =>
      rw [prechargedState_ctl]
      rfl

theorem DataStep.frame {phys : PhysicalAccess} (step : DataStep config mapper now s phys t) :
    t.ctl = { s.ctl with
      readQueue := t.ctl.readQueue
      writeQueue := t.ctl.writeQueue
      banks := t.ctl.banks
      history := t.ctl.history
      dataBusReadyAt := t.ctl.dataBusReadyAt
      unifiedCommandBusReadyAt := t.ctl.unifiedCommandBusReadyAt
      rowCommandBusReadyAt := t.ctl.rowCommandBusReadyAt
      columnCommandBusReadyAt := t.ctl.columnCommandBusReadyAt
      recorded := t.ctl.recorded
      transfers := t.ctl.transfers
      wrapped := t.ctl.wrapped } := by
  cases step with
  | mk =>
      rw [transferredState_ctl]
      rfl

theorem LostStep.frame {lost : List LogicalAccess} (step : LostStep config mapper now s lost t) :
    t.ctl = { s.ctl with
      readQueue := t.ctl.readQueue
      writeQueue := t.ctl.writeQueue
      banks := t.ctl.banks
      history := t.ctl.history
      unifiedCommandBusReadyAt := t.ctl.unifiedCommandBusReadyAt
      rowCommandBusReadyAt := t.ctl.rowCommandBusReadyAt
      columnCommandBusReadyAt := t.ctl.columnCommandBusReadyAt
      recorded := t.ctl.recorded
      wrapped := t.ctl.wrapped } := by
  cases step with
  | mk =>
      rw [takenState_ctl]
      rfl

/-- What raising a refresh leaves alone. -/
theorem raise_frame (c : HbmController) (due : Nat) :
    c.raise config due = { c with
      banks := (c.raise config due).banks
      refreshPending := (c.raise config due).refreshPending
      nextPerBankRefresh := (c.raise config due).nextPerBankRefresh
      raisedBanks := (c.raise config due).raisedBanks
      raised := due :: c.raised
      overlapped := c.overlapped + (c.stillPending config).toNat } := by
  unfold raise
  split <;> rfl

/-- A raised obligation is owed. -/
theorem raise_owed {c : HbmController} {due : Nat}
    (bank : config.refreshPolicy = .perBank → c.nextPerBankRefresh < c.banks.length) :
    (c.raise config due).refreshOwed = true := by
  unfold HbmController.raise refreshOwed
  cases policy : config.refreshPolicy with
  | allBank => rfl
  | perBank =>
      have raised : (c.banks.modify c.nextPerBankRefresh fun b =>
          { b with refreshPending := true })[c.nextPerBankRefresh]? =
          some { c.banks.get ⟨c.nextPerBankRefresh, bank policy⟩ with refreshPending := true } := by
        rw [List.getElem?_modify, List.getElem?_eq_getElem (bank policy)]
        exact congrArg some (if_pos rfl)
      rw [Bool.or_eq_true]
      exact .inr (List.any_eq_true.mpr ⟨_, List.mem_of_getElem? raised, rfl⟩)

theorem MaintenanceStep.wrapped {candidate : MaintenanceCandidate} {time : Nat}
    (step : MaintenanceStep config mapper now s candidate time t)
    (h : s.ctl.wrapped = true) : t.ctl.wrapped = true := by
  cases step with
  | mk =>
      cases hfinal : candidate.finalCommand with
      | false =>
          rw [maintained_prerequisite hfinal]
          simp [stampCommand, setBanks, noteSum, h]
      | true =>
          rw [maintained_final hfinal]
          unfold settleMaintenance
          split <;> simp [blockUntil, stampCommand, setBanks, noteSum, h]

theorem RowStep.wrapped (step : RowStep config mapper now s t) (h : s.ctl.wrapped = true) :
    t.ctl.wrapped = true := by
  cases step with
  | activate =>
      rw [activatedState_ctl]
      simp [stampCommand, noteSum, h]
  | precharge =>
      rw [prechargedState_ctl]
      simp [stampCommand, noteSum, h]

theorem DataStep.wrapped {phys : PhysicalAccess} (step : DataStep config mapper now s phys t)
    (h : s.ctl.wrapped = true) : t.ctl.wrapped = true := by
  cases step with
  | mk =>
      rw [transferredState_ctl]
      simp [stampCommand, noteSum, h]

theorem LostStep.wrapped {lost : List LogicalAccess}
    (step : LostStep config mapper now s lost t) (h : s.ctl.wrapped = true) :
    t.ctl.wrapped = true := by
  cases step with
  | mk =>
      rw [takenState_ctl]
      simp [stampCommand, noteSum, h]

/-- A sum that left 64 bits stays on record. -/
theorem ControllerStep.wrapped (step : ControllerStep config mapper now s t)
    (h : s.ctl.wrapped = true) : t.ctl.wrapped = true := by
  cases step with
  | retouch touched =>
      rw [touched.ctl]
      exact h
  | raise due =>
      show (s.ctl.raise config due).wrapped = true
      rw [raise_frame]
      exact h
  | advanceDue base => simp [ControllerState.modifyCtl, HbmController.advanceDue, noteSum, h]
  | maintain step => exact step.wrapped h
  | row step => exact step.wrapped h

/-! ### Refresh -/

/-- Any number of steps at one time. -/
abbrev Steps (config : HbmControllerConfig) (mapper : HbmAddressMapper) (now : Nat) :
    ControllerState → ControllerState → Prop :=
  Relation.ReflTransGen (ControllerStep config mapper now)

theorem Steps.wrapped (steps : Steps config mapper now s t) (h : s.ctl.wrapped = true) :
    t.ctl.wrapped = true := by
  induction steps with
  | refl => exact h
  | tail _ step ih => exact step.wrapped ih

/-- The exceptions of a correct controller, the endless loop after a time left 64
bits included. -/
def Blamed (config : HbmControllerConfig) (mapper : HbmAddressMapper) (now : Nat) (e : HbmError)
    (c : HbmController) : Prop :=
  Excused config mapper e ∨ (e = .diverges ∧ (c.wrapped = true ∨ 2 ^ 64 ≤ now))

/-- A refresh that is owed is work. -/
theorem work_pos {c : HbmController} (h : c.refreshOwed = true) : 0 < c.maintenanceWork := by
  unfold maintenanceWork
  rcases Bool.or_eq_true_iff.mp h with h | h
  · simp only [h, Bool.toNat_true]
    omega
  · obtain ⟨b, hb, hpending⟩ := List.any_eq_true.mp h
    have pos : 0 < bankWork b := by
      simp only [bankWork, hpending, Bool.toNat_true]
      omega
    have sum : 0 < (c.banks.map bankWork).sum :=
      List.sum_pos_iff_exists_pos_nat.mpr ⟨_, List.mem_map_of_mem hb, pos⟩
    omega

/-- The time of the next maintenance command is not before an instant that is
due. -/
def Timely (now : Nat) (c : HbmController) (time : Nat) : Prop :=
  now ≤ time ∨ ∃ due, c.nextRefreshDue = some due ∧ due ≤ time

theorem Timely.mono {c : HbmController} {time time' : Nat} (h : Timely now c time)
    (hle : time ≤ time') : Timely now c time' := by
  rcases h with h | ⟨due, hdue, h⟩
  · exact .inl (Nat.le_trans h hle)
  · exact .inr ⟨due, hdue, Nat.le_trans h hle⟩

/-- The rounds of the `apply_idle_refresh` loop from a cursor on: in each the candidate that is
chosen at the cursor is issued, at the time the list names. -/
inductive IdleRounds (config : HbmControllerConfig) (mapper : HbmAddressMapper) :
    Nat → ControllerState → List (MaintenanceCandidate × Nat) → ControllerState → Prop
  | stop {cursor : Nat} {s : ControllerState} : IdleRounds config mapper cursor s [] s
  | round {cursor : Nat} {s u t : ControllerState} {candidate : MaintenanceCandidate}
      {rounds : List (MaintenanceCandidate × Nat)} (owed : s.ctl.refreshOwed = true)
      (chosen : chooseMaintenance config mapper s.ctl cursor = .ok (some candidate))

    (issued : issueMaintenance config mapper candidate (max cursor candidate.readyAt) s = .ok () u)
      (rest : IdleRounds config mapper (max (max cursor candidate.readyAt)
        (u.ctl.commandBusReady config candidate.command)) u rounds t) :
      IdleRounds config mapper cursor s ((candidate, max cursor candidate.readyAt) :: rounds) t

/-- A round is one maintenance command. -/
theorem maintenanceStep_of_round (wiring : Wiring config mapper) (sound : Sound config mapper s.ctl)
    {u : ControllerState} {cursor : Nat} {candidate : MaintenanceCandidate}
    (owed : s.ctl.refreshOwed = true)
    (chosen : chooseMaintenance config mapper s.ctl cursor = .ok (some candidate))
    (issued : issueMaintenance config mapper candidate (max cursor candidate.readyAt) s = .ok () u)
    (timely : Timely now s.ctl (max cursor candidate.readyAt)) :
    MaintenanceStep config mapper now s candidate (max cursor candidate.readyAt) u := by
  have plan := chooseMaintenance_some wiring sound chosen
  exact (issueMaintenance_exits wiring sound plan (Nat.le_max_left _ _) (Nat.le_max_right _ _)
    (.inr owed) timely).of_ok issued

/-- A maintenance command leaves the cadence of the refreshes alone. -/
theorem MaintenanceStep.sameCadence {candidate : MaintenanceCandidate} {time : Nat}
    (sound : Sound config mapper s.ctl)
    (step : MaintenanceStep config mapper now s candidate time t) : SameCadence s.ctl t.ctl := by
  have sound' : Sound config mapper t.ctl := sound.step (.maintain step)
  refine ⟨?_, ?_, ?_, ?_, sound'.banks.trans sound.banks.symm, step.wrapped⟩ <;> rw [step.frame]

/-- The loop issues maintenance commands until no refresh is owed. -/
theorem idleRefreshLoop_rounds (wiring : Wiring config mapper) {rounds cursor : Nat}
    (sound : Sound config mapper s.ctl) (enough : s.ctl.maintenanceWork ≤ rounds) :
    Exits (idleRefreshLoop config mapper rounds cursor)
      (fun _ t => ∃ taken, IdleRounds config mapper cursor s taken t ∧ t.ctl.refreshOwed = false)
      (fun e t => ∃ taken, IdleRounds config mapper cursor s taken t ∧ Unplaced config mapper e)
      s := by
  induction rounds generalizing s cursor with
  | zero =>
      unfold idleRefreshLoop
      simp only [exits_bind, exits_get, exits_ite, exits_pure]
      refine ⟨fun h => ⟨[], .stop, by simpa using h⟩, fun h => ?_⟩
      have := work_pos (c := s.ctl) (by simpa using h)
      omega
  | succ rounds ih =>
      unfold idleRefreshLoop
      simp only [exits_bind, exits_get, exits_ite, exits_pure, exits_ofExcept]
      refine ⟨fun h => ⟨[], .stop, by simpa using h⟩, fun howed => ⟨fun choice hchoice => ?_,
        fun e he => ⟨[], .stop, chooseMaintenance_error wiring sound he⟩⟩⟩
      have owed : s.ctl.refreshOwed = true := by simpa using howed
      cases choice with
      | none =>
          have quiet := chooseMaintenance_none wiring sound hchoice
          rw [quiet.not_refreshOwed] at owed
          cases owed
      | some candidate =>
          have plan := chooseMaintenance_some wiring sound hchoice
          simp only [exits_bind, exits_get]
          have timely : Timely 0 s.ctl (max cursor candidate.readyAt) := .inl (Nat.zero_le _)
          refine ((issueMaintenance_exits wiring sound plan (Nat.le_max_left _ _)
            (Nat.le_max_right _ _) (.inr owed) timely).and (.self _ s)).mono
            (fun _ u h => ?_) (fun _ _ h => h.1.elim)
          obtain ⟨step, issued⟩ := h
          have shrinks := step.work_lt
          refine (ih (sound.step (.maintain step)) (by omega)).mono (fun _ t h => ?_)
            (fun _ t h => ?_)
          · obtain ⟨taken, rest, settled⟩ := h
            exact ⟨_, .round owed hchoice issued rest, settled⟩
          · obtain ⟨taken, rest, unplaced⟩ := h
            exact ⟨_, .round owed hchoice issued rest, unplaced⟩

/-- The rounds are steps, and leave the cadence of the refreshes alone. -/
theorem IdleRounds.steps (wiring : Wiring config mapper) {cursor : Nat}
    {taken : List (MaintenanceCandidate × Nat)} (rounds : IdleRounds config mapper cursor s taken t)
    (sound : Sound config mapper s.ctl) (timely : Timely now s.ctl cursor) :
    Steps config mapper now s t ∧ SameCadence s.ctl t.ctl := by
  induction rounds with
  | stop => exact ⟨.refl, .refl _⟩
  | @round cursor s u t candidate taken owed chosen issued rest ih =>
      have timely' := timely.mono (Nat.le_max_left cursor candidate.readyAt)
      have step := maintenanceStep_of_round wiring sound owed chosen issued timely'
      have same := step.sameCadence sound
      obtain ⟨steps, cadence⟩ := ih (sound.step (.maintain step)) (by
        unfold Timely at timely' ⊢
        rw [same.nextRefreshDue]
        exact Timely.mono timely' (Nat.le_max_left _ _))
      exact ⟨.head (.maintain step) steps, same.trans cadence⟩

/-- The catch-up loop runs maintenance steps until none is owed, in at most as many rounds as there
is work. -/
theorem idleRefreshLoop_exits (wiring : Wiring config mapper) {rounds cursor : Nat}
    (sound : Sound config mapper s.ctl) (enough : s.ctl.maintenanceWork ≤ rounds)
    (timely : Timely now s.ctl cursor) :
    Exits (idleRefreshLoop config mapper rounds cursor)
      (fun _ t => Steps config mapper now s t ∧ SameCadence s.ctl t.ctl ∧
        t.ctl.refreshOwed = false)
      (fun e t => Steps config mapper now s t ∧ Excused config mapper e) s := by
  refine (idleRefreshLoop_rounds wiring sound enough).mono (fun _ t h => ?_) (fun e t h => ?_)
  · obtain ⟨taken, taken_rounds, settled⟩ := h
    obtain ⟨steps, same⟩ := taken_rounds.steps wiring sound timely
    exact ⟨steps, same, settled⟩
  · obtain ⟨taken, taken_rounds, unplaced⟩ := h
    exact ⟨(taken_rounds.steps wiring sound timely).1, unplaced.excused⟩

/-- Raising an obligation fails only without a bank to raise it on. -/
theorem raiseRefresh_raises (sound : Sound config mapper s.ctl) (due : Nat) :
    Exits (raiseRefresh config due)
      (fun _ t => t = s.modifyCtl (·.raise config due) ∧
        (config.refreshPolicy = .perBank → s.ctl.nextPerBankRefresh < s.ctl.banks.length))
      (fun e t => t = s ∧ Unplaced config mapper e) s := by
  unfold raiseRefresh
  cases hpolicy : config.refreshPolicy with
  | allBank =>
      simp only [exits_bind, exits_get, RefreshPolicy.usesAllBankRefresh, if_true, exits_modify]
      refine ⟨?_, nofun⟩
      simp [ControllerState.modifyCtl, raise, hpolicy, RefreshPolicy.usesAllBankRefresh]
  | perBank =>
      simp only [exits_bind, exits_get, RefreshPolicy.usesAllBankRefresh, Bool.false_eq_true,
        if_false, exits_ofExcept, exits_modify, vectorAt_ok]
      refine ⟨fun bank hbank => ⟨?_, fun _ => (List.getElem?_eq_some_iff.mp hbank).1⟩,
        fun e he => ⟨trivial, .inr ⟨(vectorAt_error he).2, fun addressable => ?_⟩⟩⟩
      · simp [ControllerState.modifyCtl, raise, hpolicy, RefreshPolicy.usesAllBankRefresh]
      · have hpos := addressable.banks
        rw [← sound.banks] at hpos
        have hlt := sound.rotation (List.ne_nil_of_length_pos hpos)
        have := (vectorAt_error he).1
        omega

/-- Raising a refresh is a step of the controller. -/
theorem raiseRefresh_exits (now : Nat) (sound : Sound config mapper s.ctl) {due : Nat}
    (due_le : due ≤ now)
    (in_turn : s.ctl.wrapped = true ∨ ∀ next, s.ctl.nextRefreshDue = some next → due ≤ next) :
    Exits (raiseRefresh config due)
      (fun _ t => ControllerStep config mapper now s t ∧ t = s.modifyCtl (·.raise config due))
      (fun e t => t = s ∧ Excused config mapper e) s := by
  refine (raiseRefresh_raises sound due).mono (fun _ t h => ?_) (fun e t h => ⟨h.1, h.2.excused⟩)
  obtain ⟨rfl, bank⟩ := h
  exact ⟨.raise due bank due_le in_turn, rfl⟩

/-- Steps of the controller keep soundness. -/
theorem Steps.sound (steps : Steps config mapper now s t) (sound : Sound config mapper s.ctl) :
    Sound config mapper t.ctl := by
  induction steps with
  | refl => exact sound
  | tail _ step ih => exact ih.step step

/-- `apply_idle_refresh` discharges the obligation it raises. -/
theorem applyIdleRefresh_exits (wiring : Wiring config mapper) {due : Nat}
    (sound : Sound config mapper s.ctl) (timely : Timely now s.ctl due) (due_le : due ≤ now)
    (in_turn : s.ctl.wrapped = true ∨ ∀ next, s.ctl.nextRefreshDue = some next → due ≤ next) :
    Exits (applyIdleRefresh config mapper due)
      (fun _ t => Steps config mapper now s t ∧ SameCadence (s.ctl.raise config due) t.ctl ∧
        t.ctl.refreshOwed = false)
      (fun e t => Steps config mapper now s t ∧ Excused config mapper e) s := by
  unfold applyIdleRefresh
  simp only [exits_bind, exits_get]
  refine (raiseRefresh_exits now sound due_le in_turn).mono (fun _ u h => ?_)
    (fun e u h => ⟨h.1 ▸ .refl, h.2⟩)
  obtain ⟨step, rfl⟩ := h
  have next : (s.ctl.raise config due).nextRefreshDue = s.ctl.nextRefreshDue := by
    rw [raise_frame]
  have timely' : Timely now (s.ctl.raise config due) due := by
    unfold Timely at timely ⊢
    rwa [next]
  refine (idleRefreshLoop_exits wiring (sound.step step) (Nat.le_refl _)
    (timely'.mono (Nat.le_max_left _ _))).mono
    (fun _ t h => ⟨.head step h.1, h.2⟩)
    (fun _ t h => ⟨.head step h.1, h.2⟩)

/-- The catch-up loop ends with the next due instant in the future. -/
theorem catchUpRefresh_exits (wiring : Wiring config mapper) {rounds : Nat}
    (sound : Sound config mapper s.ctl) (interval : config.refreshInterval ≠ 0)
    (enough : s.ctl.wrapped = true ∨ 2 ^ 64 ≤ now ∨
      ∀ due, s.ctl.nextRefreshDue = some due → now < due + rounds) :
    Exits (catchUpRefresh config mapper rounds now)
      (fun _ t => Steps config mapper now s t ∧
        (s.ctl.nextRefreshDue ≠ none → t.ctl.nextRefreshDue ≠ none) ∧
        (∀ due, t.ctl.nextRefreshDue = some due → now < due) ∧
        ∀ start, s.ctl.Cadenced config start →
          t.ctl.wrapped = true ∨ t.ctl.Cadenced config start)
      (fun e t => Steps config mapper now s t ∧ Blamed config mapper now e t.ctl) s := by
  -- each round moves the next instant on; what is left of the bound counts the rounds
  induction rounds generalizing s with
  | zero =>
      unfold catchUpRefresh
      simp only [exits_bind, exits_get]
      cases hnext : s.ctl.nextRefreshDue with
      | none => exact ⟨.refl, absurd rfl, by simp [hnext], fun _ => .inr⟩
      | some due =>
          simp only [exits_ite, exits_throw, exits_pure]
          refine ⟨fun hle => ⟨.refl, .inr ⟨rfl, ?_⟩⟩, fun hlt =>
            ⟨.refl, by simp [hnext], ?_, fun _ => .inr⟩⟩
          · rcases enough with h | h | h
            · exact .inl h
            · exact .inr h
            · have := h due hnext
              omega
          · intro due' hdue'
            obtain rfl := Option.some.inj (hnext.symm.trans hdue')
            omega
  | succ rounds ih =>
      unfold catchUpRefresh
      simp only [exits_bind, exits_get]
      cases hnext : s.ctl.nextRefreshDue with
      | none => exact ⟨.refl, absurd rfl, by simp [hnext], fun _ => .inr⟩
      | some due =>
          simp only [exits_ite, exits_bind, exits_modify, exits_pure]
          refine ⟨fun hle => ?_, fun hlt => ⟨.refl, by simp [hnext], ?_, fun _ => .inr⟩⟩
          · refine (applyIdleRefresh_exits wiring sound (.inr ⟨due, hnext, Nat.le_refl _⟩) hle
              (.inr fun next hdue => Nat.le_of_eq (Option.some.inj (hnext.symm.trans hdue)))).mono
              (fun _ u h => ?_) (fun e u h => ⟨h.1, .inl h.2⟩)
            obtain ⟨steps, same, -⟩ := h
            have hdue : u.ctl.nextRefreshDue = some due := by
              rw [same.nextRefreshDue, raise_frame]
              exact hnext
            have advance : ControllerStep config mapper now u
                (u.modifyCtl (·.advanceDue config due)) :=
              .advanceDue due hle (by simp [hdue]) fun due' hdue' =>
                Option.some.inj (hdue.symm.trans hdue')
            have steps' := steps.tail advance
            refine (ih (Steps.sound steps' sound) ?_).mono
              (fun _ t h => ⟨steps'.trans h.1, fun _ => h.2.1 (by simp [ControllerState.modifyCtl,
                advanceDue]), h.2.2.1, fun start cadenced => ?_⟩)
              (fun e t h => ⟨steps'.trans h.1, h.2⟩)
            rotate_left
            · rcases cadenced.raise hnext same with wrapped | cadenced
              · exact .inl (Steps.wrapped h.1 wrapped)
              · exact h.2.2.2 start cadenced
            rcases enough with h | h | h
            · exact .inl (Steps.wrapped steps' h)
            · exact .inr (.inl h)
            · by_cases hsum : 2 ^ 64 ≤ due + config.refreshInterval
              · left
                show (u.ctl.wrapped || decide (2 ^ 64 ≤ due + config.refreshInterval)) = true
                rw [decide_eq_true hsum, Bool.or_true]
              · refine .inr (.inr ?_)
                intro due' hdue'
                obtain rfl : SimTime.add due config.refreshInterval = due' :=
                  Option.some.inj hdue'
                have := h due hnext
                rw [SimTime.add_of_lt (by omega)]
                omega
          · intro due' hdue'
            obtain rfl := Option.some.inj (hnext.symm.trans hdue')
            omega

/-- After `prepare_refresh_for_arrival` no due instant has passed. -/
theorem prepareRefreshForArrival_exits (wiring : Wiring config mapper)
    (sound : Sound config mapper s.ctl) :
    Exits (prepareRefreshForArrival config mapper now)
      (fun _ t => Steps config mapper now s t ∧ (config.refreshInterval ≠ 0 →
        t.ctl.nextRefreshDue ≠ none ∧ ∀ due, t.ctl.nextRefreshDue = some due → now < due) ∧
        KeepsCadence config now s.ctl t.ctl)
      (fun e t => Steps config mapper now s t ∧ Blamed config mapper now e t.ctl) s := by
  unfold prepareRefreshForArrival
  simp only [exits_ite, exits_bind, exits_modify, exits_pure]
  refine ⟨fun interval => ?_, fun interval => ⟨.refl, fun h => absurd h interval,
    (SameCadence.refl _).keeps now⟩⟩
  have start : Steps config mapper now s (s.modifyCtl fun c => c.startRefresh config now) ∧
      (s.ctl.startRefresh config now).nextRefreshDue ≠ none ∧

    (∀ start, s.ctl.Cadenced config start → (s.ctl.startRefresh config now).Cadenced config start) ∧
      (s.ctl.Fresh → (s.ctl.startRefresh config now).wrapped = true ∨
        (s.ctl.startRefresh config now).Cadenced config now) := by
    cases hnext : s.ctl.nextRefreshDue with
    | some due =>
        have same : s.ctl.startRefresh config now = s.ctl := by simp [startRefresh, hnext]
        rw [ControllerState.modifyCtl, same]
        refine ⟨.refl, by simp [hnext], fun _ => id, fun fresh => ?_⟩
        cases hnext.symm.trans fresh.next
    | none =>
        have first : s.ctl.startRefresh config now = s.ctl.advanceDue config now := by
          simp [startRefresh, hnext, advanceDue]
        rw [ControllerState.modifyCtl, first]
        refine ⟨?_, (fun h => by cases h), fun start cadenced => ?_, Fresh.start⟩
        · exact .single (.advanceDue now (Nat.le_refl _) (fun _ => ⟨rfl, interval⟩)
            (by simp [hnext]))
        · cases hnext.symm.trans cadenced.next
  obtain ⟨start, set, kept, first⟩ := start
  have enough : (s.ctl.startRefresh config now).wrapped = true ∨ 2 ^ 64 ≤ now ∨
      ∀ due, (s.ctl.startRefresh config now).nextRefreshDue = some due → now < due + 2 ^ 64 := by
    by_cases hnow : 2 ^ 64 ≤ now
    · exact .inr (.inl hnow)
    · exact .inr (.inr fun due _ => by omega)
  refine (catchUpRefresh_exits wiring (Steps.sound start sound) interval enough).mono
    (fun _ t h => ?_) (fun e t h => ⟨start.trans h.1, h.2⟩)
  obtain ⟨steps, some, later, cadence⟩ := h
  refine ⟨start.trans steps, fun _ => ⟨some set, later⟩, fun start' cadenced => ?_, fun fresh => ?_⟩
  · exact cadence start' (kept start' cadenced)
  · rcases first fresh with wrapped | cadenced
    · exact .inl (Steps.wrapped steps wrapped)
    · exact (cadence now cadenced).imp_right .inr

/-- The refresh event at `due` is no longer marked as scheduled. -/
def disarm (c : HbmController) (due : Nat) : HbmController :=
  if c.refreshDueAt = some due then { c with refreshDueAt := none } else c

/-- The refresh obligation of an event, in steps after the event is disarmed. -/
theorem handleRefreshEvent_exits (wiring : Wiring config mapper)
    (sound : Sound config mapper s.ctl) :
    Exits (handleRefreshEvent config mapper now)
      (fun _ t => Steps config mapper now (s.modifyCtl (·.disarm now)) t ∧
        KeepsCadence config now (s.ctl.disarm now) t.ctl ∧
        ((s.ctl.disarm now).nextRefreshDue = none → t.ctl.nextRefreshDue = none))
      (fun e t => Steps config mapper now (s.modifyCtl (·.disarm now)) t ∧
        Excused config mapper e) s := by
  unfold handleRefreshEvent
  simp only [exits_bind, exits_get, exits_ite, exits_modify, exits_pure]
  refine ⟨fun hdue => ?_, fun hdue => ?_⟩
  · have disarmed : s.ctl.disarm now = { s.ctl with refreshDueAt := none } := by
      simp [disarm, hdue]
    have sound₁ : Sound config mapper (s.modifyCtl (·.disarm now)).ctl := by
      show Sound config mapper (s.ctl.disarm now)
      rw [disarmed]
      exact sound.change rfl sound.rfm rfl (fun w a ha => ⟨a, ha, rfl⟩) rfl
    have both : s.modifyCtl (·.disarm now) = s.modifyCtl fun c =>
      { c with refreshDueAt := none } := by
      rw [ControllerState.modifyCtl, disarmed]
      rfl
    refine ⟨fun hnext => ?_, fun hnext => ⟨both ▸ .refl, disarmed ▸ (SameCadence.refl _).keeps now,
      disarmed ▸ id⟩⟩
    have next : (s.ctl.disarm now).nextRefreshDue = some now := by
      rw [disarmed]
      exact hnext
    have advance : ControllerStep config mapper now (s.modifyCtl (·.disarm now))
        ((s.modifyCtl (·.disarm now)).modifyCtl (·.advanceDue config now)) :=
      .advanceDue now (Nat.le_refl _) (fun h => by cases next.symm.trans h)
        fun due hdue' => Option.some.inj (next.symm.trans hdue')
    have sound₂ := sound₁.step advance
    -- the obligation is raised after the due instant has moved on; the order is immaterial
    have keeps : ∀ {c'}, SameCadence (((s.ctl.disarm now).advanceDue config now).raise config now) c' →
        KeepsCadence config now (s.ctl.disarm now) c' := by
      intro c' same
      rw [advanceDue_raise] at same
      refine ⟨fun start cadenced => ?_, fun fresh => by cases next.symm.trans fresh.next⟩
      rcases cadenced.raise next (.refl _) with wrapped | cadenced
      · exact .inl (same.wrapped wrapped)
      · exact .inr (same.cadenced cadenced)
    have in_turn : ((s.modifyCtl (·.disarm now)).modifyCtl (·.advanceDue config now)).ctl.wrapped =
          true ∨ ∀ next, ((s.modifyCtl (·.disarm now)).modifyCtl
            (·.advanceDue config now)).ctl.nextRefreshDue = some next → now ≤ next := by
      by_cases passed : 2 ^ 64 ≤ now + config.refreshInterval
      · left
        show ((s.ctl.disarm now).wrapped || decide (2 ^ 64 ≤ now + config.refreshInterval)) = true
        rw [decide_eq_true passed, Bool.or_true]
      · right
        intro next hdue
        obtain rfl : SimTime.add now config.refreshInterval = next := Option.some.inj hdue
        rw [SimTime.add_of_lt (Nat.not_le.mp passed)]
        exact Nat.le_add_right _ _
    rw [both] at advance sound₂ in_turn
    refine ⟨fun _ => ?_, fun _ => ?_⟩
    -- idle: the refresh is applied at once; busy: it is raised and the controller woken for it
    · refine (applyIdleRefresh_exits wiring sound₂ (.inl (Nat.le_refl _)) (Nat.le_refl _)
        in_turn).mono
        (fun _ t h => ⟨both ▸ .head advance h.1, keeps ?_,
          fun none => by cases next.symm.trans none⟩)
        (fun e t h => ⟨both ▸ .head advance h.1, h.2⟩)
      rw [disarmed]
      exact h.2.1
    · refine (raiseRefresh_exits now sound₂ (Nat.le_refl _) in_turn).mono
        (fun _ t h => ⟨both ▸ .head advance (.single h.1), keeps ?_,
          fun none => by cases next.symm.trans none⟩)
        (fun e t h => ⟨both ▸ h.1 ▸ .single advance, h.2⟩)
      rw [disarmed, h.2]
      exact .refl _
  · have disarmed : s.ctl.disarm now = s.ctl := by simp [disarm, hdue]
    have both : s.modifyCtl (·.disarm now) = s := by rw [ControllerState.modifyCtl, disarmed]
    have keeps : KeepsCadence config now (s.ctl.disarm now) s.ctl := by
      rw [disarmed]
      exact (SameCadence.refl _).keeps now
    refine ⟨?_, keeps, fun none => ?_⟩
    · rw [both]
    · rwa [disarmed] at none

end HbmController

end HbmSim
