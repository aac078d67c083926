import HbmSim.Controller.Effects

/-!
`issue` and `drive` in terms of steps.

A call of `drive` ends in one of seven ways (`DriveCase`); the state it leaves and
the step it returns are known in each.
-/

namespace HbmSim

open HbmSim.Lib

namespace HbmController

variable {config : HbmControllerConfig} {mapper : HbmAddressMapper} {s t : ControllerState}
  {now : Nat}

/-! ### Issuing a demand command -/

/-- A supported command is recorded without failing. -/
theorem recordCommand_exits {r : RecordedCommand} {Q : Unit → ControllerState → Prop}
    {E : HbmError → ControllerState → Prop} (sup : supported config r.command = true) :
    Exits (recordCommand config r) Q E s ↔
      Q () ⟨s.ctl.stampCommand config r, countCommand config s.stats r⟩ := by
  unfold recordCommand
  simp [sup]

/-- A supported command changes its bank, or all banks. -/
theorem applyTransition_exits {k : HbmCommand} {row index : Nat} (sup : supported config k = true)
    (hindex : index < s.ctl.banks.length) :
    Exits (applyTransition config k row index)
      (fun _ t => ∃ banks, transitionBanks config k row index s.ctl.banks = .ok banks ∧
        t = s.modifyCtl (·.setBanks banks)) (fun _ _ => False) s := by
  unfold applyTransition
  simp only [exits_bind, exits_get, exits_ofExcept, exits_modify]
  refine ⟨fun banks h => ⟨banks, h, rfl⟩, fun e he => ?_⟩
  have := (transitionBanks_error sup he).1
  omega

/-- The bank of an access that has a command planned. -/
theorem PlannedFor.bank {c : HbmController} {a : HbmAccess} {k : HbmCommand}
    (h : PlannedFor config c a k) {index : Nat}
    (local_ : localBank config a.address.flatBank = .ok index) :
    ∃ bank, c.banks[index]? = some bank ∧
      HbmCommandPlanner.Planned config.standard a.op a.address.row config.autoPrecharge bank k := by
  obtain ⟨index', bank, local', hbank, planned⟩ := h.planned
  obtain rfl : index' = index := Except.ok.inj (local'.symm.trans local_)
  exact ⟨bank, hbank, planned⟩

/-- A planned data command finds its row open. -/
theorem Planned.opened {standard : Option HbmStandard} {op : HbmOp} {row : Nat} {auto : Bool}
    {bank : HbmBankState} {k : HbmCommand}
    (h : HbmCommandPlanner.Planned standard op row auto bank k) (data : k.isData = true) :
    bank.openRow = some row := by
  cases h with
  | precharge => cases data
  | activate => cases data
  | data opened => exact opened

/-- Writing to the statistics and marking the access started, for the command. -/
theorem Demand.chosen {candidate : Candidate} (idle : s.ctl.refreshBusyUntil ≤ now)
    (quiet : s.ctl.Quiet) (chosen : Chosen config mapper s.ctl now candidate)
    (yields : Yields config s.ctl now candidate) (ready : candidate.readyAt ≤ now) :
    ∃ a, Demand config mapper s.ctl now candidate.isWrite candidate.index a candidate.command := by
  obtain ⟨a, ha, planned, hready⟩ := chosen
  have hle := (earliestCommand_ok hready).1
  obtain rfl : candidate.readyAt = now := by omega
  exact ⟨a, idle, quiet, ha, planned, hready, fun h => yields ready h a ha⟩

/-- After a data command the bank is closed as its kind asks. -/
theorem closeAfterData_exits {k : HbmCommand} {row index : Nat}
    (sup : supported config k = true) (hindex : index < s.ctl.banks.length) :
    Exits (closeAfterData config k row index)
      (fun _ t => ∃ banks, dataBanks config k row index s.ctl.banks = .ok banks ∧
        t = s.modifyCtl (·.setBanks banks)) (fun _ _ => False) s := by
  unfold closeAfterData dataBanks
  split
  · exact applyTransition_exits sup hindex
  · split
    · exact ⟨_, rfl, rfl⟩
    · exact ⟨_, rfl, rfl⟩

/-- A transfer time fails by overflow only. -/
theorem transferTime_error {r : BandwidthRate} (h : 0 < r.bytes ∧ 0 < r.interval) {n : Nat}
    {e : HbmError} (run : r.transferTime n = .error e) : e.isOverflow = true := by
  have valid : r.validate = .ok () := by
    unfold BandwidthRate.validate
    rw [if_neg (by omega)]
  simp only [BandwidthRate.transferTime, valid, ok_bind] at run
  split at run
  · cases run
    rfl
  · split at run
    · cases run
      rfl
    · cases run

/-- Reserving the data bus fails only on a transfer time beyond 64 bits. -/
theorem transferData_exits (rate : 0 < config.dataRate.bytes ∧ 0 < config.dataRate.interval)
    {candidate : Candidate} {bankIndex bytes : Nat} {taken : List HbmAccess}
    {address : HbmAddress} (hbus : address.pseudoChannel < s.ctl.dataBusReadyAt.length) :
    Exits (transferData config candidate bankIndex now taken address bytes)
      (fun phys t => ∃ slot : DataSlot, slot.issuedAt = now ∧
        slot.casLatency = casLatency config candidate.isWrite ∧
        s.ctl.dataBusReadyAt[address.pseudoChannel]? = some slot.busReady ∧
        config.dataRate.transferTime bytes = .ok slot.duration ∧
        phys = physicalAccess config candidate taken address bytes slot ∧
        t = occupyBus config (s.modifyCtl (·.noteSum slot.issuedAt slot.casLatency))
          candidate.isWrite bankIndex taken address bytes slot)
      (fun e t => e.isOverflow = true ∧ (∃ e, config.dataRate.transferTime bytes = .error e) ∧
        t = s.modifyCtl (·.noteSum now (casLatency config candidate.isWrite))) s := by
  unfold transferData
  simp only [exits_bind, exits_modify, exits_get, exits_ofExcept, exits_pure, vectorAt_ok]
  refine ⟨fun busReady hready => ⟨fun duration hduration => ?_, fun e he => ?_⟩, fun e he => ?_⟩
  · exact ⟨⟨now, casLatency config candidate.isWrite, busReady, duration⟩, rfl, rfl, hready,
      hduration, rfl, rfl⟩
  · exact ⟨transferTime_error rate he, ⟨e, he⟩, trivial⟩
  · have hle := (vectorAt_error he).1
    exact absurd hbus (Nat.not_lt.mpr hle)

theorem takeAccesses_banks (c : HbmController) (w : Bool) (index : Nat) (l : HbmAccess) :
    (takeAccesses config c w index l).2.banks = c.banks := by
  cases w <;> rfl

theorem takeAccesses_buses (c : HbmController) (w : Bool) (index : Nat) (l : HbmAccess) :
    (takeAccesses config c w index l).2.dataBusReadyAt = c.dataBusReadyAt := by
  cases w <;> rfl

theorem commandIssued_banks {w : Bool} {index : Nat} {a : HbmAccess} {r : RecordedCommand} :
    (commandIssued config s w index a r).ctl.banks = s.ctl.banks := by
  cases w <;> rfl

theorem commandIssued_buses {w : Bool} {index : Nat} {a : HbmAccess} {r : RecordedCommand} :
    (commandIssued config s w index a r).ctl.dataBusReadyAt = s.ctl.dataBusReadyAt := by
  cases w <;> rfl

/-- The data branch of `issue` fails only on a transfer time beyond 64 bits. -/
theorem issueData_exits (wiring : Wiring config mapper) (sound : Sound config mapper s.ctl)
    {candidate : Candidate} {a : HbmAccess} {bankIndex : Nat} {bank : HbmBankState}
    (demand : Demand config mapper s.ctl now candidate.isWrite candidate.index a
      candidate.command) (data : candidate.command.isData = true)
    (local_ : localBank config a.address.flatBank = .ok bankIndex)
    (hbank : s.ctl.banks[bankIndex]? = some bank) :
    Exits (issueData config candidate bankIndex now (started a now) bank)
      (fun phys t => DataStep config mapper now s phys t)
      (fun e t => e.isOverflow = true ∧ ∃ lost, LostStep config mapper now s lost t)
      (commandIssued config s candidate.isWrite candidate.index a
        ⟨candidate.command, a.address, bankIndex, now, some a.sequence⟩) := by
  have plannedFor := plannedCommand_ok demand.planned
  obtain ⟨bank', hbank', planned⟩ := plannedFor.bank local_
  obtain rfl : bank = bank' := Option.some.inj (hbank.symm.trans hbank')
  have hopen : bank.openRow = some (started a now).address.row := by
    rw [Planned.opened planned data, started_logical]
  obtain ⟨byte, hmap⟩ := (sound.mapped _ a (List.mem_of_getElem? demand.access)).2
  have hbus := wiring.pseudoChannels byte a.address hmap
  rw [← sound.buses] at hbus
  have hlt := (List.getElem?_eq_some_iff.mp hbank).1
  unfold issueData takeServed
  simp only [exits_bind, exits_modifyGet, hopen, ne_eq, not_true_eq_false, if_false,
    started_logical]
  refine (closeAfterData_exits plannedFor.supported ?_).mono (fun _ u h => ?_)
    (fun _ _ h => h.elim)
  · show bankIndex < (takeAccesses config _ _ _ _).2.banks.length
    rwa [takeAccesses_banks, commandIssued_banks]
  · obtain ⟨banks, hbanks, rfl⟩ := h
    replace hbanks : dataBanks config candidate.command a.address.row bankIndex s.ctl.banks =
        .ok banks := by
      rw [← hbanks]
      show _ = dataBanks config _ _ _ (takeAccesses config _ _ _ _).2.banks
      rw [takeAccesses_banks, commandIssued_banks]
    have buses : (takeAccesses config (commandIssued config s candidate.isWrite candidate.index a
        ⟨candidate.command, a.address, bankIndex, now, some a.sequence⟩).ctl candidate.isWrite
          candidate.index (leader a now)).2.dataBusReadyAt = s.ctl.dataBusReadyAt := by
      rw [takeAccesses_buses, commandIssued_buses]
    refine (transferData_exits wiring.rate ?_).mono (fun phys t h => ?_) (fun e t h => ?_)
    · show _ < (takeAccesses config _ _ _ (leader a now)).2.dataBusReadyAt.length
      rwa [buses]
    · obtain ⟨slot, hat, hcas, hready, hduration, rfl, rfl⟩ := h
      replace hready : s.ctl.dataBusReadyAt[a.address.pseudoChannel]? = some slot.busReady := by
        rw [← hready]
        exact congrArg (·[a.address.pseudoChannel]?) buses.symm
      have hslot : slot = ⟨now, casLatency config candidate.isWrite, slot.busReady,
          slot.duration⟩ := by
        rw [← hat, ← hcas]
      have step : DataStep config mapper now s (physicalAccess config
          ⟨candidate.isWrite, candidate.index, candidate.command, now, 0⟩
          (takenAccesses config s candidate.isWrite candidate.index a now) a.address a.sizeBytes
          slot) _ := .mk demand data local_ hbanks hready hduration hslot
      unfold takenAccesses at step
      rwa [← (takeAccesses_commandIssued (a := a) (r := ⟨candidate.command, a.address, bankIndex,
        now, some a.sequence⟩)).1] at step
    · obtain ⟨overflow, ⟨_, huge⟩, rfl⟩ := h
      exact ⟨overflow, _, .mk demand data local_ hbanks huge⟩

/-- An activation is a row step. -/
theorem issueActivate_exits {candidate : Candidate} {a : HbmAccess} {bankIndex : Nat}
    (demand : Demand config mapper s.ctl now candidate.isWrite candidate.index a .act)
    (command : candidate.command = .act)
    (local_ : localBank config a.address.flatBank = .ok bankIndex)
    (hlt : bankIndex < s.ctl.banks.length) :
    Exits (issueActivate config candidate bankIndex a.address.row)
      (fun _ t => RowStep config mapper now s t) (fun _ _ => False)
      (commandIssued config s candidate.isWrite candidate.index a
        ⟨.act, a.address, bankIndex, now, some a.sequence⟩) := by
  unfold issueActivate
  simp only [exits_bind, exits_modify, command]
  refine (applyTransition_exits (plannedCommand_ok demand.planned).supported ?_).mono
    (fun _ u h => ?_) (fun _ _ h => h)
  · rwa [commandIssued_banks]
  · obtain ⟨banks, hbanks, rfl⟩ := h
    rw [commandIssued_banks] at hbanks
    exact .activate demand local_ hbanks

/-- A precharge is a row step. -/
theorem issuePrecharge_exits {candidate : Candidate} {a : HbmAccess} {bankIndex : Nat}
    {bank : HbmBankState}
    (demand : Demand config mapper s.ctl now candidate.isWrite candidate.index a .preBank)
    (command : candidate.command = .preBank)
    (local_ : localBank config a.address.flatBank = .ok bankIndex)
    (hbank : s.ctl.banks[bankIndex]? = some bank) :
    Exits (issuePrecharge config candidate bankIndex a.address.row bank)
      (fun _ t => RowStep config mapper now s t) (fun _ _ => False)
      (commandIssued config s candidate.isWrite candidate.index a
        ⟨.preBank, a.address, bankIndex, now, some a.sequence⟩) := by
  have same : ∀ c : HbmController,
      (c.updateAccess candidate.isWrite candidate.index (precharged bank)).banks = c.banks := by
    intro c
    cases candidate.isWrite <;> rfl
  unfold issuePrecharge
  simp only [exits_bind, exits_modify, command]
  refine (applyTransition_exits (plannedCommand_ok demand.planned).supported ?_).mono
    (fun _ u h => ?_) (fun _ _ h => h)
  · show bankIndex < ((commandIssued config s _ _ _ _).ctl.updateAccess _ _ _).banks.length
    rw [same, commandIssued_banks]
    exact (List.getElem?_eq_some_iff.mp hbank).1
  · obtain ⟨banks, hbanks, rfl⟩ := h
    replace hbanks : transitionBanks config .preBank a.address.row bankIndex s.ctl.banks =
        .ok banks := by
      rw [← hbanks]
      show _ = transitionBanks config _ _ _
        ((commandIssued config s _ _ _ _).ctl.updateAccess _ _ _).banks
      rw [same, commandIssued_banks]
    exact .precharge demand local_ hbank hbanks

/-- Issuing a chosen command is one step: a row step without a transfer, or a data
step with one. -/
theorem issue_exits (wiring : Wiring config mapper) (sound : Sound config mapper s.ctl)
    {candidate : Candidate} {a : HbmAccess}
    (demand : Demand config mapper s.ctl now candidate.isWrite candidate.index a
      candidate.command) :
    Exits (issue config candidate now)
      (fun result t => match result with
        | none => RowStep config mapper now s t
        | some phys => DataStep config mapper now s phys t)
      (fun e t => e.isOverflow = true ∧ ∃ lost, LostStep config mapper now s lost t) s := by
  have plannedFor := plannedCommand_ok demand.planned
  obtain ⟨bankIndex, bank, local_, hbank, planned⟩ := plannedFor.planned
  have hlt := (List.getElem?_eq_some_iff.mp hbank).1
  unfold issue
  simp only [exits_bind, exits_get, demand.access, exits_ofExcept, exits_modify, local_,
    Except.ok.injEq, reduceCtorEq, false_imp_iff, implies_true, and_true, forall_eq']
  refine ⟨fun bank' hbank' => ?_, fun e he => ?_⟩
  · obtain rfl := Option.some.inj (hbank.symm.trans (vectorAt_ok.mp hbank'))
    rw [recordCommand_exits plannedFor.supported]
    unfold issueCommand
    simp only [started_logical]
    rcases plannedFor.cases with h | h | h
    · have step := issuePrecharge_exits (h ▸ demand) h local_ hbank
      rw [h]
      simp only [exits_bind, exits_pure]
      exact step.mono (fun _ _ h => h) (fun _ _ h => h.elim)
    · have step := issueActivate_exits (h ▸ demand) h local_ hlt
      rw [h]
      simp only [exits_bind, exits_pure]
      exact step.mono (fun _ _ h => h) (fun _ _ h => h.elim)
    · have hdata : candidate.command.isData = true :=
        h ▸ HbmCommandPlanner.requestedCommand_isData _ _
      have step := issueData_exits wiring sound demand hdata local_ hbank
      split
      · rename_i hcommand
        rw [hcommand] at hdata
        cases hdata
      · rename_i hcommand
        rw [hcommand] at hdata
        cases hdata
      · rename_i hcommand
        rw [hcommand] at hdata
        cases hdata
      · simp only [exits_bind, exits_pure]
        exact step
  · cases (vectorAt_ok.mpr hbank).symm.trans he

/-! ### The marks of `drive` -/

theorem reportStarving_core (now : Nat) (a : HbmAccess) :
    (reportStarving config now a).core = a.core := by
  unfold reportStarving
  split <;> rfl

theorem updateStarvation_retouched (s : ControllerState) (now : Nat) :
    Retouched config s (updateStarvation config s now) := by
  unfold updateStarvation
  split
  · exact .refl s
  · have same : HbmAccess.core ∘ reportStarving config now = HbmAccess.core :=
      funext (reportStarving_core now)
    refine ⟨rfl, fun w => ?_, ?_⟩
    · cases w <;> simp [queue, same]
    · dsimp only
      exact ⟨_, by intro q; rfl, rfl⟩

theorem accountStall_retouched (s : ControllerState) (now : Nat) :
    Retouched config s (accountStall config s now) := by
  unfold accountStall
  dsimp only
  split
  · refine ⟨rfl, fun _ => rfl, ?_⟩
    dsimp only
    split
    · exact ⟨_, by intro q; rfl, rfl⟩
    · exact ⟨id, fun _ => rfl, by simp⟩
  · exact .refl s

theorem updateWriteDrain_retouched (s : ControllerState) :
    Retouched config s (s.modifyCtl fun c => c.updateWriteDrain config) := by
  unfold updateWriteDrain ControllerState.modifyCtl
  dsimp only
  split
  · exact ⟨rfl, fun _ => rfl, id, fun _ => rfl, by simp⟩
  · split
    · exact ⟨rfl, fun _ => rfl, id, fun _ => rfl, by simp⟩
    · exact .refl s

/-! ### Driving the controller -/

/-- The ways a call of `drive` at `now` ends, with the step it returns. -/
inductive Driven (config : HbmControllerConfig) (mapper : HbmAddressMapper) (now : Nat)
    (s t : ControllerState) : HbmControllerStep → Prop
  | blocked (touched : Retouched config s t) (busy : now < t.ctl.refreshBusyUntil) :
      Driven config mapper now s t ⟨some t.ctl.refreshBusyUntil, none⟩
  | maintenanceWaits {candidate : MaintenanceCandidate} (touched : Retouched config s t)
      (plan : MaintenancePlan config mapper t.ctl now candidate)
      (later : now < candidate.readyAt) :
      Driven config mapper now s t ⟨some candidate.readyAt, none⟩
  | maintained {u : ControllerState} {candidate : MaintenanceCandidate}
      (touched : Retouched config s u) (idle : u.ctl.refreshBusyUntil ≤ now)
      (step : MaintenanceStep config mapper now u candidate now t) :
      Driven config mapper now s t
        ⟨some (if candidate.finalCommand then t.ctl.refreshBusyUntil else now), none⟩
  | empty (touched : Retouched config s t) (quiet : t.ctl.Quiet)
      (none_queued : ∀ w, t.ctl.queue w = []) : Driven config mapper now s t {}
  | waits {candidate : Candidate} (touched : Retouched config s t) (quiet : t.ctl.Quiet)
      (chosen : Chosen config mapper t.ctl now candidate) (later : now < candidate.readyAt) :
      Driven config mapper now s t ⟨some candidate.readyAt, none⟩
  | row {u : ControllerState} (touched : Retouched config s u)
      (step : RowStep config mapper now u t) : Driven config mapper now s t ⟨some now, none⟩
  | data {u : ControllerState} {phys : PhysicalAccess} (touched : Retouched config s u)
      (step : DataStep config mapper now u phys t) :
      Driven config mapper now s t ⟨some now, some phys⟩

theorem Quiet.retouched {c : HbmController} (quiet : c.Quiet) (h : Retouched config s t)
    (hs : s.ctl = c) : t.ctl.Quiet := by
  subst hs
  unfold Quiet at *
  rw [h.ctl]
  exact quiet

/-- A drive is one step of the controller or none, and fails only by overflow or where an exception
is excused. -/
theorem drive_exits (wiring : Wiring config mapper) (sound : Sound config mapper s.ctl) :
    Exits (drive config mapper now) (fun step t => Driven config mapper now s t step)
      (fun e t =>
        (e.isOverflow = true ∧
          ∃ u lost, Retouched config s u ∧ LostStep config mapper now u lost t) ∨
          (Retouched config s t ∧ Excused config mapper e)) s := by
  have starved : Retouched config s (updateStarvation config s now) :=
    updateStarvation_retouched s now
  generalize hu : updateStarvation config s now = u at starved
  have sound_u := sound.retouched starved
  unfold drive
  simp only [exits_bind, exits_modify, exits_get, hu, exits_ite, exits_pure, exits_ofExcept]
  refine ⟨fun busy => ?_, fun idle => ⟨fun choice hchoice => ?_, fun e he => ?_⟩⟩
  · have stalled : Retouched config u (accountStall config u now) := accountStall_retouched u now
    have same : (accountStall config u now).ctl.refreshBusyUntil = u.ctl.refreshBusyUntil := by
      rw [stalled.ctl]
    rw [← same] at busy ⊢
    exact .blocked (starved.trans stalled) busy
  · cases choice with
    | some candidate =>
        have plan := chooseMaintenance_some wiring sound_u hchoice
        simp only [exits_ite, exits_bind, exits_get, exits_pure]
        refine ⟨fun later => .maintenanceWaits starved plan later, fun ready => ?_⟩
        have ready : candidate.readyAt ≤ now := Nat.not_lt.mp ready
        exact (issueMaintenance_exits wiring sound_u plan (Nat.le_refl _) ready (.inl rfl)
          (.inl (Nat.le_refl _))).mono
          (fun _ t step => .maintained starved (Nat.not_lt.mp idle) step) (fun _ _ h => h.elim)
    | none =>
        have quiet := chooseMaintenance_none wiring sound_u hchoice
        have drained := starved.trans (updateWriteDrain_retouched u)
        simp only [exits_bind, exits_modify]
        refine (chooseNext_exits (sound.retouched drained)).mono (fun result v h => ?_)
          (fun e v h => .inr ⟨drained.trans h.1, h.2⟩)
        obtain ⟨chose, h⟩ := h
        have touched := drained.trans chose
        have quiet_v : v.ctl.Quiet :=
          quiet.retouched ((updateWriteDrain_retouched u).trans chose) rfl
        have idle_v : v.ctl.refreshBusyUntil ≤ now := by
          rw [((updateWriteDrain_retouched u).trans chose).ctl]
          exact Nat.not_lt.mp idle
        cases result with
        | none => exact .empty touched quiet_v h
        | some candidate =>
            obtain ⟨chosen, yields⟩ := h
            simp only [exits_ite, exits_bind, exits_pure]
            refine ⟨fun later => .waits touched quiet_v chosen later, fun ready => ?_⟩
            have ready : candidate.readyAt ≤ now := Nat.not_lt.mp ready
            obtain ⟨a, demand⟩ := Demand.chosen idle_v quiet_v chosen yields ready
            refine (issue_exits wiring (sound.retouched touched) demand).mono (fun result t h => ?_)
              (fun e _ h => .inl ⟨h.1, _, h.2.choose, touched, h.2.choose_spec⟩)
            cases result with
            | none => exact .row touched h
            | some phys => exact .data touched h
  · exact .inr ⟨starved, (chooseMaintenance_error wiring sound_u he).excused⟩

end HbmController

end HbmSim
