import HbmSim.System.Channel

/-!
The commands a channel records.

A beat of a channel records at most one command. `Beat.entry` says which: a
maintenance command, or a demand command for a queued access; every other beat leaves
the record, the banks and the buses alone.
-/

namespace HbmSim

open HbmSim.Lib HbmSystem

/-- The banks a command acts on. -/
def RecordedCommand.covers (r : RecordedCommand) (bank : Nat) : Prop :=
  r.command.isAllBank = true ∨ bank = r.bank

instance (r : RecordedCommand) (bank : Nat) : Decidable (r.covers bank) :=
  inferInstanceAs (Decidable (_ ∨ _))

namespace HbmController

/-! ### What stays the same -/

/-- The members `record_command` writes are the same. -/
structure SameRecord (c c' : HbmController) : Prop where
  history : c'.history = c.history
  unified : c'.unifiedCommandBusReadyAt = c.unifiedCommandBusReadyAt
  row : c'.rowCommandBusReadyAt = c.rowCommandBusReadyAt
  column : c'.columnCommandBusReadyAt = c.columnCommandBusReadyAt
  recorded : c'.recorded = c.recorded

/-- The members of refresh handling are the same, the flags of the banks apart. -/
structure SameRefresh (c c' : HbmController) : Prop where
  refreshPending : c'.refreshPending = c.refreshPending
  refreshBusyUntil : c'.refreshBusyUntil = c.refreshBusyUntil
  nextRefreshDue : c'.nextRefreshDue = c.nextRefreshDue
  dues : c'.dues = c.dues
  raised : c'.raised = c.raised
  overlapped : c'.overlapped = c.overlapped

/-- The members of the data bus are the same. -/
structure SameData (c c' : HbmController) : Prop where
  dataBusReadyAt : c'.dataBusReadyAt = c.dataBusReadyAt
  transfers : c'.transfers = c.transfers

/-- The flags of two banks are the same. -/
structure SameFlags (b b' : HbmBankState) : Prop where
  refreshPending : b'.refreshPending = b.refreshPending
  rfmPending : b'.rfmPending = b.rfmPending
  activationCount : b'.activationCount = b.activationCount

/-- The refresh counters of two records agree. -/
structure SameRefreshes (a b : ChannelStats) : Prop where
  refreshes : b.refreshes = a.refreshes
  perBankRefreshes : b.perBankRefreshes = a.perBankRefreshes

/-- The command bus statistics of two records agree. -/
structure SameBuses (a b : ChannelStats) : Prop where
  commandBus : b.commandBus = a.commandBus
  rowBus : b.rowCommandBus = a.rowCommandBus
  columnBus : b.columnCommandBus = a.columnCommandBus

/-! ### Entries of the record -/

variable (config : HbmControllerConfig) (mapper : HbmAddressMapper)

/-- A command is recorded: it was ready, and what `record_command` writes and the open
rows have followed. -/
structure Records (s t : ControllerState) (r : RecordedCommand) : Prop where
  ready : ∃ cursor ready, cursor ≤ r.issuedAt ∧ ready ≤ r.issuedAt ∧
    earliestCommand config mapper s.ctl r.command r.address cursor = .ok ready
  bank : r.bank < s.ctl.banks.length
  record : SameRecord (s.ctl.stampCommand config r) t.ctl
  wrapped : (s.ctl.stampCommand config r).wrapped = true → t.ctl.wrapped = true
  buses : SameBuses (busCommand config r (s.stats.channels config.channel))
    (t.stats.channels config.channel)
  banks : t.ctl.banks.length = s.ctl.banks.length
  rows : ∀ (i : Nat) b b', s.ctl.banks[i]? = some b → t.ctl.banks[i]? = some b' →
    b'.openRow = if r.covers i then r.command.rowAfter r.address.row b.openRow else b.openRow
  /-- A custom device under the open-row policy never owes a precharge. -/
  owed : config.standard = none → config.rowPolicy.useAutoPrecharge = false →
    ∀ b' ∈ t.ctl.banks, ∃ b ∈ s.ctl.banks, b'.prechargePending = b.prechargePending

/-- What a beat does to the record of a channel. -/
inductive Entry (now : Nat) (exempt : Prop) (s t : ControllerState) : Prop
  | silent (record : SameRecord s.ctl t.ctl) (refresh : SameRefresh s.ctl t.ctl)
      (data : SameData s.ctl t.ctl) (banks : t.ctl.banks = s.ctl.banks)
      (wrapped : t.ctl.wrapped = s.ctl.wrapped)
      (traffic : SameTraffic (s.stats.channels config.channel) (t.stats.channels config.channel))
  | raise (due : Nat)
      (bank : config.refreshPolicy = .perBank → s.ctl.nextPerBankRefresh < s.ctl.banks.length)
      (due_le : due ≤ now)
      (in_turn : s.ctl.wrapped = true ∨ ∀ next, s.ctl.nextRefreshDue = some next → due ≤ next)
      (after : t = s.modifyCtl (·.raise config due))
  | advance (base : Nat) (base_le : base ≤ now)
      (first : s.ctl.nextRefreshDue = none → base = now)
      (next : ∀ due, s.ctl.nextRefreshDue = some due → base = due)
      (after : t = s.modifyCtl (·.advanceDue config base))
  | maintain {candidate : MaintenanceCandidate} {r : RecordedCommand}
      (step : MaintenanceStep config mapper now s candidate r.issuedAt t)
      (records : Records config mapper s t r) (command : r.command = candidate.command)
      (bank : r.bank = candidate.localBank)
      (address : mapper.bankAddress (u32 (config.firstFlatBank + r.bank)) = .ok r.address)
  | demand {w : Bool} {index : Nat} {a : HbmAccess} {r : RecordedCommand}
      (demand : Demand config mapper s.ctl now w index a r.command)
      (records : Records config mapper s t r) (time : r.issuedAt = now)
      (address : r.address = a.address) (sequence : r.sequence = some a.sequence)
      (bank : localBank config a.address.flatBank = .ok r.bank)
      (refresh : SameRefresh s.ctl t.ctl)
      (flags : ∀ (i : Nat) b b', s.ctl.banks[i]? = some b → t.ctl.banks[i]? = some b' →
        SameFlags (if r.command = .act ∧ i = r.bank then noteActivation config b else b) b')
      (refreshes : SameRefreshes (s.stats.channels config.channel)
        (t.stats.channels config.channel))
      (timely : r.command.isData = true →
        exempt ∨ ∀ due, s.ctl.nextRefreshDue = some due → now ≤ due)

/-- A demand command is recorded, and issued for a queued access. -/
structure Demanded (now : Nat) (exempt : Prop) (s t : ControllerState) (w : Bool) (index : Nat)
    (a : HbmAccess) (r : RecordedCommand) : Prop where
  demand : Demand config mapper s.ctl now w index a r.command
  records : Records config mapper s t r
  time : r.issuedAt = now
  address : r.address = a.address
  sequence : r.sequence = some a.sequence
  bank : localBank config a.address.flatBank = .ok r.bank
  refresh : SameRefresh s.ctl t.ctl
  flags : ∀ (i : Nat) b b', s.ctl.banks[i]? = some b → t.ctl.banks[i]? = some b' →
    SameFlags (if r.command = .act ∧ i = r.bank then noteActivation config b else b) b'
  refreshes : SameRefreshes (s.stats.channels config.channel) (t.stats.channels config.channel)
  timely : r.command.isData = true → exempt ∨ ∀ due, s.ctl.nextRefreshDue = some due → now ≤ due

variable {config mapper} {s t : ControllerState} {now : Nat} {exempt : Prop}

/-- A demanded command is an entry of the record. -/
theorem Demanded.entry {w : Bool} {index : Nat} {a : HbmAccess} {r : RecordedCommand}
    (h : Demanded config mapper now exempt s t w index a r) : Entry config mapper now exempt s t :=
  .demand h.demand h.records h.time h.address h.sequence h.bank h.refresh h.flags h.refreshes
    h.timely

theorem SameRefreshes.trans {a b c : ChannelStats} (h : SameRefreshes a b)
    (h' : SameRefreshes b c) : SameRefreshes a c :=
  ⟨h'.refreshes.trans h.refreshes, h'.perBankRefreshes.trans h.perBankRefreshes⟩

theorem SameBuses.trans {a b c : ChannelStats} (h : SameBuses a b) (h' : SameBuses b c) :
    SameBuses a c :=
  ⟨h'.commandBus.trans h.commandBus, h'.rowBus.trans h.rowBus, h'.columnBus.trans h.columnBus⟩

/-! ### Statistics -/

theorem modifyQueue_refreshes (stats : HbmStats) (channel ch : Nat) (f : QueueStats → QueueStats) :
    SameRefreshes (stats.channels ch) ((stats.modifyQueue channel f).channels ch) :=
  have same := SameTraffic.modifyQueue stats channel ch f
  ⟨same.refreshes, same.perBankRefreshes⟩

theorem modifyQueue_buses (stats : HbmStats) (channel ch : Nat) (f : QueueStats → QueueStats) :
    SameBuses (stats.channels ch) ((stats.modifyQueue channel f).channels ch) :=
  have same := SameTraffic.modifyQueue stats channel ch f
  ⟨same.commandBus, same.rowBus, same.columnBus⟩

variable (config) in

theorem countStarts_traffic (stats : HbmStats) (items : List HbmAccess) (at_ ch : Nat) :
    SameTraffic (stats.channels ch) ((countStarts config stats items at_).channels ch) := by
  unfold countStarts
  split
  · exact .modifyQueue stats _ ch _
  · exact .refl _

variable (config) in

theorem countCommand_refreshes (stats : HbmStats) (r : RecordedCommand) :
    SameRefreshes (stats.channels config.channel)
      ((countCommand config stats r).channels config.channel) := by
  rw [countCommand_channels, HbmStats.modifyChannel_self]
  exact ⟨rfl, rfl⟩

theorem countCommand_buses (stats : HbmStats) (r : RecordedCommand) :
    SameBuses (busCommand config r (stats.channels config.channel))
      ((countCommand config stats r).channels config.channel) := by
  rw [countCommand_channels, HbmStats.modifyChannel_self]
  exact ⟨rfl, rfl, rfl⟩

theorem busCommand_congr {r : RecordedCommand} {a b : ChannelStats} (h : SameBuses a b) :
    SameBuses (busCommand config r a) (busCommand config r b) := by
  unfold busCommand
  constructor
  · show ResourceStats.addCommand b.commandBus _ = ResourceStats.addCommand a.commandBus _
    rw [h.commandBus]
  · show (if _ then ResourceStats.addCommand b.rowCommandBus _ else b.rowCommandBus) = _
    rw [h.rowBus]
  · show (if _ then ResourceStats.addCommand b.columnCommandBus _ else b.columnCommandBus) = _
    rw [h.columnBus]

variable (config) in

theorem countTransfer_same (stats : HbmStats) (items : List HbmAccess) (address : HbmAddress)
    (bankIndex : Nat) (slot : DataSlot) :
    SameRefreshes (stats.channels config.channel)
        ((countTransfer config stats items address bankIndex slot).channels config.channel) ∧
      SameBuses (stats.channels config.channel)
        ((countTransfer config stats items address bankIndex slot).channels config.channel) := by
  unfold countTransfer
  rw [HbmStats.modifyChannel_self]
  dsimp only
  split <;> exact ⟨⟨rfl, rfl⟩, rfl, rfl, rfl⟩

theorem countMaintenance_buses (stats : HbmStats) (requested : HbmCommand) :
    SameBuses (stats.channels config.channel)
      ((countMaintenance config stats requested).channels config.channel) := by
  unfold countMaintenance
  split
  case h_5 => exact ⟨rfl, rfl, rfl⟩
  all_goals
    unfold HbmStats.modifyChannel
    dsimp only
    rw [if_pos rfl]
    exact ⟨rfl, rfl, rfl⟩

/-! ### Banks -/

/-- The activation count is no row. -/
theorem noteActivation_openRow (b : HbmBankState) :
    (noteActivation config b).openRow = b.openRow := by
  unfold noteActivation
  split <;> rfl

/-- The activation count is none of the flags. -/
theorem noteActivation_flags {b b' : HbmBankState} (h : SameFlags b b') :
    SameFlags (noteActivation config b) (noteActivation config b') := by
  unfold noteActivation
  rw [h.activationCount]
  split
  · exact ⟨h.refreshPending, rfl, rfl⟩
  · exact ⟨h.refreshPending, h.rfmPending, by rw [← h.activationCount]⟩

/-- A bank that is found is one of the controller's. -/
theorem localBank_lt {flatBank index : Nat} (h : localBank config flatBank = .ok index) :
    index < config.bankCount := by
  obtain ⟨first, last, rfl⟩ := localBank_ok h
  have wraps : u32 (config.firstFlatBank + config.bankCount) ≤
    config.firstFlatBank + config.bankCount :=
    Nat.mod_le _ _
  omega

/-- A row transition keeps the flags. -/
theorem RowChange.flags {k : HbmCommand} {row : Nat} {b b' : HbmBankState}
    (h : RowChange k row b b') : SameFlags b b' :=
  ⟨h.refreshPending, h.rfmPending, h.activationCount⟩

/-- The rows and flags of the banks after a transition. -/
theorem RowsChanged.bank {k : HbmCommand} {row index : Nat} {before after : List HbmBankState}
    (h : RowsChanged k row index before after) {i : Nat} {b b' : HbmBankState}
    (hb : before[i]? = some b) (hb' : after[i]? = some b') :
    (b'.openRow = if k.isAllBank = true ∨ i = index then k.rowAfter row b.openRow else b.openRow) ∧
      SameFlags b b' := by
  have change := h.2.2 i b b' hb hb'
  split at change
  · rename_i covers
    rw [if_pos covers]
    exact ⟨change.openRow, RowChange.flags change⟩
  · rename_i covers
    rw [if_neg covers, change]
    exact ⟨rfl, rfl, rfl, rfl⟩

/-- The rows and flags of the banks after a data command. -/
theorem dataBanks_bank {k : HbmCommand} {row index : Nat} {banks banks' : List HbmBankState}
    (data : k.isData = true) (noAuto : config.standard = none → k.isAuto = false)
    (run : dataBanks config k row index banks = .ok banks') {i : Nat} {b b' : HbmBankState}
    (hb : banks[i]? = some b) (hb' : banks'[i]? = some b') :
    (b'.openRow = if k.isAllBank = true ∨ i = index then k.rowAfter row b.openRow else b.openRow) ∧
      SameFlags b b' := by
  unfold dataBanks at run
  split at run
  · exact RowsChanged.bank (transitionBanks_ok noAuto run) hb hb'
  · rename_i custom
    have still : ∀ openRow, k.rowAfter row openRow = openRow := by
      intro openRow
      have plain := noAuto (by simpa using custom)
      cases k <;> first | rfl | cases data; done | cases plain
    simp only [still, ite_self]
    split at run
    · obtain rfl := Except.ok.inj run
      rw [List.getElem?_modify, hb] at hb'
      obtain rfl := Option.some.inj hb'
      split <;> exact ⟨rfl, rfl, rfl, rfl⟩
    · obtain rfl := Except.ok.inj run
      obtain rfl := Option.some.inj (hb.symm.trans hb')
      exact ⟨rfl, rfl, rfl, rfl⟩

/-- The bank at `i` after one bank of a vector is changed. -/
theorem modify_bank {f : HbmBankState → HbmBankState} {banks : List HbmBankState} {index i : Nat}
    {b' : HbmBankState} (h : (banks.modify index f)[i]? = some b') :
    ∃ b, banks[i]? = some b ∧ b' = if i = index then f b else b := by
  rw [List.getElem?_modify] at h
  cases hb : banks[i]? with
  | none => simp [hb] at h
  | some b =>
      refine ⟨b, rfl, ?_⟩
      rw [hb] at h
      by_cases same : index = i
      · simpa [same] using h.symm
      · simpa [same, Ne.symm same] using h.symm

/-- A custom device's transitions leave the owed precharges alone. -/
theorem transitionBanks_owed {k : HbmCommand} {row index : Nat} {banks banks' : List HbmBankState}
    (custom : config.standard = none)
    (run : transitionBanks config k row index banks = .ok banks') :
    ∀ b' ∈ banks', ∃ b ∈ banks, b'.prechargePending = b.prechargePending := by
  have modified : ∀ {f : HbmBankState → HbmBankState},
      (∀ b, (f b).prechargePending = b.prechargePending) → ∀ b' ∈ banks.modify index f,
        ∃ b ∈ banks, b'.prechargePending = b.prechargePending := by
    intro f keeps b' hb'
    obtain ⟨b, hb, rfl | rfl⟩ := mem_modify hb'
    · exact ⟨_, hb, rfl⟩
    · exact ⟨b, hb, keeps b⟩
  have mapped : ∀ b' ∈ banks.map fun b => { b with openRow := none },
      ∃ b ∈ banks, b'.prechargePending = b.prechargePending := by
    intro b' hb'
    obtain ⟨b, hb, rfl⟩ := List.mem_map.mp hb'
    exact ⟨b, hb, rfl⟩
  unfold transitionBanks at run
  rw [custom] at run
  dsimp only at run
  split at run
  · exact Except.ok.inj run ▸ mapped
  · exact Except.ok.inj run ▸ mapped
  · exact Except.ok.inj run ▸ mapped
  · split at run
    · cases run
    · split at run <;> obtain rfl := Except.ok.inj run
      · exact modified fun _ => rfl
      · exact modified fun _ => rfl
      · exact modified fun _ => rfl
      · exact modified fun _ => rfl
      · exact fun b hb => ⟨b, hb, rfl⟩

/-- Without auto-precharge a custom device owes no new precharge. -/
theorem dataBanks_owed {k : HbmCommand} {row index : Nat} {banks banks' : List HbmBankState}
    (custom : config.standard = none) (opens : config.rowPolicy.useAutoPrecharge = false)
    (run : dataBanks config k row index banks = .ok banks') :
    ∀ b' ∈ banks', ∃ b ∈ banks, b'.prechargePending = b.prechargePending := by
  unfold dataBanks at run
  rw [if_neg (by simp [custom]), if_neg (by simp [opens])] at run
  obtain rfl := Except.ok.inj run
  exact fun b hb => ⟨b, hb, rfl⟩

/-- Settling maintenance owes no precharge. -/
theorem settleMaintenance_owed {c : HbmController} {requested : HbmCommand} {bank : Nat} :
    ∀ b' ∈ (c.settleMaintenance requested bank).banks,
      ∃ b ∈ c.banks, b'.prechargePending = b.prechargePending := by
  intro b' hb'
  unfold settleMaintenance at hb'
  split at hb'
  · obtain ⟨b, hb, rfl⟩ := List.mem_map.mp hb'
    exact ⟨b, hb, rfl⟩
  · obtain ⟨b, hb, rfl | rfl⟩ := mem_modify hb' <;> exact ⟨_, hb, rfl⟩
  · obtain ⟨b, hb, rfl⟩ := List.mem_map.mp hb'
    exact ⟨b, hb, rfl⟩
  · obtain ⟨b, hb, rfl | rfl⟩ := mem_modify hb' <;> exact ⟨_, hb, rfl⟩
  · exact ⟨b', hb', rfl⟩

/-- A demanded command is ready at the time of the drive. -/
theorem Demand.ready_at {c : HbmController} {w : Bool} {index : Nat} {a : HbmAccess} {k : HbmCommand}
    (demand : Demand config mapper c now w index a k) :
    ∃ cursor ready, cursor ≤ now ∧ ready ≤ now ∧
      earliestCommand config mapper c k a.address cursor = .ok ready :=
  ⟨now, now, Nat.le_refl _, Nat.le_refl _, demand.ready⟩

/-- A planned maintenance command moves no data and opens no row. -/
theorem MaintenancePlan.no_demand {c : HbmController} {candidate : MaintenanceCandidate}
    (plan : MaintenancePlan config mapper c now candidate) :
    candidate.command.isData = false ∧ candidate.command ≠ .act := by
  rcases plan.purpose with ⟨-, -, -, command⟩ | ⟨-, bank, -, requested, -, command⟩
  · rw [command]
    split <;> exact ⟨rfl, nofun⟩
  · rw [command]
    split
    · exact ⟨rfl, nofun⟩
    · rcases requestedMaintenance_cases requested with ⟨kind, -⟩ | ⟨kind, -⟩ <;> rw [kind] <;>
        exact ⟨rfl, nofun⟩

/-! ### Entries of the steps -/

/-- A maintenance command is recorded with its bank and time. -/
theorem MaintenanceStep.recording {candidate : MaintenanceCandidate} {time : Nat}
    (step : MaintenanceStep config mapper now s candidate time t) :
    ∃ r, r.issuedAt = time ∧ Records config mapper s t r ∧ r.command = candidate.command ∧
      r.bank = candidate.localBank ∧
        mapper.bankAddress (u32 (config.firstFlatBank + r.bank)) = .ok r.address := by
  have banks := step.banks
  cases step with
  | @mk cursor address banks' plan cursor_le ready prompt timely haddress hbanks =>
      refine ⟨⟨candidate.command, address, candidate.localBank, time, none⟩, rfl,
        ⟨?_, plan.localBank_lt, ?_, ?_, ?_, banks.1, ?_, ?_⟩, rfl, rfl, haddress⟩
      · obtain ⟨address', haddress', hready⟩ := plan.address
        obtain rfl := Except.ok.inj (haddress.symm.trans haddress')
        exact ⟨cursor, candidate.readyAt, cursor_le, ready, hready⟩
      · cases final : candidate.finalCommand with
        | true =>
            rw [maintained_final final]
            unfold settleMaintenance
            split <;> exact ⟨rfl, rfl, rfl, rfl, rfl⟩
        | false =>
            rw [maintained_prerequisite final]
            exact ⟨rfl, rfl, rfl, rfl, rfl⟩
      · intro wraps
        cases final : candidate.finalCommand with
        | true =>
            rw [maintained_final final]
            unfold settleMaintenance
            split <;> exact (congrArg (· || _) wraps).trans (Bool.true_or _)
        | false =>
            rw [maintained_prerequisite final]
            exact wraps
      · unfold maintained
        dsimp only
        split
        · exact (countCommand_buses _ _).trans (countMaintenance_buses _ _)
        · exact countCommand_buses _ _
      · intro i b b' hb hb'
        have change := banks.2 i b b' hb hb'
        have close : ∀ row openRow, candidate.command.rowAfter row openRow = none := by
          intro row openRow
          unfold HbmCommand.rowAfter
          rw [plan.transition]
        by_cases covers : candidate.command.isAllBank = true ∨ i = candidate.localBank
        · rw [if_pos covers] at change
          exact change.openRow.trans ((if_pos covers).trans (close _ _)).symm
        · rw [if_neg covers] at change
          exact (congrArg (·.openRow) change).trans (if_neg covers).symm
      · intro custom _ b' hb'
        have kept := transitionBanks_owed custom hbanks
        cases final : candidate.finalCommand with
        | true =>
            rw [maintained_final final] at hb'
            obtain ⟨b₁, hb₁, same⟩ := settleMaintenance_owed b' hb'
            obtain ⟨b, hb, same'⟩ := kept b₁ hb₁
            exact ⟨b, hb, same.trans same'⟩
        | false =>
            rw [maintained_prerequisite final] at hb'
            exact kept b' hb'

/-- A maintenance command is an entry of the record. -/
theorem MaintenanceStep.entry {candidate : MaintenanceCandidate} {time : Nat}
    (step : MaintenanceStep config mapper now s candidate time t) :
    Entry config mapper now exempt s t := by
  obtain ⟨r, rfl, records, command, bank, address⟩ := step.recording
  exact .maintain step records command bank address

/-- A row command is recorded for the access that demanded it. -/
theorem RowStep.demanded (sound : Sound config mapper s.ctl) (step : RowStep config mapper now s t) :
    ∃ w index a r, r.command.isData = false ∧
      Demanded config mapper now exempt s t w index a r := by
  cases step with
  | @activate w index bankIndex a banks demand local_ hbanks =>
      have rows := transitionBanks_ok (fun _ => rfl) hbanks
      refine ⟨w, index, a, ⟨.act, a.address, bankIndex, now, some a.sequence⟩, rfl, demand,
        ⟨demand.ready_at, sound.banks ▸ localBank_lt local_, ?_, ?_, ?_, ?_, ?_, ?_⟩, rfl, rfl, rfl,
        local_, ?_, ?_, ?_, nofun⟩
      · rw [activatedState_ctl]
        exact ⟨rfl, rfl, rfl, rfl, rfl⟩
      · rw [activatedState_ctl]
        exact id
      · rw [activatedState_stats]
        have starts := countStarts_traffic config s.stats [a] now config.channel
        exact (busCommand_congr ⟨starts.commandBus, starts.rowBus, starts.columnBus⟩).trans
          (countCommand_buses _ _)
      · rw [activatedState_ctl]
        exact (List.length_modify ..).trans rows.1
      -- the activation count is noted after the row opened, and moves no row
      · intro i b b' hb hb'
        rw [activatedState_ctl] at hb'
        obtain ⟨b₁, hb₁, rfl⟩ := modify_bank hb'
        have row := (RowsChanged.bank rows hb hb₁).1
        split
        · rwa [noteActivation_openRow]
        · exact row
      · intro custom _ b' hb'
        rw [activatedState_ctl] at hb'
        obtain ⟨b₁, hb₁, same⟩ := mem_modify hb'
        obtain ⟨b, hb, kept⟩ := transitionBanks_owed custom hbanks b₁ hb₁
        refine ⟨b, hb, ?_⟩
        rcases same with rfl | rfl
        · exact kept
        · unfold noteActivation
          split <;> exact kept
      · rw [activatedState_ctl]
        exact ⟨rfl, rfl, rfl, rfl, rfl, rfl⟩
      · intro i b b' hb hb'
        rw [activatedState_ctl] at hb'
        obtain ⟨b₁, hb₁, rfl⟩ := modify_bank hb'
        have same := (RowsChanged.bank rows hb hb₁).2
        by_cases here : i = bankIndex
        · rw [if_pos here, if_pos ⟨rfl, here⟩]
          exact noteActivation_flags same
        · rw [if_neg here, if_neg (fun h => here h.2)]
          exact same
      · rw [activatedState_stats]
        have starts := countStarts_traffic config s.stats [a] now config.channel
        exact SameRefreshes.trans ⟨starts.refreshes, starts.perBankRefreshes⟩
          (countCommand_refreshes _ _ _)
  | @precharge w index bankIndex a bank banks demand local_ _ hbanks =>
      have rows := transitionBanks_ok (fun _ => rfl) hbanks
      refine ⟨w, index, a, ⟨.preBank, a.address, bankIndex, now, some a.sequence⟩, rfl, demand,
        ⟨demand.ready_at, sound.banks ▸ localBank_lt local_, ?_, ?_, ?_, ?_, ?_, ?_⟩, rfl, rfl, rfl,
        local_, ?_, ?_, ?_, nofun⟩
      · rw [prechargedState_ctl]
        exact ⟨rfl, rfl, rfl, rfl, rfl⟩
      · rw [prechargedState_ctl]
        exact id
      · rw [prechargedState_stats]
        have starts := countStarts_traffic config s.stats [a] now config.channel
        exact (busCommand_congr ⟨starts.commandBus, starts.rowBus, starts.columnBus⟩).trans
          (countCommand_buses _ _)
      · rw [prechargedState_ctl]
        exact rows.1
      · intro i b b' hb hb'
        rw [prechargedState_ctl] at hb'
        exact (RowsChanged.bank rows hb hb').1
      · intro custom _ b' hb'
        rw [prechargedState_ctl] at hb'
        exact transitionBanks_owed custom hbanks b' hb'
      · rw [prechargedState_ctl]
        exact ⟨rfl, rfl, rfl, rfl, rfl, rfl⟩
      · intro i b b' hb hb'
        rw [prechargedState_ctl] at hb'
        rw [if_neg (by simp)]
        exact (RowsChanged.bank rows hb hb').2
      · rw [prechargedState_stats]
        have starts := countStarts_traffic config s.stats [a] now config.channel
        exact SameRefreshes.trans ⟨starts.refreshes, starts.perBankRefreshes⟩
          (countCommand_refreshes _ _ _)

/-- A data command is no activation. -/
theorem isAllBank_of_data {k : HbmCommand} (data : k.isData = true) : k ≠ .act := by
  rintro rfl
  cases data

theorem transferredState_traffic {w : Bool} {index : Nat} {a : HbmAccess} {r : RecordedCommand}
    {banks : List HbmBankState} {slot : DataSlot} :
    SameRefreshes (s.stats.channels config.channel)
        ((transferredState config s w index a r banks slot).stats.channels config.channel) ∧
      SameBuses (busCommand config r (s.stats.channels config.channel))
        ((transferredState config s w index a r banks slot).stats.channels config.channel) := by
  let f : QueueStats → QueueStats := fun q =>
    { q with mergedAccesses := q.mergedAccesses + ((takeAccesses config
      (commandIssued config s w index a r).ctl w index (leader a r.issuedAt)).1.length - 1) }
  let taken := (takeAccesses config (commandIssued config s w index a r).ctl w index
    (leader a r.issuedAt)).1
  let counted := countCommand config (countStarts config s.stats [a] r.issuedAt) r
  have starts := countStarts_traffic config s.stats [a] r.issuedAt config.channel
  have served := countStarts_traffic config (counted.modifyQueue config.channel f)
    taken slot.issuedAt config.channel
  have transfer := countTransfer_same config
    (countStarts config (counted.modifyQueue config.channel f) taken slot.issuedAt)
    (servedAccesses taken slot) a.address r.bank slot
  constructor
  · exact ((SameRefreshes.trans ⟨starts.refreshes, starts.perBankRefreshes⟩
      (countCommand_refreshes _ _ r)).trans (modifyQueue_refreshes counted _ _ f)).trans
        (SameRefreshes.trans ⟨served.refreshes, served.perBankRefreshes⟩ transfer.1)
  · exact (((busCommand_congr ⟨starts.commandBus, starts.rowBus, starts.columnBus⟩).trans
      (countCommand_buses _ r)).trans (modifyQueue_buses counted _ _ f)).trans
        (SameBuses.trans ⟨served.commandBus, served.rowBus, served.columnBus⟩ transfer.2)

/-- A data command is recorded for its leader. -/
theorem DataStep.demanded (sound : Sound config mapper s.ctl) {physical : PhysicalAccess}
    (step : DataStep config mapper now s physical t)
    (timely : exempt ∨ ∀ due, s.ctl.nextRefreshDue = some due → now ≤ due) :
    ∃ w index a r, r.command.isData = true ∧ physical.address = a.address ∧
      Demanded config mapper now exempt s t w index a r := by
  cases step with
  | @mk w index bankIndex _ _ a k _ banks slot demand data local_ hbanks =>
      refine ⟨w, index, a, ⟨k, a.address, bankIndex, now, some a.sequence⟩, data, rfl, demand,
        ⟨demand.ready_at, sound.banks ▸ localBank_lt local_, ?_, ?_, transferredState_traffic.2, ?_,
          ?_, ?_⟩, rfl, rfl, rfl, local_, ?_, ?_, transferredState_traffic.1, fun _ => timely⟩
      · rw [transferredState_ctl]
        exact ⟨rfl, rfl, rfl, rfl, rfl⟩
      · intro wraps
        rw [transferredState_ctl]
        exact (congrArg (fun b => b || _ || _) wraps).trans rfl
      · rw [transferredState_ctl]
        exact (dataBanks_flags demand.noAuto hbanks).1
      · intro i b b' hb hb'
        rw [transferredState_ctl] at hb'
        exact (dataBanks_bank data demand.noAuto hbanks hb hb').1
      · intro custom opens b' hb'
        rw [transferredState_ctl] at hb'
        exact dataBanks_owed custom opens hbanks b' hb'
      · rw [transferredState_ctl]
        exact ⟨rfl, rfl, rfl, rfl, rfl, rfl⟩
      · intro i b b' hb hb'
        rw [transferredState_ctl] at hb'
        rw [if_neg fun h => isAllBank_of_data data h.1]
        exact (dataBanks_bank data demand.noAuto hbanks hb hb').2

/-- A lost transfer is recorded for its leader as well. -/
theorem LostStep.demanded (sound : Sound config mapper s.ctl) {lost : List LogicalAccess}
    (step : LostStep config mapper now s lost t)
    (timely : exempt ∨ ∀ due, s.ctl.nextRefreshDue = some due → now ≤ due) :
    ∃ w index a r, r.command.isData = true ∧
      lost = (takenAccesses config s w index a now).map HbmAccess.toLogicalAccess ∧
        Demanded config mapper now exempt s t w index a r := by
  cases step with
  | @mk w index bankIndex a k banks _ demand data local_ hbanks =>
      let r : RecordedCommand := ⟨k, a.address, bankIndex, now, some a.sequence⟩
      have starts := countStarts_traffic config s.stats [a] now config.channel
      let f : QueueStats → QueueStats := fun q =>
        { q with mergedAccesses := q.mergedAccesses + ((takeAccesses config
          (commandIssued config s w index a r).ctl w index (leader a now)).1.length - 1) }
      let counted := countCommand config (countStarts config s.stats [a] now) r
      refine ⟨w, index, a, r, data, rfl, demand,
        ⟨demand.ready_at, sound.banks ▸ localBank_lt local_, ?_, ?_, ?_, ?_, ?_, ?_⟩,
        rfl, rfl, rfl, local_, ?_, ?_, ?_, fun _ => timely⟩
      · rw [takenState_ctl]
        exact ⟨rfl, rfl, rfl, rfl, rfl⟩
      · intro wraps
        rw [takenState_ctl]
        exact (congrArg (· || _) wraps).trans rfl
      · exact ((busCommand_congr ⟨starts.commandBus, starts.rowBus, starts.columnBus⟩).trans
          (countCommand_buses _ r)).trans (modifyQueue_buses counted _ _ f)
      · rw [takenState_ctl]
        exact (dataBanks_flags demand.noAuto hbanks).1
      · intro i b b' hb hb'
        rw [takenState_ctl] at hb'
        exact (dataBanks_bank data demand.noAuto hbanks hb hb').1
      · intro custom opens b' hb'
        rw [takenState_ctl] at hb'
        exact dataBanks_owed custom opens hbanks b' hb'
      · rw [takenState_ctl]
        exact ⟨rfl, rfl, rfl, rfl, rfl, rfl⟩
      · intro i b b' hb hb'
        rw [takenState_ctl] at hb'
        rw [if_neg fun h => isAllBank_of_data data h.1]
        exact (dataBanks_bank data demand.noAuto hbanks hb hb').2
      · exact (SameRefreshes.trans ⟨starts.refreshes, starts.perBankRefreshes⟩
          (countCommand_refreshes _ _ r)).trans (modifyQueue_refreshes counted _ _ f)

/-- What a beat records. -/
theorem Beat.entry (sound : Sound config mapper s.ctl) (beat : Beat config mapper now exempt s t) :
    Entry config mapper now exempt s t := by
  cases beat with
  | step step =>
      cases step with
      | retouch touched =>
          obtain ⟨f, -, hf⟩ := touched.stats
          have traffic := SameTraffic.modifyQueue s.stats config.channel config.channel f
          rw [← hf] at traffic
          refine .silent ?_ ?_ ?_ touched.banks ?_ traffic
          · rw [touched.ctl]
            exact ⟨rfl, rfl, rfl, rfl, rfl⟩
          · rw [touched.ctl]
            exact ⟨rfl, rfl, rfl, rfl, rfl, rfl⟩
          · rw [touched.ctl]
            exact ⟨rfl, rfl⟩
          · rw [touched.ctl]
      | raise due bank due_le in_turn => exact .raise due bank due_le in_turn rfl
      | advanceDue base base_le first next =>
          exact .advance base base_le (fun none => (first none).1) next rfl
      | maintain step => exact MaintenanceStep.entry step
      | row step =>
          obtain ⟨_, _, _, _, -, demanded⟩ := RowStep.demanded sound step
          exact demanded.entry
  | data step timely =>
      obtain ⟨_, _, _, _, -, -, demanded⟩ := DataStep.demanded sound step timely
      exact demanded.entry
  | lose step timely =>
      obtain ⟨_, _, _, _, -, -, demanded⟩ := LostStep.demanded sound step timely
      exact demanded.entry
  | aside aside traffic =>
      obtain ⟨c, stats⟩ := t
      dsimp only at aside
      cases aside with
      | mark =>
          exact .silent ⟨rfl, rfl, rfl, rfl, rfl⟩ ⟨rfl, rfl, rfl, rfl, rfl, rfl⟩ ⟨rfl,
            rfl⟩ rfl rfl traffic
      | reserve =>
          exact .silent ⟨rfl, rfl, rfl, rfl, rfl⟩ ⟨rfl, rfl, rfl, rfl, rfl, rfl⟩ ⟨rfl,
            rfl⟩ rfl rfl traffic
      | push =>
          exact .silent ⟨rfl, rfl, rfl, rfl, rfl⟩ ⟨rfl, rfl, rfl, rfl, rfl, rfl⟩ ⟨rfl,
            rfl⟩ rfl rfl traffic
      | finish =>
          exact .silent ⟨rfl, rfl, rfl, rfl, rfl⟩ ⟨rfl, rfl, rfl, rfl, rfl, rfl⟩ ⟨rfl,
            rfl⟩ rfl rfl traffic

end HbmController

/-- What holds of a new controller, survives the clock moving on, and is kept by every
entry of the record, holds of every controller in every state. -/
theorem HbmSystem.Run.entries {cfg : HbmConfig} (checked : cfg.Checked) (ch : Nat)
    {P : Nat → Prop → ControllerState → Prop}
    (start : P 0 False ((initial cfg).side ch))
    (later : ∀ {now now' exempt exempt' s}, now ≤ now' → (exempt → exempt') → P now exempt s →
      P now' exempt' s)
    (entry : ∀ {now exempt s t}, Sound (cfg.channelConfig ch) cfg.mapper s.ctl → P now exempt s →
      HbmController.Entry (cfg.channelConfig ch) cfg.mapper now exempt s t → P now exempt t)
    {p : HbmSystem × Debts} (run : Run cfg p) :
    P p.1.now (p.2.escaped = true ∨ Overflowed cfg p.1) (p.1.side ch) :=
  (run.channel checked ch start later
    fun sound holds beat => entry sound holds (beat.entry sound)).2

end HbmSim
