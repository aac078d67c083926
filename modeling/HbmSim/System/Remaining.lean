import HbmSim.System.Rows

/-!
What a channel still has to wait for.

A row command serves an access that is queued: an ACT opens a row that one waits for, and a
precharge closes a row that none waits for. `horizon` is the time from which every command a
channel may plan is ready.
-/

namespace HbmSim

open HbmSim.Lib HbmSystem

/-- The commands that maintenance may plan. -/
def HbmCommand.upkeep : List HbmCommand :=
  [.preAll, .refreshAllBank, .preBank, .refreshPerBank, .rfmPerBank]

namespace HbmController

variable (config : HbmControllerConfig) (mapper : HbmAddressMapper)

/-- A queued access waits for a row of a bank. -/
def Wanted (c : HbmController) (bank row : Nat) : Prop :=
  ∃ l ∈ c.queued, localBank config l.address.flatBank = .ok bank ∧ l.address.row = row

instance (c : HbmController) (bank row : Nat) : Decidable (Wanted config c bank row) :=
  inferInstanceAs (Decidable (∃ l ∈ c.queued, _ ∧ _))

def openRow (c : HbmController) (bank : Nat) : Option Nat := c.banks[bank]?.bind (·.openRow)

/-- The earliest time of the command planned for an access. -/
def readyAt (c : HbmController) (l : LogicalAccess) : Nat :=
  match plannedCommand config c { toLogicalAccess := l } with
  | .error _ => 0
  | .ok command =>
      match earliestCommand config mapper c command l.address 0 with
      | .error _ => 0
      | .ok ready => ready

/-- The earliest time of a command that maintains a bank. -/
def upkeepAt (c : HbmController) (bank : Nat) (command : HbmCommand) : Nat :=
  match mapper.bankAddress (u32 (config.firstFlatBank + bank)) with
  | .error _ => 0
  | .ok address =>
      match earliestCommand config mapper c command address 0 with
      | .error _ => 0
      | .ok ready => ready

/-- The latest of the earliest times of what the channel may wait for. -/
def horizon (c : HbmController) : Nat :=
  max c.refreshBusyUntil (max (latest (c.queued.map (readyAt config mapper c)))
    (latest ((List.range c.banks.length).flatMap fun bank =>
      HbmCommand.upkeep.map (upkeepAt config mapper c bank))))

variable {config mapper} {s t : ControllerState} {c c' : HbmController} {now : Nat}

/-! ### What they depend on -/

theorem Wanted.congr (queued : c'.queued = c.queued) {bank row : Nat}
    (waits : Wanted config c bank row) : Wanted config c' bank row := by
  unfold Wanted
  rw [queued]
  exact waits

theorem earliestCommand_congr (record : SameRecord c c') (banks : c'.banks = c.banks)
    (command : HbmCommand) (address : HbmAddress) (time : Nat) :
    earliestCommand config mapper c' command address time =
      earliestCommand config mapper c command address time := by
  unfold earliestCommand earliestAllBank bankStep commandBusReady
  rw [record.history, record.unified, record.row, record.column, banks]

theorem readyAt_congr (record : SameRecord c c') (banks : c'.banks = c.banks) (l : LogicalAccess) :
    readyAt config mapper c' l = readyAt config mapper c l := by
  unfold readyAt plannedCommand
  simp only [earliestCommand_congr record banks, banks]

theorem upkeepAt_congr (record : SameRecord c c') (banks : c'.banks = c.banks) (bank : Nat)
    (command : HbmCommand) :
    upkeepAt config mapper c' bank command = upkeepAt config mapper c bank command := by
  unfold upkeepAt
  simp only [earliestCommand_congr record banks]

theorem horizon_congr (record : SameRecord c c') (banks : c'.banks = c.banks)
    (queued : c'.queued = c.queued) (busy : c'.refreshBusyUntil = c.refreshBusyUntil) :
    horizon config mapper c' = horizon config mapper c := by
  have ready : readyAt config mapper c' = readyAt config mapper c :=
    funext fun l => readyAt_congr record banks l
  have upkeep : upkeepAt config mapper c' = upkeepAt config mapper c :=
    funext fun bank => funext fun command => upkeepAt_congr record banks bank command
  unfold horizon
  rw [queued, banks, busy, ready, upkeep]

/-! ### Waiting -/

/-- Every time is at most the latest. -/
theorem le_latest {times : List Nat} {time : Nat} (mem : time ∈ times) : time ≤ latest times := by
  induction times with
  | nil => cases mem
  | cons first rest ih =>
      unfold latest
      rw [List.foldr_cons]
      rcases List.mem_cons.mp mem with rfl | mem
      · exact Nat.le_max_left _ _
      · exact Nat.le_trans (ih mem) (Nat.le_max_right _ _)

/-- An access in a queue is queued. -/
theorem mem_queued {w : Bool} {a : HbmAccess} (ha : a ∈ c.queue w) :
    a.toLogicalAccess ∈ c.queued := by
  unfold HbmController.queued
  cases w with
  | false => exact List.mem_append_left _ (List.mem_map_of_mem ha)
  | true => exact List.mem_append_right _ (List.mem_map_of_mem ha)

/-- What is queued is in one of the queues. -/
theorem of_mem_queued {l : LogicalAccess} (hl : l ∈ c.queued) :
    ∃ w, ∃ a ∈ c.queue w, a.toLogicalAccess = l := by
  unfold HbmController.queued at hl
  rcases List.mem_append.mp hl with hl | hl
  · exact ⟨false, List.mem_map.mp hl⟩
  · exact ⟨true, List.mem_map.mp hl⟩

/-- A command that has to wait does not depend on the time. -/
theorem earliestCommand_later {command : HbmCommand} {address : HbmAddress} {ready : Nat}
    (run : earliestCommand config mapper c command address now = .ok ready) (later : now < ready) :
    earliestCommand config mapper c command address 0 = .ok ready := by
  rw [earliestCommand_eq_max] at run
  cases from_zero : earliestCommand config mapper c command address 0 with
  | error e =>
      rw [from_zero] at run
      cases run
  | ok at_ =>
      rw [from_zero] at run
      have same : max now at_ = ready := Except.ok.inj run
      have here : at_ = ready := by omega
      rw [here]

/-- A chosen command that has to wait is ready by the horizon. -/
theorem Chosen.le_horizon {candidate : Candidate} (chosen : Chosen config mapper c now candidate)
    (later : now < candidate.readyAt) : candidate.readyAt ≤ horizon config mapper c := by
  obtain ⟨a, ha, planned, ready⟩ := chosen
  have here : readyAt config mapper c a.toLogicalAccess = candidate.readyAt := by
    unfold readyAt
    have planned' : plannedCommand config c { toLogicalAccess := a.toLogicalAccess } =
        .ok candidate.command := (plannedCommand_congr rfl rfl).trans planned
    rw [planned']
    dsimp only
    rw [earliestCommand_later ready later]
  have mem := List.mem_map_of_mem (f := readyAt config mapper c)
    (mem_queued (List.mem_of_getElem? ha))
  rw [← here]
  exact Nat.le_trans (le_latest mem) (Nat.le_trans (Nat.le_max_left _ _) (Nat.le_max_right _ _))

/-- So is a planned maintenance command. -/
theorem MaintenancePlan.le_horizon {candidate : MaintenanceCandidate}
    (plan : MaintenancePlan config mapper c now candidate) (later : now < candidate.readyAt) :
    candidate.readyAt ≤ horizon config mapper c := by
  obtain ⟨address, haddress, ready⟩ := plan.address
  have here : upkeepAt config mapper c candidate.localBank candidate.command =
    candidate.readyAt := by
    unfold upkeepAt
    rw [haddress]
    dsimp only
    rw [earliestCommand_later ready later]
  have command : candidate.command ∈ HbmCommand.upkeep := by
    rcases plan.purpose with ⟨-, -, -, command⟩ | ⟨-, bank, -, requested, -, command⟩
    · rw [command]
      split <;> decide
    · rw [command]
      split
      · decide
      · rcases requestedMaintenance_cases requested with ⟨kind, -⟩ | ⟨kind,
          -⟩ <;> rw [kind] <;> decide
  have mem : upkeepAt config mapper c candidate.localBank candidate.command ∈
      (List.range c.banks.length).flatMap fun bank =>
        HbmCommand.upkeep.map (upkeepAt config mapper c bank) :=
    List.mem_flatMap.mpr ⟨_, List.mem_range.mpr plan.localBank_lt, List.mem_map_of_mem command⟩
  rw [← here]
  exact Nat.le_trans (le_latest mem) (Nat.le_trans (Nat.le_max_right _ _) (Nat.le_max_right _ _))

/-- So is a channel that a refresh or RFM blocks. -/
theorem busy_le_horizon : c.refreshBusyUntil ≤ horizon config mapper c := Nat.le_max_left _ _

/-! ### Row commands -/

/-- The open row of a bank there is. -/
theorem openRow_of_bank {bank : Nat} {b : HbmBankState} (hb : c.banks[bank]? = some b) :
    c.openRow bank = b.openRow := by
  unfold openRow
  rw [hb]
  rfl

/-- The row of a bank after a command is recorded. -/
theorem Records.openRow {r : RecordedCommand} (records : Records config mapper s t r)
    (one : r.command.isAllBank = false) {bank : Nat} (hbank : bank < s.ctl.banks.length) :
    t.ctl.openRow bank =
      if bank = r.bank then r.command.rowAfter r.address.row (s.ctl.openRow bank)
      else s.ctl.openRow bank := by
  have hb := List.getElem?_eq_getElem hbank
  have hb' := List.getElem?_eq_getElem (records.banks ▸ hbank)
  rw [openRow_of_bank hb, openRow_of_bank hb', records.rows bank _ _ hb hb']
  have covers : r.covers bank ↔ bank = r.bank := by
    unfold RecordedCommand.covers
    rw [one]
    simp
  simp only [covers]

/-- A command for an access is for one bank. -/
theorem Demanded.one {w : Bool} {index : Nat} {a : HbmAccess} {r : RecordedCommand} {exempt : Prop}
    (demanded : Demanded config mapper now exempt s t w index a r) :
    r.command.isAllBank = false := by
  rcases (plannedCommand_ok demanded.demand.planned).cases with kind | kind | kind <;> rw [kind]
  · rfl
  · rfl
  · unfold HbmCommandPlanner.requestedCommand
    cases a.op <;> cases config.autoPrecharge <;> rfl

/-- What a row command does to the row of its bank. -/
inductive Turns (config : HbmControllerConfig) (c c' : HbmController) (bank : Nat) :
    HbmCommand → Prop
  | closes {row : Nat} (opened : c.openRow bank = some row) (unwanted : ¬ Wanted config c bank row)
      (closed : c'.openRow bank = none) : Turns config c c' bank .preBank
  | opens {row : Nat} (closed : c.openRow bank = none) (opened : c'.openRow bank = some row)
      (wanted : Wanted config c' bank row) : Turns config c c' bank .act

/-- A row command opens a row that a queued access waits for, or closes one that none waits
for. -/
theorem Demanded.turns {w : Bool} {index : Nat} {a : HbmAccess} {r : RecordedCommand} {exempt : Prop}
    (settled : config.standard = none → ∀ b ∈ s.ctl.banks, b.prechargePending = false)
    (queued : t.ctl.queued = s.ctl.queued)
    (demanded : Demanded config mapper now exempt s t w index a r)
    (row : r.command.isData = false) :
    Turns config s.ctl t.ctl r.bank r.command := by
  have demand := demanded.demand
  obtain ⟨bank, hbank, planned⟩ := (plannedCommand_ok demand.planned).bank demanded.bank
  have access := List.mem_of_getElem? demand.access
  have after := Records.openRow demanded.records demanded.one demanded.records.bank
  have before : s.ctl.openRow r.bank = bank.openRow := openRow_of_bank hbank
  rw [if_pos rfl, before] at after
  generalize command : r.command = k at planned after row
  cases planned with
  | precharge closes =>
      -- the open row is another one, and nobody waits for it
      rcases closes with ⟨other, opened, apart⟩ | ⟨custom, owed⟩
      · refine .closes (before.trans opened) ?_ after
        rintro ⟨l, hl, local_, rfl⟩
        obtain ⟨w', b, hb, rfl⟩ := of_mem_queued hl
        obtain ⟨first, -, here⟩ := localBank_ok local_
        obtain ⟨first', -, here'⟩ := localBank_ok demanded.bank
        have none := demand.yields command w' b hb (by omega)
        obtain ⟨k, next, planned'⟩ := HbmCommandPlanner.next_planned config.standard b.op
          b.address.row bank config.autoPrecharge
        have data : k.isData = true := by
          cases planned' with
          | precharge closes =>
              rcases closes with ⟨row, opened', apart'⟩ | ⟨custom, owed⟩
              · rw [opened] at opened'
                exact absurd (Option.some.inj opened').symm apart'
              · exact nomatch owed.symm.trans (settled custom bank (List.mem_of_getElem? hbank))
          | activate closed => exact nomatch opened.symm.trans closed
          | data => exact HbmCommandPlanner.requestedCommand_isData _ _
        refine absurd (none k ?_) (by simp [data])
        unfold plannedCommand
        rw [local_]
        simp only [ok_bind, vectorAt, hbank]
        exact next
      · exact nomatch owed.symm.trans (settled custom bank (List.mem_of_getElem? hbank))
  | activate closed =>
      refine .opens (before.trans closed) after ?_
      refine ⟨a.toLogicalAccess, ?_, demanded.bank, by rw [demanded.address]⟩
      rw [queued]
      exact mem_queued access
  | data => exact nomatch row.symm.trans (HbmCommandPlanner.requestedCommand_isData _ _)

/-- An ACT opens a row that a queued access waits for, a precharge closes one that none
waits for. -/
theorem RowStep.turns (sound : Sound config mapper s.ctl)
    (settled : config.standard = none → ∀ b ∈ s.ctl.banks, b.prechargePending = false)
    (step : RowStep config mapper now s t) :
    ∃ r, Records config mapper s t r ∧ r.command.isAllBank = false ∧
      Turns config s.ctl t.ctl r.bank r.command := by
  obtain ⟨w, index, a, r, row, demanded⟩ := @RowStep.demanded config mapper s t now True sound step
  exact ⟨r, demanded.records, demanded.one,
    demanded.turns settled (ControllerStep.row step).queued row⟩

/-! ### Data commands -/

/-- The accesses a data command takes are in the bank of the one it is issued for. -/
theorem takenAccesses_bank {w : Bool} {index : Nat} {a : HbmAccess} {l : LogicalAccess}
    (hl : l ∈ (takenAccesses config s w index a now).map HbmAccess.toLogicalAccess) :
    l.address.flatBank = a.address.flatBank := by
  obtain ⟨b, hb, rfl⟩ := List.mem_map.mp hl
  show b.address.flatBank = a.address.flatBank
  rcases mem_takeAccesses hb with rfl | ⟨f, -, merge, rfl⟩
  · rw [leader_logical]
  · unfold HbmControllerConfig.canMerge at merge
    simp only [Bool.and_eq_true, beq_iff_eq] at merge
    rw [← leader_logical a now]
    exact merge.2.1.1.1.1.2.symm

/-- A transfer serves accesses of one bank. -/
theorem DataStep.one_bank {physical : PhysicalAccess}
    (step : DataStep config mapper now s physical t) :
    ∀ l ∈ physical.served, l.address.flatBank = physical.address.flatBank := by
  cases step with
  | @mk w index _ _ _ a _ _ _ slot =>
      intro l hl
      have served : l ∈ (takenAccesses config s w index a now).map HbmAccess.toLogicalAccess := by
        rwa [← physicalAccess_served]
      exact takenAccesses_bank served

/-- A transfer serves an access. -/
theorem DataStep.serves {physical : PhysicalAccess}
    (step : DataStep config mapper now s physical t) : physical.served ≠ [] := by
  cases step with
  | @mk w index _ _ _ a =>
      intro none
      have taken : (takenAccesses config s w index a now).map HbmAccess.toLogicalAccess = [] := by
        rwa [← physicalAccess_served]
      unfold takenAccesses takeAccesses at taken
      cases w with
      | true => cases taken
      | false => cases taken

/-- A data command leaves the other banks as wanted as they were. -/
theorem Demanded.wanted {w : Bool} {index : Nat} {a : HbmAccess} {r : RecordedCommand} {exempt : Prop}
    (demanded : Demanded config mapper now exempt s t w index a r) {served : List LogicalAccess}
    (queued : (served ++ t.ctl.queued).Perm s.ctl.queued)
    (one_bank : ∀ l ∈ served, l.address.flatBank = a.address.flatBank) {bank row : Nat}
    (apart : bank ≠ r.bank) (waits : Wanted config s.ctl bank row) :
    Wanted config t.ctl bank row := by
  obtain ⟨l, hl, local_, rfl⟩ := waits
  refine ⟨l, ?_, local_, rfl⟩
  rcases List.mem_append.mp (queued.mem_iff.mpr hl) with served | left
  · rw [one_bank l served] at local_
    exact absurd (Except.ok.inj (local_.symm.trans demanded.bank)) apart
  · exact left

/-- A data command uses the row of its bank, and the other banks stay as wanted as they were. -/
theorem DataStep.uses (sound : Sound config mapper s.ctl) {physical : PhysicalAccess}
    (step : DataStep config mapper now s physical t) :
    ∃ r row, Records config mapper s t r ∧ r.command.isAllBank = false ∧ r.command.isData = true ∧
      s.ctl.openRow r.bank = some row ∧
        ∀ bank row, bank ≠ r.bank → Wanted config s.ctl bank row →
          Wanted config t.ctl bank row := by
  have queued := step.queued
  have bank_of := step.one_bank
  obtain ⟨w, index, a, r, data, here, demanded⟩ := step.demanded sound (.inl trivial)
  obtain ⟨bank, hbank, planned⟩ := (plannedCommand_ok demanded.demand.planned).bank demanded.bank
  have opened : s.ctl.openRow r.bank = some a.address.row :=
    (openRow_of_bank hbank).trans (Planned.opened planned data)
  exact ⟨r, _, demanded.records, demanded.one, data, opened, fun _ _ apart waits =>
    demanded.wanted queued (here ▸ bank_of) apart waits⟩

/-! ### Admission -/

/-- A row that is wanted stays wanted as accesses enter. -/
theorem Wanted.push (c : HbmController) (a : HbmAccess) {bank row : Nat}
    (waits : Wanted config c bank row) : Wanted config (c.push a) bank row := by
  obtain ⟨l, hl, local_, wants⟩ := waits
  exact ⟨l, (push_queued c a).mem_iff.mpr (List.mem_cons_of_mem _ hl), local_, wants⟩

end HbmController

end HbmSim
