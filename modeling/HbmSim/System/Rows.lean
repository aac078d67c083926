import HbmSim.System.Record

/-!
The rows of the banks.

What is open in a bank follows from the commands recorded on it. So the rows a command
needs can be read off the record: the commands before it have left them as it needs them.
-/

namespace HbmSim

open HbmSim.Lib HbmSystem

/-- The row the recorded commands leave open in a bank. -/
def openRowAfter (bank : Nat) : List RecordedCommand → Option Nat
  | [] => none
  | r :: earlier =>
      if r.covers bank then r.command.rowAfter r.address.row (openRowAfter bank earlier)
      else openRowAfter bank earlier

/-- The commands `earlier` leave the rows a command needs, in a channel of `banks` banks. -/
def RowLegal (banks : Nat) (r : RecordedCommand) (earlier : List RecordedCommand) : Prop :=
  match r.command with
  | .act | .refreshPerBank | .rfmPerBank => openRowAfter r.bank earlier = none
  | .preBank => openRowAfter r.bank earlier ≠ none
  | .preAll => ∃ bank < banks, openRowAfter bank earlier ≠ none
  | .read | .write | .readAuto | .writeAuto => openRowAfter r.bank earlier = some r.address.row
  | .refreshAllBank | .rfmAllBank => ∀ bank < banks, openRowAfter bank earlier = none

/-- A recorded command is in its place: at its bank, under its policy, and on the rows it
needs. -/
structure InPlace (config : HbmControllerConfig) (mapper : HbmAddressMapper) (r : RecordedCommand)
    (earlier : List RecordedCommand) : Prop where
  rows : RowLegal config.bankCount r earlier
  address : Mapped config mapper r.address ∨ mapper.bankAddress r.address.flatBank = .ok r.address
  bank : r.bank < config.bankCount
  flatBank : r.address.flatBank = u32 (config.firstFlatBank + r.bank)
  allBank : r.command.isAllBank = true →
    r.bank = 0 ∧ config.refreshPolicy.usesAllBankRefresh = true
  perBank : r.command = .refreshPerBank → config.refreshPolicy.usesAllBankRefresh = false
  /-- An all-bank refresh is next once every bank is closed for it. -/
  next : ∀ e ∈ earlier.head?, e.command = .preAll → r.command = .refreshAllBank

/-- The banks and flags of a channel agree with its record. -/
structure Rowed (config : HbmControllerConfig) (mapper : HbmAddressMapper) (c : HbmController) :
    Prop where
  rows : ∀ (i : Nat) b, c.banks[i]? = some b → b.openRow = openRowAfter i c.recorded
  settled : config.standard = none → ∀ b ∈ c.banks, b.prechargePending = false
  closing : ∀ e ∈ c.recorded.head?, e.command = .preAll →
    c.refreshPending = true ∧ ∀ b ∈ c.banks, b.openRow = none
  allBank : c.refreshPending = true → config.refreshPolicy.usesAllBankRefresh = true
  perBank : ∀ b ∈ c.banks, b.refreshPending = true →
    config.refreshPolicy.usesAllBankRefresh = false
  inPlace : ∀ r earlier, (r :: earlier) <:+ c.recorded → InPlace config mapper r earlier

section

open HbmController

variable {config : HbmControllerConfig} {mapper : HbmAddressMapper} {s t : ControllerState}
  {now : Nat} {exempt : Prop} {c c' : HbmController} {r : RecordedCommand}

theorem openRowAfter_cons (bank : Nat) (r : RecordedCommand) (earlier : List RecordedCommand) :
    openRowAfter bank (r :: earlier) =
      if r.covers bank then r.command.rowAfter r.address.row (openRowAfter bank earlier)
      else openRowAfter bank earlier := rfl

/-- The bank an address is in, counted from the first bank of its channel. -/
theorem flatBank_of_localBank {flatBank index : Nat}
    (h : localBank config flatBank = .ok index) :
    flatBank = u32 (config.firstFlatBank + index) := by
  obtain ⟨le, last, rfl⟩ := localBank_ok h
  have wraps : u32 (config.firstFlatBank + config.bankCount) < 2 ^ 32 := u32_lt _
  rw [u32_of_lt (by omega)]
  omega

theorem bankAddress_flatBank {flatBank : Nat} {a : HbmAddress}
    (h : mapper.bankAddress flatBank = .ok a) : a.flatBank = flatBank := by
  unfold HbmAddressMapper.bankAddress at h
  dsimp only at h
  split at h
  · cases h
  · cases h
    rfl

/-! ### Steps -/

/-- Nothing the rows depend on changes. -/
theorem Rowed.frame (h : Rowed config mapper c) (recorded : c'.recorded = c.recorded)
    (pending : c.refreshPending = true → c'.refreshPending = true)
    (owes : c'.refreshPending = true → config.refreshPolicy.usesAllBankRefresh = true)
    (rows : ∀ (i : Nat) b', c'.banks[i]? = some b' → ∃ b, c.banks[i]? = some b ∧
      b'.openRow = b.openRow ∧ b'.prechargePending = b.prechargePending)
    (perBank : ∀ b ∈ c'.banks, b.refreshPending = true →
      config.refreshPolicy.usesAllBankRefresh = false) : Rowed config mapper c' where
  rows i b' hb' := by
    obtain ⟨b, hb, row, -⟩ := rows i b' hb'
    rw [row, recorded]
    exact h.rows i b hb
  settled custom b' hb' := by
    obtain ⟨i, hi⟩ := List.getElem?_of_mem hb'
    obtain ⟨b, hb, -, owed⟩ := rows i b' hi
    rw [owed]
    exact h.settled custom b (List.mem_of_getElem? hb)
  closing e he closes := by
    obtain ⟨owed, closed⟩ := h.closing e (recorded ▸ he) closes
    refine ⟨pending owed, fun b' hb' => ?_⟩
    obtain ⟨i, hi⟩ := List.getElem?_of_mem hb'
    obtain ⟨b, hb, row, -⟩ := rows i b' hi
    rw [row]
    exact closed b (List.mem_of_getElem? hb)
  allBank := owes
  perBank := perBank
  inPlace := recorded ▸ h.inPlace

theorem Rowed.raise (h : Rowed config mapper c) (due : Nat) :
    Rowed config mapper (c.raise config due) := by
  unfold HbmController.raise
  split
  · rename_i policy
    exact h.frame rfl (fun _ => rfl) (fun _ => policy) (fun i b hb => ⟨b, hb, rfl, rfl⟩) h.perBank
  · rename_i policy
    refine h.frame rfl id h.allBank (fun i b' hb' => ?_) fun _ _ _ => by simpa using policy
    obtain ⟨b, hb, rfl⟩ := modify_bank hb'
    refine ⟨b, hb, ?_⟩
    split <;> exact ⟨rfl, rfl⟩

/-- The rows after a command, given that it was in its place. -/
theorem Rowed.records (h : Rowed config mapper s.ctl) (records : Records config mapper s t r)
    (opens : config.standard = none → config.rowPolicy.useAutoPrecharge = false)
    (inPlace : InPlace config mapper r s.ctl.recorded)
    (closing : r.command = .preAll → t.ctl.refreshPending = true)
    (allBank : t.ctl.refreshPending = true → s.ctl.refreshPending = true)
    (perBank : ∀ (i : Nat) b b', s.ctl.banks[i]? = some b → t.ctl.banks[i]? = some b' →
      b'.refreshPending = true → b.refreshPending = true) : Rowed config mapper t.ctl := by
  have recorded : t.ctl.recorded = r :: s.ctl.recorded := records.record.recorded
  have before : ∀ {i : Nat} {b'}, t.ctl.banks[i]? = some b' → ∃ b, s.ctl.banks[i]? = some b :=
    fun hb' => ⟨_, List.getElem?_eq_getElem (records.banks ▸ (List.getElem?_eq_some_iff.mp hb').1)⟩
  refine ⟨fun i b' hb' => ?_, fun custom b' hb' => ?_, fun e he closes => ?_,
    fun owed => h.allBank (allBank owed), fun b' hb' owed => ?_, ?_⟩
  · obtain ⟨b, hb⟩ := before hb'
    rw [recorded, openRowAfter_cons, ← h.rows i b hb]
    exact records.rows i b b' hb hb'
  · obtain ⟨b, hb, same⟩ := records.owed custom (opens custom) b' hb'
    rw [same]
    exact h.settled custom b hb
  · rw [recorded] at he
    obtain rfl := Option.some.inj he
    refine ⟨closing closes, fun b' hb' => ?_⟩
    obtain ⟨i, hi⟩ := List.getElem?_of_mem hb'
    obtain ⟨b, hb⟩ := before hi
    rw [records.rows i b b' hb hi, closes]
    exact if_pos (.inl (by rw [closes]; rfl))
  · obtain ⟨i, hi⟩ := List.getElem?_of_mem hb'
    obtain ⟨b, hb⟩ := before hi
    exact h.perBank b (List.mem_of_getElem? hb) (perBank i b b' hb hi owed)
  · rw [recorded]
    exact forall_suffix_cons.mpr ⟨inPlace, h.inPlace⟩

/-- A demand command finds the row its access needs. -/
theorem Rowed.demand (h : Rowed config mapper s.ctl) (sound : Sound config mapper s.ctl)
    {w : Bool} {index : Nat} {a : HbmAccess}
    (demand : Demand config mapper s.ctl now w index a r.command) (address : r.address = a.address)
    (bank : localBank config a.address.flatBank = .ok r.bank) :
    InPlace config mapper r s.ctl.recorded := by
  obtain ⟨index', b, hindex, hb, planned⟩ := (plannedCommand_ok demand.planned).planned
  obtain rfl : r.bank = index' := Except.ok.inj (bank.symm.trans hindex)
  have row := h.rows _ b hb
  have single : r.command.isAllBank = false ∧ r.command ≠ .refreshPerBank := by
    rcases (plannedCommand_ok demand.planned).cases with kind | kind | kind <;> rw [kind]
    · exact ⟨rfl, nofun⟩
    · exact ⟨rfl, nofun⟩
    · unfold HbmCommandPlanner.requestedCommand
      split <;> split <;> exact ⟨rfl, nofun⟩
  have lt : r.bank < config.bankCount := sound.banks ▸ (List.getElem?_eq_some_iff.mp hb).1
  refine ⟨?_, .inl (address ▸ sound.mapped w a (List.mem_of_getElem? demand.access)), lt, ?_,
    fun all => (nomatch single.1.symm.trans all),
    fun kind => absurd kind single.2, fun e he closes => ?_⟩
  · unfold RowLegal
    generalize r.command = k at planned ⊢
    cases planned with
    | precharge closes =>
        rcases closes with ⟨other, opened, -⟩ | ⟨custom, owed⟩
        · show openRowAfter r.bank _ ≠ none
          rw [← row, opened]
          nofun
        · exact nomatch owed.symm.trans (h.settled custom b (List.mem_of_getElem? hb))
    | activate closed => exact row.symm.trans closed
    | data opened =>
        have opened' : openRowAfter r.bank s.ctl.recorded = some r.address.row := by
          rw [← row, opened, address]
        unfold HbmCommandPlanner.requestedCommand
        cases a.op <;> cases config.autoPrecharge <;> exact opened'
  · rw [address]
    exact flatBank_of_localBank bank
  · exact nomatch (h.closing e he closes).1.symm.trans demand.quiet.1

/-- A maintenance command finds the rows it needs. -/
theorem Rowed.maintain (h : Rowed config mapper s.ctl) (sound : Sound config mapper s.ctl)
    {candidate : MaintenanceCandidate} {cursor : Nat}
    (plan : MaintenancePlan config mapper s.ctl cursor candidate)
    (command : r.command = candidate.command) (local_ : r.bank = candidate.localBank)
    (address : mapper.bankAddress (u32 (config.firstFlatBank + r.bank)) = .ok r.address) :
    InPlace config mapper r s.ctl.recorded := by
  have bank : r.bank < config.bankCount := sound.banks ▸ local_ ▸ plan.localBank_lt
  have flatBank := bankAddress_flatBank address
  rw [← sound.banks] at bank
  -- an all-bank refresh is preceded by a precharge of all banks if any row is open
  cases plan with
  | allBank pending =>
      have policy := h.allBank pending
      cases opened : s.ctl.anyOpen with
      | true =>
          have kind : r.command = .preAll := by simpa [opened] using command
          refine ⟨?_, .inr (flatBank ▸ address), sound.banks ▸ bank, flatBank, fun _ =>
            ⟨local_, policy⟩,
            fun other => (nomatch kind.symm.trans other), fun e he closes => ?_⟩
          · obtain ⟨b, hb, isOpen⟩ := List.any_eq_true.mp opened
            obtain ⟨i, hi⟩ := List.getElem?_of_mem hb
            unfold RowLegal
            rw [kind]
            refine ⟨i, sound.banks ▸ (List.getElem?_eq_some_iff.mp hi).1, ?_⟩
            rw [← h.rows i b hi]
            exact Option.isSome_iff_ne_none.mp isOpen
          · obtain ⟨b, hb, isOpen⟩ := List.any_eq_true.mp opened
            have closed := (h.closing e he closes).2 b hb
            rw [closed] at isOpen
            cases isOpen
      | false =>
          have kind : r.command = .refreshAllBank := by simpa [opened] using command
          refine ⟨?_, .inr (flatBank ▸ address), sound.banks ▸ bank, flatBank, fun _ =>
            ⟨local_, policy⟩,
            fun other => (nomatch kind.symm.trans other), fun _ _ _ => kind⟩
          unfold RowLegal
          rw [kind]
          intro i hi
          obtain ⟨b, hb⟩ : ∃ b, s.ctl.banks[i]? = some b :=
            ⟨_, List.getElem?_eq_getElem (sound.banks ▸ hi)⟩
          rw [← h.rows i b hb]
          simpa using List.any_eq_false.mp opened b (List.mem_of_getElem? hb)
  | @perBank _ _ _ b requested pending hbank hrequested =>
      have row := h.rows _ b hbank
      have next : ∀ e ∈ s.ctl.recorded.head?, e.command = .preAll → r.command = .refreshAllBank :=
        fun e he closes => nomatch pending.symm.trans (h.closing e he closes).1
      cases opened : b.openRow with
      | some other =>
          have kind : r.command = .preBank := by simpa [opened] using command
          refine ⟨?_, .inr (flatBank ▸ address), sound.banks ▸ bank, flatBank, fun all => ?_,
            fun other => (nomatch kind.symm.trans other), next⟩
          · unfold RowLegal
            rw [kind]
            show openRowAfter r.bank _ ≠ none
            rw [local_, ← row, opened]
            nofun
          · rw [kind] at all
            cases all
      | none =>
          have kind : r.command = requested := by simpa [opened] using command
          have closed : openRowAfter r.bank s.ctl.recorded = none := by
            rw [local_, ← row, opened]
          rcases requestedMaintenance_cases hrequested with ⟨rfl, -⟩ | ⟨rfl, -, owed⟩
          · refine ⟨?_, .inr (flatBank ▸ address), sound.banks ▸ bank, flatBank, fun all => ?_,
              fun other => (nomatch kind.symm.trans other), next⟩
            · unfold RowLegal
              rw [kind]
              exact closed
            · rw [kind] at all
              cases all
          · refine ⟨?_, .inr (flatBank ▸ address), sound.banks ▸ bank, flatBank, fun all => ?_,
              fun _ => ?_, next⟩
            · unfold RowLegal
              rw [kind]
              exact closed
            · rw [kind] at all
              cases all
            · exact h.perBank b (List.mem_of_getElem? hbank) owed

theorem Rowed.entry (opens : config.standard = none → config.rowPolicy.useAutoPrecharge = false)
    (sound : Sound config mapper s.ctl) (h : Rowed config mapper s.ctl)
    (entry : Entry config mapper now exempt s t) : Rowed config mapper t.ctl := by
  cases entry with
  | silent record refresh _ banks =>
      refine h.frame record.recorded (fun owed => refresh.refreshPending.trans owed)
        (fun owed => h.allBank (refresh.refreshPending ▸ owed)) (fun i b hb =>
          ?_) (banks ▸ h.perBank)
      exact ⟨b, banks ▸ hb, rfl, rfl⟩
  | raise due _ _ _ after =>
      rw [after]
      exact h.raise due
  | advance base _ _ _ after =>
      rw [after]
      exact h.frame rfl id h.allBank (fun i b hb => ⟨b, hb, rfl, rfl⟩) h.perBank
  | @maintain candidate r step records command local_ address =>
      obtain ⟨cursor, plan⟩ := step.plan
      have flag := step.refreshPending
      refine h.records records opens (h.maintain sound plan command local_ address)
        (fun closes => ?_)
        (fun owed => ?_) fun i b b' hb hb' owed => ?_
      · rcases plan.purpose with ⟨pending, requested, -, -⟩ | ⟨-, bank, -, requested, -, kind⟩
        · have prerequisite : candidate.finalCommand = false := by
            by_contra final
            have same := plan.command_of_final (by simpa using final)
            rw [← command, closes, requested] at same
            cases same
          rw [flag, pending, prerequisite]
          rfl
        · rw [← command, closes] at kind
          rcases requestedMaintenance_cases requested with ⟨rfm, -⟩ | ⟨refresh, -⟩
          · rw [rfm] at kind
            split at kind <;> cases kind
          · rw [refresh] at kind
            split at kind <;> cases kind
      · rw [flag] at owed
        exact (Bool.and_eq_true _ _ |>.mp owed).1
      · have change := step.banks.2 i b b' hb hb'
        split at change
        · cases final : candidate.finalCommand with
          | false => exact (change.prerequisite final).1 ▸ owed
          | true =>
              by_cases rfm : candidate.requested = .rfmPerBank
              · exact (change.managed final rfm).1 ▸ owed
              · exact nomatch owed.symm.trans (change.refreshed final rfm).1
        · exact change ▸ owed
  | @demand _ _ _ r demand records _ address _ bank refresh flags =>
      refine h.records records opens (h.demand sound demand address bank)
        (fun closes => ?_) (fun owed => refresh.refreshPending ▸ owed) fun i b b' hb hb' owed => ?_
      · rcases (plannedCommand_ok demand.planned).cases with kind | kind | kind <;>
          rw [closes] at kind
        · cases kind
        · cases kind
        · have data := HbmCommandPlanner.requestedCommand_isData ‹HbmAccess›.op config.autoPrecharge
          rw [← kind] at data
          cases data
      · have same := (flags i b b' hb hb').refreshPending
        have kept : ∀ x : HbmBankState, (noteActivation config x).refreshPending =
          x.refreshPending :=
          fun x => by
            unfold noteActivation
            split <;> rfl
        rw [same] at owed
        split at owed
        · exact (kept b) ▸ owed
        · exact owed

/-- The banks of every channel agree with its record, and every command is in its place.
A custom device under the closed-row policy also precharges banks that are closed. -/
theorem HbmSystem.Run.rowed {cfg : HbmConfig} (checked : cfg.Checked)
    (opens : cfg.device.standard = none → cfg.controller.rowPolicy.useAutoPrecharge = false)
    {p : HbmSystem × Debts} (run : Run cfg p) (channel : Nat) :
    Rowed (cfg.channelConfig channel) cfg.mapper (p.1.controllers channel) := by
  refine run.entries checked channel (P := fun _ _ s =>
    Rowed (cfg.channelConfig channel) cfg.mapper s.ctl)
    ⟨fun i b hb => ?_, fun _ b hb => ?_, nofun, nofun, fun b hb owed => ?_, forall_suffix_nil⟩
    (fun _ _ h => h) fun sound h entry => h.entry opens sound entry
  · rw [List.eq_of_mem_replicate (List.mem_of_getElem? hb)]
    rfl
  · rw [List.eq_of_mem_replicate hb]
  · rw [List.eq_of_mem_replicate hb] at owed
    cases owed

end

end HbmSim
