import HbmSim.System.Record

/-!
The timing history of a channel, and the spacing it enforces.

The history holds the last four issue times of every command on every resource. So each
recorded command keeps the bounds of the constraint table against the commands recorded
before it, at every address its earliest time was computed for.
-/

namespace HbmSim

open HbmSim.Lib HbmSystem

/-- The indices of an address fit into 32 bits. -/
def HbmAddress.Small (a : HbmAddress) : Prop := ∀ scope, a.scopeIndex scope < 2 ^ 32

/-- The issue times of the commands that count as `k` on one resource, latest first. -/
def timesOn (recorded : List RecordedCommand) (scope : TimingScope) (index : Nat)
    (k : HbmCommand) : List Nat :=
  (recorded.filter fun r =>
    timingCommand r.command = k ∧ r.address.scopeIndex scope = index).map (·.issuedAt)

/-- The history holds what the record says. -/
structure Logged (c : HbmController) : Prop where
  small : ∀ r ∈ c.recorded, r.address.Small
  times : ∀ (scope : TimingScope) (a : HbmAddress), a.Small → ∀ k,
    c.history (resourceKey scope a) k =
      (timesOn c.recorded scope (a.scopeIndex scope) k).take 4

/-- The addresses the earliest time of a recorded command was computed for. -/
inductive Site (config : HbmControllerConfig) (mapper : HbmAddressMapper) (r : RecordedCommand) :
    HbmAddress → Prop
  | own : Site config mapper r r.address
  | bank {i : Nat} {a : HbmAddress} (all : HbmController.checksAllBanks config r.command = .ok true)
      (hi : i < config.bankCount)
      (address : mapper.bankAddress (u32 (config.firstFlatBank + i)) = .ok a) :
      Site config mapper r a

/-- A command issued after the commands `earlier` keeps the bounds of the table at `site`. -/
def Kept (config : HbmControllerConfig) (r : RecordedCommand) (earlier : List RecordedCommand)
    (site : HbmAddress) : Prop :=
  ∀ row ∈ config.timing.constraints, row.following = timingCommand r.command →
    ∀ at_, (timesOn earlier row.scope (site.scopeIndex row.scope) row.preceding)[row.distance - 1]? =
      some at_ → at_ + row.delay ≤ r.issuedAt

/-- Every recorded command keeps the bounds of the table at its sites. -/
def Spaced (config : HbmControllerConfig) (mapper : HbmAddressMapper)
    (recorded : List RecordedCommand) : Prop :=
  ∀ r earlier, (r :: earlier) <:+ recorded → ∀ site, Site config mapper r site →
    Kept config r earlier site

/-! ### Addresses -/

/-- A mapped address is within the resource keys. -/
theorem HbmAddressMapper.map_small {m : HbmAddressMapper} {byte : Nat} {a : HbmAddress}
    (run : m.map byte = .ok a) : a.Small := by
  unfold map at run
  dsimp only at run
  split at run
  · cases run
  · cases run
    have channel : (m.decode byte).flatChannel < 2 ^ 32 ∧ (m.decode byte).stack < 2 ^ 32 := by
      unfold decode
      split
      · exact ⟨Nat.two_pow_pos 32, Nat.two_pow_pos 32⟩
      · exact ⟨u32_lt _, Nat.lt_of_le_of_lt (Nat.div_le_self _ _) (u32_lt _)⟩
    intro scope
    cases scope with
    | bank => exact u32_lt _
    | bankGroup => exact u32_lt _
    | sid => exact channel.2
    | pseudoChannel => exact u32_lt _
    | channel => exact channel.1

/-- So is the address of a bank. -/
theorem HbmAddressMapper.bankAddress_small {m : HbmAddressMapper} {flatBank : Nat} {a : HbmAddress}
    (run : m.bankAddress flatBank = .ok a) : a.Small := by
  unfold bankAddress at run
  dsimp only at run
  split at run
  · cases run
  · rename_i inside
    cases run
    have bank : flatBank < 2 ^ 32 := Nat.lt_trans (Nat.not_le.mp inside) (u32_lt _)
    have group := Nat.div_le_self flatBank m.topology.banksPerBankGroup
    have pseudo := Nat.div_le_self (flatBank / m.topology.banksPerBankGroup)
      m.topology.bankGroupsPerPseudoChannel
    have channel := Nat.div_le_self (flatBank / m.topology.banksPerBankGroup /
      m.topology.bankGroupsPerPseudoChannel) m.topology.pseudoChannelsPerChannel
    have stack := Nat.div_le_self (flatBank / m.topology.banksPerBankGroup /
      m.topology.bankGroupsPerPseudoChannel / m.topology.pseudoChannelsPerChannel)
        m.topology.channelsPerStack
    intro scope
    cases scope with
    | bank => exact bank
    | bankGroup => exact Nat.lt_of_le_of_lt group bank
    | sid =>
        exact Nat.lt_of_le_of_lt (Nat.le_trans stack (Nat.le_trans channel (Nat.le_trans pseudo group)))
          bank
    | pseudoChannel => exact Nat.lt_of_le_of_lt (Nat.le_trans pseudo group) bank
    | channel => exact Nat.lt_of_le_of_lt (Nat.le_trans channel (Nat.le_trans pseudo group)) bank

/-! ### Resources -/

/-- Distinct resources have distinct keys. -/
theorem resourceKey_inj {scope scope' : TimingScope} {a a' : HbmAddress} (small : a.Small)
    (small' : a'.Small) : resourceKey scope a = resourceKey scope' a' ↔
      scope = scope' ∧ a.scopeIndex scope = a'.scopeIndex scope' := by
  have key : ∀ (scope : TimingScope) (a : HbmAddress), a.Small →
      resourceKey scope a = scope.toNat * 2 ^ 56 + a.scopeIndex scope := by
    intro scope a small
    have fits : a.scopeIndex scope < 2 ^ 56 := Nat.lt_trans (small scope) (by decide)
    unfold resourceKey
    rw [← Nat.shiftLeft_add_eq_or_of_lt fits, Nat.shiftLeft_eq]
  rw [key scope a small, key scope' a' small']
  have low := small scope
  have low' := small' scope'
  constructor
  · intro same
    have scopes : scope.toNat = scope'.toNat := by omega
    have equal : scope = scope' := by
      cases scope <;> cases scope' <;> first | rfl | cases scopes
    exact ⟨equal, by omega⟩
  · rintro ⟨rfl, same⟩
    rw [same]

/-- Recording a command on some of its resources. -/
theorem foldl_recordAt {address a : HbmAddress} (small : address.Small) (small' : a.Small)
    (at_ : Nat) (scope : TimingScope) (command k : HbmCommand) :
    ∀ (scopes : List TimingScope) (history : CommandHistory), scopes.Nodup →
      scopes.foldl (fun h s => HbmTimingEngine.recordAt h (resourceKey s address) command at_) history
          (resourceKey scope a) k =
        if scope ∈ scopes ∧ k = command ∧ a.scopeIndex scope = address.scopeIndex scope then
          (at_ :: history (resourceKey scope a) k).take 4
        else history (resourceKey scope a) k
  | [], history, _ => by simp
  | s :: rest, history, nodup => by
      obtain ⟨fresh, nodup⟩ := List.nodup_cons.mp nodup
      rw [List.foldl_cons, foldl_recordAt small small' at_ scope command k rest _ nodup]
      have first : HbmTimingEngine.recordAt history (resourceKey s address) command at_
          (resourceKey scope a) k =
          if scope = s ∧ k = command ∧ a.scopeIndex scope = address.scopeIndex scope then
            (at_ :: history (resourceKey scope a) k).take 4
          else history (resourceKey scope a) k := by
        unfold HbmTimingEngine.recordAt
        simp only [resourceKey_inj small' small]
        by_cases same : scope = s
        · subst same
          by_cases hit : k = command ∧ a.scopeIndex scope = address.scopeIndex scope
          · have key : resourceKey scope a = resourceKey scope address :=
              (resourceKey_inj small' small).mpr ⟨rfl, hit.2⟩
            rw [if_pos ⟨⟨rfl, hit.2⟩, hit.1⟩, if_pos ⟨rfl, hit⟩, key, hit.1]
          · rw [if_neg fun h => hit ⟨h.2, h.1.2⟩, if_neg fun h => hit h.2]
        · rw [if_neg fun h => same h.1.1, if_neg fun h => same h.1]
      rw [first]
      by_cases same : scope = s
      · subst same
        rw [if_neg fun h => fresh h.1]
        simp
      · simp [same]

/-- What recording a command adds to the history of one resource. -/
theorem record_resource (history : CommandHistory) (command : HbmCommand) {address a : HbmAddress}
    (small : address.Small) (small' : a.Small) (at_ : Nat) (scope : TimingScope) (k : HbmCommand) :
    HbmTimingEngine.record history command address at_ (resourceKey scope a) k =
      if k = timingCommand command ∧ a.scopeIndex scope = address.scopeIndex scope then
        (at_ :: history (resourceKey scope a) k).take 4
      else history (resourceKey scope a) k := by
  unfold HbmTimingEngine.record
  rw [foldl_recordAt small small' at_ scope _ k HbmTimingEngine.scopes history (by decide)]
  have every : scope ∈ HbmTimingEngine.scopes := by cases scope <;> decide
  simp only [every, true_and]

theorem timesOn_cons (r : RecordedCommand) (rest : List RecordedCommand) (scope : TimingScope)
    (index : Nat) (k : HbmCommand) :
    timesOn (r :: rest) scope index k =
      if timingCommand r.command = k ∧ r.address.scopeIndex scope = index then
        r.issuedAt :: timesOn rest scope index k
      else timesOn rest scope index k := by
  unfold timesOn
  by_cases hit : timingCommand r.command = k ∧ r.address.scopeIndex scope = index
  · rw [List.filter_cons_of_pos (by simpa using hit), if_pos hit, List.map_cons]
  · rw [List.filter_cons_of_neg (by simpa using hit), if_neg hit]

/-! ### The history of a channel -/

section

open HbmController

variable {config : HbmControllerConfig} {mapper : HbmAddressMapper} {s t : ControllerState}
  {now : Nat} {exempt : Prop} {c c' : HbmController} {r : RecordedCommand}

theorem Logged.frame (h : Logged c) (same : SameRecord c c') : Logged c' where
  small := same.recorded ▸ h.small
  times scope a small k := by
    rw [same.history, same.recorded]
    exact h.times scope a small k

/-- A stamped command is logged. -/
theorem Logged.stamp (h : Logged c) (small : r.address.Small) :
    Logged (c.stampCommand config r) where
  small r' hr' := by
    rcases List.mem_cons.mp hr' with rfl | hr'
    · exact small
    · exact h.small r' hr'
  times scope a small' k := by
    show HbmTimingEngine.record c.history r.command r.address r.issuedAt (resourceKey scope a) k =
      (timesOn (r :: c.recorded) scope (a.scopeIndex scope) k).take 4
    rw [record_resource _ _ small small', timesOn_cons, h.times scope a small' k]
    by_cases hit : k = timingCommand r.command ∧ a.scopeIndex scope = r.address.scopeIndex scope
    · rw [if_pos hit, if_pos ⟨hit.1.symm, hit.2.symm⟩]
      simp [List.take_take]
    · rw [if_neg hit, if_neg fun h => hit ⟨h.1.symm, h.2.symm⟩]

/-- A row looks back over one to four commands. -/
theorem HbmTimingSpec.distance_le (t : HbmTimingSpec) :
    ∀ row ∈ t.constraints, 1 ≤ row.distance ∧ row.distance ≤ 4 := by
  unfold constraints
  split
  · simp [extendedConstraints]
  · simp [compactConstraints]

/-- A bound the engine has checked is a bound of the record. -/
theorem Logged.kept (h : Logged c) {site : HbmAddress} (small : site.Small)
    (meets : HbmTimingEngine.Meets config.timing.constraints c.history r.command site r.issuedAt) :
    Kept config r c.recorded site := by
  intro row hrow follows at_ hat
  refine meets row hrow follows at_ ?_
  rw [h.times row.scope site small, List.getElem?_take]
  have near := config.timing.distance_le row hrow
  rw [if_pos (by omega)]
  exact hat

/-- A recorded command kept the rows at its sites. -/
theorem Records.kept (h : Logged s.ctl) (sound : Sound config mapper s.ctl)
    (small : r.address.Small) (own : HbmController.checksAllBanks config r.command = .ok true →
      mapper.bankAddress (u32 (config.firstFlatBank + r.bank)) = .ok r.address)
    (records : Records config mapper s t r) {site : HbmAddress} (at_ : Site config mapper r site) :
    Kept config r s.ctl.recorded site := by
  obtain ⟨cursor, ready, -, ready_le, query⟩ := records.ready
  have permits := (earliestCommand_ok query).2.2.mono ready_le
  unfold Permits at permits
  have everyBank : ∀ {i a}, checksAllBanks config r.command = .ok true → i < config.bankCount →
      mapper.bankAddress (u32 (config.firstFlatBank + i)) = .ok a →
      Kept config r s.ctl.recorded a := by
    intro i a all hi haddress
    rw [all] at permits
    obtain ⟨a', haddress', meets⟩ := permits i (sound.banks.symm ▸ hi)
    obtain rfl := Except.ok.inj (haddress.symm.trans haddress')
    exact h.kept (HbmAddressMapper.bankAddress_small haddress) meets
  cases at_ with
  | own =>
      by_cases all : checksAllBanks config r.command = .ok true
      · exact everyBank all (sound.banks ▸ records.bank) (own all)
      · have meets : HbmTimingEngine.Meets config.timing.constraints s.ctl.history r.command
            r.address r.issuedAt := by
          split at permits
          · rename_i checks
            exact absurd checks all
          · exact permits
        exact h.kept small meets
  | bank all hi haddress => exact everyBank all hi haddress

/-- One command that kept its distance. -/
theorem Spaced.cons {recorded : List RecordedCommand} (h : Spaced config mapper recorded)
    (kept : ∀ site, Site config mapper r site → Kept config r recorded site) :
    Spaced config mapper (r :: recorded) := by
  intro r' earlier suffix site at_
  rcases List.suffix_cons_iff.mp suffix with same | suffix
  · obtain ⟨rfl, rfl⟩ := List.cons.inj same
    exact kept site at_
  · exact h r' earlier suffix site at_

/-- A data command or an ACT is checked at its own address only. -/
theorem checksAllBanks_of_single {k : HbmCommand} (single : k.isAllBank = false) :
    checksAllBanks config k ≠ .ok true := by
  unfold checksAllBanks
  split
  · nofun
  · rename_i standard _
    split
    · rename_i transition found
      obtain rfl := HbmStandard.transitionFor_eq_ok found
      simp [single]
    · nofun

/-- Every entry of the record is logged and keeps its distance. -/
theorem Logged.entry (sound : Sound config mapper s.ctl)
    (h : Logged s.ctl ∧ Spaced config mapper s.ctl.recorded)
    (entry : Entry config mapper now exempt s t) :
    Logged t.ctl ∧ Spaced config mapper t.ctl.recorded := by
  obtain ⟨logged, spaced⟩ := h
  have recorded : ∀ {r : RecordedCommand}, Records config mapper s t r → r.address.Small →
      (checksAllBanks config r.command = .ok true →
        mapper.bankAddress (u32 (config.firstFlatBank + r.bank)) = .ok r.address) →
      Logged t.ctl ∧ Spaced config mapper t.ctl.recorded := by
    intro r records small own
    refine ⟨(logged.stamp small).frame records.record, ?_⟩
    rw [records.record.recorded]
    exact spaced.cons fun site at_ => Records.kept logged sound small own records at_
  cases entry with
  | silent record => exact ⟨logged.frame record, record.recorded ▸ spaced⟩
  | raise due _ _ _ after =>
      have same : SameRecord s.ctl (s.ctl.raise config due) := by
        rw [raise_frame]
        exact ⟨rfl, rfl, rfl, rfl, rfl⟩
      rw [after]
      refine ⟨logged.frame same, ?_⟩
      show Spaced config mapper (s.ctl.raise config due).recorded
      rw [same.recorded]
      exact spaced
  | advance base _ _ _ after =>
      rw [after]
      exact ⟨logged.frame ⟨rfl, rfl, rfl, rfl, rfl⟩, spaced⟩
  | maintain _ records _ _ address =>
      exact recorded records (HbmAddressMapper.bankAddress_small address) fun _ => address
  | @demand w _ a r demand records _ address =>
      obtain ⟨-, byte, mapped⟩ := sound.mapped w a (List.mem_of_getElem? demand.access)
      refine recorded records (address ▸ HbmAddressMapper.map_small mapped) fun all => ?_
      refine absurd all (checksAllBanks_of_single ?_)
      rcases (plannedCommand_ok demand.planned).cases with kind | kind | kind <;> rw [kind]
      · rfl
      · rfl
      · unfold HbmCommandPlanner.requestedCommand
        split <;> split <;> rfl

/-- The commands of every channel keep the constraint table of their device. -/
theorem HbmSystem.Run.spaced {cfg : HbmConfig} (checked : cfg.Checked) {p : HbmSystem × Debts}
    (run : Run cfg p) (channel : Nat) :
    Spaced (cfg.channelConfig channel) cfg.mapper (p.1.controllers channel).recorded := by
  refine (run.entries checked channel (P := fun _ _ s => Logged s.ctl ∧
    Spaced (cfg.channelConfig channel) cfg.mapper s.ctl.recorded) ⟨⟨nofun, fun _ _ _ _ => rfl⟩, ?_⟩
    (fun _ _ h => h) fun sound h entry => Logged.entry sound h entry).2
  intro r earlier suffix
  exact nomatch List.suffix_nil.mp suffix

end

end HbmSim
