import HbmSim.System.Buses
import HbmSim.System.Geometry
import HbmSim.System.Rows
import HbmSim.System.Spacing

/-!
The commands of one bank.

The timing history is kept by address. On the record of a channel it is the history of
its banks, so a row of the constraint table is a bound between commands of one bank.
-/

namespace HbmSim

open HbmSim.Lib HbmSystem

/-- The issue times of the commands on one bank that count as `k`, latest first. -/
def bankTimes (recorded : List RecordedCommand) (bank : Nat) (k : HbmCommand) : List Nat :=
  (recorded.filter fun r => timingCommand r.command = k ∧ r.bank = bank).map (·.issuedAt)

/-- The command closes the bank explicitly. -/
def RecordedCommand.precharges (r : RecordedCommand) (bank : Nat) : Prop :=
  timingCommand r.command = .preBank ∧ r.covers bank

instance (r : RecordedCommand) (bank : Nat) : Decidable (r.precharges bank) :=
  inferInstanceAs (Decidable (_ ∧ _))

/-- The issue times of the precharges that cover a bank, latest first. -/
def prechargeTimes (recorded : List RecordedCommand) (bank : Nat) : List Nat :=
  (recorded.filter fun r => r.precharges bank).map (·.issuedAt)

/-- What is known of the record of a channel. -/
structure Sequenced (cfg : HbmConfig) (channel : Nat) (recorded : List RecordedCommand) : Prop where
  spaced : Spaced (cfg.channelConfig channel) cfg.mapper recorded
  inPlace : ∀ r earlier, (r :: earlier) <:+ recorded →
    InPlace (cfg.channelConfig channel) cfg.mapper r earlier

section

variable {cfg : HbmConfig} {channel : Nat} {recorded earlier : List RecordedCommand}
  {r e : RecordedCommand}

theorem timingCommand_eq_act {k : HbmCommand} : timingCommand k = .act ↔ k = .act := by
  cases k <;> simp [timingCommand]

theorem timingCommand_eq_preBank {k : HbmCommand} :
    timingCommand k = .preBank ↔ k = .preBank ∨ k = .preAll := by
  cases k <;> simp [timingCommand]

/-- The rows that both tables have. -/
theorem HbmTimingSpec.common_rows (t : HbmTimingSpec) :
    ⟨.act, .act, .bank, 1, t.tRc⟩ ∈ t.constraints ∧
      ⟨.preBank, .act, .bank, 1, t.tRp⟩ ∈ t.constraints ∧
      ⟨.act, .preBank, .bank, 1, t.tRas⟩ ∈ t.constraints ∧
      ⟨.refreshAllBank, .act, .channel, 1, t.tRfc⟩ ∈ t.constraints := by
  unfold constraints
  split <;> simp [extendedConstraints, compactConstraints]

theorem mem_timesOn {scope : TimingScope} {index : Nat} {k : HbmCommand} {at_ : Nat} :
    at_ ∈ timesOn recorded scope index k ↔ ∃ e ∈ recorded, timingCommand e.command = k ∧
      e.address.scopeIndex scope = index ∧ e.issuedAt = at_ := by
  simp [timesOn, and_assoc]

theorem mem_bankTimes {bank : Nat} {k : HbmCommand} {at_ : Nat} :
    at_ ∈ bankTimes recorded bank k ↔ ∃ e ∈ recorded, timingCommand e.command = k ∧
      e.bank = bank ∧ e.issuedAt = at_ := by
  simp [bankTimes, and_assoc]

theorem mem_prechargeTimes {bank at_ : Nat} :
    at_ ∈ prechargeTimes recorded bank ↔
      ∃ e ∈ recorded, e.precharges bank ∧ e.issuedAt = at_ := by
  simp [prechargeTimes, and_assoc]

theorem Sequenced.suffix (h : Sequenced cfg channel recorded) (suffix : earlier <:+ recorded) :
    Sequenced cfg channel earlier :=
  ⟨fun r rest sub => h.spaced r rest (sub.trans suffix),
    fun r rest sub => h.inPlace r rest (sub.trans suffix)⟩

theorem Sequenced.tail (h : Sequenced cfg channel recorded) (suffix : (r :: earlier) <:+ recorded) :
    Sequenced cfg channel earlier :=
  h.suffix ((List.suffix_cons r earlier).trans suffix)

/-- A command of a record is in its place there. -/
theorem Sequenced.of_mem (h : Sequenced cfg channel recorded) (mem : e ∈ recorded) :
    ∃ earlier, (e :: earlier) <:+ recorded ∧
      InPlace (cfg.channelConfig channel) cfg.mapper e earlier := by
  obtain ⟨later, earlier, rfl⟩ := List.append_of_mem mem
  have suffix : (e :: earlier) <:+ (later ++ e :: earlier) := List.suffix_append _ _
  exact ⟨earlier, suffix, h.inPlace e earlier suffix⟩

/-- A row of the table against the latest command on a resource. -/
theorem Sequenced.row_kept (h : Sequenced cfg channel recorded)
    (suffix : (r :: earlier) <:+ recorded) {site : HbmAddress}
    (at_site : Site (cfg.channelConfig channel) cfg.mapper r site) {k : HbmCommand}
    {scope : TimingScope} {delay : Nat}
    (row : ⟨k, timingCommand r.command, scope, 1, delay⟩ ∈ cfg.device.timing.constraints) :
    ∀ at_ ∈ (timesOn earlier scope (site.scopeIndex scope) k).head?, at_ + delay ≤ r.issuedAt := by
  intro at_ hat
  refine h.spaced r earlier suffix site at_site _ row rfl at_ ?_
  show (timesOn earlier scope (site.scopeIndex scope) k)[0]? = some at_
  rw [← List.head?_eq_getElem?]
  exact hat

/-! ### Banks -/

/-- Distinct banks of a channel have distinct flat indices. -/
theorem flatBank_inj {i j : Nat} (hi : i < (cfg.channelConfig channel).bankCount)
    (hj : j < (cfg.channelConfig channel).bankCount) :
    u32 ((cfg.channelConfig channel).firstFlatBank + i) =
      u32 ((cfg.channelConfig channel).firstFlatBank + j) ↔ i = j := by
  have count : (cfg.channelConfig channel).bankCount < 2 ^ 32 :=
    Nat.lt_of_le_of_lt (Nat.div_le_self _ _) (u32_lt _)
  unfold u32
  omega

/-- The history of a bank is that of its flat index. -/
theorem Sequenced.timesOn_bank (h : Sequenced cfg channel recorded) {bank : Nat}
    (hbank : bank < (cfg.channelConfig channel).bankCount) (k : HbmCommand) :
    timesOn recorded .bank (u32 ((cfg.channelConfig channel).firstFlatBank + bank)) k =
      bankTimes recorded bank k := by
  unfold timesOn bankTimes
  congr 1
  refine List.filter_congr fun e he => ?_
  obtain ⟨_, -, place⟩ := h.of_mem he
  have index : e.address.scopeIndex .bank =
      u32 ((cfg.channelConfig channel).firstFlatBank + e.bank) := place.flatBank
  rw [index]
  simp only [flatBank_inj place.bank hbank]

/-- A row of the table on the bank of a command. -/
theorem Sequenced.bank_kept (h : Sequenced cfg channel recorded)
    (suffix : (r :: earlier) <:+ recorded) {k : HbmCommand} {delay : Nat}
    (row : ⟨k, timingCommand r.command, .bank, 1, delay⟩ ∈ cfg.device.timing.constraints) :
    ∀ at_ ∈ (bankTimes earlier r.bank k).head?, at_ + delay ≤ r.issuedAt := by
  intro at_ hat
  have place := h.inPlace r earlier suffix
  refine h.row_kept suffix .own row at_ ?_
  show at_ ∈ (timesOn earlier .bank r.address.flatBank k).head?
  rw [place.flatBank, (h.tail suffix).timesOn_bank place.bank]
  exact hat

/-! ### Sites -/

/-- The address `bank_address` gives a recorded command's bank names the same resources as
the command's own. -/
theorem InPlace.site (fits : cfg.device.organization.topology.Fits)
    (h : InPlace (cfg.channelConfig channel) cfg.mapper r earlier) :
    ∃ a, cfg.mapper.bankAddress (u32 ((cfg.channelConfig channel).firstFlatBank + r.bank)) = .ok a ∧
      ∀ scope, a.scopeIndex scope = r.address.scopeIndex scope := by
  rw [← h.flatBank]
  rcases h.address with ⟨-, byte, run⟩ | same
  · exact HbmAddressMapper.bankAddress_of_flat (m := cfg.mapper) fits
      (HbmAddressMapper.map_flat (m := cfg.mapper) fits run)
  · exact ⟨_, same, fun _ => rfl⟩

/-- The commands of a channel share its channel index. -/
theorem InPlace.flatChannel (fits : cfg.device.organization.topology.Fits)
    (hchannel : channel < cfg.channelCount)
    (h : InPlace (cfg.channelConfig channel) cfg.mapper r earlier) :
    r.address.flatChannel = channel := by
  obtain ⟨a, ha, same⟩ := h.site fits
  obtain ⟨banks, first, upto⟩ := HbmConfig.channelConfig_of_fits fits hchannel
  have lt : r.bank < cfg.device.organization.topology.channelBanks := banks ▸ h.bank
  obtain ⟨a', ha', here⟩ := HbmAddressMapper.bankAddress_of_channel (m := cfg.mapper) fits hchannel lt
  rw [first, u32_of_lt (upto _ (Nat.le_of_lt lt))] at ha
  obtain rfl := Except.ok.inj (ha.symm.trans ha')
  exact (same .channel).symm.trans here

/-! ### Order -/

/-- Commands that the table spaces against their like come in order. -/
theorem Sequenced.sorted (h : Sequenced cfg channel recorded) {k : HbmCommand} {scope : TimingScope}
    {index delay : Nat} (row : ⟨k, k, scope, 1, delay⟩ ∈ cfg.device.timing.constraints) :
    (timesOn recorded scope index k).Pairwise (· ≥ ·) := by
  induction recorded with
  | nil => exact .nil
  | cons r earlier ih =>
      have below := ih (h.tail List.suffix_rfl)
      rw [timesOn_cons]
      split
      case isFalse => exact below
      case isTrue same =>
        obtain ⟨command, rfl⟩ := same
        refine List.pairwise_cons.mpr ⟨fun at_ hat => ?_, below⟩
        have row' : ⟨k, timingCommand r.command, scope, 1, delay⟩ ∈ cfg.device.timing.constraints :=
          command.symm ▸ row
        have kept := h.row_kept List.suffix_rfl .own row'
        cases times : timesOn earlier scope (r.address.scopeIndex scope) k with
        | nil =>
            rw [times] at hat
            cases hat
        | cons first rest =>
            have latest := kept first (by rw [times]; rfl)
            rw [times] at hat below
            have bound : at_ ≤ first := by
              rcases List.mem_cons.mp hat with rfl | hat
              · exact Nat.le_refl _
              · exact (List.pairwise_cons.mp below).1 at_ hat
            omega

/-- The latest of an ordered history bounds it. -/
theorem le_of_head? {times : List Nat} (sorted : times.Pairwise (· ≥ ·)) {at_ : Nat}
    (mem : at_ ∈ times) : ∃ latest ∈ times.head?, at_ ≤ latest := by
  cases times with
  | nil => cases mem
  | cons first rest =>
      refine ⟨first, rfl, ?_⟩
      rcases List.mem_cons.mp mem with rfl | mem
      · exact Nat.le_refl _
      · exact (List.pairwise_cons.mp sorted).1 at_ mem

/-- Like commands of a channel come in order. -/
theorem sorted_of_apart {config : HbmControllerConfig} (order : recorded.Pairwise (Apart config))
    {k : HbmCommand} (single : ∀ k', timingCommand k' = k → k' = k) {scope : TimingScope}
    {index : Nat} : (timesOn recorded scope index k).Pairwise (· ≥ ·) := by
  unfold timesOn
  rw [List.pairwise_map]
  refine (order.sublist List.filter_sublist).imp_of_mem fun {r e} hr he apart => ?_
  have hr := (of_decide_eq_true (List.mem_filter.mp hr).2).1
  have he := (of_decide_eq_true (List.mem_filter.mp he).2).1
  exact Nat.le_trans (Nat.le_add_right _ _) (apart (by rw [single _ hr, single _ he]))

/-! ### Precharges -/

/-- The latest precharge that covers a bank. -/
theorem latest_precharge {bank p : Nat} (latest : p ∈ (prechargeTimes earlier bank).head?) :
    ∃ later e before, earlier = later ++ e :: before ∧ (∀ z ∈ later, ¬ z.precharges bank) ∧
      e.precharges bank ∧ e.issuedAt = p := by
  obtain ⟨later, e, before, same, none, here, at_⟩ := head?_map_filter.mp latest
  exact ⟨later, e, before, same, fun z hz => of_decide_eq_false (none z hz),
    of_decide_eq_true here, at_⟩

/-- An ACT waits for the latest precharge that is stamped on its bank. -/
theorem Sequenced.act_rested (h : Sequenced cfg channel recorded)
    (suffix : (r :: earlier) <:+ recorded) (act : r.command = .act)
    {later before : List RecordedCommand} (order : earlier = later ++ e :: before)
    (none : ∀ z ∈ later, ¬ z.precharges r.bank) (closes : timingCommand e.command = .preBank)
    (bank : e.bank = r.bank) : e.issuedAt + cfg.device.timing.tRp ≤ r.issuedAt := by
  refine h.bank_kept suffix (k := .preBank) ?_ e.issuedAt (head?_map_filter.mpr
    ⟨later, e, before, order, fun z hz => decide_eq_false fun found => ?_, ?_, rfl⟩)
  · rw [act]
    exact cfg.device.timing.common_rows.2.1
  · exact none z hz ⟨found.1, .inr found.2.symm⟩
  · exact decide_eq_true ⟨closes, bank⟩

/-- An ACT waits for an all-bank precharge by way of the all-bank refresh it is for. -/
theorem Sequenced.act_refreshed (h : Sequenced cfg channel recorded)
    (apart : recorded.Pairwise (Apart (cfg.channelConfig channel)))
    (fits : cfg.device.organization.topology.Fits) (hchannel : channel < cfg.channelCount)
    (suffix : (r :: earlier) <:+ recorded) (act : r.command = .act)
    {later before : List RecordedCommand} (order : earlier = later ++ e :: before)
    (closes : e.command = .preAll) :
    e.issuedAt + (cfg.channelConfig channel).commandDuration .preAll + cfg.device.timing.tRfc ≤
      r.issuedAt := by
  have place := h.inPlace r earlier suffix
  rcases List.eq_nil_or_concat later with rfl | ⟨rest, x, rfl⟩
  · have next := place.next e (by rw [order]; rfl) closes
    rw [act] at next
    cases next
  rw [List.concat_eq_append, List.append_assoc] at order
  have sub : (x :: e :: before) <:+ earlier := ⟨rest, order.symm⟩
  have place' := h.inPlace x (e :: before) (sub.trans ((List.suffix_cons r earlier).trans suffix))
  have refresh : x.command = .refreshAllBank := place'.next e rfl closes
  have waits : e.issuedAt + (cfg.channelConfig channel).commandDuration .preAll ≤ x.issuedAt := by
    have pair := (List.pairwise_cons.mp (apart.sublist
      (sub.trans ((List.suffix_cons r earlier).trans suffix)).sublist)).1 e List.mem_cons_self
    rw [← closes]
    refine pair ?_
    rw [closes, refresh]
    unfold HbmControllerConfig.commandBus
    split <;> rfl
  have times : x.issuedAt ∈ timesOn earlier .channel (r.address.scopeIndex .channel) .refreshAllBank :=
    mem_timesOn.mpr ⟨x, sub.mem List.mem_cons_self, by rw [refresh]; rfl,
      (place'.flatChannel fits hchannel).trans (place.flatChannel fits hchannel).symm, rfl⟩
  have single : ∀ k', timingCommand k' = .refreshAllBank → k' = .refreshAllBank := by
    intro k'
    cases k' <;> simp [timingCommand]
  obtain ⟨latest, hlatest, le⟩ := le_of_head?
    (sorted_of_apart (apart.sublist ((List.suffix_cons r earlier).trans suffix).sublist) single) times
  have row : ⟨.refreshAllBank, timingCommand r.command, .channel, 1, cfg.device.timing.tRfc⟩ ∈
      cfg.device.timing.constraints := by
    rw [act]
    exact cfg.device.timing.common_rows.2.2.2
  have kept := h.row_kept suffix .own row latest hlatest
  omega

theorem HbmSystem.Run.sequenced (checked : cfg.Checked)
    (opens : cfg.device.standard = none → cfg.controller.rowPolicy.useAutoPrecharge = false)
    {p : HbmSystem × Debts} (run : Run cfg p) (channel : Nat) :
    Sequenced cfg channel (p.1.controllers channel).recorded :=
  ⟨run.spaced checked channel, (run.rowed checked opens channel).inPlace⟩

end

end HbmSim
