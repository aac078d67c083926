import HbmSim.System.Checked

/-!
Topologies whose banks can be counted in 32 bits.

On them the products of the mapper are exact: the flat indices of a mapped address are
those of its bank, and the banks of a channel are consecutive. Every standard has one.
-/

namespace HbmSim

open HbmSim.Lib

/-- The banks of the topology can be counted in 32 bits. -/
structure HbmTopology.Fits (t : HbmTopology) : Prop where
  positive : t.validate = .ok ()
  banks : t.stacks * t.channelsPerStack * t.pseudoChannelsPerChannel *
    t.bankGroupsPerPseudoChannel * t.banksPerBankGroup < 2 ^ 32

/-- The banks of a channel, in an exact topology. -/
def HbmTopology.channelBanks (t : HbmTopology) : Nat :=
  t.pseudoChannelsPerChannel * t.bankGroupsPerPseudoChannel * t.banksPerBankGroup

/-- A flat index stays inside the product. -/
theorem flat_lt {i n j m : Nat} (hi : i < n) (hj : j < m) : i * m + j < n * m :=
  calc i * m + j < i * m + m := Nat.add_lt_add_left hj _
    _ = (i + 1) * m := (Nat.succ_mul i m).symm
    _ ≤ n * m := Nat.mul_le_mul_right m hi

/-- The outer index of a flat index. -/
theorem flat_div {i j m : Nat} (hj : j < m) : (i * m + j) / m = i := by
  rw [Nat.mul_comm, Nat.mul_add_div (by omega), Nat.div_eq_of_lt hj, Nat.add_zero]

/-- The inner index of a flat index. -/
theorem flat_mod {i j m : Nat} (hj : j < m) : (i * m + j) % m = j := by
  rw [Nat.mul_comm, Nat.mul_add_mod, Nat.mod_eq_of_lt hj]

/-- The dimensions of a valid topology are positive. -/
theorem HbmTopology.dimensions_pos {t : HbmTopology} (positive : t.validate = .ok ()) :
    0 < t.stacks ∧ 0 < t.channelsPerStack ∧ 0 < t.pseudoChannelsPerChannel ∧
      0 < t.bankGroupsPerPseudoChannel ∧ 0 < t.banksPerBankGroup := by
  unfold validate at positive
  split at positive
  · cases positive
  · omega

namespace HbmTopology.Fits

variable {t : HbmTopology}

/-- The dimensions of a topology that fits are positive. -/
theorem dimensions (h : t.Fits) : 0 < t.stacks ∧ 0 < t.channelsPerStack ∧
    0 < t.pseudoChannelsPerChannel ∧ 0 < t.bankGroupsPerPseudoChannel ∧
      0 < t.banksPerBankGroup :=
  dimensions_pos h.positive

/-- The products along the hierarchy, none of which wraps. -/
theorem products (h : t.Fits) : t.stacks * t.channelsPerStack < 2 ^ 32 ∧
    t.stacks * t.channelsPerStack * t.pseudoChannelsPerChannel < 2 ^ 32 ∧
      t.stacks * t.channelsPerStack * t.pseudoChannelsPerChannel *
        t.bankGroupsPerPseudoChannel < 2 ^ 32 := by
  obtain ⟨-, -, pseudo, groups, banks⟩ := h.dimensions
  have upto := h.banks
  have groups' := Nat.le_mul_of_pos_right (t.stacks * t.channelsPerStack *
    t.pseudoChannelsPerChannel * t.bankGroupsPerPseudoChannel) banks
  have pseudo' := Nat.le_mul_of_pos_right (t.stacks * t.channelsPerStack *
    t.pseudoChannelsPerChannel) groups
  have channels' := Nat.le_mul_of_pos_right (t.stacks * t.channelsPerStack) pseudo
  omega

/-- No dimension below the channel exceeds 32 bits. -/
theorem narrow (h : t.Fits) : t.pseudoChannelsPerChannel < 2 ^ 32 ∧
    t.bankGroupsPerPseudoChannel < 2 ^ 32 ∧ t.banksPerBankGroup < 2 ^ 32 := by
  obtain ⟨count, channels, pseudo, groups, -⟩ := h.dimensions
  obtain ⟨-, pseudoFits, groupFits⟩ := h.products
  have one := Nat.mul_pos count channels
  have two := Nat.mul_pos one pseudo
  have three := Nat.mul_pos two groups
  refine ⟨?_, ?_, ?_⟩
  · exact Nat.lt_of_le_of_lt (Nat.le_mul_of_pos_left _ one) pseudoFits
  · exact Nat.lt_of_le_of_lt (Nat.le_mul_of_pos_left _ two) groupFits
  · exact Nat.lt_of_le_of_lt (Nat.le_mul_of_pos_left _ three) h.banks

/-- The channels are not wrapped. -/
theorem channelCount (h : t.Fits) : t.channelCount = t.stacks * t.channelsPerStack :=
  u32_of_lt h.products.1

/-- There is a channel. -/
theorem channelCount_pos (h : t.Fits) : 0 < t.channelCount := by
  rw [h.channelCount]
  obtain ⟨count, channels, -⟩ := h.dimensions
  exact Nat.mul_pos count channels

/-- Every channel has a bank. -/
theorem channelBanks_pos (h : t.Fits) : 0 < t.channelBanks := by
  obtain ⟨-, -, pseudo, groups, banks⟩ := h.dimensions
  exact Nat.mul_pos (Nat.mul_pos pseudo groups) banks

/-- The banks are those of all channels. -/
theorem bankCount {m : HbmAddressMapper} (h : m.topology.Fits) :
    m.bankCount = m.topology.channelCount * m.topology.channelBanks := by
  unfold HbmAddressMapper.bankCount
  rw [h.channelCount, u32_of_lt h.banks]
  unfold channelBanks
  simp only [Nat.mul_assoc]

end HbmTopology.Fits

namespace HbmAddressMapper

variable {m : HbmAddressMapper}

/-- The channel a byte address decodes to. -/
theorem decode_channel (fits : m.topology.Fits) (byte : Nat) :
    (m.decode byte).flatChannel < m.topology.channelCount ∧
      (m.decode byte).stack = (m.decode byte).flatChannel / m.topology.channelsPerStack := by
  have positive := fits.channelCount_pos
  unfold decode
  split
  · exact ⟨positive, (Nat.zero_div _).symm⟩
  · exact ⟨Nat.lt_of_le_of_lt (Nat.mod_le _ _) (Nat.mod_lt _ positive), rfl⟩

/-- Coordinates within the dimensions are not rejected. -/
theorem not_outside {a : HbmAddress}
    (pseudo : a.pseudoChannel < m.topology.pseudoChannelsPerChannel)
    (group : a.bankGroup < m.topology.bankGroupsPerPseudoChannel)
    (bank : a.bank < m.topology.banksPerBankGroup) (column : a.column < m.columnsPerRow)
    (row : a.row < m.rowsPerBank) : m.outside a = false := by
  simp [outside, pseudo, group, bank, column, row]

/-- A linear mapping decodes every address into its topology. -/
theorem linear_inside (linear : m.mapping = .linear)
    (positive : 0 < m.topology.pseudoChannelsPerChannel ∧
      0 < m.topology.bankGroupsPerPseudoChannel ∧ 0 < m.topology.banksPerBankGroup ∧
        0 < m.columnsPerRow ∧ 0 < m.rowsPerBank) {byte : Nat} :
    m.outside (m.decode byte) = false := by
  obtain ⟨pseudo, group, bank, column, row⟩ := positive
  have within : ∀ {n k : Nat}, 0 < k → u32 (n % k) < k := fun positive =>
    Nat.lt_of_le_of_lt (Nat.mod_le _ _) (Nat.mod_lt _ positive)
  unfold decode
  rw [linear]
  exact not_outside (within pseudo) (within group) (within bank) (within column) (within row)

/-- The flat indices of a mapped address. -/
structure Flat (m : HbmAddressMapper) (a : HbmAddress) : Prop where
  channel : a.flatChannel < m.topology.channelCount
  pseudoChannel : a.pseudoChannel < m.topology.pseudoChannelsPerChannel
  bankGroup : a.bankGroup < m.topology.bankGroupsPerPseudoChannel
  bank : a.bank < m.topology.banksPerBankGroup
  flatSid : a.flatSid = a.flatChannel / m.topology.channelsPerStack
  flatPseudoChannel : a.flatPseudoChannel =
    a.flatChannel * m.topology.pseudoChannelsPerChannel + a.pseudoChannel
  flatBankGroup : a.flatBankGroup =
    a.flatPseudoChannel * m.topology.bankGroupsPerPseudoChannel + a.bankGroup
  flatBank : a.flatBank = a.flatBankGroup * m.topology.banksPerBankGroup + a.bank

/-- The flat indices of a mapped address are those of its coordinates. -/
theorem map_flat (fits : m.topology.Fits) {byte : Nat} {a : HbmAddress}
    (run : m.map byte = .ok a) : m.Flat a := by
  unfold map at run
  dsimp only at run
  split at run
  · cases run
  rename_i inside
  cases run
  simp only [outside, Bool.or_eq_true, decide_eq_true_eq, not_or, Nat.not_le] at inside
  obtain ⟨⟨⟨⟨pseudo, group⟩, bank⟩, -⟩, -⟩ := inside
  obtain ⟨channel, stack⟩ := decode_channel fits byte
  obtain ⟨-, pseudoFits, groupFits⟩ := fits.products
  have upto := fits.banks
  rw [← fits.channelCount] at pseudoFits groupFits upto
  have flatPseudo := flat_lt channel pseudo
  have flatGroup := flat_lt flatPseudo group
  have flatBank := flat_lt flatGroup bank
  have pseudoExact := u32_of_lt (Nat.lt_trans flatPseudo pseudoFits)
  have groupExact := u32_of_lt (Nat.lt_trans flatGroup groupFits)
  have bankExact := u32_of_lt (Nat.lt_trans flatBank upto)
  refine ⟨channel, pseudo, group, bank, stack, pseudoExact, ?_, ?_⟩
  · simp only [flatten, pseudoExact, groupExact]
  · simp only [flatten, pseudoExact, groupExact, bankExact]

/-- The flat bank is one of the banks. -/
theorem Flat.flatBank_lt {a : HbmAddress} (flat : m.Flat a) (fits : m.topology.Fits) :
    a.flatBank < m.bankCount := by
  rw [fits.bankCount, flat.flatBank, flat.flatBankGroup, flat.flatPseudoChannel]
  have lt := flat_lt (flat_lt (flat_lt flat.channel flat.pseudoChannel) flat.bankGroup) flat.bank
  unfold HbmTopology.channelBanks
  simpa only [Nat.mul_assoc] using lt

/-- The place of a bank among the banks of its channel. -/
theorem Flat.flatBank_eq {a : HbmAddress} (flat : m.Flat a) :
    ∃ index < m.topology.channelBanks,
      a.flatBank = a.flatChannel * m.topology.channelBanks + index := by
  refine ⟨(a.pseudoChannel * m.topology.bankGroupsPerPseudoChannel + a.bankGroup) *
    m.topology.banksPerBankGroup + a.bank,
    flat_lt (flat_lt flat.pseudoChannel flat.bankGroup) flat.bank, ?_⟩
  rw [flat.flatBank, flat.flatBankGroup, flat.flatPseudoChannel]
  unfold HbmTopology.channelBanks
  simp only [Nat.add_mul, Nat.mul_assoc, Nat.add_assoc]

/-- `bank_address` gives an address of the bank its other flat indices. -/
theorem bankAddress_of_flat (fits : m.topology.Fits) {a : HbmAddress} (flat : m.Flat a) :
    ∃ a', m.bankAddress a.flatBank = .ok a' ∧
      ∀ scope, a'.scopeIndex scope = a.scopeIndex scope := by
  have group : a.flatBank / m.topology.banksPerBankGroup = a.flatBankGroup := by
    rw [flat.flatBank, flat_div flat.bank]
  have pseudo : a.flatBankGroup / m.topology.bankGroupsPerPseudoChannel = a.flatPseudoChannel := by
    rw [flat.flatBankGroup, flat_div flat.bankGroup]
  have channel : a.flatPseudoChannel / m.topology.pseudoChannelsPerChannel = a.flatChannel := by
    rw [flat.flatPseudoChannel, flat_div flat.pseudoChannel]
  have inside := flat.flatBank_lt fits
  unfold bankAddress
  dsimp only
  rw [if_neg (Nat.not_le.mpr inside)]
  refine ⟨_, rfl, fun scope => ?_⟩
  cases scope with
  | bank => rfl
  | bankGroup => exact group
  | pseudoChannel => exact (congrArg (· / _) group).trans pseudo
  | channel => exact (congrArg (· / _ / _) group).trans ((congrArg (· / _) pseudo).trans channel)
  | sid =>
      refine (congrArg (· / _ / _ / _) group).trans ((congrArg (· / _ / _) pseudo).trans ?_)
      exact (congrArg (· / _) channel).trans flat.flatSid.symm

/-- The channel of a mapped address within its stack. -/
theorem map_channel_stack {byte : Nat} {a : HbmAddress} (run : m.map byte = .ok a) :
    a.stack = a.flatChannel / m.topology.channelsPerStack ∧
      a.channel = a.flatChannel % m.topology.channelsPerStack := by
  unfold map at run
  dsimp only at run
  split at run
  · cases run
  cases run
  show (m.decode byte).stack = (m.decode byte).flatChannel / _ ∧
    (m.decode byte).channel = (m.decode byte).flatChannel % _
  unfold decode
  split
  · exact ⟨(Nat.zero_div _).symm, (Nat.zero_mod _).symm⟩
  · exact ⟨rfl, rfl⟩

/-- `bank_address` finds the bank of a mapped address, without row and column. -/
theorem bankAddress_of_map (fits : m.topology.Fits) {byte : Nat} {a : HbmAddress}
    (run : m.map byte = .ok a) :
    m.bankAddress a.flatBank = .ok { a with row := 0, column := 0 } := by
  have flat := map_flat fits run
  obtain ⟨stack, channel⟩ := map_channel_stack run
  have group : a.flatBank / m.topology.banksPerBankGroup = a.flatBankGroup := by
    rw [flat.flatBank, flat_div flat.bank]
  have bank : a.flatBank % m.topology.banksPerBankGroup = a.bank := by
    rw [flat.flatBank, flat_mod flat.bank]
  have pseudo : a.flatBankGroup / m.topology.bankGroupsPerPseudoChannel = a.flatPseudoChannel := by
    rw [flat.flatBankGroup, flat_div flat.bankGroup]
  have bankGroup : a.flatBankGroup % m.topology.bankGroupsPerPseudoChannel = a.bankGroup := by
    rw [flat.flatBankGroup, flat_mod flat.bankGroup]
  have flatChannel : a.flatPseudoChannel / m.topology.pseudoChannelsPerChannel = a.flatChannel := by
    rw [flat.flatPseudoChannel, flat_div flat.pseudoChannel]
  have pseudoChannel : a.flatPseudoChannel % m.topology.pseudoChannelsPerChannel =
      a.pseudoChannel := by
    rw [flat.flatPseudoChannel, flat_mod flat.pseudoChannel]
  have inside := flat.flatBank_lt fits
  unfold bankAddress
  dsimp only
  rw [if_neg (Nat.not_le.mpr inside), group, bank, pseudo, bankGroup, flatChannel, pseudoChannel,
    ← stack, ← channel, flat.flatSid, ← stack]

/-- The banks of a channel in the order of `bank_address`. -/
theorem bankAddress_of_channel (fits : m.topology.Fits) {channel index : Nat}
    (hchannel : channel < m.topology.channelCount) (hindex : index < m.topology.channelBanks) :
    ∃ a, m.bankAddress (channel * m.topology.channelBanks + index) = .ok a ∧
      a.flatChannel = channel := by
  have inside : channel * m.topology.channelBanks + index < m.bankCount := by
    rw [fits.bankCount]
    exact flat_lt hchannel hindex
  unfold bankAddress
  dsimp only
  rw [if_neg (Nat.not_le.mpr inside)]
  refine ⟨_, rfl, ?_⟩
  show (channel * m.topology.channelBanks + index) / _ / _ / _ = channel
  rw [Nat.div_div_eq_div_mul, Nat.div_div_eq_div_mul]
  have same : m.topology.banksPerBankGroup * (m.topology.bankGroupsPerPseudoChannel *
      m.topology.pseudoChannelsPerChannel) = m.topology.channelBanks := by
    unfold HbmTopology.channelBanks
    rw [Nat.mul_comm, Nat.mul_comm m.topology.bankGroupsPerPseudoChannel]
  rw [same, flat_div hindex]

end HbmAddressMapper

namespace HbmConfig

variable {cfg : HbmConfig}

/-- The channels of an exact topology. -/
theorem channelConfig_of_fits (fits : cfg.device.organization.topology.Fits) {channel : Nat}
    (hchannel : channel < cfg.channelCount) :
    (cfg.channelConfig channel).bankCount = cfg.device.organization.topology.channelBanks ∧
      (cfg.channelConfig channel).firstFlatBank =
        channel * cfg.device.organization.topology.channelBanks ∧
      ∀ index ≤ cfg.device.organization.topology.channelBanks,
        channel * cfg.device.organization.topology.channelBanks + index < 2 ^ 32 := by
  have fits' : cfg.mapper.topology.Fits := fits
  have count : cfg.banksPerChannel = cfg.device.organization.topology.channelBanks := by
    unfold banksPerChannel
    rw [fits'.bankCount]
    exact Nat.mul_div_cancel_left _ fits.channelCount_pos
  have upto : ∀ index ≤ cfg.device.organization.topology.channelBanks,
      channel * cfg.device.organization.topology.channelBanks + index < 2 ^ 32 := by
    intro index hindex
    have total : cfg.mapper.bankCount < 2 ^ 32 := u32_lt _
    rw [fits'.bankCount] at total
    have more := Nat.mul_le_mul_right cfg.device.organization.topology.channelBanks hchannel
    rw [Nat.succ_mul] at more
    exact Nat.lt_of_le_of_lt (Nat.le_trans (Nat.add_le_add_left hindex _) more) total
  refine ⟨count, ?_, upto⟩
  show u32 (channel * cfg.banksPerChannel) = _
  rw [count]
  exact u32_of_lt (upto 0 (Nat.zero_le _))

/-- The banks of an exact topology are those of its channels. -/
theorem regular_of_fits (fits : cfg.device.organization.topology.Fits) {channel : Nat}
    (hchannel : channel < cfg.channelCount) :
    Regular (cfg.channelConfig channel) cfg.mapper := by
  obtain ⟨banks, first, upto⟩ := channelConfig_of_fits fits hchannel
  refine ⟨banks ▸ fits.channelBanks_pos, fun index hindex => ?_, fun a mapped => ?_⟩
  · rw [first, u32_of_lt (upto index (Nat.le_of_lt (banks ▸ hindex)))]
    obtain ⟨a, ha, -⟩ := HbmAddressMapper.bankAddress_of_channel (m := cfg.mapper) fits hchannel
      (banks ▸ hindex)
    exact ⟨a, ha⟩
  · obtain ⟨here, byte, run⟩ := mapped
    have flat := HbmAddressMapper.map_flat (m := cfg.mapper) fits run
    obtain ⟨index, within, place⟩ : ∃ index < cfg.device.organization.topology.channelBanks,
        a.flatBank = channel * cfg.device.organization.topology.channelBanks + index :=
      (show a.flatChannel = channel from here) ▸ flat.flatBank_eq
    refine ⟨index, banks ▸ within, ?_⟩
    unfold HbmController.localBank
    rw [first, banks, u32_of_lt (upto _ (Nat.le_refl _)), if_neg (by omega), place,
      Nat.add_sub_cancel_left]

/-- A device that maps every address, and whose banks can be counted in 32 bits, is covered. -/
theorem covered_of_fits (total : ∀ byte, ∃ a, cfg.mapper.map byte = .ok a)
    (fits : cfg.device.organization.topology.Fits) : cfg.Covered :=
  ⟨total, fun _ hchannel => regular_of_fits fits hchannel⟩

/-! ### Standards -/

/-- The topologies of the standards fit. -/
theorem standard_fits (s : HbmStandard) : s.organization.topology.Fits := by
  cases s <;> exact ⟨rfl, by decide⟩

variable {standard : HbmStandard}

/-- So does the topology of a standard's device. -/
theorem fits_of_standard (hs : cfg.device.standard = some standard) :
    cfg.device.organization.topology.Fits := by
  unfold DeviceSpec.organization
  rw [hs]
  exact standard_fits standard

/-- A standard's device has one channel of 32 banks and maps every address. -/
theorem covered_of_standard (hs : cfg.device.standard = some standard) : cfg.Covered := by
  refine covered_of_fits (fun byte => ?_) (fits_of_standard hs)
  have organization : cfg.device.organization = standard.organization := by
    unfold DeviceSpec.organization
    rw [hs]
  unfold HbmAddressMapper.map
  dsimp only
  split
  · rename_i outside
    have inside : cfg.mapper.outside (cfg.mapper.decode byte) = false := by
      unfold mapper
      rw [organization]
      cases standard with
      | hbm2 =>
          exact HbmAddressMapper.not_outside (Nat.and_lt_two_pow _ (n := 1) (by decide))
            (Nat.and_lt_two_pow _ (n := 2) (by decide)) (Nat.and_lt_two_pow _ (n := 2) (by decide))
            (Nat.and_lt_two_pow _ (n := 5) (by decide)) (Nat.and_lt_two_pow _ (n := 14) (by decide))
      | hbm3 => exact HbmAddressMapper.linear_inside rfl (by decide)
      | hbm4 => exact HbmAddressMapper.linear_inside rfl (by decide)
    cases inside.symm.trans outside
  · exact ⟨_, rfl⟩

end HbmConfig

end HbmSim
