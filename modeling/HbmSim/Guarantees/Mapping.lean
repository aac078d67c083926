import HbmSim.Address.Brc
import HbmSim.Address.Linear
import HbmSim.System.Replay

/-!
What the address mappings guarantee.

`validate` checks the dimensions of a device one by one. The mapper and the controllers'
bank ranges multiply them in 32 bits, and the HBM2 layout has fields of its own, so the
checks suffice exactly when the products fit and the layout does. A linear mapping is then
a bijection; the HBM2 layout ignores bit 10, so a transaction that reaches a burst and the
one 1024 bytes above it names one cell twice.
-/

namespace HbmSim

open HbmSim.Lib HbmSystem

section

variable {cfg : HbmConfig}

/-- The byte addresses name the same column of the same row. -/
def SameCell (a b : HbmAddress) : Prop :=
  a.pseudoChannel = b.pseudoChannel ∧ a.bankGroup = b.bankGroup ∧ a.bank = b.bank ∧
    a.row = b.row ∧ a.column = b.column

/-! ### What `validate` has to ensure -/

/-- A configuration whose mapper and controllers agree on every address. -/
structure Sufficient (cfg : HbmConfig) : Prop where
  /-- The constructor divides by no zero. -/
  constructs : HbmSystem.create cfg = .ok (.initial cfg)
  channels : cfg.channelCount = cfg.device.organization.topology.stacks *
    cfg.device.organization.topology.channelsPerStack
  banks : cfg.mapper.bankCount = cfg.device.organization.topology.stacks *
    cfg.device.organization.topology.channelsPerStack *
    cfg.device.organization.topology.pseudoChannelsPerChannel *
    cfg.device.organization.topology.bankGroupsPerPseudoChannel *
    cfg.device.organization.topology.banksPerBankGroup
  maps : ∀ byte < 2 ^ 64, ∃ a, cfg.mapper.map byte = .ok a ∧ a.flatChannel < cfg.channelCount ∧
    (cfg.channelConfig a.flatChannel).firstFlatBank ≤ a.flatBank ∧
    a.flatBank < (cfg.channelConfig a.flatChannel).firstFlatBank +
      (cfg.channelConfig a.flatChannel).bankCount

/-- The banks of a channel contain those mapped to it. -/
theorem owns_of_fits (fits : cfg.device.organization.topology.Fits) {byte : Nat} {a : HbmAddress}
    (run : cfg.mapper.map byte = .ok a) : a.flatChannel < cfg.channelCount ∧
      (cfg.channelConfig a.flatChannel).firstFlatBank ≤ a.flatBank ∧
      a.flatBank < (cfg.channelConfig a.flatChannel).firstFlatBank +
        (cfg.channelConfig a.flatChannel).bankCount := by
  have flat := HbmAddressMapper.map_flat (m := cfg.mapper) fits run
  obtain ⟨banks, first, -⟩ := HbmConfig.channelConfig_of_fits fits flat.channel
  obtain ⟨index, within, place⟩ := flat.flatBank_eq
  refine ⟨flat.channel, ?_⟩
  rw [first, banks, place]
  exact ⟨Nat.le_add_right _ _, Nat.add_lt_add_left within _⟩

/-- The checks suffice exactly for banks that can be counted in 32 bits, and for the HBM2
layout only on a device with room for its fields. -/
theorem sufficient_iff (valid : cfg.Valid) : Sufficient cfg ↔
    cfg.device.organization.topology.stacks * cfg.device.organization.topology.channelsPerStack *
        cfg.device.organization.topology.pseudoChannelsPerChannel *
        cfg.device.organization.topology.bankGroupsPerPseudoChannel *
        cfg.device.organization.topology.banksPerBankGroup < 2 ^ 32 ∧
      (cfg.device.organization.addressMapping = .hbm2PseudoChannelBrc → cfg.mapper.FitsBrc) := by
  constructor
  · intro sufficient
    refine ⟨?_, fun brc => ?_⟩
    · rw [← sufficient.banks]
      exact u32_lt _
    · obtain ⟨a, run, -⟩ := sufficient.maps (2 ^ 64 - 1) (by decide)
      exact HbmAddressMapper.fitsBrc_of_map brc run
  · rintro ⟨small, layout⟩
    have checked := valid.checked
    have fits : cfg.device.organization.topology.Fits := ⟨checked.topology, small⟩
    have count : cfg.channelCount ≠ 0 := Nat.pos_iff_ne_zero.mp fits.channelCount_pos
    refine ⟨create_ok.mpr ⟨valid, count, rfl⟩, fits.channelCount, ?_, fun byte _ => ?_⟩
    · have banks := HbmTopology.Fits.bankCount (m := cfg.mapper) fits
      rw [banks, show cfg.mapper.topology.channelCount = _ from fits.channelCount]
      unfold HbmTopology.channelBanks
      simp only [Nat.mul_assoc]
      rfl
    · have total : ∃ a, cfg.mapper.map byte = .ok a := by
        cases mapping : cfg.device.organization.addressMapping with
        | linear =>
            obtain ⟨-, -, pseudo, groups, banks⟩ := fits.dimensions
            exact HbmAddressMapper.map_of_inside (HbmAddressMapper.linear_inside mapping
              ⟨pseudo, groups, banks, checked.columns, checked.rows⟩)
        | hbm2PseudoChannelBrc => exact HbmAddressMapper.map_of_brc mapping (layout mapping) byte
      obtain ⟨a, run⟩ := total
      exact ⟨a, run, owns_of_fits fits run⟩

/-- A custom device with as many channels as 32 bits can count, and one more. -/
def HbmConfig.manyChannels : HbmConfig :=
  { device :=
      { customOrganization :=
          { DeviceSpec.custom.customOrganization with
            topology := { «stacks» := 65536, channelsPerStack := 65536 } } } }

theorem sufficient_hbm2 : Sufficient .hbm2_2000 :=
  (sufficient_iff (by decide)).mpr ⟨by decide, fun _ => ⟨by decide, by decide, by decide, by decide,
    by decide⟩⟩

/-- 65536 stacks of 65536 channels each are no channels in 32 bits. -/
theorem not_sufficient : ¬ ∀ cfg : HbmConfig, cfg.Valid → Sufficient cfg := by
  intro claim
  have sufficient := claim .manyChannels (by decide)
  exact absurd sufficient.channels (by decide)

/-! ### Linear mappings -/

/-- The mapping is a bijection between lines and cells that the maintenance path shares. -/
structure Bijective (m : HbmAddressMapper) : Prop where
  total : ∀ byte, ∃ a, m.map byte = .ok a
  injective : ∀ byte byte' a a', m.line byte < m.lineCount → m.line byte' < m.lineCount →
    m.map byte = .ok a → m.map byte' = .ok a' → a.coordinates = a'.coordinates →
    m.line byte = m.line byte'
  surjective : ∀ coordinates, MixedRadix.Within m.dimensions coordinates →
    m.encode coordinates < 2 ^ 64 →
    ∃ byte < 2 ^ 64, ∃ a, m.map byte = .ok a ∧ a.coordinates = coordinates
  /-- `bank_address` yields the same address, up to the row and the column. -/
  maintenance : ∀ byte a, m.map byte = .ok a →
    m.bankAddress a.flatBank = .ok { a with row := 0, column := 0 }
  /-- The bank lies in the range of its channel. -/
  owned : ∀ byte a, m.map byte = .ok a →
    a.flatChannel * (m.bankCount / m.topology.channelCount) ≤ a.flatBank ∧
      a.flatBank < (a.flatChannel + 1) * (m.bankCount / m.topology.channelCount)

theorem linear_bijective {m : HbmAddressMapper} (linear : m.Linear) : Bijective m := by
  have fits := linear.fits
  constructor
  case total => exact fun byte => (linear.map_ok byte).imp fun _ => And.left
  case injective =>
    intro byte byte' a a' below below' run run' same
    exact linear.line_injective below below' run run' same
  case surjective =>
    intro coordinates within small
    exact ⟨_, small, linear.map_encode within⟩
  case maintenance => exact fun byte a run => HbmAddressMapper.bankAddress_of_map fits run
  case owned =>
    intro byte a run
    have flat := HbmAddressMapper.map_flat fits run
    obtain ⟨index, within, place⟩ := flat.flatBank_eq
    rw [fits.bankCount, Nat.mul_div_cancel_left _ fits.channelCount_pos, place, Nat.succ_mul]
    exact ⟨Nat.le_add_right _ _, Nat.add_lt_add_left within _⟩

/-- A device whose dimensions are no powers of two, with an interleave that is no multiple
of its burst. -/
def HbmConfig.odd : HbmConfig :=
  { device :=
      { customOrganization :=
          { topology := ⟨1, 3, 2, 3, 5⟩, columnsPerRow := 7, rowsPerBank := 11
            physicalBurstBytes := 64, addressInterleaveBytes := 48, addressMapping := .linear
            pseudoChannelRate := ⟨32, 1000⟩ } }
    simulation := { simulationAccessGranularityBytes := 128 } }

theorem odd_linear : HbmConfig.odd.mapper.Linear where
  fits := ⟨rfl, by decide⟩
  linear := rfl
  interleave := by decide
  columns := by decide
  rows := by decide

theorem linear_bijective_odd : Bijective HbmConfig.odd.mapper := linear_bijective odd_linear

/-! ### Aliasing inside a transaction -/

/-- The bytes the lines of the device hold. -/
def HbmConfig.capacity (cfg : HbmConfig) : Nat := cfg.mapper.lineCount * cfg.mapper.interleaveBytes

/-- No two lines of the transaction have the same cell. -/
def AliasFree (cfg : HbmConfig) (tx : HbmTransaction) : Prop :=
  ∀ byte byte', tx.address ≤ byte → byte < tx.address + tx.sizeBytes → tx.address ≤ byte' →
    byte' < tx.address + tx.sizeBytes → cfg.mapper.line byte ≠ cfg.mapper.line byte' →
    ∀ a a', cfg.mapper.map byte = .ok a → cfg.mapper.map byte' = .ok a' →
      ¬ (a.flatChannel = a'.flatChannel ∧ SameCell a a')

/-- The first burst from the given one on whose bytes have bit 10 clear. -/
def clearBurst (first : Nat) : Nat :=
  if first / 32 % 2 = 0 then first else (first / 32 + 1) * 32

/-- The transaction ends before the burst 1024 bytes above the first with bit 10 clear. -/
def ShortOfAlias (tx : HbmTransaction) : Prop :=
  (tx.address + tx.sizeBytes - 1) / 32 < clearBurst (tx.address / 32) + 32

instance (tx : HbmTransaction) : Decidable (ShortOfAlias tx) := inferInstanceAs (Decidable (_ < _))

/-- Below the capacity of a linear mapping no two lines have the same cell. -/
theorem aliasFree_of_linear (linear : cfg.mapper.Linear) {tx : HbmTransaction}
    (below : tx.address + tx.sizeBytes ≤ cfg.capacity) : AliasFree cfg tx := by
  have inside : ∀ byte, byte < tx.address + tx.sizeBytes →
      cfg.mapper.line byte < cfg.mapper.lineCount := by
    intro byte upper
    refine Nat.div_lt_of_lt_mul ?_
    rw [Nat.mul_comm]
    exact Nat.lt_of_lt_of_le upper below
  rintro byte byte' - upper - upper' apart a a' run run' ⟨channel, pseudo, group, bank, row, column⟩
  obtain ⟨stack, local_⟩ := HbmAddressMapper.map_channel_stack run
  obtain ⟨stack', local'⟩ := HbmAddressMapper.map_channel_stack run'
  refine apart (linear.line_injective (inside byte upper) (inside byte' upper') run run' ?_)
  unfold HbmAddress.coordinates
  rw [stack, stack', local_, local', channel, pseudo, group, bank, row, column]

/-- A standard fixes the mapper. -/
theorem mapper_of_standard {standard : HbmStandard} (device : cfg.device.standard = some standard) :
    cfg.mapper = { topology := standard.organization.topology
                   interleaveBytes := standard.organization.addressInterleaveBytes
                   columnsPerRow := standard.organization.columnsPerRow
                   rowsPerBank := standard.organization.rowsPerBank
                   mapping := standard.organization.addressMapping } := by
  unfold HbmConfig.mapper DeviceSpec.organization
  rw [device]

theorem linear_of_standard {standard : HbmStandard} (device : cfg.device.standard = some standard)
    (other : standard ≠ .hbm2) : cfg.mapper.Linear := by
  rw [mapper_of_standard device]
  have fits := HbmConfig.standard_fits standard
  cases standard with
  | hbm2 => exact absurd rfl other
  | hbm3 => exact ⟨fits, rfl, by decide, by decide, by decide⟩
  | hbm4 => exact ⟨fits, rfl, by decide, by decide, by decide⟩

/-- On HBM2 two bursts have the same cell if bit 10 is all that tells them apart. -/
theorem same_cell_hbm2 (brc : cfg.mapper.mapping = .hbm2PseudoChannelBrc) {byte byte' : Nat}
    (clear : byte / 32 / 32 % 2 = 0) (above : byte' / 32 = byte / 32 + 32) {a a' : HbmAddress}
    (run : cfg.mapper.map byte = .ok a) (run' : cfg.mapper.map byte' = .ok a') :
    a.flatChannel = a'.flatChannel ∧ SameCell a a' := by
  obtain ⟨channel, pseudo, group, bank, column, row⟩ := HbmAddressMapper.cell_of_map brc run
  obtain ⟨channel', pseudo', group', bank', column', row'⟩ := HbmAddressMapper.cell_of_map brc run'
  unfold SameCell
  omega

/-- Below 512 MiB they have the same cell only then. -/
theorem bursts_of_same_cell (brc : cfg.mapper.mapping = .hbm2PseudoChannelBrc) {byte byte' : Nat}
    (below : byte < 2 ^ 29) (below' : byte' < 2 ^ 29) (apart : byte / 32 < byte' / 32)
    {a a' : HbmAddress} (run : cfg.mapper.map byte = .ok a) (run' : cfg.mapper.map byte' = .ok a')
    (same : SameCell a a') : byte / 32 / 32 % 2 = 0 ∧ byte' / 32 = byte / 32 + 32 := by
  obtain ⟨-, pseudo, group, bank, column, row⟩ := HbmAddressMapper.cell_of_map brc run
  obtain ⟨-, pseudo', group', bank', column', row'⟩ := HbmAddressMapper.cell_of_map brc run'
  obtain ⟨samePseudo, sameGroup, sameBank, sameRow, sameColumn⟩ := same
  have rows : byte / 65536 = byte' / 65536 := by omega
  have pages : byte / 2048 = byte' / 2048 := by omega
  have bursts : byte / 32 % 32 = byte' / 32 % 32 := by omega
  omega

theorem aliasFree_hbm2_iff (device : cfg.device.standard = some .hbm2) {tx : HbmTransaction}
    (below : tx.address + tx.sizeBytes ≤ cfg.capacity) : AliasFree cfg tx ↔ ShortOfAlias tx := by
  have mapper := mapper_of_standard device
  have brc : cfg.mapper.mapping = .hbm2PseudoChannelBrc := by rw [mapper]; rfl
  have fits : cfg.mapper.FitsBrc := by
    rw [mapper]
    exact ⟨by decide, by decide, by decide, by decide, by decide⟩
  have burst : ∀ byte, cfg.mapper.line byte = byte / 32 := by
    intro byte
    rw [mapper]
    rfl
  have size : cfg.capacity = 2 ^ 29 := by
    unfold HbmConfig.capacity
    rw [mapper]
    decide
  rw [size] at below
  constructor
  · intro free
    by_contra long
    -- the first burst with bit 10 clear and the burst 1024 bytes above it
    have long : clearBurst (tx.address / 32) + 32 ≤ (tx.address + tx.sizeBytes - 1) / 32 :=
      Nat.le_of_not_lt long
    obtain ⟨clear, first⟩ : clearBurst (tx.address / 32) / 32 % 2 = 0 ∧
        tx.address / 32 ≤ clearBurst (tx.address / 32) := by
      unfold clearBurst
      split <;> omega
    obtain ⟨a, run⟩ := HbmAddressMapper.map_of_brc brc fits
      (max tx.address (32 * clearBurst (tx.address / 32)))
    obtain ⟨a', run'⟩ := HbmAddressMapper.map_of_brc brc fits
      (32 * (clearBurst (tx.address / 32) + 32))
    refine free _ _ (Nat.le_max_left _ _) ?_ ?_ ?_ ?_ a a' run run'
      (same_cell_hbm2 brc ?_ ?_ run run')
    · omega
    · omega
    · omega
    · rw [burst, burst]
      omega
    · omega
    · omega
  · intro short byte byte' lower upper lower' upper' apart a a' run run' same
    unfold ShortOfAlias clearBurst at short
    rw [burst, burst] at apart
    rcases Nat.lt_or_gt_of_ne apart with lt | gt
    · have bits := bursts_of_same_cell brc (by omega) (by omega) lt run run' same.2
      split at short <;> omega
    · obtain ⟨-, pseudo, group, bank, row, column⟩ := same
      have bits := bursts_of_same_cell brc (by omega) (by omega) gt run' run
        ⟨pseudo.symm, group.symm, bank.symm, row.symm, column.symm⟩
      split at short <;> omega

/-- On HBM3 and HBM4 no transaction names a cell twice; on HBM2 those that reach the burst
1024 bytes above one with bit 10 clear do. -/
theorem alias_free_iff {standard : HbmStandard} (device : cfg.device.standard = some standard)
    (tx : HbmTransaction) (below : tx.address + tx.sizeBytes ≤ cfg.capacity) :
    AliasFree cfg tx ↔ standard ≠ .hbm2 ∨ ShortOfAlias tx := by
  by_cases hbm2 : standard = .hbm2
  · subst hbm2
    rw [aliasFree_hbm2_iff device below]
    simp
  · have free := aliasFree_of_linear (linear_of_standard device hbm2) below
    exact ⟨fun _ => .inl hbm2, fun _ => free⟩

theorem alias_free_page : AliasFree .hbm2_2000 (.read 1 0 1024) ∧
    ¬ AliasFree .hbm2_2000 (.read 1 0 1025) :=
  ⟨(alias_free_iff rfl (.read 1 0 1024) (by decide)).mpr (.inr (by decide)),
    fun free => absurd ((alias_free_iff rfl (.read 1 0 1025) (by decide)).mp free) (by decide)⟩

/-- A read of 1025 bytes on an idle HBM2 device is accepted; its first and its last byte
have the same cell. -/
theorem not_alias_free : ¬ ∀ cfg ∈ [HbmConfig.hbm2_2000, .hbm3_6400, .hbm4_8000],
    ∀ s, Reachable cfg NoEscape s → ∀ ticket tx at_, .accepted ticket tx at_ ∈ s.trace →
      tx.address + tx.sizeBytes ≤ cfg.capacity → AliasFree cfg tx := by
  intro claim
  obtain ⟨s, reached, accepted⟩ := exists_reachable .hbm2_2000 NoEscape
    [submit (.read 1 0 1025)]
    (fun s => decide (.accepted 0 (.read 1 0 1025) 0 ∈ s.trace))
    (by decide) (by decide) (by decide +kernel)
  have free := claim .hbm2_2000 (by simp) s reached 0 (.read 1 0 1025) 0 (of_decide_eq_true accepted)
    (by decide)
  obtain ⟨a, first⟩ : ∃ a, HbmConfig.hbm2_2000.mapper.map 0 = .ok a := ⟨_, rfl⟩
  obtain ⟨b, last⟩ : ∃ b, HbmConfig.hbm2_2000.mapper.map 1024 = .ok b := ⟨_, rfl⟩
  refine free 0 1024 (by decide) (by decide) (by decide) (by decide) (by decide) a b first last ?_
  cases first
  cases last
  exact ⟨rfl, rfl, rfl, rfl, rfl, rfl⟩

end

end HbmSim
