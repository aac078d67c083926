import HbmSim.Address.Partition
import HbmSim.Guarantees.Mapping

/-!
What splitting a transaction guarantees.

Under a linear mapping the accesses of a transaction partition its bytes, each within one
row of one bank. The boundaries the cuts are made at come from the interleave alone; the
HBM2 layout ignores it, and respects the boundaries if and only if the interleave divides
the 32 bytes of its burst.
-/

namespace HbmSim

open HbmSim.Lib

/-- The transaction splits into accesses that partition its bytes and stay in one row. -/
structure Partitioned (cfg : HbmConfig) (tx : HbmTransaction) (accesses : List HbmAccess) :
    Prop where
  tiles : Tiles (·.byteAddress) (·.sizeBytes) tx.address accesses (tx.address + tx.sizeBytes)
  covered : ∀ byte, (∃ access ∈ accesses, Tiles.Holds (·.byteAddress) (·.sizeBytes) byte access) ↔
    tx.address ≤ byte ∧ byte < tx.address + tx.sizeBytes
  disjoint : accesses.Pairwise fun x y => x.byteAddress + x.sizeBytes ≤ y.byteAddress
  bounded : ∀ access ∈ accesses, 0 < access.sizeBytes ∧ access.sizeBytes ≤ cfg.maxGroupBytes
  mapped : ∀ access ∈ accesses, cfg.mapper.map access.byteAddress = .ok access.address
  row : ∀ access ∈ accesses, ∀ byte, Tiles.Holds (·.byteAddress) (·.sizeBytes) byte access →
    ∃ a, cfg.mapper.map byte = .ok a ∧ a.stack = access.address.stack ∧
      a.channel = access.address.channel ∧ a.pseudoChannel = access.address.pseudoChannel ∧
      a.bankGroup = access.address.bankGroup ∧ a.bank = access.address.bank ∧
      a.row = access.address.row
  /-- From one byte to the next the column stays or moves up by one. -/
  columns : ∀ access ∈ accesses, ∀ byte,
    Tiles.Holds (·.byteAddress) (·.sizeBytes) byte access →
    Tiles.Holds (·.byteAddress) (·.sizeBytes) (byte + 1) access →
    ∀ a b, cfg.mapper.map byte = .ok a → cfg.mapper.map (byte + 1) = .ok b →
      b.column = a.column ∨ b.column = a.column + 1
  belongs : ∀ access ∈ accesses, access.toLogicalAccess.Of tx

/-- The mapping boundary is where the mapping changes, and accesses respect it. -/
structure SoundCuts (cfg : HbmConfig) : Prop where
  upto : ∀ address byte a, cfg.mapper.map address = .ok a → address ≤ byte → byte < 2 ^ 64 →
    byte < address + cfg.mapper.nextMappingBoundary address →
    ∃ b, cfg.mapper.map byte = .ok b ∧ SameCell a b
  accesses : ∀ tx offset access, cfg.nextAccess tx offset = .ok access → ∀ byte,
    byte < 2 ^ 64 → access.byteAddress ≤ byte → byte < access.byteAddress + access.sizeBytes →
    ∃ b, cfg.mapper.map byte = .ok b ∧ b.pseudoChannel = access.address.pseudoChannel ∧
      b.bankGroup = access.address.bankGroup ∧ b.bank = access.address.bank

section

variable {cfg : HbmConfig}

theorem sameResource_iff {a b : HbmAddress} : sameResource a b = true ↔
    a.flatChannel = b.flatChannel ∧ a.pseudoChannel = b.pseudoChannel ∧
      a.bankGroup = b.bankGroup ∧ a.bank = b.bank ∧ a.row = b.row := by
  simp only [sameResource, Bool.and_eq_true, beq_iff_eq, and_assoc]

/-- Under a linear mapping the accesses of a transaction partition its bytes. -/
theorem split_partitions (valid : cfg.Valid) (linear : cfg.mapper.Linear) (tx : HbmTransaction)
    (fits : tx.address + tx.sizeBytes ≤ 2 ^ 64) :
    ∃ accesses, cfg.splitFrom tx tx.sizeBytes 0 = .ok accesses ∧
      Partitioned cfg tx accesses := by
  have cuts : cfg.mapper.Cuts :=
    HbmAddressMapper.cuts_of_linear linear.linear linear.interleave
  have total : ∀ byte, ∃ a, cfg.mapper.map byte = .ok a := fun byte =>
    (linear.map_ok byte).imp fun _ => And.left
  have inside : tx.sizeBytes - 1 ≤ maxSimTime - tx.address := by
    unfold maxSimTime
    omega
  obtain ⟨accesses, split, tiles, pieces⟩ :=
    HbmConfig.splitFrom_tiles valid cuts total inside (Nat.zero_le _) (Nat.le_refl _)
  rw [Nat.add_zero] at tiles
  refine ⟨accesses, split, tiles, fun byte => tiles.covers, tiles.apart, ?_, ?_, ?_, ?_, ?_⟩
  · intro access mem
    exact ⟨tiles.positive access mem, (pieces access mem).1.bounded⟩
  · exact fun access mem => (pieces access mem).1.oneRow.start
  · intro access mem byte holds
    have oneRow := (pieces access mem).1.oneRow
    obtain ⟨a, mapped, same⟩ := oneRow.row byte holds.1 holds.2
    obtain ⟨channel, pseudo, group, bank, row⟩ := sameResource_iff.mp same
    obtain ⟨stack, local_⟩ := HbmAddressMapper.map_channel_stack mapped
    obtain ⟨stack', local'⟩ := HbmAddressMapper.map_channel_stack oneRow.start
    refine ⟨a, mapped, ?_, ?_, pseudo.symm, group.symm, bank.symm, row.symm⟩
    · rw [stack, stack', channel]
    · rw [local_, local', channel]
  · intro access mem byte holds next
    exact (pieces access mem).1.oneRow.columns byte holds.1 next.2
  · exact fun access mem => (pieces access mem).2

theorem split_partitions_odd : ∃ accesses,
    HbmConfig.odd.splitFrom (.read 1 1000 500) 500 0 = .ok accesses ∧
      Partitioned .odd (.read 1 1000 500) accesses :=
  split_partitions (by decide) odd_linear (.read 1 1000 500) (by decide)

/-! ### The boundary of a mapping -/

/-- A burst boundary of the HBM2 layout inside an interleave line separates two cells. -/
theorem interleave_dvd_of_soundCuts (valid : cfg.Valid)
    (brc : cfg.mapper.mapping = .hbm2PseudoChannelBrc) (sound : SoundCuts cfg) :
    cfg.mapper.interleaveBytes ∣ 32 := by
  have interleave : 0 < cfg.mapper.interleaveBytes := valid.checked.interleave
  by_contra ragged
  -- the last byte of the first burst and the first byte of the second share a line
  have parts := Nat.div_add_mod 31 cfg.mapper.interleaveBytes
  have inside := Nat.mod_lt 31 interleave
  have room : 31 % cfg.mapper.interleaveBytes + 1 ≠ cfg.mapper.interleaveBytes := by
    intro full
    refine ragged ⟨31 / cfg.mapper.interleaveBytes + 1, ?_⟩
    rw [Nat.mul_succ]
    omega
  have upper : 32 < 31 + cfg.mapper.nextMappingBoundary 31 := by
    unfold HbmAddressMapper.nextMappingBoundary
    omega
  obtain ⟨a, mapped⟩ : ∃ a, cfg.mapper.map 31 = .ok a := by
    refine HbmAddressMapper.map_of_inside ?_
    rw [HbmAddressMapper.decode_brc brc]
    have checked := valid.checked
    obtain ⟨-, -, pseudo, groups, banks⟩ := HbmTopology.dimensions_pos checked.topology
    exact HbmAddressMapper.not_outside pseudo groups banks checked.columns checked.rows
  obtain ⟨b, next, same, -⟩ := sound.upto 31 32 a mapped (by decide) (by decide) upper
  have first := (HbmAddressMapper.cell_of_map brc mapped).2.1
  have second := (HbmAddressMapper.cell_of_map brc next).2.1
  omega

/-- The boundaries suit a linear mapping, and the HBM2 layout if it does not cross them. -/
theorem sound_cuts_iff (valid : cfg.Valid) : SoundCuts cfg ↔
    cfg.device.organization.addressMapping = .linear ∨
      cfg.device.organization.addressInterleaveBytes ∣ 32 := by
  have interleave := valid.checked.interleave
  constructor
  · intro sound
    cases mapping : cfg.device.organization.addressMapping with
    | linear => exact .inl rfl
    | hbm2PseudoChannelBrc => exact .inr (interleave_dvd_of_soundCuts valid mapping sound)
  · intro suits
    have cuts : cfg.mapper.Cuts := by
      cases mapping : cfg.device.organization.addressMapping with
      | linear => exact HbmAddressMapper.cuts_of_linear mapping interleave
      | hbm2PseudoChannelBrc =>
          refine HbmAddressMapper.cuts_of_brc mapping interleave (suits.resolve_left ?_)
          rw [mapping]
          decide
    constructor
    case upto =>
      intro address byte a mapped lower _ upper
      exact ⟨a, (cuts lower upper).trans mapped, rfl, rfl, rfl, rfl, rfl⟩
    case accesses =>
      intro tx offset access run byte _ lower upper
      obtain ⟨-, piece⟩ := HbmConfig.nextAccess_piece valid cuts run
      obtain ⟨b, mapped, same⟩ := piece.oneRow.row byte lower upper
      obtain ⟨-, pseudo, group, bank, -⟩ := sameResource_iff.mp same
      exact ⟨b, mapped, pseudo.symm, group.symm, bank.symm⟩

/-- A custom device with the layout of HBM2 and interleave lines of two bursts. -/
def HbmConfig.wideLines : HbmConfig :=
  { device :=
      { (DeviceSpec.fromStandard .hbm2).asCustom with
        customOrganization :=
          { HbmStandard.hbm2.organization with addressInterleaveBytes := 64 } } }

theorem sound_cuts_hbm2 : SoundCuts .hbm2_2000 ∧ ¬ SoundCuts .wideLines :=
  ⟨(sound_cuts_iff (by decide)).mpr (.inr (by decide)),
    fun sound => absurd ((sound_cuts_iff (by decide)).mp sound) (by decide)⟩

/-- Bytes 0 and 32 share an interleave line of 64 bytes, but not a pseudo-channel. -/
theorem not_sound_cuts : ¬ ∀ cfg : HbmConfig, cfg.Valid → SoundCuts cfg := by
  intro claim
  have sound := claim .wideLines (by decide)
  obtain ⟨a, first⟩ : ∃ a, HbmConfig.wideLines.mapper.map 0 = .ok a := ⟨_, rfl⟩
  obtain ⟨b, next, same, -⟩ := sound.upto 0 32 a first (by decide) (by decide) (by decide)
  cases first
  cases next
  exact absurd same (by decide)

end

end HbmSim
