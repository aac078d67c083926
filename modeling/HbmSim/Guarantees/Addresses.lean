import HbmSim.Address.Brc
import HbmSim.Guarantees.Mapping
import HbmSim.Validation.Addresses

/-!
One address in every simulator.

The validation tools and the address mapper were written apart: bit fields on one side and
mixed radices on the other, a hierarchical vector for Ramulator and a dense number for
DRAMSys. All of them name the same cell.
-/

namespace HbmSim

open HbmSim.Lib HbmSim.Validation

/-- The part of a mapped address the tools know. -/
def HbmAddress.semantic (a : HbmAddress) : SemanticAddress where
  pseudoChannel := a.pseudoChannel
  bankGroup := a.bankGroup
  bank := a.bank
  row := a.row
  column := a.column

/-- The vector of a mapped address. -/
def HbmAddress.vector (a : HbmAddress) (sid : Nat) : String :=
  vectorText a.channel a.pseudoChannel sid a.bankGroup a.bank a.row a.column

/-- The mapper of the simulator under a profile. -/
def Validation.Profile.mapper : Profile → HbmAddressMapper
  | .hbm2_2000 => HbmConfig.hbm2_2000.mapper
  | .hbm3_6400 => HbmConfig.hbm3_6400.mapper

/-- The semantic address lies within the organization of the device. -/
structure Validation.SemanticAddress.InRange (m : HbmAddressMapper) (s : SemanticAddress) :
    Prop where
  pseudoChannel : s.pseudoChannel < m.topology.pseudoChannelsPerChannel
  bankGroup : s.bankGroup < m.topology.bankGroupsPerPseudoChannel
  bank : s.bank < m.topology.banksPerBankGroup
  row : s.row < m.rowsPerBank
  column : s.column < m.columnsPerRow

/-- The two profiles have one organization. -/
theorem inRange_bounds {profile : Profile} {s : SemanticAddress}
    (within : s.InRange profile.mapper) : s.pseudoChannel < 2 ∧ s.bankGroup < 4 ∧ s.bank < 4 ∧
      s.row < 16384 ∧ s.column < 32 := by
  cases profile with
  | hbm2_2000 =>
      exact ⟨within.pseudoChannel, within.bankGroup, within.bank, within.row, within.column⟩
  | hbm3_6400 =>
      exact ⟨within.pseudoChannel, within.bankGroup, within.bank, within.row, within.column⟩

/-! ### The mapper -/

theorem fits_hbm2 : HbmConfig.hbm2_2000.mapper.FitsBrc where
  pseudoChannels := by decide
  bankGroups := by decide
  banks := by decide
  columns := by decide
  rows := by decide

/-- The HBM2 mapper takes the bits the tools take. The SID bit of the vector is the one no
field of the mapper reads. -/
theorem map_hbm2 (address : Nat) : ∃ a, HbmConfig.hbm2_2000.mapper.map address = .ok a ∧
    a.semantic = decode .hbm2_2000 address ∧
      hbm2Vector address = a.vector ((address >>> 10) &&& 0x1) := by
  have inside := HbmAddressMapper.brc_inside rfl fits_hbm2 address
  exact ⟨_, HbmAddressMapper.map_eq_of_inside inside, rfl, rfl⟩

/-- The digits the HBM3 mapper takes from a line are the ones the tools take. -/
theorem map_hbm3 (address : Nat) : ∃ a, HbmConfig.hbm3_6400.mapper.map address = .ok a ∧
    a.semantic = decode .hbm3_6400 address ∧ hbm3Vector address = a.vector a.flatSid := by
  have linear : HbmConfig.hbm3_6400.mapper.Linear :=
    @linear_of_standard .hbm3_6400 .hbm3 rfl (by decide)
  obtain ⟨a, run, digits⟩ := linear.map_ok address
  have sid : a.flatSid = a.stack := by
    have inside : HbmConfig.hbm3_6400.mapper.outside (HbmConfig.hbm3_6400.mapper.decode address) =
        false := HbmAddressMapper.linear_inside linear.linear (by decide)
    cases run.symm.trans (HbmAddressMapper.map_eq_of_inside inside)
    rfl
  have one : HbmConfig.hbm3_6400.mapper.dimensions = [1, 1, 32, 16384, 4, 4, 2] := rfl
  have lines : HbmConfig.hbm3_6400.mapper.line address = address / 32 := rfl
  rw [one, lines] at digits
  simp only [HbmAddress.coordinates, MixedRadix.digits, Nat.div_one, Nat.mod_one, List.cons.injEq,
    and_true] at digits
  obtain ⟨channel, stack, column, row, bank, group, pseudo⟩ := digits
  refine ⟨a, run, ?_, ?_⟩
  · unfold HbmAddress.semantic
    rw [pseudo, group, bank, row, column]
    rfl
  · unfold HbmAddress.vector
    rw [sid, stack, channel, pseudo, group, bank, row, column]
    rfl

/-! ### The tools -/

/-- The bit fields of an HBM2 address are digits. -/
theorem decode_hbm2 (address : Nat) : decode .hbm2_2000 address =
    { pseudoChannel := address / 32 % 2
      bankGroup := address / 64 % 4
      bank := address / 256 % 4
      row := address / 65536 % 16384
      column := address / 2048 % 32 } := by
  have bits := BitFields.mask address
  unfold decode
  simp only [SemanticAddress.mk.injEq]
  exact ⟨bits 5 1, bits 6 2, bits 8 2, bits 16 14, bits 11 5⟩

/-- No two fields of an HBM2 address overlap, bit 10 left over. -/
theorem encode_hbm2 {s : SemanticAddress} (within : s.InRange Profile.hbm2_2000.mapper) :
    encode .hbm2_2000 s =
    s.pseudoChannel * 2 ^ 5 + s.bankGroup * 2 ^ 6 + s.bank * 2 ^ 8 + s.column * 2 ^ 11 +
      s.row * 2 ^ 16 := by
  obtain ⟨pseudo, group, bank, row, column⟩ := inRange_bounds within
  have groups : s.pseudoChannel * 2 ^ 5 < 2 ^ 6 := by omega
  have banks : s.pseudoChannel * 2 ^ 5 + s.bankGroup * 2 ^ 6 < 2 ^ 8 := by omega
  have columns : s.pseudoChannel * 2 ^ 5 + s.bankGroup * 2 ^ 6 + s.bank * 2 ^ 8 < 2 ^ 11 := by omega
  have rows : s.pseudoChannel * 2 ^ 5 + s.bankGroup * 2 ^ 6 + s.bank * 2 ^ 8 +
      s.column * 2 ^ 11 < 2 ^ 16 := by omega
  calc encode .hbm2_2000 s
      = (s.pseudoChannel * 2 ^ 5 ||| s.bankGroup <<< 6 ||| s.bank <<< 8 ||| s.column <<< 11 |||
          s.row <<< 16) := by rw [← Nat.shiftLeft_eq s.pseudoChannel 5]; rfl
    _ = _ := by
      rw [BitFields.or_shiftLeft groups, BitFields.or_shiftLeft banks,
        BitFields.or_shiftLeft columns, BitFields.or_shiftLeft rows]

/-- Placing a semantic address and taking it apart again. -/
theorem decode_encode {profile : Profile} {s : SemanticAddress}
    (within : s.InRange profile.mapper) : decode profile (encode profile s) = s := by
  obtain ⟨pseudo, group, bank, row, column⟩ := inRange_bounds within
  cases profile with
  | hbm2_2000 =>
      rw [decode_hbm2, encode_hbm2 within]
      clear within
      cases s
      dsimp only at *
      simp only [SemanticAddress.mk.injEq]
      omega
  | hbm3_6400 =>
      clear within
      cases s
      dsimp only [decode, encode] at *
      simp only [SemanticAddress.mk.injEq]
      omega

/-! ### The DRAMSys form -/

theorem dramsysAddress_ok {address : Nat} (clear : address.testBit 10 = false) :
    dramsysAddress address = .ok (BitFields.elide 10 address) := by
  have sid : address &&& (1 <<< 10) = 0 := by
    rw [Nat.one_shiftLeft, Nat.and_two_pow, clear]
    rfl
  unfold dramsysAddress
  rw [if_neg (not_not_intro sid)]
  rfl

/-- A field below the SID bit. -/
theorem read_dense_below (first width : Nat) (below : first + width ≤ 10) (address : Nat) :
    BitFields.read (List.range' first width) (BitFields.elide 10 address) =
      (address >>> first) &&& (2 ^ width - 1) := by
  rw [BitFields.mask, ← BitFields.read_range]
  apply BitFields.read_elide_below
  intro bit member
  have := List.mem_range'_1.mp member
  omega

/-- A field above it, at positions one further down. -/
theorem read_dense_above (first width : Nat) (above : 10 < first) (address : Nat) :
    BitFields.read ((List.range' first width).map (· - 1)) (BitFields.elide 10 address) =
      (address >>> first) &&& (2 ^ width - 1) := by
  rw [BitFields.mask, ← BitFields.read_range]
  apply BitFields.read_elide_above
  intro bit member
  have := List.mem_range'_1.mp member
  omega

/-- Through the mapping the tool writes, the dense address has the fields of the sparse one. -/
theorem read_dramsys {address : Nat} (clear : address.testBit 10 = false) :
    ∃ mapping dense, writeDramsysMapping .hbm2_2000 = .ok mapping ∧
      dramsysAddress address = .ok dense ∧ mapping.read dense = decode .hbm2_2000 address := by
  refine ⟨_, _, rfl, dramsysAddress_ok clear, ?_⟩
  unfold DramsysMapping.read decode
  simp only [SemanticAddress.mk.injEq]
  refine ⟨?_, ?_, ?_, ?_, ?_⟩
  · exact read_dense_below 5 1 (by decide) address
  · exact read_dense_below 6 2 (by decide) address
  · exact read_dense_below 8 2 (by decide) address
  · exact read_dense_above 16 14 (by decide) address
  · exact read_dense_above 11 5 (by decide) address

/-! ### All of them -/

/-- **The simulator and the validation tools decode an address alike.** Under either profile
the mapper accepts every address, and its fields are those of the decoder and of the vector.
The decoder undoes the encoder. Where the SID bit is clear, DRAMSys reads the same fields
through its own mapping. -/
theorem addresses_agree :
    (∀ address, ∃ a, HbmConfig.hbm2_2000.mapper.map address = .ok a ∧
      a.semantic = decode .hbm2_2000 address ∧
        hbm2Vector address = a.vector ((address >>> 10) &&& 0x1) ∧
          (address.testBit 10 = false → ∃ mapping dense,
            writeDramsysMapping .hbm2_2000 = .ok mapping ∧ dramsysAddress address = .ok dense ∧
              mapping.read dense = a.semantic)) ∧
    (∀ address, ∃ a, HbmConfig.hbm3_6400.mapper.map address = .ok a ∧
      a.semantic = decode .hbm3_6400 address ∧ hbm3Vector address = a.vector a.flatSid) ∧
    ∀ (profile : Profile) (s : SemanticAddress), s.InRange profile.mapper →
      decode profile (encode profile s) = s := by
  refine ⟨?_, map_hbm3, fun _ _ => decode_encode⟩
  intro address
  obtain ⟨a, run, semantic, vector⟩ := map_hbm2 address
  refine ⟨a, run, semantic, vector, ?_⟩
  intro clear
  obtain ⟨mapping, dense, written, accepted, fields⟩ := read_dramsys clear
  exact ⟨mapping, dense, written, accepted, fields.trans semantic.symm⟩

/-- A cell in the last bank group of the second pseudo-channel, and the dense form of its
address. -/
theorem addresses_agree_cell :
    decode .hbm2_2000 (encode .hbm2_2000 ⟨1, 3, 2, 7, 9⟩) = ⟨1, 3, 2, 7, 9⟩ ∧
      ∃ mapping dense, writeDramsysMapping .hbm2_2000 = .ok mapping ∧
        dramsysAddress (encode .hbm2_2000 ⟨1, 3, 2, 7, 9⟩) = .ok dense ∧
          mapping.read dense = ⟨1, 3, 2, 7, 9⟩ := by
  have round := addresses_agree.2.2 .hbm2_2000 ⟨1, 3, 2, 7, 9⟩
    ⟨by decide, by decide, by decide, by decide, by decide⟩
  obtain ⟨a, run, semantic, vector, dramsys⟩ :=
    addresses_agree.1 (encode .hbm2_2000 ⟨1, 3, 2, 7, 9⟩)
  obtain ⟨mapping, dense, written, accepted, fields⟩ := dramsys (by decide)
  exact ⟨round, mapping, dense, written, accepted, (fields.trans semantic).trans round⟩

end HbmSim
