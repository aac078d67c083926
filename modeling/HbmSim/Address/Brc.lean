import HbmSim.Lib.BitFields
import HbmSim.System.Geometry

/-!
The HBM2 pseudo-channel layout.

The layout reads its fields from fixed bits: the pseudo-channel from bit 5, the bank group
and the bank above it, bit 10 from nowhere, column and row above that. It knows neither
the topology nor the interleave, so it fits a device only if every field does.
-/

namespace HbmSim

open HbmSim.Lib

namespace HbmAddressMapper

variable {m : HbmAddressMapper}

/-- The device has room for every field of the layout. -/
structure FitsBrc (m : HbmAddressMapper) : Prop where
  pseudoChannels : 2 ≤ m.topology.pseudoChannelsPerChannel
  bankGroups : 4 ≤ m.topology.bankGroupsPerPseudoChannel
  banks : 4 ≤ m.topology.banksPerBankGroup
  columns : 32 ≤ m.columnsPerRow
  rows : 16384 ≤ m.rowsPerBank

/-- The fields of the layout, without the bit operations. -/
theorem decode_brc (brc : m.mapping = .hbm2PseudoChannelBrc) (byte : Nat) :
    m.decode byte =
      { pseudoChannel := byte / 32 % 2
        bankGroup := byte / 64 % 4
        bank := byte / 256 % 4
        column := byte / 2048 % 32
        row := byte / 65536 % 16384 } := by
  have bits := BitFields.mask byte
  unfold decode
  rw [brc]
  simp only [HbmAddress.mk.injEq, true_and, and_true]
  exact ⟨bits 5 1, bits 6 2, bits 8 2, bits 16 14, bits 11 5⟩

theorem map_eq_of_inside {byte : Nat} (inside : m.outside (m.decode byte) = false) :
    m.map byte = .ok (m.flatten (m.decode byte)) := by
  unfold map
  dsimp only
  rw [if_neg (by simp [inside])]

theorem map_of_inside {byte : Nat} (inside : m.outside (m.decode byte) = false) :
    ∃ a, m.map byte = .ok a :=
  ⟨_, map_eq_of_inside inside⟩

/-- The cell an address of the layout names. -/
theorem cell_of_map (brc : m.mapping = .hbm2PseudoChannelBrc) {byte : Nat} {a : HbmAddress}
    (run : m.map byte = .ok a) : a.flatChannel = 0 ∧ a.pseudoChannel = byte / 32 % 2 ∧
      a.bankGroup = byte / 64 % 4 ∧ a.bank = byte / 256 % 4 ∧ a.column = byte / 2048 % 32 ∧
        a.row = byte / 65536 % 16384 := by
  unfold map at run
  dsimp only at run
  rw [decode_brc brc] at run
  split at run
  · cases run
  · cases run
    exact ⟨rfl, rfl, rfl, rfl, rfl, rfl⟩

theorem brc_inside (brc : m.mapping = .hbm2PseudoChannelBrc) (fits : m.FitsBrc) (byte : Nat) :
    m.outside (m.decode byte) = false := by
  rw [decode_brc brc]
  refine not_outside ?_ ?_ ?_ ?_ ?_
  · exact Nat.lt_of_lt_of_le (Nat.mod_lt _ (by decide)) fits.pseudoChannels
  · exact Nat.lt_of_lt_of_le (Nat.mod_lt _ (by decide)) fits.bankGroups
  · exact Nat.lt_of_lt_of_le (Nat.mod_lt _ (by decide)) fits.banks
  · exact Nat.lt_of_lt_of_le (Nat.mod_lt _ (by decide)) fits.columns
  · exact Nat.lt_of_lt_of_le (Nat.mod_lt _ (by decide)) fits.rows

theorem map_of_brc (brc : m.mapping = .hbm2PseudoChannelBrc) (fits : m.FitsBrc) (byte : Nat) :
    ∃ a, m.map byte = .ok a :=
  map_of_inside (brc_inside brc fits byte)

/-- The last address of the address space has every field at its largest. -/
theorem fitsBrc_of_map (brc : m.mapping = .hbm2PseudoChannelBrc) {a : HbmAddress}
    (run : m.map (2 ^ 64 - 1) = .ok a) : m.FitsBrc := by
  unfold map at run
  dsimp only at run
  split at run
  · cases run
  rename_i inside
  rw [decode_brc brc] at inside
  simp only [outside, Bool.or_eq_true, decide_eq_true_eq, not_or, Nat.not_le] at inside
  obtain ⟨⟨⟨⟨pseudo, group⟩, bank⟩, column⟩, row⟩ := inside
  exact ⟨pseudo, group, bank, column, row⟩

end HbmAddressMapper

end HbmSim
