import HbmSim.Lib.MixedRadix
import HbmSim.System.Geometry

/-!
The linear mapping.

A linear mapping writes the number of an interleave line in a mixed radix: the
coordinates of an address are the digits of its line, the channel varying fastest. The
maintenance path splits a flat bank with the digits in another order; on a topology whose
banks can be counted in 32 bits both name the same bank.
-/

namespace HbmSim

open HbmSim.Lib

/-- The coordinates of an address, the one a linear mapping varies fastest first. -/
def HbmAddress.coordinates (a : HbmAddress) : List Nat :=
  [a.channel, a.stack, a.column, a.row, a.bank, a.bankGroup, a.pseudoChannel]

namespace HbmAddressMapper

variable {m : HbmAddressMapper}

/-- The interleave line of a byte. -/
def line (m : HbmAddressMapper) (byte : Nat) : Nat := byte / m.interleaveBytes

/-- The dimensions the coordinates are within. -/
def dimensions (m : HbmAddressMapper) : List Nat :=
  [m.topology.channelsPerStack, m.topology.stacks, m.columnsPerRow, m.rowsPerBank,
    m.topology.banksPerBankGroup, m.topology.bankGroupsPerPseudoChannel,
    m.topology.pseudoChannelsPerChannel]

/-- The interleave lines of the device. -/
def lineCount (m : HbmAddressMapper) : Nat :=
  m.topology.channelCount * m.columnsPerRow * m.rowsPerBank * m.topology.banksPerBankGroup *
    m.topology.bankGroupsPerPseudoChannel * m.topology.pseudoChannelsPerChannel

/-- The first byte of the line with the coordinates. -/
def encode (m : HbmAddressMapper) (coordinates : List Nat) : Nat :=
  MixedRadix.number m.dimensions coordinates * m.interleaveBytes

/-- A linear mapping of a topology whose banks can be counted in 32 bits. Columns and
rows are `std::uint32_t`. -/
structure Linear (m : HbmAddressMapper) : Prop where
  fits : m.topology.Fits
  linear : m.mapping = .linear
  interleave : 0 < m.interleaveBytes
  columns : 0 < m.columnsPerRow ∧ m.columnsPerRow < 2 ^ 32
  rows : 0 < m.rowsPerBank ∧ m.rowsPerBank < 2 ^ 32

namespace Linear

theorem lineCount (h : m.Linear) : m.dimensions.prod = m.lineCount := by
  unfold HbmAddressMapper.lineCount dimensions
  rw [h.fits.channelCount]
  simp only [List.prod_cons, List.prod_nil, Nat.mul_one]
  rw [Nat.mul_comm m.topology.stacks m.topology.channelsPerStack]
  simp only [Nat.mul_assoc]

/-- Every address maps, and its coordinates are the digits of its line. -/
theorem map_ok (h : m.Linear) (byte : Nat) : ∃ a, m.map byte = .ok a ∧
    a.coordinates = MixedRadix.digits m.dimensions (m.line byte) := by
  obtain ⟨count, channels, pseudo, groups, banks⟩ := h.fits.dimensions
  have small : ∀ {n k : Nat}, 0 < k → k < 2 ^ 32 → u32 (n % k) = n % k := fun positive below =>
    u32_of_lt (Nat.lt_trans (Nat.mod_lt _ positive) below)
  have inside : m.outside (m.decode byte) = false :=
    linear_inside h.linear ⟨pseudo, groups, banks, h.columns.1, h.rows.1⟩
  refine ⟨m.flatten (m.decode byte), ?_, ?_⟩
  · unfold map
    dsimp only
    rw [if_neg (by simp [inside])]
  have narrow := h.fits.narrow
  have channelCount := h.fits.channelCount
  have global : u32 (byte / m.interleaveBytes % m.topology.channelCount) =
      m.line byte % (m.topology.channelsPerStack * m.topology.stacks) := by
    rw [small h.fits.channelCount_pos (u32_lt _), channelCount, Nat.mul_comm]
    rfl
  have rest : byte / m.interleaveBytes / m.topology.channelCount =
      m.line byte / m.topology.channelsPerStack / m.topology.stacks := by
    rw [channelCount, Nat.mul_comm, ← Nat.div_div_eq_div_mul]
    rfl
  unfold flatten decode HbmAddress.coordinates dimensions
  rw [h.linear]
  dsimp only [MixedRadix.digits]
  rw [global, rest, small h.columns.1 h.columns.2, small h.rows.1 h.rows.2, small banks narrow.2.2,
    small groups narrow.2.1, small pseudo narrow.1, Nat.mod_mul_right_mod,
    Nat.mod_mul_right_div_self]

/-- Below the line count no two lines have the same coordinates. -/
theorem line_injective (h : m.Linear) {byte byte' : Nat} (below : m.line byte < m.lineCount)
    (below' : m.line byte' < m.lineCount) {a a' : HbmAddress} (run : m.map byte = .ok a)
    (run' : m.map byte' = .ok a') (same : a.coordinates = a'.coordinates) :
    m.line byte = m.line byte' := by
  obtain ⟨b, hb, digits⟩ := h.map_ok byte
  obtain ⟨b', hb', digits'⟩ := h.map_ok byte'
  obtain rfl := Except.ok.inj (run.symm.trans hb)
  obtain rfl := Except.ok.inj (run'.symm.trans hb')
  rw [← h.lineCount] at below below'
  exact MixedRadix.digits_injective below below' (digits ▸ digits' ▸ same)

/-- The coordinates within the dimensions are those of their encoded address. -/
theorem map_encode (h : m.Linear) {coordinates : List Nat}
    (within : MixedRadix.Within m.dimensions coordinates) :
    ∃ a, m.map (m.encode coordinates) = .ok a ∧ a.coordinates = coordinates := by
  obtain ⟨a, run, digits⟩ := h.map_ok (m.encode coordinates)
  refine ⟨a, run, digits.trans ?_⟩
  have line : m.line (m.encode coordinates) = MixedRadix.number m.dimensions coordinates :=
    Nat.mul_div_cancel _ h.interleave
  rw [line, MixedRadix.digits_number within]

end Linear

end HbmAddressMapper

end HbmSim
