import HbmSim.Address.Brc
import HbmSim.Address.Linear
import HbmSim.Lib.Tiles
import HbmSim.System.NextAccess

/-!
Cutting a transaction at mapping boundaries.

If a mapping is constant up to its next boundary, every access `next_access` builds stays
in one row of one bank: pieces are cut at the boundaries and join a group only in the same
row. Taking the accesses one after the other then partitions the transaction.
-/

namespace HbmSim

open HbmSim.Lib

namespace HbmAddressMapper

variable {m : HbmAddressMapper}

/-- The mapping is constant up to the next boundary. -/
def Cuts (m : HbmAddressMapper) : Prop :=
  ∀ {address byte : Nat}, address ≤ byte → byte < address + m.nextMappingBoundary address →
    m.map byte = m.map address

/-- Bytes up to the next boundary are on one line. -/
theorem line_upto_boundary (interleave : 0 < m.interleaveBytes) {address byte : Nat}
    (lower : address ≤ byte) (upper : byte < address + m.nextMappingBoundary address) :
    m.line byte = m.line address := by
  have inside := Nat.mod_lt address interleave
  have parts := Nat.div_add_mod address m.interleaveBytes
  have next := Nat.mul_succ m.interleaveBytes (m.line address)
  unfold nextMappingBoundary at upper
  refine Nat.div_eq_of_lt_le ?_ ?_
  · rw [Nat.mul_comm]
    exact Nat.le_trans (Nat.mul_div_le _ _) lower
  · rw [Nat.mul_comm, next]
    unfold line
    omega

/-- The mapping is a function of the decoded fields. -/
theorem map_of_decode {address byte : Nat} (same : m.decode byte = m.decode address) :
    m.map byte = m.map address := by
  unfold map
  rw [same]

/-- A linear mapping cuts at its interleave. -/
theorem cuts_of_linear (linear : m.mapping = .linear) (interleave : 0 < m.interleaveBytes) :
    m.Cuts := by
  intro address byte lower upper
  have line : byte / m.interleaveBytes = address / m.interleaveBytes :=
    line_upto_boundary interleave lower upper
  refine map_of_decode ?_
  unfold decode
  rw [linear]
  dsimp only
  rw [line]

/-- No field of the HBM2 layout depends on the lowest five bits. -/
theorem decode_brc_of_burst (brc : m.mapping = .hbm2PseudoChannelBrc) {address byte : Nat}
    (same : byte / 32 = address / 32) : m.decode byte = m.decode address := by
  have above : ∀ k, byte / (32 * k) = address / (32 * k) := by
    intro k
    rw [← Nat.div_div_eq_div_mul, ← Nat.div_div_eq_div_mul, same]
  rw [decode_brc brc, decode_brc brc, same, above 2, above 8, above 64, above 2048]

/-- The BRC mapping cuts where its interleave divides the burst. -/
theorem cuts_of_brc (brc : m.mapping = .hbm2PseudoChannelBrc) (interleave : 0 < m.interleaveBytes)
    (divides : m.interleaveBytes ∣ 32) : m.Cuts := by
  intro address byte lower upper
  have line : byte / m.interleaveBytes = address / m.interleaveBytes :=
    line_upto_boundary interleave lower upper
  obtain ⟨k, hk⟩ := divides
  refine map_of_decode (decode_brc_of_burst brc ?_)
  rw [hk, ← Nat.div_div_eq_div_mul, ← Nat.div_div_eq_div_mul, line]

end HbmAddressMapper

namespace HbmConfig

variable {cfg : HbmConfig} {tx : HbmTransaction}

/-! ### The bytes of one access -/

/-- The bytes from `first` up to `last` lie in the row of `first`, and their columns never
skip. -/
structure OneRow (cfg : HbmConfig) (first last : Nat) (address : HbmAddress) : Prop where
  start : cfg.mapper.map first = .ok address
  row : ∀ byte, first ≤ byte → byte < last →
    ∃ a, cfg.mapper.map byte = .ok a ∧ sameResource address a = true
  columns : ∀ byte, first ≤ byte → byte + 1 < last →
    ∀ a b, cfg.mapper.map byte = .ok a → cfg.mapper.map (byte + 1) = .ok b →
      b.column = a.column ∨ b.column = a.column + 1

/-- An address shares its own resources. -/
theorem sameResource_refl (a : HbmAddress) : sameResource a a = true := by
  simp [sameResource]

/-- A piece ends with the burst and before the next boundary. -/
theorem pieceBytes_le (address remaining : Nat) :
    cfg.pieceBytes address remaining ≤ cfg.device.organization.physicalBurstBytes ∧
      cfg.pieceBytes address remaining ≤ cfg.mapper.nextMappingBoundary address := by
  unfold pieceBytes
  dsimp only
  omega

/-- A group holds at least a burst. -/
theorem burst_le_maxGroupBytes (valid : cfg.Valid) :
    cfg.device.organization.physicalBurstBytes ≤ cfg.maxGroupBytes := by
  simp only [Valid, validate, bind_eq_ok, rejectIf_ok] at valid
  obtain ⟨⟨⟩, -, ⟨⟩, -, ⟨⟩, -, ⟨⟩, -, ⟨⟩, -, ⟨⟩, granularity, -⟩ := valid
  have granularity := rejectIf_ok.mp granularity
  unfold maxGroupBytes
  split
  · exact Nat.le_refl _
  · omega

/-- A piece maps as its first byte does. -/
theorem map_piece (cuts : cfg.mapper.Cuts) {address remaining byte : Nat} {mapped : HbmAddress}
    (hmap : cfg.mapper.map address = .ok mapped) (lower : address ≤ byte)
    (upper : byte < address + cfg.pieceBytes address remaining) :
    cfg.mapper.map byte = .ok mapped := by
  have bound := (cfg.pieceBytes_le address remaining).2
  exact (cuts lower (by omega)).trans hmap

/-- A piece lies in one row. -/
theorem OneRow.of_piece (cuts : cfg.mapper.Cuts) {address remaining : Nat} {mapped : HbmAddress}
    (hmap : cfg.mapper.map address = .ok mapped) :
    OneRow cfg address (address + cfg.pieceBytes address remaining) mapped where
  start := hmap
  row byte lower upper := ⟨mapped, map_piece cuts hmap lower upper, sameResource_refl mapped⟩
  columns byte lower upper a b ha hb := by
    have here := map_piece cuts hmap lower (Nat.lt_of_succ_lt upper)
    have there := map_piece cuts hmap (Nat.le_succ_of_le lower) upper
    obtain rfl := Except.ok.inj (ha.symm.trans here)
    obtain rfl := Except.ok.inj (hb.symm.trans there)
    exact .inl rfl

/-- The next piece lengthens the row, if it is in it and its column follows. -/
theorem OneRow.extend (cuts : cfg.mapper.Cuts) {first address remaining : Nat}
    {start previous mapped : HbmAddress} (h : OneRow cfg first address start)
    (last : cfg.mapper.map (address - 1) = .ok previous)
    (hmap : cfg.mapper.map address = .ok mapped) (same : sameResource start mapped = true)
    (column : mapped.column = previous.column ∨ mapped.column = previous.column + 1) :
    OneRow cfg first (address + cfg.pieceBytes address remaining) start where
  start := h.start
  row byte lower upper := by
    by_cases before : byte < address
    · exact h.row byte lower before
    · exact ⟨mapped, map_piece cuts hmap (Nat.le_of_not_lt before) upper, same⟩
  columns byte lower upper a b ha hb := by
    rcases Nat.lt_trichotomy (byte + 1) address with before | here | after
    · exact h.columns byte lower before a b ha hb
    · subst here
      obtain rfl := Except.ok.inj (ha.symm.trans last)
      obtain rfl := Except.ok.inj (hb.symm.trans hmap)
      exact column
    · have inside := map_piece cuts hmap (Nat.le_of_lt_succ after) (Nat.lt_of_succ_lt upper)
      have next := map_piece cuts hmap (Nat.le_of_lt after) upper
      obtain rfl := Except.ok.inj (ha.symm.trans inside)
      obtain rfl := Except.ok.inj (hb.symm.trans next)
      exact .inl rfl

/-! ### The grouping loop -/

/-- The group covers the bytes up to the piece that comes next. -/
structure Covers (cfg : HbmConfig) (address : Nat) (group : HbmAccess) (previous : HbmAddress) :
    Prop where
  reached : group.byteAddress + group.sizeBytes = address
  bounded : group.sizeBytes ≤ cfg.maxGroupBytes
  oneRow : OneRow cfg group.byteAddress address group.address
  last : cfg.mapper.map (address - 1) = .ok previous

/-- What `next_access` returns. -/
structure Piece (cfg : HbmConfig) (access : HbmAccess) : Prop where
  bounded : access.sizeBytes ≤ cfg.maxGroupBytes
  oneRow : OneRow cfg access.byteAddress (access.byteAddress + access.sizeBytes) access.address

/-- A group that covers its bytes is a piece. -/
theorem Covers.piece {address : Nat} {group : HbmAccess} {previous : HbmAddress}
    (h : Covers cfg address group previous) : Piece cfg group :=
  ⟨h.bounded, h.reached ▸ h.oneRow⟩

/-- A group extended by a piece covers both. -/
theorem extendGroup_covers (valid : cfg.Valid) (cuts : cfg.mapper.Cuts)
    {start address remaining : Nat} {mapped : HbmAddress} (positive : 0 < remaining)
    {group : Option (HbmAccess × HbmAddress)} {extended : HbmAccess}
    (hmap : cfg.mapper.map address = .ok mapped) (hnone : group = none → address = start)
    (hsome : ∀ g, group = some g → g.1.byteAddress = start ∧ Covers cfg address g.1 g.2)
    (run : cfg.extendGroup tx address (cfg.pieceBytes address remaining) mapped group =
      some extended) :
    extended.byteAddress = start ∧
      Covers cfg (address + cfg.pieceBytes address remaining) extended mapped := by
  have taken := (pieceBytes_bounds valid.checked.burst valid.checked.interleave address positive).1
  have inside : address + cfg.pieceBytes address remaining - 1 <
      address + cfg.pieceBytes address remaining := by omega
  have last : cfg.mapper.map (address + cfg.pieceBytes address remaining - 1) = .ok mapped :=
    map_piece cuts hmap (by omega) inside
  cases group with
  | none =>
      cases run
      refine ⟨hnone rfl, rfl, ?_, .of_piece cuts hmap, last⟩
      exact Nat.le_trans (pieceBytes_le address remaining).1 (burst_le_maxGroupBytes valid)
  | some g =>
      obtain ⟨access, previous⟩ := g
      obtain ⟨first, covers⟩ := hsome _ rfl
      simp only [extendGroup] at run
      split at run
      · rename_i joins
        simp only [canExtend, Bool.and_eq_true, Bool.or_eq_true, decide_eq_true_eq,
          beq_iff_eq] at joins
        obtain ⟨⟨bounded, same⟩, column⟩ := joins
        cases run
        refine ⟨first, ?_, bounded, covers.oneRow.extend cuts covers.last hmap same column, last⟩
        have reached : access.byteAddress + access.sizeBytes = address := covers.reached
        show access.byteAddress + (access.sizeBytes + cfg.pieceBytes address remaining) = _
        rw [← Nat.add_assoc, reached]
      · cases run

/-- The group returned is a piece. -/
theorem groupResult_piece {start address : Nat} {group : Option (HbmAccess × HbmAddress)}
    {access : HbmAccess}
    (hsome : ∀ g, group = some g → g.1.byteAddress = start ∧ Covers cfg address g.1 g.2)
    (run : groupResult group = .ok access) : access.byteAddress = start ∧ Piece cfg access := by
  cases group with
  | none => cases run
  | some g =>
      cases run
      obtain ⟨first, covers⟩ := hsome g rfl
      exact ⟨first, covers.piece⟩

/-- Every round keeps the group in one row. -/
theorem groupPieces_piece (valid : cfg.Valid) (cuts : cfg.mapper.Cuts) {start : Nat}
    {access : HbmAccess} :
    ∀ {rounds address remaining : Nat} {group : Option (HbmAccess × HbmAddress)},
      (group = none → address = start) →
      (∀ g, group = some g → g.1.byteAddress = start ∧ Covers cfg address g.1 g.2) →
      cfg.groupPieces tx rounds address remaining group = .ok access →
      access.byteAddress = start ∧ Piece cfg access := by
  intro rounds
  induction rounds with
  | zero =>
      intro address remaining group _ hsome run
      unfold groupPieces at run
      split at run
      · exact groupResult_piece hsome run
      · cases run
  | succ rounds ih =>
      intro address remaining group hnone hsome run
      unfold groupPieces at run
      split at run
      · exact groupResult_piece hsome run
      · rename_i unfinished
        obtain ⟨mapped, hmap, run⟩ := bind_eq_ok.mp run
        split at run
        · exact groupResult_piece hsome run
        · rename_i extended hextended
          have covers := extendGroup_covers valid cuts (Nat.pos_of_ne_zero unfinished) hmap hnone
            hsome hextended
          dsimp only at run
          split at run
          · cases run
          · refine ih (fun h => by cases h) ?_ run
            rintro g ⟨⟩
            exact covers

/-- The next access starts at its offset and is a piece. -/
theorem nextAccess_piece (valid : cfg.Valid) (cuts : cfg.mapper.Cuts) {offset : Nat}
    {access : HbmAccess} (run : cfg.nextAccess tx offset = .ok access) :
    access.byteAddress = tx.address + offset ∧ Piece cfg access :=
  groupPieces_piece valid cuts (fun _ => rfl) (by simp) run

/-! ### The accesses of a transaction -/

/-- The accesses `next_access` yields from an offset on, each call starting where the access
before it ends. -/
def splitFrom (cfg : HbmConfig) (tx : HbmTransaction) :
    Nat → Nat → Except HbmError (List HbmAccess)
  | rounds, offset =>
      if offset < tx.sizeBytes then
        match rounds with
        | 0 => .error .diverges
        | rounds + 1 => do
            let access ← cfg.nextAccess tx offset
            let rest ← cfg.splitFrom tx rounds (offset + access.sizeBytes)
            return access :: rest
      else .ok []

/-- If every address maps, the accesses tile what is left of the transaction. -/
theorem splitFrom_tiles (valid : cfg.Valid) (cuts : cfg.mapper.Cuts)
    (total : ∀ byte, ∃ a, cfg.mapper.map byte = .ok a)
    (fits : tx.sizeBytes - 1 ≤ maxSimTime - tx.address) :
    ∀ {rounds offset : Nat}, offset ≤ tx.sizeBytes → tx.sizeBytes - offset ≤ rounds →
      ∃ accesses, cfg.splitFrom tx rounds offset = .ok accesses ∧
        Tiles (·.byteAddress) (·.sizeBytes) (tx.address + offset) accesses
          (tx.address + tx.sizeBytes) ∧
        ∀ access ∈ accesses, Piece cfg access ∧ access.toLogicalAccess.Of tx := by
  have burst := valid.checked.burst
  have interleave := valid.checked.interleave
  intro rounds
  induction rounds with
  | zero =>
      intro offset upto enough
      obtain rfl : offset = tx.sizeBytes := by omega
      refine ⟨[], ?_, .nil, by simp⟩
      unfold splitFrom
      rw [if_neg (Nat.lt_irrefl _)]
  | succ rounds ih =>
      intro offset upto enough
      unfold splitFrom
      split
      · rename_i unfinished
        cases run : cfg.nextAccess tx offset with
        | error e =>
            obtain ⟨byte, failed⟩ := nextAccess_error burst interleave fits unfinished run
            obtain ⟨a, mapped⟩ := total byte
            cases mapped.symm.trans failed
        | ok access =>
            obtain ⟨group, positive, le⟩ := nextAccess_ok burst interleave run
            obtain ⟨first, piece⟩ := nextAccess_piece valid cuts run
            have upto : offset + access.sizeBytes ≤ tx.sizeBytes := by omega
            obtain ⟨rest, split, tiles, pieces⟩ := ih upto (by omega)
            refine ⟨access :: rest, ?_, .cons first positive ?_, ?_⟩
            · exact bind_eq_ok.mpr ⟨access, rfl, bind_eq_ok.mpr ⟨rest, split, rfl⟩⟩
            · rw [Nat.add_assoc]
              exact tiles
            · simp only [List.forall_mem_cons]
              exact ⟨⟨piece, group.of⟩, pieces⟩
      · obtain rfl : offset = tx.sizeBytes := by omega
        exact ⟨[], rfl, .nil, by simp⟩

end HbmConfig

end HbmSim
