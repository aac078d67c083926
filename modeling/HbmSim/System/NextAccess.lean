import HbmSim.Config
import HbmSim.Lib.Throw

/-!
Splitting a transaction into modelled accesses (`HbmSystem::next_access`).
-/

namespace HbmSim

open HbmSim.Lib

/-- Two addresses lie in the same row of the same bank. -/
def sameResource (left right : HbmAddress) : Bool :=
  left.flatChannel == right.flatChannel && left.pseudoChannel == right.pseudoChannel &&
    left.bankGroup == right.bankGroup && left.bank == right.bank && left.row == right.row

namespace HbmConfig

variable (cfg : HbmConfig)

/-- The most bytes one modelled access groups. -/
def maxGroupBytes : Nat :=
  if cfg.simulation.simulationAccessGranularityBytes = 0 then
    cfg.device.organization.physicalBurstBytes
  else cfg.simulation.simulationAccessGranularityBytes

/-- The bytes the next piece takes: up to the end of the request, of the burst
and of the mapping line. -/
def pieceBytes (address remaining : Nat) : Nat :=
  let burst := cfg.device.organization.physicalBurstBytes
  min remaining (min (burst - address % burst) (cfg.mapper.nextMappingBoundary address))

/-- The piece at `mapped` continues the group. -/
def canExtend (group : HbmAccess) (previous mapped : HbmAddress) (bytes : Nat) : Bool :=
  decide (group.sizeBytes + bytes ≤ cfg.maxGroupBytes) &&
    sameResource group.address mapped &&
    (mapped.column == previous.column || mapped.column == previous.column + 1)

/-- The access a first piece opens. -/
def openGroup (tx : HbmTransaction) (address bytes : Nat) (mapped : HbmAddress) : HbmAccess :=
  { parentId := tx.id
    op := tx.op
    address := mapped
    sizeBytes := bytes
    arrivalTime := tx.arrivalTime
    client := tx.client
    metadata := tx.metadata
    byteAddress := address }

/-- The group after the piece at `mapped`, unless the piece starts another. -/
def extendGroup (tx : HbmTransaction) (address bytes : Nat) (mapped : HbmAddress) :
    Option (HbmAccess × HbmAddress) → Option HbmAccess
  | none => some (openGroup tx address bytes mapped)
  | some (group, previous) =>
      if cfg.canExtend group previous mapped bytes then
        some { group with sizeBytes := group.sizeBytes + bytes }
      else none

/-- `*group`. -/
def groupResult : Option (HbmAccess × HbmAddress) → Except HbmError HbmAccess
  | some (group, _) => .ok group
  | none => .error .undefined

/-- The loop of `next_access`; `group` comes with the address of its last piece.
Every round takes a byte at least, so `remaining` rounds are enough. -/
def groupPieces (tx : HbmTransaction) :
    Nat → Nat → Nat → Option (HbmAccess × HbmAddress) → Except HbmError HbmAccess
  | rounds, address, remaining, group =>
      if remaining = 0 then groupResult group
      else
        match rounds with
        | 0 => .error .diverges
        | rounds + 1 => do
            let bytes := cfg.pieceBytes address remaining
            let mapped ← cfg.mapper.map address
            match cfg.extendGroup tx address bytes mapped group with
            | none => groupResult group
            | some extended =>
                let remaining := remaining - bytes
                if remaining ≠ 0 ∧ address > maxSimTime - bytes then
                  .error (.overflowError "transaction address range overflows uint64_t")
                else groupPieces tx rounds (address + bytes) remaining (some (extended, mapped))

/-- `next_access`. The range check of `try_submit_now` keeps `address + offset`
below `2 ^ 64`. -/
def nextAccess (tx : HbmTransaction) (offset : Nat) : Except HbmError HbmAccess :=
  let remaining := tx.sizeBytes - offset
  cfg.groupPieces tx remaining (tx.address + offset) remaining none

end HbmConfig

/-! ### What a modelled access is -/

/-- The access is part of the transaction. -/
structure LogicalAccess.Of (a : LogicalAccess) (tx : HbmTransaction) : Prop where
  parentId : a.parentId = tx.id
  op : a.op = tx.op
  arrivalTime : a.arrivalTime = tx.arrivalTime
  client : a.client = tx.client
  metadata : a.metadata = tx.metadata

namespace HbmConfig

variable {cfg : HbmConfig} {tx : HbmTransaction}

/-- A group under construction: part of the transaction, mapped, and untouched by
any controller. -/
structure Group (cfg : HbmConfig) (tx : HbmTransaction) (group : HbmAccess) : Prop where
  of : group.toLogicalAccess.Of tx
  mapped : ∃ byte, cfg.mapper.map byte = .ok group.address
  blank : group = { toLogicalAccess := group.toLogicalAccess }

theorem openGroup_group {address bytes : Nat} {mapped : HbmAddress}
    (hmap : cfg.mapper.map address = .ok mapped) :
    Group cfg tx (openGroup tx address bytes mapped) :=
  ⟨⟨rfl, rfl, rfl, rfl, rfl⟩, ⟨address, hmap⟩, rfl⟩

theorem Group.extend {access : HbmAccess} (h : Group cfg tx access) (bytes : Nat) :
    Group cfg tx { access with sizeBytes := bytes } := by
  obtain ⟨of, mapped, blank⟩ := h
  refine ⟨⟨of.parentId, of.op, of.arrivalTime, of.client, of.metadata⟩, mapped, ?_⟩
  rw [blank]

/-- Every piece has at least one byte and stays inside the request. -/
theorem pieceBytes_bounds (burst : 0 < cfg.device.organization.physicalBurstBytes)
    (interleave : 0 < cfg.device.organization.addressInterleaveBytes) (address : Nat)
    {remaining : Nat} (h : 0 < remaining) :
    0 < cfg.pieceBytes address remaining ∧ cfg.pieceBytes address remaining ≤ remaining := by
  have hburst := Nat.mod_lt address burst
  have hline := Nat.mod_lt address interleave
  have boundary : cfg.mapper.nextMappingBoundary address =
      cfg.device.organization.addressInterleaveBytes -
        address % cfg.device.organization.addressInterleaveBytes := rfl
  unfold pieceBytes
  rw [boundary]
  dsimp only
  omega

/-- What `next_access` has grouped so far, with the bytes still to come. -/
structure Grouped (cfg : HbmConfig) (tx : HbmTransaction) (total remaining : Nat)
    (access : HbmAccess) : Prop where
  group : Group cfg tx access
  positive : 0 < access.sizeBytes
  bytes : access.sizeBytes + remaining ≤ total

theorem extendGroup_grouped {total remaining address bytes : Nat} {mapped : HbmAddress}
    {group : Option (HbmAccess × HbmAddress)} {extended : HbmAccess}
    (hmap : cfg.mapper.map address = .ok mapped) (positive : 0 < bytes) (le : bytes ≤ remaining)
    (fits : remaining ≤ total)
    (hgroup : ∀ g, group = some g → Grouped cfg tx total remaining g.1)
    (run : cfg.extendGroup tx address bytes mapped group = some extended) :
    Grouped cfg tx total (remaining - bytes) extended := by
  cases group with
  | none =>
      cases run
      refine ⟨openGroup_group hmap, positive, ?_⟩
      show bytes + (remaining - bytes) ≤ total
      omega
  | some g =>
      obtain ⟨access, previous⟩ := g
      have h := hgroup _ rfl
      have hbytes : access.sizeBytes + remaining ≤ total := h.bytes
      simp only [extendGroup] at run
      split at run
      · cases run
        refine ⟨h.group.extend _, Nat.add_pos_left h.positive _, ?_⟩
        show access.sizeBytes + bytes + (remaining - bytes) ≤ total
        omega
      · cases run

theorem groupResult_grouped {total remaining : Nat} {group : Option (HbmAccess × HbmAddress)}
    {access : HbmAccess} (hgroup : ∀ g, group = some g → Grouped cfg tx total remaining g.1)
    (run : groupResult group = .ok access) : Grouped cfg tx total 0 access := by
  cases group with
  | none => cases run
  | some g =>
      cases run
      have h := hgroup g rfl
      have hbytes := h.bytes
      exact ⟨h.group, h.positive, by omega⟩

/-- An access that is returned is a group of at least one byte and at most what
is left of the transaction. -/
theorem groupPieces_ok (burst : 0 < cfg.device.organization.physicalBurstBytes)
    (interleave : 0 < cfg.device.organization.addressInterleaveBytes) {total : Nat}
    {access : HbmAccess} :
    ∀ {rounds address remaining : Nat} {group : Option (HbmAccess × HbmAddress)},
      (∀ g, group = some g → Grouped cfg tx total remaining g.1) → remaining ≤ total →
      cfg.groupPieces tx rounds address remaining group = .ok access →
      Grouped cfg tx total 0 access := by
  intro rounds
  induction rounds with
  | zero =>
      intro address remaining group hgroup _ run
      unfold groupPieces at run
      split at run
      · exact groupResult_grouped hgroup run
      · cases run
  | succ rounds ih =>
      intro address remaining group hgroup fits run
      unfold groupPieces at run
      split at run
      · exact groupResult_grouped hgroup run
      · rename_i hpos
        obtain ⟨mapped, hmap, run⟩ := bind_eq_ok.mp run
        obtain ⟨positive, le⟩ :=
          pieceBytes_bounds burst interleave address (Nat.pos_of_ne_zero hpos)
        split at run
        · exact groupResult_grouped hgroup run
        · rename_i extended hextended
          have grouped := extendGroup_grouped hmap positive le fits hgroup hextended
          dsimp only at run
          split at run
          · cases run
          · refine ih ?_ (by omega) run
            rintro g ⟨⟩
            exact grouped

/-- The loop fails on an address that does not map, as long as the request stays
inside the address space. -/
theorem groupPieces_error (burst : 0 < cfg.device.organization.physicalBurstBytes)
    (interleave : 0 < cfg.device.organization.addressInterleaveBytes) {e : HbmError} :
    ∀ {rounds address remaining : Nat} {group : Option (HbmAccess × HbmAddress)},
      (remaining = 0 → group.isSome) → remaining ≤ rounds →
      remaining ≤ 1 ∨ address + remaining ≤ 2 ^ 64 →
      cfg.groupPieces tx rounds address remaining group = .error e →
      ∃ byte, cfg.mapper.map byte = .error e := by
  intro rounds
  induction rounds with
  | zero =>
      intro address remaining group hgroup enough _ run
      unfold groupPieces at run
      rw [if_pos (by omega)] at run
      cases group with
      | none => exact absurd (hgroup (by omega)) (by simp)
      | some g => cases run
  | succ rounds ih =>
      intro address remaining group hgroup enough fits run
      unfold groupPieces at run
      split at run
      · rename_i hzero
        cases group with
        | none => exact absurd (hgroup hzero) (by simp)
        | some g => cases run
      · rename_i hpos
        rcases bind_eq_error.mp run with hmap | ⟨mapped, hmap, run⟩
        · exact ⟨address, hmap⟩
        · obtain ⟨positive, le⟩ :=
            pieceBytes_bounds burst interleave address (Nat.pos_of_ne_zero hpos)
          split at run
          · rename_i hextended
            cases group with
            | none => cases hextended
            | some g => cases run
          · dsimp only at run
            split at run
            · rename_i hover
              have : maxSimTime = 2 ^ 64 - 1 := rfl
              omega
            · exact ih (by simp) (by omega) (by omega) run

/-- The next access of a transaction that is not exhausted. -/
theorem nextAccess_ok (burst : 0 < cfg.device.organization.physicalBurstBytes)
    (interleave : 0 < cfg.device.organization.addressInterleaveBytes) {offset : Nat}
    {access : HbmAccess} (run : cfg.nextAccess tx offset = .ok access) :
    Group cfg tx access ∧ 0 < access.sizeBytes ∧ access.sizeBytes ≤ tx.sizeBytes - offset := by
  have h : Grouped cfg tx (tx.sizeBytes - offset) 0 access :=
    groupPieces_ok burst interleave (by simp) (Nat.le_refl _) run
  exact ⟨h.group, h.positive, h.bytes⟩

theorem nextAccess_error (burst : 0 < cfg.device.organization.physicalBurstBytes)
    (interleave : 0 < cfg.device.organization.addressInterleaveBytes) {offset : Nat}
    {e : HbmError} (fits : tx.sizeBytes - 1 ≤ maxSimTime - tx.address)
    (unfinished : offset < tx.sizeBytes)
    (run : cfg.nextAccess tx offset = .error e) : ∃ byte, cfg.mapper.map byte = .error e := by
  have : maxSimTime = 2 ^ 64 - 1 := rfl
  refine groupPieces_error burst interleave ?_ (Nat.le_refl _) ?_ run
  · intro h
    omega
  · omega

end HbmConfig

end HbmSim
