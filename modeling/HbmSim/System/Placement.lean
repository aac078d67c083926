import HbmSim.Address.Partition
import HbmSim.System.Actions

/-!
Where the bytes of an access lie.

Both layouts keep the bytes of one access on one channel: a linear mapping because an
access is cut at the boundaries of the interleave, the HBM2 layout because it knows a
single channel. So the accesses of one byte are all queued on one channel.
-/

namespace HbmSim

open HbmSim.Lib HbmSystem

/-- The access covers the byte. -/
def LogicalAccess.Covers (a : LogicalAccess) (byte : Nat) : Prop :=
  a.byteAddress ≤ byte ∧ byte < a.byteAddress + a.sizeBytes

instance LogicalAccess.decidableCovers (a : LogicalAccess) (byte : Nat) :
    Decidable (a.Covers byte) :=
  inferInstanceAs (Decidable (_ ∧ _))

/-- Every byte of the access decodes to the channel. -/
def LogicalAccess.PlacedOn (cfg : HbmConfig) (channel : Nat) (a : LogicalAccess) : Prop :=
  ∀ byte, a.Covers byte → (cfg.mapper.decode byte).flatChannel = channel

/-- Every open access is placed on the channel it was admitted to. -/
def Placed (cfg : HbmConfig) (s : HbmSystem) : Prop :=
  ∀ o ∈ openAccesses s.trace, o.access.PlacedOn cfg o.channel

section

variable {cfg : HbmConfig} {s t : HbmSystem}

/-! ### One access -/

theorem decode_flatChannel_of_map {m : HbmAddressMapper} {byte : Nat} {a : HbmAddress}
    (run : m.map byte = .ok a) : (m.decode byte).flatChannel = a.flatChannel := by
  unfold HbmAddressMapper.map at run
  dsimp only at run
  split at run
  · cases run
  · cases run
    rfl

/-- The channel of an access is the channel of its bytes. -/
theorem nextAccess_placed (valid : cfg.Valid) {tx : HbmTransaction} {offset : Nat}
    {access : HbmAccess} (run : cfg.nextAccess tx offset = .ok access) :
    access.toLogicalAccess.PlacedOn cfg access.address.flatChannel := by
  have interleave := valid.checked.interleave
  intro byte covers
  cases mapping : cfg.device.organization.addressMapping with
  | linear =>
      have cuts : cfg.mapper.Cuts := HbmAddressMapper.cuts_of_linear mapping interleave
      obtain ⟨-, piece⟩ := HbmConfig.nextAccess_piece valid cuts run
      obtain ⟨a, mapped, same⟩ := piece.oneRow.row byte covers.1 covers.2
      rw [decode_flatChannel_of_map mapped]
      simp only [sameResource, Bool.and_eq_true, beq_iff_eq] at same
      exact same.1.1.1.1.symm
  | hbm2PseudoChannelBrc =>
      obtain ⟨group, -⟩ := HbmConfig.nextAccess_ok valid.checked.burst interleave run
      obtain ⟨first, mapped⟩ := group.mapped
      rw [(HbmAddressMapper.cell_of_map mapping mapped).1, HbmAddressMapper.decode_brc mapping]

/-! ### The accesses of a run -/

theorem Placed.of_trace (h : Placed cfg s) (trace : openAccesses t.trace = openAccesses s.trace) :
    Placed cfg t := by
  unfold Placed
  rw [trace]
  exact h

theorem Placed.move (valid : cfg.Valid) {p q : HbmSystem × Debts} (move : Move cfg p q)
    (h : Placed cfg p.1) : Placed cfg q.1 := by
  cases move with
  | @charge s d parent access _ _ _ _ _ _ _ next =>
      intro o ho
      rcases List.mem_cons.mp ho with rfl | ho
      · exact fun byte covers => nextAccess_placed valid next byte covers
      · exact h o ho
  | credit => exact fun o ho => h o (List.mem_of_mem_erase ho)
  | _ => exact h.of_trace rfl

theorem Placed.turn {p q : HbmSystem × Debts} (turn : Turn cfg p q) (h : Placed cfg p.1) :
    Placed cfg q.1 := by
  cases turn with
  | _ => exact h.of_trace rfl

theorem HbmSystem.Run.placed (valid : cfg.Valid) {p : HbmSystem × Debts} (run : Run cfg p) :
    Placed cfg p.1 := by
  induction run with
  | create => exact fun o ho => absurd ho (List.not_mem_nil)
  | move _ move ih => exact ih.move valid move
  | turn _ turn ih => exact ih.turn turn

/-- A queued access is open on the channel of its queue. -/
theorem Balanced.queued_open {d : Debts} (balanced : Balanced s d) {channel : Nat}
    {a : LogicalAccess} (queued : a ∈ (s.controllers channel).queued) :
    ∃ ticket, ⟨ticket, channel, a⟩ ∈ openAccesses s.trace := by
  apply mem_openOn.mp
  apply (balanced.opened channel).mem_iff.mp
  exact List.mem_append_left _ (List.mem_append_left _ queued)

/-- A queued access is placed on the channel of its queue. -/
theorem HbmSystem.Run.queued_placed (valid : cfg.Valid) {p : HbmSystem × Debts} (run : Run cfg p)
    {channel : Nat} {a : LogicalAccess} (queued : a ∈ (p.1.controllers channel).queued) :
    a.PlacedOn cfg channel := by
  obtain ⟨ticket, opened⟩ := (run.accounted valid.checked).balanced.queued_open queued
  exact run.placed valid _ opened

end

end HbmSim
