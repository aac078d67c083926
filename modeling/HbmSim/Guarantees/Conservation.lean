import HbmSim.System.Conservation
import HbmSim.System.Replay

/-!
Accesses, bytes and commands are conserved.

After every event every modeled access is queued, merged or has used the data bus itself, every
classified one is no longer outstanding, and every command is counted on its buses. Once no
transaction is active the bytes completed are the bytes transferred and the bytes merged.
-/

namespace HbmSim

open HbmSim.Lib HbmSystem

/-- The counters of a system account for every access, byte and command. -/
structure Conservation (cfg : HbmConfig) (s : HbmSystem) : Prop where
  modeled : s.stats.modeledAccesses =
    ∑ channel ∈ Finset.range cfg.channelCount,
        ((s.controllers channel).readQueue.length + (s.controllers channel).writeQueue.length +
          (s.stats.channels channel).queue.mergedAccesses) +
      s.stats.physicalAccesses
  data : s.stats.readCommands + s.stats.writeCommands = s.stats.physicalAccesses
  classified : s.stats.rowHits + s.stats.rowClosed + s.stats.rowConflicts +
      ∑ channel ∈ Finset.range cfg.channelCount, (s.controllers channel).outstandingAccesses =
    s.stats.modeledAccesses
  remaining : (s.parents.map (·.remainingAccesses)).sum =
    ∑ channel ∈ Finset.range cfg.channelCount, (s.controllers channel).outstandingAccesses
  issued : s.stats.issuedCommands =
    ∑ channel ∈ Finset.range cfg.channelCount,
      (s.stats.channels channel).commandBus.issuedCommands
  buses : cfg.device.standard.isSome = true → s.stats.issuedCommands =
    ∑ channel ∈ Finset.range cfg.channelCount,
      ((s.stats.channels channel).rowCommandBus.issuedCommands +
        (s.stats.channels channel).columnCommandBus.issuedCommands)
  bytes : s.parents = [] →
    s.stats.readBytes + s.stats.writeBytes =
        ∑ channel ∈ Finset.range cfg.channelCount, (s.stats.channels channel).completedBytes ∧
      s.stats.readBytes + s.stats.writeBytes =
        s.stats.physicalReadBytes + s.stats.physicalWriteBytes + mergedBytes s.trace

section

variable {cfg : HbmConfig} {s : HbmSystem}

/-- Without active parents no access is open, and none is queued. -/
theorem nothing_queued {d : Debts} (accounted : Accounted s d) (quiet : s.parents = []) :
    openAccesses s.trace = [] ∧ ∀ channel, (s.controllers channel).queued = [] := by
  have opened : openAccesses s.trace = [] := by
    apply List.eq_nil_iff_forall_not_mem.mpr
    intro o ho
    obtain ⟨p, hp, -⟩ := accounted.family.owner o ho
    have hp : p ∈ s.parents := hp
    rw [quiet] at hp
    cases hp
  refine ⟨opened, fun channel => ?_⟩
  have work := accounted.balanced.opened channel
  unfold openOn at work
  rw [opened] at work
  have none := List.perm_nil.mp work
  unfold workOn at none
  simp only [List.append_eq_nil_iff] at none
  exact none.1.1

/-- In every run in which no exception escapes accesses, bytes and commands are conserved. -/
theorem conservation (reached : Reachable cfg NoEscape s) : Conservation cfg s := by
  obtain ⟨checked, -, d, run, alive, settled, -⟩ := reached.settled
  have accounted : Accounted s d := run.accounted checked
  have conserved : Conserved cfg s d := by
    refine (run.conserved checked).resolve_left fun lost => ?_
    rw [alive] at lost
    cases lost
  have slots : d.slots.length = 0 := congrArg List.length settled.slots
  have slotBytes : d.slotBytes = 0 := by
    unfold Debts.slotBytes
    rw [settled.slots]
    rfl
  constructor
  case modeled =>
    have balance := conserved.modeled
    rw [slots] at balance
    exact balance
  case data => exact conserved.data
  case classified =>
    have balance := conserved.classified
    rw [slots] at balance
    exact balance
  case remaining =>
    have balance := conserved.remaining
    rw [slots] at balance
    exact balance
  case issued => exact conserved.issued
  case buses =>
    intro standard
    refine conserved.issued.trans (Finset.sum_congr rfl fun channel _ => ?_)
    exact conserved.buses standard channel
  case bytes =>
    intro quiet
    obtain ⟨opened, queued⟩ := nothing_queued accounted quiet
    have completed := conserved.completedBytes
    have transferred := conserved.transferredBytes
    have noneOpen : openBytes s.trace = 0 := by
      unfold openBytes
      rw [opened]
      rfl
    have noneQueued : s.total cfg queuedBytesOn = 0 := by
      apply Finset.sum_eq_zero
      intro channel _
      unfold queuedBytesOn
      rw [queued]
      rfl
    rw [quiet, noneOpen] at completed
    rw [noneQueued, slotBytes, noneOpen] at transferred
    exact ⟨completed, completed.trans transferred.symm⟩

/-- Two merged reads and a write of two bursts complete in HBM2. -/
theorem conservation_merged : ∃ s : HbmSystem, Conservation .hbm2_2000 s ∧ s.parents = [] ∧
    mergedBytes s.trace = 32 ∧ s.stats.writeBytes = 64 := by
  obtain ⟨s, reached, final⟩ := exists_reachable .hbm2_2000 NoEscape
    (submit (.read 1 32 32) :: submit (.read 2 32 32) :: submit (.write 3 64 64) :: dispatches 14)
    (fun s => s.parents.isEmpty && mergedBytes s.trace == 32 && s.stats.writeBytes == 64)
    (by decide) (by decide) (by decide +kernel)
  rw [Bool.and_eq_true, Bool.and_eq_true] at final
  obtain ⟨⟨quiet, merged⟩, written⟩ := final
  exact ⟨s, conservation reached, List.isEmpty_iff.mp quiet, by simpa using merged,
    by simpa using written⟩

end

end HbmSim
