import HbmSim.Guarantees.Completion
import HbmSim.System.Running

/-!
Progress without maintenance.

If neither refresh nor RFM is configured, `run()` ends for every set of accepted transactions.
It returns with all of them completed, and it has issued no more than an ACT for a transfer and
a precharge for an ACT. On a custom device an address need not map, and `run()` may throw.
-/

namespace HbmSim

open HbmSim.Lib HbmSystem

/-- `run()` has returned: the accepted transactions are completed, and their commands are
paid for. -/
structure Drained (s t : HbmSystem) : Prop where
  empty : t.scheduler.events = []
  accepted : acceptedTransactions t.trace = acceptedTransactions s.trace
  completed : ∀ ticket tx at_, .accepted ticket tx at_ ∈ t.trace →
    t.trace.countP (·.completes ticket) = 1
  acts : t.stats.actCommands ≤ t.stats.physicalAccesses
  precharges : t.stats.preCommands ≤ t.stats.actCommands
  issued : t.stats.issuedCommands ≤ 3 * t.stats.physicalAccesses
  physical : t.stats.physicalAccesses ≤ t.stats.modeledAccesses

section

variable {cfg : HbmConfig} {s : HbmSystem}

/-- Without maintenance `run()` ends, and unless it throws what it cannot help, everything is
completed. -/
theorem run_completes (reached : Reachable cfg NoEscape s) (off : cfg.Unmaintained)
    (rows : cfg.device.standard = none → cfg.controller.rowPolicy = .open) :
    ∃ fuel, Exits (run cfg fuel) (fun returned t => returned = true ∧ Drained s t)
      (fun e t => Unavoidable cfg e t) s := by
  have opens : cfg.device.standard = none → cfg.controller.rowPolicy.useAutoPrecharge = false := by
    intro custom
    rw [rows custom]
    rfl
  obtain ⟨fuel, ends⟩ := run_ends off opens reached
  refine ⟨fuel, ends.mono (fun returned t h => ?_) fun _ _ h => h⟩
  obtain ⟨yes, empty, after, accepted⟩ := h
  have quiet : t.systemEvents = [] := by
    unfold systemEvents
    rw [empty]
    rfl
  obtain ⟨-, -, d, run, alive, settled, -⟩ := after.settled
  have spent := spent off opens after fun channel =>
    (idle_of_quiet run alive settled quiet channel).queued
  have acts := spent.acts
  have precharges := spent.precharges
  have issued := spent.issued
  refine ⟨yes, ?_⟩
  constructor
  case empty => exact empty
  case accepted => exact accepted
  case completed =>
    intro ticket tx at_ mem
    exact completed_of_quiet after quiet mem
  case acts => exact acts
  case precharges => exact precharges
  case issued => omega
  case physical => exact spent.physical

/-- Two reads of one bank and a write to another row of it. -/
theorem run_completes_conflict : ∃ s : HbmSystem, (acceptedTransactions s.trace).length = 3 ∧
    ∃ fuel, Exits (run .hbm2_2000 fuel) (fun returned t => returned = true ∧ Drained s t)
      (fun e t => Unavoidable .hbm2_2000 e t) s := by
  obtain ⟨s, reached, accepted⟩ := exists_reachable .hbm2_2000 NoEscape
    [submit (.read 1 0 64), submit (.write 2 65536 64), submit (.read 3 0 64)]
    (fun s => (acceptedTransactions s.trace).length == 3) (by decide) (by decide)
    (by decide +kernel)
  exact ⟨s, by simpa using accepted, run_completes reached ⟨rfl, rfl⟩ (by intro h; cases h)⟩

/-- `run()` throws something else than an overflow, and nothing is completed. -/
def throwsIrregular (cfg : HbmConfig) (fuel : Nat) (s : HbmSystem) : Bool :=
  match run cfg fuel s with
  | .ok _ _ => false
  | .error e t => !e.isOverflow && t.inTime cfg && t.stats.completedTransactions == 0

/-- A custom device whose rows are shorter than its addresses say: the last part of an accepted
read has no address, and `run()` throws when it comes to it. -/
theorem not_run_completes_unmapped : ∃ (cfg : HbmConfig) (s : HbmSystem), cfg.Unmaintained ∧
    cfg.controller.rowPolicy = .open ∧ Reachable cfg NoEscape s ∧
      (acceptedTransactions s.trace).length = 1 ∧
        ∃ fuel e t, run cfg fuel s = .error e t ∧ e.isOverflow = false ∧ ¬ Overflowed cfg t ∧
          t.stats.completedTransactions = 0 := by
  obtain ⟨s, reached, accepted⟩ := exists_reachable (.shortRows { readQueueCapacity := 1 }) NoEscape
    [submit (.read 1 32640 192)]
    (fun s => (acceptedTransactions s.trace).length == 1 &&
      throwsIrregular (.shortRows { readQueueCapacity := 1 }) 40 s)
    (by decide) (by decide) (by decide +kernel)
  obtain ⟨accepted, throws⟩ := Bool.and_eq_true _ _ |>.mp accepted
  refine ⟨_, s, ⟨rfl, rfl⟩, rfl, reached, by simpa using accepted, 40, ?_⟩
  unfold throwsIrregular at throws
  split at throws
  · cases throws
  · rename_i e t run
    simp only [Bool.and_eq_true, Bool.not_eq_true', beq_iff_eq] at throws
    obtain ⟨⟨other, inTime⟩, none⟩ := throws
    exact ⟨e, t, run, other, not_overflowed_of_inTime inTime, none⟩

end

end HbmSim
