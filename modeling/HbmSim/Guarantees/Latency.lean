import HbmSim.Guarantees.Completion
import HbmSim.System.Stages

/-!
Latencies and their stages.

A completion reports the stages of the access of its transaction that finished last. They
partition the time from the arrival of the transaction to its completion, whichever way the
access went: as the leader of its transfer or merged into it, admitted at once or late, with
or without maintenance in between.
-/

namespace HbmSim

open HbmSim.Lib HbmSystem

/-- The stages of every completion partition its latency. -/
structure LatencyPartitioned (s : HbmSystem) : Prop where
  completions : ∀ ticket completion at_, .completed ticket completion at_ ∈ s.trace →
    completion.arrivalTime ≤ completion.completionTime ∧
      completion.latency = completion.completionTime - completion.arrivalTime ∧
      completion.latencyBreakdown.total = completion.latency
  /-- The stages of every access are differences of times in order. -/
  accesses : ∀ ticket channel access time, .finished ticket channel access time ∈ s.trace →
    Staged time access
  /-- So is the queue wait of an access that is still queued. -/
  queued : ∀ channel w, ∀ a ∈ (s.controllers channel).queue w, a.Timely s.now

/-- The observation issues a transfer for several accesses. -/
def sharedIssue : Observation → Bool
  | .issued _ physical _ => 1 < physical.completions.length
  | _ => false

section

variable {cfg : HbmConfig} {s : HbmSystem} {escapes : HbmError → Prop}

/-- Every access a transfer serves is staged. -/
theorem HbmSystem.Run.staged (checked : cfg.Checked)
    (detailed : cfg.simulation.detailedStats = true)
    {p : HbmSystem × Debts} (run : Run cfg p) (fits : ¬ Overflowed cfg p.1) {channel : Nat}
    {physical : PhysicalAccess} {at_ : Nat} (issued : .issued channel physical at_ ∈ p.1.trace) :
    physical.completionTime < 2 ^ 64 ∧
      ∀ l ∈ physical.completions, Staged physical.completionTime l := by
  let P : Nat → PhysicalAccess → Prop := fun _ physical =>
    physical.completionTime < 2 ^ 64 ∧
      ∀ l ∈ physical.completions, Staged physical.completionTime l
  have issue : ∀ {s d channel physical t}, Run cfg (s, d) → channel < cfg.channelCount →
      HbmController.DataStep (cfg.channelConfig channel) cfg.mapper s.now (s.side channel)
        physical t → ¬ Overflowed cfg (s.update channel t) → P channel physical := by
    intro s d channel physical t run hchannel step fits
    have small : s.now < 2 ^ 64 := Nat.not_le.mp fun large => fits (.inl large)
    have exact_ : t.ctl.wrapped = false := by
      refine Bool.eq_false_iff.mpr fun wrapped => fits (.inr ⟨channel, hchannel, ?_⟩)
      rw [update_controllers, if_pos rfl]
      exact wrapped
    exact step.staged detailed (run.timely checked channel) small exact_
  exact run.transfers issue fits channel physical at_ issued

/-- In every run in which no time leaves 64 bits, the stages of every completion partition its
latency. -/
theorem latency_partitioned (detailed : cfg.simulation.detailedStats = true)
    (reached : Reachable cfg escapes s) (fits : ¬ Overflowed cfg s) : LatencyPartitioned s := by
  obtain ⟨valid, -, d, point, -⟩ := reached.point
  have run := point.run
  have small : s.now < 2 ^ 64 := Nat.not_le.mp fun large => fits (.inl large)
  have accesses : ∀ ticket channel access time,
      .finished ticket channel access time ∈ s.trace → time < 2 ^ 64 ∧ Staged time access := by
    intro ticket channel access time finished
    obtain ⟨physical, at_, issued, mem, ends⟩ :=
      run.sourced.finished ticket channel access time finished
    obtain ⟨bounded, stages⟩ := run.staged valid.checked detailed fits issued
    exact ends ▸ ⟨bounded, stages access mem⟩
  refine ⟨fun ticket completion at_ completed => ?_, fun ticket channel access time finished =>
    (accesses ticket channel access time finished).2, fun channel =>
      run.timely valid.checked channel small⟩
  obtain ⟨latency, access, finished, -, stages, arrives⟩ :=
    (run.reported valid.checked).completed ticket completion at_ completed
  obtain ⟨bounded, staged⟩ := accesses _ _ _ _ finished
  have total := staged.total
  rw [stages, arrives] at total
  have ordered : completion.arrivalTime ≤ completion.completionTime :=
    total ▸ Nat.le_add_right _ _
  rw [SimTime.sub_of_le ordered bounded] at latency
  refine ⟨ordered, latency, ?_⟩
  rw [latency]
  exact Nat.eq_sub_of_add_eq' total

/-- Two merged reads and a write of two bursts complete in HBM2. -/
theorem latency_partitioned_reads : ∃ s : HbmSystem, LatencyPartitioned s ∧
    (∃ channel physical at_, .issued channel physical at_ ∈ s.trace ∧
      1 < physical.completions.length) ∧
    ∀ ticket < 3, s.trace.countP (·.completes ticket) = 1 := by
  obtain ⟨s, reached, final⟩ := exists_reachable .hbm2_2000 NoEscape
    (submit (.read 1 32 32) :: submit (.read 2 32 32) :: submit (.write 3 64 64) :: dispatches 14)
    (fun s => s.inTime .hbm2_2000 && s.trace.any sharedIssue &&
      (List.range 3).all fun t => s.trace.countP (·.completes t) == 1)
    (by decide) (by decide) (by decide +kernel)
  rw [Bool.and_eq_true, Bool.and_eq_true] at final
  obtain ⟨⟨inTime, shares⟩, completes⟩ := final
  refine ⟨s, latency_partitioned rfl reached (not_overflowed_of_inTime inTime), ?_, ?_⟩
  · obtain ⟨o, mem, shared⟩ := List.any_eq_true.mp shares
    cases o with
    | issued channel physical at_ =>
        exact ⟨channel, physical, at_, mem, of_decide_eq_true shared⟩
    | _ => cases shared
  · intro ticket lt
    simpa using List.all_eq_true.mp completes ticket (List.mem_range.mpr lt)

end

end HbmSim
