import HbmSim.System.Classes
import HbmSim.System.Provenance
import HbmSim.System.Replay

/-!
Row classes and the commands issued.

The class of the access a data command is issued for tells which row commands were issued on
its behalf. The accesses merged into its transfer take over its class, whatever was issued on
their own behalf.
-/

namespace HbmSim

open HbmSim.Lib HbmSystem

/-- The classes of a system are those of the leaders of its transfers. -/
structure RowClasses (cfg : HbmConfig) (s : HbmSystem) : Prop where
  transfers : ∀ channel physical at_, .issued channel physical at_ ∈ s.trace →
    ∃ leader followers, physical.Led (cfg.channelConfig channel) (s.controllers channel).recorded
      leader followers
  /-- A finished access was the leader of its transfer, or it was merged into one. -/
  finished : ∀ ticket channel access time, .finished ticket channel access time ∈ s.trace →
    Classified (s.controllers channel).recorded access.accessClass access.sequence ∨
      ∃ physical at_ leader followers, .issued channel physical at_ ∈ s.trace ∧
        physical.Led (cfg.channelConfig channel) (s.controllers channel).recorded leader followers ∧
        access ∈ followers
  /-- Without merging every access is a leader. -/
  unmerged : cfg.controller.requestMergePolicy = .none → ∀ ticket channel access time,
    .finished ticket channel access time ∈ s.trace →
      Classified (s.controllers channel).recorded access.accessClass access.sequence

section

variable {cfg : HbmConfig} {s : HbmSystem} {escapes : HbmError → Prop}

/-- In every run on a standard's device the classes tell which row commands were issued on
behalf of the leaders. -/
theorem row_classes (standard : cfg.device.standard.isSome = true)
    (reached : Reachable cfg escapes s) : RowClasses cfg s := by
  obtain ⟨valid, -, d, point, -⟩ := reached.point
  have run := point.run
  have classes := run.classes valid.checked standard
  have finished : ∀ ticket channel access time, .finished ticket channel access time ∈ s.trace →
      Classified (s.controllers channel).recorded access.accessClass access.sequence ∨
        ∃ physical at_ leader followers, .issued channel physical at_ ∈ s.trace ∧
          physical.Led (cfg.channelConfig channel) (s.controllers channel).recorded leader
            followers ∧ access ∈ followers := by
    intro ticket channel access time done
    obtain ⟨physical, at_, issued, mem, -⟩ := run.sourced.finished ticket channel access time done
    obtain ⟨leader, followers, led⟩ := classes.issued channel physical at_ issued
    rw [led.completions] at mem
    rcases List.mem_cons.mp mem with rfl | follows
    · exact .inl led.classified
    · exact .inr ⟨physical, at_, leader, followers, issued, led, follows⟩
  refine ⟨classes.issued, finished, fun solo ticket channel access time done => ?_⟩
  rcases finished ticket channel access time done with
    exact_ | ⟨physical, at_, leader, followers, -, led, follows⟩
  · exact exact_
  · obtain ⟨-, merges⟩ := led.followed access follows
    have off : (cfg.channelConfig channel).enableRequestMerging = false := by
      show (cfg.controller.requestMergePolicy == .sameAddressRead) = false
      rw [solo]
      rfl
    unfold HbmControllerConfig.canMerge at merges
    rw [off] at merges
    cases merges

/-- An access of the class has finished. -/
def finishesAs (accessClass : HbmAccessClass) (s : HbmSystem) : Bool :=
  s.trace.any fun o => match o with
    | .finished _ _ access _ => access.accessClass == accessClass
    | _ => false

theorem exists_finishesAs {accessClass : HbmAccessClass} (h : finishesAs accessClass s = true) :
    ∃ ticket channel access time, .finished ticket channel access time ∈ s.trace ∧
      access.accessClass = accessClass := by
  obtain ⟨o, mem, finishes⟩ := List.any_eq_true.mp h
  cases o with
  | finished ticket channel access time =>
      exact ⟨ticket, channel, access, time, mem, by simpa using finishes⟩
  | _ => cases finishes

/-- A row is opened, hit, and closed for another one in HBM2. -/
theorem row_classes_each : ∃ s : HbmSystem, RowClasses .hbm2_2000 s ∧
    ∀ accessClass, ∃ ticket channel access time, .finished ticket channel access time ∈ s.trace ∧
      access.accessClass = accessClass := by
  obtain ⟨s, reached, final⟩ := exists_reachable .hbm2_2000 NoEscape
    (submit (.read 1 0 32) :: dispatches 8 ++ submit (.read 2 0 32) :: dispatches 4 ++
      submit (.read 3 16777216 32) :: dispatches 8)
    (fun s => finishesAs .rowHit s && finishesAs .rowClosed s && finishesAs .rowConflict s)
    (by decide) (by decide) (by decide +kernel)
  rw [Bool.and_eq_true, Bool.and_eq_true] at final
  obtain ⟨⟨hit, closed⟩, conflict⟩ := final
  refine ⟨s, row_classes rfl reached, fun accessClass => ?_⟩
  cases accessClass with
  | rowHit => exact exists_finishesAs hit
  | rowClosed => exact exists_finishesAs closed
  | rowConflict => exact exists_finishesAs conflict

/-- An access has finished as a hit for which an ACT was issued. -/
def activatedHit (s : HbmSystem) : Bool :=
  s.trace.any fun o => match o with
    | .finished _ channel access _ => access.accessClass == .rowHit &&
        (s.controllers channel).recorded.any fun r =>
          r.command == .act && r.sequence == some access.sequence
    | _ => false

/-- Of two reads of one burst the first has the row opened for it, and is merged into the
transfer of the second, which hits the row. -/
theorem not_row_classes_merged : ¬ ∀ (cfg : HbmConfig) (s : HbmSystem),
    cfg.device.standard.isSome = true → Reachable cfg NoEscape s →
      ∀ ticket channel access time, .finished ticket channel access time ∈ s.trace →
        Classified (s.controllers channel).recorded access.accessClass access.sequence := by
  intro claim
  obtain ⟨s, reached, final⟩ := exists_reachable .hbm2_2000 NoEscape
    (submit (.read 1 32 32) :: submit (.read 2 32 32) :: dispatches 8) activatedHit
    (by decide) (by decide) (by decide +kernel)
  obtain ⟨o, mem, finishes⟩ := List.any_eq_true.mp final
  cases o with
  | finished ticket channel access time =>
      rw [Bool.and_eq_true, List.any_eq_true] at finishes
      obtain ⟨hit, r, hr, issued⟩ := finishes
      have classified := claim _ s rfl reached ticket channel access time mem
      refine (classified.hit.mp (by simpa using hit)).2 ⟨r, hr, ?_⟩
      simpa using issued
  | _ => cases finishes

end

end HbmSim
