import Mathlib.Data.List.Range
import HbmSim.System.Actions

/-!
Sequence numbers.

The trace charges the accesses with the sequence numbers `0, 1, 2, …`, one after the
other. Hence no two accesses under way are the same, and the accesses of a queue
stand in the order of their numbers.
-/

namespace HbmSim

open HbmSim.Lib HbmSystem

/-- The sequence number an observation hands out. -/
def Observation.number? : Observation → Option Nat
  | .admitted _ _ access _ => some access.sequence
  | _ => none

/-- The sequence numbers handed out so far, newest first. -/
def numbers (trace : List Observation) : List Nat := trace.filterMap (·.number?)

/-- Numbers are handed out in order, and queues keep it. -/
structure Ranked (s : HbmSystem) : Prop where
  numbers : numbers s.trace = (List.range s.nextAccessSequence).reverse
  sorted : ∀ channel w, ((s.controllers channel).sequences w).Pairwise (· < ·)

section

variable {cfg : HbmConfig} {s t : HbmSystem} {d : Debts}

/-- The numbers of the open accesses are among those handed out. -/
theorem open_numbers_subperm (trace : List Observation) :
    ((openAccesses trace).map (·.access.sequence)).Subperm (numbers trace) := by
  induction trace with
  | nil => exact .refl _
  | cons o rest ih =>
      cases o with
      | admitted t channel access at_ =>
          simp only [openAccesses, numbers, List.filterMap_cons, Observation.number?, List.map_cons]
          exact (List.subperm_cons _).mpr ih
      | finished t channel access at_ =>
          have less : ((openAccesses rest).erase ⟨t, channel, access.toLogicalAccess⟩).Sublist
            (openAccesses rest) := List.erase_sublist
          exact (less.map _).subperm.trans ih
      | accepted => exact ih
      | issued => exact ih
      | completed => exact ih
      | notified => exact ih
      | returned => exact ih

/-- No number was given twice. -/
theorem Ranked.numbers_nodup (h : Ranked s) : (HbmSim.numbers s.trace).Nodup := by
  rw [h.numbers]
  exact List.nodup_reverse.mpr List.nodup_range

/-- No number is open twice. -/
theorem Ranked.open_nodup (h : Ranked s) :
    ((openAccesses s.trace).map (·.access.sequence)).Nodup := by
  obtain ⟨l, perm, sub⟩ := open_numbers_subperm s.trace
  exact perm.nodup_iff.mp (sub.nodup h.numbers_nodup)

/-- No number is open twice on a channel. -/
theorem Ranked.openOn_nodup (h : Ranked s) (channel : Nat) :
    ((openOn s.trace channel).map LogicalAccess.sequence).Nodup := by
  unfold openOn
  rw [List.map_map]
  exact (List.filter_sublist.map _).nodup h.open_nodup

/-- An open access has a number below the next one. -/
theorem Ranked.open_lt (h : Ranked s) {o : OpenAccess} (ho : o ∈ openAccesses s.trace) :
    o.access.sequence < s.nextAccessSequence := by
  have handed := (open_numbers_subperm s.trace).subset (List.mem_map_of_mem ho)
  rw [h.numbers] at handed
  simpa using handed

/-- A change of one controller that takes accesses out of its queues at most. -/
theorem Ranked.update (h : Ranked s) {channel : Nat} {c : HbmController}
    (controllers : ∀ ch, t.controllers ch = if ch = channel then c else s.controllers ch)
    (sequences : ∀ w, (c.sequences w).Sublist ((s.controllers channel).sequences w))
    (trace : HbmSim.numbers t.trace = HbmSim.numbers s.trace)
    (next : t.nextAccessSequence = s.nextAccessSequence) : Ranked t where
  numbers := by rw [trace, next, h.numbers]
  sorted ch w := by
    rw [controllers]
    split
    · exact (h.sorted channel w).sublist (sequences w)
    · exact h.sorted ch w

theorem Ranked.frame (h : Ranked s) (controllers : t.controllers = s.controllers)
    (trace : HbmSim.numbers t.trace = HbmSim.numbers s.trace)
    (next : t.nextAccessSequence = s.nextAccessSequence) : Ranked t where
  numbers := by rw [trace, next, h.numbers]
  sorted := by
    rw [controllers]
    exact h.sorted

/-- The numbers of the queued accesses of a channel. -/
def HbmController.queuedNumbers (c : HbmController) : List Nat :=
  c.queued.map LogicalAccess.sequence

/-- A number in a queue is queued. -/
theorem mem_queuedNumbers {c : HbmController} {n : Nat} {w : Bool} (hn : n ∈ c.sequences w) :
    n ∈ c.queuedNumbers := by
  unfold HbmController.queuedNumbers HbmController.queued
  rw [List.map_append, List.map_map, List.map_map]
  cases w with
  | false => exact List.mem_append_left _ hn
  | true => exact List.mem_append_right _ hn

/-- A queued number is that of an access. -/
theorem of_mem_queuedNumbers {c : HbmController} {n : Nat} (hn : n ∈ c.queuedNumbers) :
    ∃ w, ∃ a ∈ c.queue w, a.sequence = n := by
  unfold HbmController.queuedNumbers HbmController.queued at hn
  rw [List.map_append, List.map_map, List.map_map] at hn
  rcases List.mem_append.mp hn with mem | mem
  · obtain ⟨a, ha, number⟩ := List.mem_map.mp mem
    exact ⟨false, a, ha, number⟩
  · obtain ⟨a, ha, number⟩ := List.mem_map.mp mem
    exact ⟨true, a, ha, number⟩

/-- Queued accesses and reserved slots have numbers of their own. -/
theorem Ranked.queued_nodup (h : Ranked s) (balanced : Balanced s d) (channel : Nat) :
    ((s.controllers channel).queuedNumbers ++
      (d.slotsOn channel).map LogicalAccess.sequence).Nodup := by
  have opened := balanced.opened channel
  have nodup := (opened.map LogicalAccess.sequence).nodup_iff.mpr (h.openOn_nodup channel)
  rw [List.map_append] at nodup
  refine nodup.sublist (.append (.map _ ?_) (.refl _))
  exact List.sublist_append_left _ _

/-- The number of a queued access has been handed out. -/
theorem Ranked.queued_lt (h : Ranked s) (balanced : Balanced s d) {channel n : Nat}
    (hn : n ∈ (s.controllers channel).queuedNumbers) : n < s.nextAccessSequence := by
  obtain ⟨l, hl, rfl⟩ := List.mem_map.mp hn
  have work : l ∈ workOn s d channel := List.mem_append_left _ hl
  have opened := (balanced.opened channel).mem_iff.mp (List.mem_append_left _ work)
  obtain ⟨ticket, ho⟩ := mem_openOn.mp opened
  exact h.open_lt ho

/-- A pushed access is younger than every queued one. -/
theorem Ranked.push (h : Ranked s) (balanced : Balanced s d) {access : HbmAccess}
    {rest : List HbmAccess} (slot : d.slots = access :: rest)
    (newest : access.sequence + 1 = s.nextAccessSequence) : Ranked (s.push cfg access) where
  numbers := h.numbers
  sorted ch w := by
    rw [push_controllers]
    split
    · subst ch
      unfold HbmController.sequences
      rw [HbmController.push_queue]
      split
      · rename_i hw
        subst hw
        rw [List.map_append]
        refine List.pairwise_append.mpr ⟨h.sorted _ _, List.pairwise_singleton _ _, ?_⟩
        rintro n hn m hm
        obtain rfl := List.mem_singleton.mp hm
        show n < access.sequence
        have queued : n ∈ (s.controllers access.address.flatChannel).queuedNumbers :=
          mem_queuedNumbers hn
        have mine : access.sequence ∈
            (d.slotsOn access.address.flatChannel).map LogicalAccess.sequence := by
          unfold Debts.slotsOn
          rw [slot, List.flatMap_cons, if_pos rfl]
          exact List.mem_cons_self
        have nodup := h.queued_nodup balanced access.address.flatChannel
        have other := (List.nodup_append.mp nodup).2.2 n queued _ mine
        have below := h.queued_lt balanced queued
        omega
      · exact h.sorted _ w
    · exact h.sorted ch w

/-- Every move keeps the ranks. -/
theorem Ranked.move {p q : HbmSystem × Debts} (move : Move cfg p q)
    (balanced : Balanced p.1 p.2) (h : Ranked p.1) : Ranked q.1 := by
  cases move with
  | @control s d channel t _ step =>
      exact h.update (update_controllers s channel t) (fun w => step.sequences w ▸ .refl _) rfl rfl
  | @stir s d channel t _ step =>
      exact h.update (update_controllers s channel t) (fun w => step.sequences w ▸ .refl _) rfl rfl
  | @transfer s d channel _ t _ step =>
      exact h.update (update_controllers s channel t) step.sequences rfl rfl
  | @wake s d channel at_ =>
      exact h.update (markWake_controllers s channel at_) (fun _ => .refl _) rfl rfl
  | @arm s d channel due =>
      exact h.update (markRefresh_controllers s channel due) (fun _ => .refl _) rfl rfl
  | @misarm s d channel due =>
      have same := modifyController_controllers s channel fun c =>
        { c with refreshDueAt := some due }
      exact h.update same (fun _ => .refl _) rfl rfl
  | @charge s d parent access =>
      refine ⟨?_, fun ch w => ?_⟩
      · show s.nextAccessSequence :: HbmSim.numbers s.trace = _
        rw [h.numbers]
        show _ = (List.range (s.nextAccessSequence + 1)).reverse
        rw [List.range_succ, List.reverse_append]
        rfl
      · rw [charge_controllers]
        split
        · subst ch
          exact h.sorted _ w
        · exact h.sorted ch w
  | push _ slot _ newest => exact h.push balanced slot newest
  | @credit s d channel access parent =>
      exact h.update (credit_controllers cfg s channel access parent) (fun _ => .refl _) rfl rfl
  | _ => exact h.frame rfl rfl rfl

theorem clearWakeup_sequences (c : HbmController) (at_ : Nat) (w : Bool) :
    ((c.clearWakeup at_).sequences w).Sublist (c.sequences w) := by
  unfold HbmController.sequences
  rw [(clearWakeup_queue c at_ w).1]

theorem disarm_sequences (c : HbmController) (due : Nat) (w : Bool) :
    ((c.disarm due).sequences w).Sublist (c.sequences w) := by
  unfold HbmController.sequences
  rw [(disarm_queue c due w).1]

/-- Every turn keeps the ranks. -/
theorem Ranked.turn {p q : HbmSystem × Debts} (turn : Turn cfg p q) (h : Ranked p.1) :
    Ranked q.1 := by
  cases turn with
  | @wake s d event rest channel =>
      exact h.update (modifyController_controllers (s.pop event rest) channel _)
        (clearWakeup_sequences _ _) rfl rfl
  | @refreshDue s d event rest channel =>
      exact h.update (modifyController_controllers (s.pop event rest) channel _)
        (disarm_sequences _ _) rfl rfl
  | @lose s d channel lost t _ step =>
      exact h.update (update_controllers s channel t) step.sequences rfl rfl
  | _ => exact h.frame rfl rfl rfl

/-- In every run the queued numbers are sorted and given once. -/
theorem HbmSystem.Run.ranked (checked : cfg.Checked) {p : HbmSystem × Debts} (run : Run cfg p) :
    Ranked p.1 := by
  induction run with
  | create => exact ⟨rfl, fun _ w => by cases w <;> exact .nil⟩
  | move run move ih => exact ih.move move (run.accounted checked).balanced
  | turn _ turn ih => exact ih.turn turn

/-- No access is under way twice. -/
theorem HbmSystem.Run.work_nodup (checked : cfg.Checked) (run : Run cfg (s, d)) (channel : Nat) :
    (workOn s d channel ++ d.slotsOn channel).Nodup := by
  have opened := (run.accounted checked).balanced.opened channel
  refine opened.nodup_iff.mpr (List.Nodup.of_map LogicalAccess.sequence ?_)
  exact (run.ranked checked).openOn_nodup channel

end

end HbmSim
