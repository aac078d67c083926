import HbmSim.System.Ledger

/-!
Slots and sequence numbers.

Every reserved slot belongs to one charged access that is not pushed yet, queues
and reservations stay within the capacities, and the accesses of a queue stand in
the order of their sequence numbers.
-/

namespace HbmSim

open HbmSim.Lib HbmSystem

/-- The capacity of a controller's read or write queue; zero is unbounded. -/
def HbmControllerConfig.capacity (config : HbmControllerConfig) (write : Bool) : Nat :=
  if write then config.writeQueueCapacity else config.readQueueCapacity

/-- The sequence numbers of the queued accesses. -/
def HbmController.sequences (c : HbmController) (w : Bool) : List Nat :=
  (c.queue w).map (·.sequence)

/-- How many charged accesses wait for their push into a queue. -/
def Debts.slotCount (d : Debts) (channel : Nat) (w : Bool) : Nat :=
  d.slots.countP fun a => a.address.flatChannel == channel && a.op.isWrite == w

/-- Queue and reservations fit into the capacity. -/
def HbmController.Fits (config : HbmControllerConfig) (c : HbmController) (w : Bool) : Prop :=
  config.capacity w ≠ 0 → (c.queue w).length + c.reservedSlots w ≤ config.capacity w

/-- Every reservation has its charged access, and nothing exceeds its capacity. -/
structure Seated (cfg : HbmConfig) (s : HbmSystem) (d : Debts) : Prop where
  reserved : ∀ channel w, (s.controllers channel).reservedSlots w = d.slotCount channel w
  fits : ∀ channel w, (s.controllers channel).Fits (cfg.channelConfig channel) w

namespace HbmController

variable {config : HbmControllerConfig} {c : HbmController}

/-- A slot is free if the capacity is not exhausted. -/
theorem free_eq_true (fits : ∀ w, c.Fits config w) (w : Bool) :
    c.free config w = true ↔
      config.capacity w = 0 ∨ (c.queue w).length + c.reservedSlots w < config.capacity w := by
  have read : config.readQueueCapacity ≠ 0 →
      c.readQueue.length + c.reservedReads ≤ config.readQueueCapacity := fits false
  have write : config.writeQueueCapacity ≠ 0 →
      c.writeQueue.length + c.reservedWrites ≤ config.writeQueueCapacity := fits true
  unfold free canReserve hasCapacity
  cases w with
  | false =>
      show _ ↔ config.readQueueCapacity = 0 ∨
        c.readQueue.length + c.reservedReads < config.readQueueCapacity
      simp only [Bool.not_false, Bool.toNat_true, Bool.toNat_false, Bool.and_eq_true,
        Bool.or_eq_true, beq_iff_eq, decide_eq_true_eq]
      omega
  | true =>
      show _ ↔ config.writeQueueCapacity = 0 ∨
        c.writeQueue.length + c.reservedWrites < config.writeQueueCapacity
      simp only [Bool.not_true, Bool.toNat_true, Bool.toNat_false, Bool.and_eq_true,
        Bool.or_eq_true, beq_iff_eq, decide_eq_true_eq]
      omega

@[simp] theorem reserved_slots {s : ControllerState} (w w' : Bool) :
    (reserved s w).ctl.reservedSlots w' =
      s.ctl.reservedSlots w' + if w = w' then 1 else 0 := by
  cases w <;> cases w' <;> rfl

@[simp] theorem push_slots (a : HbmAccess) (w : Bool) :
    (c.push a).reservedSlots w = c.reservedSlots w - if a.op.isWrite = w then 1 else 0 := by
  unfold push reservedSlots
  cases a.op.isWrite <;> cases w <;> rfl

variable {mapper : HbmAddressMapper} {s t : ControllerState} {now : Nat}

/-- A step without a transfer keeps the queued numbers. -/
theorem ControllerStep.sequences (step : ControllerStep config mapper now s t) (w : Bool) :
    t.ctl.sequences w = s.ctl.sequences w := by
  have logical := congrArg (List.map LogicalAccess.sequence) (step.logical w)
  rwa [List.map_map, List.map_map] at logical

/-- A data command only takes accesses out. -/
theorem takeAccesses_sequences {w' : Bool} {index : Nat} {l : HbmAccess} (w : Bool) :
    ((takeAccesses config c w' index l).2.sequences w).Sublist (c.sequences w) := by
  unfold HbmController.sequences
  refine List.Sublist.map _ ?_
  by_cases h : w = w'
  · subst h
    exact takeAccesses_sublist.trans (List.eraseIdx_sublist ..)
  · obtain rfl : w = !w' := by cases w <;> cases w' <;> simp_all
    rw [takeAccesses_other]

/-- A transfer takes numbers out of the queues. -/
theorem DataStep.sequences {phys : PhysicalAccess} (step : DataStep config mapper now s phys t)
    (w : Bool) : (t.ctl.sequences w).Sublist (s.ctl.sequences w) := by
  cases step with
  | mk =>
      unfold HbmController.sequences
      rw [transferredState_queue]
      exact takeAccesses_sequences w

/-- So does a lost transfer. -/
theorem LostStep.sequences {lost : List LogicalAccess} (step : LostStep config mapper now s lost t)
    (w : Bool) : (t.ctl.sequences w).Sublist (s.ctl.sequences w) := by
  cases step with
  | mk =>
      unfold HbmController.sequences
      rw [takenState_queue]
      exact takeAccesses_sequences w

/-- A transfer lengthens no queue. -/
theorem DataStep.queue_length {phys : PhysicalAccess}
    (step : DataStep config mapper now s phys t) (w : Bool) :
    (t.ctl.queue w).length ≤ (s.ctl.queue w).length := by
  simpa [HbmController.sequences] using (step.sequences w).length_le

/-- Nor does a lost one. -/
theorem LostStep.queue_length {lost : List LogicalAccess}
    (step : LostStep config mapper now s lost t) (w : Bool) :
    (t.ctl.queue w).length ≤ (s.ctl.queue w).length := by
  simpa [HbmController.sequences] using (step.sequences w).length_le

end HbmController

section

variable {cfg : HbmConfig} {s t : HbmSystem} {d d' : Debts}

/-! ### Slots -/

/-- A change of one controller that neither reserves nor pushes. -/
theorem Seated.update (h : Seated cfg s d) {channel : Nat} {c : HbmController}
    (controllers : ∀ ch, t.controllers ch = if ch = channel then c else s.controllers ch)
    (reserved : ∀ w, c.reservedSlots w = (s.controllers channel).reservedSlots w)
    (length : ∀ w, (c.queue w).length ≤ ((s.controllers channel).queue w).length)
    (slots : d'.slots = d.slots) : Seated cfg t d' where
  reserved ch w := by
    have before := h.reserved ch w
    unfold Debts.slotCount at before ⊢
    rw [controllers, slots]
    split
    · subst ch
      rw [reserved, before]
    · exact before
  fits ch w := by
    have before := h.fits ch w
    rw [controllers]
    split
    · subst ch
      intro bounded
      have := before bounded
      have := length w
      rw [reserved]
      omega
    · exact before

theorem Seated.frame (h : Seated cfg s d) (controllers : t.controllers = s.controllers)
    (slots : d'.slots = d.slots) : Seated cfg t d' where
  reserved ch w := by
    have before := h.reserved ch w
    unfold Debts.slotCount at before ⊢
    rw [controllers, slots]
    exact before
  fits ch w := by
    rw [controllers]
    exact h.fits ch w

/-- A charge reserves a free slot. -/
theorem Seated.charge (h : Seated cfg s d) {parent : ParentRequest} {access : HbmAccess}
    (free : (s.controllers access.address.flatChannel).free
      (cfg.channelConfig access.address.flatChannel) access.op.isWrite = true)
    (closing : Option Nat) :
    Seated cfg (s.charge parent access)
      { d with slots := s.numbered access :: d.slots, closing := closing } where
  reserved ch w := by
    have before := h.reserved ch w
    unfold Debts.slotCount at before ⊢
    rw [charge_controllers, List.countP_cons]
    show _ = _ + if (access.address.flatChannel == ch && access.op.isWrite == w) =
      true then 1 else 0
    by_cases hch : ch = access.address.flatChannel
    · subst hch
      rw [if_pos rfl, HbmController.reserved_slots, side_ctl, before]
      simp
    · rw [if_neg hch, before]
      simp [Ne.symm hch]
  fits ch w := by
    have before := h.fits ch w
    rw [charge_controllers]
    split
    · subst ch
      intro bounded
      have room := (HbmController.free_eq_true (h.fits _) _).mp free
      have before := before bounded
      rw [HbmController.reserved_slots, side_ctl]
      show ((s.controllers access.address.flatChannel).queue w).length + _ ≤ _
      by_cases hw : access.op.isWrite = w
      · subst hw
        rw [if_pos rfl]
        omega
      · rw [if_neg hw]
        omega
    · exact before

/-- A push gives a reservation back for an access. -/
theorem Seated.push (h : Seated cfg s d) {access : HbmAccess} {rest : List HbmAccess}
    (slot : d.slots = access :: rest) (wakes rearm : List Nat) :
    Seated cfg (s.push cfg access) { d with slots := rest, wakes := wakes, rearm := rearm } where
  reserved ch w := by
    have before := h.reserved ch w
    unfold Debts.slotCount at before ⊢
    rw [slot, List.countP_cons] at before
    rw [push_controllers]
    by_cases hch : ch = access.address.flatChannel
    · subst hch
      rw [if_pos rfl, HbmController.push_slots, before]
      simp
    · rw [if_neg hch, before]
      simp [Ne.symm hch]
  fits ch w := by
    have before := h.fits ch w
    rw [push_controllers]
    split
    · subst ch
      intro bounded
      have before := before bounded
      have count := h.reserved access.address.flatChannel access.op.isWrite
      unfold Debts.slotCount at count
      rw [slot, List.countP_cons, if_pos (by simp)] at count
      rw [HbmController.push_slots, HbmController.push_queue]
      by_cases hw : w = access.op.isWrite
      · subst hw
        rw [if_pos rfl, if_pos rfl, List.length_append, List.length_singleton]
        omega
      · rw [if_neg hw, if_neg (Ne.symm hw)]
        exact before
    · exact before

/-- Every move keeps the seats. -/
theorem Seated.move {p q : HbmSystem × Debts} (move : Move cfg p q) (h : Seated cfg p.1 p.2) :
    Seated cfg q.1 q.2 := by
  cases move with
  | @control s d channel t _ step =>
      exact h.update (update_controllers s channel t) step.marks.reservedSlots
        (fun w => Nat.le_of_eq (step.queue_length w)) rfl
  | @stir s d channel t _ step =>
      exact h.update (update_controllers s channel t) step.marks.reservedSlots
        (fun w => Nat.le_of_eq (step.queue_length w)) rfl
  | calm => exact h.frame rfl rfl
  | @transfer s d channel _ t _ step =>
      exact h.update (update_controllers s channel t) step.marks.reservedSlots step.queue_length rfl
  | awake => exact h.frame rfl rfl
  | @wake s d channel at_ =>
      exact h.update (markWake_controllers s channel at_) (fun _ => rfl) (fun _ =>
        Nat.le_refl _) rfl
  | armed => exact h.frame rfl rfl
  | @arm s d channel due =>
      exact h.update (markRefresh_controllers s channel due) (fun _ => rfl) (fun _ => Nat.le_refl _)
        rfl
  | @misarm s d channel due =>
      have same := modifyController_controllers s channel fun c =>
        { c with refreshDueAt := some due }
      exact h.update same (fun _ => rfl) (fun _ => Nat.le_refl _) rfl
  | accept => exact h.frame rfl rfl
  | charge _ _ _ _ _ _ free => exact h.charge free _
  | push _ slot => exact h.push slot _ _
  | blocked => exact h.frame rfl rfl
  | close => exact h.frame rfl rfl
  | @credit s d channel access parent =>
      exact h.update (credit_controllers cfg s channel access parent) (fun _ => rfl)
        (fun _ => Nat.le_refl _) rfl
  | retire => exact h.frame rfl rfl
  | complete => exact h.frame rfl rfl
  | announce => exact h.frame rfl rfl
  | client => exact h.frame rfl rfl
  | reject => exact h.frame rfl rfl
  | setScript => exact h.frame rfl rfl
  | setCallbacks => exact h.frame rfl rfl
  | notify => exact h.frame rfl rfl
  | return_ => exact h.frame rfl rfl

theorem clearWakeup_queue (c : HbmController) (at_ : Nat) (w : Bool) :
    (c.clearWakeup at_).queue w = c.queue w ∧
      (c.clearWakeup at_).reservedSlots w = c.reservedSlots w := by
  unfold HbmController.clearWakeup
  split
  · exact ⟨rfl, rfl⟩
  · exact ⟨rfl, rfl⟩

theorem disarm_queue (c : HbmController) (due : Nat) (w : Bool) :
    (c.disarm due).queue w = c.queue w ∧ (c.disarm due).reservedSlots w = c.reservedSlots w := by
  unfold HbmController.disarm
  split
  · exact ⟨rfl, rfl⟩
  · exact ⟨rfl, rfl⟩

/-- Every turn keeps the seats. -/
theorem Seated.turn {p q : HbmSystem × Debts} (turn : Turn cfg p q) (h : Seated cfg p.1 p.2) :
    Seated cfg q.1 q.2 := by
  cases turn with
  | @wake s d event rest channel =>
      exact h.update (modifyController_controllers (s.pop event rest) channel _)
        (fun w => (clearWakeup_queue _ _ w).2)
        (fun w => Nat.le_of_eq (congrArg List.length (clearWakeup_queue _ _ w).1)) rfl
  | @refreshDue s d event rest channel =>
      exact h.update (modifyController_controllers (s.pop event rest) channel _)
        (fun w => (disarm_queue _ _ w).2)
        (fun w => Nat.le_of_eq (congrArg List.length (disarm_queue _ _ w).1)) rfl
  | accessDone => exact h.frame rfl rfl
  | other => exact h.frame rfl rfl
  | advance => exact h.frame rfl rfl
  | escape => exact h.frame rfl rfl
  | @lose s d channel lost t _ step =>
      exact h.update (update_controllers s channel t) step.marks.reservedSlots step.queue_length rfl

/-- In every run the reservations are those still open, within the capacities. -/
theorem HbmSystem.Run.seated {p : HbmSystem × Debts} (run : Run cfg p) : Seated cfg p.1 p.2 := by
  induction run with
  | create =>
      refine ⟨fun _ w => ?_, fun _ w _ => ?_⟩
      · cases w <;> rfl
      · cases w <;> exact Nat.zero_le _
  | move _ move ih => exact ih.move move
  | turn _ turn ih => exact ih.turn turn

end

end HbmSim
