import HbmSim.System.Transfers

/-!
Systems without pending events.

While no exception has escaped, a system none of whose events is pending has nothing
to do: no channel has work and no transaction is active. The same holds at a refused
submission, also inside a callback, where accesses of the running event may still wait
to be credited: the transaction reported just now has left room.
-/

namespace HbmSim

open HbmSim.Lib HbmSystem

/-- Something besides the running completion event keeps transactions active, or one
more would be admitted. -/
def Busy (cfg : HbmConfig) (s : HbmSystem) (d : Debts) : Prop :=
  s.parents.length < cfg.controller.maxActiveTransactions ∨
    (∃ p ∈ s.parents, p.admittedBytes < p.transaction.sizeBytes) ∨ d.slots ≠ [] ∨
      ∃ channel, (d.finishingOn channel).length < (s.controllers channel).outstandingAccesses

/-- The active transactions fit, and once one is completed they are held up by
something else. -/
structure Roomy (cfg : HbmConfig) (s : HbmSystem) (d : Debts) : Prop where
  fits : s.parents.length ≤ cfg.controller.maxActiveTransactions
  kept : d.escaped = true ∨ d.lost = []
  busy : d.escaped = true ∨ d.retired = 0 ∨ Busy cfg s d

section

variable {cfg : HbmConfig} {s t : HbmSystem} {d d' : Debts}

theorem Busy.change (h : Busy cfg s d) (parents : t.parents.length ≤ s.parents.length)
    (admitted : ∀ p ∈ s.parents, p.admittedBytes < p.transaction.sizeBytes →
      ∃ p ∈ t.parents, p.admittedBytes < p.transaction.sizeBytes)
    (slots : d'.slots = d.slots) (finishing : d'.finishing = d.finishing)
    (outstanding : ∀ ch, (t.controllers ch).outstandingAccesses =
      (s.controllers ch).outstandingAccesses) : Busy cfg t d' := by
  rcases h with room | ⟨p, hp, unadmitted⟩ | reserved | ⟨ch, some⟩
  · exact .inl (Nat.lt_of_le_of_lt parents room)
  · exact .inr (.inl (admitted p hp unadmitted))
  · exact .inr (.inr (.inl (slots ▸ reserved)))
  · refine .inr (.inr (.inr ⟨ch, ?_⟩))
    rw [outstanding]
    unfold Debts.finishingOn at some ⊢
    rwa [finishing]

/-- A change that leaves the parents alone and the outstanding counters. -/
theorem Roomy.frame (h : Roomy cfg s d) (parents : t.parents = s.parents)
    (escaped : d'.escaped = d.escaped) (lost : d'.lost = d.lost)
    (retired : d'.retired = d.retired ∨ d'.retired = 0) (slots : d'.slots = d.slots)
    (finishing : d'.retired = 0 ∨ d'.finishing = d.finishing)
    (outstanding : ∀ ch, (t.controllers ch).outstandingAccesses =
      (s.controllers ch).outstandingAccesses) : Roomy cfg t d' where
  fits := by
    rw [parents]
    exact h.fits
  kept := by
    rw [escaped, lost]
    exact h.kept
  busy := by
    rw [escaped]
    refine h.busy.imp_right fun busy => ?_
    rcases retired with same | zero
    · rcases finishing with zero | finishing
      · exact .inl zero
      refine busy.imp (same.trans ·) fun busy => ?_
      exact busy.change (by rw [parents]) (fun p hp un => ⟨p, parents ▸ hp, un⟩) slots finishing
        outstanding
    · exact .inl zero

theorem outstanding_update {channel : Nat} {c : HbmController}
    (controllers : ∀ ch, t.controllers ch = if ch = channel then c else s.controllers ch)
    (same : c.outstandingAccesses = (s.controllers channel).outstandingAccesses) (ch : Nat) :
    (t.controllers ch).outstandingAccesses = (s.controllers ch).outstandingAccesses := by
  rw [controllers]
  split
  · subst ch
    exact same
  · rfl

theorem finishing_le (balanced : Balanced s d) (channel : Nat) :
    (d.finishingOn channel).length ≤ (s.controllers channel).outstandingAccesses := by
  rw [balanced.outstanding]
  unfold workOn
  simp only [List.length_append]
  omega

variable (d') in
theorem finishingOn_length {channel time : Nat} {access : LogicalCompletion}
    {rest : List (Nat × Nat × LogicalCompletion)}
    (popped : d.finishing = (channel, time, access) :: rest)
    (left : d'.finishing = rest) (ch : Nat) :
    (d.finishingOn ch).length = (if channel = ch then 1 else 0) + (d'.finishingOn ch).length := by
  unfold Debts.finishingOn
  rw [popped, left, List.flatMap_cons, List.length_append]
  split <;> rfl

theorem Roomy.move {p q : HbmSystem × Debts} (move : Move cfg p q) (accounted : Accounted p.1 p.2)
    (h : Roomy cfg p.1 p.2) : Roomy cfg q.1 q.2 := by
  cases move with
  | @control s d channel t _ step =>
      exact h.frame rfl rfl rfl (.inl rfl) rfl (.inr rfl)
        (outstanding_update (update_controllers s channel t) step.marks.outstandingAccesses)
  | @stir s d channel t _ step =>
      exact h.frame rfl rfl rfl (.inl rfl) rfl (.inr rfl)
        (outstanding_update (update_controllers s channel t) step.marks.outstandingAccesses)
  | @transfer s d channel _ t _ step =>
      exact h.frame rfl rfl rfl (.inl rfl) rfl (.inr rfl)
        (outstanding_update (update_controllers s channel t) step.marks.outstandingAccesses)
  | @wake s d channel at_ =>
      exact h.frame rfl rfl rfl (.inl rfl) rfl (.inr rfl)
        (outstanding_update (markWake_controllers s channel at_) rfl)
  | @arm s d channel due =>
      exact h.frame rfl rfl rfl (.inl rfl) rfl (.inr rfl)
        (outstanding_update (markRefresh_controllers s channel due) rfl)
  | @misarm s d channel due =>
      have same := modifyController_controllers s channel fun c =>
        { c with refreshDueAt := some due }
      exact h.frame rfl rfl rfl (.inl rfl) rfl (.inr rfl) (outstanding_update same rfl)
  | @accept s d tx sized _ _ _ room =>
      refine ⟨?_, h.kept, .inr (.inr (.inr (.inl ?_)))⟩
      · show (s.parents ++ [_]).length ≤ _
        rw [List.length_append]
        exact room
      · exact ⟨_, List.mem_append_right _ (List.mem_singleton_self _), Nat.pos_of_ne_zero sized⟩
  | @charge s d parent access =>
      refine ⟨?_, h.kept, .inr (.inr (.inr (.inr (.inl (List.cons_ne_nil _ _)))))⟩
      show (s.parents.map _).length ≤ _
      rw [List.length_map]
      exact h.fits
  | @push s d access =>
      refine ⟨h.fits, h.kept, .inr (.inr (.inr (.inr (.inr ⟨access.address.flatChannel, ?_⟩))))⟩
      rw [push_controllers, if_pos rfl]
      exact Nat.lt_succ_of_le (finishing_le accounted.balanced _)
  | @credit s d channel access parent rest _ popped found live =>
      obtain ⟨mem, id⟩ := findParent_some found
      refine ⟨?_, h.kept, h.busy.imp_right (.imp_right fun busy => ?_)⟩
      · show (s.parents.map _).length ≤ _
        rw [List.length_map]
        exact h.fits
      rcases busy with room | ⟨p, hp, unadmitted⟩ | reserved | ⟨ch, some⟩
      · refine .inl ?_
        show (s.parents.map _).length < _
        rwa [List.length_map]
      · refine .inr (.inl ⟨_, List.mem_map_of_mem hp, ?_⟩)
        split
        · rename_i hid
          -- the credited parent keeps its bytes
          have keeps : (creditAccess parent access channel s.now).admittedBytes =
                parent.admittedBytes ∧
              (creditAccess parent access channel s.now).transaction = parent.transaction := by
            unfold creditAccess
            dsimp only
            split <;> exact ⟨rfl, rfl⟩
          obtain rfl := accounted.family.eq_of_id hp mem (hid.trans id.symm)
          rw [keeps.1, keeps.2]
          exact unadmitted
        · exact unadmitted
      · exact .inr (.inr (.inl reserved))
      · refine .inr (.inr (.inr ⟨ch, ?_⟩))
        have split_ := finishingOn_length { d with finishing := rest } popped rfl ch
        have some : (d.finishingOn ch).length < (s.controllers ch).outstandingAccesses := some
        show (Debts.finishingOn { d with finishing := rest } ch).length < _
        rw [credit_controllers]
        by_cases hc : channel = ch
        · subst hc
          rw [if_pos rfl] at split_ ⊢
          show _ < (s.controllers channel).outstandingAccesses - 1
          omega
        · rw [if_neg hc] at split_
          rw [if_neg (Ne.symm hc)]
          omega
  | @retire s d parent found =>
      obtain ⟨mem, -⟩ := findParent_some found
      have less : (s.retireParent cfg parent).parents.length < s.parents.length := by
        show (s.parents.filter _).length < _
        refine List.length_filter_lt_length_iff_exists.mpr ⟨parent, mem, ?_⟩
        simp [completionOf]
      exact ⟨Nat.le_trans (Nat.le_of_lt less) h.fits, h.kept,
        .inr (.inr (.inl (Nat.lt_of_lt_of_le less h.fits)))⟩
  | _ => exact h.frame rfl rfl rfl (.inl rfl) rfl (.inr rfl) fun _ => rfl

theorem Roomy.turn {p q : HbmSystem × Debts} (turn : Turn cfg p q) (h : Roomy cfg p.1 p.2) :
    Roomy cfg q.1 q.2 := by
  cases turn with
  | @wake s d event rest channel =>
      exact h.frame rfl rfl rfl (.inr rfl) rfl (.inl rfl)
        (outstanding_update (modifyController_controllers (s.pop event rest) channel _)
          (clearWakeup_frame _ _).2)
  | @refreshDue s d event rest channel =>
      exact h.frame rfl rfl rfl (.inr rfl) rfl (.inl rfl)
        (outstanding_update (modifyController_controllers (s.pop event rest) channel _)
          (disarm_frame _ _).2)
  | escape => exact ⟨h.fits, .inl rfl, .inl rfl⟩
  | lose => exact ⟨h.fits, .inl rfl, .inl rfl⟩
  | _ => exact h.frame rfl rfl rfl (.inr rfl) rfl (.inl rfl) fun _ => rfl

theorem HbmSystem.Run.roomy (checked : cfg.Checked) {p : HbmSystem × Debts} (run : Run cfg p) :
    Roomy cfg p.1 p.2 := by
  induction run with
  | create => exact ⟨Nat.zero_le _, .inr rfl, .inr (.inl rfl)⟩
  | move run move ih => exact ih.move move (run.accounted checked)
  | turn _ turn ih => exact ih.turn turn

/-! ### No event is pending -/

section

variable (checked : cfg.Checked) (run : Run cfg (s, d)) (alive : d.escaped = false)
  (settled : d.Settled) (quiet : s.systemEvents = [])

include quiet in
/-- The events that are pending are the client's. -/
theorem client_of_quiet {e : Event EventCallback} (he : e ∈ s.scheduler.events) :
    e.callback.isSystem = false := by
  have none := List.filter_eq_nil_iff.mp quiet e he
  simpa using none

include run alive settled quiet in
/-- Every channel has nothing to do. -/
theorem idle_of_quiet (channel : Nat) : (s.controllers channel).Idle := by
  rcases run.awake with lost | awake
  · exact nomatch alive.symm.trans lost
  rcases awake channel with idle | mark | owed
  · exact idle
  · obtain ⟨t, mark⟩ := Option.isSome_iff_exists.mp mark
    obtain ⟨e, he, callback⟩ := run.scheduled.marked channel t mark
    have client := client_of_quiet quiet he
    rw [callback] at client
    cases client
  · rw [settled.wakes] at owed
    cases owed

include run alive settled quiet in
/-- Every queue has a free slot. -/
theorem free_of_quiet (channel : Nat) (w : Bool) :
    (s.controllers channel).free (cfg.channelConfig channel) w = true := by
  have seated := run.seated
  rw [HbmController.free_eq_true (seated.fits channel)]
  have empty := (idle_of_quiet run alive settled quiet channel).2 w
  have reserved : (s.controllers channel).reservedSlots w = d.slotCount channel w :=
    seated.reserved channel w
  rw [empty, reserved]
  unfold Debts.slotCount
  rw [settled.slots]
  exact (Nat.eq_zero_or_pos _).imp_right fun pos => pos

include checked run alive settled quiet in
/-- Every active transaction is fully admitted. -/
theorem admitted_of_quiet {p : ParentRequest} (hp : p ∈ s.parents) :
    ¬ p.admittedBytes < p.transaction.sizeBytes := by
  intro unfinished
  rcases run.waiting checked with lost | waiting
  · exact nomatch alive.symm.trans lost
  have unloose : p.transaction.id ∉ d.loose := by
    rw [settled.loose]
    exact List.not_mem_nil
  obtain ⟨access, -, full⟩ := waiting.blocked p hp unfinished unloose
  exact nomatch full.symm.trans (free_of_quiet run alive settled quiet _ _)

include checked run alive settled quiet in
/-- All that is under way is about to be credited. -/
theorem work_of_quiet (channel : Nat) : workOn s d channel = d.finishingOn channel := by
  have flown : flying s.scheduler.events channel = [] := by
    refine List.flatMap_eq_nil_iff.mpr fun e he => ?_
    have client := client_of_quiet quiet he
    cases callback : e.callback with
    | accessDone => simp [callback, EventCallback.isSystem] at client
    | _ => rfl
  have kept : d.lost = [] := (run.roomy checked).kept.resolve_left (by simp [alive])
  unfold workOn Debts.issuedOn Debts.lostOn
  rw [(idle_of_quiet run alive settled quiet channel).queued, flown, settled.issued, kept]
  simp

include checked run alive settled quiet in
/-- No transaction is active. -/
theorem parents_of_quiet (finishing : d.finishing = []) : s.parents = [] := by
  refine List.eq_nil_iff_forall_not_mem.mpr fun p hp => ?_
  have accounted := run.accounted checked
  have owes := (accounted.family.unripe p hp (by rw [settled.ripe]; exact nofun)).resolve_right
    (admitted_of_quiet checked run alive settled quiet hp)
  rw [accounted.family.remaining p hp] at owes
  obtain ⟨o, ho, -⟩ := List.countP_pos_iff.mp (Nat.pos_of_ne_zero owes)
  have under := (accounted.balanced.opened o.channel).mem_iff.mpr (mem_openOn.mpr ⟨o.ticket, ho⟩)
  rw [work_of_quiet checked run alive settled quiet] at under
  unfold Debts.finishingOn Debts.slotsOn at under
  rw [finishing, settled.slots] at under
  cases under

include checked run alive settled quiet in
/-- A submission is not refused. -/
theorem not_refused_of_quiet (busy : d.retired ≠ 0 ∨ d.finishing = []) : ¬ Refused cfg s := by
  rintro (crowded | ⟨channel, -, w, full⟩)
  · rcases busy with retired | finishing
    · have roomy := run.roomy checked
      rcases roomy.busy with lost | zero | room | ⟨p, hp, unadmitted⟩ | reserved | ⟨ch, some⟩
      · exact nomatch alive.symm.trans lost
      · exact retired zero
      · exact Nat.lt_irrefl _ (Nat.lt_of_lt_of_le room crowded)
      · exact admitted_of_quiet checked run alive settled quiet hp unadmitted
      · exact reserved settled.slots
      · have counted : (s.controllers ch).outstandingAccesses = (workOn s d ch).length :=
          (run.accounted checked).balanced.outstanding ch
        rw [work_of_quiet checked run alive settled quiet] at counted
        exact Nat.lt_irrefl _ (Nat.lt_of_lt_of_eq some counted)
    · rw [parents_of_quiet checked run alive settled quiet finishing] at crowded
      exact absurd crowded (Nat.not_le.mpr checked.active)
  · exact nomatch full.symm.trans (free_of_quiet run alive settled quiet channel w)

end

/-! ### Refused submissions -/

/-- A refused submission leaves an event of the system pending. -/
def BackpressureWaits : Observation → List Observation → Prop
  | .returned result pending _, _ => result.status = .backpressure → pending ≠ 0
  | _, _ => True

/-- While no exception has escaped, an event of the system is pending whenever a
submission is refused. -/
theorem HbmSystem.Run.backpressure (checked : cfg.Checked) {p : HbmSystem × Debts} (run : Run cfg p) :
    p.2.escaped = true ∨ Chronicle BackpressureWaits p.1.trace := by
  have silent : ∀ {o : Observation} {trace : List Observation},
      (∀ result pending at_, o ≠ .returned result pending at_) → Chronicle BackpressureWaits trace →
        Chronicle BackpressureWaits (o :: trace) := by
    intro o trace other h
    refine chronicle_cons.mpr ⟨?_, h⟩
    cases o with
    | returned result pending at_ => exact absurd rfl (other result pending at_)
    | _ => trivial
  induction run with
  | create => exact .inr Chronicle.nil
  | move run move ih =>
      rcases ih with lost | ih
      · exact .inl (move.escaped.trans lost)
      cases move with
      | transfer => exact .inr (silent nofun ih)
      | accept => exact .inr (silent nofun ih)
      | charge => exact .inr (silent nofun ih)
      | credit => exact .inr (silent nofun ih)
      | retire => exact .inr (silent nofun ih)
      | notify => exact .inr (silent nofun ih)
      | @return_ s d result settled busy refused =>
          by_cases lost : d.escaped = true
          · exact .inl lost
          have alive : d.escaped = false := by simpa using lost
          refine .inr (chronicle_cons.mpr ⟨fun status pending => ?_, ih⟩)
          refine not_refused_of_quiet checked run alive (settled.resolve_left lost)
            (List.length_eq_zero_iff.mp pending) ?_ (refused status)
          exact busy.imp_right fun h => h.resolve_left lost
      | _ => exact .inr ih
  | turn run turn ih =>
      rcases ih with lost | ih
      · refine .inl ?_
        cases turn <;> first | exact lost | rfl
      · cases turn with
        | escape => exact .inl rfl
        | lose => exact .inl rfl
        | _ => exact .inr ih

end

end HbmSim
