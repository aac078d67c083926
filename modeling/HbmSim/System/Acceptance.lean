import HbmSim.System.Running
import HbmSim.System.Totals

/-!
Submissions that are in order.

A transaction whose fields are in order, that has arrived and whose id is not in use is
accepted if there is room, and refused without a trace if there is none. An event is
dispatched at its time.
-/

namespace HbmSim

open HbmSim.Lib

namespace HbmSystem

variable {cfg : HbmConfig} {s t : HbmSystem}

/-! ### The clock -/

/-- The clock stands still. -/
def SameClock (s t : HbmSystem) : Prop := t.now = s.now

instance : Std.Refl SameClock := ⟨fun _ => rfl⟩

instance : IsTrans HbmSystem SameClock := ⟨fun _ _ _ h h' => h'.trans h⟩

theorem scheduleAt_clock {queue after : EventQueue EventCallback} {at_ token : Nat}
    {callback : EventCallback} (run : queue.scheduleAt at_ callback = .ok (token, after)) :
    after.now = queue.now := by
  unfold EventQueue.scheduleAt at run
  split at run
  · cases run
  · cases run
    rfl

theorem scheduleEvent_clock (at_ : Nat) (callback : EventCallback) :
    Stays SameClock (scheduleEvent at_ callback) := by
  unfold scheduleEvent
  refine .getBind fun s => ?_
  cases run : s.scheduler.scheduleAt at_ callback with
  | error e => exact Std.Refl.refl s
  | ok pair => exact scheduleAt_clock run

theorem onController_clock {α : Type} (channel : Nat) (op : ControllerM α) :
    Stays SameClock (onController cfg channel op) := by
  intro s
  unfold onController
  split
  · split <;> rfl
  · rfl

theorem scheduleClient_clock (s : HbmSystem) (at_ tag : Nat) :
    SameClock s (s.scheduleClient at_ tag) := by
  unfold scheduleClient
  split
  · rename_i run
    exact scheduleAt_clock run
  · rfl

/-- No function of a system moves the clock. -/
theorem footprint_clock : Footprint cfg SameClock where
  members scheduler _ _ _ := congrArg EventQueue.now scheduler
  event at_ callback _ := scheduleEvent_clock at_ callback
  wake channel at_ := by
    unfold scheduleControllerWake
    refine .bind .get fun s => ?_
    refine .bind (onController_clock _ _) fun needed => ?_
    exact .ite (fun _ => scheduleEvent_clock _ _) fun _ => .pure _
  refreshDue channel := by
    unfold scheduleRefreshDue
    refine .bind (onController_clock _ _) fun due => ?_
    cases due with
    | none => exact .pure _
    | some due => exact scheduleEvent_clock _ _
  client := scheduleClient_clock
  enqueue parent access := by
    unfold admitAccess
    refine .bind (onController_clock _ _) fun _ => ?_
    exact .getBind fun s => Stays.setBind rfl (onController_clock _ _)
  complete channel _ := onController_clock channel _
  refresh channel _ := onController_clock channel _

theorem runCallback_clock (callback : EventCallback) :
    Stays SameClock (runCallback cfg callback) := by
  by_cases wakes : ∃ channel at_, callback = .wake channel at_
  · obtain ⟨channel, at_, rfl⟩ := wakes
    apply footprint_clock.wakeCallback at_ (onController_clock channel _)
    unfold driveStep
    refine .bind .get fun s => .bind (onController_clock channel _) fun step => ?_
    refine .bind (.modify fun s => ?_) fun _ => .pure _
    unfold observeIssued
    split <;> rfl
  · exact footprint_clock.runCallback fun channel at_ same => wakes ⟨channel, at_, same⟩

/-- An event is dispatched at its time. -/
theorem dispatch_clock {reactions : List (List ClientCall)} {event : Event EventCallback}
    {rest : List (Event EventCallback)} (next : s.scheduler.events = event :: rest)
    (performed : perform cfg (.dispatch reactions) s = .ok () t) : t.now = event.time := by
  let u := { s with script := reactions }
  have dispatched : runCallback cfg event.callback (u.pop event rest) = .ok () t :=
    (@dispatchOne_cons cfg u event rest next).symm.trans performed
  have same := @runCallback_clock cfg event.callback (u.pop event rest)
  rwa [dispatched] at same

/-- The clock moves on while nothing is due. -/
theorem advance_ok {until_ : UInt64} (later : s.now ≤ until_.toNat)
    (nothing : s.scheduler.events.all (fun e => until_.toNat < e.time) = true) :
    perform cfg (.advance until_) s =
      .ok () { s with scheduler := { s.scheduler with now := until_.toNat } } := by
  unfold perform
  dsimp only
  rw [get_bind, if_pos ⟨later, nothing⟩]
  rfl

/-! ### Submission -/

/-- Nothing but a lack of room stands against accepting the transaction. -/
structure Submittable (s : HbmSystem) (tx : HbmTransaction) : Prop where
  named : tx.id ≠ 0
  sized : tx.sizeBytes ≠ 0
  arrived : tx.arrivalTime ≤ s.now
  fresh : s.findParent tx.id = none
  fits : tx.sizeBytes - 1 ≤ maxSimTime - tx.address

/-- What a submission that is in order leads to. -/
inductive Answers (cfg : HbmConfig) (tx : HbmTransaction) (s : HbmSystem) :
    SubmitResult → HbmSystem → Prop
  | accepts {t : HbmSystem} (calm : Calm cfg 0 (s.acceptTransaction tx) t) (clock : t.now = s.now) :
      Answers cfg tx s ⟨.accepted, tx.id, ""⟩ t
  | refuses (channel : Nat) (refused : Refused cfg s) :
      Answers cfg tx s ⟨.backpressure, 0, "admission capacity exceeded"⟩ (s.countRejection channel)

theorem trySubmitNow_answers (checked : cfg.Checked) (count : cfg.channelCount ≠ 0)
    {tx : HbmTransaction} (submittable : Submittable s tx) :
    Exits (trySubmitNow cfg tx) (Answers cfg tx s) (fun _ _ => True) s := by
  have named : ¬ (tx.id = 0 ∨ tx.sizeBytes = 0) := not_or.mpr ⟨submittable.named, submittable.sized⟩
  have fresh : ¬ (s.findParent tx.id).isSome = true := by
    rw [submittable.fresh]
    exact Bool.false_ne_true
  unfold trySubmitNow
  rw [exits_bind, exits_get, if_neg named, if_neg (Nat.not_lt.mpr submittable.arrived),
    if_neg fresh,
    if_neg (Nat.not_lt.mpr submittable.fits), exits_bind, exits_ofExcept]
  refine ⟨fun first next => ?_, fun _ _ => trivial⟩
  obtain ⟨group, -, -⟩ := HbmConfig.nextAccess_ok checked.burst checked.interleave next
  obtain ⟨byte, hmap⟩ := group.mapped
  have hchannel := HbmConfig.map_channel count hmap
  dsimp only
  by_cases full : s.parents.length ≥ cfg.controller.maxActiveTransactions
  · rw [if_pos full, exits_bind, exits_modify, exits_pure]
    exact .refuses first.address.flatChannel (.inl full)
  rw [if_neg full, exits_bind, onController_exits hchannel]
  simp only [exits_bind, exits_get, exits_pure]
  rw [update_side, HbmOp.beq_read, Bool.not_not, side_ctl]
  cases free : (s.controllers first.address.flatChannel).canReserve
      (cfg.channelConfig first.address.flatChannel) (!tx.op.isWrite).toNat tx.op.isWrite.toNat with
  | false =>
      simp only [Bool.not_false, if_true, exits_bind, exits_modify, exits_pure]
      exact .refuses first.address.flatChannel (.inr ⟨_, hchannel, tx.op.isWrite, free⟩)
  | true =>
      simp only [Bool.not_true, Bool.false_eq_true, if_false, exits_bind, exits_modify, exits_pure]
      have calm := (pumpAdmissions_calm checked).exits (s.acceptTransaction tx)
      have clock := (@footprint_clock cfg).pumpAdmissions.exits (s.acceptTransaction tx)
      refine (calm.and clock).mono (fun _ t h => ?_) fun _ _ _ => trivial
      exact .accepts h.1 h.2

/-- What escapes from an action of a run could not be helped. -/
theorem Reachable.unavoidable (reached : Reachable cfg NoEscape s) {action : Action} {e : HbmError}
    (performed : HbmSystem.perform cfg action s = .error e t) : Unavoidable cfg e t := by
  obtain ⟨valid, count, d, point, excuse⟩ := reached.point
  have leads := perform_leads valid.checked count action point
  unfold Leads Exits at leads
  rw [performed] at leads
  obtain ⟨-, excusable, -⟩ := leads
  rcases excusable with overflow | passed | irregular | ⟨-, lost⟩
  · exact .inl overflow
  · exact .inr (.inl passed)
  · exact .inr (.inr irregular)
  · exact absurd (excuse lost) fun ⟨_, escaped, _⟩ => escaped

end HbmSystem

end HbmSim
