import HbmSim.System.Actions
import HbmSim.System.Attachment
import HbmSim.System.Lineup
import HbmSim.System.Replay

/-!
First in, first out.

Under the FIFO scheduler and without merging, the data commands of a queue issue in the order
in which their accesses were admitted, as long as no precharge gives way to a younger access
of the row it would close.
-/

namespace HbmSim

open HbmSim.Lib HbmSystem

namespace HbmController

variable {config : HbmControllerConfig} {mapper : HbmAddressMapper} {s t : ControllerState}

/-- An access joins the line-up of its queue, or none does. -/
structure Joins (number : Nat) (s t : ControllerState) : Prop where
  joins : ∀ w, t.ctl.lineup w = s.ctl.lineup w ∨ t.ctl.lineup w = number :: s.ctl.lineup w

theorem pushReserved_joins (a : HbmAccess) : Stays (Joins a.sequence) (pushReserved config a) := by
  intro s
  by_cases slot : s.ctl.reservedSlots a.op.isWrite = 0
  · apply (exits_exitState (Joins a.sequence s)).mp
    unfold pushReserved
    cases op : a.op with
    | read =>
        have none_left : s.ctl.reservedReads = 0 := by
          simpa [reservedSlots, op, HbmOp.isWrite] using slot
        simp only [exits_bind, exits_get, if_true, none_left, exits_throw]
        exact ⟨fun _ => .inl rfl⟩
    | write =>
        have none_left : s.ctl.reservedWrites = 0 := by
          simpa [reservedSlots, op, HbmOp.isWrite] using slot
        simp only [exits_bind, exits_get, reduceCtorEq, if_false, none_left, if_true, exits_throw]
        exact ⟨fun _ => .inl rfl⟩
  · apply (exits_exitState (Joins a.sequence s)).mp
    apply (pushReserved_exits slot).mono
    · rintro _ t rfl
      refine ⟨fun w => ?_⟩
      have line : (s.ctl.push a).lineup w =
          if w = a.op.isWrite then a.sequence :: s.ctl.lineup w else s.ctl.lineup w := by
        unfold lineup sequences
        rw [push_queue]
        split
        · rw [List.map_append, List.reverse_append]
          rfl
        · rfl
      show (s.ctl.push a).lineup w = _ ∨ (s.ctl.push a).lineup w = _
      rw [line]
      split
      · exact .inr rfl
      · exact .inl rfl
    · exact fun _ _ h => h.elim

theorem admitReserved_joins (a : HbmAccess) (now : Nat) :
    Stays (Joins a.sequence) (admitReserved config mapper a now) := by
  intro s
  unfold admitReserved
  apply (exits_exitState (Joins a.sequence s)).mp
  rw [exits_bind]
  apply ((footprint_lineup.prepareRefreshForArrival now).exits s).mono
  · intro _ t same
    have pushes : Stays (Joins a.sequence)
        (pushReserved config { a with enqueuedAt := a.arrivalTime }) :=
      pushReserved_joins { a with enqueuedAt := a.arrivalTime }
    have joined := pushes.exits t
    have from_here : ∀ {v}, Joins a.sequence t v → Joins a.sequence s v :=
      fun h => ⟨fun w => same.same w ▸ h.joins w⟩
    exact joined.mono (fun _ _ => from_here) fun _ _ => from_here
  · exact fun _ t same => ⟨fun w => .inl (same.same w)⟩

end HbmController

/-! ### The order of a system -/

namespace HbmSystem

/-- If the next event drives a controller, it finds no data command that overtakes. -/
def Orderly (cfg : HbmConfig) (s : HbmSystem) : Prop :=
  ∀ event rest channel at_, s.scheduler.events = event :: rest →
    event.callback = .wake channel at_ → ¬ HbmController.Overtakes (cfg.channelConfig channel)
      cfg.mapper ((s.controllers channel).clearWakeup at_) event.time

/-- Every line-up is in the order of the sequence numbers, below the next one. -/
structure InOrder (s : HbmSystem) : Prop where
  lineup : ∀ channel w,
    (s.nextAccessSequence :: (s.controllers channel).lineup w).Pairwise (· > ·)

/-- The order is kept. -/
structure KeepsOrder (s t : HbmSystem) : Prop where
  keeps : InOrder s → InOrder t

instance : Std.Refl KeepsOrder := ⟨fun _ => ⟨id⟩⟩

instance : IsTrans HbmSystem KeepsOrder := ⟨fun _ _ _ h h' => ⟨h'.keeps ∘ h.keeps⟩⟩

variable {cfg : HbmConfig} {s t : HbmSystem}

/-- The queued numbers increase. -/
theorem InOrder.sorted (h : InOrder s) (channel : Nat) (w : Bool) :
    ((s.controllers channel).sequences w).Pairwise (· < ·) := by
  have line := (List.pairwise_cons.mp (h.lineup channel w)).2
  exact List.pairwise_reverse.mp (List.pairwise_append.mp line).1

/-- The issued numbers increase with time. -/
theorem InOrder.issued (h : InOrder s) (channel : Nat) (w : Bool) :
    ((s.controllers channel).issuedFrom w).Pairwise (· > ·) :=
  (List.pairwise_append.mp (List.pairwise_cons.mp (h.lineup channel w)).2).2.1

theorem KeepsOrder.of_same (controllers : t.controllers = s.controllers)
    (next : t.nextAccessSequence = s.nextAccessSequence) : KeepsOrder s t := by
  refine ⟨fun h => ⟨fun channel w => ?_⟩⟩
  rw [controllers, next]
  exact h.lineup channel w

/-- A controller with the same line-ups keeps the order. -/
theorem KeepsOrder.lift {channel : Nat} {t : ControllerState}
    (same : HbmController.SameLineup ⟨s.controllers channel, s.stats⟩ t) :
    KeepsOrder s { s.setController channel t.ctl with stats := t.stats } := by
  refine ⟨fun h => ⟨fun ch w => ?_⟩⟩
  have line : (if ch = channel then t.ctl else s.controllers ch).lineup w =
      (s.controllers ch).lineup w := by
    split
    · subst ch
      exact same.same w
    · rfl
  show (s.nextAccessSequence :: (if ch = channel then t.ctl else s.controllers ch).lineup w).Pairwise
    (· > ·)
  rw [line]
  exact h.lineup ch w

theorem scheduleEvent_order (at_ : Nat) (callback : EventCallback) :
    Stays KeepsOrder (scheduleEvent at_ callback) := by
  unfold scheduleEvent
  refine .getBind fun s => ?_
  cases s.scheduler.scheduleAt at_ callback <;> exact .of_same rfl rfl

theorem scheduleClient_order (s : HbmSystem) (at_ tag : Nat) :
    KeepsOrder s (s.scheduleClient at_ tag) := by
  unfold scheduleClient
  split <;> exact .of_same rfl rfl

/-- An access joins a line-up of the system, or none does. -/
structure Joins (number : Nat) (s t : HbmSystem) : Prop where
  next : t.nextAccessSequence = s.nextAccessSequence
  joins : ∀ channel w, (t.controllers channel).lineup w = (s.controllers channel).lineup w ∨
    (t.controllers channel).lineup w = number :: (s.controllers channel).lineup w

instance (number : Nat) : Std.Refl (Joins number) := ⟨fun _ => ⟨rfl, fun _ _ => .inl rfl⟩⟩

/-- A controller's queue is joined by the next number. -/
theorem Joins.lift {number channel : Nat} {t : ControllerState}
    (joins : HbmController.Joins number ⟨s.controllers channel, s.stats⟩ t) :
    Joins number s { s.setController channel t.ctl with stats := t.stats } := by
  refine ⟨rfl, fun ch w => ?_⟩
  show (if ch = channel then t.ctl else s.controllers ch).lineup w = _ ∨
    (if ch = channel then t.ctl else s.controllers ch).lineup w = _
  split
  · subst ch
    exact joins.joins w
  · exact .inl rfl

/-- The access with the next number joins the end of a line-up. -/
theorem InOrder.enter {u : HbmSystem} (h : InOrder s) (controllers : u.controllers = s.controllers)
    (next : u.nextAccessSequence = s.nextAccessSequence + 1)
    (joins : Joins s.nextAccessSequence u t) : InOrder t := by
  refine ⟨fun channel w => ?_⟩
  have before := h.lineup channel w
  have below := (List.pairwise_cons.mp before).1
  have line := joins.joins channel w
  rw [controllers] at line
  rw [joins.next, next]
  rcases line with same | joined
  · rw [same]
    refine List.pairwise_cons.mpr ⟨fun n mem => ?_, (List.pairwise_cons.mp before).2⟩
    exact Nat.lt_succ_of_lt (below n mem)
  · rw [joined]
    refine List.pairwise_cons.mpr ⟨fun n mem => ?_, before⟩
    rcases List.mem_cons.mp mem with rfl | mem
    · exact Nat.lt_succ_self _
    · exact Nat.lt_succ_of_lt (below n mem)

theorem admitAccess_order (parent : ParentRequest) (access : HbmAccess) :
    Stays KeepsOrder (admitAccess cfg parent access) := by
  unfold admitAccess
  refine .bind (onController_stays KeepsOrder.lift
    (HbmController.footprint_lineup.reserve _ _)) fun _ => .getBind fun s => ⟨fun h => ?_⟩
  exact h.enter (u := s.chargeAccess parent { access with sequence := s.nextAccessSequence }) rfl rfl
    (onController_stays Joins.lift (HbmController.admitReserved_joins
      { access with sequence := s.nextAccessSequence } s.now) _)

theorem footprint_order : Footprint cfg KeepsOrder :=
  .of_controllers (fun _ => HbmController.footprint_lineup) KeepsOrder.lift
    (fun _ controllers _ next => .of_same controllers next) scheduleEvent_order
    scheduleClient_order admitAccess_order

/-! ### Steps -/

section

variable (fifo : cfg.controller.scheduler = .fifo)
  (solo : cfg.controller.requestMergePolicy = .none)

include fifo solo

theorem driveStep_order {channel : Nat} (wiring : Wiring (cfg.channelConfig channel) cfg.mapper)
    (sound : Sound (cfg.channelConfig channel) cfg.mapper (s.controllers channel))
    (orderly : ¬ HbmController.Overtakes (cfg.channelConfig channel) cfg.mapper
      (s.controllers channel) s.now) :
    KeepsOrder s (exitState (driveStep cfg channel s)) := by
  refine ⟨fun h => ?_⟩
  have drives : KeepsOrder s (exitState (onController cfg channel
      (HbmController.drive (cfg.channelConfig channel) cfg.mapper s.now) s)) := by
    have line : HbmController.SameLineup (s.side channel) _ := HbmController.drive_lineup fifo
      (by unfold HbmConfig.channelConfig; rw [solo]; rfl) wiring sound (h.sorted channel) orderly
    exact onController_from KeepsOrder.lift line
  refine (Stays.bind_from (R := KeepsOrder) drives fun step t _ => ?_).keeps h
  refine Stays.bind (.modify fun u => ?_) (fun _ => .pure _) t
  unfold observeIssued
  split <;> exact .of_same rfl rfl

/-- An event that lets no data command overtake keeps the order. -/
theorem dispatchOne_order (checked : cfg.Checked) {d : Debts} (point : Point cfg s d)
    (orderly : Orderly cfg s) : KeepsOrder s (exitState (dispatchOne cfg s)) := by
  cases next : s.scheduler.events with
  | nil =>
      rw [dispatchOne_nil next]
      exact Std.Refl.refl s
  | cons event rest =>
      rw [dispatchOne_cons next]
      refine IsTrans.trans _ (s.pop event rest) _ (.of_same rfl rfl) ?_
      by_cases wakes : ∃ channel at_, event.callback = .wake channel at_
      · obtain ⟨channel, at_, callback⟩ := wakes
        have stamped := point.run.scheduled.stamped event (next ▸ List.mem_cons_self)
        rw [callback] at stamped ⊢
        obtain ⟨rfl, hchannel⟩ := stamped
        have turn : Turn cfg (s, d) _ := .wake next callback hchannel point.settled
        have sound := (point.run.turn turn).sound checked channel
        have clears : onController cfg channel
            (modify fun s => s.modifyCtl (·.clearWakeup event.time)) (s.pop event rest) =
              .ok () ((s.pop event rest).modifyController channel (·.clearWakeup event.time)) := by
          unfold onController
          rw [if_pos hchannel]
          rfl
        have frame : HbmController.Footprint (cfg.channelConfig channel)
            HbmController.SameLineup := HbmController.footprint_lineup
        have clear : Stays (KeepsOrder) (onController cfg channel
            (modify fun s => s.modifyCtl (·.clearWakeup event.time))) :=
          onController_stays KeepsOrder.lift
            (frame.clearWakeup _)
        unfold runCallback
        refine Stays.bind_from (clear _) fun _ t cleared => ?_
        obtain rfl : _ = t := (EStateM.Result.ok.inj (clears.symm.trans cleared)).2
        apply footprint_order.driveController
        apply driveStep_order fifo solo (checked.wiring channel) sound
        rw [modifyController_controllers, if_pos rfl]
        exact orderly event rest channel event.time next callback
      · exact footprint_order.runCallback
          (fun channel at_ callback => wakes ⟨channel, at_, callback⟩) _

theorem perform_order {escapes : HbmError → Prop} (reached : Reachable cfg escapes s)
    (action : Action) (orderly : ∀ reactions, action = .dispatch reactions → Orderly cfg s) :
    KeepsOrder s (exitState (perform cfg action s)) := by
  cases action with
  | call call => exact footprint_order.runClient [call] s
  | advance until_ =>
      unfold perform
      refine Stays.getBind (R := KeepsOrder) (fun s => ?_) s
      split <;> exact .of_same rfl rfl
  | dispatch reactions =>
      obtain ⟨valid, -, d, point, -⟩ := reached.point
      have script : Move cfg (s, d) ({ s with script := reactions }, d) := .setScript _
      have point' : Point cfg { s with script := reactions } d :=
        ⟨point.run.move script, point.ripe, point.settled⟩
      refine IsTrans.trans _ { s with script := reactions } _ (.of_same rfl rfl) ?_
      exact dispatchOne_order fifo solo valid.checked point' (orderly reactions rfl)

/-- What each step of a run meets: the events it dispatches find nothing that overtakes. -/
def Meets (cfg : HbmConfig) (s : HbmSystem) (action : Action) : Prop :=
  ∀ reactions, action = .dispatch reactions → Orderly cfg s

/-- In such a run the line-ups stay in order. -/
theorem ReachableWith.inOrder {escapes : HbmError → Prop}
    (reached : ReachableWith cfg (Meets cfg) escapes s) : InOrder s := by
  induction reached with
  | create created =>
      obtain ⟨-, -, rfl⟩ := create_ok.mp created
      exact ⟨fun _ w => by cases w <;> exact List.pairwise_singleton _ _⟩
  | perform action reached met performed ih =>
      have kept := perform_order fifo solo reached.reachable action met
      rw [performed] at kept
      exact kept.keeps ih
  | escape action reached met performed escaped ih =>
      have kept := perform_order fifo solo reached.reachable action met
      rw [performed] at kept
      exact kept.keeps ih

end

end HbmSystem

/-- The data commands of each queue have issued in the order of the sequence numbers, and none
before a command for an access that is still queued. -/
structure FirstInFirstOut (c : HbmController) : Prop where
  order : ∀ w, (c.issuedFrom w).Pairwise (· > ·)
  older : ∀ w, ∀ n ∈ c.issuedFrom w, ∀ a ∈ c.queue w, n < a.sequence

/-- Under the FIFO scheduler and without merging, data commands issue in order in every run in
which no data command goes first that is not the one of the oldest access of its queue. -/
theorem fifo_in_order {cfg : HbmConfig} (fifo : cfg.controller.scheduler = .fifo)
    (solo : cfg.controller.requestMergePolicy = .none) {escapes : HbmError → Prop}
    {s : HbmSystem} (reached : ReachableWith cfg (Meets cfg) escapes s) (channel : Nat) :
    FirstInFirstOut (s.controllers channel) := by
  have ordered := reached.inOrder fifo solo
  refine ⟨ordered.issued channel, fun w n issued a queued => ?_⟩
  have line := (List.pairwise_cons.mp (ordered.lineup channel w)).2
  have apart := (List.pairwise_append.mp line).2.2
  exact apart a.sequence (List.mem_reverse.mpr (List.mem_map_of_mem queued)) n issued

/-! ### A row hit that overtakes -/

/-- HBM2 with the FIFO scheduler. -/
def HbmConfig.fifo : HbmConfig :=
  { hbm2_2000 with controller := { scheduler := .fifo } }

/-- The oldest access of the queue the next event serves needs no precharge. -/
def needsNoPrecharge (cfg : HbmConfig) (s : HbmSystem) : Bool :=
  match s.scheduler.events with
  | [] => true
  | event :: _ =>
      match event.callback with
      | .wake channel at_ =>
          let config := cfg.channelConfig channel
          let c := (s.controllers channel).clearWakeup at_
          ((c.queue (c.servedSide config))[0]?).all fun a =>
            match HbmController.plannedCommand config c a with
            | .ok .preBank => false
            | _ => true
      | _ => true

/-- Where no access needs a precharge nothing overtakes. -/
theorem orderly_of_needsNoPrecharge {cfg : HbmConfig} {s : HbmSystem}
    (h : needsNoPrecharge cfg s = true) : Orderly cfg s := by
  rintro event rest channel at_ next callback ⟨a, b, w, index, overtaking⟩
  unfold needsNoPrecharge at h
  rw [next] at h
  dsimp only at h
  rw [callback] at h
  dsimp only at h
  rw [overtaking.oldest, Option.all_some, overtaking.precharge] at h
  cases h

/-- Two reads of two banks. -/
theorem fifo_in_order_reads : ∃ s, FirstInFirstOut (HbmSystem.controllers s 0) ∧
    (s.controllers 0).issuedFrom false = [1, 0] := by
  let check : HbmSystem → Action → Bool := fun s _ => needsNoPrecharge .fifo s
  have checks : ∀ s action, Reachable .fifo NoEscape s → check s action = true →
      Meets .fifo s action := fun s action _ met _ _ => orderly_of_needsNoPrecharge met
  obtain ⟨s, reached, final⟩ := exists_reachableWith .fifo NoEscape check checks
    (submit (.read 1 0 32) :: submit (.read 2 32 32) :: dispatches 8)
    (fun s => decide ((s.controllers 0).issuedFrom false = [1, 0]))
    (by decide) (by decide) (by decide +kernel)
  exact ⟨s, fifo_in_order rfl rfl reached 0, of_decide_eq_true final⟩

/-- A row is open long enough to be closed when a read of another row arrives, and after it a
read of the open row: the younger read goes first. -/
theorem fifo_overtaken : ¬ ∀ (cfg : HbmConfig) (s : HbmSystem),
    cfg.controller.scheduler = .fifo → cfg.controller.requestMergePolicy = .none →
      Reachable cfg NoEscape s → ∀ channel, FirstInFirstOut (s.controllers channel) := by
  intro claim
  obtain ⟨s, reached, final⟩ := exists_reachable .fifo NoEscape
    (submit (.read 1 0 32) :: dispatches 8 ++
      [.advance 200000, submit (.read 2 65536 32), submit (.read 3 0 32)] ++ dispatches 8)
    (fun s => decide ((s.controllers 0).issuedFrom false = [1, 2, 0]))
    (by decide) (by decide) (by decide +kernel)
  have order := (claim .fifo s rfl rfl reached 0).order false
  rw [of_decide_eq_true final] at order
  exact absurd order (by decide)

end HbmSim
