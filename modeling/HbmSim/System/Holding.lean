import HbmSim.System.Footprint

/-!
What the calls of a system hold on to.

Nothing but `drive` takes an access out of a queue, and nothing but the dispatch of an event
takes the event off the scheduler: every other function leaves what is queued queued and
what is scheduled scheduled, also when it throws.
-/

namespace HbmSim

open HbmSim.Lib

namespace HbmController

/-- What was queued is still queued. -/
structure Holds (s t : ControllerState) : Prop where
  queue : ∀ w, ∀ a ∈ s.ctl.queue w, a ∈ t.ctl.queue w

instance : Std.Refl Holds := ⟨fun _ => ⟨fun _ _ => id⟩⟩

instance : IsTrans ControllerState Holds :=
  ⟨fun _ _ _ h h' => ⟨fun w a ha => h'.queue w a (h.queue w a ha)⟩⟩

theorem Holds.of_same {s t : ControllerState} (reads : t.ctl.readQueue = s.ctl.readQueue)
    (writes : t.ctl.writeQueue = s.ctl.writeQueue) : Holds s t where
  queue w a ha := by
    unfold HbmController.queue at ha ⊢
    rwa [reads, writes]

variable {config : HbmControllerConfig} {mapper : HbmAddressMapper}

theorem footprint_holds : Footprint config Holds where
  members reads writes _ := .of_same reads writes
  record _ _ _ := .of_same rfl rfl

theorem pushReserved_holds (access : HbmAccess) : Stays Holds (pushReserved config access) := by
  have counted : Stays Holds (modify fun s : ControllerState =>
      { s with stats := s.stats.modifyQueue config.channel fun q =>
          { q with
            maxReadDepth := max q.maxReadDepth s.ctl.readQueue.length
            maxWriteDepth := max q.maxWriteDepth s.ctl.writeQueue.length } } : ControllerM PUnit) :=
    .modify fun _ => .of_same rfl rfl
  have reads : ∀ s : ControllerState, Holds s (s.modifyCtl fun c =>
      { c with
        reservedReads := c.reservedReads - 1
        readQueue := c.readQueue ++ [access]
        outstandingAccesses := c.outstandingAccesses + 1 }) := by
    refine fun s => ⟨fun w a ha => ?_⟩
    cases w with
    | true => exact ha
    | false => exact List.mem_append_left _ ha
  have writes : ∀ s : ControllerState, Holds s (s.modifyCtl fun c =>
      { c with
        reservedWrites := c.reservedWrites - 1
        writeQueue := c.writeQueue ++ [access]
        outstandingAccesses := c.outstandingAccesses + 1 }) := by
    refine fun s => ⟨fun w a ha => ?_⟩
    cases w with
    | true => exact List.mem_append_left _ ha
    | false => exact ha
  unfold pushReserved
  refine .bind .get fun s => ?_
  refine .ite (fun _ => ?_) fun _ => ?_
  · refine .ite (fun _ => .bind (.throw _) fun _ => ?_) fun _ => ?_
    all_goals exact .bind (.modify reads) fun _ => counted
  · refine .ite (fun _ => .bind (.throw _) fun _ => ?_) fun _ => ?_
    all_goals exact .bind (.modify writes) fun _ => counted

theorem admitReserved_holds (access : HbmAccess) (now : Nat) :
    Stays Holds (admitReserved config mapper access now) := by
  unfold admitReserved
  exact .bind (footprint_holds.prepareRefreshForArrival now) fun _ => pushReserved_holds _

end HbmController

namespace HbmSystem

/-- What was queued is still queued, and what was scheduled is still scheduled. -/
structure Holds (s t : HbmSystem) : Prop where
  queue : ∀ ch w, ∀ a ∈ (s.controllers ch).queue w, a ∈ (t.controllers ch).queue w
  events : ∀ e ∈ s.scheduler.events, e ∈ t.scheduler.events

instance : Std.Refl Holds := ⟨fun _ => ⟨fun _ _ _ => id, fun _ => id⟩⟩

instance : IsTrans HbmSystem Holds :=
  ⟨fun _ _ _ h h' => ⟨fun ch w a ha => h'.queue ch w a (h.queue ch w a ha),
    fun e he => h'.events e (h.events e he)⟩⟩

theorem Holds.of_same {s t : HbmSystem} (controllers : t.controllers = s.controllers)
    (scheduler : t.scheduler = s.scheduler) : Holds s t :=
  ⟨fun _ _ _ => by rw [controllers]; exact id, fun _ => by rw [scheduler]; exact id⟩

variable {cfg : HbmConfig}

/-- What a controller holds on to, the system does. -/
theorem Holds.lift {s : HbmSystem} {channel : Nat} {t : ControllerState}
    (held : HbmController.Holds ⟨s.controllers channel, s.stats⟩ t) :
    Holds s { s.setController channel t.ctl with stats := t.stats } := by
  refine ⟨fun ch w a ha => ?_, fun _ => id⟩
  show a ∈ (if ch = channel then t.ctl else s.controllers ch).queue w
  split
  · subst ch
    exact held.queue w a ha
  · exact ha

/-! ### Events -/

/-- Inserting an event keeps the others. -/
theorem emplaceEvent_mem {e f : Event EventCallback} {events : List (Event EventCallback)}
    (h : e ∈ events) : e ∈ emplaceEvent f events :=
  (emplaceEvent_perm f events).mem_iff.mpr (List.mem_cons_of_mem _ h)

/-- Scheduling keeps the pending events. -/
theorem scheduleAt_mem {queue after : EventQueue EventCallback} {at_ token : Nat}
    {callback : EventCallback} (run : queue.scheduleAt at_ callback = .ok (token, after)) :
    ∀ e ∈ queue.events, e ∈ after.events := by
  unfold EventQueue.scheduleAt at run
  split at run
  · cases run
  · cases run
    exact fun e he => emplaceEvent_mem he

theorem scheduleEvent_holds (at_ : Nat) (callback : EventCallback) :
    Stays Holds (scheduleEvent at_ callback) := by
  unfold scheduleEvent
  refine .getBind fun s => ?_
  cases run : s.scheduler.scheduleAt at_ callback with
  | error e => exact Std.Refl.refl s
  | ok pair => exact ⟨fun _ _ _ => id, scheduleAt_mem run⟩

/-! ### Admission -/

theorem admitAccess_holds (parent : ParentRequest) (access : HbmAccess) :
    Stays Holds (admitAccess cfg parent access) := by
  unfold admitAccess
  refine .bind (onController_stays Holds.lift (HbmController.footprint_holds.reserve _ _))
    fun _ => ?_
  refine .getBind fun s => Stays.setBind (.of_same rfl rfl) ?_
  exact onController_stays Holds.lift (HbmController.admitReserved_holds _ _)

theorem scheduleClient_holds (s : HbmSystem) (at_ tag : Nat) :
    Holds s (s.scheduleClient at_ tag) := by
  unfold scheduleClient
  split
  · rename_i run
    exact ⟨fun _ _ _ => id, scheduleAt_mem run⟩
  · exact Std.Refl.refl s

/-- Every function but `drive` holds on to what is queued and scheduled. -/
theorem footprint_holds : Footprint cfg Holds :=
  .of_controllers (fun _ => HbmController.footprint_holds) Holds.lift
    (fun scheduler controllers _ _ => .of_same controllers scheduler) scheduleEvent_holds
    scheduleClient_holds admitAccess_holds

end HbmSystem

end HbmSim
