import HbmSim.Controller.Footprint
import HbmSim.System.System

/-!
What the functions of a system do to the scheduler and the controllers.

They reach the scheduler and the controllers through a few calls only. A relation that these
calls stay within, and that speaks about nothing else, is one that every function stays
within, also when it throws.
-/

namespace HbmSim

open HbmSim.Lib

/-- The observation is one of those that a submission makes. -/
def Observation.ofSubmission : Observation → Bool
  | .accepted .. => true
  | .returned .. => true
  | _ => false

namespace HbmSystem

section

variable {cfg : HbmConfig} {R : HbmSystem → HbmSystem → Prop} [Std.Refl R]
  {P : ControllerState → ControllerState → Prop} {channel : Nat} {α : Type} {op : ControllerM α}

/-- A call on a controller stays within a relation if what it does to the controller does. -/
theorem onController_from {s : HbmSystem}
    (lift : ∀ {t : ControllerState}, P ⟨s.controllers channel, s.stats⟩ t →
      R s { s.setController channel t.ctl with stats := t.stats })
    (h : P ⟨s.controllers channel, s.stats⟩ (exitState (op ⟨s.controllers channel, s.stats⟩))) :
    R s (exitState (onController cfg channel op s)) := by
  unfold onController
  split
  · cases run : op ⟨s.controllers channel, s.stats⟩ with
    | ok a t =>
        rw [run] at h
        exact lift h
    | error e t =>
        rw [run] at h
        exact lift h
  · exact Std.Refl.refl s

theorem onController_stays
    (lift : ∀ {s : HbmSystem} {t : ControllerState}, P ⟨s.controllers channel, s.stats⟩ t →
      R s { s.setController channel t.ctl with stats := t.stats }) (h : Stays P op) :
    Stays R (onController cfg channel op) :=
  fun _ => onController_from lift (h _)

end

/-- The calls that admit accesses preserve an invariant, and the members that no such call
reaches are free. -/
structure Admitting (cfg : HbmConfig) (I : HbmSystem → Prop) (E : HbmError → HbmSystem → Prop) :
    Prop where
  throws : ∀ e s, I s → E e s
  members : ∀ {s t}, t.scheduler = s.scheduler → t.controllers = s.controllers →
    t.pendingEvents = s.pendingEvents → t.nextAccessSequence = s.nextAccessSequence →
      t.trace = s.trace → I s → I t
  wake : ∀ channel at_, Preserves I E (scheduleControllerWake cfg channel at_)
  refreshDue : ∀ channel, Preserves I E (scheduleRefreshDue cfg channel)
  enqueue : ∀ parent access, Preserves I E (admitAccess cfg parent access)

namespace Admitting

variable {cfg : HbmConfig} {I : HbmSystem → Prop} {E : HbmError → HbmSystem → Prop}

/-- A call that only reads a controller. -/
theorem reads {α : Type} (h : Admitting cfg I E) (channel : Nat) (f : ControllerState → α) :
    Preserves I E (onController cfg channel do return f (← get)) := by
  intro s holds
  by_cases within : channel < cfg.channelCount
  · unfold onController Exits
    simp only [if_pos within]
    refine h.members (s := s) rfl (funext fun ch => ?_) rfl rfl rfl holds
    show (if ch = channel then s.controllers channel else s.controllers ch) = s.controllers ch
    split
    · subst ch
      rfl
    · rfl
  · unfold onController Exits
    simp only [if_neg within]
    exact h.throws _ s holds

/-! ### Admission -/

/-- A parent's accesses are admitted one by one. -/
theorem admitParent (h : Admitting cfg I E) (id rounds : Nat) (touched : List Nat) :
    Preserves I E (HbmSystem.admitParent cfg id rounds touched) := by
  induction rounds generalizing touched with
  | zero =>
      unfold HbmSystem.admitParent
      refine .bind .get fun s => ?_
      cases s.findParent id with
      | none => exact .throw h.throws _
      | some parent => exact .ite (fun _ => .throw h.throws _) fun _ => .pure _
  | succ rounds ih =>
      unfold HbmSystem.admitParent
      refine .bind .get fun s => ?_
      cases s.findParent id with
      | none => exact .throw h.throws _
      | some parent =>
          refine .ite (fun _ => ?_) fun _ => .pure _
          refine .bind (.ofExcept h.throws _) fun access => ?_
          refine .bind (h.reads _ _) fun free => ?_
          refine .ite (fun _ => .pure _) fun _ => ?_
          exact .bind (h.enqueue _ _) fun _ => ih _

/-- The pending parents are served one by one. -/
theorem admitPending (h : Admitting cfg I E) (pending touched : List Nat) :
    Preserves I E (HbmSystem.admitPending cfg pending touched) := by
  induction pending generalizing touched with
  | nil => exact .pure _
  | cons id rest ih =>
      unfold HbmSystem.admitPending
      refine .bind .get fun s => ?_
      refine .bind (h.admitParent _ _ _) fun touched => ?_
      refine .bind (.modify fun s => ?_) fun _ => ih _
      split
      · split <;> exact h.members rfl rfl rfl rfl rfl
      · exact h.members rfl rfl rfl rfl rfl

/-- The touched channels are woken one by one. -/
theorem wakeTouched (h : Admitting cfg I E) (touched channels : List Nat) :
    Preserves I E (HbmSystem.wakeTouched cfg touched channels) := by
  induction channels with
  | nil => exact .pure _
  | cons channel rest ih =>
      unfold HbmSystem.wakeTouched
      refine .ite (fun _ => ?_) fun _ => ih
      refine .bind (h.refreshDue _) fun _ => ?_
      refine .bind .get fun s => ?_
      exact .bind (h.wake _ _) fun _ => ih

/-- Pumping keeps what its parts keep. -/
theorem pumpAdmissions (h : Admitting cfg I E) :
    Preserves I E (HbmSystem.pumpAdmissions cfg) := by
  unfold HbmSystem.pumpAdmissions
  refine .bind .get fun s => ?_
  exact .bind (h.admitPending _ _) fun _ => h.wakeTouched _ _

end Admitting

/-- A submission and its answer, as a client makes it. -/
def submission (cfg : HbmConfig) (tx : HbmTransaction) : SystemM PUnit := do
  let result ← trySubmitNow cfg tx
  modify fun s => s.observe (.returned result s.systemEvents.length s.now)

/-- The calls of a system that reach the scheduler or a controller preserve an invariant, and so
do the submissions of its clients and whatever else is observed. Driving a controller and
handling its refresh events are left out. -/
structure Serving (cfg : HbmConfig) (I : HbmSystem → Prop) (E : HbmError → HbmSystem → Prop) :
    Prop extends Admitting cfg I E where
  observe : ∀ s o, o.ofSubmission = false → I s → I (s.observe o)
  event : ∀ at_ callback, callback.isSystem = true → Preserves I E (scheduleEvent at_ callback)
  client : ∀ s at_ tag, I s → I (s.scheduleClient at_ tag)
  complete : ∀ channel access, Preserves I E (onController cfg channel
    (HbmController.completeAccess (cfg.channelConfig channel) access))
  submits : ∀ tx, Preserves I E (submission cfg tx)

namespace Serving

variable {cfg : HbmConfig} {I : HbmSystem → Prop} {E : HbmError → HbmSystem → Prop}

/-! ### Calls of the client -/

/-- The client's calls keep what each call keeps. -/
theorem runClient (h : Serving cfg I E) (calls : List ClientCall) :
    Preserves I E (HbmSystem.runClient cfg calls) := by
  induction calls with
  | nil => exact .pure _
  | cons call rest ih =>
      unfold HbmSystem.runClient
      cases call with
      | trySubmitNow tx =>
          dsimp only
          rw [← bind_assoc]
          exact .bind (h.submits tx) fun _ => ih
      | setCompletionCallback present =>
          exact .bind (.modify fun _ => h.members rfl rfl rfl rfl rfl) fun _ => ih
      | setCapacityCallback present =>
          exact .bind (.modify fun _ => h.members rfl rfl rfl rfl rfl) fun _ => ih
      | scheduleAt at_ tag => exact .bind (.modify fun s => h.client s _ _) fun _ => ih

/-- So does the client's reaction. -/
theorem invokeClient (h : Serving cfg I E) : Preserves I E (HbmSystem.invokeClient cfg) := by
  unfold HbmSystem.invokeClient
  exact .bind (.modifyGet fun _ => h.members rfl rfl rfl rfl rfl) fun _ => h.runClient _

/-- So does the notification of capacity. -/
theorem notifyCapacity (h : Serving cfg I E) (channel at_ : Nat) :
    Preserves I E (HbmSystem.notifyCapacity cfg channel at_) := by
  unfold HbmSystem.notifyCapacity
  refine .bind .get fun s => ?_
  refine .ite (fun _ => ?_) fun _ => .pure _
  exact .bind (.modify fun s => h.observe s _ rfl) fun _ => h.invokeClient

/-! ### Completion -/

/-- A parent that is complete is reported and retired. -/
theorem completeParent (h : Serving cfg I E) (id : Nat) :
    Preserves I E (HbmSystem.completeParent cfg id) := by
  unfold HbmSystem.completeParent
  refine .bind .get fun s => ?_
  cases s.findParent id with
  | none => exact .throw h.throws _
  | some request =>
      refine .bind (.modify fun s holds => ?_) fun _ => .bind .get fun t => ?_
      · let o : Observation := .completed request.ticket (completionOf request) s.now
        exact h.members (s := s.observe o) rfl rfl rfl rfl rfl (h.observe s o rfl holds)
      refine .ite (fun _ => .bind h.invokeClient fun _ => ?_) fun _ => ?_
      all_goals exact .bind .get fun _ => h.notifyCapacity _ _

/-- A finished access is credited, and may complete its parent. -/
theorem finishAccess (h : Serving cfg I E) (access : LogicalCompletion)
    (channel completionTime : Nat) :
    Preserves I E (HbmSystem.finishAccess cfg access channel completionTime) := by
  unfold HbmSystem.finishAccess
  refine .bind (h.complete _ _) fun _ => ?_
  refine .bind .get fun s => ?_
  cases s.findParent access.parentId with
  | none => exact .throw h.throws _
  | some request =>
      refine .ite (fun _ => .bind (.throw h.throws _) fun _ => ?_) fun _ => ?_
      all_goals
        refine .bind (.modify fun s holds => ?_) fun _ => ?_
        · exact h.observe _ _ rfl (h.members (s := s) rfl rfl rfl rfl rfl holds)
        · exact .ite (fun _ => h.completeParent _) fun _ => .pure _

/-- The accesses of a transfer are finished one by one. -/
theorem finishAccesses (h : Serving cfg I E) (channel completionTime : Nat)
    (accesses : List LogicalCompletion) :
    Preserves I E (HbmSystem.finishAccesses cfg channel completionTime accesses) := by
  induction accesses with
  | nil => exact .pure _
  | cons access rest ih => exact .bind (h.finishAccess _ _ _) fun _ => ih

/-! ### Dispatch -/

/-- The events that neither drive a controller nor handle its refresh. -/
theorem otherCallback (h : Serving cfg I E) {callback : EventCallback}
    (drives : ∀ channel at_, callback ≠ .wake channel at_)
    (refreshes : ∀ channel due, callback ≠ .refreshDue channel due) :
    Preserves I E (HbmSystem.runCallback cfg callback) := by
  cases callback with
  | wake channel at_ => exact absurd rfl (drives channel at_)
  | refreshDue channel due => exact absurd rfl (refreshes channel due)
  | accessDone channel issued => exact h.finishAccesses _ _ _
  | capacity channel at_ => exact h.notifyCapacity _ _
  | client tag => exact h.invokeClient

/-- What follows the step of a driven controller. -/
theorem driven (h : Serving cfg I E) (channel : Nat) (step : HbmControllerStep) :
    Preserves I E (do
      match step.issuedAccess with
      | none => Pure.pure ()
      | some issued =>
          HbmSystem.pumpAdmissions cfg
          scheduleEvent issued.completionTime (.accessDone channel issued)
          if (← get).capacityCallback then
            scheduleEvent (← get).now (.capacity channel (← get).now)
      match step.wakeAt with
      | none => return ()
      | some at_ => scheduleControllerWake cfg channel at_ : SystemM Unit) := by
  have next : ∀ (wakeAt : Option Nat) {body : SystemM Unit},
      body = wakeAt.elim (return ()) (scheduleControllerWake cfg channel) → Preserves I E body := by
    rintro wakeAt _ rfl
    cases wakeAt with
    | none => exact .pure _
    | some at_ => exact h.wake _ _
  cases step.issuedAccess with
  | none => exact next step.wakeAt (by cases step.wakeAt <;> rfl)
  | some issued =>
      refine Preserves.bind h.toAdmitting.pumpAdmissions fun _ => .bind (h.event _ _ rfl)
        fun _ => ?_
      refine .bind .get fun s => .ite (fun _ => ?_) fun _ => ?_
      · refine .bind .get fun _ => .bind .get fun _ => .bind (h.event _ _ rfl) fun _ => ?_
        exact next step.wakeAt (by cases step.wakeAt <;> rfl)
      · exact next step.wakeAt (by cases step.wakeAt <;> rfl)

end Serving

/-- The calls of a system that reach the scheduler or a controller preserve an invariant, and
whatever is observed does. -/
structure Preserving (cfg : HbmConfig) (I : HbmSystem → Prop) (E : HbmError → HbmSystem → Prop) :
    Prop extends Admitting cfg I E where
  observe : ∀ s o, I s → I (s.observe o)
  event : ∀ at_ callback, callback.isSystem = true → Preserves I E (scheduleEvent at_ callback)
  client : ∀ s at_ tag, I s → I (s.scheduleClient at_ tag)
  complete : ∀ channel access, Preserves I E (onController cfg channel
    (HbmController.completeAccess (cfg.channelConfig channel) access))

namespace Preserving

variable {cfg : HbmConfig} {I : HbmSystem → Prop} {E : HbmError → HbmSystem → Prop}

/-- A submission keeps what its parts keep. -/
theorem trySubmitNow (h : Preserving cfg I E) (tx : HbmTransaction) :
    Preserves I E (HbmSystem.trySubmitNow cfg tx) := by
  unfold HbmSystem.trySubmitNow
  refine .bind .get fun s => ?_
  refine .ite (fun _ => .pure _) fun _ => ?_
  refine .ite (fun _ => .pure _) fun _ => ?_
  refine .ite (fun _ => .pure _) fun _ => ?_
  refine .ite (fun _ => .pure _) fun _ => ?_
  refine .bind (.ofExcept h.throws _) fun first => ?_
  have rejected : ∀ channel : Nat, Preserves I E (do
      modify fun s => s.countRejection channel
      return ⟨.backpressure, 0, "admission capacity exceeded"⟩ : SystemM SubmitResult) :=
    fun _ => .bind (.modify fun _ => h.members rfl rfl rfl rfl rfl) fun _ => .pure _
  refine .ite (fun _ => rejected _) fun _ => ?_
  refine .bind (h.toAdmitting.reads _ _) fun free => ?_
  refine .ite (fun _ => rejected _) fun _ => ?_
  refine .bind (.modify fun s holds => ?_) fun _ => ?_
  · let o : Observation := .accepted s.nextTicket tx s.now
    exact h.members (s := s.observe o) rfl rfl rfl rfl rfl (h.observe s o holds)
  exact .bind h.toAdmitting.pumpAdmissions fun _ => .pure _

/-- What is preserved whatever is observed is preserved by the submissions. -/
theorem serving (h : Preserving cfg I E) : Serving cfg I E where
  toAdmitting := h.toAdmitting
  observe s o _ := h.observe s o
  event := h.event
  client := h.client
  complete := h.complete
  submits tx := .bind (h.trySubmitNow tx) fun _ => .modify fun s => h.observe s _

end Preserving

/-- The calls of a system that reach the scheduler or a controller stay within a relation,
and the rest of the system is free. Only driving a controller is left out. -/
structure Footprint (cfg : HbmConfig) (R : HbmSystem → HbmSystem → Prop) : Prop where
  members : ∀ {s t}, t.scheduler = s.scheduler → t.controllers = s.controllers →
    t.pendingEvents = s.pendingEvents → t.nextAccessSequence = s.nextAccessSequence → R s t
  event : ∀ at_ callback, callback.isSystem = true → Stays R (scheduleEvent at_ callback)
  wake : ∀ channel at_, Stays R (scheduleControllerWake cfg channel at_)
  refreshDue : ∀ channel, Stays R (scheduleRefreshDue cfg channel)
  client : ∀ s at_ tag, R s (s.scheduleClient at_ tag)
  enqueue : ∀ parent access, Stays R (admitAccess cfg parent access)
  complete : ∀ channel access, Stays R (onController cfg channel
    (HbmController.completeAccess (cfg.channelConfig channel) access))
  refresh : ∀ channel due, Stays R (onController cfg channel
    (HbmController.handleRefreshEvent (cfg.channelConfig channel) cfg.mapper due))

namespace Footprint

variable {cfg : HbmConfig} {R : HbmSystem → HbmSystem → Prop} [Std.Refl R] [IsTrans HbmSystem R]

omit [Std.Refl R] in
/-- What is related to one state is preserved. -/
theorem preserving (h : Footprint cfg R) (s : HbmSystem) :
    Preserving cfg (R s) fun _ => R s where
  throws _ _ := id
  members scheduler controllers events next _ related :=
    IsTrans.trans _ _ _ related (h.members scheduler controllers events next)
  observe _ _ related := IsTrans.trans _ _ _ related (h.members rfl rfl rfl rfl)
  event at_ callback system := (h.event at_ callback system).preserves s
  wake channel at_ := (h.wake channel at_).preserves s
  refreshDue channel := (h.refreshDue channel).preserves s
  client t at_ tag related := IsTrans.trans _ _ _ related (h.client t at_ tag)
  enqueue parent access := (h.enqueue parent access).preserves s
  complete channel access := (h.complete channel access).preserves s

theorem pumpAdmissions (h : Footprint cfg R) : Stays R (HbmSystem.pumpAdmissions cfg) :=
  .of_preserves fun s => (h.preserving s).toAdmitting.pumpAdmissions

theorem runClient (h : Footprint cfg R) (calls : List ClientCall) :
    Stays R (HbmSystem.runClient cfg calls) :=
  .of_preserves fun s => (h.preserving s).serving.runClient calls

/-- The events that drive no controller. -/
theorem runCallback (h : Footprint cfg R) {callback : EventCallback}
    (other : ∀ channel at_, callback ≠ .wake channel at_) :
    Stays R (HbmSystem.runCallback cfg callback) := by
  by_cases refreshes : ∃ channel due, callback = .refreshDue channel due
  · obtain ⟨channel, due, rfl⟩ := refreshes
    refine .bind (h.refresh _ _) fun _ => ?_
    refine .bind (h.wake _ _) fun _ => ?_
    refine .bind .get fun s => ?_
    exact .ite (fun _ => h.refreshDue _) fun _ => .pure _
  · exact .of_preserves fun s => (h.preserving s).serving.otherCallback other
      fun channel due same => refreshes ⟨channel, due, same⟩

/-- Driving a controller, if its step stays within the relation from the state given. -/
theorem driveController (h : Footprint cfg R) {channel : Nat} {s : HbmSystem}
    (drives : R s (exitState (driveStep cfg channel s))) :
    R s (exitState (HbmSystem.driveController cfg channel s)) := by
  unfold HbmSystem.driveController
  exact Stays.bind_from drives fun step t _ =>
    Stays.of_preserves (fun s => (h.preserving s).serving.driven channel step) t

/-- The event that drives a controller, if driving one stays within the relation too. -/
theorem wakeCallback (h : Footprint cfg R) {channel : Nat} (at_ : Nat)
    (clear : Stays R (onController cfg channel
      (modify fun s => s.modifyCtl (·.clearWakeup at_) : ControllerM PUnit)))
    (drives : Stays R (driveStep cfg channel)) :
    Stays R (HbmSystem.runCallback cfg (.wake channel at_)) := by
  unfold HbmSystem.runCallback
  exact .bind clear fun _ t => h.driveController (drives t)

/-- A footprint from one of the controllers, if what a controller does to itself stays within
the relation. -/
theorem of_controllers {P : ControllerState → ControllerState → Prop} [Std.Refl P]
    [IsTrans ControllerState P]
    (controllers : ∀ channel, HbmController.Footprint (cfg.channelConfig channel) P)
    (lift : ∀ {s : HbmSystem} {channel : Nat} {t : ControllerState},
      P ⟨s.controllers channel, s.stats⟩ t →
        R s { s.setController channel t.ctl with stats := t.stats })
    (members : ∀ {s t : HbmSystem}, t.scheduler = s.scheduler → t.controllers = s.controllers →
      t.pendingEvents = s.pendingEvents → t.nextAccessSequence = s.nextAccessSequence → R s t)
    (event : ∀ at_ callback, Stays R (scheduleEvent at_ callback))
    (client : ∀ s at_ tag, R s (s.scheduleClient at_ tag))
    (enqueue : ∀ parent access, Stays R (admitAccess cfg parent access)) : Footprint cfg R where
  members := members
  event at_ callback _ := event at_ callback
  wake channel at_ := by
    unfold scheduleControllerWake
    refine .bind .get fun s => ?_
    refine .bind (onController_stays lift ((controllers channel).markWakeup _)) fun needed => ?_
    exact .ite (fun _ => event _ _) fun _ => .pure _
  refreshDue channel := by
    unfold scheduleRefreshDue
    refine .bind (onController_stays lift (controllers channel).claimRefreshEvent) fun due => ?_
    cases due with
    | none => exact .pure _
    | some due => exact event _ _
  client := client
  enqueue := enqueue
  complete channel access := onController_stays lift ((controllers channel).completeAccess access)
  refresh channel due := onController_stays lift ((controllers channel).handleRefreshEvent due)

end Footprint

/-! ### The trace -/

section

variable {cfg : HbmConfig} {J : List Observation → Prop} {E : HbmError → HbmSystem → Prop}

/-- A controller observes nothing of the system. -/
theorem onController_trace (throws : ∀ e s, J s.trace → E e s) {α : Type} (channel : Nat)
    (op : ControllerM α) : Preserves (fun s => J s.trace) E (onController cfg channel op) := by
  intro s holds
  unfold onController Exits
  by_cases within : channel < cfg.channelCount
  · simp only [if_pos within]
    cases op ⟨s.controllers channel, s.stats⟩ with
    | ok a t => exact holds
    | error e t => exact throws e _ holds
  · simp only [if_neg within]
    exact throws _ s holds

/-- Scheduling observes nothing. -/
theorem scheduleEvent_trace (throws : ∀ e s, J s.trace → E e s) (at_ : Nat)
    (callback : EventCallback) :
    Preserves (fun s => J s.trace) E (scheduleEvent at_ callback) := by
  unfold scheduleEvent
  refine .bind .get fun s => ?_
  exact .bind (.ofExcept throws _) fun _ => .modify fun _ holds => holds

/-- Nor does the client's scheduling. -/
theorem scheduleClient_trace (s : HbmSystem) (at_ tag : Nat) :
    (s.scheduleClient at_ tag).trace = s.trace := by
  unfold scheduleClient
  split <;> rfl

/-- What a trace keeps when accesses are admitted is preserved by admitting them. -/
theorem admitting_of_trace (throws : ∀ e s, J s.trace → E e s)
    (admitted : ∀ ticket channel access at_ trace,
      J trace → J (.admitted ticket channel access at_ :: trace)) :
    Admitting cfg (fun s => J s.trace) E where
  throws := throws
  members _ _ _ _ trace holds := by
    rw [trace]
    exact holds
  wake channel at_ := by
    unfold scheduleControllerWake
    refine .bind .get fun s => .bind (onController_trace throws _ _) fun needed => ?_
    exact .ite (fun _ => scheduleEvent_trace throws _ _) fun _ => .pure _
  refreshDue channel := by
    unfold scheduleRefreshDue
    refine .bind (onController_trace throws _ _) fun due => ?_
    cases due with
    | none => exact .pure _
    | some due => exact scheduleEvent_trace throws _ _
  enqueue parent access := by
    unfold admitAccess
    refine .bind (onController_trace throws _ _) fun _ s holds => ?_
    exact onController_trace throws _ _ _ (admitted _ _ _ _ _ holds)

/-- What a trace keeps whatever is observed is preserved by the calls of a system. -/
theorem preserving_of_trace (throws : ∀ e s, J s.trace → E e s)
    (kept : ∀ o trace, J trace → J (o :: trace)) : Preserving cfg (fun s => J s.trace) E where
  toAdmitting := admitting_of_trace throws fun _ _ _ _ _ => kept _ _
  observe s o := kept o s.trace
  event at_ callback _ := scheduleEvent_trace throws at_ callback
  client s at_ tag holds := (scheduleClient_trace s at_ tag).symm ▸ holds
  complete channel _ := onController_trace throws channel _

/-- So is what a trace keeps when a client submits and when anything else is observed. -/
theorem serving_of_trace (throws : ∀ e s, J s.trace → E e s)
    (kept : ∀ o trace, o.ofSubmission = false → J trace → J (o :: trace))
    (submits : ∀ tx, Preserves (fun s => J s.trace) E (submission cfg tx)) :
    Serving cfg (fun s => J s.trace) E where
  toAdmitting := admitting_of_trace throws fun _ _ _ _ _ => kept _ _ rfl
  observe s o := kept o s.trace
  event at_ callback _ := scheduleEvent_trace throws at_ callback
  client s at_ tag holds := (scheduleClient_trace s at_ tag).symm ▸ holds
  complete channel _ := onController_trace throws channel _
  submits := submits

/-- What the calls of a system preserve of its trace is preserved by its events. -/
theorem runCallback_trace (serves : Serving cfg (fun s => J s.trace) E)
    (callback : EventCallback) : Preserves (fun s => J s.trace) E (runCallback cfg callback) := by
  have calls {α : Type} := @onController_trace cfg J E serves.throws α
  cases callback with
  | wake channel at_ =>
      refine .bind (calls _ _) fun _ => ?_
      unfold driveController driveStep
      rw [bind_assoc]
      refine .bind .get fun s => ?_
      rw [bind_assoc]
      refine .bind (calls _ _) fun step => ?_
      rw [bind_assoc]
      refine .bind (.modify fun s holds => ?_) fun _ => serves.driven channel step
      unfold observeIssued
      cases step.issuedAccess with
      | none => exact holds
      | some issued => exact serves.observe s _ rfl holds
  | refreshDue channel due =>
      refine .bind (calls _ _) fun _ => .bind (serves.wake _ _) fun _ => .bind .get fun t => ?_
      exact .ite (fun _ => serves.refreshDue _) fun _ => .pure _
  | accessDone channel issued => exact serves.finishAccesses _ _ _
  | capacity channel at_ => exact serves.notifyCapacity _ _
  | client tag => exact serves.invokeClient

/-- What the calls of a system preserve of its trace is preserved by every action. -/
theorem perform_trace (serves : Serving cfg (fun s => J s.trace) E) (action : Action) :
    Preserves (fun s => J s.trace) E (perform cfg action) := by
  cases action with
  | call call => exact serves.runClient [call]
  | advance until_ =>
      intro s holds
      unfold HbmSystem.perform
      simp only [exits_bind, exits_get, exits_ite, exits_set]
      exact ⟨fun _ => holds, fun _ => holds⟩
  | dispatch reactions =>
      refine .bind (.modify fun _ holds => holds) fun _ => ?_
      unfold dispatchOne
      refine .bind .get fun s => ?_
      cases s.scheduler.takeNext with
      | none => exact .pure _
      | some pair => exact .bind (.modify fun _ holds => holds) fun _ => runCallback_trace serves _

/-- What has been observed stays observed. -/
def Grows (s t : HbmSystem) : Prop := s.trace <:+ t.trace

/-- An action adds to the trace. -/
theorem perform_grows (action : Action) : Stays Grows (perform cfg action) := by
  intro s
  have preserving : Preserving cfg (fun t => s.trace <:+ t.trace) fun _ t => s.trace <:+ t.trace :=
    preserving_of_trace (fun _ _ => id) fun o _ longer => longer.trans (List.suffix_cons o _)
  exact (exits_exitState _).mp (perform_trace preserving.serving action s List.suffix_rfl)

end

end HbmSystem

end HbmSim
