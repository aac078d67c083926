import HbmSim.System.Footprint
import HbmSim.System.Checked
import HbmSim.System.Moves
import HbmSim.System.Tidiness

/-!
A memory system as one of the components on a scheduler.

What a function of the system does to the scheduler and to `pending_events_` is a sequence of
`schedule_event`s, with events its client schedules between them. So a run of one system is a
run of an ensemble, in which the ensemble's account of the system is the system's own.
-/

namespace HbmSim

open HbmSim.Lib Relation

/-! ### What a function of the system schedules -/

namespace HbmSystem

/-- One thing a function does to the scheduler and to `pending_events_`, whatever else it
does. -/
inductive Emits (s t : HbmSystem) : Prop
  | silent (scheduler : t.scheduler = s.scheduler) (pending : t.pendingEvents = s.pendingEvents)
  | event {at_ : Nat} {callback : EventCallback} (own : callback.isSystem = true)
      (future : s.scheduler.now ≤ at_) (scheduler : t.scheduler = s.scheduler.emplace at_ callback)
      (pending : t.pendingEvents = s.scheduler.nextToken :: s.pendingEvents)
  | client {at_ tag : Nat} (future : s.scheduler.now ≤ at_)
      (scheduler : t.scheduler = s.scheduler.emplace at_ (.client tag))
      (pending : t.pendingEvents = s.pendingEvents)

abbrev Emissions : HbmSystem → HbmSystem → Prop := ReflTransGen Emits

instance : Std.Refl Emissions := ⟨fun _ => .refl⟩

instance : IsTrans HbmSystem Emissions := ⟨fun _ _ _ => .trans⟩

variable {cfg : HbmConfig}

/-- Nothing was scheduled. -/
theorem Emissions.silent {s t : HbmSystem} (scheduler : t.scheduler = s.scheduler)
    (pending : t.pendingEvents = s.pendingEvents) : Emissions s t :=
  .single (.silent scheduler pending)

theorem onController_emits {α : Type} (channel : Nat) (op : ControllerM α) :
    Stays Emissions (onController cfg channel op) := by
  intro s
  unfold onController
  split
  · cases op ⟨s.controllers channel, s.stats⟩ <;> exact .silent rfl rfl
  · exact .refl

theorem scheduleEvent_emits (at_ : Nat) {callback : EventCallback}
    (own : callback.isSystem = true) : Stays Emissions (scheduleEvent at_ callback) := by
  unfold scheduleEvent EventQueue.scheduleAt
  refine .getBind fun s => ?_
  split
  · exact .refl
  · rename_i future
    exact .single (.event own (Nat.not_lt.mp future) rfl rfl)

theorem footprint_emits : Footprint cfg Emissions where
  members scheduler _ pending _ := .silent scheduler pending
  event at_ callback own := scheduleEvent_emits at_ own
  wake channel at_ := by
    unfold scheduleControllerWake
    refine .bind .get fun s => .bind (onController_emits _ _) fun needed => ?_
    exact .ite (fun _ => scheduleEvent_emits _ rfl) fun _ => .pure _
  refreshDue channel := by
    unfold scheduleRefreshDue
    refine .bind (onController_emits _ _) fun due => ?_
    cases due with
    | none => exact .pure _
    | some due => exact scheduleEvent_emits _ rfl
  client s at_ tag := by
    unfold scheduleClient EventQueue.scheduleAt
    split
    · rename_i run
      split at run
      · cases run
      · rename_i future
        cases run
        exact .single (.client (Nat.not_lt.mp future) rfl rfl)
    · exact .refl
  enqueue parent access := by
    unfold admitAccess
    refine .bind (onController_emits _ _) fun _ => ?_
    exact .getBind fun s => Stays.setBind (.silent rfl rfl) (onController_emits _ _)
  complete channel access := onController_emits _ _
  refresh channel due := onController_emits _ _

/-- The callback of every event is a sequence of emissions. -/
theorem runCallback_emits (callback : EventCallback) :
    Stays Emissions (runCallback cfg callback) := by
  by_cases wakes : ∃ channel at_, callback = .wake channel at_
  · obtain ⟨channel, at_, rfl⟩ := wakes
    refine footprint_emits.wakeCallback at_ (onController_emits _ _) ?_
    unfold driveStep
    refine .bind .get fun s => .bind (onController_emits _ _) fun step => ?_
    refine .bind (.modify fun s => ?_) fun _ => .pure _
    unfold observeIssued
    split <;> exact .silent rfl rfl
  · exact footprint_emits.runCallback fun channel at_ same => wakes ⟨channel, at_, same⟩

/-- With no event there is nothing to dispatch. -/
theorem dispatchOne_nil {s : HbmSystem} (none_left : s.scheduler.events = []) :
    dispatchOne cfg s = .ok () s := by
  unfold dispatchOne EventQueue.takeNext
  rw [get_bind, none_left]
  rfl

theorem dispatchOne_cons {s : HbmSystem} {event : Event EventCallback}
    {rest : List (Event EventCallback)} (next : s.scheduler.events = event :: rest) :
    dispatchOne cfg s = runCallback cfg event.callback (s.pop event rest) := by
  unfold dispatchOne
  rw [get_bind, EventQueue.takeNext_cons next]
  rfl

end HbmSystem

/-! ### The queue a system sees -/

/-- An event as one system sees it: its own, or some event of another component. -/
def Closure.seenBy (id : Nat) : Closure EventCallback → EventCallback
  | .system i _ body => if i = id then body else .client 0
  | .component body => if body.isSystem then .client 0 else body

namespace Ensemble

/-- An ensemble on the reference queue. -/
abbrev OnQueue : Type := Ensemble (EventQueue.simScheduler (Closure EventCallback))

/-- The queue of an ensemble. -/
def queue (w : OnQueue) : EventQueue (Closure EventCallback) :=
  Subtype.val (p := EventQueue.Kept) w.scheduler

/-- The event queue keeps its invariant. -/
theorem queue_kept (w : OnQueue) : w.queue.Kept :=
  Subtype.property (p := EventQueue.Kept) w.scheduler

theorem scheduleAt_queue {w : OnQueue} {at_ : Nat} (callback : Closure EventCallback)
    (future : w.queue.now ≤ at_) :
    (EventQueue.simScheduler (Closure EventCallback)).scheduleAt w.scheduler at_ callback =
      .ok (w.queue.nextToken, ⟨w.queue.emplace at_ callback,
        w.queue_kept.emplace future callback⟩) :=
  dif_neg (Nat.not_lt.mpr future)

/-- A living system of an ensemble is in the state of the model. -/
structure Attached (w : OnQueue) (id : Nat) (s : HbmSystem) : Prop where
  scheduler : s.scheduler = w.queue.map (Closure.seenBy id)
  pending : w.systems id = some s.pendingEvents

section

variable {w : OnQueue} {id : Nat} {s t : HbmSystem} {cfg : HbmConfig}

/-- One event of the system is one step of the ensemble. -/
theorem Attached.emits (h : Attached w id s) (acts : w.phase.acts = true)
    (emits : HbmSystem.Emits s t) :
    ∃ w', ReflTransGen Step w w' ∧ Attached w' id t ∧ w'.phase = w.phase := by
  have clock : w.queue.now = s.scheduler.now := (congrArg EventQueue.now h.scheduler).symm
  have next : w.queue.nextToken = s.scheduler.nextToken :=
    (congrArg EventQueue.nextToken h.scheduler).symm
  cases emits with
  | silent scheduler pending =>
      exact ⟨w, .refl, ⟨scheduler.trans h.scheduler, pending ▸ h.pending⟩, rfl⟩
  | @event at_ callback own future scheduler pending =>
      have step : Step w _ := .scheduleEvent acts h.pending
        (scheduleAt_queue (w.closure id callback) (clock ▸ future))
      refine ⟨_, .single step, ⟨?_, ?_⟩, rfl⟩
      · have seen : (w.closure id callback).seenBy id = callback := if_pos rfl
        have emplaced := w.queue.emplace_map (Closure.seenBy id) at_ (w.closure id callback)
        rw [seen, ← h.scheduler] at emplaced
        exact scheduler.trans emplaced
      · rw [pending, ← next]
        exact (if_pos rfl).trans (congrArg (Option.map (w.queue.nextToken :: ·)) h.pending)
  | @client at_ tag future scheduler pending =>
      have step : Step w _ := .scheduleAt acts
        (scheduleAt_queue (.component (.client tag)) (clock ▸ future))
      refine ⟨_, .single step, ⟨?_, ?_⟩, rfl⟩
      · have emplaced := w.queue.emplace_map (Closure.seenBy id) at_ (.component (.client tag))
        rw [← h.scheduler] at emplaced
        exact scheduler.trans emplaced
      · exact pending ▸ h.pending

/-- Its events are steps of the ensemble. -/
theorem Attached.emissions (h : Attached w id s) (acts : w.phase.acts = true)
    (emissions : HbmSystem.Emissions s t) :
    ∃ w', ReflTransGen Step w w' ∧ Attached w' id t ∧ w'.phase = w.phase := by
  induction emissions with
  | refl => exact ⟨w, .refl, h, rfl⟩
  | tail _ emits ih =>
      obtain ⟨u, before, attached, phase⟩ := ih
      obtain ⟨w', after, attached', phase'⟩ := attached.emits (phase ▸ acts) emits
      exact ⟨w', before.trans after, attached', phase'.trans phase⟩

/-- The system holds no token of another component's event. -/
theorem Attached.foreign {event : Event (Closure EventCallback)} (h : Attached w id s)
    (tidy : Tidy none w) (acts : w.phase.acts = true) (mem : event ∈ w.queue.events)
    (other : event.callback.owner ≠ some id) : event.token ∉ s.pendingEvents := by
  intro held
  have shown : EventQueue.shown event ∈ w.awaiting := by
    rw [awaiting_of_acts acts]
    exact List.mem_map_of_mem mem
  obtain ⟨e, he, own, same⟩ := mem_tokensOf.mp
    ((tidy.exact_ id _ (by simp) h.pending).mem_iff.mp held)
  obtain rfl : e = EventQueue.shown event := List.inj_on_of_nodup_map tidy.distinct he shown same
  exact other own

/-- The scheduler dispatches an event: its closure begins, and its token leaves the system it
belongs to. -/
theorem Attached.begin {event : Event (Closure EventCallback)}
    {rest : List (Event (Closure EventCallback))} (h : Attached w id s) (tidy : Tidy none w)
    (outside : w.phase = .outside) (next : w.queue.events = event :: rest) :
    ∃ w' owner, ReflTransGen Step w w' ∧ w'.phase = .inside owner ∧
      Attached w' id (s.pop (event.map (Closure.seenBy id)) (rest.map (Event.map (Closure.seenBy id)))) := by
  have acts : w.phase.acts = true := by
    rw [outside]
    rfl
  have mem : event ∈ w.queue.events := next ▸ List.mem_cons_self
  obtain ⟨u, hu⟩ : ∃ u, u = w.dispatch (EventQueue.shown event)
    ⟨w.queue.without event rest, w.queue_kept.take next⟩ := ⟨_, rfl⟩
  have dispatched : Step w u := by
    rw [hu]
    exact .dispatch outside ⟨event, EventQueue.takeNext_cons next, rfl⟩
  have tidy' := tidy.step dispatched
  have entering : u.phase = .entering (EventQueue.shown event) := by rw [hu]; rfl
  have systems : u.systems id = some s.pendingEvents := by rw [hu]; exact h.pending
  have queue : (s.pop (event.map (Closure.seenBy id))
      (rest.map (Event.map (Closure.seenBy id)))).scheduler = u.queue.map (Closure.seenBy id) := by
    rw [hu]
    exact congrArg (fun q : EventQueue EventCallback => q.without (event.map (Closure.seenBy id))
      (rest.map (Event.map (Closure.seenBy id)))) h.scheduler
  unfold EventQueue.shown at entering
  have foreign := h.foreign tidy acts mem
  cases closure : event.callback with
  | component body =>
      rw [closure] at entering foreign
      refine ⟨_, none, (ReflTransGen.single dispatched).tail (.component entering), rfl,
        ⟨queue, ?_⟩⟩
      refine systems.trans (congrArg some ?_)
      exact (List.erase_of_not_mem (foreign fun own => by cases own)).symm
  | system i cell body =>
      rw [closure] at entering foreign
      have first : ⟨event.time, event.token, .system i cell body⟩ ∈ u.awaiting := by
        rw [awaiting_of_entering entering]
        exact List.mem_cons_self
      obtain ⟨⟨tokens, living⟩, holds, -⟩ := tidy'.living _ first i cell body rfl
      refine ⟨_, some i, (ReflTransGen.single dispatched).tail (.enter entering living), rfl,
        ⟨queue, ?_⟩⟩
      show (if id = i then (u.systems id).map (·.erase (u.cells cell)) else u.systems id) = _
      rw [systems, holds]
      by_cases own : id = i
      · rw [if_pos own]
        rfl
      · rw [if_neg own]
        exact congrArg some (List.erase_of_not_mem (foreign fun same =>
          own (Option.some.inj same).symm)).symm

/-- `dispatch_one` is a run of the ensemble. -/
theorem Attached.dispatch (h : Attached w id s) (tidy : Tidy none w)
    (outside : w.phase = .outside) :
    ∃ w', ReflTransGen Step w w' ∧ w'.phase = .outside ∧
      Attached w' id (exitState (HbmSystem.dispatchOne cfg s)) := by
  have events : s.scheduler.events = w.queue.events.map (Event.map (Closure.seenBy id)) :=
    congrArg EventQueue.events h.scheduler
  cases next : w.queue.events with
  | nil =>
      rw [next] at events
      rw [HbmSystem.dispatchOne_nil events]
      exact ⟨w, .refl, outside, h⟩
  | cons event rest =>
      rw [next] at events
      obtain ⟨u, owner, before, inside, begun⟩ := h.begin tidy outside next
      have body : Stays HbmSystem.Emissions
        (HbmSystem.runCallback cfg (event.map (Closure.seenBy id)).callback) :=
        HbmSystem.runCallback_emits _
      obtain ⟨w', during, attached, phase⟩ := begun.emissions (by rw [inside]; rfl) (body _)
      rw [HbmSystem.dispatchOne_cons events]
      have leaves : Step w' { w' with phase := .outside } := .leave (phase.trans inside)
      exact ⟨_, (before.trans during).tail leaves, rfl, attached.scheduler, attached.pending⟩

/-- Every action of a system is a run of the ensemble it is attached to. -/
theorem Attached.perform (h : Attached w id s) (tidy : Tidy none w) (outside : w.phase = .outside)
    (action : HbmSystem.Action) :
    ∃ w', ReflTransGen Step w w' ∧ w'.phase = .outside ∧
      Attached w' id (exitState (HbmSystem.perform cfg action s)) := by
  cases action with
  | call call =>
      obtain ⟨w', run, attached, phase⟩ := h.emissions (by rw [outside]; rfl)
        (HbmSystem.footprint_emits.runClient [call] s)
      exact ⟨w', run, phase.trans outside, attached⟩
  | dispatch reactions =>
      have scripted : Attached w id { s with script := reactions } := ⟨h.scheduler, h.pending⟩
      exact scripted.dispatch tidy outside
  | advance until_ =>
      unfold HbmSystem.perform
      dsimp only
      rw [get_bind]
      split
      · rename_i due
        have clock : w.queue.now ≤ until_.toNat :=
          (congrArg EventQueue.now h.scheduler) ▸ due.1
        have nothing : ∀ e ∈ w.queue.events, until_.toNat < e.time := by
          have all := List.all_eq_true.mp due.2
          rw [h.scheduler] at all
          exact fun e he => of_decide_eq_true (all _ (List.mem_map_of_mem he))
        have passes : Step w { w with
            scheduler := ⟨{ w.queue with now := until_.toNat }, w.queue_kept.advance nothing⟩ } :=
          .pass ⟨until_.toNat, clock, nothing, rfl⟩
        refine ⟨_, .single passes, outside, ⟨?_, h.pending⟩⟩
        exact congrArg (fun q : EventQueue EventCallback =>
          { q with now := until_.toNat }) h.scheduler
      · exact ⟨w, .refl, outside, h⟩

/-- What a reachable ensemble steps to is reachable. -/
theorem Reachable.run {w w' : OnQueue} (reached : Reachable w) (run : ReflTransGen Step w w') :
    Reachable w' := by
  induction run with
  | refl => exact reached
  | tail _ step ih => exact .step ih step

end

end Ensemble

/-- Every state a memory system reaches is its state in an ensemble that is reached. -/
theorem HbmSystem.Reachable.attached {cfg : HbmConfig} {escapes : HbmError → Prop} {s : HbmSystem}
    (reached : HbmSystem.Reachable cfg escapes s) :
    ∃ w : Ensemble.OnQueue, w.Reachable ∧ w.phase = .outside ∧ w.Attached 0 s := by
  induction reached with
  | create created =>
      obtain ⟨-, -, rfl⟩ := HbmSystem.create_ok.mp created
      exact ⟨_, .step .initial (.create rfl), rfl, rfl, rfl⟩
  | perform action _ performed ih =>
      obtain ⟨w, reached, outside, attached⟩ := ih
      obtain ⟨w', run, outside', attached'⟩ := attached.perform reached.tidy outside action
      rw [performed] at attached'
      exact ⟨w', reached.run run, outside', attached'⟩
  | escape action _ performed _ ih =>
      obtain ⟨w, reached, outside, attached⟩ := ih
      obtain ⟨w', run, outside', attached'⟩ := attached.perform reached.tidy outside action
      rw [performed] at attached'
      exact ⟨w', reached.run run, outside', attached'⟩

end HbmSim
