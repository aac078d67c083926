import HbmSim.System.Cadence
import HbmSim.System.Descent

/-!
Dispatching the events of a system that refreshes its channels.

As long as accesses wait and no data command is issued, a channel that keeps up with its
refreshes is ready by a time that does not move away. So only so many refreshes are raised before
a data command is issued, and only so many other events are dispatched between two of them.
-/

namespace HbmSim

open HbmSim.Lib

namespace HbmController

variable {config : HbmControllerConfig} {mapper : HbmAddressMapper} {s t : ControllerState}
  {now time : Nat}

/-- Catching up serves no access. -/
theorem steps_queued (steps : Steps config mapper now s t) : t.ctl.queued = s.ctl.queued := by
  induction steps with
  | refl => rfl
  | tail _ step ih => exact step.queued.trans ih

/-- What is claimed is the next due instant, unless it has its event. -/
theorem claimRefreshEvent_cases (c : HbmController) :
    c.claimRefreshEvent = (none, c) ∨ ∃ due, c.nextRefreshDue = some due ∧
      c.refreshDueAt ≠ some due ∧
        c.claimRefreshEvent = (some due, { c with refreshDueAt := some due }) := by
  unfold claimRefreshEvent
  split
  · exact .inl rfl
  · rename_i due next
    split
    · exact .inl rfl
    · rename_i unarmed
      exact .inr ⟨due, next, unarmed, rfl⟩

/-- What a refresh event does to a channel with outstanding accesses. -/
inductive Refreshed (config : HbmControllerConfig) (due : Nat) (s t : ControllerState) : Prop
  | stale (other : s.ctl.refreshDueAt = some due → s.ctl.nextRefreshDue ≠ some due)
      (after : t = s.modifyCtl (·.disarm due)) : Refreshed config due s t
  | raised (armed : s.ctl.refreshDueAt = some due) (next : s.ctl.nextRefreshDue = some due)
      (bank : config.refreshPolicy = .perBank → s.ctl.nextPerBankRefresh < s.ctl.banks.length)
      (after : t = s.modifyCtl fun c => ((c.disarm due).advanceDue config due).raise config due) :
      Refreshed config due s t

theorem handleRefreshEvent_busy (sound : Sound config mapper s.ctl)
    (busy : s.ctl.outstandingAccesses ≠ 0) (due : Nat) :
    Exits (handleRefreshEvent config mapper due) (fun _ t => Refreshed config due s t)
      (fun _ _ => True) s := by
  unfold handleRefreshEvent
  simp only [exits_bind, exits_get, exits_ite, exits_modify, exits_pure]
  refine ⟨fun armed => ⟨fun next => ⟨fun none => absurd none busy, fun _ => ?_⟩, fun other => ?_⟩,
    fun unarmed => ?_⟩
  · have disarmed : s.ctl.disarm due = { s.ctl with refreshDueAt := none } := if_pos armed
    have sound' : Sound config mapper
        (({ s.ctl with refreshDueAt := none } : HbmController).advanceDue config due) :=
      sound.change rfl sound.rfm rfl (fun w a ha => ⟨a, ha, rfl⟩) rfl
    refine (@raiseRefresh_raises config mapper
      ⟨({ s.ctl with refreshDueAt := none } : HbmController).advanceDue config due, s.stats⟩ sound'
      due).mono (fun _ t h => ?_) fun _ _ _ => trivial
    refine .raised armed next h.2 ?_
    rw [h.1, ← disarmed]
    rfl
  · refine .stale (fun _ => other) ?_
    have disarmed : s.ctl.disarm due = { s.ctl with refreshDueAt := none } := if_pos armed
    exact congrArg (ControllerState.mk · s.stats) disarmed.symm
  · refine .stale (fun armed => absurd armed unarmed) ?_
    have same : s.ctl.disarm due = s.ctl := if_neg unarmed
    exact congrArg (ControllerState.mk · s.stats) same.symm

/-- A command that is recorded at `now` takes its recovery time off. -/
theorem Works.paced (works : Works config mapper now s t) (sound : Sound config mapper s.ctl)
    (rowed : Rowed config mapper s.ctl) (obliged : Obliged config s)
    (early : config.enableRfm = true → 2 ≤ config.rfmActivationThreshold)
    (ready : ReadyBy config time s.ctl) (started : now ≤ time) :
    ∃ later, time ≤ later ∧ ReadyBy config later t.ctl ∧
      later + tempo config t.ctl ≤ time + tempo config s.ctl := by
  cases works with
  | maintain step => exact step.paced sound rowed early obliged ready started
  | row step => exact step.paced sound rowed.settled obliged ready started

/-- A command that serves nothing is one of the steps left. -/
theorem Works.stepsLeft_lt (works : Works config mapper now s t) (sound : Sound config mapper s.ctl)
    (rowed : Rowed config mapper s.ctl)
    (early : config.enableRfm = true → 2 ≤ config.rfmActivationThreshold) :
    stepsLeft config t.ctl < stepsLeft config s.ctl := by
  have queued := works.step.queued
  cases works with
  | maintain step => exact step.stepsLeft_lt early
  | row step =>
      obtain ⟨w, index, a, r, row, demanded⟩ :=
        @RowStep.demanded config mapper s t now True sound step
      exact demanded.stepsLeft_lt (fun _ _ _ => Wanted.congr queued)
        (demanded.turns rowed.settled queued row)

/-- Issuing a command sets no refresh instant. -/
theorem Works.nextRefreshDue (works : Works config mapper now s t) :
    t.ctl.nextRefreshDue = s.ctl.nextRefreshDue := by
  cases works with
  | maintain step => rw [step.frame]
  | row step => rw [step.frame]

/-! ### Channels that keep up -/

variable {c c' : HbmController} {limit within due : Nat}

/-- The tempo is read off the plans. -/
theorem SamePlans.tempo (same : SamePlans c c') : tempo config c' = tempo config c :=
  tempo_congr same.queued same.banks same.pending

theorem Paced.congr (paced : Paced config within time c) (same : SamePlans c c')
    (next : c'.nextRefreshDue = c.nextRefreshDue) : Paced config within time c' := by
  apply paced.pays next (paced.ready.congr same.record same.busy)
  rw [same.tempo]

/-- The due instant after this one is an interval away. -/
theorem advanceDue_next (whole : (c.advanceDue config due).wrapped = false) :
    (c.advanceDue config due).nextRefreshDue = some (due + config.refreshInterval) := by
  have short : ¬ 2 ^ 64 ≤ due + config.refreshInterval :=
    of_decide_eq_false (Bool.or_eq_false_iff.mp whole).2
  show some (SimTime.add due config.refreshInterval) = _
  unfold SimTime.add
  rw [Nat.mod_eq_of_lt (Nat.not_le.mp short)]

/-- What a refresh event raises. -/
theorem raised_eq (armed : s.ctl.refreshDueAt = some due)
    (after : t = s.modifyCtl fun c => ((c.disarm due).advanceDue config due).raise config due) :
    t.ctl = (({ s.ctl with refreshDueAt := none } : HbmController).raise config due).advanceDue
      config due := by
  have disarmed : s.ctl.disarm due = { s.ctl with refreshDueAt := none } := if_pos armed
  rw [after, ← advanceDue_raise, ← disarmed]
  rfl

/-- A raised refresh neither queues nor completes an access. -/
theorem Refreshed.kept (refreshed : Refreshed config due s t) :
    t.ctl.queued = s.ctl.queued ∧ t.ctl.outstandingAccesses = s.ctl.outstandingAccesses := by
  cases refreshed with
  | stale _ after =>
      rw [after]
      refine ⟨(SamePlans.disarm s.ctl due).queued, ?_⟩
      show (s.ctl.disarm due).outstandingAccesses = _
      unfold HbmController.disarm
      split <;> rfl
  | raised armed _ _ after =>
      rw [raised_eq armed after, raise_frame]
      exact ⟨rfl, rfl⟩

/-- If the due instant had its event, what is claimed after it comes an interval later. -/
theorem Refreshed.claims (refreshed : Refreshed config due s t)
    (armed : ∀ at_, s.ctl.nextRefreshDue = some at_ → s.ctl.refreshDueAt = some at_)
    (whole : t.ctl.wrapped = false) {at_ : Nat} (next : t.ctl.nextRefreshDue = some at_)
    (unarmed : t.ctl.refreshDueAt ≠ some at_) : at_ = due + config.refreshInterval := by
  cases refreshed with
  | stale other after =>
      have same : t.ctl.nextRefreshDue = s.ctl.nextRefreshDue := by
        rw [after]
        exact (disarm_cadence _ _).nextRefreshDue
      have here := armed at_ (same.symm.trans next)
      have apart : s.ctl.refreshDueAt ≠ some due := by
        intro due_now
        have at_due := here.symm.trans due_now
        exact other due_now (same.symm.trans (next.trans at_due))
      have disarmed : s.ctl.disarm due = s.ctl := if_neg apart
      rw [after] at unarmed
      exact absurd ((congrArg (·.refreshDueAt) disarmed).trans here) unarmed
  | raised armed _ _ after =>
      rw [raised_eq armed after] at whole next
      exact Option.some.inj (next.symm.trans (advanceDue_next whole))

/-- A refresh event leaves a channel that keeps up with a refresh more, and with an interval more
to issue it in. -/
theorem Refreshed.paced (refreshed : Refreshed config due s t)
    (paced : Paced config within time s.ctl) (fits : config.refreshTime < config.refreshInterval)
    (due_le : due ≤ time) (sound : Sound config mapper s.ctl) (obliged : Obliged config s)
    (whole : t.ctl.wrapped = false) : Paced config within time t.ctl := by
  cases refreshed with
  | stale _ after =>
      rw [after]
      exact paced.congr (.disarm _ _) (disarm_cadence _ _).nextRefreshDue
  | raised armed next bank after =>
      have raised := raised_eq armed after
      have same : SameRecord s.ctl t.ctl ∧ t.ctl.refreshBusyUntil = s.ctl.refreshBusyUntil := by
        rw [raised, raise_frame]
        exact ⟨⟨rfl, rfl, rfl, rfl, rfl⟩, rfl⟩
      have later : t.ctl.nextRefreshDue = some (due + config.refreshInterval) := by
        rw [raised] at whole ⊢
        exact advanceDue_next whole
      refine paced.raise fits next due_le later (paced.ready.congr same.1 same.2) ?_
      have cost := tempo_raise sound obliged bank due
      have as_raised : tempo config t.ctl = tempo config (s.ctl.raise config due) := by
        rw [raised]
        refine tempo_congr ?_ ?_ ?_
        all_goals
          unfold advanceDue noteSum HbmController.raise
          split <;> rfl
      rw [as_raised]
      exact cost

/-- The channel has accesses to serve, keeps up with its refreshes, and is woken in time. -/
inductive OnTime (config : HbmControllerConfig) (limit : Nat) (c : HbmController) : Prop
  | intro {within time mark : Nat} (busy : c.queued ≠ []) (paced : Paced config within time c)
      (marked : c.wakeupAt = some mark) (mark_le : mark ≤ time)
      (bound : config.refreshTime * (within + config.refreshInterval) + within ≤ limit) :
      OnTime config limit c

/-- A channel that keeps up and is woken in time. -/
theorem Paced.onTime {mark : Nat} (paced : Paced config within time c) (busy : c.queued ≠ [])
    (mark_le : mark ≤ time)
    (bound : config.refreshTime * (within + config.refreshInterval) + within ≤ limit) :
    OnTime config limit { c with wakeupAt := some mark } :=
  have same : SamePlans c { c with wakeupAt := some mark } := .marks c (some mark) c.refreshDueAt
  .intro (same.queued ▸ busy) (paced.congr same rfl) rfl mark_le bound

/-- A command of a channel that keeps up, which is woken again when it is over. -/
theorem OnTime.works {mark : Nat} (onTime : OnTime config limit c) (same : SamePlans c s.ctl)
    (next : s.ctl.nextRefreshDue = c.nextRefreshDue)
    (first : ∀ mark, c.wakeupAt = some mark → now ≤ mark) (sound : Sound config mapper s.ctl)
    (rowed : Rowed config mapper s.ctl) (obliged : Obliged config s)
    (early : config.enableRfm = true → 2 ≤ config.rfmActivationThreshold)
    (works : Works config mapper now s t) (soon : mark ≤ max now t.ctl.refreshBusyUntil) :
    OnTime config limit { t.ctl with wakeupAt := some mark } := by
  obtain ⟨busy, paced, marked, mark_le, bound⟩ := onTime
  have started := Nat.le_trans (first _ marked) mark_le
  have paced := paced.congr same next
  obtain ⟨later, later_le, ready, pays⟩ :=
    works.paced sound rowed obliged early paced.ready started
  refine (paced.pays works.nextRefreshDue ready pays).onTime ?_ ?_ bound
  · rw [works.step.queued, same.queued]
    exact busy
  · have ended := ready.busy
    omega

/-- A channel that keeps up and has to wait is woken again when it may go on. -/
theorem OnTime.waits {at_ mark : Nat} (onTime : OnTime config limit c) (same : SamePlans c c')
    (next : c'.nextRefreshDue = c.nextRefreshDue)
    (soon : ∀ time, ReadyBy config time c' → at_ ≤ time) (mark_le : mark ≤ at_) :
    OnTime config limit { c' with wakeupAt := some mark } := by
  obtain ⟨busy, paced, -, -, bound⟩ := onTime
  have paced := paced.congr same next
  refine paced.onTime ?_ (Nat.le_trans mark_le (soon _ paced.ready)) bound
  rw [same.queued]
  exact busy

/-- A refresh event of a channel that keeps up, which is woken at once. -/
theorem OnTime.refreshed {mark : Nat} (onTime : OnTime config limit s.ctl)
    (refreshed : Refreshed config due s t) (fits : config.refreshTime < config.refreshInterval)
    (first : ∀ mark, s.ctl.wakeupAt = some mark → due ≤ mark) (sound : Sound config mapper s.ctl)
    (obliged : Obliged config s) (whole : t.ctl.wrapped = false) (mark_le : mark ≤ due) :
    OnTime config limit { t.ctl with wakeupAt := some mark } := by
  obtain ⟨busy, paced, marked, marked_le, bound⟩ := onTime
  have due_le := Nat.le_trans (first _ marked) marked_le
  refine (refreshed.paced paced fits due_le sound obliged whole).onTime ?_
    (Nat.le_trans mark_le due_le) bound
  rw [refreshed.kept.1]
  exact busy

/-- Arming the event moves no instant. -/
theorem OnTime.arm (onTime : OnTime config limit c) (due : Nat) :
    OnTime config limit { c with refreshDueAt := some due } := by
  obtain ⟨busy, paced, marked, mark_le, bound⟩ := onTime
  have same : SamePlans c { c with refreshDueAt := some due } := .marks c c.wakeupAt (some due)
  exact .intro (same.queued ▸ busy) (paced.congr same rfl) marked mark_le bound

end HbmController

/-- How long a raised refresh may hold up a channel. -/
def HbmConfig.refreshTime (cfg : HbmConfig) : Nat := (cfg.channelConfig 0).refreshTime

/-- The refresh interval leaves time for something else, and no RFM comes before a row is opened a
second time. -/
structure HbmConfig.Sustained (cfg : HbmConfig) : Prop where
  fits : cfg.refreshTime < cfg.controller.refreshInterval
  early : cfg.controller.enableRfm = true → 2 ≤ cfg.controller.rfmActivationThreshold

/-- The event is neither a wake nor a refresh. -/
def EventCallback.isCall : EventCallback → Bool
  | .wake _ _ | .refreshDue _ _ => false
  | _ => true

def EventCallback.isRefresh : EventCallback → Bool
  | .refreshDue _ _ => true
  | _ => false

@[simp] theorem EventCallback.isCall_wake (channel at_ : Nat) :
    (EventCallback.wake channel at_).isCall = false := rfl

@[simp] theorem EventCallback.isCall_refreshDue (channel due : Nat) :
    (EventCallback.refreshDue channel due).isCall = false := rfl

@[simp] theorem EventCallback.isRefresh_wake (channel at_ : Nat) :
    (EventCallback.wake channel at_).isRefresh = false := rfl

@[simp] theorem EventCallback.isRefresh_refreshDue (channel due : Nat) :
    (EventCallback.refreshDue channel due).isRefresh = true := rfl

namespace HbmSystem

open HbmController

variable (cfg : HbmConfig)

/-! ### What is left -/

/-- The accesses that are not served, and the events that are neither a wake nor a refresh. -/
def unserved (s : HbmSystem) : Nat × Nat :=
  (waiting cfg s, s.scheduler.events.countP (·.callback.isCall))

/-- Fewer accesses are left to serve, or fewer calls to make. -/
def Fewer (t s : HbmSystem) : Prop :=
  Prod.Lex (· < ·) (· < ·) (unserved cfg t) (unserved cfg s)

theorem fewer_wf : WellFounded (Fewer cfg) :=
  InvImage.wf (unserved cfg) (Nat.lt_wfRel.wf.prod_lex Nat.lt_wfRel.wf)

/-- How many refreshes may still follow the event until `limit`. -/
def refreshLeft (limit : Nat) (event : Event EventCallback) : Nat :=
  if event.callback.isRefresh then limit + 1 - event.time else 0

/-- The row and maintenance commands that may come before the next data commands. -/
def owedSteps : HbmSystem → Nat := toDo cfg 0 fun channel => stepsLeft (cfg.channelConfig channel)

/-- What is left before the next data command: the refreshes until `limit`, the commands and the
wakes. -/
def between (limit : Nat) (s : HbmSystem) : Nat × Nat × Nat :=
  ((s.scheduler.events.map (refreshLeft limit)).sum, owedSteps cfg s,
    (s.scheduler.events.map (wakeLeft cfg s)).sum)

/-- Less is left before the next data command. -/
def Closer (limit : Nat) (t s : HbmSystem) : Prop :=
  Prod.Lex (· < ·) (Prod.Lex (· < ·) (· < ·)) (between cfg limit t) (between cfg limit s)

theorem closer_wf (limit : Nat) : WellFounded (Closer cfg limit) :=
  InvImage.wf (between cfg limit) (Nat.lt_wfRel.wf.prod_lex (Nat.lt_wfRel.wf.prod_lex Nat.lt_wfRel.wf))

/-- No refresh event after `limit` is dispatched before the next call: there is one until then, or
a channel that keeps up is woken until then, or no refresh is scheduled any more. -/
inductive Within (limit : Nat) (s : HbmSystem) : Prop
  | call {e : Event EventCallback} (mem : e ∈ s.scheduler.events)
      (call : e.callback.isCall = true) (time_le : e.time ≤ limit) : Within limit s
  | onTime {channel : Nat}
      (onTime : OnTime (cfg.channelConfig channel) limit (s.controllers channel)) : Within limit s
  | idle (none : ∀ channel, (s.controllers channel).outstandingAccesses = 0)
      (time_le : ∀ e ∈ s.scheduler.events, e.callback.isRefresh = true → e.time ≤ limit) :
      Within limit s

/-- What an event whose callbacks make no calls brings closer: the next data command or call, the
one after it, or the end of the times that fit into 64 bits. -/
inductive Advances (limit : Nat) (s t : HbmSystem) : Prop
  | serves (accepted : acceptedTransactions t.trace = acceptedTransactions s.trace)
      (fewer : Fewer cfg t s) : Advances limit s t
  | turns (trace : t.trace = s.trace) (same : unserved cfg t = unserved cfg s)
      (within : Within cfg limit t) (closer : Closer cfg limit t s) : Advances limit s t
  | overflows (trace : t.trace = s.trace) (passed : Overflowed cfg t) : Advances limit s t

variable {cfg} {s t u : HbmSystem} {limit channel : Nat}

/-- An advance accepts no transaction. -/
theorem Advances.accepted (advances : Advances cfg limit s t) :
    acceptedTransactions t.trace = acceptedTransactions s.trace := by
  cases advances with
  | serves accepted => exact accepted
  | turns trace => rw [trace]
  | overflows trace => rw [trace]

theorem Fewer.of_waiting (less : HbmSystem.waiting cfg t < HbmSystem.waiting cfg s) :
    Fewer cfg t s := .left _ _ less

theorem Fewer.of_calls (waits : HbmSystem.waiting cfg t ≤ HbmSystem.waiting cfg s)
    (less : t.scheduler.events.countP (·.callback.isCall) <
      s.scheduler.events.countP (·.callback.isCall)) : Fewer cfg t s := by
  rcases Nat.lt_or_eq_of_le waits with fewer | same
  · exact .of_waiting fewer
  · unfold Fewer unserved
    rw [same]
    exact .right _ less

theorem Closer.of_steps
    (refreshes : (t.scheduler.events.map (refreshLeft limit)).sum =
      (s.scheduler.events.map (refreshLeft limit)).sum)
    (less : owedSteps cfg t < owedSteps cfg s) : Closer cfg limit t s := by
  unfold Closer between
  rw [refreshes]
  exact .right _ (.left _ _ less)

theorem Closer.of_wakes
    (refreshes : (t.scheduler.events.map (refreshLeft limit)).sum =
      (s.scheduler.events.map (refreshLeft limit)).sum)
    (steps : owedSteps cfg t = owedSteps cfg s)
    (less : (t.scheduler.events.map (wakeLeft cfg t)).sum <
      (s.scheduler.events.map (wakeLeft cfg s)).sum) : Closer cfg limit t s := by
  unfold Closer between
  rw [refreshes, steps]
  exact .right _ (.right _ less)

/-! ### One channel -/

/-- Something has happened on one channel, but its accesses still wait. -/
structure Turned (channel : Nat) (rest new : List (Event EventCallback)) (s t : HbmSystem) :
    Prop where
  script : t.script = s.script
  trace : t.trace = s.trace
  parents : t.parents = s.parents
  others : ∀ ch, ch ≠ channel → t.controllers ch = s.controllers ch
  queued : (t.controllers channel).queued = (s.controllers channel).queued
  outstanding : (t.controllers channel).outstandingAccesses =
    (s.controllers channel).outstandingAccesses
  events : t.scheduler.events.Perm (new ++ rest)
  uncalled : ∀ e ∈ new, e.callback.isCall = false

section

variable {event : Event EventCallback} {rest new : List (Event EventCallback)}

/-- The next event is taken off, and the marks of a channel may change. -/
structure Popped (channel : Nat) (event : Event EventCallback) (rest : List (Event EventCallback))
    (s u : HbmSystem) : Prop where
  now : u.now = event.time
  events : u.scheduler.events = rest
  same : SamePlans s u
  others : ∀ ch, ch ≠ channel → u.controllers ch = s.controllers ch
  next : (u.controllers channel).nextRefreshDue = (s.controllers channel).nextRefreshDue
  outstanding : (u.controllers channel).outstandingAccesses =
    (s.controllers channel).outstandingAccesses

variable (channel) in

/-- The event is taken off the heap and the clock moves to it. -/
theorem Popped.pop (s : HbmSystem) (event : Event EventCallback)
    (rest : List (Event EventCallback)) : Popped channel event rest s (s.pop event rest) :=
  ⟨rfl, rfl, .pop event rest, fun _ _ => rfl, rfl, rfl⟩

variable (channel) in

theorem Popped.clearWakeup (s : HbmSystem) (event : Event EventCallback)
    (rest : List (Event EventCallback)) : Popped channel event rest s
      ((s.pop event rest).modifyController channel (·.clearWakeup event.time)) := by
  have here : ((s.pop event rest).modifyController channel
      (·.clearWakeup event.time)).controllers channel =
        (s.controllers channel).clearWakeup event.time := by
    rw [modifyController_controllers, if_pos rfl]
    rfl
  constructor
  case now => rfl
  case events => rfl
  case same => exact (SamePlans.pop event rest).trans (.modifyController channel (.clearWakeup _ _))
  case others =>
    intro ch apart
    rw [modifyController_controllers, if_neg apart]
    rfl
  case next =>
    rw [here]
    exact (clearWakeup_cadence _ _).nextRefreshDue
  case outstanding =>
    rw [here]
    unfold HbmController.clearWakeup
    split <;> rfl

/-- The turn of a controller that serves and completes nothing. -/
theorem Turned.update {c : ControllerState} (popped : Popped channel event rest s u)
    (queued : c.ctl.queued = (s.controllers channel).queued)
    (outstanding : c.ctl.outstandingAccesses = (s.controllers channel).outstandingAccesses) :
    Turned channel rest [] s (u.update channel c) := by
  have here : (u.update channel c).controllers channel = c.ctl := by
    rw [update_controllers, if_pos rfl]
  have same := popped.same
  refine ⟨same.script, same.trace, same.parents, fun ch apart => ?_, here ▸ queued,
    here ▸ outstanding, List.Perm.of_eq popped.events, nofun⟩
  rw [update_controllers, if_neg apart]
  exact popped.others ch apart

/-- The wake scheduled at the end of the turn is among the new events. -/
theorem Turned.woken {at_ : Nat} (turned : Turned channel rest [] s u)
    (woken : Woken channel at_ u t) :
    ∃ wake : Option (Event EventCallback), Turned channel rest wake.toList s t ∧
      (∀ e ∈ wake, e.callback = .wake channel at_ ∧ e.time = at_) ∧
        ∀ e ∈ wake.toList, e.callback.isRefresh = false := by
  have same := woken.samePlans
  obtain ⟨mark, marked, -⟩ := woken.mark
  obtain ⟨wake, events, wakes⟩ := woken.events
  have callback : ∀ e ∈ wake.toList, e.callback = .wake channel at_ := fun e he =>
    (wakes e (Option.mem_toList.mp he)).1
  refine ⟨wake, ?_, wakes, fun e he => by rw [callback e he]; rfl⟩
  constructor
  case script => exact same.script.trans turned.script
  case trace => exact same.trace.trans turned.trace
  case parents => exact same.parents.trans turned.parents
  case others =>
    intro ch apart
    rw [woken.others apart]
    exact turned.others ch apart
  case queued => exact (same.controllers channel).queued.trans turned.queued
  case outstanding =>
    rw [marked]
    exact turned.outstanding
  case events => exact events.trans (turned.events.append_left _)
  case uncalled =>
    intro e he
    rw [callback e he]
    rfl

/-- So is the refresh event armed in it. -/
theorem Turned.arm (turned : Turned channel rest new s u) (due : Nat) :
    ∃ arm : Event EventCallback, Turned channel rest (arm :: new) s (u.markRefresh channel due) ∧
      arm.callback = .refreshDue channel due ∧ arm.time = due := by
  have marked : (u.markRefresh channel due).controllers channel =
      { u.controllers channel with refreshDueAt := some due } := by
    rw [markRefresh_controllers, if_pos rfl]
  refine ⟨⟨due, u.scheduler.nextSequence, u.scheduler.nextToken, .refreshDue channel due⟩,
    ?_, rfl, rfl⟩
  constructor
  case script => exact turned.script
  case trace => exact turned.trace
  case parents => exact turned.parents
  case others =>
    intro ch apart
    rw [markRefresh_controllers, if_neg apart]
    exact turned.others ch apart
  case queued =>
    rw [marked]
    exact turned.queued
  case outstanding =>
    rw [marked]
    exact turned.outstanding
  case events => exact (emplaceEvent_perm _ _).trans (turned.events.cons _)
  case uncalled =>
    intro e he
    rcases List.mem_cons.mp he with rfl | mem
    · rfl
    · exact turned.uncalled e mem

/-- As many accesses wait, and as many calls. -/
theorem Turned.unserved (turned : Turned channel rest new s t)
    (next : s.scheduler.events = event :: rest) (plain : event.callback.isCall = false) :
    unserved cfg t = unserved cfg s := by
  have queued : ∀ ch, (t.controllers ch).queued = (s.controllers ch).queued := by
    intro ch
    by_cases here : ch = channel
    · subst ch
      exact turned.queued
    · rw [turned.others ch here]
  have bytes : t.unadmitted = s.unadmitted := by
    unfold unadmitted
    rw [turned.parents]
  have none : new.countP (·.callback.isCall) = 0 :=
    List.countP_eq_zero.mpr fun e he => by simp [turned.uncalled e he]
  unfold HbmSystem.unserved HbmSystem.waiting toDo
  rw [turned.events.countP_eq, List.countP_append, none, next]
  simp only [queued, bytes, List.countP_cons, plain]
  simp

/-- A limit is kept by a channel that keeps up, and by one that schedules no refresh when it has
nothing outstanding. -/
theorem Within.turned (within : Within cfg limit s) (turned : Turned channel rest new s t)
    (next : s.scheduler.events = event :: rest) (plain : event.callback.isCall = false)
    (onTime : OnTime (cfg.channelConfig channel) limit (s.controllers channel) →
      OnTime (cfg.channelConfig channel) limit (t.controllers channel))
    (none : (s.controllers channel).outstandingAccesses = 0 →
      ∀ e ∈ new, e.callback.isRefresh = false) : Within cfg limit t := by
  have kept : ∀ e ∈ rest, e ∈ t.scheduler.events := fun e he =>
    turned.events.mem_iff.mpr (List.mem_append_right _ he)
  cases within with
  | @call e mem call time_le =>
      rw [next] at mem
      rcases List.mem_cons.mp mem with rfl | mem
      · rw [plain] at call
        cases call
      · exact .call (kept e mem) call time_le
  | @onTime ch keeps =>
      by_cases here : ch = channel
      · subst ch
        exact .onTime (onTime keeps)
      · refine @Within.onTime cfg limit t ch ?_
        rw [turned.others ch here]
        exact keeps
  | idle idle time_le =>
      refine .idle (fun ch => ?_) fun e he refresh => ?_
      · by_cases here : ch = channel
        · subst ch
          exact turned.outstanding.trans (idle channel)
        · rw [turned.others ch here]
          exact idle ch
      · rcases List.mem_append.mp (turned.events.mem_iff.mp he) with mem | mem
        · rw [none (idle channel) e mem] at refresh
          cases refresh
        · exact time_le e (next ▸ List.mem_cons_of_mem _ mem) refresh

/-- The next event comes no later than the wake of a channel. -/
theorem first_le_mark (scheduled : Scheduled cfg s) (next : s.scheduler.events = event :: rest)
    {mark : Nat} (marked : (s.controllers channel).wakeupAt = some mark) : event.time ≤ mark := by
  obtain ⟨e, he, callback⟩ := scheduled.marked channel mark marked
  have stamped := scheduled.stamped e he
  rw [callback] at stamped
  rw [stamped.1]
  exact Ordered.first_le scheduled.ordered next e he

/-- Within the limit, no refresh event after it is the next event. -/
theorem Within.time_le (within : Within cfg limit s) (scheduled : Scheduled cfg s)
    (on : 0 < cfg.controller.refreshInterval) (next : s.scheduler.events = event :: rest)
    (refresh : event.callback.isRefresh = true) : event.time ≤ limit := by
  cases within with
  | call mem _ time_le =>
      exact Nat.le_trans (Ordered.first_le scheduled.ordered next _ mem) time_le
  | onTime onTime =>
      obtain ⟨-, paced, marked, mark_le, bound⟩ := onTime
      have first := first_le_mark scheduled next marked
      have time_le := paced.time_le on
      omega
  | idle _ time_le => exact time_le event (next ▸ List.mem_cons_self) refresh

theorem refreshLeft_plain {e : Event EventCallback} (plain : e.callback.isRefresh = false) :
    refreshLeft limit e = 0 := by
  unfold refreshLeft
  rw [plain]
  rfl

/-- Neither do events among which no refresh is. -/
theorem refreshLeft_none (none : ∀ e ∈ new, e.callback.isRefresh = false) :
    (new.map (refreshLeft limit)).sum = 0 := by
  apply List.sum_eq_zero
  intro left mem
  obtain ⟨e, he, rfl⟩ := List.mem_map.mp mem
  exact refreshLeft_plain (none e he)

variable (limit) in
/-- What a turn adds to the refreshes that are left, and what it takes off. -/
theorem Turned.refreshes (turned : Turned channel rest new s t)
    (next : s.scheduler.events = event :: rest) :
    (t.scheduler.events.map (refreshLeft limit)).sum + refreshLeft limit event =
      (new.map (refreshLeft limit)).sum + (s.scheduler.events.map (refreshLeft limit)).sum := by
  rw [(turned.events.map _).sum_eq, next, List.map_append, List.sum_append, List.map_cons,
    List.sum_cons]
  omega

variable (limit) in
/-- A turn without refresh events. -/
theorem Turned.refreshes_plain (turned : Turned channel rest new s t)
    (next : s.scheduler.events = event :: rest) (plain : event.callback.isRefresh = false)
    (none : ∀ e ∈ new, e.callback.isRefresh = false) :
    (t.scheduler.events.map (refreshLeft limit)).sum =
      (s.scheduler.events.map (refreshLeft limit)).sum := by
  have turns := turned.refreshes limit next
  rw [refreshLeft_plain plain, refreshLeft_none none] at turns
  omega

/-! ### Wake events -/

/-- The steps owed are read off the plans. -/
theorem SamePlans.owedSteps (same : SamePlans s t) : owedSteps cfg t = owedSteps cfg s :=
  same.toDo fun _ _ _ plans => stepsLeft_congr plans.queued plans.banks plans.pending

/-- The accesses waiting are read off the plans. -/
theorem SamePlans.waiting (same : SamePlans s t) : waiting cfg t = waiting cfg s :=
  same.toDo fun _ _ _ plans => by rw [plans.queued]

/-- A wake event of a system that keeps within its limit serves accesses, or brings the next data
command closer. -/
theorem Drives.advances (checked : cfg.Checked)
    (opens : cfg.device.standard = none → cfg.controller.rowPolicy.useAutoPrecharge = false)
    (early : cfg.controller.enableRfm = true → 2 ≤ cfg.controller.rfmActivationThreshold)
    (hchannel : channel < cfg.channelCount) (scheduled : Scheduled cfg s)
    (next : s.scheduler.events = event :: rest)
    (callback : event.callback = .wake channel event.time)
    (popped : Popped channel event rest s u) {d : Debts} (run : Run cfg (u, d))
    (within : Within cfg limit s) (drives : Drives cfg channel u t) : Advances cfg limit s t := by
  have plain : event.callback.isCall = false := by rw [callback]; rfl
  have quiet : event.callback.isRefresh = false := by rw [callback]; rfl
  have cleared := popped.same.controllers channel
  -- each outcome of the drive lowers another part of the measure: accesses, steps or wakes
  cases drives with
  | serves serves =>
      refine .serves (by rw [serves.accepted, popped.same.trace]) (.of_waiting ?_)
      rw [← popped.same.waiting]
      exact serves.waiting
  | @works at_ v c touched works soon woken =>
      have sound := run.sound checked channel
      have entry : Entry (cfg.channelConfig channel) cfg.mapper u.now False (u.side channel) v :=
        Beat.entry sound (.step (.retouch touched))
      have rowed := (run.rowed checked opens channel).entry opens sound entry
      have obliged := (run.obliged checked channel).entry entry
      have plans := HbmController.SamePlans.retouched cfg.mapper touched
      have queued := works.step.queued.trans (plans.queued.trans cleared.queued)
      have outstanding : c.ctl.outstandingAccesses =
        (s.controllers channel).outstandingAccesses := by
        rw [works.step.marks.outstandingAccesses, touched.ctl]
        exact popped.outstanding
      obtain ⟨wake, turned, -, rests⟩ := (Turned.update popped queued outstanding).woken woken
      have less : owedSteps cfg t < owedSteps cfg s := by
        rw [woken.samePlans.owedSteps, ← popped.same.owedSteps]
        apply toDo_update_lt u hchannel
        have fewer := works.stepsLeft_lt (sound.retouched touched) rowed early
        rwa [stepsLeft_congr plans.queued plans.banks plans.pending] at fewer
      refine .turns turned.trace (turned.unserved next plain) ?_
        (.of_steps (turned.refreshes_plain limit next quiet rests) less)
      refine within.turned turned next plain (fun onTime => ?_) fun _ => rests
      obtain ⟨mark, marked, mark_le⟩ := woken.mark
      rw [marked, update_controllers, if_pos rfl]
      refine onTime.works (cleared.trans plans) ?_ (fun mark marked => ?_) (sound.retouched touched)
        rowed obliged early works (Nat.le_trans mark_le soon)
      · rw [touched.ctl]
        exact popped.next
      · rw [popped.now]
        exact first_le_mark scheduled next marked
  | @waits at_ c touched later soon bound woken =>
      have plans := HbmController.SamePlans.retouched cfg.mapper touched
      have outstanding : c.ctl.outstandingAccesses =
        (s.controllers channel).outstandingAccesses := by
        rw [touched.ctl]
        exact popped.outstanding
      obtain ⟨wake, turned, wakes, rests⟩ :=
        (Turned.update popped (plans.queued.trans cleared.queued) outstanding).woken woken
      have same := (popped.same.trans (SamePlans.retouched touched)).trans woken.samePlans
      have plans := cleared.trans plans
      refine .turns turned.trace (turned.unserved next plain) ?_
        (.of_wakes (turned.refreshes_plain limit next quiet rests) same.owedSteps ?_)
      · refine within.turned turned next plain (fun onTime => ?_) fun _ => rests
        obtain ⟨mark, marked, mark_le⟩ := woken.mark
        rw [marked, update_controllers, if_pos rfl]
        refine onTime.waits plans ?_ soon mark_le
        rw [touched.ctl]
        exact popped.next
      · refine wakeLeft_sum_lt next callback same turned.events fun e he => ?_
        obtain ⟨woken, rfl⟩ := wakes e he
        rw [popped.now] at later
        rw [horizon_congr plans.record plans.banks plans.queued plans.busy] at bound
        exact ⟨woken, later, bound⟩
  | @rests c touched unqueued after =>
      have plans := HbmController.SamePlans.retouched cfg.mapper touched
      have queued := plans.queued.trans cleared.queued
      have outstanding : c.ctl.outstandingAccesses =
        (s.controllers channel).outstandingAccesses := by
        rw [touched.ctl]
        exact popped.outstanding
      subst after
      have turned := Turned.update popped queued outstanding
      have same := popped.same.trans (SamePlans.retouched touched)
      refine .turns turned.trace (turned.unserved next plain) ?_
        (.of_wakes (turned.refreshes_plain limit next quiet nofun) same.owedSteps ?_)
      · refine within.turned turned next plain (fun onTime => ?_) fun _ => nofun
        obtain ⟨busy, -⟩ := onTime
        exact absurd (queued.symm.trans unqueued) busy
      · exact @wakeLeft_sum_lt _ _ _ _ _ next _ none callback same turned.events nofun

/-! ### Refresh events -/

/-- The refresh event is armed unless it already is, or none is due. -/
theorem scheduleRefreshDue_exits (hchannel : channel < cfg.channelCount) :
    Exits (scheduleRefreshDue cfg channel)
      (fun _ t => t = s ∨ ∃ due, (s.controllers channel).nextRefreshDue = some due ∧
        (s.controllers channel).refreshDueAt ≠ some due ∧ t = s.markRefresh channel due)
      (fun _ _ => True) s := by
  unfold scheduleRefreshDue
  simp only [exits_bind]
  rw [onController_exits hchannel, exits_modifyGet]
  rcases claimRefreshEvent_cases (s.side channel).ctl with none | ⟨due, next, unarmed, claimed⟩
  · simp only [none]
    exact .inl (update_side s channel)
  · simp only [claimed]
    refine (scheduleEvent_exits due (.refreshDue channel due)).mono (fun _ t h => ?_)
      fun _ _ _ => trivial
    exact .inr ⟨due, next, unarmed, h.2⟩

/-- A refresh event after which no refresh, or a later one, is scheduled. -/
theorem Turned.advances (turned : Turned channel rest new s t)
    (next : s.scheduler.events = event :: rest)
    (due : event.callback = .refreshDue channel event.time)
    (within : Within cfg limit s)
    (onTime : OnTime (cfg.channelConfig channel) limit (s.controllers channel) →
      OnTime (cfg.channelConfig channel) limit (t.controllers channel))
    (none : (s.controllers channel).outstandingAccesses = 0 →
      ∀ e ∈ new, e.callback.isRefresh = false)
    (later : (new.map (refreshLeft limit)).sum < limit + 1 - event.time) :
    Advances cfg limit s t := by
  have plain : event.callback.isCall = false := by rw [due]; rfl
  have refreshes := turned.refreshes limit next
  have here : refreshLeft limit event = limit + 1 - event.time := by
    unfold refreshLeft
    rw [due]
    rfl
  refine .turns turned.trace (turned.unserved next plain) (within.turned turned next plain onTime none)
    (.left _ _ ?_)
  omega

/-- The refresh event of a channel with nothing outstanding is its last. -/
theorem refreshDue_idle (checked : cfg.Checked) (hchannel : channel < cfg.channelCount)
    (next : s.scheduler.events = event :: rest)
    (due : event.callback = .refreshDue channel event.time) {d : Debts} (run : Run cfg (s, d))
    (none : (s.controllers channel).outstandingAccesses = 0) (within : Within cfg limit s)
    (time_le : event.time ≤ limit) :
    Exits (runCallback cfg (.refreshDue channel event.time))
      (fun _ t => Advances cfg limit s t) (fun _ _ => True) (s.pop event rest) := by
  unfold runCallback
  rw [exits_bind, onController_exits hchannel]
  refine (handleRefreshEvent_exits (checked.wiring channel) (run.sound checked channel)).mono
    (fun _ c h => ?_) fun _ _ _ => trivial
  obtain ⟨steps, -, -⟩ := h
  have disarmed : (((s.pop event rest).side channel).modifyCtl (·.disarm event.time)).ctl =
      (s.controllers channel).disarm event.time := rfl
  have unmarked : ((s.controllers channel).disarm event.time).outstandingAccesses =
      (s.controllers channel).outstandingAccesses := by
    unfold HbmController.disarm
    split <;> rfl
  have outstanding : c.ctl.outstandingAccesses = (s.controllers channel).outstandingAccesses := by
    rw [(Steps.marks steps).outstandingAccesses, disarmed, unmarked]
  have queued : c.ctl.queued = (s.controllers channel).queued := by
    rw [steps_queued steps, disarmed]
    exact (HbmController.SamePlans.disarm _ _).queued
  simp only [exits_bind, exits_get, exits_ite, exits_pure]
  refine (scheduleControllerWake_exits hchannel).mono (fun _ t woken => ?_) fun _ _ _ => trivial
  obtain ⟨wake, turned, -, rests⟩ :=
    (Turned.update (Popped.pop channel s event rest) queued outstanding).woken woken
  refine ⟨fun busy => absurd (turned.outstanding.trans none) busy, fun _ => ?_⟩
  refine turned.advances next due within (fun onTime => ?_) (fun _ => rests) ?_
  · obtain ⟨busy, -⟩ := onTime
    exact absurd none (outstanding_of_queued (run.accounted checked).balanced busy)
  · rw [refreshLeft_none rests]
    omega

/-- The refresh event of a channel with accesses outstanding is followed by the one of the next due
instant, an interval later. -/
theorem refreshDue_busy (checked : cfg.Checked) (hchannel : channel < cfg.channelCount)
    (fits : (cfg.channelConfig channel).refreshTime < cfg.controller.refreshInterval)
    (next : s.scheduler.events = event :: rest)
    (due : event.callback = .refreshDue channel event.time) {d : Debts} (run : Run cfg (s, d))
    (armed : Armed s d) (rearm : d.rearm = [])
    (busy : (s.controllers channel).outstandingAccesses ≠ 0) (within : Within cfg limit s)
    (time_le : event.time ≤ limit) :
    Exits (runCallback cfg (.refreshDue channel event.time))
      (fun _ t => Advances cfg limit s t) (fun _ _ => True) (s.pop event rest) := by
  have sound := run.sound checked channel
  have obliged := run.obliged checked channel
  unfold runCallback
  rw [exits_bind, onController_exits hchannel]
  refine (handleRefreshEvent_busy (s := (s.pop event rest).side channel) sound busy
    event.time).mono (fun _ c refreshed => ?_) fun _ _ _ => trivial
  simp only [exits_bind, exits_get, exits_ite, exits_pure]
  refine (scheduleControllerWake_exits hchannel).mono (fun _ u woken => ?_) fun _ _ _ => trivial
  obtain ⟨queued, outstanding⟩ := refreshed.kept
  obtain ⟨wake, turned, -, rests⟩ :=
    (Turned.update (Popped.pop channel s event rest) queued outstanding).woken woken
  obtain ⟨mark, marked, mark_le⟩ := woken.mark
  rw [update_controllers, if_pos rfl] at marked
  have mark_le : mark ≤ event.time := Nat.le_trans mark_le (Nat.max_le.mpr ⟨Nat.le_refl _,
    Nat.le_refl _⟩)
  refine ⟨fun _ => ?_, fun none => absurd (turned.outstanding.symm.trans (not_not.mp none)) busy⟩
  refine (scheduleRefreshDue_exits hchannel).mono (fun _ t claimed => ?_) fun _ _ _ => trivial
  -- either the next instant wrapped, or it is one interval later and its event is armed
  by_cases wraps : c.ctl.wrapped = true
  · refine .overflows ?_ (.inr ⟨channel, hchannel, ?_⟩)
    · rcases claimed with rfl | ⟨at_, -, -, rfl⟩ <;> exact turned.trace
    rcases claimed with rfl | ⟨at_, -, -, rfl⟩
    · rw [marked]
      exact wraps
    · rw [markRefresh_controllers, if_pos rfl, marked]
      exact wraps
  have whole := Bool.eq_false_of_not_eq_true wraps
  have onTime : OnTime (cfg.channelConfig channel) limit (s.controllers channel) →
      OnTime (cfg.channelConfig channel) limit (u.controllers channel) := by
    intro onTime
    rw [marked]
    exact @OnTime.refreshed _ _ ((s.pop event rest).side channel) _ _ _ _ onTime refreshed fits
      (fun _ => first_le_mark run.scheduled next) sound obliged whole mark_le
  rcases claimed with rfl | ⟨at_, next_due, unarmed, rfl⟩
  · refine turned.advances next due within onTime (fun _ => rests) ?_
    rw [refreshLeft_none rests]
    omega
  · rw [marked] at next_due unarmed
    have settled : channel ∉ d.rearm := by
      rw [rearm]
      exact List.not_mem_nil
    have later := refreshed.claims (armed.next channel busy settled) whole next_due unarmed
    obtain ⟨arm, turned, callback, time⟩ := turned.arm at_
    refine turned.advances next due within (fun before => ?_) (fun none => absurd none busy) ?_
    · rw [markRefresh_controllers, if_pos rfl]
      exact (onTime before).arm at_
    · have left : refreshLeft limit arm = limit + 1 - arm.time := by
        unfold refreshLeft
        rw [callback]
        rfl
      have on : 0 < (cfg.channelConfig channel).refreshInterval := Nat.zero_lt_of_lt fits
      rw [List.map_cons, List.sum_cons, refreshLeft_none rests, left, time, later]
      omega

/-! ### Dispatching an event -/

/-- An event that credits accesses at most. -/
theorem Credits.advances (next : s.scheduler.events = event :: rest)
    (call : event.callback.isCall = true) (credits : Credits (s.pop event rest) t) :
    Advances cfg limit s t := by
  have events : t.scheduler.events = rest := congrArg EventQueue.events credits.scheduler
  have queued : ∀ ch, (t.controllers ch).queued = (s.controllers ch).queued := by
    intro ch
    rw [credits.controllers ch]
    rfl
  have bytes : t.unadmitted ≤ s.unadmitted := credits.unadmitted
  refine .serves credits.accepted (.of_calls ?_ ?_)
  · unfold HbmSystem.waiting toDo
    simp only [queued]
    omega
  · rw [events, next]
    simp only [List.countP_cons, call, if_true]
    exact Nat.lt_succ_self _

/-- While callbacks make no calls, a call credits accesses at most. -/
theorem runCallback_credits {callback : EventCallback} (call : callback.isCall = true)
    (silent : s.script = []) (distinct : (s.parents.map (·.transaction.id)).Nodup) :
    Exits (runCallback cfg callback) (fun _ t => Credits s t) (fun _ _ => True) s := by
  cases callback with
  | wake => cases call
  | refreshDue => cases call
  | accessDone channel issued =>
      exact ((finishAccesses_credited _ _ _).exits _).mono (fun _ t h => h silent distinct)
        fun _ _ _ => trivial
  | capacity channel at_ =>
      refine (notifyCapacity_silent silent channel at_).mono (fun _ t h => ?_) fun _ _ h => h.elim
      by_cases present : s.capacityCallback = true
      · obtain rfl := h.trans (if_pos present)
        have told := notifications_announced cfg s channel at_
        exact ⟨silent, distinct, rfl, rfl, rfl, Nat.le_refl _, fun _ => rfl, by omega,
          fun _ => .inl (by omega)⟩
      · obtain rfl := h.trans (if_neg present)
        exact .refl silent distinct
  | client tag =>
      refine (invokeClient_silent silent).mono (fun _ t h => ?_) fun _ _ h => h.elim
      subst h
      exact .refl silent distinct

/-- An event whose callbacks make no calls brings the next data command closer. -/
theorem dispatchOne_advances (checked : cfg.Checked) (sustained : cfg.Sustained)
    (opens : cfg.device.standard = none → cfg.controller.rowPolicy.useAutoPrecharge = false)
    {d : Debts} (point : Point cfg s d) (alive : d.escaped = false) (fits : ¬ Overflowed cfg s)
    (silent : s.script = []) (some : s.scheduler.events ≠ []) (within : Within cfg limit s) :
    Exits (dispatchOne cfg) (fun _ t => Advances cfg limit s t) (fun _ _ => True) s := by
  obtain ⟨event, rest, next⟩ := List.exists_cons_of_ne_nil some
  have scheduled := point.run.scheduled
  have stamped := scheduled.stamped event (next ▸ List.mem_cons_self)
  unfold Exits
  rw [dispatchOne_cons next]
  cases callback : event.callback with
  | wake channel at_ =>
      rw [callback] at stamped
      obtain ⟨rfl, hchannel⟩ := stamped
      have run := point.run.turn (.wake next callback hchannel point.settled)
      show Exits (runCallback cfg (.wake channel event.time)) _ _ (s.pop event rest)
      unfold runCallback
      rw [exits_bind, onController_exits hchannel, exits_modify]
      refine (driveController_drives checked hchannel (run.sound checked channel)).mono
        (fun _ t drives => ?_) fun _ _ _ => trivial
      exact drives.advances checked opens sustained.early hchannel scheduled next callback
        (.clearWakeup channel s event rest) run within
  | refreshDue channel due =>
      rw [callback] at stamped
      obtain ⟨rfl, hchannel⟩ := stamped
      have on : 0 < cfg.controller.refreshInterval := Nat.zero_lt_of_lt sustained.fits
      have time_le := within.time_le scheduled on next (by rw [callback]; rfl)
      by_cases none : (s.controllers channel).outstandingAccesses = 0
      · exact refreshDue_idle checked hchannel next callback point.run none within time_le
      · have lives : ¬ d.escaped = true := by simp [alive]
        have settled := (point.settled.resolve_left lives).1
        have armed := (point.run.punctual.resolve_left lives).resolve_left fits
        exact refreshDue_busy checked hchannel sustained.fits next callback point.run armed
          settled.rearm none within time_le
  | _ =>
      have call : event.callback.isCall = true := by rw [callback]; rfl
      have distinct : ((s.pop event rest).parents.map (·.transaction.id)).Nodup :=
        (point.run.accounted checked).family.ids
      have silent : (s.pop event rest).script = [] := silent
      rw [← callback]
      exact (runCallback_credits call silent distinct).mono
        (fun _ t credits => credits.advances next call) fun _ _ h => h

end

end HbmSystem

end HbmSim
