import HbmSim.Controller.Reporting
import HbmSim.System.System

/-!
Systems without what the reporting switches govern.

`plain` forgets the detailed statistics, the latency breakdowns and the retained
completions. A system with any setting of the switches does, seen through `plain`, what the
system with both switches off does: in every call, event and run.
-/

namespace HbmSim

open HbmSim.Lib

/-! ### What the switches govern -/

def EventCallback.plain : EventCallback → EventCallback
  | .accessDone channel issued => .accessDone channel issued.plain
  | callback => callback

def ParentRequest.plain (p : ParentRequest) : ParentRequest :=
  { p with lastLatencyBreakdown := {} }

def HbmCompletion.plain (c : HbmCompletion) : HbmCompletion := { c with latencyBreakdown := {} }

def Observation.plain : Observation → Observation
  | .issued channel physical at_ => .issued channel physical.plain at_
  | .finished ticket channel access at_ => .finished ticket channel access.plain at_
  | .completed ticket completion at_ => .completed ticket completion.plain at_
  | o => o

/-- The configuration with both switches off. -/
def HbmConfig.plain (cfg : HbmConfig) : HbmConfig :=
  { cfg with
    simulation := { cfg.simulation with retainCompletions := false, detailedStats := false } }

namespace HbmSystem

def plain (s : HbmSystem) : HbmSystem :=
  { s with
    scheduler := s.scheduler.map EventCallback.plain
    stats := s.stats.plain
    parents := s.parents.map ParentRequest.plain
    completions := []
    trace := s.trace.map Observation.plain }

variable {cfg : HbmConfig}

/-- A system's program at a setting of the switches, and with both off. -/
abbrev Plainly {α α' : Type} (g : α → α') (x : SystemM α) (y : SystemM α') : Prop :=
  Mirrors HbmSystem.plain g x y

theorem initial_plain : (initial cfg).plain = initial cfg.plain := by
  have record : (initialChannelStats cfg).plain = initialChannelStats cfg.plain := by
    unfold initialChannelStats
    split <;> rfl
  unfold initial plain HbmStats.plain
  dsimp only
  rw [record]
  rfl

theorem observe_plain (s : HbmSystem) (o : Observation) :
    (s.observe o).plain = s.plain.observe o.plain := rfl

theorem findParent_plain (s : HbmSystem) (id : Nat) :
    s.plain.findParent id = (s.findParent id).map ParentRequest.plain := by
  unfold findParent plain
  dsimp only
  rw [List.find?_map]
  rfl

theorem modifyParent_plain {f k : ParentRequest → ParentRequest}
    (same : ∀ p, (f p).plain = k p.plain) (s : HbmSystem) (id : Nat) :
    (s.modifyParent id f).plain = s.plain.modifyParent id k := by
  unfold modifyParent plain
  dsimp only
  rw [List.map_map, List.map_map]
  refine congrArg (fun parents => { s.plain with parents := parents }) (List.map_congr_left ?_)
  intro p _
  by_cases here : p.transaction.id = id
  · exact (congrArg ParentRequest.plain (if_pos here)).trans ((same p).trans (if_pos here).symm)
  · exact (congrArg ParentRequest.plain (if_neg here)).trans (if_neg here).symm

theorem systemEvents_plain (s : HbmSystem) :
    s.plain.systemEvents = s.systemEvents.map (Event.map EventCallback.plain) := by
  have kind : ∀ e : Event EventCallback,
      (e.map EventCallback.plain).callback.isSystem = e.callback.isSystem := by
    intro e
    obtain ⟨time, sequence, token, callback⟩ := e
    cases callback <;> rfl
  unfold systemEvents
  show (s.scheduler.events.map (Event.map EventCallback.plain)).filter _ = _
  rw [List.filter_map]
  exact congrArg _ (List.filter_congr fun e _ => kind e)

/-! ### Channels and events -/

theorem onController_plain {α α' : Type} {g : α → α'} {x : ControllerM α} {y : ControllerM α'}
    (channel : Nat) (same : HbmController.Plainly g x y) :
    Plainly g (onController cfg channel x) (onController cfg.plain channel y) := by
  intro s
  unfold onController
  by_cases inside : channel < cfg.channelCount
  · rw [if_pos inside]
    refine (if_pos inside).trans ?_
    have step : y ⟨s.plain.controllers channel, s.plain.stats⟩ = _ :=
      same ⟨s.controllers channel, s.stats⟩
    rw [step]
    cases x ⟨s.controllers channel, s.stats⟩ <;> rfl
  · rw [if_neg inside]
    exact if_neg inside

theorem scheduleEvent_plain (at_ : Nat) (callback : EventCallback) :
    Plainly id (scheduleEvent at_ callback) (scheduleEvent at_ callback.plain) := by
  unfold scheduleEvent
  refine .bind .get fun s => ?_
  refine .bind (.ofExcept (EventQueue.scheduleAt_map _ _ _ _)) ?_
  rintro ⟨token, scheduler⟩
  exact .modify fun _ => rfl

theorem scheduleControllerWake_plain (channel at_ : Nat) :
    Plainly id (scheduleControllerWake cfg channel at_)
      (scheduleControllerWake cfg.plain channel at_) := by
  unfold scheduleControllerWake
  refine .bind .get fun s => ?_
  dsimp only
  refine .bind (g := id) (onController_plain channel (.modifyGet (fun _ => rfl) fun _ => rfl))
    fun needed => ?_
  exact .ite (fun _ => scheduleEvent_plain _ _) fun _ => .pure _

theorem scheduleRefreshDue_plain (channel : Nat) :
    Plainly id (scheduleRefreshDue cfg channel) (scheduleRefreshDue cfg.plain channel) := by
  unfold scheduleRefreshDue
  refine .bind (g := id) (onController_plain channel (.modifyGet (fun _ => rfl) fun _ => rfl))
    fun due => ?_
  cases due with
  | none => exact .pure _
  | some due => exact scheduleEvent_plain _ _

/-! ### Admission -/

theorem groupPieces_plain (tx : HbmTransaction) (rounds address remaining : Nat)
    (group : Option (HbmAccess × HbmAddress)) :
    cfg.plain.groupPieces tx rounds address remaining group =
      cfg.groupPieces tx rounds address remaining group := by
  induction rounds generalizing address remaining group with
  | zero => rfl
  | succ rounds ih =>
      unfold HbmConfig.groupPieces
      simp only [ih]
      rfl

theorem nextAccess_plain (tx : HbmTransaction) (offset : Nat) :
    cfg.plain.nextAccess tx offset = cfg.nextAccess tx offset :=
  groupPieces_plain _ _ _ _ _

theorem canReserve_plain (channel : Nat) (reads writes : Nat) :
    Plainly id
      (onController cfg channel do
        return (← get).ctl.canReserve (cfg.channelConfig channel) reads writes)
      (onController cfg.plain channel do
        return (← get).ctl.canReserve (cfg.plain.channelConfig channel) reads writes) :=
  onController_plain channel (.bind .get fun _ => .pure _)

theorem chargeAccess_plain (s : HbmSystem) (parent : ParentRequest) (access : HbmAccess) :
    (s.chargeAccess parent access).plain = s.plain.chargeAccess parent.plain access := by
  have charged := modifyParent_plain (f := fun p =>
    { p with
      admittedBytes := p.admittedBytes + access.sizeBytes
      remainingAccesses := p.remainingAccesses + 1 }) (k := fun p =>
    { p with
      admittedBytes := p.admittedBytes + access.sizeBytes
      remainingAccesses := p.remainingAccesses + 1 }) (fun _ => rfl) s parent.transaction.id
  exact congrArg (fun t : HbmSystem =>
    { t.observe (.admitted parent.ticket access.address.flatChannel access t.now) with
      stats := { t.stats with modeledAccesses := t.stats.modeledAccesses + 1 }
      nextAccessSequence := t.nextAccessSequence + 1 }) charged

theorem admitAccess_plain (parent : ParentRequest) (access : HbmAccess) :
    Plainly id (admitAccess cfg parent access) (admitAccess cfg.plain parent.plain access) := by
  unfold admitAccess
  dsimp only
  refine .bind (g := id) (onController_plain _ (HbmController.reserve_plain _ _)) fun _ => ?_
  refine .bind .get fun s => ?_
  refine .bind (g := id) ?_ fun _ => ?_
  · intro t
    exact congrArg (EStateM.Result.ok PUnit.unit) (chargeAccess_plain s parent _).symm
  · exact onController_plain _ (HbmController.admitReserved_plain _ _)

theorem admitParent_plain (id : Nat) (rounds : Nat) (touched : List Nat) :
    Plainly (fun t => t) (admitParent cfg id rounds touched)
      (admitParent cfg.plain id rounds touched) := by
  induction rounds generalizing touched with
  | zero =>
      unfold admitParent
      refine .bind .get fun s => ?_
      rw [findParent_plain]
      cases s.findParent id with
      | none => exact .throw _
      | some parent => exact .ite (fun _ => .throw _) fun _ => .pure _
  | succ rounds ih =>
      unfold admitParent
      refine .bind .get fun s => ?_
      rw [findParent_plain]
      cases s.findParent id with
      | none => exact .throw _
      | some parent =>
          refine .ite (fun _ => ?_) fun _ => .pure _
          refine .bind (.ofExcept ((nextAccess_plain _ _).trans (id_map _).symm)) fun access => ?_
          dsimp only
          refine .bind (canReserve_plain _ _ _) fun free => ?_
          refine .ite (fun _ => .pure _) fun _ => ?_
          exact .bind (admitAccess_plain _ _) fun _ => ih _

theorem closeParent_plain (id : Nat) :
    Plainly (fun t => t)
      (modify fun s =>
        match s.findParent id with
        | some parent =>
            if parent.admittedBytes = parent.transaction.sizeBytes then
              { s with pendingAdmissions := s.pendingAdmissions.erase id }
            else s
        | none => s)
      (modify fun s =>
        match s.findParent id with
        | some parent =>
            if parent.admittedBytes = parent.transaction.sizeBytes then
              { s with pendingAdmissions := s.pendingAdmissions.erase id }
            else s
        | none => s) := by
  refine .modify fun s => ?_
  rw [findParent_plain]
  cases s.findParent id with
  | none => rfl
  | some parent =>
      dsimp only
      rw [apply_ite HbmSystem.plain]
      rfl

theorem admitPending_plain (ids touched : List Nat) :
    Plainly id (admitPending cfg ids touched) (admitPending cfg.plain ids touched) := by
  induction ids generalizing touched with
  | nil => exact .pure _
  | cons first rest ih =>
      unfold admitPending
      refine .bind .get fun s => ?_
      have size : ((s.plain.findParent first).map (·.transaction.sizeBytes)).getD 0 =
          ((s.findParent first).map (·.transaction.sizeBytes)).getD 0 := by
        rw [findParent_plain, Option.map_map]
        rfl
      dsimp only
      rw [size]
      refine .bind (admitParent_plain _ _ _) fun touched => ?_
      exact .bind (closeParent_plain _) fun _ => ih _

theorem wakeTouched_plain (touched channels : List Nat) :
    Plainly id (wakeTouched cfg touched channels) (wakeTouched cfg.plain touched channels) := by
  induction channels with
  | nil => exact .pure _
  | cons channel rest ih =>
      unfold wakeTouched
      dsimp only
      refine .ite (fun _ => ?_) fun _ => ih
      refine .bind (scheduleRefreshDue_plain _) fun _ => ?_
      refine .bind .get fun s => ?_
      exact .bind (scheduleControllerWake_plain _ _) fun _ => ih

theorem pumpAdmissions_plain : Plainly id (pumpAdmissions cfg) (pumpAdmissions cfg.plain) := by
  unfold pumpAdmissions
  refine .bind .get fun s => ?_
  exact .bind (admitPending_plain _ _) fun touched => wakeTouched_plain _ _

/-! ### Submission -/

theorem countRejection_plain (s : HbmSystem) (channel : Nat) :
    (s.countRejection channel).plain = s.plain.countRejection channel := by
  have rejected := HbmStats.modifyQueue_plain (fun q =>
    { q with rejectedTransactions := q.rejectedTransactions + 1 }) (fun _ => rfl) s.stats channel
  exact congrArg (fun stats : HbmStats =>
    { s.plain with
      stats := { stats with rejectedTransactions := s.stats.rejectedTransactions + 1 } }) rejected

theorem acceptTransaction_plain (s : HbmSystem) (tx : HbmTransaction) :
    (s.acceptTransaction tx).plain = s.plain.acceptTransaction tx := by
  unfold acceptTransaction plain
  dsimp only
  rw [List.map_append]
  rfl

theorem trySubmitNow_plain (tx : HbmTransaction) :
    Plainly id (trySubmitNow cfg tx) (trySubmitNow cfg.plain tx) := by
  unfold trySubmitNow
  refine .bind .get fun s => ?_
  dsimp only
  refine .ite (fun _ => .pure _) fun _ => ?_
  refine .ite (fun _ => .pure _) fun _ => ?_
  have known : (s.plain.findParent tx.id).isSome = (s.findParent tx.id).isSome := by
    rw [findParent_plain, Option.isSome_map]
  have active : s.plain.parents.length = s.parents.length := List.length_map _
  rw [known, active]
  refine .ite (fun _ => .pure _) fun _ => ?_
  refine .ite (fun _ => .pure _) fun _ => ?_
  refine .bind (.ofExcept ((nextAccess_plain _ _).trans (id_map _).symm)) fun first => ?_
  refine .ite (fun _ => ?_) fun _ => ?_
  · exact .bind (.modify fun s => (countRejection_plain s _).symm) fun _ => .pure _
  refine .bind (canReserve_plain _ _ _) fun free => ?_
  refine .ite (fun _ => ?_) fun _ => ?_
  · exact .bind (.modify fun s => (countRejection_plain s _).symm) fun _ => .pure _
  · refine .bind (.modify fun s => (acceptTransaction_plain s tx).symm) fun _ => ?_
    exact .bind pumpAdmissions_plain fun _ => .pure _

/-! ### Clients and completion -/

theorem scheduleClient_plain (s : HbmSystem) (at_ tag : Nat) :
    (s.scheduleClient at_ tag).plain = s.plain.scheduleClient at_ tag := by
  have scheduled : s.plain.scheduler.scheduleAt at_ (.client tag) = _ :=
    EventQueue.scheduleAt_map EventCallback.plain s.scheduler at_ (.client tag)
  unfold scheduleClient
  rw [scheduled]
  cases s.scheduler.scheduleAt at_ (.client tag) with
  | ok r => rfl
  | error e => rfl

theorem runClient_plain (calls : List ClientCall) :
    Plainly id (runClient cfg calls) (runClient cfg.plain calls) := by
  induction calls with
  | nil => exact .pure _
  | cons call rest ih =>
      unfold runClient
      cases call with
      | trySubmitNow tx =>
          refine .bind (trySubmitNow_plain tx) fun result => ?_
          refine .bind (.modify fun s => ?_) fun _ => ih
          rw [systemEvents_plain, List.length_map]
          rfl
      | setCompletionCallback present => exact .bind (.modify fun _ => rfl) fun _ => ih
      | setCapacityCallback present => exact .bind (.modify fun _ => rfl) fun _ => ih
      | scheduleAt at_ tag =>
          exact .bind (.modify fun s => (scheduleClient_plain s _ _).symm) fun _ => ih

theorem invokeClient_plain : Plainly id (invokeClient cfg) (invokeClient cfg.plain) := by
  unfold invokeClient
  refine .bind (g := id) (.modifyGet (fun _ => rfl) fun _ => rfl) fun calls => ?_
  exact runClient_plain _

theorem notifyCapacity_plain (channel at_ : Nat) :
    Plainly id (notifyCapacity cfg channel at_) (notifyCapacity cfg.plain channel at_) := by
  unfold notifyCapacity
  refine .bind .get fun s => ?_
  dsimp only
  refine .ite (fun _ => ?_) fun _ => .pure _
  exact .bind (.modify fun _ => rfl) fun _ => invokeClient_plain

theorem retireParent_plain (s : HbmSystem) (request : ParentRequest) :
    (s.retireParent cfg request).plain = s.plain.retireParent cfg.plain request.plain := by
  have erased : (s.parents.filter fun p => p.transaction.id != request.transaction.id).map
      ParentRequest.plain = (s.parents.map ParentRequest.plain).filter
        fun p => p.transaction.id != request.transaction.id := by
    rw [List.filter_map]
    rfl
  unfold retireParent plain
  dsimp only
  refine Eq.trans ?_ (congrArg (fun parents => { s.plain.retireParent cfg.plain request.plain with
    parents := parents }) erased)
  cases cfg.simulation.retainCompletions <;> rfl

theorem completeParent_plain (id : Nat) :
    Plainly (fun t => t) (completeParent cfg id) (completeParent cfg.plain id) := by
  unfold completeParent
  refine .bind .get fun s => ?_
  rw [findParent_plain]
  cases s.findParent id with
  | none => exact .throw _
  | some request =>
      refine .bind (.modify fun s => (retireParent_plain s request).symm) fun _ => ?_
      refine .bind .get fun s => ?_
      dsimp only
      refine .ite (fun _ => ?_) fun _ => ?_
      · refine .bind invokeClient_plain fun _ => ?_
        exact .bind .get fun s => notifyCapacity_plain _ _
      · exact .bind .get fun s => notifyCapacity_plain _ _

theorem creditAccess_plain (request : ParentRequest) (access : LogicalCompletion)
    (channel completionTime : Nat) :
    (creditAccess request access channel completionTime).plain =
      creditAccess request.plain access.plain channel completionTime := by
  unfold creditAccess
  dsimp only
  rw [apply_ite ParentRequest.plain]
  rfl

theorem finishAccess_plain (access : LogicalCompletion) (channel completionTime : Nat) :
    Plainly id (finishAccess cfg access channel completionTime)
      (finishAccess cfg.plain access.plain channel completionTime) := by
  unfold finishAccess
  refine .bind (g := id) (onController_plain _ (HbmController.completeAccess_plain _)) fun _ => ?_
  refine .bind .get fun s => ?_
  dsimp only
  rw [show access.plain.parentId = access.parentId from rfl, findParent_plain]
  cases s.findParent access.parentId with
  | none => exact .throw _
  | some request =>
      have credited := creditAccess_plain request access channel completionTime
      dsimp only [Option.map]
      rw [← credited]
      refine .ite (fun _ => .throw _) fun _ => ?_
      refine .bind (.modify fun s => ?_) fun _ => ?_
      · have written := modifyParent_plain
          (f := fun _ => creditAccess request access channel completionTime)
          (k := fun _ => (creditAccess request access channel completionTime).plain)
          (fun _ => rfl) s access.parentId
        rw [observe_plain, written]
        rfl
      · exact .ite (fun _ => completeParent_plain _) fun _ => .pure _

theorem finishAccesses_plain (channel completionTime : Nat) (accesses : List LogicalCompletion) :
    Plainly id (finishAccesses cfg channel completionTime accesses)
      (finishAccesses cfg.plain channel completionTime (accesses.map (·.plain))) := by
  induction accesses with
  | nil => exact .pure _
  | cons access rest ih => exact .bind (finishAccess_plain _ _ _) fun _ => ih

/-! ### Dispatch -/

theorem driveStep_plain (channel : Nat) :
    Plainly HbmControllerStep.plain (driveStep cfg channel) (driveStep cfg.plain channel) := by
  unfold driveStep
  refine .bind .get fun s => ?_
  refine .bind (onController_plain _ (HbmController.drive_plain _)) fun step => ?_
  refine .bind (.modify fun s => ?_) fun _ => .pure _
  obtain ⟨wakeAt, issued⟩ := step
  cases issued <;> rfl

theorem driveController_plain (channel : Nat) :
    Plainly id (driveController cfg channel) (driveController cfg.plain channel) := by
  unfold driveController
  refine .bind (driveStep_plain _) fun step => ?_
  obtain ⟨wakeAt, issued⟩ := step
  cases issued with
  | none =>
      cases wakeAt with
      | none => exact .pure _
      | some at_ => exact scheduleControllerWake_plain _ _
  | some issued =>
      refine .bind pumpAdmissions_plain fun _ => ?_
      refine .bind (scheduleEvent_plain _ _) fun _ => ?_
      refine .bind .get fun s => ?_
      cases wakeAt with
      | none =>
          refine .ite (fun _ => ?_) fun _ => .pure _
          refine .bind .get fun s => .bind .get fun s' => ?_
          exact .bind (scheduleEvent_plain _ (.capacity channel s'.now)) fun _ => .pure _
      | some at_ =>
          have wake : Plainly id (scheduleControllerWake cfg channel at_)
              (scheduleControllerWake cfg.plain channel at_) := scheduleControllerWake_plain _ _
          refine .ite (fun _ => ?_) fun _ => wake
          refine .bind .get fun s => .bind .get fun s' => ?_
          exact .bind (scheduleEvent_plain _ (.capacity channel s'.now)) fun _ => wake

theorem runCallback_plain (callback : EventCallback) :
    Plainly id (runCallback cfg callback) (runCallback cfg.plain callback.plain) := by
  cases callback with
  | wake channel at_ =>
      exact .bind (g := id) (onController_plain _ (.modify fun _ => rfl))
        fun _ => driveController_plain _
  | refreshDue channel due =>
      refine .bind (g := id) (onController_plain _ (HbmController.handleRefreshEvent_plain _))
        fun _ => ?_
      refine .bind (scheduleControllerWake_plain _ _) fun _ => ?_
      refine .bind .get fun s => ?_
      exact .ite (fun _ => scheduleRefreshDue_plain _) fun _ => .pure _
  | accessDone channel issued => exact finishAccesses_plain _ _ _
  | capacity channel at_ => exact notifyCapacity_plain _ _
  | client tag => exact invokeClient_plain

theorem dispatchOne_plain : Plainly id (dispatchOne cfg) (dispatchOne cfg.plain) := by
  unfold dispatchOne
  refine .bind .get fun s => ?_
  have next : s.plain.scheduler.takeNext = _ := EventQueue.takeNext_map _ s.scheduler
  rw [next]
  cases s.scheduler.takeNext with
  | none => exact .pure _
  | some r =>
      obtain ⟨event, scheduler⟩ := r
      exact .bind (.modify fun _ => rfl) fun _ => runCallback_plain _

/-- An action at a setting of the switches, and with both off. -/
theorem perform_plain (action : Action) :
    Plainly id (perform cfg action) (perform cfg.plain action) := by
  cases action with
  | call call => exact runClient_plain _
  | dispatch reactions => exact .bind (.modify fun _ => rfl) fun _ => dispatchOne_plain
  | advance until_ =>
      unfold perform
      refine .bind .get fun s => ?_
      have idle : (s.plain.scheduler.events.all fun e => decide (until_.toNat < e.time)) =
          s.scheduler.events.all fun e => decide (until_.toNat < e.time) :=
        List.all_map
      rw [idle]
      refine .ite (fun _ => ?_) fun _ => .pure _
      exact fun _ => rfl

end HbmSystem

end HbmSim
