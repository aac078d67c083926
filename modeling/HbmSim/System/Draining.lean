import HbmSim.System.Actions
import HbmSim.System.Holding
import HbmSim.System.Budget

/-!
Dispatching the events of a system whose callbacks submit nothing.

Admission moves accesses from the active transactions to the channels and adds none, so that no
more is waited for than before. Without refresh it adds no command to those that the accesses
need either.
-/

namespace HbmSim

open HbmSim.Lib

namespace HbmController

/-- The members that decide which commands may issue are the same. -/
structure SameWork (s t : ControllerState) : Prop where
  queued : t.ctl.queued = s.ctl.queued
  banks : t.ctl.banks = s.ctl.banks
  refreshPending : t.ctl.refreshPending = s.ctl.refreshPending
  refreshBusyUntil : t.ctl.refreshBusyUntil = s.ctl.refreshBusyUntil
  nextRefreshDue : t.ctl.nextRefreshDue = s.ctl.nextRefreshDue
  recorded : t.ctl.recorded = s.ctl.recorded

instance : Std.Refl SameWork := ⟨fun _ => ⟨rfl, rfl, rfl, rfl, rfl, rfl⟩⟩

instance : IsTrans ControllerState SameWork :=
  ⟨fun _ _ _ h h' => ⟨h'.queued.trans h.queued, h'.banks.trans h.banks,
    h'.refreshPending.trans h.refreshPending, h'.refreshBusyUntil.trans h.refreshBusyUntil,
    h'.nextRefreshDue.trans h.nextRefreshDue, h'.recorded.trans h.recorded⟩⟩

/-- No maintenance is pending, and none becomes pending. -/
theorem SameWork.unmaintained {s t : ControllerState} (same : SameWork s t)
    (h : s.ctl.Unmaintained) : t.ctl.Unmaintained := by
  refine ⟨⟨same.refreshPending.trans h.quiet.1, ?_⟩, same.refreshBusyUntil.trans h.idle,
    same.nextRefreshDue.trans h.never⟩
  rw [same.banks]
  exact h.quiet.2

variable {config : HbmControllerConfig} {mapper : HbmAddressMapper}

/-- The same work costs the same commands. -/
theorem SameWork.economical {s t : ControllerState} (same : SameWork s t)
    (h : Economical config s.ctl) : Economical config t.ctl :=
  h.more (same.unmaintained h.unmaintained) same.recorded same.banks fun _ _ =>
    Wanted.congr same.queued

theorem reserve_work (reads writes : Nat) : Stays SameWork (reserve config reads writes) := by
  unfold reserve
  refine .bind .get fun s => ?_
  refine .ite (fun _ => .bind (.throw _) fun _ => ?_) fun _ => ?_
  all_goals exact .modify fun _ => ⟨rfl, rfl, rfl, rfl, rfl, rfl⟩

theorem markWakeup_work (at_ : Nat) : Stays SameWork (modifyGet fun s =>
    let (needed, c) := s.ctl.markWakeup at_
    (needed, { s with ctl := c }) : ControllerM Bool) := by
  refine .modifyGet fun s => ?_
  show SameWork s { s with ctl := (s.ctl.markWakeup at_).2 }
  unfold markWakeup
  split
  · split <;> exact ⟨rfl, rfl, rfl, rfl, rfl, rfl⟩
  · exact ⟨rfl, rfl, rfl, rfl, rfl, rfl⟩

theorem claimRefreshEvent_work : Stays SameWork (modifyGet fun s =>
    let (due, c) := s.ctl.claimRefreshEvent
    (due, { s with ctl := c }) : ControllerM (Option Nat)) := by
  refine .modifyGet fun s => ?_
  show SameWork s { s with ctl := s.ctl.claimRefreshEvent.2 }
  unfold claimRefreshEvent
  split
  · exact ⟨rfl, rfl, rfl, rfl, rfl, rfl⟩
  · split <;> exact ⟨rfl, rfl, rfl, rfl, rfl, rfl⟩

/-- The access is pushed at most. -/
structure Pushes (config : HbmControllerConfig) (s t : ControllerState) : Prop where
  queued : t.ctl.queued.length ≤ s.ctl.queued.length + 1
  left : commandsLeft config t.ctl ≤ commandsLeft config s.ctl + 6
  economical : Economical config s.ctl → Economical config t.ctl

theorem Pushes.of_same {s t : ControllerState} (same : SameWork s t) : Pushes config s t where
  queued := by
    rw [same.queued]
    exact Nat.le_succ _
  left := by
    rw [commandsLeft_congr same.queued same.banks same.refreshPending]
    exact Nat.le_add_right _ 6
  economical := same.economical

/-- An access enters the queue of its kind. -/
theorem pushReserved_pushes (access : HbmAccess) (s : ControllerState) :
    Pushes config s (exitState (pushReserved config access s)) := by
  refine (exits_exitState (Pushes config s)).mp ?_
  by_cases slot : s.ctl.reservedSlots access.op.isWrite ≠ 0
  · refine (pushReserved_exits slot).mono (fun _ t h => ?_) fun _ _ h => h.elim
    subst h
    refine ⟨Nat.le_of_eq (push_queued s.ctl access).length_eq, commandsLeft_push s.ctl access,
      fun h => ?_⟩
    have still := h.unmaintained
    exact h.more ⟨still.quiet, still.idle, still.never⟩ rfl rfl fun _ _ => Wanted.push s.ctl access
  · have none := not_not.mp slot
    unfold pushReserved
    cases h : access.op with
    | read =>
        have taken : s.ctl.reservedReads = 0 := by simpa [reservedSlots, h,
          HbmOp.isWrite] using none
        simp only [exits_bind, exits_get, if_true, taken, exits_throw]
        exact .of_same (Std.Refl.refl s)
    | write =>
        have taken : s.ctl.reservedWrites = 0 := by simpa [reservedSlots, h,
          HbmOp.isWrite] using none
        simp only [exits_bind, exits_get, reduceCtorEq, if_false, if_true, taken, exits_throw]
        exact .of_same (Std.Refl.refl s)

/-- As much is queued. -/
def SameQueued (s t : ControllerState) : Prop := t.ctl.queued = s.ctl.queued

instance : Std.Refl SameQueued := ⟨fun _ => rfl⟩

instance : IsTrans ControllerState SameQueued := ⟨fun _ _ _ h h' => Eq.trans h' h⟩

theorem footprint_queued : Footprint config SameQueued where
  members reads writes _ := by
    unfold SameQueued HbmController.queued HbmController.queue
    simp only [Bool.false_eq_true, if_false, if_true, reads, writes]
  record _ _ _ := rfl

/-- An access is admitted, and without refresh nothing else happens. -/
structure Admits (config : HbmControllerConfig) (s t : ControllerState) : Prop where
  queued : t.ctl.queued.length ≤ s.ctl.queued.length + 1
  pushes : config.refreshInterval = 0 → Pushes config s t

/-- Admitting an access adds its commands and no others. -/
theorem admitReserved_admits (access : HbmAccess) (now : Nat) (s : ControllerState) :
    Admits config s (exitState (admitReserved config mapper access now s)) := by
  constructor
  · have prepared : SameQueued s (exitState (prepareRefreshForArrival config mapper now s)) :=
      footprint_queued.prepareRefreshForArrival now s
    unfold admitReserved
    show (exitState (EStateM.bind _ _ s)).ctl.queued.length ≤ _
    unfold EStateM.bind
    unfold SameQueued at prepared
    cases run : prepareRefreshForArrival config mapper now s with
    | ok _ t =>
        rw [run] at prepared
        rw [← prepared]
        exact (pushReserved_pushes _ t).queued
    | error e t =>
        rw [run] at prepared
        rw [← prepared]
        exact Nat.le_succ _
  · intro off
    unfold admitReserved prepareRefreshForArrival
    rw [if_neg (not_not.mpr off)]
    exact pushReserved_pushes _ s

/-- The count of outstanding accesses is the only member that changes. -/
def OnlyCounts (s t : ControllerState) : Prop :=
  t.ctl = { s.ctl with outstandingAccesses := t.ctl.outstandingAccesses }

instance : Std.Refl OnlyCounts := ⟨fun _ => rfl⟩

instance : IsTrans ControllerState OnlyCounts :=
  ⟨fun s t u h h' => by
    unfold OnlyCounts at h h' ⊢
    rw [h', h]⟩

theorem completeAccess_counts (access : LogicalCompletion) :
    Stays OnlyCounts (completeAccess config access) := by
  unfold completeAccess
  refine .bind .get fun s => ?_
  refine .ite (fun _ => .bind (.throw _) fun _ => ?_) fun _ => ?_
  all_goals exact .modify fun _ => rfl

end HbmController

/-- The transaction an observation accepts. -/
def Observation.accepts : Observation → Option HbmTransaction
  | .accepted _ tx _ => some tx
  | _ => none

/-- The transactions accepted so far, newest first. -/
def acceptedTransactions (trace : List Observation) : List HbmTransaction :=
  trace.filterMap (·.accepts)

/-- The observation is a call of the capacity callback. -/
def Observation.isNotified : Observation → Bool
  | .notified _ => true
  | _ => false

/-- How often the capacity callback has been called. -/
def notifications (trace : List Observation) : Nat := trace.countP (·.isNotified)

namespace HbmSystem

variable (cfg : HbmConfig)

/-- The bytes of active transactions that are not admitted. -/
def unadmitted (s : HbmSystem) : Nat :=
  (s.parents.map fun p => p.transaction.sizeBytes - p.admittedBytes).sum

/-- What is left to do: for each byte that is not admitted, and on each channel. -/
def toDo (price : Nat) (load : Nat → HbmController → Nat) (s : HbmSystem) : Nat :=
  price * s.unadmitted +
    ∑ channel ∈ Finset.range cfg.channelCount, load channel (s.controllers channel)

/-- The accesses that wait for their transfer, at most. -/
def waiting : HbmSystem → Nat := toDo cfg 1 fun _ c => c.queued.length

/-- The commands the accepted transactions may still need. -/
def workLeft : HbmSystem → Nat :=
  toDo cfg 6 fun channel => HbmController.commandsLeft (cfg.channelConfig channel)

/-- No channel has spent more than it needs. -/
def Frugal (s : HbmSystem) : Prop :=
  ∀ channel, HbmController.Economical (cfg.channelConfig channel) (s.controllers channel)

/-- Callbacks make no calls, and no more is waited for than before, up to `slack` accesses.
Without refresh there is no more work either. -/
structure Calm (slack : Nat) (s t : HbmSystem) : Prop where
  script : t.script = s.script
  now : t.now = s.now
  capacityCallback : t.capacityCallback = s.capacityCallback
  accepted : acceptedTransactions t.trace = acceptedTransactions s.trace
  notified : notifications t.trace = notifications s.trace
  waiting : waiting cfg t ≤ waiting cfg s + slack
  workLeft : cfg.controller.refreshInterval = 0 → workLeft cfg t ≤ workLeft cfg s + 6 * slack
  frugal : cfg.controller.refreshInterval = 0 → Frugal cfg s → Frugal cfg t

variable {cfg} {s t u : HbmSystem} {slack slack' : Nat}

theorem Calm.refl (s : HbmSystem) : Calm cfg slack s s :=
  ⟨rfl, rfl, rfl, rfl, rfl, Nat.le_add_right _ _, fun _ => Nat.le_add_right _ _, fun _ => id⟩

theorem Calm.trans (h : Calm cfg slack s t) (h' : Calm cfg slack' t u) :
    Calm cfg (slack + slack') s u := by
  refine ⟨h'.script.trans h.script, h'.now.trans h.now,
    h'.capacityCallback.trans h.capacityCallback, h'.accepted.trans h.accepted,
    h'.notified.trans h.notified, ?_, fun off => ?_, fun off => h'.frugal off ∘ h.frugal off⟩
  · have first := h.waiting
    have second := h'.waiting
    omega
  · have first := h.workLeft off
    have second := h'.workLeft off
    omega

instance : Std.Refl (Calm cfg slack) := ⟨Calm.refl⟩

instance : IsTrans HbmSystem (Calm cfg 0) := ⟨fun _ _ _ h h' => h.trans h'⟩

section

variable {price : Nat} {load : Nat → HbmController → Nat}

/-- What happens on one channel changes what is left to do by what it is for that channel. -/
theorem toDo_replace (s : HbmSystem) {channel : Nat} (t : ControllerState)
    (inside : channel < cfg.channelCount) :
    toDo cfg price load (s.update channel t) + load channel (s.controllers channel) =
      toDo cfg price load s + load channel t.ctl := by
  have here : (s.update channel t).controllers channel = t.ctl := by
    rw [update_controllers, if_pos rfl]
  have sums := sum_range_replace (f := fun ch => load ch (s.controllers ch))
    (g := fun ch => load ch ((s.update channel t).controllers ch)) inside fun ch _ apart => by
      rw [update_controllers, if_neg apart]
  simp only [here] at sums
  have same : (s.update channel t).unadmitted = s.unadmitted := rfl
  unfold toDo
  rw [same]
  omega

theorem toDo_update (s : HbmSystem) {channel : Nat} {t : ControllerState}
    (more : load channel t.ctl ≤ load channel (s.controllers channel) + slack) :
    toDo cfg price load (s.update channel t) ≤ toDo cfg price load s + slack := by
  by_cases inside : channel < cfg.channelCount
  · have replaced := @toDo_replace cfg price load s channel t inside
    omega
  · have same : toDo cfg price load (s.update channel t) = toDo cfg price load s := by
      unfold toDo
      congr 1
      apply Finset.sum_congr rfl
      intro ch hch
      have apart : ch ≠ channel := fun same => inside (same ▸ Finset.mem_range.mp hch)
      rw [update_controllers, if_neg apart]
    omega

/-- What one channel loses, the total loses. -/
theorem toDo_update_lt (s : HbmSystem) {channel : Nat} {t : ControllerState}
    (inside : channel < cfg.channelCount)
    (less : load channel t.ctl < load channel (s.controllers channel)) :
    toDo cfg price load (s.update channel t) < toDo cfg price load s := by
  have replaced := @toDo_replace cfg price load s channel t inside
  omega

end

/-- One channel has a command less to issue. -/
theorem workLeft_update_lt (s : HbmSystem) {channel : Nat} {t : ControllerState}
    (inside : channel < cfg.channelCount)
    (less : HbmController.commandsLeft (cfg.channelConfig channel) t.ctl <
      HbmController.commandsLeft (cfg.channelConfig channel) (s.controllers channel)) :
    workLeft cfg (s.update channel t) < workLeft cfg s :=
  @toDo_update_lt cfg 6 _ s channel t inside less

theorem frugal_update (s : HbmSystem) {channel : Nat} {t : ControllerState}
    (keeps : HbmController.Economical (cfg.channelConfig channel) (s.controllers channel) →
      HbmController.Economical (cfg.channelConfig channel) t.ctl)
    (h : Frugal cfg s) : Frugal cfg (s.update channel t) := by
  intro ch
  rw [update_controllers]
  split
  · subst ch
    exact keeps (h channel)
  · exact h ch

/-- An admission on one channel adds at most its commands. -/
theorem Calm.update {channel : Nat} {t : ControllerState}
    (admits : HbmController.Admits (cfg.channelConfig channel) (s.side channel) t) :
    Calm cfg 1 s (s.update channel t) :=
  ⟨rfl, rfl, rfl, rfl, rfl, toDo_update s admits.queued,
    fun off => toDo_update s (admits.pushes off).left,
    fun off => frugal_update s (admits.pushes off).economical⟩

/-- What leaves one controller's work alone leaves the system's alone. -/
theorem Calm.lift {channel : Nat} {t : ControllerState}
    (same : HbmController.SameWork (s.side channel) t) : Calm cfg 0 s (s.update channel t) := by
  have commands : HbmController.commandsLeft (cfg.channelConfig channel) t.ctl =
      HbmController.commandsLeft (cfg.channelConfig channel) (s.controllers channel) :=
    HbmController.commandsLeft_congr same.queued same.banks same.refreshPending
  have queued : t.ctl.queued.length ≤ (s.controllers channel).queued.length := by
    rw [same.queued]
    exact Nat.le_refl _
  exact ⟨rfl, rfl, rfl, rfl, rfl, toDo_update s queued, fun _ =>
    toDo_update s (Nat.le_of_eq commands),
    fun _ => frugal_update s same.economical⟩

/-! ### Events -/

theorem onController_calm {α : Type} {channel : Nat} {op : ControllerM α}
    (h : Stays HbmController.SameWork op) : Stays (Calm cfg 0) (onController cfg channel op) :=
  onController_stays Calm.lift h

theorem scheduleEvent_calm (at_ : Nat) (callback : EventCallback) :
    Stays (Calm cfg 0) (scheduleEvent at_ callback) := by
  intro s
  refine (exits_exitState (Calm cfg 0 s)).mp ?_
  refine (scheduleEvent_exits at_ callback).mono (fun _ t h => ?_) fun _ t h => ?_
  · obtain ⟨-, rfl⟩ := h
    exact ⟨rfl, rfl, rfl, rfl, rfl, Nat.le_refl _, fun _ => Nat.le_refl _, fun _ => id⟩
  · obtain ⟨-, rfl, -⟩ := h
    exact Calm.refl t

theorem scheduleControllerWake_calm (channel at_ : Nat) :
    Stays (Calm cfg 0) (scheduleControllerWake cfg channel at_) := by
  unfold scheduleControllerWake
  refine .bind .get fun s => ?_
  refine .bind (onController_calm (HbmController.markWakeup_work _)) fun needed => ?_
  exact .ite (fun _ => scheduleEvent_calm _ _) fun _ => .pure _

theorem scheduleRefreshDue_calm (channel : Nat) :
    Stays (Calm cfg 0) (scheduleRefreshDue cfg channel) := by
  unfold scheduleRefreshDue
  refine .bind (onController_calm HbmController.claimRefreshEvent_work) fun due => ?_
  cases due with
  | none => exact .pure _
  | some due => exact scheduleEvent_calm _ _

/-! ### Admission -/

/-- A charged access costs its parent a byte at least. -/
theorem toDo_charge {price : Nat} {load : Nat → HbmController → Nat} {parent : ParentRequest}
    {access : HbmAccess} (found : s.findParent parent.transaction.id = some parent)
    (unfinished : parent.admittedBytes < parent.transaction.sizeBytes)
    (sized : 0 < access.sizeBytes) :
    toDo cfg price load (s.chargeAccess parent access) + price ≤ toDo cfg price load s := by
  obtain ⟨mem, -⟩ := findParent_some found
  obtain ⟨i, hi⟩ := List.mem_iff_getElem?.mp mem
  have less : (s.chargeAccess parent access).unadmitted < s.unadmitted := by
    unfold unadmitted chargeAccess
    show ((s.parents.map _).map _).sum < _
    rw [List.map_map]
    refine sum_map_lt_of_getElem? rfl (fun j p q hp hq => ?_) hi hi ?_
    · obtain rfl := Option.some.inj (hp.symm.trans hq)
      dsimp only [Function.comp]
      split
      · exact Nat.sub_le_sub_left (Nat.le_add_right _ _) _
      · exact Nat.le_refl _
    · simp only [Function.comp, if_pos]
      omega
  have paid : price * (s.chargeAccess parent access).unadmitted + price ≤ price * s.unadmitted := by
    rw [← Nat.mul_succ]
    exact Nat.mul_le_mul_left price less
  have same : (s.chargeAccess parent access).controllers = s.controllers := rfl
  unfold toDo
  rw [same]
  omega

/-- A controller operation that returns has run on a channel there is. -/
theorem onController_ok {α : Type} {channel : Nat} {op : ControllerM α} {a : α}
    (run : onController cfg channel op s = .ok a t) :
    ∃ u, op (s.side channel) = .ok a u ∧ t = s.update channel u := by
  unfold onController at run
  split at run
  · split at run
    · rename_i u called
      cases run
      exact ⟨u, called, rfl⟩
    · cases run
  · cases run

/-- An admitted access is paid for by the bytes it charges to its parent. -/
theorem admitAccess_calm {parent : ParentRequest} {access : HbmAccess}
    (found : s.findParent parent.transaction.id = some parent)
    (unfinished : parent.admittedBytes < parent.transaction.sizeBytes)
    (sized : 0 < access.sizeBytes) :
    Calm cfg 0 s (exitState (admitAccess cfg parent access s)) := by
  unfold admitAccess
  refine Stays.bind_from (onController_calm (HbmController.reserve_work _ _) s) fun _ t run => ?_
  obtain ⟨u, -, rfl⟩ := onController_ok run
  generalize charge : (s.update access.address.flatChannel u).chargeAccess parent
    { access with sequence := (s.update access.address.flatChannel u).nextAccessSequence } = v
  have paid : ∀ {price load},
      toDo cfg price load v + price ≤ toDo cfg price load (s.update access.address.flatChannel u) := by
    intro price load
    rw [← charge]
    exact toDo_charge found unfinished sized
  have pushed : Calm cfg 1 v (exitState (onController cfg access.address.flatChannel
      (HbmController.admitReserved (cfg.channelConfig access.address.flatChannel) cfg.mapper
        { access with sequence := (s.update access.address.flatChannel u).nextAccessSequence }
        (s.update access.address.flatChannel u).now) v)) :=
    onController_from Calm.update (HbmController.admitReserved_admits _ _ _)
  show Calm cfg 0 _ (exitState (onController cfg _ _ _))
  rw [charge]
  subst charge
  refine ⟨pushed.script, pushed.now, pushed.capacityCallback, pushed.accepted, pushed.notified,
    Nat.le_trans pushed.waiting paid, fun off => ?_, pushed.frugal⟩
  exact Nat.le_trans (pushed.workLeft off) paid

theorem admitParent_calm (checked : cfg.Checked) (id rounds : Nat) (touched : List Nat) :
    Stays (Calm cfg 0) (admitParent cfg id rounds touched) := by
  induction rounds generalizing touched with
  | zero =>
      unfold admitParent
      refine .bind .get fun s => ?_
      cases s.findParent id with
      | none => exact .throw _
      | some parent => exact .ite (fun _ => .throw _) fun _ => .pure _
  | succ rounds ih =>
      unfold admitParent
      refine .getBind fun s => ?_
      cases found : s.findParent id with
      | none => exact Std.Refl.refl s
      | some parent =>
          dsimp only
          by_cases unfinished : parent.admittedBytes < parent.transaction.sizeBytes
          · rw [if_pos unfinished]
            refine Stays.bind_from (Stays.ofExcept _ s) fun access t run => ?_
            obtain ⟨next, rfl⟩ := ofExcept_eq_ok.mp run
            have sized := (HbmConfig.nextAccess_ok checked.burst checked.interleave next).2.1
            refine Stays.bind_from (onController_calm (.bind .get fun _ =>
              .pure _) t) fun free u run => ?_
            obtain ⟨v, asked, rfl⟩ := onController_ok run
            obtain rfl : t.side access.address.flatChannel = v := (EStateM.Result.ok.inj asked).2
            rw [update_side]
            by_cases full : (!free) = true
            · rw [if_pos full]
              exact Std.Refl.refl t
            · rw [if_neg full]
              obtain ⟨-, same⟩ := findParent_some found
              refine Stays.bind_from (admitAccess_calm ?_ unfinished sized) fun _ u _ => ih _ u
              rw [same]
              exact found
          · rw [if_neg unfinished]
            exact Std.Refl.refl s

theorem admitPending_calm (checked : cfg.Checked) (pending touched : List Nat) :
    Stays (Calm cfg 0) (admitPending cfg pending touched) := by
  induction pending generalizing touched with
  | nil => exact .pure _
  | cons id rest ih =>
      unfold admitPending
      refine .bind .get fun s => ?_
      refine .bind (admitParent_calm checked _ _ _) fun touched => ?_
      refine .bind (.modify fun s => ?_) fun _ => ih _
      split
      · split <;> exact ⟨rfl, rfl, rfl, rfl, rfl, Nat.le_refl _, fun _ => Nat.le_refl _,
          fun _ h => h⟩
      · exact Std.Refl.refl s

theorem wakeTouched_calm (touched channels : List Nat) :
    Stays (Calm cfg 0) (wakeTouched cfg touched channels) := by
  induction channels with
  | nil => exact .pure _
  | cons channel rest ih =>
      unfold wakeTouched
      refine .ite (fun _ => ?_) fun _ => ih
      refine .bind (scheduleRefreshDue_calm _) fun _ => ?_
      refine .bind .get fun s => ?_
      exact .bind (scheduleControllerWake_calm _ _) fun _ => ih

/-- Admission moves work from the active transactions to the channels. -/
theorem pumpAdmissions_calm (checked : cfg.Checked) : Stays (Calm cfg 0) (pumpAdmissions cfg) := by
  unfold pumpAdmissions
  refine .bind .get fun s => ?_
  exact .bind (admitPending_calm checked _ _) fun _ => wakeTouched_calm _ _

/-! ### Completion -/

/-- Accesses are credited and transactions completed, and nothing else has happened. -/
structure Credits (s t : HbmSystem) : Prop where
  script : t.script = []
  distinct : (t.parents.map (·.transaction.id)).Nodup
  scheduler : t.scheduler = s.scheduler
  capacityCallback : t.capacityCallback = s.capacityCallback
  accepted : acceptedTransactions t.trace = acceptedTransactions s.trace
  unadmitted : t.unadmitted ≤ s.unadmitted
  controllers : ∀ channel, t.controllers channel =
    { s.controllers channel with
      outstandingAccesses := (t.controllers channel).outstandingAccesses }
  notified : notifications s.trace ≤ notifications t.trace
  /-- A completed transaction has been announced. -/
  told : s.capacityCallback = true →
    notifications s.trace < notifications t.trace ∨ t.parents.length = s.parents.length

/-- A program that only credits accesses while callbacks make no calls. -/
def Credited (s t : HbmSystem) : Prop :=
  s.script = [] → (s.parents.map (·.transaction.id)).Nodup → Credits s t

theorem Credits.refl (silent : s.script = []) (distinct : (s.parents.map (·.transaction.id)).Nodup) :
    Credits s s :=
  ⟨silent, distinct, rfl, rfl, rfl, Nat.le_refl _, fun _ => rfl, Nat.le_refl _, fun _ => .inr rfl⟩

theorem Credits.trans (h : Credits s t) (h' : Credits t u) : Credits s u where
  script := h'.script
  distinct := h'.distinct
  scheduler := h'.scheduler.trans h.scheduler
  capacityCallback := h'.capacityCallback.trans h.capacityCallback
  accepted := h'.accepted.trans h.accepted
  unadmitted := Nat.le_trans h'.unadmitted h.unadmitted
  controllers channel := by rw [h'.controllers channel, h.controllers channel]
  notified := Nat.le_trans h.notified h'.notified
  told present := by
    rcases h.told present with told | same
    · exact .inl (Nat.lt_of_lt_of_le told h'.notified)
    · rcases h'.told (h.capacityCallback.trans present) with told | same'
      · exact .inl (Nat.lt_of_le_of_lt h.notified told)
      · exact .inr (same'.trans same)

instance : Std.Refl Credited := ⟨fun _ => Credits.refl⟩

instance : IsTrans HbmSystem Credited :=
  ⟨fun _ _ _ h h' silent distinct =>
    have first := h silent distinct
    first.trans (h' first.script first.distinct)⟩

/-- With an empty script the client does nothing. -/
theorem invokeClient_silent (silent : s.script = []) :
    Exits (invokeClient cfg) (fun _ t => t = s) (fun _ _ => False) s := by
  obtain ⟨_, _, _, _, _, _, _, _, _, _, script, _, _⟩ := s
  obtain rfl : script = [] := silent
  exact rfl

/-- The state after the capacity callback is called. -/
def announced (cfg : HbmConfig) (s : HbmSystem) (channel at_ : Nat) : HbmSystem :=
  s.observe (.notified ⟨at_, channel,
    (s.controllers channel).availableReadSlots (cfg.channelConfig channel),
    (s.controllers channel).availableWriteSlots (cfg.channelConfig channel)⟩)

/-- A notification is counted once. -/
theorem notifications_announced (cfg : HbmConfig) (s : HbmSystem) (channel at_ : Nat) :
    notifications (announced cfg s channel at_).trace = notifications s.trace + 1 :=
  List.countP_cons_of_pos rfl

/-- With an empty script a capacity event is observed and nothing else. -/
theorem notifyCapacity_silent (silent : s.script = []) (channel at_ : Nat) :
    Exits (notifyCapacity cfg channel at_)
      (fun _ t => t = if s.capacityCallback then announced cfg s channel at_ else s)
      (fun _ _ => False) s := by
  unfold notifyCapacity
  simp only [exits_bind, exits_get, exits_ite, exits_modify, exits_pure]
  refine ⟨fun present => ?_, fun absent => ?_⟩
  · rw [if_pos present]
    exact invokeClient_silent (s := announced cfg s channel at_) silent
  · rw [if_neg absent]

/-- What a completed transaction leaves, besides the announcement. -/
theorem unadmitted_retire (cfg : HbmConfig) (s : HbmSystem) (request : ParentRequest) :
    (s.retireParent cfg request).unadmitted ≤ s.unadmitted :=
  (List.filter_sublist.map _).sum_le_sum fun _ _ => Nat.zero_le _

/-- Retiring a parent notifies no capacity. -/
theorem notifications_retire (cfg : HbmConfig) (s : HbmSystem) (request : ParentRequest) :
    notifications (s.retireParent cfg request).trace = notifications s.trace :=
  List.countP_cons_of_neg Bool.false_ne_true

theorem completeParent_credited (id : Nat) : Stays Credited (completeParent cfg id) := by
  intro s silent distinct
  refine (exits_exitState (Credits s)).mp ?_
  unfold completeParent
  simp only [exits_bind, exits_get]
  cases s.findParent id with
  | none => exact Credits.refl silent distinct
  | some request =>
      simp only [exits_bind, exits_modify, exits_get, exits_ite]
      have announces : ∀ at_, Exits (notifyCapacity cfg request.completionChannel at_)
          (fun _ t => Credits s t) (fun _ t => Credits s t) (s.retireParent cfg request) := by
        intro at_
        refine (notifyCapacity_silent (s := s.retireParent cfg request) silent _ at_).mono
          (fun _ t h => ?_) fun _ _ h => h.elim
        have ids : ((s.retireParent cfg request).parents.map (·.transaction.id)).Nodup :=
          distinct.sublist (List.filter_sublist.map _)
        by_cases present : s.capacityCallback = true
        · obtain rfl := h.trans (if_pos present)
          have told := notifications_announced cfg (s.retireParent cfg request)
            request.completionChannel at_
          rw [notifications_retire] at told
          exact ⟨silent, ids, rfl, rfl, rfl, unadmitted_retire cfg s request, fun _ =>
            rfl, by omega,
            fun _ => .inl (by omega)⟩
        · obtain rfl := h.trans (if_neg present)
          exact ⟨silent, ids, rfl, rfl, rfl, unadmitted_retire cfg s request, fun _ => rfl,
            Nat.le_of_eq (notifications_retire cfg s request).symm, fun here => absurd here present⟩
      refine ⟨fun _ => ?_, fun _ => announces _⟩
      refine (invokeClient_silent (s := s.retireParent cfg request) silent).mono
        (fun _ t h => ?_) fun _ _ h => h.elim
      subst h
      exact announces _

/-- Crediting an access to its parent. -/
theorem credit_credited {request : ParentRequest} {access : LogicalCompletion}
    {channel completionTime : Nat} (found : s.findParent access.parentId = some request) :
    Credited s ((s.modifyParent access.parentId fun _ =>
      creditAccess request access channel completionTime).observe
        (.finished request.ticket channel access completionTime)) := by
  intro silent distinct
  obtain ⟨mem, id⟩ := findParent_some found
  have keeps : (creditAccess request access channel completionTime).transaction =
      request.transaction ∧ (creditAccess request access channel completionTime).admittedBytes =
        request.admittedBytes := by
    unfold creditAccess
    dsimp only
    split <;> exact ⟨rfl, rfl⟩
  have parents : ∀ p ∈ s.parents, ∀ p', p' = (if p.transaction.id = access.parentId then
      creditAccess request access channel completionTime else p) →
        p'.transaction = p.transaction ∧ p'.admittedBytes = p.admittedBytes := by
    rintro p hp p' rfl
    split
    · rename_i same
      obtain rfl := List.inj_on_of_nodup_map distinct hp mem (same.trans id.symm)
      exact keeps
    · exact ⟨rfl, rfl⟩
  refine ⟨silent, ?_, rfl, rfl, rfl, ?_, fun _ => rfl, ?_, fun _ => .inr (List.length_map _)⟩
  · show ((s.parents.map _).map fun p : ParentRequest => p.transaction.id).Nodup
    rw [List.map_map]
    have same : s.parents.map ((·.transaction.id) ∘ fun p => if p.transaction.id = access.parentId
        then creditAccess request access channel completionTime else p) =
          s.parents.map (·.transaction.id) :=
      List.map_congr_left fun p hp => congrArg (·.id) (parents p hp _ rfl).1
    rw [same]
    exact distinct
  · show ((s.parents.map _).map _).sum ≤ _
    rw [List.map_map]
    refine Nat.le_of_eq (congrArg List.sum (List.map_congr_left fun p hp => ?_))
    obtain ⟨same, bytes⟩ := parents p hp _ rfl
    simp only [Function.comp, same, bytes]
  · exact Nat.le_of_eq (List.countP_cons_of_neg Bool.false_ne_true).symm

theorem completeAccess_credited (channel : Nat) (access : LogicalCompletion) :
    Stays Credited (onController cfg channel
      (HbmController.completeAccess (cfg.channelConfig channel) access)) := by
  refine onController_stays (P := HbmController.OnlyCounts)
    (fun {s t} only silent distinct => ?_) ?_
  · refine ⟨silent, distinct, rfl, rfl, rfl, Nat.le_refl _, fun ch => ?_, Nat.le_refl _,
      fun _ => .inr rfl⟩
    show (if ch = channel then t.ctl else s.controllers ch) =
      { s.controllers ch with outstandingAccesses :=
        (if ch = channel then t.ctl else s.controllers ch).outstandingAccesses }
    split
    · subst ch
      exact only
    · rfl
  · exact HbmController.completeAccess_counts access

theorem finishAccess_credited (access : LogicalCompletion) (channel completionTime : Nat) :
    Stays Credited (finishAccess cfg access channel completionTime) := by
  unfold finishAccess
  refine .bind (completeAccess_credited _ _) fun _ => ?_
  refine .getBind fun s => ?_
  cases found : s.findParent access.parentId with
  | none => exact Std.Refl.refl s
  | some request =>
      dsimp only
      by_cases none : request.remainingAccesses = 0
      · rw [if_pos none]
        exact Std.Refl.refl s
      · rw [if_neg none]
        refine Stays.bind_from (credit_credited found) fun _ t _ => ?_
        exact Stays.ite (fun _ => completeParent_credited _) (fun _ => .pure _) t

theorem finishAccesses_credited (channel completionTime : Nat) (accesses : List LogicalCompletion) :
    Stays Credited (finishAccesses cfg channel completionTime accesses) := by
  induction accesses with
  | nil => exact .pure _
  | cons access rest ih => exact .bind (finishAccess_credited _ _ _) fun _ => ih

end HbmSystem

end HbmSim
