import HbmSim.Controller.Frame
import HbmSim.System.Moves

/-!
Events and wake marks.

The queue is ordered, every event of the system is dispatched at the time its
closure captured, and a wake mark is always backed by an event at its instant. A
channel with something to do has its mark, or is owed one.
-/

namespace HbmSim

open HbmSim.Lib HbmSystem

/-- The closure of a system event captured the time of its event and a channel of
the system. -/
def EventCallback.Stamped (count time : Nat) : EventCallback → Prop
  | .wake channel at_ => at_ = time ∧ channel < count
  | .refreshDue channel due => due = time ∧ channel < count
  | .accessDone channel issued => issued.completionTime = time ∧ channel < count
  | .capacity channel at_ => at_ = time ∧ channel < count
  | .client _ => True

/-- The events and the wake marks agree. -/
structure Scheduled (cfg : HbmConfig) (s : HbmSystem) : Prop where
  ordered : s.scheduler.Ordered
  stamped : ∀ e ∈ s.scheduler.events, e.callback.Stamped cfg.channelCount e.time
  marked : ∀ channel t, (s.controllers channel).wakeupAt = some t →
    ∃ e ∈ s.scheduler.events, e.callback = .wake channel t

/-- A channel with something to do has its wake event, or is owed one. -/
def Attended (s : HbmSystem) (d : Debts) (channel : Nat) : Prop :=
  (s.controllers channel).Idle ∨ (s.controllers channel).wakeupAt.isSome ∨ channel ∈ d.wakes

/-- Every channel is attended to. -/
def Awake (s : HbmSystem) (d : Debts) : Prop :=
  d.escaped = true ∨ ∀ channel, Attended s d channel

section

variable {cfg : HbmConfig} {s t : HbmSystem} {d : Debts}

/-! ### The queue and the marks -/

/-- A change that touches neither the queue nor a mark. -/
theorem Scheduled.frame (h : Scheduled cfg s) (scheduler : t.scheduler = s.scheduler)
    (marks : ∀ channel, (t.controllers channel).wakeupAt = (s.controllers channel).wakeupAt) :
    Scheduled cfg t where
  ordered := scheduler ▸ h.ordered
  stamped := scheduler ▸ h.stamped
  marked channel at_ hmark := by
    rw [marks] at hmark
    rw [scheduler]
    exact h.marked channel at_ hmark

/-- A controller that keeps its wakeup mark. -/
theorem Scheduled.update (h : Scheduled cfg s) {channel : Nat} {u : ControllerState}
    (mark : u.ctl.wakeupAt = (s.controllers channel).wakeupAt) :
    Scheduled cfg (s.update channel u) := by
  refine h.frame rfl fun c => ?_
  by_cases hc : c = channel
  · subst hc
    simpa using mark
  · simp [hc]

/-- An event of the future with its own stamp. -/
theorem Scheduled.schedule (h : Scheduled cfg s) {at_ : Nat} {callback : EventCallback}
    (future : s.now ≤ at_) (stamped : callback.Stamped cfg.channelCount at_) :
    Scheduled cfg (s.schedule at_ callback) where
  ordered := h.ordered.emplace future callback
  stamped e he := by
    rcases mem_emplaceEvent.mp he with rfl | he
    · exact stamped
    · exact h.stamped e he
  marked channel t hmark := by
    obtain ⟨e, he, hcallback⟩ := h.marked channel t hmark
    exact ⟨e, mem_emplaceEvent.mpr (.inr he), hcallback⟩

/-- Setting a mark together with its event. -/
theorem Scheduled.markWake (h : Scheduled cfg s) {channel at_ : Nat}
    (hchannel : channel < cfg.channelCount) (future : s.now ≤ at_) :
    Scheduled cfg (s.markWake channel at_) where
  ordered := h.ordered.emplace future _
  stamped e he := by
    rcases mem_emplaceEvent.mp he with rfl | he
    · exact ⟨rfl, hchannel⟩
    · exact h.stamped e he
  marked c t hmark := by
    replace hmark : ((s.modifyController channel fun c =>
      { c with wakeupAt := some at_ }).controllers
      c).wakeupAt = some t := hmark
    rw [modifyController_controllers] at hmark
    split at hmark
    · subst c
      obtain rfl := Option.some.inj hmark
      exact ⟨_, mem_emplaceEvent.mpr (.inl rfl), rfl⟩
    · obtain ⟨e, he, hcallback⟩ := h.marked c t hmark
      exact ⟨e, mem_emplaceEvent.mpr (.inr he), hcallback⟩

/-- A refresh event of the future. -/
theorem Scheduled.markRefresh (h : Scheduled cfg s) {channel due : Nat}
    (hchannel : channel < cfg.channelCount) (future : s.now ≤ due) :
    Scheduled cfg (s.markRefresh channel due) := by
  refine Scheduled.schedule (h.frame (t := s.modifyController channel _) rfl fun c => ?_) future
    ⟨rfl, hchannel⟩
  rw [modifyController_controllers]
  split
  · subst c
    rfl
  · rfl

/-- Taking off an event that backs no mark of the system it leaves. -/
theorem Scheduled.pop (h : Scheduled cfg s) {event : Event EventCallback}
    {rest : List (Event EventCallback)} (next : s.scheduler.events = event :: rest)
    (scheduler : t.scheduler = (s.pop event rest).scheduler)
    (marks : ∀ channel at_, (t.controllers channel).wakeupAt = some at_ →
      (s.controllers channel).wakeupAt = some at_ ∧ event.callback ≠ .wake channel at_) :
    Scheduled cfg t where
  ordered := scheduler ▸ h.ordered.take next _
  stamped e he := by
    rw [scheduler] at he
    exact h.stamped e (next ▸ List.mem_cons_of_mem _ he)
  marked channel at_ hmark := by
    obtain ⟨before, other⟩ := marks channel at_ hmark
    obtain ⟨e, he, hcallback⟩ := h.marked channel at_ before
    rw [next] at he
    rcases List.mem_cons.mp he with rfl | he
    · exact absurd hcallback other
    · rw [scheduler]
      exact ⟨e, he, hcallback⟩

/-- Every move keeps the events and the marks in step. -/
theorem Scheduled.move {p q : HbmSystem × Debts} (move : Move cfg p q)
    (h : Scheduled cfg p.1) : Scheduled cfg q.1 := by
  cases move with
  | control _ step => exact h.update step.marks.wakeupAt
  | stir _ step => exact h.update step.marks.wakeupAt
  | calm => exact h
  | transfer _ step => exact (h.update step.marks.wakeupAt).frame rfl fun _ => rfl
  | awake => exact h
  | wake hchannel future => exact h.markWake hchannel future
  | armed => exact h
  | arm hchannel future => exact h.markRefresh hchannel future
  | misarm =>
      refine h.frame rfl fun c => ?_
      rw [modifyController_controllers]
      split
      · subst c
        rfl
      · rfl
  | accept => exact h.frame rfl fun _ => rfl
  | charge =>
      refine h.frame rfl fun c => ?_
      rw [charge_controllers]
      split
      · subst c
        rfl
      · rfl
  | push =>
      refine h.frame rfl fun c => ?_
      rw [push_controllers]
      split
      · subst c
        rfl
      · rfl
  | blocked => exact h
  | close => exact h.frame rfl fun _ => rfl
  | credit =>
      refine h.frame rfl fun c => ?_
      rw [credit_controllers]
      split
      · subst c
        rfl
      · rfl
  | retire => exact h.frame rfl fun _ => rfl
  | complete hchannel _ future => exact h.schedule future ⟨rfl, hchannel⟩
  | announce hchannel => exact h.schedule (Nat.le_refl _) ⟨rfl, hchannel⟩
  | @client _ _ at_ tag future =>
      have stamped : (EventCallback.client tag).Stamped cfg.channelCount at_ := trivial
      exact (h.schedule future stamped).frame rfl fun _ => rfl
  | reject => exact h.frame rfl fun _ => rfl
  | setScript => exact h.frame rfl fun _ => rfl
  | setCallbacks => exact h.frame rfl fun _ => rfl
  | notify => exact h.frame rfl fun _ => rfl
  | return_ => exact h.frame rfl fun _ => rfl

theorem clearWakeup_wakeupAt (c : HbmController) (at_ : Nat) {t : Nat}
    (h : (c.clearWakeup at_).wakeupAt = some t) : c.wakeupAt = some t ∧ t ≠ at_ := by
  unfold HbmController.clearWakeup at h
  split at h
  · cases h
  · rename_i hne
    exact ⟨h, fun heq => hne (heq ▸ h)⟩

/-- Every turn keeps the schedule. -/
theorem Scheduled.turn {p q : HbmSystem × Debts} (turn : Turn cfg p q)
    (h : Scheduled cfg p.1) : Scheduled cfg q.1 := by
  cases turn with
  | @wake s _ event rest channel next callback =>
      refine h.pop next rfl fun c t hmark => ?_
      rw [modifyController_controllers] at hmark
      split at hmark
      · subst c
        obtain ⟨before, hne⟩ := clearWakeup_wakeupAt _ _ hmark
        refine ⟨before, fun same => hne ?_⟩
        rw [callback] at same
        cases same
        rfl
      · rename_i hc
        refine ⟨hmark, fun same => hc ?_⟩
        rw [callback] at same
        cases same
        rfl
  | refreshDue next callback =>
      refine h.pop next rfl fun c t hmark => ⟨?_, by simp [callback]⟩
      rw [modifyController_controllers] at hmark
      split at hmark
      · subst c
        unfold HbmController.disarm at hmark
        split at hmark <;> exact hmark
      · exact hmark
  | accessDone next callback =>
      exact h.pop next rfl fun c t hmark => ⟨hmark, by simp [callback]⟩
  | other next callback =>
      refine h.pop next rfl fun c t hmark => ⟨hmark, ?_⟩
      rcases callback with ⟨_, hcallback⟩ | ⟨_, hcallback⟩ <;> simp [hcallback]
  | advance later nothing => exact ⟨h.ordered.advance nothing, h.stamped, h.marked⟩
  | escape => exact h
  | lose _ step => exact h.update step.marks.wakeupAt

theorem scheduled_initial : Scheduled cfg (initial cfg) where
  ordered := ⟨.nil, by simp [initial], by simp [initial]⟩
  stamped := by simp [initial]
  marked channel t hmark := by cases hmark

/-- In every run the events are ordered, in the future and stamped. -/
theorem HbmSystem.Run.scheduled {p : HbmSystem × Debts} (run : Run cfg p) : Scheduled cfg p.1 := by
  induction run with
  | create => exact scheduled_initial
  | move _ move ih => exact ih.move move
  | turn _ turn ih => exact ih.turn turn

/-! ### Channels with something to do -/

theorem Awake.frame {d' : Debts} (h : Awake s d) (escaped : d.escaped = true → d'.escaped = true)
    (channels : ∀ channel, Attended s d channel → Attended t d' channel) : Awake t d' := by
  rcases h with h | h
  · exact .inl (escaped h)
  · exact .inr fun channel => channels channel (h channel)

/-- A channel whose members needed for attention are the same stays attended to. -/
theorem Attended.same {d' : Debts} {channel : Nat} (h : Attended s d channel)
    (idle : (s.controllers channel).Idle → (t.controllers channel).Idle)
    (mark : (t.controllers channel).wakeupAt = (s.controllers channel).wakeupAt)
    (wakes : channel ∈ d.wakes → channel ∈ d'.wakes) : Attended t d' channel := by
  unfold Attended at *
  rw [mark]
  exact h.imp idle (Or.imp_right wakes)

/-- A change of one channel that keeps it attended to. -/
theorem Awake.change {d' : Debts} (h : Awake s d) {channel : Nat} {c : HbmController}
    (controllers : ∀ ch, t.controllers ch = if ch = channel then c else s.controllers ch)
    (escaped : d'.escaped = d.escaped) (wakes : ∀ ch ∈ d.wakes, ch ∈ d'.wakes)
    (attended : Attended s d channel → Attended t d' channel) : Awake t d' := by
  refine h.frame (fun h => escaped.trans h) fun ch hch => ?_
  by_cases hc : ch = channel
  · subst hc
    exact attended hch
  · have same : t.controllers ch = s.controllers ch := by rw [controllers, if_neg hc]
    exact hch.same (fun idle => same ▸ idle) (by rw [same]) (wakes ch)

theorem DataStep.not_idle {config : HbmControllerConfig} {mapper : HbmAddressMapper} {now : Nat}
    {s t : ControllerState} {phys : PhysicalAccess}
    (step : HbmController.DataStep config mapper now s phys t) : ¬ s.ctl.Idle := by
  intro idle
  cases step with
  | @mk w index _ _ _ a _ _ _ _ demand =>
      have access := demand.access
      rw [idle.2 w] at access
      simp at access

/-- No move leaves a channel with something to do unattended. -/
theorem Awake.move {p q : HbmSystem × Debts} (move : Move cfg p q) (h : Awake p.1 p.2) :
    Awake q.1 q.2 := by
  -- only a step, an admission and a transfer give work; each owes the channel a wake
  cases move with
  | @control s d channel t _ step calm =>
      refine h.change (update_controllers s channel t) rfl (fun _ h => h) fun attended => ?_
      refine attended.same ?_ ?_ id
      · simpa using calm
      · simpa using step.marks.wakeupAt
  | @stir s d channel t =>
      exact h.change (update_controllers s channel t) rfl (fun _ => List.mem_cons_of_mem _)
        fun _ => .inr (.inr List.mem_cons_self)
  | calm => exact h
  | @transfer s d channel _ t _ step =>
      refine h.change (update_controllers s channel t) rfl (fun _ h => h) fun attended => ?_
      refine attended.same ?_ ?_ id
      · exact fun idle => absurd idle (DataStep.not_idle step)
      · show ((s.update channel t).controllers channel).wakeupAt = _
        rw [update_controllers, if_pos rfl]
        exact step.marks.wakeupAt
  | @awake s d channel covered =>
      refine h.frame id fun c attended => ?_
      by_cases hc : c = channel
      · subst hc
        rcases covered with covered | covered
        · exact .inr (.inl covered)
        · exact .inl covered
      · exact attended.same id rfl fun hmem => List.mem_filter.mpr ⟨hmem, by simpa using hc⟩
  | @wake s d channel at_ =>
      refine h.change (markWake_controllers s channel at_) rfl (fun _ h => h) fun _ => ?_
      refine .inr (.inl ?_)
      rw [markWake_controllers, if_pos rfl]
      rfl
  | armed => exact h
  | @arm s d channel due =>
      refine h.change (markRefresh_controllers s channel due) rfl (fun _ h => h) fun attended => ?_
      refine attended.same (fun idle => ?_) ?_ id
      · rw [markRefresh_controllers, if_pos rfl]
        exact idle
      · rw [markRefresh_controllers, if_pos rfl]
  | @misarm s d channel due =>
      refine h.change (markRefresh_controllers s channel due) rfl (fun _ h => h) fun attended => ?_
      refine attended.same (fun idle => ?_) ?_ id
      · rw [modifyController_controllers, if_pos rfl]
        exact idle
      · rw [modifyController_controllers, if_pos rfl]
  | accept => exact h
  | @charge s d parent access =>
      refine h.change (charge_controllers s parent access) rfl (fun _ h => h) fun attended => ?_
      refine attended.same (fun idle => ?_) ?_ id
      · rw [charge_controllers, if_pos rfl]
        exact idle
      · rw [charge_controllers, if_pos rfl]
        rfl
  | @push s d access =>
      exact h.change (push_controllers cfg s access) rfl (fun _ => List.mem_cons_of_mem _)
        fun _ => .inr (.inr List.mem_cons_self)
  | blocked => exact h
  | close => exact h
  | @credit s d channel access parent =>
      refine h.change (credit_controllers cfg s channel access parent) rfl (fun _ h => h)
        fun attended => ?_
      refine attended.same (fun idle => ?_) ?_ id
      · rw [credit_controllers, if_pos rfl]
        exact idle
      · rw [credit_controllers, if_pos rfl]
        rfl
  | retire => exact h
  | complete => exact h
  | announce => exact h
  | client => exact h
  | reject => exact h
  | setScript => exact h
  | setCallbacks => exact h
  | notify => exact h
  | return_ => exact h

/-- Every turn keeps the channels awake. -/
theorem Awake.turn {p q : HbmSystem × Debts} (turn : Turn cfg p q) (h : Awake p.1 p.2) :
    Awake q.1 q.2 := by
  cases turn with
  | @wake s d event rest channel =>
      exact h.change (modifyController_controllers (s.pop event rest) channel _) rfl
        (fun _ => List.mem_cons_of_mem _) fun _ => .inr (.inr List.mem_cons_self)
  | @refreshDue s d event rest channel =>
      refine h.change (modifyController_controllers (s.pop event rest) channel _) rfl
        (fun _ h => h) fun attended => ?_
      have disarmed : ∀ c : HbmController, (c.disarm event.time).wakeupAt = c.wakeupAt ∧
          (c.Idle → (c.disarm event.time).Idle) := by
        intro c
        unfold HbmController.disarm
        split
        · exact ⟨rfl, id⟩
        · exact ⟨rfl, id⟩
      refine attended.same (fun idle => ?_) ?_ id
      · rw [modifyController_controllers, if_pos rfl]
        exact (disarmed _).2 idle
      · rw [modifyController_controllers, if_pos rfl]
        exact (disarmed _).1
  | accessDone => exact h
  | other => exact h
  | advance => exact h
  | escape => exact .inl rfl
  | lose => exact .inl rfl

theorem idle_initial (config : HbmControllerConfig) : (HbmController.initial config).Idle := by
  refine ⟨⟨rfl, fun b hb => ?_⟩, fun w => ?_⟩
  · obtain rfl := List.eq_of_mem_replicate hb
    exact ⟨rfl, rfl⟩
  · cases w <;> rfl

/-- In every run each channel is idle or attended to. -/
theorem HbmSystem.Run.awake {p : HbmSystem × Debts} (run : Run cfg p) : Awake p.1 p.2 := by
  induction run with
  | create => exact .inr fun channel => .inl (idle_initial _)
  | move _ move ih => exact ih.move move
  | turn _ turn ih => exact ih.turn turn

end

end HbmSim
