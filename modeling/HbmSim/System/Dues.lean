import HbmSim.System.Checked
import HbmSim.System.Wakeups

/-!
Due instants of refresh and their events.

While a channel has outstanding accesses, its next due instant has an event and
is not in the past, unless a time has left 64 bits. So no command is served past
an instant at which a refresh was due.
-/

namespace HbmSim

open HbmSim.Lib HbmSystem

/-- The due instants of the channels agree with the events. -/
structure Armed (s : HbmSystem) (d : Debts) : Prop where
  events : ∀ channel due, (s.controllers channel).refreshDueAt = some due →
    ∃ e ∈ s.scheduler.events, e.callback = .refreshDue channel due
  next : ∀ channel, (s.controllers channel).outstandingAccesses ≠ 0 → channel ∉ d.rearm →
    ∀ due, (s.controllers channel).nextRefreshDue = some due →
      (s.controllers channel).refreshDueAt = some due
  future : ∀ channel, (s.controllers channel).outstandingAccesses ≠ 0 →
    ∀ due, (s.controllers channel).nextRefreshDue = some due → s.now ≤ due

/-- The due instants are armed, unless an exception has escaped or a time has left
64 bits. -/
def Punctual (cfg : HbmConfig) (s : HbmSystem) (d : Debts) : Prop :=
  d.escaped = true ∨ Overflowed cfg s ∨ Armed s d

section

variable {cfg : HbmConfig} {s t : HbmSystem} {d d' : Debts}

/-! ### Times that left 64 bits -/

theorem HbmSystem.Overflowed.update (h : Overflowed cfg s) {channel : Nat} {c : HbmController}
    (controllers : ∀ ch, t.controllers ch = if ch = channel then c else s.controllers ch)
    (now : t.now = s.now)
    (wrapped : (s.controllers channel).wrapped = true → c.wrapped = true) : Overflowed cfg t := by
  rcases h with h | ⟨ch, hch, h⟩
  · exact .inl (now ▸ h)
  · refine .inr ⟨ch, hch, ?_⟩
    rw [controllers]
    split
    · subst ch
      exact wrapped h
    · exact h

theorem HbmSystem.Overflowed.move {p q : HbmSystem × Debts} (move : Move cfg p q)
    (h : Overflowed cfg p.1) : Overflowed cfg q.1 := by
  cases move with
  | @control s d channel t _ step => exact h.update (update_controllers s channel t) rfl step.wrapped
  | @stir s d channel t _ step => exact h.update (update_controllers s channel t) rfl step.wrapped
  | calm => exact h
  | @transfer s d channel _ t _ step =>
      exact h.update (update_controllers s channel t) rfl step.wrapped
  | awake => exact h
  | @wake s d channel at_ => exact h.update (markWake_controllers s channel at_) rfl id
  | armed => exact h
  | @arm s d channel due => exact h.update (markRefresh_controllers s channel due) rfl id
  | @misarm s d channel due =>
      have same := modifyController_controllers s channel fun c =>
        { c with refreshDueAt := some due }
      exact h.update same rfl id
  | accept => exact h
  | @charge s d parent access => exact h.update (charge_controllers s parent access) rfl id
  | @push s d access => exact h.update (push_controllers cfg s access) rfl id
  | blocked => exact h
  | close => exact h
  | @credit s d channel access parent =>
      exact h.update (credit_controllers cfg s channel access parent) rfl id
  | retire => exact h
  | complete => exact h
  | announce => exact h
  | client => exact h
  | reject => exact h
  | setScript => exact h
  | setCallbacks => exact h
  | notify => exact h
  | return_ => exact h

/-- The clock only moves on. -/
theorem HbmSystem.Turn.now_le {p q : HbmSystem × Debts} (turn : Turn cfg p q) (scheduled : Scheduled cfg p.1) :
    p.1.now ≤ q.1.now := by
  have first : ∀ {s : HbmSystem} {event rest}, Scheduled cfg s →
      s.scheduler.events = event :: rest → s.now ≤ event.time := fun h next =>
    h.ordered.future _ (next ▸ List.mem_cons_self)
  cases turn with
  | wake next => exact first scheduled next
  | refreshDue next => exact first scheduled next
  | accessDone next => exact first scheduled next
  | other next => exact first scheduled next
  | advance later => exact later
  | escape => exact Nat.le_refl _
  | lose => exact Nat.le_refl _

theorem HbmSystem.Overflowed.turn {p q : HbmSystem × Debts} (turn : Turn cfg p q)
    (scheduled : Scheduled cfg p.1) (h : Overflowed cfg p.1) : Overflowed cfg q.1 := by
  have later := turn.now_le scheduled
  rcases h with h | ⟨ch, hch, h⟩
  · exact .inl (Nat.le_trans h later)
  · refine .inr ⟨ch, hch, ?_⟩
    have cleared : ∀ (c : HbmController) (at_ : Nat), (c.clearWakeup at_).wrapped = c.wrapped := by
      intro c at_
      unfold HbmController.clearWakeup
      split <;> rfl
    have disarmed : ∀ (c : HbmController) (at_ : Nat), (c.disarm at_).wrapped = c.wrapped := by
      intro c at_
      unfold HbmController.disarm
      split <;> rfl
    cases turn with
    | @wake s d event rest channel =>
        rw [modifyController_controllers]
        split
        · subst ch
          rw [cleared]
          exact h
        · exact h
    | @refreshDue s d event rest channel =>
        rw [modifyController_controllers]
        split
        · subst ch
          rw [disarmed]
          exact h
        · exact h
    | accessDone => exact h
    | other => exact h
    | advance => exact h
    | escape => exact h
    | @lose s d channel lost t _ step =>
        rw [update_controllers]
        split
        · subst ch
          exact step.wrapped h
        · exact h

/-! ### Armed channels -/

/-- A change of one controller that keeps its marks. -/
theorem Armed.update (h : Armed s d) {channel : Nat} {c : HbmController}
    (controllers : ∀ ch, t.controllers ch = if ch = channel then c else s.controllers ch)
    (scheduler : t.scheduler = s.scheduler)
    (refreshDueAt : c.refreshDueAt = (s.controllers channel).refreshDueAt)
    (rearm : ∀ ch ∈ d.rearm, ch ∈ d'.rearm)
    (next : channel ∈ d'.rearm ∨ c.nextRefreshDue = (s.controllers channel).nextRefreshDue ∧
      (c.outstandingAccesses ≠ 0 → (s.controllers channel).outstandingAccesses ≠ 0))
    (future : c.outstandingAccesses ≠ 0 → ∀ due, c.nextRefreshDue = some due → s.now ≤ due) :
    Armed t d' where
  events ch due hdue := by
    rw [scheduler]
    rw [controllers] at hdue
    split at hdue
    · subst ch
      exact h.events channel due (refreshDueAt ▸ hdue)
    · exact h.events ch due hdue
  next ch live hrearm due hdue := by
    rw [controllers] at live hdue ⊢
    split at live
    · subst ch
      rw [if_pos rfl] at hdue ⊢
      rcases next with mem | ⟨same, live'⟩
      · exact absurd mem hrearm
      · rw [refreshDueAt]
        exact h.next channel (live' live) (fun mem => hrearm (rearm channel mem)) due (same ▸ hdue)
    · rename_i hch
      rw [if_neg hch] at hdue ⊢
      exact h.next ch live (fun mem => hrearm (rearm ch mem)) due hdue
  future ch live due hdue := by
    have now : t.now = s.now := congrArg EventQueue.now scheduler
    rw [controllers] at live hdue
    rw [now]
    split at live
    · subst ch
      rw [if_pos rfl] at hdue
      exact future live due hdue
    · rename_i hch
      rw [if_neg hch] at hdue
      exact h.future ch live due hdue

/-- A change that touches neither controllers nor pending refresh events. -/
theorem Armed.frame (h : Armed s d) (controllers : t.controllers = s.controllers)
    (events : ∀ e ∈ s.scheduler.events, e ∈ t.scheduler.events) (now : t.now = s.now)
    (rearm : d'.rearm = d.rearm) : Armed t d' where
  events ch due hdue := by
    obtain ⟨e, he, hcallback⟩ := h.events ch due (controllers ▸ hdue)
    exact ⟨e, events e he, hcallback⟩
  next ch := by
    rw [controllers, rearm]
    exact h.next ch
  future ch := by
    rw [controllers, now]
    exact h.future ch

theorem schedule_mem {at_ : Nat} {callback : EventCallback} :
    ∀ e ∈ s.scheduler.events, e ∈ (s.schedule at_ callback).scheduler.events :=
  fun _ he => mem_emplaceEvent.mpr (.inr he)

/-- A step of refresh handling keeps due instants ahead of the clock, or a sum
leaves 64 bits. -/
theorem ControllerStep.future {config : HbmControllerConfig} {mapper : HbmAddressMapper} {now : Nat}
    {s t : ControllerState} (step : HbmController.ControllerStep config mapper now s t)
    (future : s.ctl.outstandingAccesses ≠ 0 → ∀ due, s.ctl.nextRefreshDue = some due → now ≤ due) :
    t.ctl.wrapped = true ∨
      (t.ctl.outstandingAccesses ≠ 0 → ∀ due, t.ctl.nextRefreshDue = some due → now ≤ due) := by
  have kept : t.ctl.nextRefreshDue = s.ctl.nextRefreshDue →
      t.ctl.outstandingAccesses ≠ 0 → ∀ due, t.ctl.nextRefreshDue = some due → now ≤ due := by
    intro same live due hdue
    exact future (step.marks.outstandingAccesses ▸ live) due (same ▸ hdue)
  cases step with
  | retouch touched => exact .inr (kept (by rw [touched.ctl]))
  | raise due =>
      refine .inr (kept ?_)
      show (s.ctl.raise config due).nextRefreshDue = s.ctl.nextRefreshDue
      rw [HbmController.raise_frame]
  | advanceDue base base_le first next =>
      by_cases sum : base + config.refreshInterval < 2 ^ 64
      · refine .inr fun live due hdue => ?_
        obtain rfl : SimTime.add base config.refreshInterval = due := Option.some.inj hdue
        rw [SimTime.add_of_lt sum]
        have base_ge : now ≤ base := by
          cases hnext : s.ctl.nextRefreshDue with
          | none => exact Nat.le_of_eq (first hnext).1.symm
          | some due => exact next due hnext ▸ future live due hnext
        omega
      · refine .inl ?_
        show (s.ctl.wrapped || decide (2 ^ 64 ≤ base + config.refreshInterval)) = true
        simp only [Bool.or_eq_true, decide_eq_true_eq]
        exact .inr (Nat.not_lt.mp sum)
  | maintain step => exact .inr (kept (by rw [step.frame]))
  | row step => exact .inr (kept (by rw [step.frame]))

theorem Punctual.move {p q : HbmSystem × Debts} (move : Move cfg p q) (h : Punctual cfg p.1 p.2) :
    Punctual cfg q.1 q.2 := by
  have escaped : p.2.escaped = true → q.2.escaped = true := by
    intro h
    cases move <;> exact h
  rcases h with h | h | h
  · exact .inl (escaped h)
  · exact .inr (.inl (h.move move))
  -- from here nothing has escaped and no time has wrapped: the claimed instants are armed
  cases move with
  | @control s d channel t _ step _ cadence =>
      have due := cadence.nextRefreshDue
      refine .inr (.inr (h.update (update_controllers s channel t) rfl step.marks.refreshDueAt
        (fun _ => id) (.inr ⟨due, fun live => step.marks.outstandingAccesses ▸ live⟩) ?_))
      intro live due' hdue
      exact h.future channel (step.marks.outstandingAccesses ▸ live) due' (due ▸ hdue)
  | @stir s d channel t hchannel step =>
      rcases ControllerStep.future step (h.future channel) with wrapped | future
      · refine .inr (.inl (.inr ⟨channel, hchannel, ?_⟩))
        rw [update_controllers, if_pos rfl]
        exact wrapped
      · exact .inr (.inr (h.update (update_controllers s channel t) rfl step.marks.refreshDueAt
          (fun _ => List.mem_cons_of_mem _) (.inl List.mem_cons_self) future))
  | calm => exact .inr (.inr (h.frame rfl (fun _ => id) rfl rfl))
  | @transfer s d channel _ t _ step =>
      have due : t.ctl.nextRefreshDue = (s.controllers channel).nextRefreshDue := by
        rw [step.frame]
        rfl
      refine .inr (.inr (h.update (update_controllers s channel t) rfl step.marks.refreshDueAt
        (fun _ => id) (.inr ⟨due, fun live => step.marks.outstandingAccesses ▸ live⟩) ?_))
      intro live due' hdue
      exact h.future channel (step.marks.outstandingAccesses ▸ live) due' (due ▸ hdue)
  | awake => exact .inr (.inr (h.frame rfl (fun _ => id) rfl rfl))
  | @wake s d channel at_ =>
      have marked : Armed (s.modifyController channel fun c => { c with wakeupAt := some at_ }) d :=
        h.update (modifyController_controllers s channel fun c => { c with wakeupAt := some at_ })
          rfl rfl (fun _ => id) (.inr ⟨rfl, id⟩) (h.future channel)
      exact .inr (.inr (marked.frame rfl schedule_mem rfl rfl))
  | @armed s d channel covered =>
      refine .inr (.inr ⟨h.events, fun ch live hrearm due hdue => ?_, h.future⟩)
      by_cases hch : ch = channel
      · subst hch
        rcases covered with idle | none | same
        · exact absurd idle live
        · rw [none] at hdue
          cases hdue
        · exact same.trans hdue
      · refine h.next ch live (fun mem => hrearm ?_) due hdue
        exact List.mem_filter.mpr ⟨mem, by simpa using hch⟩
  | @arm s d channel due _ _ next =>
      refine .inr (.inr ⟨fun ch due' hdue => ?_, fun ch live hrearm due' hdue => ?_,
        fun ch live due' hdue => ?_⟩)
      · rw [markRefresh_controllers] at hdue
        split at hdue
        · subst ch
          obtain rfl := Option.some.inj hdue
          exact ⟨_, mem_emplaceEvent.mpr (.inl rfl), rfl⟩
        · obtain ⟨e, he, hcallback⟩ := h.events ch due' hdue
          exact ⟨e, mem_emplaceEvent.mpr (.inr he), hcallback⟩
      · rw [markRefresh_controllers] at live hdue ⊢
        by_cases hch : ch = channel
        · subst hch
          rw [if_pos rfl] at hdue ⊢
          exact next.symm.trans hdue
        · rw [if_neg hch] at live hdue ⊢
          exact h.next ch live hrearm due' hdue
      · rw [markRefresh_controllers] at live hdue
        by_cases hch : ch = channel
        · subst hch
          rw [if_pos rfl] at live hdue
          exact h.future ch live due' hdue
        · rw [if_neg hch] at live hdue
          exact h.future ch live due' hdue
  | misarm _ past live next => exact absurd (h.future _ live _ next) (Nat.not_le.mpr past)
  | accept => exact .inr (.inr (h.frame rfl (fun _ => id) rfl rfl))
  | @charge s d parent access =>
      exact .inr (.inr (h.update (charge_controllers s parent access) rfl rfl (fun _ => id)
        (.inr ⟨rfl, id⟩) (h.future _)))
  | @push s d access _ _ _ _ _ _ _ _ prepared =>
      -- the refreshes due by now were raised before the push, so the next one is still to come
      exact .inr (.inr (h.update (push_controllers cfg s access) rfl rfl
        (fun _ => List.mem_cons_of_mem _) (.inl List.mem_cons_self)
        fun _ due hdue => Nat.le_of_lt (prepared due hdue)))
  | blocked => exact .inr (.inr (h.frame rfl (fun _ => id) rfl rfl))
  | close => exact .inr (.inr (h.frame rfl (fun _ => id) rfl rfl))
  | @credit s d channel access parent =>
      have fewer : (s.controllers channel).outstandingAccesses - 1 ≠ 0 →
          (s.controllers channel).outstandingAccesses ≠ 0 := by omega
      exact .inr (.inr (h.update (credit_controllers cfg s channel access parent) rfl rfl
        (fun _ => id) (.inr ⟨rfl, fewer⟩) fun live => h.future channel (fewer live)))
  | retire => exact .inr (.inr (h.frame rfl (fun _ => id) rfl rfl))
  | complete => exact .inr (.inr (h.frame rfl schedule_mem rfl rfl))
  | announce => exact .inr (.inr (h.frame rfl schedule_mem rfl rfl))
  | client => exact .inr (.inr (h.frame rfl (fun _ he => mem_emplaceEvent.mpr (.inr he)) rfl rfl))
  | reject => exact .inr (.inr (h.frame rfl (fun _ => id) rfl rfl))
  | setScript => exact .inr (.inr (h.frame rfl (fun _ => id) rfl rfl))
  | setCallbacks => exact .inr (.inr (h.frame rfl (fun _ => id) rfl rfl))
  | notify => exact .inr (.inr (h.frame rfl (fun _ => id) rfl rfl))
  | return_ => exact .inr (.inr (h.frame rfl (fun _ => id) rfl rfl))

/-- The clock may move on to any time no pending event is before. -/
theorem Armed.later (h : Armed s d) (scheduled : Scheduled cfg s) (settled : d.rearm = [])
    {c : HbmController} {channel : Nat}
    (controllers : ∀ ch, t.controllers ch = if ch = channel then c else s.controllers ch)
    (outstanding : c.outstandingAccesses = (s.controllers channel).outstandingAccesses)
    (next : c.nextRefreshDue = (s.controllers channel).nextRefreshDue)
    (refreshDueAt : ∀ due, c.refreshDueAt = some due →
      (s.controllers channel).refreshDueAt = some due ∧
        ∃ e ∈ t.scheduler.events, e.callback = .refreshDue channel due)
    (kept : ∀ ch ≠ channel, ∀ due, ∀ e ∈ s.scheduler.events, e.callback = .refreshDue ch due →
      e ∈ t.scheduler.events)
    (disarmed : channel ∈ d'.rearm ∨ c.refreshDueAt = (s.controllers channel).refreshDueAt)
    (now : ∀ e ∈ s.scheduler.events, t.now ≤ e.time) : Armed t d' where
  events ch due hdue := by
    rw [controllers] at hdue
    split at hdue
    · subst ch
      exact (refreshDueAt due hdue).2
    · rename_i hch
      obtain ⟨e, he, hcallback⟩ := h.events ch due hdue
      exact ⟨e, kept ch hch due e he hcallback, hcallback⟩
  next ch live hrearm due hdue := by
    rw [controllers] at live hdue ⊢
    by_cases hch : ch = channel
    · subst hch
      rw [if_pos rfl] at live hdue ⊢
      rcases disarmed with mem | same
      · exact absurd mem hrearm
      · rw [same]
        exact h.next ch (outstanding ▸ live) (by simp [settled]) due (next ▸ hdue)
    · rw [if_neg hch] at live hdue ⊢
      exact h.next ch live (by simp [settled]) due hdue
  future ch live due hdue := by
    have before : (s.controllers ch).outstandingAccesses ≠ 0 ∧
        (s.controllers ch).nextRefreshDue = some due := by
      rw [controllers] at live hdue
      by_cases hch : ch = channel
      · subst hch
        rw [if_pos rfl] at live hdue
        exact ⟨outstanding ▸ live, next ▸ hdue⟩
      · rw [if_neg hch] at live hdue
        exact ⟨live, hdue⟩
    have armed := h.next ch before.1 (by simp [settled]) due before.2
    obtain ⟨e, he, hcallback⟩ := h.events ch due armed
    have stamped := scheduled.stamped e he
    rw [hcallback] at stamped
    have := now e he
    rw [stamped.1]
    exact this

theorem Ordered.first_le {κ : Type} {q : EventQueue κ} (h : q.Ordered) {event : Event κ}
    {rest : List (Event κ)} (next : q.events = event :: rest) :
    ∀ e ∈ q.events, event.time ≤ e.time := by
  have sorted := h.sorted
  rw [next] at sorted ⊢
  intro e he
  rcases List.mem_cons.mp he with rfl | he
  · exact Nat.le_refl _
  · have before := (List.pairwise_cons.mp sorted).1 e he
    unfold Event.before at before
    omega

/-- A turn that dispatches no refresh event. -/
theorem Armed.pop (h : Armed s d) (scheduled : Scheduled cfg s) (settled : d.rearm = [])
    {event : Event EventCallback} {rest : List (Event EventCallback)}
    (next : s.scheduler.events = event :: rest)
    (scheduler : t.scheduler = (s.pop event rest).scheduler)
    (other : ∀ channel due, event.callback ≠ .refreshDue channel due)
    (controllers : ∀ ch, (t.controllers ch).outstandingAccesses =
        (s.controllers ch).outstandingAccesses ∧
      (t.controllers ch).nextRefreshDue = (s.controllers ch).nextRefreshDue ∧
      (t.controllers ch).refreshDueAt = (s.controllers ch).refreshDueAt)
    (rearm : d'.rearm = d.rearm) : Armed t d' where
  events ch due hdue := by
    rw [(controllers ch).2.2] at hdue
    obtain ⟨e, he, hcallback⟩ := h.events ch due hdue
    rw [next] at he
    rcases List.mem_cons.mp he with rfl | he
    · exact absurd hcallback (other ch due)
    · rw [scheduler]
      exact ⟨e, he, hcallback⟩
  next ch := by
    rw [(controllers ch).1, (controllers ch).2.1, (controllers ch).2.2, rearm]
    exact h.next ch
  future ch live due hdue := by
    rw [(controllers ch).1] at live
    rw [(controllers ch).2.1] at hdue
    have armed := h.next ch live (by simp [settled]) due hdue
    obtain ⟨e, he, hcallback⟩ := h.events ch due armed
    have stamped := scheduled.stamped e he
    rw [hcallback] at stamped
    have first := Ordered.first_le scheduled.ordered next e he
    have now : t.now = event.time := congrArg EventQueue.now scheduler
    rw [now, stamped.1]
    exact first

theorem Punctual.turn {p q : HbmSystem × Debts} (turn : Turn cfg p q) (scheduled : Scheduled cfg p.1)
    (h : Punctual cfg p.1 p.2) : Punctual cfg q.1 q.2 := by
  have escaped : p.2.escaped = true → q.2.escaped = true := by
    intro h
    cases turn <;> first | exact h | rfl
  rcases h with h | h | h
  · exact .inl (escaped h)
  · exact .inr (.inl (h.turn turn scheduled))
  cases turn with
  | @wake s d event rest channel next callback _ settled =>
      rcases settled with lost | settled
      · exact .inl lost
      refine .inr (.inr (h.pop scheduled settled.1.rearm next rfl (by simp [callback])
        (fun ch => ?_) rfl))
      rw [modifyController_controllers]
      split
      · subst ch
        unfold HbmController.clearWakeup
        split
        · exact ⟨rfl, rfl, rfl⟩
        · exact ⟨rfl, rfl, rfl⟩
      · exact ⟨rfl, rfl, rfl⟩
  | @refreshDue s d event rest channel next callback _ settled =>
      rcases settled with lost | settled
      · exact .inl lost
      -- the event is gone, and with it the claim, unless the claim is for another instant
      have controllers := modifyController_controllers (s.pop event rest) channel
        (·.disarm event.time)
      have disarmed : ∀ due, ((s.controllers channel).disarm event.time).refreshDueAt = some due →
          (s.controllers channel).refreshDueAt = some due ∧ due ≠ event.time := by
        intro due hdue
        unfold HbmController.disarm at hdue
        split at hdue
        · cases hdue
        · rename_i hne
          exact ⟨hdue, fun same => hne (same ▸ hdue)⟩
      have fields : ((s.controllers channel).disarm event.time).outstandingAccesses =
            (s.controllers channel).outstandingAccesses ∧
          ((s.controllers channel).disarm event.time).nextRefreshDue =
            (s.controllers channel).nextRefreshDue := by
        unfold HbmController.disarm
        split <;> exact ⟨rfl, rfl⟩
      refine .inr (.inr (h.later scheduled settled.1.rearm controllers fields.1 fields.2
        (fun due hdue => ?_) (fun ch hch due e he hcallback => ?_) (.inl List.mem_cons_self)
        (Ordered.first_le scheduled.ordered next)))
      · obtain ⟨before, hne⟩ := disarmed due hdue
        refine ⟨before, ?_⟩
        obtain ⟨e, he, hcallback⟩ := h.events channel due before
        rw [next] at he
        rcases List.mem_cons.mp he with rfl | he
        · rw [callback] at hcallback
          cases hcallback
          exact absurd rfl hne
        · exact ⟨e, he, hcallback⟩
      · rw [next] at he
        rcases List.mem_cons.mp he with rfl | he
        · rw [callback] at hcallback
          cases hcallback
          exact absurd rfl hch
        · exact he
  | accessDone next callback _ _ settled =>
      rcases settled with lost | settled
      · exact .inl lost
      exact .inr (.inr (h.pop scheduled settled.1.rearm next rfl (by simp [callback])
        (fun _ => ⟨rfl, rfl, rfl⟩) rfl))
  | other next callback settled =>
      rcases settled with lost | settled
      · exact .inl lost
      refine .inr (.inr (h.pop scheduled settled.1.rearm next rfl (fun ch due same => ?_)
        (fun _ => ⟨rfl, rfl, rfl⟩) rfl))
      rcases callback with ⟨_, hcallback⟩ | ⟨_, hcallback⟩ <;> rw [hcallback] at same <;> cases same
  | @advance s d until_ later nothing settled =>
      rcases settled with lost | settled
      · exact .inl lost
      refine .inr (.inr ⟨h.events, h.next, fun ch live due hdue => ?_⟩)
      have armed := h.next ch live (by simp [settled.1.rearm]) due hdue
      obtain ⟨e, he, hcallback⟩ := h.events ch due armed
      have stamped := scheduled.stamped e he
      rw [hcallback] at stamped
      have := nothing e he
      rw [stamped.1]
      exact Nat.le_of_lt this
  | escape => exact .inl rfl
  | lose => exact .inl rfl

/-- A due instant is only set when refresh is on. -/
theorem HbmSystem.Run.refresh_on {p : HbmSystem × Debts} (run : Run cfg p) {channel due : Nat}
    (hdue : (p.1.controllers channel).nextRefreshDue = some due) :
    cfg.controller.refreshInterval ≠ 0 := by
  have step_on : ∀ {config mapper now} {s t : ControllerState},
      HbmController.ControllerStep config mapper now s t → t.ctl.nextRefreshDue.isSome →
        s.ctl.nextRefreshDue.isSome ∨ config.refreshInterval ≠ 0 := by
    intro config mapper now s t step h
    cases step with
    | retouch touched => exact .inl (by rwa [touched.ctl] at h)
    | raise due =>
        refine .inl ?_
        have h : (s.ctl.raise config due).nextRefreshDue.isSome := h
        rwa [HbmController.raise_frame] at h
    | advanceDue base _ first =>
        cases hnext : s.ctl.nextRefreshDue with
        | none => exact .inr (first hnext).2
        | some due => exact .inl rfl
    | maintain step => exact .inl (by rwa [step.frame] at h)
    | row step => exact .inl (by rwa [step.frame] at h)
  have set : (p.1.controllers channel).nextRefreshDue.isSome := by simp [hdue]
  clear hdue
  have changed : ∀ {s t : HbmSystem} {ch : Nat} {c : HbmController},
      (∀ ch', t.controllers ch' = if ch' = ch then c else s.controllers ch') →
      (c.nextRefreshDue.isSome → (s.controllers ch).nextRefreshDue.isSome ∨
        cfg.controller.refreshInterval ≠ 0) →
      (t.controllers channel).nextRefreshDue.isSome →
      (s.controllers channel).nextRefreshDue.isSome ∨ cfg.controller.refreshInterval ≠ 0 := by
    intro s t ch c controllers own set
    rw [controllers] at set
    split at set
    · subst ch
      exact own set
    · exact .inl set
  induction run with
  | create => cases set
  | @move p q _ move ih =>
      refine Or.elim (?_ : (p.1.controllers channel).nextRefreshDue.isSome ∨ _) ih id
      cases move with
      | @control s d ch t _ step => exact changed (update_controllers s ch t) (step_on step) set
      | @stir s d ch t _ step => exact changed (update_controllers s ch t) (step_on step) set
      | @transfer s d ch _ t _ step =>
          refine changed (update_controllers s ch t) (fun h => .inl ?_) set
          rwa [step.frame] at h
      | @wake s d ch at_ => exact changed (markWake_controllers s ch at_) .inl set
      | @arm s d ch due => exact changed (markRefresh_controllers s ch due) .inl set
      | @misarm s d ch due =>
          have same := modifyController_controllers s ch fun c =>
            { c with refreshDueAt := some due }
          exact changed same .inl set
      | @charge s d parent access => exact changed (charge_controllers s parent access) .inl set
      | @push s d access => exact changed (push_controllers cfg s access) .inl set
      | @credit s d ch access parent =>
          exact changed (credit_controllers cfg s ch access parent) .inl set
      | _ => exact .inl set
  | @turn p q _ turn ih =>
      refine Or.elim (?_ : (p.1.controllers channel).nextRefreshDue.isSome ∨ _) ih id
      cases turn with
      | @wake s d event rest ch =>
          refine changed (modifyController_controllers (s.pop event rest) ch _) (fun h =>
            .inl ?_) set
          split at h <;> exact h
      | @refreshDue s d event rest ch =>
          refine changed (modifyController_controllers (s.pop event rest) ch _) (fun h =>
            .inl ?_) set
          split at h <;> exact h
      | @lose s d ch lost t _ step =>
          refine changed (update_controllers s ch t) (fun h => .inl ?_) set
          rwa [step.frame] at h
      | _ => exact .inl set

theorem HbmSystem.Run.punctual {p : HbmSystem × Debts} (run : Run cfg p) :
    Punctual cfg p.1 p.2 := by
  induction run with
  | create => exact .inr (.inr ⟨by simp [initial, HbmController.initial],
      by simp [initial, HbmController.initial], by simp [initial, HbmController.initial]⟩)
  | move _ move ih => exact ih.move move
  | turn run turn ih => exact ih.turn turn run.scheduled

end

end HbmSim
