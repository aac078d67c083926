import HbmSim.Kernel.Loop

/-!
What the event queue guarantees.

Every scheduled event is pending, dispatched or cancelled, and only one of these; events are
dispatched in key order; the clock never goes back and no pending event is behind it. It
holds at every moment of every use of the queue, also inside a callback.
-/

namespace HbmSim

variable {κ : Type} {s t : Session κ}

/-- What holds at every moment. -/
structure Legal (s : Session κ) : Prop where
  ordered : s.queue.Ordered
  paired : s.queue.Paired
  fates : ((scheduledEvents s.history).map (·.token)).Perm
    (s.queue.events.map (·.token) ++
      ((dispatchedEvents s.history).map (·.token) ++ cancelledTokens s.history))
  distinct : ((scheduledEvents s.history).map (·.token)).Nodup
  issued : ∀ e ∈ scheduledEvents s.history,
    e.token < s.queue.nextToken ∧ e.sequence < s.queue.nextSequence
  known : ∀ e ∈ s.queue.events ++ dispatchedEvents s.history, e ∈ scheduledEvents s.history
  numbered : (scheduledEvents s.history).Pairwise fun later earlier =>
    earlier.sequence < later.sequence
  order : (dispatchedEvents s.history).Pairwise fun later earlier => earlier.before later
  passed : ∀ e ∈ dispatchedEvents s.history,
    e.time ≤ s.queue.now ∧ ∀ f ∈ s.queue.events, e.before f
  /-- Inside `run_until` the clock has not passed its end. -/
  bounded : ∀ until_, s.control = .loop (.runUntil until_) ∨
    (∃ e, s.control = .callback (.runUntil until_) e) → s.queue.now ≤ until_

theorem legal_create : Legal ({} : Session κ) where
  ordered := ⟨.nil, by simp, by simp⟩
  paired := ⟨.refl _, .nil, by simp⟩
  fates := .refl _
  distinct := .nil
  issued := by simp [scheduledEvents]
  known := by simp [dispatchedEvents]
  numbered := .nil
  order := .nil
  passed := by simp [dispatchedEvents]
  bounded until_ := by
    rintro (running | ⟨e, running⟩) <;> cases running

namespace Legal

variable {q q' : EventQueue κ} {c c' : Control κ} {h h' : List (Deed κ)}

/-- What schedules, dispatches and cancels nothing keeps the session legal. -/
theorem quiet (legal : Legal ⟨q, c, h⟩) (scheduled : scheduledEvents h' = scheduledEvents h)
    (dispatched : dispatchedEvents h' = dispatchedEvents h)
    (cancelled : cancelledTokens h' = cancelledTokens h)
    (bounded : ∀ until_, c' = .loop (.runUntil until_) ∨
      (∃ e, c' = .callback (.runUntil until_) e) → q.now ≤ until_) : Legal ⟨q, c', h'⟩ where
  ordered := legal.ordered
  paired := legal.paired
  fates := by
    show ((scheduledEvents h').map _).Perm (_ ++ ((dispatchedEvents h').map _ ++ cancelledTokens h'))
    rw [scheduled, dispatched, cancelled]
    exact legal.fates
  distinct := by
    show ((scheduledEvents h').map _).Nodup
    rw [scheduled]
    exact legal.distinct
  issued := by
    show ∀ e ∈ scheduledEvents h', _
    rw [scheduled]
    exact legal.issued
  known := by
    show ∀ e ∈ q.events ++ dispatchedEvents h', e ∈ scheduledEvents h'
    rw [scheduled, dispatched]
    exact legal.known
  numbered := by
    show (scheduledEvents h').Pairwise _
    rw [scheduled]
    exact legal.numbered
  order := by
    show (dispatchedEvents h').Pairwise _
    rw [dispatched]
    exact legal.order
  passed := by
    show ∀ e ∈ dispatchedEvents h', _
    rw [dispatched]
    exact legal.passed
  bounded := bounded

theorem schedule (legal : Legal ⟨q, c, h⟩) {at_ : Nat} (future : q.now ≤ at_) (callback : κ) :
    Legal ⟨q.emplace at_ callback, c,
      .scheduled ⟨at_, q.nextSequence, q.nextToken, callback⟩ :: h⟩ where
  ordered := legal.ordered.emplace future callback
  paired := legal.paired.emplace at_ callback
  fates := by
    have perm := (emplaceEvent_perm ⟨at_, q.nextSequence, q.nextToken, callback⟩ q.events).map
      (·.token)
    exact (legal.fates.cons q.nextToken).trans (perm.symm.append_right _)
  distinct := by
    refine List.nodup_cons.mpr ⟨fun mem => ?_, legal.distinct⟩
    obtain ⟨e, he, same⟩ := List.mem_map.mp mem
    exact absurd same (Nat.ne_of_lt (legal.issued e he).1)
  issued e he := by
    rcases List.mem_cons.mp he with rfl | he
    · exact ⟨Nat.lt_succ_self _, Nat.lt_succ_self _⟩
    · exact ⟨Nat.lt_succ_of_lt (legal.issued e he).1, Nat.lt_succ_of_lt (legal.issued e he).2⟩
  known e he := by
    rcases List.mem_append.mp he with pending | past
    · rcases mem_emplaceEvent.mp pending with rfl | pending
      · exact List.mem_cons_self
      · exact List.mem_cons_of_mem _ (legal.known e (List.mem_append_left _ pending))
    · exact List.mem_cons_of_mem _ (legal.known e (List.mem_append_right _ past))
  numbered := List.pairwise_cons.mpr ⟨fun e he => (legal.issued e he).2, legal.numbered⟩
  order := legal.order
  passed e he := by
    obtain ⟨time, before⟩ := legal.passed e he
    refine ⟨time, fun f hf => ?_⟩
    rcases mem_emplaceEvent.mp hf with rfl | hf
    · have first := (legal.issued e (legal.known e (List.mem_append_right _ he))).2
      exact Nat.lt_or_eq_of_le (Nat.le_trans time future) |>.imp_right fun same => ⟨same, first⟩
    · exact before f hf
  bounded := legal.bounded

theorem cancel (legal : Legal ⟨q, c, h⟩) (token : Nat) :
    Legal ⟨(q.cancel token).2, c, .cancelled token (q.cancel token).1 :: h⟩ := by
  rcases EventQueue.cancel_cases legal.ordered legal.paired token with
    ⟨event, mem, rfl, found, perm, sub, left⟩ | ⟨-, none⟩
  · rw [found]
    constructor
    case ordered =>
      rw [left]
      exact legal.ordered.thin sub _
    case paired =>
      rw [left]
      exact legal.paired.remove perm q.now
    case fates =>
      have moved := (perm.map (·.token)).append_right
        ((dispatchedEvents h).map (·.token) ++ cancelledTokens h)
      refine (legal.fates.trans moved).trans ?_
      show (event.token :: (_ ++ (_ ++ _))).Perm (_ ++ (_ ++ event.token :: cancelledTokens h))
      rw [← List.append_assoc, ← List.append_assoc]
      exact List.perm_middle.symm
    case distinct => exact legal.distinct
    case issued =>
      rw [left]
      exact legal.issued
    case known =>
      intro e he
      rcases List.mem_append.mp he with pending | past
      · exact legal.known e (List.mem_append_left _ (sub.subset pending))
      · exact legal.known e (List.mem_append_right _ past)
    case numbered => exact legal.numbered
    case order => exact legal.order
    case passed =>
      intro e he
      obtain ⟨time, before⟩ := legal.passed e he
      rw [left]
      exact ⟨time, fun f hf => before f (sub.subset hf)⟩
    case bounded =>
      rw [left]
      exact legal.bounded
  · rw [none]
    exact legal.quiet rfl rfl rfl legal.bounded

theorem dispatch {call : RunCall} {event : Event κ} (legal : Legal ⟨q, .loop call, h⟩)
    (continues : call.continues q = true) (take : q.takeNext = some (event, q')) :
    Legal ⟨q', .callback call event, .dispatched event :: h⟩ := by
  obtain ⟨rest, next, rfl⟩ := EventQueue.takeNext_some take
  have first : event ∈ q.events := next ▸ List.mem_cons_self
  have later : ∀ f ∈ rest, event.before f := by
    have sorted : q.events.Pairwise Event.before := legal.ordered.sorted
    rw [next] at sorted
    exact (List.pairwise_cons.mp sorted).1
  have sub : ∀ f ∈ rest, f ∈ q.events := fun f hf => next ▸ List.mem_cons_of_mem _ hf
  have perm : q.events.Perm (event :: rest) := List.Perm.of_eq next
  constructor
  case ordered => exact legal.ordered.take next _
  case paired => exact legal.paired.remove perm event.time
  case fates =>
    have moved := (perm.map (·.token)).append_right
      ((dispatchedEvents h).map (·.token) ++ cancelledTokens h)
    exact (legal.fates.trans moved).trans List.perm_middle.symm
  case distinct => exact legal.distinct
  case issued => exact legal.issued
  case known =>
    intro e he
    rcases List.mem_append.mp he with pending | past
    · exact legal.known e (List.mem_append_left _ (sub e pending))
    · rcases List.mem_cons.mp past with rfl | past
      · exact legal.known e (List.mem_append_left _ first)
      · exact legal.known e (List.mem_append_right _ past)
  case numbered => exact legal.numbered
  case order =>
    exact List.pairwise_cons.mpr ⟨fun e he => (legal.passed e he).2 event first, legal.order⟩
  case passed =>
    intro e he
    rcases List.mem_cons.mp he with rfl | he
    · exact ⟨Nat.le_refl _, later⟩
    · obtain ⟨time, before⟩ := legal.passed e he
      exact ⟨Nat.le_trans time (legal.ordered.future event first),
        fun f hf => before f (sub f hf)⟩
  case bounded =>
    rintro until_ (running | ⟨e, running⟩)
    · cases running
    · cases running
      unfold RunCall.continues at continues
      dsimp only at continues
      rw [next] at continues
      exact of_decide_eq_true continues

theorem finish {call : RunCall} (legal : Legal ⟨q, .loop call, h⟩)
    (ends : call.continues q = false) :
    Legal ⟨call.finish q, .client, .returned call :: h⟩ := by
  have idle : ∀ until_, Control.client = Control.loop (κ := κ) (.runUntil until_) ∨
      (∃ e, Control.client = Control.callback (κ := κ) (.runUntil until_) e) → False := by
    rintro until_ (running | ⟨e, running⟩) <;> cases running
  cases call with
  | runNext => exact legal.quiet rfl rfl rfl fun until_ running => (idle until_ running).elim
  | run => exact legal.quiet rfl rfl rfl fun until_ running => (idle until_ running).elim
  | runUntil until_ =>
      have later := EventQueue.later_of_not_continues legal.ordered ends
      have upto : q.now ≤ until_ := legal.bounded until_ (.inl rfl)
      have waits : Legal ⟨q, .client, .returned (.runUntil until_) :: h⟩ :=
        legal.quiet rfl rfl rfl fun u running => (idle u running).elim
      exact { waits with
        ordered := legal.ordered.advance later
        paired := ⟨legal.paired.paired, legal.paired.distinct, legal.paired.issued⟩
        passed := fun e he =>
          ⟨Nat.le_trans (legal.passed e he).1 upto, (legal.passed e he).2⟩
        bounded := fun u running => (idle u running).elim }

theorem step (legal : Legal s) (step : Session.Step s t) : Legal t := by
  cases step with
  | schedule at_ callback _ run =>
      unfold EventQueue.scheduleAt at run
      split at run
      · cases run
      · rename_i future
        cases run
        exact legal.schedule (Nat.le_of_not_lt future) callback
  | refuse => exact legal.quiet rfl rfl rfl legal.bounded
  | cancel token => exact legal.cancel token
  | call call forward =>
      refine legal.quiet rfl rfl rfl ?_
      rintro until_ (running | ⟨e, running⟩)
      · cases running
        exact Nat.le_of_not_lt (of_decide_eq_false forward)
      · cases running
  | backwards => exact legal.quiet rfl rfl rfl legal.bounded
  | dispatch continues take => exact legal.dispatch continues take
  | finish ends => exact legal.finish ends
  | @again _ _ call event =>
      refine legal.quiet rfl rfl rfl ?_
      rintro until_ (running | ⟨e, running⟩)
      · cases running
        exact legal.bounded until_ (.inr ⟨event, rfl⟩)
      · cases running
  | once =>
      refine legal.quiet rfl rfl rfl ?_
      rintro until_ (running | ⟨e, running⟩) <;> cases running
  | throw =>
      refine legal.quiet rfl rfl rfl ?_
      rintro until_ (running | ⟨e, running⟩) <;> cases running

end Legal

theorem Session.Reachable.legal (reached : Session.Reachable s) : Legal s := by
  induction reached with
  | create => exact legal_create
  | step _ step ih => exact ih.step step

/-! ### The semantics of the queue -/

/-- What a client can rely on at every moment, and of every next step. -/
structure WellQueued (s : Session κ) : Prop where
  tokens : ((scheduledEvents s.history).map (·.token)).Nodup
  /-- `events_` and `tokens_` correspond one to one. -/
  paired : s.queue.tokens.Perm (s.queue.events.map EventQueue.entry)
  entries : (s.queue.tokens.map (·.1)).Nodup ∧
    (s.queue.events.map fun e => (e.time, e.sequence)).Nodup
  clock : ∀ t, Session.Step s t → s.queue.now ≤ t.queue.now
  future : ∀ e ∈ s.queue.events, s.queue.now ≤ e.time
  /-- Sequence numbers follow the order of scheduling. -/
  numbered : (scheduledEvents s.history).Pairwise fun later earlier =>
    earlier.sequence < later.sequence
  /-- Dispatches are in order of time and, at one time, of scheduling. -/
  order : (dispatchedEvents s.history).Pairwise fun later earlier => earlier.before later
  known : ∀ e ∈ s.queue.events ++ dispatchedEvents s.history, e ∈ scheduledEvents s.history
  /-- An event is pending, dispatched once, or cancelled. -/
  fates : ((scheduledEvents s.history).map (·.token)).Perm
    (s.queue.events.map (·.token) ++
      ((dispatchedEvents s.history).map (·.token) ++ cancelledTokens s.history))
  once : ((dispatchedEvents s.history).map (·.token)).Nodup
  stays : ∀ e ∈ dispatchedEvents s.history, e.token ∉ cancelledTokens s.history
  cancels : ∀ token, (s.queue.cancel token).1 = true ↔ ∃ e ∈ s.queue.events, e.token = token
  rejects : ∀ at_ callback,
    (∃ e, s.queue.scheduleAt at_ callback = .error e) ↔ at_ < s.queue.now
  unchanged : ∀ t at_, Session.Step s t → t.history = .refused at_ :: s.history →
    t.queue = s.queue
  /-- What `run_until` leaves when it returns. -/
  ended : ∀ t until_, Session.Step s t → t.history = .returned (.runUntil until_) :: s.history →
    t.queue.now = until_ ∧ ∀ e ∈ t.queue.events, until_ < e.time

theorem Legal.now_le (legal : Legal s) (step : Session.Step s t) : s.queue.now ≤ t.queue.now := by
  cases step with
  | schedule at_ callback _ run =>
      unfold EventQueue.scheduleAt at run
      split at run
      · cases run
      · cases run
        exact Nat.le_refl _
  | cancel token =>
      rcases EventQueue.cancel_cases legal.ordered legal.paired token with
        ⟨event, -, -, -, -, -, left⟩ | ⟨-, none⟩
      · rw [left]
      · rw [none]
  | dispatch _ take =>
      obtain ⟨rest, next, rfl⟩ := EventQueue.takeNext_some take
      exact legal.ordered.future _ (next ▸ List.mem_cons_self)
  | @finish _ _ call _ =>
      cases call with
      | runUntil until_ => exact legal.bounded until_ (.inl rfl)
      | _ => exact Nat.le_refl _
  | _ => exact Nat.le_refl _

/-- In every use of the queue, at every moment. -/
theorem well_queued (reached : Session.Reachable s) : WellQueued s := by
  have legal := reached.legal
  have fated := legal.fates.nodup_iff.mp legal.distinct
  obtain ⟨-, settled, -⟩ := List.nodup_append.mp fated
  obtain ⟨once, -, apart⟩ := List.nodup_append.mp settled
  constructor
  case tokens => exact legal.distinct
  case paired => exact legal.paired.paired
  case entries => exact ⟨legal.paired.tokens_nodup, legal.ordered.keys_nodup⟩
  case clock => exact fun t step => legal.now_le step
  case future => exact legal.ordered.future
  case numbered => exact legal.numbered
  case order => exact legal.order
  case known => exact legal.known
  case fates => exact legal.fates
  case once => exact once
  case stays =>
    intro e he mem
    exact apart e.token (List.mem_map_of_mem he) e.token mem rfl
  case cancels =>
    intro token
    rcases EventQueue.cancel_cases legal.ordered legal.paired token with
      ⟨event, mem, same, found, -⟩ | ⟨absent, none⟩
    · exact ⟨fun _ => ⟨event, mem, same⟩, fun _ => found⟩
    · rw [none]
      exact ⟨(fun h => by cases h), fun h => h.elim fun e he => absurd he.2 (absent e he.1)⟩
  case rejects =>
    intro at_ callback
    unfold EventQueue.scheduleAt
    by_cases past : at_ < s.queue.now
    · rw [if_pos past]
      exact ⟨fun _ => past, fun _ => ⟨_, rfl⟩⟩
    · rw [if_neg past]
      exact ⟨fun h => h.elim (fun e failed => by cases failed), fun before => absurd before past⟩
  case unchanged =>
    intro t at_ step refused
    cases step <;> first | rfl | cases refused
  case ended =>
    intro t until_ step returned
    cases step with
    | finish ends =>
        cases returned
        exact ⟨rfl, EventQueue.later_of_not_continues legal.ordered ends⟩
    | once loops =>
        cases returned
        cases loops
    | call => exact absurd returned.symm (List.cons_ne_self _ _)
    | again => exact absurd returned.symm (List.cons_ne_self _ _)
    | _ => cases returned

/-- `run_until(5)` with a callback at 5 that cancels the first of two events at 10 and
schedules another at 5. -/
theorem well_queued_nested : ∃ s : Session Nat, WellQueued s ∧ s.queue.now = 5 ∧
    s.queue.events.map (·.token) = [2] ∧ (dispatchedEvents s.history).map (·.token) = [4, 3] ∧
    cancelledTokens s.history = [1] := by
  have reached := Session.Reachable.create (κ := Nat)
    |>.step (.schedule 10 0 rfl rfl)
    |>.step (.schedule 10 0 rfl rfl)
    |>.step (.schedule 5 0 rfl rfl)
    |>.step (.call (.runUntil 5) rfl)
    |>.step (.dispatch rfl rfl)
    |>.step (.cancel 1 rfl)
    |>.step (.schedule 5 0 rfl rfl)
    |>.step (.again rfl)
    |>.step (.dispatch rfl rfl)
    |>.step (.again rfl)
    |>.step (.finish rfl)
  exact ⟨_, well_queued reached, by decide, by decide, by decide, by decide⟩

end HbmSim
