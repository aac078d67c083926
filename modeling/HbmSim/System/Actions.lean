import HbmSim.System.Dispatch

/-!
The actions of a run.

Every action leads from one settled point to another, or throws one of the exceptions
a correct system may throw. `Reachable.point` is the rule the invariants of the moves
reach the states of a run by.
-/

namespace HbmSim

open HbmSim.Lib HbmSystem Relation

/-- A point between two actions of a run. -/
structure Point (cfg : HbmConfig) (s : HbmSystem) (d : Debts) : Prop where
  run : Run cfg (s, d)
  ripe : d.ripe = none
  settled : d.escaped = true ∨ d.Settled ∧ d.finishing = []

/-- A program leads from a point to a point; what it throws is excusable. -/
abbrev Leads (cfg : HbmConfig) (x : SystemM Unit) (d : Debts) (s : HbmSystem) : Prop :=
  Exits x
    (fun _ t => (Overflowed cfg s → Overflowed cfg t) ∧
      ∃ d', Point cfg t d' ∧ d'.escaped = d.escaped)
    (fun e t => (Overflowed cfg s → Overflowed cfg t) ∧ Excusable cfg e (t, d) ∧
      ∃ d', Point cfg t d' ∧ d'.escaped = true) s

section

variable {cfg : HbmConfig} {p q : HbmSystem × Debts} {s t : HbmSystem} {d : Debts}

theorem Point.ready (h : Point cfg s d) : d.Ready :=
  h.settled.imp_right fun ⟨settled, finishing⟩ => ⟨settled, .inr finishing⟩

theorem HbmSystem.Move.escaped {p q : HbmSystem × Debts} (move : Move cfg p q) :
    q.2.escaped = p.2.escaped := by
  cases move <;> rfl

theorem moves_escaped (moves : Moves cfg p q) : q.2.escaped = p.2.escaped := by
  induction moves with
  | refl => rfl
  | tail _ move ih => exact move.escaped.trans ih

/-- A throw leaves a point. -/
theorem Escapes.point {e : HbmError} (run : Run cfg p) (escapes : Escapes cfg e p t) :
    (Overflowed cfg p.1 → Overflowed cfg t) ∧ Excusable cfg e (t, p.2) ∧
      ∃ d', Point cfg t d' ∧ d'.escaped = true := by
  obtain ⟨s, d⟩ := p
  obtain ⟨ripe, left⟩ := escapes
  cases left with
  | here excusable =>
      exact ⟨id, excusable, _, ⟨run.turn .escape, ripe, .inl rfl⟩, rfl⟩
  | lost hchannel step overflow =>
      have turn : Turn cfg (s, d) _ := .lose hchannel step
      exact ⟨fun passed => passed.turn turn run.scheduled, .inl overflow, _,
        ⟨run.turn turn, ripe, .inl rfl⟩, rfl⟩

/-- A program that obeys the moves leads on from where it starts. -/
theorem Obeys.leads {x : SystemM Unit} {Q : Unit → HbmSystem × Debts → Prop} (run : Run cfg q)
    (escaped : q.2.escaped = d.escaped) (passed : Overflowed cfg s → Overflowed cfg q.1)
    (obeys : Obeys cfg x Q q)
    (settles : ∀ r, Q () r → r.2.ripe = none ∧
      (r.2.escaped = true ∨ r.2.Settled ∧ r.2.finishing = [])) :
    Exits x
      (fun _ t => (Overflowed cfg s → Overflowed cfg t) ∧
        ∃ d', Point cfg t d' ∧ d'.escaped = d.escaped)
      (fun e t => (Overflowed cfg s → Overflowed cfg t) ∧ Excusable cfg e (t, d) ∧
        ∃ d', Point cfg t d' ∧ d'.escaped = true) q.1 := by
  refine Exits.mono obeys ?_ ?_
  · rintro ⟨⟩ t ⟨d', moves, post⟩
    obtain ⟨ripe, settled⟩ := settles (t, d') post
    exact ⟨fun h => moves_overflowed moves (passed h), d', ⟨run.moves moves, ripe, settled⟩,
      (moves_escaped moves).trans escaped⟩
  · rintro e t ⟨r, moves, escapes⟩
    obtain ⟨later, excusable, point⟩ := escapes.point (run.moves moves)
    refine ⟨fun h => later (moves_overflowed moves (passed h)), ?_, point⟩
    have same : r.2.escaped = d.escaped := (moves_escaped moves).trans escaped
    unfold Excusable at excusable ⊢
    rwa [show (t, r.2).2.escaped = (t, d).2.escaped from same] at excusable

theorem Called.settles {r : HbmSystem × Debts} (called : Called q r) (ripe : q.2.ripe = none)
    (settled : q.2.escaped = true ∨ q.2.finishing = []) :
    r.2.ripe = none ∧ (r.2.escaped = true ∨ r.2.Settled ∧ r.2.finishing = []) := by
  refine ⟨called.sameStacks.ripe.trans ripe, ?_⟩
  rcases called.settled with lost | after
  · exact .inl (called.sameStacks.escaped.trans lost)
  · exact settled.imp (called.sameStacks.escaped.trans ·) fun nothing =>
      ⟨after, called.sameStacks.finishing.trans nothing⟩

theorem Finished.settles {rest : List (Nat × Nat × LogicalCompletion)} {r : HbmSystem × Debts}
    (finished : Finished rest q r) (settled : q.2.escaped = true ∨ rest = []) :
    r.2.ripe = none ∧ (r.2.escaped = true ∨ r.2.Settled ∧ r.2.finishing = []) := by
  refine ⟨finished.ripe, ?_⟩
  rcases finished.settled with lost | after
  · exact .inl (finished.escaped.trans lost)
  · exact settled.imp (finished.escaped.trans ·) fun nothing =>
      ⟨after, finished.finishing.trans nothing⟩

/-! ### The callbacks -/

theorem Debts.Settled.onlyWake (settled : d.Settled) (channel : Nat) (wakes : List Nat)
    (own : ∀ ch ∈ wakes, ch = channel) :
    ({ d with wakes := wakes, retired := 0 } : Debts).OnlyWake channel :=
  ⟨own, settled.rearm, settled.slots, settled.issued, settled.loose, settled.closing, settled.ripe,
    settled.stirring⟩

/-- The handling of a refresh event. -/
theorem refreshDue_leads (checked : cfg.Checked) {event : Event EventCallback}
    {rest : List (Event EventCallback)} {channel : Nat} (point : Point cfg s d)
    (next : s.scheduler.events = event :: rest)
    (callback : event.callback = .refreshDue channel event.time)
    (hchannel : channel < cfg.channelCount) :
    Exits (runCallback cfg (.refreshDue channel event.time))
      (fun _ t => (Overflowed cfg s → Overflowed cfg t) ∧
        ∃ d', Point cfg t d' ∧ d'.escaped = d.escaped)
      (fun e t => (Overflowed cfg s → Overflowed cfg t) ∧ Excusable cfg e (t, d) ∧
        ∃ d', Point cfg t d' ∧ d'.escaped = true) (s.pop event rest) := by
  have turn : Turn cfg (s, d) _ := .refreshDue next callback hchannel point.settled
  have run := point.run.turn turn
  have sound : Sound (cfg.channelConfig channel) cfg.mapper ((s.pop event rest).side channel).ctl :=
    point.run.sound checked channel
  have passed := fun h => HbmSystem.Overflowed.turn turn point.run.scheduled h
  have alone : d.escaped = true ∨ d.stirring = none :=
    point.settled.imp_right fun settled => settled.1.stirring
  have at_ : ((s.pop event rest).modifyController channel (·.disarm event.time)).side channel =
      ((s.pop event rest).side channel).modifyCtl (·.disarm event.time) := by
    rw [← update_modifyCtl, side_update]
  have disarmed : ((s.pop event rest).modifyController channel (·.disarm event.time)).controllers
      channel = (s.controllers channel).disarm event.time := by
    rw [modifyController_controllers, if_pos rfl]
    rfl
  -- a state of the handling is one of the disarmed system
  have same : ∀ t, (s.pop event rest).update channel t =
      ((s.pop event rest).modifyController channel (·.disarm event.time)).update channel t := by
    intro t
    rw [← update_modifyCtl, update_update]
  unfold runCallback
  rw [exits_bind, onController_exits hchannel]
  refine (HbmController.handleRefreshEvent_exits (checked.wiring channel)
    sound).mono (fun _ t h => ?_) (fun e t h => ?_)
  · obtain ⟨steps, keeps, idle⟩ := h
    rw [← at_] at steps
    obtain ⟨wakes, rearm, stirring, moves, hwakes, hrearm, quiet⟩ :=
      stirs_calm (s := (s.pop event rest).modifyController channel (·.disarm event.time)) hchannel
        steps (d := { d with rearm := channel :: d.rearm, retired := 0 }) alone (disarmed ▸ keeps)
        fun none => .inl (idle (disarmed ▸ none))
    rw [same]
    have before := run.moves moves
    refine Obeys.leads (Q := fun _ q => q.2.ripe = none ∧
      (q.2.escaped = true ∨ q.2.Settled ∧ q.2.finishing = [])) before rfl
      (fun h => moves_overflowed moves (passed h)) ?_ fun _ => id
    refine Follows.bind (scheduleControllerWake_obeys hchannel) ?_
    rintro - q moves' ⟨hq, -⟩
    have debts : q.2 = { d with
        wakes := wakes.filter (· != channel)
        rearm := rearm
        stirring := stirring
        retired := 0 } := hq
    have settled : d.escaped = true ∨ ({ d with
        wakes := wakes.filter (· != channel)
        rearm := rearm.filter (· != channel)
        stirring := stirring
        retired := 0 } : Debts).Settled ∧ d.finishing = [] := by
      rcases point.settled with lost | ⟨settled, finishing⟩
      · exact .inl lost
      rcases quiet with lost | quiet
      · exact .inl lost
      refine .inr ⟨⟨?_, ?_, settled.slots, settled.issued, settled.loose, settled.closing,
        settled.ripe, quiet⟩, finishing⟩
      · refine List.filter_eq_nil_iff.mpr fun ch hch => ?_
        have own := hwakes ch hch
        simp only [settled.wakes, List.not_mem_nil, or_false] at own
        simp [own]
      · refine List.filter_eq_nil_iff.mpr fun ch hch => ?_
        have own := hrearm ch hch
        simp only [settled.rearm, List.mem_singleton, or_self] at own
        simp [own]
    refine Follows.get ?_
    by_cases live : (q.1.controllers channel).outstandingAccesses ≠ 0
    · rw [if_pos live]
      refine (scheduleRefreshDue_obeys (before.moves moves') (by rw [debts]; exact point.ripe)
        hchannel live).mono ?_
      rintro - r - ⟨hr, -⟩
      rw [show r = (r.1, r.2) from rfl, hr, debts]
      exact ⟨point.ripe, settled⟩
    · rw [if_neg live]
      have armed : Move cfg q (q.1, { q.2 with rearm := q.2.rearm.filter (· != channel) }) :=
        .armed (.inl (not_not.mp live))
      refine ⟨_, .single armed, ?_⟩
      rw [debts]
      exact ⟨point.ripe, settled⟩
  · obtain ⟨steps, excused⟩ := h
    rw [← at_] at steps
    obtain ⟨wakes, rearm, stirring, moves, -⟩ :=
      stirs (s := (s.pop event rest).modifyController channel (·.disarm event.time)) hchannel steps
        (d := { d with rearm := channel :: d.rearm, retired := 0 })
        (alone.imp_right fun none x hx => by rw [none] at hx; cases hx)
    rw [same]
    have excusable : Excusable cfg e (((s.pop event rest).modifyController channel
        (·.disarm event.time)).update channel t, { d with
          wakes := wakes, rearm := rearm, stirring := stirring, retired := 0 }) :=
      excusable_blamed (s := (s.pop event rest).modifyController channel (·.disarm event.time))
        hchannel rfl rfl (.inl excused)
    obtain ⟨later, excusable, left⟩ := Escapes.point (run.moves moves) ⟨point.ripe, .here excusable⟩
    exact ⟨fun h => later (moves_overflowed moves (passed h)), excusable, left⟩

/-- The closure of the next event leads on from the system it is taken off. -/
theorem runCallback_leads (checked : cfg.Checked) (count : cfg.channelCount ≠ 0)
    {event : Event EventCallback} {rest : List (Event EventCallback)} (point : Point cfg s d)
    (next : s.scheduler.events = event :: rest) :
    Exits (runCallback cfg event.callback)
      (fun _ t => (Overflowed cfg s → Overflowed cfg t) ∧
        ∃ d', Point cfg t d' ∧ d'.escaped = d.escaped)
      (fun e t => (Overflowed cfg s → Overflowed cfg t) ∧ Excusable cfg e (t, d) ∧
        ∃ d', Point cfg t d' ∧ d'.escaped = true) (s.pop event rest) := by
  have scheduled := point.run.scheduled
  have stamped := scheduled.stamped event (next ▸ List.mem_cons_self)
  -- each kind of event is a turn that leaves its own debts, and its callback pays them
  cases callback : event.callback with
  | wake channel at_ =>
      rw [callback] at stamped
      obtain ⟨rfl, hchannel⟩ := stamped
      have turn : Turn cfg (s, d) _ := .wake next callback hchannel point.settled
      unfold runCallback
      rw [exits_bind, onController_exits hchannel, exits_modify]
      refine Obeys.leads (point.run.turn turn) rfl (fun h => h.turn turn scheduled)
        (driveController_obeys checked count hchannel (point.run.turn turn) point.ripe ?_)
        fun r finished => finished.settles (point.settled.imp_right And.right)
      refine point.settled.imp_right fun settled => settled.1.onlyWake channel _ fun ch hch => ?_
      simpa [settled.1.wakes] using hch
  | refreshDue channel due =>
      rw [callback] at stamped
      obtain ⟨rfl, hchannel⟩ := stamped
      exact refreshDue_leads checked point next callback hchannel
  | accessDone channel issued =>
      rw [callback] at stamped
      obtain ⟨time, hchannel⟩ := stamped
      have turn : Turn cfg (s, d) _ := .accessDone next callback time hchannel point.settled
      show Exits (finishAccesses cfg channel issued.completionTime issued.completions) _ _ _
      rw [time]
      refine Obeys.leads (point.run.turn turn) rfl (fun h => h.turn turn scheduled)
        (finishAccesses_obeys checked count hchannel issued.completions (point.run.turn turn) rfl rfl
          point.ripe ?_)
        fun r finished => finished.settles (point.settled.imp_right And.right)
      refine point.settled.imp_right fun ⟨settled, _⟩ => ?_
      exact ⟨settled.wakes, settled.rearm, settled.slots, settled.issued, settled.loose,
        settled.closing, settled.ripe, settled.stirring⟩
  | capacity channel at_ =>
      rw [callback] at stamped
      obtain ⟨rfl, hchannel⟩ := stamped
      have turn : Turn cfg (s, d) _ := .other next (.inl ⟨channel, callback⟩) point.settled
      have ready : ({ d with retired := 0 } : Debts).Ready := by
        refine point.settled.imp_right fun ⟨settled, finishing⟩ => ⟨?_, .inr finishing⟩
        exact ⟨settled.wakes, settled.rearm, settled.slots, settled.issued, settled.loose,
          settled.closing, settled.ripe, settled.stirring⟩
      unfold runCallback
      exact Obeys.leads (point.run.turn turn) rfl (fun h => h.turn turn scheduled)
        (notifyCapacity_obeys checked count channel _ (point.run.turn turn) point.ripe ready)
        fun r called => called.settles point.ripe (point.settled.imp_right And.right)
  | client tag =>
      have turn : Turn cfg (s, d) _ := .other next (.inr ⟨tag, callback⟩) point.settled
      have ready : ({ d with retired := 0 } : Debts).Ready := by
        refine point.settled.imp_right fun ⟨settled, finishing⟩ => ⟨?_, .inr finishing⟩
        exact ⟨settled.wakes, settled.rearm, settled.slots, settled.issued, settled.loose,
          settled.closing, settled.ripe, settled.stirring⟩
      unfold runCallback
      exact Obeys.leads (point.run.turn turn) rfl (fun h => h.turn turn scheduled)
        (invokeClient_obeys checked count (point.run.turn turn) point.ripe ready)
        fun r called => called.settles point.ripe (point.settled.imp_right And.right)

/-! ### Actions -/

theorem dispatchOne_leads (checked : cfg.Checked) (count : cfg.channelCount ≠ 0)
    (point : Point cfg s d) : Leads cfg (dispatchOne cfg) d s := by
  unfold dispatchOne
  simp only [Leads, exits_bind, exits_get]
  unfold EventQueue.takeNext
  cases next : s.scheduler.events with
  | nil => exact ⟨id, d, point, rfl⟩
  | cons event rest =>
      simp only [exits_bind, exits_modify]
      exact runCallback_leads checked count point next

/-- Every action leads from a point to a point. -/
theorem perform_leads (checked : cfg.Checked) (count : cfg.channelCount ≠ 0) (action : Action)
    (point : Point cfg s d) : Leads cfg (perform cfg action) d s := by
  cases action with
  | call call =>
      exact Obeys.leads point.run rfl id
        (runClient_obeys checked count [call] point.run point.ripe point.ready)
        fun r called => called.settles point.ripe (point.settled.imp_right And.right)
  | dispatch reactions =>
      have script : Move cfg (s, d) ({ s with script := reactions }, d) := .setScript _
      have point' : Point cfg { s with script := reactions } d :=
        ⟨point.run.move script, point.ripe, point.settled⟩
      unfold perform
      simp only [Leads, exits_bind, exits_modify]
      exact dispatchOne_leads checked count point'
  | advance until_ =>
      unfold perform
      simp only [Leads, exits_bind, exits_get, exits_ite, exits_set, exits_pure]
      refine ⟨fun h => ?_, fun _ => ⟨id, d, point, rfl⟩⟩
      have turn : Turn cfg (s, d) _ := .advance h.1 (by simpa using h.2) point.settled
      refine ⟨fun passed => passed.turn turn point.run.scheduled, _,
        ⟨point.run.turn turn, point.ripe,
        ?_⟩, rfl⟩
      refine point.settled.imp_right fun done => ⟨?_, done.2⟩
      have settled := done.1
      exact ⟨settled.wakes, settled.rearm, settled.slots, settled.issued, settled.loose,
        settled.closing, settled.ripe, settled.stirring⟩

theorem point_initial : Point cfg (initial cfg) {} :=
  ⟨.create, rfl, .inr ⟨⟨rfl, rfl, rfl, rfl, rfl, rfl, rfl, rfl⟩, rfl⟩⟩

/-- A reachable state is a point of a run. What has escaped was excusable. -/
theorem HbmSystem.Reachable.point {escapes : HbmError → Prop} (reached : Reachable cfg escapes s) :
    cfg.Valid ∧ cfg.channelCount ≠ 0 ∧ ∃ d, Point cfg s d ∧ (d.escaped = true →
      ∃ e, escapes e ∧ (e.isOverflow = true ∨ Overflowed cfg s ∨ ¬ cfg.Covered)) := by
  induction reached with
  | create created =>
      obtain ⟨valid, count, rfl⟩ := create_ok.mp created
      exact ⟨valid, count, {}, point_initial, nofun⟩
  | @perform s t action _ performed ih =>
      obtain ⟨valid, count, d, point, excuse⟩ := ih
      have leads := perform_leads valid.checked count action point
      unfold Leads Exits at leads
      rw [performed] at leads
      obtain ⟨passed, d', point', same⟩ := leads
      refine ⟨valid, count, d', point', fun escaped => ?_⟩
      obtain ⟨e, he, why⟩ := excuse (same ▸ escaped)
      exact ⟨e, he, why.imp_right (.imp_left passed)⟩
  | @escape s t e action _ performed escaped ih =>
      obtain ⟨valid, count, d, point, excuse⟩ := ih
      have leads := perform_leads valid.checked count action point
      unfold Leads Exits at leads
      rw [performed] at leads
      obtain ⟨passed, excusable, d', point', -⟩ := leads
      refine ⟨valid, count, d', point', fun _ => ?_⟩
      rcases excusable with overflow | passed' | ⟨-, irregular⟩ | ⟨-, before⟩
      · exact ⟨e, escaped, .inl overflow⟩
      · exact ⟨e, escaped, .inr (.inl passed')⟩
      · exact ⟨e, escaped, .inr (.inr irregular)⟩
      · obtain ⟨e', he', why⟩ := excuse before
        exact ⟨e', he', why.imp_right (.imp_left passed)⟩

/-- A state no exception has escaped on the way to owes nothing. -/
theorem HbmSystem.Reachable.settled (reached : Reachable cfg NoEscape s) :
    cfg.Checked ∧ cfg.channelCount ≠ 0 ∧
      ∃ d, Run cfg (s, d) ∧ d.escaped = false ∧ d.Settled ∧ d.finishing = [] := by
  obtain ⟨valid, count, d, point, excuse⟩ := reached.point
  have alive : ¬ d.escaped = true := fun lost => (excuse lost).choose_spec.1
  exact ⟨valid.checked, count, d, point.run, by simpa using alive, point.settled.resolve_left alive⟩

end

end HbmSim
