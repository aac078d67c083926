import HbmSim.System.Waiting

/-!
Member functions as moves: exceptions, controller calls, and the scheduling of wake
and refresh events.

A member function called at a point of a run follows `Move`. Where it throws, the
state it leaves is the point it had reached (`Left.here`), or that point after a data
command whose transfer does not fit into 64 bits (`Left.lost`), and the exception is
one a correct system may throw there.
-/

namespace HbmSim

open HbmSim.Lib HbmSystem Relation

/-- An exception a correct system may throw at a point of a run. -/
def Excusable (cfg : HbmConfig) (e : HbmError) (p : HbmSystem × Debts) : Prop :=
  e.isOverflow = true ∨ Overflowed cfg p.1 ∨
    (e.isRange = true ∧ ¬ cfg.Covered) ∨ (e.isLogic = false ∧ p.2.escaped = true)

/-- The state a throw leaves at a point. -/
inductive Left (cfg : HbmConfig) (e : HbmError) (p : HbmSystem × Debts) : HbmSystem → Prop
  | here (excusable : Excusable cfg e p) : Left cfg e p p.1
  | lost {channel : Nat} {lost : List LogicalAccess} {t : ControllerState}
      (hchannel : channel < cfg.channelCount)
      (step : HbmController.LostStep (cfg.channelConfig channel) cfg.mapper p.1.now
        (p.1.side channel) lost t) (overflow : e.isOverflow = true) :
      Left cfg e p (p.1.update channel t)

/-- A throw leaves no parent that should have been completed. -/
def Escapes (cfg : HbmConfig) (e : HbmError) (p : HbmSystem × Debts) (t : HbmSystem) : Prop :=
  p.2.ripe = none ∧ Left cfg e p t

/-- The program is a sequence of moves. -/
abbrev Obeys (cfg : HbmConfig) {α : Type} (x : SystemM α) (Q : α → HbmSystem × Debts → Prop)
    (p : HbmSystem × Debts) : Prop :=
  Follows (Move cfg) (Escapes cfg) x Q p

/-- The duties a call leaves alone: what is stacked up, and what has happened. -/
structure SameStacks (d d' : Debts) : Prop where
  escaped : d'.escaped = d.escaped
  slots : d'.slots = d.slots
  issued : d'.issued = d.issued
  finishing : d'.finishing = d.finishing
  ripe : d'.ripe = d.ripe
  retired : d'.retired = d.retired
  lost : d'.lost = d.lost

namespace SameStacks

variable {d d' d'' : Debts}

theorem refl (d : Debts) : SameStacks d d := ⟨rfl, rfl, rfl, rfl, rfl, rfl, rfl⟩

theorem trans (h : SameStacks d d') (h' : SameStacks d' d'') : SameStacks d d'' :=
  ⟨h'.escaped.trans h.escaped, h'.slots.trans h.slots, h'.issued.trans h.issued,
    h'.finishing.trans h.finishing, h'.ripe.trans h.ripe, h'.retired.trans h.retired,
    h'.lost.trans h.lost⟩

end SameStacks

section

variable {cfg : HbmConfig} {p q : HbmSystem × Debts} {s t : HbmSystem} {d : Debts}

/-- Moves continue a run. -/
theorem HbmSystem.Run.moves (run : Run cfg p) (moves : Moves cfg p q) : Run cfg q := by
  induction moves with
  | refl => exact run
  | tail _ move ih => exact .move ih move

/-- A move takes no time. -/
theorem HbmSystem.Move.now {p q : HbmSystem × Debts} (move : Move cfg p q) : q.1.now = p.1.now := by
  cases move <;> rfl

/-- Moves take no time. -/
theorem moves_now (moves : Moves cfg p q) : q.1.now = p.1.now := by
  induction moves with
  | refl => rfl
  | tail _ move ih => exact move.now.trans ih

/-- Moves clear no wrap flag. -/
theorem moves_overflowed (moves : Moves cfg p q) (h : Overflowed cfg p.1) : Overflowed cfg q.1 := by
  induction moves with
  | refl => exact h
  | tail _ move ih => exact ih.move move

/-- An exception of a call that did nothing. -/
theorem Obeys.throw {α : Type} {Q : α → HbmSystem × Debts → Prop} {e : HbmError}
    (ripe : p.2.ripe = none) (excusable : Excusable cfg e p) :
    Obeys cfg (throw e : SystemM α) Q p :=
  Follows.throw ⟨ripe, .here excusable⟩

/-- A pure computation that may throw. -/
theorem Obeys.ofExcept {α β : Type} {r : Except HbmError α} {f : α → SystemM β}
    {Q : β → HbmSystem × Debts → Prop} (ok : ∀ a, r = .ok a → Obeys cfg (f a) Q p)
    (error : ∀ e, r = .error e → p.2.ripe = none ∧ Excusable cfg e p) :
    Obeys cfg (ofExcept r >>= f) Q p := by
  cases r with
  | ok a => exact ok a rfl
  | error e => exact Follows.throw ⟨(error e rfl).1, .here (error e rfl).2⟩

/-! ### Calls of a controller -/

/-- A controller operation runs on its channel's side of the system. -/
theorem onController_exits {α : Type} {channel : Nat} (hchannel : channel < cfg.channelCount)
    {op : ControllerM α} {Q : α → HbmSystem → Prop} {E : HbmError → HbmSystem → Prop} :
    Exits (onController cfg channel op) Q E s ↔
      Exits op (fun a t => Q a (s.update channel t)) (fun e t => E e (s.update channel t))
        (s.side channel) := by
  unfold Exits onController
  rw [if_pos hchannel]
  have same : op ⟨s.controllers channel, s.stats⟩ = op (s.side channel) := rfl
  rw [same]
  cases op (s.side channel) <;> rfl

@[simp] theorem update_side (s : HbmSystem) (channel : Nat) :
    s.update channel (s.side channel) = s := by
  have same : (fun ch => if ch = channel then s.controllers channel else s.controllers ch) =
      s.controllers := by
    funext ch
    split
    · subst ch
      rfl
    · rfl
  unfold HbmSystem.update HbmSystem.setController HbmSystem.side
  simp only [same]

@[simp] theorem side_update (s : HbmSystem) (channel : Nat) (t : ControllerState) :
    (s.update channel t).side channel = t := by
  simp [side, update, setController]

@[simp] theorem update_update (s : HbmSystem) (channel : Nat) (t u : ControllerState) :
    (s.update channel t).update channel u = s.update channel u := by
  unfold HbmSystem.update HbmSystem.setController
  have same : (fun ch => if ch = channel then u.ctl else
      if ch = channel then t.ctl else s.controllers ch) =
        fun ch => if ch = channel then u.ctl else s.controllers ch := by
    funext ch
    split <;> rfl
  simp only [same]

/-- A controller call that only changes members. -/
theorem update_modifyCtl (s : HbmSystem) (channel : Nat) (f : HbmController → HbmController) :
    s.update channel ((s.side channel).modifyCtl f) = s.modifyController channel f := rfl

/-- A query of a controller. -/
theorem Obeys.query {α β : Type} {channel : Nat} (hchannel : channel < cfg.channelCount)
    {g : ControllerState → α} {f : α → SystemM β} {Q : β → HbmSystem × Debts → Prop}
    (rest : Obeys cfg (f (g (p.1.side channel))) Q p) :
    Obeys cfg (onController cfg channel (do return g (← get)) >>= f) Q p := by
  refine Follows.bind (Q := fun a q => q = p ∧ a = g (p.1.side channel)) ?_ ?_
  · unfold Follows
    rw [onController_exits hchannel]
    simp only [exits_bind, exits_get, exits_pure, update_side]
    exact ⟨p.2, .refl, rfl, trivial⟩
  · rintro a q - ⟨rfl, rfl⟩
    exact rest

/-! ### Events -/

/-- An event is scheduled, or refused because its time has passed. -/
theorem scheduleEvent_exits (at_ : Nat) (callback : EventCallback) :
    Exits (scheduleEvent at_ callback) (fun _ t => s.now ≤ at_ ∧ t = s.schedule at_ callback)
      (fun e t => at_ < s.now ∧ t = s ∧ e.isLogic = false) s := by
  unfold scheduleEvent
  simp only [exits_bind, exits_get, exits_ofExcept, exits_modify]
  unfold EventQueue.scheduleAt
  by_cases past : at_ < s.scheduler.now
  · rw [if_pos past]
    exact ⟨(fun _ h => by cases h), fun e he => ⟨past, trivial, by cases he; rfl⟩⟩
  · rw [if_neg past]
    refine ⟨?_, fun _ h => by cases h⟩
    rintro _ ⟨⟩
    exact ⟨Nat.not_lt.mp past, rfl⟩

/-- A wake event is scheduled unless an earlier one is marked: the channel is no
longer owed one. -/
theorem scheduleControllerWake_obeys {channel at_ : Nat} (hchannel : channel < cfg.channelCount) :
    Obeys cfg (scheduleControllerWake cfg channel at_)
      (fun _ q => q.2 = { p.2 with wakes := p.2.wakes.filter (· != channel) } ∧
        q.1.parents = p.1.parents ∧
        ∀ ch, (q.1.controllers ch).outstandingAccesses = (p.1.controllers ch).outstandingAccesses)
      p := by
  obtain ⟨s, d⟩ := p
  have future : s.now ≤ max at_ s.now := Nat.le_max_right _ _
  unfold scheduleControllerWake
  refine Follows.get ?_
  generalize max at_ s.now = wake_at at future
  unfold Follows
  rw [exits_bind, onController_exits hchannel, exits_modifyGet]
  show Exits (if ((s.controllers channel).markWakeup wake_at).1 then
      scheduleEvent wake_at (.wake channel wake_at) else pure ()) _ _
    (s.update channel ((s.side channel).modifyCtl fun _ =>
      ((s.controllers channel).markWakeup wake_at).2))
  have covered : ∀ {t : HbmSystem}, (t.controllers channel).wakeupAt.isSome → t.now = s.now →
      Move cfg (t, d) (t, { d with wakes := d.wakes.filter (· != channel) }) :=
    fun some _ => .awake (.inl some)
  by_cases marked : ∃ t, (s.controllers channel).wakeupAt = some t ∧ t ≤ wake_at
  · obtain ⟨t, mark, earlier⟩ := marked
    have result : (s.controllers channel).markWakeup wake_at = (false, s.controllers channel) := by
      simp [HbmController.markWakeup, mark, earlier]
    rw [result]
    have same : s.update channel ((s.side channel).modifyCtl fun _ => s.controllers channel) = s :=
      update_side s channel
    rw [same]
    exact ⟨_, .single (covered (by simp [mark]) rfl), rfl, rfl, fun _ => rfl⟩
  · have result : (s.controllers channel).markWakeup wake_at =
        (true, { s.controllers channel with wakeupAt := some wake_at }) := by
      unfold HbmController.markWakeup
      cases mark : (s.controllers channel).wakeupAt with
      | none => rfl
      | some t =>
          have later : ¬ t ≤ wake_at := fun h => marked ⟨t, mark, h⟩
          simp [later]
    rw [result]
    refine (scheduleEvent_exits wake_at (.wake channel wake_at)).mono (fun _ t h => ?_)
      (fun e t h => ?_)
    · obtain ⟨-, rfl⟩ := h
      have earlier : ∀ t, (s.controllers channel).wakeupAt = some t → wake_at < t := fun t mark =>
        Nat.not_le.mp fun h => marked ⟨t, mark, h⟩
      have some : ((s.markWake channel wake_at).controllers channel).wakeupAt.isSome := by simp
      refine ⟨_, (ReflTransGen.single (.wake hchannel future earlier)).tail (covered some rfl), rfl,
        rfl, fun ch => ?_⟩
      show ((s.markWake channel wake_at).controllers ch).outstandingAccesses = _
      rw [markWake_controllers]
      split
      · subst ch
        rfl
      · rfl
    · exact absurd h.1 (Nat.not_lt.mpr future)

/-- The next due instant gets its event unless it has one: the channel is no longer
owed one. -/
theorem scheduleRefreshDue_obeys (run : Run cfg p) (ripe : p.2.ripe = none) {channel : Nat}
    (hchannel : channel < cfg.channelCount)
    (live : (p.1.controllers channel).outstandingAccesses ≠ 0) :
    Obeys cfg (scheduleRefreshDue cfg channel)
      (fun _ q => q.2 = { p.2 with rearm := p.2.rearm.filter (· != channel) } ∧
        q.1.parents = p.1.parents ∧
        ∀ ch, (q.1.controllers ch).outstandingAccesses = (p.1.controllers ch).outstandingAccesses)
      p := by
  have punctual := run.punctual
  obtain ⟨s, d⟩ := p
  unfold scheduleRefreshDue Obeys Follows
  rw [exits_bind, onController_exits hchannel, exits_modifyGet]
  dsimp only [side]
  have idle : s.update channel { ctl := s.controllers channel, stats := s.stats } = s :=
    update_side s channel
  cases next : (s.controllers channel).nextRefreshDue with
  | none =>
      have result : (s.controllers channel).claimRefreshEvent = (none, s.controllers channel) := by
        simp [HbmController.claimRefreshEvent, next]
      rw [result]
      dsimp only
      rw [idle]
      exact ⟨_, .single (.armed (.inr (.inl next))), rfl, rfl, fun _ => rfl⟩
  | some due =>
      by_cases marked : (s.controllers channel).refreshDueAt = some due
      · have result : (s.controllers channel).claimRefreshEvent =
          (none, s.controllers channel) := by
          simp [HbmController.claimRefreshEvent, next, marked]
        rw [result]
        dsimp only
        rw [idle]
        exact ⟨_, .single (.armed (.inr (.inr (marked.trans next.symm)))), rfl, rfl, fun _ => rfl⟩
      · have result : (s.controllers channel).claimRefreshEvent =
            (some due, { s.controllers channel with refreshDueAt := some due }) := by
          simp [HbmController.claimRefreshEvent, next, marked]
        rw [result]
        refine (scheduleEvent_exits due (.refreshDue channel due)).mono (fun _ t h => ?_)
          (fun e t h => ?_)
        · obtain ⟨future, rfl⟩ := h
          have armed : ((s.markRefresh channel due).controllers channel).refreshDueAt =
              ((s.markRefresh channel due).controllers channel).nextRefreshDue := by simp [next]
          refine ⟨_, (ReflTransGen.single (.arm hchannel future next marked)).tail
            (.armed (.inr (.inr armed))), rfl, rfl, fun ch => ?_⟩
          show ((s.markRefresh channel due).controllers ch).outstandingAccesses = _
          rw [markRefresh_controllers]
          split
          · subst ch
            rfl
          · rfl
        · obtain ⟨past, rfl, notLogic⟩ := h
          have claimed : Move cfg (s, d) _ := .misarm hchannel past live next
          refine ⟨_, .single claimed, ripe, .here ?_⟩
          rcases punctual with escaped | passed | armed
          · exact .inr (.inr (.inr ⟨notLogic, escaped⟩))
          · exact .inr (.inl (passed.move claimed))
          · exact absurd past (Nat.not_lt.mpr (armed.future channel live due next))

/-! ### The channels an admission has touched -/

/-- The touched channels exist and have work. -/
def Touched (cfg : HbmConfig) (s : HbmSystem) (touched : List Nat) : Prop :=
  ∀ ch ∈ touched, ch < cfg.channelCount ∧ (s.controllers ch).outstandingAccesses ≠ 0

theorem Touched.same {touched : List Nat} (h : Touched cfg s touched)
    (outstanding : ∀ ch, (t.controllers ch).outstandingAccesses =
      (s.controllers ch).outstandingAccesses) : Touched cfg t touched := by
  intro ch hch
  rw [outstanding]
  exact h ch hch

/-- Every touched channel gets its events. -/
theorem wakeTouched_obeys {touched : List Nat} (channels : List Nat) {p : HbmSystem × Debts}
    (run : Run cfg p) (ripe : p.2.ripe = none) (live : Touched cfg p.1 touched) :
    Obeys cfg (wakeTouched cfg touched channels)
      (fun _ q => ∃ wakes rearm, q.2 = { p.2 with wakes := wakes, rearm := rearm } ∧
        q.1.parents = p.1.parents ∧
        (∀ ch ∈ wakes, ch ∈ p.2.wakes ∧ (ch ∈ touched → ch ∉ channels)) ∧
        ∀ ch ∈ rearm, ch ∈ p.2.rearm ∧ (ch ∈ touched → ch ∉ channels)) p := by
  induction channels generalizing p with
  | nil =>
      exact Follows.pure ⟨p.2.wakes, p.2.rearm, rfl, rfl, fun ch h =>
        ⟨h, fun _ => List.not_mem_nil⟩,
        fun ch h => ⟨h, fun _ => List.not_mem_nil⟩⟩
  | cons channel rest ih =>
      unfold wakeTouched
      by_cases hit : touched.contains channel = true
      · rw [if_pos hit]
        have mem : channel ∈ touched := by simpa using hit
        obtain ⟨hchannel, work⟩ := live channel mem
        refine Follows.bind (scheduleRefreshDue_obeys run ripe hchannel work) ?_
        rintro - q moves ⟨hq, parents, outstanding⟩
        refine Follows.get ?_
        refine Follows.bind (scheduleControllerWake_obeys hchannel) ?_
        rintro - r moves' ⟨hr, parents', outstanding'⟩
        have debts : r.2 = { p.2 with
            wakes := p.2.wakes.filter (· != channel)
            rearm := p.2.rearm.filter (· != channel) } := by rw [hr, hq]
        refine (ih ((run.moves moves).moves moves') (by rw [debts]; exact ripe)
          ((live.same outstanding).same outstanding')).mono ?_
        rintro - u - ⟨wakes, rearm, hu, parents'', hwakes, hrearm⟩
        refine ⟨wakes, rearm, by rw [hu, debts], parents''.trans (parents'.trans parents),
          fun ch h => ?_, fun ch h => ?_⟩
        · obtain ⟨before, untouched⟩ := hwakes ch h
          rw [debts] at before
          obtain ⟨before, other⟩ := List.mem_filter.mp before
          exact ⟨before, fun hit => List.not_mem_cons_of_ne_of_not_mem (by simpa using other)
            (untouched hit)⟩
        · obtain ⟨before, untouched⟩ := hrearm ch h
          rw [debts] at before
          obtain ⟨before, other⟩ := List.mem_filter.mp before
          exact ⟨before, fun hit => List.not_mem_cons_of_ne_of_not_mem (by simpa using other)
            (untouched hit)⟩
      · rw [if_neg hit]
        have miss : channel ∉ touched := by simpa using hit
        refine (ih run ripe live).mono ?_
        rintro - u - ⟨wakes, rearm, hu, parents, hwakes, hrearm⟩
        refine ⟨wakes, rearm, hu, parents, fun ch h => ⟨(hwakes ch h).1, fun hit => ?_⟩,
          fun ch h => ⟨(hrearm ch h).1, fun hit => ?_⟩⟩
        · exact List.not_mem_cons_of_ne_of_not_mem (fun same =>
            miss (same ▸ hit)) ((hwakes ch h).2 hit)
        · exact List.not_mem_cons_of_ne_of_not_mem (fun same =>
            miss (same ▸ hit)) ((hrearm ch h).2 hit)

end

end HbmSim
