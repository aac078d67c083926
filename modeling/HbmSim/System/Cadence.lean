import HbmSim.System.Actions

/-!
The refresh cadence of a run.

A channel raises its first refresh one interval after its first admission and one more
at every interval from there. Inside a call the handling of a refresh is judged by the
controller before it (`calmed`); the step that ends it keeps the cadence as a whole.
-/

namespace HbmSim

open HbmSim.Lib HbmSystem

/-- The time of an admission on the channel. -/
def Observation.admittedAt (channel : Nat) : Observation → Option Nat
  | .admitted _ c _ at_ => if c = channel then some at_ else none
  | _ => none

/-- The times of the admissions on a channel, latest first. -/
def admissions (trace : List Observation) (channel : Nat) : List Nat :=
  trace.filterMap (·.admittedAt channel)

/-- The controller of a channel, as it was before a refresh handling under way. -/
def calmed (s : HbmSystem) (d : Debts) (channel : Nat) : HbmController :=
  match d.stirring with
  | some (ch, before) => if ch = channel then before else s.controllers channel
  | none => s.controllers channel

/-- An access of the channel is charged and not pushed. -/
def Debts.Charged (d : Debts) (channel : Nat) : Prop :=
  ∃ a ∈ d.slots, a.address.flatChannel = channel

/-- A channel is on its refresh cadence: it has not started, it is being started by its
first admission, or it has been running since. -/
inductive Beating (cfg : HbmConfig) (s : HbmSystem) (d : Debts) (channel : Nat) : Prop
  | idle (none : admissions s.trace channel = []) (fresh : (calmed s d channel).Fresh)
      (uncharged : ¬ d.Charged channel)
  | starting (first : (admissions s.trace channel).getLast? = some s.now)
      (fresh : (calmed s d channel).Fresh) (charged : d.Charged channel)
  | running {start : Nat} (first : (admissions s.trace channel).getLast? = some start)
      (cadenced : (calmed s d channel).Cadenced (cfg.channelConfig channel) start)
      (raised : d.Charged channel ∨ ∀ at_ ∈ admissions s.trace channel,
        ∀ due, (calmed s d channel).nextRefreshDue = some due → at_ < due)

/-- Every channel is on its cadence, unless an exception has escaped or a time has left
64 bits. -/
def InStep (cfg : HbmConfig) (s : HbmSystem) (d : Debts) : Prop :=
  d.escaped = true ∨ Overflowed cfg s ∨
    ((∀ channel, ∀ at_ ∈ admissions s.trace channel, at_ ≤ s.now) ∧
      ∀ channel, Beating cfg s d channel)

section

variable {cfg : HbmConfig} {s t : HbmSystem} {d d' : Debts} {channel : Nat}

/-- With no admission under way the controllers are their own. -/
theorem calmed_of_none (none : d.stirring = none) : calmed s d channel = s.controllers channel := by
  unfold calmed
  rw [none]

/-- The controller under admission is taken as it was. -/
theorem calmed_of_some {ch : Nat} {before : HbmController} (some : d.stirring = some (ch, before)) :
    calmed s d channel = if ch = channel then before else s.controllers channel := by
  unfold calmed
  rw [some]

/-- A change of one controller that leaves its cadence alone. -/
theorem calmed_update {c : HbmController}
    (controllers : ∀ ch, t.controllers ch = if ch = channel then c else s.controllers ch)
    (same : SameCadence (s.controllers channel) c)
    (stirring : d'.stirring = d.stirring) (ch : Nat) :
    SameCadence (calmed s d ch) (calmed t d' ch) := by
  have own : SameCadence (s.controllers ch) (t.controllers ch) := by
    rw [controllers]
    split
    · subst ch
      exact same
    · exact .refl _
  unfold calmed
  rw [stirring]
  cases d.stirring with
  | none => exact own
  | some x =>
      dsimp only
      split
      · exact .refl _
      · exact own

/-- A change that leaves the cadences, the admissions and the slots alone. -/
theorem Beating.frame (h : Beating cfg s d channel)
    (same : SameCadence (calmed s d channel) (calmed t d' channel))
    (trace : admissions t.trace channel = admissions s.trace channel)
    (now : t.now = s.now ∨ d.slots = []) (slots : d'.slots = d.slots) :
    Beating cfg t d' channel := by
  have same_slots : d'.Charged channel ↔ d.Charged channel := by
    unfold Debts.Charged
    rw [slots]
  have charged := same_slots.mpr
  cases h with
  | idle none fresh uncharged =>
      exact .idle (trace.trans none) (same.fresh fresh) (mt same_slots.mp uncharged)
  | starting first fresh slot =>
      rcases now with now | empty
      · refine .starting ?_ (same.fresh fresh) (charged slot)
        rw [trace, now]
        exact first
      · obtain ⟨a, ha, -⟩ := slot
        rw [empty] at ha
        cases ha
  | running first cadenced raised =>
      refine .running (by rw [trace]; exact first) (same.cadenced cadenced)
        (raised.imp charged fun raised => ?_)
      rw [trace, same.nextRefreshDue]
      exact raised

theorem InStep.frame (h : InStep cfg s d) (escaped : d.escaped = true → d'.escaped = true)
    (passed : Overflowed cfg s → Overflowed cfg t)
    (same : ∀ ch, SameCadence (calmed s d ch) (calmed t d' ch))
    (trace : ∀ ch, admissions t.trace ch = admissions s.trace ch)
    (now : t.now = s.now ∨ s.now ≤ t.now ∧ (d.escaped = true ∨ d.slots = []))
    (slots : d'.slots = d.slots) : InStep cfg t d' := by
  rcases h with lost | passed' | ⟨past, beating⟩
  · exact .inl (escaped lost)
  · exact .inr (.inl (passed passed'))
  rcases now with now | ⟨later, lost | empty⟩
  · refine .inr (.inr ⟨fun ch at_ mem => ?_, fun ch => ?_⟩)
    · rw [now]
      exact past ch at_ (trace ch ▸ mem)
    · exact (beating ch).frame (same ch) (trace ch) (.inl now) slots
  · exact .inl (escaped lost)
  · refine .inr (.inr ⟨fun ch at_ mem => ?_, fun ch => ?_⟩)
    · exact Nat.le_trans (past ch at_ (trace ch ▸ mem)) later
    · exact (beating ch).frame (same ch) (trace ch) (.inr empty) slots

theorem DataStep.cadence {config : HbmControllerConfig} {mapper : HbmAddressMapper} {now : Nat}
    {s t : ControllerState} {physical : PhysicalAccess} (sound : Sound config mapper s.ctl)
    (step : HbmController.DataStep config mapper now s physical t) : SameCadence s.ctl t.ctl := by
  have banks := (sound.dataStep step).banks.trans sound.banks.symm
  have wrapped := step.wrapped
  rw [step.frame] at *
  exact ⟨rfl, rfl, rfl, rfl, banks, wrapped⟩

/-! ### Steps of refresh handling -/

/-- What is judged while a refresh is handled does not change. -/
theorem calmed_stir (alone : ∀ x ∈ d.stirring, x.1 = channel) (u : ControllerState)
    {wakes rearm : List Nat} (ch : Nat) :
    calmed (s.update channel u) { d with
      wakes := wakes, rearm := rearm
      stirring := some (d.stirring.getD (channel, s.controllers channel)) } ch = calmed s d ch := by
  have other : ch ≠ channel → (s.update channel u).controllers ch = s.controllers ch :=
    fun hne => by
    rw [update_controllers, if_neg hne]
  unfold calmed
  cases stirring : d.stirring with
  | none =>
      dsimp only [Option.getD_none]
      split
      · subst ch
        rfl
      · rename_i hne
        exact other (Ne.symm hne)
  | some x =>
      dsimp only [Option.getD_some]
      have here : x.1 = channel := alone x (by rw [stirring]; rfl)
      split
      · rfl
      · rename_i hne
        exact other (by rw [← here]; exact Ne.symm hne)

/-- Refresh handling that is done has kept the cadence. -/
theorem Beating.calm (h : Beating cfg s d channel) {before : HbmController}
    (hchannel : channel < cfg.channelCount) (stirring : d.stirring = some (channel, before))
    (cadence : KeepsCadence (cfg.channelConfig channel) s.now before (s.controllers channel))
    (grows : before.raised.length ≤ (s.controllers channel).raised.length)
    (started : before.nextRefreshDue = none → (s.controllers channel).nextRefreshDue = none ∨
      d.Charged channel) :
    Overflowed cfg s ∨ Beating cfg s { d with stirring := none } channel := by
  have was : calmed s d channel = before := by rw [calmed_of_some stirring, if_pos rfl]
  have is : calmed s { d with stirring := none } channel = s.controllers channel :=
    calmed_of_none rfl
  have wraps : (s.controllers channel).wrapped = true → Overflowed cfg s := fun h =>
    .inr ⟨channel, hchannel, h⟩
  cases h with
  | idle none fresh uncharged =>
      rw [was] at fresh
      rcases cadence.first fresh with wrapped | fresh' | cadenced
      · exact .inl (wraps wrapped)
      · exact .inr (.idle none (is ▸ fresh') uncharged)
      · rcases started fresh.next with next | charged
        · exact nomatch next.symm.trans cadenced.next
        · exact absurd charged uncharged
  | starting first fresh charged =>
      rw [was] at fresh
      rcases cadence.first fresh with wrapped | fresh' | cadenced
      · exact .inl (wraps wrapped)
      · exact .inr (.starting first (is ▸ fresh') charged)
      · exact .inr (.running first (is ▸ cadenced) (.inl charged))
  | running first cadenced raised =>
      rw [was] at cadenced raised
      rcases cadence.kept _ cadenced with wrapped | cadenced'
      · exact .inl (wraps wrapped)
      · refine .inr (.running first (is ▸ cadenced') (raised.imp id
          fun raised at_ mem due hdue => ?_))
        rw [is] at hdue
        have later : due = _ := Option.some.inj (hdue.symm.trans cadenced'.next)
        have earlier := raised at_ mem _ cadenced.next
        have more := Nat.mul_le_mul_right (cfg.channelConfig channel).refreshInterval
          (Nat.add_le_add_right grows 1)
        omega

/-! ### Admissions -/

/-- A charge is an admission on its channel. -/
theorem admissions_charge (s : HbmSystem) (parent : ParentRequest) (access : HbmAccess)
    (channel : Nat) :
    admissions (s.charge parent access).trace channel =
      (if access.address.flatChannel = channel then [s.now] else []) ++
        admissions s.trace channel := by
  have newest : (s.charge parent access).trace =
      .admitted parent.ticket access.address.flatChannel (s.numbered access) s.now :: s.trace := rfl
  rw [newest]
  unfold admissions
  by_cases here : access.address.flatChannel = channel
  · rw [List.filterMap_cons_some (b := s.now) (by simp [Observation.admittedAt, here]), if_pos here]
    rfl
  · rw [List.filterMap_cons_none (by simp [Observation.admittedAt, here]), if_neg here]
    rfl

/-- A charge opens the admission of its access. -/
theorem Beating.charge (h : Beating cfg s d channel) (parent : ParentRequest) (access : HbmAccess)
    (closing : Option Nat) :
    Beating cfg (s.charge parent access)
      { d with slots := s.numbered access :: d.slots, closing := closing } channel := by
  have same : SameCadence (calmed s d channel) (calmed (s.charge parent access)
      { d with slots := s.numbered access :: d.slots, closing := closing } channel) :=
    calmed_update (charge_controllers s parent access) ⟨rfl, rfl, rfl, rfl, rfl, id⟩ rfl channel
  have kept : d.Charged channel → ({ d with
      slots := s.numbered access :: d.slots, closing := closing } : Debts).Charged channel :=
    fun ⟨a, ha, same⟩ => ⟨a, List.mem_cons_of_mem _ ha, same⟩
  have trace := admissions_charge s parent access channel
  by_cases here : access.address.flatChannel = channel
  · have charged : ({ d with
        slots := s.numbered access :: d.slots, closing := closing } : Debts).Charged channel :=
      ⟨_, List.mem_cons_self, here⟩
    rw [if_pos here] at trace
    cases h with
    | idle none fresh =>
        refine .starting ?_ (same.fresh fresh) charged
        rw [trace, none]
        rfl
    | starting first fresh =>
        refine .starting ?_ (same.fresh fresh) charged
        rw [trace, List.singleton_append, List.getLast?_cons, first]
        rfl
    | running first cadenced =>
        refine .running ?_ (same.cadenced cadenced) (.inl charged)
        rw [trace, List.singleton_append, List.getLast?_cons, first]
        rfl
  · rw [if_neg here, List.nil_append] at trace
    cases h with
    | idle none fresh uncharged =>
        refine .idle (trace.trans none) (same.fresh fresh) ?_
        rintro ⟨a, ha, hch⟩
        rcases List.mem_cons.mp ha with rfl | ha
        · exact here hch
        · exact uncharged ⟨a, ha, hch⟩
    | starting first fresh charged =>
        exact .starting (by rw [trace]; exact first) (same.fresh fresh) (kept charged)
    | running first cadenced raised =>
        refine .running (by rw [trace]; exact first) (same.cadenced cadenced)
          (raised.imp kept fun raised => ?_)
        rw [trace, same.nextRefreshDue]
        exact raised

/-- The push closes it, with the refreshes up to now raised. -/
theorem Beating.push (h : Beating cfg s d channel) (calm : d.stirring = none) {access : HbmAccess}
    {rest : List HbmAccess} {wakes rearm : List Nat} (slot : d.slots = access :: rest)
    (past : ∀ at_ ∈ admissions s.trace channel, at_ ≤ s.now)
    (prepared : ∀ due, (s.controllers access.address.flatChannel).nextRefreshDue = some due →
      s.now < due)
    (started : (s.controllers access.address.flatChannel).nextRefreshDue ≠ none) :
    Beating cfg (s.push cfg access) { d with slots := rest, wakes := wakes, rearm := rearm }
      channel := by
  have same : SameCadence (calmed s d channel) (calmed (s.push cfg access)
      { d with slots := rest, wakes := wakes, rearm := rearm } channel) :=
    calmed_update (push_controllers cfg s access) ⟨rfl, rfl, rfl, rfl, rfl, id⟩ rfl channel
  have is : calmed s d channel = s.controllers channel := calmed_of_none calm
  have left : ({ d with slots := rest, wakes := wakes, rearm := rearm } : Debts).Charged channel →
      d.Charged channel := fun ⟨a, ha, hch⟩ => ⟨a, slot ▸ List.mem_cons_of_mem _ ha, hch⟩
  have stays : access.address.flatChannel ≠ channel → d.Charged channel →
      ({ d with slots := rest, wakes := wakes, rearm := rearm } : Debts).Charged channel := by
    rintro other ⟨a, ha, hch⟩
    rw [slot] at ha
    rcases List.mem_cons.mp ha with rfl | ha
    · exact absurd hch other
    · exact ⟨a, ha, hch⟩
  by_cases here : access.address.flatChannel = channel
  · rw [here] at prepared started
    cases h with
    | idle none fresh => exact absurd (is ▸ fresh.next) started
    | starting first fresh => exact absurd (is ▸ fresh.next) started
    | running first cadenced =>
        refine .running first (same.cadenced cadenced) (.inr fun at_ mem due hdue => ?_)
        rw [same.nextRefreshDue, is] at hdue
        exact Nat.lt_of_le_of_lt (past at_ mem) (prepared due hdue)
  · cases h with
    | idle none fresh uncharged => exact .idle none (same.fresh fresh) (mt left uncharged)
    | starting first fresh charged => exact .starting first (same.fresh fresh) (stays here charged)
    | running first cadenced raised =>
        refine .running first (same.cadenced cadenced) (raised.imp (stays here) fun raised => ?_)
        rw [same.nextRefreshDue]
        exact raised

/-! ### The invariant -/

/-- Every move keeps the cadence. -/
theorem InStep.move (checked : cfg.Checked) (on : cfg.controller.refreshInterval ≠ 0)
    {p q : HbmSystem × Debts} (run : Run cfg p) (move : Move cfg p q) (h : InStep cfg p.1 p.2) :
    InStep cfg q.1 q.2 := by
  have passed := fun h => Overflowed.move move h
  cases move with
  | @control s d channel t _ step calm cadence =>
      exact h.frame id passed (calmed_update (update_controllers s channel t) cadence rfl)
        (fun _ => rfl) (.inl rfl) rfl
  | @stir s d channel t _ step alone =>
      rcases alone with lost | alone
      · exact .inl lost
      refine h.frame id passed (fun ch => ?_) (fun _ => rfl) (.inl rfl) rfl
      rw [calmed_stir alone]
      exact .refl _
  | @calm s d channel before hchannel stirring cadence grows started =>
      rcases h with lost | passed' | ⟨past, beating⟩
      · exact .inl lost
      · exact .inr (.inl passed')
      rcases (beating channel).calm hchannel stirring cadence grows started with passed' | calmer
      · exact .inr (.inl passed')
      refine .inr (.inr ⟨past, fun ch => ?_⟩)
      by_cases here : channel = ch
      · subst here
        exact calmer
      · refine (beating ch).frame ?_ rfl (.inl rfl) rfl
        have was : calmed s d ch = s.controllers ch := by rw [calmed_of_some stirring, if_neg here]
        rw [was]
        exact .refl _
  | @transfer s d channel physical t _ step =>
      have cadence := DataStep.cadence (run.sound checked channel) step
      exact h.frame id passed (calmed_update (update_controllers s channel t) cadence rfl)
        (fun _ => rfl) (.inl rfl) rfl
  | @wake s d channel at_ =>
      exact h.frame id passed (calmed_update (markWake_controllers s channel at_)
        ⟨rfl, rfl, rfl, rfl, rfl, id⟩ rfl) (fun _ => rfl) (.inl rfl) rfl
  | @arm s d channel due =>
      exact h.frame id passed (calmed_update (markRefresh_controllers s channel due)
        ⟨rfl, rfl, rfl, rfl, rfl, id⟩ rfl) (fun _ => rfl) (.inl rfl) rfl
  | @misarm s d channel due =>
      have same := modifyController_controllers s channel fun c =>
        { c with refreshDueAt := some due }
      exact h.frame id passed (calmed_update same ⟨rfl, rfl, rfl, rfl, rfl, id⟩ rfl) (fun _ => rfl)
        (.inl rfl) rfl
  | @charge s d parent access =>
      rcases h with lost | passed' | ⟨past, beating⟩
      · exact .inl lost
      · exact .inr (.inl (passed passed'))
      refine .inr (.inr ⟨fun ch at_ mem => ?_, fun ch => (beating ch).charge parent access _⟩)
      rw [admissions_charge] at mem
      rcases List.mem_append.mp mem with mem | mem
      · split at mem
        · obtain rfl := List.mem_singleton.mp mem
          exact Nat.le_refl _
        · cases mem
      · exact past ch at_ mem
  | push _ slot _ _ _ _ _ prepared started calm =>
      rcases h with lost | passed' | ⟨past, beating⟩
      · exact .inl lost
      · exact .inr (.inl (passed passed'))
      rcases calm with lost | calm
      · exact .inl lost
      exact .inr (.inr ⟨past, fun ch => (beating ch).push calm slot (past ch) prepared (started on)⟩)
  | @credit s d channel access parent =>
      exact h.frame id passed (calmed_update (credit_controllers cfg s channel access parent)
        ⟨rfl, rfl, rfl, rfl, rfl, id⟩ rfl) (fun _ => rfl) (.inl rfl) rfl
  | _ => exact h.frame id passed (fun _ => .refl _) (fun _ => rfl) (.inl rfl) rfl

theorem clearWakeup_cadence (c : HbmController) (at_ : Nat) :
    SameCadence c (c.clearWakeup at_) := by
  unfold HbmController.clearWakeup
  split <;> exact ⟨rfl, rfl, rfl, rfl, rfl, id⟩

theorem disarm_cadence (c : HbmController) (due : Nat) : SameCadence c (c.disarm due) := by
  unfold HbmController.disarm
  split <;> exact ⟨rfl, rfl, rfl, rfl, rfl, id⟩

/-- Every turn keeps the cadence. -/
theorem InStep.turn {p q : HbmSystem × Debts} (scheduled : Scheduled cfg p.1) (turn : Turn cfg p q)
    (h : InStep cfg p.1 p.2) : InStep cfg q.1 q.2 := by
  have passed := fun h => Overflowed.turn turn scheduled h
  have later := turn.now_le scheduled
  have empty : ∀ {d : Debts}, (d.escaped = true ∨ d.Settled ∧ d.finishing = []) →
      d.escaped = true ∨ d.slots = [] := fun settled => settled.imp_right (·.1.slots)
  cases turn with
  | @wake s d event rest channel _ _ _ settled =>
      exact h.frame id passed (calmed_update (modifyController_controllers (s.pop event rest) channel _)
        (clearWakeup_cadence _ _) rfl) (fun _ => rfl) (.inr ⟨later, empty settled⟩) rfl
  | @refreshDue s d event rest channel _ _ _ settled =>
      exact h.frame id passed (calmed_update (modifyController_controllers (s.pop event rest) channel _)
        (disarm_cadence _ _) rfl) (fun _ => rfl) (.inr ⟨later, empty settled⟩) rfl
  | accessDone _ _ _ _ settled =>
      exact h.frame id passed (fun _ => .refl _) (fun _ => rfl) (.inr ⟨later, empty settled⟩) rfl
  | other _ _ settled =>
      exact h.frame id passed (fun _ => .refl _) (fun _ => rfl) (.inr ⟨later, empty settled⟩) rfl
  | advance _ _ settled =>
      exact h.frame id passed (fun _ => .refl _) (fun _ => rfl) (.inr ⟨later, empty settled⟩) rfl
  | escape => exact .inl rfl
  | lose => exact .inl rfl

/-- In every run the refreshes raised are those of the cadence. -/
theorem HbmSystem.Run.inStep (checked : cfg.Checked) (on : cfg.controller.refreshInterval ≠ 0)
    {p : HbmSystem × Debts} (run : Run cfg p) : InStep cfg p.1 p.2 := by
  induction run with
  | create =>
      exact .inr (.inr ⟨fun _ => nofun, fun ch => .idle rfl ⟨rfl, rfl, rfl, rfl⟩ nofun⟩)
  | move run move ih => exact ih.move checked on run move
  | turn run turn ih => exact ih.turn run.scheduled turn

end

end HbmSim
