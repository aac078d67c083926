import HbmSim.System.Actions
import HbmSim.System.Fitting
import HbmSim.System.Holding
import HbmSim.System.Replay
import HbmSim.System.Running

/-!
Simulated time wraps only where an addition is unchecked.

The timing engine refuses a bound beyond 64 bits, and so does the duration of a transfer.
The other additions of times are exact as long as every step starts from a state with room for
them. And an operation that raises an overflow from such a state has taken no access out of a
queue: the overflow comes neither in the duration of a transfer nor in the admissions that
follow a data command.
-/

namespace HbmSim

open HbmSim.Lib HbmSystem

/-! ### Exact times -/

/-- A query for the earliest time of a command answers with the least time that keeps every
bound. It raises an overflow only where no 64-bit time keeps them. -/
structure BoundsExact (constraints : List TimingConstraint) (history : CommandHistory) : Prop where
  found : ∀ command address now ready,
    HbmTimingEngine.earliestIssue constraints history command address now = .ok ready →
      IsLeast {time | now ≤ time ∧
        HbmTimingEngine.Meets constraints history command address time} ready
  refused : ∀ command address now e,
    HbmTimingEngine.earliestIssue constraints history command address now = .error e →
      e.isOverflow = true ∧ ∀ time,
        HbmTimingEngine.Meets constraints history command address time → 2 ^ 64 ≤ time

/-- The delays after a write are exact sums. -/
structure DelaysExact (t : HbmTimingSpec) : Prop where
  recovery : ⟨.write, .preBank, .bank, 1, t.tCwl + t.tBl + t.tWr⟩ ∈ t.extendedConstraints
  turnaround : ⟨.write, .read, .pseudoChannel, 1, t.tCwl + t.tBl + t.tWtrS⟩ ∈
    t.extendedConstraints
  turnaround_group : ⟨.write, .read, .bankGroup, 1, t.tCwl + t.tBl + t.tWtrL⟩ ∈
    t.extendedConstraints

/-- The times of a channel are exact sums. -/
structure TimesExact (cfg : HbmConfig) (s : HbmSystem) (channel : Nat) : Prop where
  commands : CommandTimes (cfg.channelConfig channel) (s.controllers channel)
  transfers : TransferTimes (cfg.channelConfig channel) (s.controllers channel)
  lengths : ∀ x ∈ (s.controllers channel).transfers, x.completion = x.dataStart +
    (x.bytes * cfg.device.organization.pseudoChannelRate.interval) ⌈/⌉
      cfg.device.organization.pseudoChannelRate.bytes
  bounds : BoundsExact cfg.device.timing.constraints (s.controllers channel).history
  delays : DelaysExact cfg.device.timing

/-- There is room for the delays after a write. -/
def HbmTimingSpec.DelaysFit (t : HbmTimingSpec) : Prop :=
  ∀ tail ∈ [t.tWr, t.tWtrS, t.tWtrL], t.tCwl + t.tBl + tail < 2 ^ 64

instance (t : HbmTimingSpec) : Decidable t.DelaysFit :=
  inferInstanceAs (Decidable (∀ tail ∈ [t.tWr, t.tWtrS, t.tWtrL], t.tCwl + t.tBl + tail < 2 ^ 64))

/-! ### Steps with room -/

/-- The time of the command that an event may issue on a channel. -/
def driveTime (event : Event EventCallback) (channel : Nat) : Nat :=
  match event.callback with
  | .wake ch _ => if ch = channel then event.time else 0
  | _ => 0

/-- There is room for the refreshes that a step at `now` may catch up on, on every channel. -/
def HbmSystem.RefreshesFit (cfg : HbmConfig) (busy : Nat → Nat) (now : Nat) (s : HbmSystem) :
    Prop :=
  ∀ channel < cfg.channelCount,
    HbmController.RefreshesFit (cfg.channelConfig channel) (busy channel) now
      (s.controllers channel)

/-- The state before a step has room for the times that the step may add up. -/
def HbmSystem.InRange (cfg : HbmConfig) (s : HbmSystem) : Action → Prop
  | .call _ => s.RefreshesFit cfg (fun _ => 0) s.now
  | .advance _ => True
  | .dispatch _ => ∀ event ∈ s.scheduler.events.head?,
      s.RefreshesFit cfg (driveTime event) event.time ∧
        ∀ channel at_, event.callback = .wake channel at_ →
          HbmController.CommandsFit (cfg.channelConfig channel) event.time (s.controllers channel)

/-! ### Overflows that lose nothing -/

/-- Every access that was queued is still queued, or its completion is scheduled. -/
def NothingLost (s t : HbmSystem) : Prop :=
  ∀ channel, ∀ l ∈ (s.controllers channel).queued,
    l ∈ (t.controllers channel).queued ∨ l ∈ flying t.scheduler.events channel

/-- The system in which a wake event drives its controller. -/
def HbmSystem.woken (s : HbmSystem) (event : Event EventCallback)
    (rest : List (Event EventCallback)) (channel at_ : Nat) : HbmSystem :=
  (s.pop event rest).modifyController channel (·.clearWakeup at_)

section

variable {cfg : HbmConfig} {s t : HbmSystem} {channel : Nat} {escapes : HbmError → Prop}

theorem NothingLost.of_holds (h : HbmSystem.Holds s t) : NothingLost s t := by
  intro channel l hl
  unfold HbmController.queued at hl ⊢
  have kept : ∀ w, l ∈ ((s.controllers channel).queue w).map HbmAccess.toLogicalAccess →
      l ∈ ((t.controllers channel).queue w).map HbmAccess.toLogicalAccess := by
    intro w mem
    obtain ⟨a, ha, rfl⟩ := List.mem_map.mp mem
    exact List.mem_map_of_mem (h.queue channel w a ha)
  rcases List.mem_append.mp hl with reads | writes
  · exact .inl (List.mem_append_left _ (kept false reads))
  · exact .inl (List.mem_append_right _ (kept true writes))

/-- What is left of the same queues. -/
theorem NothingLost.of_queued (queued : ∀ channel,
    (t.controllers channel).queued = (s.controllers channel).queued) : NothingLost s t :=
  fun channel _ hl => .inl (queued channel ▸ hl)

/-- What is lost is judged by the queued accesses. -/
theorem NothingLost.from_same {u : HbmSystem}
    (queued : ∀ channel, (u.controllers channel).queued = (s.controllers channel).queued)
    (h : NothingLost u t) : NothingLost s t :=
  fun channel l hl => h channel l (queued channel ▸ hl)

/-- A wake that fires moves no access. -/
theorem woken_queued {event : Event EventCallback} {rest : List (Event EventCallback)}
    {channel at_ ch : Nat} :
    ((s.woken event rest channel at_).controllers ch).queued = (s.controllers ch).queued := by
  unfold HbmSystem.woken
  rw [modifyController_controllers]
  split
  · subst ch
    unfold HbmController.clearWakeup
    split <;> rfl
  · rfl

/-! ### The timing engine -/

/-- A bound is the least time its row allows. -/
theorem constraintStep_least {history : CommandHistory} {command : HbmCommand} {address : HbmAddress}
    {earliest result : Nat} {c : TimingConstraint} {time : Nat}
    (run : HbmTimingEngine.constraintStep history command address earliest c = .ok result)
    (later : earliest ≤ time) (meets : HbmTimingEngine.Meets [c] history command address time) :
    result ≤ time := by
  unfold HbmTimingEngine.constraintStep at run
  split at run
  · cases run
    exact later
  · rename_i follows
    split at run
    · cases run
      exact later
    · rename_i preceding found
      split at run
      · cases run
      · cases run
        exact Nat.max_le.mpr ⟨later, meets c (List.mem_singleton_self c) (not_not.mp follows) _ found⟩

/-- A row overflows only if no representable time meets it. -/
theorem constraintStep_overflow {history : CommandHistory} {command : HbmCommand}
    {address : HbmAddress} {earliest : Nat} {c : TimingConstraint} {e : HbmError} {time : Nat}
    (run : HbmTimingEngine.constraintStep history command address earliest c = .error e)
    (meets : HbmTimingEngine.Meets [c] history command address time) : 2 ^ 64 ≤ time := by
  unfold HbmTimingEngine.constraintStep at run
  split at run
  · cases run
  · rename_i follows
    split at run
    · cases run
    · rename_i preceding found
      split at run
      · rename_i beyond
        have bound := meets c (List.mem_singleton_self c) (not_not.mp follows) _ found
        unfold maxSimTime at beyond
        omega
      · cases run

/-- The bound a query computes is below every time that keeps the constraints. -/
theorem earliestIssue_least {constraints : List TimingConstraint} {history : CommandHistory}
    {command : HbmCommand} {address : HbmAddress} {now ready time : Nat}
    (run : HbmTimingEngine.earliestIssue constraints history command address now = .ok ready)
    (later : now ≤ time)
    (meets : HbmTimingEngine.Meets constraints history command address time) : ready ≤ time := by
  induction constraints generalizing now with
  | nil =>
      cases run
      exact later
  | cons c rest ih =>
      unfold HbmTimingEngine.earliestIssue at run
      rw [List.foldlM_cons, bind_eq_ok] at run
      obtain ⟨next, step, run⟩ := run
      refine ih run (constraintStep_least step later fun c' hc' => ?_) fun c' hc' => ?_
      · obtain rfl := List.mem_singleton.mp hc'
        exact meets c' List.mem_cons_self
      · exact meets c' (List.mem_cons_of_mem _ hc')

/-- The bounds of a timing table are exact, row by row. -/
theorem earliestIssue_exact (constraints : List TimingConstraint) (history : CommandHistory) :
    BoundsExact constraints history := by
  constructor
  case found =>
    intro command address now ready run
    exact ⟨HbmTimingEngine.earliestIssue_ok run, fun time ⟨later, meets⟩ =>
      earliestIssue_least run later meets⟩
  case refused =>
    intro command address now e run
    refine ⟨HbmTimingEngine.earliestIssue_error run, fun time meets => ?_⟩
    obtain ⟨c, mem, earliest, step⟩ := foldlM_error run
    refine constraintStep_overflow step fun c' hc' => ?_
    obtain rfl := List.mem_singleton.mp hc'
    exact meets c' mem

/-- Delays that fit make the bounds exact. -/
theorem delays_exact {t : HbmTimingSpec} (fits : t.DelaysFit) : DelaysExact t := by
  have sum : ∀ tail ∈ [t.tWr, t.tWtrS, t.tWtrL],
      SimTime.add (SimTime.add t.tCwl t.tBl) tail = t.tCwl + t.tBl + tail := by
    intro tail mem
    have whole := fits tail mem
    rw [SimTime.add_of_lt (Nat.lt_of_le_of_lt (Nat.le_add_right _ tail) whole),
      SimTime.add_of_lt whole]
  constructor
  all_goals
    rw [← sum _ (by simp)]
    simp [HbmTimingSpec.extendedConstraints]

/-! ### The loss of an overflow -/

theorem scheduleEvent_mild (at_ : Nat) (callback : EventCallback) (s : HbmSystem) :
    Exits (scheduleEvent at_ callback) (fun _ _ => True) (fun e _ => e.isOverflow = false) s := by
  unfold scheduleEvent EventQueue.scheduleAt
  simp only [exits_bind, exits_get, exits_ofExcept, exits_modify, implies_true, true_and]
  intro e run
  split at run
  · cases run
    rfl
  · cases run

theorem scheduleControllerWake_mild {channel : Nat} (hchannel : channel < cfg.channelCount)
    (at_ : Nat) (s : HbmSystem) :
    Exits (scheduleControllerWake cfg channel at_) (fun _ _ => True)
      (fun e _ => e.isOverflow = false) s := by
  unfold scheduleControllerWake
  simp only [exits_bind, exits_get, onController_exits hchannel, exits_modifyGet, exits_ite,
    exits_pure, implies_true, and_true]
  exact fun _ => scheduleEvent_mild _ _ _

/-- A step of a controller that raises an overflow has taken nothing out of the queues, if
the transfers of the queued accesses have durations. -/
theorem driveStep_keeps (wiring : Wiring (cfg.channelConfig channel) cfg.mapper)
    (sound : Sound (cfg.channelConfig channel) cfg.mapper (s.controllers channel))
    (hchannel : channel < cfg.channelCount)
    (durations : ∀ l ∈ (s.controllers channel).queued,
      ∃ duration, cfg.device.organization.pseudoChannelRate.transferTime l.sizeBytes =
        .ok duration) :
    Exits (driveStep cfg channel) (fun _ _ => True)
      (fun e t => e.isOverflow = true → NothingLost s t) s := by
  unfold driveStep
  simp only [exits_bind, exits_get, exits_modify, exits_pure, onController_exits hchannel]
  refine (HbmController.drive_exits wiring (s := s.side channel) sound).mono
    (fun _ _ _ => trivial) (fun e t h _ => ?_)
  rcases h with ⟨-, u, lost, touched, step⟩ | ⟨touched, -⟩
  · exfalso
    have marks : HbmController.ControllerStep (cfg.channelConfig channel) cfg.mapper s.now
      (s.side channel) u := .retouch touched
    cases step with
    | @mk w index bankIndex a k banks e demand data local_ hbanks huge =>
        have queued : a.toLogicalAccess ∈ u.ctl.queued := by
          have mem := List.mem_map_of_mem (f := HbmAccess.toLogicalAccess)
            (List.mem_of_getElem? demand.access)
          unfold HbmController.queued
          cases w with
          | false => exact List.mem_append_left _ mem
          | true => exact List.mem_append_right _ mem
        obtain ⟨duration, fits⟩ := durations _ (marks.queued ▸ queued)
        cases fits.symm.trans huge
  · have marks : HbmController.ControllerStep (cfg.channelConfig channel) cfg.mapper s.now
      (s.side channel) t := .retouch touched
    refine .of_queued fun ch => ?_
    rw [update_controllers]
    split
    · subst ch
      exact marks.queued
    · rfl

/-- So has a wake event that raises an overflow, if the admissions after a data command raise
none. -/
theorem driveController_keeps
    (wiring : Wiring (cfg.channelConfig channel) cfg.mapper)
    (sound : Sound (cfg.channelConfig channel) cfg.mapper (s.controllers channel))
    (hchannel : channel < cfg.channelCount)
    (durations : ∀ l ∈ (s.controllers channel).queued,
      ∃ duration, cfg.device.organization.pseudoChannelRate.transferTime l.sizeBytes = .ok duration)
    (admissions : ∀ step u, driveStep cfg channel s = .ok step u → step.issuedAccess ≠ none →
      ∀ e t, pumpAdmissions cfg u = .error e t → e.isOverflow = false) :
    Exits (driveController cfg channel) (fun _ _ => True)
      (fun e t => e.isOverflow = true → NothingLost s t) s := by
  have excluded : ∀ {e : HbmError} {t : HbmSystem}, e.isOverflow = false →
      e.isOverflow = true → NothingLost s t := fun mild overflow => by
    rw [mild] at overflow
    cases overflow
  have wake : ∀ (wakeAt : Option Nat) {body : SystemM Unit} (u : HbmSystem),
      body = wakeAt.elim (return ()) (scheduleControllerWake cfg channel) →
      Exits body (fun _ _ => True) (fun e t => e.isOverflow = true → NothingLost s t) u := by
    rintro wakeAt _ u rfl
    cases wakeAt with
    | none => trivial
    | some at_ =>
        exact (scheduleControllerWake_mild hchannel at_ u).mono (fun _ _ h => h)
          fun _ _ mild => excluded mild
  unfold driveController
  rw [exits_bind]
  refine ((Exits.self _ _).and (driveStep_keeps wiring sound hchannel durations)).mono
    (fun step u h => ?_) (fun _ _ h => h.2)
  obtain ⟨run, -⟩ := h
  cases issued : step.issuedAccess with
  | none => exact wake step.wakeAt _ (by cases step.wakeAt <;> rfl)
  | some physical =>
      rw [exits_bind]
      refine (Exits.self _ _).mono (fun _ v _ => ?_) fun e t failed =>
        excluded (admissions step u run (by rw [issued]; exact Option.some_ne_none _) e t failed)
      rw [exits_bind]
      refine (scheduleEvent_mild _ _ _).mono (fun _ w _ => ?_) fun _ _ mild => excluded mild
      dsimp only
      rw [exits_bind, exits_get]
      split
      · rw [exits_bind, exits_get, exits_bind, exits_get, exits_bind]
        refine (scheduleEvent_mild _ _ _).mono (fun _ x _ => ?_) fun _ _ mild => excluded mild
        exact wake step.wakeAt _ (by cases step.wakeAt <;> rfl)
      · exact wake step.wakeAt _ (by cases step.wakeAt <;> rfl)

/-! ### Steps with room -/

/-- Every channel is whole before a step with room, and has room for its refreshes. -/
theorem HbmSystem.RefreshesFit.fits (checked : cfg.Checked) {d : Debts} (run : Run cfg (s, d))
    {busy : Nat → Nat} {now : Nat} (room : s.RefreshesFit cfg busy now) (whole : Whole cfg s)
    (clock : t.now = now)
    (same : ∀ ch, HbmController.bare (t.controllers ch) = HbmController.bare (s.controllers ch)) :
    Fits cfg now t := by
  refine ⟨clock, fun ch hch => ?_⟩
  rw [same]
  exact ⟨HbmController.Sound.bare (run.sound checked ch), whole ch hch, (room ch hch).bare⟩

/-- The step of a driven controller. -/
theorem driveStep_fits (checked : cfg.Checked) {d : Debts} (run : Run cfg (s, d))
    (hchannel : channel < cfg.channelCount) {busy : Nat → Nat} (busy_le : s.now ≤ busy channel)
    (room : s.RefreshesFit cfg busy s.now)
    (commands : HbmController.CommandsFit (cfg.channelConfig channel) s.now (s.controllers channel))
    (whole : Whole cfg s) :
    Exits (driveStep cfg channel)
      (fun step u => Whole cfg u ∧ u.parents = s.parents ∧ (step.issuedAccess ≠ none →
        Fits cfg s.now u ∧ ∀ ch, (u.controllers ch).nextRefreshDue =
          (s.controllers ch).nextRefreshDue))
      (fun _ u => Whole cfg u) s := by
  unfold driveStep
  simp only [exits_bind, exits_get, exits_modify, exits_pure, onController_exits hchannel]
  have here := room channel hchannel
  have driven : HbmController.RefreshesFit (cfg.channelConfig channel) s.now s.now
      (s.side channel).ctl :=
    ⟨here.first, fun due next passed => by
      obtain ⟨time, after, fits⟩ := here.catchUp due next passed
      exact ⟨time, by omega, fits⟩⟩
  refine (HbmController.drive_fits (s := s.side channel) (checked.wiring channel) (run.sound checked channel)
    commands (whole channel hchannel)).mono (fun step t h => ?_) fun _ t h => whole.update h
  obtain ⟨whole', issued⟩ := h
  have observed : ∀ ch, ((s.update channel t).observeIssued channel step).controllers ch =
      (s.update channel t).controllers ch := fun ch => by
    unfold observeIssued
    cases step.issuedAccess <;> rfl
  refine ⟨fun ch hch => observed ch ▸ whole.update whole' ch hch, ?_, fun some => ?_⟩
  · unfold observeIssued
    cases step.issuedAccess <;> rfl
  · obtain ⟨next, roomy⟩ := issued some driven
    have fits : Fits cfg s.now (s.update channel t) := by
      refine ⟨rfl, fun ch hch => ?_⟩
      rw [update_controllers]
      split
      · subst ch
        exact roomy
      · exact ⟨HbmController.Sound.bare (run.sound checked ch), whole ch hch, (room ch hch).bare⟩
    refine ⟨⟨?_, fun ch hch => observed ch ▸ fits.roomy ch hch⟩, fun ch => ?_⟩
    · unfold observeIssued
      cases step.issuedAccess <;> rfl
    · rw [observed, update_controllers]
      split
      · subst ch
        exact next
      · rfl

/-- What `next_access` throws for a waiting transaction is no overflow. -/
theorem nextPiece_mild (checked : cfg.Checked)
    (ranges : ∀ p ∈ s.parents, p.transaction.sizeBytes - 1 ≤ maxSimTime - p.transaction.address)
    {taken : List HbmAccess} {id : Nat} {e : HbmError}
    (next : s.nextPiece cfg taken id = .error e) : e.isOverflow = false := by
  unfold nextPiece at next
  cases found : s.findParent id with
  | none =>
      rw [found] at next
      cases next
      rfl
  | some parent =>
      rw [found] at next
      dsimp only at next
      split at next
      · rename_i unfinished
        cases piece : cfg.nextAccess parent.transaction
            (parent.admittedBytes + bytesTaken taken id) with
        | ok a =>
            rw [piece] at next
            cases next
        | error e' =>
            rw [piece] at next
            cases next
            obtain ⟨byte, unmapped⟩ := HbmConfig.nextAccess_error checked.burst
              checked.interleave (ranges parent (findParent_some found).1) unfinished piece
            exact not_overflow_of_range (map_error_range unmapped)
      · cases next

/-- A piece that gets its turn goes to one of the channels. -/
theorem nextPiece_channel (checked : cfg.Checked) (count : cfg.channelCount ≠ 0)
    {taken : List HbmAccess} {id : Nat} {a : HbmAccess}
    (next : s.nextPiece cfg taken id = .ok (some a)) :
    a.address.flatChannel < cfg.channelCount := by
  unfold nextPiece at next
  cases found : s.findParent id with
  | none =>
      rw [found] at next
      cases next
  | some parent =>
      rw [found] at next
      dsimp only at next
      split at next
      · cases piece : cfg.nextAccess parent.transaction
            (parent.admittedBytes + bytesTaken taken id) with
        | error e =>
            rw [piece] at next
            cases next
        | ok b =>
            rw [piece] at next
            cases next
            obtain ⟨group, -⟩ := HbmConfig.nextAccess_ok checked.burst checked.interleave piece
            obtain ⟨byte, mapped⟩ := group.mapped
            exact HbmConfig.map_channel count mapped
      · cases next

/-- Where every channel has room, admissions throw no overflow. -/
theorem HbmSystem.AdmissionFails.mild (checked : cfg.Checked) (count : cfg.channelCount ≠ 0) {now : Nat}
    (fits : Fits cfg now s)
    (ranges : ∀ p ∈ s.parents, p.transaction.sizeBytes - 1 ≤ maxSimTime - p.transaction.address)
    {e : HbmError} {taken : List HbmAccess} {line : List Nat}
    (fails : s.AdmissionFails cfg e taken line) : e.isOverflow = false := by
  induction fails with
  | unmapped next => exact nextPiece_mild checked ranges next
  | @refresh taken id line a next slots fails =>
      obtain ⟨t, run⟩ := fails
      have roomy := fits.roomy _ (nextPiece_channel checked count next)
      rw [fits.clock] at run
      exact ((roomy.prepares_bare (s := s.side a.address.flatChannel)
        (checked.wiring _)).of_error run).2
  | take _ _ _ ih => exact ih
  | block _ _ _ ih => exact ih
  | finish _ _ ih => exact ih

/-- So a data command on a channel with room is followed by none. -/
theorem driveStep_admits (checked : cfg.Checked) (count : cfg.channelCount ≠ 0) {d : Debts}
    (run : Run cfg (s, d)) (hchannel : channel < cfg.channelCount) {busy : Nat → Nat}
    (busy_le : s.now ≤ busy channel) (room : s.RefreshesFit cfg busy s.now)
    (commands : HbmController.CommandsFit (cfg.channelConfig channel) s.now (s.controllers channel))
    (whole : Whole cfg s) {step : HbmControllerStep} {u : HbmSystem}
    (drives : driveStep cfg channel s = .ok step u) (issued : step.issuedAccess ≠ none)
    {e : HbmError} (fails : pumpAdmissions cfg u = .error e t) : e.isOverflow = false := by
  obtain ⟨-, parents, after⟩ :=
    (driveStep_fits checked run hchannel busy_le room commands whole).of_ok drives
  obtain ⟨fits, next⟩ := after issued
  have never : cfg.controller.refreshInterval = 0 →
    ∀ ch, (u.controllers ch).nextRefreshDue = none :=
    fun off ch => (next ch).trans (run.never checked off ch)
  refine ((pumpAdmissions_fails checked count never).of_error fails).mild checked count fits ?_
  rw [parents]
  exact (run.accounted checked).family.range

/-! ### The callbacks -/

/-- A drive with room wraps nothing and does not overflow. -/
theorem driveController_whole (checked : cfg.Checked) {d : Debts} (run : Run cfg (s, d))
    (hchannel : channel < cfg.channelCount) {busy : Nat → Nat} (busy_le : s.now ≤ busy channel)
    (room : s.RefreshesFit cfg busy s.now)
    (commands : HbmController.CommandsFit (cfg.channelConfig channel) s.now (s.controllers channel))
    (whole : Whole cfg s) :
    Exits (driveController cfg channel) (fun _ t => Whole cfg t) (fun _ t => Whole cfg t) s := by
  unfold driveController
  rw [exits_bind]
  refine (driveStep_fits checked run hchannel busy_le room commands whole).mono
    (fun step u h => ?_) fun _ _ h => h
  obtain ⟨whole', -, after⟩ := h
  by_cases issued : step.issuedAccess = none
  · rw [issued]
    cases step.wakeAt with
    | none => exact whole'
    | some at_ =>
        exact scheduleControllerWake_bare bare_whole (fun _ => id) channel at_ u whole'
  · obtain ⟨fits, -⟩ := after issued
    exact ((preserving_fits checked s.now).serving.driven channel step u fits).mono
      (fun _ _ fits => fits.whole) fun _ _ h => h

/-- The event that handles a refresh. -/
theorem refreshDue_whole (checked : cfg.Checked) (hchannel : channel < cfg.channelCount)
    (sound : Sound (cfg.channelConfig channel) cfg.mapper (s.controllers channel))
    {busy : Nat → Nat}
    (room : s.RefreshesFit cfg busy s.now) (whole : Whole cfg s) :
    Exits (runCallback cfg (.refreshDue channel s.now)) (fun _ t => Whole cfg t)
      (fun _ t => Whole cfg t) s := by
  unfold runCallback
  rw [exits_bind, onController_exits hchannel]
  refine (HbmController.handleRefreshEvent_fits (s := s.side channel) (checked.wiring channel) sound
    (room channel hchannel) (whole channel hchannel)).mono
    (fun _ t here => ?_) fun _ t here => whole.update here
  have after : Preserves (Whole cfg) (fun _ => Whole cfg) (do
      scheduleControllerWake cfg channel s.now
      if ((← get).controllers channel).outstandingAccesses ≠ 0 then
        scheduleRefreshDue cfg channel : SystemM Unit) := by
    refine .bind (scheduleControllerWake_bare bare_whole (fun _ => id) channel s.now) fun _ => ?_
    refine .bind .get fun _ => .ite (fun _ => ?_) fun _ => .pure _
    exact scheduleRefreshDue_bare bare_whole (fun _ => id) channel
  exact after _ (whole.update here)

/-- The clearing of a wake event changes no time. -/
theorem woken_bare {event : Event EventCallback} {rest : List (Event EventCallback)}
    {at_ ch : Nat} : HbmController.bare ((s.woken event rest channel at_).controllers ch) =
      HbmController.bare (s.controllers ch) := by
  unfold HbmSystem.woken
  rw [modifyController_controllers]
  split
  · subst ch
    exact HbmController.clearWakeup_bare _ at_
  · rfl

/-- What an event does to a system with room for its times. -/
structure Calm (cfg : HbmConfig) (s t : HbmSystem) (e : HbmError) : Prop where
  whole : Whole cfg t
  kept : e.isOverflow = true → NothingLost s t

/-- A wake event with room. -/
theorem wakeCallback_calm (checked : cfg.Checked) (count : cfg.channelCount ≠ 0)
    {event : Event EventCallback} {rest : List (Event EventCallback)} {d : Debts}
    (point : Point cfg s d) (next : s.scheduler.events = event :: rest)
    (callback : event.callback = .wake channel event.time) (hchannel : channel < cfg.channelCount)
    (room : s.RefreshesFit cfg (driveTime event) event.time)
    (commands : HbmController.CommandsFit (cfg.channelConfig channel) event.time
      (s.controllers channel)) (whole : Whole cfg s) :
    Exits (runCallback cfg (.wake channel event.time)) (fun _ t => Whole cfg t)
      (fun e t => Calm cfg s t e) (s.pop event rest) := by
  have turn : Turn cfg (s, d) _ := .wake next callback hchannel point.settled
  have run : Run cfg (s.woken event rest channel event.time, _) := point.run.turn turn
  have busy : (s.woken event rest channel event.time).now ≤ driveTime event channel := by
    unfold driveTime
    rw [callback]
    simp only [if_true]
    exact Nat.le_refl _
  have room' : (s.woken event rest channel event.time).RefreshesFit cfg (driveTime event) event.time :=
    fun ch hch => (room ch hch).congr woken_bare
  have commands' : HbmController.CommandsFit (cfg.channelConfig channel) event.time
      ((s.woken event rest channel event.time).controllers channel) := by
    unfold HbmSystem.woken
    rw [modifyController_controllers, if_pos rfl]
    exact commands.clearWakeup event.time
  have whole' : Whole cfg (s.woken event rest channel event.time) :=
    whole.congr fun ch => woken_bare
  unfold runCallback
  rw [exits_bind, onController_exits hchannel, exits_modify]
  refine ((driveController_whole checked run hchannel busy room' commands' whole').and
    (driveController_keeps (s := s.woken event rest channel event.time) (checked.wiring channel)
      (run.sound checked channel) hchannel ?_ ?_)).mono (fun _ _ h => h.1) fun _ _ h =>
        ⟨h.1, fun raised => .from_same (fun _ => woken_queued) (h.2 raised)⟩
  · intro l hl
    obtain ⟨duration, time, -⟩ := commands'.transfers l hl
    exact ⟨duration, time⟩
  · exact fun step u drives issued e t fails =>
      driveStep_admits checked count run hchannel busy room' commands' whole' drives issued fails

/-- What an event throws in a system with room. -/
theorem runCallback_calm (checked : cfg.Checked) (count : cfg.channelCount ≠ 0)
    {event : Event EventCallback} {rest : List (Event EventCallback)} {d : Debts}
    (point : Point cfg s d) (next : s.scheduler.events = event :: rest)
    (room : s.RefreshesFit cfg (driveTime event) event.time)
    (commands : ∀ channel at_, event.callback = .wake channel at_ →
      HbmController.CommandsFit (cfg.channelConfig channel) event.time (s.controllers channel))
    (whole : Whole cfg s) :
    Exits (runCallback cfg event.callback) (fun _ t => Whole cfg t)
      (fun e t => Calm cfg s t e) (s.pop event rest) := by
  have stamped := point.run.scheduled.stamped event (next ▸ List.mem_cons_self)
  by_cases wakes : ∃ channel at_, event.callback = .wake channel at_
  · obtain ⟨channel, at_, callback⟩ := wakes
    rw [callback] at stamped ⊢
    obtain ⟨rfl, hchannel⟩ := stamped
    exact wakeCallback_calm checked count point next callback hchannel room
      (commands channel event.time callback) whole
  · -- every other event leaves the queues as they are
    have held : Exits (runCallback cfg event.callback) (fun _ t => Holds (s.pop event rest) t)
        (fun _ t => Holds (s.pop event rest) t) (s.pop event rest) :=
      (footprint_holds.runCallback (fun channel at_ callback =>
        wakes ⟨channel, at_, callback⟩)).exits _
    have popped : Whole cfg (s.pop event rest) := whole
    have wholes : Exits (runCallback cfg event.callback) (fun _ t => Whole cfg t)
        (fun _ t => Whole cfg t) (s.pop event rest) := by
      by_cases refreshes : ∃ channel due, event.callback = .refreshDue channel due
      · obtain ⟨channel, due, callback⟩ := refreshes
        rw [callback] at stamped ⊢
        obtain ⟨rfl, hchannel⟩ := stamped
        exact refreshDue_whole (s := s.pop event rest) checked hchannel
          (point.run.sound checked channel) room popped
      · have fits : Fits cfg event.time (s.pop event rest) :=
          room.fits checked point.run whole rfl fun _ => rfl
        exact ((preserving_fits checked event.time).serving.otherCallback
          (fun channel at_ callback => wakes ⟨channel, at_, callback⟩)
          (fun channel due callback => refreshes ⟨channel, due, callback⟩) _ fits).mono
          (fun _ _ fits => fits.whole) fun _ _ h => h
    refine (wholes.and held).mono (fun _ _ h => h.1) fun e t h => ⟨h.1, fun _ => ?_⟩
    exact .from_same (u := s.pop event rest) (fun _ => rfl) (.of_holds h.2)

/-- A step of a run, from a state with room for it. -/
theorem perform_calm (valid : cfg.Valid) (count : cfg.channelCount ≠ 0) {d : Debts}
    (point : Point cfg s d) {action : Action} (room : s.InRange cfg action) (whole : Whole cfg s) :
    Exits (perform cfg action) (fun _ t => Whole cfg t) (fun e t => Calm cfg s t e) s := by
  have checked := valid.checked
  cases action with
  | call call =>
      have fits : Fits cfg s.now s := room.fits checked point.run whole rfl fun _ => rfl
      have held : Exits (runClient cfg [call]) (fun _ t => Holds s t) (fun _ t => Holds s t) s :=
        (footprint_holds.runClient [call]).exits s
      exact (((preserving_fits checked s.now).serving.runClient [call] s fits).and held).mono
        (fun _ _ h => h.1.whole) fun _ _ h => ⟨h.1, fun _ => .of_holds h.2⟩
  | advance until_ =>
      unfold perform
      simp only [exits_bind, exits_get, exits_ite, exits_set, exits_pure]
      exact ⟨fun _ => whole, fun _ => whole⟩
  | dispatch reactions =>
      have script : Move cfg (s, d) ({ s with script := reactions }, d) := .setScript _
      have point' : Point cfg { s with script := reactions } d :=
        ⟨point.run.move script, point.ripe, point.settled⟩
      unfold perform dispatchOne
      rw [exits_bind, exits_modify, exits_bind, exits_get]
      unfold EventQueue.takeNext
      cases next : s.scheduler.events with
      | nil => exact whole
      | cons event rest =>
          obtain ⟨refreshes, commands⟩ := room event (by rw [next]; rfl)
          exact (runCallback_calm checked count point' next refreshes commands whole).mono
            (fun _ _ h => h) fun _ _ calm => ⟨calm.whole, calm.kept⟩

/-! ### The guarantee -/

/-- In a run whose steps all have room, no time leaves 64 bits. -/
theorem whole_of_inRange (reached : ReachableWith cfg (fun s action =>
    s.InRange cfg action) escapes s) :
    Whole cfg s := by
  induction reached with
  | create created =>
      obtain ⟨-, -, rfl⟩ := create_ok.mp created
      exact fun _ _ => rfl
  | perform action reached room performed whole =>
      obtain ⟨valid, count, d, point, -⟩ := reached.reachable.point
      exact (perform_calm valid count point room whole).of_ok performed
  | escape action reached room performed _ whole =>
      obtain ⟨valid, count, d, point, -⟩ := reached.reachable.point
      exact ((perform_calm valid count point room whole).of_error performed).whole

/-- In every run whose steps all start with room for the times they may add up, the times are
exact. And a step with room that raises an overflow loses no access. -/
theorem times_exact (delays : cfg.device.timing.DelaysFit)
    (reached : ReachableWith cfg (fun s action => s.InRange cfg action) escapes s) :
    (∀ channel < cfg.channelCount, TimesExact cfg s channel) ∧
      ∀ action e t, s.InRange cfg action → perform cfg action s = .error e t →
        e.isOverflow = true → NothingLost s t := by
  have whole := whole_of_inRange reached
  obtain ⟨valid, count, d, point, -⟩ := reached.reachable.point
  refine ⟨fun channel hchannel => ?_, fun action e t room run overflow =>
    ((perform_calm valid count point room whole).of_error run).kept overflow⟩
  have transfers := point.run.transferTimes valid.checked channel (whole channel hchannel)
  constructor
  case commands => exact point.run.commandTimes valid.checked channel (whole channel hchannel)
  case transfers => exact transfers
  case lengths =>
    intro x hx
    obtain ⟨later, earlier, order⟩ := List.append_of_mem hx
    obtain ⟨-, duration, time, ends⟩ := transfers.times x earlier ⟨later, order.symm⟩
    rw [ends, Nat.ceilDiv_eq_add_pred_div, (BandwidthRate.transferTime_ok time).2]
    rfl
  case bounds => exact earliestIssue_exact _ _
  case delays => exact delays_exact delays

/-! ### Two runs with room -/

/-- There is room for the refreshes of a channel behind its commands so far, as a computation. -/
def refreshRoom (config : HbmControllerConfig) (busy now : Nat) (c : HbmController) : Bool :=
  match c.nextRefreshDue with
  | none => config.refreshInterval == 0 || now + config.refreshInterval < 2 ^ 64
  | some due =>
      let time := max (HbmController.recovered config c) (max busy due + config.longestRecovery)
      now < due || time + config.longestRecovery * c.maintenanceWork +
        HbmController.overdue config due now *
          max config.longestRecovery config.refreshInterval < 2 ^ 64

/-- There is room for the commands of a channel and the transfers of its queues, as a
computation. -/
def commandRoom (config : HbmControllerConfig) (now : Nat) (c : HbmController) : Bool :=
  (HbmCommand.all.all fun command =>
    now + config.commandDuration command < 2 ^ 64 &&
      (c.Quiet || now + maintenanceDuration command config.timing < 2 ^ 64)) &&
  c.queued.all fun l =>
    match config.dataRate.transferTime l.sizeBytes with
    | .error _ => false
    | .ok duration => c.dataBusReadyAt[l.address.pseudoChannel]?.all fun busReady =>
        max (now + HbmController.casLatency config l.op.isWrite) busReady + duration < 2 ^ 64

/-- A step has room, as a computation. -/
def stepRoom (cfg : HbmConfig) (s : HbmSystem) (action : Action) : Bool :=
  let refreshes := fun (busy : Nat → Nat) now => (List.range cfg.channelCount).all fun channel =>
    refreshRoom (cfg.channelConfig channel) (busy channel) now (s.controllers channel)
  match action with
  | .call _ => refreshes (fun _ => 0) s.now
  | .advance _ => true
  | .dispatch _ => s.scheduler.events.head?.all fun event =>
      refreshes (driveTime event) event.time &&
        match event.callback with
        | .wake channel _ =>
            commandRoom (cfg.channelConfig channel) event.time (s.controllers channel)
        | _ => true

/-- The computed room for refreshes suffices. -/
theorem refreshesFit_of_room {config : HbmControllerConfig} {busy now : Nat} {c : HbmController}
    (ready : HbmController.ReadyBy config (HbmController.recovered config c) c)
    (room : refreshRoom config busy now c = true) :
    HbmController.RefreshesFit config busy now c := by
  unfold refreshRoom at room
  constructor
  case first =>
    intro on none
    rw [none] at room
    simpa [on] using room
  case catchUp =>
    intro due next passed
    rw [next] at room
    simp only [Bool.or_eq_true, decide_eq_true_eq] at room
    have fits := room.resolve_left (Nat.not_lt.mpr passed)
    exact ⟨_, by omega, ready.mono (Nat.le_max_left _ _), by omega, fits⟩

/-- The computed room for commands suffices. -/
theorem commandsFit_of_room {config : HbmControllerConfig} {now : Nat} {c : HbmController}
    (room : commandRoom config now c = true) : HbmController.CommandsFit config now c := by
  obtain ⟨commands, transfers⟩ := Bool.and_eq_true _ _ |>.mp room
  replace commands := fun command =>
    List.all_eq_true.mp commands command (HbmCommand.mem_all command)
  simp only [Bool.and_eq_true, Bool.or_eq_true, decide_eq_true_eq] at commands
  refine ⟨fun command => (commands command).1,
    fun busy command => (commands command).2.resolve_left busy, fun l hl => ?_⟩
  have fits := List.all_eq_true.mp transfers l hl
  split at fits
  · cases fits
  · rename_i duration time
    refine ⟨duration, time, fun busReady bus => ?_⟩
    rw [bus] at fits
    exact of_decide_eq_true fits

/-- A step with room is in range. -/
theorem inRange_of_room (reached : Reachable cfg escapes s) {action : Action}
    (room : stepRoom cfg s action = true) : s.InRange cfg action := by
  obtain ⟨valid, -, d, point, -⟩ := reached.point
  have ready := point.run.readyBy valid.checked
  have refreshes : ∀ {busy now}, ((List.range cfg.channelCount).all fun channel =>
      refreshRoom (cfg.channelConfig channel) (busy channel) now (s.controllers channel)) = true →
        s.RefreshesFit cfg busy now := fun room channel hchannel =>
    refreshesFit_of_room (ready channel)
      (List.all_eq_true.mp room channel (List.mem_range.mpr hchannel))
  cases action with
  | call call => exact refreshes room
  | advance until_ => trivial
  | dispatch reactions =>
      intro event next
      have room : (_ && _) = true := (Option.all_eq_true _ _).mp room event next
      obtain ⟨first, commands⟩ := Bool.and_eq_true _ _ |>.mp room
      refine ⟨refreshes first, fun channel at_ callback => ?_⟩
      rw [callback] at commands
      exact commandsFit_of_room commands

/-- HBM2 with a refresh of all banks after every 3900 ns. -/
def HbmConfig.refreshed : HbmConfig :=
  { device := .fromStandard .hbm2, controller := { refreshInterval := 3900000 } }

/-- A read opens a row, the channel rests through one refresh, makes up for another when the next
read arrives, and rests through a third: all times are exact. And when the read of another row arrives while data is
on the bus, so late that the row could never be closed in 64 bits, the overflow leaves it in its
queue and the data on the bus. -/
theorem times_exact_reads :
    (∃ s : HbmSystem, TimesExact .refreshed s 0 ∧
      (s.controllers 0).raised = [11700000, 7800000, 3900000] ∧
      (s.controllers 0).transfers.length = 3) ∧
    ∃ s e t, (s.controllers 0).queued.length = 1 ∧ (flying s.scheduler.events 0).length = 1 ∧
      perform .hbm2_2000 (.dispatch []) s = .error e t ∧ e.isOverflow = true ∧ NothingLost s t := by
  constructor
  · obtain ⟨s, reached, final⟩ := exists_reachableWith .refreshed NoEscape
      (stepRoom .refreshed) (fun _ _ reached => inRange_of_room reached)
      (submit (.read 1 0 64) :: dispatches 13 ++
        [.advance 8000000, submit (.read 2 0 32)] ++ dispatches 7)
      (fun s => decide ((s.controllers 0).raised = [11700000, 7800000, 3900000]) &&
        decide ((s.controllers 0).transfers.length = 3))
      (by decide) (by decide) (by decide +kernel)
    obtain ⟨raised, transfers⟩ := Bool.and_eq_true _ _ |>.mp final
    exact ⟨s, (times_exact (by decide) reached).1 0 (by decide), of_decide_eq_true raised,
      of_decide_eq_true transfers⟩
  · obtain ⟨s, reached, final⟩ := exists_reachableWith .hbm2_2000 NoEscape
      (stepRoom .hbm2_2000) (fun _ _ reached => inRange_of_room reached)
      (.advance 0xFFFFFFFFFFFF7D24 :: submit (.read 1 0 32) :: dispatches 3 ++
        [submit (.read 2 65536 32)])
      (fun s => stepRoom .hbm2_2000 s (.dispatch []) &&
        decide ((s.controllers 0).queued.length = 1) &&
        decide ((flying s.scheduler.events 0).length = 1) &&
        (thrown .hbm2_2000 (.dispatch []) s).any (·.isOverflow))
      (by decide) (by decide) (by decide +kernel)
    simp only [Bool.and_eq_true, decide_eq_true_eq] at final
    obtain ⟨⟨⟨room, queued⟩, transfer⟩, raised⟩ := final
    obtain ⟨e, raises, overflow⟩ := Option.any_eq_true _ _ |>.mp raised
    obtain ⟨t, run⟩ := error_of_thrown raises
    exact ⟨s, e, t, queued, transfer, run, overflow, (times_exact (by decide) reached).2 _ e t
      (inRange_of_room reached.reachable room) run overflow⟩

/-- At the last instant of the clock, the end of a command wraps and no exception escapes. -/
theorem times_wrap : ¬ ∀ (cfg : HbmConfig) (s : HbmSystem), Reachable cfg NoEscape s →
    ∀ channel < cfg.channelCount, TimesExact cfg s channel := by
  intro exact_
  obtain ⟨s, reached, final⟩ := exists_reachable .hbm2_2000 NoEscape
    (.advance 0xFFFFFFFFFFFFFFFF :: submit (.read 1 0 64) :: dispatches 1)
    (fun s => decide ((s.controllers 0).busReadyAt .row ≠
      lastEnd (HbmConfig.hbm2_2000.channelConfig 0) (s.controllers 0).recorded .row))
    (by decide) (by decide) (by decide +kernel)
  have times := (exact_ _ s reached 0 (by decide)).commands.ready
  exact of_decide_eq_true final (congrFun times .row)

end

end HbmSim
