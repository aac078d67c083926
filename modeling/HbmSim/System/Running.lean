import HbmSim.System.Counters
import HbmSim.System.Quiescence
import HbmSim.System.Upkeep

/-!
Running a system to its end (`EventQueue::run`).

Without refresh the events of a system run out, because every event whose callbacks make no
calls brings it nearer to having nothing to do. What is left then is a system with nothing
queued, whose commands, if there is no RFM either, are paid for by its transfers.
-/

namespace HbmSim

open HbmSim.Lib

namespace HbmSystem

variable (cfg : HbmConfig)

/-- `run()` with callbacks that make no calls, for so many events at most: whether it has
returned by then. -/
def run : Nat → SystemM Bool
  | 0 => return (← get).scheduler.events.isEmpty
  | fuel + 1 => do
      if (← get).scheduler.events.isEmpty then return true
      perform cfg (.dispatch [])
      run fuel

/-- An exception that a correct system cannot help: a time beyond 64 bits, or an address that
the device does not map. -/
def Unavoidable (e : HbmError) (t : HbmSystem) : Prop :=
  e.isOverflow = true ∨ Overflowed cfg t ∨ (e.isRange = true ∧ ¬ cfg.Covered)

variable {cfg} {s t : HbmSystem}

/-- Without refresh nothing is ever due. -/
theorem Run.never (checked : cfg.Checked) (off : cfg.controller.refreshInterval = 0)
    {p : HbmSystem × Debts} (run : Run cfg p) (channel : Nat) :
    (p.1.controllers channel).nextRefreshDue = none := by
  refine (run.channel checked channel (P := fun _ _ s => s.ctl.nextRefreshDue = none) rfl
    (fun _ _ h => h) fun {_ _ s t} _ never beat => ?_).2
  have kept : t.ctl.nextRefreshDue = s.ctl.nextRefreshDue → t.ctl.nextRefreshDue = none :=
    fun same => same.trans never
  cases beat with
  | step step =>
      cases step with
      | retouch touched => exact kept (by rw [touched.ctl])
      | raise due =>
          refine kept ?_
          show (s.ctl.raise (cfg.channelConfig channel) due).nextRefreshDue = _
          rw [HbmController.raise_frame]
      | advanceDue base base_le first => exact absurd off (first never).2
      | maintain step => exact kept (by rw [step.frame])
      | row step => exact kept (by rw [step.frame])
  | data step => exact kept (by rw [step.frame])
  | lose step => exact kept (by rw [step.frame])
  | aside aside =>
      refine kept ?_
      generalize t.ctl = c at aside
      cases aside <;> rfl

/-- What an event whose callbacks make no calls leads to, and what it may throw. -/
theorem dispatch_exits {Q : HbmSystem → Prop} (reached : Reachable cfg NoEscape s)
    (dispatches : ∀ d, Point cfg { s with script := [] } d → d.escaped = false → cfg.Checked →
      Exits (dispatchOne cfg) (fun _ t => Q t) (fun _ _ => True) { s with script := [] }) :
    Exits (perform cfg (.dispatch [])) (fun _ t => Reachable cfg NoEscape t ∧ Q t)
      (fun e t => Unavoidable cfg e t) s := by
  obtain ⟨valid, count, d, point, excuse⟩ := reached.point
  have alive : ¬ d.escaped = true := fun lost => (excuse lost).choose_spec.1
  have leads := perform_leads valid.checked count (.dispatch []) point
  have script : Move cfg (s, d) ({ s with script := [] }, d) := .setScript _
  have after := dispatches d ⟨point.run.move script, point.ripe, point.settled⟩
    (Bool.eq_false_of_not_eq_true alive) valid.checked
  have performed : perform cfg (.dispatch []) s = dispatchOne cfg { s with script := [] } := rfl
  unfold Leads Exits at leads
  unfold Exits at after ⊢
  rw [performed] at leads ⊢
  cases ends : dispatchOne cfg { s with script := [] } with
  | ok _ t =>
      rw [ends] at after
      exact ⟨reached.perform _ (performed.trans ends), after⟩
  | error e t =>
      rw [ends] at leads
      obtain ⟨-, excusable, -⟩ := leads
      rcases excusable with overflow | passed | irregular | ⟨-, lost⟩
      · exact .inl overflow
      · exact .inr (.inl passed)
      · exact .inr (.inr irregular)
      · exact absurd lost alive

theorem run_succ {Q : Bool → HbmSystem → Prop} {E : HbmError → HbmSystem → Prop}
    (some : s.scheduler.events ≠ []) (fuel : Nat) :
    Exits (run cfg (fuel + 1)) Q E s ↔
      Exits (perform cfg (.dispatch [])) (fun _ t => Exits (run cfg fuel) Q E t) E s := by
  have some : s.scheduler.events.isEmpty = false := by simpa using some
  rw [run]
  simp only [exits_bind, exits_get, some, Bool.false_eq_true, if_false]

/-- `run()` goes on after an event. -/
theorem run_more {Q : Bool → HbmSystem → Prop} {E : HbmError → HbmSystem → Prop}
    (some : s.scheduler.events ≠ [])
    (first : Exits (perform cfg (.dispatch [])) (fun _ t => ∃ fuel,
      Exits (run cfg fuel) Q E t) E s) :
    ∃ fuel, Exits (run cfg fuel) Q E s := by
  unfold Exits at first
  cases ends : perform cfg (.dispatch []) s with
  | ok _ t =>
      rw [ends] at first
      obtain ⟨fuel, rest⟩ := first
      refine ⟨fuel + 1, (run_succ some fuel).mpr ?_⟩
      unfold Exits
      rw [ends]
      exact rest
  | error e t =>
      rw [ends] at first
      refine ⟨1, (run_succ some 0).mpr ?_⟩
      unfold Exits
      rw [ends]
      exact first

section

variable (off : cfg.Unrefreshed)
  (opens : cfg.device.standard = none → cfg.controller.rowPolicy.useAutoPrecharge = false)

include off opens

/-- An event whose callbacks make no calls leaves less to do. -/
theorem dispatch_silent (reached : Reachable cfg NoEscape s) (some : s.scheduler.events ≠ []) :
    Exits (perform cfg (.dispatch []))
      (fun _ t => Reachable cfg NoEscape t ∧ Ebbs cfg { s with script := [] } t)
      (fun e t => Unavoidable cfg e t) s :=
  dispatch_exits reached fun _ point _ checked =>
    dispatchOne_ebbs checked off opens point rfl (point.run.never checked off.refresh) some

/-- `run()` ends: the queue is empty, or an exception has stopped it. -/
theorem run_exhausts (reached : Reachable cfg NoEscape s) :
    ∃ fuel, Exits (run cfg fuel)
      (fun returned t => returned = true ∧ t.scheduler.events = [] ∧ Reachable cfg NoEscape t ∧
        acceptedTransactions t.trace = acceptedTransactions s.trace)
      (fun e t => Unavoidable cfg e t) s := by
  -- by induction on what is left to do
  induction s using (nearer_wf cfg).induction with
  | _ s ih =>
      by_cases none : s.scheduler.events = []
      · refine ⟨0, ?_⟩
        unfold run
        simp only [exits_bind, exits_get, exits_pure]
        refine ⟨?_, none, reached, trivial⟩
        rw [none]
        rfl
      · refine run_more none ((dispatch_silent off opens reached none).mono (fun _ t h => ?_)
          fun _ _ h => h)
        obtain ⟨after, ebbs⟩ := h
        obtain ⟨fuel, rest⟩ := ih t ebbs.nearer after
        refine ⟨fuel, rest.mono (fun _ u h => ?_) fun _ _ h => h⟩
        obtain ⟨returned, empty, reached, accepted⟩ := h
        exact ⟨returned, empty, reached, accepted.trans ebbs.accepted⟩

end

section

variable (off : cfg.Unmaintained)
  (opens : cfg.device.standard = none → cfg.controller.rowPolicy.useAutoPrecharge = false)

include off opens

theorem run_ends (reached : Reachable cfg NoEscape s) :
    ∃ fuel, Exits (run cfg fuel)
      (fun returned t => returned = true ∧ t.scheduler.events = [] ∧ Reachable cfg NoEscape t ∧
        acceptedTransactions t.trace = acceptedTransactions s.trace)
      (fun e t => Unavoidable cfg e t) s := run_exhausts off.unrefreshed opens reached

/-! ### What has been spent -/

/-- The commands that have been issued, when nothing is queued. -/
structure Spent (s : HbmSystem) : Prop where
  acts : s.stats.actCommands ≤ s.stats.physicalAccesses
  precharges : s.stats.preCommands ≤ s.stats.actCommands
  issued : s.stats.issuedCommands =
    s.stats.actCommands + s.stats.preCommands + s.stats.physicalAccesses
  physical : s.stats.physicalAccesses ≤ s.stats.modeledAccesses

theorem spent (reached : Reachable cfg NoEscape s)
    (idle : ∀ channel, (s.controllers channel).queued = []) : Spent s := by
  obtain ⟨checked, -, d, run, alive, -⟩ := reached.settled
  have frugal := reached.frugal off opens
  have conserved := (run.conserved checked).resolve_left (by simp [alive])
  have acts : s.stats.actCommands = s.total cfg (countedOn .acts) := run.counted .acts
  have precharges : s.stats.preCommands = s.total cfg (countedOn .precharges) :=
    run.counted .precharges
  have data : s.stats.readCommands + s.stats.writeCommands = s.total cfg (countedOn .data) :=
    run.counted .data
  have issued : s.stats.issuedCommands = s.total cfg (countedOn .issued) := run.counted .issued
  have moved := conserved.data
  constructor
  case acts =>
    rw [← moved, data, acts]
    apply Finset.sum_le_sum
    intro channel _
    exact (frugal channel).paid (idle channel)
  case precharges =>
    rw [acts, precharges]
    apply Finset.sum_le_sum
    intro channel _
    exact Nat.le_trans (Nat.le_add_right _ _) (frugal channel).precharges
  case issued =>
    rw [← moved, issued, acts, precharges, data]
    unfold total
    rw [← Finset.sum_add_distrib, ← Finset.sum_add_distrib]
    apply Finset.sum_congr rfl
    intro channel _
    refine Eq.trans ?_ (frugal channel).kinds
    exact congrFun List.countP_true _
  case physical =>
    rw [conserved.modeled, Nat.add_right_comm]
    exact Nat.le_add_left _ _

end

end HbmSystem

end HbmSim
