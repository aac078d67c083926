import HbmSim.System.Replay
import HbmSim.System.Reporting

/-!
Reporting does not change what is simulated.

Two systems whose configurations differ in `detailed_stats` and `retain_completions` only,
given the same calls and events, issue the same commands at the same times and complete the
same transactions: they differ in detailed statistics, latency breakdowns and the retained
completions alone.
-/

namespace HbmSim

open HbmSystem

namespace HbmSystem

variable {cfg : HbmConfig}

/-- Perform actions one after the other, whatever escapes: how each ended, and the system
that is left. -/
def performAll (cfg : HbmConfig) :
    List Action → HbmSystem → List (Except HbmError Unit) × HbmSystem
  | [], s => ([], s)
  | action :: rest, s =>
      match perform cfg action s with
      | .ok _ t => let (ends, last) := performAll cfg rest t; (.ok () :: ends, last)
      | .error e t => let (ends, last) := performAll cfg rest t; (.error e :: ends, last)

theorem performAll_plain (actions : List Action) (s : HbmSystem) :
    performAll cfg.plain actions s.plain =
      ((performAll cfg actions s).1, (performAll cfg actions s).2.plain) := by
  induction actions generalizing s with
  | nil => rfl
  | cons action rest ih =>
      have step := @perform_plain cfg action s
      simp only [performAll, step]
      cases perform cfg action s with
      | ok _ t => simp only [Lib.imageOf, ih]
      | error e t => simp only [Lib.imageOf, ih]

end HbmSystem

/-- The systems agree on all that reporting does not govern. -/
structure SameSimulation (s s' : HbmSystem) : Prop where
  /-- The queues, the buses, and the commands and transfers recorded with their times. -/
  controllers : s.controllers = s'.controllers
  stats : s.stats.plain = s'.stats.plain
  /-- What was accepted, admitted, issued, finished, completed and returned, in order. -/
  trace : s.trace.map (·.plain) = s'.trace.map (·.plain)
  parents : s.parents.map (·.plain) = s'.parents.map (·.plain)
  pendingAdmissions : s.pendingAdmissions = s'.pendingAdmissions
  now : s.now = s'.now
  events : s.scheduler.events.map (Event.map EventCallback.plain) =
    s'.scheduler.events.map (Event.map EventCallback.plain)

theorem sameSimulation_of_plain {s s' : HbmSystem} (same : s.plain = s'.plain) :
    SameSimulation s s' where
  controllers := (congrArg HbmSystem.controllers same : s.plain.controllers = s'.plain.controllers)
  stats := congrArg HbmSystem.stats same
  trace := congrArg HbmSystem.trace same
  parents := congrArg HbmSystem.parents same
  pendingAdmissions :=
    (congrArg HbmSystem.pendingAdmissions same : s.plain.pendingAdmissions = s'.plain.pendingAdmissions)
  now := (congrArg HbmSystem.now same : s.plain.now = s'.plain.now)
  events := congrArg (fun t : HbmSystem => t.scheduler.events) same

/-- The switches change neither how a call or an event ends nor what is simulated. -/
theorem reporting_unobserved {cfg cfg' : HbmConfig} (switched : cfg.plain = cfg'.plain)
    {s s' : HbmSystem} (created : create cfg = .ok s) (created' : create cfg' = .ok s')
    (actions : List Action) :
    (performAll cfg actions s).1 = (performAll cfg' actions s').1 ∧
      SameSimulation (performAll cfg actions s).2 (performAll cfg' actions s').2 := by
  obtain ⟨-, -, rfl⟩ := create_ok.mp created
  obtain ⟨-, -, rfl⟩ := create_ok.mp created'
  have run := @performAll_plain cfg actions (initial cfg)
  have run' := @performAll_plain cfg' actions (initial cfg')
  rw [initial_plain, switched] at run
  rw [initial_plain] at run'
  obtain ⟨ends, last⟩ := Prod.mk.inj (run.symm.trans run')
  exact ⟨ends, sameSimulation_of_plain last⟩

/-- HBM2 with its completions retained. -/
def HbmConfig.retained : HbmConfig :=
  { HbmConfig.hbm2_2000 with simulation := { retainCompletions := true } }

/-- HBM2 without detailed statistics. -/
def HbmConfig.silent : HbmConfig :=
  { HbmConfig.hbm2_2000 with simulation := { detailedStats := false } }

/-- One read, reported in detail and retained, and not. -/
theorem reporting_unobserved_read :
    SameSimulation (performAll .retained (submit (.read 1 0 64) :: dispatches 12) (initial .retained)).2
        (performAll .silent (submit (.read 1 0 64) :: dispatches 12) (initial .silent)).2 ∧
      (performAll .retained (submit (.read 1 0 64) :: dispatches 12)
        (initial .retained)).2.completions.length = 1 ∧
      (performAll .silent (submit (.read 1 0 64) :: dispatches 12)
        (initial .silent)).2.completions.length = 0 := by
  have retained : create .retained = .ok (initial .retained) :=
    create_ok.mpr ⟨by decide, by decide, rfl⟩
  have silent : create .silent = .ok (initial .silent) :=
    create_ok.mpr ⟨by decide, by decide, rfl⟩
  have switched : HbmConfig.retained.plain = HbmConfig.silent.plain := rfl
  have same := reporting_unobserved switched retained silent (submit (.read 1 0 64) :: dispatches 12)
  exact ⟨same.2, by decide +kernel, by decide +kernel⟩

end HbmSim
