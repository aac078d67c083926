import HbmSim.Guarantees.Completion
import HbmSim.Guarantees.Refresh
import HbmSim.System.Refreshing
import HbmSim.System.Running

/-!
Progress under refresh.

If a refresh interval is longer than a raised refresh may hold up a channel, `run()` ends for
every set of accepted transactions, and returns with all of them completed, unless a time leaves
64 bits before. An interval that is only longer than the refresh itself is not enough: the
precharges and ACTs around a refresh take their time as well.
-/

namespace HbmSim

open HbmSim.Lib HbmSystem HbmController

/-- `run()` has returned, and the accepted transactions are completed. -/
structure Concluded (s t : HbmSystem) : Prop where
  empty : t.scheduler.events = []
  accepted : acceptedTransactions t.trace = acceptedTransactions s.trace
  completed : ∀ ticket tx at_, .accepted ticket tx at_ ∈ t.trace →
    t.trace.countP (·.completes ticket) = 1

section

variable {cfg : HbmConfig} {s t : HbmSystem} {d : Debts}

/-! ### Limits -/

/-- With nothing queued and no call pending, nothing is outstanding. -/
theorem outstanding_of_uncalled (checked : cfg.Checked) (run : Run cfg (s, d))
    (alive : d.escaped = false) (settled : d.Settled) (finishing : d.finishing = [])
    (uncalled : ∀ e ∈ s.scheduler.events, e.callback.isCall = false) {channel : Nat}
    (unqueued : (s.controllers channel).queued = []) :
    (s.controllers channel).outstandingAccesses = 0 := by
  have flown : flying s.scheduler.events channel = [] := by
    refine List.flatMap_eq_nil_iff.mpr fun e he => ?_
    have plain := uncalled e he
    cases callback : e.callback with
    | accessDone =>
        rw [callback] at plain
        cases plain
    | _ => rfl
  have kept : d.lost = [] := (run.roomy checked).kept.resolve_left (by simp [alive])
  have counted := (run.accounted checked).balanced.outstanding channel
  unfold workOn Debts.issuedOn Debts.finishingOn Debts.lostOn at counted
  rw [unqueued, flown, settled.issued, finishing, kept] at counted
  exact counted

/-- The accesses of a channel are served in time, within some limit. -/
theorem exists_onTime (checked : cfg.Checked) (on : cfg.controller.refreshInterval ≠ 0)
    (run : Run cfg (s, d)) (alive : d.escaped = false) (settled : d.Settled)
    (fits : ¬ Overflowed cfg s) {channel : Nat} (busy : (s.controllers channel).queued ≠ []) :
    ∃ limit, OnTime (cfg.channelConfig channel) limit (s.controllers channel) := by
  have outstanding := outstanding_of_queued (run.accounted checked).balanced busy
  obtain ⟨due, next, -⟩ := (cadence_of_settled checked on run alive settled fits channel).armed outstanding
  obtain ⟨mark, marked⟩ : ∃ mark, (s.controllers channel).wakeupAt = some mark := by
    rcases run.awake with lost | attended
    · exact nomatch alive.symm.trans lost
    rcases attended channel with idle | marked | owed
    · exact absurd idle.queued busy
    · exact Option.isSome_iff_exists.mp marked
    · rw [settled.wakes] at owed
      cases owed
  have ready := (run.readyBy checked channel).mono (Nat.le_max_left _ mark)
  obtain ⟨within, paced⟩ := ready.exists_paced next
  exact ⟨_, .intro busy paced marked (Nat.le_max_right _ mark) (Nat.le_refl _)⟩

/-- In every state of a run there is a limit to the refreshes before the next call. -/
theorem exists_within (reached : Reachable cfg NoEscape s) (on : cfg.controller.refreshInterval ≠ 0)
    (fits : ¬ Overflowed cfg s) : ∃ limit, Within cfg limit s := by
  obtain ⟨checked, -, d, run, alive, settled, finishing⟩ := reached.settled
  by_cases calls : ∃ e ∈ s.scheduler.events, e.callback.isCall = true
  · obtain ⟨e, mem, call⟩ := calls
    exact ⟨e.time, .call mem call (Nat.le_refl _)⟩
  by_cases busy : ∃ channel, (s.controllers channel).queued ≠ []
  · obtain ⟨channel, busy⟩ := busy
    obtain ⟨limit, onTime⟩ := exists_onTime checked on run alive settled fits busy
    exact ⟨limit, .onTime onTime⟩
  refine ⟨latest (s.scheduler.events.map (·.time)), .idle (fun channel => ?_) fun e he _ => ?_⟩
  · refine outstanding_of_uncalled checked run alive settled finishing (fun e he => ?_) ?_
    · exact Bool.eq_false_of_not_eq_true fun call => calls ⟨e, he, call⟩
    · exact not_not.mp fun queued => busy ⟨channel, queued⟩
  · exact le_latest (List.mem_map_of_mem he)

/-! ### Running to the end -/

/-- `run()` ends: the queue is empty, a time has left 64 bits, or an exception has stopped it. -/
def Ends (cfg : HbmConfig) (s : HbmSystem) : Prop :=
  ∃ fuel, Exits (run cfg fuel)
    (fun returned t => Reachable cfg NoEscape t ∧
      acceptedTransactions t.trace = acceptedTransactions s.trace ∧
        (Overflowed cfg t ∨ returned = true ∧ t.scheduler.events = []))
    (fun e t => Unavoidable cfg e t) s

theorem Ends.stops (reached : Reachable cfg NoEscape s)
    (stops : Overflowed cfg s ∨ s.scheduler.events = []) : Ends cfg s := by
  refine ⟨0, ?_⟩
  unfold run
  simp only [exits_bind, exits_get, exits_pure]
  refine ⟨reached, trivial, stops.imp id fun none => ⟨?_, none⟩⟩
  rw [none]
  rfl

section

variable (sustained : cfg.Sustained)
  (opens : cfg.device.standard = none → cfg.controller.rowPolicy.useAutoPrecharge = false)

include sustained opens

/-- An event whose callbacks make no calls brings the next data command closer. -/
theorem dispatch_advances {limit : Nat} (reached : Reachable cfg NoEscape s)
    (some : s.scheduler.events ≠ []) (fits : ¬ Overflowed cfg s) (within : Within cfg limit s) :
    Exits (perform cfg (.dispatch [])) (fun _ t => Reachable cfg NoEscape t ∧
      Advances cfg limit s t)
      (fun e t => Unavoidable cfg e t) s := by
  have within : Within cfg limit { s with script := [] } := by
    cases within with
    | call mem call time_le => exact .call mem call time_le
    | @onTime channel onTime => exact @Within.onTime cfg limit { s with script := [] } channel onTime
    | idle none time_le => exact .idle none time_le
  have advances : ∀ t, Advances cfg limit { s with script := [] } t → Advances cfg limit s t := by
    intro t advances
    cases advances with
    | serves accepted fewer => exact .serves accepted fewer
    | turns trace same within closer => exact .turns trace same within closer
    | overflows trace passed => exact .overflows trace passed
  refine (dispatch_exits reached fun d point alive checked => dispatchOne_advances checked sustained
    opens point alive fits rfl some within).mono (fun _ t h => ⟨h.1, advances t h.2⟩) fun _ _ h => h

/-- `run()` ends after the next event, if it does so from there. -/
theorem Ends.dispatch {limit : Nat} (reached : Reachable cfg NoEscape s)
    (some : s.scheduler.events ≠ []) (fits : ¬ Overflowed cfg s) (within : Within cfg limit s)
    (later : ∀ t, Reachable cfg NoEscape t → Advances cfg limit s t → Ends cfg t) : Ends cfg s := by
  refine run_more some ((dispatch_advances sustained opens reached some fits within).mono
    (fun _ t h => ?_) fun _ _ h => h)
  obtain ⟨after, advances⟩ := h
  obtain ⟨fuel, ends⟩ := later t after advances
  refine ⟨fuel, ends.mono (fun _ u h => ?_) fun _ _ h => h⟩
  obtain ⟨reached, accepted, ends⟩ := h
  exact ⟨reached, accepted.trans advances.accepted, ends⟩

/-- `run()` ends if it does so once fewer accesses or calls are left. -/
theorem Ends.between {limit : Nat} (reached : Reachable cfg NoEscape s) (within : Within cfg limit s)
    (later : ∀ t, Reachable cfg NoEscape t → Fewer cfg t s → Ends cfg t) : Ends cfg s := by
  -- by induction on what is left before
  induction s using (closer_wf cfg limit).induction with
  | _ s ih =>
      by_cases none : s.scheduler.events = []
      · exact .stops reached (.inr none)
      by_cases passed : Overflowed cfg s
      · exact .stops reached (.inl passed)
      refine .dispatch sustained opens reached none passed within fun t after advances => ?_
      cases advances with
      | serves _ fewer => exact later t after fewer
      | turns _ same within closer =>
          refine ih t closer after within fun u reached fewer => later u reached ?_
          unfold Fewer at fewer ⊢
          rwa [same] at fewer
      | overflows _ passed => exact .stops after (.inl passed)

theorem run_ends_refreshing (reached : Reachable cfg NoEscape s) : Ends cfg s := by
  have on : cfg.controller.refreshInterval ≠ 0 := Nat.ne_of_gt (Nat.zero_lt_of_lt sustained.fits)
  -- by induction on the accesses and calls that are left
  induction s using (fewer_wf cfg).induction with
  | _ s ih =>
      by_cases passed : Overflowed cfg s
      · exact .stops reached (.inl passed)
      obtain ⟨limit, within⟩ := exists_within reached on passed
      exact .between sustained opens reached within fun t after fewer => ih t fewer after

/-- With a refresh interval that leaves time for something else, `run()` ends, and unless a time
leaves 64 bits or it throws what it cannot help, everything is completed. -/
theorem run_completes_refreshing (reached : Reachable cfg NoEscape s) :
    ∃ fuel, Exits (run cfg fuel)
      (fun returned t => Overflowed cfg t ∨ returned = true ∧ Concluded s t)
      (fun e t => Unavoidable cfg e t) s := by
  obtain ⟨fuel, ends⟩ := run_ends_refreshing sustained opens reached
  refine ⟨fuel, ends.mono (fun returned t h => ?_) fun _ _ h => h⟩
  obtain ⟨after, accepted, ends⟩ := h
  refine ends.imp id fun ⟨yes, empty⟩ => ⟨yes, ?_⟩
  have quiet : t.systemEvents = [] := by
    unfold systemEvents
    rw [empty]
    rfl
  constructor
  case empty => exact empty
  case accepted => exact accepted
  case completed =>
    intro ticket tx at_ mem
    exact completed_of_quiet after quiet mem

end

/-- HBM3 with a refresh of all banks every 7 µs and RFM at every second activation. -/
def HbmConfig.refreshing : HbmConfig :=
  { HbmConfig.hbm3_6400 with
    controller := { refreshInterval := 7000000, enableRfm := true, rfmActivationThreshold := 2 } }

/-- Three reads of three rows of one bank, while a refresh is pending. -/
theorem run_completes_refreshing_conflict : ∃ s : HbmSystem,
    (acceptedTransactions s.trace).length = 3 ∧ (s.controllers 0).refreshPending = true ∧
      ∃ fuel, Exits (run .refreshing fuel)
        (fun returned t => Overflowed .refreshing t ∨ returned = true ∧ Concluded s t)
        (fun e t => Unavoidable .refreshing e t) s := by
  obtain ⟨s, reached, final⟩ := exists_reachable .refreshing NoEscape
    (submit (.read 1 0 32) :: (dispatches 5 ++
      [.advance 6999999, submit (.read 2 1048576 32), submit (.read 3 2097152 32)] ++ dispatches 3))
    (fun s => (acceptedTransactions s.trace).length == 3 && (s.controllers 0).refreshPending)
    (by decide) (by decide) (by decide +kernel)
  obtain ⟨accepted, pending⟩ := Bool.and_eq_true _ _ |>.mp final
  exact ⟨s, by simpa using accepted, pending,
    run_completes_refreshing ⟨by decide +kernel, fun _ =>
      Nat.le_refl 2⟩ (by intro h; cases h) reached⟩

end

end HbmSim
