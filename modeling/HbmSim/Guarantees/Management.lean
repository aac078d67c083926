import HbmSim.Guarantees.Budget
import HbmSim.Guarantees.Completion
import HbmSim.Guarantees.Starvation
import HbmSim.System.Cadence
import HbmSim.System.Running

/-!
Progress under RFM.

If no refresh is configured and RFM lets a bank be opened more than once before it is managed,
`run()` ends for every set of accepted transactions and returns with all of them completed. The
ACT that brings an RFM is lost, but the next one is not, so a data command is never more than a
few commands away. With RFM at every activation `run()` does not return.
-/

namespace HbmSim

open HbmSim.Lib HbmSystem

/-- No refresh has been scheduled on any channel, unless an exception has escaped or a time has
left 64 bits. -/
def Unstarted (cfg : HbmConfig) (s : HbmSystem) (d : Debts) : Prop :=
  d.escaped = true ∨ Overflowed cfg s ∨ ∀ channel, (calmed s d channel).Fresh

/-- `run()` has returned: the accepted transactions are completed, and their commands are
paid for. -/
structure Exhausted (cfg : HbmConfig) (s t : HbmSystem) : Prop where
  empty : t.scheduler.events = []
  accepted : acceptedTransactions t.trace = acceptedTransactions s.trace
  completed : ∀ ticket tx at_, .accepted ticket tx at_ ∈ t.trace →
    t.trace.countP (·.completes ticket) = 1
  issued : ¬ Overflowed cfg t → t.stats.issuedCommands ≤
    cfg.channelCount * cfg.banksPerChannel + 6 * t.stats.physicalAccesses
  physical : t.stats.physicalAccesses ≤ t.stats.modeledAccesses

section

variable {cfg : HbmConfig} {s t : HbmSystem} {d d' : Debts}

/-! ### No refresh -/

theorem Unstarted.frame (h : Unstarted cfg s d) (escaped : d.escaped = true → d'.escaped = true)
    (passed : Overflowed cfg s → Overflowed cfg t)
    (same : ∀ ch, SameCadence (calmed s d ch) (calmed t d' ch)) : Unstarted cfg t d' :=
  h.imp escaped (Or.imp passed fun fresh ch => (same ch).fresh (fresh ch))

theorem Unstarted.move {p q : HbmSystem × Debts} (checked : cfg.Checked)
    (off : cfg.controller.refreshInterval = 0) (run : Run cfg p) (move : Move cfg p q)
    (h : Unstarted cfg p.1 p.2) : Unstarted cfg q.1 q.2 := by
  have passed := fun h => Overflowed.move move h
  cases move with
  | @control s d channel t _ step calm cadence =>
      exact h.frame id passed (calmed_update (update_controllers s channel t) cadence rfl)
  | @stir s d channel t _ step alone =>
      rcases alone with lost | alone
      · exact .inl lost
      refine h.frame id passed fun ch => ?_
      rw [calmed_stir alone]
      exact .refl _
  | @calm s d channel before hchannel stirring cadence =>
      rcases h with lost | passed | fresh
      · exact .inl lost
      · exact .inr (.inl passed)
      have was : calmed s d channel = before := by rw [calmed_of_some stirring, if_pos rfl]
      rcases cadence.first (was ▸ fresh channel) with wraps | still | cadenced
      · exact .inr (.inl (.inr ⟨channel, hchannel, wraps⟩))
      · refine .inr (.inr fun ch => ?_)
        rw [calmed_of_none rfl]
        by_cases here : channel = ch
        · exact here ▸ still
        · have other := fresh ch
          rwa [calmed_of_some stirring, if_neg here] at other
      · have never : (s.controllers channel).nextRefreshDue = none := run.never checked off channel
        exact nomatch never.symm.trans cadenced.next
  | @transfer s d channel physical t _ step =>
      have cadence := DataStep.cadence (run.sound checked channel) step
      exact h.frame id passed (calmed_update (update_controllers s channel t) cadence rfl)
  | @wake s d channel at_ =>
      exact h.frame id passed (calmed_update (markWake_controllers s channel at_)
        ⟨rfl, rfl, rfl, rfl, rfl, id⟩ rfl)
  | @arm s d channel due =>
      exact h.frame id passed (calmed_update (markRefresh_controllers s channel due)
        ⟨rfl, rfl, rfl, rfl, rfl, id⟩ rfl)
  | @misarm s d channel due =>
      have same := modifyController_controllers s channel fun c =>
        { c with refreshDueAt := some due }
      exact h.frame id passed (calmed_update same ⟨rfl, rfl, rfl, rfl, rfl, id⟩ rfl)
  | @charge s d parent access =>
      exact h.frame id passed (calmed_update (charge_controllers s parent access)
        ⟨rfl, rfl, rfl, rfl, rfl, id⟩ rfl)
  | @push s d access =>
      exact h.frame id passed (calmed_update (push_controllers cfg s access)
        ⟨rfl, rfl, rfl, rfl, rfl, id⟩ rfl)
  | @credit s d channel access parent =>
      exact h.frame id passed (calmed_update (credit_controllers cfg s channel access parent)
        ⟨rfl, rfl, rfl, rfl, rfl, id⟩ rfl)
  | _ => exact h.frame id passed fun _ => .refl _

theorem Unstarted.turn {p q : HbmSystem × Debts} (scheduled : Scheduled cfg p.1)
    (turn : Turn cfg p q) (h : Unstarted cfg p.1 p.2) : Unstarted cfg q.1 q.2 := by
  have passed := fun h => Overflowed.turn turn scheduled h
  cases turn with
  | @wake s d event rest channel =>
      exact h.frame id passed (calmed_update (modifyController_controllers (s.pop event rest) channel _)
        (clearWakeup_cadence _ _) rfl)
  | @refreshDue s d event rest channel =>
      exact h.frame id passed (calmed_update (modifyController_controllers (s.pop event rest) channel _)
        (disarm_cadence _ _) rfl)
  | escape => exact .inl rfl
  | lose => exact .inl rfl
  | _ => exact h.frame id passed fun _ => .refl _

theorem HbmSystem.Run.unstarted (checked : cfg.Checked) (off : cfg.controller.refreshInterval = 0)
    {p : HbmSystem × Debts} (run : Run cfg p) : Unstarted cfg p.1 p.2 := by
  induction run with
  | create => exact .inr (.inr fun _ => ⟨rfl, rfl, rfl, rfl⟩)
  | move run move ih => exact ih.move checked off run move
  | turn run turn ih => exact ih.turn run.scheduled turn

/-! ### Running to the end -/

/-- Without refresh and with an RFM threshold of two at least `run()` ends, and unless it throws
what it cannot help, everything is completed. -/
theorem ends_exhausted (reached : Reachable cfg NoEscape s) (off : cfg.Unrefreshed)
    (opens : cfg.device.standard = none → cfg.controller.rowPolicy.useAutoPrecharge = false) :
    ∃ fuel, Exits (run cfg fuel)
      (fun returned t => returned = true ∧ Exhausted cfg s t ∧ Reachable cfg NoEscape t)
      (fun e t => Unavoidable cfg e t) s := by
  obtain ⟨fuel, ends⟩ := run_exhausts off opens reached
  refine ⟨fuel, ends.mono (fun returned t h => ?_) fun _ _ h => h⟩
  obtain ⟨yes, empty, after, accepted⟩ := h
  have quiet : t.systemEvents = [] := by
    unfold systemEvents
    rw [empty]
    rfl
  obtain ⟨checked, -, d, run, alive, settled, -⟩ := after.settled
  have conserved := (run.conserved checked).resolve_left (by simp [alive])
  have moved := conserved.data
  refine ⟨yes, ?_, after⟩
  constructor
  case empty => exact empty
  case accepted => exact accepted
  case completed =>
    intro ticket tx at_ mem
    exact completed_of_quiet after quiet mem
  case issued =>
    intro fits
    have fresh := ((run.unstarted checked off.refresh).resolve_left (by simp [alive])).resolve_left fits
    have none : ∑ channel ∈ Finset.range cfg.channelCount,
      (t.controllers channel).raised.length = 0 := by
      apply Finset.sum_eq_zero
      intro channel _
      have raised := (fresh channel).raised
      rw [calmed_of_none settled.stirring] at raised
      rw [raised]
      rfl
    have budget := (run.withinBudget checked opens off.early).system
    rw [none, moved] at budget
    exact budget
  case physical =>
    rw [conserved.modeled, Nat.add_right_comm]
    exact Nat.le_add_left _ _

/-- Without refresh and with an RFM threshold of two at least every accepted transaction is
completed, on a standard's device and on one without auto-precharge. -/
theorem run_completes_managed (reached : Reachable cfg NoEscape s) (off : cfg.Unrefreshed)
    (opens : cfg.device.standard = none → cfg.controller.rowPolicy.useAutoPrecharge = false) :
    ∃ fuel, Exits (run cfg fuel) (fun returned t => returned = true ∧ Exhausted cfg s t)
      (fun e t => Unavoidable cfg e t) s := by
  obtain ⟨fuel, ends⟩ := ends_exhausted reached off opens
  exact ⟨fuel, ends.mono (fun _ _ h => ⟨h.1, h.2.1⟩) fun _ _ h => h⟩

/-- HBM3 with RFM at every second activation and without refresh. -/
def HbmConfig.secondActivationOnly : HbmConfig :=
  { HbmConfig.hbm3_6400 with controller := { enableRfm := true, rfmActivationThreshold := 2 } }

/-- Three reads of three rows of one bank. -/
theorem run_completes_managed_conflict : ∃ s : HbmSystem,
    (acceptedTransactions s.trace).length = 3 ∧
      ∃ fuel, Exits (run .secondActivationOnly fuel)
        (fun returned t => returned = true ∧ Exhausted .secondActivationOnly s t)
        (fun e t => Unavoidable .secondActivationOnly e t) s := by
  obtain ⟨s, reached, accepted⟩ := exists_reachable .secondActivationOnly NoEscape
    [submit (.read 1 0 32), submit (.read 2 1048576 32), submit (.read 3 2097152 32)]
    (fun s => (acceptedTransactions s.trace).length == 3) (by decide) (by decide)
    (by decide +kernel)
  exact ⟨s, by simpa using accepted,
    run_completes_managed reached ⟨rfl, fun _ => Nat.le_refl 2⟩ (by intro h; cases h)⟩

/-! ### Every threshold -/

/-- How many ACTs a channel has issued for an access. -/
def actsFor (c : HbmController) (sequence : Nat) : Nat :=
  c.recorded.countP fun r => r.command = .act ∧ r.sequence = some sequence

/-- `run()` has returned: the accepted transactions are completed, and the ACTs issued on behalf
of any one access are within a bound. -/
structure ManagedEnd (cfg : HbmConfig) (s t : HbmSystem) : Prop where
  empty : t.scheduler.events = []
  accepted : acceptedTransactions t.trace = acceptedTransactions s.trace
  completed : ∀ ticket tx at_, .accepted ticket tx at_ ∈ t.trace →
    t.trace.countP (·.completes ticket) = 1
  acts : ¬ Overflowed cfg t → ∀ channel < cfg.channelCount, ∀ sequence,
    actsFor (t.controllers channel) sequence ≤
      cfg.channelCount * cfg.banksPerChannel + 6 * t.stats.physicalAccesses

/-- The ACTs for an access are among the commands of the system. -/
theorem actsFor_le (run : Run cfg (s, d)) {channel : Nat} (hchannel : channel < cfg.channelCount)
    (sequence : Nat) : actsFor (s.controllers channel) sequence ≤ s.stats.issuedCommands := by
  have counted : s.stats.issuedCommands = s.total cfg (countedOn .issued) := run.counted .issued
  have among : actsFor (s.controllers channel) sequence ≤
      countedOn .issued (s.controllers channel) (s.stats.channels channel) :=
    List.countP_mono_left fun _ _ _ => rfl
  have part := Finset.single_le_sum
    (f := fun ch => countedOn .issued (s.controllers ch) (s.stats.channels ch))
    (fun _ _ => Nat.zero_le _) (Finset.mem_range.mpr hchannel)
  rw [counted]
  exact Nat.le_trans among part

/-- An accepted transaction has been observed. -/
theorem exists_accepted {trace : List Observation} (some : acceptedTransactions trace ≠ []) :
    ∃ ticket tx at_, .accepted ticket tx at_ ∈ trace := by
  obtain ⟨tx, rest, accepted⟩ := List.exists_cons_of_ne_nil some
  have mem : tx ∈ acceptedTransactions trace := by
    rw [accepted]
    exact List.mem_cons_self
  obtain ⟨o, ho, accepts⟩ := List.mem_filterMap.mp mem
  cases o with
  | accepted ticket tx' at_ => exact ⟨ticket, tx', at_, ho⟩
  | _ => cases accepts

/-- With RFM and without refresh, a threshold of two at least is enough for `run()` to return with
everything completed, unless a time leaves 64 bits. And it is needed: if `run()` ever returns where
a transaction has been accepted, the threshold is not one. -/
theorem run_completes_rfm (reached : Reachable cfg NoEscape s)
    (on : cfg.controller.enableRfm = true) (off : cfg.controller.refreshInterval = 0) :
    (2 ≤ cfg.controller.rfmActivationThreshold → ∃ fuel, Exits (run cfg fuel)
      (fun returned t => returned = true ∧ ManagedEnd cfg s t)
      (fun e t => e.isOverflow = true ∨ Overflowed cfg t) s) ∧
    ∀ fuel t, run cfg fuel s = .ok true t → acceptedTransactions s.trace ≠ [] →
      2 ≤ cfg.controller.rfmActivationThreshold := by
  obtain ⟨checked, -⟩ := reached.settled
  obtain ⟨standard, hs, -⟩ := checked.rfm on
  have covered := HbmConfig.covered_of_standard hs
  constructor
  · intro early
    obtain ⟨fuel, ends⟩ := ends_exhausted reached ⟨off, fun _ => early⟩
      fun custom => nomatch hs.symm.trans custom
    refine ⟨fuel, ends.mono (fun returned t h => ?_) fun e t unavoidable => ?_⟩
    · obtain ⟨yes, exhausted, after⟩ := h
      obtain ⟨-, -, d, run, -⟩ := after.settled
      exact ⟨yes, exhausted.empty, exhausted.accepted, exhausted.completed, fun fits _ hchannel _ =>
        Nat.le_trans (actsFor_le run hchannel _) (exhausted.issued fits)⟩
    · rcases unavoidable with overflow | passed | ⟨-, irregular⟩
      · exact .inl overflow
      · exact .inr passed
      · exact absurd covered irregular
  · intro fuel t returned some
    by_contra few
    have one : cfg.controller.rfmActivationThreshold = 1 := by
      have positive := checked.threshold on
      omega
    obtain ⟨ticket, tx, at_, mem⟩ := exists_accepted some
    obtain ⟨-, more, -⟩ := (run_returns reached fuel).of_ok returned
    exact unaccepted_of_returned reached on one returned ticket tx at_ (more.mem mem)

/-- Three reads of three rows of one bank, with RFM at every second activation. -/
theorem run_completes_rfm_conflict : ∃ s : HbmSystem,
    (acceptedTransactions s.trace).length = 3 ∧
      (∃ fuel, Exits (run .secondActivationOnly fuel)
        (fun returned t => returned = true ∧ ManagedEnd .secondActivationOnly s t)
        (fun e t => e.isOverflow = true ∨ Overflowed .secondActivationOnly t) s) ∧
      ∀ fuel t, run .secondActivationOnly fuel s = .ok true t → acceptedTransactions s.trace ≠ [] →
        2 ≤ HbmConfig.secondActivationOnly.controller.rfmActivationThreshold := by
  obtain ⟨s, reached, accepted⟩ := exists_reachable .secondActivationOnly NoEscape
    [submit (.read 1 0 32), submit (.read 2 1048576 32), submit (.read 3 2097152 32)]
    (fun s => (acceptedTransactions s.trace).length == 3) (by decide) (by decide)
    (by decide +kernel)
  obtain ⟨enough, needed⟩ := run_completes_rfm reached rfl rfl
  exact ⟨s, by simpa using accepted, enough (Nat.le_refl 2), needed⟩

/-- With RFM at every activation a read is never completed, however long `run()` goes on. -/
theorem not_run_completes_rfm : ∃ (cfg : HbmConfig) (s : HbmSystem), cfg.Valid ∧
    cfg.device.standard = some .hbm3 ∧ cfg.controller.enableRfm = true ∧
      cfg.controller.refreshInterval = 0 ∧ Reachable cfg NoEscape s ∧
        (acceptedTransactions s.trace).length = 1 ∧
          ∀ fuel returned t, run cfg fuel s = .ok returned t →
            returned = false ∧ ∀ ticket, t.trace.countP (·.completes ticket) = 0 := by
  obtain ⟨s, reached, accepted⟩ := exists_reachable .everyActivation NoEscape
    [submit (.read 1 0 32)] (fun s => (acceptedTransactions s.trace).length == 1)
    (by decide) (by decide) (by decide +kernel)
  have one : (acceptedTransactions s.trace).length = 1 := by simpa using accepted
  refine ⟨_, s, by decide, rfl, rfl, rfl, reached, one, fun fuel returned t ends => ⟨?_, ?_⟩⟩
  · cases returned with
    | false => rfl
    | true =>
        have some : acceptedTransactions s.trace ≠ [] := fun none => by simp [none] at one
        obtain ⟨ticket, tx, at_, mem⟩ := exists_accepted some
        obtain ⟨-, more, -⟩ := (run_returns reached fuel).of_ok ends
        exact absurd (more.mem mem) (unaccepted_of_returned reached rfl rfl ends ticket tx at_)
  · obtain ⟨after, -⟩ := (run_returns reached fuel).of_ok ends
    intro ticket
    by_contra completes
    exact (after.starved rfl rfl).uncompleted ticket (completed_of_completes completes)

end

end HbmSim
