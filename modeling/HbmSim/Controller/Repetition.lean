import HbmSim.Controller.Selection

/-!
A second `drive` at the same instant.

A `drive` that issues no command only sets marks: accesses reported as starving, accesses
marked as eligible, the stall accounted for, the write-drain mode. A second one finds every
mark set already. Only the write-drain mode can change again, if the length of the write queue
is at both watermarks.
-/

namespace HbmSim

open HbmSim.Lib

namespace HbmController

variable {config : HbmControllerConfig} {mapper : HbmAddressMapper} {s t : ControllerState}
  {now : Nat}

/-! ### Marks -/

/-- Every access that starves at `now` has been reported. -/
def Reported (config : HbmControllerConfig) (now : Nat) (c : HbmController) : Prop :=
  ∀ w, ∀ a ∈ c.queue w, starving config now a = false

/-- An access is reported once. -/
theorem starving_reportStarving (now : Nat) (a : HbmAccess) :
    starving config now (reportStarving config now a) = false := by
  unfold reportStarving
  split
  · rfl
  · rename_i fed
    exact Bool.eq_false_iff.mpr fed

/-- An access that does not starve is not reported. -/
theorem reportStarving_of_fed {a : HbmAccess} (fed : starving config now a = false) :
    reportStarving config now a = a := by
  unfold reportStarving
  rw [fed]
  rfl

/-- After the update no queued access is left to report. -/
theorem reported_updateStarvation (on : config.starvationThreshold ≠ 0) (s : ControllerState)
    (now : Nat) : Reported config now (updateStarvation config s now).ctl := by
  intro w a mem
  unfold updateStarvation at mem
  rw [if_neg on] at mem
  cases w with
  | true =>
      obtain ⟨b, -, rfl⟩ := List.mem_map.mp mem
      exact starving_reportStarving now b
  | false =>
      obtain ⟨b, -, rfl⟩ := List.mem_map.mp mem
      exact starving_reportStarving now b

/-- Once every starving access is reported nothing more is counted. -/
theorem updateStarvation_of_reported
    (reported : config.starvationThreshold ≠ 0 → Reported config now s.ctl) :
    updateStarvation config s now = s := by
  unfold updateStarvation
  split
  · rfl
  · rename_i on
    have fed := reported on
    have same : ∀ q : List HbmAccess, (∀ a ∈ q, starving config now a = false) →
        q.map (reportStarving config now) = q ∧ q.countP (starving config now) = 0 := by
      intro q hq
      constructor
      · rw [List.map_congr_left fun a mem => reportStarving_of_fed (hq a mem)]
        exact List.map_id q
      · rw [List.countP_eq_zero]
        intro a mem
        rw [hq a mem]
        exact Bool.false_ne_true
    obtain ⟨reads, readCount⟩ := same s.ctl.readQueue (fed false)
    obtain ⟨writes, writeCount⟩ := same s.ctl.writeQueue (fed true)
    rw [reads, writes, readCount, writeCount]
    exact congrArg (ControllerState.mk s.ctl) (s.stats.modifyQueue_id config.channel)

/-- The stall of a refresh window is accounted for once. -/
theorem accountStall_again (s : ControllerState) (now : Nat) :
    accountStall config (accountStall config s now) now = accountStall config s now := by
  unfold accountStall
  dsimp only
  split
  · rw [if_neg (by dsimp only; omega)]
  · rfl

/-- The first time noted stays. -/
theorem markEligible_again (ready : Nat) (a : HbmAccess) :
    markEligible now ready (markEligible now ready a) = markEligible now ready a := by
  by_cases due : ready ≤ now
  · cases eligible : a.commandEligible with
    | false => simp [markEligible, due, eligible, Nat.not_lt.mpr due]
    | true => simp [markEligible, eligible, Nat.not_lt.mpr due]
  · simp [markEligible, due, Nat.not_le.mp due]

/-- Starvation does not depend on eligibility. -/
theorem starving_markEligible (ready : Nat) (a : HbmAccess) :
    starving config now (markEligible now ready a) = starving config now a := by
  unfold markEligible
  split
  · rfl
  · split <;> rfl

/-! ### The candidate loop -/

/-- The candidate of an access does not depend on its marks. -/
theorem candidateFor_again (h : Retouched config s t) {w : Bool} {index : Nat}
    {a a' : HbmAccess} {candidate : SchedulerCandidate}
    (run : candidateFor config mapper s.ctl w now index a = .ok (a', candidate)) :
    candidateFor config mapper t.ctl w now index a' = .ok (a', candidate) := by
  simp only [candidateFor, bind_eq_ok] at run ⊢
  obtain ⟨command, planned, ready, due, result⟩ := run
  cases result
  have logical := HbmAccess.logical_of_core (markEligible_core now ready a)
  have activated : (markEligible now ready a).activated = a.activated := by
    have cores := congrArg HbmAccess.activated (markEligible_core now ready a)
    exact cores
  refine ⟨command, ?_, ready, ?_, ?_⟩
  · rw [plannedCommand_congr h.banks logical]
    exact planned
  · rw [earliestCommand_retouched h, logical]
    exact due
  · rw [markEligible_again, logical, activated]
    rfl

/-- An access that fails to plan fails again. -/
theorem candidateFor_error_again (h : Retouched config s t) {w : Bool} {index : Nat}
    {a : HbmAccess} {e : HbmError}
    (run : candidateFor config mapper s.ctl w now index a = .error e) :
    candidateFor config mapper t.ctl w now index a = .error e := by
  unfold candidateFor at run ⊢
  simp only [plannedCommand_congr h.banks rfl, earliestCommand_retouched h]
  exact run

/-- The candidate loop over a queue it has marked finds the same candidates and marks. -/
theorem scanQueue_again (h : Retouched config s t) (w : Bool) (index : Nat)
    (q : List HbmAccess) :
    scanQueue config mapper t.ctl w now index (scanQueue config mapper s.ctl w now index q).1 =
      scanQueue config mapper s.ctl w now index q := by
  induction q generalizing index with
  | nil => rfl
  | cons a rest ih =>
      cases first : candidateFor config mapper s.ctl w now index a with
      | error e => simp only [scanQueue, first, candidateFor_error_again h first]
      | ok marked =>
          obtain ⟨a', candidate⟩ := marked
          simp only [scanQueue, first, candidateFor_again h first, ih (index + 1)]

/-- A scan makes no access starve. -/
theorem starving_scanQueue {c : HbmController} (w : Bool) (index : Nat) {q : List HbmAccess}
    (fed : ∀ a ∈ q, starving config now a = false) :
    ∀ a ∈ (scanQueue config mapper c w now index q).1, starving config now a = false := by
  induction q generalizing index with
  | nil => exact fun a mem => fed a mem
  | cons b rest ih =>
      unfold scanQueue
      split
      · exact fed
      · rename_i b' candidate first
        simp only [candidateFor, bind_eq_ok] at first
        obtain ⟨command, -, ready, -, result⟩ := first
        cases result
        intro a mem
        rcases List.mem_cons.mp mem with rfl | mem
        · rw [starving_markEligible]
          exact fed b List.mem_cons_self
        · exact ih (index + 1) (fun a mem => fed a (List.mem_cons_of_mem _ mem)) a mem

theorem findWaiting_retouched (h : Retouched config s t) (target : Nat) (w : Bool)
    (index : Nat) (q : List HbmAccess) (waiting : Option (Candidate × Nat)) :
    findWaiting config mapper t.ctl now target w index q waiting =
      findWaiting config mapper s.ctl now target w index q waiting := by
  induction q generalizing index waiting with
  | nil => rfl
  | cons a rest ih =>
      unfold findWaiting
      simp only [plannedCommand_congr h.banks rfl, earliestCommand_retouched h, ih]

theorem yieldPrecharge_retouched (h : Retouched config s t)
    (same : ∀ w, t.ctl.queue w = s.ctl.queue w) (candidate : Candidate) :
    yieldPrecharge config mapper t.ctl now candidate =
      yieldPrecharge config mapper s.ctl now candidate := by
  have reads : t.ctl.readQueue = s.ctl.readQueue := same false
  have writes : t.ctl.writeQueue = s.ctl.writeQueue := same true
  unfold yieldPrecharge
  simp only [same, reads, writes, findWaiting_retouched h]

theorem choice_retouched (h : Retouched config s t) (same : ∀ w, t.ctl.queue w = s.ctl.queue w)
    (candidates : Except HbmError (List SchedulerCandidate)) :
    choice config mapper t.ctl now candidates = choice config mapper s.ctl now candidates := by
  unfold choice
  simp only [yieldPrecharge_retouched h same]

/-! ### The write-drain mode -/

/-- With accesses in both queues, the length of the write queue is at both watermarks: each
update of the write-drain mode changes the queue that is served. -/
def Flips (config : HbmControllerConfig) (c : HbmController) : Prop :=
  c.readQueue ≠ [] ∧ c.writeQueue ≠ [] ∧
    config.writeDrainHighWatermark ≤ c.writeQueue.length ∧
      c.writeQueue.length ≤ config.writeDrainLowWatermark

instance (config : HbmControllerConfig) (c : HbmController) : Decidable (Flips config c) :=
  inferInstanceAs (Decidable (_ ∧ _))

theorem updateWriteDrain_queue (c : HbmController) (w : Bool) :
    (c.updateWriteDrain config).queue w = c.queue w := by
  unfold updateWriteDrain
  split
  · rfl
  · split <;> rfl

/-- The write-drain mode after an update, for a write queue of some length. -/
def drainMode (config : HbmControllerConfig) (length : Nat) (draining : Bool) : Bool :=
  if draining = true ∧ length ≤ config.writeDrainLowWatermark then false
  else if draining = false ∧ length ≠ 0 ∧ length ≥ config.writeDrainHighWatermark then true
  else draining

/-- The next mode is a function of the write queue's length and the mode. -/
theorem updateWriteDrain_mode (c : HbmController) :
    (c.updateWriteDrain config).drainingWrites =
      drainMode config c.writeQueue.length c.drainingWrites := by
  unfold updateWriteDrain drainMode
  simp only [List.length_eq_zero_iff, ne_eq]
  split
  · rfl
  · split <;> rfl

/-- A second update changes the mode only if the length is at both watermarks. -/
theorem drainMode_again {length : Nat} {draining : Bool}
    (changes : drainMode config length (drainMode config length draining) ≠
      drainMode config length draining) :
    length ≠ 0 ∧ config.writeDrainHighWatermark ≤ length ∧
      length ≤ config.writeDrainLowWatermark := by
  by_cases high : length ≠ 0 ∧ length ≥ config.writeDrainHighWatermark
  · by_cases low : length ≤ config.writeDrainLowWatermark
    · exact ⟨high.1, high.2, low⟩
    · refine absurd ?_ changes
      cases draining <;> simp [drainMode, low, high]
  · refine absurd ?_ changes
    cases draining <;> by_cases low : length ≤ config.writeDrainLowWatermark <;>
      simp [drainMode, low, high]

/-- Unless the mode flips, a second update leaves the queue that is served as it is. -/
theorem activeSide_again {c c' : HbmController} (steady : ¬ Flips config c)
    (lengths : ∀ w, (c'.queue w).length = (c.queue w).length)
    (mode : c'.drainingWrites = (c.updateWriteDrain config).drainingWrites) :
    (c'.updateWriteDrain config).activeSide = (c.updateWriteDrain config).activeSide := by
  have empties : ∀ w, (c'.queue w).isEmpty = (c.queue w).isEmpty := by
    intro w
    rw [Bool.eq_iff_iff, List.isEmpty_iff_length_eq_zero, List.isEmpty_iff_length_eq_zero,
      lengths w]
  have again : (c'.updateWriteDrain config).drainingWrites =
      drainMode config c.writeQueue.length (c.updateWriteDrain config).drainingWrites := by
    rw [updateWriteDrain_mode, mode]
    exact congrArg (drainMode config · _) (lengths true)
  unfold activeSide
  simp only [updateWriteDrain_queue, empties]
  rw [again, updateWriteDrain_mode]
  by_cases changes : drainMode config c.writeQueue.length
      (drainMode config c.writeQueue.length c.drainingWrites) =
        drainMode config c.writeQueue.length c.drainingWrites
  · rw [changes]
  · obtain ⟨some, high, low⟩ := drainMode_again changes
    have writes : c.writeQueue ≠ [] := fun none => some (List.length_eq_zero_iff.mpr none)
    have reads : c.readQueue = [] := by
      by_contra reads
      exact steady ⟨reads, writes, high, low⟩
    cases drainMode config c.writeQueue.length c.drainingWrites <;>
      cases drainMode config c.writeQueue.length (drainMode config c.writeQueue.length c.drainingWrites) <;>
      simp [queue, reads, writes]

/-! ### The selection -/

/-- The queues are beside the drain mode. -/
theorem setQueue_drainingWrites (c : HbmController) (w : Bool) (q : List HbmAccess) :
    (c.setQueue w q).drainingWrites = c.drainingWrites := by
  cases w <;> rfl

/-- The state with the write-drain mode updated. -/
def drained (config : HbmControllerConfig) (s : ControllerState) : ControllerState :=
  s.modifyCtl (·.updateWriteDrain config)

theorem drained_queue (s : ControllerState) (w : Bool) :
    (drained config s).ctl.queue w = s.ctl.queue w :=
  updateWriteDrain_queue s.ctl w

/-- A queue is replaced by itself. -/
theorem setQueue_self {c : HbmController} {w : Bool} {q : List HbmAccess} (h : c.queue w = q) :
    c.setQueue w q = c := by
  subst h
  cases w <;> rfl

/-- The state after the candidate loop of `choose_next`. -/
def scanned (config : HbmControllerConfig) (mapper : HbmAddressMapper) (now : Nat)
    (s : ControllerState) : ControllerState :=
  s.modifyCtl (·.setQueue s.ctl.activeSide (scanActive config mapper s.ctl now).1)

theorem scanned_retouched (s : ControllerState) (now : Nat) :
    Retouched config s (scanned config mapper now s) :=
  retouched_setQueue (scanQueue_spec config mapper s.ctl s.ctl.activeSide now 0 _).1

theorem scanned_queue (s : ControllerState) :
    (scanned config mapper now s).ctl.queue s.ctl.activeSide =
      (scanActive config mapper s.ctl now).1 := by
  unfold scanned ControllerState.modifyCtl
  rw [setQueue_queue, if_pos rfl]

section

variable {u : ControllerState} (touched : Retouched config (scanned config mapper now s) u)
  (same : ∀ w, u.ctl.queue w = (scanned config mapper now s).ctl.queue w)
  (side : u.ctl.activeSide = s.ctl.activeSide)

include touched same side

/-- The second scan finds the same candidates. -/
theorem scanActive_again :
    scanActive config mapper u.ctl now = scanActive config mapper s.ctl now := by
  have queue := (same s.ctl.activeSide).trans (scanned_queue s)
  unfold scanActive at queue ⊢
  rw [side, queue]
  exact scanQueue_again ((scanned_retouched s now).trans touched) s.ctl.activeSide 0 _

/-- A choice made again for the same queue is the same and marks nothing. -/
theorem chooseNext_again {chosen : Option Candidate}
    (run : chooseNext config mapper now s = .ok chosen t) :
    t = scanned config mapper now s ∧ chooseNext config mapper now u = .ok chosen u := by
  rw [chooseNext_eq, ofExcept_eq_ok] at run
  obtain ⟨chose, left⟩ := run
  refine ⟨left, ?_⟩
  have queue := (same s.ctl.activeSide).trans (scanned_queue s)
  rw [chooseNext_eq, scanActive_again touched same side, side, ofExcept_eq_ok]
  have kept := setQueue_self queue
  constructor
  · have again : choice config mapper u.ctl now (scanActive config mapper s.ctl now).2 =
        choice config mapper (scanned config mapper now s).ctl now
          (scanActive config mapper s.ctl now).2 := choice_retouched touched same _
    rw [kept, again]
    exact chose
  · exact congrArg (ControllerState.mk · u.stats) kept.symm

end

/-- The scan leaves no access to report. -/
theorem scanned_reported (reported : Reported config now s.ctl) :
    Reported config now (scanned config mapper now s).ctl := by
  intro w a mem
  unfold scanned ControllerState.modifyCtl at mem
  rw [setQueue_queue] at mem
  split at mem
  · exact starving_scanQueue _ _ (reported _) a mem
  · exact reported w a mem

/-- A selection made again at the same instant is the same, and sets no mark except for the
write-drain mode. -/
theorem select_again (steady : ¬ Flips config s.ctl) {chosen : Option Candidate}
    (run : select config mapper now s = .ok chosen t) :
    select config mapper now t = .ok chosen (drained config t) := by
  have starved : Retouched config s _ := updateStarvation_retouched s now
  generalize marked : updateStarvation config s now = u at starved
  have first : chooseNext config mapper now (drained config u) = .ok chosen t := by
    rw [← marked]
    exact run
  have steady : ¬ Flips config u.ctl := by
    unfold Flips at steady ⊢
    have reads : u.ctl.readQueue.length = s.ctl.readQueue.length := starved.length false
    have writes : u.ctl.writeQueue.length = s.ctl.writeQueue.length := starved.length true
    simpa only [ne_eq, ← List.length_eq_zero_iff, reads, writes] using steady
  have scanned_u : Retouched config _ (scanned config mapper now (drained config u)) :=
    scanned_retouched (drained config u) now
  obtain rfl : t = scanned config mapper now (drained config u) := by
    rw [chooseNext_eq, ofExcept_eq_ok] at first
    exact first.2
  have reported : config.starvationThreshold ≠ 0 →
      Reported config now (scanned config mapper now (drained config u)).ctl := by
    intro on
    refine scanned_reported fun w a mem => ?_
    rw [drained_queue, ← marked] at mem
    exact reported_updateStarvation on s now w a mem
  show chooseNext config mapper now (drained config (updateStarvation config _ now)) = _
  rw [updateStarvation_of_reported reported]
  refine (chooseNext_again (updateWriteDrain_retouched _) (drained_queue _) ?_ first).2
  refine activeSide_again steady (fun w => ?_) ?_
  · rw [scanned_u.length w, drained_queue]
  · exact setQueue_drainingWrites _ _ _

/-! ### Driving again -/

theorem maintained_appends (candidate : MaintenanceCandidate) (address : HbmAddress)
    (banks : List HbmBankState) (time : Nat) :
    Appends ⟨candidate.command, address, candidate.localBank, time, none⟩ s
      (maintained config s candidate address banks time) := by
  unfold Appends
  cases final : candidate.finalCommand with
  | false =>
      rw [maintained_prerequisite final]
      rfl
  | true =>
      rw [maintained_final final]
      unfold settleMaintenance
      split <;> rfl

/-- A maintenance command is recorded for no access. -/
theorem MaintenanceStep.appends {candidate : MaintenanceCandidate} {time : Nat}
    (step : MaintenanceStep config mapper now s candidate time t) :
    ∃ r, Appends r s t ∧ r.sequence = none := by
  cases step with
  | @mk _ address banks => exact ⟨_, maintained_appends candidate address banks time, rfl⟩

/-- A drive that records is not silent. -/
theorem Appends.not_silent {r : RecordedCommand} (h : Appends r s t) :
    t.ctl.recorded ≠ s.ctl.recorded := by
  rw [h]
  exact List.cons_ne_self _ _

theorem accountStall_queue (s : ControllerState) (now : Nat) (w : Bool) :
    (accountStall config s now).ctl.queue w = s.ctl.queue w := by
  unfold accountStall
  dsimp only
  split <;> rfl

section

variable {step : HbmControllerStep} (run : drive config mapper now s = .ok step t)

include run

/-- While a refresh blocks the controller a second drive waits as the first did. -/
theorem blocked_again (busy : now < s.ctl.refreshBusyUntil) :
    drive config mapper now t = .ok step t := by
  have starved : Retouched config s _ := updateStarvation_retouched s now
  have stalled : Retouched config _ _ :=
    accountStall_retouched (updateStarvation config s now) now
  rw [drive_blocked busy] at run
  cases run
  have same := stalled.refreshBusyUntil.trans starved.refreshBusyUntil
  have fed : updateStarvation config (accountStall config (updateStarvation config s now) now) now =
      accountStall config (updateStarvation config s now) now := by
    refine updateStarvation_of_reported fun on w a mem => ?_
    rw [accountStall_queue] at mem
    exact reported_updateStarvation on s now w a mem
  rw [drive_blocked (by rw [same]; exact busy), fed, accountStall_again, same]

variable (silent : t.ctl.recorded = s.ctl.recorded)

include silent

/-- A second drive waits for the same maintenance. -/
theorem maintenance_again (wiring : Wiring config mapper) (sound : Sound config mapper s.ctl)
    {m : MaintenanceCandidate} (idle : s.ctl.refreshBusyUntil ≤ now)
    (pending : chooseMaintenance config mapper (updateStarvation config s now).ctl now =
      .ok (some m)) : drive config mapper now t = .ok step t := by
  have starved : Retouched config s _ := updateStarvation_retouched s now
  rw [drive_maintenance idle pending] at run
  by_cases later : m.readyAt > now
  · rw [if_pos later] at run
    cases run
    have fed : updateStarvation config (updateStarvation config s now) now =
        updateStarvation config s now :=
      updateStarvation_of_reported fun on => reported_updateStarvation on s now
    rw [drive_maintenance (Nat.le_trans (Nat.le_of_eq starved.refreshBusyUntil) idle) (fed ▸ pending), fed,
      if_pos later]
    rfl
  · rw [if_neg later] at run
    have ready := Nat.not_lt.mp later
    have plan := chooseMaintenance_some wiring (sound.retouched starved) pending
    have issued : Exits _ (fun _ t => MaintenanceStep config mapper now _ m now t) _ _ :=
      issueMaintenance_exits wiring (sound.retouched starved) plan (Nat.le_refl _) ready (.inl rfl)
        (.inl (Nat.le_refl _))
    cases first : issueMaintenance config mapper m now (updateStarvation config s now) with
    | error e u =>
        rw [bind_of_error first] at run
        cases run
    | ok _ u =>
        obtain ⟨r, appends, -⟩ := (issued.of_ok first).appends
        rw [bind_of_ok first] at run
        cases run
        exact absurd (silent.trans starved.recorded.symm) appends.not_silent

/-- A second drive makes the same choice if the drain mode does not flip. -/
theorem selection_again (sound : Sound config mapper s.ctl)
    (idle : s.ctl.refreshBusyUntil ≤ now) (quiet : s.ctl.Quiet) (steady : ¬ Flips config s.ctl) :
    drive config mapper now t = .ok step (drained config t) := by
  cases selection : select config mapper now s with
  | error e u =>
      rw [drive_of_error idle quiet selection] at run
      cases run
  | ok chosen u =>
      have again := select_again steady selection
      obtain ⟨touched, chosenFor⟩ := (select_exits sound).of_ok selection
      have idle' := Nat.le_trans (Nat.le_of_eq touched.refreshBusyUntil) idle
      have quiet' := touched.quiet.mpr quiet
      cases chosen with
      | none =>
          rw [drive_of_empty idle quiet selection] at run
          cases run
          exact drive_of_empty idle' quiet' again
      | some candidate =>
          by_cases later : now < candidate.readyAt
          · rw [drive_of_later idle quiet selection later] at run
            cases run
            exact drive_of_later idle' quiet' again later
          · have ready := Nat.not_lt.mp later
            obtain ⟨⟨a, access, planned, -⟩, -⟩ := chosenFor
            obtain ⟨bank, appends⟩ := issue_records now access planned
            rw [drive_of_ready idle quiet selection ready] at run
            cases issued : issue config candidate now u with
            | error e v =>
                rw [bind_of_error issued] at run
                cases run
            | ok completed v =>
                rw [issued] at appends
                rw [bind_of_ok issued] at run
                cases run
                exact absurd (silent.trans touched.recorded.symm) appends.not_silent

end

/-- After a `drive` that returns without a command, a second one at the same instant returns
the same step. It changes nothing, except that it may update the write-drain mode. -/
theorem drive_again (wiring : Wiring config mapper) (sound : Sound config mapper s.ctl)
    (steady : s.ctl.refreshBusyUntil ≤ now → s.ctl.Quiet → ¬ Flips config s.ctl)
    {step : HbmControllerStep} (run : drive config mapper now s = .ok step t)
    (silent : t.ctl.recorded = s.ctl.recorded) :
    drive config mapper now t = .ok step t ∨
      drive config mapper now t = .ok step (drained config t) := by
  by_cases busy : now < s.ctl.refreshBusyUntil
  · exact .inl (blocked_again run busy)
  · have starved : Retouched config s _ := updateStarvation_retouched s now
    have idle := Nat.not_lt.mp busy
    by_cases quiet : s.ctl.Quiet
    · exact .inr (selection_again run silent sound idle quiet (steady idle quiet))
    · cases pending : chooseMaintenance config mapper (updateStarvation config s now).ctl now with
      | error e =>
          rw [drive_maintenance_error idle pending] at run
          cases run
      | ok choice =>
          cases choice with
          | some m => exact .inl (maintenance_again run silent wiring sound idle pending)
          | none =>
              have quiet' := chooseMaintenance_none wiring (sound.retouched starved) pending
              exact absurd (starved.quiet.mp quiet') quiet

end HbmController

end HbmSim
