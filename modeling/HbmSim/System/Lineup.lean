import HbmSim.Controller.Yielding
import HbmSim.System.Footprint
import HbmSim.System.Seats

/-!
The line-up of a queue.

The accesses of a queue, and before them those whose data commands have issued from it, form
its line-up. A push adds to its end, and a data command for the oldest access leaves it as it
is; so data commands issue in the order of the pushes as long as nothing is overtaken.
-/

namespace HbmSim

open HbmSim.Lib

/-- The queue a data command issues from: the writes for `true`. -/
def HbmCommand.side? : HbmCommand → Option Bool
  | .read | .readAuto => some false
  | .write | .writeAuto => some true
  | _ => none

/-- The sequence number of a data command of the queue. -/
def RecordedCommand.number? (w : Bool) (r : RecordedCommand) : Option Nat :=
  if r.command.side? = some w then r.sequence else none

/-- A requested command is for the queue of its operation. -/
theorem HbmCommandPlanner.requestedCommand_side (op : HbmOp) (auto : Bool) :
    (requestedCommand op auto).side? = some op.isWrite := by
  cases op <;> cases auto <;> rfl

namespace HbmController

/-- The sequence numbers of the data commands issued from a queue, newest first. -/
def issuedFrom (c : HbmController) (w : Bool) : List Nat := c.recorded.filterMap (·.number? w)

/-- The sequence numbers of the accesses of a queue, youngest first, and of the data commands
issued from it. -/
def lineup (c : HbmController) (w : Bool) : List Nat := (c.sequences w).reverse ++ c.issuedFrom w

/-- The line-ups are the same. -/
structure SameLineup (s t : ControllerState) : Prop where
  same : ∀ w, t.ctl.lineup w = s.ctl.lineup w

instance : Std.Refl SameLineup := ⟨fun _ => ⟨fun _ => rfl⟩⟩

instance : IsTrans ControllerState SameLineup :=
  ⟨fun _ _ _ h h' => ⟨fun w => (h'.same w).trans (h.same w)⟩⟩

variable {config : HbmControllerConfig} {mapper : HbmAddressMapper} {s t u : ControllerState}
  {now : Nat}

theorem SameLineup.of_same (sequences : ∀ w, t.ctl.sequences w = s.ctl.sequences w)
    (issued : ∀ w, t.ctl.issuedFrom w = s.ctl.issuedFrom w) : SameLineup s t where
  same w := by
    unfold lineup
    rw [sequences, issued]

theorem issuedFrom_of_appends {r : RecordedCommand} (h : Appends r s t) (w : Bool) :
    t.ctl.issuedFrom w = (r.number? w).toList ++ s.ctl.issuedFrom w := by
  unfold issuedFrom
  rw [h, List.filterMap_cons]
  cases r.number? w <;> rfl

/-- Recording any other command leaves the line-ups alone. -/
theorem SameLineup.of_appends {r : RecordedCommand}
    (sequences : ∀ w, t.ctl.sequences w = s.ctl.sequences w) (h : Appends r s t)
    (other : ∀ w, r.number? w = none) : SameLineup s t := by
  refine .of_same sequences fun w => ?_
  rw [issuedFrom_of_appends h, other]
  rfl

/-- Maintenance is issued for no access. -/
theorem number?_of_maintenance {r : RecordedCommand} (h : r.sequence = none) (w : Bool) :
    r.number? w = none := by
  unfold RecordedCommand.number?
  rw [h]
  exact ite_self _

theorem footprint_lineup : Footprint config SameLineup where
  members reads writes recorded := by
    refine .of_same (fun w => ?_) fun w => ?_
    · unfold sequences queue
      rw [reads, writes]
    · unfold issuedFrom
      rw [recorded]
  record _ _ maintenance :=
    .of_appends (fun _ => rfl) rfl (number?_of_maintenance maintenance)

/-! ### Steps -/

theorem sequences_of_retouched (h : Retouched config s t) (w : Bool) :
    t.ctl.sequences w = s.ctl.sequences w := by
  have logical := congrArg (List.map LogicalAccess.sequence) (HbmController.Retouched.logical h w)
  rwa [List.map_map, List.map_map] at logical

theorem SameLineup.of_retouched (h : Retouched config s t) : SameLineup s t := by
  refine .of_same (sequences_of_retouched h) fun w => ?_
  unfold issuedFrom
  rw [h.recorded]

/-- Maintenance leaves the line-ups. -/
theorem SameLineup.of_maintenance {candidate : MaintenanceCandidate} {time : Nat}
    (step : MaintenanceStep config mapper now s candidate time t) : SameLineup s t := by
  obtain ⟨r, record, maintenance⟩ := step.appends
  exact .of_appends (ControllerStep.maintain step).sequences record
    (number?_of_maintenance maintenance)

/-- A row command leaves the line-ups. -/
theorem SameLineup.of_row (step : RowStep config mapper now s t) : SameLineup s t := by
  have same := (ControllerStep.row step).sequences
  cases step with
  | @activate w index bank a banks =>
      refine .of_appends (r := ⟨.act, a.address, bank, now, some a.sequence⟩) same ?_ fun _ => rfl
      unfold Appends
      rw [activatedState_ctl]
      rfl
  | @precharge w index bank a _ banks =>
      refine .of_appends (r := ⟨.preBank, a.address, bank, now, some a.sequence⟩) same ?_
        fun _ => rfl
      unfold Appends
      rw [prechargedState_ctl]
      rfl

/-- A data command for the access at the index, which leaves its queue alone. -/
structure Takes (config : HbmControllerConfig) (mapper : HbmAddressMapper) (now : Nat)
    (s : ControllerState) (w : Bool) (index : Nat) (a : HbmAccess) (r : RecordedCommand)
    (t : ControllerState) : Prop where
  demand : Demand config mapper s.ctl now w index a r.command
  data : r.command.isData = true
  number : r.sequence = some a.sequence
  record : Appends r s t
  left : ∀ w', t.ctl.sequences w' =
    if w' = w then (s.ctl.sequences w).eraseIdx index else s.ctl.sequences w'

/-- Without merging a data command takes one access. -/
theorem takeAccesses_solo (solo : config.enableRequestMerging = false) (c : HbmController)
    (w w' : Bool) (index : Nat) (l : HbmAccess) :
    (takeAccesses config c w index l).2.queue w' =
      if w' = w then (c.queue w).eraseIdx index else c.queue w' := by
  cases w with
  | true => simp [takeAccesses]
  | false =>
      have alone : ∀ q, (mergeFollowers config c l q).2 = q := by
        intro q
        unfold mergeFollowers
        split
        · rfl
        · simp [HbmControllerConfig.canMerge, solo]
      simp [takeAccesses, alone]

theorem sequences_of_queue {c c' : HbmController} {w : Bool} {index : Nat}
    (h : ∀ w', c'.queue w' = if w' = w then (c.queue w).eraseIdx index else c.queue w') (w' : Bool) :
    c'.sequences w' = if w' = w then (c.sequences w).eraseIdx index else c.sequences w' := by
  unfold sequences
  rw [h, List.eraseIdx_map]
  split <;> rfl

/-- Without merging a transfer takes its leader alone. -/
theorem DataStep.takes (solo : config.enableRequestMerging = false) {phys : PhysicalAccess}
    (step : DataStep config mapper now s phys t) :
    ∃ w index a r, Takes config mapper now s w index a r t := by
  cases step with
  | @mk w index bank busReady duration a k priority banks slot demand data =>
      refine ⟨w, index, a, ⟨k, a.address, bank, now, some a.sequence⟩, demand, data, rfl, ?_,
        sequences_of_queue fun w' => ?_⟩
      · unfold Appends
        rw [transferredState_ctl]
        rfl
      · rw [transferredState_queue]
        exact takeAccesses_solo solo ..

/-- So does a lost transfer. -/
theorem LostStep.takes (solo : config.enableRequestMerging = false) {lost : List LogicalAccess}
    (step : LostStep config mapper now s lost t) :
    ∃ w index a r, Takes config mapper now s w index a r t := by
  cases step with
  | @mk w index bank a k banks e demand data =>
      refine ⟨w, index, a, ⟨k, a.address, bank, now, some a.sequence⟩, demand, data, rfl, ?_,
        sequences_of_queue fun w' => ?_⟩
      · unfold Appends
        rw [takenState_ctl]
        rfl
      · rw [takenState_queue]
        exact takeAccesses_solo solo ..

/-- The data command planned for an access is one of its queue. -/
theorem plannedCommand_side {c : HbmController} {a : HbmAccess} {k : HbmCommand}
    (planned : plannedCommand config c a = .ok k) (data : k.isData = true) :
    k.side? = some a.op.isWrite := by
  obtain ⟨index, bank, -, -, planned⟩ := (plannedCommand_ok planned).planned
  cases planned with
  | precharge => cases data
  | activate => cases data
  | data => exact HbmCommandPlanner.requestedCommand_side _ _

/-- A data command is of the queue of its access. -/
theorem Takes.side {w : Bool} {index : Nat} {a : HbmAccess} {r : RecordedCommand}
    (sound : Sound config mapper s.ctl) (h : Takes config mapper now s w index a r t) :
    r.command.side? = some w := by
  have op := sound.op w a (List.mem_of_getElem? h.demand.access)
  have write : a.op.isWrite = w := by
    rw [op]
    cases w <;> rfl
  rw [← write]
  exact plannedCommand_side h.demand.planned h.data

/-- A data command for the oldest access leaves the line-ups alone. -/
theorem SameLineup.of_takes {w : Bool} {a : HbmAccess} {r : RecordedCommand}
    (sound : Sound config mapper s.ctl) (h : Takes config mapper now s w 0 a r t) :
    SameLineup s t where
  same w' := by
    have side := h.side sound
    obtain ⟨rest, queue⟩ : ∃ rest, s.ctl.queue w = a :: rest := by
      have head := h.demand.access
      cases queue : s.ctl.queue w with
      | nil =>
          rw [queue] at head
          cases head
      | cons b rest =>
          rw [queue] at head
          exact ⟨rest, congrArg (· :: rest) (Option.some.inj head)⟩
    have line : s.ctl.sequences w = a.sequence :: rest.map (·.sequence) := by
      unfold sequences
      rw [queue]
      rfl
    unfold lineup
    rw [h.left, issuedFrom_of_appends h.record]
    unfold RecordedCommand.number?
    rw [side]
    by_cases own : w' = w
    · subst own
      rw [if_pos rfl, if_pos rfl, line, h.number, List.reverse_cons, List.append_assoc]
      rfl
    · rw [if_neg own, if_neg fun same => own (Option.some.inj same).symm]
      rfl

/-! ### First in, first out -/

/-- The queue `drive` asks the scheduler to choose from. -/
def servedSide (config : HbmControllerConfig) (c : HbmController) : Bool :=
  (c.updateWriteDrain config).activeSide

/-- At `now` the oldest access `a` of the served queue has a precharge ready, but another access
waits for the row and its data command goes first: `b`, which is not the oldest of its queue. -/
structure Overtaking (config : HbmControllerConfig) (mapper : HbmAddressMapper)
    (c : HbmController) (now : Nat) (a b : HbmAccess) (w : Bool) (index : Nat) : Prop where
  idle : c.refreshBusyUntil ≤ now
  quiet : c.Quiet
  bounded : ∀ x ∈ c.queue (servedSide config c), ∃ k time,
    plannedCommand config c x = .ok k ∧ earliestCommand config mapper c k x.address now = .ok time
  oldest : (c.queue (servedSide config c))[0]? = some a
  precharge : plannedCommand config c a = .ok .preBank
  ready : ∃ time ≤ now, earliestCommand config mapper c .preBank a.address now = .ok time
  first : FirstData config mapper c now a.address.flatBank (c.readQueue ++ c.writeQueue) b now
  place : (c.queue w)[index]? = some b
  younger : index ≠ 0

/-- A data command overtakes an older access of its queue. -/
def Overtakes (config : HbmControllerConfig) (mapper : HbmAddressMapper) (c : HbmController)
    (now : Nat) : Prop := ∃ a b w index, Overtaking config mapper c now a b w index

/-- The side served is the one the drain mode selects. -/
theorem servedSide_drained (s : ControllerState) (now : Nat) :
    (drained config (updateStarvation config s now)).ctl.activeSide =
      servedSide config s.ctl := by
  have mode : (updateStarvation config s now).ctl.drainingWrites = s.ctl.drainingWrites := by
    unfold updateStarvation
    split <;> rfl
  have starved : Retouched config s (updateStarvation config s now) :=
    updateStarvation_retouched s now
  have lengths := starved.length
  have empties : ∀ w, ((updateStarvation config s now).ctl.queue w).isEmpty =
      (s.ctl.queue w).isEmpty := by
    intro w
    rw [Bool.eq_iff_iff, List.isEmpty_iff_length_eq_zero, List.isEmpty_iff_length_eq_zero,
      lengths w]
  have writes : (updateStarvation config s now).ctl.writeQueue.length = s.ctl.writeQueue.length :=
    lengths true
  unfold servedSide drained ControllerState.modifyCtl activeSide
  simp only [updateWriteDrain_queue, updateWriteDrain_mode, empties, mode, writes]

/-- What goes first after marks have changed went first before. -/
theorem FirstData.retouched (h : Retouched config s t) {bank ready index : Nat} {w : Bool}
    {b : HbmAccess} (place : (t.ctl.queue w)[index]? = some b)
    (first : FirstData config mapper t.ctl now bank (t.ctl.readQueue ++ t.ctl.writeQueue) b ready) :
    ∃ b', (s.ctl.queue w)[index]? = some b' ∧
      FirstData config mapper s.ctl now bank (s.ctl.readQueue ++ s.ctl.writeQueue) b' ready := by
  have waits : ∀ {x y : HbmAccess} {k : HbmCommand}, x.core = y.core →
      WaitsForRow config s.ctl bank x k → WaitsForRow config t.ctl bank y k := by
    intro x y k core waits
    have logical := HbmAccess.logical_of_core core
    refine ⟨logical ▸ waits.bank, ?_, waits.data⟩
    rw [plannedCommand_congr h.banks logical.symm]
    exact waits.planned
  have mem : ∀ {x}, x ∈ s.ctl.readQueue ++ s.ctl.writeQueue →
      ∃ y ∈ t.ctl.readQueue ++ t.ctl.writeQueue, x.core = y.core := by
    intro x hx
    rcases List.mem_append.mp hx with hx | hx
    · obtain ⟨y, hy, core⟩ := h.mem_later (w := false) hx
      exact ⟨y, List.mem_append_left _ hy, core.symm⟩
    · obtain ⟨y, hy, core⟩ := h.mem_later (w := true) hx
      exact ⟨y, List.mem_append_right _ hy, core.symm⟩
  obtain ⟨b', place', core⟩ := h.access place
  have logical := HbmAccess.logical_of_core core
  refine ⟨b', place', ?_, ?_, fun x hx k waiting => ?_⟩
  · have own := List.mem_of_getElem? place'
    cases w with
    | false => exact List.mem_append_left _ own
    | true => exact List.mem_append_right _ own
  · obtain ⟨k, waiting, run⟩ := first.attained
    refine ⟨k, ⟨logical ▸ waiting.bank, ?_, waiting.data⟩, ?_⟩
    · rw [← plannedCommand_congr h.banks logical.symm]
      exact waiting.planned
    · rw [logical, ← earliestCommand_retouched h]
      exact run
  · obtain ⟨y, hy, same⟩ := mem hx
    obtain ⟨time, run, order⟩ := first.first y hy k (waits same waiting)
    have alike := HbmAccess.logical_of_core same
    refine ⟨time, ?_, ?_⟩
    · rw [alike, ← earliestCommand_retouched h]
      exact run
    · rw [logical, alike]
      exact order

/-- First in, first out: the scheduler picks the oldest access of the queue. -/
theorem fifo_picks (fifo : config.scheduler = .fifo)
    (sorted : ∀ w, (s.ctl.sequences w).Pairwise (· < ·)) {candidates : List SchedulerCandidate}
    {selected : SchedulerCandidate} (offer : offered config mapper now s = .ok candidates)
    (picked : config.scheduler.choose candidates now = some selected) :
    selected.queueIndex = 0 := by
  let u := drained config (updateStarvation config s now)
  have line : u.ctl.sequences u.ctl.activeSide = s.ctl.sequences u.ctl.activeSide :=
    sequences_of_retouched ((updateStarvation_retouched s now).trans (updateWriteDrain_retouched _)) _
  obtain ⟨j, a, place, of⟩ := offered_of offer (choose_mem picked)
  rw [of.index]
  cases j with
  | zero => rfl
  | succ j =>
      exfalso
      -- the candidate of the head has a smaller sequence number
      obtain ⟨h, rest, queue⟩ := List.exists_cons_of_ne_nil (List.ne_nil_of_mem
        (List.mem_of_getElem? place))
      have head : h ∈ u.ctl.queue u.ctl.activeSide := by
        rw [queue]
        exact List.mem_cons_self
      obtain ⟨other, mem, i, of'⟩ := scanQueue_mem offer head
      have least : selected.sequence ≤ other.sequence := by
        unfold SchedulerKind.choose at picked
        rw [fifo] at picked
        exact minElement_le (·.sequence) (fun _ _ => rfl) picked mem
      rw [of.sequence, of'.sequence] at least
      have order := sorted u.ctl.activeSide
      rw [← line] at order
      unfold sequences at order
      rw [queue, List.map_cons, List.pairwise_cons] at order
      rw [queue, List.getElem?_cons_succ] at place
      have later := order.1 a.sequence (List.mem_map_of_mem (List.mem_of_getElem? place))
      omega

/-- The scheduler picks from the served queue. -/
theorem picked_side {candidates : List SchedulerCandidate} {selected : SchedulerCandidate}
    (offer : offered config mapper now s = .ok candidates)
    (picked : config.scheduler.choose candidates now = some selected) :
    selected.isWrite = servedSide config s.ctl := by
  obtain ⟨j, a, -, of⟩ := offered_of offer (choose_mem picked)
  rw [of.side, servedSide_drained]

/-- A scheduler is asked only if no time overflows. -/
theorem bounded_of_offer {candidates : List SchedulerCandidate}
    (offer : offered config mapper now s = .ok candidates) {x : HbmAccess}
    (hx : x ∈ s.ctl.queue (servedSide config s.ctl)) : ∃ k time,
      plannedCommand config s.ctl x = .ok k ∧
        earliestCommand config mapper s.ctl k x.address now = .ok time := by
  have touched : Retouched config s (drained config (updateStarvation config s now)) :=
    (updateStarvation_retouched s now).trans (updateWriteDrain_retouched _)
  obtain ⟨y, hy, core⟩ := touched.mem_later hx
  have logical := HbmAccess.logical_of_core core
  rw [← servedSide_drained s now] at hy
  obtain ⟨candidate, -, i, of⟩ := scanQueue_mem offer hy
  refine ⟨toHbmCommand candidate.command, candidate.readyAt, ?_, ?_⟩
  · rw [← plannedCommand_congr touched.banks logical]
    exact of.planned
  · rw [← logical, ← earliestCommand_retouched touched]
    exact of.ready

/-- A ready data command is the one of the oldest access, or it overtakes. -/
theorem oldest_or_overtakes (fifo : config.scheduler = .fifo)
    (sorted : ∀ w, (s.ctl.sequences w).Pairwise (· < ·)) (idle : s.ctl.refreshBusyUntil ≤ now)
    (quiet : s.ctl.Quiet) {candidate : Candidate}
    (run : select config mapper now s = .ok (some candidate) t)
    (ready : candidate.readyAt ≤ now) (data : candidate.command.isData = true) :
    candidate.index = 0 ∨ Overtakes config mapper s.ctl now := by
  rw [select_eq, ofExcept_eq_ok] at run
  obtain ⟨chose, rfl⟩ := run
  unfold choice at chose
  simp only [bind_eq_ok] at chose
  obtain ⟨candidates, offer, chose⟩ := chose
  cases picked : config.scheduler.choose candidates now with
  | none =>
      rw [picked] at chose
      cases chose
  | some selected =>
      rw [picked] at chose
      simp only [bind_eq_ok] at chose
      obtain ⟨result, yields, chosen⟩ := chose
      cases chosen
      -- FIFO picks the head of the queue; only a precharge can yield to a younger access
      have head := fifo_picks fifo sorted offer picked
      have touched : Retouched config s (considered config mapper now s) :=
        considered_retouched s now
      obtain ⟨a, access, planned, run⟩ := chosen_of_picked offer picked
      by_cases gives : (ofScheduler selected).readyAt > now ∨
        (ofScheduler selected).command ≠ .preBank
      · left
        unfold yieldPrecharge at yields
        rw [if_pos gives] at yields
        cases yields
        exact head
      · rw [not_or, not_not, not_lt] at gives
        obtain ⟨due, pre⟩ := gives
        rw [pre] at planned run
        rcases yieldPrecharge_found mapper access planned pre due with
          ⟨waiting, found, yielded⟩ | ⟨-, -, -, e, -, -, yielded⟩
        · rw [yielded] at yields
          cases waiting with
          | none =>
              cases yields
              exact .inl head
          | some best =>
              cases yields
              obtain ⟨b, first, -, place⟩ := found
              have at_now : best.1.readyAt = now := by
                obtain ⟨k, -, at_⟩ := first.attained
                exact Nat.le_antisymm ready (earliestCommand_ok at_).1
              rw [at_now] at first
              by_cases younger : best.1.index = 0
              · exact .inl younger
              · right
                obtain ⟨b', place', first'⟩ := first.retouched touched place
                obtain ⟨a', oldest, core⟩ := touched.access access
                have logical := HbmAccess.logical_of_core core
                refine ⟨a', b', best.1.isWrite, best.1.index, idle, quiet, fun x hx => ?_, ?_, ?_,
                  ⟨selected.readyAt, due, ?_⟩, ?_, place', younger⟩
                · exact bounded_of_offer offer hx
                · have served : (s.ctl.queue selected.isWrite)[selected.queueIndex]? = some a' :=
                    oldest
                  rwa [head, picked_side offer picked] at served
                · rw [← planned]
                  exact (plannedCommand_congr touched.banks logical.symm).symm
                · rw [logical, ← earliestCommand_retouched touched]
                  exact run
                · rw [logical]
                  exact first'
        · rw [yielded] at yields
          cases yields

/-- The least of a sorted list stands first only. -/
theorem sorted_index {xs : List Nat} (sorted : xs.Pairwise (· < ·)) {i n : Nat}
    (first : xs[0]? = some n) (later : xs[i]? = some n) : i = 0 := by
  obtain ⟨bound, rfl⟩ := List.getElem?_eq_some_iff.mp first
  obtain ⟨bound', same⟩ := List.getElem?_eq_some_iff.mp later
  by_contra positive
  have less := List.pairwise_iff_getElem.mp sorted 0 i bound bound' (Nat.pos_of_ne_zero positive)
  omega

/-- Without merging a first-in, first-out controller that overtakes nothing takes the oldest
access of a queue. -/
theorem Takes.oldest (fifo : config.scheduler = .fifo) (sound : Sound config mapper s.ctl)
    (sorted : ∀ w, (s.ctl.sequences w).Pairwise (· < ·))
    (orderly : ¬ Overtakes config mapper s.ctl now) (touched : Retouched config s u) {w : Bool}
    {index : Nat} {a : HbmAccess} {r : RecordedCommand}
    (takes : Takes config mapper now u w index a r t)
    (left : exitState (drive config mapper now s) = t) : index = 0 := by
  have idle : s.ctl.refreshBusyUntil ≤ now := touched.refreshBusyUntil ▸ takes.demand.idle
  have quiet : s.ctl.Quiet := touched.quiet.mp takes.demand.quiet
  have recorded : t.ctl.recorded = r :: s.ctl.recorded := by
    rw [← touched.recorded]
    exact takes.record
  have loud : ∀ v, Retouched config s v → exitState (drive config mapper now s) ≠ v := by
    rintro v silent rfl
    rw [left] at silent
    exact List.cons_ne_self _ _ (recorded.symm.trans silent.recorded)
  cases run : select config mapper now s with
  | error e v =>
      have silent := ((select_exits sound).of_error run).1
      exact absurd (congrArg exitState (drive_of_error idle quiet run)) (loud v silent)
  | ok choice v =>
      have selected := (select_exits sound).of_ok run
      cases choice with
      | none =>
          exact absurd (congrArg exitState (drive_of_empty idle quiet run)) (loud v selected.1)
      | some candidate =>
          obtain ⟨silent, ⟨a', access, planned, -⟩, -⟩ := selected
          by_cases later : now < candidate.readyAt
          · exact absurd (congrArg exitState (drive_of_later idle quiet run later)) (loud v silent)
          · have ready := Nat.not_lt.mp later
            obtain ⟨bank, issued⟩ := issues_of_selected silent idle quiet run access planned ready
            rw [left] at issued
            -- the command taken is the one selected
            obtain rfl : _ = r := (List.cons.inj (issued.symm.trans recorded)).1
            have data : candidate.command.isData = true := takes.data
            have first := (oldest_or_overtakes fifo sorted idle quiet run ready data).resolve_right
              orderly
            have side := takes.side (sound.retouched touched)
            have op := (sound.retouched silent).op _ a' (List.mem_of_getElem? access)
            have write : a'.op.isWrite = candidate.isWrite := by
              rw [op]
              cases candidate.isWrite <;> rfl
            obtain rfl : candidate.isWrite = w := by
              rw [plannedCommand_side planned data, write] at side
              exact Option.some.inj side
            have head : (s.ctl.sequences candidate.isWrite)[0]? = some a.sequence := by
              rw [← Option.some.inj takes.number, ← sequences_of_retouched silent, ← first]
              exact (List.getElem?_map ..).trans (congrArg _ access)
            have own : (s.ctl.sequences candidate.isWrite)[index]? = some a.sequence := by
              rw [← sequences_of_retouched touched]
              exact (List.getElem?_map ..).trans (congrArg _ takes.demand.access)
            exact sorted_index (sorted _) head own

/-- Driving a first-in, first-out controller leaves its line-ups alone. -/
theorem drive_lineup (fifo : config.scheduler = .fifo)
    (solo : config.enableRequestMerging = false) (wiring : Wiring config mapper)
    (sound : Sound config mapper s.ctl) (sorted : ∀ w, (s.ctl.sequences w).Pairwise (· < ·))
    (orderly : ¬ Overtakes config mapper s.ctl now) :
    SameLineup s (exitState (drive config mapper now s)) := by
  have taken : ∀ {u t w index a r}, Retouched config s u → Takes config mapper now u w index a r t →
      exitState (drive config mapper now s) = t → SameLineup s t := by
    intro u t w index a r touched takes left
    obtain rfl := takes.oldest fifo sound sorted orderly touched left
    exact IsTrans.trans _ _ _ (.of_retouched touched)
      (SameLineup.of_takes (sound.retouched touched) takes)
  have exits : Exits (drive config mapper now) _ _ s := drive_exits wiring sound
  cases run : drive config mapper now s with
  | ok step t =>
      cases exits.of_ok run with
      | blocked touched => exact .of_retouched touched
      | maintenanceWaits touched => exact .of_retouched touched
      | maintained touched _ step =>
          exact IsTrans.trans _ _ _ (.of_retouched touched) (SameLineup.of_maintenance step)
      | empty touched => exact .of_retouched touched
      | waits touched => exact .of_retouched touched
      | row touched step =>
          exact IsTrans.trans _ _ _ (.of_retouched touched) (SameLineup.of_row step)
      | data touched step =>
          obtain ⟨w, index, a, r, takes⟩ := step.takes solo
          exact taken touched takes (congrArg exitState run)
  | error e t =>
      rcases exits.of_error run with ⟨-, u, lost, touched, step⟩ | ⟨touched, -⟩
      · obtain ⟨w, index, a, r, takes⟩ := step.takes solo
        exact taken touched takes (congrArg exitState run)
      · exact .of_retouched touched

end HbmController

end HbmSim
