import HbmSim.Controller.Choice

/-!
The choice of a demand command (`choose_next`).

It returns the planned command of a queued access with the command's earliest
time, and nothing only if both queues are empty; a precharge that could issue now
is returned only if no queued access of its bank is waiting for the open row.
Besides, the choice and the statistics of `drive` only touch marks that no
decision reads.
-/

namespace HbmSim

open HbmSim.Lib

/-- An access without its starvation and eligibility marks. -/
def HbmAccess.core (a : HbmAccess) : HbmAccess :=
  { a with starvationReported := false, commandEligible := false, commandEligibleSince := 0 }

@[simp] theorem HbmAccess.core_toLogicalAccess (a : HbmAccess) :
    a.core.toLogicalAccess = a.toLogicalAccess := rfl

@[simp] theorem HbmStats.modifyQueue_id (s : HbmStats) (channel : Nat) :
    s.modifyQueue channel id = s := by
  unfold modifyQueue modifyChannel
  simp

/-- Two updates of a queue's statistics are one. -/
theorem HbmStats.modifyQueue_modifyQueue (s : HbmStats) (channel : Nat)
    (f g : QueueStats → QueueStats) :
    (s.modifyQueue channel f).modifyQueue channel g = s.modifyQueue channel (g ∘ f) := by
  unfold modifyQueue modifyChannel
  congr 1
  funext ch
  by_cases h : ch = channel <;> simp [h]

/-- The states differ in marks of the queued accesses, the drained side, the stall
account and queue statistics at most. -/
structure Retouched (config : HbmControllerConfig) (s t : ControllerState) : Prop where
  ctl : t.ctl = { s.ctl with
    readQueue := t.ctl.readQueue
    writeQueue := t.ctl.writeQueue
    drainingWrites := t.ctl.drainingWrites
    refreshStallAccountedUntil := t.ctl.refreshStallAccountedUntil }
  queue : ∀ w, (t.ctl.queue w).map HbmAccess.core = (s.ctl.queue w).map HbmAccess.core
  stats : ∃ f, (∀ q, (f q).mergedAccesses = q.mergedAccesses) ∧
    t.stats = s.stats.modifyQueue config.channel f

namespace Retouched

variable {config : HbmControllerConfig} {s t u : ControllerState}

theorem refl (s : ControllerState) : Retouched config s s :=
  ⟨rfl, fun _ => rfl, id, fun _ => rfl, by simp⟩

theorem trans (h : Retouched config s t) (h' : Retouched config t u) : Retouched config s u := by
  obtain ⟨f, merged, hf⟩ := h.stats
  obtain ⟨g, merged', hg⟩ := h'.stats
  refine ⟨?_, fun w => (h'.queue w).trans (h.queue w), g ∘ f,
    fun q => (merged' (f q)).trans (merged q), ?_⟩
  · rw [h'.ctl, h.ctl]
  · rw [hg, hf, HbmStats.modifyQueue_modifyQueue]

theorem banks (h : Retouched config s t) : t.ctl.banks = s.ctl.banks := by rw [h.ctl]

theorem recorded (h : Retouched config s t) : t.ctl.recorded = s.ctl.recorded := by rw [h.ctl]

theorem refreshBusyUntil (h : Retouched config s t) :
    t.ctl.refreshBusyUntil = s.ctl.refreshBusyUntil := by
  rw [h.ctl]

theorem quiet (h : Retouched config s t) : t.ctl.Quiet ↔ s.ctl.Quiet := by
  unfold HbmController.Quiet
  rw [h.ctl]

theorem length (h : Retouched config s t) (w : Bool) :
    (t.ctl.queue w).length = (s.ctl.queue w).length := by
  simpa using congrArg List.length (h.queue w)

/-- Every access of the later queue is one of the earlier queue, up to marks. -/
theorem access (h : Retouched config s t) {w : Bool} {i : Nat} {a : HbmAccess}
    (ha : (t.ctl.queue w)[i]? = some a) :
    ∃ b, (s.ctl.queue w)[i]? = some b ∧ b.core = a.core := by
  have := congrArg (·[i]?) (h.queue w)
  simp only [List.getElem?_map, ha, Option.map_some] at this
  cases hb : (s.ctl.queue w)[i]? with
  | none => simp [hb] at this
  | some b => exact ⟨b, rfl, by simpa [hb] using this.symm⟩

/-- Every queued access was there, up to its reports. -/
theorem mem (h : Retouched config s t) {w : Bool} {a : HbmAccess} (ha : a ∈ t.ctl.queue w) :
    ∃ b ∈ s.ctl.queue w, b.core = a.core := by
  obtain ⟨i, hi⟩ := List.mem_iff_getElem?.mp ha
  obtain ⟨b, hb, hcore⟩ := h.access hi
  exact ⟨b, List.mem_of_getElem? hb, hcore⟩

/-- Every access of the earlier queue is one of the later queue, up to marks. -/
theorem mem_later (h : Retouched config s t) {w : Bool} {a : HbmAccess} (ha : a ∈ s.ctl.queue w) :
    ∃ b ∈ t.ctl.queue w, b.core = a.core := by
  have marked : a.core ∈ (t.ctl.queue w).map HbmAccess.core := by
    rw [h.queue w]
    exact List.mem_map_of_mem ha
  exact List.mem_map.mp marked

end Retouched

theorem HbmAccess.logical_of_core {a b : HbmAccess} (h : b.core = a.core) :
    b.toLogicalAccess = a.toLogicalAccess := by
  simpa using congrArg HbmAccess.toLogicalAccess h

/-- The shape of a controller does not depend on marks. -/
theorem Sound.retouched {config : HbmControllerConfig} {mapper : HbmAddressMapper}
    {s t : ControllerState} (sound : Sound config mapper s.ctl) (h : Retouched config s t) :
    Sound config mapper t.ctl := by
  refine ⟨?_, ?_, fun w a ha => ?_, fun w a ha => ?_, ?_, ?_⟩
  · rw [h.banks]
    exact sound.banks
  · rw [h.ctl]
    exact sound.buses
  · obtain ⟨b, hb, hcore⟩ := h.mem ha
    rw [← HbmAccess.logical_of_core hcore]
    exact sound.mapped w b hb
  · obtain ⟨b, hb, hcore⟩ := h.mem ha
    rw [← HbmAccess.logical_of_core hcore]
    exact sound.op w b hb
  · rw [h.banks]
    exact sound.rfm
  · rw [h.ctl]
    exact sound.rotation

namespace HbmController

variable {config : HbmControllerConfig} {mapper : HbmAddressMapper} {c : HbmController}

/-- What the planner wants next for a queued access. -/
structure PlannedFor (config : HbmControllerConfig) (c : HbmController) (a : HbmAccess)
    (k : HbmCommand) : Prop where
  planned : ∃ index bank, localBank config a.address.flatBank = .ok index ∧
    c.banks[index]? = some bank ∧
    HbmCommandPlanner.Planned config.standard a.op a.address.row config.autoPrecharge bank k

/-- The planned command is the one the bank's row asks for. -/
theorem plannedCommand_ok {a : HbmAccess} {k : HbmCommand}
    (run : plannedCommand config c a = .ok k) : PlannedFor config c a k := by
  simp only [plannedCommand, bind_eq_ok, vectorAt_ok] at run
  obtain ⟨index, hindex, bank, hbank, hnext⟩ := run
  obtain ⟨k', hk', planned⟩ := HbmCommandPlanner.next_planned config.standard a.op a.address.row
    bank config.autoPrecharge
  obtain rfl : k' = k := Except.ok.inj (hk'.symm.trans hnext)
  exact ⟨index, bank, hindex, hbank, planned⟩

/-- Planning fails only on a standard that lacks the command. -/
theorem plannedCommand_excused {a : HbmAccess} {e : HbmError}
    (mapped : Mapped config mapper a.address) (hbanks : c.banks.length = config.bankCount)
    (run : plannedCommand config c a = .error e) : Excused config mapper e := by
  simp only [plannedCommand, bind_eq_error] at run
  rcases run with hlocal | ⟨index, hlocal, hbank | ⟨bank, _, hnext⟩⟩
  · refine .inr ⟨localBank_error hlocal, fun regular => ?_⟩
    obtain ⟨i, _, hi⟩ := regular.localBank a.address mapped
    rw [hi] at hlocal
    cases hlocal
  · refine .inr ⟨(vectorAt_error hbank).2, fun regular => ?_⟩
    obtain ⟨i, hlt, hi⟩ := regular.localBank a.address mapped
    obtain rfl : i = index := Except.ok.inj (hi.symm.trans hlocal)
    have := (vectorAt_error hbank).1
    omega
  · obtain ⟨k, hk, -⟩ := HbmCommandPlanner.next_planned config.standard a.op a.address.row bank
      config.autoPrecharge
    rw [hk] at hnext
    cases hnext

/-- An access is planned a precharge, an activation or its data command. -/
theorem PlannedFor.cases {a : HbmAccess} {k : HbmCommand} (h : PlannedFor config c a k) :
    k = .preBank ∨ k = .act ∨
      k = HbmCommandPlanner.requestedCommand a.op config.autoPrecharge := by
  obtain ⟨_, _, _, _, planned⟩ := h.planned
  cases planned with
  | precharge => exact .inl rfl
  | activate => exact .inr (.inl rfl)
  | data => exact .inr (.inr rfl)

/-- What is planned is supported by the device. -/
theorem PlannedFor.supported {a : HbmAccess} {k : HbmCommand} (h : PlannedFor config c a k) :
    supported config k = true := by
  apply supported_of_common
  rcases h.cases with rfl | rfl | rfl
  · rfl
  · rfl
  · unfold HbmCommandPlanner.requestedCommand
    cases a.op <;> cases config.autoPrecharge <;> rfl

/-! ### The candidate loop -/

/-- The candidate of the access at `index` of a queue. -/
structure CandidateOf (config : HbmControllerConfig) (mapper : HbmAddressMapper)
    (c : HbmController) (isWrite : Bool) (now : Nat) (a : HbmAccess) (index : Nat)
    (candidate : SchedulerCandidate) : Prop where
  index : candidate.queueIndex = index
  side : candidate.isWrite = isWrite
  planned : plannedCommand config c a = .ok (toHbmCommand candidate.command)
  ready : earliestCommand config mapper c (toHbmCommand candidate.command) a.address now =
    .ok candidate.readyAt
  sequence : candidate.sequence = a.sequence
  dataCommand : candidate.dataCommand = (toHbmCommand candidate.command).isData
  rowHit : candidate.rowHit = (candidate.dataCommand && !a.activated)
  priority : candidate.requestPriority = a.metadata.priority

theorem markEligible_core (now ready : Nat) (a : HbmAccess) :
    (markEligible now ready a).core = a.core := by
  unfold markEligible
  split
  · rfl
  · split <;> rfl

/-- A candidate is its access with the command planned for it. -/
theorem candidateFor_ok {isWrite : Bool} {now index : Nat} {a a' : HbmAccess}
    {candidate : SchedulerCandidate}
    (run : candidateFor config mapper c isWrite now index a = .ok (a', candidate)) :
    a'.core = a.core ∧ CandidateOf config mapper c isWrite now a index candidate := by
  simp only [candidateFor, bind_eq_ok] at run
  obtain ⟨k, hk, ready, hready, hpair⟩ := run
  cases hpair
  exact ⟨markEligible_core now ready a, rfl, rfl, by simpa using hk, by simpa using hready, rfl,
    by simp, rfl, rfl⟩

/-- No candidate is found only where an exception is excused. -/
theorem candidateFor_excused {isWrite : Bool} {now index : Nat} {a : HbmAccess} {e : HbmError}
    (mapped : Mapped config mapper a.address) (hbanks : c.banks.length = config.bankCount)
    (run : candidateFor config mapper c isWrite now index a = .error e) :
    Excused config mapper e := by
  simp only [candidateFor, bind_eq_error] at run
  rcases run with hk | ⟨k, hk, hready | ⟨ready, _, hpure⟩⟩
  · exact plannedCommand_excused mapped hbanks hk
  · exact (earliestCommand_unplaced (plannedCommand_ok hk).supported hbanks hready).excused
  · cases hpure

/-- The scan yields one candidate for each access, in the order of the queue. -/
theorem scanQueue_spec (config : HbmControllerConfig) (mapper : HbmAddressMapper)
    (c : HbmController) (isWrite : Bool) (now : Nat) :
    ∀ (index : Nat) (q : List HbmAccess),
      (scanQueue config mapper c isWrite now index q).1.map HbmAccess.core =
          q.map HbmAccess.core ∧
        match (scanQueue config mapper c isWrite now index q).2 with
        | .ok candidates => candidates.length = q.length ∧
            ∀ candidate ∈ candidates, ∃ j a, q[j]? = some a ∧
              CandidateOf config mapper c isWrite now a (index + j) candidate
        | .error e => ∃ a ∈ q, ∃ i, candidateFor config mapper c isWrite now i a = .error e
  | index, [] => by simp [scanQueue]
  | index, a :: rest => by
      unfold scanQueue
      cases hfor : candidateFor config mapper c isWrite now index a with
      | error e => exact ⟨rfl, a, List.mem_cons_self, index, hfor⟩
      | ok pair =>
          obtain ⟨a', candidate⟩ := pair
          have first := candidateFor_ok hfor
          have spec := scanQueue_spec config mapper c isWrite now (index + 1) rest
          refine ⟨by simp [spec.1, first.1], ?_⟩
          have later := spec.2
          cases hrest : (scanQueue config mapper c isWrite now (index + 1) rest).2 with
          | error e =>
              simp only [hrest, map_error] at later ⊢
              obtain ⟨b, hb, i, h⟩ := later
              exact ⟨b, List.mem_cons_of_mem _ hb, i, h⟩
          | ok candidates =>
              simp only [hrest, map_ok] at later ⊢
              refine ⟨by simp [later.1], fun candidate' hmem => ?_⟩
              rcases List.mem_cons.mp hmem with rfl | hmem
              · exact ⟨0, a, rfl, first.2⟩
              · obtain ⟨j, b, hb, candidateOf⟩ := later.2 candidate' hmem
                exact ⟨j + 1, b, by simpa using hb, by
                  rwa [show index + (j + 1) = index + 1 + j by omega]⟩

/-! ### The selected candidate -/

/-- The candidate is the planned command of a queued access, at its earliest
time. -/
def Chosen (config : HbmControllerConfig) (mapper : HbmAddressMapper) (c : HbmController)
    (now : Nat) (candidate : Candidate) : Prop :=
  ∃ a, (c.queue candidate.isWrite)[candidate.index]? = some a ∧
    plannedCommand config c a = .ok candidate.command ∧
    earliestCommand config mapper c candidate.command a.address now = .ok candidate.readyAt

/-- No queued access of the bank has a data command planned. -/
def NoneWaits (config : HbmControllerConfig) (c : HbmController) (flatBank : Nat) : Prop :=
  ∀ w, ∀ a ∈ c.queue w, a.address.flatBank = flatBank →
    ∀ k, plannedCommand config c a = .ok k → k.isData = false

/-- The waiting hit is the older of the best so far and the first hit left in the queue. -/
theorem findWaiting_ok {now target : Nat} {w : Bool} {result : Option (Candidate × Nat)} :
    ∀ {index : Nat} {q : List HbmAccess} {waiting : Option (Candidate × Nat)},
      (c.queue w).drop index = q →
      (∀ best, waiting = some best →
        Chosen config mapper c now best.1 ∧ best.1.command.isData = true) →
      findWaiting config mapper c now target w index q waiting = .ok result →
      match result with
      | some best => Chosen config mapper c now best.1 ∧ best.1.command.isData = true
      | none => waiting = none ∧ ∀ a ∈ q, a.address.flatBank = target →
          ∀ k, plannedCommand config c a = .ok k → k.isData = false
  | index, [], waiting, _, hwaiting, run => by
      obtain rfl : waiting = result := Except.ok.inj run
      cases waiting with
      | none => simp
      | some best => exact hwaiting best rfl
  | index, a :: rest, waiting, hdrop, hwaiting, run => by
      have ha : (c.queue w)[index]? = some a := by
        rw [← List.head?_drop, hdrop, List.head?_cons]
      have hrest : (c.queue w).drop (index + 1) = rest := by
        rw [← List.tail_drop, hdrop, List.tail_cons]
      unfold findWaiting at run
      -- an access to another bank is passed over, and so is one that needs no data command yet
      split at run
      · rename_i hother
        have spec := findWaiting_ok hrest hwaiting run
        cases result with
        | some best => exact spec
        | none =>
            refine ⟨spec.1, fun b hb htarget => ?_⟩
            rcases List.mem_cons.mp hb with rfl | hb
            · exact absurd htarget hother
            · exact spec.2 b hb htarget
      · obtain ⟨k, hk, run⟩ := bind_eq_ok.mp run
        cases hdata : k.isData with
        | false =>
            simp only [hdata, Bool.not_false, if_true] at run
            have spec := findWaiting_ok hrest hwaiting run
            cases result with
            | some best => exact spec
            | none =>
                refine ⟨spec.1, fun b hb htarget k' hk' => ?_⟩
                rcases List.mem_cons.mp hb with rfl | hb
                · rw [hk] at hk'
                  cases hk'
                  exact hdata
                · exact spec.2 b hb htarget k' hk'
        | true =>
            simp only [hdata, Bool.not_true, Bool.false_eq_true, if_false] at run
            obtain ⟨ready, hready, run⟩ := bind_eq_ok.mp run
            have current : Chosen config mapper c now ⟨w, index, k, ready, 2⟩ ∧ k.isData = true :=
              ⟨⟨a, ha, hk, hready⟩, hdata⟩
            have spec := findWaiting_ok hrest ?_ run
            · cases result with
              | some best => exact spec
              | none => exact nomatch spec.1
            · rintro best ⟨⟩
              cases waiting with
              | none => exact current
              | some best =>
                  dsimp only
                  split
                  · exact current
                  · exact hwaiting best rfl

/-- The search fails only where an exception is excused. -/
theorem findWaiting_excused {now target : Nat} {w : Bool} {e : HbmError}
    (hbanks : c.banks.length = config.bankCount) :
    ∀ {index : Nat} {q : List HbmAccess} {waiting : Option (Candidate × Nat)},
      (∀ a ∈ q, Mapped config mapper a.address) →
      findWaiting config mapper c now target w index q waiting = .error e →
      Excused config mapper e
  | _, [], _, _, run => nomatch run
  | index, a :: rest, waiting, mapped, run => by
      have mapped' : ∀ b ∈ rest, Mapped config mapper b.address :=
        fun b hb => mapped b (List.mem_cons_of_mem _ hb)
      unfold findWaiting at run
      split at run
      · exact findWaiting_excused hbanks mapped' run
      · rcases bind_eq_error.mp run with hk | ⟨k, hk, run⟩
        · exact plannedCommand_excused (mapped a List.mem_cons_self) hbanks hk
        · split at run
          · exact findWaiting_excused hbanks mapped' run
          · rcases bind_eq_error.mp run with hready | ⟨ready, _, run⟩
            · exact (earliestCommand_unplaced (plannedCommand_ok hk).supported hbanks hready).excused
            · exact findWaiting_excused hbanks mapped' run

/-- A ready precharge closes no row that a queued access waits for. -/
def Yields (config : HbmControllerConfig) (c : HbmController) (now : Nat)
    (candidate : Candidate) : Prop :=
  candidate.readyAt ≤ now → candidate.command = .preBank →
    ∀ a, (c.queue candidate.isWrite)[candidate.index]? = some a →
      NoneWaits config c a.address.flatBank

/-- A precharge that yields gives way to a data command on its bank. -/
theorem yieldPrecharge_ok {now : Nat} {candidate result : Candidate}
    (chosen : Chosen config mapper c now candidate)
    (run : yieldPrecharge config mapper c now candidate = .ok result) :
    Chosen config mapper c now result ∧ Yields config c now result := by
  unfold yieldPrecharge at run
  split at run
  · rename_i hkeep
    cases run
    refine ⟨chosen, fun hready hcommand => ?_⟩
    rcases hkeep with h | h
    · omega
    · exact absurd hcommand h
  · split at run
    · cases run
    · rename_i a ha
      obtain ⟨reads, hreads, run⟩ := bind_eq_ok.mp run
      obtain ⟨waiting, hwaiting, run⟩ := bind_eq_ok.mp run
      have specReads := findWaiting_ok (c := c) (w := false) (q := c.readQueue) rfl (by simp) hreads
      have specWrites := findWaiting_ok (c := c) (w := true) (q := c.writeQueue) rfl
        (show ∀ best, reads = some best → _ by rintro best rfl; exact specReads) hwaiting
      cases waiting with
      | some best =>
          obtain rfl := Except.ok.inj run
          refine ⟨specWrites.1, fun _ hcommand => ?_⟩
          have hdata := specWrites.2
          rw [hcommand] at hdata
          cases hdata
      | none =>
          obtain rfl := Except.ok.inj run
          refine ⟨chosen, fun _ _ b hb w => ?_⟩
          obtain rfl : a = b := Option.some.inj (ha.symm.trans hb)
          cases w with
          | true => exact specWrites.2
          | false =>
              have hnone := specWrites.1
              subst hnone
              exact specReads.2

/-- Yielding fails only where an exception is excused. -/
theorem yieldPrecharge_excused {now : Nat} {candidate : Candidate} {e : HbmError}
    (sound : Sound config mapper c) (chosen : Chosen config mapper c now candidate)
    (run : yieldPrecharge config mapper c now candidate = .error e) :
    Excused config mapper e := by
  unfold yieldPrecharge at run
  split at run
  · cases run
  · obtain ⟨a, ha, -⟩ := chosen
    simp only [ha] at run
    rcases bind_eq_error.mp run with hreads | ⟨reads, _, run⟩
    · exact findWaiting_excused sound.banks (sound.mapped false) hreads
    · rcases bind_eq_error.mp run with hwrites | ⟨writes, _, run⟩
      · exact findWaiting_excused sound.banks (sound.mapped true) hwrites
      · cases run

/-- A scheduler chooses among its candidates. -/
theorem choose_mem {kind : SchedulerKind} {candidates : List SchedulerCandidate} {now : Nat}
    {selected : SchedulerCandidate} (h : kind.choose candidates now = some selected) :
    selected ∈ candidates :=
  minElement_mem h

@[simp] theorem setQueue_queue (c : HbmController) (w w' : Bool) (q : List HbmAccess) :
    (c.setQueue w q).queue w' = if w' = w then q else c.queue w' := by
  cases w <;> cases w' <;> rfl

/-- Writing back a queue whose accesses changed marks only. -/
theorem retouched_setQueue {s : ControllerState} {w : Bool} {q : List HbmAccess}
    (h : q.map HbmAccess.core = (s.ctl.queue w).map HbmAccess.core) :
    Retouched config s (s.modifyCtl (·.setQueue w q)) := by
  refine ⟨?_, fun w' => ?_, id, fun _ => rfl, by simp [ControllerState.modifyCtl]⟩
  · cases w <;> rfl
  · simp only [ControllerState.modifyCtl, setQueue_queue]
    split
    · rename_i hw
      exact hw ▸ h
    · rfl

theorem plannedCommand_congr {c c' : HbmController} {a a' : HbmAccess}
    (hbanks : c'.banks = c.banks) (ha : a'.toLogicalAccess = a.toLogicalAccess) :
    plannedCommand config c' a' = plannedCommand config c a := by
  unfold plannedCommand
  rw [hbanks, ha]

theorem earliestCommand_retouched {s t : ControllerState} (h : Retouched config s t)
    (command : HbmCommand) (address : HbmAddress) (now : Nat) :
    earliestCommand config mapper t.ctl command address now =
      earliestCommand config mapper s.ctl command address now := by
  rw [h.ctl]
  rfl

/-- The candidate still stands after marks have changed. -/
theorem chosen_of_candidateOf {s t : ControllerState} (h : Retouched config s t) {w : Bool}
    {now index : Nat} {a : HbmAccess} {selected : SchedulerCandidate} (priority : Nat)
    (ha : (s.ctl.queue w)[index]? = some a)
    (of : CandidateOf config mapper s.ctl w now a index selected) :
    Chosen config mapper t.ctl now
      ⟨selected.isWrite, selected.queueIndex, toHbmCommand selected.command, selected.readyAt,
        priority⟩ := by
  have hmap := congrArg (·[index]?) (h.queue w)
  simp only [List.getElem?_map, ha, Option.map_some] at hmap
  cases hb : (t.ctl.queue w)[index]? with
  | none => simp [hb] at hmap
  | some b =>
      have hcore : b.core = a.core := by simpa [hb] using hmap
      have hlogical := HbmAccess.logical_of_core hcore
      refine ⟨b, by simpa [of.side, of.index] using hb, ?_, ?_⟩
      · rw [plannedCommand_congr h.banks hlogical]
        exact of.planned
      · rw [earliestCommand_retouched h, hlogical]
        exact of.ready

/-- `choose_next`: a chosen candidate, or nothing to choose from. -/
theorem chooseNext_exits {now : Nat} {s : ControllerState}
    (sound : Sound config mapper s.ctl) :
    Exits (chooseNext config mapper now)
      (fun result t => Retouched config s t ∧
        match result with
        | none => ∀ w, t.ctl.queue w = []
        | some candidate => Chosen config mapper t.ctl now candidate ∧
            Yields config t.ctl now candidate)
      (fun e t => Retouched config s t ∧ Excused config mapper e) s := by
  unfold chooseNext
  have scan := scanQueue_spec config mapper s.ctl s.ctl.activeSide now 0
    (s.ctl.queue s.ctl.activeSide)
  simp only [exits_bind, exits_get, exits_modify, exits_ofExcept]
  have touched : Retouched config s _ := retouched_setQueue scan.1
  refine ⟨fun candidates hcandidates => ?_, fun e he => ⟨touched, ?_⟩⟩
  · have spec := scan.2
    simp only [hcandidates] at spec
    cases hchoose : config.scheduler.choose candidates now with
    | none =>
        simp only [exits_pure]
        refine ⟨touched, ?_⟩
        have hempty : candidates = [] := minElement_eq_none.mp hchoose
        have hlength : (s.ctl.queue s.ctl.activeSide).length = 0 := by simp [← spec.1, hempty]
        have hactive := List.eq_nil_of_length_eq_zero hlength
        intro w
        have := touched.length w
        apply List.eq_nil_of_length_eq_zero
        rw [touched.length w]
        unfold activeSide at hactive
        split at hactive
        · rename_i hdrain
          cases hd : s.ctl.drainingWrites <;> cases w <;> simp_all
        · rename_i hdrain
          simp [hactive] at hdrain
    | some selected =>
        obtain ⟨j, a, ha, of⟩ := spec.2 selected (choose_mem hchoose)
        rw [Nat.zero_add] at of
        have chosen := chosen_of_candidateOf touched
          (if selected.rowHit then 3 else if selected.dataCommand then 2 else 1) ha of
        simp only [exits_bind, exits_get, exits_ofExcept, exits_pure]
        refine ⟨fun result hresult => ⟨touched, yieldPrecharge_ok chosen hresult⟩,
          fun e he => ⟨touched, ?_⟩⟩
        refine yieldPrecharge_excused ?_ chosen he
        exact sound.retouched touched
  · have spec := scan.2
    simp only [he] at spec
    obtain ⟨a, ha, i, hfor⟩ := spec
    exact candidateFor_excused (sound.mapped _ a ha) sound.banks hfor

end HbmController

end HbmSim
