import HbmSim.Guarantees.Completion
import HbmSim.System.Counters
import HbmSim.System.Provenance
import HbmSim.System.Running

/-!
An RFM threshold of one.

Every ACT reaches the threshold, so a bank is open only while its RFM is pending, and the RFM
is chosen before any data command. With a threshold of one, which `validate` admits, no data
command ever issues: no accepted transaction is completed, and `run()` does not return.
-/

namespace HbmSim

open HbmSim.Lib HbmSystem

/-- Every open bank waits for its RFM. -/
def HbmController.Owing (c : HbmController) : Prop :=
  ∀ (i : Nat) b row, c.banks[i]? = some b → b.openRow = some row → b.rfmPending = true

/-- Nothing has been transferred, and every accepted transaction is still active. -/
structure Starved (s : HbmSystem) : Prop where
  data : s.stats.readCommands + s.stats.writeCommands = 0
  transfers : s.stats.physicalAccesses = 0
  uncompleted : ∀ ticket, ¬ Completed s.trace ticket
  active : ∀ ticket tx at_, .accepted ticket tx at_ ∈ s.trace → ∃ p ∈ s.parents, p.ticket = ticket

namespace HbmController

variable {config : HbmControllerConfig} {mapper : HbmAddressMapper} {s t : ControllerState}
  {c c' : HbmController} {now : Nat} {exempt : Prop}

theorem Owing.frame (h : c.Owing) (length : c'.banks.length = c.banks.length)
    (same : ∀ (i : Nat) b b', c.banks[i]? = some b → c'.banks[i]? = some b' →
      b'.openRow = none ∨ b'.openRow = b.openRow ∧ b'.rfmPending = b.rfmPending) : c'.Owing := by
  intro i b' row hb' opened
  obtain ⟨b, hb⟩ : ∃ b, c.banks[i]? = some b :=
    ⟨_, List.getElem?_eq_getElem (length ▸ (List.getElem?_eq_some_iff.mp hb').1)⟩
  rcases same i b b' hb hb' with closed | ⟨row_, pending⟩
  · cases closed.symm.trans opened
  · rw [pending]
    exact h i b row hb (row_.symm.trans opened)

/-- While every open bank waits for its RFM no data command is chosen. -/
theorem Owing.not_data (h : c.Owing) {w : Bool} {index : Nat} {a : HbmAccess} {k : HbmCommand}
    (demand : Demand config mapper c now w index a k) : k.isData = false := by
  obtain ⟨i, b, -, hb, planned⟩ := (plannedCommand_ok demand.planned).planned
  by_contra data
  have opened := Planned.opened planned (by simpa using data)
  have pending := h i b _ hb opened
  have settled := (demand.quiet.2 b (List.mem_of_getElem? hb)).1
  cases settled.symm.trans pending

theorem Owing.entry (on : config.enableRfm = true) (one : config.rfmActivationThreshold = 1)
    (h : s.ctl.Owing) (entry : Entry config mapper now exempt s t) : t.ctl.Owing := by
  cases entry with
  | silent _ _ _ banks =>
      refine h.frame (by rw [banks]) fun i b b' hb hb' => .inr ?_
      rw [banks, hb] at hb'
      obtain rfl := Option.some.inj hb'
      exact ⟨rfl, rfl⟩
  | raise due _ _ _ after =>
      rw [after]
      show (s.ctl.raise config due).Owing
      unfold HbmController.raise
      split
      · exact h
      · refine h.frame (List.length_modify ..) fun i b b' hb hb' => .inr ?_
        obtain ⟨b₁, hb₁, rfl⟩ := modify_bank hb'
        obtain rfl := Option.some.inj (hb.symm.trans hb₁)
        split <;> exact ⟨rfl, rfl⟩
  | advance base _ _ _ after =>
      rw [after]
      exact h
  | @maintain candidate r step records =>
      refine h.frame records.banks fun i b b' hb hb' => ?_
      have change := step.banks.2 i b b' hb hb'
      split at change
      · exact .inl change.openRow
      · rw [change]
        exact .inr ⟨rfl, rfl⟩
  | @demand w index a r demand records _ _ _ _ _ flags =>
      intro i b' row hb' opened
      obtain ⟨b, hb⟩ : ∃ b, s.ctl.banks[i]? = some b :=
        ⟨_, List.getElem?_eq_getElem (records.banks ▸ (List.getElem?_eq_some_iff.mp hb').1)⟩
      have row_ := records.rows i b b' hb hb'
      have same := flags i b b' hb hb'
      by_cases act : r.command = .act ∧ i = r.bank
      · rw [if_pos act] at same
        rw [same.rfmPending]
        unfold noteActivation
        rw [if_pos (by simp [on, one])]
      · rw [if_neg act] at same
        rw [same.rfmPending]
        refine h i b row hb ?_
        by_cases covers : r.covers i
        · -- a precharge of this bank would have left it closed, and there is no data command
          rw [if_pos covers] at row_
          have data := h.not_data demand
          rcases (plannedCommand_ok demand.planned).cases with kind | kind | kind
          · rw [kind] at row_
            cases row_.symm.trans opened
          · rw [RecordedCommand.covers, kind] at covers
            exact absurd ⟨kind, covers.resolve_left Bool.false_ne_true⟩ act
          · rw [kind, HbmCommandPlanner.requestedCommand_isData] at data
            cases data
        · rw [if_neg covers] at row_
          exact row_.symm.trans opened

end HbmController

section

open HbmController

variable {cfg : HbmConfig} {s t : HbmSystem} {d : Debts}

variable (checked : cfg.Checked) (on : cfg.controller.enableRfm = true)
  (one : cfg.controller.rfmActivationThreshold = 1)

include checked on one

/-- In every state of a run every open bank waits, and no data command has been recorded. -/
theorem HbmSystem.Run.owing (run : Run cfg (s, d)) (channel : Nat) :
    (s.controllers channel).Owing ∧ (s.controllers channel).recordedCount HbmCommand.isData =
      0 := by
  refine run.entries checked channel
    (P := fun _ _ s => s.ctl.Owing ∧ s.ctl.recordedCount HbmCommand.isData = 0) ?_ (fun _ _ h => h)
    fun _ h entry => ⟨h.1.entry on one entry, ?_⟩
  · refine ⟨fun i b row hb opened => ?_, rfl⟩
    obtain rfl := List.eq_of_mem_replicate (List.mem_of_getElem? hb)
    cases opened
  · obtain ⟨owing, none⟩ := h
    cases entry with
    | silent record =>
        unfold recordedCount
        rw [record.recorded]
        exact none
    | raise due _ _ _ after =>
        rw [after]
        show (HbmController.raise _ _ due).recordedCount _ = 0
        unfold recordedCount
        rw [raise_frame]
        exact none
    | advance base _ _ _ after =>
        rw [after]
        exact none
    | maintain step records command =>
        obtain ⟨cursor, plan⟩ := step.plan
        rw [recordedCount_cons records.recorded_cons, none, command, plan.no_demand.1]
        rfl
    | demand demand records =>
        rw [recordedCount_cons records.recorded_cons, none, owing.not_data demand]
        rfl

theorem HbmSystem.Run.starved (run : Run cfg (s, d)) (alive : d.escaped = false) : Starved s := by
  have count : ∀ channel, (s.controllers channel).recordedCount HbmCommand.isData = 0 :=
    fun channel => (run.owing checked on one channel).2
  have unissued : ∀ channel physical at_, .issued channel physical at_ ∉ s.trace := by
    intro channel physical at_ mem
    obtain ⟨s, d, t, run, -, step, -⟩ := run.issuing channel physical at_ mem
    have owing := (run.owing checked on one channel).1
    cases step with
    | mk demand data => cases (owing.not_data demand).symm.trans data
  have uncompleted : ∀ ticket, ¬ Completed s.trace ticket := by
    rintro ticket ⟨completion, at_, mem⟩
    obtain ⟨-, access, finished, -⟩ := (run.reported checked).completed ticket completion at_ mem
    obtain ⟨physical, at_, issued, -⟩ := run.sourced.finished _ _ _ _ finished
    exact unissued _ _ _ issued
  have counted : s.stats.readCommands + s.stats.writeCommands = s.total cfg (countedOn .data) :=
    run.counted .data
  have data : s.stats.readCommands + s.stats.writeCommands = 0 :=
    counted.trans (Finset.sum_eq_zero fun channel _ => count channel)
  constructor
  case data => exact data
  case transfers =>
    have conserved := (run.conserved checked).resolve_left (by simp [alive])
    exact conserved.data.symm.trans data
  case uncompleted => exact uncompleted
  case active =>
    intro ticket tx at_ mem
    rcases (run.accounted checked).family.settled ticket tx at_ mem with active | completed
    · exact active
    · exact absurd completed (uncompleted ticket)

end

section

variable {cfg : HbmConfig} {s t : HbmSystem}

/-- Where `run()` gets to, a run gets to: no event is left when it has returned, and what has been
observed stays observed. -/
theorem run_returns (reached : Reachable cfg NoEscape s) (fuel : Nat) :
    Exits (HbmSystem.run cfg fuel)
      (fun returned t => Reachable cfg NoEscape t ∧ Grows s t ∧
        (returned = true → t.scheduler.events = []))
      (fun _ _ => True) s := by
  induction fuel generalizing s with
  | zero =>
      unfold HbmSystem.run
      simp only [exits_bind, exits_get, exits_pure]
      exact ⟨reached, List.suffix_rfl, fun empty => List.isEmpty_iff.mp empty⟩
  | succ fuel ih =>
      unfold HbmSystem.run
      simp only [exits_bind, exits_get, exits_ite, exits_pure]
      refine ⟨fun empty => ⟨reached, List.suffix_rfl, fun _ => List.isEmpty_iff.mp empty⟩,
        fun _ => ?_⟩
      have grows : Stays Grows (perform cfg (.dispatch [])) := perform_grows (.dispatch [])
      have more := grows.exits s
      unfold Exits at more ⊢
      cases performed : perform cfg (.dispatch []) s with
      | error e t => trivial
      | ok _ t =>
          rw [performed] at more
          exact (ih (.perform _ reached performed)).mono
            (fun _ _ h => ⟨h.1, List.IsSuffix.trans more h.2.1, h.2.2⟩) fun _ _ h => h

/-- With RFM at every activation every state of a run is starved. -/
theorem HbmSystem.Reachable.starved (reached : Reachable cfg NoEscape s)
    (on : cfg.controller.enableRfm = true) (one : cfg.controller.rfmActivationThreshold = 1) :
    Starved s := by
  obtain ⟨checked, -, d, run, alive, -⟩ := reached.settled
  exact run.starved checked on one alive

/-- So `run()` returns only if nothing has been accepted. -/
theorem unaccepted_of_returned (reached : Reachable cfg NoEscape s)
    (on : cfg.controller.enableRfm = true) (one : cfg.controller.rfmActivationThreshold = 1)
    {fuel : Nat} (returned : HbmSystem.run cfg fuel s = .ok true t) (ticket : Nat)
    (tx : HbmTransaction) (at_ : Nat) : .accepted ticket tx at_ ∉ t.trace := by
  intro mem
  obtain ⟨after, -, left⟩ := (run_returns reached fuel).of_ok returned
  have empty := left rfl
  have quiet : t.systemEvents = [] := by
    unfold systemEvents
    rw [empty]
    rfl
  obtain ⟨checked, -, d, run, alive, settled, finishing⟩ := after.settled
  obtain ⟨p, hp, -⟩ := (after.starved on one).active ticket tx at_ mem
  rw [parents_of_quiet checked run alive settled quiet finishing] at hp
  cases hp

/-- With RFM at every activation nothing is transferred in any run, and `run()` returns only if
nothing has been accepted. -/
theorem rfm_starves (reached : Reachable cfg NoEscape s) (on : cfg.controller.enableRfm = true)
    (one : cfg.controller.rfmActivationThreshold = 1) :
    Starved s ∧ ∀ fuel t, HbmSystem.run cfg fuel s = .ok true t →
      ∀ ticket tx at_, .accepted ticket tx at_ ∉ t.trace :=
  ⟨reached.starved on one, fun _ _ returned => unaccepted_of_returned reached on one returned⟩

/-- HBM3 with RFM at every activation. -/
def HbmConfig.everyActivation : HbmConfig :=
  { HbmConfig.hbm3_6400 with controller := { enableRfm := true, rfmActivationThreshold := 1 } }

/-- The row of one read is opened and closed again three times. -/
theorem rfm_starves_read : ∃ s : HbmSystem, s.stats.actCommands = 3 ∧ s.stats.rfmEvents = 3 ∧
    Starved s ∧ ∀ fuel t, HbmSystem.run .everyActivation fuel s = .ok true t →
      ∀ ticket tx at_, .accepted ticket tx at_ ∉ t.trace := by
  obtain ⟨s, reached, final⟩ := exists_reachable .everyActivation NoEscape
    (submit (.read 1 0 32) :: dispatches 15)
    (fun s => decide (s.stats.actCommands = 3 ∧ s.stats.rfmEvents = 3))
    (by decide) (by decide) (by decide +kernel)
  obtain ⟨acts, rfms⟩ := of_decide_eq_true final
  exact ⟨s, acts, rfms, rfm_starves reached rfl rfl⟩

end

end HbmSim
