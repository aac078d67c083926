import HbmSim.System.Replay

/-!
Whether the commands planned for an access lead to its data command.

On a custom device the planner answers a pending precharge with a precharge, but a precharge
clears the row only and leaves the flag. So an access is served by at most one precharge and
one activation exactly if the flag is clear.
-/

namespace HbmSim

open HbmSim.Lib HbmSystem

namespace HbmController

variable (config : HbmControllerConfig)

/-- Plan a command for an access and issue it, up to the data command or for `rounds` rounds,
while no other command intervenes: the commands taken. -/
def planAndIssue (isWrite : Bool) (index bankIndex row : Nat) (op : HbmOp) :
    Nat → ControllerM (List HbmCommand)
  | 0 => return []
  | rounds + 1 => do
      let bank ← ofExcept (vectorAt (← get).ctl.banks bankIndex)
      let command ← ofExcept
        (HbmCommandPlanner.next config.standard op row bank config.autoPrecharge)
      let candidate : Candidate := { isWrite := isWrite, index := index, command := command }
      match command with
      | .act => do
          issueActivate config candidate bankIndex row
          return .act :: (← planAndIssue isWrite index bankIndex row op rounds)
      | .preBank => do
          issuePrecharge config candidate bankIndex row bank
          return .preBank :: (← planAndIssue isWrite index bankIndex row op rounds)
      | command => return [command]

/-- At most one precharge and one activation lead to the data command of an access. -/
def Converges (s : ControllerState) (isWrite : Bool) (index bankIndex row : Nat) (op : HbmOp) :
    Prop :=
  ∃ rounds commands t, planAndIssue config isWrite index bankIndex row op rounds s =
      .ok (commands ++ [HbmCommandPlanner.requestedCommand op config.autoPrecharge]) t ∧
    commands.Sublist [.preBank, .act]

variable {config} {s : ControllerState} {isWrite : Bool} {index bankIndex row : Nat} {op : HbmOp}
  {bank : HbmBankState}

@[simp] theorem updateAccess_banks (c : HbmController) (f : HbmAccess → HbmAccess) :
    (c.updateAccess isWrite index f).banks = c.banks := by
  unfold updateAccess setQueue
  split <;> rfl

theorem autoPrecharge_custom (custom : config.standard = none) : config.autoPrecharge = false := by
  unfold HbmControllerConfig.autoPrecharge
  rw [custom]
  rfl

/-- An activation opens the row of a custom bank and changes neither its pending precharge nor
another bank. -/
theorem issueActivate_custom (candidate : Candidate) (custom : config.standard = none)
    (act : candidate.command = .act) (found : s.ctl.banks[bankIndex]? = some bank) :
    Exits (issueActivate config candidate bankIndex row)
      (fun _ t => ∃ bank', t.ctl.banks[bankIndex]? = some bank' ∧ bank'.openRow = some row ∧
        bank'.prechargePending = bank.prechargePending) (fun _ _ => False) s := by
  unfold issueActivate applyTransition transitionBanks
  rw [custom, act]
  simp only [found, exits_bind, exits_get, exits_ofExcept, exits_modify]
  refine ⟨?_, fun _ error => by cases error⟩
  rintro _ ⟨⟩
  refine ⟨noteActivation config { bank with openRow := some row }, ?_, ?_, ?_⟩
  · simp [ControllerState.modifyCtl, setBanks, found]
  · unfold noteActivation
    split <;> rfl
  · unfold noteActivation
    split <;> rfl

/-- A precharge closes the row of a custom bank and leaves its pending precharge. -/
theorem issuePrecharge_custom (candidate : Candidate) (custom : config.standard = none)
    {before : HbmBankState} (pre : candidate.command = .preBank)
    (found : s.ctl.banks[bankIndex]? = some bank) :
    Exits (issuePrecharge config candidate bankIndex row before)
      (fun _ t => ∃ bank', t.ctl.banks[bankIndex]? = some bank' ∧ bank'.openRow = none ∧
        bank'.prechargePending = bank.prechargePending) (fun _ _ => False) s := by
  unfold issuePrecharge applyTransition transitionBanks
  rw [custom, pre]
  simp only [exits_bind, exits_get, exits_modify, ControllerState.modifyCtl, updateAccess_banks,
    found, exits_ofExcept]
  refine ⟨?_, fun _ error => by cases error⟩
  rintro _ ⟨⟩
  exact ⟨{ bank with openRow := none }, by simp [setBanks, found], rfl, rfl⟩

/-- What the planner answers on a custom device. -/
theorem next_custom (custom : config.standard = none) (op : HbmOp) (row : Nat)
    (bank : HbmBankState) :
    HbmCommandPlanner.next config.standard op row bank config.autoPrecharge =
      .ok (if bank.prechargePending = true ∨ ∃ r, bank.openRow = some r ∧ r ≠ row then .preBank
        else if bank.openRow = none then .act
        else HbmCommandPlanner.requestedCommand op config.autoPrecharge) := by
  have auto := autoPrecharge_custom custom
  unfold HbmCommandPlanner.next
  rw [custom]
  cases pending : bank.prechargePending with
  | true => simp
  | false =>
      cases row' : bank.openRow with
      | none => simp [CommandCondition.holds, row']
      | some r =>
          by_cases same : r = row
          · simp [CommandCondition.holds, row', same]
          · simp [CommandCondition.holds, row', same]

/-- A bank whose row is open is read or written at once. -/
theorem planAndIssue_open (custom : config.standard = none)
    (found : s.ctl.banks[bankIndex]? = some bank) (clear : bank.prechargePending = false)
    (opened : bank.openRow = some row) (rounds : Nat) :
    Exits (planAndIssue config isWrite index bankIndex row op (rounds + 1))
      (fun commands _ => commands = [HbmCommandPlanner.requestedCommand op config.autoPrecharge])
      (fun _ _ => False) s := by
  have planned := next_custom custom op row bank
  rw [clear, opened, if_neg (by simp), if_neg (by simp)] at planned
  unfold planAndIssue vectorAt
  simp only [exits_bind, exits_get, found, exits_ofExcept]
  refine ⟨?_, fun _ error => by cases error⟩
  rintro _ ⟨⟩
  rw [planned, autoPrecharge_custom custom]
  refine ⟨?_, fun _ error => by cases error⟩
  rintro _ ⟨⟩
  cases op <;> rfl

/-- A closed bank is activated first. -/
theorem planAndIssue_closed (custom : config.standard = none)
    (found : s.ctl.banks[bankIndex]? = some bank) (clear : bank.prechargePending = false)
    (closed : bank.openRow = none) (rounds : Nat) :
    Exits (planAndIssue config isWrite index bankIndex row op (rounds + 2))
      (fun commands _ => commands =
        [.act, HbmCommandPlanner.requestedCommand op config.autoPrecharge])
      (fun _ _ => False) s := by
  have planned := next_custom custom op row bank
  rw [clear, closed, if_neg (by simp), if_pos rfl] at planned
  unfold planAndIssue vectorAt
  simp only [exits_bind, exits_get, exits_ofExcept, found]
  refine ⟨?_, fun _ error => by cases error⟩
  rintro _ ⟨⟩
  rw [planned]
  refine ⟨?_, fun _ error => by cases error⟩
  rintro _ ⟨⟩
  simp only [exits_bind, exits_pure]
  refine (issueActivate_custom ⟨isWrite, index, .act, 0, 0⟩ custom rfl found).mono
    (fun _ t h => ?_) fun _ _ h => h
  obtain ⟨bank', found', opened, same⟩ := h
  refine (planAndIssue_open custom found' (same.trans clear) opened rounds).mono
    (fun commands _ data => ?_) fun _ _ h => h
  rw [data]

/-- A round that plans a precharge closes the row; the rounds after it start from there. -/
theorem planAndIssue_precharge (custom : config.standard = none) {s : ControllerState}
    {bank : HbmBankState} (found : s.ctl.banks[bankIndex]? = some bank)
    (planned : HbmCommandPlanner.next config.standard op row bank config.autoPrecharge =
      .ok .preBank) {rounds : Nat} {expected : List HbmCommand}
    (rest : ∀ t bank', t.ctl.banks[bankIndex]? = some bank' → bank'.openRow = none →
      bank'.prechargePending = bank.prechargePending →
        Exits (planAndIssue config isWrite index bankIndex row op rounds)
          (fun commands _ => commands = expected) (fun _ _ => False) t) :
    Exits (planAndIssue config isWrite index bankIndex row op (rounds + 1))
      (fun commands _ => commands = .preBank :: expected) (fun _ _ => False) s := by
  unfold planAndIssue vectorAt
  simp only [exits_bind, exits_get, exits_ofExcept, found]
  refine ⟨?_, fun _ error => by cases error⟩
  rintro _ ⟨⟩
  rw [planned]
  refine ⟨?_, fun _ error => by cases error⟩
  rintro _ ⟨⟩
  simp only [exits_bind, exits_pure]
  apply (issuePrecharge_custom ⟨isWrite, index, .preBank, 0, 0⟩ custom rfl found).mono
  · rintro _ t ⟨bank', found', closed, same⟩
    apply (rest t bank' found' closed same).mono
    · intro commands _ again
      rw [again]
    · intro _ _ h
      exact h
  · intro _ _ h
    exact h

/-- A bank that holds another row is precharged and activated first. -/
theorem planAndIssue_conflict (custom : config.standard = none)
    (found : s.ctl.banks[bankIndex]? = some bank) (clear : bank.prechargePending = false)
    {other : Nat} (opened : bank.openRow = some other) (differs : other ≠ row) (rounds : Nat) :
    Exits (planAndIssue config isWrite index bankIndex row op (rounds + 3))
      (fun commands _ => commands =
        [.preBank, .act, HbmCommandPlanner.requestedCommand op config.autoPrecharge])
      (fun _ _ => False) s := by
  have planned := next_custom custom op row bank
  rw [if_pos (.inr ⟨other, opened, differs⟩)] at planned
  apply planAndIssue_precharge custom found planned
  intro t bank' found' closed same
  exact planAndIssue_closed custom found' (same.trans clear) closed rounds

/-- A bank with a pending precharge is precharged over and over. -/
theorem planAndIssue_pending (custom : config.standard = none) (rounds : Nat)
    {s : ControllerState} {bank : HbmBankState} (found : s.ctl.banks[bankIndex]? = some bank)
    (pending : bank.prechargePending = true) :
    Exits (planAndIssue config isWrite index bankIndex row op rounds)
      (fun commands _ => commands = List.replicate rounds .preBank) (fun _ _ => False) s := by
  induction rounds generalizing s bank with
  | zero => rfl
  | succ rounds ih =>
      have planned := next_custom custom op row bank
      rw [if_pos (.inl pending)] at planned
      apply planAndIssue_precharge custom found planned
      intro t bank' found' closed same
      exact ih found' (same.trans pending)

theorem converges_of_exits {rounds : Nat} (commands : List HbmCommand)
    (run : Exits (planAndIssue config isWrite index bankIndex row op rounds)
      (fun found _ => found =
        commands ++ [HbmCommandPlanner.requestedCommand op config.autoPrecharge])
      (fun _ _ => False) s)
    (few : commands.Sublist [.preBank, .act]) :
    Converges config s isWrite index bankIndex row op := by
  unfold Exits at run
  split at run <;> rename_i ends
  · rw [run] at ends
    exact ⟨rounds, commands, _, ends, few⟩
  · exact run.elim

/-- On a custom device an access converges if and only if its bank has no pending precharge. -/
theorem planning_converges (custom : config.standard = none)
    (found : s.ctl.banks[bankIndex]? = some bank) :
    Converges config s isWrite index bankIndex row op ↔ bank.prechargePending = false := by
  constructor
  · rintro ⟨rounds, commands, t, run, -⟩
    refine Bool.eq_false_iff.mpr fun pending => ?_
    have stuck := (planAndIssue_pending custom rounds found pending).of_ok run
    have last : HbmCommandPlanner.requestedCommand op config.autoPrecharge ∈
        List.replicate rounds HbmCommand.preBank := by
      rw [← stuck]
      exact List.mem_append_right _ (List.mem_singleton_self _)
    have precharge := List.eq_of_mem_replicate last
    rw [autoPrecharge_custom custom] at precharge
    cases op <;> cases precharge
  · intro clear
    cases opened : bank.openRow with
    | none =>
        exact converges_of_exits [.act] (planAndIssue_closed custom found clear opened 0)
          (by decide)
    | some other =>
        by_cases differs : other = row
        · subst other
          exact converges_of_exits []
            (planAndIssue_open custom found clear opened 0) (by decide)
        · exact converges_of_exits [.preBank, .act]
            (planAndIssue_conflict custom found clear opened differs 0) (by decide)

/-- A bank that holds another row is served by a precharge, an activation and a read. -/
theorem planning_converges_conflict :
    Converges {} ⟨{ banks := [{ openRow := some 7 }] }, {}⟩ false 0 0 3 .read :=
  (planning_converges rfl rfl).mpr rfl

end HbmController

/-- Under the closed row policy a custom device never serves a bank again that it has read. -/
theorem planning_stuck :
    ¬ ∀ (cfg : HbmConfig) (s : HbmSystem) (channel : Nat) (isWrite : Bool)
      (index bankIndex row : Nat) (op : HbmOp), Reachable cfg NoEscape s →
        cfg.device.standard = none → bankIndex < (s.controllers channel).banks.length →
          HbmController.Converges (cfg.channelConfig channel) ⟨s.controllers channel, s.stats⟩
            isWrite index bankIndex row op := by
  intro claim
  obtain ⟨s, reached, final⟩ := exists_reachable
    { device := .custom, controller := { rowPolicy := .closed } } NoEscape
    (submit (.read 1 0 64) :: dispatches 3)
    (fun s => (s.controllers 0).banks.head?.any (·.prechargePending))
    (by decide) (by decide) (by decide +kernel)
  obtain ⟨bank, head, pending⟩ := Option.any_eq_true _ _ |>.mp final
  have found : (s.controllers 0).banks[0]? = some bank := by
    rwa [← List.head?_eq_getElem?]
  have inside : 0 < (s.controllers 0).banks.length :=
    (List.getElem?_eq_some_iff.mp found).1
  have converges := claim _ s 0 false 0 0 0 .read reached rfl inside
  rw [HbmController.planning_converges rfl found, pending] at converges
  cases converges

end HbmSim
