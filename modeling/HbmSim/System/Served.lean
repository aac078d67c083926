import HbmSim.System.Obligations

/-!
When refreshes are served.

A refresh is served after its due instant. The obligations are served in the order they
are due, so the due instant the next refresh has waited for is known from the refreshes
that are recorded.
-/

namespace HbmSim

open HbmSim.Lib HbmSystem

/-- The command that serves a refresh obligation. -/
def RefreshPolicy.refreshCommand (policy : RefreshPolicy) : HbmCommand :=
  if policy.usesAllBankRefresh then .refreshAllBank else .refreshPerBank

/-- The refreshes in a record. -/
def refreshesRecorded (policy : RefreshPolicy) (recorded : List RecordedCommand) : Nat :=
  recorded.countP fun r => r.command = policy.refreshCommand

/-- The due instant a channel has to serve after the commands `earlier`. -/
def dueAfter (policy : RefreshPolicy) (raised : List Nat) (earlier : List RecordedCommand) :
    Option Nat :=
  raised.reverse[refreshesRecorded policy earlier]?

/-- The command works on a refresh that is due. -/
def HbmCommand.servesRefresh (k : HbmCommand) : Bool :=
  k == .preAll || k == .refreshAllBank || k == .refreshPerBank

/-- Refreshes are served when they are due. -/
structure Served (config : HbmControllerConfig) (now : Nat) (s : ControllerState) : Prop where
  obliged : Obliged config s
  counted : refreshesRecorded config.refreshPolicy s.ctl.recorded =
    (s.stats.channels config.channel).refreshesIssued config.refreshPolicy
  perBank : config.refreshPolicy.usesAllBankRefresh = true →
    ∀ b ∈ s.ctl.banks, b.refreshPending = false
  past : ∀ d ∈ s.ctl.raised, d ≤ now
  /-- Every command that works on a refresh waits for the due instant, unless a time has
  left 64 bits. -/
  waited : s.ctl.wrapped = true ∨
    (∀ d ∈ s.ctl.raised, ∀ next, s.ctl.nextRefreshDue = some next → d ≤ next) ∧
      ∀ r earlier, (r :: earlier) <:+ s.ctl.recorded → r.command.servesRefresh = true →
        ∃ d, dueAfter config.refreshPolicy s.ctl.raised earlier = some d ∧ d ≤ r.issuedAt

section

open HbmController

variable {config : HbmControllerConfig} {mapper : HbmAddressMapper} {s t : ControllerState}
  {now : Nat} {exempt : Prop} {r : RecordedCommand}

theorem refreshesRecorded_cons (policy : RefreshPolicy) (r : RecordedCommand)
    (earlier : List RecordedCommand) : refreshesRecorded policy (r :: earlier) =
      refreshesRecorded policy earlier + if r.command = policy.refreshCommand then 1 else 0 := by
  unfold refreshesRecorded
  rw [List.countP_cons]
  simp

/-- A due instant keeps its place in the order while others are raised. -/
theorem dueAfter_raise {policy : RefreshPolicy} {raised : List Nat} {earlier : List RecordedCommand}
    {d due : Nat} (h : dueAfter policy raised earlier = some d) :
    dueAfter policy (due :: raised) earlier = some d := by
  unfold dueAfter at *
  have lt := (List.getElem?_eq_some_iff.mp h).1
  rw [List.reverse_cons, List.getElem?_append_left lt]
  exact h

theorem mem_of_dueAfter {policy : RefreshPolicy} {raised : List Nat}
    {earlier : List RecordedCommand} {d : Nat} (h : dueAfter policy raised earlier = some d) :
    d ∈ raised :=
  List.mem_reverse.mp (List.mem_of_getElem? h)

/-- A planned command serves a refresh obligation exactly when it is final. -/
theorem HbmController.MaintenancePlan.serves {c : HbmController} {candidate : MaintenanceCandidate}
    {k : HbmCommand} (plan : MaintenancePlan config mapper c now candidate)
    (kind : k = .refreshAllBank ∨ k = .refreshPerBank) :
    candidate.command = k ↔ (candidate.finalCommand && candidate.requested == k) = true := by
  cases final : candidate.finalCommand with
  | true => rw [plan.command_of_final final, Bool.true_and, beq_iff_eq]
  | false =>
      simp only [Bool.false_and, Bool.false_eq_true, iff_false]
      rcases plan.purpose with ⟨-, -, isFinal, command⟩ | ⟨-, bank, -, -, isFinal, command⟩
      · rw [final] at isFinal
        rw [command, if_pos (by simpa using isFinal.symm)]
        rcases kind with rfl | rfl <;> nofun
      · rw [final] at isFinal
        rw [command, if_pos (by simpa using isFinal.symm)]
        rcases kind with rfl | rfl <;> nofun

/-! ### The flags of the banks under the all-bank policy -/

theorem raise_unflagged {c : HbmController} {due : Nat}
    (policy : config.refreshPolicy.usesAllBankRefresh = true)
    (h : ∀ b ∈ c.banks, b.refreshPending = false) :
    ∀ b ∈ (c.raise config due).banks, b.refreshPending = false := by
  have same : (c.raise config due).banks = c.banks := by
    unfold HbmController.raise
    rw [if_pos policy]
  rwa [same]

/-- A maintenance command raises no flag. -/
theorem HbmController.MaintenanceStep.unflagged {candidate : MaintenanceCandidate} {time : Nat}
    (step : MaintenanceStep config mapper now s candidate time t)
    (h : ∀ b ∈ s.ctl.banks, b.refreshPending = false) :
    ∀ b ∈ t.ctl.banks, b.refreshPending = false := by
  intro b' hb'
  obtain ⟨i, hi⟩ := List.getElem?_of_mem hb'
  obtain ⟨length, banks⟩ := step.banks
  obtain ⟨b, hb⟩ : ∃ b, s.ctl.banks[i]? = some b :=
    ⟨_, List.getElem?_eq_getElem (length ▸ (List.getElem?_eq_some_iff.mp hi).1)⟩
  have before := h b (List.mem_of_getElem? hb)
  have change := banks i b b' hb hi
  split at change
  · cases final : candidate.finalCommand with
    | false => exact (change.prerequisite final).1.trans before
    | true =>
        by_cases rfm : candidate.requested = .rfmPerBank
        · exact (change.managed final rfm).1.trans before
        · exact (change.refreshed final rfm).1
  · exact change ▸ before

theorem HbmController.Entry.unflagged (entry : Entry config mapper now exempt s t)
    (policy : config.refreshPolicy.usesAllBankRefresh = true)
    (h : ∀ b ∈ s.ctl.banks, b.refreshPending = false) :
    ∀ b ∈ t.ctl.banks, b.refreshPending = false := by
  cases entry with
  | silent _ _ _ banks => exact banks ▸ h
  | raise due bank due_le in_turn after =>
      rw [after]
      exact raise_unflagged policy h
  | advance base base_le first next after =>
      rw [after]
      exact h
  | maintain step => exact step.unflagged h
  | demand _ records _ _ _ _ _ flags =>
      intro b' hb'
      obtain ⟨i, hi⟩ := List.getElem?_of_mem hb'
      obtain ⟨b, hb⟩ : ∃ b, s.ctl.banks[i]? = some b :=
        ⟨_, List.getElem?_eq_getElem (records.banks ▸ (List.getElem?_eq_some_iff.mp hi).1)⟩
      have before := h b (List.mem_of_getElem? hb)
      rw [(flags i b b' hb hi).refreshPending]
      split
      · unfold noteActivation
        split <;> exact before
      · exact before

/-! ### Obligations served in order -/

/-- Nothing but the clock and marks changes. -/
theorem Served.frame (h : Served config now s) (obliged : Obliged config t)
    (recorded : refreshesRecorded config.refreshPolicy t.ctl.recorded =
      refreshesRecorded config.refreshPolicy s.ctl.recorded)
    (refreshes : SameRefreshes (s.stats.channels config.channel)
      (t.stats.channels config.channel))
    (perBank : config.refreshPolicy.usesAllBankRefresh = true →
      ∀ b ∈ t.ctl.banks, b.refreshPending = false)
    (raised : t.ctl.raised = s.ctl.raised)
    (waited : t.ctl.wrapped = true ∨
      (∀ d ∈ s.ctl.raised, ∀ next, t.ctl.nextRefreshDue = some next → d ≤ next) ∧
        ∀ r earlier, (r :: earlier) <:+ t.ctl.recorded → r.command.servesRefresh = true →
          ∃ d, dueAfter config.refreshPolicy s.ctl.raised earlier = some d ∧ d ≤ r.issuedAt) :
    Served config now t where
  obliged := obliged
  counted := by
    rw [recorded, h.counted]
    unfold ChannelStats.refreshesIssued
    rw [refreshes.refreshes, refreshes.perBankRefreshes]
  perBank := perBank
  past := raised ▸ h.past
  waited := raised ▸ waited

theorem Served.raise (h : Served config now s) {due : Nat}
    (bank : config.refreshPolicy = .perBank → s.ctl.nextPerBankRefresh < s.ctl.banks.length)
    (due_le : due ≤ now)
    (in_turn : s.ctl.wrapped = true ∨ ∀ next, s.ctl.nextRefreshDue = some next → due ≤ next) :
    Served config now (s.modifyCtl (·.raise config due)) := by
  have raised : (s.ctl.raise config due).raised = due :: s.ctl.raised := by rw [raise_frame]
  have recorded : (s.ctl.raise config due).recorded = s.ctl.recorded := by rw [raise_frame]
  have wrapped : (s.ctl.raise config due).wrapped = s.ctl.wrapped := by rw [raise_frame]
  have next : (s.ctl.raise config due).nextRefreshDue = s.ctl.nextRefreshDue := by rw [raise_frame]
  refine ⟨h.obliged.raise due bank, ?_, fun policy => raise_unflagged policy (h.perBank policy),
    fun d hd => ?_, ?_⟩
  · show refreshesRecorded _ (s.ctl.raise config due).recorded = _
    rw [recorded]
    exact h.counted
  · replace hd : d ∈ (s.ctl.raise config due).raised := hd
    rw [raised] at hd
    rcases List.mem_cons.mp hd with rfl | hd
    · exact due_le
    · exact h.past d hd
  · show (s.ctl.raise config due).wrapped = true ∨ (∀ d ∈ (s.ctl.raise config due).raised, ∀ next,
      (s.ctl.raise config due).nextRefreshDue = some next → d ≤ next) ∧
        ∀ r earlier, (r :: earlier) <:+ (s.ctl.raise config due).recorded → _ →
          ∃ d, dueAfter _ (s.ctl.raise config due).raised earlier = some d ∧ _
    rw [raised, recorded, wrapped, next]
    rcases in_turn with wraps | in_turn
    · exact .inl wraps
    refine h.waited.imp id fun ⟨turn, waited⟩ => ⟨fun d hd => ?_, fun r earlier suffix serves => ?_⟩
    · rcases List.mem_cons.mp hd with rfl | hd
      · exact in_turn
      · exact turn d hd
    · obtain ⟨d, served, le⟩ := waited r earlier suffix serves
      exact ⟨d, dueAfter_raise served, le⟩

/-- A refresh obligation is open while a flag is set. -/
theorem Served.dueAfter (h : Served config now s)
    (owed : 0 < s.ctl.refreshesPending config.refreshPolicy) :
    ∃ d, dueAfter config.refreshPolicy s.ctl.raised s.ctl.recorded = some d := by
  have law := h.obliged.law
  rw [← h.counted] at law
  refine ⟨_, List.getElem?_eq_getElem ?_⟩
  rw [List.length_reverse]
  omega

theorem Served.maintain (h : Served config now s) {candidate : MaintenanceCandidate}
    (step : MaintenanceStep config mapper now s candidate r.issuedAt t)
    (records : Records config mapper s t r) (command : r.command = candidate.command) :
    Served config now t := by
  obtain ⟨cursor, plan⟩ := step.plan
  have recorded : t.ctl.recorded = r :: s.ctl.recorded := records.record.recorded
  have raised : t.ctl.raised = s.ctl.raised := by rw [step.frame]
  have next : t.ctl.nextRefreshDue = s.ctl.nextRefreshDue := by rw [step.frame]
  have timely : now ≤ r.issuedAt ∨ ∃ due, s.ctl.nextRefreshDue = some due ∧ due ≤ r.issuedAt := by
    cases step with
    | mk _ _ _ _ timely => exact timely
  obtain ⟨refreshes, perBankRefreshes⟩ := step.refreshes
  have allBankFlag : config.refreshPolicy.usesAllBankRefresh = false →
      s.ctl.refreshPending = false := by
    intro policy
    apply h.obliged.perBank
    cases same : config.refreshPolicy with
    | allBank =>
        rw [same] at policy
        cases policy
    | perBank => rfl
  refine ⟨h.obliged.maintain step, ?_, fun policy => step.unflagged (h.perBank policy),
    raised ▸ h.past, ?_⟩
  · rw [recorded, refreshesRecorded_cons, h.counted, command]
    unfold ChannelStats.refreshesIssued RefreshPolicy.refreshCommand
    split
    · rw [refreshes]
      have serves := plan.serves (k := .refreshAllBank) (.inl rfl)
      split <;> rename_i kind
      · rw [serves.mp kind]
        rfl
      · rw [Bool.eq_false_iff.mpr (mt serves.mpr kind)]
        rfl
    · rw [perBankRefreshes]
      have serves := plan.serves (k := .refreshPerBank) (.inr rfl)
      split <;> rename_i kind
      · rw [serves.mp kind]
        rfl
      · rw [Bool.eq_false_iff.mpr (mt serves.mpr kind)]
        rfl
  · rw [raised, recorded, next]
    by_cases wraps : t.ctl.wrapped = true
    · exact .inl wraps
    have alive : ¬ s.ctl.wrapped = true := mt step.wrapped wraps
    obtain ⟨turn, waited⟩ := h.waited.resolve_left alive
    -- a refresh that is issued serves the oldest instant still pending, which was raised before
    refine .inr ⟨turn, forall_suffix_cons.mpr ⟨fun serves => ?_, waited⟩⟩
    obtain ⟨d, due⟩ := h.dueAfter (by
      unfold refreshesPending
      rcases plan.purpose with ⟨pending, -⟩ | ⟨pending, bank, hbank, requested, -, kind⟩
      · have policy : config.refreshPolicy.usesAllBankRefresh = true := by
          by_contra policy
          exact nomatch pending.symm.trans (allBankFlag (by simpa using policy))
        rw [if_pos policy, pending]
        exact Nat.one_pos
      · rw [command, kind] at serves
        rcases requestedMaintenance_cases requested with ⟨rfm, -⟩ | ⟨-, -, owed⟩
        · rw [rfm] at serves
          split at serves <;> cases serves
        · have mem := List.mem_of_getElem? hbank
          have policy : ¬ config.refreshPolicy.usesAllBankRefresh = true := fun policy =>
            nomatch owed.symm.trans (h.perBank policy bank mem)
          rw [if_neg policy]
          exact List.countP_pos_iff.mpr ⟨bank, mem, owed⟩)
    refine ⟨d, due, ?_⟩
    rcases timely with later | ⟨due', hdue', le⟩
    · exact Nat.le_trans (h.past d (mem_of_dueAfter due)) later
    · exact Nat.le_trans (turn d (mem_of_dueAfter due) due' hdue') le

theorem Served.entry (h : Served config now s) (entry : Entry config mapper now exempt s t) :
    Served config now t := by
  have obliged := h.obliged.entry entry
  have unflagged := fun policy => entry.unflagged policy (h.perBank policy)
  cases entry with
  | silent record refresh _ banks wrapped traffic =>
      refine h.frame obliged (by rw [record.recorded])
        ⟨traffic.refreshes, traffic.perBankRefreshes⟩ unflagged refresh.raised ?_
      rw [wrapped, record.recorded, refresh.nextRefreshDue]
      exact h.waited
  | raise due bank due_le in_turn after =>
      rw [after]
      exact h.raise bank due_le in_turn
  | advance base base_le first next after =>
      rw [after] at obliged ⊢
      refine h.frame obliged rfl ⟨rfl, rfl⟩ h.perBank rfl ?_
      show (s.ctl.wrapped || decide (2 ^ 64 ≤ base + config.refreshInterval)) = true ∨ _
      by_cases passed : 2 ^ 64 ≤ base + config.refreshInterval
      · exact .inl (by rw [decide_eq_true passed, Bool.or_true])
      rw [decide_eq_false passed, Bool.or_false]
      refine h.waited.imp id fun ⟨turn, waited⟩ => ⟨fun d hd due hdue => ?_, waited⟩
      obtain rfl : SimTime.add base config.refreshInterval = due := Option.some.inj hdue
      rw [SimTime.add_of_lt (Nat.not_le.mp passed)]
      refine Nat.le_trans ?_ (Nat.le_add_right _ _)
      cases hnext : s.ctl.nextRefreshDue with
      | none => exact first hnext ▸ h.past d hd
      | some due' => exact next due' hnext ▸ turn d hd due' hnext
  | maintain step records command => exact h.maintain step records command
  | @demand _ _ a r demand records _ _ _ _ refresh flags refreshes =>
      have recorded : t.ctl.recorded = r :: s.ctl.recorded := records.record.recorded
      have kind : r.command.servesRefresh = false ∧
          r.command ≠ config.refreshPolicy.refreshCommand := by
        unfold RefreshPolicy.refreshCommand
        rcases (plannedCommand_ok demand.planned).cases with kind | kind | kind <;> rw [kind]
        · exact ⟨rfl, by split <;> nofun⟩
        · exact ⟨rfl, by split <;> nofun⟩
        · have data := HbmCommandPlanner.requestedCommand_isData a.op config.autoPrecharge
          generalize HbmCommandPlanner.requestedCommand a.op config.autoPrecharge = k at data
          cases k <;> first | (cases data; done) | exact ⟨rfl, by split <;> nofun⟩
      refine h.frame obliged ?_ refreshes unflagged refresh.raised ?_
      · rw [recorded, refreshesRecorded_cons, if_neg kind.2, Nat.add_zero]
      · by_cases wraps : t.ctl.wrapped = true
        · exact .inl wraps
        have alive : ¬ s.ctl.wrapped = true := fun before => wraps (records.wrapped
          ((congrArg (· || _) before).trans rfl))
        obtain ⟨turn, waited⟩ := h.waited.resolve_left alive
        rw [recorded, refresh.nextRefreshDue]
        exact .inr ⟨turn, forall_suffix_cons.mpr
          ⟨fun serves => (nomatch kind.1.symm.trans serves), waited⟩⟩

theorem HbmSystem.Run.served {cfg : HbmConfig} (checked : cfg.Checked) {p : HbmSystem × Debts}
    (run : Run cfg p) (channel : Nat) :
    Served (cfg.channelConfig channel) p.1.now (p.1.side channel) := by
  refine run.entries checked channel (P := fun now _ s => Served (cfg.channelConfig channel) now s)
    ⟨obliged_initial cfg channel, ?_, fun _ b hb => ?_, nofun, .inr ⟨nofun, forall_suffix_nil⟩⟩
    (fun later _ h => ⟨h.obliged, h.counted, h.perBank, fun d hd =>
      Nat.le_trans (h.past d hd) later,
      h.waited⟩) fun _ h entry => h.entry entry
  · show 0 = ChannelStats.refreshesIssued _ (initialChannelStats cfg)
    unfold initialChannelStats ChannelStats.refreshesIssued
    split <;> split <;> rfl
  · rw [List.eq_of_mem_replicate hb]

end

end HbmSim
