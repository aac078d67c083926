import HbmSim.System.Actions
import HbmSim.System.Record
import HbmSim.System.Replay

/-!
RFM bounds the activations of a bank.

Between two maintenance commands that cover a bank at most as many ACTs go to it as the
threshold allows, and once the threshold is reached the bank and the data bus of its
channel wait for the bank's RFM.
-/

namespace HbmSim

open HbmSim.Lib HbmSystem

/-- The commands that restart the count of activations. -/
def HbmCommand.restartsCount : HbmCommand → Bool
  | .refreshAllBank | .refreshPerBank | .rfmPerBank => true
  | _ => false

/-- The ACTs to a bank since the last maintenance command that covered it. -/
def activationsSince (bank : Nat) : List RecordedCommand → Nat
  | [] => 0
  | r :: earlier =>
      if r.command.restartsCount = true ∧ r.covers bank then 0
      else activationsSince bank earlier + (if r.command = .act ∧ r.bank = bank then 1 else 0)

/-- Some ACT to the bank has reached the threshold since its last RFM. -/
def owesRfm (threshold bank : Nat) : List RecordedCommand → Bool
  | [] => false
  | r :: earlier =>
      if r.command = .rfmPerBank ∧ r.bank = bank then false
      else owesRfm threshold bank earlier ||
        decide ((r.command = .act ∧ r.bank = bank) ∧ threshold ≤ activationsSince bank earlier + 1)

/-- The activations of one bank, over the record of its channel. -/
structure ActivationsBounded (threshold bank : Nat) (recorded : List RecordedCommand) : Prop where
  /-- At every point of the record. -/
  bounded : ∀ earlier, earlier <:+ recorded → activationsSince bank earlier ≤ threshold
  blocked : ∀ r earlier, (r :: earlier) <:+ recorded → owesRfm threshold bank earlier = true →
    r.command.isData = false ∧ ¬ (r.command = .act ∧ r.bank = bank)

/-- A bank's RFM members agree with the record. -/
structure RfmAccount (threshold bank : Nat) (recorded : List RecordedCommand)
    (b : HbmBankState) : Prop where
  flag : b.rfmPending = owesRfm threshold bank recorded
  count : b.rfmPending = false →
    b.activationCount = activationsSince bank recorded ∧ b.activationCount < threshold

section

open HbmController

variable {config : HbmControllerConfig} {mapper : HbmAddressMapper} {s t : ControllerState}
  {now threshold bank : Nat} {exempt : Prop} {recorded : List RecordedCommand} {r : RecordedCommand}
  {b b' : HbmBankState}

theorem ActivationsBounded.cons (h : ActivationsBounded threshold bank recorded)
    (bound : activationsSince bank (r :: recorded) ≤ threshold)
    (blocked : owesRfm threshold bank recorded = true →
      r.command.isData = false ∧ ¬ (r.command = .act ∧ r.bank = bank)) :
    ActivationsBounded threshold bank (r :: recorded) where
  bounded earlier suffix := by
    rcases List.suffix_cons_iff.mp suffix with rfl | suffix
    · exact bound
    · exact h.bounded earlier suffix
  blocked r' earlier suffix owed := by
    rcases List.suffix_cons_iff.mp suffix with same | suffix
    · obtain ⟨rfl, rfl⟩ := List.cons.inj same
      exact blocked owed
    · exact h.blocked r' earlier suffix owed

/-! ### Counting one command -/

variable (threshold recorded) in
/-- A command that is no ACT to the bank and no maintenance of it. -/
theorem count_other (act : ¬ (r.command = .act ∧ r.bank = bank))
    (maintains : ¬ (r.command.restartsCount = true ∧ r.covers bank)) :
    activationsSince bank (r :: recorded) = activationsSince bank recorded ∧
      owesRfm threshold bank (r :: recorded) = owesRfm threshold bank recorded := by
  have noRfm : ¬ (r.command = .rfmPerBank ∧ r.bank = bank) := by
    rintro ⟨command, same⟩
    exact maintains ⟨by rw [command]; rfl, .inr same.symm⟩
  simp only [activationsSince, owesRfm]
  rw [if_neg maintains, if_neg act, if_neg noRfm]
  simp [act]

variable (threshold recorded) in
theorem count_act (act : r.command = .act) (same : r.bank = bank) :
    activationsSince bank (r :: recorded) = activationsSince bank recorded + 1 ∧
      owesRfm threshold bank (r :: recorded) = (owesRfm threshold bank recorded ||
        decide (threshold ≤ activationsSince bank recorded + 1)) := by
  simp [activationsSince, owesRfm, act, same, HbmCommand.restartsCount]

variable (recorded) in
theorem count_maintained (restarts : r.command.restartsCount = true) (covers : r.covers bank) :
    activationsSince bank (r :: recorded) = 0 := by
  simp only [activationsSince]
  rw [if_pos ⟨restarts, covers⟩]

/-! ### One command -/

/-- The account of a bank a command leaves alone. -/
theorem RfmAccount.other (h : RfmAccount threshold bank recorded b) (same : SameFlags b b')
    (act : ¬ (r.command = .act ∧ r.bank = bank))
    (maintains : ¬ (r.command.restartsCount = true ∧ r.covers bank)) :
    RfmAccount threshold bank (r :: recorded) b' := by
  obtain ⟨since, owes⟩ := count_other threshold recorded act maintains
  refine ⟨?_, fun settled => ?_⟩
  · rw [owes, same.rfmPending]
    exact h.flag
  · rw [since, same.activationCount]
    exact h.count (same.rfmPending ▸ settled)

/-- The account of a bank after an ACT. -/
theorem RfmAccount.activate (on : config.enableRfm = true)
    (h : RfmAccount config.rfmActivationThreshold bank recorded b) (settled : b.rfmPending = false)
    (same : SameFlags (noteActivation config b) b') (act : r.command = .act)
    (here : r.bank = bank) :
    RfmAccount config.rfmActivationThreshold bank (r :: recorded) b' := by
  obtain ⟨-, owes⟩ := count_act config.rfmActivationThreshold recorded act here
  obtain ⟨since, -⟩ := count_act config.rfmActivationThreshold recorded act here
  obtain ⟨count, below⟩ := h.count settled
  have flag := h.flag
  rw [settled] at flag
  rw [← flag, Bool.false_or, ← count] at owes
  rw [← count] at since
  unfold noteActivation at same
  by_cases reached : config.rfmActivationThreshold ≤ b.activationCount + 1
  · rw [if_pos (by simp [on, reached])] at same
    refine ⟨?_, fun settled' => ?_⟩
    · rw [same.rfmPending, owes, decide_eq_true reached]
    · exact nomatch settled'.symm.trans same.rfmPending
  · rw [if_neg (by simp [on, reached])] at same
    have pending : b'.rfmPending = b.rfmPending := same.rfmPending
    have counted : b'.activationCount = b.activationCount + 1 := same.activationCount
    refine ⟨?_, fun _ => ?_⟩
    · rw [pending, settled, owes, decide_eq_false reached]
    · rw [counted, since]
      exact ⟨rfl, by omega⟩

/-- The account of a bank after a maintenance command. -/
theorem RfmAccount.maintain {candidate : MaintenanceCandidate}
    (positive : threshold ≠ 0) (h : RfmAccount threshold bank recorded b)
    (plan : MaintenancePlan config mapper s.ctl now candidate)
    (command : r.command = candidate.command) (local_ : r.bank = candidate.localBank)
    (change : if candidate.command.isAllBank = true ∨ bank = candidate.localBank then
      BankMaintained candidate b b' else b' = b) :
    RfmAccount threshold bank (r :: recorded) b' := by
  have act : ¬ (r.command = .act ∧ r.bank = bank) := fun h => plan.no_demand.2 (command ▸ h.1)
  have covering : r.covers bank ↔ (candidate.command.isAllBank = true ∨
    bank = candidate.localBank) := by
    unfold RecordedCommand.covers
    rw [command, local_]
  by_cases covers : r.covers bank
  · rw [if_pos (covering.mp covers)] at change
    cases final : candidate.finalCommand with
    | false =>
        obtain ⟨refresh, rfm, count⟩ := change.prerequisite final
        refine h.other ⟨refresh, rfm, count⟩ act fun restarts => ?_
        have prerequisite : candidate.command.restartsCount = false := by
          rcases plan.purpose with ⟨-, -, isFinal, kind⟩ | ⟨-, b, -, -, isFinal, kind⟩
          · rw [final] at isFinal
            rw [kind, if_pos (by simpa using isFinal.symm)]
            rfl
          · rw [final] at isFinal
            rw [kind, if_pos (by simpa using isFinal.symm)]
            rfl
        rw [command, prerequisite] at restarts
        exact nomatch restarts.1
    | true =>
        have kind := plan.command_of_final final
        have restarts : r.command.restartsCount = true := by
          rw [command, kind]
          rcases plan.requested_cases with h | h | h <;> rw [h] <;> rfl
        have since := count_maintained recorded restarts covers
        by_cases rfm : candidate.requested = .rfmPerBank
        · obtain ⟨-, pending, count⟩ := change.managed final rfm
          have same : r.bank = bank := by
            rcases covers with all | same
            · rw [command, kind, rfm] at all
              cases all
            · exact same.symm
          have owes : owesRfm threshold bank (r :: recorded) = false := by
            simp only [owesRfm]
            rw [if_pos ⟨by rw [command, kind, rfm], same⟩]
          exact ⟨pending.trans owes.symm, fun _ => ⟨by rw [count, since], by omega⟩⟩
        · obtain ⟨-, pending, count⟩ := change.refreshed final rfm
          have owes : owesRfm threshold bank (r :: recorded) = owesRfm threshold bank recorded := by
            have noRfm : r.command ≠ .rfmPerBank := by rwa [command, kind]
            simp only [owesRfm]
            rw [if_neg fun h => noRfm h.1, decide_eq_false fun h => act h.1, Bool.or_false]
          exact ⟨(pending.trans h.flag).trans owes.symm, fun _ => ⟨by rw [count, since], by omega⟩⟩
  · rw [if_neg (mt covering.mpr covers)] at change
    rw [change]
    exact h.other ⟨rfl, rfl, rfl⟩ act fun restarts => covers restarts.2

/-! ### The record of a channel -/

/-- The RFM accounts of a channel's banks, and what they bound. -/
def Managed (config : HbmControllerConfig) (c : HbmController) : Prop :=
  ∀ (i : Nat) b, c.banks[i]? = some b →
    RfmAccount config.rfmActivationThreshold i c.recorded b ∧
      ActivationsBounded config.rfmActivationThreshold i c.recorded

theorem Managed.frame {c c' : HbmController} (h : Managed config c)
    (recorded : c'.recorded = c.recorded) (length : c'.banks.length = c.banks.length)
    (flags : ∀ (i : Nat) b b', c.banks[i]? = some b → c'.banks[i]? = some b' →
      b'.rfmPending = b.rfmPending ∧ b'.activationCount = b.activationCount) :
        Managed config c' := by
  intro i b' hb'
  obtain ⟨b, hb⟩ : ∃ b, c.banks[i]? = some b :=
    ⟨_, List.getElem?_eq_getElem (length ▸ (List.getElem?_eq_some_iff.mp hb').1)⟩
  obtain ⟨account, bounded⟩ := h i b hb
  obtain ⟨pending, count⟩ := flags i b b' hb hb'
  rw [recorded]
  refine ⟨⟨pending.trans account.flag, fun settled => ?_⟩, bounded⟩
  rw [count]
  exact account.count (pending ▸ settled)

theorem Managed.entry (on : config.enableRfm = true) (positive : config.rfmActivationThreshold ≠ 0)
    (h : Managed config s.ctl) (entry : Entry config mapper now exempt s t) :
    Managed config t.ctl := by
  cases entry with
  | silent record _ _ banks =>
      refine h.frame record.recorded (by rw [banks]) fun i b b' hb hb' => ?_
      rw [banks, hb] at hb'
      obtain rfl := Option.some.inj hb'
      exact ⟨rfl, rfl⟩
  | raise due bank _ _ after =>
      rw [after]
      show Managed config (s.ctl.raise config due)
      unfold HbmController.raise
      split
      · exact h
      · refine h.frame rfl (List.length_modify ..) fun i b b' hb hb' => ?_
        obtain ⟨b₁, hb₁, rfl⟩ := modify_bank hb'
        obtain rfl := Option.some.inj (hb.symm.trans hb₁)
        split <;> exact ⟨rfl, rfl⟩
  | advance base _ _ _ after =>
      rw [after]
      exact h
  | @maintain candidate r step records command local_ =>
      obtain ⟨cursor, plan⟩ := step.plan
      intro i b' hb'
      rw [records.record.recorded]
      obtain ⟨b, hb⟩ : ∃ b, s.ctl.banks[i]? = some b :=
        ⟨_, List.getElem?_eq_getElem (records.banks ▸ (List.getElem?_eq_some_iff.mp hb').1)⟩
      obtain ⟨account, bounded⟩ := h i b hb
      have next := account.maintain positive plan command local_ (step.banks.2 i b b' hb hb')
      refine ⟨next, bounded.cons ?_ fun _ => ⟨command ▸ plan.no_demand.1, fun h =>
        plan.no_demand.2 (command ▸ h.1)⟩⟩
      have before := bounded.bounded _ List.suffix_rfl
      simp only [activationsSince]
      rw [if_neg fun h : r.command = .act ∧ r.bank = i => plan.no_demand.2 (command ▸ h.1)]
      split
      · exact Nat.zero_le _
      · exact before
  | @demand _ _ _ r demand records _ _ _ _ _ flags =>
      intro i b' hb'
      rw [records.record.recorded]
      obtain ⟨b, hb⟩ : ∃ b, s.ctl.banks[i]? = some b :=
        ⟨_, List.getElem?_eq_getElem (records.banks ▸ (List.getElem?_eq_some_iff.mp hb').1)⟩
      obtain ⟨account, bounded⟩ := h i b hb
      -- a demand is served by a quiet controller only, so no bank owes an RFM here
      have settled : b.rfmPending = false := (demand.quiet.2 b (List.mem_of_getElem? hb)).1
      have unowed : owesRfm config.rfmActivationThreshold i s.ctl.recorded = false :=
        account.flag.symm.trans settled
      have restarts : r.command.restartsCount = false := by
        rcases (plannedCommand_ok demand.planned).cases with kind | kind | kind <;> rw [kind]
        · rfl
        · rfl
        · unfold HbmCommandPlanner.requestedCommand
          split <;> split <;> rfl
      have same := flags i b b' hb hb'
      have blocked : owesRfm config.rfmActivationThreshold i s.ctl.recorded = true →
          r.command.isData = false ∧ ¬ (r.command = .act ∧ r.bank = i) := fun owed =>
        nomatch unowed.symm.trans owed
      by_cases act : r.command = .act ∧ r.bank = i
      · rw [if_pos ⟨act.1, act.2.symm⟩] at same
        refine ⟨account.activate on settled same act.1 act.2, bounded.cons ?_ blocked⟩
        obtain ⟨count, below⟩ := account.count settled
        obtain ⟨since, -⟩ := count_act config.rfmActivationThreshold s.ctl.recorded act.1 act.2
        show activationsSince i (r :: s.ctl.recorded) ≤ _
        rw [since, ← count]
        exact below
      · rw [if_neg fun h => act ⟨h.1, h.2.symm⟩] at same
        have other : ¬ (r.command.restartsCount = true ∧ r.covers i) := by simp [restarts]
        refine ⟨account.other same act other, bounded.cons ?_ blocked⟩
        show activationsSince i (r :: s.ctl.recorded) ≤ _
        rw [(count_other config.rfmActivationThreshold _ act other).1]
        exact bounded.bounded _ List.suffix_rfl

theorem HbmSystem.Run.managed {cfg : HbmConfig} (checked : cfg.Checked)
    (on : cfg.controller.enableRfm = true) {p : HbmSystem × Debts} (run : Run cfg p)
    (channel : Nat) : Managed (cfg.channelConfig channel) (p.1.controllers channel) := by
  refine run.entries checked channel
    (P := fun _ _ s => Managed (cfg.channelConfig channel) s.ctl) ?_ (fun _ _ h => h)
    fun _ h entry => h.entry on (checked.threshold on) entry
  intro i b hb
  obtain rfl := List.eq_of_mem_replicate (List.mem_of_getElem? hb)
  have some : cfg.controller.rfmActivationThreshold ≠ 0 := checked.threshold on
  refine ⟨⟨rfl, fun _ => ⟨rfl, Nat.pos_of_ne_zero some⟩⟩, fun earlier suffix => ?_,
    fun r earlier suffix => ?_⟩
  · obtain rfl := List.suffix_nil.mp suffix
    exact Nat.zero_le _
  · exact nomatch List.suffix_nil.mp suffix

/-- In every run with RFM enabled the activations of every bank are bounded by the
threshold, and a bank that has reached it waits for its RFM. -/
theorem activations_bounded {cfg : HbmConfig} {escapes : HbmError → Prop} {s : HbmSystem}
    (reached : Reachable cfg escapes s) (on : cfg.controller.enableRfm = true) {channel bank : Nat}
    {b : HbmBankState} (hb : (s.controllers channel).banks[bank]? = some b) :
    b.rfmPending = owesRfm cfg.controller.rfmActivationThreshold bank
        (s.controllers channel).recorded ∧
      ActivationsBounded cfg.controller.rfmActivationThreshold bank
        (s.controllers channel).recorded := by
  obtain ⟨valid, -, d, point, -⟩ := reached.point
  obtain ⟨account, bounded⟩ := point.run.managed valid.checked on channel bank b hb
  exact ⟨account.flag, bounded⟩

/-- The second activation of a bank reaches a threshold of two. -/
theorem activations_bounded_reached : ∃ s : HbmSystem,
    (∃ b : HbmBankState, (s.controllers 0).banks[0]? = some b ∧
      b.rfmPending = true ∧ b.rfmPending = owesRfm 2 0 (s.controllers 0).recorded ∧
        ActivationsBounded 2 0 (s.controllers 0).recorded) ∧
      activationsSince 0 (s.controllers 0).recorded = 2 := by
  obtain ⟨s, reached, final⟩ := exists_reachable
    ({ HbmConfig.hbm3_6400 with
      controller := { enableRfm := true, rfmActivationThreshold := 2 } })
    NoEscape
    (submit (.read 1 0 32) :: submit (.read 2 1024 32) :: dispatches 8)
    (fun s => (s.controllers 0).banks[0]?.any (·.rfmPending) &&
      decide (activationsSince 0 (s.controllers 0).recorded = 2))
    (by decide) (by decide) (by decide +kernel)
  obtain ⟨pending, since⟩ := Bool.and_eq_true _ _ |>.mp final
  obtain ⟨b, hb, pending⟩ := Option.any_eq_true _ _ |>.mp pending
  exact ⟨s, ⟨b, hb, pending, activations_bounded reached rfl hb⟩, of_decide_eq_true since⟩

end

end HbmSim
