import HbmSim.System.Record

/-!
The obligations of a channel.

A pending refresh is a flag, not a counter. So the obligations a channel has raised
are those it has served, those whose flag is set, and those that found the flag of
an earlier one still set.
-/

namespace HbmSim

open HbmSim.Lib HbmSystem

/-- The refreshes a channel has issued, by its own counters. -/
def ChannelStats.refreshesIssued (policy : RefreshPolicy) (stats : ChannelStats) : Nat :=
  if policy.usesAllBankRefresh then stats.refreshes else stats.perBankRefreshes

/-- The refreshes a channel owes, by its flags. -/
def HbmController.refreshesPending (policy : RefreshPolicy) (c : HbmController) : Nat :=
  if policy.usesAllBankRefresh then c.refreshPending.toNat
  else c.banks.countP (·.refreshPending)

/-- Every obligation is served, pending, or was raised onto a flag that was set. -/
structure Obliged (config : HbmControllerConfig) (s : ControllerState) : Prop where
  perBank : config.refreshPolicy = .perBank → s.ctl.refreshPending = false
  law : s.ctl.raised.length =
    (s.stats.channels config.channel).refreshesIssued config.refreshPolicy +
      s.ctl.refreshesPending config.refreshPolicy + s.ctl.overlapped

section

open HbmController

variable {config : HbmControllerConfig} {mapper : HbmAddressMapper} {s t : ControllerState}
  {now : Nat} {exempt : Prop}

/-- Nothing the law speaks of changes. -/
theorem Obliged.frame (h : Obliged config s) (refresh : SameRefresh s.ctl t.ctl)
    (banks : t.ctl.banks.countP (·.refreshPending) = s.ctl.banks.countP (·.refreshPending))
    (refreshes : SameRefreshes (s.stats.channels config.channel)
      (t.stats.channels config.channel)) : Obliged config t where
  perBank policy := by
    rw [refresh.refreshPending]
    exact h.perBank policy
  law := by
    have law := h.law
    unfold ChannelStats.refreshesIssued refreshesPending at *
    rw [refresh.raised, refresh.overlapped, refresh.refreshPending, refreshes.refreshes,
      refreshes.perBankRefreshes, banks]
    exact law

theorem Obliged.raise (h : Obliged config s) (due : Nat)
    (bank : config.refreshPolicy = .perBank → s.ctl.nextPerBankRefresh < s.ctl.banks.length) :
    Obliged config (s.modifyCtl (·.raise config due)) := by
  have law := h.law
  cases policy : config.refreshPolicy with
  | allBank =>
      have raised : s.ctl.raise config due = { s.ctl with
          refreshPending := true
          raised := due :: s.ctl.raised
          overlapped := s.ctl.overlapped + s.ctl.refreshPending.toNat } := by
        simp [HbmController.raise, stillPending, policy, RefreshPolicy.usesAllBankRefresh]
      refine ⟨(fun other => by cases policy.symm.trans other), ?_⟩
      show (s.ctl.raise config due).raised.length =
        _ + (s.ctl.raise config due).refreshesPending _ +
        (s.ctl.raise config due).overlapped
      rw [policy] at law ⊢
      rw [raised]
      simp only [ChannelStats.refreshesIssued, refreshesPending, RefreshPolicy.usesAllBankRefresh,
        if_true, List.length_cons, Bool.toNat_true, ControllerState.modifyCtl] at law ⊢
      omega
  | perBank =>
      obtain ⟨b, hb⟩ : ∃ b, s.ctl.banks[s.ctl.nextPerBankRefresh]? = some b :=
        ⟨_, List.getElem?_eq_getElem (bank policy)⟩
      have raised : s.ctl.raise config due = { s.ctl with
          banks := s.ctl.banks.modify s.ctl.nextPerBankRefresh fun b =>
            { b with refreshPending := true }
          nextPerBankRefresh := (s.ctl.nextPerBankRefresh + 1) % s.ctl.banks.length
          raisedBanks := s.ctl.nextPerBankRefresh :: s.ctl.raisedBanks
          raised := due :: s.ctl.raised
          overlapped := s.ctl.overlapped + b.refreshPending.toNat } := by
        simp [HbmController.raise, stillPending, policy, RefreshPolicy.usesAllBankRefresh, hb]
      have length : (s.ctl.banks.modify s.ctl.nextPerBankRefresh fun b =>
          { b with refreshPending := true }).length = s.ctl.banks.length := List.length_modify ..
      have flags := countP_replace (p := (·.refreshPending)) (q := (·.refreshPending))
        (y := { b with refreshPending := true }) length
        (fun j x y hj hx hy => by
          obtain ⟨x', hx', rfl⟩ := modify_bank hy
          obtain rfl := Option.some.inj (hx.symm.trans hx')
          rw [if_neg hj])
        hb (by simp [hb])
      refine ⟨fun policy => ?_, ?_⟩
      · show (s.ctl.raise config due).refreshPending = false
        rw [raised]
        exact h.perBank policy
      · show (s.ctl.raise config due).raised.length =
          _ + (s.ctl.raise config due).refreshesPending _ + (s.ctl.raise config due).overlapped
        rw [policy] at law ⊢
        rw [raised]
        simp only [ChannelStats.refreshesIssued, refreshesPending,
          RefreshPolicy.usesAllBankRefresh, Bool.false_eq_true, if_false, List.length_cons,
          Bool.toNat_true, ControllerState.modifyCtl] at law flags ⊢
        omega

/-- The refresh counters after a maintenance command. -/
theorem HbmController.MaintenanceStep.refreshes {candidate : MaintenanceCandidate} {time : Nat}
    (step : MaintenanceStep config mapper now s candidate time t) :
    (t.stats.channels config.channel).refreshes = (s.stats.channels config.channel).refreshes +
        (candidate.finalCommand && candidate.requested == .refreshAllBank).toNat ∧
      (t.stats.channels config.channel).perBankRefreshes =
        (s.stats.channels config.channel).perBankRefreshes +
          (candidate.finalCommand && candidate.requested == .refreshPerBank).toNat := by
  cases step with
  | @mk cursor address banks plan =>
      have counted := countCommand_refreshes config s.stats
        ⟨candidate.command, address, candidate.localBank, time, none⟩
      unfold maintained
      dsimp only
      cases candidate.finalCommand with
      | false => exact ⟨counted.refreshes, counted.perBankRefreshes⟩
      | true =>
          rcases plan.requested_cases with requested | requested | requested <;> rw [requested] <;>
            simp [countMaintenance, HbmStats.modifyChannel, counted.refreshes,
              counted.perBankRefreshes]

theorem Obliged.maintain (h : Obliged config s) {candidate : MaintenanceCandidate} {time : Nat}
    (step : MaintenanceStep config mapper now s candidate time t) : Obliged config t := by
  have law := h.law
  obtain ⟨refreshes, perBankRefreshes⟩ := step.refreshes
  have flag := step.refreshPending
  obtain ⟨length, banks⟩ := step.banks
  have frame := step.frame
  have raised : t.ctl.raised = s.ctl.raised := by rw [frame]
  have overlapped : t.ctl.overlapped = s.ctl.overlapped := by rw [frame]
  obtain ⟨cursor, plan⟩ := step.plan
  refine ⟨fun policy => by rw [flag, h.perBank policy]; rfl, ?_⟩
  rw [raised, overlapped]
  cases policy : config.refreshPolicy with
  | allBank =>
      rw [policy] at law
      simp only [ChannelStats.refreshesIssued, refreshesPending, RefreshPolicy.usesAllBankRefresh,
        if_true] at law ⊢
      rw [refreshes, flag]
      rcases plan.purpose with ⟨pending, requested, -, -⟩ | ⟨pending, bank, hbank, requested, -, -⟩
      · rw [pending] at law ⊢
        rw [requested]
        cases candidate.finalCommand <;> simp at law ⊢ <;> omega
      · have other : (candidate.requested == .refreshAllBank) = false := by
          rcases requestedMaintenance_cases requested with ⟨kind, -⟩ | ⟨kind,
            -⟩ <;> rw [kind] <;> rfl
        rw [other, Bool.and_false, Bool.not_false, Bool.and_true, Bool.toNat_false]
        exact law
  | perBank =>
      rw [policy] at law
      simp only [ChannelStats.refreshesIssued, refreshesPending, RefreshPolicy.usesAllBankRefresh,
        Bool.false_eq_true, if_false] at law ⊢
      rw [perBankRefreshes]
      rcases plan.purpose with ⟨pending, -⟩ | ⟨-, bank, hbank, requested, final, command⟩
      · cases pending.symm.trans (h.perBank policy)
      obtain ⟨b', hb'⟩ : ∃ b', t.ctl.banks[candidate.localBank]? = some b' :=
        ⟨_, List.getElem?_eq_getElem (length ▸ (List.getElem?_eq_some_iff.mp hbank).1)⟩
      have single : candidate.command.isAllBank = false := by
        rw [command]
        rcases requestedMaintenance_cases requested with ⟨kind, -⟩ | ⟨kind, -⟩ <;>
          rw [kind] <;> split <;> rfl
      have count := countP_replace (p := (·.refreshPending)) (q := (·.refreshPending)) length
        (fun j x y hj hx hy => by
          have same := banks j x y hx hy
          rw [if_neg (by simp [single, hj])] at same
          rw [same]) hbank hb'
      have change := banks _ bank b' hbank hb'
      rw [if_pos (.inr rfl)] at change
      cases hfinal : candidate.finalCommand with
      | false =>
          rw [(change.prerequisite hfinal).1] at count
          simp only [Bool.false_and, Bool.toNat_false]
          omega
      | true =>
          rcases requestedMaintenance_cases requested with ⟨kind, -⟩ | ⟨kind, -, pending⟩
          · rw [(change.managed hfinal kind).1] at count
            rw [kind]
            simp only [Bool.true_and]
            rw [show (HbmCommand.rfmPerBank == .refreshPerBank) = false from rfl, Bool.toNat_false]
            omega
          · rw [(change.refreshed hfinal (by simp [kind])).1, pending] at count
            rw [kind]
            simp only [Bool.toNat_true, Bool.toNat_false, Bool.true_and,
              beq_self_eq_true] at count ⊢
            omega

theorem Obliged.entry (h : Obliged config s) (entry : Entry config mapper now exempt s t) :
    Obliged config t := by
  cases entry with
  | silent _ refresh _ banks _ traffic =>
      exact h.frame refresh (by rw [banks]) ⟨traffic.refreshes, traffic.perBankRefreshes⟩
  | raise due bank _ _ after =>
      rw [after]
      exact h.raise due bank
  | advance base _ _ _ after =>
      rw [after]
      exact ⟨h.perBank, h.law⟩
  | maintain step => exact h.maintain step
  | @demand _ _ _ r _ records _ _ _ _ refresh flags refreshes =>
      refine h.frame refresh (countP_eq_of_getElem? records.banks fun i b b' hb hb' => ?_) refreshes
      rw [(flags i b b' hb hb').refreshPending]
      split
      · unfold noteActivation
        split <;> rfl
      · rfl

theorem obliged_initial (cfg : HbmConfig) (channel : Nat) :
    Obliged (cfg.channelConfig channel) ((initial cfg).side channel) where
  perBank _ := rfl
  law := by
    show 0 = ChannelStats.refreshesIssued _ (initialChannelStats cfg) +
      HbmController.refreshesPending _ (HbmController.initial (cfg.channelConfig channel)) + 0
    have none : HbmController.refreshesPending (cfg.channelConfig channel).refreshPolicy
        (HbmController.initial (cfg.channelConfig channel)) = 0 := by
      unfold refreshesPending HbmController.initial
      split
      · rfl
      · exact List.countP_eq_zero.mpr fun b hb => by
          rw [List.eq_of_mem_replicate hb]
          simp
    rw [none]
    unfold initialChannelStats ChannelStats.refreshesIssued
    split <;> split <;> rfl

/-- The law of the obligations holds of every channel in every state. -/
theorem HbmSystem.Run.obliged {cfg : HbmConfig} (checked : cfg.Checked) {p : HbmSystem × Debts}
    (run : Run cfg p) (channel : Nat) :
    Obliged (cfg.channelConfig channel) (p.1.side channel) :=
  run.entries checked channel (P := fun _ _ s => Obliged (cfg.channelConfig channel) s)
    (obliged_initial cfg channel) (fun _ _ h => h) fun _ h entry => h.entry entry

end

end HbmSim
