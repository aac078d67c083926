import HbmSim.Guarantees.IdleRefresh
import HbmSim.System.Served

/-!
The refresh of an idle channel discharges its obligation.

The loop of `apply_idle_refresh` closes banks, relieves them of their RFM and refreshes
them, in whatever order the commands become ready. Each round settles something, so the
loop ends; the round that settles the last refresh is the last one.
-/

namespace HbmSim

open HbmSim.Lib HbmSystem

/-- A command on record, the bank it is for and its time. -/
def RecordedCommand.issue (r : RecordedCommand) : HbmCommand × Nat × Nat :=
  (r.command, r.bank, r.issuedAt)

namespace HbmController

variable {config : HbmControllerConfig} {mapper : HbmAddressMapper} {s t : ControllerState}
  {now : Nat}

/-! ### One round -/

/-- The refresh of bank `i` alone. -/
def refreshesBank (i : Nat) (candidate : MaintenanceCandidate) : Bool :=
  candidate.command == .refreshPerBank && candidate.localBank == i

/-- The refresh of all banks. -/
def refreshesAll (candidate : MaintenanceCandidate) : Bool := candidate.command == .refreshAllBank

/-- What a round puts on record: its command, the bank it is for and its time. -/
def issueOf (round : MaintenanceCandidate × Nat) : HbmCommand × Nat × Nat :=
  (round.1.command, round.1.localBank, round.2)

/-- A channel owes the refresh of all its banks or the refresh of some, not both. -/
def OwesOneKind (c : HbmController) : Prop :=
  c.refreshPending = true → ∀ b ∈ c.banks, b.refreshPending = false

namespace MaintenanceStep

variable {candidate : MaintenanceCandidate} {time : Nat}

theorem owesOneKind (step : MaintenanceStep config mapper now s candidate time t)
    (one : s.ctl.OwesOneKind) : t.ctl.OwesOneKind := by
  intro pending
  rw [step.refreshPending, Bool.and_eq_true] at pending
  exact step.unflagged (one pending.1)

/-- A refresh of all banks settles the all-bank flag, and nothing else does. -/
theorem settles_all (step : MaintenanceStep config mapper now s candidate time t) :
    s.ctl.refreshPending.toNat = (refreshesAll candidate).toNat + t.ctl.refreshPending.toNat := by
  obtain ⟨cursor, plan⟩ := step.plan
  have serves := plan.serves (.inl rfl)
  rw [step.refreshPending]
  unfold refreshesAll
  by_cases command : candidate.command = .refreshAllBank
  · have final := serves.mp command
    have pending : s.ctl.refreshPending = true := by
      rcases plan.purpose with ⟨pending, -⟩ | ⟨-, bank, -, requested, -⟩
      · exact pending
      · have kind := eq_of_beq (Bool.and_eq_true _ _ |>.mp final).2
        rcases requestedMaintenance_cases requested with ⟨other, -⟩ | ⟨other, -⟩ <;>
          exact nomatch kind.symm.trans other
    rw [final, pending, command]
    rfl
  · rw [Bool.eq_false_iff.mpr (mt serves.mpr command), beq_eq_false_iff_ne.mpr command]
    simp

/-- The refresh of a bank settles its flag, and nothing else does while no refresh of all banks
is owed. -/
theorem settles_bank (step : MaintenanceStep config mapper now s candidate time t)
    (one : s.ctl.OwesOneKind) {i : Nat} {b b' : HbmBankState} (hb : s.ctl.banks[i]? = some b)
    (hb' : t.ctl.banks[i]? = some b') :
    b.refreshPending.toNat = (refreshesBank i candidate).toNat + b'.refreshPending.toNat := by
  obtain ⟨cursor, plan⟩ := step.plan
  have change := step.banks.2 i b b' hb hb'
  unfold refreshesBank
  rcases plan.purpose with ⟨pending, requested, -, command⟩ |
    ⟨-, bank, hbank, requested, isFinal, command⟩
  · -- nothing is owed bank by bank
    have other : (candidate.command == HbmCommand.refreshPerBank) = false := by
      rw [command]
      split <;> rfl
    have before := one pending b (List.mem_of_getElem? hb)
    have after := step.unflagged (one pending) b' (List.mem_of_getElem? hb')
    rw [before, after, other]
    rfl
  · have alone : candidate.command.isAllBank = false := by
      rw [command]
      split
      · rfl
      · rcases requestedMaintenance_cases requested with ⟨kind, -⟩ | ⟨kind, -⟩ <;> rw [kind] <;> rfl
    by_cases here : i = candidate.localBank
    · subst here
      obtain rfl := Option.some.inj (hbank.symm.trans hb)
      rw [if_pos (.inr rfl)] at change
      rw [beq_self_eq_true, Bool.and_true]
      cases final : candidate.finalCommand with
      | false =>
          rw [final] at isFinal
          rw [if_pos (by simpa using isFinal.symm)] at command
          rw [(change.prerequisite final).1, command]
          exact (Nat.zero_add _).symm
      | true =>
          rw [plan.command_of_final final]
          rcases requestedMaintenance_cases requested with ⟨kind, -⟩ | ⟨kind, -, pending⟩
          · rw [(change.managed final kind).1, kind]
            exact (Nat.zero_add _).symm
          · rw [(change.refreshed final (by simp [kind])).1, kind, pending]
            rfl
    · rw [if_neg (by simp [alone, here])] at change
      rw [change, beq_eq_false_iff_ne.mpr (Ne.symm here), Bool.and_false]
      exact (Nat.zero_add _).symm

/-- The channel's counters follow. -/
theorem counts (step : MaintenanceStep config mapper now s candidate time t) :
    (t.stats.channels config.channel).refreshes =
        (s.stats.channels config.channel).refreshes + (refreshesAll candidate).toNat ∧
      (t.stats.channels config.channel).perBankRefreshes =
        (s.stats.channels config.channel).perBankRefreshes +
          (candidate.command == .refreshPerBank).toNat := by
  obtain ⟨cursor, plan⟩ := step.plan
  have same : ∀ k : HbmCommand, k = .refreshAllBank ∨ k = .refreshPerBank →
      (candidate.finalCommand && candidate.requested == k) = (candidate.command == k) := by
    intro k kind
    rw [Bool.eq_iff_iff, ← plan.serves kind, beq_iff_eq]
  rw [← same .refreshPerBank (.inr rfl)]
  unfold refreshesAll
  rw [← same .refreshAllBank (.inl rfl)]
  exact step.refreshes

/-- A command that covers a bank leaves it closed, and one that does not leaves it as it is. -/
theorem closes (step : MaintenanceStep config mapper now s candidate time t) {i : Nat}
    {b b' : HbmBankState} (hb : s.ctl.banks[i]? = some b) (hb' : t.ctl.banks[i]? = some b') :
    (candidate.command.isAllBank = true ∨ i = candidate.localBank → b'.openRow = none) ∧
      (b.openRow = none → b'.openRow = none) := by
  have change := step.banks.2 i b b' hb hb'
  split at change
  · exact ⟨fun _ => change.openRow, fun _ => change.openRow⟩
  · rename_i apart
    exact ⟨fun covers => absurd covers apart, fun closed => change ▸ closed⟩

/-- A final command blocks the channel for its duration. -/
theorem blocks (step : MaintenanceStep config mapper now s candidate time t)
    (final : candidate.finalCommand = true) : t.ctl.refreshBusyUntil =
      SimTime.add time (maintenanceDuration candidate.command config.timing) := by
  cases step with
  | mk plan =>
      rw [maintained_final final, plan.command_of_final final]
      rfl

theorem records (step : MaintenanceStep config mapper now s candidate time t) :
    ∃ address, t.ctl.recorded =
      ⟨candidate.command, address, candidate.localBank, time, none⟩ :: s.ctl.recorded := by
  cases step with
  | @mk cursor address banks =>
      refine ⟨address, ?_⟩
      cases final : candidate.finalCommand with
      | false =>
          rw [maintained_prerequisite final]
          rfl
      | true =>
          rw [maintained_final final]
          unfold settleMaintenance
          split <;> rfl

end MaintenanceStep

/-- The command that leaves no refresh owed is the last refresh. -/
theorem MaintenanceStep.last {candidate : MaintenanceCandidate} {time : Nat}
    (step : MaintenanceStep config mapper now s candidate time t) (one : s.ctl.OwesOneKind)
    (owed : s.ctl.refreshOwed = true) (settled : t.ctl.refreshOwed = false) :
    (candidate.command = .refreshAllBank ∨ candidate.command = .refreshPerBank) ∧
      candidate.finalCommand = true := by
  obtain ⟨cursor, plan⟩ := step.plan
  obtain ⟨all, perBank⟩ := Bool.or_eq_false_iff.mp settled
  have kind : candidate.command = .refreshAllBank ∨ candidate.command = .refreshPerBank := by
    rcases Bool.or_eq_true_iff.mp owed with pending | pending
    · have settles := step.settles_all
      rw [pending, all] at settles
      exact .inl (eq_of_beq (Bool.toNat_eq_one.mp settles.symm))
    · obtain ⟨b, hb, pending⟩ := List.any_eq_true.mp pending
      obtain ⟨i, hi⟩ := List.getElem?_of_mem hb
      have after := List.getElem?_eq_getElem (l := t.ctl.banks) (i := i)
        (step.banks.1 ▸ (List.getElem?_eq_some_iff.mp hi).1)
      have settles := step.settles_bank one hi after
      have unflagged := Bool.eq_false_iff.mpr
        (List.any_eq_false.mp perBank _ (List.mem_of_getElem? after))
      rw [pending, unflagged] at settles
      have refreshes := Bool.and_eq_true _ _ |>.mp (Bool.toNat_eq_one.mp settles.symm)
      exact .inr (eq_of_beq refreshes.1)
  refine ⟨kind, ?_⟩
  rcases kind with kind | kind
  · exact (Bool.and_eq_true _ _ |>.mp ((plan.serves (.inl rfl)).mp kind)).1
  · exact (Bool.and_eq_true _ _ |>.mp ((plan.serves (.inr rfl)).mp kind)).1

/-! ### All rounds -/

/-- What holds of no round, and is kept by putting a round in front, holds of the loop. -/
theorem IdleRounds.induct (wiring : Wiring config mapper)
    {P : Nat → ControllerState → List (MaintenanceCandidate × Nat) → ControllerState → Prop}
    (stop : ∀ cursor s, P cursor s [] s)
    (round : ∀ {cursor s u t candidate rounds cursor'}, s.ctl.refreshOwed = true →
      MaintenanceStep config mapper 0 s candidate (max cursor candidate.readyAt) u →
      max cursor candidate.readyAt ≤ cursor' → P cursor' u rounds t →
      P cursor s ((candidate, max cursor candidate.readyAt) :: rounds) t)
    {cursor : Nat} {rounds : List (MaintenanceCandidate × Nat)}
    (ran : IdleRounds config mapper cursor s rounds t) (sound : Sound config mapper s.ctl) :
    P cursor s rounds t := by
  induction ran with
  | stop => exact stop _ _
  | @round cursor s u t candidate rounds owed chosen issued rest ih =>
      have timely : Timely 0 s.ctl (max cursor candidate.readyAt) := .inl (Nat.zero_le _)
      have step := maintenanceStep_of_round wiring sound owed chosen issued timely
      exact round owed step (Nat.le_max_left _ _) (ih (sound.step (.maintain step)))

theorem countP_cons_toNat {α : Type} (p : α → Bool) (a : α) (l : List α) :
    (a :: l).countP p = (p a).toNat + l.countP p := by
  rw [List.countP_cons, Nat.add_comm]
  cases p a <;> rfl

namespace IdleRounds

variable {cursor : Nat} {rounds : List (MaintenanceCandidate × Nat)}

/-- The rounds issue in order. -/
theorem ordered (wiring : Wiring config mapper) (ran : IdleRounds config mapper cursor s rounds t)
    (sound : Sound config mapper s.ctl) : (cursor :: rounds.map (·.2)).Pairwise (· ≤ ·) := by
  refine ran.induct wiring (P := fun cursor _ rounds _ =>
    (cursor :: rounds.map (·.2)).Pairwise (· ≤ ·)) (fun _ _ => by simp) ?_ sound
  intro cursor s u t candidate rounds cursor' _ _ later rest
  obtain ⟨after, rest⟩ := List.pairwise_cons.mp rest
  have ready := Nat.le_max_left cursor candidate.readyAt
  rw [List.map_cons, List.pairwise_cons, List.pairwise_cons, List.forall_mem_cons]
  refine ⟨⟨ready, fun time member => ?_⟩, fun time member => ?_, rest⟩
  · exact Nat.le_trans (Nat.le_trans ready later) (after time member)
  · exact Nat.le_trans later (after time member)

/-- Every round puts one command on record. -/
theorem recorded (wiring : Wiring config mapper) (ran : IdleRounds config mapper cursor s rounds t)
    (sound : Sound config mapper s.ctl) : t.ctl.recorded.map RecordedCommand.issue =
      (rounds.map issueOf).reverse ++ s.ctl.recorded.map RecordedCommand.issue := by
  refine ran.induct wiring (P := fun _ s rounds t => t.ctl.recorded.map RecordedCommand.issue =
    (rounds.map issueOf).reverse ++ s.ctl.recorded.map RecordedCommand.issue)
    (fun _ _ => rfl) ?_ sound
  intro cursor s u t candidate rounds cursor' _ step _ rest
  obtain ⟨address, records⟩ := step.records
  rw [rest, records, List.map_cons, List.map_cons, List.reverse_cons, List.append_assoc]
  rfl

theorem settles_all (wiring : Wiring config mapper)
    (ran : IdleRounds config mapper cursor s rounds t) (sound : Sound config mapper s.ctl) :
    s.ctl.refreshPending.toNat =
      rounds.countP (fun r => refreshesAll r.1) + t.ctl.refreshPending.toNat := by
  refine ran.induct wiring (P := fun _ s rounds t => s.ctl.refreshPending.toNat =
    rounds.countP (fun r => refreshesAll r.1) + t.ctl.refreshPending.toNat)
    (fun _ _ => (Nat.zero_add _).symm) ?_ sound
  intro cursor s u t candidate rounds cursor' _ step _ rest
  rw [step.settles_all, rest, countP_cons_toNat, Nat.add_assoc]

/-- What the rounds do to a bank. -/
theorem bank (wiring : Wiring config mapper) (ran : IdleRounds config mapper cursor s rounds t)
    (sound : Sound config mapper s.ctl) (one : s.ctl.OwesOneKind) {i : Nat} {b : HbmBankState}
    (hb : s.ctl.banks[i]? = some b) : ∃ b', t.ctl.banks[i]? = some b' ∧
      b.refreshPending.toNat =
        rounds.countP (fun r => refreshesBank i r.1) + b'.refreshPending.toNat ∧
      (b.openRow = none → b'.openRow = none) ∧
      ∀ r ∈ rounds, r.1.command.isAllBank = true ∨ i = r.1.localBank → b'.openRow = none := by
  refine ran.induct wiring (P := fun _ s rounds t => s.ctl.OwesOneKind →
    ∀ b, s.ctl.banks[i]? = some b → ∃ b', t.ctl.banks[i]? = some b' ∧
      b.refreshPending.toNat =
        rounds.countP (fun r => refreshesBank i r.1) + b'.refreshPending.toNat ∧
      (b.openRow = none → b'.openRow = none) ∧
      ∀ r ∈ rounds, r.1.command.isAllBank = true ∨ i = r.1.localBank → b'.openRow = none)
    (fun _ _ _ b hb => ⟨b, hb, (Nat.zero_add _).symm, id, nofun⟩) ?_ sound one b hb
  intro cursor s u t candidate rounds cursor' _ step _ rest one b hb
  have after := List.getElem?_eq_getElem (l := u.ctl.banks) (i := i)
    (step.banks.1 ▸ (List.getElem?_eq_some_iff.mp hb).1)
  obtain ⟨covered, closed⟩ := step.closes hb after
  obtain ⟨b', hb', settles, stays, covers⟩ := rest (step.owesOneKind one) _ after
  refine ⟨b', hb', ?_, fun h => stays (closed h), List.forall_mem_cons.mpr
    ⟨fun h => stays (covered h), covers⟩⟩
  rw [step.settles_bank one hb after, settles, countP_cons_toNat, Nat.add_assoc]

theorem counts (wiring : Wiring config mapper) (ran : IdleRounds config mapper cursor s rounds t)
    (sound : Sound config mapper s.ctl) :
    (t.stats.channels config.channel).refreshes =
        (s.stats.channels config.channel).refreshes + rounds.countP (fun r => refreshesAll r.1) ∧
      (t.stats.channels config.channel).perBankRefreshes =
        (s.stats.channels config.channel).perBankRefreshes +
          rounds.countP (fun r => r.1.command == .refreshPerBank) := by
  refine ran.induct wiring (P := fun _ s rounds t =>
    (t.stats.channels config.channel).refreshes =
        (s.stats.channels config.channel).refreshes + rounds.countP (fun r => refreshesAll r.1) ∧
      (t.stats.channels config.channel).perBankRefreshes =
        (s.stats.channels config.channel).perBankRefreshes +
          rounds.countP (fun r => r.1.command == .refreshPerBank))
    (fun _ _ => ⟨rfl, rfl⟩) ?_ sound
  intro cursor s u t candidate rounds cursor' _ step _ rest
  obtain ⟨all, perBank⟩ := step.counts
  rw [rest.1, rest.2, all, perBank, countP_cons_toNat, countP_cons_toNat, Nat.add_assoc,
    Nat.add_assoc]
  exact ⟨rfl, rfl⟩

/-- Every round issues for a bank of the channel. -/
theorem placed (wiring : Wiring config mapper) (ran : IdleRounds config mapper cursor s rounds t)
    (sound : Sound config mapper s.ctl) : ∀ r ∈ rounds, r.1.localBank < s.ctl.banks.length := by
  refine ran.induct wiring (P := fun _ s rounds _ => ∀ r ∈ rounds,
    r.1.localBank < s.ctl.banks.length) (fun _ _ => nofun) ?_ sound
  intro cursor s u t candidate rounds cursor' _ step _ rest
  obtain ⟨bound, plan⟩ := step.plan
  rw [step.banks.1] at rest
  exact List.forall_mem_cons.mpr ⟨plan.localBank_lt, rest⟩

/-- The last round is the last refresh, and blocks the channel for its duration. -/
theorem last (wiring : Wiring config mapper) (ran : IdleRounds config mapper cursor s rounds t)
    (sound : Sound config mapper s.ctl) (one : s.ctl.OwesOneKind)
    (owed : s.ctl.refreshOwed = true) (settled : t.ctl.refreshOwed = false) :
    ∃ candidate time, rounds.getLast? = some (candidate, time) ∧
      (candidate.command = .refreshAllBank ∨ candidate.command = .refreshPerBank) ∧
      t.ctl.refreshBusyUntil =
        SimTime.add time (maintenanceDuration candidate.command config.timing) := by
  have either := ran.induct wiring (P := fun _ s rounds t => s.ctl.OwesOneKind →
    t.ctl.refreshOwed = false → (rounds = [] ∧ s = t) ∨
      ∃ candidate time, rounds.getLast? = some (candidate, time) ∧
        (candidate.command = .refreshAllBank ∨ candidate.command = .refreshPerBank) ∧
        t.ctl.refreshBusyUntil =
          SimTime.add time (maintenanceDuration candidate.command config.timing))
    (fun _ _ _ _ => .inl ⟨rfl, rfl⟩) ?_ sound one settled
  · rcases either with ⟨-, rfl⟩ | last
    · exact nomatch owed.symm.trans settled
    · exact last
  intro cursor s u t candidate rounds cursor' owed step _ rest one settled
  rcases rest (step.owesOneKind one) settled with ⟨rfl, rfl⟩ | ⟨last, time, final, kind, busy⟩
  · obtain ⟨kind, final⟩ := step.last one owed settled
    exact .inr ⟨candidate, _, rfl, kind, step.blocks final⟩
  · refine .inr ⟨last, time, ?_, kind, busy⟩
    rw [List.getLast?_cons, final]
    rfl

end IdleRounds

/-! ### The call -/

/-- The loop runs until no refresh is owed, on any channel with addressable banks. -/
theorem applyIdleRefresh_rounds (wiring : Wiring config mapper) (sound : Sound config mapper s.ctl)
    (due : Nat) : Exits (applyIdleRefresh config mapper due)
      (fun _ t => ∃ rounds, IdleRounds config mapper (max due s.ctl.refreshBusyUntil)
        (s.modifyCtl (·.raise config due)) rounds t ∧ t.ctl.refreshOwed = false)
      (fun e _ => Unplaced config mapper e) s := by
  unfold applyIdleRefresh
  simp only [exits_bind, exits_get]
  refine (raiseRefresh_raises sound due).mono (fun _ u h => ?_) (fun e u h => h.2)
  obtain ⟨rfl, bank⟩ := h
  have busy : (s.modifyCtl (·.raise config due)).ctl.refreshBusyUntil = s.ctl.refreshBusyUntil := by
    show (s.ctl.raise config due).refreshBusyUntil = _
    rw [raise_frame]
  rw [busy]
  refine (idleRefreshLoop_rounds wiring (sound.raise due bank) (Nat.le_refl _)).mono
    (fun _ t h => h) (fun e t h => ?_)
  obtain ⟨taken, -, unplaced⟩ := h
  exact unplaced

/-- The channel owes refreshes of the kind its policy raises. -/
structure OwesByPolicy (config : HbmControllerConfig) (c : HbmController) : Prop where
  perBank : config.refreshPolicy = .perBank → c.refreshPending = false
  allBank : config.refreshPolicy.usesAllBankRefresh = true → ∀ b ∈ c.banks, b.refreshPending = false

section

variable {c : HbmController} {due : Nat}

theorem OwesByPolicy.raise_pending (owes : c.OwesByPolicy config) :
    (c.raise config due).refreshPending = config.refreshPolicy.usesAllBankRefresh := by
  unfold HbmController.raise
  cases policy : config.refreshPolicy with
  | allBank => rfl
  | perBank => exact owes.perBank policy

theorem OwesByPolicy.raise_owesOneKind (owes : c.OwesByPolicy config) :
    (c.raise config due).OwesOneKind := by
  intro pending
  rw [owes.raise_pending] at pending
  exact raise_unflagged pending (owes.allBank pending)

end

/-- The refresh of an idle channel at `due` is discharged by these rounds. -/
structure Discharged (config : HbmControllerConfig) (mapper : HbmAddressMapper) (due : Nat)
    (s t : ControllerState) (rounds : List (MaintenanceCandidate × Nat)) : Prop where
  /-- The rounds are those of the loop, from the state in which the obligation is raised. -/
  ran : IdleRounds config mapper (max due s.ctl.refreshBusyUntil)
    (s.modifyCtl (·.raise config due)) rounds t
  settled : t.ctl.refreshPending = false ∧ ∀ b ∈ t.ctl.banks, b.refreshPending = false
  recorded : t.ctl.recorded.map RecordedCommand.issue =
    (rounds.map issueOf).reverse ++ s.ctl.recorded.map RecordedCommand.issue
  ordered : (max due s.ctl.refreshBusyUntil :: rounds.map (·.2)).Pairwise (· ≤ ·)
  placed : ∀ r ∈ rounds, r.1.localBank < s.ctl.banks.length
  allBank : rounds.countP (fun r => refreshesAll r.1) =
    if config.refreshPolicy.usesAllBankRefresh then 1 else 0
  perBank : ∀ (i : Nat) (b : HbmBankState), (s.ctl.raise config due).banks[i]? = some b →
    rounds.countP (fun r => refreshesBank i r.1) = b.refreshPending.toNat
  counted : (t.stats.channels config.channel).refreshes =
      (s.stats.channels config.channel).refreshes + rounds.countP (fun r => refreshesAll r.1) ∧
    (t.stats.channels config.channel).perBankRefreshes =
      (s.stats.channels config.channel).perBankRefreshes +
        rounds.countP (fun r => r.1.command == .refreshPerBank)
  closed : ∀ r ∈ rounds, ∀ (i : Nat) (b : HbmBankState), t.ctl.banks[i]? = some b →
    r.1.command.isAllBank = true ∨ i = r.1.localBank → b.openRow = none
  blocked : ∃ candidate time, rounds.getLast? = some (candidate, time) ∧
    (candidate.command = .refreshAllBank ∨ candidate.command = .refreshPerBank) ∧
    (time + maintenanceDuration candidate.command config.timing < 2 ^ 64 →
      t.ctl.refreshBusyUntil = time + maintenanceDuration candidate.command config.timing)

theorem IdleRounds.discharged (wiring : Wiring config mapper) (sound : Sound config mapper s.ctl)
    (owes : s.ctl.OwesByPolicy config) {due : Nat}
    (bank : config.refreshPolicy = .perBank → s.ctl.nextPerBankRefresh < s.ctl.banks.length)
    {rounds : List (MaintenanceCandidate × Nat)}
    (ran : IdleRounds config mapper (max due s.ctl.refreshBusyUntil)
      (s.modifyCtl (·.raise config due)) rounds t) (settled : t.ctl.refreshOwed = false) :
    Discharged config mapper due s t rounds := by
  have sound' : Sound config mapper (s.ctl.raise config due) := sound.raise due bank
  have one : (s.ctl.raise config due).OwesOneKind := owes.raise_owesOneKind
  obtain ⟨pending, flags⟩ := Bool.or_eq_false_iff.mp settled
  have unflagged : ∀ b ∈ t.ctl.banks, b.refreshPending = false := fun b hb =>
    Bool.eq_false_iff.mpr (List.any_eq_false.mp flags b hb)
  have recorded : (s.ctl.raise config due).recorded = s.ctl.recorded := by rw [raise_frame]
  have length : (s.ctl.raise config due).banks.length = s.ctl.banks.length :=
    sound'.banks.trans sound.banks.symm
  have timely : Timely 0 (s.ctl.raise config due) (max due s.ctl.refreshBusyUntil) :=
    .inl (Nat.zero_le _)
  have after : Sound config mapper t.ctl :=
    Steps.sound (ran.steps wiring sound' timely).1 sound'
  obtain ⟨candidate, time, final, kind, busy⟩ :=
    ran.last wiring sound' one (raise_owed bank) settled
  constructor
  case ran => exact ran
  case settled => exact ⟨pending, unflagged⟩
  case recorded => exact recorded ▸ ran.recorded wiring sound'
  case ordered => exact ran.ordered wiring sound'
  case placed => exact length ▸ ran.placed wiring sound'
  case allBank =>
    have settles := ran.settles_all wiring sound'
    replace settles : (s.ctl.raise config due).refreshPending.toNat = _ := settles
    rw [pending, owes.raise_pending] at settles
    cases policy : config.refreshPolicy.usesAllBankRefresh <;> rw [policy] at settles <;>
      exact settles.symm
  case perBank =>
    intro i b hb
    obtain ⟨b', hb', settles, -⟩ := ran.bank wiring sound' one hb
    rw [unflagged b' (List.mem_of_getElem? hb')] at settles
    exact settles.symm
  case counted =>
    have counts := ran.counts wiring sound'
    exact counts
  case closed =>
    intro r member i b' hb' covers
    have same := after.banks.trans sound'.banks.symm
    have hb := List.getElem?_eq_getElem (l := (s.ctl.raise config due).banks) (i := i)
      (same ▸ (List.getElem?_eq_some_iff.mp hb').1)
    obtain ⟨b'', hb'', -, -, closed⟩ := ran.bank wiring sound' one hb
    obtain rfl := Option.some.inj (hb'.symm.trans hb'')
    exact closed r member covers
  case blocked =>
    exact ⟨candidate, time, final, kind, fun fits => busy.trans (SimTime.add_of_lt fits)⟩

/-- The refresh of an idle channel ends, and discharges the obligation raised at `due` unless a
time leaves 64 bits. -/
def DischargesRefresh (config : HbmControllerConfig) (mapper : HbmAddressMapper) (due : Nat)
    (s : ControllerState) : Prop :=
  (∃ t rounds, applyIdleRefresh config mapper due s = .ok () t ∧
    Discharged config mapper due s t rounds) ∨
  ∃ e t, applyIdleRefresh config mapper due s = .error e t ∧ e.isOverflow = true

theorem dischargesRefresh_of_addressable (wiring : Wiring config mapper)
    (addressable : Addressable config mapper) (sound : Sound config mapper s.ctl)
    (owes : s.ctl.OwesByPolicy config) (due : Nat) : DischargesRefresh config mapper due s := by
  have some_bank : s.ctl.banks ≠ [] := List.ne_nil_of_length_pos (sound.banks ▸ addressable.banks)
  have exits := applyIdleRefresh_rounds wiring sound due
  cases run : applyIdleRefresh config mapper due s with
  | ok _ t =>
      obtain ⟨rounds, ran, settled⟩ := exits.of_ok run
      exact .inl ⟨t, rounds, run,
        ran.discharged wiring sound owes (fun _ => sound.rotation some_bank) settled⟩
  | error e t =>
      rcases exits.of_error run with overflow | ⟨-, missing⟩
      · exact .inr ⟨e, t, run, overflow⟩
      · exact absurd addressable missing

/-- The all-bank refresh is planned on the first bank. -/
theorem idleRefreshLoop_of_no_banks (none : s.ctl.banks = [])
    (pending : s.ctl.refreshPending = true)
    (rounds cursor : Nat) : Exits (idleRefreshLoop config mapper rounds cursor) (fun _ _ => False)
      (fun e _ => e.isOverflow = false) s := by
  have owed : s.ctl.refreshOwed = true := by
    unfold refreshOwed
    rw [pending, Bool.true_or]
  have undefined : chooseMaintenance config mapper s.ctl cursor = .error .undefined := by
    unfold chooseMaintenance
    rw [if_pos pending, none]
  unfold idleRefreshLoop
  simp only [exits_bind, exits_get, owed, Bool.not_true, Bool.false_eq_true, if_false]
  cases rounds with
  | zero => rfl
  | succ rounds =>
      simp only [exits_bind, exits_ofExcept, undefined]
      refine ⟨fun choice chosen => ?_, fun e thrown => ?_⟩
      · cases chosen
      · cases thrown
        rfl

/-- Without a bank there is nothing to issue a command for. -/
theorem applyIdleRefresh_of_no_banks (none : s.ctl.banks = []) (due : Nat) :
    Exits (applyIdleRefresh config mapper due) (fun _ _ => False) (fun e _ => e.isOverflow = false)
      s := by
  have range : ∀ e : HbmError, e.isRange = true → e.isOverflow = false := by
    intro e range
    cases e <;> first | rfl | cases range
  unfold applyIdleRefresh raiseRefresh
  cases policy : config.refreshPolicy with
  | allBank =>
      simp only [exits_bind, exits_get, RefreshPolicy.usesAllBankRefresh, if_true, exits_modify]
      refine idleRefreshLoop_of_no_banks ?_ ?_ _ _
      · exact none
      · rfl
  | perBank =>
      simp only [exits_bind, exits_get, RefreshPolicy.usesAllBankRefresh, Bool.false_eq_true,
        if_false, exits_ofExcept, exits_modify, vectorAt_ok, none]
      refine ⟨fun bank found => ?_, fun e thrown => range e (vectorAt_error thrown).2⟩
      cases found

end HbmController

/-! ### Every channel of every device -/

section

open HbmController

variable {cfg : HbmConfig} {escapes : HbmError → Prop} {system : HbmSystem} {channel : Nat}

/-- The banks of a channel lie among those of the mapper, if it has any. -/
theorem HbmConfig.addressable (present : channel < cfg.channelCount)
    (banks : cfg.banksPerChannel ≠ 0) : Addressable (cfg.channelConfig channel) cfg.mapper := by
  have within : (channel + 1) * cfg.banksPerChannel ≤ cfg.mapper.bankCount :=
    Nat.le_trans (Nat.mul_le_mul_right _ present) (by
      rw [Nat.mul_comm]
      exact Nat.div_mul_le_self _ _)
  have count : cfg.mapper.bankCount < 2 ^ 32 := u32_lt _
  rw [Nat.succ_mul] at within
  refine ⟨Nat.pos_of_ne_zero banks, fun index inside => ?_⟩
  replace inside : index < cfg.banksPerChannel := inside
  have first : (cfg.channelConfig channel).firstFlatBank = channel * cfg.banksPerChannel :=
    u32_of_lt (by omega)
  rw [first, u32_of_lt (by omega)]
  unfold HbmAddressMapper.bankAddress
  dsimp only
  rw [if_neg (by omega)]
  exact ⟨_, rfl⟩

/-- In every state the controller of a channel passes, it owes refreshes of the kind its policy
raises. -/
theorem Passes.owesByPolicy (reached : Reachable cfg escapes system) {c : ControllerState}
    (passes : Passes cfg system channel c) :
    c.ctl.OwesByPolicy (cfg.channelConfig channel) := by
  obtain ⟨valid, -, d, point, -⟩ := reached.point
  have both : Obliged (cfg.channelConfig channel) c ∧
      ((cfg.channelConfig channel).refreshPolicy.usesAllBankRefresh = true →
        ∀ b ∈ c.ctl.banks, b.refreshPending = false) := by
    induction passes with
    | still =>
        have served := point.run.served valid.checked channel
        exact ⟨served.obliged, served.perBank⟩
    | @disarm c due _ ih =>
        obtain ⟨obliged, unflagged⟩ := ih
        have same : (c.ctl.disarm due) = { c.ctl with refreshDueAt := (c.ctl.disarm due).refreshDueAt } := by
          unfold HbmController.disarm
          split <;> rfl
        have banks : (c.ctl.disarm due).banks = c.ctl.banks := by rw [same]
        refine ⟨obliged.frame ?_ ?_ ⟨rfl, rfl⟩, fun policy => ?_⟩
        · show SameRefresh c.ctl (c.ctl.disarm due)
          rw [same]
          exact ⟨rfl, rfl, rfl, rfl, rfl, rfl⟩
        · exact congrArg (List.countP _) banks
        · show ∀ b ∈ (c.ctl.disarm due).banks, _
          rw [banks]
          exact unflagged policy
    | step before step ih =>
        have entry : Entry (cfg.channelConfig channel) cfg.mapper _ False _ _ :=
          Beat.entry (before.sound reached) (.step step)
        exact ⟨ih.1.entry entry, fun policy => entry.unflagged policy (ih.2 policy)⟩
  exact ⟨both.1.perBank, both.2⟩

/-- **The refresh of an idle channel discharges exactly its obligation**, in every state the
controller passes and whatever the due instant, if and only if the channel has a bank: the
topology's banks, counted in 32 bits, are as many as its channels. -/
theorem idle_refresh_discharges_iff (reached : Reachable cfg escapes system)
    (present : channel < cfg.channelCount) {c : ControllerState}
    (passes : Passes cfg system channel c) (due : Nat) :
    DischargesRefresh (cfg.channelConfig channel) cfg.mapper due c ↔ cfg.banksPerChannel ≠ 0 := by
  have sound := passes.sound reached
  obtain ⟨valid, -⟩ := reached.point
  constructor
  · intro discharges none
    have no_banks : c.ctl.banks = [] := List.eq_nil_of_length_eq_zero (sound.banks.trans none)
    have exits := @applyIdleRefresh_of_no_banks (cfg.channelConfig channel) cfg.mapper c no_banks due
    rcases discharges with ⟨t, rounds, run, -⟩ | ⟨e, t, run, overflow⟩
    · exact exits.of_ok run
    · exact nomatch overflow.symm.trans (exits.of_error run)
  · intro banks
    exact dischargesRefresh_of_addressable (valid.checked.wiring channel)
      (HbmConfig.addressable present banks) sound (passes.owesByPolicy reached) due

/-- A refresh falls due while a read waits on its open row. -/
theorem idle_refresh_discharges_open : ∃ s : HbmSystem,
    (s.controllers 0).anyOpen = true ∧ (s.controllers 0).readQueue ≠ [] ∧
      DischargesRefresh (HbmConfig.hbm2_2000.channelConfig 0) HbmConfig.hbm2_2000.mapper 20000
        (s.side 0) := by
  obtain ⟨s, reached, final⟩ := exists_reachable .hbm2_2000 NoEscape
    (submit (.read 1 0 32) :: dispatches 1)
    (fun s => (s.controllers 0).anyOpen && decide ((s.controllers 0).readQueue ≠ []))
    (by decide) (by decide) (by decide +kernel)
  obtain ⟨open_, waiting⟩ := Bool.and_eq_true _ _ |>.mp final
  exact ⟨s, open_, of_decide_eq_true waiting,
    (idle_refresh_discharges_iff reached (by decide) .still 20000).mpr (by decide)⟩

/-- A device whose 65536 bank groups of 65536 banks are no banks in 32 bits. -/
def HbmConfig.manyBanks : HbmConfig :=
  { device :=
      { customOrganization :=
          { DeviceSpec.custom.customOrganization with
            topology := { bankGroupsPerPseudoChannel := 65536, banksPerBankGroup := 65536 } } }
    controller := { refreshInterval := 1000000 } }

/-- The front of an empty vector is asked for the first command of its refresh. -/
theorem idle_refresh_undischarged : ¬ ∀ (cfg : HbmConfig) (system : HbmSystem) (channel due : Nat)
    (c : ControllerState), Reachable cfg NoEscape system → channel < cfg.channelCount →
      Passes cfg system channel c →
      DischargesRefresh (cfg.channelConfig channel) cfg.mapper due c := by
  intro claim
  have reached : Reachable .manyBanks NoEscape (initial .manyBanks) :=
    reachable_initial (by decide) (by decide)
  have exits := @applyIdleRefresh_of_no_banks (HbmConfig.manyBanks.channelConfig 0)
    HbmConfig.manyBanks.mapper ((initial .manyBanks).side 0) rfl 0
  rcases claim .manyBanks _ 0 0 _ reached (by decide) .still with ⟨t, rounds, run, -⟩ |
    ⟨e, t, run, overflow⟩
  · exact exits.of_ok run
  · exact nomatch overflow.symm.trans (exits.of_error run)

end

end HbmSim
