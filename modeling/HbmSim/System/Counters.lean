import HbmSim.System.Classes
import HbmSim.System.Conservation
import HbmSim.System.Spending

/-!
The counters of commands.

The commands of a kind are counted where they are recorded, so that a counter of the
statistics is the number of commands of its kind on all channels.
-/

namespace HbmSim

open HbmSim.Lib HbmSystem

/-- The counters of commands agree. -/
structure SameCounts (a b : HbmStats) : Prop where
  acts : b.actCommands = a.actCommands
  precharges : b.preCommands = a.preCommands
  reads : b.readCommands = a.readCommands
  writes : b.writeCommands = a.writeCommands
  issued : b.issuedCommands = a.issuedCommands

/-- A counter of the statistics for the commands of a kind. -/
structure CommandCounter where
  value : HbmStats → Nat
  counts : HbmCommand → Bool
  command : ∀ config stats r,
    value (HbmController.countCommand config stats r) = value stats + (counts r.command).toNat
  same : ∀ {a b : HbmStats}, SameCounts a b → value b = value a
  start : value {} = 0

theorem SameCounts.refl (stats : HbmStats) : SameCounts stats stats := ⟨rfl, rfl, rfl, rfl, rfl⟩

namespace CommandCounter

open HbmController

def acts : CommandCounter where
  value := (·.actCommands)
  counts := (· == .act)
  command _ _ r := by
    obtain ⟨k⟩ := r
    cases k <;> rfl
  same h := h.acts
  start := rfl

def precharges : CommandCounter where
  value := (·.preCommands)
  counts := (·.isPrecharge)
  command _ _ r := by
    obtain ⟨k⟩ := r
    cases k <;> rfl
  same h := h.precharges
  start := rfl

theorem countCommand_data (config : HbmControllerConfig) (stats : HbmStats) (r : RecordedCommand) :
    (countCommand config stats r).readCommands + (countCommand config stats r).writeCommands =
      stats.readCommands + stats.writeCommands + r.command.isData.toNat := by
  obtain ⟨k⟩ := r
  cases k <;> simp [countCommand, HbmCommand.isData, HbmStats.modifyChannel] <;> omega

def data : CommandCounter where
  value stats := stats.readCommands + stats.writeCommands
  counts := (·.isData)
  command := countCommand_data
  same h := by rw [h.reads, h.writes]
  start := rfl

def issued : CommandCounter where
  value := (·.issuedCommands)
  counts _ := true
  command _ _ r := by
    obtain ⟨k⟩ := r
    cases k <;> rfl
  same h := h.issued
  start := rfl

end CommandCounter

section

open HbmController

variable {config : HbmControllerConfig} {mapper : HbmAddressMapper} {s t : ControllerState}
  {now : Nat} (k : CommandCounter)

/-- The counter grows with the commands of its kind. -/
def Counts (s t : ControllerState) : Prop :=
  k.value t.stats + s.ctl.recordedCount k.counts = k.value s.stats + t.ctl.recordedCount k.counts

variable {k}

variable (config) in

/-- A recorded command is counted. -/
theorem Counts.command {r : RecordedCommand} {stats : HbmStats} (appends : Appends r s t)
    (before : SameCounts s.stats stats) (after : SameCounts (countCommand config stats r) t.stats) :
    Counts k s t := by
  have counted := @recordedCount_cons s.ctl t.ctl r appends k.counts
  have value := (k.same after).trans (k.command config stats r)
  have same := k.same before
  unfold Counts
  omega

/-- Nothing recorded, nothing counted. -/
theorem Counts.none
    (recorded : t.ctl.recorded = s.ctl.recorded) (same : SameCounts s.stats t.stats) :
    Counts k s t := by
  unfold Counts recordedCount
  rw [recorded, k.same same]

variable (config) in

theorem countStarts_counts (stats : HbmStats) (items : List HbmAccess) (at_ : Nat) :
    SameCounts stats (countStarts config stats items at_) := by
  unfold countStarts
  split <;> exact ⟨rfl, rfl, rfl, rfl, rfl⟩

/-- A maintenance command is counted once. -/
theorem HbmController.MaintenanceStep.commandCounts {candidate : MaintenanceCandidate} {time : Nat}
    (step : MaintenanceStep config mapper now s candidate time t) : Counts k s t := by
  cases step with
  | @mk _ address banks =>
      refine .command config (maintained_appends candidate address banks time)
        (SameCounts.refl s.stats) ?_
      unfold maintained
      dsimp only
      split
      · unfold countMaintenance
        split <;> exact ⟨rfl, rfl, rfl, rfl, rfl⟩
      · exact .refl _

/-- So is every command but a transfer's. -/
theorem HbmController.ControllerStep.commandCounts (step : ControllerStep config mapper now s t) :
    Counts k s t := by
  cases step with
  | retouch touched =>
      obtain ⟨f, -, hf⟩ := touched.stats
      refine .none touched.recorded ?_
      rw [hf]
      exact ⟨rfl, rfl, rfl, rfl, rfl⟩
  | raise due =>
      refine .none ?_ ⟨rfl, rfl, rfl, rfl, rfl⟩
      show (HbmController.raise config s.ctl _).recorded = s.ctl.recorded
      unfold HbmController.raise
      split <;> rfl
  | advanceDue => exact .none rfl ⟨rfl, rfl, rfl, rfl, rfl⟩
  | maintain step => exact step.commandCounts
  | row step =>
      cases step with
      | activate =>
          exact .command config activated_appends (countStarts_counts config _ _ _)
            ⟨rfl, rfl, rfl, rfl, rfl⟩
      | precharge =>
          exact .command config precharged_appends (countStarts_counts config _ _ _)
            ⟨rfl, rfl, rfl, rfl, rfl⟩

/-- So is a transfer's. -/
theorem HbmController.DataStep.commandCounts {physical : PhysicalAccess}
    (step : DataStep config mapper now s physical t) : Counts k s t := by
  cases step with
  | @mk w index bankIndex busReady duration a command priority banks slot =>
      refine .command config transferred_appends (countStarts_counts config _ [a] now) ?_
      obtain ⟨acts, precharges, reads, writes, issued⟩ :=
        countStarts_counts config (takenState config s w index a
          ⟨command, a.address, bankIndex, now, some a.sequence⟩ banks).stats
            (takeAccesses config (commandIssued config s w index a
              ⟨command, a.address, bankIndex, now, some a.sequence⟩).ctl w index (leader a now)).1
                slot.issuedAt
      exact ⟨acts, precharges, reads, writes, issued⟩

/-- A lost transfer's command was counted too. -/
theorem HbmController.LostStep.commandCounts {lost : List LogicalAccess}
    (step : LostStep config mapper now s lost t) : Counts k s t := by
  cases step with
  | mk =>
      exact .command config taken_appends (countStarts_counts config _ _ _)
        ⟨rfl, rfl, rfl, rfl, rfl⟩

/-! ### Runs -/

end

section

open HbmController

variable {cfg : HbmConfig} {s t : HbmSystem} {d : Debts} (k : CommandCounter)

/-- The commands of a kind that a channel has recorded. -/
def countedOn (c : HbmController) (_ : ChannelStats) : Nat := c.recordedCount k.counts

/-- The counter is the number of commands of its kind. -/
def Counted (cfg : HbmConfig) (s : HbmSystem) : Prop := k.value s.stats = s.total cfg (countedOn k)

variable {k}

/-- A step of one controller counts on its channel. -/
theorem Counted.step (h : Counted k cfg s) {channel : Nat} {u : ControllerState}
    (hchannel : channel < cfg.channelCount)
    (stats : ∀ ch ≠ channel, u.stats.channels ch = s.stats.channels ch)
    (counts : Counts k (s.side channel) u) : Counted k cfg (s.update channel u) := by
  have total := total_step (s := s) hchannel stats (countedOn k)
  have counts : k.value u.stats + (s.controllers channel).recordedCount k.counts =
    k.value s.stats + u.ctl.recordedCount k.counts := counts
  unfold Counted countedOn at *
  show k.value u.stats = _
  omega

/-- A change that records and counts nothing. -/
theorem Counted.keep (h : Counted k cfg s) (stats : SameCounts s.stats t.stats)
    (recorded : ∀ ch, (t.controllers ch).recorded = (s.controllers ch).recorded) :
    Counted k cfg t := by
  unfold Counted at *
  rw [k.same stats, h]
  refine (total_congr (countedOn k) fun ch => ?_).symm
  unfold countedOn recordedCount
  rw [recorded]

/-- Marks of a controller are not counted. -/
theorem Counted.mark (h : Counted k cfg s) {channel : Nat} {c : HbmController}
    (controllers : ∀ ch, t.controllers ch = if ch = channel then c else s.controllers ch)
    (stats : SameCounts s.stats t.stats)
    (recorded : c.recorded = (s.controllers channel).recorded) :
    Counted k cfg t := by
  refine h.keep stats fun ch => ?_
  rw [controllers]
  split
  · subst ch
    exact recorded
  · rfl

/-- Every move keeps the counts. -/
theorem Counted.move {p q : HbmSystem × Debts} (move : Move cfg p q) (h : Counted k cfg p.1) :
    Counted k cfg q.1 := by
  have same : ∀ {s : HbmSystem}, SameCounts s.stats s.stats := .refl _
  cases move with
  | control hchannel step => exact h.step hchannel (fun _ apart =>
      step.stats_of_ne apart) step.commandCounts
  | stir hchannel step => exact h.step hchannel (fun _ apart =>
      step.stats_of_ne apart) step.commandCounts
  | transfer hchannel step =>
      exact (h.step hchannel (fun _ apart => step.stats_of_ne apart) step.commandCounts).keep same fun _ => rfl
  | @wake s d channel at_ => exact h.mark (markWake_controllers s channel at_) same rfl
  | @arm s d channel due => exact h.mark (markRefresh_controllers s channel due) same rfl
  | @misarm s d channel due =>
      have controllers := modifyController_controllers s channel fun c =>
        { c with refreshDueAt := some due }
      exact h.mark controllers same rfl
  | @charge s d parent access =>
      exact h.mark (charge_controllers s parent access) ⟨rfl, rfl, rfl, rfl, rfl⟩ rfl
  | @push s d access =>
      obtain ⟨f, hf⟩ := push_stats cfg s access
      refine h.mark (push_controllers cfg s access) ?_ rfl
      rw [hf]
      exact ⟨rfl, rfl, rfl, rfl, rfl⟩
  | @credit s d channel access parent =>
      refine h.mark (credit_controllers cfg s channel access parent) ?_ rfl
      obtain ⟨l, class_⟩ := access
      cases class_ <;> exact ⟨rfl, rfl, rfl, rfl, rfl⟩
  | _ => exact h.keep ⟨rfl, rfl, rfl, rfl, rfl⟩ fun _ => rfl

/-- Every turn keeps the counts. -/
theorem Counted.turn {p q : HbmSystem × Debts} (turn : Turn cfg p q) (h : Counted k cfg p.1) :
    Counted k cfg q.1 := by
  cases turn with
  | @wake s d event rest channel =>
      refine h.mark (modifyController_controllers (s.pop event rest) channel _) (.refl _) ?_
      show ((s.controllers channel).clearWakeup event.time).recorded = _
      unfold HbmController.clearWakeup
      split <;> rfl
  | @refreshDue s d event rest channel =>
      refine h.mark (modifyController_controllers (s.pop event rest) channel _) (.refl _) ?_
      show ((s.controllers channel).disarm event.time).recorded = _
      unfold HbmController.disarm
      split <;> rfl
  | lose hchannel step => exact h.step hchannel (fun _ apart =>
      step.stats_of_ne apart) step.commandCounts
  | _ => exact h.keep (.refl _) fun _ => rfl

/-- In every state of a run a counter is the number of commands of its kind. -/
theorem HbmSystem.Run.counted (k : CommandCounter) {p : HbmSystem × Debts} (run : Run cfg p) :
    Counted k cfg p.1 := by
  induction run with
  | create =>
      have none : (initial cfg).total cfg (countedOn k) = 0 :=
        Finset.sum_eq_zero fun _ _ => rfl
      have same : SameCounts {} (initial cfg).stats := ⟨rfl, rfl, rfl, rfl, rfl⟩
      exact (k.same same).trans (k.start.trans none.symm)
  | move _ move ih => exact ih.move move
  | turn _ turn ih => exact ih.turn turn

end

end HbmSim
