import HbmSim.System.Counters
import HbmSim.System.DataBuses

/-!
The counters of transfers.

A transfer is counted when it is reserved, with its bytes, so that a counter of the statistics
is a sum over the transfers of all channels.
-/

namespace HbmSim

open HbmSim.Lib HbmSystem

/-- The counters of transfers agree. -/
structure SameTransport (a b : HbmStats) : Prop where
  accesses : b.physicalAccesses = a.physicalAccesses
  reads : b.physicalReadBytes = a.physicalReadBytes
  writes : b.physicalWriteBytes = a.physicalWriteBytes

theorem SameTransport.refl (stats : HbmStats) : SameTransport stats stats := ⟨rfl, rfl, rfl⟩

theorem SameTransport.trans {a b c : HbmStats} (h : SameTransport a b) (h' : SameTransport b c) :
    SameTransport a c :=
  ⟨h'.accesses.trans h.accesses, h'.reads.trans h.reads, h'.writes.trans h.writes⟩

/-- A counter of the statistics over transfers. -/
structure TransferCounter where
  value : HbmStats → Nat
  weight : DataTransfer → Nat
  /-- What the reservation of a transfer adds. -/
  reserve : ∀ (config : HbmControllerConfig) (s : ControllerState) (x : DataTransfer) bankIndex taken
    address slot, value (HbmController.occupyBus config s x.isWrite bankIndex taken address x.bytes
      slot).stats = value s.stats + weight x
  same : ∀ {a b : HbmStats}, SameTransport a b → value b = value a
  start : value {} = 0

namespace TransferCounter

open HbmController

theorem countStarts_transport (config : HbmControllerConfig) (stats : HbmStats)
    (items : List HbmAccess) (at_ : Nat) :
    SameTransport stats (countStarts config stats items at_) := by
  unfold countStarts
  split <;> exact ⟨rfl, rfl, rfl⟩

theorem countCommand_transport (config : HbmControllerConfig) (stats : HbmStats)
    (r : RecordedCommand) : SameTransport stats (countCommand config stats r) := by
  obtain ⟨command⟩ := r
  cases command <;> exact ⟨rfl, rfl, rfl⟩

theorem countMaintenance_transport (config : HbmControllerConfig) (stats : HbmStats)
    (command : HbmCommand) : SameTransport stats (countMaintenance config stats command) := by
  unfold countMaintenance
  split <;> exact ⟨rfl, rfl, rfl⟩

/-- The starts of the accesses taken, and what else a transfer counts on its channel. -/
theorem occupied_transport (config : HbmControllerConfig) (stats : HbmStats)
    (taken served : List HbmAccess) (address : HbmAddress) (bankIndex : Nat) (slot : DataSlot) :
    SameTransport stats (countTransfer config (countStarts config stats taken slot.issuedAt) served
      address bankIndex slot) :=
  (countStarts_transport config stats taken slot.issuedAt).trans ⟨rfl, rfl, rfl⟩

def readBytes : TransferCounter where
  value := (·.physicalReadBytes)
  weight x := if x.isWrite then 0 else x.bytes
  reserve config s x bankIndex taken address slot :=
    congrArg (· + if x.isWrite then 0 else x.bytes)
      (occupied_transport config s.stats taken _ address bankIndex slot).reads
  same h := h.reads
  start := rfl

def writeBytes : TransferCounter where
  value := (·.physicalWriteBytes)
  weight x := if x.isWrite then x.bytes else 0
  reserve config s x bankIndex taken address slot :=
    congrArg (· + if x.isWrite then x.bytes else 0)
      (occupied_transport config s.stats taken _ address bankIndex slot).writes
  same h := h.writes
  start := rfl

/-- What the counter is over some transfers. -/
def sum (k : TransferCounter) (transfers : List DataTransfer) : Nat :=
  (transfers.map k.weight).sum

end TransferCounter

section

open HbmController

variable {config : HbmControllerConfig} {mapper : HbmAddressMapper} {s t : ControllerState}
  {now : Nat} (k : TransferCounter)

/-- The counter grows with the transfers. -/
def Transports (s t : ControllerState) : Prop :=
  k.value t.stats + k.sum s.ctl.transfers = k.value s.stats + k.sum t.ctl.transfers

variable {k}

/-- Nothing was transferred. -/
theorem Transports.none (transfers : t.ctl.transfers = s.ctl.transfers)
    (same : SameTransport s.stats t.stats) : Transports k s t := by
  unfold Transports
  rw [transfers, k.same same]

theorem HbmController.MaintenanceStep.transports {candidate : MaintenanceCandidate} {time : Nat}
    (step : MaintenanceStep config mapper now s candidate time t) : Transports k s t := by
  have transfers : t.ctl.transfers = s.ctl.transfers := by rw [step.frame]
  cases step with
  | mk =>
      refine .none transfers ?_
      unfold maintained
      dsimp only
      have command := fun r => TransferCounter.countCommand_transport config s.stats r
      split
      · exact (command _).trans (TransferCounter.countMaintenance_transport config _ _)
      · exact command _

theorem HbmController.ControllerStep.transports (step : ControllerStep config mapper now s t) :
    Transports k s t := by
  cases step with
  | retouch touched =>
      obtain ⟨f, -, hf⟩ := touched.stats
      refine .none ?_ ?_
      · rw [touched.ctl]
      · rw [hf]
        exact ⟨rfl, rfl, rfl⟩
  | raise due =>
      refine .none ?_ ⟨rfl, rfl, rfl⟩
      show (HbmController.raise config s.ctl _).transfers = s.ctl.transfers
      rw [raise_frame]
  | advanceDue => exact .none rfl ⟨rfl, rfl, rfl⟩
  | maintain step => exact step.transports
  | row step =>
      have transfers : t.ctl.transfers = s.ctl.transfers := by rw [step.frame]
      refine .none transfers ?_
      cases step with
      | activate =>
          rw [activatedState_stats]
          exact (TransferCounter.countStarts_transport config _ _ _).trans ⟨rfl, rfl, rfl⟩
      | precharge =>
          rw [prechargedState_stats]
          exact (TransferCounter.countStarts_transport config _ _ _).trans ⟨rfl, rfl, rfl⟩

theorem HbmController.LostStep.transports {lost : List LogicalAccess}
    (step : LostStep config mapper now s lost t) : Transports k s t := by
  have transfers : t.ctl.transfers = s.ctl.transfers := by rw [step.frame]
  cases step with
  | @mk w index bankIndex a command =>
      have counted := TransferCounter.countCommand_transport config
        (countStarts config s.stats [a] now) ⟨command, a.address, bankIndex, now, some a.sequence⟩
      exact .none transfers
        (((TransferCounter.countStarts_transport config s.stats [a] now).trans counted).trans
          ⟨rfl, rfl, rfl⟩)

theorem HbmController.DataStep.transports {physical : PhysicalAccess}
    (step : DataStep config mapper now s physical t) : Transports k s t := by
  cases step with
  | @mk w index bankIndex busReady duration a command priority banks slot =>
      let r : RecordedCommand := ⟨command, a.address, bankIndex, now, some a.sequence⟩
      let x : DataTransfer := ⟨w, a.address.pseudoChannel, a.sizeBytes, slot.issuedAt,
        slot.dataStart, slot.completion⟩
      let taken := takeAccesses config (commandIssued config s w index a r).ctl w index (leader a now)
      let before : ControllerState :=
        ⟨(taken.2.setBanks banks).noteSum slot.issuedAt slot.casLatency,
          (commandIssued config s w index a r).stats.modifyQueue config.channel fun q =>
            { q with mergedAccesses := q.mergedAccesses + (taken.1.length - 1) }⟩
      have reserved := k.reserve config before x bankIndex taken.1 a.address slot
      have counted : SameTransport s.stats before.stats :=
        ((TransferCounter.countStarts_transport config s.stats [a] now).trans
          (TransferCounter.countCommand_transport config _ r)).trans ⟨rfl, rfl, rfl⟩
      have transfers : (transferredState config s w index a r banks slot).ctl.transfers =
          x :: s.ctl.transfers := by
        rw [transferredState_ctl]
      unfold Transports
      rw [transfers]
      show k.value (occupyBus config before w bankIndex taken.1 a.address a.sizeBytes slot).stats +
        _ = _
      rw [reserved, k.same counted]
      unfold TransferCounter.sum
      rw [List.map_cons, List.sum_cons]
      omega

end

/-! ### Runs -/

section

open HbmController

variable {cfg : HbmConfig} {s t : HbmSystem} {d : Debts} (k : TransferCounter)

/-- The counter over the transfers of a channel. -/
def transportedOn (c : HbmController) (_ : ChannelStats) : Nat := k.sum c.transfers

/-- The counter is its sum over the transfers of all channels. -/
def Transported (cfg : HbmConfig) (s : HbmSystem) : Prop :=
  k.value s.stats = s.total cfg (transportedOn k)

variable {k}

/-- A step of one controller counts on its channel. -/
theorem Transported.step (h : Transported k cfg s) {channel : Nat} {u : ControllerState}
    (hchannel : channel < cfg.channelCount)
    (stats : ∀ ch ≠ channel, u.stats.channels ch = s.stats.channels ch)
    (counts : Transports k (s.side channel) u) : Transported k cfg (s.update channel u) := by
  have total := total_step (s := s) hchannel stats (transportedOn k)
  have counts : k.value u.stats + k.sum (s.controllers channel).transfers =
    k.value s.stats + k.sum u.ctl.transfers := counts
  unfold Transported transportedOn at *
  show k.value u.stats = _
  omega

/-- A change that reserves and counts nothing. -/
theorem Transported.mark (h : Transported k cfg s) {channel : Nat} {c : HbmController}
    (controllers : ∀ ch, t.controllers ch = if ch = channel then c else s.controllers ch)
    (stats : SameTransport s.stats t.stats)
    (transfers : c.transfers = (s.controllers channel).transfers) : Transported k cfg t := by
  unfold Transported at *
  rw [k.same stats, h]
  refine (total_congr (transportedOn k) fun ch => ?_).symm
  unfold transportedOn
  rw [controllers]
  split
  · subst ch
    rw [transfers]
  · rfl

/-- The controllers and what they count are unchanged. -/
theorem Transported.keep (h : Transported k cfg s) (stats : SameTransport s.stats t.stats)
    (controllers : t.controllers = s.controllers) : Transported k cfg t :=
  @mark _ _ _ _ h 0 (s.controllers 0) (fun ch => by rw [controllers]; split <;> simp_all) stats rfl

/-- Every move keeps the transports. -/
theorem Transported.move {p q : HbmSystem × Debts} (move : Move cfg p q)
    (h : Transported k cfg p.1) : Transported k cfg q.1 := by
  cases move with
  | control hchannel step =>
      exact h.step hchannel (fun _ apart => step.stats_of_ne apart) step.transports
  | stir hchannel step =>
      exact h.step hchannel (fun _ apart => step.stats_of_ne apart) step.transports
  | transfer hchannel step =>
      have moved := h.step hchannel (fun _ apart => step.stats_of_ne apart) step.transports
      exact moved.keep (.refl _) rfl
  | @wake s d channel at_ => exact h.mark (markWake_controllers s channel at_) (.refl _) rfl
  | @arm s d channel due => exact h.mark (markRefresh_controllers s channel due) (.refl _) rfl
  | @misarm s d channel due =>
      have controllers := modifyController_controllers s channel fun c =>
        { c with refreshDueAt := some due }
      exact h.mark controllers (.refl _) rfl
  | @charge s d parent access =>
      exact h.mark (charge_controllers s parent access) ⟨rfl, rfl, rfl⟩ rfl
  | @push s d access =>
      obtain ⟨f, hf⟩ := push_stats cfg s access
      refine h.mark (push_controllers cfg s access) ?_ rfl
      rw [hf]
      exact ⟨rfl, rfl, rfl⟩
  | @credit s d channel access parent =>
      refine h.mark (credit_controllers cfg s channel access parent) ?_ rfl
      obtain ⟨l, class_⟩ := access
      cases class_ <;> exact ⟨rfl, rfl, rfl⟩
  | _ => exact h.keep ⟨rfl, rfl, rfl⟩ rfl

/-- Every turn keeps the transports. -/
theorem Transported.turn {p q : HbmSystem × Debts} (turn : Turn cfg p q)
    (h : Transported k cfg p.1) : Transported k cfg q.1 := by
  cases turn with
  | @wake s d event rest channel =>
      refine h.mark (modifyController_controllers (s.pop event rest) channel _) (.refl _) ?_
      show ((s.controllers channel).clearWakeup event.time).transfers = _
      unfold HbmController.clearWakeup
      split <;> rfl
  | @refreshDue s d event rest channel =>
      refine h.mark (modifyController_controllers (s.pop event rest) channel _) (.refl _) ?_
      show ((s.controllers channel).disarm event.time).transfers = _
      unfold HbmController.disarm
      split <;> rfl
  | lose hchannel step =>
      exact h.step hchannel (fun _ apart => step.stats_of_ne apart) step.transports
  | _ => exact h.keep (.refl _) rfl

/-- In every state of a run a counter is its sum over the transfers. -/
theorem HbmSystem.Run.transported (k : TransferCounter) {p : HbmSystem × Debts} (run : Run cfg p) :
    Transported k cfg p.1 := by
  induction run with
  | create =>
      have none : (initial cfg).total cfg (transportedOn k) = 0 :=
        Finset.sum_eq_zero fun _ _ => rfl
      have same : SameTransport {} (initial cfg).stats := ⟨rfl, rfl, rfl⟩
      exact (k.same same).trans (k.start.trans none.symm)
  | move _ move ih => exact ih.move move
  | turn _ turn ih => exact ih.turn turn

end

end HbmSim
