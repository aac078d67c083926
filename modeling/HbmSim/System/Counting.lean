import HbmSim.System.Record

/-!
What the steps of a controller count.

The counters of the statistics that account for accesses, commands and bytes form a tally. A
command adds one to the counts of commands, a data command besides a transfer, and nothing
else changes a tally.
-/

namespace HbmSim

open HbmSim.Lib

/-- The counters that account for accesses, commands and bytes, those of one channel last. -/
structure Tally where
  modeled : Nat
  physical : Nat
  dataCommands : Nat
  issued : Nat
  classified : Nat
  completedBytes : Nat
  transferredBytes : Nat
  channelBytes : Nat
  merged : Nat
  bus : Nat
  rowBus : Nat
  columnBus : Nat

/-- The tally of the statistics and one of their channels. -/
def HbmStats.tally (stats : HbmStats) (channel : Nat) : Tally where
  modeled := stats.modeledAccesses
  physical := stats.physicalAccesses
  dataCommands := stats.readCommands + stats.writeCommands
  issued := stats.issuedCommands
  classified := stats.rowHits + stats.rowClosed + stats.rowConflicts
  completedBytes := stats.readBytes + stats.writeBytes
  transferredBytes := stats.physicalReadBytes + stats.physicalWriteBytes
  channelBytes := (stats.channels channel).completedBytes
  merged := (stats.channels channel).queue.mergedAccesses
  bus := (stats.channels channel).commandBus.issuedCommands
  rowBus := (stats.channels channel).rowCommandBus.issuedCommands
  columnBus := (stats.channels channel).columnCommandBus.issuedCommands

namespace Tally

/-- The tally after a command, which a standard sends over the row or the column bus. -/
def command (x : Tally) (standard data : Bool) : Tally :=
  { x with
    dataCommands := x.dataCommands + data.toNat
    issued := x.issued + 1
    bus := x.bus + 1
    rowBus := x.rowBus + (standard && !data).toNat
    columnBus := x.columnBus + (standard && data).toNat }

/-- The tally after a transfer of some bytes, which serves some followers. -/
def transfer (x : Tally) (followers bytes : Nat) : Tally :=
  { x with
    physical := x.physical + 1
    merged := x.merged + followers
    transferredBytes := x.transferredBytes + bytes }

end Tally

section

open HbmController

variable {config : HbmControllerConfig} {mapper : HbmAddressMapper} {s t : ControllerState}
  {now : Nat}

/-! ### Statistics -/

theorem modifyChannel_tally (stats : HbmStats) (channel ch : Nat) {f : ChannelStats → ChannelStats}
    (same : ∀ c, (f c).completedBytes = c.completedBytes ∧
      (f c).queue.mergedAccesses = c.queue.mergedAccesses ∧ (f c).commandBus = c.commandBus ∧
      (f c).rowCommandBus = c.rowCommandBus ∧ (f c).columnCommandBus = c.columnCommandBus) :
    (stats.modifyChannel channel f).tally ch = stats.tally ch := by
  by_cases own : ch = channel
  · obtain ⟨bytes, merged, bus, row, column⟩ := same (stats.channels channel)
    simp [HbmStats.tally, HbmStats.modifyChannel, own, bytes, merged, bus, row, column]
  · simp [HbmStats.tally, HbmStats.modifyChannel, own]

theorem modifyQueue_tally (stats : HbmStats) (channel ch : Nat) {f : QueueStats → QueueStats}
    (merged : ∀ q, (f q).mergedAccesses = q.mergedAccesses) :
    (stats.modifyQueue channel f).tally ch = stats.tally ch := by
  apply modifyChannel_tally
  intro c
  exact ⟨rfl, merged c.queue, rfl, rfl, rfl⟩

/-- A command is counted on its bus, and as a data command if it is one. -/
theorem countCommand_tally (stats : HbmStats) (r : RecordedCommand) :
    (countCommand config stats r).tally config.channel =
      (stats.tally config.channel).command config.standard.isSome r.command.isData := by
  obtain ⟨k⟩ := r
  cases standard : config.standard with
  | none =>
      cases k
      all_goals
        simp [HbmStats.tally, countCommand, Tally.command, ResourceStats.addCommand,
          HbmStats.modifyChannel, HbmCommand.isData, HbmControllerConfig.commandBus, standard]
      all_goals omega
  | some s =>
      cases k
      all_goals
        simp [HbmStats.tally, countCommand, Tally.command, ResourceStats.addCommand,
          HbmStats.modifyChannel, HbmCommand.isData, HbmControllerConfig.commandBus, standard,
          HbmStandard.commandBus]
      all_goals omega

theorem countStarts_tally (stats : HbmStats) (items : List HbmAccess) (at_ : Nat) :
    (countStarts config stats items at_).tally config.channel = stats.tally config.channel := by
  unfold countStarts
  split
  · exact modifyQueue_tally stats config.channel _ fun _ => rfl
  · rfl

theorem countTransfer_tally (stats : HbmStats) (items : List HbmAccess) (address : HbmAddress)
    (bankIndex : Nat) (slot : DataSlot) :
    (countTransfer config stats items address bankIndex slot).tally config.channel =
      stats.tally config.channel := by
  apply modifyChannel_tally
  intro c
  dsimp only
  split
  · exact ⟨rfl, rfl, rfl, rfl, rfl⟩
  · exact ⟨rfl, rfl, rfl, rfl, rfl⟩

theorem countMaintenance_tally (stats : HbmStats) (requested : HbmCommand) :
    (countMaintenance config stats requested).tally config.channel =
      stats.tally config.channel := by
  unfold countMaintenance
  split <;> simp [HbmStats.tally, HbmStats.modifyChannel]

/-! ### Steps -/

theorem HbmController.RowStep.tally (step : RowStep config mapper now s t) :
    t.stats.tally config.channel =
      (s.stats.tally config.channel).command config.standard.isSome false := by
  cases step with
  | activate =>
      rw [activatedState_stats, countCommand_tally, countStarts_tally]
      rfl
  | precharge =>
      rw [prechargedState_stats, countCommand_tally, countStarts_tally]
      rfl

theorem HbmController.MaintenanceStep.tally {candidate : MaintenanceCandidate} {time : Nat}
    (step : MaintenanceStep config mapper now s candidate time t) :
    t.stats.tally config.channel =
      (s.stats.tally config.channel).command config.standard.isSome false := by
  cases step with
  | mk plan =>
      unfold maintained
      dsimp only
      split
      · rw [countMaintenance_tally, countCommand_tally]
        dsimp only
        rw [plan.no_demand.1]
      · rw [countCommand_tally]
        dsimp only
        rw [plan.no_demand.1]

/-- The tally after some commands that move no data. -/
def Tally.commands (x : Tally) (count row column : Nat) : Tally :=
  { x with
    issued := x.issued + count
    bus := x.bus + count
    rowBus := x.rowBus + row
    columnBus := x.columnBus + column }

/-- A step of a controller counts commands that move no data at most. -/
theorem HbmController.ControllerStep.tally (step : ControllerStep config mapper now s t) :
    ∃ count row column, t.stats.tally config.channel =
        (s.stats.tally config.channel).commands count row column ∧
      (config.standard.isSome = true → count = row + column) := by
  have one : (s.stats.tally config.channel).command config.standard.isSome false =
      (s.stats.tally config.channel).commands 1 config.standard.isSome.toNat 0 := by
    simp [Tally.command, Tally.commands]
  have unified : config.standard.isSome = true → 1 = config.standard.isSome.toNat + 0 := by
    intro standard
    rw [standard]
    rfl
  cases step with
  | retouch touched =>
      obtain ⟨f, merged, hf⟩ := touched.stats
      rw [hf]
      exact ⟨0, 0, 0, modifyQueue_tally s.stats config.channel _ merged, fun _ => rfl⟩
  | raise => exact ⟨0, 0, 0, rfl, fun _ => rfl⟩
  | advanceDue => exact ⟨0, 0, 0, rfl, fun _ => rfl⟩
  | maintain step => exact ⟨1, _, 0, step.tally.trans one, unified⟩
  | row step => exact ⟨1, _, 0, step.tally.trans one, unified⟩

/-- Merged accesses are counted as such. -/
theorem merged_tally (stats : HbmStats) (channel followers : Nat) :
    (stats.modifyQueue channel fun q =>
      { q with mergedAccesses := q.mergedAccesses + followers }).tally channel =
      { stats.tally channel with merged := (stats.tally channel).merged + followers } := by
  simp [HbmStats.tally, HbmStats.modifyQueue, HbmStats.modifyChannel]

/-- The reservation of the data bus counts the bytes. -/
theorem occupyBus_tally (u : ControllerState) (w : Bool) (bankIndex : Nat) (taken : List HbmAccess)
    (address : HbmAddress) (bytes : Nat) (slot : DataSlot) :
    (occupyBus config u w bankIndex taken address bytes slot).stats.tally config.channel =
      (u.stats.tally config.channel).transfer 0 bytes := by
  let counted := countTransfer config (countStarts config u.stats taken slot.issuedAt)
    (servedAccesses taken slot) address bankIndex slot
  have same : counted.tally config.channel = u.stats.tally config.channel :=
    (countTransfer_tally _ _ _ _ _).trans (countStarts_tally _ _ _)
  rw [← same]
  cases w
  · simp [HbmStats.tally, Tally.transfer, occupyBus, counted]
    omega
  · simp [HbmStats.tally, Tally.transfer, occupyBus, counted]
    omega

/-- A data command counts its transfer. -/
theorem HbmController.DataStep.tally {physical : PhysicalAccess}
    (step : DataStep config mapper now s physical t) :
    t.stats.tally config.channel =
      ((s.stats.tally config.channel).command config.standard.isSome true).transfer
        physical.completions.tail.length physical.bytes := by
  cases step with
  | @mk w index bankIndex busReady duration a k priority banks slot demand data =>
      have followers : (physicalAccess config ⟨w, index, k, now, priority⟩
          (takenAccesses config s w index a now) a.address a.sizeBytes slot).completions.tail.length =
            (takenAccesses config s w index a now).length - 1 := by
        simp [physicalAccess, servedAccesses]
      have taken : (takeAccesses config (commandIssued config s w index a
          ⟨k, a.address, bankIndex, now, some a.sequence⟩).ctl w index (leader a now)).1 =
            takenAccesses config s w index a now := takeAccesses_commandIssued.1
      unfold transferredState
      rw [occupyBus_tally, merged_tally]
      unfold commandIssued
      rw [countCommand_tally, countStarts_tally, followers, ← taken]
      dsimp only
      rw [data]
      rfl

/-- A transfer has a leader, and its bytes are those of its leader. -/
theorem HbmController.DataStep.bytes {physical : PhysicalAccess}
    (step : DataStep config mapper now s physical t) :
    ∃ leader followers, physical.completions = leader :: followers ∧
      leader.sizeBytes = physical.bytes := by
  cases step with
  | @mk w index bankIndex busReady duration a k priority banks slot =>
      obtain ⟨followers, taken, -⟩ := @takeAccesses_cons config s.ctl w index (leader a now)
      let complete : HbmAccess → LogicalCompletion := fun x =>
        completionOf config (finishAccess (startAccess x slot.issuedAt) slot)
      refine ⟨complete (leader a now), followers.map complete, ?_, ?_⟩
      · unfold takenAccesses
        rw [taken]
        simp [physicalAccess, servedAccesses, complete]
      · show (startAccess (leader a now) slot.issuedAt).sizeBytes = a.sizeBytes
        rw [← congrArg LogicalAccess.sizeBytes (leader_logical a now)]
        unfold startAccess
        split <;> rfl

end

end HbmSim
