import HbmSim.Controller.Drive
import HbmSim.Lib.Mirror

/-!
Controllers without their detailed statistics.

`detailed_stats` decides which statistics a controller keeps and whether its completions
carry a latency breakdown. `plain` forgets both; what a controller does at any setting of
the switch is, seen through `plain`, what it does with the switch off.
-/

namespace HbmSim

open HbmSim.Lib

/-! ### What the switch governs -/

/-- The queue statistics kept at any setting. -/
def QueueStats.plain (q : QueueStats) : QueueStats :=
  { q with
    queueWaitTime := 0
    commandWaitTime := 0
    arrayWaitTime := 0
    dataBusWaitTime := 0
    refreshStallTime := 0
    dataServiceTime := 0 }

/-- The channel statistics kept at any setting. -/
def ChannelStats.plain (c : ChannelStats) : ChannelStats :=
  { c with queue := c.queue.plain, pseudoChannels := [], banks := [] }

def HbmStats.plain (s : HbmStats) : HbmStats :=
  { s with channels := fun c => (s.channels c).plain }

def ControllerState.plain (s : ControllerState) : ControllerState :=
  { s with stats := s.stats.plain }

def LogicalCompletion.plain (c : LogicalCompletion) : LogicalCompletion :=
  { c with latencyBreakdown := {} }

def PhysicalAccess.plain (p : PhysicalAccess) : PhysicalAccess :=
  { p with completions := p.completions.map (·.plain) }

def HbmControllerStep.plain (s : HbmControllerStep) : HbmControllerStep :=
  { s with issuedAccess := s.issuedAccess.map (·.plain) }

/-- The configuration with the switch off. -/
def HbmControllerConfig.plain (config : HbmControllerConfig) : HbmControllerConfig :=
  { config with detailedStats := false }

/-- A record's update seen through `plain` is the channel's seen through `plain`. -/
theorem HbmStats.modifyChannel_plain {f k : ChannelStats → ChannelStats}
    (same : ∀ c, (f c).plain = k c.plain) (s : HbmStats) (channel : Nat) :
    (s.modifyChannel channel f).plain = s.plain.modifyChannel channel k := by
  unfold modifyChannel plain
  congr 1
  funext c
  dsimp only
  split
  · exact same _
  · rfl

theorem HbmStats.modifyQueue_plain (f : QueueStats → QueueStats)
    (same : ∀ q, (f q).plain = f q.plain) (s : HbmStats) (channel : Nat) :
    (s.modifyQueue channel f).plain = s.plain.modifyQueue channel f := by
  refine s.modifyChannel_plain (fun c => ?_) channel
  unfold ChannelStats.plain
  dsimp only
  rw [same]

/-- Detailed statistics of a record leave nothing behind. -/
theorem HbmStats.modifyChannel_hidden {f : ChannelStats → ChannelStats}
    (hidden : ∀ c, (f c).plain = c.plain) (s : HbmStats) (channel : Nat) :
    (s.modifyChannel channel f).plain = s.plain := by
  rw [s.modifyChannel_plain (k := id) hidden]
  unfold modifyChannel plain
  simp

namespace HbmController

variable {config : HbmControllerConfig} {mapper : HbmAddressMapper}

/-- A controller's program at a setting of the switch, and with the switch off. -/
abbrev Plainly {α α' : Type} (g : α → α') (x : ControllerM α) (y : ControllerM α') : Prop :=
  Mirrors ControllerState.plain g x y

/-! ### Statistics -/

theorem countCommand_plain (s : HbmStats) (r : RecordedCommand) :
    (countCommand config s r).plain = countCommand config.plain s.plain r := by
  have record := s.modifyChannel_plain (f := busCommand config r)
    (k := busCommand config.plain r) (fun _ => rfl) config.channel
  have channels : (fun c => ((countCommand config s r).channels c).plain) =
      (countCommand config.plain s.plain r).channels := by
    rw [countCommand_channels, countCommand_channels]
    exact congrArg HbmStats.channels record
  obtain ⟨command⟩ := r
  unfold HbmStats.plain
  rw [channels]
  cases command <;> rfl

theorem countMaintenance_plain (s : HbmStats) (requested : HbmCommand) :
    (countMaintenance config s requested).plain =
      countMaintenance config.plain s.plain requested := by
  have counts : ∀ f : ChannelStats → ChannelStats, (∀ c, (f c).plain = f c.plain) →
      (s.modifyChannel config.channel f).plain = s.plain.modifyChannel config.channel f :=
    fun f same => s.modifyChannel_plain same config.channel
  have rfm := congrArg (fun t : HbmStats => { t with rfmEvents := s.rfmEvents + 1 })
    (counts (fun ch => { ch with rfmEvents := ch.rfmEvents + 1 }) fun _ => rfl)
  cases requested
  case refreshAllBank =>
    exact counts (fun ch => { ch with refreshes := ch.refreshes + 1 }) fun _ => rfl
  case refreshPerBank =>
    exact counts (fun ch => { ch with perBankRefreshes := ch.perBankRefreshes + 1 }) fun _ => rfl
  case rfmAllBank => exact rfm
  case rfmPerBank => exact rfm
  all_goals rfl

theorem countStarts_plain (s : HbmStats) (items : List HbmAccess) (now : Nat) :
    (countStarts config s items now).plain = countStarts config.plain s.plain items now := by
  unfold countStarts
  split
  · exact s.modifyChannel_hidden (fun _ => by rfl) _
  · rfl

theorem countTransfer_plain (s : HbmStats) (items : List HbmAccess) (address : HbmAddress)
    (bank : Nat) (slot : DataSlot) : (countTransfer config s items address bank slot).plain =
      countTransfer config.plain s.plain items address bank slot := by
  refine s.modifyChannel_plain (fun c => ?_) _
  dsimp only
  split <;> rfl

theorem countClass_plain (s : HbmStats) (accessClass : HbmAccessClass) :
    (countClass s accessClass).plain = countClass s.plain accessClass := by
  cases accessClass <;> rfl

/-! ### Maintenance -/

theorem reserve_plain (reads writes : Nat) :
    Plainly id (reserve config reads writes) (reserve config.plain reads writes) := by
  unfold reserve
  refine .bind .get fun s => ?_
  dsimp only
  refine .ite (fun _ => .throw _) fun _ => ?_
  exact .modify fun s => rfl

theorem applyTransition_plain (command : HbmCommand) (row bank : Nat) :
    Plainly id (applyTransition config command row bank)
      (applyTransition config.plain command row bank) := by
  unfold applyTransition
  refine .bind .get fun s => ?_
  refine .bind (g := id) (.ofExcept (id_map _).symm) fun banks => ?_
  exact .modify fun s => rfl

theorem recordCommand_plain (r : RecordedCommand) :
    Plainly id (recordCommand config r) (recordCommand config.plain r) := by
  unfold recordCommand
  dsimp only
  refine .ite (fun _ => .throw _) fun _ => ?_
  refine .modify fun s => ?_
  show (⟨_, _⟩ : ControllerState) = ⟨_, _⟩
  rw [countCommand_plain]
  rfl

theorem issueMaintenance_plain (candidate : MaintenanceCandidate) (now : Nat) :
    Plainly id (issueMaintenance config mapper candidate now)
      (issueMaintenance config.plain mapper candidate now) := by
  unfold issueMaintenance
  refine .bind (g := id) (.ofExcept (id_map _).symm) fun address => ?_
  refine .bind (recordCommand_plain _) fun _ => ?_
  refine .bind (applyTransition_plain _ _ _) fun _ => ?_
  refine .ite (fun _ => ?_) fun _ => .pure _
  dsimp only
  refine .ite (fun _ => .throw _) fun _ => ?_
  refine .modify fun s => ?_
  show (⟨_, _⟩ : ControllerState) = ⟨_, _⟩
  rw [countMaintenance_plain]
  rfl

theorem chooseBankMaintenance_plain (c : HbmController) (now : Nat) (anyOpen : Bool) (index : Nat)
    (banks : List HbmBankState) (earliest : Option MaintenanceCandidate) :
    chooseBankMaintenance config.plain mapper c now anyOpen index banks earliest =
      chooseBankMaintenance config mapper c now anyOpen index banks earliest := by
  induction banks generalizing index earliest with
  | nil => rfl
  | cons bank rest ih =>
      unfold chooseBankMaintenance
      cases requestedMaintenance bank with
      | none => exact ih _ _
      | some requested =>
          simp only [ih]
          rfl

theorem chooseMaintenance_plain (c : HbmController) (now : Nat) :
    chooseMaintenance config.plain mapper c now = chooseMaintenance config mapper c now := by
  unfold chooseMaintenance
  rw [chooseBankMaintenance_plain]
  rfl

/-! ### Refresh -/

theorem raiseRefresh_plain (due : Nat) :
    Plainly id (raiseRefresh config due) (raiseRefresh config.plain due) := by
  unfold raiseRefresh
  refine .bind .get fun s => ?_
  dsimp only
  refine .ite (fun _ => .modify fun _ => rfl) fun _ => ?_
  refine .bind (g := id) (.ofExcept (id_map _).symm) fun bank => ?_
  exact .modify fun _ => rfl

theorem idleRefreshLoop_plain (rounds cursor : Nat) :
    Plainly id (idleRefreshLoop config mapper rounds cursor)
      (idleRefreshLoop config.plain mapper rounds cursor) := by
  induction rounds generalizing cursor with
  | zero =>
      unfold idleRefreshLoop
      refine .bind .get fun s => ?_
      dsimp only
      exact .ite (fun _ => .pure _) fun _ => .throw _
  | succ rounds ih =>
      unfold idleRefreshLoop
      refine .bind .get fun s => ?_
      dsimp only
      refine .ite (fun _ => .pure _) fun _ => ?_
      refine .bind (g := id) (.ofExcept ((chooseMaintenance_plain _ _).trans (id_map _).symm)) fun found => ?_
      cases found with
      | none => exact .throw _
      | some candidate =>
          refine .bind (issueMaintenance_plain candidate _) fun _ => ?_
          exact .bind .get fun t => ih _

theorem applyIdleRefresh_plain (due : Nat) :
    Plainly id (applyIdleRefresh config mapper due) (applyIdleRefresh config.plain mapper due) := by
  unfold applyIdleRefresh
  refine .bind (raiseRefresh_plain due) fun _ => ?_
  exact .bind .get fun s => idleRefreshLoop_plain _ _

theorem catchUpRefresh_plain (rounds now : Nat) :
    Plainly id (catchUpRefresh config mapper rounds now)
      (catchUpRefresh config.plain mapper rounds now) := by
  induction rounds with
  | zero =>
      unfold catchUpRefresh
      refine .bind .get fun s => ?_
      rw [show s.plain.ctl = s.ctl from rfl]
      cases s.ctl.nextRefreshDue with
      | none => exact .pure _
      | some due => exact .ite (fun _ => .throw _) fun _ => .pure _
  | succ rounds ih =>
      unfold catchUpRefresh
      refine .bind .get fun s => ?_
      rw [show s.plain.ctl = s.ctl from rfl]
      cases s.ctl.nextRefreshDue with
      | none => exact .pure _
      | some due =>
          refine .ite (fun _ => ?_) fun _ => .pure _
          refine .bind (applyIdleRefresh_plain due) fun _ => ?_
          exact .bind (.modify fun _ => rfl) fun _ => ih

theorem prepareRefreshForArrival_plain (now : Nat) :
    Plainly id (prepareRefreshForArrival config mapper now)
      (prepareRefreshForArrival config.plain mapper now) := by
  unfold prepareRefreshForArrival
  refine .ite (fun _ => ?_) fun _ => .pure _
  exact .bind (.modify fun _ => rfl) fun _ => catchUpRefresh_plain _ now

theorem handleRefreshEvent_plain (now : Nat) :
    Plainly id (handleRefreshEvent config mapper now)
      (handleRefreshEvent config.plain mapper now) := by
  unfold handleRefreshEvent
  refine .bind .get fun s => ?_
  dsimp only
  refine .ite (fun _ => ?_) fun _ => .pure _
  refine .bind (.modify fun _ => rfl) fun _ => ?_
  refine .ite (fun _ => ?_) fun _ => .pure _
  refine .bind (.modify fun _ => rfl) fun _ => ?_
  exact .ite (fun _ => applyIdleRefresh_plain now) fun _ => raiseRefresh_plain now

/-! ### Admission and completion -/

theorem pushReserved_plain (access : HbmAccess) :
    Plainly id (pushReserved config access) (pushReserved config.plain access) := by
  have deepest : Plainly id
      (modify fun s => { s with stats := s.stats.modifyQueue config.channel fun q =>
        { q with
          maxReadDepth := max q.maxReadDepth s.ctl.readQueue.length
          maxWriteDepth := max q.maxWriteDepth s.ctl.writeQueue.length } })
      (modify fun s => { s with stats := s.stats.modifyQueue config.channel fun q =>
        { q with
          maxReadDepth := max q.maxReadDepth s.ctl.readQueue.length
          maxWriteDepth := max q.maxWriteDepth s.ctl.writeQueue.length } }) := by
    refine .modify fun s => ?_
    have depths := HbmStats.modifyQueue_plain (fun q =>
      { q with
        maxReadDepth := max q.maxReadDepth s.ctl.readQueue.length
        maxWriteDepth := max q.maxWriteDepth s.ctl.writeQueue.length })
      (fun _ => rfl) s.stats config.channel
    exact congrArg (ControllerState.mk s.ctl) depths.symm
  unfold pushReserved
  refine .bind .get fun s => ?_
  dsimp only
  refine .ite (fun _ => ?_) fun _ => ?_
  · refine .ite (fun _ => .throw _) fun _ => ?_
    exact .bind (.modify fun _ => rfl) fun _ => deepest
  · refine .ite (fun _ => .throw _) fun _ => ?_
    exact .bind (.modify fun _ => rfl) fun _ => deepest

theorem admitReserved_plain (access : HbmAccess) (now : Nat) :
    Plainly id (admitReserved config mapper access now)
      (admitReserved config.plain mapper access now) := by
  unfold admitReserved
  exact .bind (prepareRefreshForArrival_plain now) fun _ => pushReserved_plain _

theorem completeAccess_plain (access : LogicalCompletion) :
    Plainly id (completeAccess config access) (completeAccess config.plain access.plain) := by
  unfold completeAccess
  refine .bind .get fun s => ?_
  dsimp only
  refine .ite (fun _ => .throw _) fun _ => ?_
  refine .modify fun s => ?_
  have bytes := s.stats.modifyChannel_plain
    (f := fun ch => { ch with completedBytes := ch.completedBytes + access.sizeBytes })
    (k := fun ch => { ch with completedBytes := ch.completedBytes + access.sizeBytes })
    (fun _ => rfl) config.channel
  refine congrArg (ControllerState.mk _) ?_
  rw [countClass_plain, bytes]
  rfl

/-! ### Choosing and issuing a command -/

theorem scanQueue_plain (c : HbmController) (isWrite : Bool) (now index : Nat)
    (queue : List HbmAccess) : scanQueue config.plain mapper c isWrite now index queue =
      scanQueue config mapper c isWrite now index queue := by
  induction queue generalizing index with
  | nil => rfl
  | cons access rest ih =>
      unfold scanQueue
      rw [ih]
      rfl

theorem findWaiting_plain (c : HbmController) (now targetBank : Nat) (isWrite : Bool)
    (index : Nat) (queue : List HbmAccess) (waiting : Option (Candidate × Nat)) :
    findWaiting config.plain mapper c now targetBank isWrite index queue waiting =
      findWaiting config mapper c now targetBank isWrite index queue waiting := by
  induction queue generalizing index waiting with
  | nil => rfl
  | cons access rest ih =>
      unfold findWaiting
      simp only [ih]
      rfl

theorem yieldPrecharge_plain (c : HbmController) (now : Nat) (candidate : Candidate) :
    yieldPrecharge config.plain mapper c now candidate =
      yieldPrecharge config mapper c now candidate := by
  unfold yieldPrecharge
  simp only [findWaiting_plain]

theorem chooseNext_plain (now : Nat) :
    Plainly id (chooseNext config mapper now) (chooseNext config.plain mapper now) := by
  unfold chooseNext
  refine .bind .get fun s => ?_
  dsimp only
  rw [scanQueue_plain]
  refine .bind (.modify fun _ => rfl) fun _ => ?_
  refine .bind (g := id) (.ofExcept (id_map _).symm) fun candidates => ?_
  dsimp only [id]
  rw [show config.plain.scheduler = config.scheduler from rfl]
  cases config.scheduler.choose candidates now with
  | none => exact .pure _
  | some selected =>
      refine .bind .get fun t => ?_
      refine .bind (g := id) (.ofExcept ((yieldPrecharge_plain _ _ _).trans (id_map _).symm))
        fun candidate => ?_
      exact .pure _

theorem takeServed_plain (candidate : Candidate) (leader : HbmAccess) :
    Plainly id (takeServed config candidate leader)
      (takeServed config.plain candidate leader) := by
  unfold takeServed
  refine .modifyGet (fun _ => rfl) fun s => ?_
  have merged := HbmStats.modifyQueue_plain (fun q =>
    { q with mergedAccesses := q.mergedAccesses +
        ((takeAccesses config s.ctl candidate.isWrite candidate.index leader).1.length - 1) })
    (fun _ => rfl) s.stats config.channel
  exact congrArg (ControllerState.mk _) merged.symm

theorem closeAfterData_plain (command : HbmCommand) (row bankIndex : Nat) :
    Plainly id (closeAfterData config command row bankIndex)
      (closeAfterData config.plain command row bankIndex) := by
  unfold closeAfterData
  refine .ite (fun _ => applyTransition_plain _ _ _) fun _ => ?_
  exact .ite (fun _ => .modify fun _ => rfl) fun _ => .pure _

theorem physicalAccess_plain (candidate : Candidate) (taken : List HbmAccess)
    (address : HbmAddress) (bytes : Nat) (slot : DataSlot) :
    (physicalAccess config candidate taken address bytes slot).plain =
      physicalAccess config.plain candidate taken address bytes slot := by
  unfold physicalAccess PhysicalAccess.plain
  dsimp only
  rw [List.map_map]
  rfl

theorem occupyBus_plain (s : ControllerState) (isWrite : Bool) (bankIndex : Nat)
    (taken : List HbmAccess) (address : HbmAddress) (bytes : Nat) (slot : DataSlot) :
    (occupyBus config s isWrite bankIndex taken address bytes slot).plain =
      occupyBus config.plain s.plain isWrite bankIndex taken address bytes slot := by
  have stats := @countTransfer_plain config
    (countStarts config s.stats taken slot.issuedAt) (servedAccesses taken slot) address bankIndex slot
  rw [countStarts_plain] at stats
  unfold occupyBus ControllerState.plain
  dsimp only
  refine congrArg (ControllerState.mk _) ?_
  exact congrArg (fun t : HbmStats =>
    { t with
      physicalAccesses := t.physicalAccesses + 1
      physicalWriteBytes := t.physicalWriteBytes + if isWrite then bytes else 0
      physicalReadBytes := t.physicalReadBytes + if isWrite then 0 else bytes }) stats

theorem transferData_plain (candidate : Candidate) (bankIndex now : Nat) (taken : List HbmAccess)
    (address : HbmAddress) (bytes : Nat) :
    Plainly PhysicalAccess.plain
      (transferData config candidate bankIndex now taken address bytes)
      (transferData config.plain candidate bankIndex now taken address bytes) := by
  unfold transferData
  dsimp only
  refine .bind (.modify fun _ => rfl) fun _ => ?_
  refine .bind .get fun s => ?_
  refine .bind (g := id) (.ofExcept (id_map _).symm) fun busReady => ?_
  refine .bind (g := id) (.ofExcept (id_map _).symm) fun duration => ?_
  refine .bind (.modify fun s => (occupyBus_plain s _ _ _ _ _ _).symm) fun _ => ?_
  dsimp only [id]
  rw [← physicalAccess_plain]
  exact .pure _

theorem issueData_plain (candidate : Candidate) (bankIndex now : Nat) (access : HbmAccess)
    (bank : HbmBankState) :
    Plainly PhysicalAccess.plain (issueData config candidate bankIndex now access bank)
      (issueData config.plain candidate bankIndex now access bank) := by
  unfold issueData
  dsimp only
  refine .ite (fun _ => .throw _) fun _ => ?_
  refine .bind (takeServed_plain _ _) fun taken => ?_
  refine .bind (closeAfterData_plain _ _ _) fun _ => ?_
  exact transferData_plain _ _ _ _ _ _

theorem issueActivate_plain (candidate : Candidate) (bankIndex row : Nat) :
    Plainly id (issueActivate config candidate bankIndex row)
      (issueActivate config.plain candidate bankIndex row) := by
  unfold issueActivate
  exact .bind (applyTransition_plain _ _ _) fun _ => .modify fun _ => rfl

theorem issuePrecharge_plain (candidate : Candidate) (bankIndex row : Nat) (bank : HbmBankState) :
    Plainly id (issuePrecharge config candidate bankIndex row bank)
      (issuePrecharge config.plain candidate bankIndex row bank) := by
  unfold issuePrecharge
  exact .bind (.modify fun _ => rfl) fun _ => applyTransition_plain _ _ _

theorem issueCommand_plain (candidate : Candidate) (bankIndex now : Nat) (access : HbmAccess)
    (bank : HbmBankState) :
    Plainly (Option.map PhysicalAccess.plain)
      (issueCommand config candidate bankIndex now access bank)
      (issueCommand config.plain candidate bankIndex now access bank) := by
  unfold issueCommand
  split
  · exact .bind (issueActivate_plain _ _ _) fun _ => .pure _
  · exact .bind (issuePrecharge_plain _ _ _ _) fun _ => .pure _
  · exact .bind (issuePrecharge_plain _ _ _ _) fun _ => .pure _
  · exact .bind (issueData_plain _ _ _ _ _) fun physical => .pure (some physical)

theorem issue_plain (candidate : Candidate) (now : Nat) :
    Plainly (Option.map PhysicalAccess.plain) (issue config candidate now)
      (issue config.plain candidate now) := by
  unfold issue
  refine .bind .get fun s => ?_
  dsimp only
  rw [show s.plain.ctl = s.ctl from rfl]
  cases (s.ctl.queue candidate.isWrite)[candidate.index]? with
  | none => exact .throw _
  | some access =>
      refine .bind (g := id) (.ofExcept (id_map _).symm) fun bankIndex => ?_
      refine .bind (g := id) (.ofExcept (id_map _).symm) fun bank => ?_
      refine .bind (.modify fun s => ?_) fun _ => ?_
      · exact congrArg (ControllerState.mk _) (countStarts_plain s.stats [access] now).symm
      · refine .bind (recordCommand_plain _) fun _ => ?_
        exact issueCommand_plain _ _ _ _ _

/-! ### Driving the controller -/

theorem updateStarvation_plain (s : ControllerState) (now : Nat) :
    (updateStarvation config s now).plain = updateStarvation config.plain s.plain now := by
  unfold updateStarvation
  split
  · rw [if_pos (by assumption)]
  · rw [if_neg (by assumption)]
    have starved := HbmStats.modifyQueue_plain (fun q =>
      { q with starvationEvents := q.starvationEvents +
          s.ctl.readQueue.countP (starving config now) +
          s.ctl.writeQueue.countP (starving config now) })
      (fun _ => rfl) s.stats config.channel
    exact congrArg (ControllerState.mk _) starved

theorem accountStall_plain (s : ControllerState) (now : Nat) :
    (accountStall config s now).plain = accountStall config.plain s.plain now := by
  unfold accountStall
  dsimp only
  by_cases blocked : s.ctl.refreshBusyUntil > max now s.ctl.refreshStallAccountedUntil
  · rw [if_pos blocked]
    refine Eq.trans ?_ (if_pos blocked).symm
    refine congrArg (ControllerState.mk _) ?_
    split
    · exact s.stats.modifyChannel_hidden (fun _ => by rfl) _
    · rfl
  · rw [if_neg blocked]
    exact (if_neg blocked).symm

theorem drive_plain (now : Nat) :
    Plainly HbmControllerStep.plain (drive config mapper now) (drive config.plain mapper now) := by
  unfold drive
  refine .bind (.modify fun s => (updateStarvation_plain s now).symm) fun _ => ?_
  refine .bind .get fun s => ?_
  dsimp only
  refine .ite (fun _ => ?_) fun _ => ?_
  · exact .bind (.modify fun s => (accountStall_plain s now).symm) fun _ => .pure _
  refine .bind (g := id) (.ofExcept ((chooseMaintenance_plain _ _).trans (id_map _).symm))
    fun found => ?_
  cases found with
  | some maintenance =>
      refine .ite (fun _ => .pure _) fun _ => ?_
      refine .bind (issueMaintenance_plain _ _) fun _ => ?_
      exact .bind .get fun t => .pure _
  | none =>
      refine .bind (.modify fun _ => rfl) fun _ => ?_
      refine .bind (chooseNext_plain _) fun choice => ?_
      cases choice with
      | none => exact .pure _
      | some candidate =>
          refine .ite (fun _ => .pure _) fun _ => ?_
          exact .bind (issue_plain _ _) fun completed => .pure _

end HbmController

end HbmSim
