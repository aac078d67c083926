import HbmSim.Lib.Sums
import HbmSim.System.Actions
import HbmSim.System.Counting

/-!
What a run conserves.

An access is counted when it is charged, and from then on it is somewhere: in a reserved
slot, in a queue, merged, in a transfer, or classified as finished. The counters are equations
between these places, and every move takes as much from one side as from the other.
-/

namespace HbmSim

open HbmSim.Lib HbmSystem

/-- A quantity of the channels, summed up. -/
def HbmSystem.total (cfg : HbmConfig) (s : HbmSystem) (f : HbmController → ChannelStats → Nat) :
    Nat :=
  ∑ channel ∈ Finset.range cfg.channelCount, f (s.controllers channel) (s.stats.channels channel)

/-- The accesses that are queued, or were merged. -/
def waitingOrMerged (c : HbmController) (stats : ChannelStats) : Nat :=
  (c.readQueue.length + c.writeQueue.length) + stats.queue.mergedAccesses

def outstandingOn (c : HbmController) (_ : ChannelStats) : Nat := c.outstandingAccesses

def busCommandsOn (_ : HbmController) (stats : ChannelStats) : Nat :=
  stats.commandBus.issuedCommands

def completedBytesOn (_ : HbmController) (stats : ChannelStats) : Nat := stats.completedBytes

/-- The bytes of some accesses. -/
def bytesOf (accesses : List LogicalAccess) : Nat := (accesses.map (·.sizeBytes)).sum

def queuedBytesOn (c : HbmController) (_ : ChannelStats) : Nat := bytesOf c.queued

/-- The bytes an observation merges into a transfer. -/
def Observation.mergedBytes : Observation → Nat
  | .issued _ physical _ => bytesOf (physical.completions.tail.map (·.toLogicalAccess))
  | _ => 0

/-- The bytes of the merged followers. -/
def mergedBytes (trace : List Observation) : Nat := (trace.map (·.mergedBytes)).sum

/-- The bytes of the open accesses. -/
def openBytes (trace : List Observation) : Nat := bytesOf ((openAccesses trace).map (·.access))

/-- The bytes of the reserved slots. -/
def Debts.slotBytes (d : Debts) : Nat := bytesOf (d.slots.map (·.toLogicalAccess))

/-- Accesses, commands and bytes are where they are counted. -/
structure Conserved (cfg : HbmConfig) (s : HbmSystem) (d : Debts) : Prop where
  modeled : s.stats.modeledAccesses =
    s.total cfg waitingOrMerged + s.stats.physicalAccesses + d.slots.length
  data : s.stats.readCommands + s.stats.writeCommands = s.stats.physicalAccesses
  classified : s.stats.rowHits + s.stats.rowClosed + s.stats.rowConflicts +
    s.total cfg outstandingOn + d.slots.length = s.stats.modeledAccesses
  remaining : (s.parents.map (·.remainingAccesses)).sum =
    s.total cfg outstandingOn + d.slots.length
  issued : s.stats.issuedCommands = s.total cfg busCommandsOn
  buses : cfg.device.standard.isSome = true → ∀ channel,
    (s.stats.channels channel).commandBus.issuedCommands =
      (s.stats.channels channel).rowCommandBus.issuedCommands +
        (s.stats.channels channel).columnCommandBus.issuedCommands
  completedBytes : s.stats.readBytes + s.stats.writeBytes +
    (s.parents.map (·.admittedBytes)).sum = s.total cfg completedBytesOn + openBytes s.trace
  transferredBytes : s.stats.physicalReadBytes + s.stats.physicalWriteBytes +
      mergedBytes s.trace + s.total cfg queuedBytesOn + d.slotBytes =
    s.total cfg completedBytesOn + openBytes s.trace

section

open HbmController

variable {cfg : HbmConfig} {s t : HbmSystem} {d d' : Debts}

theorem bytesOf_append (xs ys : List LogicalAccess) :
    bytesOf (xs ++ ys) = bytesOf xs + bytesOf ys := by
  simp [bytesOf]

theorem bytesOf_perm {xs ys : List LogicalAccess} (h : xs.Perm ys) : bytesOf xs = bytesOf ys :=
  (h.map _).sum_nat

/-- The total changes by what it changes on one channel. -/
theorem total_update {channel : Nat} (hchannel : channel < cfg.channelCount)
    (controllers : ∀ ch ≠ channel, t.controllers ch = s.controllers ch)
    (stats : ∀ ch ≠ channel, t.stats.channels ch = s.stats.channels ch)
    (f : HbmController → ChannelStats → Nat) :
    t.total cfg f + f (s.controllers channel) (s.stats.channels channel) =
      s.total cfg f + f (t.controllers channel) (t.stats.channels channel) := by
  apply sum_range_replace hchannel
  intro ch _ apart
  rw [controllers ch apart, stats ch apart]

/-- The total does not change with the controllers' marks. -/
theorem total_congr (f : HbmController → ChannelStats → Nat)
    (same : ∀ ch, f (t.controllers ch) (t.stats.channels ch) =
      f (s.controllers ch) (s.stats.channels ch)) : t.total cfg f = s.total cfg f := by
  apply Finset.sum_congr rfl
  intro ch _
  exact same ch

/-- The total after a call of one channel's controller. -/
theorem total_step {channel : Nat} (hchannel : channel < cfg.channelCount) {u : ControllerState}
    (stats : ∀ ch ≠ channel, u.stats.channels ch = s.stats.channels ch)
    (f : HbmController → ChannelStats → Nat) :
    (s.update channel u).total cfg f + f (s.controllers channel) (s.stats.channels channel) =
      s.total cfg f + f u.ctl (u.stats.channels channel) := by
  have changed := @total_update cfg s (s.update channel u) channel hchannel
    (fun ch apart => if_neg apart) stats f
  rwa [update_controllers, if_pos rfl] at changed

theorem total_add {channel : Nat} (hchannel : channel < cfg.channelCount) {u : ControllerState}
    (stats : ∀ ch ≠ channel, u.stats.channels ch = s.stats.channels ch)
    {f : HbmController → ChannelStats → Nat} {count : Nat}
    (more : f u.ctl (u.stats.channels channel) =
      f (s.controllers channel) (s.stats.channels channel) + count) :
    (s.update channel u).total cfg f = s.total cfg f + count := by
  have total := total_step hchannel stats f
  omega

theorem total_same {channel : Nat} (hchannel : channel < cfg.channelCount) {u : ControllerState}
    (stats : ∀ ch ≠ channel, u.stats.channels ch = s.stats.channels ch)
    {f : HbmController → ChannelStats → Nat}
    (same : f u.ctl (u.stats.channels channel) =
      f (s.controllers channel) (s.stats.channels channel)) :
    (s.update channel u).total cfg f = s.total cfg f :=
  total_add hchannel stats (same.trans (Nat.add_zero _).symm)

/-- The split of the commands over the buses is kept on every channel. -/
theorem buses_step {channel : Nat} {u : ControllerState}
    (stats : ∀ ch ≠ channel, u.stats.channels ch = s.stats.channels ch)
    (before : ∀ ch, (s.stats.channels ch).commandBus.issuedCommands =
      (s.stats.channels ch).rowCommandBus.issuedCommands +
        (s.stats.channels ch).columnCommandBus.issuedCommands)
    (own : (u.stats.channels channel).commandBus.issuedCommands =
      (u.stats.channels channel).rowCommandBus.issuedCommands +
        (u.stats.channels channel).columnCommandBus.issuedCommands) (ch : Nat) :
    (u.stats.channels ch).commandBus.issuedCommands =
      (u.stats.channels ch).rowCommandBus.issuedCommands +
        (u.stats.channels ch).columnCommandBus.issuedCommands := by
  by_cases same : ch = channel
  · subst same
    exact own
  · rw [stats ch same]
    exact before ch

/-- A step of a controller moves no access and no byte. -/
theorem Conserved.control (h : Conserved cfg s d) {channel : Nat} {u : ControllerState}
    (hchannel : channel < cfg.channelCount)
    (step : ControllerStep (cfg.channelConfig channel) cfg.mapper s.now (s.side channel) u) :
    Conserved cfg (s.update channel u) d := by
  have others : ∀ ch ≠ channel, u.stats.channels ch = s.stats.channels ch :=
    fun ch apart => step.stats_of_ne apart
  obtain ⟨count, row, column, tally, split⟩ := step.tally
  have tally : u.stats.tally channel = (s.stats.tally channel).commands count row column := tally
  simp only [HbmStats.tally, Tally.commands, Tally.mk.injEq] at tally
  obtain ⟨modeled, physical, data, issued, classified, completed, transferred, bytes, merged, bus,
    rowBus, columnBus⟩ := tally
  have waiting : (s.update channel u).total cfg waitingOrMerged = s.total cfg waitingOrMerged := by
    have reads : u.ctl.readQueue.length = (s.controllers channel).readQueue.length :=
      step.queue_length false
    have writes : u.ctl.writeQueue.length = (s.controllers channel).writeQueue.length :=
      step.queue_length true
    apply total_same hchannel others
    unfold waitingOrMerged
    rw [reads, writes, merged]
  have outstanding : (s.update channel u).total cfg outstandingOn = s.total cfg outstandingOn :=
    total_same hchannel others step.marks.outstandingAccesses
  have commands : (s.update channel u).total cfg busCommandsOn =
      s.total cfg busCommandsOn + count := total_add hchannel others bus
  have completedBytes : (s.update channel u).total cfg completedBytesOn =
      s.total cfg completedBytesOn := total_same hchannel others bytes
  have queuedBytes : (s.update channel u).total cfg queuedBytesOn = s.total cfg queuedBytesOn :=
    total_same hchannel others (congrArg bytesOf step.queued)
  constructor
  case modeled =>
    rw [waiting]
    exact modeled.trans (physical ▸ h.modeled)
  case data => exact data.trans (h.data.trans physical.symm)
  case classified =>
    rw [outstanding]
    exact (congrArg (· + _ + _) classified).trans (h.classified.trans modeled.symm)
  case remaining =>
    rw [outstanding]
    exact h.remaining
  case issued =>
    rw [commands]
    exact issued.trans (congrArg (· + count) h.issued)
  case buses =>
    intro standard
    have before := h.buses standard
    apply buses_step others before
    rw [bus, rowBus, columnBus, before channel, split standard]
    omega
  case completedBytes =>
    rw [completedBytes]
    exact (congrArg (· + _) completed).trans h.completedBytes
  case transferredBytes =>
    rw [completedBytes, queuedBytes]
    exact (congrArg (· + _ + _ + _) transferred).trans h.transferredBytes

/-- What a transfer serves is its leader and its followers. -/
theorem served_eq {physical : PhysicalAccess} {leader : LogicalCompletion}
    {followers : List LogicalCompletion}
    (completions : physical.completions = leader :: followers) :
    physical.served = leader.toLogicalAccess :: followers.map (·.toLogicalAccess) := by
  unfold PhysicalAccess.served
  rw [completions]
  rfl

/-- A transfer takes its leader and its followers off the queues, and counts the followers as
merged. -/
theorem waiting_transfer {channel : Nat} {physical : PhysicalAccess} {u : ControllerState}
    {leader : LogicalCompletion} {followers : List LogicalCompletion}
    (hchannel : channel < cfg.channelCount)
    (step : DataStep (cfg.channelConfig channel) cfg.mapper s.now (s.side channel) physical u)
    (completions : physical.completions = leader :: followers) :
    (s.update channel u).total cfg waitingOrMerged + 1 = s.total cfg waitingOrMerged := by
  have tally : u.stats.tally channel =
      ((s.stats.tally channel).command cfg.device.standard.isSome true).transfer
        physical.completions.tail.length physical.bytes := step.tally
  simp only [HbmStats.tally, Tally.command, Tally.transfer, Tally.mk.injEq] at tally
  obtain ⟨-, -, -, -, -, -, -, -, merged, -⟩ := tally
  rw [completions] at merged
  have queued : (physical.served ++ u.ctl.queued).Perm (s.controllers channel).queued :=
    step.queued
  have lengths := queued.length_eq
  rw [served_eq completions] at lengths
  have total := total_step hchannel (fun ch apart => step.stats_of_ne apart) waitingOrMerged
  have less : waitingOrMerged u.ctl (u.stats.channels channel) + 1 =
      waitingOrMerged (s.controllers channel) (s.stats.channels channel) := by
    unfold waitingOrMerged
    rw [merged]
    simp [HbmController.queued, HbmController.queue] at lengths
    simp
    omega
  omega

/-- The bytes of a transfer and of its followers leave the queues. -/
theorem queuedBytes_transfer {channel : Nat} {physical : PhysicalAccess} {u : ControllerState}
    {leader : LogicalCompletion} {followers : List LogicalCompletion}
    (hchannel : channel < cfg.channelCount)
    (step : DataStep (cfg.channelConfig channel) cfg.mapper s.now (s.side channel) physical u)
    (completions : physical.completions = leader :: followers)
    (size : leader.sizeBytes = physical.bytes) :
    (s.update channel u).total cfg queuedBytesOn +
        (physical.bytes + bytesOf (followers.map (·.toLogicalAccess))) =
      s.total cfg queuedBytesOn := by
  have queued : (physical.served ++ u.ctl.queued).Perm (s.controllers channel).queued :=
    step.queued
  have sizes := bytesOf_perm queued
  rw [served_eq completions, bytesOf_append] at sizes
  have total := total_step hchannel (fun ch apart => step.stats_of_ne apart) queuedBytesOn
  have less : queuedBytesOn u.ctl (u.stats.channels channel) +
      (physical.bytes + bytesOf (followers.map (·.toLogicalAccess))) =
        queuedBytesOn (s.controllers channel) (s.stats.channels channel) := by
    unfold queuedBytesOn
    rw [← sizes, ← size]
    exact Nat.add_comm _ _
  omega

theorem mergedBytes_issued {physical : PhysicalAccess} {leader : LogicalCompletion}
    {followers : List LogicalCompletion} (channel at_ : Nat) (trace : List Observation)
    (completions : physical.completions = leader :: followers) :
    mergedBytes (.issued channel physical at_ :: trace) =
      bytesOf (followers.map (·.toLogicalAccess)) + mergedBytes trace := by
  have own : (Observation.issued channel physical at_).mergedBytes =
      bytesOf (followers.map (·.toLogicalAccess)) := by
    show bytesOf (physical.completions.tail.map _) = _
    rw [completions]
    rfl
  unfold mergedBytes
  rw [List.map_cons, List.sum_cons, own]

/-- A data command moves the accesses it serves out of the queues. -/
theorem Conserved.transfer (h : Conserved cfg s d) {channel : Nat} {physical : PhysicalAccess}
    {u : ControllerState} (hchannel : channel < cfg.channelCount)
    (step : DataStep (cfg.channelConfig channel) cfg.mapper s.now (s.side channel) physical u) :
    Conserved cfg ((s.update channel u).observe (.issued channel physical s.now)) d := by
  have others : ∀ ch ≠ channel, u.stats.channels ch = s.stats.channels ch :=
    fun ch apart => step.stats_of_ne apart
  have tally : u.stats.tally channel =
      ((s.stats.tally channel).command cfg.device.standard.isSome true).transfer
        physical.completions.tail.length physical.bytes := step.tally
  simp only [HbmStats.tally, Tally.command, Tally.transfer, Tally.mk.injEq] at tally
  obtain ⟨modeled, moved, data, issued, classified, completed, transferred, bytes, -, bus,
    rowBus, columnBus⟩ := tally
  obtain ⟨leader, followers, completions, size⟩ := step.bytes
  have waiting := waiting_transfer hchannel step completions
  have queuedBytes := queuedBytes_transfer hchannel step completions size
  have merges := mergedBytes_issued channel s.now s.trace completions
  have outstanding : (s.update channel u).total cfg outstandingOn = s.total cfg outstandingOn :=
    total_same hchannel others step.marks.outstandingAccesses
  have commands : (s.update channel u).total cfg busCommandsOn =
      s.total cfg busCommandsOn + 1 := total_add hchannel others bus
  have completedBytes : (s.update channel u).total cfg completedBytesOn =
      s.total cfg completedBytesOn := total_same hchannel others bytes
  have total : ∀ f, ((s.update channel u).observe (.issued channel physical s.now)).total cfg f =
      (s.update channel u).total cfg f := fun _ => rfl
  constructor
  case modeled =>
    have before := h.modeled
    rw [total]
    show u.stats.modeledAccesses = _ + u.stats.physicalAccesses + d.slots.length
    omega
  case data =>
    have before := h.data
    show u.stats.readCommands + u.stats.writeCommands = u.stats.physicalAccesses
    rw [data, moved, before]
    rfl
  case classified =>
    rw [total, outstanding]
    exact (congrArg (· + _ + _) classified).trans (h.classified.trans modeled.symm)
  case remaining =>
    rw [total, outstanding]
    exact h.remaining
  case issued =>
    rw [total, commands]
    exact issued.trans (congrArg (· + 1) h.issued)
  case buses =>
    intro standard
    have before := h.buses standard
    apply buses_step others before
    rw [bus, rowBus, columnBus, before channel, standard]
    rfl
  case completedBytes =>
    rw [total, completedBytes]
    exact (congrArg (· + _) completed).trans h.completedBytes
  case transferredBytes =>
    have before := h.transferredBytes
    rw [total, total, completedBytes]
    show u.stats.physicalReadBytes + u.stats.physicalWriteBytes +
      mergedBytes (.issued channel physical s.now :: s.trace) +
        (s.update channel u).total cfg queuedBytesOn + d.slotBytes =
      s.total cfg completedBytesOn + openBytes s.trace
    omega

/-- A change that no counter speaks about. -/
theorem Conserved.keep (h : Conserved cfg s d) (tally : ∀ ch, t.stats.tally ch = s.stats.tally ch)
    (controllers : ∀ ch, (t.controllers ch).readQueue = (s.controllers ch).readQueue ∧
      (t.controllers ch).writeQueue = (s.controllers ch).writeQueue ∧
      (t.controllers ch).outstandingAccesses = (s.controllers ch).outstandingAccesses)
    (parents : (t.parents.map (·.remainingAccesses)).sum =
        (s.parents.map (·.remainingAccesses)).sum ∧
      (t.parents.map (·.admittedBytes)).sum = (s.parents.map (·.admittedBytes)).sum)
    (merged : mergedBytes t.trace = mergedBytes s.trace)
    (opened : openAccesses t.trace = openAccesses s.trace) (slots : d'.slots = d.slots) :
    Conserved cfg t d' := by
  have globals := tally 0
  simp only [HbmStats.tally, Tally.mk.injEq] at globals tally
  obtain ⟨modeled, physical, data, issued, classified, completed, transferred, -⟩ := globals
  have waiting : t.total cfg waitingOrMerged = s.total cfg waitingOrMerged := by
    apply total_congr
    intro ch
    obtain ⟨reads, writes, -⟩ := controllers ch
    obtain ⟨-, -, -, -, -, -, -, -, merged, -⟩ := tally ch
    unfold waitingOrMerged
    rw [reads, writes, merged]
  have outstanding : t.total cfg outstandingOn = s.total cfg outstandingOn :=
    total_congr outstandingOn fun ch => (controllers ch).2.2
  have commands : t.total cfg busCommandsOn = s.total cfg busCommandsOn := by
    apply total_congr
    intro ch
    obtain ⟨-, -, -, -, -, -, -, -, -, bus, -⟩ := tally ch
    exact bus
  have completedBytes : t.total cfg completedBytesOn = s.total cfg completedBytesOn := by
    apply total_congr
    intro ch
    obtain ⟨-, -, -, -, -, -, -, bytes, -⟩ := tally ch
    exact bytes
  have queuedBytes : t.total cfg queuedBytesOn = s.total cfg queuedBytesOn := by
    apply total_congr
    intro ch
    obtain ⟨reads, writes, -⟩ := controllers ch
    unfold queuedBytesOn HbmController.queued HbmController.queue
    rw [if_neg Bool.false_ne_true, if_pos rfl, if_neg Bool.false_ne_true, if_pos rfl, reads, writes]
  constructor
  case modeled =>
    rw [waiting, slots, modeled, physical]
    exact h.modeled
  case data =>
    rw [data, physical]
    exact h.data
  case classified =>
    rw [outstanding, slots, classified, modeled]
    exact h.classified
  case remaining =>
    rw [outstanding, slots, parents.1]
    exact h.remaining
  case issued =>
    rw [commands, issued]
    exact h.issued
  case buses =>
    intro standard ch
    obtain ⟨-, -, -, -, -, -, -, -, -, bus, rowBus, columnBus⟩ := tally ch
    rw [bus, rowBus, columnBus]
    exact h.buses standard ch
  case completedBytes =>
    unfold openBytes
    rw [completedBytes, completed, parents.2, opened]
    exact h.completedBytes
  case transferredBytes =>
    unfold openBytes Debts.slotBytes
    rw [completedBytes, queuedBytes, transferred, merged, opened, slots]
    exact h.transferredBytes

/-- A charged access is modeled, and waits in its slot. -/
theorem Conserved.charge (h : Conserved cfg s d) (family : (s.parents.map (·.transaction.id)).Nodup)
    {parent : ParentRequest} {access : HbmAccess} {closing : Option Nat}
    (hchannel : access.address.flatChannel < cfg.channelCount) (mem : parent ∈ s.parents) :
    Conserved cfg (s.charge parent access)
      { d with slots := s.numbered access :: d.slots, closing := closing } := by
  let channel := access.address.flatChannel
  let u := HbmController.reserved (s.side channel) access.op.isWrite
  have total : ∀ f, (s.charge parent access).total cfg f = (s.update channel u).total cfg f :=
    fun _ => rfl
  have others : ∀ ch ≠ channel, u.stats.channels ch = s.stats.channels ch := fun _ _ => rfl
  have same : ∀ f : HbmController → ChannelStats → Nat,
      f u.ctl (s.stats.channels channel) = f (s.controllers channel) (s.stats.channels channel) →
        (s.charge parent access).total cfg f = s.total cfg f :=
    fun f own => (total f).trans (total_same hchannel others own)
  let charged : ParentRequest → ParentRequest := fun p =>
    { p with
      admittedBytes := p.admittedBytes + access.sizeBytes
      remainingAccesses := p.remainingAccesses + 1 }
  have remaining := sum_map_modify (f := charged) (g := (·.remainingAccesses)) family mem
  have admitted := sum_map_modify (f := charged) (g := (·.admittedBytes)) family mem
  have sums : (s.charge parent access).parents =
      s.parents.map fun p => if p.transaction.id = parent.transaction.id then charged p else p :=
        rfl
  constructor
  case modeled =>
    have before := h.modeled
    rw [same waitingOrMerged rfl]
    show s.stats.modeledAccesses + 1 = _ + s.stats.physicalAccesses + (d.slots.length + 1)
    omega
  case data => exact h.data
  case classified =>
    have before := h.classified
    rw [same outstandingOn rfl]
    show s.stats.rowHits + s.stats.rowClosed + s.stats.rowConflicts + _ + (d.slots.length + 1) =
      s.stats.modeledAccesses + 1
    omega
  case remaining =>
    have before := h.remaining
    rw [same outstandingOn rfl, sums]
    show _ = _ + (d.slots.length + 1)
    dsimp only [charged] at remaining ⊢
    omega
  case issued =>
    rw [same busCommandsOn rfl]
    exact h.issued
  case buses => exact h.buses
  case completedBytes =>
    have before := h.completedBytes
    rw [same completedBytesOn rfl, sums]
    show s.stats.readBytes + s.stats.writeBytes + _ =
      _ + (access.sizeBytes + openBytes s.trace)
    dsimp only [charged] at admitted ⊢
    omega
  case transferredBytes =>
    have before := h.transferredBytes
    rw [same completedBytesOn rfl, same queuedBytesOn rfl]
    show s.stats.physicalReadBytes + s.stats.physicalWriteBytes + (0 + mergedBytes s.trace) + _ +
      (access.sizeBytes + d.slotBytes) = _ + (access.sizeBytes + openBytes s.trace)
    omega

/-- A pushed access leaves its slot for a queue. -/
theorem Conserved.push (h : Conserved cfg s d) {access : HbmAccess} {rest : List HbmAccess}
    {wakes rearm : List Nat} (hchannel : access.address.flatChannel < cfg.channelCount)
    (slot : d.slots = access :: rest) :
    Conserved cfg (s.push cfg access) { d with slots := rest, wakes := wakes, rearm := rearm } := by
  let channel := access.address.flatChannel
  let pushed : HbmAccess := { access with enqueuedAt := access.arrivalTime }
  let u := HbmController.pushed (cfg.channelConfig channel) (s.side channel) pushed
  have others : ∀ ch ≠ channel, u.stats.channels ch = s.stats.channels ch := by
    obtain ⟨f, hf⟩ := push_stats cfg s access
    intro ch apart
    show (s.push cfg access).stats.channels ch = s.stats.channels ch
    rw [hf]
    exact modifyQueue_of_ne s.stats apart f
  have queued : u.ctl.queued.Perm (access.toLogicalAccess :: (s.controllers channel).queued) :=
    push_queued (s.controllers channel) pushed
  have lengths := queued.length_eq
  have sizes := bytesOf_perm queued
  have tally : u.stats.tally channel = s.stats.tally channel :=
    modifyQueue_tally s.stats channel channel fun _ => rfl
  simp only [HbmStats.tally, Tally.mk.injEq] at tally
  obtain ⟨-, -, -, -, -, -, -, bytes, merged, bus, rowBus, columnBus⟩ := tally
  have waiting : (s.push cfg access).total cfg waitingOrMerged =
    s.total cfg waitingOrMerged + 1 := by
    apply total_add hchannel others
    show u.ctl.readQueue.length + u.ctl.writeQueue.length + _ =
      (s.controllers channel).readQueue.length + (s.controllers channel).writeQueue.length +
        (s.stats.channels channel).queue.mergedAccesses + 1
    rw [merged]
    simp [HbmController.queued, HbmController.queue] at lengths
    omega
  have outstanding : (s.push cfg access).total cfg outstandingOn = s.total cfg outstandingOn + 1 :=
    total_add hchannel others rfl
  have commands : (s.push cfg access).total cfg busCommandsOn = s.total cfg busCommandsOn :=
    total_same hchannel others bus
  have completedBytes : (s.push cfg access).total cfg completedBytesOn =
      s.total cfg completedBytesOn := total_same hchannel others bytes
  have queuedBytes : (s.push cfg access).total cfg queuedBytesOn =
      s.total cfg queuedBytesOn + access.sizeBytes :=
    total_add hchannel others (sizes.trans (Nat.add_comm _ _))
  have length : d.slots.length = rest.length + 1 := congrArg List.length slot
  have slotBytes : d.slotBytes = access.sizeBytes + bytesOf (rest.map (·.toLogicalAccess)) := by
    unfold Debts.slotBytes
    rw [slot]
    rfl
  constructor
  case modeled =>
    have before := h.modeled
    rw [waiting]
    show s.stats.modeledAccesses = _ + s.stats.physicalAccesses + rest.length
    omega
  case data => exact h.data
  case classified =>
    have before := h.classified
    rw [outstanding]
    show s.stats.rowHits + s.stats.rowClosed + s.stats.rowConflicts + _ + rest.length =
      s.stats.modeledAccesses
    omega
  case remaining =>
    have before := h.remaining
    rw [outstanding]
    show (s.parents.map (·.remainingAccesses)).sum = _ + rest.length
    omega
  case issued =>
    rw [commands]
    exact h.issued
  case buses =>
    intro standard
    have before := h.buses standard
    apply buses_step others before
    rw [bus, rowBus, columnBus]
    exact before channel
  case completedBytes =>
    rw [completedBytes]
    exact h.completedBytes
  case transferredBytes =>
    have before := h.transferredBytes
    rw [completedBytes, queuedBytes]
    show s.stats.physicalReadBytes + s.stats.physicalWriteBytes + mergedBytes s.trace + _ +
      bytesOf (rest.map (·.toLogicalAccess)) = _ + openBytes s.trace
    omega

/-- A finished access is classified. -/
theorem finished_tally (config : HbmControllerConfig) (u : ControllerState)
    (access : LogicalCompletion) :
    (HbmController.finished config u access).stats.tally config.channel =
      { u.stats.tally config.channel with
        classified := (u.stats.tally config.channel).classified + 1
        channelBytes := (u.stats.tally config.channel).channelBytes + access.sizeBytes } := by
  obtain ⟨l, k⟩ := access
  cases k
  all_goals
    simp [HbmController.finished, HbmController.countClass, HbmStats.tally,
      HbmStats.modifyChannel]
  all_goals omega

/-- Credit takes one access off its parent, and no byte. -/
theorem creditAccess_counts (p : ParentRequest) (access : LogicalCompletion)
    (channel time : Nat) :
    (creditAccess p access channel time).remainingAccesses = p.remainingAccesses - 1 ∧
      (creditAccess p access channel time).admittedBytes = p.admittedBytes := by
  unfold creditAccess
  dsimp only
  split
  · exact ⟨rfl, rfl⟩
  · exact ⟨rfl, rfl⟩

/-- A credited access is classified and no longer open. -/
theorem Conserved.credit (h : Conserved cfg s d)
    (family : (s.parents.map (·.transaction.id)).Nodup) {channel : Nat} {access : LogicalCompletion}
    {parent : ParentRequest} {rest : List (Nat × Nat × LogicalCompletion)} {ripe : Option Nat}
    (hchannel : channel < cfg.channelCount)
    (found : s.findParent access.parentId = some parent)
    (opened : ⟨parent.ticket, channel, access.toLogicalAccess⟩ ∈ openAccesses s.trace)
    (live : (s.controllers channel).outstandingAccesses ≠ 0)
    (owed : parent.remainingAccesses ≠ 0) :
    Conserved cfg (s.credit cfg channel access parent)
      { d with finishing := rest, ripe := ripe } := by
  obtain ⟨mem, id⟩ := findParent_some found
  let u := HbmController.finished (cfg.channelConfig channel) (s.side channel) access
  have others : ∀ ch ≠ channel, u.stats.channels ch = s.stats.channels ch := by
    obtain ⟨f, hf, -⟩ := credit_channels cfg s channel access parent
    intro ch apart
    show (s.credit cfg channel access parent).stats.channels ch = s.stats.channels ch
    rw [hf]
    exact HbmStats.modifyChannel_of_ne s.stats apart f
  have tally : u.stats.tally channel = { s.stats.tally channel with
      classified := (s.stats.tally channel).classified + 1
      channelBytes := (s.stats.tally channel).channelBytes + access.sizeBytes } :=
    finished_tally (cfg.channelConfig channel) (s.side channel) access
  simp only [HbmStats.tally, Tally.mk.injEq] at tally
  obtain ⟨modeled, physical, data, issued, classified, completed, transferred, bytes, merged, bus,
    rowBus, columnBus⟩ := tally
  have parents : (s.credit cfg channel access parent).parents = s.parents.map fun p =>
      if p.transaction.id = parent.transaction.id then creditAccess parent access channel s.now
      else p := by
    rw [id]
    rfl
  obtain ⟨one, unchanged⟩ := creditAccess_counts parent access channel s.now
  have remaining := sum_map_modify (f := fun _ => creditAccess parent access channel s.now)
    (g := (·.remainingAccesses)) family mem
  have admitted := sum_map_modify (f := fun _ => creditAccess parent access channel s.now)
    (g := (·.admittedBytes)) family mem
  have closes : openBytes s.trace = access.sizeBytes +
      openBytes (.finished parent.ticket channel access s.now :: s.trace) :=
    bytesOf_perm ((List.perm_cons_erase opened).map OpenAccess.access)
  -- only the outstanding and the completed bytes of this channel move
  have waiting : (s.credit cfg channel access parent).total cfg waitingOrMerged =
      s.total cfg waitingOrMerged := by
    apply total_same hchannel others
    show _ + (u.stats.channels channel).queue.mergedAccesses = _
    rw [merged]
    rfl
  have outstanding : (s.credit cfg channel access parent).total cfg outstandingOn + 1 =
      s.total cfg outstandingOn := by
    have total : (s.credit cfg channel access parent).total cfg outstandingOn +
        (s.controllers channel).outstandingAccesses = s.total cfg outstandingOn +
          ((s.controllers channel).outstandingAccesses - 1) :=
      total_step hchannel others outstandingOn
    omega
  have commands : (s.credit cfg channel access parent).total cfg busCommandsOn =
      s.total cfg busCommandsOn := total_same hchannel others bus
  have completedBytes : (s.credit cfg channel access parent).total cfg completedBytesOn =
      s.total cfg completedBytesOn + access.sizeBytes := total_add hchannel others bytes
  have queuedBytes : (s.credit cfg channel access parent).total cfg queuedBytesOn =
      s.total cfg queuedBytesOn := total_same hchannel others rfl
  constructor
  case modeled =>
    rw [waiting]
    exact modeled.trans (physical ▸ h.modeled)
  case data => exact data.trans (h.data.trans physical.symm)
  case classified =>
    have before := h.classified
    show u.stats.rowHits + u.stats.rowClosed + u.stats.rowConflicts + _ + d.slots.length =
      u.stats.modeledAccesses
    omega
  case remaining =>
    have before := h.remaining
    rw [parents]
    show _ = _ + d.slots.length
    omega
  case issued =>
    rw [commands]
    exact issued.trans h.issued
  case buses =>
    intro standard
    have before := h.buses standard
    apply buses_step others before
    rw [bus, rowBus, columnBus]
    exact before channel
  case completedBytes =>
    have before := h.completedBytes
    rw [completedBytes, parents]
    show u.stats.readBytes + u.stats.writeBytes + _ =
      _ + openBytes (.finished parent.ticket channel access s.now :: s.trace)
    omega
  case transferredBytes =>
    have before := h.transferredBytes
    rw [completedBytes, queuedBytes]
    show u.stats.physicalReadBytes + u.stats.physicalWriteBytes + (0 + mergedBytes s.trace) + _ +
      d.slotBytes = _ + openBytes (.finished parent.ticket channel access s.now :: s.trace)
    omega

/-- The bytes of a completed parent are counted as its transaction's. -/
theorem Conserved.retire (h : Conserved cfg s d)
    (family : (s.parents.map (·.transaction.id)).Nodup) {parent : ParentRequest}
    {ripe : Option Nat} {retired : Nat} (found : s.findParent parent.transaction.id = some parent)
    (finished : parent.remainingAccesses = 0)
    (admitted : parent.admittedBytes = parent.transaction.sizeBytes) :
    Conserved cfg (s.retireParent cfg parent) { d with ripe := ripe, retired := retired } := by
  obtain ⟨mem, -⟩ := findParent_some found
  have parents : (s.retireParent cfg parent).parents =
      s.parents.filter fun p => decide (p.transaction.id ≠ parent.transaction.id) := by
    apply List.filter_congr
    intro p _
    show (p.transaction.id != parent.transaction.id) = _
    rw [Bool.eq_iff_iff]
    simp
  have remaining := sum_map_filter (g := (·.remainingAccesses)) family mem
  have bytes := sum_map_filter (g := (·.admittedBytes)) family mem
  have counted : (s.retireParent cfg parent).stats.readBytes +
      (s.retireParent cfg parent).stats.writeBytes =
        s.stats.readBytes + s.stats.writeBytes + parent.transaction.sizeBytes := by
    show s.stats.readBytes + (if parent.transaction.op == .read then parent.transaction.sizeBytes
      else 0) + (s.stats.writeBytes + (if parent.transaction.op == .read then 0
        else parent.transaction.sizeBytes)) = _
    split <;> omega
  constructor
  case modeled => exact h.modeled
  case data => exact h.data
  case classified => exact h.classified
  case remaining =>
    have before := h.remaining
    rw [parents]
    show _ = s.total cfg outstandingOn + d.slots.length
    omega
  case issued => exact h.issued
  case buses => exact h.buses
  case completedBytes =>
    have before := h.completedBytes
    rw [parents, counted]
    show _ = s.total cfg completedBytesOn + openBytes s.trace
    omega
  case transferredBytes =>
    have before := h.transferredBytes
    show s.stats.physicalReadBytes + s.stats.physicalWriteBytes + (0 + mergedBytes s.trace) +
      s.total cfg queuedBytesOn + d.slotBytes = s.total cfg completedBytesOn + openBytes s.trace
    omega

/-- The members the counters speak about are the same. -/
theorem Conserved.members (h : Conserved cfg s d) (stats : t.stats = s.stats)
    (controllers : ∀ ch, (t.controllers ch).readQueue = (s.controllers ch).readQueue ∧
      (t.controllers ch).writeQueue = (s.controllers ch).writeQueue ∧
      (t.controllers ch).outstandingAccesses = (s.controllers ch).outstandingAccesses)
    (parents : t.parents = s.parents) (merged : mergedBytes t.trace = mergedBytes s.trace)
    (opened : openAccesses t.trace = openAccesses s.trace) (slots : d'.slots = d.slots) :
    Conserved cfg t d' := by
  apply h.keep
  case tally => exact fun ch => congrArg (HbmStats.tally · ch) stats
  case controllers => exact controllers
  case parents =>
    rw [parents]
    exact ⟨rfl, rfl⟩
  case merged => exact merged
  case opened => exact opened
  case slots => exact slots

/-- A change of one controller's marks. -/
theorem Conserved.mark (h : Conserved cfg s d) {channel : Nat} {c : HbmController}
    (controllers : ∀ ch, t.controllers ch = if ch = channel then c else s.controllers ch)
    (stats : t.stats = s.stats)
    (same : c.readQueue = (s.controllers channel).readQueue ∧
      c.writeQueue = (s.controllers channel).writeQueue ∧
      c.outstandingAccesses = (s.controllers channel).outstandingAccesses)
    (parents : t.parents = s.parents) (trace : t.trace = s.trace) (slots : d'.slots = d.slots) :
    Conserved cfg t d' := by
  refine h.members stats (fun ch => ?_) parents (congrArg mergedBytes trace)
    (congrArg openAccesses trace) slots
  rw [controllers]
  split
  · rename_i own
    subst own
    exact same
  · exact ⟨rfl, rfl, rfl⟩

theorem Conserved.move {p q : HbmSystem × Debts} (move : Move cfg p q)
    (accounted : Accounted p.1 p.2) (h : Conserved cfg p.1 p.2) : Conserved cfg q.1 q.2 := by
  have ids := accounted.family.ids
  have keeps : ∀ ch, (p.1.controllers ch).readQueue = (p.1.controllers ch).readQueue ∧
      (p.1.controllers ch).writeQueue = (p.1.controllers ch).writeQueue ∧
      (p.1.controllers ch).outstandingAccesses = (p.1.controllers ch).outstandingAccesses :=
    fun _ => ⟨rfl, rfl, rfl⟩
  cases move with
  | control hchannel step => exact h.control hchannel step
  | stir hchannel step => exact (h.control hchannel step).members rfl (fun _ => ⟨rfl, rfl, rfl⟩) rfl rfl rfl rfl
  | transfer hchannel step =>
      exact (h.transfer hchannel step).members rfl (fun _ => ⟨rfl, rfl, rfl⟩) rfl rfl rfl rfl
  | @wake s d channel at_ =>
      exact h.mark (markWake_controllers s channel at_) rfl ⟨rfl, rfl, rfl⟩ rfl rfl rfl
  | @arm s d channel due =>
      exact h.mark (markRefresh_controllers s channel due) rfl ⟨rfl, rfl, rfl⟩ rfl rfl rfl
  | @misarm s d channel due =>
      have same := modifyController_controllers s channel fun c =>
        { c with refreshDueAt := some due }
      exact h.mark same rfl ⟨rfl, rfl, rfl⟩ rfl rfl rfl
  | @accept s d tx =>
      refine h.keep (fun _ => rfl) keeps ?_ (Nat.zero_add _) rfl rfl
      show ((s.parents ++ [_]).map _).sum = _ ∧ ((s.parents ++ [_]).map _).sum = _
      simp
  | charge hchannel found =>
      obtain ⟨mem, -⟩ := findParent_some found
      exact h.charge ids hchannel mem
  | push hchannel slot => exact h.push hchannel slot
  | credit hchannel popped found live owed =>
      exact h.credit ids hchannel found (accounted.opened popped found) live owed
  | retire found _ finished admitted => exact h.retire ids found finished admitted
  | @reject s d channel =>
      have tally : ∀ ch, (s.countRejection channel).stats.tally ch = s.stats.tally ch := by
        intro ch
        refine Eq.trans ?_ (modifyQueue_tally s.stats channel ch (f := fun q =>
          { q with rejectedTransactions := q.rejectedTransactions + 1 }) fun _ => rfl)
        rfl
      exact h.keep tally keeps ⟨rfl, rfl⟩ rfl rfl rfl
  | notify => exact h.members rfl keeps rfl (Nat.zero_add _) rfl rfl
  | return_ => exact h.members rfl keeps rfl (Nat.zero_add _) rfl rfl
  | _ => exact h.members rfl keeps rfl rfl rfl rfl

theorem Conserved.turn {p q : HbmSystem × Debts} (turn : Turn cfg p q)
    (h : p.2.escaped = true ∨ Conserved cfg p.1 p.2) :
    q.2.escaped = true ∨ Conserved cfg q.1 q.2 := by
  cases turn with
  | escape => exact .inl rfl
  | lose => exact .inl rfl
  | @wake s d event rest channel =>
      refine h.imp_right fun h => h.mark (modifyController_controllers (s.pop event rest) channel _)
        rfl ?_ rfl rfl rfl
      split <;> exact ⟨rfl, rfl, rfl⟩
  | @refreshDue s d event rest channel =>
      refine h.imp_right fun h => h.mark (modifyController_controllers (s.pop event rest) channel _)
        rfl ?_ rfl rfl rfl
      split <;> exact ⟨rfl, rfl, rfl⟩
  | _ =>
      exact h.imp_right fun h => h.members rfl (fun _ => ⟨rfl, rfl, rfl⟩) rfl rfl rfl rfl

/-- Nothing is counted at first. -/
theorem conserved_initial : Conserved cfg (initial cfg) {} := by
  have none : ∀ f : HbmController → ChannelStats → Nat,
      (∀ ch, f ((initial cfg).controllers ch) ((initial cfg).stats.channels ch) = 0) →
        (initial cfg).total cfg f = 0 := fun f zero => Finset.sum_eq_zero fun ch _ => zero ch
  have channel : ∀ ch, (initial cfg).stats.channels ch = initialChannelStats cfg := fun _ => rfl
  have stats : (initialChannelStats cfg).queue.mergedAccesses = 0 ∧
      (initialChannelStats cfg).completedBytes = 0 ∧
      (initialChannelStats cfg).commandBus = {} ∧ (initialChannelStats cfg).rowCommandBus = {} ∧
      (initialChannelStats cfg).columnCommandBus = {} := by
    unfold initialChannelStats
    split <;> exact ⟨rfl, rfl, rfl, rfl, rfl⟩
  obtain ⟨merged, bytes, bus, row, column⟩ := stats
  have waiting := none waitingOrMerged fun ch => (Nat.zero_add _).trans merged
  have outstanding := none outstandingOn fun _ => rfl
  have commands := none busCommandsOn fun _ => congrArg ResourceStats.issuedCommands bus
  have completedBytes := none completedBytesOn fun _ => bytes
  have queuedBytes := none queuedBytesOn fun _ => rfl
  constructor
  case modeled =>
    rw [waiting]
    rfl
  case data => rfl
  case classified =>
    rw [outstanding]
    rfl
  case remaining =>
    rw [outstanding]
    rfl
  case issued =>
    rw [commands]
    rfl
  case buses =>
    intro _ ch
    rw [channel, bus, row, column]
    rfl
  case completedBytes =>
    rw [completedBytes]
    rfl
  case transferredBytes =>
    rw [completedBytes, queuedBytes]
    rfl

/-- What is conserved until an exception escapes. -/
theorem HbmSystem.Run.conserved (checked : cfg.Checked) {p : HbmSystem × Debts} (run : Run cfg p) :
    p.2.escaped = true ∨ Conserved cfg p.1 p.2 := by
  induction run with
  | create => exact .inr conserved_initial
  | move run move ih =>
      rcases ih with lost | h
      · exact .inl (move.escaped.trans lost)
      · exact .inr (h.move move (run.accounted checked))
  | turn run turn ih => exact Conserved.turn turn ih

end

end HbmSim
