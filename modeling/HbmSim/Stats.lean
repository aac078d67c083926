import HbmSim.Types

/-!
The statistics object every controller of a system writes to (`stats.h`).
`channels` is the vector of per-channel records, indexed by channel.
-/

namespace HbmSim

structure ResourceStats where
  busyTime : Nat := 0
  issuedCommands : Nat := 0
deriving DecidableEq, Repr

structure QueueStats where
  maxReadDepth : Nat := 0
  maxWriteDepth : Nat := 0
  rejectedTransactions : Nat := 0
  starvationEvents : Nat := 0
  queueWaitTime : Nat := 0
  commandWaitTime : Nat := 0
  arrayWaitTime : Nat := 0
  dataBusWaitTime : Nat := 0
  refreshStallTime : Nat := 0
  dataServiceTime : Nat := 0
  mergedAccesses : Nat := 0
deriving DecidableEq, Repr

structure ChannelStats where
  completedBytes : Nat := 0
  dataBusBusyTime : Nat := 0
  refreshes : Nat := 0
  perBankRefreshes : Nat := 0
  rfmEvents : Nat := 0
  commandBus : ResourceStats := {}
  rowCommandBus : ResourceStats := {}
  columnCommandBus : ResourceStats := {}
  queue : QueueStats := {}
  pseudoChannels : List ResourceStats := []
  banks : List ResourceStats := []
deriving DecidableEq, Repr

structure HbmStats where
  submittedTransactions : Nat := 0
  rejectedTransactions : Nat := 0
  completedTransactions : Nat := 0
  modeledAccesses : Nat := 0
  physicalAccesses : Nat := 0
  physicalReadBytes : Nat := 0
  physicalWriteBytes : Nat := 0
  issuedCommands : Nat := 0
  readBytes : Nat := 0
  writeBytes : Nat := 0
  rowHits : Nat := 0
  rowClosed : Nat := 0
  rowConflicts : Nat := 0
  actCommands : Nat := 0
  preCommands : Nat := 0
  readCommands : Nat := 0
  writeCommands : Nat := 0
  rfmEvents : Nat := 0
  channels : Nat → ChannelStats := fun _ => {}

/-- Update one channel's record. -/
def HbmStats.modifyChannel (s : HbmStats) (channel : Nat) (f : ChannelStats → ChannelStats) :
    HbmStats :=
  { s with channels := fun c => if c = channel then f (s.channels c) else s.channels c }

/-- Update one channel's queue record. -/
def HbmStats.modifyQueue (s : HbmStats) (channel : Nat) (f : QueueStats → QueueStats) :
    HbmStats :=
  s.modifyChannel channel fun c => { c with queue := f c.queue }

@[simp] theorem HbmStats.modifyChannel_self (s : HbmStats) (channel : Nat)
    (f : ChannelStats → ChannelStats) :
    (s.modifyChannel channel f).channels channel = f (s.channels channel) := by
  simp [modifyChannel]

theorem HbmStats.modifyChannel_of_ne (s : HbmStats) {channel c : Nat} (h : c ≠ channel)
    (f : ChannelStats → ChannelStats) :
    (s.modifyChannel channel f).channels c = s.channels c := by
  simp [modifyChannel, h]

end HbmSim
