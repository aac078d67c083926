import Mathlib.Algebra.Ring.Nat

/-!
The vocabulary every other module shares: simulated time, the exceptions the
source throws, and the command and request enumerations.

`SimTime` is a `std::uint64_t` count of picoseconds on the simulator's canonical
clock. A time is a natural number here and a sum of two times is taken modulo
`2 ^ 64`; `SimTime.add` and `SimTime.sub` are that arithmetic. Event counters and
the statistics are plain natural numbers: nothing in the simulation reads a
statistic back.
-/

namespace HbmSim

/-- `std::numeric_limits<SimTime>::max()`. -/
def maxSimTime : Nat := 2 ^ 64 - 1

/-- `a + b` on `std::uint64_t`. -/
def SimTime.add (a b : Nat) : Nat := (a + b) % 2 ^ 64

/-- `a - b` on `std::uint64_t`. -/
def SimTime.sub (a b : Nat) : Nat := (a + (2 ^ 64 - b)) % 2 ^ 64

/-- The value of a `std::uint32_t` expression. -/
def u32 (n : Nat) : Nat := n % 2 ^ 32

theorem SimTime.add_of_lt {a b : Nat} (h : a + b < 2 ^ 64) : SimTime.add a b = a + b :=
  Nat.mod_eq_of_lt h

theorem SimTime.add_lt (a b : Nat) : SimTime.add a b < 2 ^ 64 :=
  Nat.mod_lt _ (by decide)

theorem SimTime.sub_of_le {a b : Nat} (hle : b ≤ a) (ha : a < 2 ^ 64) :
    SimTime.sub a b = a - b := by
  unfold SimTime.sub
  omega

theorem u32_of_lt {n : Nat} (h : n < 2 ^ 32) : u32 n = n :=
  Nat.mod_eq_of_lt h

theorem u32_lt (n : Nat) : u32 n < 2 ^ 32 :=
  Nat.mod_lt _ (by decide)

/-- What a call of the source can end in besides returning. The first four are
the exception types it throws, with their texts. `undefined` is an operation
C++ leaves undefined (a division by zero, `front` of an empty vector), and
`diverges` is a loop of the source that never ends. -/
inductive HbmError where
  | logicError (what : String)
  | invalidArgument (what : String)
  | outOfRange (what : String)
  | overflowError (what : String)
  | undefined
  | diverges
deriving DecidableEq, Repr

/-- The error is one of the source's `std::overflow_error`s. -/
def HbmError.isOverflow : HbmError → Bool
  | .overflowError _ => true
  | _ => false

/-- The error is one of the source's `std::logic_error`s. -/
def HbmError.isLogic : HbmError → Bool
  | .logicError _ => true
  | _ => false

inductive HbmOp where
  | read | write
deriving DecidableEq, Repr

def HbmOp.isWrite : HbmOp → Bool
  | .read => false
  | .write => true

theorem HbmOp.beq_read (op : HbmOp) : (op == .read) = !op.isWrite := by
  cases op <;> rfl

/-- `HbmCommand` without its `Count` sentinel. -/
inductive HbmCommand where
  | act | preBank | preAll | read | write | readAuto | writeAuto
  | refreshAllBank | refreshPerBank | rfmAllBank | rfmPerBank
deriving DecidableEq, Repr

/-- The standard-neutral command names the scheduler sees. -/
inductive DramCommand where
  | activate | prechargeBank | prechargeAll | read | write | readAuto | writeAuto
  | refreshAllBank | refreshPerBank | rfmAllBank | rfmPerBank
deriving DecidableEq, Repr

def toDramCommand : HbmCommand → DramCommand
  | .act => .activate
  | .preBank => .prechargeBank
  | .preAll => .prechargeAll
  | .read => .read
  | .write => .write
  | .readAuto => .readAuto
  | .writeAuto => .writeAuto
  | .refreshAllBank => .refreshAllBank
  | .refreshPerBank => .refreshPerBank
  | .rfmAllBank => .rfmAllBank
  | .rfmPerBank => .rfmPerBank

def toHbmCommand : DramCommand → HbmCommand
  | .activate => .act
  | .prechargeBank => .preBank
  | .prechargeAll => .preAll
  | .read => .read
  | .write => .write
  | .readAuto => .readAuto
  | .writeAuto => .writeAuto
  | .refreshAllBank => .refreshAllBank
  | .refreshPerBank => .refreshPerBank
  | .rfmAllBank => .rfmAllBank
  | .rfmPerBank => .rfmPerBank

@[simp] theorem toHbmCommand_toDramCommand (k : HbmCommand) :
    toHbmCommand (toDramCommand k) = k := by
  cases k <;> rfl

/-- `is_data_command`. -/
def HbmCommand.isData : HbmCommand → Bool
  | .read | .write | .readAuto | .writeAuto => true
  | _ => false

/-- The command acts on every bank of its channel. -/
def HbmCommand.isAllBank : HbmCommand → Bool
  | .preAll | .refreshAllBank | .rfmAllBank => true
  | _ => false

inductive TrafficClass where
  | demand | prefetch | fill | writeback | background
deriving DecidableEq, Repr

structure RequestMetadata where
  trafficClass : TrafficClass := .demand
  priority : Nat := 0
  opaqueTag : Nat := 0
  orderingDomain : Nat := 0
deriving DecidableEq, Repr

structure HbmTransaction where
  id : Nat := 0
  op : HbmOp := .read
  address : Nat := 0
  sizeBytes : Nat := 0
  arrivalTime : Nat := 0
  client : Nat := 0
  metadata : RequestMetadata := {}
deriving DecidableEq, Repr

inductive SubmitStatus where
  | accepted | backpressure | invalidArgument | duplicateId | arrivalInFuture
deriving DecidableEq, Repr

/-- `token` is the accepted transaction's id, 0 when nothing was accepted. -/
structure SubmitResult where
  status : SubmitStatus := .invalidArgument
  token : Nat := 0
  message : String := ""
deriving DecidableEq, Repr

inductive HbmAccessClass where
  | rowHit | rowClosed | rowConflict
deriving DecidableEq, Repr

/-- Mutually exclusive latency stages of one access. -/
structure HbmLatencyBreakdown where
  queueWait : Nat := 0
  commandPhase : Nat := 0
  dataReady : Nat := 0
  dataBusWait : Nat := 0
  dataService : Nat := 0
deriving DecidableEq, Repr

/-- The sum of the stages, as an exact number. -/
def HbmLatencyBreakdown.total (b : HbmLatencyBreakdown) : Nat :=
  b.queueWait + b.commandPhase + b.dataReady + b.dataBusWait + b.dataService

structure HbmCompletion where
  id : Nat := 0
  op : HbmOp := .read
  address : Nat := 0
  sizeBytes : Nat := 0
  client : Nat := 0
  channel : Nat := 0
  accessClass : HbmAccessClass := .rowClosed
  arrivalTime : Nat := 0
  completionTime : Nat := 0
  latency : Nat := 0
  latencyBreakdown : HbmLatencyBreakdown := {}
  metadata : RequestMetadata := {}
deriving DecidableEq, Repr

end HbmSim
