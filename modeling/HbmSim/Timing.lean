import HbmSim.Mapping

/-!
Timing parameters, the constraint tables built from them, and the engine that
turns a history of issued commands into the earliest legal time of the next one
(`timing_spec.h`, `timing_spec.cpp`, `timing_engine.h`, `timing_engine.cpp`).
-/

namespace HbmSim

inductive TimingScope where
  | bank | bankGroup | sid | pseudoChannel | channel
deriving DecidableEq, Repr

/-- `static_cast<std::uint64_t>(scope)`. -/
def TimingScope.toNat : TimingScope → Nat
  | .bank => 0
  | .bankGroup => 1
  | .sid => 2
  | .pseudoChannel => 3
  | .channel => 4

structure TimingConstraint where
  preceding : HbmCommand
  following : HbmCommand
  scope : TimingScope
  distance : Nat := 1
  delay : Nat := 0
deriving DecidableEq, Repr

structure HbmTimingSpec where
  tCommand : Nat := 0
  tRcd : Nat := 14000
  tRp : Nat := 14000
  tCl : Nat := 14000
  tRas : Nat := 33000
  tRc : Nat := 47000
  tCcd : Nat := 4000
  tRrd : Nat := 4000
  tFaw : Nat := 16000
  tWtr : Nat := 7500
  tRtw : Nat := 7500
  tRfc : Nat := 260000
  tRfcpb : Nat := 160000
  tRfmab : Nat := 260000
  tRfmpb : Nat := 160000
  useExtendedHbmTiming : Bool := false
  tRcdRd : Nat := 0
  tRcdWr : Nat := 0
  tCcdS : Nat := 0
  tCcdL : Nat := 0
  tCcdR : Nat := 0
  tRrdS : Nat := 0
  tRrdL : Nat := 0
  tWtrS : Nat := 0
  tWtrL : Nat := 0
  tWr : Nat := 0
  tRtp : Nat := 0
  tCwl : Nat := 0
  tBl : Nat := 0
  tPpd : Nat := 0
  tRrefd : Nat := 0
  tRefi : Nat := 0
deriving DecidableEq, Repr

namespace HbmTimingSpec

/-- The constraint rows of a canonical (extended) profile. -/
def extendedConstraints (t : HbmTimingSpec) : List TimingConstraint :=
  [ ⟨.act, .read, .bank, 1, t.tRcdRd⟩,
    ⟨.act, .write, .bank, 1, t.tRcdWr⟩,
    ⟨.preBank, .act, .bank, 1, t.tRp⟩,
    ⟨.act, .preBank, .bank, 1, t.tRas⟩,
    ⟨.act, .act, .bank, 1, t.tRc⟩,
    ⟨.read, .preBank, .bank, 1, t.tRtp⟩,
    ⟨.write, .preBank, .bank, 1, SimTime.add (SimTime.add t.tCwl t.tBl) t.tWr⟩,
    ⟨.read, .read, .pseudoChannel, 1, t.tCcdS⟩,
    ⟨.write, .write, .pseudoChannel, 1, t.tCcdS⟩,
    ⟨.read, .write, .pseudoChannel, 1, t.tRtw⟩,
    ⟨.write, .read, .pseudoChannel, 1, SimTime.add (SimTime.add t.tCwl t.tBl) t.tWtrS⟩,
    ⟨.read, .read, .bankGroup, 1, t.tCcdL⟩,
    ⟨.write, .write, .bankGroup, 1, t.tCcdL⟩,
    ⟨.write, .read, .bankGroup, 1, SimTime.add (SimTime.add t.tCwl t.tBl) t.tWtrL⟩,
    ⟨.read, .read, .sid, 1, t.tCcdS⟩,
    ⟨.write, .write, .sid, 1, t.tCcdS⟩,
    ⟨.act, .act, .bankGroup, 1, t.tRrdL⟩,
    ⟨.act, .act, .pseudoChannel, 1, t.tRrdS⟩,
    ⟨.act, .act, .pseudoChannel, 4, t.tFaw⟩,
    ⟨.preBank, .preBank, .pseudoChannel, 1, t.tPpd⟩,
    ⟨.refreshAllBank, .act, .channel, 1, t.tRfc⟩,
    ⟨.refreshPerBank, .act, .bank, 1, t.tRfcpb⟩,
    ⟨.refreshPerBank, .act, .pseudoChannel, 1, t.tRrefd⟩,
    ⟨.refreshPerBank, .refreshPerBank, .pseudoChannel, 1, t.tRrefd⟩,
    ⟨.rfmAllBank, .act, .channel, 1, t.tRfmab⟩,
    ⟨.rfmPerBank, .act, .bank, 1, t.tRfmpb⟩,
    ⟨.act, .refreshPerBank, .bank, 1, t.tRc⟩,
    ⟨.preBank, .refreshPerBank, .bank, 1, t.tRp⟩,
    ⟨.act, .refreshAllBank, .pseudoChannel, 1, t.tRc⟩,
    ⟨.preBank, .refreshAllBank, .pseudoChannel, 1, t.tRp⟩,
    ⟨.refreshPerBank, .refreshAllBank, .pseudoChannel, 1, t.tRfcpb⟩,
    ⟨.act, .rfmPerBank, .bank, 1, t.tRc⟩ ]

/-- The constraint rows of a legacy compact profile. -/
def compactConstraints (t : HbmTimingSpec) : List TimingConstraint :=
  [ ⟨.act, .read, .bank, 1, t.tRcd⟩,
    ⟨.act, .write, .bank, 1, t.tRcd⟩,
    ⟨.preBank, .act, .bank, 1, t.tRp⟩,
    ⟨.act, .preBank, .bank, 1, t.tRas⟩,
    ⟨.act, .act, .bank, 1, t.tRc⟩,
    ⟨.read, .read, .pseudoChannel, 1, t.tCcd⟩,
    ⟨.write, .write, .pseudoChannel, 1, t.tCcd⟩,
    ⟨.read, .write, .pseudoChannel, 1, t.tRtw⟩,
    ⟨.write, .read, .pseudoChannel, 1, t.tWtr⟩,
    ⟨.act, .act, .bankGroup, 1, t.tRrd⟩,
    ⟨.act, .act, .pseudoChannel, 1, t.tRrd⟩,
    ⟨.act, .act, .pseudoChannel, 4, t.tFaw⟩,
    ⟨.refreshAllBank, .act, .channel, 1, t.tRfc⟩,
    ⟨.refreshPerBank, .act, .bank, 1, t.tRfcpb⟩,
    ⟨.rfmAllBank, .act, .channel, 1, t.tRfmab⟩,
    ⟨.rfmPerBank, .act, .bank, 1, t.tRfmpb⟩,
    ⟨.act, .refreshPerBank, .bank, 1, t.tRc⟩,
    ⟨.act, .rfmPerBank, .bank, 1, t.tRc⟩ ]

def constraints (t : HbmTimingSpec) : List TimingConstraint :=
  if t.useExtendedHbmTiming then t.extendedConstraints else t.compactConstraints

def hbm4_8000 : HbmTimingSpec :=
  { tCommand := 500
    tRcd := 39 * 500
    tRp := 33 * 500
    tCl := 20 * 500
    tRas := 57 * 500
    tRc := 57 * 500 + 33 * 500
    tCcd := 2 * 500
    tRrd := 5 * 500
    tFaw := 30 * 500
    tWtr := (10 + 2 + 9) * 500
    tRtw := 15 * 500
    tRfc := 450000
    tRfcpb := 280000
    tRfmab := 450000
    tRfmpb := 280000 }

end HbmTimingSpec

/-! ### The engine -/

/-- Commands that share one history: `PreAll` counts as a precharge and the
auto-precharge variants as their plain data commands. -/
def timingCommand : HbmCommand → HbmCommand
  | .preAll => .preBank
  | .readAuto => .read
  | .writeAuto => .write
  | k => k

@[simp] theorem timingCommand_timingCommand (k : HbmCommand) :
    timingCommand (timingCommand k) = timingCommand k := by
  cases k <;> rfl

/-- The index of the resource `scope` names in an address. -/
def HbmAddress.scopeIndex (a : HbmAddress) : TimingScope → Nat
  | .bank => a.flatBank
  | .bankGroup => a.flatBankGroup
  | .sid => a.flatSid
  | .pseudoChannel => a.flatPseudoChannel
  | .channel => a.flatChannel

/-- The packed key of a scoped resource in the history map. -/
def resourceKey (scope : TimingScope) (a : HbmAddress) : Nat :=
  (scope.toNat <<< 56) ||| a.scopeIndex scope

/-- `history_`: for each resource key and command, the most recent issue times,
newest first (the deque's `history[size - d]` is entry `d - 1` here). A key the
map does not hold has empty histories. -/
abbrev CommandHistory := Nat → HbmCommand → List Nat

namespace HbmTimingEngine

/-- Push one issue time on one resource's history, keeping the last four. -/
def recordAt (history : CommandHistory) (key : Nat) (command : HbmCommand) (at_ : Nat) :
    CommandHistory :=
  fun key' command' =>
    if key' = key ∧ command' = command then (at_ :: history key command).take 4
    else history key' command'

def scopes : List TimingScope := [.bank, .bankGroup, .sid, .pseudoChannel, .channel]

/-- `record`: stamp the command on each of the address's five resources. -/
def record (history : CommandHistory) (command : HbmCommand) (address : HbmAddress)
    (at_ : Nat) : CommandHistory :=
  scopes.foldl
    (fun h scope => recordAt h (resourceKey scope address) (timingCommand command) at_) history

/-- One row of the constraint scan in `earliest_issue`. -/
def constraintStep (history : CommandHistory) (command : HbmCommand) (address : HbmAddress)
    (earliest : Nat) (constraint : TimingConstraint) : Except HbmError Nat :=
  if constraint.following ≠ timingCommand command then .ok earliest
  else
    match (history (resourceKey constraint.scope address)
        constraint.preceding)[constraint.distance - 1]? with
    | none => .ok earliest
    | some precedingTime =>
        if precedingTime > maxSimTime - constraint.delay then
          .error (.overflowError "timing constraint overflows SimTime")
        else .ok (max earliest (precedingTime + constraint.delay))

def earliestIssue (constraints : List TimingConstraint) (history : CommandHistory)
    (command : HbmCommand) (address : HbmAddress) (now : Nat) : Except HbmError Nat :=
  constraints.foldlM (constraintStep history command address) now

end HbmTimingEngine

end HbmSim
