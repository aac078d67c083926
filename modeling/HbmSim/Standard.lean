import HbmSim.Timing
import HbmSim.Bandwidth

/-!
The DRAM standards (`hbm_standard.h`, `hbm_standard.cpp`) and the bank state
they act on (`bank_state.h`).

`HbmStandard` enumerates the three final classes of the source; the virtual
functions are definitions by cases on it, and the prerequisite and transition
tables are the source's arrays.
-/

namespace HbmSim

structure HbmBankState where
  openRow : Option Nat := none
  prechargePending : Bool := false
  refreshPending : Bool := false
  rfmPending : Bool := false
  activationCount : Nat := 0
deriving DecidableEq, Repr

structure HbmOrganization where
  topology : HbmTopology := {}
  columnsPerRow : Nat := 0
  rowsPerBank : Nat := 0
  physicalBurstBytes : Nat := 32
  addressInterleaveBytes : Nat := 32
  addressMapping : AddressMapping := .linear
  pseudoChannelRate : BandwidthRate := {}
deriving DecidableEq, Repr

structure HbmSpeedBin where
  tckPs : Nat := 0
  nBl : Nat := 0
  nCl : Nat := 0
  nRcdRd : Nat := 0
  nRcdWr : Nat := 0
  nRp : Nat := 0
  nRas : Nat := 0
  nWr : Nat := 0
  nRtp : Nat := 0
  nCwl : Nat := 0
  nCcdS : Nat := 0
  nCcdL : Nat := 0
  nRrdS : Nat := 0
  nRrdL : Nat := 0
  nWtrS : Nat := 0
  nWtrL : Nat := 0
  nRtw : Nat := 0
  nFaw : Nat := 0
  nPpd : Nat := 0
  tRfcPs : Nat := 0
  tRfcpbPs : Nat := 0
  nCcdR : Nat := 0
  nRrefd : Nat := 0
  tRefiPs : Nat := 0
deriving DecidableEq, Repr

/-- `cycles`, on `std::uint64_t`. -/
def cycles (count tck : Nat) : Nat := (count * tck) % 2 ^ 64

/-- The picosecond timing a speed bin stands for; its `tCK` must be non-zero. -/
def HbmSpeedBin.timings (b : HbmSpeedBin) : HbmTimingSpec :=
  let c := fun n => cycles n b.tckPs
  { useExtendedHbmTiming := true
    tCl := c b.nCl
    tRcd := c b.nRcdRd
    tRcdRd := c b.nRcdRd
    tRcdWr := c b.nRcdWr
    tRp := c b.nRp
    tRas := c b.nRas
    tRc := SimTime.add (c b.nRas) (c b.nRp)
    tWr := c b.nWr
    tRtp := c b.nRtp
    tCwl := c b.nCwl
    tBl := c b.nBl
    tCcdS := c b.nCcdS
    tCcdL := c b.nCcdL
    tCcdR := c b.nCcdR
    tCcd := c b.nCcdS
    tRrdS := c b.nRrdS
    tRrdL := c b.nRrdL
    tRrd := c b.nRrdS
    tFaw := c b.nFaw
    tWtrS := c b.nWtrS
    tWtrL := c b.nWtrL
    tWtr := SimTime.add (SimTime.add (c b.nCwl) (c b.nBl)) (c b.nWtrS)
    tRtw := c b.nRtw
    tPpd := c b.nPpd
    tRrefd := c b.nRrefd
    tRefi := b.tRefiPs
    tRfc := b.tRfcPs
    tRfcpb := b.tRfcpbPs
    tRfmab := b.tRfcPs
    tRfmpb := b.tRfcpbPs }

def HbmSpeedBin.resolve (b : HbmSpeedBin) : Except HbmError HbmTimingSpec :=
  if b.tckPs = 0 then .error (.invalidArgument "speed bin tCK must be non-zero")
  else .ok b.timings

inductive CommandCondition where
  | targetClosed | differentRow | targetOpen | anyOpen
deriving DecidableEq, Repr

inductive CommandScope where
  | bank | channel
deriving DecidableEq, Repr

inductive CommandBus where
  | unified | row | column
deriving DecidableEq, Repr

inductive BankTransition where
  | none | openTarget | close
deriving DecidableEq, Repr

structure CommandPrerequisite where
  requested : HbmCommand
  condition : CommandCondition
  prerequisite : HbmCommand
deriving DecidableEq, Repr

structure CommandTransition where
  command : HbmCommand
  scope : CommandScope
  transition : BankTransition
deriving DecidableEq, Repr

structure CommandDecision where
  command : HbmCommand := .act
  scope : CommandScope := .bank
  finalCommand : Bool := false
deriving DecidableEq, Repr

inductive HbmStandard where
  | hbm2 | hbm3 | hbm4
deriving DecidableEq, Repr

namespace HbmStandard

def hbm2Prerequisites : List CommandPrerequisite :=
  [ ⟨.read, .differentRow, .preBank⟩, ⟨.read, .targetClosed, .act⟩,
    ⟨.write, .differentRow, .preBank⟩, ⟨.write, .targetClosed, .act⟩,
    ⟨.readAuto, .differentRow, .preBank⟩, ⟨.readAuto, .targetClosed, .act⟩,
    ⟨.writeAuto, .differentRow, .preBank⟩, ⟨.writeAuto, .targetClosed, .act⟩,
    ⟨.refreshPerBank, .targetOpen, .preBank⟩, ⟨.refreshAllBank, .anyOpen, .preAll⟩ ]

def hbm3Prerequisites : List CommandPrerequisite :=
  hbm2Prerequisites ++ [⟨.rfmPerBank, .targetOpen, .preBank⟩, ⟨.rfmAllBank, .anyOpen, .preAll⟩]

def hbm2Transitions : List CommandTransition :=
  [ ⟨.act, .bank, .openTarget⟩, ⟨.preBank, .bank, .close⟩, ⟨.preAll, .channel, .close⟩,
    ⟨.read, .bank, .none⟩, ⟨.write, .bank, .none⟩, ⟨.readAuto, .bank, .close⟩,
    ⟨.writeAuto, .bank, .close⟩, ⟨.refreshAllBank, .channel, .close⟩,
    ⟨.refreshPerBank, .bank, .close⟩ ]

def hbm3Transitions : List CommandTransition :=
  hbm2Transitions ++ [⟨.rfmAllBank, .channel, .close⟩, ⟨.rfmPerBank, .bank, .close⟩]

def commonSupport : HbmCommand → Bool
  | .act | .preBank | .preAll | .read | .write | .readAuto | .writeAuto
  | .refreshAllBank | .refreshPerBank => true
  | .rfmAllBank | .rfmPerBank => false

def hbm2SpeedBin : HbmSpeedBin :=
  { tckPs := 1000, nBl := 2, nCl := 14, nRcdRd := 14, nRcdWr := 12, nRp := 14, nRas := 34,
    nWr := 16, nRtp := 5, nCwl := 5, nCcdS := 2, nCcdL := 4, nRrdS := 4, nRrdL := 4,
    nWtrS := 6, nWtrL := 8, nRtw := 15, nFaw := 15, nPpd := 0, tRfcPs := 260000,
    tRfcpbPs := 160000, nCcdR := 2, nRrefd := 8, tRefiPs := 3900000 }

def hbm3SpeedBin : HbmSpeedBin :=
  { tckPs := 625, nBl := 2, nCl := 20, nRcdRd := 31, nRcdWr := 15, nRp := 26, nRas := 45,
    nWr := 33, nRtp := 9, nCwl := 10, nCcdS := 2, nCcdL := 4, nRrdS := 4, nRrdL := 5,
    nWtrS := 7, nWtrL := 10, nRtw := 17, nFaw := 24, nPpd := 2, tRfcPs := 260000,
    tRfcpbPs := 200000, nCcdR := 2, nRrefd := 13, tRefiPs := 3900000 }

def organization : HbmStandard → HbmOrganization
  | .hbm2 =>
      { topology := ⟨1, 1, 2, 4, 4⟩, columnsPerRow := 32, rowsPerBank := 16384
        physicalBurstBytes := 32, addressInterleaveBytes := 32
        addressMapping := .hbm2PseudoChannelBrc, pseudoChannelRate := ⟨32, 2000⟩ }
  | .hbm3 =>
      { topology := ⟨1, 1, 2, 4, 4⟩, columnsPerRow := 32, rowsPerBank := 16384
        physicalBurstBytes := 32, addressInterleaveBytes := 32
        addressMapping := .linear, pseudoChannelRate := ⟨32, 1250⟩ }
  | .hbm4 =>
      { topology := ⟨1, 1, 2, 2, 8⟩, columnsPerRow := 256, rowsPerBank := 16384
        physicalBurstBytes := 32, addressInterleaveBytes := 32
        addressMapping := .linear, pseudoChannelRate := ⟨64, 1000⟩ }

def timing : HbmStandard → HbmTimingSpec
  | .hbm2 => hbm2SpeedBin.timings
  | .hbm3 => hbm3SpeedBin.timings
  | .hbm4 => HbmTimingSpec.hbm4_8000

-- The constructors resolve their speed bins, so both bins must have a `tCK`.
example : hbm2SpeedBin.resolve = .ok (timing .hbm2) ∧ hbm3SpeedBin.resolve = .ok (timing .hbm3) :=
  ⟨rfl, rfl⟩

def supports : HbmStandard → HbmCommand → Bool
  | .hbm2, k => commonSupport k
  | .hbm3, k | .hbm4, k => commonSupport k || k == .rfmAllBank || k == .rfmPerBank

def prerequisites : HbmStandard → List CommandPrerequisite
  | .hbm2 => hbm2Prerequisites
  | .hbm3 | .hbm4 => hbm3Prerequisites

def transitions : HbmStandard → List CommandTransition
  | .hbm2 => hbm2Transitions
  | .hbm3 | .hbm4 => hbm3Transitions

def commandDuration : HbmStandard → HbmCommand → Nat
  | .hbm2, k => if k = .act then 2 * hbm2SpeedBin.tckPs else hbm2SpeedBin.tckPs
  | .hbm3, k =>
      match k with
      | .act => (3 * hbm3SpeedBin.tckPs + 1) / 2
      | .preBank | .preAll | .refreshAllBank | .refreshPerBank | .rfmAllBank | .rfmPerBank =>
          (hbm3SpeedBin.tckPs + 1) / 2
      | _ => hbm3SpeedBin.tckPs
  | .hbm4, _ => HbmTimingSpec.hbm4_8000.tCommand

/-- Data commands go on the column bus, everything else on the row bus. -/
def commandBus (_ : HbmStandard) (k : HbmCommand) : CommandBus :=
  if k.isData then .column else .row

def transitionFor (s : HbmStandard) (command : HbmCommand) :
    Except HbmError CommandTransition :=
  match s.transitions.find? (fun t => t.command = command) with
  | some t => .ok t
  | none => .error (.logicError "standard has no transition for command")

end HbmStandard

def CommandCondition.holds (condition : CommandCondition) (targetRow : Nat)
    (targetBank : HbmBankState) (anyBankOpen : Bool) : Bool :=
  match condition with
  | .targetClosed => targetBank.openRow.isNone
  | .differentRow =>
      match targetBank.openRow with
      | some row => row != targetRow
      | none => false
  | .targetOpen => targetBank.openRow.isSome
  | .anyOpen => anyBankOpen

namespace HbmStandard

def resolvePrerequisite (s : HbmStandard) (requested : HbmCommand) (targetRow : Nat)
    (targetBank : HbmBankState) (anyBankOpen : Bool) : Except HbmError CommandDecision :=
  if s.supports requested then
    match s.prerequisites.find? (fun rule =>
        rule.requested = requested ∧ rule.condition.holds targetRow targetBank anyBankOpen) with
    | some rule =>
        match s.transitionFor rule.prerequisite with
        | .ok t => .ok ⟨rule.prerequisite, t.scope, false⟩
        | .error e => .error e
    | none =>
        match s.transitionFor requested with
        | .ok t => .ok ⟨requested, t.scope, true⟩
        | .error e => .error e
  else .error (.logicError "requested command is not supported by standard")

end HbmStandard

/-- What a transition does to one bank. -/
def BankTransition.apply (t : BankTransition) (targetRow : Nat)
    (bank : HbmBankState) : HbmBankState :=
  match t with
  | .none => bank
  | .openTarget => { bank with openRow := some targetRow, prechargePending := false }
  | .close => { bank with openRow := Option.none, prechargePending := false }

end HbmSim
